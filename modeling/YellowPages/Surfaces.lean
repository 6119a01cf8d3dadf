import YellowPages.Consul.Views
import YellowPages.Consuldns.Answers
import YellowPages.Server.Service

/-!
# One registry behind three surfaces

A seed answers the same question over gRPC, over the Consul HTTP API and over DNS. All three read the
registry and filter by `health.Visible`, and each renders what is left in its own way.
-/

namespace YellowPages

open Lib Store Consul Consuldns

/-! ## Checks and visibility -/

theorem lease_passing_or_critical (o : Options) (svc : ServiceRec) (now : Time) :
    (o.lease svc now).1 = .passing ∨ (o.lease svc now).1 = .critical := by
  unfold Options.lease
  split
  · exact Or.inr rfl
  · dsimp only
    split
    · exact Or.inl rfl
    · split <;> exact Or.inr rfl

theorem health_of_mem_lookup {m : Memory} (h : Filed m) {now : Time} {q : Query} {e : ServiceEntry}
    (he : e ∈ (m.lookup now q).entries) : e.health = .passing ∨ e.health = .critical := by
  obtain ⟨-, svc, -, -, -, hentry⟩ := (mem_lookup_stored now q h e).mp he
  rw [hentry]
  exact lease_passing_or_critical m.opts svc now

section Checks

variable {e : ServiceEntry} (hstate : e.health = .passing ∨ e.health = .critical)
include hstate

/-- An entry is hidden from `?passing` if one of its checks is critical. -/
theorem visible_iff_synthChecks :
    Health.visible e { onlyPassing := true } = true ↔
      ∀ c ∈ synthChecks e, c.status ≠ "critical" := by
  rcases hstate with hhealth | hhealth <;> cases hmaint : e.maintenance <;>
    simp [Health.visible, synthChecks, healthStatus, hhealth, hmaint]

theorem visible_iff_serviceCheck :
    Health.visible e { onlyPassing := true } = true ↔ (serviceCheck e).status = "passing" := by
  rcases hstate with hhealth | hhealth <;> cases hmaint : e.maintenance <;>
    simp [Health.visible, serviceCheck, healthStatus, hhealth, hmaint]

end Checks

/-! ## The three answers -/

/-- The healthy instances that the query selects, on the surfaces of a seed with registry `m`. `msg`
is the DNS answer to `question`, of the zone `dom`. -/
structure SurfacesAgree (m : Memory) (now : Time) (query : Query) (h : Consuldns.Handler)
    (question : Question) (dom : String) (msg : Msg) (healthy : List ServiceEntry) : Prop where
  rpc : (Server.lookup m now (some (Wire.queryToProto { query with onlyHealthy := true }))).entries =
    healthy.map Wire.entryToProto
  http : healthService true (ReadRequest.resolve { query := query } m now) = healthy.map toHealth
  /-- Without `?passing` the others are there too, each with a critical check. -/
  http_checks : ∀ v ∈ healthService false (ReadRequest.resolve { query := query } m now),
    (v ∈ healthService true (ReadRequest.resolve { query := query } m now) ↔
      ∀ c ∈ v.checks, c.status ≠ "critical")
  /-- The state endpoint has no query but the datacenter. -/
  state : query.tags = [] →
    (healthState "passing" (readCatalog m now query.datacenter "" [])).filter
      (·.serviceName = query.name) =
      healthy.map serviceCheck
  dns : msg.answer.Perm (healthy.map (h.srvRR question query.datacenter dom))
  nxdomain : msg.rcode = .nameError ↔
    healthService false (ReadRequest.resolve { query := query } m now) = []

section State

variable {m : Memory} (hfiled : Filed m) (now : Time) (dc name : String) (hname : name ≠ "")
include hfiled hname

theorem healthState_eq :
    (healthState "passing" (readCatalog m now dc "" [])).filter (·.serviceName = name) =
      (Health.filter (m.lookup now { name := name, datacenter := dc }).entries
        { onlyPassing := true }).map
        serviceCheck := by
  have hread : readCatalog m now dc "" [] = (m.lookup now { datacenter := dc }).entries := rfl
  have hnamed : (m.lookup now { name := name, datacenter := dc }).entries =
      (readCatalog m now dc "" []).filter (·.service.name = name) := by
    rw [hread, lookup_eq_filter now _ hfiled, lookup_eq_filter now { datacenter := dc } hfiled,
      List.filter_filter]
    congr 1
    funext e
    simp [Selects, hname]
  have hstatus : ∀ e ∈ readCatalog m now dc "" [],
      (decide ((serviceCheck e).status = "passing")) = Health.visible e { onlyPassing := true } := by
    intro e he
    rw [Bool.eq_iff_iff, decide_eq_true_iff]
    exact (visible_iff_serviceCheck (health_of_mem_lookup hfiled he)).symm
  rw [hnamed, Health.filter, healthState, healthChecks, List.filter_filter, List.filter_map,
    List.filter_filter]
  congr 1
  refine List.filter_congr fun e he => ?_
  rw [Bool.eq_iff_iff, ← hstatus e he]
  simp only [Function.comp_apply, Bool.and_eq_true, decide_eq_true_iff]
  simp [serviceCheck, and_comm]

end State

section Surfaces

variable {m : Memory} (hfiled : Filed m) {now : Time} {h : Consuldns.Handler} {pq : ParsedQuery}
  (hkind : pq.kind = .service)
include hfiled hkind

theorem lookup_asksFor :
    (m.lookup now (h.queryFor pq)).entries = (m.lookup now {}).entries.filter (h.asksFor pq) := by
  rw [lookup_eq_filter now (h.queryFor pq) hfiled]
  congr 1
  funext e
  simp [Handler.asksFor, hkind]

theorem filter_lookup_offers :
    Health.filter (m.lookup now (h.queryFor pq)).entries { onlyPassing := true } =
      (m.lookup now {}).entries.filter (h.offers pq) := by
  rw [lookup_asksFor hfiled hkind, Health.filter, List.filter_filter]
  congr 1
  funext e
  exact Bool.and_comm _ _

theorem surfacesAgree (hresolve : h.resolve = StoreRegistry.resolve m now)
    (hservice : pq.service ≠ "") (shuffle : RangeOrder ServiceEntry) (range : RangeOrder String)
    {name dom : String} (hdom : h.domainFor name = some dom)
    (hpq : parseName h.unicode name dom = pq) :
    SurfacesAgree m now (h.queryFor pq) h ⟨name, .srv⟩ dom (h.answer shuffle range {} ⟨name, .srv⟩)
      (Health.filter (m.lookup now (h.queryFor pq)).entries { onlyPassing := true }) := by
  have hserves : Serves h.resolve (m.lookup now {}).entries := hresolve ▸ serves_store hfiled now
  obtain ⟨hrcode, hanswer, -⟩ :=
    Handler.answer_spec shuffle range ⟨name, .srv⟩ dom hserves pq hdom (by simp) (by simp)
    hpq (by simp [hkind])
  refine ⟨rfl, rfl, fun v hv => ?_, fun htags => ?_, ?_, ?_⟩
  · obtain ⟨e, he, rfl⟩ := List.mem_map.mp hv
    have hvisible := visible_iff_synthChecks (health_of_mem_lookup hfiled he)
    refine ⟨fun hpassing => ?_, fun hchecks => ?_⟩
    · -- Another entry may be rendered alike, and has the same checks then.
      obtain ⟨e', he', hsame⟩ := List.mem_map.mp hpassing
      obtain ⟨hmem, hvis⟩ := List.mem_filter.mp he'
      rw [← hsame]
      exact (visible_iff_synthChecks (health_of_mem_lookup hfiled hmem)).mp hvis
    · exact List.mem_map_of_mem (List.mem_filter.mpr ⟨he, hvisible.mpr hchecks⟩)
  · have hquery :
      h.queryFor pq = { name := pq.service, datacenter := (h.queryFor pq).datacenter } := by
      simp only [Handler.queryFor] at htags ⊢
      rw [htags]
    rw [hquery]
    exact healthState_eq hfiled now _ pq.service hservice
  · have hrr : h.serviceRR ⟨name, .srv⟩ (h.effectiveDC pq.datacenter) dom =
        some ∘ h.srvRR ⟨name, .srv⟩ (h.queryFor pq).datacenter dom := rfl
    rw [hanswer, filter_lookup_offers hfiled hkind, Handler.records, if_neg (by simp [hkind]),
      if_pos rfl, hrr,
      List.filterMap_eq_map]
    exact (shuffle.perm _).map _
  · rw [hrcode, ← lookup_asksFor hfiled hkind]
    simp [healthService, ReadRequest.resolve]

end Surfaces

/-- For a service that an SRV question names, gRPC, HTTP and DNS answer with the same healthy instances,
after any calls on the registry and at any time. -/
theorem surfaces_agree (opts : Options) (calls : List Call) (now : Time) (h : Consuldns.Handler)
    (hresolve : h.resolve = StoreRegistry.resolve ((newMemory opts).run calls).1 now)
    (shuffle : RangeOrder ServiceEntry) (range : RangeOrder String) (name dom : String)
    (hdom : h.domainFor name = some dom) (pq : ParsedQuery) (hpq : parseName h.unicode name dom = pq)
    (hkind : pq.kind = .service) (hservice : pq.service ≠ "") :
    let m := ((newMemory opts).run calls).1
    SurfacesAgree m now (h.queryFor pq) h ⟨name, .srv⟩ dom (h.answer shuffle range {} ⟨name, .srv⟩)
      (Health.filter (m.lookup now (h.queryFor pq)).entries { onlyPassing := true }) :=
  surfacesAgree (Filed.run opts calls) hkind hresolve hservice shuffle range hdom hpq

theorem surfaces_agree_db :
    let query : Query := { name := "db", datacenter := "dc1" }
    (Server.lookup office 0
      (some (Wire.queryToProto { query with onlyHealthy := true }))).entries.length = 1 ∧
      SurfacesAgree office 0 query officeDNS ⟨"db.service.consul.", .srv⟩ "consul."
        (officeDNS.answer .asStored .asStored {} ⟨"db.service.consul.", .srv⟩)
        (Health.filter (office.lookup 0 query).entries { onlyPassing := true }) :=
  ⟨by decide +kernel,
    surfaces_agree {} _ 0 officeDNS rfl .asStored .asStored "db.service.consul." "consul."
    (by decide +kernel) { kind := .service, service := "db" } (by decide +kernel) rfl (by decide)⟩

end YellowPages
