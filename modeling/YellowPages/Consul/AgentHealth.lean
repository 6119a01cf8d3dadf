import YellowPages.Consul.Views

/-!
# The checks of an agent and its health by name

`internal/consul/checks.go`. `agent/checks` files the made-up checks of the local services by check id.
`agent/health/service/name` sums up the local instances of one name.
-/

namespace YellowPages.Consul

open Lib Store

/-! ## The endpoints -/

/-- The entries of this node, out of those that `Resolve` returned. -/
def localEntries (nodeID : String) (entries : List ServiceEntry) : List ServiceEntry :=
  entries.filter (·.node.id = nodeID)

def agentChecks (entries : List ServiceEntry) : Map HealthCheck :=
  fileBy HealthCheck.checkID (entries.flatMap synthChecks)

/-- The loop of `aggregateStatus`, with the status so far. -/
def aggregateFrom : String → List ServiceEntry → String
  | status, [] => status
  | status, e :: rest =>
    let s := healthStatus e.health
    if e.maintenance ∨ s = "critical" then "critical"
    else aggregateFrom (if s = "warning" then "warning" else status) rest

def aggregateStatus (entries : List ServiceEntry) : String := aggregateFrom "passing" entries

/-- `none` is a 404. -/
def agentHealthByName (name : String) (entries : List ServiceEntry) : Option String :=
  let matched := entries.filter (·.service.name = name)
  if matched = [] then none else some (aggregateStatus matched)

/-! ## Check ids -/

theorem mem_synthChecks {e : ServiceEntry} {c : HealthCheck} (h : c ∈ synthChecks e) :
    c.checkID = "serfHealth" ∧ c.serviceName = "" ∨
      c.serviceName = e.service.name ∧
        (c.checkID = "service:" ++ e.service.id ∧ c.status = healthStatus e.health ∨
        c.checkID = "_service_maintenance:" ++ e.service.id ∧ e.maintenance = true ∧
          c.status = "critical") := by
  unfold synthChecks at h
  dsimp only at h
  split at h
  · simp only [List.cons_append, List.nil_append, List.mem_cons, List.not_mem_nil, or_false] at h
    rcases h with rfl | rfl | rfl <;> simp_all
  · simp only [List.mem_cons, List.not_mem_nil, or_false] at h
    rcases h with rfl | rfl <;> simp

theorem append_left_cancel {pre a b : String} (h : pre ++ a = pre ++ b) : a = b := by
  have hlist := congrArg String.toList h
  rw [String.toList_append, String.toList_append] at hlist
  exact String.toList_injective (List.append_cancel_left hlist)

theorem service_ne_maintenance (a b : String) : "service:" ++ a ≠ "_service_maintenance:" ++ b := by
  intro h
  simpa using congrArg String.toList h

theorem service_ne_serf (a : String) : "service:" ++ a ≠ "serfHealth" := by
  intro h
  simpa using congrArg String.toList h

theorem maintenance_ne_serf (a : String) : "_service_maintenance:" ++ a ≠ "serfHealth" := by
  intro h
  simpa using congrArg String.toList h

/-- Two checks of services under one id say the same, if the ids of the services are distinct. -/
theorem same_check {entries : List ServiceEntry} (hdistinct : (entries.map (·.service.id)).Nodup)
    {e e' : ServiceEntry} (he : e ∈ entries) (he' : e' ∈ entries) {c c' : HealthCheck}
    (hc : c ∈ synthChecks e) (hc' : c' ∈ synthChecks e') (hid : c'.checkID = c.checkID)
    (hname : c.serviceName ≠ "") :
    c'.serviceName = c.serviceName ∧ c'.status = c.status := by
  have hsame : e'.service.id = e.service.id → e' = e :=
    fun h => List.inj_on_of_nodup_map hdistinct he' he h
  rcases mem_synthChecks hc with ⟨-, hnone⟩ | ⟨hn, ⟨hcid, hst⟩ | ⟨hcid, hm, hst⟩⟩
  · exact absurd hnone hname
  · rcases mem_synthChecks hc' with ⟨hcid', -⟩ | ⟨hn', ⟨hcid', hst'⟩ | ⟨hcid', -, -⟩⟩
    · exact absurd (hcid.symm.trans (hid.symm.trans hcid')) (service_ne_serf _)
    · obtain rfl := hsame (append_left_cancel (hcid'.symm.trans (hid.trans hcid)))
      exact ⟨hn'.trans hn.symm, hst'.trans hst.symm⟩
    · exact absurd (hcid.symm.trans (hid.symm.trans hcid')) (service_ne_maintenance _ _)
  · rcases mem_synthChecks hc' with ⟨hcid', -⟩ | ⟨hn', ⟨hcid', -⟩ | ⟨hcid', -, hst'⟩⟩
    · exact absurd (hcid.symm.trans (hid.symm.trans hcid')) (maintenance_ne_serf _)
    · exact absurd (hcid'.symm.trans (hid.trans hcid)) (service_ne_maintenance _ _)
    · obtain rfl := hsame (append_left_cancel (hcid'.symm.trans (hid.trans hcid)))
      exact ⟨hn'.trans hn.symm, hst'.trans hst.symm⟩

/-- A service of this name has a check of this status. -/
def Says (checks : Map HealthCheck) (name status : String) : Prop :=
  ∃ (k : String) (c : HealthCheck), checks[k]? = some c ∧ c.serviceName = name ∧ c.status = status

theorem says_agentChecks {entries : List ServiceEntry}
    (hdistinct : (entries.map (·.service.id)).Nodup) {name : String} (hname : name ≠ "")
    (status : String) :
    Says (agentChecks entries) name status ↔ ∃ e ∈ entries, e.service.name = name ∧
      (healthStatus e.health = status ∨ e.maintenance = true ∧ status = "critical") := by
  constructor
  · rintro ⟨k, c, hc, rfl, rfl⟩
    obtain ⟨hmem, -⟩ := mem_of_fileBy hc
    obtain ⟨e, he, hce⟩ := List.mem_flatMap.mp hmem
    rcases mem_synthChecks hce with ⟨-, hnone⟩ | ⟨hn, ⟨-, hst⟩ | ⟨-, hm, hst⟩⟩
    · exact absurd hnone hname
    · exact ⟨e, he, hn.symm, Or.inl hst.symm⟩
    · exact ⟨e, he, hn.symm, Or.inr ⟨hm, hst⟩⟩
  · rintro ⟨e, he, rfl, hst⟩
    obtain ⟨c, hc, hn, hcst⟩ : ∃ c ∈ synthChecks e, c.serviceName = e.service.name ∧
        c.status = status := by
      unfold synthChecks
      rcases hst with rfl | ⟨hm, rfl⟩
      · by_cases hm : e.maintenance <;> simp [hm]
      · simp [hm]
    obtain ⟨b, hb⟩ : ∃ b, (agentChecks entries)[c.checkID]? = some b :=
      exists_fileBy (List.mem_flatMap.mpr ⟨e, he, hc⟩)
    obtain ⟨hmem, hid⟩ := mem_of_fileBy hb
    obtain ⟨e', he', hbe⟩ := List.mem_flatMap.mp hmem
    obtain ⟨hbn, hbst⟩ := same_check hdistinct he he' hc hbe hid (by rwa [hn])
    exact ⟨_, b, hb, hbn.trans hn, hbst.trans hcst⟩

/-! ## The summary -/

theorem aggregateFrom_eq (status : String) (entries : List ServiceEntry) :
    aggregateFrom status entries =
      if ∃ e ∈ entries, e.maintenance = true ∨ healthStatus e.health = "critical" then "critical"
      else if ∃ e ∈ entries, healthStatus e.health = "warning" then "warning" else status := by
  induction entries generalizing status with
  | nil => simp [aggregateFrom]
  | cons e rest ih =>
    unfold aggregateFrom
    dsimp only
    split <;> rename_i hcritical
    · simp [hcritical]
    · rw [ih]
      by_cases hwarning : healthStatus e.health = "warning" <;> simp_all

/-- The summary of a name is the worst that the checks of its services say. -/
structure HealthAgrees (checks : Map HealthCheck) (byName : String → Option String) : Prop where
  unknown : ∀ name, name ≠ "" → (byName name = none ↔ ∀ status, ¬ Says checks name status)
  critical : ∀ name, name ≠ "" → (byName name = some "critical" ↔ Says checks name "critical")
  warning : ∀ name, name ≠ "" →
    (byName name = some "warning" ↔ ¬ Says checks name "critical" ∧ Says checks name "warning")
  passing : ∀ name, name ≠ "" → (byName name = some "passing" ↔
    (∃ status, Says checks name status) ∧ ∀ status, Says checks name status → status = "passing")

theorem healthStatus_cases (h : HealthState) :
    healthStatus h = "passing" ∨ healthStatus h = "warning" ∨ healthStatus h = "critical" := by
  cases h <;> simp [healthStatus]

section Agreement

variable {entries : List ServiceEntry} (hdistinct : (entries.map (·.service.id)).Nodup)
  {name : String} (hname : name ≠ "")
include hdistinct hname

theorem says_cases {status : String} (h : Says (agentChecks entries) name status) :
    status = "passing" ∨ status = "warning" ∨ status = "critical" := by
  obtain ⟨e, -, -, rfl | ⟨-, rfl⟩⟩ := (says_agentChecks hdistinct hname status).mp h
  · exact healthStatus_cases e.health
  · exact Or.inr (Or.inr rfl)

open Classical in
theorem agentHealthByName_eq : agentHealthByName name entries =
    if ∃ status, Says (agentChecks entries) name status then
      some (if Says (agentChecks entries) name "critical" then "critical"
        else if Says (agentChecks entries) name "warning" then "warning" else "passing")
    else none := by
  have hknown : (∃ status, Says (agentChecks entries) name status) ↔
      entries.filter (·.service.name = name) ≠ [] := by
    simp only [says_agentChecks hdistinct hname, ne_eq, List.filter_eq_nil_iff, decide_eq_true_eq,
      not_forall, not_not]
    constructor
    · rintro ⟨status, e, he, hn, -⟩
      exact ⟨e, he, hn⟩
    · rintro ⟨e, he, hn⟩
      exact ⟨_, e, he, hn, Or.inl rfl⟩
  have hcritical : Says (agentChecks entries) name "critical" ↔
      ∃ e ∈ entries.filter (·.service.name = name),
      e.maintenance = true ∨ healthStatus e.health = "critical" := by
    simp [says_agentChecks hdistinct hname, and_assoc, or_comm]
  have hwarning : Says (agentChecks entries) name "warning" ↔
      ∃ e ∈ entries.filter (·.service.name = name),
      healthStatus e.health = "warning" := by
    simp [says_agentChecks hdistinct hname, and_assoc]
  unfold agentHealthByName aggregateStatus
  dsimp only
  rw [aggregateFrom_eq]
  by_cases hmatched : entries.filter (·.service.name = name) = []
  · rw [if_pos hmatched, if_neg (by rw [hknown]; exact not_not.mpr hmatched)]
  · rw [if_neg hmatched, if_pos (hknown.mpr hmatched)]
    simp only [hcritical, hwarning]

end Agreement

theorem healthAgrees {entries : List ServiceEntry} (hdistinct : (entries.map (·.service.id)).Nodup) :
    HealthAgrees (agentChecks entries) (agentHealthByName · entries) := by
  refine ⟨fun name hname => ?_, fun name hname => ?_, fun name hname => ?_,
    fun name hname => ?_⟩ <;>
    rw [agentHealthByName_eq hdistinct hname] <;>
    by_cases hknown : ∃ status, Says (agentChecks entries) name status
  · simp [hknown]
  · rw [if_neg hknown]
    simpa using hknown
  · rw [if_pos hknown]
    by_cases hc : Says (agentChecks entries) name "critical" <;>
      by_cases hw : Says (agentChecks entries) name "warning" <;> simp [hc, hw]
  · rw [if_neg hknown]
    simpa using fun h => hknown ⟨_, h⟩
  · rw [if_pos hknown]
    by_cases hc : Says (agentChecks entries) name "critical" <;>
      by_cases hw : Says (agentChecks entries) name "warning" <;> simp [hc, hw]
  · rw [if_neg hknown]
    simpa using fun _ h => hknown ⟨_, h⟩
  · rw [if_pos hknown]
    by_cases hc : Says (agentChecks entries) name "critical"
    · simp only [hc, if_true, Option.some.injEq, hknown, true_and]
      exact iff_of_false (by decide) fun hall => absurd (hall _ hc) (by decide)
    · by_cases hw : Says (agentChecks entries) name "warning"
      · simp only [hc, hw, if_true, if_false, Option.some.injEq, hknown, true_and]
        exact iff_of_false (by decide) fun hall => absurd (hall _ hw) (by decide)
      · simp only [hc, hw, if_false, hknown, true_and, true_iff]
        intro status hsays
        rcases says_cases hdistinct hname hsays with rfl | rfl | rfl
        · rfl
        · exact absurd hsays hw
        · exact absurd hsays hc
  · simp [hknown]

/-- On a seed, after any calls and at any time, the health of a local service by name is the worst that
`agent/checks` has of it, and it is not found if there is no check of it. -/
theorem agent_health_agrees (opts : Options) (calls : List Call) (now : Time) (nodeID : String) :
    let entries := localEntries nodeID (((newMemory opts).run calls).1.lookup now {}).entries
    HealthAgrees (agentChecks entries) (agentHealthByName · entries) := by
  intro entries
  have hsorted := List.Pairwise.filter (fun e : ServiceEntry => decide (e.node.id = nodeID))
    (lookup_strictlySorted now {} (Filed.run opts calls))
  refine healthAgrees (List.pairwise_map.mpr (hsorted.imp_of_mem fun {a b} ha hb hlt hid => ?_))
  -- the keys differ, and the nodes are the same
  have hnode : a.node.id = b.node.id := by
    have ha' := (List.mem_filter.mp ha).2
    have hb' := (List.mem_filter.mp hb).2
    exact (of_decide_eq_true ha').trans (of_decide_eq_true hb').symm
  exact hlt.ne (by simp only [ServiceEntry.key, hnode, hid])

end YellowPages.Consul
