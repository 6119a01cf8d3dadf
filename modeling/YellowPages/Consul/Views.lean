import YellowPages.Consul.Filter
import YellowPages.Consul.Read
import YellowPages.Health
import YellowPages.Lib.Keyed

/-!
# The read endpoints of the Consul HTTP API

`internal/consul`. Each endpoint renders the entries that `read` found. The catalog is flat, the
health entries are nested, and the checks in them are made up from the health of the entry.
-/

namespace YellowPages.Consul

open Lib Store

/-! ## What is rendered -/

/-- The node object of `catalog/nodes` and of the health entries. -/
structure CatalogNode where
  id : String
  node : String
  address : String
  datacenter : String
  metadata : Map String
  taggedAddresses : Map String
  deriving DecidableEq

structure CatalogService where
  id : String
  node : String
  address : String
  datacenter : String
  nodeMeta : Map String
  taggedAddresses : Map String
  serviceID : String
  serviceName : String
  serviceAddress : String
  servicePort : Int
  serviceTags : List String
  serviceMeta : Map String
  serviceWeights : Weights
  createIndex : Nat
  modifyIndex : Nat
  deriving DecidableEq

structure HealthService where
  id : String
  service : String
  tags : List String
  address : String
  metadata : Map String
  port : Int
  weights : Weights
  deriving DecidableEq

deriving instance DecidableEq for HealthCheck

structure HealthServiceEntry where
  node : CatalogNode
  service : HealthService
  checks : List HealthCheck
  deriving DecidableEq

def toNode (n : Node) : CatalogNode :=
  { id := n.id, node := n.displayName, address := n.address, datacenter := n.datacenter,
    metadata := n.metadata, taggedAddresses := n.taggedAddresses }

def toCatalog (e : ServiceEntry) : CatalogService :=
  { id := e.node.id, node := e.node.displayName, address := e.node.address,
    datacenter := e.node.datacenter,
    nodeMeta := e.node.metadata, taggedAddresses := e.node.taggedAddresses,
    serviceID := e.service.id, serviceName := e.service.name, serviceAddress := e.reachableAddress,
    servicePort := e.service.port.toNat, serviceTags := e.service.tags,
    serviceMeta := e.service.metadata,
    serviceWeights := e.service.weights.orDefault, createIndex := e.createIndex,
    modifyIndex := e.modifyIndex }

def toHealth (e : ServiceEntry) : HealthServiceEntry :=
  { node := toNode e.node
    service :=
      { id := e.service.id, service := e.service.name, tags := e.service.tags,
        address := e.reachableAddress,
        metadata := e.service.metadata, port := e.service.port.toNat,
        weights := e.service.weights.orDefault }
    checks := synthChecks e }

/-- The one check of the service. In maintenance it is critical. -/
def serviceCheck (e : ServiceEntry) : HealthCheck :=
  { node := e.node.displayName, checkID := "service:" ++ e.service.id,
    name := "Service '" ++ e.service.name ++ "' check",
    status := if e.maintenance then "critical" else healthStatus e.health,
    serviceID := e.service.id, serviceName := e.service.name }

/-! ## The endpoints -/

def catalogService (entries : List ServiceEntry) : List CatalogService := entries.map toCatalog

/-- `passing` is whether the request has `?passing`. -/
def healthService (passing : Bool) (entries : List ServiceEntry) : List HealthServiceEntry :=
  (if passing then Health.filter entries { onlyPassing := true } else entries).map toHealth

def mergeTags (into add : List String) : List String :=
  sortBy id (addAll id into add)

def catalogServices (entries : List ServiceEntry) : Map (List String) :=
  entries.foldl
    (fun out e =>
      out.insert e.service.name (mergeTags (out[e.service.name]?.getD []) e.service.tags)) ∅

/-- The node of each entry, unless it was listed before. -/
def catalogNodes (entries : List ServiceEntry) : List CatalogNode :=
  addAll CatalogNode.id [] (entries.map fun e => toNode e.node)

def healthChecks (entries : List ServiceEntry) : List HealthCheck := entries.map serviceCheck

def healthState (state : String) (entries : List ServiceEntry) : List HealthCheck :=
  (healthChecks entries).filter fun c => state = "any" ∨ c.status = state

/-! ## Tags -/

theorem mem_mergeTags (into add : List String) (t : String) : t ∈ mergeTags into add ↔ t ∈ into ∨
    t ∈ add := by
  rw [mergeTags, mem_sortBy]
  simpa using mem_keys_addAll id into add t

theorem mergeTags_strictlySorted {into : List String} (h : into.Nodup) (add : List String) :
    StrictlySorted id (mergeTags into add) :=
  sortBy_strictlySorted id _ (nodup_addAll id (by simpa using h) add)

/-- What `catalogServices` has for a name, after the entries it has seen. -/
theorem catalogServices_spec (entries : List ServiceEntry) (name : String) :
    ((catalogServices entries)[name]? = none ↔ ∀ e ∈ entries, e.service.name ≠ name) ∧
      ∀ tags, (catalogServices entries)[name]? = some tags → StrictlySorted id tags ∧
        ∀ t, t ∈ tags ↔ ∃ e ∈ entries, e.service.name = name ∧ t ∈ e.service.tags := by
  induction entries using List.reverseRecOn with
  | nil => simp [catalogServices]
  | append_singleton rest e ih =>
    have hsnoc : catalogServices (rest ++ [e]) = (catalogServices rest).insert e.service.name
        (mergeTags ((catalogServices rest)[e.service.name]?.getD []) e.service.tags) := by
      rw [catalogServices, List.foldl_append]
      rfl
    rw [hsnoc, Std.ExtTreeMap.getElem?_insert]
    simp only [Std.compare_eq_iff_eq]
    split
    · rename_i hname
      subst hname
      refine ⟨by simp, fun tags htags => ?_⟩
      obtain rfl := Option.some.inj htags
      obtain ⟨hnone, hsome⟩ := ih
      cases hold : (catalogServices rest)[e.service.name]? with
      | none =>
        refine ⟨mergeTags_strictlySorted List.nodup_nil _, fun t => ?_⟩
        rw [mem_mergeTags]
        have hrest := hnone.mp hold
        simp only [Option.getD_none, List.not_mem_nil, false_or, List.mem_append, List.mem_singleton]
        constructor
        · exact fun ht => ⟨e, Or.inr rfl, rfl, ht⟩
        · rintro ⟨e', he' | rfl, hname, ht⟩
          · exact absurd hname (hrest e' he')
          · exact ht
      | some old =>
        obtain ⟨hsorted, hmem⟩ := hsome old hold
        refine ⟨mergeTags_strictlySorted (hsorted.imp ne_of_lt) _, fun t => ?_⟩
        rw [mem_mergeTags, Option.getD_some, hmem]
        simp only [List.mem_append, List.mem_singleton]
        constructor
        · rintro (⟨e', he', hname, ht⟩ | ht)
          · exact ⟨e', Or.inl he', hname, ht⟩
          · exact ⟨e, Or.inr rfl, rfl, ht⟩
        · rintro ⟨e', he' | rfl, hname, ht⟩
          · exact Or.inl ⟨e', he', hname, ht⟩
          · exact Or.inr ht
    · rename_i hname
      have hold : ∀ P : ServiceEntry → Prop, (∃ e' ∈ rest ++ [e], e'.service.name = name ∧ P e') ↔
          ∃ e' ∈ rest, e'.service.name = name ∧ P e' := by
        intro P
        simp [or_and_right, exists_or, hname]
      refine ⟨?_, fun tags htags => ?_⟩
      · rw [ih.1]
        simp [or_imp, forall_and, hname]
      · obtain ⟨hsorted, hmem⟩ := ih.2 tags htags
        exact ⟨hsorted, fun t => (hmem t).trans (hold (t ∈ ·.service.tags)).symm⟩

/-! ## The catalog -/

theorem catalogNodes_spec (entries : List ServiceEntry) :
    ((catalogNodes entries).map (·.id)).Nodup ∧
      (∀ e ∈ entries, e.node.id ∈ (catalogNodes entries).map (·.id)) ∧
      ∀ n ∈ catalogNodes entries, ∃ e ∈ entries, toNode e.node = n := by
  refine ⟨nodup_addAll CatalogNode.id (by simp) _, fun e he => ?_, fun n hn => ?_⟩
  · refine (mem_keys_addAll CatalogNode.id _ _ _).mpr (Or.inr ?_)
    rw [List.map_map]
    exact List.mem_map_of_mem (f := CatalogNode.id ∘ fun e => toNode e.node) he
  · rcases mem_of_mem_addAll CatalogNode.id hn with hnil | hn
    · exact absurd hnil List.not_mem_nil
    · exact List.mem_map.mp hn

/-- What the catalog says of one state of a registry: `services` of all services, `nodes` of all
nodes, and `service` of the instances of one name that have the given tags. -/
structure CatalogAgrees (services : Map (List String)) (nodes : List CatalogNode)
    (service : String → List String → List CatalogService) : Prop where
  name_iff : ∀ name : String, name ≠ "" → (services[name]? ≠ none ↔ service name [] ≠ [])
  tag_iff : ∀ (name : String) tags, name ≠ "" → services[name]? = some tags → ∀ t, t ∈ tags ↔
    service name [t] ≠ []
  sorted : ∀ (name : String) tags, services[name]? = some tags → StrictlySorted id tags
  nodup : (nodes.map (·.id)).Nodup
  /-- The node of an instance is listed, with the attributes that the instance has it with. -/
  node_listed : ∀ name tags, ∀ s ∈ service name tags,
    ∃ n ∈ nodes, s.id = n.id ∧ s.node = n.node ∧ s.address = n.address ∧
      s.datacenter = n.datacenter ∧
      s.nodeMeta = n.metadata ∧ s.taggedAddresses = n.taggedAddresses
  /-- No node is listed without a service. -/
  node_hosts : ∀ n ∈ nodes, ∃ s ∈ service "" [], s.id = n.id

section Catalog

variable {m : Memory} (now : Time) (dc : String)

def readCatalog (m : Memory) (now : Time) (dc name : String) (tags : List String) : List ServiceEntry :=
  ReadRequest.resolve { query := { name := name, tags := tags, datacenter := dc } } m now

theorem mem_readCatalog (h : Filed m) (name : String) (tags : List String) (e : ServiceEntry) :
    e ∈ readCatalog m now dc name tags ↔ e ∈ readCatalog m now dc "" [] ∧
      (name = "" ∨ e.service.name = name) ∧ ∀ t ∈ tags, t ∈ e.service.tags := by
  simp only [readCatalog, ReadRequest.resolve]
  rw [lookup_eq_filter now { name := name, tags := tags, datacenter := dc } h,
    lookup_eq_filter now { datacenter := dc } h]
  rw [List.mem_filter, List.mem_filter, decide_eq_true_iff, decide_eq_true_iff]
  simp only [Selects, List.not_mem_nil, false_imp_iff, implies_true, and_true, true_or, true_and]
  tauto

/-- Entries of one lookup that have the same node id have the same node. -/
theorem node_eq_of_mem_lookup (h : Filed m) {q : Query} {e e' : ServiceEntry}
    (he : e ∈ (m.lookup now q).entries) (he' : e' ∈ (m.lookup now q).entries)
    (hid : e.node.id = e'.node.id) : e.node = e'.node := by
  obtain ⟨-, -, hnode, -⟩ := (mem_lookup_stored now q h e).mp he
  obtain ⟨-, -, hnode', -⟩ := (mem_lookup_stored now q h e').mp he'
  rw [hid] at hnode
  exact Option.some.inj (hnode.symm.trans hnode')

end Catalog

/-- The catalog endpoints agree on the registry, after any calls and at any time: on the names, on
the tags of each name, and on the nodes. -/
theorem catalog_agrees (opts : Options) (calls : List Call) (now : Time) (dc : String) :
    let m := ((newMemory opts).run calls).1
    let all := readCatalog m now dc "" []
    CatalogAgrees (catalogServices all) (catalogNodes all) fun name tags =>
      catalogService (readCatalog m now dc name tags) := by
  intro m all
  have hfiled : Filed m := Filed.run opts calls
  have hspec := catalogServices_spec all
  obtain ⟨hnodup, hlisted, hhosts⟩ := catalogNodes_spec all
  have hnonempty : ∀ name, name ≠ "" → ∀ tags,
      (catalogService (readCatalog m now dc name tags) ≠ [] ↔
        ∃ e ∈ all, e.service.name = name ∧ ∀ t ∈ tags, t ∈ e.service.tags) := by
    intro name hname tags
    rw [catalogService, ne_eq, List.map_eq_nil_iff, List.eq_nil_iff_forall_not_mem, not_forall_not]
    simp only [mem_readCatalog now dc hfiled name tags, hname, false_or, all]
  refine ⟨fun name hname => ?_, fun name tags hname htags t => ?_,
    fun name tags htags => ((hspec name).2 tags htags).1,
    hnodup, fun name tags s hs => ?_, fun n hn => ?_⟩
  · rw [hnonempty name hname, ne_eq, (hspec name).1]
    simp
  · rw [hnonempty name hname, ((hspec name).2 tags htags).2]
    simp
  · obtain ⟨e, he, rfl⟩ := List.mem_map.mp hs
    obtain ⟨hall, -⟩ := (mem_readCatalog now dc hfiled name tags e).mp he
    obtain ⟨n, hn, hid⟩ := List.mem_map.mp (hlisted e hall)
    obtain ⟨e', he', rfl⟩ := hhosts n hn
    have hnode : e.node = e'.node := node_eq_of_mem_lookup now hfiled hall he' hid.symm
    refine ⟨toNode e'.node, hn, ?_⟩
    simp only [toCatalog, toNode, hnode, and_self]
  · obtain ⟨e, he, rfl⟩ := hhosts n hn
    exact ⟨toCatalog e, List.mem_map_of_mem he, rfl⟩

end YellowPages.Consul
