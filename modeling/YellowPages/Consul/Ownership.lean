import YellowPages.Consul.Handler
import YellowPages.Server.Authz

/-!
# Write ownership on a seed

A seed serves its own registry over gRPC and over the Consul HTTP API. The two surfaces check the
owner in different places: the interceptor takes the node from the request, the HTTP handler takes
the seed's own node.
-/

namespace YellowPages.Consul

open Lib Store Server

/-! ## The registry of a seed -/

/-- `StoreRegistry`, apart from the store itself. -/
structure StoreRegistry where
  node : Node

namespace StoreRegistry

variable (r : StoreRegistry) (m : Memory) (clk : Nat → Time)

def result (o : Outcome (Option StoreError)) : Memory × Option String :=
  (o.mem, o.ret.map StoreError.message)

def registerServices (reg : Registration) : Memory × Option String :=
  result (m.register clk { reg with node := r.node })

def registerExternal (reg : Registration) : Memory × Option String := result (m.register clk reg)

def removeService (serviceID : String) : Memory × Option String :=
  result (m.deregisterService r.node.id serviceID)

/-- An unknown node is not an error. -/
def removeNode (order : RangeOrder String) (nodeID : String) : Memory × Option String :=
  let o := m.deregister order nodeID
  (o.mem, if o.ret = some .notFound then none else o.ret.map StoreError.message)

def renewService (serviceID : String) : Memory × Option String :=
  result (m.renew clk r.node.id [serviceID])

def failService (serviceID : String) : Memory × Option String :=
  result (m.fail clk r.node.id serviceID)

def setMaintenance (serviceID : String) (enabled : Bool) : Memory × Option String :=
  result (m.setMaintenance clk r.node.id serviceID enabled)

/-- A seed has no cache, so its reads do not fail. -/
def resolve (now : Time) (q : Query) : Except String LookupResult := .ok (m.lookup now q)

end StoreRegistry

/-! ## An enforcing seed -/

/-- A seed with `acl.mode=enforce`. Both surfaces use the same tokens and the same node id. -/
structure EnforcingSeed where
  node : Node
  identity : Cred.Identity
  parseDuration : String → Option Duration

namespace EnforcingSeed

variable (seed : EnforcingSeed)

def authz : Cred.Authorizer := ⟨.enforce⟩

def handler : Handler where
  info := { id := seed.node.id, name := seed.node.name, datacenter := seed.node.datacenter,
            address := seed.node.address }
  identity := seed.identity
  authz := some authz
  parseDuration := seed.parseDuration

def registry : StoreRegistry := ⟨seed.node⟩

end EnforcingSeed

inductive Put where
  | registerService (body : Option RegisterInput)
  | deregisterService (serviceID : String)
  | checkRegister
  | checkDeregister (checkID : String)
  | checkUpdate (verb : CheckVerb) (checkID : String)
  | serviceMaintenance (serviceID enable : String)
  | catalogRegister (body : Option CatalogRegisterInput)
  | catalogDeregister (body : Option CatalogDeregisterInput)

def EnforcingSeed.put (seed : EnforcingSeed) (m : Memory) (clk : Nat → Time)
    (order : RangeOrder String) (token : String) : Put → Memory × Response
  | .registerService body =>
    seed.handler.registerService (seed.registry.registerServices m clk) token m body
  | .deregisterService serviceID =>
    seed.handler.deregisterService (seed.registry.removeService m) token m serviceID
  | .checkRegister | .checkDeregister _ => Handler.checkAccept m
  | .checkUpdate verb checkID =>
    seed.handler.checkUpdate (seed.registry.renewService m clk)
      (seed.registry.failService m clk) token m
      verb checkID
  | .serviceMaintenance serviceID enable =>
    seed.handler.serviceMaintenance (seed.registry.setMaintenance m clk) token m serviceID enable
  | .catalogRegister body =>
    seed.handler.catalogRegister (StoreRegistry.registerExternal m clk) token m body
  | .catalogDeregister body =>
    seed.handler.catalogDeregister (StoreRegistry.removeNode m order) token m body

/-- A request on one of the two surfaces, with what identifies its caller. -/
inductive Request where
  | rpc (commonName token : String) (rpc : Rpc)
  | http (token : String) (put : Put)

def Request.principal (seed : EnforcingSeed) : Request → Principal
  | .rpc commonName token _ => seed.identity.principal commonName token
  | .http token _ => seed.identity.principalForToken token

def EnforcingSeed.serve (seed : EnforcingSeed) (m : Memory) (clk : Nat → Time)
    (order : RangeOrder String) (req : Request) : Memory :=
  match req with
  | .rpc _ _ rpc =>
    (unaryAuthz EnforcingSeed.authz (req.principal seed) m rpc (handle m clk order rpc)).1
  | .http token put => (seed.put m clk order token put).1

/-! ## What a request can change -/

def Put.namedNode : Put → Option String
  | .catalogRegister body => body.map (·.node)
  | .catalogDeregister body => body.map (·.node)
  | _ => none

/-- A PUT request by the seed's own principal that names another node. -/
def Request.Foreign (seed : EnforcingSeed) : Request → Prop
  | .rpc .. => False
  | .http token put =>
    Cred.Owns (seed.identity.principalForToken token) seed.node.id ∧ seed.node.id ≠ "" ∧
      ∃ n ∈ put.namedNode, n ≠ "" ∧ n ≠ seed.node.id

namespace EnforcingSeed

variable (seed : EnforcingSeed) (m : Memory) (clk : Nat → Time) (order : RangeOrder String)

theorem authorizeWrite_eq_none_iff (token : String) :
    seed.handler.authorizeWrite token = none ↔
      Cred.Owns (seed.identity.principalForToken token) seed.node.id ∧ seed.node.id ≠ "" := by
  have hauthz : seed.handler.authorizeWrite token =
      if (authz.authorize (seed.identity.principalForToken token) seed.node.id).isSome then
        some (httpError "permission denied" 403) else none := rfl
  rw [← Cred.authorize_eq_none_iff (a := authz) rfl, hauthz]
  cases authz.authorize (seed.identity.principalForToken token) seed.node.id <;> simp

theorem changed_of_authorized {token n : String} {rest : Memory × Response}
    (h : (seed.handler.authorized token m rest).1.nodes[n]? ≠ m.nodes[n]?) :
    (Cred.Owns (seed.identity.principalForToken token) seed.node.id ∧ seed.node.id ≠ "") ∧
      rest.1.nodes[n]? ≠ m.nodes[n]? := by
  unfold Handler.authorized at h
  cases hauth : seed.handler.authorizeWrite token with
  | none =>
    rw [hauth] at h
    exact ⟨(seed.authorizeWrite_eq_none_iff token).mp hauth, h⟩
  | some denied =>
    rw [hauth] at h
    exact absurd rfl h

/-- A call for a node that has a name changes that node only. -/
theorem named_of_changed {c : Call} {node n : String} (hc : c.target = some node) (hnode : node ≠ "")
    (h : (c.exec m).1.nodes[n]? ≠ m.nodes[n]?) : some node = some n ∧ n ≠ "" := by
  obtain rfl : n = node := eq_target_of_changed hc h
  exact ⟨rfl, hnode⟩

/-- A PUT request that changes a node comes from the owner of the seed's node. It changes that
node, or the one its body names. -/
theorem put_changed {token n : String} {put : Put}
    (h : (seed.put m clk order token put).1.nodes[n]? ≠ m.nodes[n]?) :
    (Cred.Owns (seed.identity.principalForToken token) seed.node.id ∧ seed.node.id ≠ "") ∧
      (n = seed.node.id ∨ put.namedNode = some n ∧ n ≠ "") := by
  cases put with
  | registerService body =>
    obtain ⟨howner, h⟩ := seed.changed_of_authorized m h
    refine ⟨howner, Or.inl ?_⟩
    cases body with
    | none => exact absurd rfl h
    | some input =>
      dsimp only at h
      split at h
      · exact absurd rfl h
      · rw [finish_fst] at h
        exact eq_target_of_changed (c := .register clk _) rfl h
  | deregisterService serviceID =>
    obtain ⟨howner, h⟩ := seed.changed_of_authorized m h
    rw [finish_fst] at h
    exact ⟨howner,
      Or.inl (eq_target_of_changed (c := .deregisterService seed.node.id serviceID) rfl h)⟩
  | checkRegister => exact absurd rfl h
  | checkDeregister checkID => exact absurd rfl h
  | checkUpdate verb checkID =>
    obtain ⟨howner, h⟩ := seed.changed_of_authorized m h
    refine ⟨howner, Or.inl ?_⟩
    dsimp only at h
    split at h
    · rw [finish_fst] at h
      exact eq_target_of_changed (c := .fail clk seed.node.id _) rfl h
    · rw [finish_fst] at h
      exact eq_target_of_changed (c := .renew clk seed.node.id _) rfl h
  | serviceMaintenance serviceID enable =>
    obtain ⟨howner, h⟩ := seed.changed_of_authorized m h
    rw [finish_fst] at h
    exact ⟨howner,
      Or.inl (eq_target_of_changed (c := .setMaintenance clk seed.node.id serviceID _) rfl h)⟩
  | catalogRegister body =>
    obtain ⟨howner, h⟩ := seed.changed_of_authorized m h
    refine ⟨howner, Or.inr ?_⟩
    cases body with
    | none => exact absurd rfl h
    | some input =>
      dsimp only at h
      split at h <;> rename_i hnode
      · exact absurd rfl h
      · rw [finish_fst] at h
        exact named_of_changed m (c := .register clk (seed.handler.externalRegistration input))
          rfl hnode h
  | catalogDeregister body =>
    obtain ⟨howner, h⟩ := seed.changed_of_authorized m h
    refine ⟨howner, Or.inr ?_⟩
    cases body with
    | none => exact absurd rfl h
    | some input =>
      dsimp only at h
      split at h <;> rename_i hnode
      · exact absurd rfl h
      · rw [finish_fst] at h
        exact named_of_changed m (c := .deregister order input.node) rfl hnode h

theorem externalRegistration_names (h : Handler) (input : CatalogRegisterInput) :
    ∀ svc ∈ (h.externalRegistration input).services, svc.name ≠ "" := by
  intro svc hsvc
  unfold Handler.externalRegistration at hsvc
  dsimp only at hsvc
  split at hsvc
  · cases hsvc
  · split at hsvc <;> rename_i hname
    · cases hsvc
    · obtain rfl := List.mem_singleton.mp hsvc
      exact hname

theorem named_node_changes {token n : String} {put : Put}
    (howner : Cred.Owns (seed.identity.principalForToken token) seed.node.id ∧ seed.node.id ≠ "")
    (hput : put.namedNode = some n) (hn : n ≠ "") :
    ∃ m, Reachable m ∧ (seed.put m clk order token put).1.nodes[n]? ≠ m.nodes[n]? := by
  have hauth := (seed.authorizeWrite_eq_none_iff token).mpr howner
  cases put with
  | catalogRegister body =>
    obtain ⟨input, rfl, rfl⟩ := Option.map_eq_some_iff.mp hput
    refine ⟨newMemory {}, ⟨{}, [], rfl⟩, ?_⟩
    obtain ⟨r, hr, -⟩ :=
      register_hasMeta (newMemory {}) clk (seed.handler.externalRegistration input) hn
      (externalRegistration_names seed.handler input)
    have hafter : (seed.put (newMemory {}) clk order token (.catalogRegister (some input))).1 =
        ((newMemory {}).register clk (seed.handler.externalRegistration input)).mem := by
      simp only [put, Handler.catalogRegister, Handler.authorized, hauth, if_neg hn, finish_fst]
      rfl
    rw [hafter]
    intro hsame
    rw [show ((newMemory {}).register clk
      (seed.handler.externalRegistration input)).mem.nodes[input.node]? =
      some r from hr] at hsame
    cases hsame
  | catalogDeregister body =>
    obtain ⟨input, rfl, rfl⟩ := Option.map_eq_some_iff.mp hput
    -- A store that has the node, without any service.
    let reg : Registration := { node := { id := input.node } }
    have hreg : HasMeta ((newMemory {}).register clk reg).mem input.node reg.node :=
      register_hasMeta (newMemory {}) clk reg hn (by simp [reg])
    refine ⟨((newMemory {}).register clk reg).mem, ⟨{}, [.register clk reg], rfl⟩, ?_⟩
    generalize ((newMemory {}).register clk reg).mem = m at hreg
    obtain ⟨r, hr, -⟩ := hreg
    have hafter : (seed.put m clk order token (.catalogDeregister (some input))).1 =
        (m.deregister order input.node).mem := by
      simp only [put, Handler.catalogDeregister, Handler.authorized, hauth, if_neg hn, finish_fst]
      rfl
    rw [hafter, deregister_removes, hr]
    simp
  | _ => cases hput

end EnforcingSeed

/-- On an enforcing seed a request changes no node but one that its principal owns, exactly if it
is not a catalog write by the seed's own principal that names another node. -/
theorem writes_owned_iff (seed : EnforcingSeed) (req : Request) :
    (∀ m clk order n, Reachable m → (seed.serve m clk order req).nodes[n]? ≠ m.nodes[n]? →
        Cred.Owns (req.principal seed) n) ↔ ¬ req.Foreign seed := by
  cases req with
  | rpc commonName token rpc =>
    simp only [Request.Foreign, not_false_eq_true, iff_true]
    intro m clk order n _ hchanged
    exact unaryAuthz_owned rfl _ m clk order rpc n hchanged
  | http token put =>
    constructor
    · rintro h ⟨howner, hid, n, hput, hn, hother⟩
      obtain ⟨m, hm, hchanged⟩ :=
        seed.named_node_changes (fun _ => 0) RangeOrder.asStored ⟨howner, hid⟩
        hput hn
      -- The owner of the seed's node would own `n` as well, and owners have one id.
      have hown := h m _ _ n hm hchanged
      exact hother (hown.2.symm.trans howner.2)
    · intro hforeign m clk order n _ hchanged
      obtain ⟨⟨howner, hid⟩, rfl | ⟨hput, hn⟩⟩ := seed.put_changed m clk order hchanged
      · exact howner
      · by_cases hsame : n = seed.node.id
        · rw [hsame]
          exact howner
        · exact absurd ⟨howner, hid, n, hput, hn, hsame⟩ hforeign

/-- With the token of the seed, `catalog/deregister` takes out the node of another agent. -/
theorem seed_token_removes_agent :
    let seed : EnforcingSeed :=
      { node := { id := "seed" }, identity := { tokens := {("t", "seed")} },
        parseDuration := fun _ => none }
    let web : ServiceInstance := { id := "web", name := "web" }
    let m := ((newMemory {}).register (fun _ => 0) { node := { id := "agent" }, services := [web] }).mem
    let req : Request := .http "t" (.catalogDeregister (some { node := "agent" }))
    (req.principal seed).id = "seed" ∧ m.nodes["agent"]?.isSome ∧
      (seed.serve m (fun _ => 1) RangeOrder.asStored req).nodes["agent"]? = none := by
  decide

end YellowPages.Consul
