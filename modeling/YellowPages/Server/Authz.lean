import YellowPages.Cred
import YellowPages.Server.Service
import YellowPages.Store.Register

/-!
# Write ownership on the gRPC surface

`internal/server/authz.go`: the interceptor before the unary RPCs of a seed.
-/

namespace YellowPages.Server

open Store Wire

inductive Rpc where
  | register (registration : Option PbRegistration)
  | renew (nodeId : String) (serviceIds : List String)
  | deregister (nodeId : String)
  | deregisterService (nodeId serviceId : String)
  | lookup (query : Option PbQuery)

inductive Reply where
  | done
  | failed (status : Status)
  | found (resp : PbLookupResponse)

def Reply.ofStatus : Option Status → Reply
  | none => .done
  | some status => .failed status

/-- The handler of an RPC. `order` is the order of a loop over a node's services. -/
def handle (m : Memory) (clk : Nat → Time) (order : Lib.RangeOrder String) : Rpc → Memory × Reply
  | .register registration => let o := register m clk registration; (o.mem, .ofStatus o.ret)
  | .renew nodeId serviceIds => let o := renew m clk nodeId serviceIds; (o.mem, .ofStatus o.ret)
  | .deregister nodeId => let o := deregister m order nodeId; (o.mem, .ofStatus o.ret)
  | .deregisterService nodeId serviceId =>
    let o := deregisterService m nodeId serviceId
    (o.mem, .ofStatus o.ret)
  | .lookup query => (m, .found (lookup m (clk 0) query))

/-- The node that a write is checked against, `none` for a read. -/
def writeTarget : Rpc → Option String
  | .register registration => some (((registration.bind (·.node)).map (·.id)).getD "")
  | .renew nodeId _ | .deregister nodeId | .deregisterService nodeId _ => some nodeId
  | .lookup _ => none

def unaryAuthz (authz : Cred.Authorizer) (p : Principal) (m : Memory) (rpc : Rpc)
    (handler : Memory × Reply) : Memory × Reply :=
  match writeTarget rpc with
  | none => handler
  | some nodeID =>
    if authz.enforcing && (authz.authorize p nodeID).isSome then
      (m, .failed ⟨.permissionDenied, "permission denied"⟩)
    else handler

theorem writeTarget_register (registration : Option PbRegistration) :
    writeTarget (.register registration) = some (registrationFromProto registration).node.id := by
  cases registration with
  | none => rfl
  | some reg =>
    cases hnode : reg.node <;> simp [writeTarget, registrationFromProto, nodeFromProto, hnode]

/-- An RPC writes to the node it is checked against, and to no other. -/
theorem handle_frame (m : Memory) (clk : Nat → Time) (order : Lib.RangeOrder String) (rpc : Rpc)
    (n : String) (hn : writeTarget rpc ≠ some n) :
    (handle m clk order rpc).1.nodes[n]? = m.nodes[n]? := by
  cases rpc with
  | register registration =>
    rw [writeTarget_register] at hn
    refine exec_frame (c := .register clk (registrationFromProto registration)) rfl ?_ m
    exact fun h => hn (by rw [h])
  | renew nodeId serviceIds =>
    unfold handle renew
    dsimp only
    split
    · rfl
    · exact exec_frame (c := .renew clk nodeId serviceIds) rfl (fun h => hn (by rw [h]; rfl)) m
  | deregister nodeId =>
    unfold handle deregister
    dsimp only
    split
    · rfl
    · exact exec_frame (c := .deregister order nodeId) rfl (fun h => hn (by rw [h]; rfl)) m
  | deregisterService nodeId serviceId =>
    unfold handle deregisterService
    dsimp only
    split
    · rfl
    · exact exec_frame (c := .deregisterService nodeId serviceId) rfl (fun h => hn (by rw [h]; rfl)) m
  | lookup query => rfl

/-- Behind an enforcing interceptor only the owner of a node changes it. -/
theorem unaryAuthz_owned {authz : Cred.Authorizer} (henforce : authz.enforcing) (p : Principal)
    (m : Memory) (clk : Nat → Time) (order : Lib.RangeOrder String) (rpc : Rpc) (n : String)
    (hchanged : (unaryAuthz authz p m rpc (handle m clk order rpc)).1.nodes[n]? ≠ m.nodes[n]?) :
    Cred.Owns p n := by
  have htarget : writeTarget rpc = some n := by
    by_contra hn
    refine hchanged ?_
    unfold unaryAuthz
    split
    · exact handle_frame m clk order rpc n hn
    · split
      · rfl
      · exact handle_frame m clk order rpc n hn
  rw [unaryAuthz, htarget] at hchanged
  dsimp only at hchanged
  rw [henforce, Bool.true_and] at hchanged
  split at hchanged <;> rename_i hdenied
  · exact absurd rfl hchanged
  · rw [Bool.not_eq_true, Option.isSome_eq_false_iff, Option.isNone_iff_eq_none,
      Cred.authorize_eq_none_iff henforce] at hdenied
    exact hdenied.1

end YellowPages.Server
