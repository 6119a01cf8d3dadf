import YellowPages.Health
import YellowPages.Store.Memory
import YellowPages.Wire

/-!
# The unary RPCs of a seed

`internal/server/service.go`. A request message can be incomplete. Its getters then return zero
values, and the handler decides what to make of these.
-/

namespace YellowPages.Server

open Store Wire

inductive Code where
  | invalidArgument | notFound | resourceExhausted | permissionDenied | unavailable | unimplemented
  deriving DecidableEq, Repr

def Code.name : Code → String
  | .invalidArgument => "InvalidArgument"
  | .notFound => "NotFound"
  | .resourceExhausted => "ResourceExhausted"
  | .permissionDenied => "PermissionDenied"
  | .unavailable => "Unavailable"
  | .unimplemented => "Unimplemented"

structure Status where
  code : Code
  message : String
  deriving DecidableEq, Repr

def Status.text (s : Status) : String := "rpc error: code = " ++ s.code.name ++ " desc = " ++ s.message

/-- Every store error has a code, so the generic internal error never shows. -/
def mapError : StoreError → Status
  | .invalid => ⟨.invalidArgument, StoreError.message .invalid⟩
  | .notFound => ⟨.notFound, StoreError.message .notFound⟩
  | .capacity => ⟨.resourceExhausted, StoreError.message .capacity⟩

def reply (o : Outcome (Option StoreError)) : Outcome (Option Status) :=
  { mem := o.mem, events := o.events, ret := o.ret.map mapError }

def register (m : Memory) (clk : Nat → Time) (registration : Option PbRegistration) :
    Outcome (Option Status) :=
  reply (m.register clk (registrationFromProto registration))

def renew (m : Memory) (clk : Nat → Time) (nodeId : String) (serviceIds : List String) :
    Outcome (Option Status) :=
  if nodeId = "" then ⟨m, [], some ⟨.invalidArgument, "node_id is required"⟩⟩
  else reply (m.renew clk nodeId serviceIds)

def deregister (m : Memory) (order : Lib.RangeOrder String) (nodeId : String) :
    Outcome (Option Status) :=
  if nodeId = "" then ⟨m, [], some ⟨.invalidArgument, "node_id is required"⟩⟩
  else reply (m.deregister order nodeId)

def deregisterService (m : Memory) (nodeId serviceId : String) : Outcome (Option Status) :=
  if nodeId = "" ∨ serviceId = "" then
    ⟨m, [], some ⟨.invalidArgument, "node_id and service_id are required"⟩⟩
  else reply (m.deregisterService nodeId serviceId)

def lookup (m : Memory) (now : Time) (query : Option PbQuery) : PbLookupResponse :=
  let q := queryFromProto query
  let res := m.lookup now q
  let entries :=
    if q.onlyHealthy then Health.filter res.entries { onlyPassing := true } else res.entries
  lookupResultToProto { res with entries := entries }

end YellowPages.Server
