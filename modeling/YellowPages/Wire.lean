import YellowPages.Model

/-!
# The wire

The `discovery.v1` messages and the conversions of `internal/protoconv`. A message field that can
be absent is an `Option`, and an absent message reads as the zero value.
-/

namespace YellowPages.Wire

/-! ## Messages -/

structure PbNode where
  id : String := ""
  name : String := ""
  address : String := ""
  datacenter : String := ""
  metadata : Map String := ∅
  taggedAddresses : Map String := ∅

structure PbWeights where
  passing : UInt32 := 0
  warning : UInt32 := 0

structure PbService where
  id : String := ""
  name : String := ""
  address : String := ""
  port : UInt32 := 0
  tags : List String := []
  metadata : Map String := ∅
  weights : Option PbWeights := none
  ttlSeconds : UInt32 := 0

structure PbRegistration where
  node : Option PbNode := none
  services : List PbService := []
  generation : Nat := 0

/-- A proto3 enum is open: it can hold a number that has no name. -/
inductive PbHealth where
  | unspecified | passing | warning | critical
  | unrecognized (number : Int)

structure PbEntry where
  node : Option PbNode := none
  service : Option PbService := none
  health : PbHealth := .unspecified
  maintenance : Bool := false
  generation : Nat := 0
  lastSeenUnixNano : Int := 0

structure PbQuery where
  name : String := ""
  datacenter : String := ""
  tags : List String := []
  onlyHealthy : Bool := false

structure PbLookupResponse where
  entries : List PbEntry := []
  index : Nat := 0

inductive PbChangeType where
  | unspecified | put | delete
  | unrecognized (number : Int)

structure PbChangeEvent where
  type : PbChangeType := .unspecified
  entry : Option PbEntry := none

structure PbWatchResponse where
  event : Option PbChangeEvent := none
  index : Nat := 0
  snapshotDone : Bool := false

/-! ## Helpers -/

/-- Whole seconds, rounded towards zero and clamped to a `uint32`. -/
def ttlToSeconds (d : Duration) : UInt32 :=
  let secs := d.tdiv second
  if secs < 0 then 0 else if secs > 2 ^ 32 - 1 then UInt32.ofNat (2 ^ 32 - 1) else UInt32.ofNat
    secs.toNat

def portFromProto (p : UInt32) : UInt16 :=
  if p.toNat > 2 ^ 16 - 1 then UInt16.ofNat (2 ^ 16 - 1) else UInt16.ofNat p.toNat

/-- `UnixNano` wraps for an instant that does not fit an int64. -/
def toUnixNano (t : Time) : Int := if t = zeroTime then 0 else Int.bmod t (2 ^ 64)

def fromUnixNano (n : Int) : Time := if n = 0 then zeroTime else n

/-! ## Conversions -/

def nodeToProto (n : Node) : PbNode :=
  { id := n.id, name := n.name, address := n.address, datacenter := n.datacenter,
    metadata := n.metadata, taggedAddresses := n.taggedAddresses }

def nodeFromProto : Option PbNode → Node
  | none => { id := "" }
  | some p =>
    { id := p.id, name := p.name, address := p.address, datacenter := p.datacenter,
      metadata := p.metadata, taggedAddresses := p.taggedAddresses }

def weightsToProto (w : Weights) : PbWeights := { passing := w.passing, warning := w.warning }

def weightsFromProto : Option PbWeights → Weights
  | none => {}
  | some p => { passing := p.passing, warning := p.warning }

def serviceToProto (s : ServiceInstance) : PbService :=
  { id := s.id, name := s.name, address := s.address, port := s.port.toUInt32, tags := s.tags,
    metadata := s.metadata, weights := some (weightsToProto s.weights),
    ttlSeconds := ttlToSeconds s.ttl }

def serviceFromProto : Option PbService → ServiceInstance
  | none => { id := "", name := "" }
  | some p =>
    { id := p.id, name := p.name, address := p.address, port := portFromProto p.port, tags := p.tags,
      metadata := p.metadata, weights := weightsFromProto p.weights,
      ttl := p.ttlSeconds.toNat * second }

def registrationToProto (r : Registration) : PbRegistration :=
  { node := some (nodeToProto r.node), generation := r.generation,
    services := r.services.map serviceToProto }

def registrationFromProto : Option PbRegistration → Registration
  | none => { node := { id := "" } }
  | some p =>
    { node := nodeFromProto p.node, generation := p.generation,
      services := p.services.map fun s => serviceFromProto (some s) }

def healthToProto : HealthState → PbHealth
  | .passing => .passing
  | .warning => .warning
  | .critical => .critical
  | .unspecified => .unspecified

def healthFromProto : PbHealth → HealthState
  | .passing => .passing
  | .warning => .warning
  | .critical => .critical
  | _ => .unspecified

/-- The indexes of an entry stay behind. -/
def entryToProto (e : ServiceEntry) : PbEntry :=
  { node := some (nodeToProto e.node), service := some (serviceToProto e.service),
    health := healthToProto e.health, maintenance := e.maintenance,
    generation := e.service.generation, lastSeenUnixNano := toUnixNano e.service.lastSeen }

def entryFromProto (p : PbEntry) : ServiceEntry :=
  let svc := { serviceFromProto p.service with
    generation := p.generation, lastSeen := fromUnixNano p.lastSeenUnixNano }
  { node := nodeFromProto p.node, service := svc, health := healthFromProto p.health,
    maintenance := p.maintenance }

def queryToProto (q : Query) : PbQuery :=
  { name := q.name, datacenter := q.datacenter, tags := q.tags, onlyHealthy := q.onlyHealthy }

def queryFromProto : Option PbQuery → Query
  | none => {}
  | some p =>
    { name := p.name, datacenter := p.datacenter, tags := p.tags, onlyHealthy := p.onlyHealthy }

def lookupResultToProto (r : LookupResult) : PbLookupResponse :=
  { index := r.index, entries := r.entries.map entryToProto }

def lookupResultFromProto (p : PbLookupResponse) : LookupResult :=
  { index := p.index, entries := p.entries.map entryFromProto }

def changeTypeToProto : ChangeType → PbChangeType
  | .put => .put
  | .delete => .delete
  | .unspecified => .unspecified

def changeTypeFromProto : PbChangeType → ChangeType
  | .put => .put
  | .delete => .delete
  | _ => .unspecified

/-- The index of an event travels beside it. -/
def changeEventToProto (e : ChangeEvent) : PbChangeEvent :=
  { type := changeTypeToProto e.type, entry := some (entryToProto e.entry) }

def changeEventFromProto (p : PbChangeEvent) (index : Nat) : ChangeEvent :=
  { type := changeTypeFromProto p.type, entry := entryFromProto (p.entry.getD {}), index := index }

/-! ## What arrives -/

@[simp] theorem nodeFromProto_toProto (n : Node) : nodeFromProto (some (nodeToProto n)) = n := rfl

@[simp] theorem weightsFromProto_toProto (w : Weights) :
    weightsFromProto (some (weightsToProto w)) = w := rfl

@[simp] theorem healthFromProto_toProto (h : HealthState) : healthFromProto (healthToProto h) = h := by
  cases h <;> rfl

@[simp] theorem portFromProto_toUInt32 (p : UInt16) : portFromProto p.toUInt32 = p := by
  unfold portFromProto
  have hp : p.toNat < 2 ^ 16 := p.toNat_lt
  rw [UInt16.toNat_toUInt32, if_neg (by omega)]
  exact UInt16.ofNat_toNat

@[simp] theorem changeTypeFromProto_toProto (c : ChangeType) :
    changeTypeFromProto (changeTypeToProto c) = c := by
  cases c <;> rfl

/-- An entry as a client receives it. -/
def overWire (e : ServiceEntry) : ServiceEntry := entryFromProto (entryToProto e)

theorem overWire_eq (e : ServiceEntry) :
    overWire e = { e with
      service := { e.service with
        ttl := (ttlToSeconds e.service.ttl).toNat * second
        lastSeen := fromUnixNano (toUnixNano e.service.lastSeen) }
      createIndex := 0
      modifyIndex := 0 } := by
  simp [overWire, entryFromProto, entryToProto, serviceFromProto, serviceToProto]

theorem lookupResult_overWire (r : LookupResult) :
    lookupResultFromProto (lookupResultToProto r) = { r with entries := r.entries.map overWire } := by
  simp [lookupResultFromProto, lookupResultToProto, overWire]

theorem changeEvent_overWire (e : ChangeEvent) (index : Nat) :
    changeEventFromProto (changeEventToProto e) index =
      { type := e.type, entry := overWire e.entry, index := index } := by
  simp [changeEventFromProto, changeEventToProto, overWire]

end YellowPages.Wire
