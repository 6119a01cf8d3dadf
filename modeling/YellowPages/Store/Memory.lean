import YellowPages.Model
import YellowPages.Lib.Ordered

/-!
# The registry of a seed

`internal/store/store.go`, one definition per Go function. A call holds the lock from start
to end, so it is a function from the state before to the state after. It takes the clock
readings it makes (`clk 0` at entry, `clk (k + 1)` when it builds its event number `k`) and,
where Go ranges over a map, the order of that loop.
-/

namespace YellowPages.Store

open Lib

/-! ## Data -/

inductive StoreError where
  | notFound | invalid | capacity
  deriving DecidableEq, Repr

def StoreError.message : StoreError → String
  | .notFound => "store: not found"
  | .invalid => "store: invalid registration"
  | .capacity => "store: registry at capacity"

structure Options where
  defaultTTL : Duration := 30 * second
  minTTL : Duration := 0
  maxTTL : Duration := 0
  gracePeriod : Duration := 0
  startIndex : Nat := 0
  maxServices : Int := 0
  deriving DecidableEq

/-- A stored service: its definition and lease, its flags and its registry indexes. -/
structure ServiceRec where
  defn : ServiceInstance
  maintenance : Bool := false
  failed : Bool := false
  lastState : HealthState
  createIndex : Nat
  modifyIndex : Nat
  deriving DecidableEq

structure NodeRec where
  nodeMeta : Node
  services : Map ServiceRec
  deriving DecidableEq

structure SvcRef where
  node : String
  service : String
  deriving DecidableEq

instance : Ord SvcRef := ⟨compareLex (compareOn SvcRef.node) (compareOn SvcRef.service)⟩

instance : Std.TransOrd SvcRef :=
  inferInstanceAs (Std.TransCmp (compareLex (compareOn SvcRef.node) (compareOn SvcRef.service)))

instance : Std.LawfulEqOrd SvcRef where
  eq_of_compare {a b} h := by
    obtain ⟨h1, h2⟩ := Ordering.then_eq_eq.mp h
    cases a; cases b
    simp_all [compareOn]

structure Memory where
  opts : Options
  nodes : Map NodeRec := ∅
  byName : Map (Std.ExtTreeSet SvcRef) := ∅
  index : Nat
  deriving DecidableEq

/-- A call: the state it leaves, the events it emits and what it returns. -/
structure Outcome (α : Type) where
  mem : Memory
  events : List ChangeEvent
  ret : α

def newMemory (opts : Options) : Memory :=
  let opts := if opts.defaultTTL ≤ 0 then { opts with defaultTTL := 30 * second } else opts
  { opts := opts, index := opts.startIndex }

/-! ## Helpers -/

namespace Options

def clampTTL (o : Options) (d : Duration) : Duration :=
  let d := if d ≤ 0 then o.defaultTTL else d
  let d := if o.minTTL > 0 ∧ d < o.minTTL then o.minTTL else d
  if o.maxTTL > 0 ∧ d > o.maxTTL then o.maxTTL else d

def atCapacity (o : Options) (size : Nat) : Bool := o.maxServices > 0 ∧ (size : Int) ≥ o.maxServices

/-- The health of a service at `now`, and whether it is past its grace window. -/
def lease (o : Options) (svc : ServiceRec) (now : Time) : HealthState × Bool :=
  if svc.failed then (.critical, false)
  else
    let age := timeSub now svc.defn.lastSeen
    if age ≤ svc.defn.ttl then (.passing, false)
    else if age ≤ durAdd svc.defn.ttl o.gracePeriod then (.critical, false)
    else (.critical, true)

end Options

namespace Memory

def service? (m : Memory) (n s : String) : Option ServiceRec := m.nodes[n]?.bind (·.services[s]?)

def sizeLocked (m : Memory) : Nat := (m.nodes.toList.map (·.2.services.size)).sum

def next (m : Memory) : Nat := u64Succ m.index

def advance (m : Memory) : Memory := { m with index := m.next }

/-- `n.meta = node`, on a new node if there is none. -/
def setMeta (m : Memory) (node : Node) : Memory :=
  let services := (m.nodes[node.id]?.map NodeRec.services).getD ∅
  { m with nodes := m.nodes.insert node.id ⟨node, services⟩ }

/-- `n.services[s] = svc`, for a node that is there. -/
def setService (m : Memory) (n s : String) (svc : ServiceRec) : Memory :=
  { m with nodes := m.nodes.modify n fun r => { r with services := r.services.insert s svc } }

def eraseService (m : Memory) (n s : String) : Memory :=
  { m with nodes := m.nodes.modify n fun r => { r with services := r.services.erase s } }

/-- `if len(n.services) == 0 { delete(m.nodes, n) }`. -/
def dropIfEmpty (m : Memory) (n : String) : Memory :=
  match m.nodes[n]? with
  | some r => if r.services.isEmpty then { m with nodes := m.nodes.erase n } else m
  | none => m

def indexName (m : Memory) (n : String) (dfn : ServiceInstance) : Memory :=
  { m with byName := m.byName.insert dfn.name ((m.byName[dfn.name]?.getD ∅).insert ⟨n, dfn.id⟩) }

def unindexName (m : Memory) (n name s : String) : Memory :=
  match m.byName[name]? with
  | none => m
  | some set =>
    let set := set.erase ⟨n, s⟩
    if set.isEmpty then { m with byName := m.byName.erase name }
    else { m with byName := m.byName.insert name set }

/-- Move a service to another name in the index, if its name changed. -/
def rename (m : Memory) (n oldName : String) (dfn : ServiceInstance) : Memory :=
  if oldName ≠ dfn.name then (m.unindexName n oldName dfn.id).indexName n dfn else m

end Memory

def entry (nodeMeta : Node) (svc : ServiceRec) (state : HealthState) : ServiceEntry :=
  { node := nodeMeta, service := svc.defn, health := state, maintenance := svc.maintenance,
    createIndex := svc.createIndex, modifyIndex := svc.modifyIndex }

def putEvent (o : Options) (now : Time) (nodeMeta : Node) (svc : ServiceRec) : ChangeEvent :=
  { type := .put, entry := entry nodeMeta svc (o.lease svc now).1, index := svc.modifyIndex }

def deleteEvent (nodeMeta : Node) (svc : ServiceRec) : ChangeEvent :=
  { type := .delete, entry := entry nodeMeta svc .critical, index := svc.modifyIndex }

/-- Position by position, after comparing the lengths. -/
def equalStrings (a b : List String) : Bool := a.length = b.length ∧ (a.zip b).all fun p => p.1 = p.2

/-- Go reads a missing key as `""`, so a key with an empty value equals a missing one. -/
def equalMap (a b : Map String) : Bool :=
  a.size = b.size ∧ a.toList.all fun kv => (b[kv.1]?).getD "" = kv.2

def changed (a b : ServiceInstance) : Bool :=
  if a.name ≠ b.name ∨ a.address ≠ b.address ∨ a.port ≠ b.port ∨ a.ttl ≠ b.ttl ∨
      a.generation ≠ b.generation ∨ a.weights ≠ b.weights then true
  else !equalStrings a.tags b.tags || !equalMap a.metadata b.metadata

/-! ## Register and Merge -/

def Memory.createService (m : Memory) (n : String) (dfn : ServiceInstance) : Memory × ServiceRec :=
  let svc : ServiceRec :=
    { defn := dfn, lastState := .passing, createIndex := m.next, modifyIndex := m.next }
  ((m.advance.setService n dfn.id svc).indexName n dfn, svc)

/-- The state after `svc` replaced the record `old` and took the next index. -/
def Memory.rewriteService (m : Memory) (n s : String) (old svc : ServiceRec) : Memory × ServiceRec :=
  let svc := { svc with modifyIndex := m.next }
  ((m.advance.setService n s svc).rename n old.defn.name svc.defn, svc)

structure Pass where
  mem : Memory
  size : Nat
  events : List ChangeEvent

/-- What the seed makes of a submitted definition. -/
def stamp (o : Options) (now : Time) (generation : Nat) (input : ServiceInstance) : ServiceInstance :=
  { input with
    id := if input.id = "" then input.name else input.id
    ttl := o.clampTTL input.ttl
    lastSeen := now
    generation := generation }

/-- One turn of the service loop. `none` is the early return with `ErrCapacity`. -/
def registerService (clk : Nat → Time) (reg : Registration) (p : Pass) (input : ServiceInstance) :
    Option Pass :=
  let m := p.mem
  let dfn := stamp m.opts (clk 0) reg.generation input
  let now := clk (p.events.length + 1)
  match m.service? reg.node.id dfn.id with
  | none =>
    if m.opts.atCapacity p.size then none
    else
      let (m, svc) := m.createService reg.node.id dfn
      some ⟨m, p.size + 1, p.events ++ [putEvent p.mem.opts now reg.node svc]⟩
  | some old =>
    if changed old.defn dfn then
      let svc := { old with defn := dfn, lastState := .passing }
      let (m, svc) := m.rewriteService reg.node.id dfn.id old svc
      some ⟨m, p.size, p.events ++ [putEvent p.mem.opts now reg.node svc]⟩
    else
      -- Identical data: a pure lease refresh.
      let svc := { old with defn := { old.defn with lastSeen := clk 0 } }
      some { p with mem := m.setService reg.node.id dfn.id svc }

def registerLoop (clk : Nat → Time) (reg : Registration) :
    List ServiceInstance → Pass → Pass × Option StoreError
  | [], p => (p, none)
  | input :: rest, p =>
    match registerService clk reg p input with
    | none => (p, some .capacity)
    | some p => registerLoop clk reg rest p

def Memory.register (m : Memory) (clk : Nat → Time) (reg : Registration) :
    Outcome (Option StoreError) :=
  if reg.node.id = "" ∨ reg.services.any (·.name = "") then ⟨m, [], some .invalid⟩
  else
    let (p, err) := registerLoop clk reg reg.services ⟨m.setMeta reg.node, m.sizeLocked, []⟩
    ⟨p.mem, p.events, err⟩

/-- What a seed makes of a peer's definition: unlike `stamp` it keeps the peer's `lastSeen`. -/
def clamped (o : Options) (dfn : ServiceInstance) : ServiceInstance :=
  { dfn with ttl := o.clampTTL dfn.ttl }

structure MergePass extends Pass where
  applied : Nat

def mergeEntry (clk : Nat → Time) (p : MergePass) (e : ServiceEntry) : MergePass :=
  if e.node.id = "" ∨ e.service.id = "" then p
  else
    let m := p.mem.setMeta e.node
    let dfn := clamped m.opts e.service
    let now := clk (p.events.length + 1)
    match m.service? e.node.id dfn.id with
    | none =>
      if m.opts.atCapacity p.size then { p with mem := m }
      else
        let (m, svc) := m.createService e.node.id dfn
        ⟨⟨m, p.size + 1, p.events ++ [putEvent p.mem.opts now e.node svc]⟩, p.applied + 1⟩
    | some old =>
      if dfn.winsLWW old.defn then
        let (m, svc) := m.rewriteService e.node.id dfn.id old { old with defn := dfn }
        ⟨⟨m, p.size, p.events ++ [putEvent p.mem.opts now e.node svc]⟩, p.applied + 1⟩
      else { p with mem := m }

def Memory.merge (m : Memory) (clk : Nat → Time) (entries : List ServiceEntry) : Outcome Nat :=
  let p := entries.foldl (mergeEntry clk) ⟨⟨m, m.sizeLocked, []⟩, 0⟩
  ⟨p.mem, p.events, p.applied⟩

/-! ## Renew -/

def ServiceRec.renewed (svc : ServiceRec) (now : Time) : ServiceRec :=
  { svc with defn := { svc.defn with lastSeen := now }, failed := false }

/-- Stops at the first id it does not know. -/
def renewLoop (now : Time) (n : String) : List String → Memory → Memory × Option StoreError
  | [], m => (m, none)
  | id :: rest, m =>
    match m.service? n id with
    | none => (m, some .notFound)
    | some svc => renewLoop now n rest (m.setService n id (svc.renewed now))

def Memory.renew (m : Memory) (clk : Nat → Time) (n : String) (ids : List String) :
    Outcome (Option StoreError) :=
  match m.nodes[n]? with
  | none => ⟨m, [], some .notFound⟩
  | some r =>
    if ids.isEmpty then
      let services := r.services.map fun _ svc => svc.renewed (clk 0)
      ⟨{ m with nodes := m.nodes.insert n { r with services := services } }, [], none⟩
    else
      let (m, err) := renewLoop (clk 0) n ids m
      ⟨m, [], err⟩

/-! ## Flags -/

/-- A flag of one service: `Fail` and `SetMaintenance` differ in the flag. `same` is their
check that there is nothing to do. -/
def Memory.setFlag (m : Memory) (clk : Nat → Time) (n s : String) (same : ServiceRec → Bool)
    (set : ServiceRec → ServiceRec) : Outcome (Option StoreError) :=
  match m.nodes[n]? with
  | none => ⟨m, [], some .notFound⟩
  | some r =>
    match r.services[s]? with
    | none => ⟨m, [], some .notFound⟩
    | some svc =>
      if same svc then ⟨m, [], none⟩
      else
        let svc := { set svc with modifyIndex := m.next }
        ⟨m.advance.setService n s svc, [putEvent m.opts (clk 1) r.nodeMeta svc], none⟩

def Memory.fail (m : Memory) (clk : Nat → Time) (n s : String) : Outcome (Option StoreError) :=
  m.setFlag clk n s (·.failed) fun svc => { svc with failed := true }

def Memory.setMaintenance (m : Memory) (clk : Nat → Time) (n s : String) (enabled : Bool) :
    Outcome (Option StoreError) :=
  m.setFlag clk n s (·.maintenance = enabled) fun svc => { svc with maintenance := enabled }

/-! ## Deregister -/

/-- One turn of the loop of `Deregister`. The record itself goes with the node, after the loop. -/
def deregisterOne (n : String) (r : NodeRec) (p : Memory × List ChangeEvent) (id : String) :
    Memory × List ChangeEvent :=
  match r.services[id]? with
  | none => p
  | some svc =>
    let svc := { svc with modifyIndex := p.1.next }
    (p.1.advance.unindexName n svc.defn.name id, p.2 ++ [deleteEvent r.nodeMeta svc])

def Memory.deregister (m : Memory) (order : RangeOrder String) (n : String) :
    Outcome (Option StoreError) :=
  match m.nodes[n]? with
  | none => ⟨m, [], some .notFound⟩
  | some r =>
    let p := (order.visit r.services.keys).foldl (deregisterOne n r) (m, [])
    ⟨{ p.1 with nodes := p.1.nodes.erase n }, p.2, none⟩

def Memory.removeService (m : Memory) (n s : String) (svc : ServiceRec) : Memory :=
  (m.advance.eraseService n s).unindexName n svc.defn.name s

def Memory.deregisterService (m : Memory) (n s : String) : Outcome (Option StoreError) :=
  match m.nodes[n]? with
  | none => ⟨m, [], some .notFound⟩
  | some r =>
    match r.services[s]? with
    | none => ⟨m, [], some .notFound⟩
    | some svc =>
      ⟨(m.removeService n s svc).dropIfEmpty n,
        [deleteEvent r.nodeMeta { svc with modifyIndex := m.next }], none⟩

/-! ## GC -/

structure GcOrder where
  nodes : RangeOrder String := RangeOrder.asStored
  services : String → RangeOrder String := fun _ => RangeOrder.asStored

structure GcPass where
  mem : Memory
  events : List ChangeEvent
  removed : Nat

def gcService (clk : Nat → Time) (n : String) (nodeMeta : Node) (p : GcPass) (id : String) : GcPass :=
  let m := p.mem
  match m.service? n id with
  | none => p
  | some svc =>
    let (state, expired) := m.opts.lease svc (clk 0)
    if expired then
      ⟨m.removeService n id svc,
        p.events ++ [deleteEvent nodeMeta { svc with modifyIndex := m.next }], p.removed + 1⟩
    else if state ≠ svc.lastState then
      let svc := { svc with lastState := state, modifyIndex := m.next }
      ⟨m.advance.setService n id svc,
        p.events ++ [putEvent m.opts (clk (p.events.length + 1)) nodeMeta svc], p.removed⟩
    else p

def gcNode (clk : Nat → Time) (order : GcOrder) (p : GcPass) (n : String) : GcPass :=
  match p.mem.nodes[n]? with
  | none => p
  | some r =>
    let p := ((order.services n).visit r.services.keys).foldl (gcService clk n r.nodeMeta) p
    { p with mem := p.mem.dropIfEmpty n }

def Memory.gc (m : Memory) (clk : Nat → Time) (order : GcOrder) : Outcome Nat :=
  let p := (order.nodes.visit m.nodes.keys).foldl (gcNode clk order) ⟨m, [], 0⟩
  ⟨p.mem, p.events, p.removed⟩

/-! ## Lookup -/

/-- The `visit` closure: the entry of a service that matches the query and is not past grace. -/
def visit (o : Options) (now : Time) (q : Query) (nodeMeta : Node) (svc : ServiceRec) :
    Option ServiceEntry :=
  if q.datacenter ≠ "" ∧ nodeMeta.datacenter ≠ q.datacenter then none
  else if !svc.defn.matchesTags q.tags then none
  else
    let (state, expired) := o.lease svc now
    if expired then none else some (entry nodeMeta svc state)

def Memory.collect (m : Memory) (now : Time) (q : Query) : List ServiceEntry :=
  if q.name = "" then
    m.nodes.toList.flatMap fun (_, r) =>
      r.services.toList.filterMap fun (_, svc) => visit m.opts now q r.nodeMeta svc
  else
    (m.byName[q.name]?.getD ∅).toList.filterMap fun ref =>
      m.nodes[ref.node]?.bind fun r =>
        r.services[ref.service]?.bind fun svc => visit m.opts now q r.nodeMeta svc

def Memory.lookup (m : Memory) (now : Time) (q : Query) : LookupResult :=
  { entries := sortBy ServiceEntry.key (m.collect now q), index := m.index }

/-! ## Runs -/

/-- One call of the registry, with everything it reads from outside. -/
inductive Call where
  | register (clk : Nat → Time) (reg : Registration)
  | renew (clk : Nat → Time) (n : String) (ids : List String)
  | fail (clk : Nat → Time) (n s : String)
  | setMaintenance (clk : Nat → Time) (n s : String) (enabled : Bool)
  | deregister (order : RangeOrder String) (n : String)
  | deregisterService (n s : String)
  | merge (clk : Nat → Time) (entries : List ServiceEntry)
  | gc (clk : Nat → Time) (order : GcOrder)

/-- The state a call leaves, and the batch it hands to `emit`. -/
def Call.exec (m : Memory) : Call → Memory × List ChangeEvent
  | .register clk reg => let o := m.register clk reg; (o.mem, o.events)
  | .renew clk n ids => let o := m.renew clk n ids; (o.mem, o.events)
  | .fail clk n s => let o := m.fail clk n s; (o.mem, o.events)
  | .setMaintenance clk n s enabled => let o := m.setMaintenance clk n s enabled; (o.mem, o.events)
  | .deregister order n => let o := m.deregister order n; (o.mem, o.events)
  | .deregisterService n s => let o := m.deregisterService n s; (o.mem, o.events)
  | .merge clk entries => let o := m.merge clk entries; (o.mem, o.events)
  | .gc clk order => let o := m.gc clk order; (o.mem, o.events)

/-- `emit`: an empty batch does not reach `OnChange`. -/
def emit (events : List ChangeEvent) : List (List ChangeEvent) :=
  if events.isEmpty then [] else [events]

/-- Calls one after the other, with the batches handed to `OnChange`. -/
def Memory.run (m : Memory) : List Call → Memory × List (List ChangeEvent)
  | [] => (m, [])
  | c :: rest =>
    let (m, events) := c.exec m
    let (m, batches) := m.run rest
    (m, emit events ++ batches)

end YellowPages.Store
