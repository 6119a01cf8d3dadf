import YellowPages.Model

/-!
# The watcher

`internal/watch/watcher.go`. A channel that is closed and replaced on every change is a
counter here: a waiter that parked on number `b` is awake once the counter is past `b`.
-/

namespace YellowPages.Watch

structure Subscription where
  query : Query
  ch : List ChangeEvent := []

structure Watcher where
  index : Nat
  nameIndex : Map Nat := ∅
  bump : Nat := 0
  subs : Std.ExtTreeMap Nat Subscription := ∅
  nextID : Nat := 0

def newWatcher (base : Nat) : Watcher := { index := base }

def atLeastOne (x : Nat) : Nat := if x < 1 then 1 else x

def matchesQuery (q : Query) (e : ServiceEntry) : Bool :=
  if q.name ≠ "" ∧ q.name ≠ e.service.name then false
  else if q.datacenter ≠ "" ∧ q.datacenter ≠ e.node.datacenter then false
  else e.service.matchesTags q.tags

namespace Watcher

/-- `w.index++; w.nameIndex[name] = w.index`. -/
def advance (w : Watcher) (name : String) : Watcher :=
  { w with index := u64Succ w.index, nameIndex := w.nameIndex.insert name (u64Succ w.index) }

def signalLocked (w : Watcher) : Watcher := { w with bump := w.bump + 1 }

/-- The deliveries of one event, which carries the watcher's own index. -/
def deliveries (w : Watcher) (ev : ChangeEvent) : List (Nat × ChangeEvent) :=
  (w.subs.toList.filter fun s => matchesQuery s.2.query ev.entry).map fun s =>
    (s.1, { ev with index := w.index })

/-- The part of `Notify` under the lock. -/
def notifyLoop (w : Watcher) : List ChangeEvent → Watcher × List (Nat × ChangeEvent)
  | [] => (w, [])
  | ev :: rest =>
    let w := w.advance ev.entry.service.name
    let p := w.notifyLoop rest
    (p.1, w.deliveries ev ++ p.2)

/-- A send that does not block: a full channel drops the event. -/
def deliver (w : Watcher) (d : Nat × ChangeEvent) : Watcher :=
  { w with subs := w.subs.modify d.1 fun s =>
      if s.ch.length < 64 then { s with ch := s.ch ++ [d.2] } else s }

/-- The source sends after the unlock. Here a batch is pending until its `Notify` has returned, and the
sends of two calls do not interleave. -/
def notify (w : Watcher) (events : List ChangeEvent) : Watcher :=
  if events.isEmpty then w
  else
    let p := w.notifyLoop events
    p.2.foldl deliver p.1.signalLocked

def notifyNames (w : Watcher) (names : List String) : Watcher :=
  if names.isEmpty then w else (names.foldl advance w).signalLocked

def subscribe (w : Watcher) (q : Query) : Watcher :=
  { w with subs := w.subs.insert w.nextID { query := q }, nextID := w.nextID + 1 }

def cancel (w : Watcher) (id : Nat) : Watcher := { w with subs := w.subs.erase id }

def receive (w : Watcher) (id : Nat) : Watcher :=
  { w with subs := w.subs.modify id fun s => { s with ch := s.ch.tail } }

/-- `Index`, as reported. The counter itself is the field `index`. -/
def reportedIndex (w : Watcher) : Nat := atLeastOne w.index

def currentIndex (w : Watcher) (q : Query) : Nat :=
  if q.name ≠ "" then
    match w.nameIndex[q.name]? with
    | some idx => atLeastOne idx
    | none => atLeastOne w.index
  else atLeastOne w.index

end Watcher

/-! ## WaitForChange -/

/-- One turn of the loop of `WaitForChange`: return an index, or park on a channel. -/
inductive WaitTurn where
  | done (idx : Nat)
  | park (ch : Nat)
  deriving DecidableEq

def Watcher.waitTurn (w : Watcher) (q : Query) (minIndex : Nat) : WaitTurn :=
  if minIndex = 0 ∨ w.currentIndex q ≠ minIndex then .done (w.currentIndex q) else .park w.bump

/-! ## Runs -/

inductive WatchCall where
  | notify (events : List ChangeEvent)
  | notifyNames (names : List String)
  | subscribe (q : Query)
  | cancel (id : Nat)
  | receive (id : Nat)

namespace WatchCall

def exec (w : Watcher) : WatchCall → Watcher
  | .notify events => w.notify events
  | .notifyNames names => w.notifyNames names
  | .subscribe q => w.subscribe q
  | .cancel id => w.cancel id
  | .receive id => w.receive id

def names : WatchCall → List String
  | .notify events => events.map (·.entry.service.name)
  | .notifyNames names => names
  | _ => []

end WatchCall

def Watcher.run (w : Watcher) (calls : List WatchCall) : Watcher := calls.foldl WatchCall.exec w

end YellowPages.Watch
