import YellowPages.Federation.Pool
import YellowPages.Lib.Keyed
import YellowPages.Server.Watch

/-!
# The Watch stream of an agent

`Proxy.Watch`: wait for the index of the query to move, read, and send what differs from the last
read.
-/

namespace YellowPages.Federation.Reader

open SeedClient

/-- `Proxy.lookup`: through the cache if there is one. -/
def lookup (r : Reader) (clk : Nat → Time) (q : Query) : Reader × Served :=
  match r.cache with
  | some cache =>
    let p := cache.lookupWithAge r.client clk q
    ({ r with cache := some p.1 }, p.2)
  | none => (r, ofDirect (r.directLookup q))

end YellowPages.Federation.Reader

namespace YellowPages.SeedClient

open Lib Store Wire Watch Server Federation

/-! ## The handler -/

def entryKey (e : ServiceEntry) : String := e.node.id ++ "\x00" ++ e.service.id

def sendEvent (t : ChangeType) (e : ServiceEntry) (idx : Nat) : PbWatchResponse :=
  eventResponse { type := t, entry := e, index := 0 } idx

def byKey (entries : List ServiceEntry) : Map ServiceEntry :=
  entries.foldl (fun cur e => cur.insert (entryKey e) e) ∅

theorem mem_of_byKey (entries : List ServiceEntry) (k : String) (e : ServiceEntry)
    (h : (byKey entries)[k]? = some e) : e ∈ entries ∧ entryKey e = k :=
  mem_of_fileBy h

/-- The PUTs and DELETEs that lead from the last read to this one. -/
def deltas (last cur : Map ServiceEntry) (puts deletes : RangeOrder String) (idx : Nat) :
    List PbWatchResponse :=
  let put := fun k => cur[k]?.bind fun e =>
    if last[k]?.all (endpointChanged · e) then some (sendEvent .put e idx) else none
  let delete :=
    fun k => last[k]?.bind fun e => if k ∈ cur then none else some (sendEvent .delete e idx)
  (puts.visit cur.keys).filterMap put ++ (deletes.visit last.keys).filterMap delete

inductive ProxyPhase where
  | waiting
  | reading (idx : Nat)
  | sending (queue : List PbWatchResponse)
  | returned (err : Option Status)
  /-- The read went through a nil entry of the cache. -/
  | crashed

/-- An agent and one stream of it. -/
structure ProxyStream where
  query : Query
  reader : Reader
  watcher : Watcher
  last : Map ServiceEntry := ∅
  lastIdx : Nat := 0
  first : Bool := true
  phase : ProxyPhase := .waiting
  sent : List PbWatchResponse := []

inductive ProxyAction where
  /-- A turn of `WaitForChange`. It returns at once, or parks until its timer fires. -/
  | wait (timedOut : Bool)
  | read (clk : Nat → Time) (puts deletes : RangeOrder String)
  | send
  | cancel
  /-- The seeds answer otherwise from now on. -/
  | seeds (client : Client)
  /-- Another read of the agent, or a refresh. -/
  | cache (c : CacheCall)
  /-- A call on the watcher, such as a notification of the cache. -/
  | watch (c : WatchCall)

namespace ProxyStream

def new (reader : Reader) (base : Nat) (q : Query) : ProxyStream :=
  { query := q, reader := reader, watcher := newWatcher base
    phase := match admitWatch true q with
      | some err => .returned (some err)
      | none => .waiting }

variable (s : ProxyStream)

/-- A wait that ends with the index the stream has already read is gone into again. -/
def woken (idx : Nat) : ProxyStream :=
  if idx = s.lastIdx ∧ s.first = false then s else { s with phase := .reading idx }

def responses (lr : LookupResult) (idx : Nat) (puts deletes : RangeOrder String) :
    List PbWatchResponse :=
  if s.first then lr.entries.map (sendEvent .put · idx) ++ [{ snapshotDone := true, index := idx }]
  else deltas s.last (byKey lr.entries) puts deletes idx

def read (clk : Nat → Time) (puts deletes : RangeOrder String) (idx : Nat) : ProxyStream :=
  let p := s.reader.lookup clk s.query
  match p.2 with
  | .failed _ => { s with reader := p.1, lastIdx := idx, phase := .waiting }
  | .crashed => { s with reader := p.1, lastIdx := idx, phase := .crashed }
  | .ok lr _ =>
    { s with
      reader := p.1
      lastIdx := idx
      last := byKey lr.entries
      first := false
      phase := .sending (s.responses lr idx puts deletes) }

/-- An action the handler is not at changes nothing. -/
def step : ProxyAction → ProxyStream
  | .wait timedOut =>
    match s.phase with
    | .waiting =>
      match s.watcher.waitTurn s.query s.lastIdx with
      | .done idx => s.woken idx
      | .park _ => if timedOut then s.woken (s.watcher.currentIndex s.query) else s
    | _ => s
  | .read clk puts deletes =>
    match s.phase with
    | .reading idx => s.read clk puts deletes idx
    | _ => s
  | .send =>
    match s.phase with
    | .sending (r :: rest) => { s with phase := .sending rest, sent := s.sent ++ [r] }
    | .sending [] => { s with phase := .waiting }
    | _ => s
  | .cancel => { s with phase := .returned none }
  | .seeds client => { s with reader := { s.reader with client := client } }
  | .cache c =>
    { s with reader := { s.reader with cache := s.reader.cache.map fun cache => (c.exec cache).1 } }
  | .watch c => { s with watcher := c.exec s.watcher }

def run (actions : List ProxyAction) : ProxyStream := actions.foldl step s

end ProxyStream

end YellowPages.SeedClient
