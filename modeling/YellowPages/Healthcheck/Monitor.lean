import YellowPages.SeedClient.Renew
import YellowPages.Store.Lease

/-!
# Active checks and the two loops of an agent

`internal/healthcheck`, and the agent it runs in. A service with active checks is kept alive by the
monitor, on the ticks of its own checks. All others are renewed on the ticks of the heartbeat.
-/

namespace YellowPages.Healthcheck

open Lib Store SeedClient

/-! ## Tickers -/

structure Ticker where
  period : Duration
  next : Time

def newTicker (now : Time) (period : Duration) : Ticker := ⟨period, now + period⟩

def Ticker.tick (t : Ticker) : Ticker := { t with next := t.next + t.period }

/-! ## Check definitions -/

inductive Kind where
  | http | tcp | udp | script
  deriving DecidableEq, Repr

structure Definition where
  kind : Kind
  target : String := ""
  method : String := ""
  header : Map (List String) := ∅
  args : List String := []
  interval : Duration := 0
  timeout : Duration := 0
  tlsSkipVerify : Bool := false

def defaultInterval : Duration := 10 * second

/-- The method `interval`. -/
def Definition.every (d : Definition) : Duration :=
  if d.interval > 0 then d.interval else defaultInterval

def minInterval (first : Definition) (rest : List Definition) : Duration :=
  rest.foldl (fun lowest d => if d.every < lowest then d.every else lowest) first.every

/-- Whether the check passes, given what its target answers. -/
def probe (enableScript : Bool) (answers : Definition → Bool) (d : Definition) : Bool :=
  match d.kind with
  | .script => enableScript && answers d
  | _ => answers d

/-! ## The monitor -/

/-- The loop of one service: its checks, at least one, and its ticker. -/
structure SvcState where
  first : Definition
  rest : List Definition
  ticker : Ticker

structure Monitor where
  enableScript : Bool
  services : Map SvcState := ∅

namespace Monitor

variable (m : Monitor)

def remove (serviceID : String) : Monitor := { m with services := m.services.erase serviceID }

def set (now : Time) (serviceID : String) : List Definition → Monitor
  | [] => m.remove serviceID
  | first :: rest =>
    let st : SvcState := ⟨first, rest, newTicker now (minInterval first rest)⟩
    { m with services := (m.remove serviceID).services.insert serviceID st }

def active (serviceID : String) : Bool := m.services.contains serviceID

def tick (serviceID : String) : Monitor :=
  { m with services := m.services.modify serviceID fun st => { st with ticker := st.ticker.tick } }

def healthy (st : SvcState) (answers : Definition → Bool) : Bool :=
  (st.first :: st.rest).all (probe m.enableScript answers)

end Monitor

theorem active_iff (m : Monitor) (id : String) : m.active id = true ↔ id ∈ m.services :=
  Std.ExtTreeMap.contains_iff_mem

theorem active_remove (m : Monitor) (id id' : String) :
    (m.remove id).active id' = true ↔ id ≠ id' ∧ m.active id' = true := by
  rw [active_iff, active_iff, Monitor.remove, Std.ExtTreeMap.mem_erase, ne_eq, Std.compare_eq_iff_eq]

theorem active_set (m : Monitor) (now : Time) (id id' : String) (defs : List Definition) :
    (m.set now id defs).active id' = true ↔ if id = id' then defs ≠
      [] else m.active id' = true := by
  cases defs with
  | nil =>
    rw [Monitor.set, active_remove]
    by_cases hid : id = id' <;> simp [hid]
  | cons first rest =>
    rw [active_iff, Monitor.set, Std.ExtTreeMap.mem_insert, ← active_iff, active_remove,
      Std.compare_eq_iff_eq]
    by_cases hid : id = id' <;> simp [hid]

/-! ## The agent and its seeds -/

/-- The durations of a configuration that `Validate` lets through. -/
structure Config where
  ttl : Duration
  heartbeatInterval : Duration
  ttl_pos : 0 < ttl
  heartbeat_pos : 0 < heartbeatInterval
  heartbeat_lt_ttl : heartbeatInterval < ttl

structure Agent (k : Nat) where
  now : Time
  proxy : Proxy
  monitor : Monitor
  heartbeat : Ticker
  seeds : Fin k → Memory

def start {k : Nat} (cfg : Config) (node : Node) (quorum : Int) (enableScript : Bool) (now : Time)
    (seeds : Fin k → Memory) : Agent k where
  now := now
  proxy := newProxy node quorum
  monitor := { enableScript := enableScript }
  heartbeat := newTicker now cfg.heartbeatInterval
  seeds := seeds

/-- What can happen. Time stands still until the ticks that are due are handled, and every request
of the agent is handled by all seeds at the instant it is made. -/
inductive Action (k : Nat) where
  | elapse (d : Nat)
  | registerGRPC (reg : Registration)
  | registerHTTP (svc : ServiceInstance) (defs : List Definition)
  | heartbeat (order : RangeOrder String)
  | check (serviceID : String) (answers : Definition → Bool)
  | renew (ids : List String)
  | removeGRPC (serviceID : String)
  | removeHTTP (serviceID : String)
  | deregister (order : RangeOrder String)
  | gc (i : Fin k) (order : GcOrder)
  | merge (i : Fin k) (clk : Nat → Time) (es : List ServiceEntry)
  | foreign (i : Fin k) (c : Call) (n : String) (htarget : c.target = some n)

namespace Agent

variable {k : Nat} (s : Agent k)

def fates : Fin k → Fate := fun _ => .processed (fun _ => s.now) true

def quietUntil (t : Time) : Bool :=
  t ≤ s.heartbeat.next && s.monitor.services.toList.all fun x => t ≤ x.2.ticker.next

def seedDoes (i : Fin k) (f : Memory → Memory) : Agent k :=
  { s with seeds := Function.update s.seeds i (f (s.seeds i)) }

/-- The HTTP surface and the service files: a service that was registered gets its checks. -/
def registerHTTP (svc : ServiceInstance) (defs : List Definition) : Agent k :=
  match s.proxy.registerServices s.seeds (single s.proxy.node (named svc) 1) s.fates with
  | (p, seeds, some _) => { s with proxy := p, seeds := seeds }
  | (p, seeds, none) =>
    { s with proxy := p, seeds := seeds, monitor := s.monitor.set s.now (named svc).id defs }

/-- A gRPC client does not reach the monitor. -/
def registerGRPC (reg : Registration) : Agent k :=
  let (p, seeds, _) := s.proxy.registerServices s.seeds reg s.fates
  { s with proxy := p, seeds := seeds }

def check (serviceID : String) (answers : Definition → Bool) : Agent k :=
  match s.monitor.services[serviceID]? with
  | none => s
  | some st =>
    if st.ticker.next = s.now then
      let monitor := s.monitor.tick serviceID
      if s.monitor.healthy st answers then
        { s with monitor := monitor, seeds := (s.proxy.keepAlive s.seeds serviceID s.fates).1 }
      else { s with monitor := monitor }
    else s

def step : Action k → Agent k
  | .elapse d => if s.quietUntil (s.now + d) then { s with now := s.now + d } else s
  | .registerGRPC reg => s.registerGRPC reg
  | .registerHTTP svc defs => s.registerHTTP svc defs
  | .heartbeat order =>
    if s.heartbeat.next = s.now then
      { s with heartbeat := s.heartbeat.tick
               seeds := s.proxy.renewOnce order (some s.monitor.active) s.seeds s.fates }
    else s
  | .check serviceID answers => s.check serviceID answers
  | .renew ids => { s with seeds := (s.proxy.renew s.seeds ids s.fates).1 }
  | .removeGRPC serviceID =>
    let (p, seeds, _) := s.proxy.removeService s.seeds serviceID s.fates
    { s with proxy := p, seeds := seeds }
  | .removeHTTP serviceID =>
    match s.proxy.removeService s.seeds serviceID s.fates with
    | (p, seeds, some _) => { s with proxy := p, seeds := seeds }
    | (p, seeds, none) => { s with proxy := p, seeds := seeds, monitor := s.monitor.remove serviceID }
  | .deregister order =>
    let (p, seeds, _) := s.proxy.deregister order s.seeds s.fates
    { s with proxy := p, seeds := seeds }
  | .gc i order => s.seedDoes i fun m => (m.gc (fun _ => s.now) order).mem
  | .merge i clk es => s.seedDoes i fun m => (m.merge clk es).mem
  | .foreign i c _ _ => s.seedDoes i fun m => (c.exec m).1

end Agent

end YellowPages.Healthcheck
