import YellowPages.Consul.Handler
import YellowPages.Healthcheck.Monitor
import YellowPages.SeedClient.KeepAlive

/-!
# Who keeps a service alive

A service with active checks is kept alive by the monitor, and every other hosted service by the renew
loop. The monitor learns of a service from the Consul API alone, and the gRPC proxy writes the hosted
services past it.
-/

namespace YellowPages.Consul

open Lib Store SeedClient Server Healthcheck

/-! ## The checks of a request -/

namespace Handler

variable (h : Handler)

def parseDur (s : String) : Duration :=
  match h.parseDuration s with
  | some d => if d > 0 then d else 0
  | none => 0

/-- `none` for a check with a TTL only. -/
def toDefinition (c : CheckInput) : Option Definition :=
  let d := fun (kind : Kind) (target : String) (args : List String) =>
    { kind := kind, target := target, method := c.method, header := c.header, args := args
      interval := h.parseDur c.interval, timeout := h.parseDur c.timeout,
      tlsSkipVerify := c.tlsSkipVerify :
      Definition }
  if c.http ≠ "" then some (d .http c.http [])
  else if c.tcp ≠ "" then some (d .tcp c.tcp [])
  else if c.udp ≠ "" then some (d .udp c.udp [])
  else if c.args ≠ [] then some (d .script "" c.args)
  else none

def activeChecks (input : RegisterInput) : List Definition :=
  (input.check.bind h.toDefinition).toList ++ input.checks.filterMap h.toDefinition

end Handler

/-! ## The agent -/

/-- An agent with both surfaces. `latest` has the active checks of the latest registration of each id
that was accepted, and nothing reads it. -/
structure LocalAgent (k : Nat) where
  handler : Handler
  proxy : Proxy
  monitor : Monitor
  seeds : Fin k → Memory
  latest : Map (List Definition) := ∅

/-- The calls, with what becomes of them on the seeds. -/
inductive AgentCall (k : Nat) where
  | registerHTTP (token : String) (body : Option RegisterInput) (now : Time) (fates : Fin k → Fate)
  | removeHTTP (token serviceID : String) (fates : Fin k → Fate)
  | registerGRPC (reg : Registration) (fates : Fin k → Fate)
  | removeGRPC (serviceID : String) (fates : Fin k → Fate)
  | deregister (order : RangeOrder String) (fates : Fin k → Fate)

namespace LocalAgent

variable {k : Nat} (s : LocalAgent k)

/-- `RegisterServices` and then `Set`. -/
def registerServices (input : RegisterInput) (now : Time) (fates : Fin k → Fate)
    (reg : Registration) :
    LocalAgent k × Option String :=
  match s.proxy.registerServices s.seeds reg fates with
  | (proxy, seeds, some err) => ({ s with proxy := proxy, seeds := seeds }, some err.text)
  | (proxy, seeds, none) =>
    let id := (s.handler.inputToService input).id
    let defs := s.handler.activeChecks input
    ({ s with
        proxy := proxy
        seeds := seeds
        monitor := s.monitor.set now id defs
        latest := s.latest.insert id defs }, none)

/-- `RemoveService` and then `Remove`. -/
def removeService (fates : Fin k → Fate) (serviceID : String) : LocalAgent k × Option String :=
  match s.proxy.removeService s.seeds serviceID fates with
  | (proxy, seeds, some err) => ({ s with proxy := proxy, seeds := seeds }, some err.text)
  | (proxy, seeds, none) =>
    ({ s with proxy := proxy, seeds := seeds, monitor := s.monitor.remove serviceID }, none)

def registerGRPC (reg : Registration) (fates : Fin k → Fate) : LocalAgent k :=
  let (proxy, seeds, err) := s.proxy.registerServices s.seeds reg fates
  let latest := (reg.services.map serviceId).foldl (fun latest id => latest.insert id []) s.latest
  { s with proxy := proxy, seeds := seeds, latest := if err.isNone then latest else s.latest }

def step : AgentCall k → LocalAgent k
  | .registerHTTP token body now fates =>
    (s.handler.registerService (s.registerServices (body.getD {}) now fates) token s body).1
  | .removeHTTP token serviceID fates =>
    (s.handler.deregisterService (s.removeService fates) token s serviceID).1
  | .registerGRPC reg fates => s.registerGRPC reg fates
  | .removeGRPC serviceID fates =>
    let (proxy, seeds, _) := s.proxy.removeService s.seeds serviceID fates
    { s with proxy := proxy, seeds := seeds }
  | .deregister order fates =>
    let (proxy, seeds, _) := s.proxy.deregister order s.seeds fates
    { s with proxy := proxy, seeds := seeds }

def run (calls : List (AgentCall k)) : LocalAgent k := calls.foldl step s

/-- The latest registration of the id that was accepted had an active check. -/
def Checked (id : String) : Prop := ∃ defs, s.latest[id]? = some defs ∧ defs ≠ []

end LocalAgent

def newAgent {k : Nat} (handler : Handler) (node : Node) (quorum : Int) (enableScript : Bool)
    (seeds : Fin k → Memory) : LocalAgent k :=
  { handler := handler, proxy := newProxy node quorum, monitor := { enableScript := enableScript },
    seeds := seeds }

variable {k : Nat}

/-- The monitor checks the hosted services whose latest registration asks for it. -/
def Follows (s : LocalAgent k) : Prop :=
  ∀ id, s.monitor.active id = true ↔ id ∈ s.proxy.hosted ∧ s.Checked id

/-- A service that the monitor checks is left alone by the gRPC surface, and an HTTP request removes it
only if some seed holds it and replies. -/
def LeftToMonitor (s : LocalAgent k) : AgentCall k → Prop
  | .registerHTTP .. => True
  | .removeHTTP _ serviceID fates => s.monitor.active serviceID = true →
    s.proxy.node.id ≠ "" ∧ ∃ i clk, fates i = .processed clk true ∧
      (s.seeds i).service? s.proxy.node.id serviceID ≠ none
  | .registerGRPC reg _ => ∀ svc ∈ reg.services, s.monitor.active (serviceId svc) = false
  | .removeGRPC serviceID _ => s.monitor.active serviceID = false
  | .deregister .. => ∀ id ∈ s.proxy.hosted, s.monitor.active id = false

/-! ## What the calls do to the two maps -/

theorem getElem?_cleared (ids : List String) (latest : Map (List Definition)) (id : String) :
    (ids.foldl (fun latest id => latest.insert id []) latest)[id]? =
      if id ∈ ids then some [] else latest[id]? := by
  refine (getElem?_foldl_insert (fun i => i) (fun _ => []) ids latest id).trans ?_
  rw [List.filter_eq, List.getLast?_replicate]
  by_cases hid : id ∈ ids <;> simp [hid, List.count_eq_zero]

theorem mem_host (p : Proxy) (reg : Registration) (id : String) :
    id ∈ (p.host (p.sends reg)).hosted ↔ id ∈ reg.services.map serviceId ∨ id ∈ p.hosted := by
  have hlisted : ((p.sends reg).services.filter (·.id = id)).getLast?.isSome = true ↔
      id ∈ reg.services.map serviceId := by
    rw [List.getLast?_isSome, ne_eq, List.filter_eq_nil_iff]
    simp [Proxy.sends, named]
  rw [Std.ExtTreeMap.mem_iff_isSome_getElem?, host_last, Option.isSome_or, Bool.or_eq_true,
    Option.isSome_map, hlisted,
    ← Std.ExtTreeMap.mem_iff_isSome_getElem?]

theorem registerServices_hosted (p : Proxy) (seeds : Fin k → Memory) (reg : Registration)
    (fates : Fin k → Fate) :
    let r := p.registerServices seeds reg fates
    r.2.2 ≠ none ∧ r.1 = p ∨
      r.2.2 = none ∧ ∀ id, id ∈ r.1.hosted ↔ id ∈ reg.services.map serviceId ∨ id ∈ p.hosted := by
  intro r
  rcases registerServices_cases p seeds reg fates with ⟨err, -, hr⟩
    | ⟨sent, hsent, ⟨-, hr⟩ | ⟨-, err, hr⟩⟩
  · exact Or.inl (by rw [show r = _ from hr]; exact ⟨Option.some_ne_none err, rfl⟩)
  · obtain rfl := sends_of_prepare hsent
    exact Or.inr (by rw [show r = _ from hr]; exact ⟨rfl, mem_host p reg⟩)
  · exact Or.inl (by rw [show r = _ from hr]; exact ⟨Option.some_ne_none err, rfl⟩)

/-- A removal fails, after it took the service off the list, only if no seed that holds it replies. -/
theorem removeService_ok (p : Proxy) {seeds : Fin k → Memory} {id : String} {fates : Fin k → Fate}
    (hid : id ≠ "") (hnode : p.node.id ≠ "") {i : Fin k} {clk : Nat → Time}
    (hfate : fates i = .processed clk true) (hheld : (seeds i).service? p.node.id id ≠ none) :
    (p.removeService seeds id fates).2.2 = none := by
  obtain ⟨svc, hsvc⟩ := Option.ne_none_iff_exists'.mp hheld
  obtain ⟨r, hr, hr'⟩ := Option.bind_eq_some_iff.mp hsvc
  have hret : ((seeds i).deregisterService p.node.id id).ret = none := by
    simp [Memory.deregisterService, hr, hr']
  have hseed :
      (callSeed (fun m _ => Server.deregisterService m p.node.id id) (seeds i) (fates i)).2 = true := by
    simp [callSeed, hfate, Server.deregisterService, hnode, hid, reply, hret]
  have hpos :
      0 < (fanOut (fun m _ => Server.deregisterService m p.node.id id) seeds fates).2.succeeded :=
    List.countP_pos_iff.mpr ⟨i, List.mem_finRange i, hseed⟩
  have hok : (fanOut (fun m _ => Server.deregisterService m p.node.id id) seeds fates).2.ok 1 =
      true := by
    simp only [WriteResult.ok, decide_eq_true_eq]
    omega
  simp [Proxy.removeService, hid, hok]

/-! ## The step -/

theorem serviceId_inputToService (h : Handler) (input : RegisterInput) :
    serviceId (h.inputToService input) = (h.inputToService input).id := by
  simp only [serviceId, Handler.inputToService, orName]
  split <;> simp_all

namespace Follows

variable {s s' : LocalAgent k}

theorem new (handler : Handler) (node : Node) (quorum : Int) (enableScript : Bool)
    (seeds : Fin k → Memory) :
    Follows (newAgent handler node quorum enableScript seeds) := by
  intro id
  simp [newAgent, newProxy, active_iff]

/-- Only the seeds differ, or nothing does. -/
theorem same (h : Follows s) (hhosted : s'.proxy.hosted = s.proxy.hosted)
    (hmonitor : s'.monitor = s.monitor) (hlatest : s'.latest = s.latest) : Follows s' := by
  intro id
  rw [LocalAgent.Checked, hhosted, hmonitor, hlatest]
  exact h id

/-- A service without checks is taken off the list. -/
theorem erase (h : Follows s) {serviceID : String}
    (hhosted : s'.proxy.hosted = s.proxy.hosted.erase serviceID)
    (hmonitor : ∀ id, s'.monitor.active id = true ↔ serviceID ≠ id ∧ s.monitor.active id = true)
    (hlatest : s'.latest = s.latest) : Follows s' := by
  intro id
  rw [LocalAgent.Checked, hmonitor, hhosted, hlatest, h id, Std.ExtTreeMap.mem_erase, ne_eq, ne_eq,
    Std.compare_eq_iff_eq, and_assoc]
  rfl

theorem registerServices (h : Follows s) (input : RegisterInput) (now : Time) (fates : Fin k → Fate)
    (node : Node) :
    Follows (s.registerServices input now fates
      (single node (s.handler.inputToService input) 1)).1 := by
  have hspec :=
    registerServices_hosted s.proxy s.seeds (single node (s.handler.inputToService input) 1) fates
  unfold LocalAgent.registerServices
  split <;> rename_i proxy seeds hr <;> rw [hr] at hspec
  · obtain ⟨-, hproxy⟩ := hspec.resolve_right fun hok => by cases hok.1
    exact h.same (congrArg Proxy.hosted hproxy) rfl rfl
  · obtain ⟨-, hhosted⟩ := hspec.resolve_left fun hfail => hfail.1 rfl
    intro id
    have hmem : id ∈ proxy.hosted ↔ (s.handler.inputToService input).id = id ∨
        id ∈ s.proxy.hosted := by
      rw [hhosted]
      simp [single, serviceId_inputToService, eq_comm]
    dsimp only [LocalAgent.Checked]
    rw [active_set, hmem, Std.ExtTreeMap.getElem?_insert]
    by_cases heq : (s.handler.inputToService input).id = id
    · simp [heq]
    · simp only [heq, if_false, Std.compare_eq_iff_eq, false_or]
      exact h id

theorem registerGRPC (h : Follows s) {reg : Registration} {fates : Fin k → Fate}
    (ha : LeftToMonitor s (.registerGRPC reg fates)) : Follows (s.registerGRPC reg fates) := by
  unfold LocalAgent.registerGRPC
  dsimp only
  rcases registerServices_hosted s.proxy s.seeds reg fates with ⟨hret, hproxy⟩ | ⟨hret, hhosted⟩
  · refine h.same (congrArg Proxy.hosted hproxy) rfl ?_
    rw [if_neg (by simpa using hret)]
  · intro id
    dsimp only [LocalAgent.Checked]
    rw [if_pos (by simpa using hret), getElem?_cleared, hhosted]
    by_cases hid : id ∈ reg.services.map serviceId
    · obtain ⟨svc, hsvc, rfl⟩ := List.mem_map.mp hid
      simp [ha svc hsvc, hid]
    · rw [if_neg hid]
      simp only [hid, false_or]
      exact h id

theorem removeService (h : Follows s) {token serviceID : String} {fates : Fin k → Fate}
    (ha : LeftToMonitor s (.removeHTTP token serviceID fates)) :
    Follows (s.removeService fates serviceID).1 := by
  rcases removeService_cases s.proxy s.seeds serviceID fates with ⟨err, hr⟩ | ⟨ret, hid, hr⟩
  · rw [LocalAgent.removeService, hr]
    exact h.same rfl rfl rfl
  · rw [LocalAgent.removeService, hr]
    cases ret with
    | none => exact h.erase rfl (active_remove s.monitor serviceID) rfl
    | some err =>
      refine h.erase rfl (fun id => ?_) rfl
      rw [iff_and_self]
      rintro hactive rfl
      obtain ⟨hnode, i, clk, hfate, hheld⟩ := ha hactive
      have hret := removeService_ok s.proxy hid hnode hfate hheld
      rw [hr] at hret
      cases hret

theorem step (h : Follows s) {c : AgentCall k} (hc : LeftToMonitor s c) : Follows (s.step c) := by
  cases c with
  | registerHTTP token body now fates =>
    simp only [LocalAgent.step, Handler.registerService, Handler.authorized]
    split
    · exact h
    · cases body with
      | none => exact h
      | some input =>
        dsimp only
        split
        · exact h
        · rw [finish_fst]
          exact h.registerServices input now fates s.handler.node
  | removeHTTP token serviceID fates =>
    simp only [LocalAgent.step, Handler.deregisterService, Handler.authorized]
    split
    · exact h
    · rw [finish_fst]
      exact h.removeService hc
  | registerGRPC reg fates => exact h.registerGRPC hc
  | removeGRPC serviceID fates =>
    rcases removeService_cases s.proxy s.seeds serviceID fates with ⟨err, hr⟩ | ⟨ret, hid, hr⟩
    · simp only [LocalAgent.step, hr]
      exact h.same rfl rfl rfl
    · simp only [LocalAgent.step, hr]
      refine h.erase rfl (fun id => ?_) rfl
      rw [iff_and_self]
      rintro hactive rfl
      exact Bool.false_ne_true (hc.symm.trans hactive)
  | deregister order fates =>
    have hhosted : (s.step (.deregister order fates)).proxy.hosted = ∅ := by
      simp only [LocalAgent.step, Proxy.deregister]
      split <;> rfl
    intro id
    have hactive : s.monitor.active id ≠ true := by
      intro hactive
      exact Bool.false_ne_true ((hc id ((h id).mp hactive).1).symm.trans hactive)
    rw [hhosted]
    exact iff_of_false hactive fun hmem => Std.ExtTreeMap.not_mem_empty hmem.1

end Follows

/-! ## Runs -/

/-- As long as the gRPC surface leaves the services of the monitor alone, and each of them that is
removed is removed from some seed, the monitor has exactly the hosted services that were registered
with checks the last time, and the renew loop has the others. -/
theorem keep_alive_owner (handler : Handler) (node : Node) (quorum : Int) (enableScript : Bool)
    (seeds : Fin k → Memory) (calls : List (AgentCall k))
    (hrun : Throughout LocalAgent.step LeftToMonitor
      (newAgent handler node quorum enableScript seeds) calls) :
    let s := (newAgent handler node quorum enableScript seeds).run calls
    (∀ id, s.monitor.active id = true ↔ id ∈ s.proxy.hosted ∧ s.Checked id) ∧
      ∀ order id, id ∈ tickIds s.proxy order s.monitor.active ↔ id ∈ s.proxy.hosted ∧
        ¬ s.Checked id := by
  intro s
  have hfollows : Follows s :=
    hrun.keeps Follows (Follows.new handler node quorum enableScript seeds) fun s c hc h => h.step hc
  refine ⟨hfollows, fun order id => ?_⟩
  rw [mem_tickIds, Proxy.listed]
  simp only [Option.some.injEq, forall_eq']
  rw [and_congr_right_iff]
  intro hmem
  rw [← Bool.not_eq_true, hfollows id]
  simp [hmem]

def plainAgent : LocalAgent 1 :=
  newAgent { info := { id := "n" }, parseDuration := fun _ => none } { id := "n" } 1 false fun _ =>
    newMemory {}

def putWeb (check : Option CheckInput) : AgentCall 1 :=
  .registerHTTP "" (some { name := "web", check := check }) 0 fun _ => .processed (fun _ => 0) true

def probed : Option CheckInput := some { http := "http://127.0.0.1/health" }

theorem not_checked {s : LocalAgent k} {id : String}
    (h : (s.latest[id]?).map List.isEmpty = some true) :
    ¬ s.Checked id := by
  rintro ⟨defs, hdefs, hne⟩
  rw [hdefs, Option.map_some, Option.some.injEq, List.isEmpty_iff] at h
  exact hne h

/-- A service is registered with a check, and then again without one. -/
theorem keep_alive_owner_unchecked :
    "web" ∈ tickIds (plainAgent.run [putWeb probed, putWeb none]).proxy .asStored
      (plainAgent.run [putWeb probed, putWeb none]).monitor.active :=
  ((keep_alive_owner _ _ _ _ _ [putWeb probed, putWeb none] ⟨trivial, trivial, trivial⟩).2 .asStored
    "web").mpr
    ⟨by decide, not_checked (by decide)⟩

/-- The same with the second registration over gRPC. The monitor goes on with the check. -/
theorem grpc_registration_keeps_check :
    ¬ ∀ (k : Nat) (handler : Handler) (node : Node) (quorum : Int) (enableScript : Bool)
      (seeds : Fin k → Memory) (calls : List (AgentCall k)),
      let s := (newAgent handler node quorum enableScript seeds).run calls
      (∀ id, s.monitor.active id = true ↔ id ∈ s.proxy.hosted ∧ s.Checked id) ∧
        ∀ order id, id ∈ tickIds s.proxy order s.monitor.active ↔ id ∈ s.proxy.hosted ∧
          ¬ s.Checked id := by
  intro h
  let calls : List (AgentCall 1) := [putWeb probed,
    .registerGRPC (single { id := "n" } { id := "web", name := "web" } 2) fun _ =>
      .processed (fun _ => 1) true]
  have hweb := (h 1 plainAgent.handler { id := "n" } 1 false (fun _ => newMemory {}) calls).1 "web"
  exact not_checked (s := plainAgent.run calls) (by decide) (hweb.mp (by decide)).2

end YellowPages.Consul
