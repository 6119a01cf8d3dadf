import YellowPages.App

/-!
# The components of a process

`buildComponents` in `cmd/yp/root.go`: which components a seed and an agent run, and in which order they
start. The order of the Stops follows from it.
-/

namespace YellowPages.Cmd

open App

inductive Component where
  | metrics | grpcServer | storeGc | membership | consulHttp | consulDns | serviceDefs | federation
      | deregistrar
  | readinessProbe | renewLoop | cacheRefresh | indexFlusher | healthchecks
  deriving DecidableEq

def Component.name : Component → String
  | .metrics => "metrics-http"
  | .grpcServer => "grpc-server"
  | .storeGc => "store-gc"
  | .membership => "membership"
  | .consulHttp => "consul-http"
  | .consulDns => "consul-dns"
  | .serviceDefs => "service-defs"
  | .federation => "federation"
  | .deregistrar => "deregistrar"
  | .readinessProbe => "readiness-probe"
  | .renewLoop => "renew-loop"
  | .cacheRefresh => "cache-refresh"
  | .indexFlusher => "index-flusher"
  | .healthchecks => "healthchecks"

inductive Role where
  | seed | agent
  deriving DecidableEq

/-- What `buildComponents` reads of the config, and the errors of what it calls. -/
structure Setup where
  role : Role
  metrics : Bool := false
  consulHttp : Bool := false
  dns : Bool := false
  configDir : String := ""
  membership : Bool := false
  peers : List String := []
  federation : Bool := false
  seeds : List String := []
  bootstrapErr : Option String := none
  dialErr : Option String := none
  poolErr : Option String := none

namespace Setup

variable (s : Setup)

def ifSet (b : Bool) (c : Component) : List Component := if b then [c] else []

theorem mem_ifSet {b : Bool} {c c' : Component} : c ∈ ifSet b c' ↔ b = true ∧ c = c' := by
  cases b <;> simp [ifSet]

/-- The components that both roles have last. -/
def frontends : List Component :=
  ifSet s.consulHttp .consulHttp ++ ifSet s.dns .consulDns ++ ifSet (s.configDir ≠ "") .serviceDefs

def seedComponents : Except String (List Component) :=
  let gateReadiness := s.membership && !s.peers.isEmpty
  match s.bootstrapErr with
  | some err => .error err
  | none =>
    match gateReadiness, s.dialErr with
    | true, some err => .error ("membership: dial peers: " ++ err)
    | _, _ =>
      .ok (ifSet s.metrics .metrics ++ [.grpcServer, .storeGc] ++ ifSet gateReadiness .membership ++
        s.frontends)

def agentComponents : Except String (List Component) :=
  if s.seeds.isEmpty then
    .error "agent: no seeds resolved (configure cluster.seeds or cluster.discovery)"
  else
    match s.dialErr with
    | some err => .error err
    | none =>
      match s.federation, s.poolErr with
      | true, some err => .error err
      | _, _ =>
        .ok (ifSet s.metrics .metrics ++ ifSet s.federation .federation ++
          [.deregistrar, .grpcServer, .readinessProbe, .renewLoop, .cacheRefresh, .indexFlusher,
            .healthchecks] ++
          s.frontends)

def buildComponents : Except String (List Component) :=
  match s.role with
  | .seed => s.seedComponents
  | .agent => s.agentComponents

end Setup

/-! ## Stops in order -/

/-- When a Stop is called, the Stops of all components that started later have returned. -/
theorem stopped_after {p : Process} (h : ShutsDown p) {i j : Nat} (hi : i ∈ p.stopCalls) (hij : i < j)
    (hj : j < p.names.length) : j ∈ p.stops.map Prod.fst := by
  obtain ⟨left, hleft⟩ := h.order
  obtain ⟨calling, hcalling⟩ := h.oneByOne
  have hdown : (p.stopCalls ++ left).Pairwise (· > ·) := by
    rw [hleft, List.pairwise_reverse]
    exact List.pairwise_lt_range
  have hmem : j ∈ p.stopCalls ++ left := by simp [hleft, hj]
  rcases List.mem_append.mp hmem with hcalled | hnot
  · have hdown' := (List.pairwise_append.mp hdown).1
    rw [hcalling] at hcalled hi hdown'
    rcases List.mem_append.mp hcalled with hreturned | hlast
    · exact hreturned
    · -- `j` is the Stop that is running, and all before it started later.
      rcases List.mem_append.mp hi with hi | hi
      · have hgt := (List.pairwise_append.mp hdown').2.2 i hi j hlast
        omega
      · simp only [Option.mem_toList] at hi hlast
        have heq : i = j := Option.some.inj (hi.symm.trans hlast)
        omega
  · have hgt := (List.pairwise_append.mp hdown).2.2 i hi j hnot
    omega

def calledNames (p : Process) : List String := p.stopCalls.map fun i => p.names.getD i ""

def stoppedNames (p : Process) : List String := p.stops.map fun r => p.names.getD r.1 ""

theorem agentComponents_eq {s : Setup} {cs : List Component} (h : s.agentComponents = .ok cs) :
    cs = (Setup.ifSet s.metrics .metrics ++ Setup.ifSet s.federation .federation) ++ .deregistrar ::
      ([.grpcServer, .readinessProbe, .renewLoop, .cacheRefresh, .indexFlusher, .healthchecks] ++
        s.frontends) := by
  unfold Setup.agentComponents at h
  split at h
  · cases h
  · split at h
    · cases h
    · split at h
      · cases h
      · rw [← Except.ok.inj h]
        simp

theorem index_of_split {α : Type} {before after : List α} {a : α} {i : Nat} (hbefore : a ∉ before)
    (hafter : a ∉ after) (hi : (before ++ a :: after)[i]? = some a) : i = before.length := by
  rw [List.getElem?_append] at hi
  split at hi <;> rename_i hlt
  · exact absurd (List.mem_of_getElem? hi) hbefore
  · rcases hk : i - before.length with _ | k
    · omega
    · rw [hk, List.getElem?_cons_succ] at hi
      exact absurd (List.mem_of_getElem? hi) hafter

/-- When `d` is stopped, everything that started after it has been. -/
theorem stopped_of_called {p : Process} (h : ShutsDown p) {before after : List String}
    {d c : String} (hnames : p.names = before ++ d :: after) (hbefore : d ∉ before)
    (hafter : d ∉ after) (hd : d ∈ calledNames p) (hc : c ∈ after) : c ∈ stoppedNames p := by
  obtain ⟨i, hi, hname⟩ := List.mem_map.mp hd
  have hlt : i < p.names.length := by simpa using h.order.subset hi
  have hpos : i = before.length := by
    refine index_of_split hbefore hafter ?_
    rw [← hnames, List.getElem?_eq_getElem hlt, ← hname, List.getD_eq_getElem _ _ hlt]
  obtain ⟨k, hk⟩ := List.getElem?_of_mem hc
  have hj : p.names[before.length + (k + 1)]? = some c := by
    rw [hnames, List.getElem?_append_right (Nat.le_add_right _ _), Nat.add_sub_cancel_left,
      List.getElem?_cons_succ, hk]
  have hjlt : before.length + (k + 1) < p.names.length := (List.getElem?_eq_some_iff.mp hj).1
  obtain ⟨r, hr, hrj⟩ := List.mem_map.mp (stopped_after h hi (by omega) hjlt)
  refine List.mem_map.mpr ⟨r, hr, ?_⟩
  rw [hrj, List.getD_eq_getElem?_getD, hj]
  rfl

/-- An agent deregisters its node only when everything that serves or renews it has been stopped. -/
theorem agent_deregisters_last (s : Setup) (hrole : s.role = .agent) (cs : List Component)
    (hcs : s.buildComponents = .ok cs) (actions : List Action) :
    let p := Process.run { names := cs.map Component.name } actions
    Component.deregistrar.name ∈ calledNames p →
      ∀ c ∈ cs, c ∉ [.metrics, .federation, .deregistrar] → c.name ∈ stoppedNames p := by
  intro p hcalled c hc hlater
  rw [Setup.buildComponents, hrole] at hcs
  have hsplit := agentComponents_eq hcs
  have hnames : p.names = cs.map Component.name := names_run _ actions
  rw [hsplit, List.map_append, List.map_cons] at hnames
  refine stopped_of_called ((Orderly.new _).run actions).shutsDown hnames ?_ ?_ hcalled
    (List.mem_map_of_mem ?_)
  · simp [Setup.mem_ifSet, Component.name]
  · simp [Setup.frontends, Setup.mem_ifSet, Component.name]
  · simp only [List.mem_cons, List.not_mem_nil, or_false, not_or] at hlater
    simp only [hsplit, List.mem_append, Setup.mem_ifSet, hlater, and_false, false_or, List.mem_cons]
      at hc ⊢
    exact hc

/-- An agent with one seed, stopped down to its deregistrar. -/
def stopAgent : List Action :=
  [.signal, .proceed] ++ (List.replicate 6 [.callStop, .stopReturns none]).flatten ++ [.callStop]

theorem agent_deregisters_last_plain :
    let p := Process.run
        { names := ["deregistrar", "grpc-server", "readiness-probe", "renew-loop", "cache-refresh",
      "index-flusher", "healthchecks"] } stopAgent
    "deregistrar" ∈ calledNames p ∧ "grpc-server" ∈ stoppedNames p := by
  refine ⟨by decide, ?_⟩
  exact agent_deregisters_last { role := .agent, seeds := ["seed:8600"] } rfl _ rfl stopAgent
    (by decide) .grpcServer
    (by decide) (by decide)

end YellowPages.Cmd
