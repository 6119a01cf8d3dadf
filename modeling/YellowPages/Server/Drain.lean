import YellowPages.Model

/-!
# Readiness of an agent and its drain

`internal/server/component.go`, `internal/observability/readiness.go` and the readiness probe of
`internal/seedclient/loops.go`. The gRPC server marks itself ready when it listens, the probe marks it
from the number of reachable seeds, and `Stop` marks it not ready, waits the drain window and stops.
All three write the same gate, one service after the other.
-/

namespace YellowPages.Server

structure DrainConfig where
  drainWindow : Duration
  readyMinSeeds : Int
  startNotReady : Bool := false

/-- `NewReadinessProbe` clamps it. -/
def DrainConfig.minSeeds (c : DrainConfig) : Int := if c.readyMinSeeds < 1 then 1 else c.readyMinSeeds

/-- The services of the gate, in the order in which `set` writes them. -/
def gated : List String := ["", "discovery.v1.AgentService"]

/-- `Component.Start`. `marking` is in `SetReady`, with the services that are not written yet. -/
inductive Starting where
  | listening
  | marking (rest : List String)
  | serving
  | returned
  deriving DecidableEq, Repr

/-- `ReadinessProbe.Start`. `counted` has the answer of `Reachable`. -/
inductive Probing where
  | waiting
  | asking
  | counted (reachable : Nat)
  | marking (ready : Bool) (rest : List String)
  | returned
  deriving DecidableEq, Repr

/-- `Component.Stop`, and when it was done with the gate. -/
inductive Stopping where
  | idle
  | marking (rest : List String)
  | draining (since : Time)
  /-- `GracefulStop` is called: no new connections and no new RPCs. -/
  | stopping (since : Time)
  | returned (since : Time)
  deriving DecidableEq, Repr

structure Draining where
  now : Time := 0
  /-- The context of the components is cancelled. -/
  cancelled : Bool := false
  /-- The shutdown window is over. -/
  stopCancelled : Bool := false
  /-- Which services report SERVING. -/
  gate : Map Bool := ∅
  start : Starting := .listening
  probe : Probing := .waiting
  stop : Stopping := .idle

inductive StartMove where
  | listen (ok : Bool)
  /-- The next write of the gate, or the end of `SetReady`. -/
  | mark
  | finish
  deriving DecidableEq, Repr

inductive ProbeMove where
  | ask
  | answer (reachable : Nat)
  /-- The look at the context after `Reachable`. -/
  | check
  | mark
  | finish
  deriving DecidableEq, Repr

inductive StopMove where
  /-- The app calls `Stop`, which it does when the context is cancelled. -/
  | call
  | mark
  | drained
  | finish
  deriving DecidableEq, Repr

inductive DrainAction where
  | pass (d : Nat)
  | cancel
  | cancelStop
  | start (m : StartMove)
  | probe (m : ProbeMove)
  | stop (m : StopMove)
  deriving DecidableEq, Repr

namespace Draining

variable (c : DrainConfig) (s : Draining)

def startMove : StartMove → Draining
  | .listen ok =>
    match s.start with
    | .listening =>
      { s with
        start := if !ok then .returned else if c.startNotReady then .serving else .marking gated }
    | _ => s
  | .mark =>
    match s.start with
    | .marking [] => { s with start := .serving }
    | .marking (name :: rest) => { s with gate := s.gate.insert name true, start := .marking rest }
    | _ => s
  | .finish =>
    match s.start with
    | .serving => { s with start := .returned }
    | _ => s

def probeMove : ProbeMove → Draining
  | .ask =>
    match s.probe with
    | .waiting => { s with probe := .asking }
    | _ => s
  | .answer reachable =>
    match s.probe with
    | .asking => { s with probe := .counted reachable }
    | _ => s
  | .check =>
    match s.probe with
    | .counted reachable =>
      { s with probe := if s.cancelled then .waiting else .marking (c.minSeeds ≤ reachable) gated }
    | _ => s
  | .mark =>
    match s.probe with
    | .marking _ [] => { s with probe := .waiting }
    | .marking ready (name :: rest) =>
      { s with gate := s.gate.insert name ready, probe := .marking ready rest }
    | _ => s
  | .finish =>
    match s.probe with
    | .waiting => if s.cancelled then { s with probe := .returned } else s
    | _ => s

def stopMove : StopMove → Draining
  | .call => if s.cancelled ∧ s.stop = .idle then { s with stop := .marking gated } else s
  | .mark =>
    match s.stop with
    | .marking [] => { s with stop := if 0 < c.drainWindow then .draining s.now else .stopping s.now }
    | .marking (name :: rest) => { s with gate := s.gate.insert name false, stop := .marking rest }
    | _ => s
  | .drained =>
    match s.stop with
    | .draining since =>
      if since + c.drainWindow ≤ s.now then { s with stop := .stopping since } else s
    | _ => s
  | .finish =>
    match s.stop with
    -- out of time: the server is stopped at once
    | .draining since => if s.stopCancelled then { s with stop := .returned since } else s
    | .stopping since => { s with stop := .returned since }
    | _ => s

def step : DrainAction → Draining
  | .pass d => { s with now := s.now + d }
  | .cancel => { s with cancelled := true }
  | .cancelStop => if s.stop = .idle then s else { s with stopCancelled := true }
  | .start m => s.startMove c m
  | .probe m => s.probeMove c m
  | .stop m => s.stopMove c m

def run (actions : List DrainAction) : Draining := actions.foldl (step c) s

/-- `Stop` is done with the gate. -/
def flipped : Bool :=
  match s.stop with
  | .idle | .marking _ => false
  | _ => true

def serving (name : String) : Bool := s.gate[name]?.getD false

/-- Neither the start of the server nor a probe is about to write the gate. -/
def Settled : Prop :=
  (s.start = .serving ∨ s.start = .returned) ∧ ∀ ready rest, s.probe ≠ .marking ready rest

variable {c s}

/-! ## The gate after the flip -/

/-- The context is cancelled, so that nobody but `Stop` begins to write the gate. `Stop` has written
the services it is past. -/
structure Quiet (s : Draining) : Prop where
  cancelled : s.cancelled = true
  settled : s.Settled
  marking : ∀ rest, s.stop = .marking rest → ∀ name ∈ gated, name ∈ rest ∨ s.serving name = false
  flipped : s.flipped → ∀ name ∈ gated, s.serving name = false

/-- A probe that sees the cancelled context goes back without a word. -/
theorem probeMove_of_cancelled (hcancelled : s.cancelled = true)
    (hprobe : ∀ ready rest, s.probe ≠ .marking ready rest) (m : ProbeMove) :
    ∃ p : Probing, (∀ ready rest, p ≠ .marking ready rest) ∧
      s.probeMove c m = { s with probe := p } := by
  have hsame : ∃ p : Probing, (∀ ready rest, p ≠ .marking ready rest) ∧ s = { s with probe := p } :=
    ⟨s.probe, hprobe, rfl⟩
  cases m <;> unfold probeMove <;> dsimp only
  case ask =>
    split
    · exact ⟨.asking, by simp, rfl⟩
    · exact hsame
  case answer reachable =>
    split
    · exact ⟨.counted reachable, by simp, rfl⟩
    · exact hsame
  case check =>
    split
    · rw [if_pos hcancelled]
      exact ⟨.waiting, by simp, rfl⟩
    · exact hsame
  case mark =>
    split <;> rename_i hs
    · exact absurd hs (hprobe _ _)
    · exact absurd hs (hprobe _ _)
    · exact hsame
  case finish =>
    split
    · rw [if_pos hcancelled]
      exact ⟨.returned, by simp, rfl⟩
    · exact hsame

theorem serving_mark (name other : String) (stop : Stopping) :
    ({ s with gate := s.gate.insert name false, stop := stop } : Draining).serving other =
      if name = other then false else s.serving other := by
  unfold serving
  rw [Std.ExtTreeMap.getElem?_insert]
  simp only [Std.compare_eq_iff_eq]
  split <;> rfl

namespace Quiet

theorem startMove (h : s.Quiet) (m : StartMove) : (s.startMove c m).Quiet := by
  obtain ⟨hstart, hprobe⟩ := h.settled
  rcases hstart with hs | hs <;> cases m <;> simp only [Draining.startMove, hs] <;> try exact h
  exact ⟨h.cancelled, ⟨Or.inr rfl, hprobe⟩, h.marking, h.flipped⟩

theorem probeMove (h : s.Quiet) (m : ProbeMove) : (s.probeMove c m).Quiet := by
  obtain ⟨p, hp, heq⟩ := probeMove_of_cancelled (c := c) h.cancelled h.settled.2 m
  rw [heq]
  exact ⟨h.cancelled, ⟨h.settled.1, hp⟩, h.marking, h.flipped⟩

/-- `Stop` moves on without the gate. -/
theorem past (h : s.Quiet) (hflipped : s.flipped) (stop : Stopping)
    (hstop : ∀ rest, stop ≠ .marking rest) :
    ({ s with stop := stop } : Draining).Quiet :=
  ⟨h.cancelled, h.settled, fun rest hrest => absurd hrest (hstop rest), fun _ => h.flipped hflipped⟩

theorem stopMove (h : s.Quiet) (m : StopMove) : (s.stopMove c m).Quiet := by
  cases m with
  | call =>
    unfold Draining.stopMove
    dsimp only
    split
    · refine ⟨h.cancelled, h.settled, fun rest hrest name hname => ?_, by simp [Draining.flipped]⟩
      obtain rfl := Stopping.marking.inj hrest
      exact Or.inl hname
    · exact h
  | mark =>
    unfold Draining.stopMove
    dsimp only
    split
    · rename_i hs
      have hdown : ∀ name ∈ gated, s.serving name = false := fun name hname =>
        (h.marking [] hs name hname).resolve_left (by simp)
      refine ⟨h.cancelled, h.settled, fun rest hrest => ?_, fun _ => hdown⟩
      dsimp only at hrest
      split at hrest <;> simp at hrest
    · rename_i name rest hs
      refine ⟨h.cancelled, h.settled, fun rest' hrest other hother => ?_,
        by simp [Draining.flipped]⟩
      obtain rfl := Stopping.marking.inj hrest
      rw [serving_mark]
      by_cases hname : name = other
      · exact Or.inr (if_pos hname)
      · rw [if_neg hname]
        refine (h.marking _ hs other hother).imp_left fun hmem => ?_
        exact (List.mem_cons.mp hmem).resolve_left fun heq => hname heq.symm
    · exact h
  | drained =>
    unfold Draining.stopMove
    dsimp only
    split
    · rename_i since hs
      split
      · exact h.past (by simp [Draining.flipped, hs]) _ (by simp)
      · exact h
    · exact h
  | finish =>
    unfold Draining.stopMove
    dsimp only
    split
    · rename_i since hs
      split
      · exact h.past (by simp [Draining.flipped, hs]) _ (by simp)
      · exact h
    · rename_i since hs
      exact h.past (by simp [Draining.flipped, hs]) _ (by simp)
    · exact h

theorem step (h : s.Quiet) (a : DrainAction) : (s.step c a).Quiet := by
  cases a with
  | pass d => exact ⟨h.cancelled, h.settled, h.marking, h.flipped⟩
  | cancel => exact ⟨rfl, h.settled, h.marking, h.flipped⟩
  | cancelStop =>
    unfold Draining.step
    dsimp only
    split
    · exact h
    · exact ⟨h.cancelled, h.settled, h.marking, h.flipped⟩
  | start m => exact h.startMove m
  | probe m => exact h.probeMove m
  | stop m => exact h.stopMove m

theorem run (h : s.Quiet) (actions : List DrainAction) : (s.run c actions).Quiet := by
  induction actions generalizing s with
  | nil => exact h
  | cons a rest ih => exact ih (h.step a)

end Quiet

/-! ## The window -/

/-- `Stop` is called after the cancellation, and the server closes after the window or when it has
to. -/
structure Windowed (c : DrainConfig) (s : Draining) : Prop where
  idle : s.cancelled = false → s.stop = .idle
  closed : ∀ since, s.stop = .stopping since ∨ s.stop = .returned since →
    since + c.drainWindow ≤ s.now ∨ s.stopCancelled = true

namespace Windowed

/-- What does not touch `Stop`, and lets no time go back, keeps it. -/
theorem same {s' : Draining} (h : s.Windowed c)
    (hcancelled : s.cancelled = true → s'.cancelled = true) (hstop : s'.stop = s.stop)
    (hnow : s.now ≤ s'.now) (hout : s.stopCancelled = true → s'.stopCancelled = true) :
    s'.Windowed c := by
  refine ⟨fun hs' => ?_, fun since hs' => ?_⟩
  · rw [hstop]
    refine h.idle (Bool.eq_false_iff.mpr fun hs => ?_)
    simp [hcancelled hs] at hs'
  · rw [hstop] at hs'
    exact (h.closed since hs').imp (fun hle => le_trans hle hnow) hout

theorem startMove (h : s.Windowed c) (m : StartMove) : (s.startMove c m).Windowed c := by
  cases m <;> unfold Draining.startMove <;> dsimp only <;> split <;> exact h.same id rfl le_rfl id

theorem probeMove (h : s.Windowed c) (m : ProbeMove) : (s.probeMove c m).Windowed c := by
  cases m <;> unfold Draining.probeMove <;> dsimp only <;> split <;> (try split) <;>
    exact h.same id rfl le_rfl id

theorem stopMove (h : s.Windowed c) (m : StopMove) : (s.stopMove c m).Windowed c := by
  have hcalled : s.stop ≠ .idle → s.cancelled ≠ false := fun hs hc => hs (h.idle hc)
  cases m <;> unfold Draining.stopMove <;> dsimp only
  case call =>
    split <;> rename_i hcall
    · exact ⟨fun hc => absurd hc (by simp [hcall.1]), by simp⟩
    · exact h
  case mark =>
    split
    · rename_i hs
      refine ⟨fun hc => absurd hc (hcalled (by simp [hs])), fun since hsince => ?_⟩
      dsimp only at hsince ⊢
      split at hsince <;> rename_i hwindow
      · simp at hsince
      · obtain rfl : s.now = since := by simpa using hsince
        exact Or.inl (add_le_of_nonpos_right (not_lt.mp hwindow))
    · rename_i hs
      exact ⟨fun hc => absurd hc (hcalled (by simp [hs])), by simp⟩
    · exact h
  case drained =>
    split
    · rename_i since hs
      split <;> rename_i hover
      · refine ⟨fun hc => absurd hc (hcalled (by simp [hs])), fun since' hsince => ?_⟩
        obtain rfl : since = since' := by simpa using hsince
        exact Or.inl hover
      · exact h
    · exact h
  case finish =>
    split
    · rename_i since hs
      split <;> rename_i hout
      · exact ⟨fun hc => absurd hc (hcalled (by simp [hs])), fun _ _ => Or.inr hout⟩
      · exact h
    · rename_i since hs
      refine ⟨fun hc => absurd hc (hcalled (by simp [hs])), fun since' hsince => ?_⟩
      obtain rfl : since = since' := by simpa using hsince
      exact h.closed since (Or.inl hs)
    · exact h

theorem step (h : s.Windowed c) (a : DrainAction) : (s.step c a).Windowed c := by
  cases a with
  | pass d => exact h.same id rfl (by simp [Draining.step]) id
  | cancel => exact h.same (fun _ => rfl) rfl le_rfl id
  | cancelStop =>
    unfold Draining.step
    dsimp only
    split
    · exact h
    · exact h.same id rfl le_rfl fun _ => rfl
  | start m => exact h.startMove m
  | probe m => exact h.probeMove m
  | stop m => exact h.stopMove m

theorem run (h : s.Windowed c) (actions : List DrainAction) : (s.run c actions).Windowed c := by
  induction actions generalizing s with
  | nil => exact h
  | cons a rest ih => exact ih (h.step a)

theorem start : ({} : Draining).Windowed c where
  idle _ := rfl
  closed since hsince := by simp at hsince

end Windowed

/-- The server is up and a probe has found both seeds. -/
def ready : List DrainAction :=
  [.start (.listen true), .start .mark, .start .mark, .start .mark,
   .probe .ask, .probe (.answer 2), .probe .check, .probe .mark, .probe .mark, .probe .mark]

-- A probe that looked at the context before it was cancelled writes after the flip.
example : (({} : Draining).run { drainWindow := 5 * second, readyMinSeeds := 1 }
    [.start (.listen true), .start .mark, .start .mark, .start .mark, .probe .ask,
      .probe (.answer 2), .probe .check,
     .cancel, .stop .call, .stop .mark, .stop .mark, .stop .mark, .probe .mark]).serving "" = true := by
  decide +kernel

end Draining

end YellowPages.Server
