import Mathlib

/-!
# The life of the process

`internal/app/app.go`: components are started together. A signal or the first failure cancels all of
them, and they are stopped in reverse order, one after the other, within a bounded time. Starts
return, Stops return and the timer fires in any order. What `errgroup` promises is taken as given: the
first error a Start returns is kept and cancels the group, and `Wait` returns it after the last Start.
-/

namespace YellowPages.App

/-- An error of a component, and whether it is `context.Canceled`. -/
structure Failure where
  text : String
  canceled : Bool := false
  deriving DecidableEq

inductive RunError where
  | component (name : String) (cause : Failure)
  /-- The errors of the Stops, joined. -/
  | stop (causes : List (String × Failure))
  | shutdownTimeout
  deriving DecidableEq

/-- `%q` of the name of a component. -/
def quoted (name : String) : String := "\"" ++ name ++ "\""

def RunError.message : RunError → String
  | .component name cause => "component " ++ quoted name ++ ": " ++ cause.text
  | .stop causes => "\n".intercalate (causes.map fun c => "stop " ++ quoted c.1 ++ ": " ++ c.2.text)
  | .shutdownTimeout => "graceful shutdown timed out"

/-- `errors.Join`. -/
def joined (causes : List (String × Failure)) : Option RunError :=
  if causes.isEmpty then none else some (.stop causes)

/-- Where `Run` is. -/
inductive Main where
  /-- Before `<-gctx.Done()`. -/
  | running
  /-- In the select of `stopComponents`. -/
  | stopping
  /-- In `g.Wait()`, with the result of `stopComponents`. -/
  | waiting (stopErr : Option RunError)
  | returned (err : Option RunError)
  deriving DecidableEq

/-- The goroutine of `stopComponents`. It goes on after the timeout. -/
structure Stopper where
  left : List Nat
  calling : Option Nat := none
  /-- The Stops that have returned, in order. -/
  results : List (Nat × Option Failure) := []
  errs : List (String × Failure) := []

structure Process where
  names : List String
  main : Main := .running
  /-- `gctx` is done. -/
  cancelled : Bool := false
  /-- The first error of the group. -/
  err : Option RunError := none
  /-- The Starts that have returned, in order. -/
  starts : List (Nat × Option Failure) := []
  stopper : Option Stopper := none

inductive Action where
  /-- A signal arrives, or the parent context is cancelled. -/
  | signal
  | startReturns (i : Nat) (result : Option Failure)
  | proceed
  | callStop
  | stopReturns (result : Option Failure)
  | done
  | timeout
  | wait

/-- The error of a component that counts, with its name. -/
def failing (names : List String) (p : Nat × Option Failure) : Option (String × Failure) :=
  p.2.bind fun f => if f.canceled then none else some (names.getD p.1 "", f)

namespace Process

variable (p : Process)

def started (i : Nat) : Bool := i < p.names.length ∧ i ∉ p.starts.map Prod.fst

def allReturned : Bool := (List.range p.names.length).all fun i => i ∈ p.starts.map Prod.fst

def step : Action → Process
  | .signal => { p with cancelled := true }
  | .startReturns i result =>
    if p.started i then
      let err := (failing p.names (i, result)).map fun f => RunError.component f.1 f.2
      { p with
        starts := p.starts ++ [(i, result)]
        -- `errgroup`: only the first error is kept, and it cancels `gctx`.
        err := p.err.or err
        cancelled := p.cancelled || err.isSome }
    else p
  | .proceed =>
    match p.main with
    | .running =>
      if p.cancelled then
        if p.names.isEmpty then { p with main := .waiting none }
        else
          { p with
            main := .stopping, stopper := some { left := (List.range p.names.length).reverse } }
      else p
    | _ => p
  | .callStop =>
    match p.stopper with
    | some { left := i :: rest, calling := none, results, errs } =>
      { p with stopper := some { left := rest, calling := some i, results, errs } }
    | _ => p
  | .stopReturns result =>
    match p.stopper with
    | some { left, calling := some i, results, errs } =>
      { p with
        stopper := some
          { left, results := results ++ [(i, result)],
            errs := errs ++ (failing p.names (i, result)).toList } }
    | _ => p
  | .done =>
    match p.main, p.stopper with
    | .stopping, some { left := [], calling := none, errs, .. } =>
      { p with main := .waiting (joined errs) }
    | _, _ => p
  | .timeout =>
    match p.main with
    | .stopping => { p with main := .waiting (some .shutdownTimeout) }
    | _ => p
  | .wait =>
    match p.main with
    | .waiting stopErr => if p.allReturned then { p with main := .returned (p.err.or stopErr) } else p
    | _ => p

def run (actions : List Action) : Process := actions.foldl step p

/-- The Stops that have been called, in order. -/
def stopCalls : List Nat := (p.stopper.elim [] fun s => s.results.map Prod.fst ++ s.calling.toList)

/-- The Stops that have returned, with their results. -/
def stops : List (Nat × Option Failure) := p.stopper.elim [] Stopper.results

end Process

/-! ## The goroutine that stops -/

/-- What is behind the goroutine, in front of it and under its hands are the components in reverse. -/
structure Sweeps (names : List String) (s : Stopper) : Prop where
  order : s.results.map Prod.fst ++ s.calling.toList ++ s.left = (List.range names.length).reverse
  errs : s.errs = s.results.filterMap (failing names)

/-! ## An invariant -/

/-- What `stopComponents` returned, given the Stops that have returned. -/
def StopOutcome (names : List String) (stops : List (Nat × Option Failure))
    (stopErr : Option RunError) : Prop :=
  stopErr = some .shutdownTimeout ∨
    stops.map Prod.fst = (List.range names.length).reverse ∧
      stopErr = joined (stops.filterMap (failing names))

/-- What has to hold for `Run` to be where it is. -/
def MainAt (p : Process) : Main → Prop
  | .running => p.stopper = none
  | .stopping => p.cancelled = true ∧ p.stopper ≠ none
  | .waiting stopErr => p.cancelled = true ∧ StopOutcome p.names p.stops stopErr
  | .returned err => p.cancelled = true ∧ p.allReturned = true ∧
      ∃ stopErr, StopOutcome p.names p.stops stopErr ∧ err = p.err.or stopErr

structure Orderly (p : Process) : Prop where
  err : p.err = (p.starts.findSome? (failing p.names)).map fun f => RunError.component f.1 f.2
  cancelled : p.err ≠ none → p.cancelled = true
  stopper : ∀ s, p.stopper = some s → Sweeps p.names s
  main : MainAt p p.main

namespace Orderly

variable {p : Process}

theorem new (names : List String) : Orderly { names := names } where
  err := rfl
  cancelled := nofun
  stopper := nofun
  main := rfl

theorem startReturns (h : Orderly p) (i : Nat) (result : Option Failure) :
    Orderly (p.step (.startReturns i result)) := by
  unfold Process.step
  dsimp only
  split
  · rename_i hstarted
    refine ⟨?_, ?_, h.stopper, ?_⟩
    · have hsnoc : (p.starts ++ [(i, result)]).findSome? (failing p.names) =
          (p.starts.findSome? (failing p.names)).or (failing p.names (i, result)) := by
        simp [List.findSome?_append]
      rw [hsnoc, Option.map_or, h.err]
    · intro herr
      rw [Bool.or_eq_true]
      cases hold : p.err with
      | some e => exact Or.inl (h.cancelled (by simp [hold]))
      | none =>
        rw [hold, Option.none_or] at herr
        exact Or.inr (Option.isSome_iff_ne_none.mpr herr)
    · have hmain := h.main
      generalize p.main = main at hmain ⊢
      cases main with
      | running => exact hmain
      | stopping => exact ⟨by simp [hmain.1], hmain.2⟩
      | waiting stopErr => exact ⟨by simp [hmain.1], hmain.2⟩
      | returned err =>
        -- All Starts have returned, so this one is none of them.
        have hall := hmain.2.1
        simp only [Process.started, Process.allReturned, List.all_eq_true, List.mem_range,
          decide_eq_true_eq]
          at hstarted hall
        exact absurd (hall i hstarted.1) hstarted.2
  · exact h

/-- While a Stop is still to be called or to return, `stopComponents` can only have timed out. -/
theorem outcome_of_pending {names : List String} {s : Stopper} (hsweeps : Sweeps names s)
    (hpending : s.calling.toList ++ s.left ≠ []) {stopErr : Option RunError}
    (h : StopOutcome names s.results stopErr) : stopErr = some .shutdownTimeout := by
  rcases h with htimeout | ⟨hall, -⟩
  · exact htimeout
  · have horder := hsweeps.order
    rw [← hall, List.append_assoc, List.append_right_eq_self] at horder
    exact absurd horder hpending

/-- The goroutine makes a step, and does not finish what was finished. -/
theorem stopperMoves (h : Orderly p) {s s' : Stopper} (hs : p.stopper = some s)
    (hs' : Sweeps p.names s') (hpending : s'.results = s.results ∨ s.calling.toList ++ s.left ≠ []) :
    Orderly { p with stopper := some s' } := by
  have hstops : p.stops = s.results := by rw [Process.stops, hs]; rfl
  have houtcome : ∀ stopErr, StopOutcome p.names p.stops stopErr →
      StopOutcome p.names s'.results stopErr := by
    intro stopErr hold
    rw [hstops] at hold
    rcases hpending with hsame | hpending
    · rw [hsame]
      exact hold
    · exact Or.inl (outcome_of_pending (h.stopper s hs) hpending hold)
  refine ⟨h.err, h.cancelled, fun s hs => Option.some.inj hs ▸ hs', ?_⟩
  have hmain := h.main
  show MainAt _ p.main
  generalize p.main = main at hmain ⊢
  cases main with
  | running => rw [MainAt, hs] at hmain; cases hmain
  | stopping => exact ⟨hmain.1, nofun⟩
  | waiting stopErr => exact ⟨hmain.1, houtcome stopErr hmain.2⟩
  | returned err =>
    obtain ⟨hcancelled, hall, stopErr, hold, rfl⟩ := hmain
    exact ⟨hcancelled, hall, stopErr, houtcome stopErr hold, rfl⟩

theorem proceed (h : Orderly p) : Orderly (p.step .proceed) := by
  unfold Process.step
  dsimp only
  split
  · rename_i hmain
    have hstopper : p.stopper = none := by
      have hat := h.main
      rwa [hmain] at hat
    split
    · rename_i hcancelled
      split <;> rename_i hnames
      · refine ⟨h.err, h.cancelled, h.stopper, hcancelled, Or.inr ?_⟩
        simp [Process.stops, hstopper, List.isEmpty_iff.mp hnames, joined]
      · refine ⟨h.err, h.cancelled, fun s hs => ?_, hcancelled, nofun⟩
        obtain rfl := Option.some.inj hs
        exact ⟨rfl, rfl⟩
    · exact h
  · exact h

theorem step (h : Orderly p) (a : Action) : Orderly (p.step a) := by
  cases a with
  | signal =>
    refine ⟨h.err, fun _ => rfl, h.stopper, ?_⟩
    have hmain := h.main
    show MainAt _ p.main
    generalize p.main = main at hmain ⊢
    cases main with
    | running => exact hmain
    | stopping => exact ⟨rfl, hmain.2⟩
    | waiting stopErr => exact ⟨rfl, hmain.2⟩
    | returned err => exact ⟨rfl, hmain.2⟩
  | startReturns i result => exact h.startReturns i result
  | proceed => exact h.proceed
  | callStop =>
    unfold Process.step
    dsimp only
    split
    · rename_i i rest results errs hs
      have hsweeps := h.stopper _ hs
      exact h.stopperMoves hs ⟨by simpa using hsweeps.order, hsweeps.errs⟩ (Or.inl rfl)
    · exact h
  | stopReturns result =>
    unfold Process.step
    dsimp only
    split
    · rename_i left i results errs hs
      have hsweeps := h.stopper _ hs
      refine h.stopperMoves hs ⟨by simpa using hsweeps.order, ?_⟩ (Or.inr (by simp))
      have herrs : errs = results.filterMap (failing p.names) := hsweeps.errs
      rw [herrs, List.filterMap_append]
      cases hfailing : failing p.names (i, result) <;> simp [hfailing]
    · exact h
  | done =>
    unfold Process.step
    dsimp only
    split
    · rename_i results errs hmain hs
      have hsweeps := h.stopper _ hs
      have hat := h.main
      rw [hmain] at hat
      refine ⟨h.err, h.cancelled, h.stopper, hat.1, Or.inr ⟨?_, ?_⟩⟩
      · simpa [Process.stops, hs] using hsweeps.order
      · simpa [Process.stops, hs] using congrArg joined hsweeps.errs
    · exact h
  | timeout =>
    unfold Process.step
    dsimp only
    split
    · rename_i hmain
      have hat := h.main
      rw [hmain] at hat
      exact ⟨h.err, h.cancelled, h.stopper, hat.1, Or.inl rfl⟩
    · exact h
  | wait =>
    unfold Process.step
    dsimp only
    split
    · rename_i stopErr hmain
      have hat := h.main
      rw [hmain] at hat
      split
      · rename_i hall
        exact ⟨h.err, h.cancelled, h.stopper, hat.1, hall, stopErr, hat.2, rfl⟩
      · exact h
    · exact h

theorem run (h : Orderly p) (actions : List Action) : Orderly (p.run actions) := by
  induction actions generalizing p with
  | nil => exact h
  | cons a rest ih => exact ih (h.step a)

end Orderly

/-! ## Whole runs -/

theorem names_step (p : Process) (a : Action) : (p.step a).names = p.names := by
  unfold Process.step
  repeat' split
  all_goals rfl

theorem names_run (p : Process) (actions : List Action) : (p.run actions).names = p.names := by
  induction actions generalizing p with
  | nil => rfl
  | cons a rest ih => exact (ih (p.step a)).trans (names_step p a)

/-- The error of the first Start that failed. -/
def firstFailure (p : Process) : Option RunError :=
  (p.starts.findSome? (failing p.names)).map fun f => RunError.component f.1 f.2

structure ShutsDown (p : Process) : Prop where
  /-- Stops are called in reverse order, each when the one before has returned. -/
  order : p.stopCalls <+: (List.range p.names.length).reverse
  oneByOne : ∃ calling : Option Nat, p.stopCalls = p.stops.map Prod.fst ++ calling.toList
  afterCancel : p.stopCalls ≠ [] ∨ firstFailure p ≠ none → p.cancelled = true
  /-- The first failure comes before the result of the Stops, and no Start is left behind. -/
  result : ∀ err, p.main = .returned err → p.allReturned = true ∧
    ∃ stopErr, StopOutcome p.names p.stops stopErr ∧ err = (firstFailure p).or stopErr

theorem Orderly.shutsDown {p : Process} (h : Orderly p) : ShutsDown p where
  order := by
    cases hs : p.stopper with
    | none => simp [Process.stopCalls, hs]
    | some s => exact ⟨s.left, by simpa [Process.stopCalls, hs] using (h.stopper s hs).order⟩
  oneByOne := by
    cases hs : p.stopper with
    | none => exact ⟨none, by simp [Process.stopCalls, Process.stops, hs]⟩
    | some s => exact ⟨s.calling, by simp [Process.stopCalls, Process.stops, hs]⟩
  afterCancel := by
    rintro (hcalls | hfailed)
    · have hmain := h.main
      generalize p.main = main at hmain
      cases main with
      | running =>
        rw [MainAt] at hmain
        simp [Process.stopCalls, hmain] at hcalls
      | stopping | waiting _ | returned _ => exact hmain.1
    · exact h.cancelled (h.err ▸ hfailed)
  result := by
    intro err hreturned
    have hmain := h.main
    rw [hreturned] at hmain
    obtain ⟨-, hall, stopErr, houtcome, rfl⟩ := hmain
    exact ⟨hall, stopErr, houtcome, by rw [h.err, firstFailure]⟩

theorem step_wait {p : Process} {stopErr : Option RunError} (hmain : p.main = .waiting stopErr)
    (hall : p.allReturned = true) : (p.step .wait).main = .returned (p.err.or stopErr) := by
  simp only [Process.step, hmain, hall, if_true]

theorem step_proceed {p : Process} (hcancelled : p.cancelled = true) :
    (p.step .proceed).main ≠ .running ∧ (p.step .proceed).allReturned = p.allReturned := by
  unfold Process.step
  dsimp only
  split <;> rename_i hmain
  · rw [if_pos hcancelled]
    split
    · exact ⟨nofun, rfl⟩
    · exact ⟨nofun, rfl⟩
  · exact ⟨hmain, rfl⟩

theorem step_timeout_wait {p : Process} (hmain : p.main ≠ .running) (hall : p.allReturned = true) :
    ∃ err, ((p.step .timeout).step .wait).main = .returned err := by
  cases hat : p.main with
  | running => exact absurd hat hmain
  | stopping =>
    have htimeout : p.step .timeout = { p with main := .waiting (some .shutdownTimeout) } := by
      simp only [Process.step, hat]
    rw [htimeout]
    exact ⟨_, step_wait rfl hall⟩
  | waiting stopErr =>
    have hstay : p.step .timeout = p := by simp only [Process.step, hat]
    rw [hstay]
    exact ⟨_, step_wait hat hall⟩
  | returned err =>
    have hstay : (p.step .timeout).step .wait = p := by simp only [Process.step, hat]
    rw [hstay]
    exact ⟨err, hat⟩

/-- In every run of the process the shutdown is orderly. Once the group is cancelled and all Starts have
returned, no Stop can hold `Run` up: its timer fires, and it returns. -/
theorem run_shuts_down (names : List String) (actions : List Action) :
    let p := Process.run { names := names } actions
    ShutsDown p ∧ (p.cancelled = true → p.allReturned = true →
      ∃ err, (p.run [.proceed, .timeout, .wait]).main = .returned err) := by
  intro p
  refine ⟨((Orderly.new names).run actions).shutsDown, fun hcancelled hall => ?_⟩
  obtain ⟨hmain, hsame⟩ := step_proceed hcancelled
  exact step_timeout_wait hmain (hsame.trans hall)

end YellowPages.App
