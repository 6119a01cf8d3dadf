import Mathlib

/-!
# Steps that emit

A system that moves from state to state and emits a list of outputs at each move. The log of
a run is everything emitted, in order.
-/

namespace Lib

variable {σ ε : Type}

/-- Zero or more steps of `R`, with the log of what they emitted. -/
inductive Steps (R : σ → List ε → σ → Prop) : σ → List ε → σ → Prop where
  | refl (s : σ) : Steps R s [] s
  | tail {s t u : σ} {log out : List ε} : Steps R s log t → R t out u → Steps R s (log ++ out) u

variable {R S : σ → List ε → σ → Prop} {s t u : σ} {log out : List ε}

theorem Steps.single (h : R s out t) : Steps R s out t := by
  simpa using Steps.tail (Steps.refl s) h

theorem Steps.trans (h1 : Steps R s log t) (h2 : Steps R t out u) : Steps R s (log ++ out) u := by
  induction h2 with
  | refl => simpa using h1
  | tail _ hr ih => rw [← List.append_assoc]; exact Steps.tail ih hr

theorem Steps.snoc_silent (h1 : Steps R s log t) (h2 : R t [] u) : Steps R s log u := by
  simpa using Steps.tail h1 h2

theorem Steps.cons_silent (h1 : R s [] t) (h2 : Steps R t log u) : Steps R s log u := by
  simpa using (Steps.single h1).trans h2

/-- What holds of the start and the empty log, and is kept by each step, holds of every run. -/
theorem Steps.invariant (P : List ε → σ → Prop) (h0 : P [] s)
    (hstep : ∀ log t out u, P log t → R t out u → P (log ++ out) u) (h : Steps R s log t) :
    P log t := by
  induction h with
  | refl => exact h0
  | tail _ hr ih => exact hstep _ _ _ _ ih hr

/-- The same for a property of the state alone. -/
theorem Steps.keeps (P : σ → Prop) (h0 : P s) (hstep : ∀ t out u, P t → R t out u → P u)
    (h : Steps R s log t) : P t :=
  h.invariant (fun _ t => P t) h0 (fun _ _ _ _ => hstep _ _ _)

/-- The same for a relation between the start and the state reached. -/
theorem Steps.relates (Q : σ → σ → Prop) (hrefl : ∀ s, Q s s)
    (htrans : ∀ s t u, Q s t → Q t u → Q s u) (hstep : ∀ s out t, R s out t → Q s t)
    (h : Steps R s log t) : Q s t := by
  induction h with
  | refl => exact hrefl _
  | tail _ hr ih => exact htrans _ _ _ ih (hstep _ _ _ hr)

theorem Steps.mono (h : Steps R s log t) (hRS : ∀ s out t, R s out t → S s out t) :
    Steps S s log t := by
  induction h with
  | refl => exact Steps.refl _
  | tail _ hr ih => exact Steps.tail ih (hRS _ _ _ hr)

/-! ## Runs of actions -/

section Actions

variable {α : Type} {step : σ → α → σ} {ok : σ → α → Prop}

/-- Every action of a run meets `ok` in the state it is taken in. -/
def Throughout (step : σ → α → σ) (ok : σ → α → Prop) : σ → List α → Prop
  | _, [] => True
  | s, a :: rest => ok s a ∧ Throughout step ok (step s a) rest

instance [∀ s a, Decidable (ok s a)] : ∀ s actions, Decidable (Throughout step ok s actions)
  | _, [] => inferInstanceAs (Decidable True)
  | s, a :: rest =>
    have : Decidable (Throughout step ok (step s a) rest) := instDecidableThroughout (step s a) rest
    inferInstanceAs (Decidable (ok s a ∧ Throughout step ok (step s a) rest))

theorem Throughout.keeps {actions : List α} (h : Throughout step ok s actions) (P : σ → Prop)
    (h0 : P s) (hstep : ∀ s a, ok s a → P s → P (step s a)) : P (actions.foldl step s) := by
  induction actions generalizing s with
  | nil => exact h0
  | cons a rest ih => exact ih h.2 (hstep s a h.1 h0)

theorem Throughout.and {ok' : σ → α → Prop} {actions : List α} (h : Throughout step ok s actions)
    (h' : Throughout step ok' s actions) :
    Throughout step (fun s a => ok s a ∧ ok' s a) s actions := by
  induction actions generalizing s with
  | nil => trivial
  | cons a rest ih => exact ⟨⟨h.1, h'.1⟩, ih h.2 h'.2⟩

end Actions

/-! ## Calls that answer -/

section Answers

variable {τ α ρ : Type}

/-- Calls one after the other: the state they leave, and their answers. -/
def runWith (step : σ → α → σ × ρ) : σ → List α → σ × List ρ
  | s, [] => (s, [])
  | s, a :: rest =>
    let (s, answer) := step s a
    let (s, answers) := runWith step s rest
    (s, answer :: answers)

/-- If related states answer every call alike and stay related, they answer every run alike. -/
theorem runWith_simulates {step : σ → α → σ × ρ} {step' : τ → α → τ × ρ} (R : σ → τ → Prop)
    (hstep : ∀ s t a, R s t → (step s a).2 = (step' t a).2 ∧ R (step s a).1 (step' t a).1)
    (calls : List α) {s : σ} {t : τ} (h : R s t) :
    (runWith step s calls).2 = (runWith step' t calls).2 ∧ R (runWith step s calls).1
      (runWith step' t calls).1 := by
  induction calls generalizing s t with
  | nil => exact ⟨rfl, h⟩
  | cons a rest ih =>
    obtain ⟨hanswer, hnext⟩ := hstep s t a h
    obtain ⟨hanswers, hlast⟩ := ih hnext
    exact ⟨congrArg₂ List.cons hanswer hanswers, hlast⟩

end Answers

/-! ## Turns of a loop -/

/-- A loop that has done one more turn: a turn like `P` was among the earlier ones, or is the last. -/
theorem exists_prefix_snoc {α : Type} {P : List α → α → Prop} {l : List α} {a : α} :
    (∃ before b, before ++ [b] <+: l ++ [a] ∧ P before b) ↔
      (∃ before b, before ++ [b] <+: l ∧ P before b) ∨ P l a := by
  constructor
  · rintro ⟨before, b, hbefore, hP⟩
    rcases List.prefix_concat_iff.mp hbefore with heq | hbefore
    · obtain ⟨rfl, hb⟩ := List.append_inj' heq rfl
      obtain rfl := List.singleton_inj.mp hb
      exact Or.inr hP
    · exact Or.inl ⟨before, b, hbefore, hP⟩
  · rintro (⟨before, b, hbefore, hP⟩ | hP)
    · exact ⟨before, b, hbefore.trans (List.prefix_append l [a]), hP⟩
    · exact ⟨l, a, List.prefix_rfl, hP⟩

end Lib
