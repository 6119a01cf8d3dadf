import Mathlib

/-!
# A channel that keeps the latest value

A channel with room for one value between one sender and one receiver. A sender that finds it full
takes the old value out and tries again. Each of its selects is a step of its own, and the
receiver can come in between any two of them.
-/

namespace Lib

section Related

variable {α β : Type} {R : α → β → Prop}

theorem exists_forall₂_of_sublist {l l' : List α} {m : List β} (hsub : l.Sublist l')
    (h : List.Forall₂ R l' m) :
    ∃ m', m'.Sublist m ∧ List.Forall₂ R l m' := by
  induction hsub generalizing m with
  | slnil => exact ⟨[], List.nil_sublist m, List.Forall₂.nil⟩
  | cons a _ ih =>
    cases h with
    | cons _ hrest =>
      obtain ⟨m', hsub', hm'⟩ := ih hrest
      exact ⟨m', hsub'.cons _, hm'⟩
  | cons_cons a _ ih =>
    cases h with
    | cons ha hrest =>
      obtain ⟨m', hsub', hm'⟩ := ih hrest
      exact ⟨_ :: m', hsub'.cons_cons _, List.Forall₂.cons ha hm'⟩

theorem rel_getLast? {l : List α} {m : List β} (h : List.Forall₂ R l m) :
    Option.Rel R l.getLast? m.getLast? := by
  rw [← List.head?_reverse, ← List.head?_reverse]
  generalize hl : l.reverse = l', hm : m.reverse = m'
  have hreverse : List.Forall₂ R l' m' := hl ▸ hm ▸ List.rel_reverse h
  cases hreverse with
  | nil => exact .none
  | cons ha _ => exact .some ha

end Related

inductive Sender (α : Type) where
  | idle
  /-- Before the select that sends. -/
  | sending (a : α)
  /-- Before the select that takes the old value out. -/
  | clearing (a : α)
  | closed

def Sender.pending {α : Type} : Sender α → Option α
  | .sending a | .clearing a => some a
  | .idle | .closed => none

/-- The channel and its two ends, with everything the sender was given and the receiver got. -/
structure Latest (α : Type) where
  buffer : Option α := none
  sender : Sender α := .idle
  offered : List α := []
  taken : List α := []

namespace Latest

variable {α : Type}

def offer (c : Latest α) (a : α) : Latest α :=
  match c.sender with
  | .idle => { c with sender := .sending a, offered := c.offered ++ [a] }
  | _ => c

def select (c : Latest α) : Latest α :=
  match c.sender with
  | .sending a =>
    match c.buffer with
    | none => { c with buffer := some a, sender := .idle }
    | some _ => { c with sender := .clearing a }
  | .clearing a => { c with buffer := none, sender := .sending a }
  | .idle | .closed => c

def take (c : Latest α) : Latest α :=
  match c.buffer with
  | none => c
  | some a => { c with buffer := none, taken := c.taken ++ [a] }

def close (c : Latest α) : Latest α :=
  match c.sender with
  | .idle => { c with sender := .closed }
  | _ => c

@[simp] theorem offered_select (c : Latest α) : c.select.offered = c.offered := by
  obtain ⟨buffer, sender, offered, taken⟩ := c
  cases sender <;> cases buffer <;> rfl

@[simp] theorem offered_take (c : Latest α) : c.take.offered = c.offered := by
  obtain ⟨buffer, sender, offered, taken⟩ := c
  cases buffer <;> rfl

@[simp] theorem offered_close (c : Latest α) : c.close.offered = c.offered := by
  obtain ⟨buffer, sender, offered, taken⟩ := c
  cases sender <;> rfl

/-! ## Nothing out of order, and the last value is not lost -/

/-- What was received or is still on its way, in order. -/
def passed (c : Latest α) : List α := c.taken ++ c.buffer.toList ++ c.sender.pending.toList

structure Keeps (c : Latest α) : Prop where
  ordered : c.passed.Sublist c.offered
  latest : c.passed.getLast? = c.offered.getLast?

namespace Keeps

variable {c : Latest α}

theorem new : Keeps ({} : Latest α) := ⟨List.Sublist.refl _, rfl⟩

theorem same (h : Keeps c) {c' : Latest α} (hpassed : c'.passed = c.passed)
    (hoffered : c'.offered = c.offered) :
    Keeps c' :=
  ⟨by rw [hpassed, hoffered]; exact h.ordered, by rw [hpassed, hoffered]; exact h.latest⟩

theorem offer (h : Keeps c) (a : α) : Keeps (c.offer a) := by
  unfold Latest.offer
  split
  · rename_i hidle
    have hpassed : c.passed = c.taken ++ c.buffer.toList := by simp [passed, hidle, Sender.pending]
    refine ⟨?_, ?_⟩
    · have hsub := h.ordered.append (List.Sublist.refl [a])
      rw [hpassed] at hsub
      exact hsub
    · simp [passed, Sender.pending]
  · exact h

theorem select (h : Keeps c) : Keeps c.select := by
  unfold Latest.select
  split
  · rename_i a hsender
    split <;> rename_i hbuffer
    · exact h.same (by simp [passed, hsender, hbuffer, Sender.pending]) rfl
    · exact h.same (by simp [passed, hsender, hbuffer, Sender.pending]) rfl
  · rename_i a hsender
    have hpassed : c.passed = c.taken ++ c.buffer.toList ++ [a] := by
      simp [passed, hsender, Sender.pending]
    have hold := h.ordered
    have hlast := h.latest
    rw [hpassed] at hold hlast
    refine ⟨?_, ?_⟩
    · refine List.Sublist.trans ?_ hold
      simp [passed, Sender.pending]
    · rw [← hlast]
      simp [passed, Sender.pending]
  · exact h
  · exact h

theorem take (h : Keeps c) : Keeps c.take := by
  unfold Latest.take
  split <;> rename_i hbuffer
  · exact h
  · exact h.same (by simp [passed, hbuffer]) rfl

theorem close (h : Keeps c) : Keeps c.close := by
  unfold Latest.close
  split <;> rename_i hidle
  · exact h.same (by simp [passed, hidle, Sender.pending]) rfl
  · exact h

theorem taken_sublist (h : Keeps c) : c.taken.Sublist c.offered := by
  refine List.Sublist.trans ?_ h.ordered
  rw [passed, List.append_assoc]
  exact List.sublist_append_left _ _

/-- When nothing is on its way the receiver has the last value. -/
theorem taken_getLast? (h : Keeps c) (hsender : c.sender.pending = none) (hbuffer : c.buffer = none) :
    c.taken.getLast? = c.offered.getLast? := by
  rw [← h.latest, passed, hsender, hbuffer]
  simp

/-- The same for the values that the offered ones stand for. -/
theorem related {β : Type} {R : α → β → Prop} {l : List β} (h : Keeps c)
    (hl : List.Forall₂ R c.offered l) :
    (∃ l', l'.Sublist l ∧ List.Forall₂ R c.taken l') ∧
      (c.sender.pending = none → c.buffer = none → Option.Rel R c.taken.getLast? l.getLast?) := by
  refine ⟨exists_forall₂_of_sublist h.taken_sublist hl, fun hsender hbuffer => ?_⟩
  rw [h.taken_getLast? hsender hbuffer]
  exact rel_getLast? hl

end Keeps

/-! ## The sender is soon done -/

/-- How many selects the sender still needs at most. -/
def remaining (c : Latest α) : Nat :=
  match c.sender with
  | .sending _ => if c.buffer.isSome then 3 else 1
  | .clearing _ => 2
  | .idle | .closed => 0

theorem remaining_select (c : Latest α) : c.select.remaining = c.remaining - 1 := by
  obtain ⟨buffer, sender, offered, taken⟩ := c
  cases sender <;> cases buffer <;> rfl

theorem remaining_take (c : Latest α) : c.take.remaining ≤ c.remaining := by
  obtain ⟨buffer, sender, offered, taken⟩ := c
  cases sender <;> cases buffer <;> simp [take, remaining]

theorem remaining_close (c : Latest α) : c.close.remaining ≤ c.remaining := by
  obtain ⟨buffer, sender, offered, taken⟩ := c
  cases sender <;> exact le_rfl

theorem remaining_le (c : Latest α) : c.remaining ≤ 3 := by
  unfold remaining
  split
  · split <;> omega
  · omega
  · omega
  · omega

theorem pending_eq_none_iff (c : Latest α) : c.sender.pending = none ↔ c.remaining = 0 := by
  unfold remaining
  split <;> rename_i h <;> rw [h]
  · split <;> simp [Sender.pending]
  · simp [Sender.pending]
  · simp [Sender.pending]
  · simp [Sender.pending]

end Latest

end Lib
