import Mathlib

/-!
# Replaying a keyed log

Every entry of the log changes what is held for its key. What a replay ends with for a key depends
on the entries of that key and their order alone.
-/

namespace Lib

variable {ε K V : Type} [DecidableEq K] (key : ε → K) (act : ε → Option V → Option V)

def replay (log : List ε) : K → Option V :=
  log.foldl (fun held e => Function.update held (key e) (act e (held (key e)))) fun _ => none

theorem replay_append_singleton (log : List ε) (e : ε) :
    replay key act (log ++ [e]) =
      Function.update (replay key act log) (key e) (act e (replay key act log (key e))) := by
  simp [replay]

/-! ## One key -/

/-- What the log does to key `k`, in order. -/
def actionsAt (k : K) (log : List ε) : List (Option V → Option V) :=
  (log.filter (key · = k)).map act

variable {key act}

@[simp] theorem actionsAt_append (k : K) (l l' : List ε) :
    actionsAt key act k (l ++ l') = actionsAt key act k l ++ actionsAt key act k l' := by
  simp [actionsAt]

theorem actionsAt_cons (k : K) (e : ε) (l : List ε) :
    actionsAt key act k (e :: l) =
      if key e = k then act e :: actionsAt key act k l else actionsAt key act k l := by
  by_cases h : key e = k <;> simp [actionsAt, h]

theorem actionsAt_eq_nil {k : K} {l : List ε} (h : ∀ e ∈ l, key e ≠ k) :
    actionsAt key act k l = [] := by
  rw [actionsAt, List.map_eq_nil_iff, List.filter_eq_nil_iff]
  intro e he
  simpa using h e he

theorem replay_apply (log : List ε) (k : K) :
    replay key act log k = (actionsAt key act k log).foldl (fun v f => f v) none := by
  induction log using List.reverseRecOn with
  | nil => rfl
  | append_singleton log e ih =>
    rw [replay_append_singleton, Function.update_apply, actionsAt_append, List.foldl_append, ← ih]
    by_cases hk : k = key e
    · subst hk
      simp [actionsAt]
    · have hk' : ¬ key e = k := fun h => hk h.symm
      simp [actionsAt, hk, hk']

theorem replay_congr {log log' : List ε} {k : K}
    (h : actionsAt key act k log = actionsAt key act k log') :
    replay key act log k = replay key act log' k := by
  rw [replay_apply, replay_apply, h]

variable (act) in
/-- Two stretches of a log that have no key in common can be swapped. -/
theorem actionsAt_append_comm {l l' : List ε} (h : ∀ a ∈ l, ∀ b ∈ l', key a ≠ key b) (k : K) :
    actionsAt key act k (l ++ l') = actionsAt key act k (l' ++ l) := by
  rw [actionsAt_append, actionsAt_append]
  by_cases hl : ∃ a ∈ l, key a = k
  · obtain ⟨a, ha, rfl⟩ := hl
    have hl' : actionsAt key act (key a) l' = [] :=
      actionsAt_eq_nil fun b hb hkey => h a ha b hb hkey.symm
    rw [hl', List.append_nil, List.nil_append]
  · have hl : actionsAt key act k l = [] := actionsAt_eq_nil fun a ha hkey => hl ⟨a, ha, hkey⟩
    rw [hl, List.append_nil, List.nil_append]

/-! ## The last word on a key -/

section LastWord

variable {β : Type} (key) (word : ε → Option β)

/-- What the last entry of the log about `k` says of it. An entry may say nothing. -/
def lastWord (k : K) (log : List ε) : Option β :=
  log.reverse.findSome? fun e => if key e = k then word e else none

variable {key word}

theorem lastWord_append (k : K) (l l' : List ε) :
    lastWord key word k (l ++ l') = (lastWord key word k l').or (lastWord key word k l) := by
  rw [lastWord, List.reverse_append, List.findSome?_append]
  rfl

@[simp] theorem lastWord_nil (k : K) : lastWord key word k [] = none := rfl

@[simp] theorem lastWord_singleton (k : K) (e : ε) :
    lastWord key word k [e] = if key e = k then word e else none := by
  by_cases h : key e = k <;> simp [lastWord, h]

theorem exists_of_lastWord {k : K} {l : List ε} {b : β} (h : lastWord key word k l = some b) :
    ∃ e ∈ l, key e = k ∧ word e = some b := by
  obtain ⟨e, he, hword⟩ := List.exists_of_findSome?_eq_some h
  split at hword <;> rename_i hk
  · exact ⟨e, List.mem_reverse.mp he, hk, hword⟩
  · cases hword

theorem word_of_lastWord_none {k : K} {l : List ε} (h : lastWord key word k l = none) {e : ε}
    (he : e ∈ l) (hk : key e = k) : word e = none := by
  have hword := List.findSome?_eq_none_iff.mp h e (List.mem_reverse.mpr he)
  rwa [if_pos hk] at hword

theorem lastWord_of_ne {k : K} {l : List ε} (h : ∀ e ∈ l, key e ≠ k) :
    lastWord key word k l = none := by
  rw [lastWord, List.findSome?_eq_none_iff]
  intro e he
  rw [if_neg (h e (List.mem_reverse.mp he))]

/-- Entries that all say one thing of `k`. -/
theorem lastWord_of_agree {k : K} {l : List ε} {b b' : β} (h : lastWord key word k l = some b)
    (hall : ∀ e ∈ l, key e = k → word e = some b') : b = b' := by
  obtain ⟨e, he, hk, hword⟩ := exists_of_lastWord h
  exact Option.some.inj (hword.symm.trans (hall e he hk))

theorem lastWord_append_comm {l l' : List ε} (h : ∀ a ∈ l, ∀ b ∈ l', key a ≠ key b) (k : K) :
    lastWord key word k (l ++ l') = lastWord key word k (l' ++ l) := by
  rw [lastWord_append, lastWord_append]
  by_cases hl : ∃ a ∈ l, key a = k
  · obtain ⟨a, ha, rfl⟩ := hl
    rw [lastWord_of_ne fun b hb hkey => h a ha b hb hkey.symm, Option.none_or, Option.or_none]
  · rw [lastWord_of_ne fun a ha hkey => hl ⟨a, ha, hkey⟩, Option.none_or, Option.or_none]

theorem lastWord_map {ε' : Type} (f : ε' → ε) (k : K) (l : List ε') :
    lastWord key word k (l.map f) = lastWord (key ∘ f) (word ∘ f) k l := by
  rw [lastWord, ← List.map_reverse, List.findSome?_map]
  rfl

end LastWord

end Lib
