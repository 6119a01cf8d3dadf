import Mathlib

/-!
# Joining lists with a separator

Joined lists are told apart by their pieces between separators, and by nothing else.
-/

namespace Lib

variable {α : Type} [DecidableEq α] (sep : α)

/-- The lists cut at each separator inside them. No list at all joins like one empty list. -/
def pieces (ls : List (List α)) : List (List α) :=
  if ls = [] then [[]] else ls.flatMap (List.splitOn sep)

theorem splitOn_join (ls : List (List α)) : ([sep].intercalate ls).splitOn sep = pieces sep ls := by
  induction ls with
  | nil => rfl
  | cons l rest ih =>
    cases rest with
    | nil => simp [pieces]
    | cons l' rest =>
      have hcons : pieces sep (l :: l' :: rest) = l.splitOn sep ++ pieces sep (l' :: rest) := by
        simp [pieces]
      rw [List.intercalate_cons_cons, List.append_assoc, List.singleton_append, hcons, ← ih]
      exact List.splitOnP_append_cons _ _ (by simp)

/-- Splitting loses nothing, so two joins are equal exactly if their pieces are. -/
theorem join_eq_iff (ls ls' : List (List α)) :
    [sep].intercalate ls = [sep].intercalate ls' ↔ pieces sep ls = pieces sep ls' := by
  rw [← splitOn_join, ← splitOn_join]
  constructor
  · intro h; rw [h]
  · intro h
    have hjoin := congrArg [sep].intercalate h
    rwa [List.intercalate_splitOn, List.intercalate_splitOn] at hjoin

theorem pieces_of_not_mem (ls : List (List α)) (hne : ls ≠ []) (h : ∀ l ∈ ls, sep ∉ l) :
    pieces sep ls = ls := by
  rw [← splitOn_join, List.splitOn_intercalate sep h hne]

end Lib
