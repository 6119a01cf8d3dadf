import Mathlib

/-!
# Reading a list by index

Loops that go through a list by index. An index out of range is a fault, and so is a loop that takes
more turns than it was given. Without faults they compute what list functions do.
-/

namespace Lib

inductive Fault where
  | outOfRange
  | unfinished
  deriving DecidableEq

section Indexed

variable {α β : Type}

/-! ## The loops -/

section Loops

variable (s : List α)

def readAt (i : Nat) : Except Fault α :=
  match s[i]? with
  | some a => .ok a
  | none => .error .outOfRange

def slice (i j : Nat) : Except Fault (List α) :=
  if i ≤ j ∧ j ≤ s.length then .ok ((s.drop i).take (j - i)) else .error .outOfRange

/-- Goes on from `j` while `p` holds. -/
def scanWhile (p : α → Bool) : Nat → Nat → Except Fault Nat
  | 0, _ => .error .unfinished
  | n + 1, j =>
    if j < s.length then do
      let a ← readAt s j
      if p a then scanWhile p n (j + 1) else .ok j
    else .ok j

/-- Turns from `i` on, as long as it is below `length`. Each puts out an element or none, and moves
`i`. -/
def runTurns (length : Nat) (turn : Nat → Except Fault (Option β × Nat)) : Nat → Nat → List β →
    Except Fault (List β)
  | 0, i, out => if i < length then .error .unfinished else .ok out
  | n + 1, i, out =>
    if i < length then do
      let (b, next) ← turn i
      runTurns length turn n next (out ++ b.toList)
    else .ok out

end Loops

/-! ## What they compute -/

section Position

/-! The list from `i` on is `a` and the rest. -/

variable {s : List α} {i k n : Nat} {a : α} {rest : List α}

theorem readAt_eq (h : s.drop i = a :: rest) : readAt s i = .ok a := by
  have hi : s[i]? = some a := by rw [← List.head?_drop, h, List.head?_cons]
  rw [readAt, hi]

theorem length_of_drop (h : s.drop i = a :: rest) : s.length = i + 1 + rest.length := by
  have hlength := congrArg List.length h
  rw [List.length_drop, List.length_cons] at hlength
  omega

theorem drop_of_drop (h : s.drop i = a :: rest) (k : Nat) : s.drop (i + 1 + k) = rest.drop k := by
  rw [add_assoc, ← List.drop_drop, h, add_comm 1 k, List.drop_succ_cons]

theorem slice_eq (h : s.drop i = a :: rest) (hk : k ≤ rest.length) :
    slice s i (i + 1 + k) = .ok (a :: rest.take k) := by
  have hlength := length_of_drop h
  have hcount : i + 1 + k - i = k + 1 := by omega
  rw [slice, if_pos (by omega), h, hcount, List.take_succ_cons]

theorem scanWhile_eq (p : α → Bool) (hi : i ≤ s.length) (hn : s.length < i + n) :
    scanWhile s p n i = .ok (i + ((s.drop i).takeWhile p).length) := by
  induction n generalizing i with
  | zero => omega
  | succ n ih =>
    rw [scanWhile]
    split
    · rename_i hlt
      have hdrop := List.drop_eq_getElem_cons hlt
      rw [readAt_eq hdrop, hdrop, List.takeWhile_cons]
      by_cases hp : p s[i] = true
      · rw [if_pos hp, List.length_cons]
        refine (if_pos hp).trans ?_
        rw [ih (by omega) (by omega)]
        congr 1
        omega
      · rw [if_neg hp]
        exact if_neg hp
    · rename_i hlt
      rw [List.drop_eq_nil_of_le (by omega)]
      rfl

end Position

/-- Turns that move on come to an end, and put out what each of them adds to the rest. -/
theorem runTurns_eq {length : Nat} {turn : Nat → Except Fault (Option β × Nat)}
    {result : Nat → List β} (hdone : ∀ i, length ≤ i → result i = [])
    (hturn : ∀ i < length, ∃ b next, turn i = .ok (b, next) ∧ i < next ∧
      result i = b.toList ++ result next) {n i : Nat} (hn : length ≤ i + n) (out : List β) :
    runTurns length turn n i out = .ok (out ++ result i) := by
  induction n generalizing i out with
  | zero => rw [runTurns, if_neg (by omega), hdone i (by omega), List.append_nil]
  | succ n ih =>
    rw [runTurns]
    split
    · rename_i hlt
      obtain ⟨b, next, hstep, hnext, hresult⟩ := hturn i hlt
      rw [hstep, hresult, ← List.append_assoc]
      exact ih (by omega) _
    · rename_i hlt
      rw [hdone i (by omega), List.append_nil]

/-! ## Lists cut where a scan stops -/

theorem take_length_takeWhile_add (p : α → Bool) (l : List α) (k : Nat) :
    l.take ((l.takeWhile p).length + k) = l.takeWhile p ++ (l.dropWhile p).take k :=
  calc l.take ((l.takeWhile p).length + k)
    _ = (l.takeWhile p ++ l.dropWhile p).take
      ((l.takeWhile p).length + k) := by rw [List.takeWhile_append_dropWhile]
    _ = l.takeWhile p ++ (l.dropWhile p).take k := List.take_length_add_append k

theorem drop_length_takeWhile_add (p : α → Bool) (l : List α) (k : Nat) :
    l.drop ((l.takeWhile p).length + k) = (l.dropWhile p).drop k :=
  calc l.drop ((l.takeWhile p).length + k)
    _ = (l.takeWhile p ++ l.dropWhile p).drop
      ((l.takeWhile p).length + k) := by rw [List.takeWhile_append_dropWhile]
    _ = (l.dropWhile p).drop k := List.drop_length_add_append k

end Indexed

end Lib
