import Mathlib

/-!
# Windows of a log

A log in which some entries start a window. An interval that is no longer than the windows are apart
meets at most two of them.
-/

namespace Lib

section Windows

variable {α T : Type} (starts : α → Bool)

/-- The window that a log ends in: its entries from the last one on that starts a window. -/
def window (log : List α) : List α := log.foldl (fun w c => if starts c then [c] else w ++ [c]) []

variable {starts}

theorem window_concat (log : List α) (c : α) :
    window starts (log ++ [c]) = if starts c then [c] else window starts log ++ [c] := by
  rw [window, List.foldl_append]
  rfl

/-- Before the window that a log ends in there is nothing, or the window was started. -/
theorem exists_append_window (starts : α → Bool) (log : List α) :
    ∃ rest, log = rest ++ window starts log ∧
      (rest = [] ∨ ∃ c w, window starts log = c :: w ∧ starts c = true) := by
  induction log using List.reverseRecOn with
  | nil => exact ⟨[], rfl, Or.inl rfl⟩
  | append_singleton log c ih =>
    rw [window_concat]
    by_cases hc : starts c = true
    · rw [if_pos hc]
      exact ⟨log, rfl, Or.inr ⟨c, [], rfl, hc⟩⟩
    · rw [if_neg hc]
      obtain ⟨rest, hlog, hrest⟩ := ih
      refine ⟨rest, by rw [← List.append_assoc, ← hlog], hrest.imp_right ?_⟩
      rintro ⟨d, w, hw, hd⟩
      exact ⟨d, w ++ [c], by rw [hw]; rfl, hd⟩

variable [AddCommGroup T] [LinearOrder T] [IsOrderedAddMonoid T]

/-- `c` comes after `d`. If it starts a window it comes strictly after it, and by more than `length` if
`d` starts one too. -/
def Follows (starts : α → Bool) (time : α → T) (length : T) (d c : α) : Prop :=
  time d ≤ time c ∧
    (starts c = true → time d < time c ∧ (starts d = true → time d + length < time c))

variable {time : α → T} {length : T} {n : Nat} {P : α → Bool}

/-- What comes before two windows is more than `length` before the second of them. -/
theorem add_length_lt {earlier w w' : List α} {d e f : α}
    (h : (earlier ++ (e :: w ++ f :: w')).Pairwise (Follows starts time length)) (hd : d ∈ earlier)
    (he : starts e = true) (hf : starts f = true) : time d + length < time f := by
  obtain ⟨-, htail, hbefore⟩ := List.pairwise_append.mp h
  have hde := (hbefore d hd e (by simp)).2 he
  have hef := ((List.pairwise_cons.mp htail).1 f (by simp)).2 hf
  exact (add_lt_add_left hde.1 length).trans (hef.2 he)

/-- Of the windows of a log, only the last two reach back by `length` from the end. -/
theorem countP_last_windows_le {log : List α} {c : α} {a : T}
    (hlog : (log ++ [c]).Pairwise (Follows starts time length))
    (hn : ∀ before after, log ++ [c] = before ++ after → (window starts before).countP P ≤ n)
    (hc : time c ≤ a + length) :
    (log ++ [c]).countP (fun d => P d && decide (a ≤ time d)) ≤ 2 * n := by
  have hlast : ∀ d ∈ log ++ [c], time d ≤ time c := by
    intro d hd
    rcases List.mem_append.mp hd with hd | hd
    · exact ((List.pairwise_append.mp hlog).2.2 d hd c (by simp)).1
    · rw [List.mem_singleton.mp hd]
  have hle : ∀ w : List α, w.countP (fun d => P d && decide (a ≤ time d)) ≤ w.countP P := fun w =>
    List.countP_mono_left fun d _ hd => (Bool.and_eq_true_iff.mp hd).1
  obtain ⟨rest, hrest, hfirst⟩ := exists_append_window starts (log ++ [c])
  obtain ⟨earlier, hearlier, hsecond⟩ := exists_append_window starts rest
  have hcurrent := hn (log ++ [c]) [] (by simp)
  have hprevious := hn rest _ hrest
  -- what comes before the last two windows is too early
  have hnone : earlier.countP (fun d => P d && decide (a ≤ time d)) = 0 := by
    rw [List.countP_eq_zero]
    intro d hd hin
    rcases hsecond with rfl | ⟨e, w, hw, he⟩
    · cases hd
    · rcases hfirst with rfl | ⟨f, w', hw', hf⟩
      · rw [hw] at hearlier
        simp at hearlier
      · rw [hrest, hearlier, hw, hw', List.append_assoc] at hlog
        have hfc : time f ≤ time c := hlast f (by rw [hrest, hw']; simp)
        have hda : time d + length < a + length := (add_length_lt hlog hd he hf).trans_le (hfc.trans hc)
        have had : a ≤ time d := of_decide_eq_true (Bool.and_eq_true_iff.mp hin).2
        exact absurd (lt_of_add_lt_add_right hda) (not_lt.mpr had)
  calc (log ++ [c]).countP (fun d => P d && decide (a ≤ time d))
      = earlier.countP (fun d => P d && decide (a ≤ time d)) +
          (window starts rest).countP (fun d => P d && decide (a ≤ time d)) +
            (window starts (log ++ [c])).countP (fun d => P d && decide (a ≤ time d)) := by
        conv_lhs => rw [hrest, hearlier]
        rw [List.countP_append, List.countP_append]
    _ ≤ 0 + n + n := by
        rw [hnone]
        exact Nat.add_le_add (Nat.add_le_add_left ((hle _).trans hprevious) 0) ((hle _).trans hcurrent)
    _ = 2 * n := by omega

/-- If each window has at most `n` entries of a kind, an interval of the length has at most `2 * n`. -/
theorem countP_interval_le {log : List α} (hlog : log.Pairwise (Follows starts time length))
    (hn : ∀ before after, log = before ++ after → (window starts before).countP P ≤ n) (a : T) :
    log.countP (fun d => P d && decide (a ≤ time d ∧ time d ≤ a + length)) ≤ 2 * n := by
  induction log using List.reverseRecOn with
  | nil => exact Nat.zero_le _
  | append_singleton log c ih =>
    by_cases hc : time c ≤ a + length
    · refine le_trans (List.countP_mono_left fun d _ hd => ?_) (countP_last_windows_le hlog hn hc)
      simp only [Bool.and_eq_true, decide_eq_true_eq] at hd ⊢
      exact ⟨hd.1, hd.2.1⟩
    · -- the last entry is too late
      rw [List.countP_append]
      have hout : [c].countP (fun d => P d && decide (a ≤ time d ∧ time d ≤ a + length)) = 0 := by
        simp [hc]
      rw [hout, Nat.add_zero]
      refine ih (List.pairwise_append.mp hlog).1 fun before after h => hn before (after ++ [c]) ?_
      rw [h, List.append_assoc]

end Windows

end Lib
