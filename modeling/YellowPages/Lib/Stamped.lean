import YellowPages.Lib.Trace

/-!
# Keys stamped by a counter

Every change of a key takes the next value of one counter. A key keeps the value it was created
at, next to the value of its last change. The output of a change is the value it took.
-/

namespace Lib

structure Stamped (K : Type) where
  counter : Nat
  /-- Created at and changed at. -/
  stamps : K → Option (Nat × Nat)

namespace Stamped

variable {K : Type}

def init (start : Nat) : Stamped K := ⟨start, fun _ => none⟩

structure Sound (start : Nat) (s : Stamped K) : Prop where
  bounds : ∀ k c i, s.stamps k = some (c, i) → start < c ∧ c ≤ i ∧ i ≤ s.counter
  create_inj : ∀ k k' c i i', s.stamps k = some (c, i) → s.stamps k' = some (c, i') → k = k'
  change_inj : ∀ k k' c c' i, s.stamps k = some (c, i) → s.stamps k' = some (c', i) → k = k'

theorem sound_init (start : Nat) : Sound start (init start : Stamped K) where
  bounds := by intro k c i h; simp [init] at h
  create_inj := by intro k k' c i i' h; simp [init] at h
  change_inj := by intro k k' c c' i h; simp [init] at h

variable [DecidableEq K]

def put (s : Stamped K) (k : K) (v : Option (Nat × Nat)) : Stamped K :=
  ⟨s.counter + 1, Function.update s.stamps k v⟩

/-- A growing change (`true`) takes no key out, and a shrinking one (`false`) adds none. -/
inductive Change : Bool → Stamped K → List Nat → Stamped K → Prop where
  | silent {grow : Bool} (s : Stamped K) : Change grow s [] s
  | create {s : Stamped K} (k : K) (h : s.stamps k = none) :
      Change true s [s.counter + 1] (s.put k (some (s.counter + 1, s.counter + 1)))
  | rewrite {grow : Bool} {s : Stamped K} (k : K) {c i : Nat} (h : s.stamps k = some (c, i)) :
      Change grow s [s.counter + 1] (s.put k (some (c, s.counter + 1)))
  | remove {s : Stamped K} (k : K) : Change false s [s.counter + 1] (s.put k none)

def AnyChange (s : Stamped K) (out : List Nat) (t : Stamped K) : Prop := ∃ grow, Change grow s out t

theorem stamps_put (s : Stamped K) (k k' : K) (v : Option (Nat × Nat)) :
    (s.put k v).stamps k' = if k' = k then v else s.stamps k' := Function.update_apply ..

/-- `k` takes the next value as its change stamp. As its creation stamp it takes the same, or
keeps the one it had. -/
theorem Sound.put_some {start : Nat} {s : Stamped K} (h : Sound start s) (k : K) (c : Nat)
    (hs : start ≤ s.counter)
    (hc : c = s.counter + 1 ∨ ∃ i, s.stamps k = some (c, i)) :
    Sound start (s.put k (some (c, s.counter + 1))) := by
  have hb : start < c ∧ c ≤ s.counter + 1 := by
    rcases hc with rfl | ⟨i, hi⟩
    · omega
    · have := h.bounds k c i hi; omega
  -- No other key has this creation stamp: a new one is past all, a kept one was unique before.
  have hother : ∀ k' i, k' ≠ k → s.stamps k' ≠ some (c, i) := by
    intro k' i hk hk'
    rcases hc with rfl | ⟨j, hj⟩
    · have := h.bounds k' _ i hk'; omega
    · exact hk (h.create_inj k' k c i j hk' hj)
  refine ⟨?_, ?_, ?_⟩
  · intro k' c' i' hk'
    rw [stamps_put] at hk'
    split at hk'
    · simp only [Option.some.injEq, Prod.mk.injEq] at hk'
      simp only [put]; omega
    · have := h.bounds k' c' i' hk'
      simp only [put]; omega
  · intro k1 k2 c' i1 i2 h1 h2
    rw [stamps_put] at h1 h2
    split at h1 <;> split at h2 <;> rename_i e1 e2
    · rw [e1, e2]
    · simp only [Option.some.injEq, Prod.mk.injEq] at h1
      exact absurd h2 (h1.1 ▸ hother k2 i2 e2)
    · simp only [Option.some.injEq, Prod.mk.injEq] at h2
      exact absurd h1 (h2.1 ▸ hother k1 i1 e1)
    · exact h.create_inj k1 k2 c' i1 i2 h1 h2
  · intro k1 k2 c1 c2 i h1 h2
    rw [stamps_put] at h1 h2
    split at h1 <;> split at h2 <;> rename_i e1 e2
    · rw [e1, e2]
    · simp only [Option.some.injEq, Prod.mk.injEq] at h1
      have := h.bounds k2 c2 i h2; omega
    · simp only [Option.some.injEq, Prod.mk.injEq] at h2
      have := h.bounds k1 c1 i h1; omega
    · exact h.change_inj k1 k2 c1 c2 i h1 h2

theorem Sound.put_none {start : Nat} {s : Stamped K} (h : Sound start s) (k : K) :
    Sound start (s.put k none) := by
  have hof : ∀ k' v, (s.put k none).stamps k' = some v → s.stamps k' = some v := by
    intro k' v hv
    rw [stamps_put] at hv
    split at hv
    · cases hv
    · exact hv
  refine ⟨fun k' c i hk' => ?_, ?_, ?_⟩
  · have := h.bounds k' c i (hof k' _ hk')
    simp only [put]; omega
  · intro k1 k2 c i1 i2 h1 h2
    exact h.create_inj k1 k2 c i1 i2 (hof k1 _ h1) (hof k2 _ h2)
  · intro k1 k2 c1 c2 i h1 h2
    exact h.change_inj k1 k2 c1 c2 i (hof k1 _ h1) (hof k2 _ h2)

theorem Sound.change {start : Nat} {grow : Bool} {s t : Stamped K} {out : List Nat}
    (h : Sound start s) (hs : start ≤ s.counter) (hc : Change grow s out t) : Sound start t := by
  cases hc with
  | silent => exact h
  | create k hk => exact h.put_some k _ hs (Or.inl rfl)
  | rewrite k hk => exact h.put_some k _ hs (Or.inr ⟨_, hk⟩)
  | remove k => exact h.put_none k

theorem Change.counter {grow : Bool} {s t : Stamped K} {out : List Nat} (h : Change grow s out t) :
    t.counter = s.counter + out.length := by
  cases h <;> rfl

/-- The outputs of a run are consecutive from `start`, and the counter is the last of them. -/
theorem steps_log {start : Nat} {log : List Nat} {t : Stamped K}
    (h : Steps AnyChange (init start) log t) :
    log = List.range' (start + 1) log.length ∧ t.counter = start + log.length := by
  refine h.invariant
    (fun log t => log = List.range' (start + 1) log.length ∧ t.counter = start + log.length)
    ⟨rfl, rfl⟩ ?_
  rintro log t out u ⟨hlog, hcount⟩ ⟨grow, hc⟩
  have hnext : log ++ [t.counter + 1] = List.range' (start + 1) (log.length + 1) := by
    rw [List.range'_concat, ← hlog, hcount]
    congr 2
    omega
  cases hc with
  | silent => simpa using ⟨hlog, hcount⟩
  | create k _ | rewrite k _ | remove k =>
    refine ⟨by simpa using hnext, ?_⟩
    simp only [put, hcount, List.length_append, List.length_singleton]
    omega

theorem steps_sound {start : Nat} {log : List Nat} {t : Stamped K}
    (h : Steps AnyChange (init start) log t) : Sound start t := by
  refine (h.invariant (fun _ t => Sound start t ∧ start ≤ t.counter)
    ⟨sound_init start, le_rfl⟩ ?_).1
  rintro log t out u ⟨hsound, hle⟩ ⟨grow, hc⟩
  refine ⟨hsound.change hle hc, ?_⟩
  cases hc with
  | silent => exact hle
  | create k _ | rewrite k _ | remove k => exact Nat.le_succ_of_le hle

/-! ## Creation stamps -/

def created (s : Stamped K) (k : K) : Option Nat := (s.stamps k).map Prod.fst

theorem created_put (s : Stamped K) (k k' : K) (v : Option (Nat × Nat)) :
    (s.put k v).created k' = if k' = k then v.map Prod.fst else s.created k' := by
  unfold created
  rw [stamps_put]
  split <;> rfl

theorem Change.created_grow {s t : Stamped K} {out : List Nat} (h : Change true s out t) (k : K)
    (c : Nat) (hk : s.created k = some c) : t.created k = some c := by
  cases h with
  | silent => exact hk
  | create k0 h0 =>
    rw [created_put]
    split <;> rename_i e
    · subst e; simp [created, h0] at hk
    · exact hk
  | rewrite k0 h0 =>
    rw [created_put]
    split <;> rename_i e
    · subst e; simpa [created, h0] using hk
    · exact hk

theorem Change.created_shrink {s t : Stamped K} {out : List Nat} (h : Change false s out t) (k : K)
    (c : Nat) (hk : t.created k = some c) : s.created k = some c := by
  cases h with
  | silent => exact hk
  | rewrite k0 h0 =>
    rw [created_put] at hk
    split at hk <;> rename_i e
    · subst e; simpa [created, h0] using hk
    · exact hk
  | remove k0 =>
    rw [created_put] at hk
    split at hk
    · cases hk
    · exact hk

/-- Changes that all grow, or all shrink, do not restamp a key they leave in. -/
theorem steps_created {grow : Bool} {s t : Stamped K} {log : List Nat}
    (h : Steps (Change grow) s log t) (k : K) (c c' : Nat) (hs : s.created k = some c)
    (ht : t.created k = some c') : c' = c := by
  cases grow with
  | true =>
    have hkept : ∀ c, s.created k = some c → t.created k = some c := by
      refine h.relates (fun s t => ∀ c, s.created k = some c → t.created k = some c) ?_ ?_ ?_
      · intro s c hc; exact hc
      · intro s t u h1 h2 c hc; exact h2 c (h1 c hc)
      · intro s out t hstep c hc; exact hstep.created_grow k c hc
    exact Option.some.inj (ht.symm.trans (hkept c hs))
  | false =>
    have hkept : ∀ c, t.created k = some c → s.created k = some c := by
      refine h.relates (fun s t => ∀ c, t.created k = some c → s.created k = some c) ?_ ?_ ?_
      · intro s c hc; exact hc
      · intro s t u h1 h2 c hc; exact h1 c (h2 c hc)
      · intro s out t hstep c hc; exact hstep.created_shrink k c hc
    exact Option.some.inj ((hkept c' ht).symm.trans hs)

end Stamped

end Lib
