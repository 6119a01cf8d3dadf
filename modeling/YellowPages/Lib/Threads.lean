import Mathlib

/-!
# Threads over a shared state

Numbered threads, each with its own local state. What one of them knows about the shared state has
to survive the steps of the others.
-/

namespace Lib

variable {τ : Type}

abbrev Threads (τ : Type) := Std.ExtTreeMap Nat τ

/-- Every thread satisfies `P`. -/
def Each (P : τ → Prop) (threads : Threads τ) : Prop :=
  ∀ (id : Nat) (t : τ), threads[id]? = some t → P t

theorem Each.empty (P : τ → Prop) : Each P (∅ : Threads τ) := by
  intro id t h
  simp at h

/-- Thread `id` moves to `t`, and the others see the shared state that it leaves. -/
theorem Each.insert {P Q : τ → Prop} {threads : Threads τ} (h : Each P threads) (id : Nat) {t : τ}
    (hself : Q t)
    (hothers : ∀ (other : Nat) (u : τ), other ≠ id → threads[other]? = some u → P u → Q u) :
    Each Q (threads.insert id t) := by
  intro other u hu
  rw [Std.ExtTreeMap.getElem?_insert] at hu
  simp only [Std.compare_eq_iff_eq] at hu
  split at hu <;> rename_i hid
  · obtain rfl := Option.some.inj hu
    exact hself
  · exact hothers other u (fun heq => hid heq.symm) hu (h other u hu)

theorem Each.erase {P : τ → Prop} {threads : Threads τ} (h : Each P threads) (id : Nat) :
    Each P (threads.erase id) := by
  intro other u hu
  rw [Std.ExtTreeMap.getElem?_erase] at hu
  split at hu
  · cases hu
  · exact h other u hu

theorem Each.mono {P Q : τ → Prop} {threads : Threads τ} (h : Each P threads) (hPQ : ∀ t, P t → Q t) :
    Each Q threads :=
  fun id t ht => hPQ t (h id t ht)

/-- No two threads claim the same thing. -/
def Solo {κ : Type} (claim : τ → Option κ) (threads : Threads τ) : Prop :=
  ∀ (i j : Nat) (t u : τ) (k : κ), threads[i]? = some t → threads[j]? = some u →
    claim t = some k → claim u = some k → i = j

theorem Solo.empty {κ : Type} (claim : τ → Option κ) : Solo claim (∅ : Threads τ) := by
  intro i j t u k ht
  simp at ht

theorem Solo.insert {κ : Type} {claim : τ → Option κ} {threads : Threads τ} (h : Solo claim threads)
    (id : Nat) {t : τ}
    (hfree : ∀ k, claim t = some k → ∀ (other : Nat) (u : τ), other ≠ id →
      threads[other]? = some u → claim u ≠ some k) : Solo claim (threads.insert id t) := by
  intro i j u v k hu hv hk hk'
  rw [Std.ExtTreeMap.getElem?_insert] at hu hv
  simp only [Std.compare_eq_iff_eq] at hu hv
  split at hu <;> split at hv <;> rename_i hi hj
  · exact hi.symm.trans hj
  · obtain rfl := Option.some.inj hu
    exact absurd hk' (hfree k hk j v (fun heq => hj heq.symm) hv)
  · obtain rfl := Option.some.inj hv
    exact absurd hk (hfree k hk' i u (fun heq => hi heq.symm) hu)
  · exact h i j u v k hu hv hk hk'

/-- A thread moves and claims what it claimed before, or nothing. -/
theorem Solo.move {κ : Type} {claim : τ → Option κ} {threads : Threads τ} (h : Solo claim threads)
    {id : Nat} {t t' : τ} (ht : threads[id]? = some t)
    (hclaim : claim t' = none ∨ claim t' = claim t) :
    Solo claim (threads.insert id t') := by
  refine h.insert id fun k hk other u hne hu hk' => ?_
  rcases hclaim with hnone | hsame
  · rw [hnone] at hk
    cases hk
  · exact hne (h other id u t k hu ht hk' (hsame.symm.trans hk))

end Lib
