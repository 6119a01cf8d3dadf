import Mathlib

/-!
# Loops over a map, and sorting by a key

A `range` over a map visits its keys in an order nobody specifies. A sort by a key that no
two elements share has one result, whatever the order of its input.
-/

namespace Lib

/-- The order one loop visits the keys of a map in: any permutation of them. -/
structure RangeOrder (K : Type) where
  visit : List K → List K
  perm : ∀ keys, (visit keys).Perm keys

namespace RangeOrder

variable {K : Type}

def asStored : RangeOrder K := ⟨id, fun _ => List.Perm.refl _⟩

theorem mem_visit (o : RangeOrder K) (keys : List K) (k : K) : k ∈ o.visit keys ↔ k ∈ keys :=
  (o.perm keys).mem_iff

theorem nodup_visit (o : RangeOrder K) (keys : List K) (h : keys.Nodup) : (o.visit keys).Nodup :=
  (o.perm keys).nodup_iff.mpr h

end RangeOrder

/-! ## Sorting by a key -/

section SortBy

variable {α κ : Type} [LinearOrder κ] (key : α → κ)

/-- `sort.Slice` with `less` comparing keys. -/
def sortBy (l : List α) : List α := l.insertionSort (fun a b => key a ≤ key b)

theorem sortBy_perm (l : List α) : (sortBy key l).Perm l := List.perm_insertionSort _ l

theorem mem_sortBy (l : List α) (a : α) : a ∈ sortBy key l ↔ a ∈ l := (sortBy_perm key l).mem_iff

/-- Strictly increasing keys: sorted, and no key twice. -/
def StrictlySorted (l : List α) : Prop := l.Pairwise (fun a b => key a < key b)

theorem sortBy_strictlySorted (l : List α) (h : (l.map key).Nodup) :
    StrictlySorted key (sortBy key l) := by
  have : Std.Total (fun a b : α => key a ≤ key b) := ⟨fun a b => le_total (key a) (key b)⟩
  have : IsTrans α (fun a b : α => key a ≤ key b) := ⟨fun _ _ _ => le_trans⟩
  have hle : (sortBy key l).Pairwise (fun a b => key a ≤ key b) := List.pairwise_insertionSort _ l
  have hne : (sortBy key l).Pairwise (fun a b => key a ≠ key b) := by
    rw [← List.pairwise_map (f := key) (R := (· ≠ ·))]
    exact ((sortBy_perm key l).map key).nodup_iff.mpr h
  exact (hle.and hne).imp (fun ⟨h1, h2⟩ => lt_of_le_of_ne h1 h2)

theorem StrictlySorted.filter {l : List α} (h : StrictlySorted key l) (p : α → Bool) :
    StrictlySorted key (l.filter p) := List.Pairwise.filter p h

theorem StrictlySorted.nodup_keys {l : List α} (h : StrictlySorted key l) : (l.map key).Nodup := by
  rw [List.nodup_iff_pairwise_ne, List.pairwise_map]
  exact h.imp ne_of_lt

theorem StrictlySorted.ext {l1 l2 : List α} (h1 : StrictlySorted key l1) (h2 : StrictlySorted key l2)
    (h : ∀ a, a ∈ l1 ↔ a ∈ l2) : l1 = l2 := by
  have hperm : l1.Perm l2 :=
    (List.perm_ext_iff_of_nodup h1.nodup_keys.of_map h2.nodup_keys.of_map).mpr h
  exact hperm.eq_of_pairwise (fun a b _ _ hab hba => absurd hab (lt_asymm hba)) h1 h2

/-- The order of the input does not show in the output. -/
theorem sortBy_eq_of_perm {l l' : List α} (h : (l.map key).Nodup) (hp : l'.Perm l) :
    sortBy key l' = sortBy key l := by
  refine StrictlySorted.ext key (sortBy_strictlySorted key l' ?_) (sortBy_strictlySorted key l h) ?_
  · exact (hp.map key).nodup_iff.mpr h
  · intro a
    rw [mem_sortBy, mem_sortBy, hp.mem_iff]

theorem sortBy_id_eq_iff {l l' : List κ} : sortBy id l = sortBy id l' ↔ l.Perm l' := by
  constructor
  · intro h
    exact (sortBy_perm id l).symm.trans (h ▸ sortBy_perm id l')
  · intro h
    have hsorted : ∀ l : List κ, (sortBy id l).Pairwise (· ≤ ·) :=
      fun l => List.pairwise_insertionSort (· ≤ ·) l
    have hperm := (sortBy_perm id l).trans (h.trans (sortBy_perm id l').symm)
    exact hperm.eq_of_pairwise (fun a b _ _ hab hba => le_antisymm hab hba) (hsorted l) (hsorted l')

theorem StrictlySorted.key_inj {l : List α} (h : StrictlySorted key l) {a b : α} (ha : a ∈ l)
    (hb : b ∈ l) (hk : key a = key b) : a = b :=
  List.inj_on_of_nodup_map h.nodup_keys ha hb hk

/-- Two sorted lists that agree position by position have the same keys and agree key by key. -/
theorem StrictlySorted.forall₂_iff {l1 l2 : List α} (h1 : StrictlySorted key l1)
    (h2 : StrictlySorted key l2) (R : α → α → Prop) :
    List.Forall₂ (fun a b => key a = key b ∧ R a b) l1 l2 ↔
      (∀ k, k ∈ l1.map key ↔ k ∈ l2.map key) ∧ ∀ a ∈ l1, ∀ b ∈ l2, key a = key b → R a b := by
  have hkeys : List.Forall₂ (fun a b => key a = key b) l1 l2 ↔ l1.map key = l2.map key := by
    rw [← List.forall₂_eq_eq_eq, List.forall₂_map_left_iff, List.forall₂_map_right_iff]
  constructor
  · intro h
    refine ⟨fun k => by rw [hkeys.mp (h.imp fun a b hab => hab.1)], ?_⟩
    intro a ha b hb hk
    -- The element at the position of `a` has the key of `a`, and so it is `b`.
    obtain ⟨i, hi, rfl⟩ := List.getElem_of_mem ha
    have hi' : i < l2.length := by rw [← h.length_eq]; exact hi
    have hpair := h.get hi hi'
    rw [List.get_eq_getElem, List.get_eq_getElem] at hpair
    rw [h2.key_inj key hb (List.getElem_mem hi') (hk.symm.trans hpair.1)]
    exact hpair.2
  · rintro ⟨hmem, hR⟩
    have hsorted : ∀ l : List α, StrictlySorted key l → StrictlySorted id (l.map key) := fun l hl =>
      List.pairwise_map.mpr hl
    have hsame := hkeys.mpr ((hsorted l1 h1).ext id (hsorted l2 h2) hmem)
    rw [List.forall₂_iff_zip] at hsame ⊢
    refine ⟨hsame.1, fun {a b} hab => ⟨hsame.2 hab, ?_⟩⟩
    exact hR a (List.of_mem_zip hab).1 b (List.of_mem_zip hab).2 (hsame.2 hab)

end SortBy

/-! ## First occurrences -/

section FirstSeen

variable {α : Type} [DecidableEq α]

/-- Add `a` at the end, unless it is there. -/
def keepNew (out : List α) (a : α) : List α := if a ∈ out then out else out ++ [a]

def firstSeen (l : List α) : List α := l.foldl keepNew []

theorem firstSeen_concat (l : List α) (a : α) : firstSeen (l ++ [a]) = keepNew (firstSeen l) a := by
  rw [firstSeen, List.foldl_append]
  rfl

@[simp] theorem mem_firstSeen (l : List α) (a : α) : a ∈ firstSeen l ↔ a ∈ l := by
  induction l using List.reverseRecOn with
  | nil => rfl
  | append_singleton l b ih =>
    rw [firstSeen_concat, keepNew]
    split <;> rename_i hb
    · rw [ih, List.mem_append, List.mem_singleton, iff_self_or]
      rintro rfl
      exact ih.mp hb
    · simp [ih]

/-- In the order of the first occurrences, and so without repeats. -/
theorem firstSeen_ordered (l : List α) : (firstSeen l).Pairwise fun a b => l.idxOf a < l.idxOf b := by
  induction l using List.reverseRecOn with
  | nil => exact List.Pairwise.nil
  | append_singleton l b ih =>
    have hbefore : (firstSeen l).Pairwise fun x y => (l ++ [b]).idxOf x < (l ++ [b]).idxOf y := by
      refine ih.imp_of_mem fun hx hy hlt => ?_
      rwa [List.idxOf_append_of_mem ((mem_firstSeen l _).mp hx),
        List.idxOf_append_of_mem ((mem_firstSeen l _).mp hy)]
    rw [firstSeen_concat, keepNew]
    split <;> rename_i hb
    · exact hbefore
    · refine List.pairwise_append.mpr ⟨hbefore, List.pairwise_singleton _ _, fun x hx y hy => ?_⟩
      have hxl : x ∈ l := (mem_firstSeen l x).mp hx
      have hbl : b ∉ l := fun h => hb ((mem_firstSeen l b).mpr h)
      rw [List.mem_singleton.mp hy, List.idxOf_append_of_mem hxl, List.idxOf_append_of_notMem hbl]
      have hlt := List.idxOf_lt_length_of_mem hxl
      omega

theorem nodup_firstSeen (l : List α) : (firstSeen l).Nodup :=
  (firstSeen_ordered l).imp fun hlt heq => by
    rw [heq] at hlt
    exact absurd hlt (lt_irrefl _)

end FirstSeen

end Lib
