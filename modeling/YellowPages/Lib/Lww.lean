import YellowPages.Lib.Ordered

/-!
# Last writer wins

Several versions of one identity are merged by keeping the version of the highest rank, the
first one of these if there are several. The order of the versions shows only in such a tie.
-/

namespace Lib

/-! ## The first maximum -/

section FirstMax

variable {α ρ : Type} [LinearOrder ρ] (rank : α → ρ)

/-- `w` beats everything before it and is not beaten by anything after it. -/
def FirstMax (l : List α) (w : α) : Prop :=
  ∃ before after, l = before ++ w :: after ∧ (∀ a ∈ before, rank a < rank w) ∧
    ∀ a ∈ after, rank a ≤ rank w

theorem FirstMax.argmax {l : List α} {w : α} (h : FirstMax rank l w) : l.argmax rank = some w := by
  obtain ⟨before, after, rfl, hbefore, hafter⟩ := h
  induction after using List.reverseRecOn with
  | nil =>
    rw [List.argmax_concat]
    cases hb : before.argmax rank with
    | none => rfl
    | some c => exact if_pos (hbefore c (List.argmax_mem hb))
  | append_singleton after a ih =>
    rw [← List.cons_append, ← List.append_assoc, List.argmax_concat,
      ih fun x hx => hafter x (List.mem_append_left _ hx)]
    exact if_neg (not_lt.mpr (hafter a (by simp)))

theorem exists_firstMax (l : List α) (h : l ≠ []) : ∃ w, FirstMax rank l w := by
  induction l with
  | nil => exact absurd rfl h
  | cons x rest ih =>
    rcases List.eq_nil_or_concat rest with rfl | ⟨_, _, hrest⟩
    · exact ⟨x, [], [], rfl, by simp, by simp⟩
    · obtain ⟨w, before, after, hsplit, hbefore, hafter⟩ := ih (by simp [hrest])
      rcases lt_or_ge (rank x) (rank w) with hlt | hge
      · refine ⟨w, x :: before, after, by simp [hsplit], ?_, hafter⟩
        rintro a ha
        rcases List.mem_cons.mp ha with rfl | ha
        · exact hlt
        · exact hbefore a ha
      · refine ⟨x, [], rest, rfl, by simp, ?_⟩
        intro a ha
        rw [hsplit, List.mem_append, List.mem_cons] at ha
        rcases ha with ha | rfl | ha
        · exact ((hbefore a ha).trans_le hge).le
        · exact hge
        · exact (hafter a ha).trans hge

theorem argmax_eq_some_iff (l : List α) (w : α) : l.argmax rank = some w ↔ FirstMax rank l w := by
  refine ⟨fun h => ?_, FirstMax.argmax rank⟩
  have hne : l ≠ [] := by rintro rfl; cases h
  obtain ⟨w', hw'⟩ := exists_firstMax rank l hne
  rw [hw'.argmax] at h
  rwa [← Option.some.inj h]

variable {rank}

theorem FirstMax.mem {l : List α} {w : α} (h : FirstMax rank l w) : w ∈ l := by
  obtain ⟨before, after, rfl, -, -⟩ := h
  simp

theorem FirstMax.le {l : List α} {w : α} (h : FirstMax rank l w) : ∀ a ∈ l, rank a ≤ rank w := by
  obtain ⟨before, after, rfl, hbefore, hafter⟩ := h
  intro a ha
  rw [List.mem_append, List.mem_cons] at ha
  rcases ha with ha | rfl | ha
  · exact (hbefore a ha).le
  · exact le_rfl
  · exact hafter a ha

theorem FirstMax.unique {l : List α} {v w : α} (hv : FirstMax rank l v) (hw : FirstMax rank l w) :
    v = w := by
  have h := hv.argmax.symm.trans hw.argmax
  exact Option.some.inj h

/-- A new last element takes over exactly if it beats the maximum so far. -/
theorem argmax_snoc (l : List α) (a : α) :
    (l ++ [a]).argmax rank =
      if ∀ c ∈ l.argmax rank, rank c < rank a then some a else l.argmax rank := by
  rw [List.argmax_concat]
  cases hl : l.argmax rank with
  | none => simp
  | some c => simp

/-- The rank of the first maximum is the greatest of the ranks. -/
theorem argmax_rank_eq_some_iff (l : List α) (r : ρ) :
    (l.argmax rank).map rank = some r ↔ IsGreatest {x | ∃ a ∈ l, rank a = x} r := by
  rw [Option.map_eq_some_iff]
  constructor
  · rintro ⟨w, hw, rfl⟩
    rw [argmax_eq_some_iff] at hw
    refine ⟨⟨w, hw.mem, rfl⟩, ?_⟩
    rintro x ⟨a, ha, rfl⟩
    exact hw.le a ha
  · rintro ⟨⟨a, ha, rfl⟩, hmax⟩
    obtain ⟨w, hw⟩ := exists_firstMax rank l (List.ne_nil_of_mem ha)
    exact ⟨w, hw.argmax, le_antisymm (hmax ⟨w, hw.mem, rfl⟩) (hw.le a ha)⟩

theorem argmax_map {β : Type} (f : β → α) (l : List β) :
    (l.map f).argmax rank = (l.argmax (rank ∘ f)).map f := by
  induction l using List.reverseRecOn with
  | nil => rfl
  | append_singleton l b ih =>
    rw [List.map_append, List.map_singleton, List.argmax_concat, List.argmax_concat, ih]
    cases l.argmax (rank ∘ f) with
    | none => rfl
    | some c =>
      dsimp only [Option.map_some, Function.comp]
      split <;> rfl

theorem forall_argmax_lt (l : List α) (r : ρ) :
    (∀ c ∈ l.argmax rank, rank c < r) ↔ ∀ a ∈ l, rank a < r := by
  constructor
  · intro h a ha
    obtain ⟨w, hw⟩ := exists_firstMax rank l (List.ne_nil_of_mem ha)
    exact (hw.le a ha).trans_lt (h w hw.argmax)
  · intro h c hc
    exact h c (List.argmax_mem hc)

theorem FirstMax.append_left {l1 l2 : List α} {w : α} (h : FirstMax rank l1 w)
    (hle : ∀ a ∈ l2, rank a ≤ rank w) : FirstMax rank (l1 ++ l2) w := by
  obtain ⟨before, after, rfl, hbefore, hafter⟩ := h
  refine ⟨before, after ++ l2, by simp, hbefore, ?_⟩
  intro a ha
  exact (List.mem_append.mp ha).elim (hafter a) (hle a)

theorem FirstMax.append_right {l1 l2 : List α} {w : α} (h : FirstMax rank l2 w)
    (hlt : ∀ a ∈ l1, rank a < rank w) : FirstMax rank (l1 ++ l2) w := by
  obtain ⟨before, after, rfl, hbefore, hafter⟩ := h
  refine ⟨l1 ++ before, after, by simp, ?_, hafter⟩
  intro a ha
  exact (List.mem_append.mp ha).elim (hlt a) (hbefore a)

@[simp] theorem argmax_toList (o : Option α) : o.toList.argmax rank = o := by cases o <;> rfl

/-- The first maximum of two lists is the one of their first maxima. -/
theorem argmax_append (l1 l2 : List α) :
    (l1 ++ l2).argmax rank = ((l1.argmax rank).toList ++ (l2.argmax rank).toList).argmax rank := by
  have hone : ∀ w : α, FirstMax rank [w] w := fun w => ⟨[], [], rfl, by simp, by simp⟩
  rcases List.eq_nil_or_concat l1 with rfl | ⟨_, _, hl1⟩
  · simp
  rcases List.eq_nil_or_concat l2 with rfl | ⟨_, _, hl2⟩
  · simp
  obtain ⟨w1, hw1⟩ := exists_firstMax rank l1 (by simp [hl1])
  obtain ⟨w2, hw2⟩ := exists_firstMax rank l2 (by simp [hl2])
  rw [hw1.argmax, hw2.argmax, Option.toList_some, Option.toList_some]
  -- A tie goes to the first list.
  rcases lt_or_ge (rank w1) (rank w2) with hlt | hge
  · rw [(hw2.append_right fun a ha => (hw1.le a ha).trans_lt hlt).argmax,
      ((hone w2).append_right (by simpa using hlt)).argmax]
  · rw [(hw1.append_left fun a ha => (hw2.le a ha).trans hge).argmax,
      ((hone w1).append_left (by simpa using hge)).argmax]

theorem FirstMax.filter {l : List α} {w : α} (h : FirstMax rank l w) (p : α → Bool) (hp : p w) :
    FirstMax rank (l.filter p) w := by
  obtain ⟨before, after, rfl, hbefore, hafter⟩ := h
  refine ⟨before.filter p, after.filter p, by simp [hp], ?_, ?_⟩
  · intro a ha; exact hbefore a (List.mem_of_mem_filter ha)
  · intro a ha; exact hafter a (List.mem_of_mem_filter ha)

end FirstMax

/-! ## Top versions -/

section Top

variable {α κ ρ : Type} [LinearOrder ρ] (key : α → κ) (rank : α → ρ)

/-- No version of its identity in `l` ranks above `a`. -/
def Top (l : List α) (a : α) : Prop :=
  a ∈ l ∧ ∀ b ∈ l, key b = key a → rank b ≤ rank a

/-- The top versions of each identity are one and the same. -/
def Agree (l : List α) : Prop :=
  ∀ a b, Top key rank l a → Top key rank l b → key a = key b → a = b

variable {key rank}

theorem Top.of_perm {l l' : List α} (h : l'.Perm l) {a : α} (ha : Top key rank l a) :
    Top key rank l' a := by
  refine ⟨h.mem_iff.mpr ha.1, ?_⟩
  intro b hb
  exact ha.2 b (h.mem_iff.mp hb)

end Top

/-! ## The merge -/

section Merge

variable {α κ ρ : Type} [LinearOrder κ] [LinearOrder ρ] (key : α → κ) (beats : α → α → Bool)

/-- Keep the current winner of an identity unless `a` strictly beats it. -/
def keepWinner (winners : Std.ExtTreeMap κ α) (a : α) : Std.ExtTreeMap κ α :=
  match winners[key a]? with
  | some cur => if beats a cur then winners.insert (key a) a else winners
  | none => winners.insert (key a) a

def mergeBy (l : List α) : List α :=
  sortBy key ((l.foldl (keepWinner key beats) ∅).toList.map Prod.snd)

def versions (l : List α) (k : κ) : List α := l.filter fun a => key a = k

theorem mem_versions (l : List α) (k : κ) (a : α) : a ∈ versions key l k ↔ a ∈ l ∧ key a = k := by
  simp [versions]

variable {key beats} {rank : α → ρ} (hbeats : ∀ a b, beats a b = true ↔ rank b < rank a)
include hbeats

theorem keepWinner_getElem? (winners : Std.ExtTreeMap κ α) (a : α) (k : κ) :
    (keepWinner key beats winners a)[k]? =
      if key a = k then List.argAux (fun b c => rank c < rank b) winners[k]? a else winners[k]? := by
  unfold keepWinner
  by_cases hk : key a = k
  · subst hk
    cases hcur : winners[key a]? with
    | none => simp [List.argAux]
    | some cur =>
      simp only [List.argAux, hbeats, if_true]
      split <;> simp [hcur]
  · cases winners[key a]? with
    | none => simp [Std.ExtTreeMap.getElem?_insert, hk]
    | some cur =>
      dsimp only
      split <;> simp [Std.ExtTreeMap.getElem?_insert, hk]

theorem winners_getElem? (l : List α) (k : κ) :
    (l.foldl (keepWinner key beats) ∅)[k]? = (versions key l k).argmax rank := by
  induction l using List.reverseRecOn with
  | nil => simp [versions]
  | append_singleton l a ih =>
    rw [List.foldl_append, List.foldl_cons, List.foldl_nil, keepWinner_getElem? hbeats, ih]
    by_cases hk : key a = k
    · have hv : versions key (l ++ [a]) k = versions key l k ++ [a] := by simp [versions, hk]
      rw [hv, List.argmax_concat, if_pos hk]
      rfl
    · have hv : versions key (l ++ [a]) k = versions key l k := by simp [versions, hk]
      rw [hv, if_neg hk]

theorem winners_key (l : List α) (k : κ) (a : α)
    (h : (l.foldl (keepWinner key beats) ∅)[k]? = some a) : key a = k := by
  rw [winners_getElem? hbeats, argmax_eq_some_iff] at h
  exact ((mem_versions key l k a).mp h.mem).2

theorem mem_mergeBy (l : List α) (a : α) :
    a ∈ mergeBy key beats l ↔ FirstMax rank (versions key l (key a)) a := by
  rw [mergeBy, mem_sortBy, ← argmax_eq_some_iff, ← winners_getElem? hbeats, List.mem_map]
  constructor
  · rintro ⟨⟨k, b⟩, hb, rfl⟩
    rw [Std.ExtTreeMap.mem_toList_iff_getElem?_eq_some] at hb
    dsimp only
    rw [winners_key hbeats l k b hb]
    exact hb
  · intro ha
    exact ⟨(key a, a), Std.ExtTreeMap.mem_toList_iff_getElem?_eq_some.mpr ha, rfl⟩

theorem mergeBy_strictlySorted (l : List α) : StrictlySorted key (mergeBy key beats l) := by
  apply sortBy_strictlySorted
  rw [List.nodup_iff_pairwise_ne, List.pairwise_map, List.pairwise_map]
  refine Std.ExtTreeMap.distinct_keys_toList.imp_of_mem ?_
  rintro ⟨k1, a1⟩ ⟨k2, a2⟩ h1 h2 hne
  rw [Std.ExtTreeMap.mem_toList_iff_getElem?_eq_some] at h1 h2
  dsimp only
  rw [winners_key hbeats l k1 a1 h1, winners_key hbeats l k2 a2 h2]
  simpa using hne

theorem mem_of_mem_mergeBy (l : List α) (a : α) (h : a ∈ mergeBy key beats l) : a ∈ l := by
  rw [mem_mergeBy hbeats] at h
  exact ((mem_versions key l _ a).mp h.mem).1

omit hbeats in
theorem exists_winner (key : α → κ) (rank : α → ρ) (l : List α) (a : α) (ha : a ∈ l) :
    ∃ w, key w = key a ∧ FirstMax rank (versions key l (key w)) w := by
  have hne : versions key l (key a) ≠ [] :=
    List.ne_nil_of_mem ((mem_versions key l _ a).mpr ⟨ha, rfl⟩)
  obtain ⟨w, hw⟩ := exists_firstMax rank _ hne
  have hk := ((mem_versions key l _ w).mp hw.mem).2
  exact ⟨w, hk, by rw [hk]; exact hw⟩

/-! ## Merging in stages -/

theorem versions_mergeBy (l : List α) (k : κ) :
    versions key (mergeBy key beats l) k = ((versions key l k).argmax rank).toList := by
  have hsorted : StrictlySorted key (versions key (mergeBy key beats l) k) :=
    (mergeBy_strictlySorted hbeats l).filter key _
  have hsingle : StrictlySorted key ((versions key l k).argmax rank).toList := by
    cases (versions key l k).argmax rank <;> simp [StrictlySorted]
  refine StrictlySorted.ext key hsorted hsingle fun a => ?_
  rw [mem_versions, mem_mergeBy hbeats, Option.mem_toList, argmax_eq_some_iff]
  constructor
  · rintro ⟨ha, rfl⟩
    exact ha
  · intro ha
    obtain ⟨-, hk⟩ := (mem_versions key l k a).mp ha.mem
    exact ⟨hk.symm ▸ ha, hk⟩

/-- The merge sees of a list only the first maximum of each identity. -/
theorem mergeBy_congr {l l' : List α}
    (h : ∀ k, (versions key l k).argmax rank = (versions key l' k).argmax rank) :
    mergeBy key beats l = mergeBy key beats l' := by
  have hsorted : ∀ l, StrictlySorted key (mergeBy key beats l) := mergeBy_strictlySorted hbeats
  refine StrictlySorted.ext key (hsorted l) (hsorted l') fun a => ?_
  rw [mem_mergeBy hbeats, mem_mergeBy hbeats, ← argmax_eq_some_iff, ← argmax_eq_some_iff, h]

theorem mergeBy_append (l l' : List α) :
    mergeBy key beats (l ++ l') = mergeBy key beats (mergeBy key beats l ++ mergeBy key beats l') := by
  have hversions : ∀ l l' k, versions key (l ++ l') k = versions key l k ++ versions key l' k :=
    fun l l' k => List.filter_append l l'
  refine mergeBy_congr hbeats fun k => ?_
  rw [hversions, hversions, versions_mergeBy hbeats, versions_mergeBy hbeats, argmax_append]

theorem mergeBy_idem (l : List α) : mergeBy key beats (mergeBy key beats l) = mergeBy key beats l := by
  refine mergeBy_congr hbeats fun k => ?_
  rw [versions_mergeBy hbeats, argmax_toList]

/-! ## Filters before and after the merge -/

omit hbeats in
theorem versions_filter (l : List α) (p : α → Bool) (k : κ) :
    versions key (l.filter p) k = (versions key l k).filter p := by
  simp only [versions, List.filter_filter, Bool.and_comm]

/-- Filtering before the merge by `p` gives what filtering after it by `q` gives exactly if, for
each identity, the winner passes `p` as soon as it passes `q` or any version passes `p`. -/
theorem mergeBy_filter_iff (l : List α) (p q : α → Bool) (hpq : ∀ a, p a → q a) :
    mergeBy key beats (l.filter p) = (mergeBy key beats l).filter q ↔
      ∀ w, FirstMax rank (versions key l (key w)) w →
        (q w ∨ ∃ a ∈ l, key a = key w ∧ p a) → p w := by
  constructor
  · intro h w hw hor
    have hmem : ∀ a, a ∈ mergeBy key beats (l.filter p) → a ∈ mergeBy key beats l ∧ p a := by
      intro a ha
      have hp := (List.mem_filter.mp (mem_of_mem_mergeBy hbeats _ a ha)).2
      rw [h, List.mem_filter] at ha
      exact ⟨ha.1, hp⟩
    rcases hor with hq | ⟨a, ha, hk, hp⟩
    · have hw' : w ∈ (mergeBy key beats l).filter q :=
        List.mem_filter.mpr ⟨(mem_mergeBy hbeats l w).mpr hw, hq⟩
      rw [← h] at hw'
      exact (hmem w hw').2
    · obtain ⟨v, hv, hvmax⟩ := exists_winner key rank (l.filter p) a (List.mem_filter.mpr ⟨ha, hp⟩)
      obtain ⟨hvl, hpv⟩ := hmem v ((mem_mergeBy hbeats _ v).mpr hvmax)
      rw [mem_mergeBy hbeats, hv, hk] at hvl
      rw [hw.unique hvl]
      exact hpv
  · intro h
    have hsorted : ∀ l, StrictlySorted key (mergeBy key beats l) := mergeBy_strictlySorted hbeats
    refine StrictlySorted.ext key (hsorted _) ((hsorted l).filter key q) fun a => ?_
    rw [List.mem_filter, mem_mergeBy hbeats, mem_mergeBy hbeats, versions_filter]
    constructor
    · intro ha
      obtain ⟨hav, hpa⟩ := List.mem_filter.mp ha.mem
      obtain ⟨w, hk, hw⟩ := exists_winner key rank l a ((mem_versions key l _ a).mp hav).1
      have hpw := h w hw (Or.inr ⟨a, ((mem_versions key l _ a).mp hav).1, hk.symm, hpa⟩)
      rw [hk] at hw
      obtain rfl := ha.unique (hw.filter p hpw)
      exact ⟨hw, hpq a hpa⟩
    · rintro ⟨ha, hq⟩
      exact ha.filter p (h a ha (Or.inl hq))

/-! ## The order of the versions -/

theorem top_of_winner (l : List α) (w : α) (h : w ∈ mergeBy key beats l) : Top key rank l w := by
  rw [mem_mergeBy hbeats] at h
  refine ⟨((mem_versions key l _ w).mp h.mem).1, ?_⟩
  intro b hb hk
  exact h.le b ((mem_versions key l _ b).mpr ⟨hb, hk⟩)

/-- A top version that comes first of its identity wins. -/
theorem winner_of_first (before after : List α) (a : α) (hfirst : ∀ b ∈ before, key b ≠ key a)
    (htop : Top key rank (before ++ a :: after) a) :
    a ∈ mergeBy key beats (before ++ a :: after) := by
  rw [mem_mergeBy hbeats]
  have hnone : versions key before (key a) = [] := by
    rw [versions, List.filter_eq_nil_iff]
    intro b hb
    simpa using hfirst b hb
  refine ⟨[], versions key after (key a), ?_, by simp, ?_⟩
  · rw [versions, List.filter_append, ← versions, hnone]
    simp [versions]
  · intro b hb
    obtain ⟨hb, hk⟩ := (mem_versions key after _ b).mp hb
    exact htop.2 b (by simp [hb]) hk

theorem mem_mergeBy_of_agree (l : List α) (h : Agree key rank l) (a : α) :
    a ∈ mergeBy key beats l ↔ Top key rank l a := by
  refine ⟨top_of_winner hbeats l a, ?_⟩
  intro ha
  obtain ⟨w, hk, hw⟩ := exists_winner key rank l a ha.1
  rw [← mem_mergeBy hbeats] at hw
  rwa [h a w ha (top_of_winner hbeats l w hw) hk.symm]

theorem mergeBy_eq_of_agree {l l' : List α} (h : Agree key rank l) (hp : l'.Perm l) :
    mergeBy key beats l' = mergeBy key beats l := by
  have h' : Agree key rank l' := fun a b ha hb => h a b (ha.of_perm hp.symm) (hb.of_perm hp.symm)
  have hsorted : ∀ l, StrictlySorted key (mergeBy key beats l) := mergeBy_strictlySorted hbeats
  refine StrictlySorted.ext key (hsorted l') (hsorted l) fun a => ?_
  rw [mem_mergeBy_of_agree hbeats l' h', mem_mergeBy_of_agree hbeats l h]
  exact ⟨Top.of_perm hp.symm, Top.of_perm hp⟩

/-- The merge of several lists, each without a repeated identity, does not depend on their order
exactly if the top versions agree. -/
theorem mergeBy_flatMap_perm_iff {β : Type} (f : β → List α) (bs : List β)
    (hnodup : ∀ b ∈ bs, ((f b).map key).Nodup) :
    (∀ bs' : List β, bs'.Perm bs →
      mergeBy key beats (bs'.flatMap f) = mergeBy key beats (bs.flatMap f)) ↔
      Agree key rank (bs.flatMap f) := by
  constructor
  · intro h a a' ha ha' hk
    -- The list that holds a top version can come first, and then that version wins.
    have hwins : ∀ c, Top key rank (bs.flatMap f) c → c ∈ mergeBy key beats (bs.flatMap f) := by
      intro c hc
      obtain ⟨b, hb, hcb⟩ := List.mem_flatMap.mp hc.1
      obtain ⟨bs1, bs2, rfl⟩ := List.append_of_mem hb
      obtain ⟨before, after, hsplit⟩ := List.append_of_mem hcb
      have hperm : (b :: (bs1 ++ bs2)).Perm (bs1 ++ b :: bs2) := List.perm_middle.symm
      rw [← h _ hperm]
      have hfirst : ∀ x ∈ before, key x ≠ key c := by
        intro x hx hxc
        have hn := hnodup b hb
        rw [hsplit, List.map_append, List.map_cons, List.nodup_append] at hn
        exact hn.2.2 (key x) (List.mem_map_of_mem hx) (key c) List.mem_cons_self hxc
      have htop := hc.of_perm (hperm.flatMap_right f)
      rw [List.flatMap_cons, hsplit, List.append_assoc, List.cons_append] at htop ⊢
      exact winner_of_first hbeats before _ c hfirst htop
    have hsorted : StrictlySorted key (mergeBy key beats (bs.flatMap f)) :=
      mergeBy_strictlySorted hbeats _
    exact hsorted.key_inj key (hwins a ha) (hwins a' ha') hk
  · intro h bs' hp
    exact mergeBy_eq_of_agree hbeats h (hp.flatMap_right f)

theorem mergeBy_perm_iff (l : List α) :
    (∀ l', l'.Perm l → mergeBy key beats l' = mergeBy key beats l) ↔ Agree key rank l := by
  have hsingle : _ ↔ Agree key rank (l.flatMap fun a => [a]) :=
    mergeBy_flatMap_perm_iff hbeats (fun a => [a]) l (by simp)
  simpa only [List.flatMap_singleton'] using hsingle

end Merge

end Lib
