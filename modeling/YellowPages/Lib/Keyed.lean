import YellowPages.Lib.Ordered

/-!
# Lists filed and compared by a key

The elements of a list are filed under a key, the last one of each key. Two lists are compared by the
keys they have, which tells as much about their elements as the keys do.
-/

namespace Lib

/-! ## Filing -/

section Filing

variable {α κ V : Type} [Ord κ] [Std.TransOrd κ] [Std.LawfulEqOrd κ]

/-- A key has the value of the last element with it, or what it had before. -/
theorem getElem?_foldl_insert [DecidableEq κ] (key : α → κ) (value : α → V) (l : List α)
    (m : Std.ExtTreeMap κ V) (k : κ) :
    (l.foldl (fun m a => m.insert (key a) (value a)) m)[k]? =
      ((l.filter (key · = k)).getLast?.map value).or m[k]? := by
  induction l using List.reverseRecOn with
  | nil => rfl
  | append_singleton l a ih =>
    rw [List.foldl_append, List.foldl_cons, List.foldl_nil, Std.ExtTreeMap.getElem?_insert, ih,
      List.filter_append]
    by_cases ha : key a = k <;> simp [ha]

theorem foldl_insert_cases (key : α → κ) (value : α → V) {l : List α} {m : Std.ExtTreeMap κ V}
    {k : κ} {v : V} (h : (l.foldl (fun m a => m.insert (key a) (value a)) m)[k]? = some v) :
    (∃ a ∈ l, key a = k ∧ v = value a) ∨ (∀ a ∈ l, key a ≠ k) ∧ m[k]? = some v := by
  classical
  rw [getElem?_foldl_insert] at h
  cases hlast : (l.filter (key · = k)).getLast? with
  | none =>
    rw [hlast] at h
    rw [List.getLast?_eq_none_iff, List.filter_eq_nil_iff] at hlast
    exact Or.inr ⟨fun a ha => by simpa using hlast a ha, h⟩
  | some a =>
    rw [hlast] at h
    obtain ⟨hmem, hk⟩ := List.mem_filter.mp (List.mem_of_getLast? hlast)
    exact Or.inl ⟨a, hmem, of_decide_eq_true hk, (Option.some.inj h).symm⟩

end Filing

section Keyed

variable {α κ : Type} [Ord κ] [Std.TransOrd κ]

def fileBy (key : α → κ) (l : List α) : Std.ExtTreeMap κ α :=
  l.foldl (fun m a => m.insert (key a) a) ∅

variable [Std.LawfulEqOrd κ] {key : α → κ} {l : List α}

theorem mem_of_fileBy {k : κ} {a : α} (h : (fileBy key l)[k]? = some a) : a ∈ l ∧ key a = k := by
  rcases foldl_insert_cases key id h with ⟨b, hb, hk, rfl⟩ | ⟨-, hempty⟩
  · exact ⟨hb, hk⟩
  · simp at hempty

theorem exists_fileBy {a : α} (h : a ∈ l) : ∃ b, (fileBy key l)[key a]? = some b := by
  classical
  have hmem : a ∈ l.filter (key · = key a) := List.mem_filter.mpr ⟨h, by simp⟩
  have hlast := List.getLast?_eq_some_getLast (List.ne_nil_of_mem hmem)
  exact ⟨_, (getElem?_foldl_insert key id l ∅ (key a)).trans (by rw [hlast]; rfl)⟩

theorem mem_fileBy_iff {k : κ} : k ∈ fileBy key l ↔ ∃ a ∈ l, key a = k := by
  rw [Std.ExtTreeMap.mem_iff_isSome_getElem?, Option.isSome_iff_exists]
  constructor
  · rintro ⟨a, ha⟩
    exact ⟨a, mem_of_fileBy ha⟩
  · rintro ⟨a, ha, rfl⟩
    exact exists_fileBy ha

/-! ## Comparing -/

/-- What is filed in `m` under keys that `m'` does not have. -/
def onlyIn (order : RangeOrder κ) (m m' : Std.ExtTreeMap κ α) : List α :=
  (order.visit m.keys).filterMap fun k => if k ∈ m' then none else m[k]?

variable {order : RangeOrder κ} {l' : List α}

theorem mem_onlyIn_iff {a : α} :
    a ∈ onlyIn order (fileBy key l) (fileBy key l') ↔
      (fileBy key l)[key a]? = some a ∧ ∀ b ∈ l', key b ≠ key a := by
  rw [onlyIn, List.mem_filterMap]
  constructor
  · rintro ⟨k, -, hk⟩
    obtain ⟨hmissing, hfiled⟩ := Option.ite_none_left_eq_some.mp hk
    obtain ⟨-, rfl⟩ := mem_of_fileBy hfiled
    exact ⟨hfiled, fun b hb hsame => hmissing (mem_fileBy_iff.mpr ⟨b, hb, hsame⟩)⟩
  · rintro ⟨hfiled, hother⟩
    refine ⟨key a, ?_, ?_⟩
    · rw [RangeOrder.mem_visit, Std.ExtTreeMap.mem_keys, mem_fileBy_iff]
      exact ⟨a, (mem_of_fileBy hfiled).1, rfl⟩
    · rw [if_neg, hfiled]
      intro hmem
      obtain ⟨b, hb, hsame⟩ := mem_fileBy_iff.mp hmem
      exact hother b hb hsame

theorem pairwise_onlyIn : (onlyIn order (fileBy key l) (fileBy key l')).Pairwise fun a b => key a ≠
    key b := by
  have hkeys : (order.visit (fileBy key l).keys).Nodup := order.nodup_visit _ Std.ExtTreeMap.nodup_keys
  refine List.Pairwise.filterMap _ ?_ hkeys
  intro k k' hne a ha b hb hsame
  have hk := mem_of_fileBy (Option.ite_none_left_eq_some.mp ha).2
  have hk' := mem_of_fileBy (Option.ite_none_left_eq_some.mp hb).2
  exact hne (hk.2.symm.trans (hsame.trans hk'.2))

/-! ## Elements that count as the same -/

variable {same : α → α → Prop}

/-- `out` has an element of every class that is in `l` and not in `l'`, and of no other. -/
def Reports (same : α → α → Prop) (l l' out : List α) : Prop :=
  ∀ a, (∃ x ∈ out, same x a) ↔ (∃ b ∈ l, same b a) ∧ ¬∃ b ∈ l', same b a

/-- A class that is only in `l` has a key of its own. -/
def ToldApart (same : α → α → Prop) (key : α → κ) (l l' : List α) : Prop :=
  ∀ a ∈ l, (∀ b ∈ l', ¬same b a) → ∀ c ∈ l ++ l', key c = key a → same c a

theorem reports_onlyIn_iff (hequiv : Equivalence same) (hkey : ∀ {a b}, same a b → key a = key b) :
    Reports same l l' (onlyIn order (fileBy key l) (fileBy key l')) ↔ ToldApart same key l l' := by
  constructor
  · intro hreports a ha hmissing c hc hsame
    obtain ⟨x, hx, hxa⟩ :=
      (hreports a).mpr ⟨⟨a, ha, hequiv.refl a⟩, fun ⟨b, hb, hba⟩ => hmissing b hb hba⟩
    obtain ⟨hfiled, hother⟩ := mem_onlyIn_iff.mp hx
    have hcx : key c = key x := hsame.trans (hkey hxa).symm
    rcases List.mem_append.mp hc with hc | hc
    · -- the class of `c` is reported too, by the only element with this key
      obtain ⟨y, hy, hyc⟩ := (hreports c).mpr
        ⟨⟨c, hc, hequiv.refl c⟩, fun ⟨b, hb, hbc⟩ => hother b hb ((hkey hbc).trans hcx)⟩
      have hyx : key y = key x := (hkey hyc).trans hcx
      have hfiled' := (mem_onlyIn_iff.mp hy).1
      rw [hyx, hfiled] at hfiled'
      obtain rfl := Option.some.inj hfiled'
      exact hequiv.trans (hequiv.symm hyc) hxa
    · exact absurd hcx (hother c hc)
  · intro htold a
    constructor
    · rintro ⟨x, hx, hxa⟩
      obtain ⟨hfiled, hother⟩ := mem_onlyIn_iff.mp hx
      refine ⟨⟨x, (mem_of_fileBy hfiled).1, hxa⟩, ?_⟩
      rintro ⟨b, hb, hba⟩
      exact hother b hb ((hkey hba).trans (hkey hxa).symm)
    · rintro ⟨⟨b, hb, hba⟩, hmissing⟩
      have hmissing' : ∀ c ∈ l', ¬same c b := fun c hc hcb => hmissing ⟨c, hc, hequiv.trans hcb hba⟩
      obtain ⟨x, hfiled⟩ : ∃ x, (fileBy key l)[key b]? = some x := exists_fileBy hb
      obtain ⟨hx, hxb⟩ := mem_of_fileBy hfiled
      have hsame := htold b hb hmissing' x (List.mem_append_left _ hx) hxb
      refine ⟨x, mem_onlyIn_iff.mpr ⟨hxb ▸ hfiled, ?_⟩, hequiv.trans hsame hba⟩
      intro c hc hcx
      exact hmissing' c hc (htold b hb hmissing' c (List.mem_append_right _ hc) (hcx.trans hxb))

theorem Reports.eq_nil_iff (hequiv : Equivalence same) {out : List α} (h : Reports same l l' out) :
    out = [] ↔ ∀ a, (∃ b ∈ l, same b a) → ∃ b ∈ l', same b a := by
  constructor
  · rintro rfl a ha
    by_contra hmissing
    obtain ⟨x, hx, -⟩ := (h a).mpr ⟨ha, hmissing⟩
    cases hx
  · intro hall
    rw [List.eq_nil_iff_forall_not_mem]
    intro x hx
    obtain ⟨hl, hmissing⟩ := (h x).mp ⟨x, hx, hequiv.refl x⟩
    exact hmissing (hall x hl)

end Keyed

/-! ## One of each key -/

section Distinct

variable {α κ : Type} [DecidableEq κ] (key : α → κ)

/-- Appends the elements one after the other, each unless its key is there. -/
def addAll (out l : List α) : List α :=
  l.foldl (fun out a => if key a ∈ out.map key then out else out ++ [a]) out

theorem mem_keys_addAll (out l : List α) (k : κ) :
    k ∈ (addAll key out l).map key ↔ k ∈ out.map key ∨ k ∈ l.map key := by
  unfold addAll
  induction l generalizing out with
  | nil => simp
  | cons a rest ih =>
    rw [List.foldl_cons, ih, List.map_cons, List.mem_cons]
    split
    · rename_i ha
      constructor
      · exact Or.imp_right Or.inr
      · rintro (hk | rfl | hk)
        · exact Or.inl hk
        · exact Or.inl ha
        · exact Or.inr hk
    · rw [List.map_append, List.mem_append, List.map_singleton, List.mem_singleton, or_assoc]

theorem nodup_addAll {out : List α} (h : (out.map key).Nodup) (l : List α) :
    ((addAll key out l).map key).Nodup := by
  unfold addAll
  induction l generalizing out with
  | nil => exact h
  | cons a rest ih =>
    rw [List.foldl_cons]
    split
    · exact ih h
    · rename_i ha
      apply ih
      rw [List.map_append, List.map_singleton]
      refine List.nodup_append.mpr ⟨h, List.nodup_singleton _, ?_⟩
      rintro k hk k' hk' rfl
      exact ha (List.mem_singleton.mp hk' ▸ hk)

theorem mem_of_mem_addAll {out l : List α} {a : α} (h : a ∈ addAll key out l) :
    a ∈ out ∨ a ∈ l := by
  unfold addAll at h
  induction l generalizing out with
  | nil => exact Or.inl h
  | cons b rest ih =>
    rw [List.foldl_cons] at h
    rcases ih h with hout | hrest
    · split at hout
      · exact Or.inl hout
      · rcases List.mem_append.mp hout with hold | hnew
        · exact Or.inl hold
        · obtain rfl := List.mem_singleton.mp hnew
          exact Or.inr List.mem_cons_self
    · exact Or.inr (List.mem_cons_of_mem b hrest)

end Distinct

end Lib
