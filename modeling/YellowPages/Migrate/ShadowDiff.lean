import YellowPages.Lib.Keyed
import YellowPages.Lib.Strings
import YellowPages.Model

/-!
# The shadow-diff of a migration

`internal/migrate/shadowdiff.go`: two catalogs are compared before one of them takes over. Each entry is
reduced to one text, its key, and the keys are compared.
-/

namespace YellowPages.Migrate

open Lib

structure ShadowEntry where
  node : String := ""
  serviceID : String := ""
  address : String := ""
  port : Int := 0
  tags : List String := []
  /-- Passing, warning or critical. -/
  status : String := ""
  deriving DecidableEq

def ShadowEntry.key (e : ShadowEntry) : String :=
  let tags := sortBy id e.tags
  joinWith '\x1f' [e.node, e.serviceID, e.address, formatInt e.port, joinWith ',' tags, e.status]

/-- The symmetric difference of two catalogs. -/
structure Diff where
  onlyLeft : List ShadowEntry
  onlyRight : List ShadowEntry

def Diff.empty (d : Diff) : Bool := d.onlyLeft.length == 0 && d.onlyRight.length == 0

def index (entries : List ShadowEntry) : Map ShadowEntry := fileBy ShadowEntry.key entries

/-- The two loops go over maps, in any order. -/
def shadowDiff (leftOrder rightOrder : RangeOrder String) (left right : List ShadowEntry) : Diff :=
  let l := index left
  let r := index right
  { onlyLeft := onlyIn leftOrder l r
    onlyRight := onlyIn rightOrder r l }

/-! ## What the diff is of -/

/-- One instance in both catalogs: the tags may be in another order. -/
def Same (e e' : ShadowEntry) : Prop :=
  e.node = e'.node ∧ e.serviceID = e'.serviceID ∧ e.address = e'.address ∧ e.port = e'.port ∧
    e.status = e'.status ∧ e.tags.Perm e'.tags

instance (e e' : ShadowEntry) : Decidable (Same e e') := inferInstanceAs (Decidable (_ ∧ _))

theorem same_equivalence : Equivalence Same where
  refl _ := ⟨rfl, rfl, rfl, rfl, rfl, .refl _⟩
  symm := fun ⟨hnode, hid, haddress, hport, hstatus, htags⟩ =>
    ⟨hnode.symm, hid.symm, haddress.symm, hport.symm, hstatus.symm, htags.symm⟩
  trans := fun ⟨hnode, hid, haddress, hport, hstatus, htags⟩ ⟨hnode', hid', haddress', hport',
    hstatus', htags'⟩ =>
    ⟨hnode.trans hnode', hid.trans hid', haddress.trans haddress', hport.trans hport',
      hstatus.trans hstatus',
      htags.trans htags'⟩

theorem key_eq_of_same {e e' : ShadowEntry} (h : Same e e') : e.key = e'.key := by
  obtain ⟨hnode, hid, haddress, hport, hstatus, htags⟩ := h
  rw [ShadowEntry.key, ShadowEntry.key, hnode, hid, haddress, hport, hstatus,
    sortBy_id_eq_iff.mpr htags]

/-- The diff is empty for catalogs of the same instances, and lists those that one of them lacks. -/
structure Exact (left right : List ShadowEntry) (d : Diff) : Prop where
  empty_iff : d.empty = true ↔ ∀ e, (∃ l ∈ left, Same l e) ↔ ∃ r ∈ right, Same r e
  onlyLeft : Reports Same left right d.onlyLeft
  onlyRight : Reports Same right left d.onlyRight

theorem exact_of_reports {left right : List ShadowEntry} {d : Diff}
    (hleft : Reports Same left right d.onlyLeft) (hright : Reports Same right left d.onlyRight) :
    Exact left right d where
  empty_iff := by
    rw [Diff.empty, Bool.and_eq_true, beq_iff_eq, beq_iff_eq, List.length_eq_zero_iff,
      List.length_eq_zero_iff,
      hleft.eq_nil_iff same_equivalence, hright.eq_nil_iff same_equivalence, ← forall_and]
    exact forall_congr' fun e => iff_iff_implies_and_implies.symm
  onlyLeft := hleft
  onlyRight := hright

theorem reports_shadowDiff {order : RangeOrder String} {l r : List ShadowEntry} :
    Reports Same l r (onlyIn order (index l) (index r)) ↔ ToldApart Same ShadowEntry.key l r :=
  reports_onlyIn_iff same_equivalence key_eq_of_same

/-- The diff is exact where the entries that only one catalog has are told apart by their keys. -/
theorem shadowDiff_exact_iff (leftOrder rightOrder : RangeOrder String)
    (left right : List ShadowEntry) :
    Exact left right (shadowDiff leftOrder rightOrder left right) ↔
      ToldApart Same ShadowEntry.key left right ∧ ToldApart Same ShadowEntry.key right left := by
  constructor
  · intro h
    exact ⟨reports_shadowDiff.mp h.onlyLeft, reports_shadowDiff.mp h.onlyRight⟩
  · rintro ⟨hleft, hright⟩
    exact exact_of_reports (reports_shadowDiff.mpr hleft) (reports_shadowDiff.mpr hright)

def web (tags : List String) : ShadowEntry :=
  { node := "n1", serviceID := "web", address := "10.0.0.5", port := 80, tags, status := "passing" }

/-- A tag with a comma in it has the key of two tags, and the diff is empty. -/
theorem shadowDiff_comma :
    (shadowDiff .asStored .asStored [web ["a,b"]] [web ["a", "b"]]).empty = true ∧
      ¬Same (web ["a,b"]) (web ["a", "b"]) ∧
      ¬Exact [web ["a,b"]] [web ["a", "b"]]
        (shadowDiff .asStored .asStored [web ["a,b"]] [web ["a", "b"]]) := by
  have hempty : (shadowDiff .asStored .asStored [web ["a,b"]] [web ["a", "b"]]).empty = true := by
    decide +kernel
  have hother : ¬Same (web ["a,b"]) (web ["a", "b"]) := by decide
  refine ⟨hempty, hother, ?_⟩
  intro hexact
  obtain ⟨r, hr, hsame⟩ :=
    (hexact.empty_iff.mp hempty (web ["a,b"])).mp ⟨_, by simp, same_equivalence.refl _⟩
  obtain rfl := List.mem_singleton.mp hr
  exact hother (same_equivalence.symm hsame)

/-! ## Keys that tell entries apart -/

/-- No separator in any text, no comma in a tag, and not a single empty tag, which is joined like
none. -/
structure Plain (e : ShadowEntry) : Prop where
  unseparated : ∀ f ∈ e.node :: e.serviceID :: e.address :: e.status :: e.tags, '\x1f' ∉ f.toList
  uncut : ∀ t ∈ e.tags, ',' ∉ t.toList
  tagged : e.tags ≠ [""]

namespace Plain

variable {e e' : ShadowEntry}

theorem joined_unseparated (h : Plain e) : '\x1f' ∉ (joinWith ',' (sortBy id e.tags)).toList := by
  intro hmem
  rcases mem_joinWith hmem with hcomma | ⟨t, ht, hc⟩
  · exact absurd hcomma (by decide)
  · refine h.unseparated t ?_ hc
    simp [(mem_sortBy id e.tags t).mp ht]

theorem fields_unseparated (h : Plain e) :
    ∀ f ∈ [e.node, e.serviceID, e.address, formatInt e.port, joinWith ',' (sortBy id e.tags),
      e.status],
      '\x1f' ∉ f.toList := by
  have hport : '\x1f' ∉ (formatInt e.port).toList := by
    intro hmem
    rcases mem_formatInt hmem with hc | hc
    · exact absurd hc (by decide)
    · exact absurd hc (by decide)
  have hfields := h.unseparated
  simp only [List.forall_mem_cons] at hfields ⊢
  exact ⟨hfields.1, hfields.2.1, hfields.2.2.1, hport, h.joined_unseparated,
    hfields.2.2.2.1, by simp⟩

theorem sorted_uncut (h : Plain e) : ∀ t ∈ sortBy id e.tags, ',' ∉ t.toList := fun t ht =>
  h.uncut t ((mem_sortBy id e.tags t).mp ht)

theorem sorted_ne_nil (hne : e.tags ≠ []) : sortBy id e.tags ≠ [] := fun hnil =>
  hne (List.nil_perm.mp (hnil ▸ sortBy_perm id e.tags))

theorem joined_ne_empty (h : Plain e) (hne : e.tags ≠ []) :
    joinWith ',' (sortBy id e.tags) ≠ "" := by
  intro hempty
  have hone : sortBy id e.tags = [""] :=
    joinWith_inj (sorted_ne_nil hne) (by simp) h.sorted_uncut (by simp) hempty
  have hperm := sortBy_perm id e.tags
  rw [hone, List.singleton_perm] at hperm
  exact h.tagged hperm.symm

theorem tags_perm (h : Plain e) (h' : Plain e')
    (hjoin : joinWith ',' (sortBy id e.tags) = joinWith ',' (sortBy id e'.tags)) :
    e.tags.Perm e'.tags := by
  by_cases hnil : e.tags = []
  · by_cases hnil' : e'.tags = []
    · rw [hnil, hnil']
    · rw [hnil] at hjoin
      exact absurd hjoin.symm (h'.joined_ne_empty hnil')
  · by_cases hnil' : e'.tags = []
    · rw [hnil'] at hjoin
      exact absurd hjoin (h.joined_ne_empty hnil)
    · exact sortBy_id_eq_iff.mp
        (joinWith_inj (sorted_ne_nil hnil) (sorted_ne_nil hnil') h.sorted_uncut h'.sorted_uncut hjoin)

/-- Plain entries with the same key are the same instance. -/
theorem same_of_key_eq (h : Plain e) (h' : Plain e') (hkey : e.key = e'.key) : Same e e' := by
  have hfields := joinWith_inj (by simp) (by simp) h.fields_unseparated h'.fields_unseparated hkey
  simp only [List.cons.injEq, and_true] at hfields
  obtain ⟨hnode, hid, haddress, hport, htags, hstatus⟩ := hfields
  exact ⟨hnode, hid, haddress, formatInt_injective hport, hstatus, h.tags_perm h' htags⟩

end Plain

theorem toldApart_of_plain {left right : List ShadowEntry} (h : ∀ e ∈ left ++ right, Plain e) :
    ToldApart Same ShadowEntry.key left right := by
  intro a ha _ c hc hkey
  exact (h c hc).same_of_key_eq (h a (List.mem_append_left _ ha)) hkey

/-- Catalogs of plain entries are compared exactly. -/
theorem exact_of_plain (leftOrder rightOrder : RangeOrder String) {left right : List ShadowEntry}
    (h : ∀ e ∈ left ++ right, Plain e) :
    Exact left right (shadowDiff leftOrder rightOrder left right) := by
  have h' : ∀ e ∈ right ++ left, Plain e := fun e he => h e (List.perm_append_comm.mem_iff.mp he)
  exact exact_of_reports (reports_shadowDiff.mpr (toldApart_of_plain h))
    (reports_shadowDiff.mpr (toldApart_of_plain h'))

/-- No instance is listed twice. -/
theorem shadowDiff_distinct (leftOrder rightOrder : RangeOrder String) (left right : List ShadowEntry) :
    (shadowDiff leftOrder rightOrder left right).onlyLeft.Pairwise (fun e e' => ¬Same e e') ∧
      (shadowDiff leftOrder rightOrder left right).onlyRight.Pairwise (fun e e' => ¬Same e e') := by
  exact ⟨pairwise_onlyIn.imp fun hne hsame => hne (key_eq_of_same hsame),
    pairwise_onlyIn.imp fun hne hsame => hne (key_eq_of_same hsame)⟩

end YellowPages.Migrate
