import YellowPages.Consuldns.Zones

/-!
# The documented forms of a name

The comment on `parseName` lists the names the DNS interface is for: services, with a tag or in the
notation of RFC 2782, and nodes, each with a datacenter before the zone or without. Here they are a
type of their own, and `parseName` is compared with it in both directions.
-/

namespace YellowPages.Consuldns

open Lib Consul

/-! ## Forms -/

/-- What stands between the keyword and the zone: nothing, `<dc>.dc`, or the older `<dc>`. -/
inductive DcSuffix where
  | none
  | canonical (dc : String)
  | legacy (dc : String)
  deriving DecidableEq, Repr

namespace DcSuffix

def labels : DcSuffix → List String
  | none => []
  | canonical dc => [dc, "dc"]
  | legacy dc => [dc]

def components : DcSuffix → List String
  | none => []
  | canonical dc => [dc]
  | legacy dc => [dc]

def datacenter : DcSuffix → String
  | none => ""
  | canonical dc => dc
  | legacy dc => dc

@[simp] theorem dcFromRest_labels (d : DcSuffix) : dcFromRest d.labels = d.datacenter := by
  cases d <;> rfl

end DcSuffix

/-- The documented forms. Without the keyword `service`, the notation of RFC 2782 has the datacenter
as `<dc>.dc` only. -/
inductive Form where
  | service (svc : String) (suffix : DcSuffix)
  | tagged (tag svc : String) (suffix : DcSuffix)
  | rfc2782 (svc tag : String) (suffix : DcSuffix)
  | rfc2782Short (svc tag : String) (dc : Option String)
  | node (name : String) (suffix : DcSuffix)
  deriving DecidableEq, Repr

namespace Form

def labels : Form → List String
  | service svc d => svc :: "service" :: d.labels
  | tagged tag svc d => tag :: svc :: "service" :: d.labels
  | rfc2782 svc tag d => ("_" ++ svc) :: ("_" ++ tag) :: "service" :: d.labels
  | rfc2782Short svc tag dc => ("_" ++ svc) :: ("_" ++ tag) :: (dc.elim [] fun dc => [dc, "dc"])
  | node name d => name :: "node" :: d.labels

def components : Form → List String
  | service svc d => svc :: d.components
  | tagged tag svc d => tag :: svc :: d.components
  | rfc2782 svc tag d => svc :: tag :: d.components
  | rfc2782Short svc tag dc => svc :: tag :: dc.toList
  | node name d => name :: d.components

/-- What a name of this form asks for. -/
def query : Form → ParsedQuery
  | service svc d => { kind := .service, service := svc, datacenter := d.datacenter }
  | tagged tag svc d => { kind := .service, service := svc, tag := tag, datacenter := d.datacenter }
  | rfc2782 svc tag d => { kind := .service, service := svc, tag := tag, datacenter := d.datacenter }
  | rfc2782Short svc tag dc =>
    { kind := .service, service := svc, tag := tag, datacenter := dc.getD "" }
  | node name d => { kind := .node, node := name, datacenter := d.datacenter }

/-- The service and the tag of the forms outside RFC 2782, where an underscore has no meaning. -/
def plain : Form → List String
  | service svc _ => [svc]
  | tagged tag svc _ => [tag, svc]
  | _ => []

end Form

def IsLabel (l : String) : Prop := l ≠ "" ∧ '.' ∉ l.toList

instance (l : String) : Decidable (IsLabel l) := by unfold IsLabel; infer_instance

/-- Every component of the form is a label. -/
def Form.Complete (f : Form) : Prop := ∀ c ∈ f.components, IsLabel c

instance (f : Form) : Decidable f.Complete := by unfold Form.Complete; infer_instance

structure Form.WellFormed (u : Unicode) (f : Form) : Prop where
  complete : f.Complete
  lower : ∀ c ∈ f.components, u.toLower c = c
  plain : ∀ c ∈ f.plain, underscored c = false

/-- The labels at which `parseName` stops reading. -/
def reserved : List String := "service" :: "node" :: meshLabels

/-- No component stands where `parseName` takes it for a keyword. -/
def Form.Unreserved : Form → Prop
  | .service svc _ => svc ∉ reserved
  | .tagged tag svc _ => tag ∉ reserved ∧ svc ∉ reserved
  | .rfc2782 _ _ _ => True
  | .rfc2782Short _ _ dc => dc ≠ some "service"
  | .node name _ => name ∉ reserved

instance (f : Form) : Decidable f.Unreserved := by cases f <;> unfold Form.Unreserved <;> infer_instance

/-! ## From a name to its labels -/

/-- `name` is `labels` under `domain`, in any letter case and with or without the dot at the end. -/
def Spells (u : Unicode) (name : String) (labels : List String) (domain : String) : Prop :=
  u.toLower (trimSuffix name ".") = stem labels ++ u.toLower (trimSuffix domain ".")

instance (u : Unicode) (name : String) (labels : List String) (domain : String) :
    Decidable (Spells u name labels domain) := by unfold Spells; infer_instance

def Dotless (labels : List String) : Prop := ∀ l ∈ labels, '.' ∉ l.toList

theorem stem_eq_joinWith {labels : List String} (hne : labels ≠ []) :
    stem labels = joinWith '.' labels ++ "." := by
  induction labels with
  | nil => exact absurd rfl hne
  | cons l rest ih =>
    cases rest with
    | nil => simp [stem, joinWith]
    | cons l' rest =>
      rw [stem, ih (List.cons_ne_nil l' rest)]
      apply String.toList_inj.mp
      simp [joinWith, List.intercalate]

theorem splitOn_stem {labels : List String} (hne : labels ≠ []) (hdot : Dotless labels) :
    splitOn (trimSuffix (stem labels) ".") '.' = labels := by
  rw [stem_eq_joinWith hne, trimSuffix_append, splitOn_joinWith hne hdot]

/-- Labels are read off the name they spell. -/
theorem stem_inj {labels labels' : List String} (hne : labels ≠ []) (hne' : labels' ≠ [])
    (hdot : Dotless labels) (hdot' : Dotless labels') (h : stem labels = stem labels') :
    labels = labels' := by
  rw [← splitOn_stem hne hdot, h, splitOn_stem hne' hdot']

section Spelling

variable {u : Unicode} {name domain : String} {labels : List String}

theorem parseName_of_spells (hname : Spells u name labels domain) (hne : labels ≠ [])
    (hdot : Dotless labels) :
    parseName u name domain = parseLabels labels := by
  have hsuffix :
      hasSuffix (u.toLower (trimSuffix name ".")) ("." ++ u.toLower (trimSuffix domain ".")) =
        true := by
    rw [hname, stem_eq_joinWith hne, String.append_assoc]
    exact hasSuffix_append _ _
  unfold parseName
  rw [if_neg (by simp [hsuffix]), hname, trimSuffix_append]
  by_cases hblank : trimSuffix (stem labels) "." = ""
  · -- Only the blank label spells nothing before its dot.
    have hlabels := splitOn_stem hne hdot
    rw [hblank] at hlabels
    rw [if_pos hblank, ← hlabels]
    rfl
  · rw [if_neg hblank, splitOn_stem hne hdot]

theorem Spells.unique {labels' : List String} (h : Spells u name labels domain)
    (h' : Spells u name labels' domain) (hne : labels ≠ []) (hne' : labels' ≠ [])
    (hdot : Dotless labels) (hdot' : Dotless labels') :
    labels = labels' := by
  apply stem_inj hne hne' hdot hdot'
  exact (String.append_left_inj _).mp (Eq.trans (Eq.symm h) h')

/-- Whatever is understood has labels before the zone. -/
theorem exists_spells (h : (parseName u name domain).kind ≠ .unknown) :
    ∃ labels, labels ≠ [] ∧ Dotless labels ∧ Spells u name labels domain := by
  have hdomain : u.toLower (trimSuffix name ".") ≠ u.toLower (trimSuffix domain ".") := by
    intro heq
    apply h
    have hblank : trimSuffix "" "." = "" := rfl
    rw [parseName, heq, if_neg (by simp), trimSuffix_self, if_pos hblank]
  have hsuffix :
      hasSuffix (u.toLower (trimSuffix name ".")) ("." ++ u.toLower (trimSuffix domain ".")) =
        true := by
    by_contra hnot
    apply h
    rw [parseName, if_pos ⟨hdomain, by simpa using hnot⟩]
  obtain ⟨start, hstart⟩ := (hasSuffix_iff _ _).mp hsuffix
  refine ⟨splitOn start '.', splitOn_ne_nil start '.', fun l hl => sep_notMem_of_mem_splitOn hl, ?_⟩
  rw [Spells, hstart, stem_eq_joinWith (splitOn_ne_nil start '.'), joinWith_splitOn,
    String.append_assoc]

end Spelling

/-! ## From the labels to a query -/

theorem trimPrefix_append (start s : String) : trimPrefix (start ++ s) start = s := by
  have hstart : start.toList.isPrefixOf (start ++ s).toList = true := by
    rw [List.isPrefixOf_iff_prefix, String.toList_append]
    exact List.prefix_append _ _
  rw [trimPrefix, if_pos hstart, String.toList_append, ← String.length_toList, List.drop_left,
    String.ofList_toList]

theorem underscored_iff (l : String) : underscored l = true ↔ ∃ s, l = "_" ++ s := by
  rw [underscored, decide_eq_true_eq]
  constructor
  · intro hl
    cases hc : l.toList with
    | nil => simp [hc] at hl
    | cons c cs =>
      obtain rfl : c = '_' := by simpa [hc] using hl
      refine ⟨String.ofList cs, String.toList_inj.mp ?_⟩
      simp [hc]
  · rintro ⟨s, rfl⟩
    simp

@[simp] theorem underscored_append (s : String) : underscored ("_" ++ s) = true :=
  (underscored_iff _).mpr ⟨s, rfl⟩

theorem parseLabels_pair (svc tag : String) (rest : List String) :
    parseLabels (("_" ++ svc) :: ("_" ++ tag) :: rest) =
      { kind := .service, service := svc, tag := tag,
        datacenter := dcFromRest (if rest.head? = some "service" then rest.tail else rest) } := by
  simp [parseLabels, trimPrefix_append]

theorem parseLabels_scan {l₀ l₁ : String} (rest : List String)
    (h : ¬(underscored l₀ = true ∧ underscored l₁ = true)) :
    parseLabels (l₀ :: l₁ :: rest) = scanLabels [] (l₀ :: l₁ :: rest) := by
  rw [parseLabels, if_neg (by simpa using h)]

theorem mem_reserved {l : String} : l ∈ reserved ↔ l = "service" ∨ l = "node" ∨ l ∈ meshLabels := by
  simp [reserved]

theorem scanLabels_service (before rest : List String) :
    scanLabels before ("service" :: rest) = parseServicePrefix before (dcFromRest rest) := by
  rw [scanLabels, if_pos rfl]

theorem scanLabels_node {before : List String} (hne : before ≠ []) (rest : List String) :
    scanLabels before ("node" :: rest) =
      { kind := .node, node := joinWith '.' before, datacenter := dcFromRest rest } := by
  rw [scanLabels, if_neg (by decide), if_pos rfl, if_neg hne]

theorem scanLabels_mesh {l : String} (hl : l ∈ meshLabels) (before rest : List String) :
    scanLabels before (l :: rest) = {} := by
  have hservice : l ≠ "service" := by rintro rfl; revert hl; decide
  have hnode : l ≠ "node" := by rintro rfl; revert hl; decide
  rw [scanLabels, if_neg hservice, if_neg hnode, if_pos hl]

theorem scanLabels_pass {l : String} (hl : l ∉ reserved) (before rest : List String) :
    scanLabels before (l :: rest) = scanLabels (before ++ [l]) rest := by
  rw [mem_reserved, not_or, not_or] at hl
  rw [scanLabels, if_neg hl.1, if_neg hl.2.1, if_neg hl.2.2]

/-- Nothing is understood if the very first label is a keyword. -/
theorem scanLabels_reserved {l : String} (hl : l ∈ reserved) (rest : List String) :
    scanLabels [] (l :: rest) = {} := by
  rcases mem_reserved.mp hl with rfl | rfl | hmesh
  · rfl
  · rfl
  · exact scanLabels_mesh hmesh [] rest

/-- A single label is nothing. -/
theorem parseLabels_singleton (l : String) : parseLabels [l] = {} := by
  rw [parseLabels]
  · by_cases hl : l ∈ reserved
    · exact scanLabels_reserved hl []
    · rw [scanLabels_pass hl]
      rfl
  · simp

/-! A node question asks for no service and no tag. -/

theorem scanLabels_node_query {seen labels : List String} (h : (scanLabels seen labels).kind = .node) :
    (scanLabels seen labels).service = "" ∧ (scanLabels seen labels).tag = "" := by
  induction labels generalizing seen with
  | nil => exact ⟨rfl, rfl⟩
  | cons l rest ih =>
    by_cases hl : l ∈ reserved
    · rcases mem_reserved.mp hl with rfl | rfl | hmesh
      · rw [scanLabels_service] at h
        unfold parseServicePrefix at h
        split at h <;> simp at h
      · by_cases hseen : seen = []
        · subst hseen
          exact ⟨rfl, rfl⟩
        · rw [scanLabels_node hseen]
          exact ⟨rfl, rfl⟩
      · rw [scanLabels_mesh hmesh]
        exact ⟨rfl, rfl⟩
    · rw [scanLabels_pass hl] at h ⊢
      exact ih h

theorem parseLabels_node_query {labels : List String} (h : (parseLabels labels).kind = .node) :
    (parseLabels labels).service = "" ∧ (parseLabels labels).tag = "" := by
  match labels, h with
  | [], _ => exact ⟨rfl, rfl⟩
  | [_], h => exact scanLabels_node_query h
  | l₀ :: l₁ :: rest, h =>
    by_cases hpair : underscored l₀ = true ∧ underscored l₁ = true
    · rw [parseLabels, if_pos (by simpa using hpair)] at h
      simp at h
    · rw [parseLabels_scan rest hpair] at h ⊢
      exact scanLabels_node_query h

theorem parseName_node_query {u : Unicode} {name domain : String}
    (h : (parseName u name domain).kind = .node) :
    (parseName u name domain).service = "" ∧ (parseName u name domain).tag = "" := by
  have hknown : (parseName u name domain).kind ≠ .unknown := by simp [h]
  obtain ⟨labels, hne, hdot, hname⟩ := exists_spells hknown
  rw [parseName_of_spells hname hne hdot] at h ⊢
  exact parseLabels_node_query h

/-! ## The documented forms are understood -/

theorem DcSuffix.dotless (d : DcSuffix) (h : ∀ c ∈ d.components, IsLabel c) : Dotless d.labels := by
  cases d with
  | none => simp [Dotless, labels]
  | canonical dc => simpa [Dotless, labels, components, IsLabel] using (h dc (by simp [components])).2
  | legacy dc => simpa [Dotless, labels, components, IsLabel] using (h dc (by simp [components])).2

namespace Form

theorem labels_ne_nil (f : Form) : f.labels ≠ [] := by cases f <;> exact List.cons_ne_nil _ _

theorem dotless {f : Form} (h : f.Complete) : Dotless f.labels := by
  unfold Complete at h
  cases f with
  | service svc d =>
    simp only [components, List.forall_mem_cons] at h
    simpa [Dotless, labels, h.1.2] using d.dotless h.2
  | tagged tag svc d =>
    simp only [components, List.forall_mem_cons] at h
    simpa [Dotless, labels, h.1.2, h.2.1.2] using d.dotless h.2.2
  | rfc2782 svc tag d =>
    simp only [components, List.forall_mem_cons] at h
    simpa [Dotless, labels, h.1.2, h.2.1.2] using d.dotless h.2.2
  | rfc2782Short svc tag dc =>
    simp only [components, List.forall_mem_cons] at h
    cases dc with
    | none => simp [Dotless, labels, h.1.2, h.2.1.2]
    | some dc => simp [Dotless, labels, h.1.2, h.2.1.2, (h.2.2 dc (by simp)).2]
  | node name d =>
    simp only [components, List.forall_mem_cons] at h
    simpa [Dotless, labels, h.1.2] using d.dotless h.2

end Form

theorem parseLabels_service_iff {svc : String} (hplain : underscored svc = false) (d : DcSuffix) :
    parseLabels (Form.service svc d).labels = (Form.service svc d).query ↔ svc ∉ reserved := by
  rw [Form.labels, parseLabels_scan _ (by simp [hplain])]
  constructor
  · intro heq hres
    rw [scanLabels_reserved hres] at heq
    exact absurd (congrArg ParsedQuery.kind heq) (by simp [Form.query])
  · intro hres
    rw [scanLabels_pass hres, scanLabels_service, d.dcFromRest_labels]
    rfl

theorem parseLabels_node_iff (name : String) (d : DcSuffix) :
    parseLabels (Form.node name d).labels = (Form.node name d).query ↔ name ∉ reserved := by
  have hnode : underscored "node" = false := rfl
  rw [Form.labels, parseLabels_scan _ (by simp [hnode])]
  constructor
  · intro heq hres
    rw [scanLabels_reserved hres] at heq
    exact absurd (congrArg ParsedQuery.kind heq) (by simp [Form.query])
  · intro hres
    rw [scanLabels_pass hres, scanLabels_node (by simp), d.dcFromRest_labels]
    simp [Form.query, joinWith]

theorem parseLabels_tagged_iff {tag svc : String} (hplain : underscored tag = false) (d : DcSuffix) :
    parseLabels (Form.tagged tag svc d).labels = (Form.tagged tag svc d).query ↔ tag ∉ reserved ∧
      svc ∉ reserved := by
  rw [Form.labels, parseLabels_scan _ (by simp [hplain])]
  by_cases htag : tag ∈ reserved
  · rw [scanLabels_reserved htag]
    simp [Form.query, htag]
  · rw [scanLabels_pass htag, List.nil_append]
    constructor
    · intro heq
      refine ⟨htag, fun hsvc => ?_⟩
      rcases mem_reserved.mp hsvc with rfl | rfl | hmesh
      · -- The tag is taken for the service.
        rw [scanLabels_service] at heq
        have hsame : tag = "service" := by
          simpa [parseServicePrefix, Form.query] using congrArg ParsedQuery.service heq
        exact htag (mem_reserved.mpr (Or.inl hsame))
      · rw [scanLabels_node (by simp)] at heq
        exact absurd (congrArg ParsedQuery.kind heq) (by simp [Form.query])
      · rw [scanLabels_mesh hmesh] at heq
        exact absurd (congrArg ParsedQuery.kind heq) (by simp [Form.query])
    · rintro ⟨-, hsvc⟩
      rw [scanLabels_pass hsvc, scanLabels_service, d.dcFromRest_labels]
      rfl

theorem parseLabels_rfc2782 (svc tag : String) (d : DcSuffix) :
    parseLabels (Form.rfc2782 svc tag d).labels = (Form.rfc2782 svc tag d).query := by
  rw [Form.labels, parseLabels_pair]
  simp [Form.query]

theorem parseLabels_rfc2782Short_iff (svc tag : String) (dc : Option String) :
    parseLabels (Form.rfc2782Short svc tag dc).labels = (Form.rfc2782Short svc tag dc).query ↔
      dc ≠ some "service" := by
  rw [Form.labels, parseLabels_pair]
  cases dc with
  | none => simp [Form.query, dcFromRest]
  | some dc =>
    by_cases hdc : dc = "service"
    · simp [Form.query, hdc, dcFromRest]
    · simp [Form.query, hdc, dcFromRest]

/-- A name of a documented form is understood as what it spells, unless one of its components is
taken for a keyword. -/
theorem parseName_form_iff (u : Unicode) (name domain : String) (f : Form) (hf : f.WellFormed u)
    (hname : Spells u name f.labels domain) : parseName u name domain = f.query ↔ f.Unreserved := by
  rw [parseName_of_spells hname f.labels_ne_nil (f.dotless hf.complete)]
  cases f with
  | service svc d => exact parseLabels_service_iff (hf.plain svc (by simp [Form.plain])) d
  | tagged tag svc d => exact parseLabels_tagged_iff (hf.plain tag (by simp [Form.plain])) d
  | rfc2782 svc tag d => exact iff_of_true (parseLabels_rfc2782 svc tag d) trivial
  | rfc2782Short svc tag dc => exact parseLabels_rfc2782Short_iff svc tag dc
  | node name d => exact parseLabels_node_iff name d

theorem parseName_form_iff_primary :
    parseName .ascii "Primary.DB.service.Dc1.dc.Consul." "consul." =
      { kind := .service, service := "db", tag := "primary", datacenter := "dc1" } :=
  (parseName_form_iff .ascii "Primary.DB.service.Dc1.dc.Consul." "consul."
    (.tagged "primary" "db" (.canonical "dc1")) ⟨by decide +kernel, by decide +kernel,
      by decide +kernel⟩
    (by decide +kernel)).mpr (by decide +kernel)

/-- The service `query` cannot be asked for: its name is taken for the keyword of prepared queries. -/
theorem reserved_service_unknown :
    ¬∀ (u : Unicode) (name domain : String) (f : Form), f.WellFormed u →
      Spells u name f.labels domain →
      parseName u name domain = f.query := by
  intro h
  have hquery := h .ascii "query.service.consul." "consul." (.service "query" .none)
    ⟨by decide +kernel, by decide +kernel, by decide +kernel⟩ (by decide +kernel)
  revert hquery
  decide +kernel

/-! ## What is understood beyond the documented forms -/

/-- The labels after the keyword are one of the documented endings. -/
def Ending (rest : List String) : Prop :=
  ∃ d : DcSuffix, (∀ c ∈ d.components, c ≠ "") ∧ rest = d.labels

/-- In the notation of RFC 2782 both names are there, and an ending follows the keyword. Without
the keyword it is nothing or `<dc>.dc`. -/
def CleanPair (l₀ l₁ : String) (rest : List String) : Prop :=
  l₀ ≠ "_" ∧ l₁ ≠ "_" ∧
    ((∃ rest', rest = "service" :: rest' ∧ Ending rest') ∨ rest = [] ∨ ∃ dc, dc ≠ "" ∧
      rest = [dc, "dc"])

/-- At the first keyword: `service` with one or two labels before it, or `node` with one, none of
them blank, and an ending after it. -/
def CleanScan (labels : List String) : Prop :=
  ∀ before rest : List String, (∀ l ∈ before, l ∉ reserved) →
    (labels = before ++ "service" :: rest → before.length = 1 ∨ before.length = 2 → "" ∉ before ∧
      Ending rest) ∧
    (labels = before ++ "node" :: rest → before ≠ [] → before.length = 1 ∧ "" ∉ before ∧
      Ending rest)

/-- The labels are read without anything being skipped or left blank. -/
def Clean : List String → Prop
  | l₀ :: l₁ :: rest =>
    if underscored l₀ && underscored l₁ then CleanPair l₀ l₁ rest else CleanScan (l₀ :: l₁ :: rest)
  | labels => CleanScan labels

theorem scanLabels_append {before : List String} (hbefore : ∀ l ∈ before, l ∉ reserved)
    (seen rest : List String) :
    scanLabels seen (before ++ rest) = scanLabels (seen ++ before) rest := by
  induction before generalizing seen with
  | nil => rw [List.nil_append, List.append_nil]
  | cons l before ih =>
    rw [List.forall_mem_cons] at hbefore
    rw [List.cons_append, scanLabels_pass hbefore.1, ih hbefore.2, List.append_assoc,
      List.singleton_append]

/-- What the scan understands it understands at the first keyword. -/
theorem scanLabels_split {seen labels : List String} (h : (scanLabels seen labels).kind ≠ .unknown) :
    ∃ before kw rest, labels = before ++ kw :: rest ∧ (∀ l ∈ before, l ∉ reserved) ∧
      (kw = "service" ∨ kw = "node") := by
  induction labels generalizing seen with
  | nil => exact absurd rfl h
  | cons l labels ih =>
    by_cases hl : l ∈ reserved
    · rcases mem_reserved.mp hl with rfl | rfl | hmesh
      · exact ⟨[], "service", labels, rfl, by simp, Or.inl rfl⟩
      · exact ⟨[], "node", labels, rfl, by simp, Or.inr rfl⟩
      · rw [scanLabels_mesh hmesh] at h
        exact absurd rfl h
    · rw [scanLabels_pass hl] at h
      obtain ⟨before, kw, rest, rfl, hbefore, hkw⟩ := ih h
      exact ⟨l :: before, kw, rest, rfl, List.forall_mem_cons.mpr ⟨hl, hbefore⟩, hkw⟩

/-- Some complete form has these labels and is understood as they are. -/
def Documented (labels : List String) : Prop :=
  ∃ f : Form, f.Complete ∧ f.labels = labels ∧ f.query = parseLabels labels

theorem dotless_cons {l : String} {labels : List String} :
    Dotless (l :: labels) ↔ '.' ∉ l.toList ∧ Dotless labels := List.forall_mem_cons

theorem DcSuffix.isLabel {d : DcSuffix} (hne : ∀ c ∈ d.components, c ≠ "") (hdot : Dotless d.labels) :
    ∀ c ∈ d.components, IsLabel c := by
  intro c hc
  refine ⟨hne c hc, hdot c ?_⟩
  cases d <;> simp_all [components, labels]

theorem DcSuffix.components_ne {d : DcSuffix} (h : ∀ c ∈ d.components, IsLabel c) :
    ∀ c ∈ d.components, c ≠ "" :=
  fun c hc => (h c hc).1

section Scan

variable {labels : List String}

/-- The first two labels are not both underscored, so that the labels are scanned for a keyword. -/
def Scanned (labels : List String) : Prop :=
  ∀ l₀ l₁ rest, labels = l₀ :: l₁ :: rest → ¬(underscored l₀ = true ∧ underscored l₁ = true)

theorem Scanned.parseLabels_eq (h : Scanned labels) : parseLabels labels = scanLabels [] labels := by
  match labels, h with
  | [], _ => rfl
  | [_], _ => rfl
  | l₀ :: l₁ :: rest, h => exact parseLabels_scan rest (h l₀ l₁ rest rfl)

theorem Scanned.not_rfc2782 {svc tag : String} {rest : List String}
    (h : Scanned (("_" ++ svc) :: ("_" ++ tag) :: rest)) : False :=
  h _ _ rest rfl ⟨underscored_append svc, underscored_append tag⟩

theorem service_of_documented {svc : String} {rest : List String}
    (hscan : Scanned (svc :: "service" :: rest)) (hsvc : svc ∉ reserved)
    (h : Documented (svc :: "service" :: rest)) :
    svc ≠ "" ∧ Ending rest := by
  obtain ⟨f, hf, hlabels, hquery⟩ := h
  rw [hscan.parseLabels_eq, scanLabels_pass hsvc, scanLabels_service] at hquery
  unfold Form.Complete at hf
  cases f with
  | service svc' d =>
    simp only [Form.labels, List.cons.injEq, true_and] at hlabels
    obtain ⟨rfl, rfl⟩ := hlabels
    simp only [Form.components, List.forall_mem_cons] at hf
    exact ⟨hf.1.1, d, d.components_ne hf.2, rfl⟩
  | tagged tag svc' d =>
    -- There is no tag in what was understood.
    obtain rfl : tag = "" := congrArg ParsedQuery.tag hquery
    exact absurd rfl (hf "" (by simp [Form.components])).1
  | rfc2782 svc' tag d =>
    simp only [Form.labels] at hlabels
    rw [← hlabels] at hscan
    exact hscan.not_rfc2782.elim
  | rfc2782Short svc' tag dc =>
    simp only [Form.labels] at hlabels
    rw [← hlabels] at hscan
    exact hscan.not_rfc2782.elim
  | node name d =>
    exact absurd (congrArg ParsedQuery.kind hquery) (by simp [Form.query, parseServicePrefix])

theorem tagged_of_documented {tag svc : String} {rest : List String}
    (hscan : Scanned (tag :: svc :: "service" :: rest)) (htag : tag ∉ reserved)
    (hsvc : svc ∉ reserved) (h : Documented (tag :: svc :: "service" :: rest)) :
    tag ≠ "" ∧ svc ≠ "" ∧ Ending rest := by
  obtain ⟨f, hf, hlabels, hquery⟩ := h
  rw [hscan.parseLabels_eq, scanLabels_pass htag, scanLabels_pass hsvc, scanLabels_service] at hquery
  unfold Form.Complete at hf
  cases f with
  | service svc' d =>
    -- The second label would be the keyword.
    simp only [Form.labels, List.cons.injEq] at hlabels
    exact absurd (mem_reserved.mpr (Or.inl hlabels.2.1.symm)) hsvc
  | tagged tag' svc' d =>
    simp only [Form.labels, List.cons.injEq, true_and] at hlabels
    obtain ⟨rfl, rfl, rfl⟩ := hlabels
    simp only [Form.components, List.forall_mem_cons] at hf
    exact ⟨hf.1.1, hf.2.1.1, d, d.components_ne hf.2.2, rfl⟩
  | rfc2782 svc' tag d =>
    simp only [Form.labels] at hlabels
    rw [← hlabels] at hscan
    exact hscan.not_rfc2782.elim
  | rfc2782Short svc' tag dc =>
    simp only [Form.labels] at hlabels
    rw [← hlabels] at hscan
    exact hscan.not_rfc2782.elim
  | node name d =>
    exact absurd (congrArg ParsedQuery.kind hquery) (by simp [Form.query, parseServicePrefix])

theorem node_of_documented {before rest : List String} (hscan : Scanned (before ++ "node" :: rest))
    (hbefore : ∀ l ∈ before, l ∉ reserved) (hne : before ≠ [])
    (h : Documented (before ++ "node" :: rest)) :
    before.length = 1 ∧ "" ∉ before ∧ Ending rest := by
  obtain ⟨f, hf, hlabels, hquery⟩ := h
  rw [hscan.parseLabels_eq, scanLabels_append hbefore, List.nil_append, scanLabels_node hne] at hquery
  have hkind : f.query.kind = .node := congrArg ParsedQuery.kind hquery
  cases f with
  | service => simp [Form.query] at hkind
  | tagged => simp [Form.query] at hkind
  | rfc2782 => simp [Form.query] at hkind
  | rfc2782Short => simp [Form.query] at hkind
  | node name d =>
    unfold Form.Complete at hf
    simp only [Form.components, List.forall_mem_cons] at hf
    match before, hne with
    | [l], _ =>
      simp only [Form.labels, List.singleton_append, List.cons.injEq, true_and] at hlabels
      obtain ⟨rfl, rfl⟩ := hlabels
      exact ⟨rfl, by simpa using hf.1.1.symm, d, d.components_ne hf.2, rfl⟩
    | l :: l' :: before, _ =>
      -- The keyword would stand earlier.
      simp only [Form.labels, List.cons_append, List.cons.injEq] at hlabels
      exact absurd (mem_reserved.mpr (Or.inr (Or.inl hlabels.2.1.symm))) (hbefore l' (by simp))

theorem documented_service {svc : String} {rest : List String}
    (hscan : Scanned (svc :: "service" :: rest)) (hdot : Dotless (svc :: "service" :: rest))
    (hres : svc ∉ reserved) (hsvc : svc ≠ "") (hrest : Ending rest) :
    Documented (svc :: "service" :: rest) := by
  obtain ⟨d, hd, rfl⟩ := hrest
  rw [dotless_cons, dotless_cons] at hdot
  refine ⟨.service svc d, ?_, rfl, ?_⟩
  · exact List.forall_mem_cons.mpr ⟨⟨hsvc, hdot.1⟩, d.isLabel hd hdot.2.2⟩
  · rw [hscan.parseLabels_eq, scanLabels_pass hres, scanLabels_service, d.dcFromRest_labels]
    rfl

theorem documented_tagged {tag svc : String} {rest : List String}
    (hscan : Scanned (tag :: svc :: "service" :: rest))
    (hdot : Dotless (tag :: svc :: "service" :: rest)) (hrestag : tag ∉ reserved)
    (hressvc : svc ∉ reserved) (htag : tag ≠ "") (hsvc : svc ≠ "") (hrest : Ending rest) :
    Documented (tag :: svc :: "service" :: rest) := by
  obtain ⟨d, hd, rfl⟩ := hrest
  rw [dotless_cons, dotless_cons, dotless_cons] at hdot
  refine ⟨.tagged tag svc d, ?_, rfl, ?_⟩
  · exact List.forall_mem_cons.mpr
      ⟨⟨htag, hdot.1⟩, List.forall_mem_cons.mpr ⟨⟨hsvc, hdot.2.1⟩, d.isLabel hd hdot.2.2.2⟩⟩
  · rw [hscan.parseLabels_eq, scanLabels_pass hrestag, scanLabels_pass hressvc, scanLabels_service,
      d.dcFromRest_labels]
    rfl

theorem documented_node {name : String} {rest : List String}
    (hscan : Scanned (name :: "node" :: rest)) (hdot : Dotless (name :: "node" :: rest))
    (hres : name ∉ reserved) (hname : name ≠ "") (hrest : Ending rest) :
    Documented (name :: "node" :: rest) := by
  obtain ⟨d, hd, rfl⟩ := hrest
  rw [dotless_cons, dotless_cons] at hdot
  refine ⟨.node name d, ?_, rfl, ?_⟩
  · exact List.forall_mem_cons.mpr ⟨⟨hname, hdot.1⟩, d.isLabel hd hdot.2.2⟩
  · rw [hscan.parseLabels_eq, scanLabels_pass hres, scanLabels_node (by simp), d.dcFromRest_labels]
    simp [Form.query, joinWith]

/-- A service was understood: one or two labels stood before the keyword. -/
theorem parseServicePrefix_known {before : List String} {dc : String}
    (h : (parseServicePrefix before dc).kind ≠ .unknown) :
    (∃ svc, before = [svc]) ∨ ∃ tag svc, before = [tag, svc] := by
  match before, h with
  | [], h => exact absurd rfl h
  | [svc], _ => exact Or.inl ⟨svc, rfl⟩
  | [tag, svc], _ => exact Or.inr ⟨tag, svc, rfl⟩
  | _ :: _ :: _ :: _, h => exact absurd rfl h

theorem cleanScan_of_documented (hscan : Scanned labels)
    (h : (parseLabels labels).kind ≠ .unknown → Documented labels) : CleanScan labels := by
  intro before rest hbefore
  constructor
  · rintro rfl hlen
    have hparse :
        parseLabels (before ++ "service" :: rest) = parseServicePrefix before (dcFromRest rest) := by
      rw [hscan.parseLabels_eq, scanLabels_append hbefore, List.nil_append, scanLabels_service]
    rw [hparse] at h
    match before, hlen with
    | [svc], _ =>
      have hdoc :=
        service_of_documented hscan (hbefore svc (by simp)) (h (by simp [parseServicePrefix]))
      exact ⟨by simpa [eq_comm] using hdoc.1, hdoc.2⟩
    | [tag, svc], _ =>
      have hdoc := tagged_of_documented hscan (hbefore tag (by simp)) (hbefore svc (by simp))
        (h (by simp [parseServicePrefix]))
      exact ⟨by simpa [eq_comm] using ⟨hdoc.1, hdoc.2.1⟩, hdoc.2.2⟩
  · rintro rfl hne
    apply node_of_documented hscan hbefore hne
    apply h
    rw [hscan.parseLabels_eq, scanLabels_append hbefore, List.nil_append, scanLabels_node hne]
    simp

theorem documented_of_cleanScan (hscan : Scanned labels) (hdot : Dotless labels)
    (hclean : CleanScan labels) (h : (parseLabels labels).kind ≠ .unknown) : Documented labels := by
  rw [hscan.parseLabels_eq] at h
  obtain ⟨before, kw, rest, rfl, hbefore, hkw⟩ := scanLabels_split h
  rw [scanLabels_append hbefore, List.nil_append] at h
  obtain ⟨hservice, hnode⟩ := hclean before rest hbefore
  rcases hkw with rfl | rfl
  · rw [scanLabels_service] at h
    rcases parseServicePrefix_known h with ⟨svc, rfl⟩ | ⟨tag, svc, rfl⟩
    · obtain ⟨hblank, hrest⟩ := hservice rfl (Or.inl rfl)
      exact documented_service hscan hdot (hbefore svc (by simp))
        (by simpa [eq_comm] using hblank) hrest
    · obtain ⟨hblank, hrest⟩ := hservice rfl (Or.inr rfl)
      simp only [List.mem_cons, List.not_mem_nil, or_false, not_or] at hblank
      exact documented_tagged hscan hdot (hbefore tag (by simp)) (hbefore svc (by simp))
        (Ne.symm hblank.1)
        (Ne.symm hblank.2) hrest
  · have hne : before ≠ [] := by
      rintro rfl
      exact h rfl
    obtain ⟨hlen, hblank, hrest⟩ := hnode rfl hne
    obtain ⟨name, rfl⟩ := List.length_eq_one_iff.mp hlen
    exact documented_node hscan hdot (hbefore name (by simp)) (by simpa [eq_comm] using hblank) hrest

end Scan

section Pair

variable {svc tag : String} {rest : List String}

theorem append_ne_underscore {s : String} : "_" ++ s ≠ "_" ↔ s ≠ "" := by
  rw [ne_eq, ne_eq, String.append_eq_left_iff]

theorem cleanPair_of_documented (h : Documented (("_" ++ svc) :: ("_" ++ tag) :: rest)) :
    CleanPair ("_" ++ svc) ("_" ++ tag) rest := by
  obtain ⟨f, hf, hlabels, hquery⟩ := h
  rw [parseLabels_pair] at hquery
  unfold Form.Complete at hf
  have hservice : underscored "service" = false := rfl
  have hnode : underscored "node" = false := rfl
  cases f with
  | service svc' d =>
    simp only [Form.labels, List.cons.injEq] at hlabels
    rw [hlabels.2.1, underscored_append] at hservice
    exact absurd hservice (by simp)
  | tagged tag' svc' d =>
    -- Service and tag have lost their underscores, so they cannot be the labels themselves.
    simp only [Form.labels, List.cons.injEq] at hlabels
    have hsvc : svc' = svc := congrArg ParsedQuery.service hquery
    have htag : tag' = tag := congrArg ParsedQuery.tag hquery
    have hlen₀ := congrArg String.length (hlabels.1.symm.trans htag)
    have hlen₁ := congrArg String.length (hlabels.2.1.symm.trans hsvc)
    simp only [String.length_append] at hlen₀ hlen₁
    have hone : "_".length = 1 := rfl
    omega
  | rfc2782 svc' tag' d =>
    simp only [Form.labels, List.cons.injEq, String.append_right_inj] at hlabels
    obtain ⟨rfl, rfl, rfl⟩ := hlabels
    simp only [Form.components, List.forall_mem_cons] at hf
    exact ⟨append_ne_underscore.mpr hf.1.1, append_ne_underscore.mpr hf.2.1.1,
      Or.inl ⟨d.labels, rfl, d, d.components_ne hf.2.2, rfl⟩⟩
  | rfc2782Short svc' tag' dc =>
    simp only [Form.labels, List.cons.injEq, String.append_right_inj] at hlabels
    obtain ⟨rfl, rfl, rfl⟩ := hlabels
    simp only [Form.components, List.forall_mem_cons] at hf
    refine ⟨append_ne_underscore.mpr hf.1.1, append_ne_underscore.mpr hf.2.1.1, Or.inr ?_⟩
    cases dc with
    | none => exact Or.inl rfl
    | some dc => exact Or.inr ⟨dc, (hf.2.2 dc (by simp)).1, rfl⟩
  | node name d =>
    simp only [Form.labels, List.cons.injEq] at hlabels
    rw [hlabels.2.1, underscored_append] at hnode
    exact absurd hnode (by simp)

theorem notMem_toList_of_append {c : Char} {start s : String} (h : c ∉ (start ++ s).toList) :
    c ∉ s.toList := by
  rw [String.toList_append, List.mem_append, not_or] at h
  exact h.2

theorem documented_of_cleanPair (hdot : Dotless (("_" ++ svc) :: ("_" ++ tag) :: rest))
    (h : CleanPair ("_" ++ svc) ("_" ++ tag) rest) :
    Documented (("_" ++ svc) :: ("_" ++ tag) :: rest) := by
  obtain ⟨hsvc, htag, hrest⟩ := h
  rw [append_ne_underscore] at hsvc htag
  rw [dotless_cons, dotless_cons] at hdot
  have hsvcLabel : IsLabel svc := ⟨hsvc, notMem_toList_of_append hdot.1⟩
  have htagLabel : IsLabel tag := ⟨htag, notMem_toList_of_append hdot.2.1⟩
  -- With the keyword, `service.dc` is the datacenter `dc` in the older notation.
  have hkeyword : ∀ d : DcSuffix, (∀ c ∈ d.components, c ≠ "") → Dotless d.labels →
      Documented (("_" ++ svc) :: ("_" ++ tag) :: "service" :: d.labels) := by
    intro d hd hdotd
    refine ⟨.rfc2782 svc tag d, ?_, rfl, (parseLabels_rfc2782 svc tag d).symm⟩
    exact List.forall_mem_cons.mpr
      ⟨hsvcLabel, List.forall_mem_cons.mpr ⟨htagLabel, d.isLabel hd hdotd⟩⟩
  rcases hrest with ⟨rest', rfl, d, hd, rfl⟩ | rfl | ⟨dc, hdc, rfl⟩
  · exact hkeyword d hd (dotless_cons.mp hdot.2.2).2
  · refine ⟨.rfc2782Short svc tag none, ?_, rfl,
      ((parseLabels_rfc2782Short_iff svc tag none).mpr (by simp)).symm⟩
    exact List.forall_mem_cons.mpr ⟨hsvcLabel, List.forall_mem_cons.mpr ⟨htagLabel, by simp⟩⟩
  · by_cases hkw : dc = "service"
    · subst hkw
      exact hkeyword (.legacy "dc") (by decide) (by simp [Dotless, DcSuffix.labels])
    · refine ⟨.rfc2782Short svc tag (some dc), ?_, rfl,
        ((parseLabels_rfc2782Short_iff svc tag (some dc)).mpr (by simpa using hkw)).symm⟩
      have hdcLabel : IsLabel dc := ⟨hdc, (dotless_cons.mp hdot.2.2).1⟩
      exact List.forall_mem_cons.mpr
        ⟨hsvcLabel, List.forall_mem_cons.mpr ⟨htagLabel, by simpa using hdcLabel⟩⟩

end Pair

theorem documented_iff_clean {labels : List String} (hdot : Dotless labels) :
    ((parseLabels labels).kind ≠ .unknown → Documented labels) ↔ Clean labels := by
  match labels with
  | [] => exact iff_of_true (absurd rfl) (by simp [Clean, CleanScan])
  | [l] =>
    have hscan : Scanned [l] := by simp [Scanned]
    exact ⟨cleanScan_of_documented hscan, documented_of_cleanScan hscan hdot⟩
  | l₀ :: l₁ :: rest =>
    by_cases hpair : underscored l₀ = true ∧ underscored l₁ = true
    · obtain ⟨svc, rfl⟩ := (underscored_iff l₀).mp hpair.1
      obtain ⟨tag, rfl⟩ := (underscored_iff l₁).mp hpair.2
      rw [Clean, if_pos (by simp)]
      refine ⟨fun h => cleanPair_of_documented (h ?_), fun h _ => documented_of_cleanPair hdot h⟩
      rw [parseLabels_pair]
      simp
    · rw [Clean, if_neg (by simpa using hpair)]
      have hscan : Scanned (l₀ :: l₁ :: rest) := by
        rintro _ _ _ ⟨⟩
        exact hpair
      exact ⟨cleanScan_of_documented hscan, documented_of_cleanScan hscan hdot⟩

/-- Names that are understood are names of a documented form, and understood as what they spell,
except where `parseName` skips a label or takes a blank one. -/
theorem parseName_documented_iff (u : Unicode) (name domain : String) :
    ((parseName u name domain).kind ≠ .unknown →
      ∃ f : Form, f.Complete ∧ Spells u name f.labels domain ∧ f.query = parseName u name domain) ↔
    ∀ labels, labels ≠ [] → Dotless labels → Spells u name labels domain → Clean labels := by
  constructor
  · intro h labels hne hdot hname
    rw [← documented_iff_clean hdot]
    intro hknown
    rw [parseName_of_spells hname hne hdot] at h
    obtain ⟨f, hf, hform, hquery⟩ := h hknown
    exact ⟨f, hf, hform.unique hname f.labels_ne_nil hne (f.dotless hf) hdot, hquery⟩
  · intro h hknown
    obtain ⟨labels, hne, hdot, hname⟩ := exists_spells hknown
    rw [parseName_of_spells hname hne hdot] at hknown ⊢
    obtain ⟨f, hf, rfl, hquery⟩ := (documented_iff_clean hdot).mpr (h labels hne hdot hname) hknown
    exact ⟨f, hf, hname, hquery⟩

/-- `web.service.foo.bar` is no documented form, and it is understood as the service of the local
datacenter. -/
theorem foo_bar_understood :
    ¬∀ (u : Unicode) (name domain : String), (parseName u name domain).kind ≠ .unknown →
      ∃ f : Form, f.Complete ∧ Spells u name f.labels domain := by
  intro h
  obtain ⟨f, hf, hname⟩ := h .ascii "web.service.foo.bar.consul." "consul." (by decide +kernel)
  have hspells :
      Spells .ascii "web.service.foo.bar.consul." ["web", "service", "foo", "bar"] "consul." := by
    decide +kernel
  have hlabels := hname.unique hspells f.labels_ne_nil (by simp) (f.dotless hf) (by simp [Dotless])
  have hweb : underscored "web" = false := rfl
  cases f with
  | service svc d => cases d <;> simp [Form.labels, DcSuffix.labels] at hlabels
  | tagged tag svc d => simp [Form.labels] at hlabels
  | rfc2782 svc tag d =>
    simp only [Form.labels, List.cons.injEq] at hlabels
    simp [← hlabels.1] at hweb
  | rfc2782Short svc tag dc =>
    simp only [Form.labels, List.cons.injEq] at hlabels
    simp [← hlabels.1] at hweb
  | node name d => simp [Form.labels] at hlabels

end YellowPages.Consuldns
