import Mathlib

/-!
# Strings and numbers

The ends of a string, its fields between separators, white space around it, and unsigned numbers
in decimal.
-/

namespace Lib

/-! ## The ends of a string -/

def hasSuffix (s tail : String) : Bool := tail.toList.isSuffixOf s.toList

def trimSuffix (s tail : String) : String :=
  if hasSuffix s tail then String.ofList (s.toList.take (s.toList.length - tail.toList.length)) else s

theorem hasSuffix_iff (s tail : String) : hasSuffix s tail = true ↔ ∃ start, s = start ++ tail := by
  rw [hasSuffix, List.isSuffixOf_iff_suffix]
  constructor
  · rintro ⟨start, h⟩
    refine ⟨String.ofList start, String.toList_inj.mp ?_⟩
    rw [String.toList_append, String.toList_ofList, h]
  · rintro ⟨start, rfl⟩
    exact ⟨start.toList, String.toList_append.symm⟩

@[simp] theorem hasSuffix_append (start tail : String) : hasSuffix (start ++ tail) tail = true :=
  (hasSuffix_iff _ _).mpr ⟨start, rfl⟩

/-- The text, ended by `tail` if it was not. -/
def withSuffix (s tail : String) : String := if hasSuffix s tail then s else s ++ tail

theorem hasSuffix_withSuffix (s tail : String) : hasSuffix (withSuffix s tail) tail = true := by
  unfold withSuffix
  split
  · assumption
  · exact hasSuffix_append s tail

@[simp] theorem trimSuffix_append (start tail : String) : trimSuffix (start ++ tail) tail = start := by
  rw [trimSuffix, if_pos (hasSuffix_append start tail), String.toList_append, List.length_append,
    Nat.add_sub_cancel, List.take_left, String.ofList_toList]

@[simp] theorem trimSuffix_self (s : String) : trimSuffix s s = "" := by
  simpa using trimSuffix_append "" s

/-! ## Fields -/

def splitOn (s : String) (sep : Char) : List String := (s.toList.splitOn sep).map String.ofList

def joinWith (sep : Char) (fields : List String) : String :=
  String.ofList ([sep].intercalate (fields.map String.toList))

theorem splitOn_joinWith {sep : Char} {fields : List String} (hne : fields ≠ [])
    (hsep : ∀ f ∈ fields, sep ∉ f.toList) : splitOn (joinWith sep fields) sep = fields := by
  have hsplit :
      ([sep].intercalate (fields.map String.toList)).splitOn sep = fields.map String.toList := by
    refine List.splitOn_intercalate sep ?_ (by simpa using hne)
    intro l hl
    obtain ⟨f, hf, rfl⟩ := List.mem_map.mp hl
    exact hsep f hf
  rw [splitOn, joinWith, String.toList_ofList, hsplit, List.map_map]
  simp [Function.comp_def]

theorem joinWith_inj {sep : Char} {fields fields' : List String} (hne : fields ≠ [])
    (hne' : fields' ≠ []) (hsep : ∀ f ∈ fields, sep ∉ f.toList)
    (hsep' : ∀ f ∈ fields', sep ∉ f.toList) (h : joinWith sep fields = joinWith sep fields') :
    fields = fields' := by
  rw [← splitOn_joinWith hne hsep, h, splitOn_joinWith hne' hsep']

theorem mem_joinWith {sep c : Char} {fields : List String} (h : c ∈ (joinWith sep fields).toList) :
    c = sep ∨ ∃ f ∈ fields, c ∈ f.toList := by
  rw [joinWith, String.toList_ofList] at h
  induction fields with
  | nil => cases h
  | cons f fields ih =>
    cases fields with
    | nil => exact Or.inr ⟨f, by simp, by simpa using h⟩
    | cons f' fields =>
      rw [List.map_cons, List.map_cons, List.intercalate_cons_cons] at h
      rcases List.mem_append.mp h with h | h
      · rcases List.mem_append.mp h with h | h
        · exact Or.inr ⟨f, by simp, h⟩
        · exact Or.inl (List.mem_singleton.mp h)
      · rcases ih h with hsep | ⟨g, hg, hc⟩
        · exact Or.inl hsep
        · exact Or.inr ⟨g, List.mem_cons_of_mem f hg, hc⟩

theorem joinWith_splitOn (s : String) (sep : Char) : joinWith sep (splitOn s sep) = s := by
  have hfields : (splitOn s sep).map String.toList = s.toList.splitOn sep := by
    simp [splitOn, Function.comp_def]
  rw [joinWith, hfields, List.intercalate_splitOn, String.ofList_toList]

theorem splitOn_ne_nil (s : String) (sep : Char) : splitOn s sep ≠ [] := by
  simp [splitOn]

theorem sep_notMem_of_mem_splitOnP {α : Type} (p : α → Bool) (xs : List α) :
    ∀ field ∈ xs.splitOnP p, ∀ x ∈ field, p x = false := by
  induction xs with
  | nil => simp
  | cons x xs ih =>
    rw [List.splitOnP_cons_eq_if_modifyHead]
    by_cases hx : p x = true
    · simpa [hx] using ih
    · -- The element goes to the front of the first field of the rest.
      rw [if_neg hx]
      cases hrest : xs.splitOnP p with
      | nil => simp
      | cons field fields =>
        rw [hrest] at ih
        simp only [List.modifyHead_cons, List.forall_mem_cons] at ih ⊢
        exact ⟨⟨by simpa using hx, ih.1⟩, ih.2⟩

theorem sep_notMem_of_mem_splitOn {s : String} {sep : Char} {f : String} (hf : f ∈ splitOn s sep) :
    sep ∉ f.toList := by
  obtain ⟨field, hfield, rfl⟩ := List.mem_map.mp hf
  intro hmem
  rw [String.toList_ofList] at hmem
  simpa using sep_notMem_of_mem_splitOnP (· == sep) s.toList field hfield sep hmem

/-! ## White space -/

/-- The characters with the Unicode property `White_Space`. -/
def isSpace (c : Char) : Bool :=
  c.toNat ∈ [0x09, 0x0a, 0x0b, 0x0c, 0x0d, 0x20, 0x85, 0xa0, 0x1680, 0x2028, 0x2029, 0x202f,
    0x205f, 0x3000] ∨
    0x2000 ≤ c.toNat ∧ c.toNat ≤ 0x200a

def trimSpace (s : String) : String := String.ofList ((s.toList.dropWhile isSpace).rdropWhile isSpace)

theorem dropWhile_rdropWhile {α : Type} (p : α → Bool) (l : List α) :
    ((l.dropWhile p).rdropWhile p).dropWhile p = (l.dropWhile p).rdropWhile p := by
  rw [List.dropWhile_eq_self_iff]
  intro hpos
  have hne : l.dropWhile p ≠ [] := by
    intro hnil
    simp [hnil] at hpos
  -- What is left starts where the list without its leading part starts.
  have hhead : ((l.dropWhile p).rdropWhile p)[0] = (l.dropWhile p).head hne := by
    rw [List.head_eq_getElem]
    exact (List.rdropWhile_prefix p _).getElem hpos
  rw [hhead]
  simpa using List.head_dropWhile_not p hne

@[simp] theorem trimSpace_trimSpace (s : String) : trimSpace (trimSpace s) = trimSpace s := by
  rw [trimSpace, trimSpace, String.toList_ofList, dropWhile_rdropWhile, List.rdropWhile_idempotent]

theorem trimSpace_append_space (s t : String) (hs : ∀ c ∈ s.toList, isSpace c = false)
    (ht : ∀ c ∈ t.toList, isSpace c = true) (hne : s ≠ "") : trimSpace (s ++ t) = s := by
  have hfront : (s.toList ++ t.toList).dropWhile isSpace = s.toList ++ t.toList := by
    cases hcs : s.toList with
    | nil => exact absurd (String.toList_eq_nil_iff.mp hcs) hne
    | cons c cs =>
      rw [List.cons_append, List.dropWhile_cons_of_neg]
      simp [hs c (by simp [hcs])]
  have hback : (s.toList ++ t.toList).rdropWhile isSpace = s.toList := by
    rw [List.rdropWhile, List.reverse_append, List.dropWhile_append_of_pos (by simpa using ht)]
    have hself : s.toList.rdropWhile isSpace = s.toList :=
      (List.rdropWhile_eq_self_iff).mpr fun hl => by simp [hs _ (List.getLast_mem hl)]
    exact hself
  rw [trimSpace, String.toList_append, hfront, hback, String.ofList_toList]

theorem trimSpace_space_append (s t : String) (hs : ∀ c ∈ s.toList, isSpace c = true) :
    trimSpace (s ++ t) = trimSpace t := by
  rw [trimSpace, String.toList_append, List.dropWhile_append_of_pos hs, trimSpace]

/-! ## Decimal numbers -/

def formatUint (n : Nat) : String := n.repr

/-- Digits only, at least one, and below 2⁶⁴. -/
def parseUint (s : String) : Option Nat :=
  if s ≠ "" ∧ s.toList.all Char.isDigit then
    let n := Nat.ofDigitChars 10 s.toList 0
    if n < 2 ^ 64 then some n else none
  else none

theorem toList_formatUint (n : Nat) : (formatUint n).toList = Nat.toDigits 10 n := String.toList_ofList

theorem isDigit_formatUint (n : Nat) : ∀ c ∈ (formatUint n).toList, c.isDigit = true := by
  rw [toList_formatUint]
  exact fun c hc => Nat.isDigit_of_mem_toDigits (by decide) (by decide) hc

theorem formatUint_ne_empty (n : Nat) : formatUint n ≠ "" := by
  rw [ne_eq, ← String.toList_eq_nil_iff, toList_formatUint]
  exact Nat.toDigits_ne_nil

theorem isSpace_of_isDigit {c : Char} (h : c.isDigit = true) : isSpace c = false := by
  have hc : 48 ≤ c.toNat ∧ c.toNat ≤ 57 := by simpa [Char.isDigit, UInt32.le_iff_toNat_le] using h
  simp only [isSpace, List.mem_cons, List.not_mem_nil, or_false, decide_eq_false_iff_not]
  omega

/-- A number that was written out on a line of its own is read back. -/
theorem parseUint_formatUint (n : Nat) (h : n < 2 ^ 64) :
    parseUint (trimSpace (formatUint n ++ "\n")) = some n := by
  have hnewline : ∀ c ∈ "\n".toList, isSpace c = true := by simp [isSpace]
  rw [trimSpace_append_space _ _ (fun c hc => isSpace_of_isDigit (isDigit_formatUint n c hc)) hnewline
    (formatUint_ne_empty n)]
  have hdigits : (formatUint n).toList.all Char.isDigit = true :=
    List.all_eq_true.mpr (isDigit_formatUint n)
  rw [parseUint, if_pos ⟨formatUint_ne_empty n, hdigits⟩, toList_formatUint,
    Nat.ofDigitChars_ten_toDigits]
  exact if_pos h

/-- `strconv.Itoa`. -/
def formatInt : Int → String
  | .ofNat n => formatUint n
  | .negSucc n => "-" ++ formatUint (n + 1)

theorem formatUint_injective : Function.Injective formatUint := by
  intro m n h
  have hdigits : Nat.toDigits 10 m = Nat.toDigits 10 n := by
    rw [← toList_formatUint, h, toList_formatUint]
  rw [← Nat.ofDigitChars_ten_toDigits (n := m), hdigits, Nat.ofDigitChars_ten_toDigits]

theorem mem_formatInt {n : Int} {c : Char} (h : c ∈ (formatInt n).toList) :
    c = '-' ∨ c.isDigit = true := by
  cases n with
  | ofNat n => exact Or.inr (isDigit_formatUint n c h)
  | negSucc n =>
    rw [formatInt, String.toList_append] at h
    rcases List.mem_append.mp h with h | h
    · exact Or.inl (by simpa using h)
    · exact Or.inr (isDigit_formatUint _ c h)

theorem formatUint_ne_minus (n m : Nat) : formatUint n ≠ "-" ++ formatUint m := by
  intro h
  have hdigit := isDigit_formatUint n '-' (by rw [h]; simp)
  cases hdigit

theorem formatInt_injective : Function.Injective formatInt := by
  intro m n h
  cases m with
  | ofNat m =>
    cases n with
    | ofNat n => exact congrArg Int.ofNat (formatUint_injective h)
    | negSucc n => exact absurd h (formatUint_ne_minus _ _)
  | negSucc m =>
    cases n with
    | ofNat n => exact absurd h.symm (formatUint_ne_minus _ _)
    | negSucc n =>
      have hsame := formatUint_injective (String.append_right_inj _ |>.mp h)
      exact congrArg Int.negSucc (Nat.succ.inj hsame)

end Lib
