import YellowPages.Consul.FilterMeaning
import YellowPages.Lib.Scan

/-!
# The language of filters

What the comment of `parseFilter` promises, as a language: selectors with the operators that apply to
them, quoted strings and bare words as values, and no blank needed around `==` and `!=`. The parser
takes any three tokens with an operator in the middle, and cuts a word only at blanks, parentheses and
quotes.
-/

namespace YellowPages.Consul

open Lib Consuldns

/-! ## Tokens -/

def isSign (c : Char) : Bool := charClass c = .equals || charClass c = .bang

def flush (word : List Char) : List (List Char) := if word = [] then [] else [word]

def cutLoop : List Char → List Char → List (List Char)
  | word, [] => flush word
  | word, [c] => [word ++ [c]]
  | word, c :: d :: s =>
    if isSign c && d = '=' then flush word ++ [c, d] :: cutLoop [] s
    -- as for the tokenizer, a sign alone does not start a word
    else if word = [] && isSign c then [c] :: cutLoop [] (d :: s)
    else cutLoop (word ++ [c]) (d :: s)

/-- A word is cut around each `==` and `!=` in it. -/
def cutWord (t : String) : List String :=
  if t.toList.head?.any (charClass · = .other) then (cutLoop [] t.toList).map String.ofList else [t]

/-- The tokens if no blank is needed around an operator. -/
def lexed (s : String) : List String := (tokenizeFilter s).flatMap cutWord

example : lexed "ServiceMeta.env==\"a==b\" and x in ServiceTags" =
    ["ServiceMeta.env", "==", "\"a==b\"", "and", "x", "in", "ServiceTags"] := by decide +kernel

/-! ## Predicates -/

def IsWord (t : String) : Prop :=
  t.toList.head?.any (charClass · = .other) = true ∧ (∀ c ∈ t.toList, inWord charClass c = true) ∧
    cutWord t = [t]

def IsQuoted (t : String) : Prop := ∃ v : String, '"' ∉ v.toList ∧ t = quoted v

def IsValue (t : String) : Prop := IsQuoted t ∨ IsWord t

section Predicates

variable (u : Unicode)

def IsScalar (t : String) : Prop :=
  IsWord t ∧ (u.equalFold t "Checks.Status" = true ∨ hasPrefixFold u t "ServiceMeta." = true)

def IsList (t : String) : Prop :=
  IsWord t ∧ (u.equalFold t "ServiceTags" = true ∨ u.equalFold t "Checks.Status" = true)

/-- The operators apply to the selectors they are meant for. -/
def Proper (l o r : String) : Prop :=
  u.toLower o ∈ ["==", "!="] ∧ IsScalar u l ∧ IsValue r ∨
    u.toLower o = "contains" ∧ IsList u l ∧ IsValue r ∨ u.toLower o = "in" ∧ IsValue l ∧ IsList u r

/-- What the parser asks of three tokens. -/
def Loose (l o _r : String) : Prop := l ≠ "" ∧ u.toLower o ∈ ["==", "!=", "contains", "in"]

/-- The documented language. -/
def Documented (s : String) : Prop := Sentence (vocabulary u) (Three (Proper u)) (lexed s)

/-- In an expression over any three tokens, the operators apply to the selectors they are meant for. -/
def Strict (s : String) : Prop :=
  Sentence (vocabulary u) (Three (Loose u)) (tokenizeFilter s) →
    ∀ p ∈ operands (vocabulary u) .operand (tokenizeFilter s), Proper u p.1 p.2.1 p.2.2

/-- In an expression of the documented language, the operators stand apart. -/
def Apart (s : String) : Prop := Documented u s → ∀ t ∈ tokenizeFilter s, cutWord t = [t]

end Predicates

/-! ## Cutting a word -/

def Stray (t : String) : Prop := t.toList.head?.any isSign = true

theorem cutLoop_word (word : List Char) (hword : word ≠ []) (s : List Char) :
    cutLoop word s = [word ++ s] ∨
      ∃ pre c post, s = pre ++ c :: '=' :: post ∧ isSign c = true ∧
        cutLoop word s = (word ++ pre) :: [c, '='] :: cutLoop [] post := by
  induction s generalizing word with
  | nil => simp [cutLoop, flush, hword]
  | cons c s ih =>
    cases s with
    | nil => exact Or.inl rfl
    | cons d s =>
      rw [cutLoop]
      split
      · rename_i hsign
        rw [Bool.and_eq_true, decide_eq_true_eq] at hsign
        obtain ⟨hc, rfl⟩ := hsign
        exact Or.inr ⟨[], c, s, rfl, hc, by simp [flush, hword]⟩
      · rw [if_neg (by simp [hword])]
        rcases ih (word ++ [c]) (by simp) with h | ⟨pre, c', post, hs, hc', h⟩
        · exact Or.inl (by rw [h]; simp)
        · exact Or.inr ⟨c :: pre, c', post, by rw [hs]; rfl, hc', by rw [h]; simp⟩

/-- What is left after an operator: nothing, a sign, one word, or a word and a sign. -/
def Remainder (more : List String) : Prop :=
  more = [] ∨ ∃ x more', more = x :: more' ∧
    (Stray x ∨ more' = [] ∨ ∃ y more'', more' = y :: more'' ∧ Stray y)

theorem remainder_cutLoop (s : List Char) : Remainder ((cutLoop [] s).map String.ofList) := by
  match s with
  | [] => exact Or.inl rfl
  | [c] => exact Or.inr ⟨_, _, rfl, Or.inr (Or.inl rfl)⟩
  | c :: d :: s =>
    refine Or.inr ?_
    rw [cutLoop]
    split
    · rename_i hsign
      rw [Bool.and_eq_true] at hsign
      exact ⟨_, _, rfl, Or.inl (by simp [Stray, hsign.1])⟩
    · split
      · rename_i hsign
        rw [Bool.and_eq_true] at hsign
        exact ⟨_, _, rfl, Or.inl (by simp [Stray, hsign.2])⟩
      · rcases cutLoop_word [c] (by simp) (d :: s) with h | ⟨pre, c', post, -, hc', h⟩
        · exact ⟨_, _, by rw [List.nil_append, h]; rfl, Or.inr (Or.inl rfl)⟩
        · exact ⟨_, _, by rw [List.nil_append, h]; rfl,
            Or.inr (Or.inr ⟨_, _, rfl, by simp [Stray, hc']⟩)⟩

/-- A token is left whole, or is cut around its first operator, which has something before it. -/
theorem cutWord_cases (t : String) :
    cutWord t = [t] ∨ ∃ p x more, cutWord t = p :: x :: more ∧ Stray x ∧ Remainder more ∧
      '=' ∈ t.toList ∧
      2 < t.toList.length := by
  unfold cutWord
  split
  · rename_i hother
    match ht : t.toList with
    | [] => simp [ht] at hother
    | [c] => exact Or.inl (by simp [cutLoop, ← ht])
    | c :: d :: s =>
      have hsign : isSign c = false := by
        rw [ht] at hother
        have hc : charClass c = .other := by simpa using hother
        simp [isSign, hc]
      rw [cutLoop, if_neg (by simp [hsign]), if_neg (by simp [hsign])]
      rcases cutLoop_word ([] ++ [c]) (by simp) (d :: s) with h | ⟨pre, c', post, hs, hc', h⟩
      · refine Or.inl ?_
        rw [h, List.map_singleton, List.nil_append, List.singleton_append, ← ht, String.ofList_toList]
      · refine Or.inr ⟨_, _, _, by rw [h]; rfl, by simp [Stray, hc'],
          remainder_cutLoop post, ?_, ?_⟩
        · rw [hs]
          simp
        · rw [hs]
          simp
          omega
  · exact Or.inl rfl

theorem cutWord_of_notMem {t : String} (h : '=' ∉ t.toList) : cutWord t = [t] := by
  rcases cutWord_cases t with hcut | ⟨_, _, _, _, _, _, hmem, _⟩
  · exact hcut
  · exact absurd hmem h

theorem cutWord_of_length {t : String} (h : t.toList.length ≤ 2) : cutWord t = [t] := by
  rcases cutWord_cases t with hcut | ⟨_, _, _, _, _, _, _, hlength⟩
  · exact hcut
  · omega

theorem flatMap_cutWord {ts : List String} (h : ∀ t ∈ ts, cutWord t = [t]) :
    ts.flatMap cutWord = ts := by
  rw [List.flatMap_congr h]
  exact List.flatMap_singleton' ts

/-! ## Tokens of a predicate -/

section Tokens

theorem IsValue.not_stray {t : String} (h : IsValue t) : ¬Stray t := by
  rcases h with ⟨v, -, rfl⟩ | ⟨hother, -, -⟩
  · simp [Stray, quoted, isSign, charClass]
  · intro hstray
    unfold Stray at hstray
    cases hhead : t.toList.head? with
    | none => simp [hhead] at hother
    | some c =>
      rw [hhead] at hother hstray
      have hc : charClass c = .other := by simpa using hother
      simp [isSign, hc] at hstray

theorem IsValue.cutWord {t : String} (h : IsValue t) : cutWord t = [t] := by
  rcases h with ⟨v, -, rfl⟩ | ⟨-, -, hcut⟩
  · simp [Consul.cutWord, quoted, charClass]
  · exact hcut

theorem IsValue.ne_empty {t : String} (h : IsValue t) : t ≠ "" := by
  rintro rfl
  rcases h with ⟨v, -, hv⟩ | ⟨hother, -, -⟩
  · have := congrArg String.toList hv
    simp [quoted] at this
  · simp at hother

variable {u : Unicode}

theorem Proper.isValue {l o r : String} (h : Proper u l o r) : IsValue l ∧ IsValue r := by
  rcases h with ⟨-, hl, hr⟩ | ⟨-, hl, hr⟩ | ⟨-, hl, hr⟩
  · exact ⟨Or.inr hl.1, hr⟩
  · exact ⟨Or.inr hl.1, hr⟩
  · exact ⟨hl, Or.inr hr.1⟩

theorem Proper.loose {l o r : String} (h : Proper u l o r) : Loose u l o r := by
  refine ⟨h.isValue.1.ne_empty, ?_⟩
  rcases h with ⟨ho, -⟩ | ⟨ho, -⟩ | ⟨ho, -⟩
  · simp only [List.mem_cons, List.not_mem_nil, or_false] at ho ⊢
    tauto
  · simp [ho]
  · simp [ho]

theorem predicate_ok_iff {l o r : String} : (∃ f, predicate u l o r = .ok f) ↔ Loose u l o r := by
  unfold predicate Loose
  by_cases hl : l = ""
  · simp [hl]
  · by_cases ho : o = ""
    · simp [ho]
    · rw [if_neg (by simp [hl, ho])]
      split_ifs <;> simp_all

theorem length_toLower (s : String) : (u.toLower s).toList.length = s.toList.length := by
  simp [Unicode.toLower]

/-- The operators are short. -/
theorem length_operator {o : String} (h : u.toLower o ∈ ["==", "!=", "contains", "in"]) :
    o.toList.length = 2 ∨ o.toList.length = 8 ∧ u.toLower o = "contains" := by
  rw [← length_toLower (u := u)]
  simp only [List.mem_cons, List.not_mem_nil, or_false] at h
  rcases h with h | h | h | h <;> rw [h] <;> decide

theorem notMem_of_toLower {o : String} {c : Char} (hc : c.toNat < 128)
    (h : c.toLower ∉ (u.toLower o).toList) :
    c ∉ o.toList := by
  intro hmem
  refine h ?_
  rw [Unicode.toLower, String.toList_ofList, ← u.lower_ascii c hc]
  exact List.mem_map_of_mem hmem

theorem cutWord_operator {o : String} (h : u.toLower o ∈ ["==", "!=", "contains", "in"]) :
    cutWord o = [o] := by
  rcases length_operator h with hlength | ⟨-, ho⟩
  · exact cutWord_of_length hlength.le
  · exact cutWord_of_notMem (notMem_of_toLower (u := u) (by decide) (by rw [ho]; decide))

theorem map_fold_of_ascii {s : String} (h : ∀ c ∈ s.toList, c.toNat < 128) :
    s.toList.map u.fold = s.toList.map Char.toLower :=
  List.map_congr_left fun c hc => u.fold_ascii c (h c hc)

theorem notMem_of_equalFold {t word : String} (h : u.equalFold t word = true)
    (hword : ∀ c ∈ word.toList, c.toNat < 128) {c : Char} (hc : c.toNat < 128)
    (hnot : c.toLower ∉ word.toList.map Char.toLower) :
    c ∉ t.toList := by
  intro hmem
  refine hnot ?_
  rw [Unicode.equalFold, decide_eq_true_eq] at h
  rw [← map_fold_of_ascii (u := u) hword, ← h, ← u.fold_ascii c hc]
  exact List.mem_map_of_mem hmem

/-- The keywords are short, and have no sign in them. -/
theorem keyword_letters {t : String} (h : (vocabulary u).Keyword t) :
    '=' ∉ t.toList ∧ '!' ∉ t.toList ∧ t.toList.length ≤ 3 := by
  have hword : ∀ {word : String}, u.equalFold t word = true → (∀ c ∈ word.toList, c.toNat < 128) →
      '=' ∉ word.toList.map Char.toLower → '!' ∉ word.toList.map Char.toLower →
        word.toList.length ≤ 3 →
      '=' ∉ t.toList ∧ '!' ∉ t.toList ∧ t.toList.length ≤ 3 := by
    intro word hfold hascii heq hbang hlength
    exact ⟨notMem_of_equalFold hfold hascii (by decide) heq,
      notMem_of_equalFold hfold hascii (by decide) hbang,
      (length_of_equalFold hfold).trans_le hlength⟩
  rcases h with h | h | h | h | h
  · exact hword h (by simp) (by decide) (by decide) (by decide)
  · exact hword h (by simp) (by decide) (by decide) (by decide)
  · exact hword h (by simp) (by decide) (by decide) (by decide)
  · obtain rfl : t = "(" := of_decide_eq_true h
    decide
  · obtain rfl : t = ")" := of_decide_eq_true h
    decide

theorem isValue_paren {t : String} (h : t = "(" ∨ t = ")") : ¬IsValue t := by
  rintro (⟨v, -, hv⟩ | ⟨hother, -, -⟩)
  · have hhead := congrArg (·.toList.head?) hv
    rcases h with rfl | rfl <;> simp [quoted] at hhead
  · rcases h with rfl | rfl <;> simp [charClass] at hother

theorem cutWord_keyword {t : String} (h : (vocabulary u).Keyword t) : cutWord t = [t] :=
  cutWord_of_notMem (keyword_letters h).1

/-- A sign is no keyword and no parenthesis. -/
theorem Stray.eq_false {t : String} (h : Stray t) :
    (vocabulary u).isNot t = false ∧ (vocabulary u).isAnd t = false ∧
      (vocabulary u).isOr t = false ∧
      (vocabulary u).isOpen t = false ∧ (vocabulary u).isClose t = false := by
  have hsign : '=' ∈ t.toList ∨ '!' ∈ t.toList := by
    unfold Stray at h
    cases ht : t.toList with
    | nil => simp [ht] at h
    | cons c s =>
      rw [ht] at h
      have hc : isSign c = true := by simpa using h
      unfold isSign charClass at hc
      simp only [List.mem_cons]
      grind
  have hkeyword : ¬(vocabulary u).Keyword t :=
    fun hk => hsign.elim (keyword_letters hk).1 (keyword_letters hk).2.1
  simpa [Vocabulary.Keyword, not_or] using hkeyword

end Tokens

/-! ## Both readings

A text is read twice: token by token as the parser does, and cut as documented. If both readings are
expressions, nothing was cut. -/

section Both

variable {u : Unicode}

/-- A sign stands only between the two sides of a predicate. -/
theorem not_runs_stray {x : String} (hx : Stray x) {m : Mode String} (hm : ∀ l, m ≠ .second l)
    {d : Nat} {ts : List String} : ¬Runs (vocabulary u) (Proper u) m d (x :: ts) := by
  obtain ⟨hnot, hand, hor, hopen, hclose⟩ := hx.eq_false (u := u)
  intro h
  cases m with
  | operand =>
    simp only [Runs, hnot, hopen] at h
    obtain ⟨o, r, ts', -, hproper, -⟩ := Runs.exists_operand h
    exact hproper.isValue.1.not_stray hx
  | second l => exact hm l rfl
  | third l o => exact h.1.isValue.2.not_stray hx
  | after => simp [Runs, hand, hor, hclose] at h

theorem length_selector {t : String} (h : IsList u t) : 11 ≤ t.toList.length ∧
    t.toList.length ≤ 13 := by
  rcases h.2 with h | h <;> rw [length_of_equalFold h] <;> decide

/-- With a short left side, only `in` is left. -/
theorem Proper.of_length {l o r : String} (h : Proper u l o r) (hl : l.toList.length < 11) :
    u.toLower o = "in" ∧ IsList u r := by
  rcases h with ⟨-, ⟨-, hl'⟩, -⟩ | ⟨-, hl', -⟩ | ⟨ho, -, hr⟩
  · exfalso
    rcases hl' with hl' | hl'
    · have : l.toList.length = 13 := length_of_equalFold hl'
      omega
    · unfold hasPrefixFold at hl'
      simp only [Bool.and_eq_true] at hl'
      have hlength := length_of_equalFold hl'.2
      have : "ServiceMeta.".toList.length = 12 := by decide
      rw [this, String.toList_ofList, List.length_take] at hlength
      omega
  · have := length_selector hl'
    omega
  · exact ⟨ho, hr⟩

theorem map_toLower_of_equalFold {t a b : String} (ha : u.equalFold t a = true)
    (hb : u.equalFold t b = true) (haascii : ∀ c ∈ a.toList, c.toNat < 128)
    (hbascii : ∀ c ∈ b.toList, c.toNat < 128) :
    a.toList.map Char.toLower = b.toList.map Char.toLower := by
  rw [Unicode.equalFold, decide_eq_true_eq] at ha hb
  rw [← map_fold_of_ascii (u := u) haascii, ← map_fold_of_ascii (u := u) hbascii, ← ha, hb]

theorem connective_eq_false {t : String}
    (h : (vocabulary u).isAnd t = true ∨ (vocabulary u).isOr t = true) :
    (vocabulary u).isNot t = false ∧ (vocabulary u).isOpen t = false := by
  rw [Bool.eq_false_iff, Bool.eq_false_iff]
  constructor
  · intro hnot
    rcases h with h | h
    · exact absurd (map_toLower_of_equalFold h hnot (by simp) (by simp)) (by decide)
    · exact absurd (map_toLower_of_equalFold h hnot (by simp) (by simp)) (by decide)
  · intro hopen
    obtain rfl : t = "(" := of_decide_eq_true hopen
    rcases h with h | h
    · exact absurd (length_of_equalFold h) (by decide)
    · exact absurd (length_of_equalFold h) (by decide)

/-- Where an operand starts, the second token is the parser's operator or a sign, so it is no
selector. -/
theorem not_isList_of_runs {ts : List String} {d : Nat}
    (hloose : Runs (vocabulary u) (Loose u) .operand d ts) {o r : String} {tail : List String}
    (heq : ts.flatMap cutWord = o :: r :: tail) (ho : u.toLower o = "in") :
    ¬IsList u r := by
  intro hr
  have hlength : o.toList.length = 2 := by
    rw [← length_toLower (u := u), ho]
    decide
  cases ts with
  | nil => cases heq
  | cons t ts =>
    rcases cutWord_cases t with hcut | ⟨p, x, more, hcut, hstray, -⟩
    · rw [List.flatMap_cons, hcut, List.singleton_append] at heq
      obtain ⟨rfl, htail⟩ := List.cons.inj heq
      have hnot : (vocabulary u).isNot t = false := equalFold_eq_false (by rw [hlength]; decide)
      have hopen : (vocabulary u).isOpen t = false := by
        rw [Bool.eq_false_iff]
        intro hparen
        obtain rfl : t = "(" := of_decide_eq_true hparen
        cases hlength
      simp only [Runs, hnot, hopen] at hloose
      obtain ⟨o', r', ts', rfl, ⟨-, ho'⟩, -⟩ := Runs.exists_operand hloose
      rw [List.flatMap_cons, cutWord_operator ho', List.singleton_append] at htail
      obtain ⟨rfl, -⟩ := List.cons.inj htail
      have := length_operator ho'
      have := length_selector hr
      omega
    · rw [List.flatMap_cons, hcut, List.cons_append, List.cons_append] at heq
      obtain ⟨-, htail⟩ := List.cons.inj heq
      obtain ⟨rfl, -⟩ := List.cons.inj htail
      exact IsValue.not_stray (Or.inr hr.1) hstray

/-- The documented reading does not stand before an operand where the parser stands behind one. -/
theorem not_runs_operand_of_after {ts : List String} {d d' : Nat}
    (hloose : Runs (vocabulary u) (Loose u) .after d ts) :
    ¬Runs (vocabulary u) (Proper u) .operand d' (ts.flatMap cutWord) := by
  intro hproper
  cases ts with
  | nil => exact hproper
  | cons f ts =>
    rw [Runs] at hloose
    split at hloose
    · rename_i hclose
      obtain rfl : f = ")" := of_decide_eq_true hclose
      have hnot : (vocabulary u).isNot ")" = false := equalFold_eq_false (by decide)
      have hopen : (vocabulary u).isOpen ")" = false := rfl
      rw [List.flatMap_cons, cutWord_keyword (u := u) (by simp [Vocabulary.Keyword, hclose])] at hproper
      simp only [List.singleton_append, Runs, hnot, hopen] at hproper
      obtain ⟨o, r, tail, -, h, -⟩ := Runs.exists_operand hproper
      exact isValue_paren (Or.inr rfl) h.isValue.1
    · -- a connective is too short for a selector
      obtain ⟨hf, hloose⟩ := hloose
      obtain ⟨hnot, hopen⟩ := connective_eq_false hf
      have hkeyword : (vocabulary u).Keyword f := by unfold Vocabulary.Keyword; tauto
      have hlength := (keyword_letters hkeyword).2.2
      rw [List.flatMap_cons, cutWord_keyword hkeyword] at hproper
      simp only [List.singleton_append, Runs, hnot, hopen] at hproper
      obtain ⟨o, r, tail, heq, h, -⟩ := Runs.exists_operand hproper
      obtain ⟨ho, hr⟩ := h.of_length (by omega)
      exact not_isList_of_runs hloose heq ho hr

/-- The tables agree on the letters that both take into ASCII. -/
def TablesAgree (u : Unicode) : Prop := ∀ c, (u.lower c).toNat < 128 → (u.fold c).toNat < 128 →
    u.lower c = u.fold c

theorem operator_eq_false (hu : TablesAgree u) {o : String}
    (ho : u.toLower o ∈ ["==", "!=", "contains", "in"]) :
    (vocabulary u).isAnd o = false ∧ (vocabulary u).isOr o = false ∧
      (vocabulary u).isClose o = false := by
  have hlength := length_operator ho
  refine ⟨equalFold_eq_false ?_, ?_, ?_⟩
  · have : "and".toList.length = 3 := by decide
    omega
  · rw [Bool.eq_false_iff]
    intro hor
    have hfold : o.toList.map u.fold = ['o', 'r'] := by
      have hword : "or".toList.map u.fold = ['o', 'r'] := map_fold_of_ascii (by simp)
      rw [← hword]
      exact of_decide_eq_true hor
    match hletters : o.toList with
    | [] | [_] | _ :: _ :: _ :: _ => simp [hletters] at hfold
    | [a, b] =>
      rw [hletters] at hfold
      obtain ⟨ha, -⟩ := List.cons.inj hfold
      have hlower : (u.toLower o).toList.head? = some (u.lower a) := by simp [Unicode.toLower, hletters]
      have hagree := hu a
      simp only [List.mem_cons, List.not_mem_nil, or_false] at ho
      rcases ho with ho | ho | ho | ho <;> rw [ho] at hlower <;> simp at hlower <;>
        simp [← hlower, ha] at hagree
  · rw [Bool.eq_false_iff]
    intro hclose
    obtain rfl : o = ")" := of_decide_eq_true hclose
    simp at hlength

/-- A word that is cut does not start an operand: the parser's operator would be its value. -/
theorem not_runs_cut (hu : TablesAgree u) {t o r : String} {ts : List String} {d d' : Nat}
    (hd : d' ≤ d) (ho : u.toLower o ∈ ["==", "!=", "contains", "in"])
    (hloose : Runs (vocabulary u) (Loose u) .after d ts)
    (hback : ∀ e, Runs (vocabulary u) (Proper u) .after e (ts.flatMap cutWord) → ¬e < d)
    (hcut : cutWord t ≠ [t]) :
    ¬Runs (vocabulary u) (Proper u) .operand d' ((t :: o :: r :: ts).flatMap cutWord) := by
  intro hproper
  obtain ⟨p, x, more, hpieces, hx, hmore, -⟩ := (cutWord_cases t).resolve_left hcut
  obtain ⟨hand, hor, hclose⟩ := operator_eq_false hu ho
  simp only [List.flatMap_cons, hpieces, cutWord_operator ho, List.cons_append, List.nil_append]
    at hproper
  rw [Runs] at hproper
  split at hproper
  · exact not_runs_stray hx (by simp) hproper
  · split at hproper
    · exact not_runs_stray hx (by simp) hproper
    · obtain ⟨x', y, tail, heq, hleaf, hafter⟩ := Runs.exists_operand hproper
      obtain ⟨rfl, hrest⟩ := List.cons.inj heq
      rcases hmore with rfl | ⟨z, more', rfl, hmore⟩
      · -- the operator is the value
        obtain ⟨rfl, rfl⟩ := List.cons.inj hrest
        rcases cutWord_cases r with hr | ⟨p', x'', more'', hr, hx'', -⟩
        · rw [hr, List.singleton_append, Runs] at hafter
          split at hafter
          · exact hback _ hafter.2 (by omega)
          · exact not_runs_operand_of_after hloose hafter.2
        · rw [hr, List.cons_append, List.cons_append, Runs] at hafter
          split at hafter
          · exact not_runs_stray hx'' (by simp) hafter.2
          · exact not_runs_stray hx'' (by simp) hafter.2
      · obtain ⟨rfl, rfl⟩ := List.cons.inj hrest
        rcases hmore with hz | rfl | ⟨w, more'', rfl, hw⟩
        · exact hleaf.isValue.2.not_stray hz
        · -- the operator is where a connective is due
          simp [Runs, hand, hor, hclose] at hafter
        · exact not_runs_stray hw (by simp) hafter

theorem whole_first (hu : TablesAgree u) {t : String} {ts : List String} {m : Mode String}
    {d d' : Nat} (hd : d' ≤ d) (hloose : Runs (vocabulary u) (Loose u) m d (t :: ts))
    (hproper : Runs (vocabulary u) (Proper u) m d' ((t :: ts).flatMap cutWord))
    (hback : ∀ ts' : List String, ts'.length < ts.length →
      Runs (vocabulary u) (Loose u) .after d ts' →
      ∀ e, Runs (vocabulary u) (Proper u) .after e (ts'.flatMap cutWord) →
        ¬e < d) : cutWord t = [t] := by
  by_contra hcut
  cases m with
  | operand =>
    rw [Runs] at hloose
    split at hloose
    · exact hcut (cutWord_keyword (u := u) (by unfold Vocabulary.Keyword; tauto))
    · split at hloose
      · exact hcut (cutWord_keyword (u := u) (by unfold Vocabulary.Keyword; tauto))
      · obtain ⟨o, r, ts', rfl, ⟨-, ho⟩, hafter⟩ := Runs.exists_operand hloose
        have hback' := hback ts' (by simp) hafter
        exact not_runs_cut hu hd ho hafter hback' hcut hproper
  | second l =>
    obtain ⟨o, r, ts', heq, ⟨-, ho⟩, -⟩ := Runs.exists_operand hloose
    obtain ⟨rfl, -⟩ := List.cons.inj heq
    exact hcut (cutWord_operator ho)
  | third l o =>
    obtain ⟨p, x, more, hpieces, hx, -⟩ := (cutWord_cases t).resolve_left hcut
    rw [List.flatMap_cons, hpieces] at hproper
    exact not_runs_stray hx (by simp) hproper.2
  | after =>
    rw [Runs] at hloose
    split at hloose
    · exact hcut (cutWord_keyword (u := u) (by unfold Vocabulary.Keyword; tauto))
    · exact hcut (cutWord_keyword (u := u) (by unfold Vocabulary.Keyword; tauto))

theorem whole_of_runs (hu : TablesAgree u) {ts : List String} {m : Mode String} {d d' : Nat}
    (hd : d' ≤ d) (hloose : Runs (vocabulary u) (Loose u) m d ts)
    (hproper : Runs (vocabulary u) (Proper u) m d' (ts.flatMap cutWord)) :
    d' = d ∧ ∀ t ∈ ts, cutWord t = [t] := by
  induction hn : ts.length using Nat.strong_induction_on generalizing ts m d d' with
  | _ n ih =>
    subst hn
    cases ts with
    | nil =>
      cases m with
      | after => exact ⟨hproper.trans hloose.symm, by simp⟩
      | operand | second | third => exact hloose.elim
    | cons t ts =>
      have hcut : cutWord t = [t] := by
        refine whole_first hu hd hloose hproper fun ts' hlength hl e hp he => ?_
        obtain ⟨heq, -⟩ := ih ts'.length (by simp; omega) he.le hl hp rfl
        omega
      rw [List.flatMap_cons, hcut, List.singleton_append] at hproper
      obtain ⟨m', e, e', he, hdepth, hl, hp⟩ := Runs.cons_both hd hloose hproper
      obtain ⟨heq, hall⟩ := ih ts.length (by simp) he hl hp rfl
      exact ⟨hdepth heq, List.forall_mem_cons.mpr ⟨hcut, hall⟩⟩

theorem whole_of_sentence {ts : List String} (h : Sentence (vocabulary u) (Three (Proper u)) ts) :
    ∀ t ∈ ts, cutWord t = [t] := by
  refine Expression.forall_mem h ?_ fun t ht => cutWord_keyword ht
  rintro ts ⟨l, o, r, rfl, hproper⟩
  simp only [List.forall_mem_cons, List.not_mem_nil, false_implies, implies_true, and_true]
  exact ⟨hproper.isValue.1.cutWord, cutWord_operator hproper.loose.2, hproper.isValue.2.cutWord⟩

theorem accepted_iff (s : String) :
    (∃ f, parseFilter u s = .ok f) ↔ Sentence (vocabulary u) (Three (Loose u))
    (tokenizeFilter s) := by
  have hshape : (fun ts => ∃ f, Triple u ts f) = Three (Loose u) := by
    funext ts
    apply propext
    constructor
    · rintro ⟨f, l, o, r, rfl, hf⟩
      exact ⟨l, o, r, rfl, predicate_ok_iff.mp ⟨f, hf⟩⟩
    · rintro ⟨l, o, r, rfl, hloose⟩
      obtain ⟨f, hf⟩ := predicate_ok_iff.mpr hloose
      exact ⟨f, l, o, r, rfl, hf⟩
  simp only [parseFilter_ok_iff]
  rw [← hshape]
  constructor
  · rintro ⟨f, hf⟩
    exact hf.expression
  · exact Expression.exists_reads

end Both

/-! ## The language accepted -/

section Accepted

variable {u : Unicode}

/-- A text is a filter exactly if it is documented to be one, unless an operator is given a selector it
does not apply to, or stands at a word without a blank. -/
theorem parseFilter_documented_iff (hu : TablesAgree u) (s : String) :
    ((∃ f, parseFilter u s = .ok f) ↔ Documented u s) ↔ Strict u s ∧ Apart u s := by
  have hclose : ∀ t, (vocabulary u).isClose t = true → (vocabulary u).isAnd t = false ∧
      (vocabulary u).isOr t = false :=
    fun t => not_keyword_of_isClose
  -- where no word is cut, both languages are over the same tokens
  have hwhole : (∀ t ∈ tokenizeFilter s, cutWord t = [t]) →
      (Documented u s ↔ Sentence (vocabulary u) (Three (Proper u)) (tokenizeFilter s)) := by
    intro h
    rw [Documented, lexed, flatMap_cutWord h]
  have hloose : Sentence (vocabulary u) (Three (Proper u)) (tokenizeFilter s) →
      Sentence (vocabulary u) (Three (Loose u)) (tokenizeFilter s) := fun h =>
    h.of_operands hclose fun p hp => ((h.runs hclose).forall_operands p hp).loose
  have hboth : Sentence (vocabulary u) (Three (Loose u)) (tokenizeFilter s) → Documented u s →
      ∀ t ∈ tokenizeFilter s, cutWord t = [t] := fun h h' =>
    (whole_of_runs hu le_rfl (h.runs hclose) (Sentence.runs hclose h')).2
  rw [accepted_iff]
  constructor
  · intro h
    constructor
    · intro haccepted
      have hproper := (hwhole (hboth haccepted (h.mp haccepted))).mp (h.mp haccepted)
      exact (hproper.runs hclose).forall_operands
    · intro hdocumented
      exact hboth (h.mpr hdocumented) hdocumented
  · rintro ⟨hstrict, hapart⟩
    constructor
    · intro haccepted
      have hproper := haccepted.of_operands hclose (hstrict haccepted)
      exact (hwhole (whole_of_sentence hproper)).mpr hproper
    · intro hdocumented
      exact hloose ((hwhole (hapart hdocumented)).mp hdocumented)

end Accepted

theorem parseFilter_documented_iff_tags :
    (∃ f, parseFilter .ascii "not ServiceTags contains \"v1\"" = .ok f) ↔
      Documented .ascii "not ServiceTags contains \"v1\"" := by
  refine (parseFilter_documented_iff (u := .ascii) (fun _ _ _ => rfl) _).mpr ⟨fun _ p hp => ?_,
    fun _ => by decide +kernel⟩
  have hoperands :
      operands (vocabulary .ascii) .operand (tokenizeFilter "not ServiceTags contains \"v1\"") =
      [("ServiceTags", "contains", "\"v1\"")] := by decide +kernel
  rw [hoperands, List.mem_singleton] at hp
  obtain rfl := hp
  refine Or.inr (Or.inl ⟨by decide +kernel,
    ⟨⟨by decide, by simp [inWord, charClass], by decide +kernel⟩, Or.inl (by decide)⟩, Or.inl ?_⟩)
  exact ⟨"v1", by decide, rfl⟩

/-- A selector that there is none of is taken, and matches nothing. -/
theorem unknown_selector_accepted :
    ¬∀ s : String, (∃ f, parseFilter .ascii s = .ok f) ↔ Documented .ascii s := by
  intro h
  have haccepted : ∃ f, parseFilter .ascii "Foo == \"x\"" = .ok f := by
    have hok : (parseFilter .ascii "Foo == \"x\"").isOk = true := by decide +kernel
    cases hparse : parseFilter .ascii "Foo == \"x\"" with
    | error err => rw [hparse] at hok; cases hok
    | ok f => exact ⟨f, rfl⟩
  have hruns := Sentence.runs (fun _ => not_keyword_of_isClose) ((h _).mp haccepted)
  have hlexed : lexed "Foo == \"x\"" = ["Foo", "==", "\"x\""] := by decide +kernel
  have hnot : (vocabulary .ascii).isNot "Foo" = false := by decide
  have hopen : (vocabulary .ascii).isOpen "Foo" = false := by decide
  simp only [hlexed, Runs, hnot, hopen] at hruns
  rcases hruns.1 with ⟨-, ⟨-, hl⟩, -⟩ | ⟨ho, -⟩ | ⟨ho, -⟩
  · revert hl
    decide +kernel
  · revert ho
    decide +kernel
  · revert ho
    decide +kernel

/-- Without a blank before it, the operator is part of the selector's word. -/
example : (parseFilter .ascii "ServiceMeta.env==\"prod\"").isOk = false ∧
    lexed "ServiceMeta.env==\"prod\"" = ["ServiceMeta.env", "==", "\"prod\""] := by decide +kernel

end YellowPages.Consul
