import YellowPages.Consul.Filter

/-!
# What a filter means

Filters as trees, with the boolean meaning of a tree and the text it is written as. The text is parsed
back into the meaning.
-/

namespace YellowPages.Consul

open Lib Consuldns

/-! ## Trees -/

/-- The predicates: on the tags, on a key of the metadata, on the statuses of the checks. -/
inductive Test where
  | tagsContain (v : String)
  | inTags (v : String)
  | metaEq (k v : String)
  | metaNe (k v : String)
  | statusEq (v : String)
  | statusNe (v : String)
  | statusContains (v : String)
  | inStatus (v : String)
  deriving DecidableEq, Repr

inductive Tree where
  | test (t : Test)
  | not (a : Tree)
  | and (a b : Tree)
  | or (a b : Tree)
  deriving DecidableEq, Repr

/-- A key that is not there has the empty value. A status is compared with those of all checks. -/
def Test.holds (t : Test) (v : View) : Bool :=
  match t with
  | tagsContain val | inTags val => v.tags.contains val
  | metaEq k val => v.metadata.getD k "" = val
  | metaNe k val => v.metadata.getD k "" ≠ val
  | statusEq val | statusContains val | inStatus val => v.statuses.contains val
  | statusNe val => !v.statuses.contains val

def Tree.holds : Tree → View → Bool
  | test t, v => t.holds v
  | not a, v => !a.holds v
  | and a b, v => a.holds v && b.holds v
  | or a b, v => a.holds v || b.holds v

/-! ## Texts -/

def quoted (v : String) : String := "\"" ++ v ++ "\""

/-- The three words of a predicate. -/
def Test.words : Test → String × String × String
  | tagsContain v => ("ServiceTags", "contains", quoted v)
  | inTags v => (quoted v, "in", "ServiceTags")
  | metaEq k v => ("ServiceMeta." ++ k, "==", quoted v)
  | metaNe k v => ("ServiceMeta." ++ k, "!=", quoted v)
  | statusEq v => ("Checks.Status", "==", quoted v)
  | statusNe v => ("Checks.Status", "!=", quoted v)
  | statusContains v => ("Checks.Status", "contains", quoted v)
  | inStatus v => (quoted v, "in", "Checks.Status")

def Test.print (t : Test) : String := t.words.1 ++ " " ++ t.words.2.1 ++ " " ++ t.words.2.2

def enclose (looser : Bool) (text : String) : String := if looser then "(" ++ text ++ ")" else text

/-- What stands for a tree where an expression of level `l` is expected: in parentheses if it is
looser. -/
def Tree.print (l : Level) : Tree → String
  | test t => t.print
  | not a => enclose (l = .primary) ("not " ++ a.print .negation)
  | and a b =>
    enclose (l = .primary ∨ l = .negation) (a.print .conjunction ++ " and " ++ b.print .conjunction)
  | or a b => enclose (l ≠ .disjunction) (a.print .disjunction ++ " or " ++ b.print .disjunction)

/-- Values have no quote, and keys are part of a word. -/
def Test.WellFormed : Test → Prop
  | tagsContain v | inTags v | statusEq v | statusNe v | statusContains v | inStatus v =>
    '"' ∉ v.toList
  | metaEq k v | metaNe k v => (∀ c ∈ k.toList, c ∉ [' ', '\t', '(', ')', '"']) ∧ '"' ∉ v.toList

def Tree.WellFormed : Tree → Prop
  | test t => t.WellFormed
  | not a => a.WellFormed
  | and a b => a.WellFormed ∧ b.WellFormed
  | or a b => a.WellFormed ∧ b.WellFormed

example : Tree.print .disjunction
    (.and (.or (.test (.tagsContain "v2")) (.test (.metaEq "env" "prod")))
      (.not (.test (.statusEq "critical")))) =
      "(ServiceTags contains \"v2\" or ServiceMeta.env == \"prod\") and not Checks.Status == \"critical\"" := by
  decide +kernel

/-! ## Tokens of a text -/

def Test.tokens (t : Test) : List String := [t.words.1, t.words.2.1, t.words.2.2]

def encloseTokens (looser : Bool) (ts : List String) : List String :=
  if looser then "(" :: ts ++ [")"] else ts

def Tree.tokens (l : Level) : Tree → List String
  | test t => t.tokens
  | not a => encloseTokens (l = .primary) ("not" :: a.tokens .negation)
  | and a b =>
    encloseTokens (l = .primary ∨ l = .negation)
      (a.tokens .conjunction ++ "and" :: b.tokens .conjunction)
  | or a b =>
    encloseTokens (l ≠ .disjunction) (a.tokens .disjunction ++ "or" :: b.tokens .disjunction)

/-- The text is cut into these tokens, whatever follows it. -/
def Cuts (text : String) (ts : List String) : Prop :=
  ∀ s : List Char, s.head?.any (inWord charClass) = false →
    tokenize charClass (text.toList ++ s) = ts.map String.toList ++ tokenize charClass s

theorem inWord_iff (c : Char) : inWord charClass c = true ↔ c ∉ [' ', '\t', '(', ')', '"'] := by
  unfold inWord charClass
  split_ifs <;> simp_all <;> tauto

theorem cuts_word {w : String} (hfirst : w.toList.head?.any (charClass · = .other) = true)
    (hall : w.toList.all (inWord charClass) = true) : Cuts w [w] := by
  intro s hs
  cases hw : w.toList with
  | nil => simp [hw] at hfirst
  | cons c cs =>
    rw [hw] at hfirst hall
    rw [List.all_cons, Bool.and_eq_true] at hall
    rw [List.map_singleton, hw]
    exact tokenize_word (by simpa using hfirst) (List.all_eq_true.mp hall.2) hs

theorem cuts_quoted {v : String} (hv : '"' ∉ v.toList) : Cuts (quoted v) [quoted v] := by
  intro s _
  have hquoted : (quoted v).toList = '"' :: v.toList ++ ['"'] := by simp [quoted]
  have hbody : ∀ b ∈ v.toList, charClass b ≠ .quote := by
    intro b hb hclass
    have hne : b ≠ '"' := fun heq => hv (heq ▸ hb)
    revert hclass
    unfold charClass
    split_ifs <;> simp_all
  rw [List.map_singleton, hquoted, List.append_assoc]
  exact tokenize_quoted rfl hbody rfl

/-- A blank separates. -/
theorem Cuts.blank {text text' : String} {ts ts' : List String} (h : Cuts text ts)
    (h' : Cuts text' ts') :
    Cuts (text ++ " " ++ text') (ts ++ ts') := by
  intro s hs
  have hlist : (text ++ " " ++ text').toList ++ s = text.toList ++ ' ' :: (text'.toList ++ s) := by simp
  rw [hlist, h _ (by rfl), tokenize_blank rfl, h' s hs, List.map_append, List.append_assoc]

theorem Cuts.enclose {text : String} {ts : List String} (h : Cuts text ts) (looser : Bool) :
    Cuts (enclose looser text) (encloseTokens looser ts) := by
  unfold Consul.enclose encloseTokens
  split
  · intro s _
    have hlist : ("(" ++ text ++ ")").toList ++ s = '(' :: (text.toList ++ ')' :: s) := by simp
    rw [hlist, tokenize_paren rfl, h _ (by rfl), tokenize_paren rfl]
    simp
  · exact h

theorem cuts_equal : Cuts "==" ["=="] := fun _ _ => tokenize_symbol (Or.inl rfl) rfl

theorem cuts_unequal : Cuts "!=" ["!="] := fun _ _ => tokenize_symbol (Or.inr rfl) rfl

theorem cuts_key {k : String} (hk : ∀ c ∈ k.toList, c ∉ [' ', '\t', '(', ')', '"']) :
    Cuts ("ServiceMeta." ++ k) ["ServiceMeta." ++ k] := by
  refine cuts_word (by rw [String.toList_append]; rfl) ?_
  rw [String.toList_append, List.all_append, Bool.and_eq_true]
  exact ⟨by decide +kernel, List.all_eq_true.mpr fun c hc => (inWord_iff c).mpr (hk c hc)⟩

theorem Test.cuts {t : Test} (h : t.WellFormed) : Cuts t.print t.tokens := by
  have htags : Cuts "ServiceTags" ["ServiceTags"] := cuts_word (by decide +kernel) (by decide +kernel)
  have hstatus : Cuts "Checks.Status" ["Checks.Status"] :=
    cuts_word (by decide +kernel) (by decide +kernel)
  have hcontains : Cuts "contains" ["contains"] := cuts_word (by decide +kernel) (by decide +kernel)
  have hin : Cuts "in" ["in"] := cuts_word (by decide +kernel) (by decide +kernel)
  cases t with
  | tagsContain v => exact (htags.blank hcontains).blank (cuts_quoted h)
  | inTags v => exact ((cuts_quoted h).blank hin).blank htags
  | metaEq k v => exact ((cuts_key h.1).blank cuts_equal).blank (cuts_quoted h.2)
  | metaNe k v => exact ((cuts_key h.1).blank cuts_unequal).blank (cuts_quoted h.2)
  | statusEq v => exact (hstatus.blank cuts_equal).blank (cuts_quoted h)
  | statusNe v => exact (hstatus.blank cuts_unequal).blank (cuts_quoted h)
  | statusContains v => exact (hstatus.blank hcontains).blank (cuts_quoted h)
  | inStatus v => exact ((cuts_quoted h).blank hin).blank hstatus

theorem Tree.cuts {t : Tree} (h : t.WellFormed) (l : Level) : Cuts (t.print l) (t.tokens l) := by
  have hnot : Cuts "not" ["not"] := cuts_word (by decide +kernel) (by decide +kernel)
  have hand : Cuts "and" ["and"] := cuts_word (by decide +kernel) (by decide +kernel)
  have hor : Cuts "or" ["or"] := cuts_word (by decide +kernel) (by decide +kernel)
  induction t generalizing l with
  | test t => exact Test.cuts h
  | not a ih => exact (hnot.blank (ih h .negation)).enclose _
  | and a b iha ihb =>
    have hcuts := ((iha h.1 .conjunction).blank hand).blank (ihb h.2 .conjunction)
    have htext : a.print .conjunction ++ " " ++ "and" ++ " " ++ b.print .conjunction =
        a.print .conjunction ++ " and " ++ b.print .conjunction := by
      simp only [String.append_assoc]
      rfl
    rw [htext, List.append_assoc] at hcuts
    exact hcuts.enclose _
  | or a b iha ihb =>
    have hcuts := ((iha h.1 .disjunction).blank hor).blank (ihb h.2 .disjunction)
    have htext : a.print .disjunction ++ " " ++ "or" ++ " " ++ b.print .disjunction =
        a.print .disjunction ++ " or " ++ b.print .disjunction := by
      simp only [String.append_assoc]
      rfl
    rw [htext, List.append_assoc] at hcuts
    exact hcuts.enclose _

theorem tokenizeFilter_print {t : Tree} (h : t.WellFormed) (l : Level) :
    tokenizeFilter (t.print l) = t.tokens l := by
  have hcuts := t.cuts h l [] rfl
  rw [List.append_nil, tokenize_nil, List.append_nil] at hcuts
  rw [tokenizeFilter, hcuts, List.map_map]
  simp [Function.comp_def]

/-! ## The meaning of the tokens -/

section Meaning

variable {u : Unicode}

theorem unquote_quoted (v : String) : unquote (quoted v) = v := by
  have hlist : (quoted v).toList = '"' :: (v.toList ++ ['"']) := by simp [quoted]
  have hlength : 2 ≤ (quoted v).length := by
    rw [← String.length_toList, hlist]
    simp
  have hlast : ('"' :: (v.toList ++ ['"'])).getLast? = some '"' := by
    rw [← List.cons_append, List.getLast?_concat]
  rw [unquote, if_pos ⟨hlength, by rw [hlist]; rfl, by rw [hlist, hlast]⟩, hlist]
  simp

theorem equalFold_cons_ne {s t : String} {c d : Char} {cs ds : List Char} (hs : s.toList = c :: cs)
    (ht : t.toList = d :: ds) (hne : u.fold c ≠ u.fold d) : u.equalFold s t = false := by
  rw [Unicode.equalFold, decide_eq_false_iff_not, hs, ht, List.map_cons, List.map_cons]
  exact fun heq => hne (List.cons.inj heq).1

theorem scalarEq_status (v : View) (val : String) :
    scalarEq u v "Checks.Status" val = v.statuses.contains val := by
  rw [scalarEq, if_pos (equalFold_self _)]

theorem listHas_tags (v : View) (val : String) :
    listHas u v "ServiceTags" val = v.tags.contains val := by
  rw [listHas, if_pos (equalFold_self _)]

theorem listHas_status (v : View) (val : String) :
    listHas u v "Checks.Status" val = v.statuses.contains val := by
  have htags : u.equalFold "Checks.Status" "ServiceTags" = false :=
    equalFold_eq_false (by decide +kernel)
  rw [listHas, htags, equalFold_self]
  rfl

theorem scalarEq_key (v : View) (k val : String) :
    scalarEq u v ("ServiceMeta." ++ k) val = decide (v.metadata.getD k "" = val) := by
  have hfold : ∀ c : Char, c.toNat < 128 → u.fold c = c.toLower := u.fold_ascii
  have hlist : ("ServiceMeta." ++ k).toList = 'S' :: ("erviceMeta.".toList ++ k.toList) := by simp
  have hchecks : "Checks.Status".toList = 'C' :: "hecks.Status".toList := by simp
  have hstatus : u.equalFold ("ServiceMeta." ++ k) "Checks.Status" = false :=
    equalFold_cons_ne hlist hchecks (by rw [hfold 'S' (by decide), hfold 'C' (by decide)]; decide)
  have htake : ("ServiceMeta." ++ k).toList.take "ServiceMeta.".length = "ServiceMeta.".toList := by
    rw [String.toList_append, ← String.length_toList, List.take_left]
  have hkey : hasPrefixFold u ("ServiceMeta." ++ k) "ServiceMeta." = true := by
    rw [hasPrefixFold, htake, String.ofList_toList, equalFold_self, Bool.and_true]
    decide +kernel
  have hdrop : ("ServiceMeta." ++ k).toList.drop "ServiceMeta.".length = k.toList := by
    rw [String.toList_append, ← String.length_toList, List.drop_left]
  rw [scalarEq, hstatus, hkey, hdrop, String.ofList_toList]
  rfl

/-! The operators of `parsePredicate`. -/

theorem predicate_equal {l : String} (hl : l ≠ "") (val : String) :
    predicate u l "==" (quoted val) = .ok fun v => scalarEq u v l val := by
  have hop : u.toLower "==" = "==" := u.toLower_of_ascii (by simp)
  simp [predicate, hl, hop, unquote_quoted]

theorem predicate_unequal {l : String} (hl : l ≠ "") (val : String) :
    predicate u l "!=" (quoted val) = .ok fun v => !scalarEq u v l val := by
  have hop : u.toLower "!=" = "!=" := u.toLower_of_ascii (by simp)
  simp [predicate, hl, hop, unquote_quoted]

theorem predicate_contains {l : String} (hl : l ≠ "") (val : String) :
    predicate u l "contains" (quoted val) = .ok fun v => listHas u v l val := by
  have hop : u.toLower "contains" = "contains" := u.toLower_of_ascii (by simp)
  simp [predicate, hl, hop, unquote_quoted]

theorem predicate_in (val r : String) :
    predicate u (quoted val) "in" r = .ok fun v => listHas u v r val := by
  have hop : u.toLower "in" = "in" := u.toLower_of_ascii (by simp)
  have hl : quoted val ≠ "" := by simp [← String.toList_inj, quoted]
  simp [predicate, hl, hop, unquote_quoted]

theorem predicate_words (t : Test) : predicate u t.words.1 t.words.2.1 t.words.2.2 = .ok t.holds := by
  have hkey : ∀ k, "ServiceMeta." ++ k ≠ "" := fun k => by simp [← String.toList_inj]
  have htags : "ServiceTags" ≠ "" := by decide
  have hstatus : "Checks.Status" ≠ "" := by decide
  cases t with
  | tagsContain val =>
    simp only [Test.words, predicate_contains htags, listHas_tags]
    rfl
  | inTags val =>
    simp only [Test.words, predicate_in, listHas_tags]
    rfl
  | metaEq k val =>
    simp only [Test.words, predicate_equal (hkey k), scalarEq_key]
    rfl
  | metaNe k val =>
    simp only [Test.words, predicate_unequal (hkey k), scalarEq_key, ← decide_not]
    rfl
  | statusEq val =>
    simp only [Test.words, predicate_equal hstatus, scalarEq_status]
    rfl
  | statusNe val =>
    simp only [Test.words, predicate_unequal hstatus, scalarEq_status]
    rfl
  | statusContains val =>
    simp only [Test.words, predicate_contains hstatus, listHas_status]
    rfl
  | inStatus val =>
    simp only [Test.words, predicate_in, listHas_status]
    rfl

/-- No predicate starts with `not` or a parenthesis: it has another first letter, or other words are
longer. -/
theorem words_first (t : Test) :
    (vocabulary u).isNot t.words.1 = false ∧ (vocabulary u).isOpen t.words.1 = false := by
  have hquoted : ∀ v, u.equalFold (quoted v) "not" = false ∧ decide (quoted v = "(") = false := by
    intro v
    have hlist : (quoted v).toList = '"' :: (v.toList ++ ['"']) := by simp [quoted]
    have hnot : "not".toList = 'n' :: "ot".toList := by simp
    refine ⟨equalFold_cons_ne hlist hnot ?_, ?_⟩
    · rw [u.fold_ascii '"' (by decide), u.fold_ascii 'n' (by decide)]
      decide
    · rw [decide_eq_false_iff_not]
      intro heq
      have := congrArg String.toList heq
      simp [quoted] at this
  have hkey : ∀ k, u.equalFold ("ServiceMeta." ++ k) "not" = false ∧
      decide ("ServiceMeta." ++ k = "(") = false := by
    intro k
    refine ⟨equalFold_eq_false (by simp), ?_⟩
    rw [decide_eq_false_iff_not]
    intro heq
    have := congrArg String.toList heq
    simp at this
  cases t with
  | inTags v | inStatus v => exact hquoted v
  | metaEq k v | metaNe k v => exact hkey k
  | tagsContain v | statusEq v | statusNe v | statusContains v =>
    exact ⟨equalFold_eq_false (by simp [Test.words]), by simp [Test.words, vocabulary]⟩

/-- An expression of a level is one of every looser level. -/
theorem reads_of_primary {ts : List String} {f : FilterExpr} (hfirst : Avoids (vocabulary u).isNot ts)
    (h : Reads (vocabulary u) (Triple u) .primary ts f) (l : Level) :
    Reads (vocabulary u) (Triple u) l ts f := by
  have hneg := Reads.primary hfirst h
  cases l with
  | primary => exact h
  | negation => exact hneg
  | conjunction => exact .negation hneg
  | disjunction => exact .conjunction (.negation hneg)

theorem reads_parens {ts : List String} {f : FilterExpr}
    (h : Reads (vocabulary u) (Triple u) .disjunction ts f) (l : Level) :
    Reads (vocabulary u) (Triple u) l ("(" :: ts ++ [")"]) f := by
  refine reads_of_primary ⟨"(", ts ++ [")"], rfl, equalFold_eq_false (by decide +kernel)⟩
    (.parens rfl h rfl) l

theorem Tree.reads (t : Tree) (l : Level) : Reads (vocabulary u) (Triple u) l (t.tokens l) t.holds := by
  induction t generalizing l with
  | test t =>
    obtain ⟨hnot, hopen⟩ := words_first (u := u) t
    exact reads_of_primary ⟨_, _, rfl, hnot⟩
      (.operand ⟨_, _, rfl, hopen⟩ ⟨_, _, _, rfl, predicate_words t⟩) l
  | not a ih =>
    have hneg :
        Reads (vocabulary u) (Triple u) .negation ("not" :: a.tokens .negation) (Tree.not a).holds :=
      .not (equalFold_self "not") (ih .negation)
    unfold Tree.tokens encloseTokens
    cases l with
    | primary => exact reads_parens (.conjunction (.negation hneg)) .primary
    | negation => exact hneg
    | conjunction => exact .negation hneg
    | disjunction => exact .conjunction (.negation hneg)
  | and a b iha ihb =>
    have hand : Reads (vocabulary u) (Triple u) .conjunction
        (a.tokens .conjunction ++ "and" :: b.tokens .conjunction) (Tree.and a b).holds :=
      (iha .conjunction).and_conjunction (equalFold_self "and") (ihb .conjunction)
    unfold Tree.tokens encloseTokens
    cases l with
    | primary => exact reads_parens (.conjunction hand) .primary
    | negation => exact reads_parens (.conjunction hand) .negation
    | conjunction => exact hand
    | disjunction => exact .conjunction hand
  | or a b iha ihb =>
    have hor : Reads (vocabulary u) (Triple u) .disjunction
        (a.tokens .disjunction ++ "or" :: b.tokens .disjunction) (Tree.or a b).holds :=
      (iha .disjunction).or_disjunction (equalFold_self "or") (ihb .disjunction)
    unfold Tree.tokens encloseTokens
    cases l with
    | primary => exact reads_parens hor .primary
    | negation => exact reads_parens hor .negation
    | conjunction => exact reads_parens hor .conjunction
    | disjunction => exact hor

end Meaning

/-- The text of a tree is parsed into its meaning. -/
theorem parseFilter_print (u : Unicode) (t : Tree) (h : t.WellFormed) :
    ∃ f, parseFilter u (t.print .disjunction) = .ok f ∧
      ∀ e : ServiceEntry, f (viewOf e) = t.holds (viewOf e) := by
  refine ⟨t.holds, ?_, fun _ => rfl⟩
  rw [parseFilter_ok_iff, tokenizeFilter_print h]
  exact t.reads .disjunction

theorem parseFilter_print_env :
    ∃ f, parseFilter .ascii "not ServiceMeta.env == \"and (\" or \"v1\" in ServiceTags" = .ok f ∧
      ∀ e : ServiceEntry, f (viewOf e) =
        Tree.holds (.or (.not (.test (.metaEq "env" "and ("))) (.test (.inTags "v1"))) (viewOf e) :=
  parseFilter_print .ascii (.or (.not (.test (.metaEq "env" "and ("))) (.test (.inTags "v1")))
    ⟨⟨by simp, by simp⟩, by simp [Tree.WellFormed, Test.WellFormed]⟩

end YellowPages.Consul
