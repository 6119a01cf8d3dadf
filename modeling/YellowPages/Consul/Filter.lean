import YellowPages.Consuldns.Parser
import YellowPages.Lib.Descent

/-!
# Filter expressions

`internal/consul/filter.go`: the `?filter` parameter of the read endpoints. An expression is cut into
tokens and read by recursive descent into a function on what it sees of an entry.
-/

namespace YellowPages.Consul

open Lib Consuldns

/-! ## What a filter sees -/

structure HealthCheck where
  node : String
  checkID : String
  name : String
  status : String
  serviceID : String := ""
  serviceName : String := ""

def healthStatus : HealthState → String
  | .warning => "warning"
  | .critical => "critical"
  | _ => "passing"

def synthChecks (e : ServiceEntry) : List HealthCheck :=
  let nodeStatus := if e.health = .critical then "critical" else "passing"
  let checks :=
    [{ node := e.node.displayName, checkID := "serfHealth", name := "Serf Health Status",
       status := nodeStatus },
     { node := e.node.displayName, checkID := "service:" ++ e.service.id,
       name := "Service '" ++ e.service.name ++ "' check", status := healthStatus e.health,
       serviceID := e.service.id, serviceName := e.service.name }]
  if e.maintenance then
    checks ++ [{ node := e.node.displayName, checkID := "_service_maintenance:" ++ e.service.id,
                 name := "Service Maintenance Mode", status := "critical",
                 serviceID := e.service.id, serviceName := e.service.name }]
  else checks

structure View where
  tags : List String := []
  metadata : Map String := ∅
  statuses : List String := []

def viewOf (e : ServiceEntry) : View :=
  { tags := e.service.tags, metadata := e.service.metadata,
    statuses := (synthChecks e).map HealthCheck.status }

abbrev FilterExpr := View → Bool

/-! ## Selectors -/

section Selectors

variable (u : Unicode)

/-- `hasPrefixFold`, for a start of single bytes: a letter of several bytes is none of them, even if
it folds to one. -/
def hasPrefixFold (s start : String) : Bool :=
  let front := s.toList.take start.length
  front.all (·.toNat < 128) && u.equalFold (String.ofList front) start

def scalarEq (v : View) (selector val : String) : Bool :=
  if u.equalFold selector "Checks.Status" then v.statuses.contains val
  else if hasPrefixFold u selector "ServiceMeta." then
    -- a key that is not there reads as the empty string
    v.metadata.getD (String.ofList (selector.toList.drop "ServiceMeta.".length)) "" = val
  else false

def listHas (v : View) (selector val : String) : Bool :=
  if u.equalFold selector "ServiceTags" then v.tags.contains val
  else if u.equalFold selector "Checks.Status" then v.statuses.contains val
  else false

def unquote (s : String) : String :=
  if 2 ≤ s.length ∧ s.toList.head? = some '"' ∧ s.toList.getLast? = some '"' then
    String.ofList (s.toList.tail.dropLast)
  else s

end Selectors

/-! ## Tokens -/

/-- The cases of the tokenizer's switch. -/
inductive CharClass where
  | blank | paren | quote | equals | bang | other
  deriving DecidableEq, Repr

def charClass (c : Char) : CharClass :=
  if c = ' ' ∨ c = '\t' then .blank
  else if c = '(' ∨ c = ')' then .paren
  else if c = '"' then .quote
  else if c = '=' then .equals
  else if c = '!' then .bang
  else .other

section Tokenizer

variable {α : Type} (cls : α → CharClass)

/-- The characters that the default case goes on with. -/
def inWord (c : α) : Bool := cls c ≠ .blank && cls c ≠ .paren && cls c ≠ .quote

/-- One turn of the loop at the character `c`, with what the turns after it make of the rest. -/
def tokenizeStep (later : List α → List (List α)) (c : α) (s : List α) : List (List α) :=
  match cls c with
  | .blank => later s
  | .paren => [c] :: later s
  | .quote =>
    -- without a closing quote the token goes to the end
    let after := s.dropWhile (cls · ≠ .quote)
    (c :: s.takeWhile (cls · ≠ .quote) ++ after.take 1) :: later (after.drop 1)
  | .equals | .bang =>
    match s with
    | [] => [c] :: later []
    | d :: s' => if cls d = .equals then [c, d] :: later s' else [c] :: later (d :: s')
  | .other => (c :: s.takeWhile (inWord cls)) :: later (s.dropWhile (inWord cls))

def tokenizeLoop : Nat → List α → List (List α)
  | 0, _ => []
  | _ + 1, [] => []
  | n + 1, c :: s => tokenizeStep cls (tokenizeLoop n) c s

def tokenize (s : List α) : List (List α) := tokenizeLoop cls s.length s

end Tokenizer

def tokenizeFilter (s : String) : List String := (tokenize charClass s.toList).map String.ofList

/-! ## The parser -/

abbrev FilterParser := Cursor String

inductive FilterError where
  | trailing (token : String)
  | missingParen
  | incomplete
  | unsupported (op : String)
  /-- The bound on the recursion was too small. It never is. -/
  | unfinished
  deriving DecidableEq

/-- The texts, with `%q` for a token. -/
def FilterError.message (quoted : String → String) : FilterError → String
  | trailing token => "filter: unexpected trailing token " ++ quoted token
  | missingParen => "filter: missing )"
  | incomplete => "filter: incomplete predicate"
  | unsupported op => "filter: unsupported operator " ++ quoted op
  | unfinished => ""

section Parser

variable (u : Unicode)

/-- The switch of `parsePredicate`. -/
def predicate (left op right : String) : Except FilterError FilterExpr :=
  if left = "" ∨ op = "" then .error .incomplete
  else if u.toLower op = "==" then .ok fun v => scalarEq u v left (unquote right)
  else if u.toLower op = "!=" then .ok fun v => !scalarEq u v left (unquote right)
  else if u.toLower op = "contains" then .ok fun v => listHas u v left (unquote right)
  else if u.toLower op = "in" then .ok fun v => listHas u v right (unquote left)
  else .error (.unsupported op)

/-- Past the end, `peek` reads the empty string. -/
def parsePredicate : Parse String FilterError FilterExpr := fun p =>
  match predicate u (p.peek.getD "") (p.next.peek.getD "") (p.next.next.peek.getD "") with
  | .error err => .error err
  | .ok expr => .ok (expr, p.next.next.next)

def vocabulary : Vocabulary String where
  isNot := (u.equalFold · "not")
  isAnd := (u.equalFold · "and")
  isOr := (u.equalFold · "or")
  isOpen := (· = "(")
  isClose := (· = ")")

section Levels

/-! Each level is given the parser for what stands in parentheses. -/

variable (inner : Parse String FilterError FilterExpr)

def parsePrimary : Parse String FilterError FilterExpr :=
  enclosed (vocabulary u).isOpen (vocabulary u).isClose .missingParen inner (parsePredicate u)

def parseNot : Parse String FilterError FilterExpr :=
  prefixed .unfinished (vocabulary u).isNot (parsePrimary u inner) fun f v => !f v

def parseAnd : Parse String FilterError FilterExpr :=
  chain .unfinished (vocabulary u).isAnd (parseNot u inner) fun l r v => l v && r v

end Levels

def parseOr : Nat → Parse String FilterError FilterExpr
  | 0 => fun _ => .error .unfinished
  | n + 1 => chain .unfinished (vocabulary u).isOr (parseAnd u (parseOr n)) fun l r v => l v || r v

def parseFilter (s : String) : Except FilterError FilterExpr :=
  let tokens := tokenizeFilter s
  match parseOr u (tokens.length + 1) { tokens := tokens } with
  | .error err => .error err
  | .ok (expr, p) => if p.pos ≠ p.tokens.length then .error (.trailing (p.peek.getD "")) else .ok expr

end Parser

example :
    (parseFilter .ascii "ServiceTags contains \"v1\" and not ServiceMeta.env == \"dev\"").toOption.map
    (· { tags := ["v1"] }) = some true := by decide +kernel

example : (parseFilter .ascii "( ServiceTags contains \"v1\"").isOk = false := by decide +kernel

/-! ## Tokens, one by one -/

section Tokenizer

variable {α : Type} {cls : α → CharClass}

/-- Each turn takes a character at least. -/
theorem tokenizeStep_congr {later later' : List α → List (List α)} {s : List α}
    (h : ∀ s' : List α, s'.length ≤ s.length → later s' = later' s') (c : α) :
    tokenizeStep cls later c s = tokenizeStep cls later' c s := by
  unfold tokenizeStep
  cases cls c with
  | blank => exact h s le_rfl
  | paren => simp only [h s le_rfl]
  | quote =>
    have hafter := h ((s.dropWhile (cls · ≠ .quote)).drop 1)
      (((List.drop_sublist 1 _).trans (s.dropWhile_sublist _)).length_le)
    simp only [hafter]
  | equals | bang =>
    cases s with
    | nil => simp only [h [] le_rfl]
    | cons d s => simp only [h s (by simp), h (d :: s) le_rfl]
  | other => simp only [h _ (s.dropWhile_sublist (inWord cls)).length_le]

/-- So the length of the text bounds the loop. -/
theorem tokenizeLoop_eq (n : Nat) (s : List α) (hn : s.length ≤ n) :
    tokenizeLoop cls n s = tokenize cls s := by
  induction hlength : s.length using Nat.strong_induction_on generalizing n s with
  | _ len ih =>
    cases s with
    | nil => cases n <;> rfl
    | cons c s =>
      rw [List.length_cons] at hn hlength
      obtain ⟨m, rfl⟩ : ∃ m, n = m + 1 := ⟨n - 1, by omega⟩
      rw [tokenize, List.length_cons, tokenizeLoop, tokenizeLoop]
      refine tokenizeStep_congr (fun s' hs' => ?_) c
      rw [ih s'.length (by omega) m s' (by omega) rfl, ih s'.length (by omega) s.length s' hs' rfl]

theorem tokenize_cons (c : α) (s : List α) :
    tokenize cls (c :: s) = tokenizeStep cls (tokenize cls) c s := by
  rw [tokenize, List.length_cons, tokenizeLoop]
  exact tokenizeStep_congr (fun s' hs' => tokenizeLoop_eq s.length s' hs') c

@[simp] theorem tokenize_nil : tokenize cls ([] : List α) = [] := rfl

variable {c d : α} {s : List α}

theorem tokenize_blank (hc : cls c = .blank) : tokenize cls (c :: s) = tokenize cls s := by
  simp only [tokenize_cons, tokenizeStep, hc]

theorem tokenize_paren (hc : cls c = .paren) : tokenize cls (c :: s) = [c] :: tokenize cls s := by
  simp only [tokenize_cons, tokenizeStep, hc]

theorem tokenize_symbol (hc : cls c = .equals ∨ cls c = .bang) (hd : cls d = .equals) :
    tokenize cls (c :: d :: s) = [c, d] :: tokenize cls s := by
  rcases hc with hc | hc <;> simp [tokenize_cons, tokenizeStep, hc, hd]

theorem tokenize_lone (hc : cls c = .equals ∨ cls c = .bang) (hs : ∀ d ∈ s.head?, cls d ≠ .equals) :
    tokenize cls (c :: s) = [c] :: tokenize cls s := by
  rw [tokenize_cons]
  cases s with
  | nil => rcases hc with hc | hc <;> simp [tokenizeStep, hc]
  | cons d s => rcases hc with hc | hc <;> simp [tokenizeStep, hc, hs d rfl]

theorem tokenize_quote (hc : cls c = .quote) :
    tokenize cls (c :: s) =
      (c :: (s.takeWhile (cls · ≠ .quote) ++ (s.dropWhile (cls · ≠ .quote)).take 1)) ::
      tokenize cls ((s.dropWhile (cls · ≠ .quote)).drop 1) := by
  simp only [tokenize_cons, tokenizeStep, hc, List.cons_append]

theorem tokenize_other (hc : cls c = .other) :
    tokenize cls (c :: s) = (c :: s.takeWhile (inWord cls)) :: tokenize cls
      (s.dropWhile (inWord cls)) := by
  simp only [tokenize_cons, tokenizeStep, hc]

/-- The text of a closed quote is a token, whatever is in it. -/
theorem tokenize_quoted {body : List α} (hc : cls c = .quote) (hbody : ∀ b ∈ body, cls b ≠ .quote)
    (hd : cls d = .quote) :
    tokenize cls (c :: body ++ d :: s) = (c :: body ++ [d]) :: tokenize cls s := by
  have hall : ∀ b ∈ body, decide (cls b ≠ .quote) = true := fun b hb => decide_eq_true (hbody b hb)
  have htake : (body ++ d :: s).takeWhile (cls · ≠ .quote) = body := by
    rw [List.takeWhile_append_of_pos hall]
    simp [hd]
  have hdrop : (body ++ d :: s).dropWhile (cls · ≠ .quote) = d :: s := by
    rw [List.dropWhile_append_of_pos hall]
    simp [hd]
  rw [List.cons_append, tokenize_quote hc, htake, hdrop]
  simp

/-- A word ends at a blank, at a parenthesis, at a quote or with the text. -/
theorem tokenize_word {word : List α} (hc : cls c = .other)
    (hword : ∀ b ∈ word, inWord cls b = true) (hs : s.head?.any (inWord cls) = false) :
    tokenize cls (c :: word ++ s) = (c :: word) :: tokenize cls s := by
  have htake : (word ++ s).takeWhile (inWord cls) = word := by
    rw [List.takeWhile_append_of_pos hword]
    cases s with
    | nil => simp
    | cons b s => simp_all
  have hdrop : (word ++ s).dropWhile (inWord cls) = s := by
    rw [List.dropWhile_append_of_pos hword]
    cases s with
    | nil => simp
    | cons b s => simp_all
  rw [List.cons_append, tokenize_other hc, htake, hdrop]

end Tokenizer

/-! ## What is parsed -/

section Parser

variable {u : Unicode}

theorem length_of_equalFold {s t : String} (h : u.equalFold s t = true) :
    s.toList.length = t.toList.length := by
  rw [Unicode.equalFold, decide_eq_true_eq] at h
  simpa using congrArg List.length h

theorem equalFold_eq_false {s t : String} (h : s.toList.length ≠ t.toList.length) :
    u.equalFold s t = false := by
  rw [Bool.eq_false_iff]
  exact fun hfold => h (length_of_equalFold hfold)

@[simp] theorem equalFold_self (s : String) : u.equalFold s s = true := by
  simp [Unicode.equalFold]

theorem not_isAnd_of_isOr {t : String} (h : (vocabulary u).isOr t = true) :
    (vocabulary u).isAnd t = false := by
  have hlength : t.toList.length = 2 := length_of_equalFold h
  exact equalFold_eq_false (by rw [hlength]; decide)

theorem not_keyword_of_isClose {t : String} (h : (vocabulary u).isClose t = true) :
    (vocabulary u).isAnd t = false ∧ (vocabulary u).isOr t = false := by
  obtain rfl : t = ")" := of_decide_eq_true h
  exact ⟨equalFold_eq_false (by decide), equalFold_eq_false (by decide)⟩

/-- A predicate is any three tokens with an operator in the middle. -/
def Triple (u : Unicode) (ts : List String) (f : FilterExpr) : Prop :=
  ∃ l o r, ts = [l, o, r] ∧ predicate u l o r = .ok f

theorem parsePredicate_of_rest {p : FilterParser} {l o r : String} {tail : List String}
    (h : p.rest = l :: o :: r :: tail) :
    parsePredicate u p =
      match predicate u l o r with
      | .error err => .error err
      | .ok f => .ok (f, p.advance 3) := by
  have h₁ := Cursor.rest_next h
  have h₂ := Cursor.rest_next h₁
  unfold parsePredicate
  rw [p.peek_eq, p.next.peek_eq, p.next.next.peek_eq, h, h₁, h₂]
  rfl

theorem sound_parsePredicate : Sound (parsePredicate u) (Triple u) := by
  intro p f p' h
  have hp' : p' = p.advance 3 := by
    unfold parsePredicate at h
    split at h
    · cases h
    · exact (Prod.mk.inj (Except.ok.inj h)).2.symm
  have hpos : p'.pos = p.pos + 3 := congrArg Cursor.pos hp'
  have htokens : p'.tokens = p.tokens := by rw [hp', Cursor.tokens_advance]
  refine ⟨htokens, by omega, fun hle => ?_⟩
  have hlength := p.length_rest
  match hrest : p.rest with
  | [] | [_] | [_, _] =>
    rw [hrest] at hlength
    simp at hlength
    omega
  | l :: o :: r :: tail =>
    refine ⟨[l, o, r], ?_, l, o, r, rfl, ?_⟩
    · have htail : (p.advance [l, o, r].length).rest = tail := Cursor.rest_advance hrest
      rw [hp']
      exact congrArg ([l, o, r] ++ ·) htail.symm
    · rw [parsePredicate_of_rest hrest] at h
      split at h
      · cases h
      · rename_i hpred
        rw [hpred, (Prod.mk.inj (Except.ok.inj h)).1]

theorem completes_parsePredicate (n : Nat) :
    Completes n (parsePredicate u) (Triple u) fun _ => True := by
  rintro p ts tail f hrest ⟨l, o, r, rfl, hpred⟩ - -
  rw [parsePredicate_of_rest hrest, hpred]
  rfl

theorem predicate_ne_unfinished (l o r : String) : predicate u l o r ≠ .error .unfinished := by
  unfold predicate
  split_ifs <;> simp

theorem finishes_parsePredicate (n : Nat) : Finishes .unfinished n (parsePredicate u) := by
  intro p _ h
  unfold parsePredicate at h
  split at h
  · rename_i hpred
    exact predicate_ne_unfinished _ _ _ (hpred.trans (by rw [Except.error.inj h]))
  · cases h

/-! Level by level, what the parser in the parentheses does is handed on. -/

section Levels

variable {inner : Parse String FilterError FilterExpr}

theorem sound_parsePrimary (h : Sound inner (Reads (vocabulary u) (Triple u) .disjunction)) :
    Sound (parsePrimary u inner) (Reads (vocabulary u) (Triple u) .primary) := by
  rw [reads_primary]
  exact sound_enclosed h sound_parsePredicate

theorem sound_parseNot (h : Sound inner (Reads (vocabulary u) (Triple u) .disjunction)) :
    Sound (parseNot u inner) (Reads (vocabulary u) (Triple u) .negation) := by
  rw [reads_negation]
  exact sound_prefixed (sound_parsePrimary h) _

theorem sound_parseAnd (h : Sound inner (Reads (vocabulary u) (Triple u) .disjunction)) :
    Sound (parseAnd u inner) (Reads (vocabulary u) (Triple u) .conjunction) := by
  rw [reads_conjunction]
  exact sound_chain (sound_parseNot h) _

/-- A conjunction goes on after `and`, and an expression after `or` too. -/
def EndsAnd (u : Unicode) (o : Option String) : Prop := True ∧ o.any (vocabulary u).isAnd = false

def EndsOr (u : Unicode) (o : Option String) : Prop := EndsAnd u o ∧ o.any (vocabulary u).isOr = false

variable {n : Nat}

theorem completes_parsePrimary
    (h : Completes n inner (Reads (vocabulary u) (Triple u) .disjunction) (EndsOr u)) :
    Completes (n + 1) (parsePrimary u inner)
      (Reads (vocabulary u) (Triple u) .primary) fun _ => True := by
  rw [reads_primary]
  refine completes_enclosed h (fun t ht => ?_) (completes_parsePredicate (n + 1))
  obtain ⟨hand, hor⟩ := not_keyword_of_isClose ht
  exact ⟨⟨trivial, hand⟩, hor⟩

theorem completes_parseAnd
    (h : Completes n inner (Reads (vocabulary u) (Triple u) .disjunction) (EndsOr u)) :
    Completes (n + 1) (parseAnd u inner) (Reads (vocabulary u) (Triple u) .conjunction)
      (EndsAnd u) := by
  have hnot : Completes (n + 1) (parseNot u inner) (Reads (vocabulary u) (Triple u) .negation)
      fun _ => True := by
    rw [reads_negation]
    exact completes_prefixed (completes_parsePrimary h) _
  rw [reads_conjunction]
  exact completes_chain hnot (fun _ _ => trivial) _

theorem finishes_parseAnd (hsound : Sound inner (Reads (vocabulary u) (Triple u) .disjunction))
    (h : Finishes .unfinished n inner) : Finishes .unfinished (n + 1) (parseAnd u inner) := by
  have hprimary : Finishes .unfinished (n + 1) (parsePrimary u inner) :=
    finishes_enclosed (by simp) h (finishes_parsePredicate (n + 1))
  exact finishes_chain (finishes_prefixed hprimary _) (sound_parseNot hsound) _

end Levels

theorem sound_parseOr (n : Nat) :
    Sound (parseOr u n) (Reads (vocabulary u) (Triple u) .disjunction) := by
  induction n with
  | zero =>
    intro p f p' h
    cases h
  | succ n ih =>
    rw [reads_disjunction]
    exact sound_chain (sound_parseAnd ih) _

theorem completes_parseOr (n : Nat) :
    Completes n (parseOr u n) (Reads (vocabulary u) (Triple u) .disjunction) (EndsOr u) := by
  induction n with
  | zero => exact fun p ts tail f _ _ hn _ => absurd hn (Nat.not_lt_zero _)
  | succ n ih =>
    rw [reads_disjunction]
    exact completes_chain (completes_parseAnd ih) (fun t ht => ⟨trivial, not_isAnd_of_isOr ht⟩) _

theorem finishes_parseOr (n : Nat) : Finishes .unfinished n (parseOr u n) := by
  induction n with
  | zero => exact fun p hn => absurd hn (Nat.not_lt_zero _)
  | succ n ih =>
    exact finishes_chain (finishes_parseAnd (sound_parseOr n) ih) (sound_parseAnd (sound_parseOr n)) _

/-- A text is a filter exactly if its tokens read as an expression. -/
theorem parseFilter_ok_iff (s : String) (f : FilterExpr) :
    parseFilter u s = .ok f ↔ Reads (vocabulary u) (Triple u) .disjunction (tokenizeFilter s) f := by
  unfold parseFilter
  dsimp only
  constructor
  · intro h
    split at h
    · cases h
    · rename_i expr p hparse
      split at h
      · cases h
      · rename_i hend
        obtain rfl := Except.ok.inj h
        obtain ⟨htokens, -, hread⟩ := sound_parseOr _ _ _ _ hparse
        rw [not_not] at hend
        obtain ⟨ts, hrest, hreads⟩ := hread (by rw [hend, htokens])
        have hnone : p.rest = [] := by rw [Cursor.rest, hend, List.drop_length]
        rw [hnone, List.append_nil] at hrest
        obtain rfl : tokenizeFilter s = ts := hrest
        exact hreads
  · intro h
    have hparse :=
      completes_parseOr (u := u) ((tokenizeFilter s).length + 1) { tokens := tokenizeFilter s }
      (tokenizeFilter s) [] f (by simp [Cursor.rest]) h (Nat.lt_succ_self _) ⟨⟨trivial, rfl⟩, rfl⟩
    rw [hparse]
    simp [Cursor.advance]

theorem parseFilter_ne_unfinished (s : String) : parseFilter u s ≠ .error .unfinished := by
  have hfinish :=
    finishes_parseOr (u := u) ((tokenizeFilter s).length + 1) { tokens := tokenizeFilter s }
    (by simp [Cursor.rest])
  unfold parseFilter
  dsimp only
  split
  · rename_i err hparse
    rw [hparse] at hfinish
    simpa using hfinish
  · split <;> simp

end Parser

end YellowPages.Consul
