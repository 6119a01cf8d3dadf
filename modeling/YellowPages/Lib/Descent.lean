import Mathlib

/-!
# Recursive descent

Boolean expressions over a list of tokens, and the parsers that read them by recursive descent: chains
with a left associative operator, a prefix operator, and parentheses. For each combinator there is a
rule that what it returns was there to be read, one that it returns what is there to be read, and one
that it does not run out of the fuel that stands for the loops of the parser.
-/

namespace Lib

/-! ## Cursors -/

/-- A position in a list of tokens. It can be past the end. -/
structure Cursor (τ : Type) where
  tokens : List τ
  pos : Nat := 0

namespace Cursor

variable {τ : Type} (c : Cursor τ)

def peek : Option τ := c.tokens[c.pos]?

def next : Cursor τ := { c with pos := c.pos + 1 }

def sees (is : τ → Bool) : Bool := c.peek.any is

def rest : List τ := c.tokens.drop c.pos

def advance (n : Nat) : Cursor τ := { c with pos := c.pos + n }

theorem next_eq : c.next = c.advance 1 := rfl

@[simp] theorem tokens_advance (n : Nat) : (c.advance n).tokens = c.tokens := rfl

@[simp] theorem advance_advance (m n : Nat) : (c.advance m).advance n = c.advance (m + n) := by
  simp [advance, Nat.add_assoc]

theorem peek_eq : c.peek = c.rest.head? := by
  rw [peek, rest, List.head?_drop]

theorem length_rest : c.rest.length = c.tokens.length - c.pos := List.length_drop

variable {c} {t : τ} {ts tail : List τ} {is : τ → Bool}

theorem sees_of_rest (h : c.rest = t :: tail) : c.sees is = is t := by
  rw [sees, peek_eq, h]
  rfl

theorem sees_eq_false (h : tail.head?.any is = false) (hrest : c.rest = tail) : c.sees is = false := by
  rw [sees, peek_eq, hrest, h]

theorem exists_of_sees (h : c.sees is = true) : ∃ t tail, c.rest = t :: tail ∧ is t = true := by
  rw [sees, peek_eq] at h
  cases hrest : c.rest with
  | nil => simp [hrest] at h
  | cons t tail => exact ⟨t, tail, rfl, by simpa [hrest] using h⟩

theorem rest_advance (h : c.rest = ts ++ tail) : (c.advance ts.length).rest = tail := by
  have hdrop : (c.advance ts.length).rest = c.rest.drop ts.length := by
    rw [rest, rest, List.drop_drop]
    rfl
  rw [hdrop, h, List.drop_left]

theorem rest_next (h : c.rest = t :: tail) : c.next.rest = tail := by
  have hadvance : (c.advance [t].length).rest = tail := rest_advance h
  exact hadvance

theorem rest_of_le {c' : Cursor τ} (htokens : c'.tokens = c.tokens) (hpos : c.pos ≤ c'.pos) :
    c'.rest.length ≤ c.rest.length := by
  rw [length_rest, length_rest, htokens]
  omega

end Cursor

abbrev Parse (τ ε α : Type) := Cursor τ → Except ε (α × Cursor τ)

variable {τ ε α : Type}

/-! ## Parsers -/

section Parsers

variable (stuck : ε) (is : τ → Bool) (sub : Parse τ ε α)

/-- The loop of `chain`, with the operand so far. -/
def chainLoop (op : α → α → α) : Nat → α → Parse τ ε α
  | 0, _, _ => .error stuck
  | n + 1, left, c =>
    if c.sees is then
      match sub c.next with
      | .error err => .error err
      | .ok (right, c') => chainLoop op n (op left right) c'
    else .ok (left, c)

/-- Operands with the operator between them. Each turn of the loop takes a token. -/
def chain (op : α → α → α) : Parse τ ε α := fun c =>
  match sub c with
  | .error err => .error err
  | .ok (left, c') => chainLoop stuck is sub op (c'.tokens.length + 1) left c'

def prefixLoop (op : α → α) : Nat → Parse τ ε α
  | 0, _ => .error stuck
  | n + 1, c =>
    if c.sees is then
      match prefixLoop op n c.next with
      | .error err => .error err
      | .ok (inner, c') => .ok (op inner, c')
    else sub c

/-- An operand with any number of the operator before it. -/
def prefixed (op : α → α) : Parse τ ε α :=
  fun c => prefixLoop stuck is sub op (c.tokens.length + 1) c

/-- An operand, or an expression in parentheses. -/
def enclosed (isOpen isClose : τ → Bool) (missing : ε) (inner operand : Parse τ ε α) :
    Parse τ ε α := fun c =>
  if c.sees isOpen then
    match inner c.next with
    | .error err => .error err
    | .ok (a, c') => if c'.sees isClose then .ok (a, c'.next) else .error missing
  else operand c

end Parsers

/-! ## What they read -/

inductive Chain (is : τ → Bool) (op : α → α → α) (X : List τ → α → Prop) : List τ → α → Prop
  | one {ts a} : X ts a → Chain is op X ts a
  | more {ts a t ts' b} : Chain is op X ts a → is t = true → X ts' b →
      Chain is op X (ts ++ t :: ts') (op a b)

/-- The first token is another one. -/
def Avoids (is : τ → Bool) (ts : List τ) : Prop := ∃ t ts', ts = t :: ts' ∧ is t = false

theorem Avoids.head {is : τ → Bool} {t : τ} {ts : List τ} (h : Avoids is (t :: ts)) :
    is t = false := by
  obtain ⟨s, ts', heq, hs⟩ := h
  obtain ⟨rfl, -⟩ := List.cons.inj heq
  exact hs

inductive Prefixed (is : τ → Bool) (op : α → α) (X : List τ → α → Prop) : List τ → α → Prop
  | operand {ts a} : Avoids is ts → X ts a → Prefixed is op X ts a
  | op {t ts a} : is t = true → Prefixed is op X ts a → Prefixed is op X (t :: ts) (op a)

inductive Enclosed (isOpen isClose : τ → Bool) (inner operand : List τ → α → Prop) :
    List τ → α → Prop
  | operand {ts a} : Avoids isOpen ts → operand ts a → Enclosed isOpen isClose inner operand ts a
  | parens {t ts t' a} : isOpen t = true → inner ts a → isClose t' = true →
      Enclosed isOpen isClose inner operand (t :: ts ++ [t']) a

/-! ## Soundness -/

/-- What the parser returns stood at the cursor, unless it has read past the end. -/
def Sound (P : Parse τ ε α) (X : List τ → α → Prop) : Prop :=
  ∀ c a c', P c = .ok (a, c') → c'.tokens = c.tokens ∧ c.pos < c'.pos ∧
    (c'.pos ≤ c.tokens.length → ∃ ts, c.rest = ts ++ c'.rest ∧ X ts a)

section Sound

variable {stuck : ε} {is : τ → Bool} {sub : Parse τ ε α} {X : List τ → α → Prop}

/-- What is read at a cursor that does not see a token does not start with it. -/
theorem avoids_of_read {c c' : Cursor τ} {ts : List τ} (hsees : ¬c.sees is = true)
    (htokens : c'.tokens = c.tokens) (hpos : c.pos < c'.pos) (hle : c'.pos ≤ c.tokens.length)
    (hrest : c.rest = ts ++ c'.rest) :
    Avoids is ts := by
  cases ts with
  | nil =>
    have hlength := congrArg List.length hrest
    rw [List.nil_append, Cursor.length_rest, Cursor.length_rest, htokens] at hlength
    omega
  | cons t ts =>
    rw [List.cons_append] at hrest
    rw [Cursor.sees_of_rest hrest] at hsees
    exact ⟨t, ts, rfl, by simpa using hsees⟩

/-- The tokens that the loop adds to those of its accumulator. -/
theorem sound_chainLoop (hsub : Sound sub X) (op : α → α → α) (n : Nat) {left : α} {c : Cursor τ}
    {a : α} {c' : Cursor τ} (h : chainLoop stuck is sub op n left c = .ok (a, c')) :
    c'.tokens = c.tokens ∧ c.pos ≤ c'.pos ∧
      (c'.pos ≤ c.tokens.length → ∀ before, Chain is op X before left →
      ∃ ts, c.rest = ts ++ c'.rest ∧ Chain is op X (before ++ ts) a) := by
  induction n generalizing left c with
  | zero => simp [chainLoop] at h
  | succ n ih =>
    rw [chainLoop] at h
    by_cases hsees : c.sees is = true
    · rw [if_pos hsees] at h
      obtain ⟨t, tail, hrest, ht⟩ := Cursor.exists_of_sees hsees
      cases hright : sub c.next with
      | error err => simp [hright] at h
      | ok p =>
        obtain ⟨right, c₁⟩ := p
        rw [hright] at h
        obtain ⟨htokens₁, hpos₁, hread₁⟩ := hsub _ _ _ hright
        obtain ⟨htokens, hpos, hread⟩ := ih h
        have hnext : c.next.tokens = c.tokens := rfl
        have hstep : c.next.pos = c.pos + 1 := rfl
        rw [hnext] at htokens₁ hread₁
        refine ⟨htokens.trans htokens₁, by omega, fun hle before hleft => ?_⟩
        obtain ⟨ts₁, hrest₁, hX⟩ := hread₁ (by omega)
        obtain ⟨ts, hrest₂, hchain⟩ :=
          hread (by rw [htokens₁]; exact hle) _ (Chain.more hleft ht hX)
        refine ⟨t :: ts₁ ++ ts, ?_, by simpa using hchain⟩
        rw [hrest, ← Cursor.rest_next hrest, hrest₁, hrest₂]
        simp
    · rw [if_neg hsees] at h
      obtain ⟨rfl, rfl⟩ := Prod.mk.injEq _ _ _ _ ▸ Except.ok.inj h
      exact ⟨rfl, le_rfl, fun _ before hleft => ⟨[], rfl, by simpa using hleft⟩⟩

theorem sound_chain (hsub : Sound sub X) (op : α → α → α) :
    Sound (chain stuck is sub op) (Chain is op X) := by
  intro c a c' h
  rw [chain] at h
  cases hleft : sub c with
  | error err => simp [hleft] at h
  | ok p =>
    obtain ⟨left, c₁⟩ := p
    rw [hleft] at h
    obtain ⟨htokens₁, hpos₁, hread₁⟩ := hsub _ _ _ hleft
    obtain ⟨htokens, hpos, hread⟩ := sound_chainLoop hsub op _ h
    refine ⟨htokens.trans htokens₁, by omega, fun hle => ?_⟩
    obtain ⟨ts₁, hrest₁, hX⟩ := hread₁ (by omega)
    obtain ⟨ts, hrest, hchain⟩ := hread (by rw [htokens₁]; exact hle) ts₁ (Chain.one hX)
    exact ⟨ts₁ ++ ts, by rw [hrest₁, hrest, List.append_assoc], hchain⟩

theorem sound_prefixLoop (hsub : Sound sub X) (op : α → α) (n : Nat) :
    Sound (prefixLoop stuck is sub op n) (Prefixed is op X) := by
  induction n with
  | zero =>
    intro c a c' h
    simp [prefixLoop] at h
  | succ n ih =>
    intro c a c' h
    rw [prefixLoop] at h
    by_cases hsees : c.sees is = true
    · rw [if_pos hsees] at h
      obtain ⟨t, tail, hrest, ht⟩ := Cursor.exists_of_sees hsees
      cases hinner : prefixLoop stuck is sub op n c.next with
      | error err => simp [hinner] at h
      | ok p =>
        obtain ⟨inner, c₁⟩ := p
        rw [hinner] at h
        obtain ⟨rfl, rfl⟩ := Prod.mk.injEq _ _ _ _ ▸ Except.ok.inj h
        obtain ⟨htokens, hpos, hread⟩ := ih _ _ _ hinner
        refine ⟨htokens, lt_trans (Nat.lt_succ_self _) hpos, fun hle => ?_⟩
        obtain ⟨ts, hrest₁, hX⟩ := hread hle
        refine ⟨t :: ts, ?_, Prefixed.op ht hX⟩
        rw [hrest, ← Cursor.rest_next hrest, hrest₁, List.cons_append]
    · rw [if_neg hsees] at h
      obtain ⟨htokens, hpos, hread⟩ := hsub c a c' h
      refine ⟨htokens, hpos, fun hle => ?_⟩
      obtain ⟨ts, hrest, hX⟩ := hread hle
      exact ⟨ts, hrest, .operand (avoids_of_read hsees htokens hpos hle hrest) hX⟩

theorem sound_prefixed (hsub : Sound sub X) (op : α → α) :
    Sound (prefixed stuck is sub op) (Prefixed is op X) :=
  fun c a c' h => sound_prefixLoop hsub op _ c a c' h

theorem sound_enclosed {isOpen isClose : τ → Bool} {missing : ε} {inner operand : Parse τ ε α}
    {Y : List τ → α → Prop} (hinner : Sound inner Y) (hoperand : Sound operand X) :
    Sound (enclosed isOpen isClose missing inner operand) (Enclosed isOpen isClose Y X) := by
  intro c a c' h
  rw [enclosed] at h
  by_cases hsees : c.sees isOpen = true
  · rw [if_pos hsees] at h
    obtain ⟨t, tail, hrest, ht⟩ := Cursor.exists_of_sees hsees
    cases hin : inner c.next with
    | error err => simp [hin] at h
    | ok p =>
      obtain ⟨b, c₁⟩ := p
      rw [hin] at h
      obtain ⟨htokens, hpos, hread⟩ := hinner _ _ _ hin
      by_cases hclose : c₁.sees isClose = true
      · obtain ⟨t', tail', hrest', ht'⟩ := Cursor.exists_of_sees hclose
        simp only [hclose, if_true] at h
        obtain ⟨rfl, rfl⟩ := Prod.mk.injEq _ _ _ _ ▸ Except.ok.inj h
        have hstep : c₁.next.pos = c₁.pos + 1 := rfl
        have hfirst : c.next.pos = c.pos + 1 := rfl
        have hnext : c.next.tokens = c.tokens := rfl
        rw [hnext] at hread
        refine ⟨htokens, by omega, fun hle => ?_⟩
        obtain ⟨ts, hrest₁, hY⟩ := hread (by omega)
        refine ⟨t :: ts ++ [t'], ?_, Enclosed.parens ht hY ht'⟩
        rw [hrest, ← Cursor.rest_next hrest, hrest₁, Cursor.rest_next hrest', hrest']
        simp
      · simp only [hclose] at h
        cases h
  · rw [if_neg hsees] at h
    obtain ⟨htokens, hpos, hread⟩ := hoperand c a c' h
    refine ⟨htokens, hpos, fun hle => ?_⟩
    obtain ⟨ts, hrest, hX⟩ := hread hle
    exact ⟨ts, hrest, .operand (avoids_of_read hsees htokens hpos hle hrest) hX⟩

end Sound

/-! ## Completeness -/

/-- The parser returns what stands at the cursor in fewer than `n` tokens, if what follows allows it. -/
def Completes (n : Nat) (P : Parse τ ε α) (X : List τ → α → Prop) (follow : Option τ → Prop) :
    Prop :=
  ∀ c ts tail a, c.rest = ts ++ tail → X ts a → ts.length < n → follow tail.head? →
    P c = .ok (a, c.advance ts.length)

section Complete

variable {n : Nat} {stuck : ε} {is : τ → Bool} {sub : Parse τ ε α} {X : List τ → α →
  Prop} {follow : Option τ → Prop}

/-- The chain is at its loop when it has read the operands. -/
theorem chain_eq_loop (hsub : Completes n sub X follow) (his : ∀ t, is t = true → follow (some t))
    (op : α → α → α) {ts : List τ} {a : α} (hchain : Chain is op X ts a) {c : Cursor τ}
    {tail : List τ} (hrest : c.rest = ts ++ tail) (hn : ts.length < n) (hfollow : follow tail.head?) :
    ∃ k ≤ ts.length, chain stuck is sub op c =
      chainLoop stuck is sub op (c.tokens.length + 1 - k) a (c.advance ts.length) := by
  induction hchain generalizing tail with
  | @one ts a hX =>
    exact ⟨0, Nat.zero_le _, by rw [chain, hsub c ts tail a hrest hX hn hfollow]; rfl⟩
  | @more ts a t ts' b hchain ht hX ih =>
    rw [List.length_append, List.length_cons] at hn
    rw [List.append_assoc] at hrest
    obtain ⟨k, hk, hloop⟩ := ih hrest (by omega) (his t ht)
    have hle : ts.length + (ts'.length + 1) ≤ c.tokens.length := by
      have hlength := congrArg List.length hrest
      rw [Cursor.length_rest] at hlength
      simp only [List.length_append, List.length_cons] at hlength
      omega
    refine ⟨k + 1, by simp; omega, ?_⟩
    have hrest₁ : (c.advance ts.length).rest = t :: (ts' ++ tail) := by
      simpa using Cursor.rest_advance hrest
    have hright := hsub _ ts' tail b (Cursor.rest_next hrest₁) hX (by omega) hfollow
    obtain ⟨m, hm⟩ : ∃ m, c.tokens.length + 1 - k = m + 1 := ⟨c.tokens.length - k, by omega⟩
    rw [hloop, hm, chainLoop, Cursor.sees_of_rest hrest₁, if_pos ht, hright]
    have hpos :
        ((c.advance ts.length).next).advance ts'.length = c.advance (ts ++ t :: ts').length := by
      rw [Cursor.next_eq, Cursor.advance_advance, Cursor.advance_advance]
      congr 1
      simp
      omega
    rw [hpos, show c.tokens.length + 1 - (k + 1) = m by omega]

theorem completes_chain (hsub : Completes n sub X follow) (his : ∀ t, is t = true → follow (some t))
    (op : α → α → α) :
    Completes n (chain stuck is sub op) (Chain is op X) (fun o => follow o ∧ o.any is = false) := by
  intro c ts tail a hrest hchain hn ⟨hfollow, hnot⟩
  obtain ⟨k, hk, hloop⟩ := chain_eq_loop hsub his op hchain hrest hn hfollow
  have hle : ts.length ≤ c.tokens.length := by
    have hlength := congrArg List.length hrest
    rw [Cursor.length_rest, List.length_append] at hlength
    omega
  obtain ⟨m, hm⟩ : ∃ m, c.tokens.length + 1 - k = m + 1 := ⟨c.tokens.length - k, by omega⟩
  rw [hloop, hm, chainLoop, Cursor.sees_eq_false hnot (Cursor.rest_advance hrest)]
  rfl

theorem sees_eq_false_of_avoids {c : Cursor τ} {ts tail : List τ} (h : Avoids is ts)
    (hrest : c.rest = ts ++ tail) :
    c.sees is = false := by
  obtain ⟨t, ts', rfl, ht⟩ := h
  rw [List.cons_append] at hrest
  rw [Cursor.sees_of_rest hrest, ht]

theorem prefixLoop_complete (hsub : Completes n sub X follow) (op : α → α) {ts : List τ} {a : α}
    (hread : Prefixed is op X ts a) {c : Cursor τ} {tail : List τ} (hrest : c.rest = ts ++ tail)
    (hn : ts.length < n) (hfollow : follow tail.head?) {fuel : Nat} (hfuel : ts.length < fuel) :
    prefixLoop stuck is sub op fuel c = .ok (a, c.advance ts.length) := by
  induction hread generalizing c fuel with
  | @operand ts a hfirst hX =>
    obtain ⟨m, rfl⟩ : ∃ m, fuel = m + 1 := ⟨fuel - 1, by omega⟩
    rw [prefixLoop, sees_eq_false_of_avoids hfirst hrest]
    exact hsub c ts tail a hrest hX hn hfollow
  | @op t ts a ht hread ih =>
    obtain ⟨m, rfl⟩ : ∃ m, fuel = m + 1 := ⟨fuel - 1, by omega⟩
    rw [List.length_cons] at hn hfuel
    have hinner := ih (Cursor.rest_next hrest) (by omega) (show ts.length < m by omega)
    have hpos : c.next.advance ts.length = c.advance (t :: ts).length := by
      rw [Cursor.next_eq, Cursor.advance_advance, List.length_cons, Nat.add_comm]
    rw [prefixLoop, Cursor.sees_of_rest hrest, if_pos ht, hinner, hpos]

theorem completes_prefixed (hsub : Completes n sub X follow) (op : α → α) :
    Completes n (prefixed stuck is sub op) (Prefixed is op X) follow := by
  intro c ts tail a hrest hread hn hfollow
  have hlength := congrArg List.length hrest
  rw [Cursor.length_rest, List.length_append] at hlength
  exact prefixLoop_complete hsub op hread hrest hn hfollow (by omega)

theorem completes_enclosed {isOpen isClose : τ → Bool} {missing : ε} {inner operand : Parse τ ε α}
    {Y : List τ → α → Prop} {followY : Option τ → Prop} (hinner : Completes n inner Y followY)
    (hclose : ∀ t, isClose t = true → followY (some t))
    (hoperand : Completes (n + 1) operand X follow) :
    Completes (n + 1) (enclosed isOpen isClose missing inner operand)
      (Enclosed isOpen isClose Y X) follow := by
  intro c ts tail a hrest hread hn hfollow
  cases hread with
  | operand hfirst hX =>
    rw [enclosed, sees_eq_false_of_avoids hfirst hrest]
    exact hoperand c ts tail a hrest hX hn hfollow
  | @parens t ts t' _ ht hY ht' =>
    rw [List.append_assoc, List.cons_append] at hrest
    simp only [List.length_append, List.length_cons, List.length_nil] at hn
    have hrest₁ := Cursor.rest_next hrest
    have hin := hinner c.next ts ([t'] ++ tail) a hrest₁ hY (by omega) (hclose t' ht')
    have hrest₂ : (c.next.advance ts.length).rest = t' :: tail := Cursor.rest_advance hrest₁
    have hpos : (c.next.advance ts.length).next = c.advance (t :: ts ++ [t']).length := by
      rw [Cursor.next_eq, Cursor.next_eq, Cursor.advance_advance, Cursor.advance_advance]
      congr 1
      simp
      omega
    rw [enclosed, Cursor.sees_of_rest hrest, if_pos ht, hin]
    simp only [Cursor.sees_of_rest hrest₂, ht', if_true, hpos]

end Complete

/-! ## Termination -/

/-- The parser does not give up on fewer than `n` tokens. -/
def Finishes (stuck : ε) (n : Nat) (P : Parse τ ε α) : Prop :=
  ∀ c, c.rest.length < n → P c ≠ .error stuck

section Finish

variable {n : Nat} {stuck : ε} {is : τ → Bool} {sub : Parse τ ε α} {X : List τ → α → Prop}

theorem finishes_chainLoop (hsub : Finishes stuck n sub) (hsound : Sound sub X) (op : α → α → α)
    (fuel : Nat) (left : α) (c : Cursor τ) (hfuel : c.rest.length < fuel) (hn : c.rest.length ≤ n) :
    chainLoop stuck is sub op fuel left c ≠ .error stuck := by
  induction fuel generalizing left c with
  | zero => exact absurd hfuel (Nat.not_lt_zero _)
  | succ fuel ih =>
    rw [chainLoop]
    by_cases hsees : c.sees is = true
    · rw [if_pos hsees]
      obtain ⟨t, tail, hrest, -⟩ := Cursor.exists_of_sees hsees
      have hnext := Cursor.rest_next hrest
      rw [hrest, List.length_cons] at hfuel hn
      cases hright : sub c.next with
      | error err =>
        intro hstuck
        obtain rfl : err = stuck := Except.error.inj hstuck
        exact hsub c.next (by rw [hnext]; omega) hright
      | ok p =>
        obtain ⟨right, c'⟩ := p
        obtain ⟨htokens, hpos, -⟩ := hsound _ _ _ hright
        have hle := Cursor.rest_of_le htokens hpos.le
        rw [hnext] at hle
        exact ih (op left right) c' (by omega) (by omega)
    · rw [if_neg hsees]
      simp

theorem finishes_chain (hsub : Finishes stuck n sub) (hsound : Sound sub X) (op : α → α → α) :
    Finishes stuck n (chain stuck is sub op) := by
  intro c hn
  rw [chain]
  cases hleft : sub c with
  | error err =>
    intro hstuck
    obtain rfl : err = stuck := Except.error.inj hstuck
    exact hsub c hn hleft
  | ok p =>
    obtain ⟨left, c'⟩ := p
    obtain ⟨htokens, hpos, -⟩ := hsound _ _ _ hleft
    have hle := Cursor.rest_of_le htokens hpos.le
    have hlength := c'.length_rest
    exact finishes_chainLoop hsub hsound op _ left c' (by omega) (by omega)

theorem finishes_prefixed (hsub : Finishes stuck n sub) (op : α → α) :
    Finishes stuck n (prefixed stuck is sub op) := by
  have hloop : ∀ (fuel : Nat) (c : Cursor τ), c.rest.length < fuel → c.rest.length < n →
      prefixLoop stuck is sub op fuel c ≠ .error stuck := by
    intro fuel
    induction fuel with
    | zero => exact fun c hfuel _ => absurd hfuel (Nat.not_lt_zero _)
    | succ fuel ih =>
      intro c hfuel hn
      rw [prefixLoop]
      by_cases hsees : c.sees is = true
      · rw [if_pos hsees]
        obtain ⟨t, tail, hrest, -⟩ := Cursor.exists_of_sees hsees
        have hnext := Cursor.rest_next hrest
        rw [hrest, List.length_cons] at hfuel hn
        have hinner := ih c.next (by rw [hnext]; omega) (by rw [hnext]; omega)
        cases hres : prefixLoop stuck is sub op fuel c.next with
        | error err =>
          rw [hres] at hinner
          simpa using hinner
        | ok p => simp
      · rw [if_neg hsees]
        exact hsub c hn
  intro c hn
  have hlength := c.length_rest
  exact hloop _ c (by omega) hn

theorem finishes_enclosed {isOpen isClose : τ → Bool} {missing : ε} {inner operand : Parse τ ε α}
    (hmissing : missing ≠ stuck) (hinner : Finishes stuck n inner)
    (hoperand : Finishes stuck (n + 1) operand) :
    Finishes stuck (n + 1) (enclosed isOpen isClose missing inner operand) := by
  intro c hn
  rw [enclosed]
  by_cases hsees : c.sees isOpen = true
  · rw [if_pos hsees]
    obtain ⟨t, tail, hrest, -⟩ := Cursor.exists_of_sees hsees
    have hnext := Cursor.rest_next hrest
    rw [hrest, List.length_cons] at hn
    have hin := hinner c.next (by rw [hnext]; omega)
    cases hres : inner c.next with
    | error err =>
      rw [hres] at hin
      simpa using hin
    | ok p =>
      obtain ⟨a, c'⟩ := p
      dsimp only
      split
      · simp
      · simpa using hmissing
  · rw [if_neg hsees]
    exact hoperand c hn

end Finish

/-! ## Boolean expressions -/

/-- The tokens that hold an expression together. -/
structure Vocabulary (τ : Type) where
  isNot : τ → Bool
  isAnd : τ → Bool
  isOr : τ → Bool
  isOpen : τ → Bool
  isClose : τ → Bool

inductive Level where
  | primary | negation | conjunction | disjunction
  deriving DecidableEq

section Grammar

variable [BooleanAlgebra α]

/-- `not` binds closer than `and`, and `and` closer than `or`. -/
inductive Reads (V : Vocabulary τ) (leaf : List τ → α → Prop) : Level → List τ → α → Prop
  | operand {ts a} : Avoids V.isOpen ts → leaf ts a → Reads V leaf .primary ts a
  | parens {t ts t' a} : V.isOpen t = true → Reads V leaf .disjunction ts a → V.isClose t' = true →
      Reads V leaf .primary (t :: ts ++ [t']) a
  | primary {ts a} : Avoids V.isNot ts → Reads V leaf .primary ts a → Reads V leaf .negation ts a
  | not {t ts a} : V.isNot t = true → Reads V leaf .negation ts a →
      Reads V leaf .negation (t :: ts) aᶜ
  | negation {ts a} : Reads V leaf .negation ts a → Reads V leaf .conjunction ts a
  | and {ts a t ts' b} : Reads V leaf .conjunction ts a → V.isAnd t = true →
      Reads V leaf .negation ts' b →
      Reads V leaf .conjunction (ts ++ t :: ts') (a ⊓ b)
  | conjunction {ts a} : Reads V leaf .conjunction ts a → Reads V leaf .disjunction ts a
  | or {ts a t ts' b} : Reads V leaf .disjunction ts a → V.isOr t = true →
      Reads V leaf .conjunction ts' b →
      Reads V leaf .disjunction (ts ++ t :: ts') (a ⊔ b)

variable {V : Vocabulary τ} {leaf : List τ → α → Prop} {ts : List τ} {a : α}

/-! Each level is what its parser reads. -/

theorem reads_primary :
    Reads V leaf .primary = Enclosed V.isOpen V.isClose (Reads V leaf .disjunction) leaf := by
  funext ts a
  apply propext
  constructor
  · rintro (⟨hfirst, h⟩ | ⟨ht, h, ht'⟩)
    · exact .operand hfirst h
    · exact .parens ht h ht'
  · rintro (⟨hfirst, h⟩ | ⟨ht, h, ht'⟩)
    · exact .operand hfirst h
    · exact .parens ht h ht'

theorem reads_negation : Reads V leaf .negation = Prefixed V.isNot (·ᶜ) (Reads V leaf .primary) := by
  funext ts a
  apply propext
  constructor
  · generalize hl : Level.negation = l
    intro h
    induction h with
    | primary hfirst h => exact .operand hfirst h
    | not ht _ ih => exact .op ht (ih hl)
    | _ => cases hl
  · intro h
    induction h with
    | operand hfirst h => exact .primary hfirst h
    | op ht _ ih => exact .not ht ih

theorem reads_conjunction :
    Reads V leaf .conjunction = Chain V.isAnd (· ⊓ ·) (Reads V leaf .negation) := by
  funext ts a
  apply propext
  constructor
  · generalize hl : Level.conjunction = l
    intro h
    induction h with
    | negation h => exact .one h
    | and _ ht h ih _ => exact .more (ih hl) ht h
    | _ => cases hl
  · intro h
    induction h with
    | one h => exact .negation h
    | more _ ht h ih => exact .and ih ht h

theorem reads_disjunction :
    Reads V leaf .disjunction = Chain V.isOr (· ⊔ ·) (Reads V leaf .conjunction) := by
  funext ts a
  apply propext
  constructor
  · generalize hl : Level.disjunction = l
    intro h
    induction h with
    | conjunction h => exact .one h
    | or _ ht h ih _ => exact .more (ih hl) ht h
    | _ => cases hl
  · intro h
    induction h with
    | one h => exact .conjunction h
    | more _ ht h ih => exact .or ih ht h

variable {t : τ} {ts' : List τ} {b : α}

/-- The operator is associative, so a chain can be continued with a chain. -/
theorem Reads.and_conjunction (h : Reads V leaf .conjunction ts a) (ht : V.isAnd t = true)
    (h' : Reads V leaf .conjunction ts' b) : Reads V leaf .conjunction (ts ++ t :: ts') (a ⊓ b) := by
  rw [reads_conjunction] at h'
  induction h' with
  | one h' => exact .and h ht h'
  | @more ts' b t' ts'' b' _ ht' h'' ih =>
    rw [← inf_assoc, ← List.cons_append, ← List.append_assoc]
    exact .and ih ht' h''

theorem Reads.or_disjunction (h : Reads V leaf .disjunction ts a) (ht : V.isOr t = true)
    (h' : Reads V leaf .disjunction ts' b) : Reads V leaf .disjunction (ts ++ t :: ts') (a ⊔ b) := by
  rw [reads_disjunction] at h'
  induction h' with
  | one h' => exact .or h ht h'
  | @more ts' b t' ts'' b' _ ht' h'' ih =>
    rw [← sup_assoc, ← List.cons_append, ← List.append_assoc]
    exact .or ih ht' h''

end Grammar

end Lib
