import YellowPages.Lib.Descent

/-!
# Sentences

Boolean expressions as a language: what is a sentence, apart from what it means. For operands of three
tokens a sentence is also recognised by going through the tokens once, with a count of the open
parentheses.
-/

namespace Lib

variable {τ α : Type}

/-! ## Sentences -/

def Vocabulary.Keyword (V : Vocabulary τ) (t : τ) : Prop :=
  V.isNot t = true ∨ V.isAnd t = true ∨ V.isOr t = true ∨ V.isOpen t = true ∨ V.isClose t = true

/-- An expression whose operands are as `shape` says. -/
def Expression (V : Vocabulary τ) (shape : List τ → Prop) (l : Level) (ts : List τ) : Prop :=
  Reads V (fun ts (_ : PUnit) => shape ts) l ts PUnit.unit

abbrev Sentence (V : Vocabulary τ) (shape : List τ → Prop) (ts : List τ) : Prop :=
  Expression V shape .disjunction ts

section Sentence

variable {V : Vocabulary τ}

theorem Reads.expression [BooleanAlgebra α] {leaf : List τ → α → Prop} {l : Level} {ts : List τ}
    {a : α} (h : Reads V leaf l ts a) : Expression V (fun ts => ∃ a, leaf ts a) l ts := by
  unfold Expression
  induction h with
  | operand hfirst h => exact .operand hfirst ⟨_, h⟩
  | parens ht _ ht' ih => exact .parens ht ih ht'
  | primary hfirst _ ih => exact .primary hfirst ih
  | not ht _ ih => exact .not ht ih
  | negation _ ih => exact .negation ih
  | and _ ht _ ih ih' => exact .and ih ht ih'
  | conjunction _ ih => exact .conjunction ih
  | or _ ht _ ih ih' => exact .or ih ht ih'

theorem Expression.exists_reads [BooleanAlgebra α] {leaf : List τ → α → Prop} {l : Level}
    {ts : List τ} (h : Expression V (fun ts => ∃ a, leaf ts a) l ts) :
    ∃ a, Reads V leaf l ts a := by
  unfold Expression at h
  generalize PUnit.unit = x at h
  induction h with
  | operand hfirst h =>
    obtain ⟨a, ha⟩ := h
    exact ⟨a, .operand hfirst ha⟩
  | parens ht _ ht' ih =>
    obtain ⟨a, ha⟩ := ih
    exact ⟨a, .parens ht ha ht'⟩
  | primary hfirst _ ih =>
    obtain ⟨a, ha⟩ := ih
    exact ⟨a, .primary hfirst ha⟩
  | not ht _ ih =>
    obtain ⟨a, ha⟩ := ih
    exact ⟨aᶜ, .not ht ha⟩
  | negation _ ih =>
    obtain ⟨a, ha⟩ := ih
    exact ⟨a, .negation ha⟩
  | and _ ht _ ih ih' =>
    obtain ⟨a, ha⟩ := ih
    obtain ⟨b, hb⟩ := ih'
    exact ⟨a ⊓ b, .and ha ht hb⟩
  | conjunction _ ih =>
    obtain ⟨a, ha⟩ := ih
    exact ⟨a, .conjunction ha⟩
  | or _ ht _ ih ih' =>
    obtain ⟨a, ha⟩ := ih
    obtain ⟨b, hb⟩ := ih'
    exact ⟨a ⊔ b, .or ha ht hb⟩

/-- An expression is made of the tokens of its operands and of keywords. -/
theorem Expression.forall_mem {shape : List τ → Prop} {l : Level} {ts : List τ}
    (h : Expression V shape l ts) {P : τ → Prop} (hshape : ∀ ts, shape ts → ∀ t ∈ ts, P t)
    (hkeyword : ∀ t, V.Keyword t → P t) :
    ∀ t ∈ ts, P t := by
  unfold Expression at h
  generalize PUnit.unit = x at h
  induction h with
  | operand _ h => exact hshape _ h
  | parens ht _ ht' ih =>
    intro s hs
    rcases List.mem_append.mp hs with hs | hs
    · rcases List.mem_cons.mp hs with rfl | hs
      · exact hkeyword _ (by simp [Vocabulary.Keyword, ht])
      · exact ih s hs
    · rw [List.mem_singleton.mp hs]
      exact hkeyword _ (by simp [Vocabulary.Keyword, ht'])
  | primary _ _ ih => exact ih
  | not ht _ ih =>
    exact List.forall_mem_cons.mpr ⟨hkeyword _ (by simp [Vocabulary.Keyword, ht]), ih⟩
  | negation _ ih => exact ih
  | and _ ht _ ih ih' =>
    exact List.forall_mem_append.mpr
      ⟨ih, List.forall_mem_cons.mpr ⟨hkeyword _ (by simp [Vocabulary.Keyword, ht]), ih'⟩⟩
  | conjunction _ ih => exact ih
  | or _ ht _ ih ih' =>
    exact List.forall_mem_append.mpr
      ⟨ih, List.forall_mem_cons.mpr ⟨hkeyword _ (by simp [Vocabulary.Keyword, ht]), ih'⟩⟩

end Sentence

/-! ## Going through the tokens -/

/-- Where in an expression the next token stands: at the start of an operand, at its second or its
third token, or after it. -/
inductive Mode (τ : Type) where
  | operand
  | second (l : τ)
  | third (l o : τ)
  | after

section Runs

variable (V : Vocabulary τ) (operand : τ → τ → τ → Prop)

/-- From this place, with `d` open parentheses, the tokens finish a sentence. -/
def Runs : Mode τ → Nat → List τ → Prop
  | .operand, d, t :: ts =>
    if V.isNot t then Runs .operand d ts
    else if V.isOpen t then Runs .operand (d + 1) ts
    else Runs (.second t) d ts
  | .second l, d, o :: ts => Runs (.third l o) d ts
  | .third l o, d, r :: ts => operand l o r ∧ Runs .after d ts
  | .after, d, t :: ts =>
    if V.isClose t then 0 < d ∧ Runs .after (d - 1) ts
    else (V.isAnd t = true ∨ V.isOr t = true) ∧ Runs .operand d ts
  | .after, d, [] => d = 0
  | _, _, [] => False

/-- The operands that are met on the way. -/
def operands : Mode τ → List τ → List (τ × τ × τ)
  | .operand, t :: ts =>
    if V.isNot t || V.isOpen t then operands .operand ts else operands (.second t) ts
  | .second l, o :: ts => operands (.third l o) ts
  | .third l o, r :: ts => (l, o, r) :: operands .after ts
  | .after, t :: ts => if V.isClose t then operands .after ts else operands .operand ts
  | _, [] => []

variable {V operand}

theorem Runs.exists_operand {l : τ} {d : Nat} {ts : List τ} (h : Runs V operand (.second l) d ts) :
    ∃ o r ts', ts = o :: r :: ts' ∧ operand l o r ∧ Runs V operand .after d ts' := by
  match ts, h with
  | [], h => exact h.elim
  | [o], h => exact h.elim
  | o :: r :: ts', h => exact ⟨o, r, ts', rfl, h⟩

/-- Two runs that meet the same token at the same place stay together, and their parentheses do. -/
theorem Runs.cons_both {operand' : τ → τ → τ → Prop} {m : Mode τ} {d d' : Nat} {t : τ}
    {ts ts' : List τ} (hd : d' ≤ d) (h : Runs V operand m d (t :: ts))
    (h' : Runs V operand' m d' (t :: ts')) :
    ∃ m' e e', e' ≤ e ∧ (e' = e → d' = d) ∧ Runs V operand m' e ts ∧ Runs V operand' m' e' ts' := by
  cases m with
  | operand =>
    rw [Runs] at h h'
    split at h
    · rw [if_pos (by assumption)] at h'
      exact ⟨.operand, d, d', hd, id, h, h'⟩
    · rw [if_neg (by assumption)] at h'
      split at h
      · rw [if_pos (by assumption)] at h'
        exact ⟨.operand, d + 1, d' + 1, by omega, by omega, h, h'⟩
      · rw [if_neg (by assumption)] at h'
        exact ⟨.second t, d, d', hd, id, h, h'⟩
  | second l => exact ⟨.third l t, d, d', hd, id, h, h'⟩
  | third l o => exact ⟨.after, d, d', hd, id, h.2, h'.2⟩
  | after =>
    rw [Runs] at h h'
    split at h
    · rw [if_pos (by assumption)] at h'
      exact ⟨.after, d - 1, d' - 1, by omega, by omega, h.2, h'.2⟩
    · rw [if_neg (by assumption)] at h'
      exact ⟨.operand, d, d', hd, id, h.2, h'.2⟩

theorem Runs.forall_operands {m : Mode τ} {d : Nat} {ts : List τ} (h : Runs V operand m d ts) :
    ∀ p ∈ operands V m ts, operand p.1 p.2.1 p.2.2 := by
  induction ts generalizing m d with
  | nil => cases m <;> simp [operands]
  | cons t ts ih =>
    cases m with
    | operand =>
      rw [Runs] at h
      rw [operands]
      split at h
      · rw [if_pos (by simp_all)]
        exact ih h
      · split at h
        · rw [if_pos (by simp_all)]
          exact ih h
        · rw [if_neg (by simp_all)]
          exact ih h
    | second l =>
      rw [Runs] at h
      rw [operands]
      exact ih h
    | third l o =>
      rw [Runs] at h
      rw [operands]
      exact List.forall_mem_cons.mpr ⟨h.1, ih h.2⟩
    | after =>
      rw [Runs] at h
      rw [operands]
      split at h
      · rw [if_pos (by assumption)]
        exact ih h.2
      · rw [if_neg (by assumption)]
        exact ih h.2

end Runs

section Three

variable {V : Vocabulary τ} {operand : τ → τ → τ → Prop}

/-- Operands of three tokens. -/
def Three (operand : τ → τ → τ → Prop) (ts : List τ) : Prop :=
  ∃ l o r, ts = [l, o, r] ∧ operand l o r

variable (hclose : ∀ t, V.isClose t = true → V.isAnd t = false ∧ V.isOr t = false)
include hclose

/-- Behind an expression, the tokens go on as behind an operand. -/
theorem Expression.runs {l : Level} {ts : List τ} (h : Expression V (Three operand) l ts)
    (hfirst : l = .primary → Avoids V.isNot ts) {d : Nat} {tail : List τ}
    (htail : Runs V operand .after d tail) :
    Runs V operand .operand d (ts ++ tail) := by
  have hconnective : ∀ {t : τ}, V.isAnd t = true ∨ V.isOr t = true →
      ∀ {d tail}, Runs V operand .operand d tail →
      Runs V operand .after d (t :: tail) := by
    intro t ht d tail hrun
    have hnot : ¬V.isClose t = true := fun hc => by simp_all
    rw [Runs, if_neg hnot]
    exact ⟨ht, hrun⟩
  unfold Expression at h
  generalize PUnit.unit = x at h
  induction h generalizing d tail with
  | operand hopen h =>
    obtain ⟨l, o, r, rfl, hleaf⟩ := h
    simp only [List.cons_append, List.nil_append, Runs, (hfirst rfl).head, hopen.head]
    exact ⟨hleaf, htail⟩
  | @parens t ts t' a ht _ ht' ih =>
    have hnot : V.isNot t = false := (hfirst rfl).head
    have hinner : Runs V operand .operand (d + 1) (ts ++ t' :: tail) := by
      refine ih (by simp) ?_
      rw [Runs, if_pos ht']
      exact ⟨Nat.succ_pos d, htail⟩
    rw [List.append_assoc, List.cons_append, Runs, hnot, ht]
    exact hinner
  | primary hnot _ ih => exact ih (fun _ => hnot) htail
  | not ht _ ih =>
    rw [List.cons_append, Runs, if_pos ht]
    exact ih (by simp) htail
  | negation _ ih => exact ih (by simp) htail
  | and _ ht _ ih ih' =>
    rw [List.append_assoc, List.cons_append]
    exact ih (by simp) (hconnective (Or.inl ht) (ih' (by simp) htail))
  | conjunction _ ih => exact ih (by simp) htail
  | or _ ht _ ih ih' =>
    rw [List.append_assoc, List.cons_append]
    exact ih (by simp) (hconnective (Or.inr ht) (ih' (by simp) htail))

/-- If the operands met on the way are of another kind too, the expression is. -/
theorem Expression.exists_operands (operand' : τ → τ → τ → Prop) {l : Level} {ts : List τ}
    (h : Expression V (Three operand) l ts) (hfirst : l = .primary → Avoids V.isNot ts) :
    ∃ ps, (∀ tail, operands V .operand (ts ++ tail) = ps ++ operands V .after tail) ∧
      ((∀ p ∈ ps, operand' p.1 p.2.1 p.2.2) → Expression V (Three operand') l ts) := by
  have hconnective : ∀ {t : τ}, V.isAnd t = true ∨ V.isOr t = true → ∀ tail,
      operands V .after (t :: tail) = operands V .operand tail := by
    intro t ht tail
    rw [operands, if_neg fun hc => by simp_all]
  unfold Expression at h ⊢
  generalize PUnit.unit = x at h ⊢
  induction h with
  | operand hopen h =>
    obtain ⟨l, o, r, rfl, -⟩ := h
    have hnot := (hfirst rfl).head
    have hopen' := hopen.head
    refine ⟨[(l, o, r)], fun tail => ?_,
      fun hall => .operand hopen ⟨l, o, r, rfl, hall _ List.mem_cons_self⟩⟩
    simp [operands, hnot, hopen']
  | parens ht _ ht' ih =>
    obtain ⟨ps, heq, hexp⟩ := ih (by simp)
    refine ⟨ps, fun tail => ?_, fun hall => .parens ht (hexp hall) ht'⟩
    rw [List.append_assoc, List.cons_append, operands, if_pos (by simp [ht]), heq,
      List.singleton_append, operands,
      if_pos ht']
  | primary hnot _ ih =>
    obtain ⟨ps, heq, hexp⟩ := ih fun _ => hnot
    exact ⟨ps, heq, fun hall => .primary hnot (hexp hall)⟩
  | not ht _ ih =>
    obtain ⟨ps, heq, hexp⟩ := ih (by simp)
    refine ⟨ps, fun tail => ?_, fun hall => .not ht (hexp hall)⟩
    rw [List.cons_append, operands, if_pos (by simp [ht]), heq]
  | negation _ ih =>
    obtain ⟨ps, heq, hexp⟩ := ih (by simp)
    exact ⟨ps, heq, fun hall => .negation (hexp hall)⟩
  | and _ ht _ ih ih' =>
    obtain ⟨ps, heq, hexp⟩ := ih (by simp)
    obtain ⟨ps', heq', hexp'⟩ := ih' (by simp)
    refine ⟨ps ++ ps', fun tail => ?_, fun hall => ?_⟩
    · rw [List.append_assoc, heq, List.cons_append, hconnective (Or.inl ht), heq', List.append_assoc]
    · obtain ⟨hps, hps'⟩ := List.forall_mem_append.mp hall
      exact .and (hexp hps) ht (hexp' hps')
  | conjunction _ ih =>
    obtain ⟨ps, heq, hexp⟩ := ih (by simp)
    exact ⟨ps, heq, fun hall => .conjunction (hexp hall)⟩
  | or _ ht _ ih ih' =>
    obtain ⟨ps, heq, hexp⟩ := ih (by simp)
    obtain ⟨ps', heq', hexp'⟩ := ih' (by simp)
    refine ⟨ps ++ ps', fun tail => ?_, fun hall => ?_⟩
    · rw [List.append_assoc, heq, List.cons_append, hconnective (Or.inr ht), heq', List.append_assoc]
    · obtain ⟨hps, hps'⟩ := List.forall_mem_append.mp hall
      exact .or (hexp hps) ht (hexp' hps')

theorem Sentence.runs {ts : List τ} (h : Sentence V (Three operand) ts) :
    Runs V operand .operand 0 ts := by
  have hrun := Expression.runs hclose h (by simp) (show Runs V operand .after 0 [] from rfl)
  rwa [List.append_nil] at hrun

theorem Sentence.of_operands {operand' : τ → τ → τ → Prop} {ts : List τ}
    (h : Sentence V (Three operand) ts)
    (hall : ∀ p ∈ operands V .operand ts, operand' p.1 p.2.1 p.2.2) :
    Sentence V (Three operand') ts := by
  obtain ⟨ps, heq, hexp⟩ := Expression.exists_operands hclose operand' h (by simp)
  have hps : operands V .operand ts = ps := by simpa [operands] using heq []
  exact hexp (hps ▸ hall)

end Three

end Lib
