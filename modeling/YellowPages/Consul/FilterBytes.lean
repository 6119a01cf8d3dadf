import YellowPages.Consul.Filter
import YellowPages.Lib.Indexed

/-!
# The tokenizer on bytes

`tokenizeFilter` of `internal/consul/filter.go` as it is written: an index that goes through the bytes of
the text. Every turn moves it on and no byte is read past the end, so that the tokens are those of the
tokenizer without an index, on any bytes.
-/

namespace YellowPages.Consul

open Lib

/-- The case of the switch for a byte. One above 127 is in none of those with a name. -/
def byteClass (b : UInt8) : CharClass := charClass (Char.ofUInt8 b)

/-- The token of one turn, and the index after it. -/
def tokenizeTurn (s : List UInt8) (i : Nat) : Except Fault (Option (List UInt8) × Nat) := do
  let c ← readAt s i
  match byteClass c with
  | .blank => .ok (none, i + 1)
  | .paren => .ok (some [c], i + 1)
  | .quote =>
    let j ← scanWhile s (byteClass · ≠ .quote) (s.length + 1) (i + 1)
    let token ← slice s i (min (j + 1) s.length)
    .ok (some token, j + 1)
  | .equals | .bang =>
    let double ← if i + 1 < s.length then do
        let d ← readAt s (i + 1)
        .ok (decide (byteClass d = .equals))
      else .ok false
    if double then
      let token ← slice s i (i + 2)
      .ok (some token, i + 2)
    else .ok (some [c], i + 1)
  | .other =>
    let j ← scanWhile s (inWord byteClass) (s.length + 1) i
    let token ← slice s i j
    .ok (some token, j)

def tokenizeBytes (s : List UInt8) : Except Fault (List (List UInt8)) :=
  runTurns s.length (tokenizeTurn s) s.length 0 []

/-! ## Nothing is lost -/

section Lossless

variable {α : Type} (cls : α → CharClass)

/-- The text without the blanks outside of quotes. -/
def unblanked : Bool → List α → List α
  | _, [] => []
  | quoted, c :: s =>
    match cls c with
    | .blank => if quoted then c :: unblanked quoted s else unblanked quoted s
    | .quote => c :: unblanked (!quoted) s
    | _ => c :: unblanked quoted s

variable {cls}

theorem unblanked_of_inWord {c : α} (h : inWord cls c = true) (s : List α) :
    unblanked cls false (c :: s) = c :: unblanked cls false s := by
  unfold inWord at h
  rw [unblanked]
  cases hc : cls c <;> simp_all

theorem unblanked_word (s : List α) :
    unblanked cls false s = s.takeWhile (inWord cls) ++ unblanked cls false
      (s.dropWhile (inWord cls)) := by
  induction s with
  | nil => rfl
  | cons c s ih =>
    rw [List.takeWhile_cons, List.dropWhile_cons]
    by_cases hc : inWord cls c = true
    · rw [if_pos hc, if_pos hc, unblanked_of_inWord hc, List.cons_append, ← ih]
    · rw [if_neg hc, if_neg hc, List.nil_append]

theorem unblanked_quoted (s : List α) :
    unblanked cls true s = s.takeWhile (cls · ≠ .quote) ++ (s.dropWhile (cls · ≠ .quote)).take 1 ++
      unblanked cls false ((s.dropWhile (cls · ≠ .quote)).drop 1) := by
  induction s with
  | nil => rfl
  | cons c s ih =>
    by_cases hc : cls c = .quote
    · simp [unblanked, hc]
    · have hcons : unblanked cls true (c :: s) = c :: unblanked cls true s := by
        rw [unblanked]
        cases hclass : cls c <;> simp_all
      rw [hcons, ih]
      simp [hc]

/-- What one turn does: a blank is left out, and otherwise a token is cut off. -/
theorem tokenize_turn (cls : α → CharClass) (c : α) (s : List α) :
    ∃ (token : Option (List α)) (rest : List α), rest.length ≤ s.length ∧ token ≠ some [] ∧
      tokenize cls (c :: s) = token.toList ++ tokenize cls rest ∧
      unblanked cls false (c :: s) = token.getD [] ++ unblanked cls false rest := by
  cases hc : cls c with
  | blank => exact ⟨none, s, le_rfl, by simp, tokenize_blank hc, by simp [unblanked, hc]⟩
  | paren => exact ⟨some [c], s, le_rfl, by simp, tokenize_paren hc, by simp [unblanked, hc]⟩
  | quote =>
    have hlength : ((s.dropWhile (cls · ≠ .quote)).drop 1).length ≤ s.length :=
      ((List.drop_sublist 1 _).trans (s.dropWhile_sublist _)).length_le
    refine ⟨some (c :: (s.takeWhile (cls · ≠ .quote) ++ (s.dropWhile (cls · ≠ .quote)).take 1)),
      (s.dropWhile (cls · ≠ .quote)).drop 1, hlength, by simp, tokenize_quote hc, ?_⟩
    simp only [unblanked, hc, Bool.not_false, unblanked_quoted, Option.getD_some, List.cons_append]
  | equals | bang =>
    have hword : inWord cls c = true := by simp [inWord, hc]
    by_cases hs : ∀ d ∈ s.head?, cls d ≠ .equals
    · exact ⟨some [c], s, le_rfl, by simp, tokenize_lone (by simp [hc]) hs,
        unblanked_of_inWord hword s⟩
    · push Not at hs
      obtain ⟨d, hmem, hd⟩ := hs
      obtain ⟨s, rfl⟩ := List.head?_eq_some_iff.mp hmem
      have hword' : inWord cls d = true := by simp [inWord, hd]
      refine ⟨some [c, d], s, by simp, by simp, tokenize_symbol (by simp [hc]) hd, ?_⟩
      rw [unblanked_of_inWord hword, unblanked_of_inWord hword']
      rfl
  | other =>
    have hword : inWord cls c = true := by simp [inWord, hc]
    refine ⟨some (c :: s.takeWhile (inWord cls)), s.dropWhile (inWord cls),
      (s.dropWhile_sublist _).length_le,
      by simp, tokenize_other hc, ?_⟩
    rw [unblanked_of_inWord hword, unblanked_word]
    rfl

theorem ne_nil_of_mem_tokenize (s : List α) : ∀ t ∈ tokenize cls s, t ≠ [] := by
  induction hlength : s.length using Nat.strong_induction_on generalizing s with
  | _ n ih =>
    cases s with
    | nil => simp
    | cons c s =>
      obtain ⟨token, rest, hrest, htoken, htokens, -⟩ := tokenize_turn cls c s
      rw [List.length_cons] at hlength
      intro t ht
      rw [htokens] at ht
      rcases List.mem_append.mp ht with ht | ht
      · rintro rfl
        exact htoken (Option.mem_toList.mp ht)
      · exact ih rest.length (by omega) rest rfl t ht

theorem flatten_tokenize (s : List α) : (tokenize cls s).flatten = unblanked cls false s := by
  induction hlength : s.length using Nat.strong_induction_on generalizing s with
  | _ n ih =>
    cases s with
    | nil => rfl
    | cons c s =>
      obtain ⟨token, rest, hrest, -, htokens, hunblanked⟩ := tokenize_turn cls c s
      rw [List.length_cons] at hlength
      rw [htokens, hunblanked, List.flatten_append, ih rest.length (by omega) rest rfl]
      cases token <;> simp

end Lossless

/-! ## The index -/

section Turn

variable {s : List UInt8} {i : Nat} {c : UInt8} {rest : List UInt8}

theorem tokenizeTurn_blank (h : s.drop i = c :: rest) (hc : byteClass c = .blank) :
    tokenizeTurn s i = .ok (none, i + 1) := by
  rw [tokenizeTurn, readAt_eq h]
  simp only [bind, Except.bind, hc]

theorem tokenizeTurn_paren (h : s.drop i = c :: rest) (hc : byteClass c = .paren) :
    tokenizeTurn s i = .ok (some [c], i + 1) := by
  rw [tokenizeTurn, readAt_eq h]
  simp only [bind, Except.bind, hc]

theorem tokenizeTurn_quote (h : s.drop i = c :: rest) (hc : byteClass c = .quote) :
    tokenizeTurn s i =
      .ok (some (c ::
        (rest.takeWhile (byteClass · ≠ .quote) ++ (rest.dropWhile (byteClass · ≠ .quote)).take 1)),
        i + 1 + ((rest.takeWhile (byteClass · ≠ .quote)).length + 1)) := by
  have hlength := length_of_drop h
  have hrest : s.drop (i + 1) = rest := drop_of_drop h 0
  -- without a closing quote the scan stops at the end, one short of the index after the token
  have hend : min (i + 1 + (rest.takeWhile (byteClass · ≠ .quote)).length + 1) s.length =
      i + 1 + min ((rest.takeWhile (byteClass · ≠ .quote)).length + 1) rest.length := by
    omega
  rw [tokenizeTurn, readAt_eq h]
  simp only [bind, Except.bind, hc]
  rw [scanWhile_eq _ (by omega) (by omega), hrest]
  dsimp only
  rw [hend, slice_eq h (min_le_right _ _), ← List.take_eq_take_min, take_length_takeWhile_add]
  rfl

theorem tokenizeTurn_other (h : s.drop i = c :: rest) (hc : byteClass c = .other) :
    tokenizeTurn s i =
      .ok (some (c :: rest.takeWhile (inWord byteClass)),
        i + 1 + (rest.takeWhile (inWord byteClass)).length) := by
  have hlength := length_of_drop h
  have hword : inWord byteClass c = true := by simp [inWord, hc]
  have hcount : i + (c :: rest.takeWhile (inWord byteClass)).length =
      i + 1 + (rest.takeWhile (inWord byteClass)).length := by
    rw [List.length_cons]
    omega
  have htake :
      rest.take (rest.takeWhile (inWord byteClass)).length = rest.takeWhile (inWord byteClass) := by
    simpa using take_length_takeWhile_add (inWord byteClass) rest 0
  rw [tokenizeTurn, readAt_eq h]
  simp only [bind, Except.bind, hc]
  rw [scanWhile_eq _ (by omega) (by omega), h, List.takeWhile_cons, if_pos hword, hcount]
  dsimp only
  rw [slice_eq h (rest.takeWhile_sublist _).length_le, htake]

theorem tokenizeTurn_symbol (h : s.drop i = c :: rest)
    (hc : byteClass c = .equals ∨ byteClass c = .bang) :
    tokenizeTurn s i =
      match rest with
      | [] => .ok (some [c], i + 1)
      | d :: _ =>
        if byteClass d = .equals then .ok (some [c, d], i + 1 + 1) else .ok (some [c], i + 1) := by
  have hlength := length_of_drop h
  have hrest : s.drop (i + 1) = rest := drop_of_drop h 0
  rw [tokenizeTurn, readAt_eq h]
  cases rest with
  | nil =>
    have hend : ¬i + 1 < s.length := by simp [hlength]
    rcases hc with hc | hc <;> simp [bind, Except.bind, hc, hend]
  | cons d rest =>
    have hnext : i + 1 < s.length := by simp [hlength]
    have hslice : slice s i (i + 1 + 1) = .ok [c, d] := slice_eq h (by simp)
    rcases hc with hc | hc <;> simp [bind, Except.bind, hc, hnext, readAt_eq hrest, hslice]

theorem tokenizeTurn_spec (hi : i < s.length) :
    ∃ token next, tokenizeTurn s i = .ok (token, next) ∧ i < next ∧
      tokenize byteClass (s.drop i) = token.toList ++ tokenize byteClass (s.drop next) := by
  obtain ⟨c, rest, h⟩ : ∃ c rest, s.drop i = c :: rest := ⟨_, _, List.drop_eq_getElem_cons hi⟩
  have hrest : ∀ k, s.drop (i + 1 + k) = rest.drop k := drop_of_drop h
  cases hc : byteClass c with
  | blank =>
    refine ⟨_, _, tokenizeTurn_blank h hc, by omega, ?_⟩
    rw [h, hrest 0, tokenize_blank hc]
    rfl
  | paren =>
    refine ⟨_, _, tokenizeTurn_paren h hc, by omega, ?_⟩
    rw [h, hrest 0, tokenize_paren hc]
    rfl
  | quote =>
    refine ⟨_, _, tokenizeTurn_quote h hc, by omega, ?_⟩
    rw [h, hrest, drop_length_takeWhile_add, tokenize_quote hc]
    rfl
  | equals | bang =>
    have hturn := tokenizeTurn_symbol h (by simp [hc])
    cases rest with
    | nil =>
      refine ⟨_, _, hturn, by omega, ?_⟩
      rw [h, hrest 0, tokenize_lone (by simp [hc]) (by simp)]
      rfl
    | cons d rest =>
      by_cases hd : byteClass d = .equals
      · refine ⟨_, _, hturn.trans (if_pos hd), by omega, ?_⟩
        rw [h, hrest 1, tokenize_symbol (by simp [hc]) hd]
        rfl
      · refine ⟨_, _, hturn.trans (if_neg hd), by omega, ?_⟩
        rw [h, hrest 0, tokenize_lone (by simp [hc]) (by simpa using hd)]
        rfl
  | other =>
    refine ⟨_, _, tokenizeTurn_other h hc, by omega, ?_⟩
    have hdrop :
        rest.drop (rest.takeWhile (inWord byteClass)).length = rest.dropWhile (inWord byteClass) :=
      drop_length_takeWhile_add (inWord byteClass) rest 0
    rw [h, hrest, hdrop, tokenize_other hc]
    rfl

end Turn

theorem tokenizeBytes_eq (s : List UInt8) : tokenizeBytes s = .ok (tokenize byteClass s) := by
  have hdone : ∀ i, s.length ≤ i → tokenize byteClass (s.drop i) = [] := by
    intro i hi
    rw [List.drop_eq_nil_of_le hi, tokenize_nil]
  rw [tokenizeBytes, runTurns_eq hdone (fun i hi => tokenizeTurn_spec hi) (by omega),
    List.drop_zero, List.nil_append]

/-! ## Texts -/

section Encoded

variable {α β : Type} {cls : α → CharClass} {cls' : β → CharClass} {enc : α → List β}

/-- Each character is written in characters of its class, in a single one unless it is part of a
word. -/
structure Encodes (enc : α → List β) (cls : α → CharClass) (cls' : β → CharClass) : Prop where
  ne_nil : ∀ c, enc c ≠ []
  class_eq : ∀ c, ∀ b ∈ enc c, cls' b = cls c
  single : ∀ c, cls c ≠ .other → ∃ b, enc c = [b] ∧ cls' b = cls c

theorem Encodes.takeWhile (h : Encodes enc cls cls') (p : CharClass → Bool) (s : List α) :
    (s.flatMap enc).takeWhile (fun b => p (cls' b)) = (s.takeWhile fun c => p (cls c)).flatMap enc := by
  induction s with
  | nil => rfl
  | cons c s ih =>
    rw [List.flatMap_cons, List.takeWhile_cons]
    by_cases hc : p (cls c) = true
    · rw [if_pos hc, List.flatMap_cons, ← ih, List.takeWhile_append_of_pos]
      intro b hb
      rw [h.class_eq c b hb, hc]
    · obtain ⟨b, bs, henc⟩ := List.exists_cons_of_ne_nil (h.ne_nil c)
      have hb := h.class_eq c b (by simp [henc])
      rw [if_neg hc, henc, List.cons_append, List.takeWhile_cons, hb, if_neg hc]
      rfl

theorem Encodes.dropWhile (h : Encodes enc cls cls') (p : CharClass → Bool) (s : List α) :
    (s.flatMap enc).dropWhile (fun b => p (cls' b)) = (s.dropWhile fun c => p (cls c)).flatMap enc := by
  have hsplit : (s.flatMap enc).takeWhile (fun b => p (cls' b)) ++
      (s.flatMap enc).dropWhile (fun b => p (cls' b)) =
      (s.takeWhile fun c => p (cls c)).flatMap enc ++ (s.dropWhile fun c => p (cls c)).flatMap enc := by
    rw [List.takeWhile_append_dropWhile, ← List.flatMap_append, List.takeWhile_append_dropWhile]
  rw [h.takeWhile] at hsplit
  exact List.append_cancel_left hsplit

theorem Encodes.takeWhile_inWord (h : Encodes enc cls cls') (s : List α) :
    (s.flatMap enc).takeWhile (inWord cls') = (s.takeWhile (inWord cls)).flatMap enc :=
  h.takeWhile (fun k => k ≠ .blank && k ≠ .paren && k ≠ .quote) s

theorem Encodes.dropWhile_inWord (h : Encodes enc cls cls') (s : List α) :
    (s.flatMap enc).dropWhile (inWord cls') = (s.dropWhile (inWord cls)).flatMap enc :=
  h.dropWhile (fun k => k ≠ .blank && k ≠ .paren && k ≠ .quote) s

/-- A closing quote is a single character on both sides. -/
theorem Encodes.closing (h : Encodes enc cls cls') {rest : List α}
    (hrest : ∀ q ∈ rest.head?, cls q = .quote) :
    (rest.flatMap enc).take 1 = (rest.take 1).flatMap enc ∧ (rest.flatMap enc).drop 1 =
      (rest.drop 1).flatMap enc := by
  cases rest with
  | nil => exact ⟨rfl, rfl⟩
  | cons q rest =>
    obtain ⟨b, henc, -⟩ := h.single q (by rw [hrest q rfl]; decide)
    simp [henc]

theorem quote_of_dropWhile (s : List α) : ∀ q ∈ (s.dropWhile (cls · ≠ .quote)).head?,
    cls q = .quote := by
  intro q hq
  have hstop := List.head?_dropWhile_not (cls · ≠ .quote) s
  rw [Option.mem_def.mp hq] at hstop
  simpa using hstop

theorem Encodes.headNot (h : Encodes enc cls cls') {s : List α}
    (hs : ∀ d ∈ s.head?, cls d ≠ .equals) :
    ∀ b ∈ (s.flatMap enc).head?, cls' b ≠ .equals := by
  cases s with
  | nil => simp
  | cons d s =>
    obtain ⟨b, bs, henc⟩ := List.exists_cons_of_ne_nil (h.ne_nil d)
    have hb := h.class_eq d b (by simp [henc])
    simpa [henc, hb] using hs d rfl

/-- The tokens of the text as it is written are those of the text, each as it is written. -/
theorem tokenize_flatMap (h : Encodes enc cls cls') (s : List α) :
    tokenize cls' (s.flatMap enc) = (tokenize cls s).map (·.flatMap enc) := by
  induction hlength : s.length using Nat.strong_induction_on generalizing s with
  | _ n ih =>
    cases s with
    | nil => rfl
    | cons c s =>
      rw [List.length_cons] at hlength
      have hshorter : ∀ s' : List α, s'.length ≤ s.length →
          tokenize cls' (s'.flatMap enc) = (tokenize cls s').map (·.flatMap enc) :=
        fun s' hs' => ih s'.length (by omega) s' rfl
      rw [List.flatMap_cons]
      cases hc : cls c with
      | blank =>
        obtain ⟨b, henc, hb⟩ := h.single c (by simp [hc])
        rw [henc, List.singleton_append, tokenize_blank (hb.trans hc), tokenize_blank hc,
          hshorter s le_rfl]
      | paren =>
        obtain ⟨b, henc, hb⟩ := h.single c (by simp [hc])
        rw [henc, List.singleton_append, tokenize_paren (hb.trans hc), tokenize_paren hc,
          hshorter s le_rfl]
        simp [henc]
      | quote =>
        obtain ⟨b, henc, hb⟩ := h.single c (by simp [hc])
        obtain ⟨htake, hdrop⟩ := h.closing (quote_of_dropWhile s)
        have hle : ((s.dropWhile (cls · ≠ .quote)).drop 1).length ≤ s.length :=
          ((List.drop_sublist 1 _).trans (s.dropWhile_sublist _)).length_le
        rw [henc, List.singleton_append, tokenize_quote (hb.trans hc), tokenize_quote hc,
          h.takeWhile (· ≠ .quote), h.dropWhile (· ≠ .quote), htake, hdrop, hshorter _ hle]
        simp [henc]
      | equals | bang =>
        obtain ⟨b, henc, hb⟩ := h.single c (by simp [hc])
        rw [henc, List.singleton_append]
        by_cases hs : ∀ d ∈ s.head?, cls d ≠ .equals
        · rw [tokenize_lone (by simp [hb, hc]) (h.headNot hs), tokenize_lone (by simp [hc]) hs,
            hshorter s le_rfl]
          simp [henc]
        · push Not at hs
          obtain ⟨d, hmem, hd⟩ := hs
          obtain ⟨s, rfl⟩ := List.head?_eq_some_iff.mp hmem
          obtain ⟨b', henc', hb'⟩ := h.single d (by simp [hd])
          rw [List.flatMap_cons, henc', List.singleton_append,
            tokenize_symbol (by simp [hb, hc]) (hb'.trans hd),
            tokenize_symbol (by simp [hc]) hd, hshorter s (by simp)]
          simp [henc, henc']
      | other =>
        -- all of the character is in the word, which goes on after it
        obtain ⟨b, bs, henc⟩ := List.exists_cons_of_ne_nil (h.ne_nil c)
        have hclass : ∀ b' ∈ b :: bs, cls' b' = .other :=
          fun b' hb' => (h.class_eq c b' (henc ▸ hb')).trans hc
        have hword : ∀ b' ∈ bs, inWord cls' b' = true := fun b' hb' => by
          simp [inWord, hclass b' (List.mem_cons_of_mem b hb')]
        rw [henc, List.cons_append, tokenize_other (hclass b (by simp)), tokenize_other hc,
          List.takeWhile_append_of_pos hword, List.dropWhile_append_of_pos hword,
            h.takeWhile_inWord, h.dropWhile_inWord,
          hshorter _ (s.dropWhile_sublist _).length_le]
        simp [henc]

end Encoded

def utf8 (s : String) : List UInt8 := s.toUTF8.data.toList

theorem utf8_eq (s : String) : utf8 s = s.toList.flatMap String.utf8EncodeChar := by
  have hbytes : s.toByteArray = s.toList.utf8Encode := by
    rw [← String.toByteArray_ofList, String.ofList_toList]
  rw [utf8, String.toUTF8_eq_toByteArray, hbytes, List.utf8Encode, List.data_toByteArray]

theorem charClass_of_le {c : Char} (h : 128 ≤ c.toNat) : charClass c = .other := by
  have hne : ∀ d : Char, d.toNat < 128 → c ≠ d := by
    rintro d hd rfl
    omega
  simp [charClass, hne ' ' (by decide), hne '\t' (by decide), hne '(' (by decide), hne ')' (by decide),
    hne '"' (by decide), hne '=' (by decide), hne '!' (by decide)]

theorem toNat_ofUInt8 (b : UInt8) : (Char.ofUInt8 b).toNat = b.toNat := UInt8.toNat_toUInt32 b

theorem byteClass_of_le {b : UInt8} (h : 128 ≤ b.toNat) : byteClass b = .other :=
  charClass_of_le (by rwa [toNat_ofUInt8])

theorem utf8EncodeChar_of_lt {c : Char} (h : c.toNat < 128) :
    String.utf8EncodeChar c = [UInt8.ofNat c.toNat] :=
  if_pos (Nat.le_of_lt_succ h)

theorem byteClass_of_lt {c : Char} (h : c.toNat < 128) :
    byteClass (UInt8.ofNat c.toNat) = charClass c := by
  have hchar : Char.ofUInt8 (UInt8.ofNat c.toNat) = c := by
    rw [← Char.toNat_inj, toNat_ofUInt8, UInt8.toNat_ofNat', Nat.mod_eq_of_lt (by omega)]
  rw [byteClass, hchar]

theorem le_of_mem_utf8EncodeChar {c : Char} (h : 128 ≤ c.toNat) :
    ∀ b ∈ String.utf8EncodeChar c, 128 ≤ b.toNat := by
  have hnot : ¬c.val.toNat ≤ 127 := Nat.not_le.mpr h
  intro b hb
  simp only [String.utf8EncodeChar, if_neg hnot] at hb
  split at hb
  · simp only [List.mem_cons, List.not_mem_nil, or_false] at hb
    rcases hb with rfl | rfl <;> rw [UInt8.toNat_ofNat'] <;> omega
  · split at hb
    · simp only [List.mem_cons, List.not_mem_nil, or_false] at hb
      rcases hb with rfl | rfl | rfl <;> rw [UInt8.toNat_ofNat'] <;> omega
    · simp only [List.mem_cons, List.not_mem_nil, or_false] at hb
      rcases hb with rfl | rfl | rfl | rfl <;> rw [UInt8.toNat_ofNat'] <;> omega

theorem encodes_utf8 : Encodes String.utf8EncodeChar charClass byteClass where
  ne_nil c := String.utf8EncodeChar_ne_nil
  class_eq c b hb := by
    rcases Nat.lt_or_ge c.toNat 128 with hc | hc
    · rw [utf8EncodeChar_of_lt hc, List.mem_singleton] at hb
      rw [hb, byteClass_of_lt hc]
    · rw [charClass_of_le hc, byteClass_of_le (le_of_mem_utf8EncodeChar hc b hb)]
  single c hc := by
    have hlt : c.toNat < 128 := by
      by_contra hle
      exact hc (charClass_of_le (Nat.le_of_not_lt hle))
    exact ⟨_, utf8EncodeChar_of_lt hlt, byteClass_of_lt hlt⟩

/-- On a text these are the tokens of the tokenizer on characters. -/
theorem tokenizeBytes_utf8 (s : String) :
    tokenizeBytes (utf8 s) = .ok ((tokenizeFilter s).map utf8) := by
  rw [tokenizeBytes_eq, utf8_eq, tokenize_flatMap encodes_utf8, tokenizeFilter, List.map_map]
  congr 2
  funext cs
  simp [utf8_eq]

/-! ## Any bytes -/

/-- On any bytes every turn succeeds and moves on, no token is empty, and the tokens are the text
without the blanks outside of quotes. -/
theorem tokenizeBytes_lossless (s : List UInt8) :
    (∀ i < s.length, ∃ token next, tokenizeTurn s i = .ok (token, next) ∧ i < next) ∧
      ∃ tokens, tokenizeBytes s = .ok tokens ∧
        (∀ t ∈ tokens, t ≠ []) ∧ tokens.flatten = unblanked byteClass false s := by
  refine ⟨?_, tokenize byteClass s, tokenizeBytes_eq s, ne_nil_of_mem_tokenize s,
    flatten_tokenize s⟩
  intro i hi
  obtain ⟨token, next, hturn, hnext, -⟩ := tokenizeTurn_spec hi
  exact ⟨token, next, hturn, hnext⟩

end YellowPages.Consul
