import YellowPages.Lib.Strings

/-!
# Numbers as bytes, and bytes as text

Unsigned numbers in a fixed number of bytes, the most significant first, and base64 without padding.
-/

namespace Lib

/-! ## Big-endian numbers -/

def bigEndian : Nat → Nat → List UInt8
  | 0, _ => []
  | width + 1, x => bigEndian width (x / 256) ++ [UInt8.ofNat x]

def ofBigEndian (bytes : List UInt8) : Nat := bytes.foldl (fun x b => 256 * x + b.toNat) 0

@[simp] theorem length_bigEndian (width x : Nat) : (bigEndian width x).length = width := by
  induction width generalizing x with
  | zero => rfl
  | succ width ih => rw [bigEndian, List.length_append, ih, List.length_singleton]

theorem ofBigEndian_concat (bytes : List UInt8) (b : UInt8) :
    ofBigEndian (bytes ++ [b]) = 256 * ofBigEndian bytes + b.toNat := by
  rw [ofBigEndian, List.foldl_append]
  rfl

theorem ofBigEndian_bigEndian {width x : Nat} (h : x < 256 ^ width) :
    ofBigEndian (bigEndian width x) = x := by
  induction width generalizing x with
  | zero =>
    rw [pow_zero, Nat.lt_one_iff] at h
    rw [h]
    rfl
  | succ width ih =>
    have hhigh : x / 256 < 256 ^ width := Nat.div_lt_of_lt_mul (by rwa [pow_succ, mul_comm] at h)
    have hlow : (UInt8.ofNat x).toNat = x % 256 := UInt8.toNat_ofNat'
    rw [bigEndian, ofBigEndian_concat, ih hhigh, hlow]
    omega

/-! ## Base64 -/

/-- The digits 0 to 63 as characters. Line ends are none of them. -/
structure Alphabet where
  encode : Fin 64 → Char
  decode : Char → Option (Fin 64)
  decode_encode : ∀ d, decode (encode d) = some d
  decode_lineEnd : ∀ c, c = '\n' ∨ c = '\r' → decode c = none

/-- Three bytes are four digits. -/
def digits4 (x : Nat) : List (Fin 64) :=
  [Fin.ofNat 64 (x / 64 ^ 3), Fin.ofNat 64 (x / 64 ^ 2), Fin.ofNat 64 (x / 64), Fin.ofNat 64 x]

def bytes3 (x : Nat) : List UInt8 := [UInt8.ofNat (x / 256 ^ 2), UInt8.ofNat (x / 256), UInt8.ofNat x]

def encodeDigits : List UInt8 → List (Fin 64)
  | a :: b :: c :: bytes => digits4 (a.toNat * 256 ^ 2 + b.toNat * 256 + c.toNat) ++ encodeDigits bytes
  | [a, b] => (digits4 (a.toNat * 256 ^ 2 + b.toNat * 256)).take 3
  | [a] => (digits4 (a.toNat * 256 ^ 2)).take 2
  | [] => []

/-- A last group of two or three digits is one or two bytes, and the bits that are left over do not
count. A single digit is no group. -/
def decodeDigits : List (Fin 64) → Option (List UInt8)
  | p :: q :: r :: s :: digits =>
    (decodeDigits digits).map (bytes3 (p.val * 64 ^ 3 + q.val * 64 ^ 2 + r.val * 64 + s.val) ++ ·)
  | [p, q, r] => some ((bytes3 (p.val * 64 ^ 3 + q.val * 64 ^ 2 + r.val * 64)).take 2)
  | [p, q] => some ((bytes3 (p.val * 64 ^ 3 + q.val * 64 ^ 2)).take 1)
  | [_] => none
  | [] => some []

theorem ofNat_eq_of_mod {b : UInt8} {x : Nat} (h : x % 256 = b.toNat) : UInt8.ofNat x = b := by
  rw [← UInt8.toNat_inj, UInt8.toNat_ofNat']
  exact h

theorem bytes3_eq (a b c : UInt8) :
    bytes3 (a.toNat * 256 ^ 2 + b.toNat * 256 + c.toNat) = [a, b, c] := by
  have ha := a.toNat_lt
  have hb := b.toNat_lt
  have hc := c.toNat_lt
  rw [bytes3, ofNat_eq_of_mod (b := a) (by omega), ofNat_eq_of_mod (b := b) (by omega),
    ofNat_eq_of_mod (b := c) (by omega)]

/-- The digits have the value that they were made of. -/
theorem digits4_value {x : Nat} (h : x < 64 ^ 4) :
    (Fin.ofNat 64 (x / 64 ^ 3)).val * 64 ^ 3 + (Fin.ofNat 64 (x / 64 ^ 2)).val * 64 ^ 2 +
      (Fin.ofNat 64 (x / 64)).val * 64 + (Fin.ofNat 64 x).val = x := by
  simp only [Fin.val_ofNat]
  omega

theorem decodeDigits_encodeDigits (bytes : List UInt8) :
    decodeDigits (encodeDigits bytes) = some bytes := by
  match bytes with
  | [] => rfl
  | [a] =>
    have ha := a.toNat_lt
    have hbytes : bytes3 (a.toNat * 256 ^ 2) = [a, 0, 0] := by simpa using bytes3_eq a 0 0
    -- two digits hold the byte, and the other two would be zero
    have hvalue : (Fin.ofNat 64 (a.toNat * 256 ^ 2 / 64 ^ 3)).val * 64 ^ 3 +
        (Fin.ofNat 64 (a.toNat * 256 ^ 2 / 64 ^ 2)).val * 64 ^ 2 = a.toNat * 256 ^ 2 := by
      simp only [Fin.val_ofNat]
      omega
    simp only [encodeDigits, digits4, List.take, decodeDigits]
    rw [hvalue, hbytes]
    rfl
  | [a, b] =>
    have ha := a.toNat_lt
    have hb := b.toNat_lt
    have hbytes : bytes3 (a.toNat * 256 ^ 2 + b.toNat * 256) = [a, b, 0] := by
      simpa using bytes3_eq a b 0
    have hvalue : (Fin.ofNat 64 ((a.toNat * 256 ^ 2 + b.toNat * 256) / 64 ^ 3)).val * 64 ^ 3 +
        (Fin.ofNat 64 ((a.toNat * 256 ^ 2 + b.toNat * 256) / 64 ^ 2)).val * 64 ^ 2 +
          (Fin.ofNat 64 ((a.toNat * 256 ^ 2 + b.toNat * 256) / 64)).val * 64 = a.toNat * 256 ^ 2 +
            b.toNat * 256 := by
      simp only [Fin.val_ofNat]
      omega
    simp only [encodeDigits, digits4, List.take, decodeDigits]
    rw [hvalue, hbytes]
    rfl
  | a :: b :: c :: bytes =>
    have ha := a.toNat_lt
    have hb := b.toNat_lt
    have hc := c.toNat_lt
    rw [encodeDigits, digits4]
    simp only [List.cons_append, List.nil_append, decodeDigits]
    rw [digits4_value (by omega), bytes3_eq, decodeDigits_encodeDigits bytes]
    rfl

/-- Base64 in URLs and file names. -/
def urlAlphabet : Alphabet where
  encode d :=
    if d < 26 then Char.ofNat ('A'.toNat + d) else if d < 52 then Char.ofNat ('a'.toNat + (d - 26))
    else if d < 62 then Char.ofNat ('0'.toNat + (d - 52)) else if d = 62 then '-' else '_'
  decode c :=
    if c.isUpper then some (Fin.ofNat 64 (c.toNat - 'A'.toNat))
    else if c.isLower then some (Fin.ofNat 64 (c.toNat - 'a'.toNat + 26))
    else if c.isDigit then some (Fin.ofNat 64 (c.toNat - '0'.toNat + 52))
    else if c = '-' then some 62 else if c = '_' then some 63 else none
  decode_encode := by decide
  decode_lineEnd := by
    rintro c (rfl | rfl) <;> rfl

namespace Alphabet

variable (A : Alphabet)

def encodeToString (bytes : List UInt8) : String := String.ofList ((encodeDigits bytes).map A.encode)

/-- Line ends are skipped. -/
def decodeString (s : String) : Option (List UInt8) :=
  ((s.toList.filter fun c => c ≠ '\n' ∧ c ≠ '\r').mapM A.decode).bind decodeDigits

variable {A}

theorem mapM_decode (digits : List (Fin 64)) : (digits.map A.encode).mapM A.decode = some digits := by
  induction digits with
  | nil => rfl
  | cons d digits ih =>
    rw [List.map_cons, List.mapM_cons, A.decode_encode, ih]
    rfl

theorem decodeString_encodeToString (bytes : List UInt8) :
    A.decodeString (A.encodeToString bytes) = some bytes := by
  have hkept : ((encodeDigits bytes).map A.encode).filter (fun c => c ≠ '\n' ∧ c ≠ '\r') =
      (encodeDigits bytes).map A.encode := by
    rw [List.filter_eq_self]
    intro c hc
    obtain ⟨d, -, rfl⟩ := List.mem_map.mp hc
    have hd : ¬(A.encode d = '\n' ∨ A.encode d = '\r') := by
      intro hend
      have hnone := A.decode_lineEnd _ hend
      rw [A.decode_encode] at hnone
      cases hnone
    simpa [not_or] using hd
  rw [decodeString, encodeToString, String.toList_ofList, hkept, mapM_decode]
  exact decodeDigits_encodeDigits bytes

end Alphabet

end Lib
