import YellowPages.Lib.Encoding
import YellowPages.Model

/-!
# Bootstrap tokens

`internal/bootstrap/token.go`: a token is the text of an expiry, a nonce and a MAC of both under the
signing key. Whoever holds the key checks it without any state.
-/

namespace YellowPages.Bootstrap

open Lib

abbrev Bytes := List UInt8

def tokenPayloadLen : Nat := 16

def tokenMACLen : Nat := 32

def defaultTokenTTL : Duration := 30 * second

def minSigningKeyLen : Nat := 16

/-- `t.Unix()`: whole seconds, rounded down. -/
def unix (t : Time) : Int64 := Int64.ofInt (t / second)

inductive MintError where
  | shortKey (length : Nat)
  /-- The source of random bytes failed. -/
  | rand (err : String)
  deriving DecidableEq

def MintError.message : MintError → String
  | shortKey length =>
    "bootstrap: signing key too short (" ++ formatUint length ++ " bytes, need >= " ++
      formatUint minSigningKeyLen ++ ")"
  | rand err => err

inductive TokenError where
  | invalid
  | expired
  deriving DecidableEq

def TokenError.message : TokenError → String
  | invalid => "bootstrap: invalid token"
  | expired => "bootstrap: token expired"

section Tokens

-- HMAC-SHA256, of a key and a message
variable (hmac : Bytes → Bytes → Vector UInt8 tokenMACLen)

def sign (key payload : Bytes) : Bytes := (hmac key payload).toList

/-- The time a token is given. -/
def lifetime (ttl : Duration) : Duration := if ttl ≤ 0 then defaultTokenTTL else ttl

/-- The expiry and the nonce. -/
def payloadOf (expiry : Time) (nonce : Vector UInt8 8) : Bytes :=
  bigEndian 8 (unix expiry).toUInt64.toNat ++ nonce.toList

def mintToken (key : Bytes) (ttl : Duration) (now : Time) (rand : Except String (Vector UInt8 8)) :
    Except MintError String :=
  if key.length < minSigningKeyLen then .error (.shortKey key.length)
  else
    match rand with
    | .error err => .error (.rand err)
    | .ok nonce =>
      let payload := payloadOf (now + lifetime ttl) nonce
      .ok (urlAlphabet.encodeToString (payload ++ sign hmac key payload))

def validateToken (key : Bytes) (token : String) (now : Time) : Except TokenError Unit :=
  if key.length = 0 then .error .invalid
  else
    match urlAlphabet.decodeString (trimSpace token) with
    | none => .error .invalid
    | some data =>
      if data.length ≠ tokenPayloadLen + tokenMACLen then .error .invalid
      else
        let payload := data.take tokenPayloadLen
        let mac := data.drop tokenPayloadLen
        if mac ≠ sign hmac key payload then .error .invalid
        else
          let exp := (UInt64.ofNat (ofBigEndian (payload.take 8))).toInt64
          if exp < unix now then .error .expired else .ok ()

/-! ## What is accepted -/

/-- The text of a payload and a MAC, with blanks around it. -/
def Carries (s : String) (payload mac : Bytes) : Prop :=
  payload.length = tokenPayloadLen ∧ mac.length = tokenMACLen ∧
    urlAlphabet.decodeString (trimSpace s) = some (payload ++ mac)

def Blank (s : String) : Prop := ∀ c ∈ s.toList, isSpace c = true

/-- The expiry in a payload. -/
def expiryOf (payload : Bytes) : Int64 := (UInt64.ofNat (ofBigEndian (payload.take 8))).toInt64

variable {hmac} {key : Bytes} {s : String} {payload mac : Bytes}

/-- A text is checked by its MAC first and by its expiry after that. -/
theorem validateToken_of_carries (h : Carries s payload mac) (now : Time) :
    validateToken hmac key s now =
      if key = [] then .error .invalid
      else if mac ≠ sign hmac key payload then .error .invalid
      else if expiryOf payload < unix now then .error .expired else .ok () := by
  obtain ⟨hpayload, hlength, hdecode⟩ := h
  have htake : (payload ++ mac).take tokenPayloadLen = payload := by rw [← hpayload, List.take_left]
  have hdrop : (payload ++ mac).drop tokenPayloadLen = mac := by rw [← hpayload, List.drop_left]
  have htotal : ¬(payload ++ mac).length ≠ tokenPayloadLen + tokenMACLen := by
    rw [List.length_append, hpayload, hlength]
    exact not_not.mpr rfl
  rw [validateToken, hdecode]
  dsimp only
  rw [if_neg htotal, htake, hdrop]
  exact if_congr List.length_eq_zero_iff rfl rfl

/-- Texts of another length, or of no bytes at all, are invalid. -/
theorem exists_carries {now : Time} (h : validateToken hmac key s now ≠ .error .invalid) :
    ∃ payload mac, Carries s payload mac := by
  rw [validateToken] at h
  split at h
  · exact absurd rfl h
  · split at h
    · exact absurd rfl h
    · rename_i data hdecode
      split at h
      · exact absurd rfl h
      · rename_i htotal
        rw [not_not] at htotal
        refine ⟨data.take tokenPayloadLen, data.drop tokenPayloadLen, ?_, ?_, ?_⟩
        · rw [List.length_take, htotal]
          rfl
        · rw [List.length_drop, htotal]
          rfl
        · rw [hdecode, List.take_append_drop]

theorem validateToken_ok_iff (now : Time) :
    validateToken hmac key s now = .ok () ↔
      key ≠ [] ∧ ∃ payload, Carries s payload
        (sign hmac key payload) ∧ unix now ≤ expiryOf payload := by
  constructor
  · intro hok
    obtain ⟨payload, mac, hcarries⟩ := exists_carries (by rw [hok]; nofun)
    rw [validateToken_of_carries hcarries] at hok
    split at hok
    · cases hok
    · rename_i hkey
      split at hok
      · cases hok
      · rename_i hsigned
        rw [not_not] at hsigned
        split at hok
        · cases hok
        · rename_i hexpiry
          exact ⟨hkey, payload, hsigned ▸ hcarries, Int64.not_lt.mp hexpiry⟩
  · rintro ⟨hkey, payload, hcarries, hexpiry⟩
    rw [validateToken_of_carries hcarries, if_neg hkey, if_neg (not_not.mpr rfl),
      if_neg (Int64.not_lt.mpr hexpiry)]

theorem validateToken_invalid_of_ne (h : Carries s payload mac) (hne : sign hmac key payload ≠ mac)
    (now : Time) :
    validateToken hmac key s now = .error .invalid := by
  rw [validateToken_of_carries h, if_pos hne.symm, ite_self]

/-! ## What is minted -/

theorem length_payloadOf (expiry : Time) (nonce : Vector UInt8 8) :
    (payloadOf expiry nonce).length = tokenPayloadLen := by
  rw [payloadOf, List.length_append, length_bigEndian, Vector.length_toList]
  rfl

-- the expiry is written as an unsigned number, and read back as the signed one that it was
theorem expiryOf_payloadOf (expiry : Time) (nonce : Vector UInt8 8) :
    expiryOf (payloadOf expiry nonce) = unix expiry := by
  have htake : (payloadOf expiry nonce).take 8 = bigEndian 8 (unix expiry).toUInt64.toNat := by
    rw [payloadOf, List.take_left' (length_bigEndian ..)]
  rw [expiryOf, htake, ofBigEndian_bigEndian (unix expiry).toUInt64.toNat_lt, UInt64.ofNat_toNat,
    Int64.toInt64_toUInt64]

theorem isSpace_encodeToString (bytes : Bytes) :
    ∀ c ∈ (urlAlphabet.encodeToString bytes).toList, isSpace c = false := by
  have hdigit : ∀ d, isSpace (urlAlphabet.encode d) = false := by decide
  intro c hc
  rw [Alphabet.encodeToString, String.toList_ofList] at hc
  obtain ⟨d, -, rfl⟩ := List.mem_map.mp hc
  exact hdigit d

theorem carries_encodeToString {left right : String} (hleft : Blank left) (hright : Blank right)
    (hpayload : payload.length = tokenPayloadLen) (hmac : mac.length = tokenMACLen) :
    Carries (left ++ urlAlphabet.encodeToString (payload ++ mac) ++ right) payload mac := by
  have hdecode := urlAlphabet.decodeString_encodeToString (payload ++ mac)
  have hne : urlAlphabet.encodeToString (payload ++ mac) ≠ "" := by
    intro hempty
    rw [hempty] at hdecode
    have hnone : payload ++ mac = [] := (Option.some.inj hdecode).symm
    rw [(List.append_eq_nil_iff.mp hnone).1] at hpayload
    cases hpayload
  refine ⟨hpayload, hmac, ?_⟩
  rw [String.append_assoc, trimSpace_space_append _ _ hleft,
    trimSpace_append_space _ _ (isSpace_encodeToString _) hright hne, hdecode]

end Tokens

/-- A minted token is accepted up to the second of its expiry, whatever blanks are around it. What is
accepted carries the MAC of its payload, so another payload or MAC is invalid, and so is this one under
another key, as long as the MACs that are compared differ. -/
theorem minted_token_valid (hmac : Bytes → Bytes → Vector UInt8 tokenMACLen) (key : Bytes)
    (hkey : minSigningKeyLen ≤ key.length) (ttl : Duration) (now : Time) (nonce : Vector UInt8 8) :
    ∃ token payload, mintToken hmac key ttl now (.ok nonce) = .ok token ∧
      Carries token payload (sign hmac key payload) ∧
      (∀ left right t, Blank left → Blank right →
        validateToken hmac key (left ++ token ++ right) t =
          if unix t ≤ unix (now + lifetime ttl) then .ok () else .error .expired) ∧
      (∀ key' s t, validateToken hmac key' s t = .ok () →
        ∃ payload', Carries s payload' (sign hmac key' payload')) ∧
      ∀ key' s payload' mac' t, Carries s payload' mac' →
        (key', payload', mac') ≠ (key, payload, sign hmac key payload) →
        (sign hmac key' payload' = mac' → key' = key ∧ payload' = payload) →
          validateToken hmac key' s t = .error .invalid := by
  let payload := payloadOf (now + lifetime ttl) nonce
  have hpayload : payload.length = tokenPayloadLen := length_payloadOf _ _
  have hlength : (sign hmac key payload).length = tokenMACLen := Vector.length_toList
  have hne : key ≠ [] := List.ne_nil_of_length_pos (Nat.lt_of_lt_of_le (by decide) hkey)
  refine ⟨urlAlphabet.encodeToString (payload ++ sign hmac key payload), payload, ?_, ?_,
    ?_, ?_, ?_⟩
  · rw [mintToken, if_neg (Nat.not_lt.mpr hkey)]
  · have hblank : Blank "" := by simp [Blank]
    have hcarries := carries_encodeToString hblank hblank hpayload hlength
    rwa [String.append_empty, String.empty_append] at hcarries
  · intro left right t hleft hright
    rw [validateToken_of_carries (carries_encodeToString hleft hright hpayload hlength), if_neg hne,
      if_neg (not_not.mpr rfl), expiryOf_payloadOf]
    split
    · rename_i hexpired
      rw [if_neg (Int64.not_le.mpr hexpired)]
    · rename_i hexpired
      rw [if_pos (Int64.not_lt.mp hexpired)]
  · intro key' s t hok
    obtain ⟨-, payload', hcarries, -⟩ := (validateToken_ok_iff t).mp hok
    exact ⟨payload', hcarries⟩
  · intro key' s payload' mac' t hcarries hother hapart
    refine validateToken_invalid_of_ne hcarries ?_ t
    intro hsame
    obtain ⟨rfl, rfl⟩ := hapart hsame
    exact hother (by rw [hsame])

/-- Not a good MAC, but one to compute with. -/
def sumMAC (key payload : Bytes) : Vector UInt8 tokenMACLen :=
  Vector.replicate tokenMACLen (key.sum + payload.sum)

theorem minted_token_valid_default :
    mintToken sumMAC (List.replicate 16 1) 0 0 (.ok (Vector.replicate 8 0)) =
        .ok "AAAAAAAAAB4AAAAAAAAAAC4uLi4uLi4uLi4uLi4uLi4uLi4uLi4uLi4uLi4uLi4u" ∧
      validateToken sumMAC (List.replicate 16 1)
        (" " ++ "AAAAAAAAAB4AAAAAAAAAAC4uLi4uLi4uLi4uLi4uLi4uLi4uLi4uLi4uLi4uLi4u" ++ "\n")
          (31 * second - 1) = .ok () ∧
      validateToken sumMAC (List.replicate 16 1)
        (" " ++ "AAAAAAAAAB4AAAAAAAAAAC4uLi4uLi4uLi4uLi4uLi4uLi4uLi4uLi4uLi4uLi4u" ++ "\n")
          (31 * second) = .error .expired ∧
      validateToken sumMAC (List.replicate 16 2)
        "AAAAAAAAAB4AAAAAAAAAAC4uLi4uLi4uLi4uLi4uLi4uLi4uLi4uLi4uLi4uLi4u" 0 = .error .invalid := by
  obtain ⟨token, payload, hmint, hcarries, hvalid, -, hother⟩ :=
    minted_token_valid sumMAC (List.replicate 16 1) (by decide) 0 0 (Vector.replicate 8 0)
  have htext : mintToken sumMAC (List.replicate 16 1) 0 0 (.ok (Vector.replicate 8 0)) =
      .ok "AAAAAAAAAB4AAAAAAAAAAC4uLi4uLi4uLi4uLi4uLi4uLi4uLi4uLi4uLi4uLi4u" := by decide +kernel
  obtain rfl := Except.ok.inj (hmint.symm.trans htext)
  have hblank : Blank " " ∧ Blank "\n" := by simp [Blank, isSpace]
  refine ⟨hmint, ?_, ?_, ?_⟩
  · rw [hvalid _ _ _ hblank.1 hblank.2]
    decide +kernel
  · rw [hvalid _ _ _ hblank.1 hblank.2]
    decide +kernel
  · refine hother _ _ payload _ 0 hcarries (by simp) ?_
    intro hsame
    -- the two keys have sums of 32 and 16
    rw [sign, sign, sumMAC, sumMAC, Vector.toList_replicate, Vector.toList_replicate,
      List.replicate_inj] at hsame
    exact absurd (add_right_cancel (hsame.2.resolve_left (by decide))) (by decide)

end YellowPages.Bootstrap
