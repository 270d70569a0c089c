/-
The public key of access tokens: the document the API publishes it in and the
keys the gateway builds from such a document.
-/
import AuthCore.Audit.Metadata
import AuthCore.Codec.Base64
import AuthCore.Codec.Numerals
import Mathlib.Logic.Function.Basic

namespace AuthCore

open Base64

structure PublicNumbers where
  n : Nat
  e : Nat
deriving DecidableEq, Repr

/-- The serialization of a public key and the digest its name is taken from. -/
structure KeyDigest where
  publicBytes : PublicNumbers → List UInt8
  sha256 : List UInt8 → Vector UInt8 32

def hexdigest (bytes : List UInt8) : List Char :=
  bytes.flatMap fun byte => Numeral.text 16 2 byte.toNat

/-- `int.bit_length()` -/
def bitLength (n : Nat) : Nat :=
  if n = 0 then 0 else n.log2 + 1

/-- `int.to_bytes(size, "big")` overflows when the number needs more bytes. -/
def toBytes (value size : Nat) : Option (List UInt8) :=
  if value < 256 ^ size then some (Numeral.bigEndian size value) else none

namespace LocalRS256TokenProvider

def kid (digest : KeyDigest) (numbers : PublicNumbers) : String :=
  String.ofList ((hexdigest (digest.sha256 (digest.publicBytes numbers)).toList).take 16)

def encodeInteger (value : Nat) : Option String := do
  let size := (bitLength value + 7) / 8
  let bytes ← toBytes value size
  return String.ofList ((Alphabet.urlSafe.encode bytes).rdropWhile (· == '='))

def jwks (digest : KeyDigest) (numbers : PublicNumbers) : Option Json := do
  let n ← encodeInteger numbers.n
  let e ← encodeInteger numbers.e
  return .object [("keys", .list [.object [("kty", .string "RSA"), ("use", .string "sig"),
    ("alg", .string "RS256"), ("kid", .string (kid digest numbers)), ("n", .string n),
    ("e", .string e)]])]

end LocalRS256TokenProvider

namespace Gateway

/-- How a refresh fails: without a response, with its status, on its document,
on a text in it or on an exponent. -/
inductive RefreshError where
  | request
  | status (code : Nat)
  | document
  | corruptInput (place : Nat)
  | tokenInvalid
deriving DecidableEq, Repr

structure Jwk where
  kid : String
  kty : String
  n : String
  e : String
deriving DecidableEq, Repr

def Jwk.zero : Jwk :=
  ⟨"", "", "", ""⟩

/-- The case of a member's name does not count, and two letters of other
alphabets stand for a `k` and an `s`. -/
def foldName (name : String) : List Char :=
  name.toList.map fun c => if c = '\u212a' then 'k' else if c = '\u017f' then 's' else c.toLower

/-- `null` leaves a field as it is. -/
def decodeText (field : String) : AuthCore.Json → Except RefreshError String
  | .string value => .ok value
  | .null => .ok field
  | _ => .error .document

/-- One member of a key's object; other names are passed over. -/
def Jwk.decodeMember (key : Jwk) (member : String × AuthCore.Json) : Except RefreshError Jwk :=
  if foldName member.1 = ['k', 'i', 'd'] then do
    return { key with kid := ← decodeText key.kid member.2 }
  else if foldName member.1 = ['k', 't', 'y'] then do
    return { key with kty := ← decodeText key.kty member.2 }
  else if foldName member.1 = ['n'] then do
    return { key with n := ← decodeText key.n member.2 }
  else if foldName member.1 = ['e'] then do
    return { key with e := ← decodeText key.e member.2 }
  else
    return key

def Jwk.decode : AuthCore.Json → Except RefreshError Jwk
  | .object members => members.foldlM Jwk.decodeMember Jwk.zero
  | .null => .ok Jwk.zero
  | _ => .error .document

def decodeKeys : AuthCore.Json → Except RefreshError (List Jwk)
  | .list items => items.mapM Jwk.decode
  | .null => .ok []
  | _ => .error .document

/-- `json.Decode` into a `jwksDocument`. -/
def decodeDocument : AuthCore.Json → Except RefreshError (List Jwk)
  | .object members =>
      members.foldlM (fun keys member =>
        if foldName member.1 = ['k', 'e', 'y', 's'] then decodeKeys member.2 else .ok keys) []
  | .null => .ok []
  | _ => .error .document

/-- The digits of a text without its line breaks; `si` counts what is read. -/
def rawDigits (si : Nat) : List Char → Except RefreshError (List Sextet)
  | [] => .ok []
  | c :: rest =>
      match Alphabet.urlSafe.digit c with
      | some d => (rawDigits (si + 1) rest).map (d :: ·)
      | none =>
          if c = '\n' ∨ c = '\r' then rawDigits (si + 1) rest else .error (.corruptInput si)

/-- `base64.RawURLEncoding.DecodeString` -/
def decodeString (text : String) : Except RefreshError (List UInt8) := do
  match octets (← rawDigits 0 text.toList) with
  | some bytes => return bytes
  | none => throw (.corruptInput (text.length - 1))

/-- `rsa.PublicKey`; the exponent is a machine integer. -/
structure PublicKey where
  n : Nat
  e : Int64
deriving DecidableEq

/-- The keys of a verifier and the second until which it trusts them. -/
structure JWTVerifier where
  keys : String → Option PublicKey
  keysUntil : Int

structure Response where
  statusCode : Nat
  body : AuthCore.Json

/-- The body of the loop over a document's keys. -/
def addKey (keys : String → Option PublicKey) (value : Jwk) :
    Except RefreshError (String → Option PublicKey) :=
  if value.kty ≠ "RSA" ∨ value.kid = "" then
    return keys
  else do
    let modulus ← decodeString value.n
    let exponentBytes ← decodeString value.e
    -- `SetBytes` and `IsInt64`
    let exponent := Numeral.ofBigEndian exponentBytes
    if 2 ^ 63 ≤ exponent then
      throw .tokenInvalid
    return Function.update keys value.kid
      (some ⟨Numeral.ofBigEndian modulus, Int64.ofNat exponent⟩)

/-- `refreshKeys` on what the request returns; an error leaves the verifier as
it is. -/
def JWTVerifier.refreshKeys (verifier : JWTVerifier) (result : Except RefreshError Response)
    (now : Int) : Except RefreshError JWTVerifier := do
  let response ← result
  if response.statusCode ≠ 200 then
    throw (.status response.statusCode)
  let document ← decodeDocument response.body
  let keys ← document.foldlM addKey fun _ => none
  return { verifier with keys := keys, keysUntil := now + 300 }

theorem rawDigits_map (si : Nat) (ds : List Sextet) :
    rawDigits si (ds.map Alphabet.urlSafe.char) = .ok ds := by
  induction ds generalizing si with
  | nil => rfl
  | cons d rest ih =>
      rw [List.map_cons, rawDigits, Alphabet.urlSafe.digit_char, ih]
      rfl

theorem decodeString_sextets (bytes : List UInt8) :
    decodeString (String.ofList ((sextets bytes).map Alphabet.urlSafe.char)) = .ok bytes := by
  unfold decodeString
  rw [String.toList_ofList, rawDigits_map]
  change (match octets (sextets bytes) with
    | some bytes => Except.ok bytes
    | none => _) = _
  rw [octets_sextets]

end Gateway

/-- The bits of a number, in whole bytes, hold it. -/
theorem lt_pow_byteSize (n : Nat) : n < 256 ^ ((bitLength n + 7) / 8) := by
  have hbits : n < 2 ^ bitLength n := by
    unfold bitLength
    by_cases hzero : n = 0
    · rw [if_pos hzero, hzero]
      decide
    · rw [if_neg hzero]
      exact Nat.lt_log2_self
  have hbytes : 2 ^ bitLength n ≤ 2 ^ (8 * ((bitLength n + 7) / 8)) :=
    Nat.pow_le_pow_right (by decide) (by omega)
  calc n < 2 ^ bitLength n := hbits
    _ ≤ 2 ^ (8 * ((bitLength n + 7) / 8)) := hbytes
    _ = 256 ^ ((bitLength n + 7) / 8) := pow_mul 2 8 _

namespace LocalRS256TokenProvider

/-- What is written for a number decodes to bytes of its value. -/
theorem encodeInteger_spec (n : Nat) :
    ∃ text bytes, encodeInteger n = some text ∧ Gateway.decodeString text = .ok bytes ∧
      Numeral.ofBigEndian bytes = n := by
  have hfits := lt_pow_byteSize n
  have hencoded : encodeInteger n = some (String.ofList
      ((sextets (Numeral.bigEndian ((bitLength n + 7) / 8) n)).map Alphabet.urlSafe.char)) := by
    simp only [encodeInteger, toBytes, if_pos hfits, Option.bind_eq_bind, Option.bind_some,
      Option.pure_def, Alphabet.stripped_encode]
  exact ⟨_, _, hencoded, Gateway.decodeString_sextets _, Numeral.ofBigEndian_bigEndian hfits⟩

theorem length_hexdigest (bytes : List UInt8) : (hexdigest bytes).length = bytes.length * 2 := by
  simp [hexdigest, List.length_flatMap]

theorem kid_ne_empty (digest : KeyDigest) (numbers : PublicNumbers) : kid digest numbers ≠ "" := by
  intro heq
  have hlength : (kid digest numbers).toList.length = 16 := by
    rw [kid, String.toList_ofList, List.length_take, length_hexdigest, Vector.length_toList]
    rfl
  rw [heq] at hlength
  cases hlength

end LocalRS256TokenProvider

namespace Gateway

open LocalRS256TokenProvider

theorem foldName_members :
    foldName "keys" = ['k', 'e', 'y', 's'] ∧ foldName "kty" = ['k', 't', 'y'] ∧
      foldName "use" = ['u', 's', 'e'] ∧ foldName "alg" = ['a', 'l', 'g'] ∧
      foldName "kid" = ['k', 'i', 'd'] ∧ foldName "n" = ['n'] ∧ foldName "e" = ['e'] := by
  decide +kernel

/-- The key of a published document; its use and its algorithm are passed over. -/
theorem decodeDocument_key (kid n e : String) :
    decodeDocument (.object [("keys", .list [.object [("kty", .string "RSA"),
      ("use", .string "sig"), ("alg", .string "RS256"), ("kid", .string kid), ("n", .string n),
      ("e", .string e)]])]) = .ok [⟨kid, "RSA", n, e⟩] := by
  obtain ⟨hkeys, hkty, huse, halg, hkid, hn, he⟩ := foldName_members
  simp [decodeDocument, decodeKeys, Jwk.decode, Jwk.decodeMember, decodeText, Jwk.zero, hkeys, hkty,
    huse, halg, hkid, hn, he, bind, Except.bind, pure, Except.pure]

theorem addKey_of_decoded (keys : String → Option PublicKey) {value : Jwk}
    {modulus exponent : List UInt8} (hkty : value.kty = "RSA") (hkid : value.kid ≠ "")
    (hmodulus : decodeString value.n = .ok modulus)
    (hexponent : decodeString value.e = .ok exponent) :
    addKey keys value =
      if 2 ^ 63 ≤ Numeral.ofBigEndian exponent then .error .tokenInvalid
      else .ok (Function.update keys value.kid
        (some ⟨Numeral.ofBigEndian modulus, Int64.ofNat (Numeral.ofBigEndian exponent)⟩)) := by
  unfold addKey
  rw [if_neg (by simp [hkty, hkid]), hmodulus, hexponent]
  by_cases hlarge : 2 ^ 63 ≤ Numeral.ofBigEndian exponent
  · rw [if_pos hlarge]
    exact if_pos hlarge
  · rw [if_neg hlarge]
    exact if_neg hlarge

/-- A refresh from the published document: it puts the key of the same numbers
in place of all keys, unless the exponent is no `int64`. -/
theorem refreshKeys_jwks (verifier : JWTVerifier) (digest : KeyDigest) (numbers : PublicNumbers)
    (now : Int) :
    ∃ document, jwks digest numbers = some document ∧
      verifier.refreshKeys (.ok ⟨200, document⟩) now =
        if 2 ^ 63 ≤ numbers.e then .error .tokenInvalid
        else .ok ⟨Function.update (fun _ => none) (kid digest numbers)
          (some ⟨numbers.n, Int64.ofNat numbers.e⟩), now + 300⟩ := by
  obtain ⟨n, modulus, hn, hmodulus, hnvalue⟩ := encodeInteger_spec numbers.n
  obtain ⟨e, exponent, he, hexponent, hevalue⟩ := encodeInteger_spec numbers.e
  have hadd := @addKey_of_decoded (fun _ => none) ⟨kid digest numbers, "RSA", n, e⟩ _ _ rfl
    (kid_ne_empty digest numbers) hmodulus hexponent
  rw [hnvalue, hevalue] at hadd
  rw [jwks, hn, he]
  refine ⟨_, rfl, ?_⟩
  unfold JWTVerifier.refreshKeys
  simp only [bind, Except.bind, pure, Except.pure]
  rw [if_neg (by decide), decodeDocument_key]
  simp only [List.foldlM_cons, List.foldlM_nil, hadd]
  by_cases hlarge : 2 ^ 63 ≤ numbers.e
  · simp only [if_pos hlarge]
    rfl
  · simp only [if_neg hlarge]
    rfl

/-- Every natural number is read back from the text it is published as, and so
the gateway has the modulus and the exponent of the API's key. -/
theorem jwks_integers :
    (∀ n, ∃ text bytes, encodeInteger n = some text ∧ decodeString text = .ok bytes ∧
      Numeral.ofBigEndian bytes = n) ∧
    ∀ (verifier : JWTVerifier) (digest : KeyDigest) (numbers : PublicNumbers) (now : Int),
      numbers.e < 2 ^ 63 → ∃ document refreshed key, jwks digest numbers = some document ∧
        verifier.refreshKeys (.ok ⟨200, document⟩) now = .ok refreshed ∧
        refreshed.keys (kid digest numbers) = some key ∧
        key.n = numbers.n ∧ key.e.toInt = numbers.e := by
  constructor
  · exact encodeInteger_spec
  · intro verifier digest numbers now hsmall
    obtain ⟨document, hjwks, hrefresh⟩ := refreshKeys_jwks verifier digest numbers now
    rw [if_neg (Nat.not_le.mpr hsmall)] at hrefresh
    have hexponent := Int64.toInt_ofNat_of_lt hsmall
    exact ⟨document, _, ⟨numbers.n, Int64.ofNat numbers.e⟩, hjwks, hrefresh, if_pos rfl, rfl,
      hexponent⟩

def sampleDigest : KeyDigest where
  publicBytes numbers := Numeral.bigEndian 2 numbers.n
  sha256 bytes := (Vector.replicate 32 0).set 0 (bytes.headD 0)

/-- The numbers of a small key are those of the key that is rebuilt. -/
theorem jwks_integers_sample :
    ∃ document refreshed key, jwks sampleDigest ⟨3233, 17⟩ = some document ∧
      JWTVerifier.refreshKeys ⟨fun _ => none, 0⟩ (.ok ⟨200, document⟩) 0 = .ok refreshed ∧
      refreshed.keys (kid sampleDigest ⟨3233, 17⟩) = some key ∧
      key.n = 3233 ∧ key.e.toInt = 17 :=
  jwks_integers.2 ⟨fun _ => none, 0⟩ sampleDigest ⟨3233, 17⟩ 0 (by decide)

example : encodeInteger 65537 = some "AQAB" ∧ encodeInteger 0 = some "" := by
  decide +kernel

end Gateway

end AuthCore
