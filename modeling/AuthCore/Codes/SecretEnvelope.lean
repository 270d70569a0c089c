/-
The cipher of stored secrets: the version and the nonce it writes before what
AES-GCM returns, and what it asks of an envelope before it opens one.
-/
import Mathlib.Data.List.Basic

namespace AuthCore

abbrev Bytes := List UInt8

/-- The exceptions of the cipher: its own, that of a tag, and others of the
library. -/
inductive CipherError where
  | valueError (message : String)
  | invalidTag
  | overflowError (message : String)
deriving DecidableEq, Repr

/-- `AESGCM` of one key, with the nonce, the text and the associated data. -/
structure AESGCM where
  encrypt : Bytes → Bytes → Bytes → Bytes
  decrypt : Bytes → Bytes → Bytes → Except CipherError Bytes

/-- A correct AEAD with a tag of 16 bytes: it opens what it sealed, nothing
else, and a tag is all it complains about. -/
structure AESGCM.Correct (aead : AESGCM) : Prop where
  length_encrypt : ∀ {nonce : Bytes}, nonce.length = 12 → ∀ plaintext data,
    (aead.encrypt nonce plaintext data).length = plaintext.length + 16
  decrypt_encrypt : ∀ {nonce : Bytes}, nonce.length = 12 → ∀ plaintext data,
    aead.decrypt nonce (aead.encrypt nonce plaintext data) data = .ok plaintext
  encrypt_of_decrypt : ∀ {nonce : Bytes}, nonce.length = 12 → ∀ {sealedText data plaintext},
    aead.decrypt nonce sealedText data = .ok plaintext →
      sealedText = aead.encrypt nonce plaintext data
  invalidTag_of_decrypt : ∀ {nonce : Bytes}, nonce.length = 12 → ∀ {sealedText data error},
    aead.decrypt nonce sealedText data = .error error → error = .invalidTag

/-- What `os.urandom(12)` returns. -/
structure Nonce where
  bytes : Bytes
  length_bytes : bytes.length = 12

structure LocalAESGCMSecretCipher where
  cipher : AESGCM

namespace LocalAESGCMSecretCipher

def version : Bytes :=
  [1]

def encrypt (self : LocalAESGCMSecretCipher) (nonce : Nonce) (plaintext associatedData : Bytes) :
    Bytes :=
  version ++ nonce.bytes ++ self.cipher.encrypt nonce.bytes plaintext associatedData

def decrypt (self : LocalAESGCMSecretCipher) (ciphertext associatedData : Bytes) :
    Except CipherError Bytes :=
  if ciphertext.length < 30 ∨ ciphertext.take 1 ≠ version then
    .error (.valueError "Unsupported encrypted secret")
  else
    let nonce := (ciphertext.take 13).drop 1
    match self.cipher.decrypt nonce (ciphertext.drop 13) associatedData with
    | .error .invalidTag => .error (.valueError "Encrypted secret could not be authenticated")
    | result => result

variable {self : LocalAESGCMSecretCipher}

theorem length_encrypt (h : self.cipher.Correct) (nonce : Nonce) (plaintext data : Bytes) :
    (self.encrypt nonce plaintext data).length = 29 + plaintext.length := by
  rw [encrypt, List.length_append, List.length_append, nonce.length_bytes,
    h.length_encrypt nonce.length_bytes, version, List.length_singleton]
  omega

/-- The parts of an envelope are what is sliced out of it. -/
theorem slices_encrypt (nonce : Nonce) (plaintext data : Bytes) :
    let envelope := self.encrypt nonce plaintext data
    envelope.take 1 = version ∧ (envelope.take 13).drop 1 = nonce.bytes ∧
      envelope.drop 13 = self.cipher.encrypt nonce.bytes plaintext data := by
  have hhead : (version ++ nonce.bytes).length = 13 := by
    rw [List.length_append, nonce.length_bytes]
    rfl
  dsimp only
  rw [encrypt, List.take_left' hhead, List.drop_left' hhead]
  exact ⟨rfl, rfl, rfl⟩

/-- An envelope of the version is put together from its slices. -/
theorem append_slices {envelope : Bytes} (hversion : envelope.take 1 = version) :
    version ++ (envelope.take 13).drop 1 ++ envelope.drop 13 = envelope := by
  have hfirst : envelope.take 1 = (envelope.take 13).take 1 := by
    rw [List.take_take]
    rfl
  rw [← hversion, hfirst, List.take_append_drop, List.take_append_drop]

/-- An envelope that is looked into has the version and a whole nonce. -/
theorem framed {envelope : Bytes}
    (hframe : ¬(envelope.length < 30 ∨ envelope.take 1 ≠ version)) :
    30 ≤ envelope.length ∧ envelope.take 1 = version ∧
      ((envelope.take 13).drop 1).length = 12 := by
  rw [not_or, Nat.not_lt, not_not] at hframe
  obtain ⟨hlong, hversion⟩ := hframe
  have hnonce : ((envelope.take 13).drop 1).length = 12 := by
    rw [List.length_drop, List.length_take]
    omega
  exact ⟨hlong, hversion, hnonce⟩

/-- What is opened is the text of an envelope, and the text is not empty. -/
theorem encrypt_of_decrypt (h : self.cipher.Correct) {envelope data plaintext : Bytes}
    (hopened : self.decrypt envelope data = .ok plaintext) :
    plaintext ≠ [] ∧ ∃ nonce, envelope = self.encrypt nonce plaintext data := by
  unfold decrypt at hopened
  by_cases hframe : envelope.length < 30 ∨ envelope.take 1 ≠ version
  · rw [if_pos hframe] at hopened
    cases hopened
  · rw [if_neg hframe] at hopened
    obtain ⟨hlong, hversion, hnonce⟩ := framed hframe
    have hinner : self.cipher.decrypt ((envelope.take 13).drop 1) (envelope.drop 13) data =
        .ok plaintext := by
      dsimp only at hopened
      split at hopened
      · cases hopened
      · exact hopened
    have hsealed := h.encrypt_of_decrypt hnonce hinner
    have henvelope : envelope = self.encrypt ⟨_, hnonce⟩ plaintext data := by
      rw [encrypt, ← hsealed, append_slices hversion]
    constructor
    · rintro rfl
      have hlength := length_encrypt h ⟨_, hnonce⟩ [] data
      rw [← henvelope, List.length_nil] at hlength
      omega
    · exact ⟨_, henvelope⟩

/-- An envelope of the empty text is shorter than what is opened. -/
theorem decrypt_encrypt_nil (h : self.cipher.Correct) (nonce : Nonce) (data : Bytes) :
    self.decrypt (self.encrypt nonce [] data) data =
      .error (.valueError "Unsupported encrypted secret") := by
  have hlength := length_encrypt h nonce [] data
  rw [List.length_nil] at hlength
  unfold decrypt
  exact if_pos (Or.inl (by omega))

theorem decrypt_encrypt (h : self.cipher.Correct) (nonce : Nonce) {plaintext : Bytes}
    (hplaintext : plaintext ≠ []) (data : Bytes) :
    self.decrypt (self.encrypt nonce plaintext data) data = .ok plaintext := by
  have hlength := length_encrypt h nonce plaintext data
  have hpositive := List.length_pos_of_ne_nil hplaintext
  obtain ⟨hversion, hnonce, hsealed⟩ := @slices_encrypt self nonce plaintext data
  have hframe : ¬((self.encrypt nonce plaintext data).length < 30 ∨
      (self.encrypt nonce plaintext data).take 1 ≠ version) := by
    rw [not_or, not_not]
    exact ⟨by omega, hversion⟩
  unfold decrypt
  rw [if_neg hframe]
  dsimp only
  rw [hnonce, hsealed, h.decrypt_encrypt nonce.length_bytes]

/-- Whatever is not opened is refused with a `ValueError`. -/
theorem valueError_of_decrypt (h : self.cipher.Correct) {envelope data : Bytes}
    {error : CipherError} (hrefused : self.decrypt envelope data = .error error) :
    ∃ message, error = .valueError message := by
  unfold decrypt at hrefused
  by_cases hframe : envelope.length < 30 ∨ envelope.take 1 ≠ version
  · rw [if_pos hframe] at hrefused
    cases hrefused
    exact ⟨_, rfl⟩
  · rw [if_neg hframe] at hrefused
    obtain ⟨_, _, hnonce⟩ := framed hframe
    dsimp only at hrefused
    split at hrefused
    · cases hrefused
      exact ⟨_, rfl⟩
    · rename_i hother
      rw [h.invalidTag_of_decrypt hnonce hrefused] at hrefused
      exact absurd hrefused hother

/-- The round trip of a secret holds for every text but the empty one; of other
envelopes none is opened, and no other exception comes out. -/
theorem secret_round_trip (self : LocalAESGCMSecretCipher) (h : self.cipher.Correct) :
    (∀ nonce plaintext data,
      self.decrypt (self.encrypt nonce plaintext data) data = .ok plaintext ↔ plaintext ≠ []) ∧
    ∀ envelope data,
      (∃ nonce plaintext, envelope = self.encrypt nonce plaintext data ∧
        self.decrypt envelope data = .ok plaintext) ∨
      ∃ message, self.decrypt envelope data = .error (.valueError message) := by
  constructor
  · intro nonce plaintext data
    constructor
    · intro hopened
      exact (encrypt_of_decrypt h hopened).1
    · intro hplaintext
      exact decrypt_encrypt h nonce hplaintext data
  · intro envelope data
    cases hresult : self.decrypt envelope data with
    | ok plaintext =>
        obtain ⟨_, nonce, henvelope⟩ := encrypt_of_decrypt h hresult
        exact Or.inl ⟨nonce, plaintext, henvelope, rfl⟩
    | error error =>
        obtain ⟨message, rfl⟩ := valueError_of_decrypt h hresult
        exact Or.inr ⟨message, rfl⟩

/-- Sixteen bytes made of everything that is sealed. -/
def sampleTag (nonce plaintext data : Bytes) : Bytes :=
  let digest := fun text : Bytes => text.foldl (fun sum byte => 31 * sum + byte) 7
  nonce ++ [digest plaintext, digest data, UInt8.ofNat plaintext.length, UInt8.ofNat data.length]

def sampleAESGCM : AESGCM where
  encrypt nonce plaintext data := plaintext ++ sampleTag nonce plaintext data
  decrypt nonce sealedText data :=
    let plaintext := sealedText.take (sealedText.length - 16)
    if sealedText = plaintext ++ sampleTag nonce plaintext data then .ok plaintext
    else .error .invalidTag

theorem sampleAESGCM_correct : sampleAESGCM.Correct := by
  have hlength : ∀ {nonce : Bytes}, nonce.length = 12 → ∀ plaintext data,
      (sampleAESGCM.encrypt nonce plaintext data).length = plaintext.length + 16 := by
    intro nonce hnonce plaintext data
    simp [sampleAESGCM, sampleTag, hnonce]
  constructor
  case length_encrypt => exact hlength
  case decrypt_encrypt =>
    intro nonce hnonce plaintext data
    have htext : (sampleAESGCM.encrypt nonce plaintext data).take
        ((sampleAESGCM.encrypt nonce plaintext data).length - 16) = plaintext := by
      rw [hlength hnonce, Nat.add_sub_cancel]
      exact List.take_left
    change (if _ = _ then _ else _) = _
    rw [htext]
    exact if_pos rfl
  case encrypt_of_decrypt =>
    intro nonce _ sealedText data plaintext hopened
    change (if _ = _ then _ else _) = _ at hopened
    split at hopened
    · rename_i hsealed
      cases hopened
      exact hsealed
    · cases hopened
  case invalidTag_of_decrypt =>
    intro nonce _ sealedText data error hrefused
    change (if _ = _ then _ else _) = _ at hrefused
    split at hrefused
    · cases hrefused
    · cases hrefused
      rfl

def sampleNonce : Nonce :=
  ⟨[1, 2, 3, 4, 5, 6, 7, 8, 9, 10, 11, 12], rfl⟩

/-- A secret of three bytes comes back. -/
theorem secret_round_trip_sample :
    LocalAESGCMSecretCipher.decrypt ⟨sampleAESGCM⟩
      (LocalAESGCMSecretCipher.encrypt ⟨sampleAESGCM⟩ sampleNonce [116, 111, 112] [117]) [117] =
        .ok [116, 111, 112] :=
  ((secret_round_trip ⟨sampleAESGCM⟩ sampleAESGCM_correct).1 sampleNonce _ _).mpr (by decide)

/-- The envelope of the empty text does not. -/
theorem empty_secret_refused :
    ¬∀ self : LocalAESGCMSecretCipher, self.cipher.Correct → ∀ nonce plaintext data,
      self.decrypt (self.encrypt nonce plaintext data) data = .ok plaintext := by
  intro h
  have hopened := h ⟨sampleAESGCM⟩ sampleAESGCM_correct sampleNonce [] [117]
  have hrefused : LocalAESGCMSecretCipher.decrypt ⟨sampleAESGCM⟩
      (LocalAESGCMSecretCipher.encrypt ⟨sampleAESGCM⟩ sampleNonce [] [117]) [117] =
        .error (.valueError "Unsupported encrypted secret") := by
    decide
  rw [hrefused] at hopened
  cases hopened

end LocalAESGCMSecretCipher

end AuthCore
