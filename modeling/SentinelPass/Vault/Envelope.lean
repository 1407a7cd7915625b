import SentinelPass.Lib.Base64
import SentinelPass.Lib.Utf8
import SentinelPass.Vault.KeyChanges

/-!
# Field envelopes

`crypto/aad.rs` and `crypto/envelope.rs`: how one field of a vault object is sealed under
the data key and opened again. A field is a document that names the vault, the object and
the column it belongs to and authenticates all three.

Stored columns have any type `β`. `Documents β` gives what JSON makes of them, next to
AES-256-GCM in `VaultEnv`.
-/

namespace SentinelPass

open Lib EpochGuard Base64

/-! ## Contexts and documents -/

inductive EnvelopePurpose
  | summary
  | secret
  | entryTitle
  | entryUsername
  | entryPassword
  | entryUrl
  | entryNotes
  | totpIssuer
  | totpAccount
deriving DecidableEq

inductive ObjectType
  | password
  | apiKey
  | passkeyReference
  | sshKey
  | totpSecret
  | registryEntity
  | keySlot
  | domainMapping
  | personalCustody
deriving DecidableEq

/-- `AadContext`: what the tag of an envelope binds. -/
structure AadContext where
  aadVersion : UInt32
  (vault object : Text)
  purpose : EnvelopePurpose
  objectType : ObjectType
  (schemaVersion cryptoVersion : Int32)
  epoch : Int64
  tombstone : Option Bool
deriving DecidableEq

/-- `Envelope`. The last three fields are base64. -/
structure Envelope where
  magic : String
  (envelopeVersion cryptoVersion : Int32)
  alg : String
  context : AadContext
  (nonce ct tag : String)

/-- What JSON makes of stored columns. -/
structure Documents (β : Type) where
  /-- `starts_with(ENVELOPE_MAGIC)`. -/
  hasMagic : β → Bool
  size : β → Nat
  /-- `json_depth_exceeds(document, MAX_ENVELOPE_DEPTH)`. -/
  tooDeep : β → Bool
  toVec : Envelope → β
  fromSlice : β → Option Envelope
  aadBytes : AadContext → Bytes

/-! ## Sealing and opening -/

section Envelopes

variable (E : VaultEnv) {β : Type} (D : Documents β)

def maxEnvelopeBytes : Nat := 4 * 1024 * 1024

def maxCiphertextBytes : Nat := 3 * 1024 * 1024

def maxAadBytes : Nat := 4096

def envelopeVersion : Int32 := 2

def supportedCryptoVersion : Int32 := 1

/-- `CryptoError::UnsupportedCryptoVersion`. -/
def unsupportedVersion (found supported : Int32) : VaultError :=
  .crypto ("Unsupported format version (found " ++ toString found ++
    ", this build supports exactly " ++ toString supported ++
    ") — the data was written by a different version of SentinelPass. Fail-closed per ADR-005: " ++
    "no automatic conversion exists in either direction; repair is verified restore only")

/-- `seal_envelope`, with the nonce it draws. -/
def sealEnvelope (dek : Key) (nonce : Vector UInt8 12) (context : AadContext) (plaintext : Bytes)
    (expectedMaxPlaintext : Nat) : Except VaultError β :=
  if context.cryptoVersion ≠ supportedCryptoVersion then
    .error (unsupportedVersion context.cryptoVersion supportedCryptoVersion)
  else if expectedMaxPlaintext < plaintext.length then
    .error (.crypto ("plaintext (" ++ toString plaintext.length ++
      " bytes) exceeds this field's declared maximum (" ++ toString expectedMaxPlaintext ++ ")"))
  else if maxCiphertextBytes < plaintext.length then
    .error (.crypto "plaintext exceeds the envelope ciphertext cap (3145728 bytes)")
  else
    match E.aesSeal dek nonce (D.aadBytes context) plaintext with
    | none => .error (.crypto "envelope seal failed")
    | some ciphertext =>
      match splitTag ciphertext with
      | none => .error (.crypto "envelope seal failed")
      | some (ct, tag) =>
        .ok (D.toVec ⟨"SPENV", envelopeVersion, context.cryptoVersion, "A256GCM", context,
          encode nonce.toList, encode ct, encode tag.toList⟩)

/-- The length of the base64 text of `n` bytes. -/
def b64Length (n : Nat) : Nat := (n + 2) / 3 * 4

def decodeExactB64 (s : String) (n : Nat) (field : String) : Except VaultError (Vector UInt8 n) :=
  if s.length ≠ b64Length n then
    .error (.crypto ("envelope " ++ field ++ " must be exactly " ++ toString n ++ " bytes (" ++
      toString (b64Length n) ++ " base64 chars), got " ++ toString s.length ++ " chars"))
  else
    match decodeConcat s with
    | none => .error (.crypto ("envelope " ++ field ++ " is not valid base64"))
    | some bytes =>
      if h : bytes.length = n then .ok ⟨bytes.toArray, by simpa using h⟩
      else
        .error (.crypto ("envelope " ++ field ++ " decoded to " ++ toString bytes.length ++
          " bytes, expected " ++ toString n))

/-- The ciphertext of a document, bounded before and after it is decoded. -/
def decodeCiphertext (ct : String) : Except VaultError Bytes :=
  if b64Length maxCiphertextBytes < ct.length then
    .error (.crypto "envelope ciphertext exceeds the cap (3145728 bytes)")
  else
    match decodeConcat ct with
    | none => .error (.crypto "envelope ciphertext is not valid base64")
    | some bytes =>
      if maxCiphertextBytes < bytes.length then
        .error (.crypto "envelope ciphertext exceeds the cap (3145728 bytes)")
      else .ok bytes

def checkHead (envelope : Envelope) : Except VaultError Unit :=
  if envelope.envelopeVersion ≠ envelopeVersion then
    .error (unsupportedVersion envelope.envelopeVersion envelopeVersion)
  else if envelope.alg ≠ "A256GCM" then
    .error (.crypto ("unsupported envelope algorithm " ++ envelope.alg.quote ++
      " (fail-closed; only \"A256GCM\" is defined)"))
  else if envelope.magic ≠ "SPENV" then .error (.crypto "envelope magic field mismatch")
  else if envelope.context.cryptoVersion ≠ supportedCryptoVersion then
    .error (unsupportedVersion envelope.context.cryptoVersion supportedCryptoVersion)
  else if envelope.cryptoVersion ≠ envelope.context.cryptoVersion then
    .error (.crypto
      "envelope crypto_version disagrees with the authenticated context — refusing")
  else .ok ()

/-- `EpochExpectation`: the epoch is the caller's, or the authenticated one of the
document. -/
inductive EpochExpectation
  | strict
  | fromDocument
deriving DecidableEq

def EpochExpectation.expected (expectation : EpochExpectation) (expected document : AadContext) :
    AadContext :=
  match expectation with
  | strict => expected
  | fromDocument => { expected with epoch := document.epoch }

def openEnvelopeImpl (dek : Key) (expected : AadContext) (document : β)
    (expectation : EpochExpectation) : Except VaultError Bytes :=
  if D.hasMagic document = false then .error (.crypto "not an SPENV v2 envelope document")
  else if maxEnvelopeBytes < D.size document then
    .error (.crypto "envelope document exceeds the size cap (4194304 bytes)")
  else if D.tooDeep document then
    .error (.crypto "envelope document exceeds the maximum nesting depth (8)")
  else
    match D.fromSlice document with
    | none => .error (.crypto "malformed envelope")
    | some envelope => do
      checkHead envelope
      let nonce ← decodeExactB64 envelope.nonce 12 "nonce"
      let tag ← decodeExactB64 envelope.tag 16 "tag"
      let ct ← decodeCiphertext envelope.ct
      let expected := expectation.expected expected envelope.context
      if maxAadBytes < (D.aadBytes expected).length then
        .error (.crypto "expected context exceeds the AAD size contract")
      else if envelope.context ≠ expected then
        .error (.crypto ("envelope identity does not match the record it was opened against — " ++
          "the blob may have been moved or swapped"))
      else
        match E.aesOpen dek nonce (D.aadBytes expected) (ct ++ tag.toList) with
        | none => .error .authenticationFailed
        | some plaintext => .ok plaintext

def openEnvelope (dek : Key) (expected : AadContext) (document : β) : Except VaultError Bytes :=
  openEnvelopeImpl E D dek expected document .strict

end Envelopes

theorem sealEnvelope_ok {E β} {D : Documents β} {key nonce context plaintext max blob}
    (h : sealEnvelope E D key nonce context plaintext max = .ok blob) :
    context.cryptoVersion = supportedCryptoVersion ∧ plaintext.length ≤ maxCiphertextBytes ∧
      ∃ (ct : Bytes) (tag : Vector UInt8 16),
        E.aesSeal key nonce (D.aadBytes context) plaintext = some (ct ++ tag.toList) ∧
        blob = D.toVec ⟨"SPENV", envelopeVersion, context.cryptoVersion, "A256GCM", context,
          encode nonce.toList, encode ct, encode tag.toList⟩ := by
  unfold sealEnvelope at h
  simp only [ite_error_eq_ok] at h
  obtain ⟨hcrypto, -, hmax, h⟩ := h
  cases hcipher : E.aesSeal key nonce (D.aadBytes context) plaintext with
  | none => rw [hcipher] at h; cases h
  | some ciphertext =>
    rw [hcipher] at h
    dsimp only at h
    cases hsplit : splitTag ciphertext with
    | none => rw [hsplit] at h; cases h
    | some parts =>
      obtain ⟨ct, tag⟩ := parts
      rw [hsplit] at h
      cases h
      exact ⟨not_not.mp hcrypto, Nat.le_of_not_lt hmax, ct, tag,
        by rw [splitTag_eq_some hsplit], rfl⟩

end SentinelPass
