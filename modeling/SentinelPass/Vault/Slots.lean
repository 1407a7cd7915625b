import Mathlib.Data.Char
import Mathlib.Data.List.Lex
import Mathlib.Data.List.Sort
import SentinelPass.Lib.Table
import SentinelPass.Vault.EpochGuard

/-!
# Key slots

`vault/mod.rs`, `vault/slot_ops.rs` and the part of `crypto/keyring.rs` they use:
opening a vault, the key-slot registry and its MAC, rotation of the master
password, recovery slots, revocation and recovery.

A row of `db_metadata` or `key_slots` holds its key material decoded, with the
format it was written in; `VaultEnv` gives the stored bytes, which only the MAC,
the sidecar digest and the bootstrap comparison look at. Argon2id, AES-256-GCM,
HKDF and the two serializers are fields of `VaultEnv`. Random values (salts,
nonces, slot uuids) and the clock are arguments.

Each operation that changes keys commits one transaction and updates the sidecar
afterwards; `Follow` says whether the process dies in between.
-/

namespace SentinelPass

open Lib EpochGuard

/-! ## Data -/

/-- A 256-bit key, and the bytes of a MAC. -/
abbrev Key := Vector UInt8 32

structure KdfParams where
  salt : Vector UInt8 16
  (memCost timeCost parallelism outputLength : UInt32)
deriving DecidableEq

structure WrappedKey where
  wrappedDek : Bytes
  nonce : Vector UInt8 12
  authTag : Vector UInt8 16
  epochBound : Bool
deriving DecidableEq

/-- How key material is written: bincode with three or four fields, or a
document. -/
inductive Format
  | legacyBincode
  | bincode
  | document
deriving DecidableEq

inductive SlotType
  | password
  | recovery
  | platform
  | trustedDevice
deriving DecidableEq

def SlotType.asStr : SlotType → String
  | password => "password"
  | recovery => "recovery"
  | platform => "platform"
  | trustedDevice => "trusted_device"

/-- A row of `key_slots`. `kdfParams` is `none` for the marker of a machine key. -/
structure KeySlot where
  slotType : SlotType
  format : Format
  kdfParams : Option KdfParams
  wrappedDek : WrappedKey
  dekNonce : Vector UInt8 12
  (keyEpoch createdAt : Int64)
  revokedAt : Option Int64
  formatVersion : Int64
deriving DecidableEq

/-- The row of `db_metadata`. -/
structure DbMetadata where
  format : Format
  kdfParams : KdfParams
  wrappedDek : WrappedKey
  dekNonce : Vector UInt8 12
  keyEpoch : Int64
  vaultUuid : Option Text
  slotRegistryMac : Option Key

/-- What key changes read and write. -/
structure VaultDb where
  metadata : DbMetadata
  keySlots : Table Text KeySlot
  failedAttempts : List Int64

/-- The external functions and the stored encodings. -/
structure VaultEnv where
  crypto : Crypto
  deriveMasterKey : Bytes → KdfParams → Except VaultError Key
  (aesSeal aesOpen : Key → Vector UInt8 12 → Bytes → Bytes → Option Bytes)
  hkdf : Key → Bytes → Key
  kdfBytes : Format → KdfParams → Blob
  wrapBytes : Format → WrappedKey → Blob
  nonceBytes : Format → Vector UInt8 12 → Blob
  sidecarPath : String

variable (E : VaultEnv)

/-! ## The key hierarchy -/

/-- `i64::to_le_bytes`. -/
def i64LeBytes (v : Int64) : Bytes := leBytes 8 v.toUInt64.toNat

def splitTag (ciphertext : Bytes) : Option (Bytes × Vector UInt8 16) :=
  if h : 16 ≤ ciphertext.length then
    let start := ciphertext.length - 16
    some (ciphertext.take start, ⟨(ciphertext.drop start).toArray, by simp [start]; omega⟩)
  else none

def keyOfBytes (b : Bytes) : Option Key :=
  if h : b.length = 32 then some ⟨b.toArray, by simpa using h⟩ else none

/-- `wrap_dek_under_key`, with the nonce it draws. -/
def wrapDekUnderKey (masterKey : Key) (nonce : Vector UInt8 12) (dek : Key) (aad : Bytes)
    (epochBound : Bool) : Except VaultError WrappedKey :=
  match E.aesSeal masterKey nonce aad dek.toList with
  | none => .error (.crypto "Failed to wrap DEK")
  | some ciphertext =>
    match splitTag ciphertext with
    | none => .error (.crypto "Wrapped DEK too short")
    | some (wrappedDek, authTag) => .ok ⟨wrappedDek, nonce, authTag, epochBound⟩

def unwrapDekUnderKey (masterKey : Key) (wrapped : WrappedKey) (aad : Bytes) :
    Except VaultError Key :=
  match E.aesOpen masterKey wrapped.nonce aad (wrapped.wrappedDek ++ wrapped.authTag.toList) with
  | none => .error .authenticationFailed
  | some dek =>
    match keyOfBytes dek with
    | none => .error (.crypto ("Invalid DEK length: " ++ toString dek.length))
    | some key => .ok key

def epochAad (epochBound : Bool) (epoch : Int64) : Bytes :=
  if epochBound then i64LeBytes epoch else []

def unlockVaultWithEpoch (password : Bytes) (kdfParams : KdfParams) (wrapped : WrappedKey)
    (keyEpoch : Int64) : Except VaultError Key := do
  let masterKey ← E.deriveMasterKey password kdfParams
  unwrapDekUnderKey E masterKey wrapped (epochAad wrapped.epochBound keyEpoch)

/-- A new wrap of `dek` under a new password, opened once before it is handed
out: the second half of `rotate_master_password` and of `recover_access`. -/
def stageWrap (newPassword : Bytes) (newParams : KdfParams) (nonce : Vector UInt8 12) (dek : Key)
    (newEpoch : Int64) (mismatch : VaultError) : Except VaultError WrappedKey := do
  let newMaster ← E.deriveMasterKey newPassword newParams
  let wrapped ← wrapDekUnderKey E newMaster nonce dek (i64LeBytes newEpoch) true
  let verified ← unwrapDekUnderKey E newMaster wrapped (i64LeBytes newEpoch)
  if verified ≠ dek then .error mismatch else .ok wrapped

/-- `rotate_master_password`: prove the current password, then stage the new
wrap. The new master key itself is not kept here. -/
def rotateMasterPassword (dek : Key) (currentPassword : Bytes) (kdfParams : KdfParams)
    (currentWrapped : WrappedKey) (currentEpoch : Int64) (newPassword : Bytes)
    (newParams : KdfParams) (nonce : Vector UInt8 12) : Except VaultError WrappedKey :=
  if newPassword = currentPassword then
    .error (.crypto "New master password must differ from the current password")
  else do
    let proved ← unlockVaultWithEpoch E currentPassword kdfParams currentWrapped currentEpoch
    if proved ≠ dek then .error .authenticationFailed
    else
      stageWrap E newPassword newParams nonce dek (currentEpoch + 1)
        (.crypto "staged rotation wrap verification failed: DEK mismatch")

/-! ## The registry -/

/-- The bytes `kdf_params` of a machine key: `raw-v1`. -/
def rawMarker : Blob := ⟨[0x72, 0x61, 0x77, 0x2d, 0x76, 0x31], by decide⟩

def KeySlot.kdfBlob (slot : KeySlot) : Blob :=
  match slot.kdfParams with
  | some params => E.kdfBytes slot.format params
  | none => rawMarker

def feedLenPrefixed (b : Bytes) : Bytes := leBytes 8 b.length ++ b

def slotBytes (row : Text × KeySlot) : Bytes :=
  feedLenPrefixed (textBytes row.1) ++ feedLenPrefixed (utf8 row.2.slotType.asStr) ++
    feedLenPrefixed (row.2.kdfBlob E).bytes ++
    feedLenPrefixed (E.wrapBytes row.2.format row.2.wrappedDek).bytes ++
    feedLenPrefixed (E.nonceBytes row.2.format row.2.dekNonce).bytes ++
    feedLenPrefixed (i64LeBytes row.2.keyEpoch) ++ feedLenPrefixed (i64LeBytes row.2.createdAt) ++
    feedLenPrefixed ((row.2.revokedAt.map i64LeBytes).getD []) ++
    feedLenPrefixed (i64LeBytes row.2.formatVersion)

def computeRegistryMac (macKey : Key) (slots : List (Text × KeySlot)) (vaultEpoch : Int64) : Key :=
  let ordered := slots.insertionSort fun a b => a.1 ≤ b.1
  E.crypto.hmacSha256 macKey.toList
    (feedLenPrefixed (leBytes 8 ordered.length) ++ feedLenPrefixed (i64LeBytes vaultEpoch) ++
      ordered.flatMap (slotBytes E))

def slotRegistryMacInfo : Bytes := utf8 "sentinelpass-slot-registry-mac-v1"

def registryMac (dek : Key) (db : VaultDb) : Key :=
  computeRegistryMac E (E.hkdf dek slotRegistryMacInfo) db.keySlots.rows db.metadata.keyEpoch

def verifySlotRegistry (dek : Key) (db : VaultDb) : Except VaultError Unit :=
  match db.metadata.slotRegistryMac with
  | none =>
    .error (.invalidInput "slot registry MAC is missing from the vault; refusing to open")
  | some stored => if registryMac E dek db ≠ stored then .error .slotRegistryTampered else .ok ()

def commitSlotRegistry (dek : Key) (db : VaultDb) : VaultDb :=
  { db with metadata := { db.metadata with slotRegistryMac := some (registryMac E dek db) } }

/-- A row of `key_slots` is inserted, or its uuid is taken. -/
def insertSlot (db : VaultDb) (slotUuid : Text) (slot : KeySlot) : Except VaultError VaultDb :=
  match db.keySlots.insert? slotUuid slot with
  | none => .error (.database "UNIQUE constraint failed: key_slots.slot_uuid")
  | some keySlots => .ok { db with keySlots := keySlots }

theorem digest_length_lt (mac : Vector UInt8 32) : mac.toList.length < 2 ^ 63 := by
  rw [Vector.length_toList]
  decide

def keyMaterial (db : VaultDb) : KeyMaterial where
  kdfParams := E.kdfBytes db.metadata.format db.metadata.kdfParams
  wrappedDek := E.wrapBytes db.metadata.format db.metadata.wrappedDek
  dekNonce := E.nonceBytes db.metadata.format db.metadata.dekNonce
  registryMac :=
    match db.metadata.slotRegistryMac with
    | some mac => ⟨mac.toList, digest_length_lt mac⟩
    | none => ⟨[], Nat.two_pow_pos 63⟩
  keyEpoch := db.metadata.keyEpoch

/-- `material_digest`, and the digest of a snapshot. -/
def materialDigest (db : VaultDb) : Vector UInt8 32 := digestOf E.crypto (keyMaterial E db)

/-! ## Lockout -/

/-- `lockout_duration_seconds`, with `DEFAULT_MAX_ATTEMPTS = 5`. -/
def lockoutDurationSeconds (totalFailedAttempts : Nat) : Option Int :=
  if totalFailedAttempts < 5 then none
  else some (60 * 2 ^ min (totalFailedAttempts - 5) 10)

/-- `get_remaining_lockout_seconds`. -/
def remainingLockoutSeconds (db : VaultDb) (now : Int64) : Option Int := do
  let duration ← lockoutDurationSeconds db.failedAttempts.length
  let last ← (db.failedAttempts.map Int64.toInt).max?
  let remaining := duration - (now.toInt - last)
  if 0 < remaining then some remaining else none

/-- `record_failed_attempt`, and the error of the call that failed. -/
def failedAttempt (db : VaultDb) (now : Int64) (e : VaultError) : VaultError × VaultDb :=
  let db' := { db with failedAttempts := db.failedAttempts ++ [now] }
  match remainingLockoutSeconds db' now with
  | some remaining => (.lockedOut remaining, db')
  | none => (e, db')

/-! ## State and answers -/

/-- An unlocked `VaultManager`. -/
structure Session where
  dek : Key
  vaultUuid : Text
deriving DecidableEq

/-- A vault file, its sidecar and the processes that hold it open. `dataKey` is
there for the statements: the key the vault's contents are sealed with. -/
structure VaultState where
  db : VaultDb
  file : Option Text
  sessions : List Session
  dataKey : Key

/-- What happens after the commit: the process dies, or the sidecar is written. -/
inductive Follow
  | crash
  | write (w : WriteOutcome)
deriving DecidableEq

/-- What the caller sees. -/
inductive Outcome (α : Type)
  | returned (r : Except VaultError α)
  | crashed

def Outcome.isOk {α : Type} : Outcome α → Bool
  | .returned (.ok _) => true
  | _ => false

theorem Outcome.isOk_iff {α : Type} {out : Outcome α} :
    out.isOk = true ↔ ∃ a, out = .returned (.ok a) := by
  cases out with
  | crashed => simp [isOk]
  | returned r => cases r <;> simp [isOk]

/-- The random values and the clock an operation reads. -/
structure Draws where
  now : Int64
  slotUuid : Text
  kdfParams : KdfParams
  nonce : Vector UInt8 12

end SentinelPass
