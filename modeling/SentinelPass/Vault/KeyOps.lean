import SentinelPass.Vault.Slots

/-!
# Opening a vault and changing its keys

The operations over `VaultState`, each as its transaction on the database and
then the update of the sidecar, and the machine of all of them: any number of
processes hold the vault open, and a crash ends one of them.

Recovery needs no open vault, the other changes do. `importPairingBootstrap`
adopts another vault's keys.
-/

namespace SentinelPass

open Lib EpochGuard

variable (E : VaultEnv)

/-! ## Opening -/

def enforceEpochGuard (w : WriteOutcome) (s : VaultState) :
    Except VaultError (Text × EpochCheck) × Option Text :=
  match s.db.metadata.vaultUuid with
  | none =>
    (.error (.invalidInput ("vault identity (vault_uuid) is missing from the database; refusing " ++
      "to open without epoch-rollback protection")), s.file)
  | some vaultUuid =>
    let (answer, file) :=
      check E.sidecarPath w s.file vaultUuid s.db.metadata.keyEpoch (materialDigest E s.db)
    (answer.map fun verdict => (vaultUuid, verdict), file)

/-- The adoption of a pending heal after the password was proved. -/
def adoptPending (w : WriteOutcome) (s : VaultState) (vaultUuid : Text) :
    EpochCheck → Except VaultError Unit × Option Text
  | .healPending fromEpoch toEpoch =>
    if s.db.metadata.wrappedDek.epochBound then
      adoptHeal w s.file vaultUuid fromEpoch toEpoch (materialDigest E s.db)
    else
      (.error (.invalidInput
        ("vault is one epoch ahead on legacy (non-epoch-bound) key material; " ++
        "rotate the master password once to re-establish authenticated epoch binding")), s.file)
  | _ => (.ok (), s.file)

/-- The one state that bootstrap blesses: a single usable password slot whose
bytes mirror the metadata row. -/
def preBootstrap (db : VaultDb) : Bool :=
  match db.keySlots.rows with
  | [(_, slot)] =>
    slot.slotType = .password && slot.revokedAt.isNone &&
      slot.keyEpoch = db.metadata.keyEpoch &&
      slot.kdfBlob E = E.kdfBytes db.metadata.format db.metadata.kdfParams &&
      E.wrapBytes slot.format slot.wrappedDek
        = E.wrapBytes db.metadata.format db.metadata.wrappedDek &&
      E.nonceBytes slot.format slot.dekNonce
        = E.nonceBytes db.metadata.format db.metadata.dekNonce
  | _ => false

/-- `ensure_or_verify_slot_registry` with bootstrap allowed. -/
def ensureOrVerifySlotRegistry (follow : Follow) (s : VaultState) (dek : Key) (vaultUuid : Text) :
    Outcome Unit × VaultState :=
  match s.db.metadata.slotRegistryMac with
  | some _ => (.returned (verifySlotRegistry E dek s.db), s)
  | none =>
    if preBootstrap E s.db = false then
      (.returned (.error (.invalidInput
        ("slot registry is not in the expected pre-bootstrap state (exactly one usable password " ++
        "slot byte-mirroring the vault wrap); refusing to bless it — " ++
        "repair is verified restore only"))), s)
    else
      let db := commitSlotRegistry E dek s.db
      match follow with
      | .crash => (.crashed, { s with db := db })
      | .write w =>
        let (answer, file) :=
          rebase w s.file vaultUuid s.db.metadata.keyEpoch (materialDigest E db)
        (.returned answer, { s with db := db, file := file })

/-- The session an open hands out once the registry is in order. -/
def finishOpen (registry : Outcome Unit × VaultState) (dek : Key) (vaultUuid : Text) :
    Outcome Session × VaultState :=
  match registry with
  | (.crashed, s) => (.crashed, s)
  | (.returned (.error e), s) => (.returned (.error e), s)
  | (.returned (.ok ()), s) =>
    (.returned (.ok ⟨dek, vaultUuid⟩), { s with sessions := s.sessions ++ [⟨dek, vaultUuid⟩] })

/-- What the file system does while a vault is opened. -/
structure OpenWrites where
  (mint heal : WriteOutcome)
  follow : Follow

def OpenWrites.allDone : OpenWrites := ⟨.done, .done, .write .done⟩

/-- `VaultManager::open`. -/
def openVault (s : VaultState) (password : Bytes) (now : Int64) (w : OpenWrites) :
    Outcome Session × VaultState :=
  match remainingLockoutSeconds s.db now with
  | some remaining => (.returned (.error (.lockedOut remaining)), s)
  | none =>
    match enforceEpochGuard E w.mint s with
    | (.error e, file) => (.returned (.error e), { s with file := file })
    | (.ok (vaultUuid, verdict), file) =>
      let s := { s with file := file }
      match unlockVaultWithEpoch E password s.db.metadata.kdfParams s.db.metadata.wrappedDek
          s.db.metadata.keyEpoch with
      | .error e =>
        let (answer, db) := failedAttempt s.db now e
        (.returned (.error answer), { s with db := db })
      | .ok dek =>
        match adoptPending E w.heal s vaultUuid verdict with
        | (.error e, file) => (.returned (.error e), { s with file := file })
        | (.ok (), file) =>
          -- `clear_failed_attempts`
          let s := { s with file := file, db := { s.db with failedAttempts := [] } }
          finishOpen (ensureOrVerifySlotRegistry E w.follow s dek vaultUuid) dek vaultUuid

/-! ## Changes at a constant epoch -/

def followSidecarAtConstantEpoch (w : WriteOutcome) (db : VaultDb) (file : Option Text)
    (vaultUuid : Text) : Except VaultError Unit × Option Text :=
  let epoch := db.metadata.keyEpoch
  match peek file with
  | none => rebase w file vaultUuid epoch (materialDigest E db)
  | some (sidecarUuid, sidecarEpoch) =>
    if sidecarUuid ≠ vaultUuid then
      (.error (.invalidInput "epoch sidecar belongs to a different vault; refusing to follow"),
        file)
    else if sidecarEpoch = epoch then rebase w file vaultUuid epoch (materialDigest E db)
    else if sidecarEpoch < epoch then (.ok (), file)
    else (.error (.epochRollback epoch sidecarEpoch), file)

def followConstantEpoch (s : VaultState) (vaultUuid : Text) : Follow → Outcome Unit × VaultState
  | .crash => (.crashed, s)
  | .write w =>
    let (answer, file) := followSidecarAtConstantEpoch E w s.db s.file vaultUuid
    (.returned answer, { s with file := file })

/-- `recovery_slot_aad`: parts with a 32-bit length, then the epoch. -/
def recoverySlotAad (vaultUuid slotUuid : Text) (keyEpoch : Int64) : Bytes :=
  [utf8 "sp-recovery-slot-v1", textBytes vaultUuid, textBytes slotUuid, utf8 "recovery"].flatMap
    (fun part => leBytes 4 part.length ++ part) ++ i64LeBytes keyEpoch

/-- `wrap_dek_for_recovery_slot`, with the nonce it draws. -/
def wrapDekForRecoverySlot (dek recoveryKey : Key) (nonce : Vector UInt8 12)
    (vaultUuid slotUuid : Text) (keyEpoch : Int64) : Except VaultError WrappedKey :=
  match E.aesSeal recoveryKey nonce (recoverySlotAad vaultUuid slotUuid keyEpoch) dek.toList with
  | none => .error (.database "recovery wrap failed")
  | some ciphertext =>
    match splitTag ciphertext with
    | none => .error (.database "recovery wrap tag")
    | some (wrappedDek, authTag) => .ok ⟨wrappedDek, nonce, authTag, true⟩

def retireRecovery (now : Int64) (slot : KeySlot) : KeySlot :=
  if slot.slotType = .recovery ∧ slot.revokedAt = none then { slot with revokedAt := some now }
  else slot

/-- A recovery slot as `create_recovery_slot` inserts it. -/
def newRecoverySlot (wrapped : WrappedKey) (nonce : Vector UInt8 12) (epoch now : Int64) :
    KeySlot where
  slotType := .recovery
  format := .bincode
  kdfParams := none
  wrappedDek := wrapped
  dekNonce := nonce
  keyEpoch := epoch
  createdAt := now
  revokedAt := none
  formatVersion := 1

/-- The transaction of `create_recovery_slot`. -/
def createRecoverySlotTx (dek : Key) (db : VaultDb) (recoveryKey : Key) (r : Draws) :
    Except VaultError VaultDb := do
  verifySlotRegistry E dek db
  let epoch := db.metadata.keyEpoch
  let keySlots := db.keySlots.mapVal fun _ slot => retireRecovery r.now slot
  let wrapped ← wrapDekForRecoverySlot E dek recoveryKey r.nonce
    (db.metadata.vaultUuid.getD []) r.slotUuid epoch
  let db ← insertSlot { db with keySlots := keySlots } r.slotUuid
    (newRecoverySlot wrapped r.nonce epoch r.now)
  .ok (commitSlotRegistry E dek db)

/-- Slots that would still open the vault without `slotUuid`. -/
def usableAfter (db : VaultDb) (slotUuid : Text) : Nat :=
  db.keySlots.rows.countP fun row => row.2.revokedAt.isNone && row.1 ≠ slotUuid

/-- The transaction of `revoke_key_slot`. -/
def revokeKeySlotTx (dek : Key) (db : VaultDb) (slotUuid : Text) (now : Int64) :
    Except VaultError VaultDb := do
  verifySlotRegistry E dek db
  match db.keySlots.get? slotUuid with
  | none => .error (.notFound ("slot " ++ String.ofList slotUuid))
  | some target =>
    if target.revokedAt.isSome then .ok db
    else if usableAfter db slotUuid = 0 then
      .error (.invalidInput
        ("refusing to revoke the final usable key slot — the vault would have " ++
        "no unlock method; add another slot first (WBS-313)"))
    else
      .ok (commitSlotRegistry E dek { db with
        keySlots := db.keySlots.update slotUuid fun slot => { slot with revokedAt := some now } })

def createRecoverySlot (s : VaultState) (session : Session) (recoveryKey : Key) (r : Draws)
    (follow : Follow) : Outcome Unit × VaultState :=
  match createRecoverySlotTx E session.dek s.db recoveryKey r with
  | .error e => (.returned (.error e), s)
  | .ok db => followConstantEpoch E { s with db := db } session.vaultUuid follow

def revokeKeySlot (s : VaultState) (session : Session) (slotUuid : Text) (now : Int64)
    (follow : Follow) : Outcome Unit × VaultState :=
  match revokeKeySlotTx E session.dek s.db slotUuid now with
  | .error e => (.returned (.error e), s)
  | .ok db => followConstantEpoch E { s with db := db } session.vaultUuid follow

/-! ## Changes of the epoch -/

/-- After the commit of a change to `newEpoch`: `bump`, whose failure is only
logged. -/
def followBump (s : VaultState) (vaultUuid : Text) (newEpoch : Int64) :
    Follow → Outcome Int64 × VaultState
  | .crash => (.crashed, s)
  | .write w =>
    (.returned (.ok newEpoch),
      { s with file := (bump E.sidecarPath w s.file vaultUuid newEpoch (materialDigest E s.db)).2 })

/-- New material in the metadata row, as documents. -/
def setMaterial (db : VaultDb) (kdfParams : KdfParams) (wrapped : WrappedKey) (epoch : Int64) :
    VaultDb :=
  { db with metadata := { db.metadata with
      format := .document, kdfParams := kdfParams, wrappedDek := wrapped,
      dekNonce := wrapped.nonce, keyEpoch := epoch } }

/-- New material in a usable password slot, as bincode. -/
def rewrapPassword (kdfParams : KdfParams) (wrapped : WrappedKey) (epoch : Int64)
    (slot : KeySlot) : KeySlot :=
  if slot.slotType = .password ∧ slot.revokedAt = none then
    { slot with
      format := .bincode, kdfParams := some kdfParams, wrappedDek := wrapped,
      dekNonce := wrapped.nonce, keyEpoch := epoch }
  else slot

/-- `sync_password_slot_after_material_change` for a rotation, without the MAC. -/
def syncPasswordSlots (db : VaultDb) (kdfParams : KdfParams) (wrapped : WrappedKey)
    (epoch : Int64) : VaultDb :=
  { db with
    keySlots := db.keySlots.mapVal fun _ slot => rewrapPassword kdfParams wrapped epoch slot }

/-- The transaction of `change_master_password`. Nothing else writes between the
read of the epoch and this, so the `WHERE key_epoch = ?` always matches. -/
def rotationTx (dek : Key) (db : VaultDb) (kdfParams : KdfParams) (wrapped : WrappedKey)
    (newEpoch : Int64) : Except VaultError VaultDb := do
  verifySlotRegistry E dek db
  let db := setMaterial db kdfParams wrapped newEpoch
  .ok (commitSlotRegistry E dek (syncPasswordSlots db kdfParams wrapped newEpoch))

/-- `i64::checked_add(1)` on the epoch. -/
def nextEpoch (epoch : Int64) : Except VaultError Int64 :=
  if epoch = Int64.maxValue then .error (.invalidInput "vault epoch exhausted") else .ok (epoch + 1)

/-- The two password tests of `change_master_password`. -/
def checkNewPassword (currentPassword newPassword : Bytes) : Except VaultError Unit :=
  if newPassword.length < 12 then
    .error (.invalidInput "New master password must be at least 12 characters")
  else if newPassword = currentPassword then
    .error (.invalidInput "New master password must differ from the current password")
  else .ok ()

def changeMasterPassword (s : VaultState) (session : Session) (currentPassword newPassword : Bytes)
    (r : Draws) (follow : Follow) : Outcome Int64 × VaultState :=
  match checkNewPassword currentPassword newPassword with
  | .error e => (.returned (.error e), s)
  | .ok () =>
    match remainingLockoutSeconds s.db r.now with
    | some remaining => (.returned (.error (.lockedOut remaining)), s)
    | none =>
      match nextEpoch s.db.metadata.keyEpoch with
      | .error e => (.returned (.error e), s)
      | .ok newEpoch =>
        match rotateMasterPassword E session.dek currentPassword s.db.metadata.kdfParams
            s.db.metadata.wrappedDek s.db.metadata.keyEpoch newPassword r.kdfParams r.nonce with
        | .error e =>
          -- only a wrong password counts as an attempt
          if e = .authenticationFailed then
            let (answer, db) := failedAttempt s.db r.now e
            (.returned (.error answer), { s with db := db })
          else (.returned (.error e), s)
        | .ok wrapped =>
          match rotationTx E session.dek s.db r.kdfParams wrapped newEpoch with
          | .error e => (.returned (.error e), s)
          | .ok db => followBump E { s with db := db } session.vaultUuid newEpoch follow

def newestRecoverySlot (db : VaultDb) : Option (Text × KeySlot) :=
  ((db.keySlots.rows.filter fun row =>
      row.2.slotType = .recovery && row.2.revokedAt.isNone).insertionSort
    fun a b => b.2.createdAt ≤ a.2.createdAt).head?

def unwrapDekViaRecoverySlot (recoveryKey : Key) (vaultUuid slotUuid : Text) (slot : KeySlot) :
    Except VaultError Key :=
  if slot.wrappedDek.epochBound = false then
    .error (.invalidInput "recovery slot wrap is not epoch-bound; refusing")
  else if slot.dekNonce ≠ slot.wrappedDek.nonce then
    .error (.invalidInput "recovery slot nonce mismatch")
  else
    match E.aesOpen recoveryKey slot.dekNonce (recoverySlotAad vaultUuid slotUuid slot.keyEpoch)
        (slot.wrappedDek.wrappedDek ++ slot.wrappedDek.authTag.toList) with
    | none => .error .authenticationFailed
    | some dek =>
      match keyOfBytes dek with
      | none => .error (.database "recovered DEK length")
      | some key => .ok key

def VaultError.display : VaultError → String
  | invalidInput msg => "Invalid input: " ++ msg
  | notFound msg => "Not found: " ++ msg
  | io msg => "IO error: " ++ msg
  | database msg => "Database error: " ++ msg
  | crypto msg => "Crypto error: " ++ msg
  | authenticationFailed =>
    "Crypto error: Authentication failed - data may have been tampered with"
  | lockedOut remaining =>
    "Vault is locked out due to too many failed attempts. Try again in " ++ toString remaining ++
      " seconds"
  | epochRollback onDisk highWater =>
    "Vault epoch rollback suspected: on-disk epoch " ++ toString onDisk.toInt ++
      " is older than the recorded high-water mark " ++ toString highWater.toInt ++
      ". The vault database may have been rolled back or restored from an older backup. " ++
      "Refusing to open (ADR-004: epoch high-water enforcement). " ++
      "If this restore is intentional, delete the vault's `.epoch` sidecar file next to the " ++
      "vault database to re-base rollback protection (a supervised restore flow arrives with " ++
      "backup/restore work)."
  | slotRegistryTampered =>
    "slot registry failed integrity verification — a key slot may have been added, edited, or " ++
      "restored without the vault's authority. Refusing to open; repair is verified restore only"

/-- The staged part of `recover_access`: the recovered key, the new epoch and
the new wrap. -/
def stageRecovery (db : VaultDb) (vaultUuid : Text) (recoveryKey : Key) (newPassword : Bytes)
    (r : Draws) : Except VaultError (Key × Int64 × WrappedKey) := do
  match newestRecoverySlot db with
  | none =>
    .error (.notFound ("no usable recovery slot on this vault; recovery was never set up or the " ++
      "slot was revoked"))
  | some (slotUuid, slot) =>
    match unwrapDekViaRecoverySlot E recoveryKey vaultUuid slotUuid slot with
    | .error e =>
      .error (.invalidInput ("recovery key did not open this vault's recovery slot: " ++ e.display))
    | .ok dek =>
      let newEpoch ← nextEpoch db.metadata.keyEpoch
      let wrapped ← stageWrap E newPassword r.kdfParams r.nonce dek newEpoch
        (.invalidInput "staged password wrap failed verification; recovery aborted")
      if db.metadata.slotRegistryMac = none then
        .error (.invalidInput ("the slot registry is not initialized on this vault; unlock once " ++
          "with your current master password (any password open completes the one-time " ++
          "initialization), then re-run recovery"))
      else .ok (dek, newEpoch, wrapped)

/-- A password slot as `recover_access` and pair-join mint it. -/
def newPasswordSlot (kdfParams : KdfParams) (wrapped : WrappedKey) (epoch now : Int64) :
    KeySlot where
  slotType := .password
  format := .bincode
  kdfParams := some kdfParams
  wrappedDek := wrapped
  dekNonce := wrapped.nonce
  keyEpoch := epoch
  createdAt := now
  revokedAt := none
  formatVersion := 1

def retire (now : Int64) (slot : KeySlot) : KeySlot :=
  if slot.revokedAt = none then { slot with revokedAt := some now } else slot

/-- The transaction of `recover_access`: every usable slot is revoked, a new
password slot is minted, the metadata row is rewrapped. -/
def recoveryTx (dek : Key) (db : VaultDb) (wrapped : WrappedKey) (newEpoch : Int64) (r : Draws) :
    Except VaultError VaultDb := do
  verifySlotRegistry E dek db
  let keySlots := db.keySlots.mapVal fun _ slot => retire r.now slot
  let db ← insertSlot { db with keySlots := keySlots } r.slotUuid
    (newPasswordSlot r.kdfParams wrapped newEpoch r.now)
  .ok (commitSlotRegistry E dek (setMaterial db r.kdfParams wrapped newEpoch))

def recoverAccess (s : VaultState) (recoveryKey : Key) (newPassword : Bytes) (r : Draws)
    (mint : WriteOutcome) (follow : Follow) : Outcome Int64 × VaultState :=
  if newPassword.length < 12 then
    (.returned (.error (.invalidInput "New master password must be at least 12 characters")), s)
  else
    match s.db.metadata.vaultUuid with
    | none =>
      (.returned (.error (.invalidInput
        "vault identity (vault_uuid) is missing; refusing recovery")), s)
    | some vaultUuid =>
      match check E.sidecarPath mint s.file vaultUuid s.db.metadata.keyEpoch
          (materialDigest E s.db) with
      | (.error e, file) => (.returned (.error e), { s with file := file })
      | (.ok _, file) =>
        let s := { s with file := file }
        match stageRecovery E s.db vaultUuid recoveryKey newPassword r with
        | .error e => (.returned (.error e), s)
        | .ok (dek, newEpoch, wrapped) =>
          match recoveryTx E dek s.db wrapped newEpoch r with
          | .error e => (.returned (.error e), s)
          | .ok db => followBump E { s with db := db } vaultUuid newEpoch follow

/-! ## Pair-join -/

/-- `VaultBootstrap`, decoded. -/
structure VaultBootstrap where
  kdfParams : KdfParams
  wrappedDek : WrappedKey
  keyEpoch : Int64

/-- `import_pairing_bootstrap`. `empty` says that the vault holds no entry, key,
secret or entity. -/
def importPairingBootstrap (s : VaultState) (i : Nat) (session : Session) (password : Bytes)
    (bootstrap : VaultBootstrap) (empty : Bool) (r : Draws) (follow : Follow) :
    Outcome Unit × VaultState :=
  if bootstrap.keyEpoch < 1 then
    (.returned (.error (.invalidInput ("pairing bootstrap carries an invalid key epoch (" ++
      toString bootstrap.keyEpoch.toInt ++ ") — refusing"))), s)
  else
    match unlockVaultWithEpoch E password bootstrap.kdfParams bootstrap.wrappedDek
        bootstrap.keyEpoch with
    | .error e => (.returned (.error e), s)
    | .ok dek =>
      if empty = false then
        (.returned (.error (.invalidInput "Pair-join target vault must be empty")), s)
      else
        match insertSlot { s.db with keySlots := .empty } r.slotUuid
            (newPasswordSlot bootstrap.kdfParams bootstrap.wrappedDek bootstrap.keyEpoch r.now) with
        | .error e => (.returned (.error e), s)
        | .ok db =>
          let db := commitSlotRegistry E dek
            (setMaterial db bootstrap.kdfParams bootstrap.wrappedDek bootstrap.keyEpoch)
          -- the session adopts the imported key as soon as it is durable
          let s := { s with
            db := db, dataKey := dek
            sessions := s.sessions.set i { session with dek := dek } }
          match follow with
          | .crash => (.crashed, s)
          | .write w =>
            let (answer, file) :=
              rebase w s.file session.vaultUuid bootstrap.keyEpoch (materialDigest E db)
            (.returned answer, { s with file := file })

/-! ## The machine -/

inductive VaultAction
  | openVault (password : Bytes) (now : Int64) (w : OpenWrites)
  | createRecoverySlot (i : Nat) (recoveryKey : Key) (r : Draws) (follow : Follow)
  | revokeKeySlot (i : Nat) (slotUuid : Text) (now : Int64) (follow : Follow)
  | changeMasterPassword (i : Nat) (currentPassword newPassword : Bytes) (r : Draws)
      (follow : Follow)
  | recoverAccess (recoveryKey : Key) (newPassword : Bytes) (r : Draws) (mint : WriteOutcome)
      (follow : Follow)
  | importPairingBootstrap (i : Nat) (password : Bytes) (bootstrap : VaultBootstrap) (empty : Bool)
      (r : Draws) (follow : Follow)
  | close (i : Nat)

/-- The state after an operation of session `i`, which a crash ends. -/
def afterSession {α : Type} (i : Nat) : Outcome α × VaultState → VaultState
  | (.crashed, s) => { s with sessions := s.sessions.eraseIdx i }
  | (.returned _, s) => s

def vaultStep (s : VaultState) : VaultAction → Option VaultState
  | .openVault password now w => some (openVault E s password now w).2
  | .createRecoverySlot i recoveryKey r follow =>
    s.sessions[i]?.map fun session =>
      afterSession i (createRecoverySlot E s session recoveryKey r follow)
  | .revokeKeySlot i slotUuid now follow =>
    s.sessions[i]?.map fun session =>
      afterSession i (revokeKeySlot E s session slotUuid now follow)
  | .changeMasterPassword i currentPassword newPassword r follow =>
    s.sessions[i]?.map fun session =>
      afterSession i (changeMasterPassword E s session currentPassword newPassword r follow)
  | .recoverAccess recoveryKey newPassword r mint follow =>
    some (recoverAccess E s recoveryKey newPassword r mint follow).2
  | .importPairingBootstrap i password bootstrap empty r follow =>
    s.sessions[i]?.map fun session =>
      afterSession i (importPairingBootstrap E s i session password bootstrap empty r follow)
  | .close i => some { s with sessions := s.sessions.eraseIdx i }

end SentinelPass
