import SentinelPass.Vault.KeyOps

/-!
# What opening and key changes do

One inversion lemma for each transaction and each operation of `Vault.KeyOps`.
Every write to the sidecar is the record of the database as it stands
(`anchor`), so an operation is described by its database, by whether the file is
the old one or an anchor, and by the session it adds.
-/

namespace SentinelPass

open Lib EpochGuard

variable {E : VaultEnv}

def anchor (E : VaultEnv) (db : VaultDb) (vaultUuid : Text) : Option Text :=
  some (render vaultUuid db.metadata.keyEpoch (materialDigest E db))

/-! ## Transactions -/

section Transactions

variable {dek : Key} {db db' : VaultDb}

theorem verifySlotRegistry_ok : verifySlotRegistry E dek db = .ok () ↔
      db.metadata.slotRegistryMac = some (registryMac E dek db) := by
  unfold verifySlotRegistry
  cases db.metadata.slotRegistryMac with
  | none => simp
  | some stored => simp [eq_comm]

variable {epoch newEpoch : Int64} {newPassword : Bytes} {nonce : Vector UInt8 12} {r : Draws}
  {recoveryKey : Key} {slotUuid : Text} {wrapped : WrappedKey} {kdfParams newParams : KdfParams}
  {vaultUuid : Text}

theorem insertSlot_ok {slot} (h : insertSlot db slotUuid slot = .ok db') :
    ∃ keySlots, db' = { db with keySlots := keySlots } ∧ db.keySlots.get? slotUuid = none ∧
      ∀ u, keySlots.get? u = if u = slotUuid then some slot else db.keySlots.get? u := by
  unfold insertSlot at h
  cases hins : db.keySlots.insert? slotUuid slot with
  | none => rw [hins] at h; cases h
  | some keySlots =>
    rw [hins] at h
    cases h
    obtain ⟨hnone, -, hget⟩ := Table.insert?_eq_some hins
    exact ⟨keySlots, rfl, hnone, hget⟩

theorem createRecoverySlotTx_ok (h : createRecoverySlotTx E dek db recoveryKey r = .ok db') :
    ∃ wrapped keySlots, db.metadata.slotRegistryMac = some (registryMac E dek db) ∧
      wrapDekForRecoverySlot E dek recoveryKey r.nonce (db.metadata.vaultUuid.getD []) r.slotUuid
        db.metadata.keyEpoch = .ok wrapped ∧
      db' = commitSlotRegistry E dek { db with keySlots := keySlots } ∧
      db.keySlots.get? r.slotUuid = none ∧
      ∀ u, keySlots.get? u =
        if u = r.slotUuid then some (newRecoverySlot wrapped r.nonce db.metadata.keyEpoch r.now)
        else (db.keySlots.get? u).map (retireRecovery r.now) := by
  obtain ⟨_, hmac, h⟩ := bind_ok h
  obtain ⟨wrapped, hwrap, h⟩ := bind_ok h
  obtain ⟨db1, hins, h⟩ := bind_ok h
  obtain ⟨keySlots, rfl, hnone, hget⟩ := insertSlot_ok hins
  cases h
  refine ⟨wrapped, keySlots, verifySlotRegistry_ok.mp hmac, hwrap, rfl, ?_, ?_⟩
  · simpa using hnone
  · intro u
    rw [hget u]
    simp

theorem revokeKeySlotTx_ok {now : Int64} (h : revokeKeySlotTx E dek db slotUuid now = .ok db') :
    ∃ target, db.metadata.slotRegistryMac = some (registryMac E dek db) ∧
      db.keySlots.get? slotUuid = some target ∧
      ((target.revokedAt ≠ none ∧ db' = db) ∨
        (target.revokedAt = none ∧ usableAfter db slotUuid ≠ 0 ∧
          db' = commitSlotRegistry E dek { db with
            keySlots := db.keySlots.update slotUuid fun slot =>
              { slot with revokedAt := some now } })) := by
  obtain ⟨_, hmac, h⟩ := bind_ok h
  cases hget : db.keySlots.get? slotUuid with
  | none => rw [hget] at h; cases h
  | some target =>
    rw [hget] at h
    dsimp only at h
    refine ⟨target, verifySlotRegistry_ok.mp hmac, rfl, ?_⟩
    split at h
    · next hrev =>
      cases h
      exact .inl ⟨Option.isSome_iff_ne_none.mp hrev, rfl⟩
    · next hrev =>
      obtain ⟨husable, h⟩ := ite_error_eq_ok.mp h
      cases h
      exact .inr ⟨by simpa using hrev, husable, rfl⟩

theorem get?_syncPasswordSlots (kdfParams wrapped epoch u) :
    (syncPasswordSlots db kdfParams wrapped epoch).keySlots.get? u
      = (db.keySlots.get? u).map (rewrapPassword kdfParams wrapped epoch) :=
  Table.get?_mapVal _ _ u

theorem rotationTx_ok (h : rotationTx E dek db kdfParams wrapped newEpoch = .ok db') :
    db.metadata.slotRegistryMac = some (registryMac E dek db) ∧
      db' = commitSlotRegistry E dek (syncPasswordSlots
        (setMaterial db kdfParams wrapped newEpoch) kdfParams wrapped newEpoch) := by
  obtain ⟨_, hmac, h⟩ := bind_ok h
  cases h
  exact ⟨verifySlotRegistry_ok.mp hmac, rfl⟩

theorem recoveryTx_ok (h : recoveryTx E dek db wrapped newEpoch r = .ok db') :
    ∃ keySlots, db.metadata.slotRegistryMac = some (registryMac E dek db) ∧
      db' = commitSlotRegistry E dek
        (setMaterial { db with keySlots := keySlots } r.kdfParams wrapped newEpoch) ∧
      db.keySlots.get? r.slotUuid = none ∧
      ∀ u, keySlots.get? u =
        if u = r.slotUuid then some (newPasswordSlot r.kdfParams wrapped newEpoch r.now)
        else (db.keySlots.get? u).map (retire r.now) := by
  obtain ⟨_, hmac, h⟩ := bind_ok h
  obtain ⟨db1, hins, h⟩ := bind_ok h
  obtain ⟨keySlots, rfl, hnone, hget⟩ := insertSlot_ok hins
  cases h
  refine ⟨keySlots, verifySlotRegistry_ok.mp hmac, rfl, ?_, ?_⟩
  · simpa using hnone
  · intro u
    rw [hget u]
    simp

theorem nextEpoch_ok (h : nextEpoch epoch = .ok newEpoch) :
    newEpoch = epoch + 1 ∧ newEpoch.toInt = epoch.toInt + 1 := by
  obtain ⟨hmax, h⟩ := ite_error_eq_ok.mp h
  cases h
  exact ⟨rfl, toInt_add_one_of_ne hmax⟩

/-- The wrap was sealed over `dek`, under some key. -/
def SealedOver (E : VaultEnv) (dek : Key) (wrapped : WrappedKey) : Prop :=
  ∃ key aad, E.aesSeal key wrapped.nonce aad dek.toList
    = some (wrapped.wrappedDek ++ wrapped.authTag.toList)

theorem splitTag_eq_some {ciphertext wrappedDek authTag}
    (h : splitTag ciphertext = some (wrappedDek, authTag)) :
    wrappedDek ++ authTag.toList = ciphertext := by
  unfold splitTag at h
  split at h
  · cases h
    exact List.take_append_drop _ _
  · cases h

theorem wrapDekUnderKey_ok {masterKey aad bound}
    (h : wrapDekUnderKey E masterKey nonce dek aad bound = .ok wrapped) :
    SealedOver E dek wrapped ∧ wrapped.nonce = nonce ∧ wrapped.epochBound = bound := by
  unfold wrapDekUnderKey at h
  split at h
  · cases h
  rename_i ciphertext hseal
  split at h
  · cases h
  rename_i wrappedDek authTag hsplit
  cases h
  exact ⟨⟨masterKey, aad, by rw [hseal, splitTag_eq_some hsplit]⟩, rfl, rfl⟩

theorem wrapDekForRecoverySlot_ok
    (h : wrapDekForRecoverySlot E dek recoveryKey nonce vaultUuid slotUuid epoch = .ok wrapped) :
    SealedOver E dek wrapped := by
  unfold wrapDekForRecoverySlot at h
  split at h
  · cases h
  rename_i ciphertext hseal
  split at h
  · cases h
  rename_i wrappedDek authTag hsplit
  cases h
  exact ⟨recoveryKey, _, by rw [hseal, splitTag_eq_some hsplit]⟩

theorem stageWrap_ok {mismatch}
    (h : stageWrap E newPassword newParams nonce dek newEpoch mismatch = .ok wrapped) :
    SealedOver E dek wrapped ∧ wrapped.epochBound = true := by
  obtain ⟨newMaster, -, h⟩ := bind_ok h
  obtain ⟨wrapped', hwrap, h⟩ := bind_ok h
  obtain ⟨verified, -, h⟩ := bind_ok h
  obtain ⟨-, h⟩ := ite_error_eq_ok.mp h
  cases h
  obtain ⟨hsealed, -, hbound⟩ := wrapDekUnderKey_ok hwrap
  exact ⟨hsealed, hbound⟩

theorem rotateMasterPassword_ok {currentPassword} {current}
    (h : rotateMasterPassword E dek currentPassword kdfParams current epoch newPassword newParams
      nonce = .ok wrapped) : SealedOver E dek wrapped ∧ wrapped.epochBound = true := by
  obtain ⟨-, h⟩ := ite_error_eq_ok.mp h
  obtain ⟨proved, -, h⟩ := bind_ok h
  obtain ⟨-, h⟩ := ite_error_eq_ok.mp h
  exact stageWrap_ok h

theorem stageRecovery_ok
    (h : stageRecovery E db vaultUuid recoveryKey newPassword r = .ok (dek, newEpoch, wrapped)) :
    (∃ row ∈ db.keySlots.rows,
      unwrapDekViaRecoverySlot E recoveryKey vaultUuid row.1 row.2 = .ok dek) ∧
      nextEpoch db.metadata.keyEpoch = .ok newEpoch ∧
      SealedOver E dek wrapped ∧ wrapped.epochBound = true := by
  unfold stageRecovery at h
  cases hslot : newestRecoverySlot db with
  | none => rw [hslot] at h; cases h
  | some row =>
    rw [hslot] at h
    dsimp only at h
    have hmem : row ∈ db.keySlots.rows := by
      have hin := List.mem_of_head? hslot
      rw [List.mem_insertionSort] at hin
      exact (List.mem_filter.mp hin).1
    cases hopen : unwrapDekViaRecoverySlot E recoveryKey vaultUuid row.1 row.2 with
    | error e => rw [hopen] at h; cases h
    | ok dek' =>
      rw [hopen] at h
      obtain ⟨newEpoch', hnext, h⟩ := bind_ok h
      obtain ⟨wrapped', hstage, h⟩ := bind_ok h
      obtain ⟨-, h⟩ := ite_error_eq_ok.mp h
      cases h
      exact ⟨⟨row, hmem, hopen⟩, hnext, stageWrap_ok hstage⟩

end Transactions

/-! ## Operations -/

section Operations

variable {s : VaultState}

theorem rebase_cases (w file vaultUuid epoch digest) :
    rebase w file vaultUuid epoch digest = (.ok (), some (render vaultUuid epoch digest)) ∨
      w ≠ .done ∧ ∃ e, rebase w file vaultUuid epoch digest = (.error e, file) := by
  cases w with
  | done => exact .inl rfl
  | writeFailed e => exact .inr ⟨nofun, _, rfl⟩
  | renameFailed e => exact .inr ⟨nofun, _, rfl⟩

/-- The file a guarded open works on after the check and the heal. -/
def GuardedFile (E : VaultEnv) (s : VaultState) (file : Option Text) : Prop :=
  file = s.file ∨ ∃ u, s.db.metadata.vaultUuid = some u ∧ file = anchor E s.db u

variable {file : Option Text} {vaultUuid : Text} {verdict : EpochCheck} {w : WriteOutcome}

theorem enforceEpochGuard_ok (h : enforceEpochGuard E w s = (.ok (vaultUuid, verdict), file)) :
    s.db.metadata.vaultUuid = some vaultUuid ∧
      check E.sidecarPath w s.file vaultUuid s.db.metadata.keyEpoch (materialDigest E s.db)
        = (.ok verdict, file) := by
  unfold enforceEpochGuard at h
  split at h
  · cases h
  · next huuid =>
    obtain ⟨hanswer, rfl⟩ := Prod.mk.inj h
    obtain ⟨_, hcheck, hverdict⟩ := map_ok hanswer
    cases hverdict
    exact ⟨huuid, Prod.ext hcheck rfl⟩

theorem enforceEpochGuard_error {e : VaultError} (h : enforceEpochGuard E w s = (.error e, file)) :
    file = s.file := by
  unfold enforceEpochGuard at h
  split at h
  · cases h
    rfl
  · obtain ⟨hanswer, rfl⟩ := Prod.mk.inj h
    exact check_error (map_error hanswer)

theorem guardedFile_check (h : enforceEpochGuard E w s = (.ok (vaultUuid, verdict), file)) :
    GuardedFile E s file := by
  obtain ⟨huuid, hcheck⟩ := enforceEpochGuard_ok h
  rcases check_ok hcheck with ⟨-, -, hfile⟩ | ⟨side, -, hfile, -⟩
  · exact .inr ⟨vaultUuid, huuid, hfile⟩
  exact .inl hfile

theorem guardedFile_adopt {wMint : WriteOutcome} {answer : Except VaultError Unit}
    {file' : Option Text}
    (hguard : enforceEpochGuard E wMint s = (.ok (vaultUuid, verdict), file))
    (h : adoptPending E w { s with file := file } vaultUuid verdict = (answer, file')) :
    GuardedFile E s file' := by
  obtain ⟨huuid, hcheck⟩ := enforceEpochGuard_ok hguard
  have hsame := guardedFile_check hguard
  unfold adoptPending at h
  split at h
  · next fromEpoch toEpoch =>
    have hto : toEpoch = s.db.metadata.keyEpoch := by
      rcases check_ok hcheck with ⟨-, hv, -⟩ | ⟨side, -, -, -, ⟨hv, -⟩ | ⟨hv, -⟩⟩
      · cases hv
      · cases hv
      · cases hv; rfl
    split at h
    · -- the heal writes the epoch the check compared with
      subst hto
      unfold adoptHeal at h
      split at h
      · cases h; exact hsame
      split at h
      · cases h; exact hsame
      split at h
      · cases h; exact hsame
      · cases w with
        | done =>
          cases h
          exact .inr ⟨vaultUuid, huuid, rfl⟩
        | writeFailed e => cases h; exact hsame
        | renameFailed e => cases h; exact hsame
    · cases h; exact hsame
  · cases h; exact hsame

/-- The bootstrap of a registry without a MAC, and where it ends. -/
inductive Bootstrapped (E : VaultEnv) (s : VaultState) (dek : Key) (vaultUuid : Text) :
    Follow → VaultState → Prop
  | crash : Bootstrapped E s dek vaultUuid .crash { s with db := commitSlotRegistry E dek s.db }
  | failed {w : WriteOutcome} (h : w ≠ .done) :
      Bootstrapped E s dek vaultUuid (.write w) { s with db := commitSlotRegistry E dek s.db }
  | followed {w : WriteOutcome} : Bootstrapped E s dek vaultUuid (.write w) { s with
        db := commitSlotRegistry E dek s.db
        file := anchor E (commitSlotRegistry E dek s.db) vaultUuid
        sessions := s.sessions ++ [⟨dek, vaultUuid⟩] }

/-- What an open leaves behind. -/
inductive Opened (E : VaultEnv) (s : VaultState) (password : Bytes) (follow : Follow) :
    Outcome Session → VaultState → Prop
  /-- Nothing but the file and the attempts. -/
  | refused {file : Option Text} {attempts : List Int64} {e : VaultError}
      (hfile : GuardedFile E s file) :
      Opened E s password follow (.returned (.error e))
        { s with file := file, db := { s.db with failedAttempts := attempts } }
  /-- The registry was verified. -/
  | verified {file : Option Text} {dek : Key} {vaultUuid : Text} (hfile : GuardedFile E s file)
      (huuid : s.db.metadata.vaultUuid = some vaultUuid)
      (hunlock : unlockVaultWithEpoch E password s.db.metadata.kdfParams s.db.metadata.wrappedDek
        s.db.metadata.keyEpoch = .ok dek)
      (hmac : s.db.metadata.slotRegistryMac = some (registryMac E dek s.db)) :
      Opened E s password follow (.returned (.ok ⟨dek, vaultUuid⟩)) { s with
        file := file, db := { s.db with failedAttempts := [] }
        sessions := s.sessions ++ [⟨dek, vaultUuid⟩] }
  /-- The registry had no MAC yet. -/
  | bootstrapped {file : Option Text} {dek : Key} {vaultUuid : Text} {outcome : Outcome Session}
      {s' : VaultState} (hfile : GuardedFile E s file)
      (huuid : s.db.metadata.vaultUuid = some vaultUuid)
      (hunlock : unlockVaultWithEpoch E password s.db.metadata.kdfParams s.db.metadata.wrappedDek
        s.db.metadata.keyEpoch = .ok dek)
      (hmac : s.db.metadata.slotRegistryMac = none)
      (hboot : Bootstrapped E { s with file := file, db := { s.db with failedAttempts := [] } } dek
        vaultUuid follow s')
      (hok : ∀ session, outcome = .returned (.ok session) → session.dek = dek) :
      Opened E s password follow outcome s'

theorem opened_registry {password follow dek}
    (hfile : GuardedFile E s file) (huuid : s.db.metadata.vaultUuid = some vaultUuid)
    (hunlock : unlockVaultWithEpoch E password s.db.metadata.kdfParams s.db.metadata.wrappedDek
      s.db.metadata.keyEpoch = .ok dek) :
    let opened := finishOpen (ensureOrVerifySlotRegistry E follow
      { s with file := file, db := { s.db with failedAttempts := [] } } dek vaultUuid) dek vaultUuid
    Opened E s password follow opened.1 opened.2 := by
  unfold ensureOrVerifySlotRegistry
  cases hmac : s.db.metadata.slotRegistryMac with
  | some stored =>
    cases hverify : verifySlotRegistry E dek { s.db with failedAttempts := [] } with
    | error e => exact .refused hfile
    | ok u => exact .verified hfile huuid hunlock (verifySlotRegistry_ok.mp hverify)
  | none =>
    dsimp only
    split
    · exact .refused hfile
    · cases follow with
      | crash => exact .bootstrapped hfile huuid hunlock hmac .crash nofun
      | write w =>
        dsimp only
        rcases rebase_cases w file vaultUuid s.db.metadata.keyEpoch
          (materialDigest E (commitSlotRegistry E dek { s.db with failedAttempts := [] })) with
          hdone | ⟨hw, e, hfail⟩
        · rw [hdone]
          refine .bootstrapped hfile huuid hunlock hmac .followed ?_
          rintro session ⟨⟩
          rfl
        · rw [hfail]
          exact .bootstrapped hfile huuid hunlock hmac (.failed hw) nofun

theorem openVault_cases (s password now w) :
    Opened E s password w.follow (openVault E s password now w).1
      (openVault E s password now w).2 := by
  unfold openVault
  cases hlock : remainingLockoutSeconds s.db now with
  | some remaining => exact .refused (.inl rfl)
  | none =>
    cases hguard : enforceEpochGuard E w.mint s with
    | mk verdict file =>
      cases verdict with
      | error e =>
        rw [enforceEpochGuard_error hguard]
        exact .refused (.inl rfl)
      | ok v =>
        obtain ⟨vaultUuid, verdict⟩ := v
        have huuid := (enforceEpochGuard_ok hguard).1
        dsimp only
        cases hunlock : unlockVaultWithEpoch E password s.db.metadata.kdfParams
            s.db.metadata.wrappedDek s.db.metadata.keyEpoch with
        | error e =>
          unfold failedAttempt
          dsimp only
          split
          · exact .refused (guardedFile_check hguard)
          · exact .refused (guardedFile_check hguard)
        | ok dek =>
          cases hadopt : adoptPending E w.heal { s with file := file } vaultUuid verdict with
          | mk answer file' =>
            have hfile := guardedFile_adopt hguard hadopt
            cases answer with
            | error e => exact .refused hfile
            | ok u =>
              exact opened_registry hfile huuid hunlock

theorem changeMasterPassword_cases (s session currentPassword newPassword r follow) :
    (∃ attempts e, changeMasterPassword E s session currentPassword newPassword r follow
      = (.returned (.error e), { s with db := { s.db with failedAttempts := attempts } })) ∨
    ∃ wrapped newEpoch db, SealedOver E session.dek wrapped ∧ wrapped.epochBound = true ∧
      nextEpoch s.db.metadata.keyEpoch = .ok newEpoch ∧
      rotationTx E session.dek s.db r.kdfParams wrapped newEpoch = .ok db ∧
      changeMasterPassword E s session currentPassword newPassword r follow
        = followBump E { s with db := db } session.vaultUuid newEpoch follow := by
  unfold changeMasterPassword
  cases checkNewPassword currentPassword newPassword with
  | error e => exact .inl ⟨_, e, rfl⟩
  | ok u =>
    cases remainingLockoutSeconds s.db r.now with
    | some remaining => exact .inl ⟨_, _, rfl⟩
    | none =>
      cases hnext : nextEpoch s.db.metadata.keyEpoch with
      | error e => exact .inl ⟨_, e, rfl⟩
      | ok newEpoch =>
        cases hrotate : rotateMasterPassword E session.dek currentPassword
            s.db.metadata.kdfParams s.db.metadata.wrappedDek s.db.metadata.keyEpoch newPassword
            r.kdfParams r.nonce with
        | error e =>
          dsimp only
          split
          · unfold failedAttempt
            dsimp only
            split
            · exact .inl ⟨_, _, rfl⟩
            exact .inl ⟨_, _, rfl⟩
          · exact .inl ⟨_, e, rfl⟩
        | ok wrapped =>
          dsimp only
          cases htx : rotationTx E session.dek s.db r.kdfParams wrapped newEpoch with
          | error e => exact .inl ⟨_, e, rfl⟩
          | ok db =>
            obtain ⟨hsealed, hbound⟩ := rotateMasterPassword_ok hrotate
            exact .inr ⟨wrapped, newEpoch, db, hsealed, hbound, rfl, htx, rfl⟩

theorem recoverAccess_cases (s recoveryKey newPassword r mint follow) :
    ∃ file, GuardedFile E s file ∧ ((∃ e, recoverAccess E s recoveryKey newPassword r mint follow
        = (.returned (.error e), { s with file := file })) ∨
      ∃ vaultUuid dek newEpoch wrapped db, s.db.metadata.vaultUuid = some vaultUuid ∧
        stageRecovery E s.db vaultUuid recoveryKey newPassword r = .ok (dek, newEpoch, wrapped) ∧
        recoveryTx E dek s.db wrapped newEpoch r = .ok db ∧
        recoverAccess E s recoveryKey newPassword r mint follow
          = followBump E { s with file := file, db := db } vaultUuid newEpoch follow) := by
  unfold recoverAccess
  split
  · exact ⟨s.file, .inl rfl, .inl ⟨_, rfl⟩⟩
  · cases huuid : s.db.metadata.vaultUuid with
    | none => exact ⟨s.file, .inl rfl, .inl ⟨_, rfl⟩⟩
    | some vaultUuid =>
      dsimp only
      cases hcheck : check E.sidecarPath mint s.file vaultUuid s.db.metadata.keyEpoch
          (materialDigest E s.db) with
      | mk answer file =>
        cases answer with
        | error e =>
          have hanswer : (check E.sidecarPath mint s.file vaultUuid s.db.metadata.keyEpoch
              (materialDigest E s.db)).1 = .error e := by rw [hcheck]
          have hfile := check_error hanswer
          rw [hcheck] at hfile
          exact ⟨file, .inl hfile, .inl ⟨e, rfl⟩⟩
        | ok verdict =>
          have hguarded : GuardedFile E s file := by
            rcases check_ok hcheck with ⟨-, -, hfile⟩ | ⟨side, -, hfile, -⟩
            · exact .inr ⟨vaultUuid, huuid, hfile⟩
            exact .inl hfile
          refine ⟨file, hguarded, ?_⟩
          cases hstage : stageRecovery E s.db vaultUuid recoveryKey newPassword r with
          | error e => exact .inl ⟨e, rfl⟩
          | ok staged =>
            obtain ⟨dek, newEpoch, wrapped⟩ := staged
            dsimp only
            cases htx : recoveryTx E dek s.db wrapped newEpoch r with
            | error e => exact .inl ⟨e, rfl⟩
            | ok db =>
              exact .inr ⟨vaultUuid, dek, newEpoch, wrapped, db, rfl, hstage, htx, rfl⟩

theorem createRecoverySlot_cases (s session recoveryKey r follow) :
    (∃ e, createRecoverySlot E s session recoveryKey r follow = (.returned (.error e), s)) ∨
    ∃ db, createRecoverySlotTx E session.dek s.db recoveryKey r = .ok db ∧
      createRecoverySlot E s session recoveryKey r follow
        = followConstantEpoch E { s with db := db } session.vaultUuid follow := by
  unfold createRecoverySlot
  cases htx : createRecoverySlotTx E session.dek s.db recoveryKey r with
  | error e => exact .inl ⟨e, rfl⟩
  | ok db => exact .inr ⟨db, rfl, rfl⟩

theorem revokeKeySlot_cases (s session slotUuid now follow) :
    (∃ e, revokeKeySlot E s session slotUuid now follow = (.returned (.error e), s)) ∨
    ∃ db, revokeKeySlotTx E session.dek s.db slotUuid now = .ok db ∧
      revokeKeySlot E s session slotUuid now follow
        = followConstantEpoch E { s with db := db } session.vaultUuid follow := by
  unfold revokeKeySlot
  cases htx : revokeKeySlotTx E session.dek s.db slotUuid now with
  | error e => exact .inl ⟨e, rfl⟩
  | ok db => exact .inr ⟨db, rfl, rfl⟩

theorem importPairingBootstrap_db (s i session password bootstrap empty r follow) :
    (importPairingBootstrap E s i session password bootstrap empty r follow).2.db = s.db ∨
    ∃ dek keySlots, (importPairingBootstrap E s i session password bootstrap empty r follow).2.db
      = commitSlotRegistry E dek (setMaterial { s.db with keySlots := keySlots } bootstrap.kdfParams
          bootstrap.wrappedDek bootstrap.keyEpoch) ∧
      ∀ u, keySlots.get? u =
        if u = r.slotUuid then some (newPasswordSlot bootstrap.kdfParams bootstrap.wrappedDek
          bootstrap.keyEpoch r.now)
        else none := by
  unfold importPairingBootstrap
  split
  · exact .inl rfl
  · cases unlockVaultWithEpoch E password bootstrap.kdfParams bootstrap.wrappedDek
        bootstrap.keyEpoch with
    | error e => exact .inl rfl
    | ok dek =>
      dsimp only
      split
      · exact .inl rfl
      · cases hins : insertSlot { s.db with keySlots := .empty } r.slotUuid
            (newPasswordSlot bootstrap.kdfParams bootstrap.wrappedDek bootstrap.keyEpoch
              r.now) with
        | error e => exact .inl rfl
        | ok db =>
          obtain ⟨keySlots, rfl, -, hget⟩ := insertSlot_ok hins
          cases follow with
          | crash => exact .inr ⟨dek, keySlots, rfl, hget⟩
          | write w => exact .inr ⟨dek, keySlots, rfl, hget⟩

@[simp] theorem followConstantEpoch_db (s vaultUuid follow) :
    (followConstantEpoch E s vaultUuid follow).2.db = s.db := by
  cases follow with
  | crash => rfl
  | write w => rfl

@[simp] theorem followBump_db (s vaultUuid newEpoch follow) :
    (followBump E s vaultUuid newEpoch follow).2.db = s.db := by
  cases follow with
  | crash => rfl
  | write w => rfl

@[simp] theorem afterSession_db {α : Type} (i : Nat) (out : Outcome α × VaultState) :
    (afterSession i out).db = out.2.db := by
  obtain ⟨outcome, s⟩ := out
  cases outcome with
  | crashed => rfl
  | returned r => rfl

/-- What an operation leaves in the database: the old contents with other failed attempts, or
what a transaction committed. -/
inductive DbStep (E : VaultEnv) (db : VaultDb) : VaultAction → VaultDb → Prop
  | attempts {a} (attempts) : DbStep E db a { db with failedAttempts := attempts }
  | bootstrapped {password now w} (dek) : DbStep E db (.openVault password now w)
      (commitSlotRegistry E dek { db with failedAttempts := [] })
  | createRecoverySlot {i recoveryKey r follow dek db'} :
      createRecoverySlotTx E dek db recoveryKey r = .ok db' →
      DbStep E db (.createRecoverySlot i recoveryKey r follow) db'
  | revokeKeySlot {i slotUuid now follow dek db'} :
      revokeKeySlotTx E dek db slotUuid now = .ok db' →
      DbStep E db (.revokeKeySlot i slotUuid now follow) db'
  | changeMasterPassword {i currentPassword newPassword r follow dek wrapped newEpoch db'} :
      nextEpoch db.metadata.keyEpoch = .ok newEpoch →
      rotationTx E dek db r.kdfParams wrapped newEpoch = .ok db' →
      DbStep E db (.changeMasterPassword i currentPassword newPassword r follow) db'
  | recoverAccess {recoveryKey newPassword r mint follow dek wrapped newEpoch db'} :
      nextEpoch db.metadata.keyEpoch = .ok newEpoch →
      recoveryTx E dek db wrapped newEpoch r = .ok db' →
      DbStep E db (.recoverAccess recoveryKey newPassword r mint follow) db'
  | importPairingBootstrap {i password bootstrap empty r follow dek keySlots} :
      (∀ u, keySlots.get? u = if u = r.slotUuid then some (newPasswordSlot bootstrap.kdfParams
        bootstrap.wrappedDek bootstrap.keyEpoch r.now) else none) →
      DbStep E db (.importPairingBootstrap i password bootstrap empty r follow)
        (commitSlotRegistry E dek (setMaterial { db with keySlots := keySlots }
          bootstrap.kdfParams bootstrap.wrappedDek bootstrap.keyEpoch))

theorem vaultStep_db {s' : VaultState} {a : VaultAction} (h : vaultStep E s a = some s') :
    DbStep E s.db a s'.db := by
  cases a with
  | openVault password now w =>
    cases h
    have hcases := openVault_cases (E := E) s password now w
    generalize (openVault E s password now w).1 = outcome at hcases
    generalize (openVault E s password now w).2 = after at hcases ⊢
    generalize w.follow = follow at hcases
    cases hcases with
    | refused => exact .attempts _
    | verified => exact .attempts _
    | bootstrapped _ _ _ _ hboot =>
      cases hboot with
      | crash => exact .bootstrapped _
      | failed => exact .bootstrapped _
      | followed => exact .bootstrapped _
  | createRecoverySlot i recoveryKey r follow =>
    obtain ⟨session, -, rfl⟩ := Option.map_eq_some_iff.mp h
    rw [afterSession_db]
    rcases createRecoverySlot_cases s session recoveryKey r follow with
      ⟨e, hout⟩ | ⟨db, htx, hout⟩
    · rw [hout]
      exact .attempts _
    · rw [hout, followConstantEpoch_db]
      exact .createRecoverySlot htx
  | revokeKeySlot i slotUuid now follow =>
    obtain ⟨session, -, rfl⟩ := Option.map_eq_some_iff.mp h
    rw [afterSession_db]
    rcases revokeKeySlot_cases s session slotUuid now follow with ⟨e, hout⟩ | ⟨db, htx, hout⟩
    · rw [hout]
      exact .attempts _
    · rw [hout, followConstantEpoch_db]
      exact .revokeKeySlot htx
  | changeMasterPassword i currentPassword newPassword r follow =>
    obtain ⟨session, -, rfl⟩ := Option.map_eq_some_iff.mp h
    rw [afterSession_db]
    rcases changeMasterPassword_cases s session currentPassword newPassword r follow with
      ⟨attempts, e, hout⟩ | ⟨wrapped, newEpoch, db, -, -, hnext, htx, hout⟩
    · rw [hout]
      exact .attempts attempts
    · rw [hout, followBump_db]
      exact .changeMasterPassword hnext htx
  | recoverAccess recoveryKey newPassword r mint follow =>
    cases h
    obtain ⟨file, -, ⟨e, hout⟩ | ⟨vaultUuid, dek, newEpoch, wrapped, db, -, hstage, htx, hout⟩⟩ :=
      recoverAccess_cases s recoveryKey newPassword r mint follow
    · rw [hout]
      exact .attempts _
    · rw [hout, followBump_db]
      exact .recoverAccess (stageRecovery_ok hstage).2.1 htx
  | importPairingBootstrap i password bootstrap empty r follow =>
    obtain ⟨session, -, rfl⟩ := Option.map_eq_some_iff.mp h
    rw [afterSession_db]
    rcases importPairingBootstrap_db s i session password bootstrap empty r follow with
      hdb | ⟨dek, keySlots, hdb, hget⟩
    · rw [hdb]
      exact .attempts _
    · rw [hdb]
      exact .importPairingBootstrap hget
  | close i =>
    cases h
    exact .attempts _

end Operations

end SentinelPass
