import SentinelPass.Sync.Outbox

/-!
# Applying one remote entry

`sync/engine.rs`, from `apply_existing_preamble` to `apply_totp`, and the
last-write-wins rule of `sync/conflict.rs`. The three `apply_*` functions are one
function of the table (`applyRow`); they differ in how a payload becomes a row
(`prepare`) and in the `UNIQUE (entry_id)` of `totp_secrets` (`checkUnique`).

The source returns `()` on success. Here a success also says which branch it
took (`ApplyEffect`), which is what the `tracing` calls report.
-/

namespace SentinelPass

open Lib LocalDb

/-! ## Last write wins -/

inductive Resolution
  | acceptRemote
  | keepLocal
deriving DecidableEq

def resolve (localVersion : UInt64) (localModified : Int) (remote : SyncEntryBlob) : Resolution :=
  if localVersion < remote.syncVersion then .acceptRemote
  else if remote.syncVersion = localVersion then
    if localModified < remote.modifiedAt then .acceptRemote else .keepLocal
  else .keepLocal

def acceptNew (remote : SyncEntryBlob) : Bool := 0 < remote.syncVersion

def skipNewEntry (blob : SyncEntryBlob) : Bool := blob.isTombstone || !acceptNew blob

/-! ## From a payload to a row -/

/-- `resolve_sync_secret`: the plaintext field, else the complete legacy shape. -/
def resolveSyncSecret (E : Env) (t : SyncEntryType) (plaintext : String)
    (legacyCt legacyNonce legacyAuthTag : Option Bytes) : Except PmError String :=
  if plaintext ≠ "" then .ok plaintext
  else
    match legacyCt, legacyNonce, legacyAuthTag with
    | some ct, some nonce, some tag => E.legacyOpen t ⟨ct, nonce, tag⟩
    | _, _, _ =>
      .error (.invalidInput ("sync payload carries neither the current plaintext field nor " ++
        "the complete legacy secret shape"))

/-- A row's content and creation time, ready to be written. -/
structure Prepared (t : SyncEntryType) where
  content : Content t
  createdAt : Int

/-- Open a credential payload and seal its fields and domains. -/
def prepareCredential (E : Env) (blob : SyncEntryBlob) : Except PmError (Prepared .credential) := do
  let payload ← E.openPayload .credential blob.encryptedPayload
  sealObjectField maxSummaryPlaintext payload.title
  sealObjectField maxSummaryPlaintext payload.username
  sealObjectField maxSecretPlaintext payload.password
  sealOptional maxSecretPlaintext payload.url
  sealOptional maxSecretPlaintext payload.notes
  payload.domains.forM fun d => sealObjectField maxSummaryPlaintext d.domain
  let content : Credential :=
    { title := payload.title, username := payload.username, password := payload.password
      credentialType := payload.credentialType, url := payload.url, notes := payload.notes
      favorite := payload.favorite, domains := payload.domains
      modifiedAt := payload.modifiedAt }
  .ok ⟨content, payload.createdAt⟩

/-- Open an SSH key payload, resolve its private key and seal. -/
def prepareSshKey (E : Env) (blob : SyncEntryBlob) : Except PmError (Prepared .sshKey) := do
  let payload ← E.openPayload .sshKey blob.encryptedPayload
  let privateKey ← resolveSyncSecret E .sshKey payload.privateKey payload.privateKeyEncrypted
    payload.legacyNonce payload.legacyAuthTag
  sealObjectField maxSecretPlaintext privateKey
  sealOptional maxSummaryPlaintext payload.comment
  let content : SshKey :=
    { name := payload.name, comment := payload.comment, keyType := payload.keyType
      keySize := payload.keySize, publicKey := payload.publicKey, privateKey := privateKey
      fingerprint := payload.fingerprint, modifiedAt := payload.modifiedAt }
  .ok ⟨content, payload.createdAt⟩

/-- Open a TOTP payload, resolve its secret, look its parent up and seal. A
parent that is not there yet defers the entry. -/
def prepareTotp (E : Env) (db : LocalDb) (blob : SyncEntryBlob) :
    Except PmError (Prepared .totpSecret) := do
  let payload ← E.openPayload .totpSecret blob.encryptedPayload
  let secret ← resolveSyncSecret E .totpSecret payload.secret payload.secretEncrypted
    payload.legacyNonce payload.legacyAuthTag
  sealObjectField maxSecretPlaintext secret
  sealOptional maxSummaryPlaintext payload.issuer
  sealOptional maxSummaryPlaintext payload.accountName
  match payload.parentCredentialSyncId.filter fun parent => (db.row .credential parent).isSome with
  | none =>
    .error (.syncDeferred ("TOTP " ++ blob.syncId.text ++
      ": parent credential not present locally yet"))
  | some parent =>
    let content : Totp :=
      { entry := parent, secret := secret, algorithm := payload.algorithm
        digits := payload.digits.toUInt64.toInt64
        period := payload.period.toInt32.toInt64
        issuer := payload.issuer, accountName := payload.accountName }
    .ok ⟨content, payload.createdAt⟩

def prepare (E : Env) (db : LocalDb) (blob : SyncEntryBlob) :
    (t : SyncEntryType) → Except PmError (Prepared t)
  | .credential => prepareCredential E blob
  | .sshKey => prepareSshKey E blob
  | .totpSecret => prepareTotp E db blob

/-- `UNIQUE (entry_id)`: one secret a credential. -/
def checkUnique (db : LocalDb) (id : Uuid) : (t : SyncEntryType) → Content t → Except PmError Unit
  | .credential, _ => .ok ()
  | .sshKey, _ => .ok ()
  | .totpSecret, c =>
    if db.totpSecrets.rows.any fun p => p.1 ≠ id && p.2.content.entry = c.entry then
      .error (.database "SQLite error: UNIQUE constraint failed: totp_secrets.entry_id")
    else .ok ()

/-! ## The apply functions -/

/-- Which branch an apply took. -/
inductive ApplyEffect
  /-- Kept as the alternative of an unsynced local edit. -/
  | recorded
  /-- The local row is at that version or beyond. -/
  | keptLocal
  /-- The local row was deleted. -/
  | tombstoned
  /-- The local row was overwritten. -/
  | updated
  /-- A new row was inserted. -/
  | inserted
  /-- A tombstone, or version 0, for an object that has no row. -/
  | skipped
deriving DecidableEq

/-- The alternative `record_conflict` stores. -/
def conflictRow (blob : SyncEntryBlob) (now : Int) : ConflictRow where
  objectType := blob.entryType
  remoteVersion := blob.syncVersion.toInt64
  remotePayload := blob.encryptedPayload
  originDeviceId := blob.originDeviceId
  isTombstone := blob.isTombstone
  receivedAt := now

/-- `record_conflict`: the latest alternative wins. -/
def recordConflict (db : LocalDb) (blob : SyncEntryBlob) (now : Int) : LocalDb :=
  db.setConflicts
    (db.syncConflicts.upsert blob.syncId (conflictRow blob now) fun _ => conflictRow blob now)

/-- The tombstone statement: deleted, at the remote version, synced. -/
def SyncCols.tombstoned (version : UInt64) (now : Int) (c : SyncCols) : SyncCols :=
  { c with
    isDeleted := true
    deletedAt := some now
    syncVersion := version.toInt64
    syncAckedVersion := version.toInt64
    syncState := .synced
    lastSyncedAt := some now }

/-- An unsynced local edit that the blob is not older than. -/
def Concurrent (c : SyncCols) (blob : SyncEntryBlob) : Prop :=
  (c.syncState = .pending ∨ c.syncState = .conflict) ∧ c.syncVersion.toUInt64 ≤ blob.syncVersion

instance (c : SyncCols) (blob : SyncEntryBlob) : Decidable (Concurrent c blob) := by
  unfold Concurrent
  infer_instance

/-- `apply_existing_preamble`: `none` when the caller goes on with the update. -/
def applyExistingPreamble (db : LocalDb) (t : SyncEntryType) (r : SyncRow (Content t))
    (blob : SyncEntryBlob) (now : Int) : Option (LocalDb × ApplyEffect) :=
  if Concurrent r.sync blob then
    some ((recordConflict db blob now).updateCols t blob.syncId .conflicted, .recorded)
  else if resolve r.sync.syncVersion.toUInt64 (rowModified t r) blob = .keepLocal then
    some (db, .keptLocal)
  else if blob.isTombstone then
    some (db.updateCols t blob.syncId (.tombstoned blob.syncVersion now), .tombstoned)
  else none

def applyRow (E : Env) (now : Int) (db : LocalDb) (t : SyncEntryType) (blob : SyncEntryBlob) :
    Except PmError (LocalDb × ApplyEffect) :=
  match db.row t blob.syncId with
  | some r =>
    match applyExistingPreamble db t r blob now with
    | some done => .ok done
    | none => do
      let p ← prepare E db blob t
      checkUnique db blob.syncId t p.content
      -- `created_at` is not among the updated columns
      let row := ⟨p.content, r.createdAt, .applied blob.syncVersion now⟩
      .ok (db.putRow t blob.syncId row, .updated)
  | none =>
    if skipNewEntry blob then .ok (db, .skipped)
    else do
      let p ← prepare E db blob t
      checkUnique db blob.syncId t p.content
      let row := ⟨p.content, p.createdAt, .applied blob.syncVersion now⟩
      .ok (db.putRow t blob.syncId row, .inserted)

def applyCredential (E : Env) (now : Int) (db : LocalDb) (blob : SyncEntryBlob) :
    Except PmError (LocalDb × ApplyEffect) :=
  applyRow E now db .credential blob

def applySshKey (E : Env) (now : Int) (db : LocalDb) (blob : SyncEntryBlob) :
    Except PmError (LocalDb × ApplyEffect) :=
  applyRow E now db .sshKey blob

def applyTotp (E : Env) (now : Int) (db : LocalDb) (blob : SyncEntryBlob) :
    Except PmError (LocalDb × ApplyEffect) :=
  applyRow E now db .totpSecret blob

def applyRemoteEntryInTx (E : Env) (now : Int) (db : LocalDb) (blob : SyncEntryBlob) :
    Except PmError (LocalDb × ApplyEffect) :=
  match blob.entryType with
  | .credential => applyCredential E now db blob
  | .sshKey => applySshKey E now db blob
  | .totpSecret => applyTotp E now db blob

theorem applyRemoteEntryInTx_eq (E now db blob) :
    applyRemoteEntryInTx E now db blob = applyRow E now db blob.entryType blob := by
  unfold applyRemoteEntryInTx
  cases blob.entryType <;> rfl

/-! ## What an apply does -/

def SyncEntryBlob.target (blob : SyncEntryBlob) (db : LocalDb) :
    Option (SyncRow (Content blob.entryType)) :=
  db.row blob.entryType blob.syncId

/-- The successful applies, one constructor for each branch. -/
inductive ApplyStep (E : Env) (now : Int) (db : LocalDb) (blob : SyncEntryBlob) :
    ApplyEffect → LocalDb → Prop
  | recorded {r : SyncRow (Content blob.entryType)} :
      blob.target db = some r → Concurrent r.sync blob →
      ApplyStep E now db blob .recorded
        ((recordConflict db blob now).updateCols blob.entryType blob.syncId .conflicted)
  | keptLocal {r : SyncRow (Content blob.entryType)} :
      blob.target db = some r → ¬ Concurrent r.sync blob →
      resolve r.sync.syncVersion.toUInt64 (rowModified _ r) blob = .keepLocal →
      ApplyStep E now db blob .keptLocal db
  | tombstoned {r : SyncRow (Content blob.entryType)} :
      blob.target db = some r → ¬ Concurrent r.sync blob →
      resolve r.sync.syncVersion.toUInt64 (rowModified _ r) blob = .acceptRemote →
      blob.isTombstone = true →
      ApplyStep E now db blob .tombstoned
        (db.updateCols blob.entryType blob.syncId (.tombstoned blob.syncVersion now))
  | updated {r : SyncRow (Content blob.entryType)} {p : Prepared blob.entryType} :
      blob.target db = some r → ¬ Concurrent r.sync blob →
      resolve r.sync.syncVersion.toUInt64 (rowModified _ r) blob = .acceptRemote →
      blob.isTombstone = false → prepare E db blob blob.entryType = .ok p →
      ApplyStep E now db blob .updated
        (db.putRow blob.entryType blob.syncId
          ⟨p.content, r.createdAt, .applied blob.syncVersion now⟩)
  | inserted {p : Prepared blob.entryType} :
      blob.target db = none → blob.isTombstone = false → 0 < blob.syncVersion →
      prepare E db blob blob.entryType = .ok p →
      ApplyStep E now db blob .inserted
        (db.putRow blob.entryType blob.syncId
          ⟨p.content, p.createdAt, .applied blob.syncVersion now⟩)
  | skipped : blob.target db = none → blob.isTombstone = true ∨ blob.syncVersion = 0 →
      ApplyStep E now db blob .skipped db

theorem acceptRemote_of_ne {r : Resolution} (h : r ≠ .keepLocal) : r = .acceptRemote := by
  cases r
  · rfl
  exact absurd rfl h

variable {E : Env} {blob : SyncEntryBlob} {db db' : LocalDb} {effect : ApplyEffect} {now : Int}
  {t : SyncEntryType} {v : UInt64} {modified : Int}

theorem skipNewEntry_eq_true :
    skipNewEntry blob = true ↔ blob.isTombstone = true ∨ blob.syncVersion = 0 := by
  simp [skipNewEntry, acceptNew]

/-- A success is one of the constructors of `ApplyStep`. -/
theorem applyRemoteEntryInTx_step (h : applyRemoteEntryInTx E now db blob = .ok (db', effect)) :
    ApplyStep E now db blob effect db' := by
  rw [applyRemoteEntryInTx_eq] at h
  unfold applyRow at h
  split at h
  · next r hr =>
    split at h
    · next done hdone =>
      cases h
      unfold applyExistingPreamble at hdone
      split at hdone
      · next hcon =>
        cases hdone
        exact .recorded hr hcon
      · next hcon =>
        split at hdone
        · next hkeep =>
          cases hdone
          exact .keptLocal hr hcon hkeep
        · next hkeep =>
          split at hdone
          · next htomb =>
            cases hdone
            exact .tombstoned hr hcon (acceptRemote_of_ne hkeep) htomb
          · cases hdone
    · next hnone =>
      unfold applyExistingPreamble at hnone
      split at hnone
      · cases hnone
      rename_i hcon
      split at hnone
      · cases hnone
      rename_i hkeep
      split at hnone
      · cases hnone
      rename_i htomb
      obtain ⟨p, hp, h⟩ := bind_ok h
      obtain ⟨_, -, h⟩ := bind_ok h
      cases h
      exact .updated hr hcon (acceptRemote_of_ne hkeep) (by simpa using htomb) hp
  · next hr =>
    split at h
    · next hskip =>
      cases h
      exact .skipped hr (skipNewEntry_eq_true.mp hskip)
    · next hskip =>
      rw [skipNewEntry_eq_true, not_or] at hskip
      obtain ⟨p, hp, h⟩ := bind_ok h
      obtain ⟨_, -, h⟩ := bind_ok h
      cases h
      refine .inserted hr (by simpa using hskip.1) ?_ hp
      have hne : blob.syncVersion.toNat ≠ 0 := fun h0 => hskip.2 (UInt64.toNat_inj.mp h0)
      exact Nat.pos_of_ne_zero hne

section Frame

@[simp] theorem row_recordConflict (t id) : (recordConflict db blob now).row t id = db.row t id :=
  row_setConflicts ..

@[simp] theorem cols_recordConflict (t id) :
    (recordConflict db blob now).cols t id = db.cols t id :=
  cols_setConflicts ..

variable {id : Uuid}

section

variable (h : ApplyStep E now db blob effect db')

include h

/-- No other row changes. -/
theorem ApplyStep.row_of_ne (hne : ¬ (t = blob.entryType ∧ id = blob.syncId)) :
    db'.row t id = db.row t id := by
  cases h with
  | recorded _ _ => rw [row_updateCols, if_neg hne, row_recordConflict]
  | keptLocal _ _ _ => rfl
  | tombstoned _ _ _ _ => rw [row_updateCols, if_neg hne]
  | updated _ _ _ _ _ => rw [row_putRow_of_ne db hne]
  | inserted _ _ _ _ => rw [row_putRow_of_ne db hne]
  | skipped _ _ => rfl

theorem ApplyStep.cols_of_ne (hne : ¬ (t = blob.entryType ∧ id = blob.syncId)) :
    db'.cols t id = db.cols t id := by
  unfold cols
  rw [h.row_of_ne hne]

theorem ApplyStep.frame : db'.syncDeadLetter = db.syncDeadLetter ∧ db'.config = db.config ∧
      db'.keyEpoch = db.keyEpoch := by
  cases h with
  | recorded _ _ =>
    rw [syncDeadLetter_updateCols, config_updateCols, keyEpoch_updateCols]
    exact ⟨rfl, rfl, rfl⟩
  | keptLocal _ _ _ => exact ⟨rfl, rfl, rfl⟩
  | tombstoned _ _ _ _ => simp
  | updated _ _ _ _ _ => simp
  | inserted _ _ _ _ => simp
  | skipped _ _ => exact ⟨rfl, rfl, rfl⟩

theorem ApplyStep.conflicts_of_ne (hne : id ≠ blob.syncId) :
    db'.syncConflicts.get? id = db.syncConflicts.get? id := by
  cases h with
  | recorded _ _ =>
    rw [syncConflicts_updateCols]
    change (db.syncConflicts.upsert blob.syncId _ _).get? id = _
    rw [Table.get?_upsert, if_neg hne]
  | keptLocal _ _ _ => rfl
  | tombstoned _ _ _ _ => rw [syncConflicts_updateCols]
  | updated _ _ _ _ _ => rw [syncConflicts_putRow]
  | inserted _ _ _ _ => rw [syncConflicts_putRow]
  | skipped _ _ => rfl

theorem ApplyStep.row_isSome (hr : (db.row t id).isSome) : (db'.row t id).isSome := by
  by_cases hobj : t = blob.entryType ∧ id = blob.syncId
  · obtain ⟨rfl, rfl⟩ := hobj
    cases h with
    | recorded _ _ => simpa [row_updateCols] using hr
    | keptLocal _ _ _ => exact hr
    | tombstoned _ _ _ _ => simpa [row_updateCols] using hr
    | updated _ _ _ _ _ => rw [row_putRow_self]; rfl
    | inserted _ _ _ _ => rw [row_putRow_self]; rfl
    | skipped _ _ => exact hr
  · rwa [h.row_of_ne hobj]

end

end Frame

/-! ## The bookkeeping of the object -/

/-- What an apply does to the bookkeeping of its object's row. Versions are
compared as the `u64` of the wire. -/
inductive ApplyCols (blob : SyncEntryBlob) (now : Int) :
    ApplyEffect → Option SyncCols → Option SyncCols → Prop
  | recorded {c : SyncCols} : Concurrent c blob →
      ApplyCols blob now .recorded (some c) (some c.conflicted)
  | keptLocal {c : SyncCols} : ¬ Concurrent c blob → blob.syncVersion ≤ c.syncVersion.toUInt64 →
      ApplyCols blob now .keptLocal (some c) (some c)
  | tombstoned {c : SyncCols} : ¬ Concurrent c blob → c.syncVersion.toUInt64 ≤ blob.syncVersion →
      blob.isTombstone = true →
      ApplyCols blob now .tombstoned (some c) (some (c.tombstoned blob.syncVersion now))
  | updated {c : SyncCols} : ¬ Concurrent c blob → c.syncVersion.toUInt64 ≤ blob.syncVersion →
      ApplyCols blob now .updated (some c) (some (.applied blob.syncVersion now))
  | inserted : 0 < blob.syncVersion →
      ApplyCols blob now .inserted none (some (.applied blob.syncVersion now))
  | skipped : blob.isTombstone = true ∨ blob.syncVersion = 0 → ApplyCols blob now .skipped none none

theorem le_of_resolve_keepLocal (h : resolve v modified blob = .keepLocal) :
    blob.syncVersion ≤ v := by
  unfold resolve at h
  split at h
  · cases h
  · next hlt => exact UInt64.not_lt.mp hlt

theorem le_of_resolve_acceptRemote (h : resolve v modified blob = .acceptRemote) :
    v ≤ blob.syncVersion := by
  unfold resolve at h
  split at h
  · next hlt => exact UInt64.le_of_lt hlt
  split at h
  · next heq => rw [heq]; exact UInt64.le_refl v
  · cases h

section

variable (h : ApplyStep E now db blob effect db')

include h

theorem ApplyStep.cols_self : ApplyCols blob now effect (db.cols blob.entryType blob.syncId)
      (db'.cols blob.entryType blob.syncId) := by
  have hcols : ∀ {r : SyncRow (Content blob.entryType)}, blob.target db = some r →
      db.cols blob.entryType blob.syncId = some r.sync := by
    intro r hr
    unfold SyncEntryBlob.target at hr
    rw [cols, hr]
    rfl
  have hnone : blob.target db = none → db.cols blob.entryType blob.syncId = none := by
    intro hr
    unfold SyncEntryBlob.target at hr
    rw [cols, hr]
    rfl
  cases h with
  | recorded hr hcon =>
    rw [cols_updateCols, if_pos ⟨rfl, rfl⟩, cols_recordConflict, hcols hr]
    exact .recorded hcon
  | keptLocal hr hcon hkeep =>
    rw [hcols hr]
    exact .keptLocal hcon (le_of_resolve_keepLocal hkeep)
  | tombstoned hr hcon hacc htomb =>
    rw [cols_updateCols, if_pos ⟨rfl, rfl⟩, hcols hr]
    exact .tombstoned hcon (le_of_resolve_acceptRemote hacc) htomb
  | updated hr hcon hacc _ _ =>
    rw [cols_putRow, if_pos ⟨rfl, rfl⟩, hcols hr]
    exact .updated hcon (le_of_resolve_acceptRemote hacc)
  | inserted hr _ hpos _ =>
    rw [cols_putRow, if_pos ⟨rfl, rfl⟩, hnone hr]
    exact .inserted hpos
  | skipped hr hskip =>
    rw [hnone hr]
    exact .skipped hskip

/-- The effects that write the remote version into the row. -/
def ApplyEffect.writes : ApplyEffect → Bool
  | tombstoned => true
  | updated => true
  | inserted => true
  | recorded => false
  | keptLocal => false
  | skipped => false

/-- An acknowledged version is the one that was there, or the version of the blob
that was written. -/
theorem ApplyStep.acked {id : Uuid} {c : SyncCols} (hc : db'.cols t id = some c) :
    (∃ c₀, db.cols t id = some c₀ ∧ c₀.syncAckedVersion = c.syncAckedVersion) ∨
      (effect.writes = true ∧ blob.entryType = t ∧ blob.syncId = id ∧
        c.syncAckedVersion = blob.syncVersion.toInt64) := by
  by_cases hobj : t = blob.entryType ∧ id = blob.syncId
  · obtain ⟨rfl, rfl⟩ := hobj
    have hcols := h.cols_self
    rw [hc] at hcols
    generalize hold : db.cols blob.entryType blob.syncId = old at hcols
    cases hcols with
    | recorded _ => exact .inl ⟨_, rfl, rfl⟩
    | keptLocal _ _ => exact .inl ⟨_, rfl, rfl⟩
    | tombstoned _ _ _ => exact .inr ⟨rfl, rfl, rfl, rfl⟩
    | updated _ _ => exact .inr ⟨rfl, rfl, rfl, rfl⟩
    | inserted _ => exact .inr ⟨rfl, rfl, rfl, rfl⟩
  · rw [h.cols_of_ne hobj] at hc
    exact .inl ⟨c, hc, rfl⟩

theorem ApplyStep.conflicts {id r} (hr : db'.syncConflicts.get? id = some r) :
    db.syncConflicts.get? id = some r ∨ (id = blob.syncId ∧ r = conflictRow blob now) := by
  by_cases hobj : id = blob.syncId
  · subst hobj
    cases h with
    | recorded _ _ =>
      rw [syncConflicts_updateCols] at hr
      change (db.syncConflicts.upsert blob.syncId _ _).get? blob.syncId = some r at hr
      rw [Table.get?_upsert, if_pos rfl] at hr
      refine .inr ⟨rfl, ?_⟩
      cases hold : db.syncConflicts.get? blob.syncId with
      | none => rw [hold] at hr; exact (Option.some.inj hr).symm
      | some r₀ => rw [hold] at hr; exact (Option.some.inj hr).symm
    | keptLocal _ _ _ => exact .inl hr
    | tombstoned _ _ _ _ => exact .inl (by rwa [syncConflicts_updateCols] at hr)
    | updated _ _ _ _ _ => exact .inl (by rwa [syncConflicts_putRow] at hr)
    | inserted _ _ _ _ => exact .inl (by rwa [syncConflicts_putRow] at hr)
    | skipped _ _ => exact .inl hr
  · rw [h.conflicts_of_ne hobj] at hr
    exact .inl hr

end

theorem prepare_mono {p}
    (hcred : ∀ id, (db.row .credential id).isSome → (db'.row .credential id).isSome)
    (h : prepare E db blob t = .ok p) : prepare E db' blob t = .ok p := by
  cases t with
  | credential => exact h
  | sshKey => exact h
  | totpSecret =>
    obtain ⟨payload, hopen, h⟩ := bind_ok h
    obtain ⟨secret, hsecret, h⟩ := bind_ok h
    obtain ⟨_, hs₁, h⟩ := bind_ok h
    obtain ⟨_, hs₂, h⟩ := bind_ok h
    obtain ⟨_, hs₃, h⟩ := bind_ok h
    split at h
    · cases h
    rename_i parent hparent
    have hfound : payload.parentCredentialSyncId.filter
        (fun parent => (db'.row .credential parent).isSome) = some parent := by
      obtain ⟨hsome, hrow⟩ := Option.filter_eq_some_iff.mp hparent
      exact Option.filter_eq_some_iff.mpr ⟨hsome, hcred parent hrow⟩
    change prepareTotp E db' blob = _
    unfold prepareTotp
    rw [hopen]
    change (resolveSyncSecret E .totpSecret payload.secret payload.secretEncrypted
      payload.legacyNonce payload.legacyAuthTag >>= _) = _
    rw [hsecret]
    change (sealObjectField maxSecretPlaintext secret >>= _) = _
    rw [hs₁]
    rw [hs₂]
    rw [hs₃, hfound]
    exact h

end SentinelPass
