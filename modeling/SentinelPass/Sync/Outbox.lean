import SentinelPass.Lib.Words
import SentinelPass.Sync.Payload

/-!
# The outbox

`sync/change_tracker.rs` and `sync/outbox.rs`: collecting the pending rows as
mutations, and the bookkeeping of a push response.
-/

namespace SentinelPass

open Lib List LocalDb

variable {E : Env} {nonces : Nonces} {device : Uuid} {db : LocalDb} {t : SyncEntryType}

/-! ## Collecting pending rows -/

/-- The nonces drawn for one collection. -/
structure Nonces where
  (payload legacy : SyncEntryType → Uuid → Bytes)

def credentialPayload (r : SyncRow Credential) : CredentialPayload where
  title := r.content.title
  username := r.content.username
  password := r.content.password
  credentialType := r.content.credentialType
  url := r.content.url
  notes := r.content.notes
  favorite := r.content.favorite
  domains := r.content.domains
  createdAt := r.createdAt
  modifiedAt := r.content.modifiedAt

/-- The payload of an SSH key, with the legacy fields older peers require. -/
def sshKeyPayload (E : Env) (nonce : Bytes) (r : SyncRow SshKey) : SshKeyPayload :=
  let legacy := E.legacySeal nonce r.content.privateKey
  { name := r.content.name
    comment := r.content.comment
    keyType := r.content.keyType
    keySize := r.content.keySize
    publicKey := r.content.publicKey
    privateKey := r.content.privateKey
    privateKeyEncrypted := some legacy.ciphertext
    legacyNonce := some legacy.nonce
    legacyAuthTag := some legacy.authTag
    fingerprint := r.content.fingerprint
    createdAt := r.createdAt
    modifiedAt := r.content.modifiedAt }

/-- `row.get::<_, u8>` and `row.get::<_, u32>`: an `INTEGER` column read at a
narrower type. -/
def columnBelow (bound : Nat) (index : Nat) (v : Int64) : Except PmError Nat :=
  if 0 ≤ v.toInt ∧ v.toInt < bound then .ok v.toInt.toNat
  else
    .error (.database ("SQLite error: Integer " ++ toString v.toInt ++
      " out of range at index " ++ toString index))

/-- The payload of a TOTP secret. The parent is found by a `LEFT JOIN`. -/
def totpPayload (E : Env) (nonce : Bytes) (db : LocalDb) (r : SyncRow Totp) :
    Except PmError TotpPayload := do
  let digits ← columnBelow 256 10 r.content.digits
  let period ← columnBelow (2 ^ 32) 11 r.content.period
  let legacy := E.legacySeal nonce r.content.secret
  .ok
    { secret := r.content.secret
      secretEncrypted := some legacy.ciphertext
      legacyNonce := some legacy.nonce
      legacyAuthTag := some legacy.authTag
      algorithm := r.content.algorithm
      digits := UInt8.ofNat digits
      period := UInt32.ofNat period
      issuer := r.content.issuer
      accountName := r.content.accountName
      createdAt := r.createdAt
      parentCredentialSyncId :=
        if (db.row .credential r.content.entry).isSome then some r.content.entry else none }

def rowPayload (E : Env) (nonces : Nonces) (db : LocalDb) :
    (t : SyncEntryType) → Uuid → SyncRow (Content t) → Except PmError (Payload t)
  | .credential, _, r => .ok (credentialPayload r)
  | .sshKey, id, r => .ok (sshKeyPayload E (nonces.legacy .sshKey id) r)
  | .totpSecret, id, r => totpPayload E (nonces.legacy .totpSecret id) db r

/-- The blob's `modified_at`; TOTP rows have none and use `created_at`. -/
def rowModified : (t : SyncEntryType) → SyncRow (Content t) → Int
  | .credential, r => r.content.modifiedAt
  | .sshKey, r => r.content.modifiedAt
  | .totpSecret, r => r.createdAt

/-- The blob of one pending row. The columns are read before the tombstone
branch, so a TOTP row that cannot be read fails even when it is deleted. -/
def pendingBlob (E : Env) (nonces : Nonces) (device : Uuid) (db : LocalDb) (t : SyncEntryType)
    (p : Uuid × SyncRow (Content t)) : Except PmError SyncEntryBlob := do
  let payload ← rowPayload E nonces db t p.1 p.2
  let nonce := nonces.payload t p.1
  .ok
    { syncId := p.1
      entryType := t
      syncVersion := p.2.sync.syncVersion.toUInt64
      modifiedAt := rowModified t p.2
      encryptedPayload :=
        if p.2.sync.isDeleted then E.sealTombstone nonce else E.sealPayload t nonce payload
      isTombstone := p.2.sync.isDeleted
      originDeviceId := device }

/-- `SELECT … FROM <table> WHERE sync_state = 'pending'`, one blob a row. -/
def collectPendingBlobs (E : Env) (nonces : Nonces) (device : Uuid) (db : LocalDb)
    (t : SyncEntryType) : Except PmError (List SyncEntryBlob) :=
  ((db.table t).rows.filter fun p => p.2.sync.syncState = .pending).mapM
    (pendingBlob E nonces device db t)

def collectPendingCredentialBlobs (E : Env) (nonces : Nonces) (device : Uuid) (db : LocalDb) :
    Except PmError (List SyncEntryBlob) :=
  collectPendingBlobs E nonces device db .credential

def collectPendingSshKeyBlobs (E : Env) (nonces : Nonces) (device : Uuid) (db : LocalDb) :
    Except PmError (List SyncEntryBlob) :=
  collectPendingBlobs E nonces device db .sshKey

def collectPendingTotpBlobs (E : Env) (nonces : Nonces) (device : Uuid) (db : LocalDb) :
    Except PmError (List SyncEntryBlob) :=
  collectPendingBlobs E nonces device db .totpSecret

/-- An acknowledged version as a CAS expectation: `.max(0) as u64`. -/
def ackedExpectation (acked : Int64) : UInt64 := if acked < 0 then 0 else acked.toUInt64

/-- `acked_version_for`: `0` for an object without a row. -/
def ackedVersionFor (db : LocalDb) (t : SyncEntryType) (id : Uuid) : UInt64 :=
  ackedExpectation (((db.cols t id).map (·.syncAckedVersion)).getD 0)

/-- What `collect_pending_mutations` builds a mutation from. -/
def mutationInput (db : LocalDb) (device vault : Uuid) (keyEpoch : Int64) (blob : SyncEntryBlob) :
    MutationInput where
  vaultId := vault
  objectId := blob.syncId
  objectType := blob.entryType
  expectedVersion := ackedVersionFor db blob.entryType blob.syncId
  resultingVersion := blob.syncVersion
  keyEpoch := keyEpoch
  originDeviceId := device
  isTombstone := blob.isTombstone
  encryptedPayload := blob.encryptedPayload

/-- A blob becomes a mutation when it is above the acknowledged version. -/
def pendingMutation (E : Env) (db : LocalDb) (device vault : Uuid) (keyEpoch : Int64)
    (blob : SyncEntryBlob) : Option MutationV2 :=
  if blob.syncVersion ≤ ackedVersionFor db blob.entryType blob.syncId then none
  else some (buildMutation E.crypto E.macKey (mutationInput db device vault keyEpoch blob))

def collectPendingMutations (E : Env) (nonces : Nonces) (device vault : Uuid) (keyEpoch : Int64)
    (db : LocalDb) : Except PmError (List MutationV2) := do
  let credentials ← collectPendingCredentialBlobs E nonces device db
  let sshKeys ← collectPendingSshKeyBlobs E nonces device db
  let totps ← collectPendingTotpBlobs E nonces device db
  .ok ((credentials ++ sshKeys ++ totps).filterMap (pendingMutation E db device vault keyEpoch))

theorem mem_collectPendingBlobs {blobs}
    (h : collectPendingBlobs E nonces device db t = .ok blobs) {blob} :
    blob ∈ blobs ↔ ∃ id r, db.row t id = some r ∧ r.sync.syncState = .pending ∧
      pendingBlob E nonces device db t (id, r) = .ok blob := by
  rw [mem_of_mapM_ok h]
  simp only [mem_filter, decide_eq_true_eq, Prod.exists, Table.mem_rows, and_assoc, row]

theorem pendingBlob_ok {id r blob} (h : pendingBlob E nonces device db t (id, r) = .ok blob) :
    blob.syncId = id ∧ blob.entryType = t ∧
      blob.syncVersion = r.sync.syncVersion.toUInt64 ∧ blob.isTombstone = r.sync.isDeleted ∧
      ∃ payload, rowPayload E nonces db t id r = .ok payload ∧ blob.encryptedPayload =
          if r.sync.isDeleted then E.sealTombstone (nonces.payload t id)
          else E.sealPayload t (nonces.payload t id) payload := by
  obtain ⟨payload, hpayload, h⟩ := bind_ok h
  cases h
  exact ⟨rfl, rfl, rfl, rfl, payload, hpayload, rfl⟩

theorem ackedVersionFor_row {id r} (h : db.row t id = some r) :
    ackedVersionFor db t id = ackedExpectation r.sync.syncAckedVersion := by
  simp [ackedVersionFor, cols, h]

/-- The mutation a pending row is pushed as. -/
structure Offers (E : Env) (nonces : Nonces) (device vault : Uuid) (keyEpoch : Int64)
    (db : LocalDb) (t : SyncEntryType) (id : Uuid) (r : SyncRow (Content t)) (m : MutationV2) :
    Prop where
  row : db.row t id = some r
  pending : r.sync.syncState = .pending
  above : ackedExpectation r.sync.syncAckedVersion < r.sync.syncVersion.toUInt64
  built : ∃ blob, pendingBlob E nonces device db t (id, r) = .ok blob ∧
    m = buildMutation E.crypto E.macKey (mutationInput db device vault keyEpoch blob)

section Offers

variable {vault : Uuid} {keyEpoch : Int64} {m : MutationV2} {id : Uuid}

/-- **Collection.** A mutation is collected exactly for a pending row whose
version is above its acknowledged version. -/
theorem mem_collectPendingMutations {ms : List MutationV2}
    (h : collectPendingMutations E nonces device vault keyEpoch db = .ok ms) :
    m ∈ ms ↔ ∃ t id r, Offers E nonces device vault keyEpoch db t id r m := by
  obtain ⟨credentials, hcred, h⟩ := bind_ok h
  obtain ⟨sshKeys, hssh, h⟩ := bind_ok h
  obtain ⟨totps, htotp, h⟩ := bind_ok h
  cases h
  -- one table at a time: a blob of table `t` is turned into `m`
  have htable : ∀ {t : SyncEntryType} {blobs : List SyncEntryBlob},
      collectPendingBlobs E nonces device db t = .ok blobs →
      ((∃ blob ∈ blobs, pendingMutation E db device vault keyEpoch blob = some m) ↔
        ∃ id r, Offers E nonces device vault keyEpoch db t id r m) := by
    intro t blobs hblobs
    constructor
    · rintro ⟨blob, hb, hm⟩
      obtain ⟨id, r, hr, hpend, hblob⟩ := (mem_collectPendingBlobs hblobs).mp hb
      obtain ⟨hid, htype, hver, -, -⟩ := pendingBlob_ok hblob
      unfold pendingMutation at hm
      split at hm
      · cases hm
      rename_i hle
      rw [hid, htype, hver, ackedVersionFor_row hr, UInt64.not_le] at hle
      exact ⟨id, r, hr, hpend, hle, blob, hblob, (Option.some.inj hm).symm⟩
    · rintro ⟨id, r, hr, hpend, habove, blob, hblob, rfl⟩
      refine ⟨blob, (mem_collectPendingBlobs hblobs).mpr ⟨id, r, hr, hpend, hblob⟩, ?_⟩
      obtain ⟨hid, htype, hver, -, -⟩ := pendingBlob_ok hblob
      unfold pendingMutation
      rw [if_neg]
      rw [hid, htype, hver, ackedVersionFor_row hr, UInt64.not_le]
      exact habove
  simp only [mem_filterMap, mem_append, or_and_right, exists_or]
  rw [htable hcred, htable hssh, htable htotp]
  constructor
  · rintro ((h | h) | h)
    · exact ⟨.credential, h⟩
    · exact ⟨.sshKey, h⟩
    · exact ⟨.totpSecret, h⟩
  · rintro ⟨t, h⟩
    cases t with
    | credential => exact .inl (.inl h)
    | sshKey => exact .inl (.inr h)
    | totpSecret => exact .inr h

theorem Offers.fields {t r} (h : Offers E nonces device vault keyEpoch db t id r m) :
    m.objectId = id ∧ m.objectType = t ∧ m.vaultId = vault ∧ m.originDeviceId = device ∧
      m.keyEpoch = keyEpoch ∧ m.isTombstone = r.sync.isDeleted ∧
      m.expectedVersion = ackedExpectation r.sync.syncAckedVersion ∧
      m.resultingVersion = r.sync.syncVersion.toUInt64 ∧
      m.mutationId = mutationIdFor E.crypto vault id r.sync.syncVersion.toUInt64 := by
  obtain ⟨blob, hblob, rfl⟩ := h.built
  obtain ⟨rfl, rfl, hver, htomb, -⟩ := pendingBlob_ok hblob
  refine ⟨rfl, rfl, rfl, rfl, rfl, htomb, ackedVersionFor_row h.row, hver, ?_⟩
  rw [← hver]
  rfl

/-- The payload of a collected mutation: the tombstone document for a deleted
row, the sealed content for a live one. -/
theorem Offers.payload {t : SyncEntryType} {r : SyncRow (Content t)}
    (h : Offers E nonces device vault keyEpoch db t id r m) :
    ∃ payload, rowPayload E nonces db t id r = .ok payload ∧ m.encryptedPayload =
        if r.sync.isDeleted then E.sealTombstone (nonces.payload t id)
        else E.sealPayload t (nonces.payload t id) payload := by
  obtain ⟨blob, hblob, rfl⟩ := h.built
  obtain ⟨-, -, -, -, hpayload⟩ := pendingBlob_ok hblob
  exact hpayload

end Offers

/-- The stored numbers of a TOTP row fit the types they are read at. -/
def Totp.Readable (c : Totp) : Prop :=
  (0 ≤ c.digits.toInt ∧ c.digits.toInt < 256) ∧ (0 ≤ c.period.toInt ∧ c.period.toInt < 2 ^ 32)

instance (c : Totp) : Decidable c.Readable := by
  unfold Totp.Readable
  infer_instance

theorem columnBelow_isOk {bound index v} :
    (∃ n, columnBelow bound index v = .ok n) ↔ 0 ≤ v.toInt ∧ v.toInt < bound := by
  unfold columnBelow
  by_cases hin : 0 ≤ v.toInt ∧ v.toInt < bound
  · rw [if_pos hin]
    exact ⟨fun _ => hin, fun _ => ⟨_, rfl⟩⟩
  · rw [if_neg hin]
    exact ⟨fun h => (h.elim fun _ hn => nomatch hn), fun h => absurd h hin⟩

theorem totpPayload_isOk {nonce r} :
    (∃ p, totpPayload E nonce db r = .ok p) ↔ r.content.Readable := by
  constructor
  · rintro ⟨p, h⟩
    obtain ⟨digits, hd, h⟩ := bind_ok h
    obtain ⟨period, hp, -⟩ := bind_ok h
    exact ⟨columnBelow_isOk.mp ⟨digits, hd⟩, by simpa using columnBelow_isOk.mp ⟨period, hp⟩⟩
  · rintro ⟨hdigits, hperiod⟩
    have hd : ∃ n, columnBelow 256 10 r.content.digits = .ok n := columnBelow_isOk.mpr hdigits
    have hp : ∃ n, columnBelow (2 ^ 32) 11 r.content.period = .ok n :=
      columnBelow_isOk.mpr (by simpa using hperiod)
    obtain ⟨digits, hd⟩ := hd
    obtain ⟨period, hp⟩ := hp
    unfold totpPayload
    rw [hd, hp]
    exact ⟨_, rfl⟩

theorem pendingBlob_isOk {id r} :
    (∃ blob, pendingBlob E nonces device db t (id, r) = .ok blob) ↔
      ∃ payload, rowPayload E nonces db t id r = .ok payload := by
  constructor
  · rintro ⟨blob, h⟩
    obtain ⟨payload, hpayload, -⟩ := bind_ok h
    exact ⟨payload, hpayload⟩
  · rintro ⟨payload, h⟩
    unfold pendingBlob
    rw [h]
    exact ⟨_, rfl⟩

/-- Every pending TOTP row can be read at the collector's column types. -/
def LocalDb.TotpReadable (db : LocalDb) : Prop :=
  ∀ id r, db.row .totpSecret id = some r → r.sync.syncState = .pending → r.content.Readable

/-- Collection fails exactly on a pending TOTP row whose stored numbers do not fit the wire. -/
theorem collectPendingMutations_isOk {vault : Uuid} {keyEpoch : Int64} :
    (∃ ms, collectPendingMutations E nonces device vault keyEpoch db = .ok ms) ↔
      db.TotpReadable := by
  have htable : ∀ t : SyncEntryType,
      (∃ blobs, collectPendingBlobs E nonces device db t = .ok blobs) ↔
        ∀ id r, db.row t id = some r → r.sync.syncState = .pending →
          ∃ payload, rowPayload E nonces db t id r = .ok payload := by
    intro t
    rw [collectPendingBlobs, mapM_isOk]
    simp only [mem_filter, decide_eq_true_eq, Prod.forall, Table.mem_rows, and_imp,
      pendingBlob_isOk, row]
  constructor
  · rintro ⟨ms, h⟩
    obtain ⟨credentials, -, h⟩ := bind_ok h
    obtain ⟨sshKeys, -, h⟩ := bind_ok h
    obtain ⟨totps, htotp, -⟩ := bind_ok h
    intro id r hr hpend
    exact totpPayload_isOk.mp ((htable .totpSecret).mp ⟨totps, htotp⟩ id r hr hpend)
  · intro hreadable
    obtain ⟨credentials, hcred⟩ :=
      (htable .credential).mpr fun _ r _ _ => ⟨credentialPayload r, rfl⟩
    obtain ⟨sshKeys, hssh⟩ := (htable .sshKey).mpr fun _ _ _ _ => ⟨_, rfl⟩
    obtain ⟨totps, htotp⟩ := (htable .totpSecret).mpr fun id r hr hpend =>
      totpPayload_isOk.mpr (hreadable id r hr hpend)
    unfold collectPendingMutations collectPendingCredentialBlobs collectPendingSshKeyBlobs
      collectPendingTotpBlobs
    rw [hcred, hssh, htotp]
    exact ⟨_, rfl⟩

/-- A pending row that can be read is offered if it is above its acknowledged version. -/
theorem exists_offers {vault id : Uuid} {keyEpoch : Int64} {ms : List MutationV2}
    (h : collectPendingMutations E nonces device vault keyEpoch db = .ok ms)
    {r : SyncRow (Content t)} (hr : db.row t id = some r) (hpend : r.sync.syncState = .pending)
    (habove : ackedExpectation r.sync.syncAckedVersion < r.sync.syncVersion.toUInt64) :
    ∃ m ∈ ms, Offers E nonces device vault keyEpoch db t id r m := by
  have hread := collectPendingMutations_isOk.mp ⟨ms, h⟩
  obtain ⟨blob, hblob⟩ : ∃ blob, pendingBlob E nonces device db t (id, r) = .ok blob := by
    rw [pendingBlob_isOk]
    cases t with
    | credential => exact ⟨_, rfl⟩
    | sshKey => exact ⟨_, rfl⟩
    | totpSecret => exact totpPayload_isOk.mpr (hread id r hr hpend)
  have hoffers : Offers E nonces device vault keyEpoch db t id r _ :=
    ⟨hr, hpend, habove, blob, hblob, rfl⟩
  exact ⟨_, (mem_collectPendingMutations h).mpr ⟨t, id, r, hoffers⟩, hoffers⟩

/-! ## Acknowledgements -/

/-- What one result means for the row of the mutation it answers. -/
inductive AckEffect
  | suspicious
  | applied
  | conflicted
  | rebased (current : Int64)
  | rejected
deriving DecidableEq

/-- The case distinction of `apply_push_acks`. -/
def ackEffect (m : MutationV2) : MutationOutcome → AckEffect
  | .applied resulting _ => if resulting = m.resultingVersion then .applied else .suspicious
  | .rejected (.versionConflict c) =>
    if m.resultingVersion.toInt64 ≤ c.toInt64 then .conflicted else .rebased c.toInt64
  | .rejected (.staleEpoch _) => .rejected
  | .rejected .malformed => .rejected

/-- `sync_state = 'synced', sync_acked_version = R`, whatever the row's version. -/
def SyncCols.acked (resulting : UInt64) (now : Int) (c : SyncCols) : SyncCols :=
  { c with
    syncState := .synced, syncAckedVersion := resulting.toInt64, lastSyncedAt := some now }

/-- `sync_state = 'conflict'`. -/
def SyncCols.conflicted (c : SyncCols) : SyncCols := { c with syncState := .conflict }

/-- Learn the relay's version and move past the attempted one. -/
def SyncCols.rebased (current sent : Int64) (c : SyncCols) : SyncCols :=
  { c with
    syncState := .pending
    syncAckedVersion := max c.syncAckedVersion current
    syncVersion := max c.syncVersion (sent + 1) }

/-- `DELETE FROM sync_conflicts WHERE object_id = ? AND remote_version <= ?`. -/
def LocalDb.dropStaleConflict (db : LocalDb) (id : Uuid) (version : Int64) : LocalDb :=
  db.setConflicts (db.syncConflicts.filter fun k r => ¬ (k = id ∧ r.remoteVersion ≤ version))

def AckEffect.run (db : LocalDb) (m : MutationV2) (now : Int) : AckEffect → LocalDb
  | suspicious => db
  | applied =>
    (db.updateCols m.objectType m.objectId (.acked m.resultingVersion now)).dropStaleConflict
      m.objectId m.resultingVersion.toInt64
  | conflicted => db.updateCols m.objectType m.objectId .conflicted
  | rebased current =>
    db.updateCols m.objectType m.objectId (.rebased current m.resultingVersion.toInt64)
  | rejected => db

structure AckSummary where
  (applied conflicts rejected suspiciousAcks : Nat)

def AckSummary.count (s : AckSummary) : AckEffect → AckSummary
  | .suspicious => { s with suspiciousAcks := s.suspiciousAcks + 1 }
  | .applied => { s with applied := s.applied + 1 }
  | .conflicted => { s with conflicts := s.conflicts + 1 }
  | .rebased _ => { s with conflicts := s.conflicts + 1 }
  | .rejected => { s with rejected := s.rejected + 1 }

/-- The mutation a result answers: the first one sent under its id. -/
def routed (mutations : List MutationV2) (result : MutationResult) : Option MutationV2 :=
  mutations.find? fun m => m.mutationId = result.mutationId

theorem routed_eq_some {mutations result m} (h : routed mutations result = some m) :
    m ∈ mutations ∧ m.mutationId = result.mutationId := by
  have hfound := find?_some h
  exact ⟨mem_of_find?_eq_some h, of_decide_eq_true hfound⟩

theorem ackEffect_applied {m outcome} (h : ackEffect m outcome = .applied) :
    ∃ seq, outcome = .applied m.resultingVersion seq := by
  unfold ackEffect at h
  split at h
  · next resulting seq =>
    split at h
    · next hver => exact ⟨seq, by rw [hver]⟩
    exact absurd h nofun
  · split at h
    · exact absurd h nofun
    exact absurd h nofun
  · exact absurd h nofun
  · exact absurd h nofun

/-- One turn of the loop of `apply_push_acks`. -/
def ackOne (mutations : List MutationV2) (now : Int) (db : LocalDb) (result : MutationResult) :
    LocalDb :=
  match routed mutations result with
  | none => db
  | some m => (ackEffect m result.outcome).run db m now

def ackSummary (mutations : List MutationV2) (results : List MutationResult) : AckSummary :=
  results.foldl (fun s result =>
    match routed mutations result with
    | none => s
    | some m => s.count (ackEffect m result.outcome)) ⟨0, 0, 0, 0⟩

/-- `apply_push_acks`: every result in order, then the push cursor. -/
def applyPushAcks (db : LocalDb) (mutations : List MutationV2) (results : List MutationResult)
    (serverCursor : UInt64) (now : Int) : LocalDb × AckSummary :=
  let acked := results.foldl (ackOne mutations now) db
  (acked.setConfig { acked.config with lastPushSequence := serverCursor }.stored,
    ackSummary mutations results)

@[simp] theorem cols_dropStaleConflict (db : LocalDb) (k v t id) :
    (db.dropStaleConflict k v).cols t id = db.cols t id :=
  cols_setConflicts ..

@[simp] theorem row_dropStaleConflict (db : LocalDb) (k v t id) :
    (db.dropStaleConflict k v).row t id = db.row t id :=
  row_setConflicts ..

/-- The columns of the answered row after one branch. -/
def AckEffect.onCols (m : MutationV2) (now : Int) : AckEffect → SyncCols → SyncCols
  | suspicious => id
  | applied => .acked m.resultingVersion now
  | conflicted => .conflicted
  | rebased current => .rebased current m.resultingVersion.toInt64
  | rejected => id

theorem AckEffect.run_cols (db m now) (e : AckEffect) (t id) : (e.run db m now).cols t id =
      if t = m.objectType ∧ id = m.objectId then (db.cols t id).map (e.onCols m now)
      else db.cols t id := by
  cases e <;> simp [run, onCols]

/-- One branch never touches dead letters, configuration or epoch, and only
removes stored conflicts. -/
theorem AckEffect.run_frame (db : LocalDb) (m : MutationV2) (now : Int) (e : AckEffect) :
    (e.run db m now).syncDeadLetter = db.syncDeadLetter ∧
      (e.run db m now).config = db.config ∧ (e.run db m now).keyEpoch = db.keyEpoch ∧
      ∀ k r, (e.run db m now).syncConflicts.get? k = some r → db.syncConflicts.get? k = some r := by
  cases e with
  | applied =>
    refine ⟨syncDeadLetter_updateCols .., config_updateCols .., keyEpoch_updateCols .., ?_⟩
    intro k r h
    have hfilter : ((db.syncConflicts.get? k).filter
        fun r => ¬ (k = m.objectId ∧ r.remoteVersion ≤ m.resultingVersion.toInt64)) = some r := by
      simpa [run, dropStaleConflict, setConflicts] using h
    exact (Option.filter_eq_some_iff.mp hfilter).1
  | suspicious => exact ⟨rfl, rfl, rfl, fun _ _ h => h⟩
  | rejected => exact ⟨rfl, rfl, rfl, fun _ _ h => h⟩
  | conflicted => simp [run]
  | rebased current => simp [run]

end SentinelPass
