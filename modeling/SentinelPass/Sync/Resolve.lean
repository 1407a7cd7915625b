import SentinelPass.Sync.Pull

/-!
# Resolving a stored conflict

`resolve_sync_conflict` (`vault/sync_ops.rs`) and the two resolutions of
`sync/engine.rs`: keep the local side, re-versioned above the peer's and based on
it, or take the peer's side through the normal apply path.
-/

namespace SentinelPass

open Lib

/-- `u64::saturating_add(1)`. -/
def satSucc (v : UInt64) : UInt64 := if v.toNat = 2 ^ 64 - 1 then v else v + 1

/-- `u64::saturating_sub(1)`. -/
def satPred (v : UInt64) : UInt64 := if v = 0 then 0 else v - 1

def ConflictRow.blob (object : Uuid) (r : ConflictRow) : SyncEntryBlob where
  syncId := object
  entryType := r.objectType
  syncVersion := r.remoteVersion.toUInt64
  modifiedAt := 0
  encryptedPayload := r.remotePayload
  isTombstone := r.isTombstone
  originDeviceId := r.originDeviceId

/-- `DELETE FROM sync_conflicts WHERE object_id = ?`. -/
def LocalDb.dropConflict (db : LocalDb) (object : Uuid) : LocalDb :=
  db.setConflicts (db.syncConflicts.erase object)

/-- Pending again, above the peer's version and based on it. -/
def SyncCols.keptOver (remote : UInt64) (c : SyncCols) : SyncCols :=
  { c with
    syncState := .pending
    syncAckedVersion := max c.syncAckedVersion remote.toInt64
    syncVersion := max c.syncVersion (satSucc remote).toInt64 }

def resolveConflictKeepLocal (db : LocalDb) (object : Uuid) (t : SyncEntryType)
    (remote : UInt64) : LocalDb :=
  (db.updateCols t object (.keptOver remote)).dropConflict object

def SyncCols.steppedBelow (remote : UInt64) (c : SyncCols) : SyncCols :=
  { c with syncState := .synced, syncVersion := min c.syncVersion (satPred remote).toInt64 }

/-- `resolve_conflict_take_remote` up to its commit. -/
def takeRemoteBody (E : Env) (now : Int) (db : LocalDb) (blob : SyncEntryBlob) :
    Except PmError LocalDb := do
  let (db', _) ← applyRemoteEntryInTx E now
    (db.updateCols blob.entryType blob.syncId (.steppedBelow blob.syncVersion)) blob
  .ok (db'.dropConflict blob.syncId)

/-- The database after a resolution, the alternative that was durably resolved,
and the answer. -/
structure ResolveResult where
  db : LocalDb
  resolved : Option SyncEntryBlob
  result : Except PmError Unit

def ResolveResult.failed (db : LocalDb) (e : PmError) : ResolveResult := ⟨db, none, .error e⟩

/-- `resolve_conflict_take_remote`, in its guarded transaction. -/
def resolveConflictTakeRemote (E : Env) (now : Int) (guard : Guard) (db : LocalDb)
    (blob : SyncEntryBlob) : ResolveResult :=
  match guard with
  | .refused => .failed db guardRefusal
  | _ =>
    match takeRemoteBody E now db blob with
    | .error e => .failed db e
    | .ok db' =>
      match guard with
      | .committed => ⟨db', some blob, .ok ()⟩
      | .receiptLost => ⟨db', some blob, .error (.io "receipt not published")⟩
      | _ => .failed db (.database "SQLite error: commit failed")

def resolveSyncConflict (E : Env) (now : Int) (guard : Guard) (db : LocalDb) (object : Uuid)
    (takeRemote : Bool) : ResolveResult :=
  match db.syncConflicts.get? object with
  | none => .failed db (.notFound ("no stored conflict for object " ++ object.text))
  | some r =>
    if takeRemote then resolveConflictTakeRemote E now guard db (r.blob object)
    else
      ⟨resolveConflictKeepLocal db object r.objectType r.remoteVersion.toUInt64,
        some (r.blob object), .ok ()⟩

/-- What is resolved is what was recorded. -/
theorem blob_conflictRow {blob : SyncEntryBlob} (hmod : blob.modifiedAt = 0) (now : Int) :
    (conflictRow blob now).blob blob.syncId = blob := by
  cases blob
  simp only at hmod
  simp [conflictRow, ConflictRow.blob, hmod]

theorem cols_dropConflict (db : LocalDb) (object t id) :
    (db.dropConflict object).cols t id = db.cols t id :=
  LocalDb.cols_setConflicts ..

theorem conflicts_dropConflict {db : LocalDb} {object k r}
    (h : (db.dropConflict object).syncConflicts.get? k = some r) :
    db.syncConflicts.get? k = some r := by
  change (db.syncConflicts.erase object).get? k = some r at h
  rw [Table.get?_erase] at h
  split at h
  · cases h
  exact h

/-- What a resolution can do to the database. -/
inductive ResolveStep (E : Env) (now : Int) (db : LocalDb) (object : Uuid) (r : ConflictRow) :
    LocalDb → Prop
  | keptLocal : ResolveStep E now db object r
      (resolveConflictKeepLocal db object r.objectType r.remoteVersion.toUInt64)
  | tookRemote {effect : ApplyEffect} {db' : LocalDb} : ApplyStep E now
        (db.updateCols r.objectType object (.steppedBelow r.remoteVersion.toUInt64))
        (r.blob object) effect db' →
      ResolveStep E now db object r (db'.dropConflict object)

/-- **Inversion of a resolution**: it leaves the database alone, or resolves the
stored alternative. -/
theorem resolveSyncConflict_step (E : Env) (now : Int) (guard : Guard) (db : LocalDb)
    (object : Uuid) (takeRemote : Bool) :
    ((resolveSyncConflict E now guard db object takeRemote).db = db ∧
      (resolveSyncConflict E now guard db object takeRemote).resolved = none) ∨
    ∃ r, db.syncConflicts.get? object = some r ∧
      (resolveSyncConflict E now guard db object takeRemote).resolved = some (r.blob object) ∧
      ResolveStep E now db object r
        (resolveSyncConflict E now guard db object takeRemote).db := by
  unfold resolveSyncConflict
  cases hr : db.syncConflicts.get? object with
  | none => exact .inl ⟨rfl, rfl⟩
  | some r =>
    cases takeRemote with
    | false => exact .inr ⟨r, rfl, rfl, .keptLocal⟩
    | true =>
      dsimp only
      unfold resolveConflictTakeRemote
      cases hbody : takeRemoteBody E now db (r.blob object) with
      | error e =>
        left
        cases guard <;> exact ⟨rfl, rfl⟩
      | ok db' =>
        obtain ⟨⟨db₁, effect⟩, happ, hdone⟩ := bind_ok hbody
        cases hdone
        have hstep := applyRemoteEntryInTx_step happ
        cases guard with
        | refused => exact .inl ⟨rfl, rfl⟩
        | rolledBack => exact .inl ⟨rfl, rfl⟩
        | receiptLost => exact .inr ⟨r, rfl, rfl, .tookRemote hstep⟩
        | committed => exact .inr ⟨r, rfl, rfl, .tookRemote hstep⟩

end SentinelPass
