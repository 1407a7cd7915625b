import SentinelPass.Lib.Table
import SentinelPass.Sync.Types

/-!
# The local vault database

The tables of the client's SQLite database that sync reads and writes
(`database/schema.rs`): the three synced tables `entries`, `ssh_keys` and
`totp_secrets`, the stored conflicts, the dead letters and the sync
configuration.

A row is named by its `sync_id`, which is unique in its table; the local row
number stands for the same row and is left out. Field columns hold sealed
envelopes; a row here holds what they open to (`Content`). The sync bookkeeping
columns are the same in all three tables (`SyncCols`), so everything about them
is said once, over `LocalDb.table`.
-/

namespace SentinelPass

open Lib

/-- Errors of the client, with the text of their payload. -/
inductive PmError
  | crypto (msg : String)
  | database (msg : String)
  | invalidInput (msg : String)
  | notFound (msg : String)
  | syncDeferred (msg : String)
  | io (msg : String)
deriving DecidableEq

def PmError.display : PmError → String
  | crypto msg => "Crypto error: " ++ msg
  | database msg => "Database error: " ++ msg
  | invalidInput msg => "Invalid input: " ++ msg
  | notFound msg => "Not found: " ++ msg
  | syncDeferred msg => "Sync apply deferred: " ++ msg
  | io msg => "IO error: " ++ msg

/-! ## Contents -/

inductive CredentialType
  | password
  | apiKey
  | passkeyReference
deriving DecidableEq

/-- A domain mapping of an entry. -/
structure DomainPayload where
  domain : String
  isPrimary : Bool

/-- What a row of `entries` says, its domain mappings included. -/
structure Credential where
  (title username password : String)
  credentialType : CredentialType
  (url notes : Option String)
  favorite : Bool
  domains : List DomainPayload
  modifiedAt : Int

/-- What a row of `ssh_keys` says. -/
structure SshKey where
  name : String
  comment : Option String
  keyType : String
  keySize : Option Int64
  (publicKey privateKey fingerprint : String)
  modifiedAt : Int

/-- What a row of `totp_secrets` says. `entry` is the credential it belongs to;
`digits` and `period` are the stored `INTEGER`s. -/
structure Totp where
  entry : Uuid
  (secret algorithm : String)
  (digits period : Int64)
  (issuer accountName : Option String)

/-- The content type of a synced table. -/
abbrev Content : SyncEntryType → Type
  | .credential => Credential
  | .sshKey => SshKey
  | .totpSecret => Totp

/-! ## Rows -/

/-- The `sync_state` column. -/
inductive SyncState
  | synced
  | pending
  | conflict
deriving DecidableEq

/-- The sync bookkeeping columns every synced table has. -/
structure SyncCols where
  (syncVersion syncAckedVersion : Int64)
  syncState : SyncState
  lastSyncedAt : Option Int
  isDeleted : Bool
  deletedAt : Option Int

def SyncCols.default : SyncCols where
  syncVersion := 0
  syncAckedVersion := 0
  syncState := .pending
  lastSyncedAt := none
  isDeleted := false
  deletedAt := none

/-- `sync_version = v, sync_acked_version = v, sync_state = 'synced'`, live: what
an applied remote mutation leaves. -/
def SyncCols.applied (version : UInt64) (now : Int) : SyncCols where
  syncVersion := version.toInt64
  syncAckedVersion := version.toInt64
  syncState := .synced
  lastSyncedAt := some now
  isDeleted := false
  deletedAt := none

/-- A row of a synced table. -/
structure SyncRow (γ : Type) where
  content : γ
  createdAt : Int
  sync : SyncCols

/-- A row of `sync_conflicts`: the peer's side of a concurrent edit. -/
structure ConflictRow where
  objectType : SyncEntryType
  remoteVersion : Int64
  remotePayload : Bytes
  originDeviceId : Uuid
  isTombstone : Bool
  receivedAt : Int

/-- A row of `sync_dead_letter`. -/
structure DeadLetterRow where
  (mutationId objectId : Uuid)
  objectType : SyncEntryType
  reason : String
  receivedAt : Int

/-- The sync configuration, as far as push and pull use it. -/
structure SyncConfig where
  vaultId : Option Uuid
  (lastPushSequence lastPullSequence lineageHighWater : UInt64)
deriving DecidableEq

/-- `SyncConfig::save` then `SyncConfig::load`: every counter goes through an
`INTEGER` column, and the high-water is read back with `.max(0)`. -/
def SyncConfig.stored (c : SyncConfig) : SyncConfig :=
  { c with
    lineageHighWater := if c.lineageHighWater.toInt64 < 0 then 0 else c.lineageHighWater }

/-- The local database. -/
structure LocalDb where
  entries : Table Uuid (SyncRow Credential)
  sshKeys : Table Uuid (SyncRow SshKey)
  totpSecrets : Table Uuid (SyncRow Totp)
  syncConflicts : Table Uuid ConflictRow
  syncDeadLetter : Table Int64 DeadLetterRow
  config : SyncConfig
  keyEpoch : Int64

namespace LocalDb

/-- The table of a type (`table_for`). -/
def table (db : LocalDb) : (t : SyncEntryType) → Table Uuid (SyncRow (Content t))
  | .credential => db.entries
  | .sshKey => db.sshKeys
  | .totpSecret => db.totpSecrets

def setTable (db : LocalDb) : (t : SyncEntryType) → Table Uuid (SyncRow (Content t)) → LocalDb
  | .credential, rows => { db with entries := rows }
  | .sshKey, rows => { db with sshKeys := rows }
  | .totpSecret, rows => { db with totpSecrets := rows }

variable (db : LocalDb)

@[simp] theorem table_setTable_self (t rows) : (db.setTable t rows).table t = rows := by
  cases t <;> rfl

theorem table_setTable_of_ne {t u} (h : u ≠ t) (rows) :
    (db.setTable t rows).table u = db.table u := by
  cases t <;> cases u <;> first | exact absurd rfl h | rfl

section

variable (t : SyncEntryType) (rows : Table Uuid (SyncRow (Content t)))

include t rows

@[simp] theorem syncConflicts_setTable : (db.setTable t rows).syncConflicts = db.syncConflicts := by
  cases t <;> rfl

@[simp] theorem syncDeadLetter_setTable : (db.setTable t rows).syncDeadLetter = db.syncDeadLetter :=
    by
  cases t <;> rfl

@[simp] theorem config_setTable : (db.setTable t rows).config = db.config := by
  cases t <;> rfl

@[simp] theorem keyEpoch_setTable : (db.setTable t rows).keyEpoch = db.keyEpoch := by
  cases t <;> rfl

end

def row (t : SyncEntryType) (id : Uuid) : Option (SyncRow (Content t)) := (db.table t).get? id

def cols (t : SyncEntryType) (id : Uuid) : Option SyncCols := (db.row t id).map (·.sync)

/-- `UPDATE <table> SET … WHERE sync_id = ?` on the bookkeeping columns. -/
def updateCols (t : SyncEntryType) (id : Uuid) (f : SyncCols → SyncCols) : LocalDb :=
  db.setTable t ((db.table t).update id fun r => { r with sync := f r.sync })

theorem row_updateCols (t u id k f) : (db.updateCols t id f).row u k =
      if u = t ∧ k = id then (db.row u k).map fun r => { r with sync := f r.sync }
      else db.row u k := by
  unfold row updateCols
  by_cases hu : u = t
  · subst hu
    by_cases hk : k = id
    · simp [hk]
    · simp [hk]
  · rw [table_setTable_of_ne db hu, if_neg fun h => hu h.1]

@[simp] theorem cols_updateCols (t u id k f) : (db.updateCols t id f).cols u k =
      if u = t ∧ k = id then (db.cols u k).map f else db.cols u k := by
  unfold cols
  rw [row_updateCols]
  split
  · simp [Function.comp_def]
  · rfl

section

variable (t : SyncEntryType) (id : Uuid) (f : SyncCols → SyncCols)

include t id f

@[simp] theorem syncConflicts_updateCols :
    (db.updateCols t id f).syncConflicts = db.syncConflicts :=
  syncConflicts_setTable ..

@[simp] theorem syncDeadLetter_updateCols :
    (db.updateCols t id f).syncDeadLetter = db.syncDeadLetter :=
  syncDeadLetter_setTable ..

@[simp] theorem config_updateCols : (db.updateCols t id f).config = db.config :=
  config_setTable ..

@[simp] theorem keyEpoch_updateCols : (db.updateCols t id f).keyEpoch = db.keyEpoch :=
  keyEpoch_setTable ..

end

/-- Write a whole row: in place if the object has one, at the end if not. -/
def putRow (t : SyncEntryType) (id : Uuid) (r : SyncRow (Content t)) : LocalDb :=
  db.setTable t ((db.table t).upsert id r fun _ => r)

theorem row_putRow_self (t id r) : (db.putRow t id r).row t id = some r := by
  unfold row putRow
  rw [table_setTable_self, Table.get?_upsert, if_pos rfl]
  cases (db.table t).get? id <;> rfl

theorem row_putRow_of_ne {t u id k} (h : ¬ (u = t ∧ k = id)) (r) :
    (db.putRow t id r).row u k = db.row u k := by
  unfold row putRow
  by_cases hu : u = t
  · subst hu
    rw [table_setTable_self, Table.get?_upsert, if_neg fun hk => h ⟨rfl, hk⟩]
  · rw [table_setTable_of_ne db hu]

@[simp] theorem cols_putRow (t u id k r) :
    (db.putRow t id r).cols u k = if u = t ∧ k = id then some r.sync else db.cols u k := by
  unfold cols
  by_cases h : u = t ∧ k = id
  · obtain ⟨rfl, rfl⟩ := h
    rw [row_putRow_self, if_pos ⟨rfl, rfl⟩]
    rfl
  · rw [row_putRow_of_ne db h, if_neg h]

section

variable (t : SyncEntryType) (id : Uuid) (r : SyncRow (Content t))

include t id r

@[simp] theorem syncConflicts_putRow : (db.putRow t id r).syncConflicts = db.syncConflicts :=
  syncConflicts_setTable ..

@[simp] theorem syncDeadLetter_putRow : (db.putRow t id r).syncDeadLetter = db.syncDeadLetter :=
  syncDeadLetter_setTable ..

@[simp] theorem config_putRow : (db.putRow t id r).config = db.config :=
  config_setTable ..

@[simp] theorem keyEpoch_putRow : (db.putRow t id r).keyEpoch = db.keyEpoch :=
  keyEpoch_setTable ..

end

def setConflicts (conflicts : Table Uuid ConflictRow) : LocalDb :=
  { db with syncConflicts := conflicts }

def setDeadLetter (letters : Table Int64 DeadLetterRow) : LocalDb :=
  { db with syncDeadLetter := letters }

def setConfig (config : SyncConfig) : LocalDb := { db with config := config }

@[simp] theorem table_setConflicts (conflicts t) :
    (db.setConflicts conflicts).table t = db.table t := by
  cases t <;> rfl

@[simp] theorem table_setDeadLetter (letters t) :
    (db.setDeadLetter letters).table t = db.table t := by
  cases t <;> rfl

@[simp] theorem table_setConfig (config t) : (db.setConfig config).table t = db.table t := by
  cases t <;> rfl

theorem row_congr {db db' : LocalDb} (h : ∀ t, db'.table t = db.table t) (t id) :
    db'.row t id = db.row t id := by
  unfold row
  rw [h t]

theorem cols_congr {db db' : LocalDb} (h : ∀ t, db'.table t = db.table t) (t id) :
    db'.cols t id = db.cols t id := by
  unfold cols
  rw [row_congr h]

@[simp] theorem row_setConflicts (conflicts t id) :
    (db.setConflicts conflicts).row t id = db.row t id :=
  row_congr (db.table_setConflicts conflicts) t id

@[simp] theorem row_setConfig (config t id) : (db.setConfig config).row t id = db.row t id :=
  row_congr (db.table_setConfig config) t id

@[simp] theorem cols_setConflicts (conflicts t id) :
    (db.setConflicts conflicts).cols t id = db.cols t id :=
  cols_congr (db.table_setConflicts conflicts) t id

@[simp] theorem cols_setConfig (config t id) : (db.setConfig config).cols t id = db.cols t id :=
  cols_congr (db.table_setConfig config) t id

/-- A vault that has never been written, with a given sync configuration. -/
def fresh (vault : Option Uuid) (keyEpoch : Int64) : LocalDb where
  entries := .empty
  sshKeys := .empty
  totpSecrets := .empty
  syncConflicts := .empty
  syncDeadLetter := .empty
  config :=
    { vaultId := vault, lastPushSequence := 0, lastPullSequence := 0, lineageHighWater := 0 }
  keyEpoch := keyEpoch

@[simp] theorem cols_fresh (vault keyEpoch t id) : (fresh vault keyEpoch).cols t id = none := by
  cases t <;> rfl

end LocalDb

end SentinelPass
