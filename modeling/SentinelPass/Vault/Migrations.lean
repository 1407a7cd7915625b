import Mathlib.Tactic.IntervalCases
import SentinelPass.Vault.Slots
import SentinelPass.Vault.Db

/-!
# Schema migrations

`database/migrations.rs`: the thirteen steps from schema version 1 to
`CURRENT_SCHEMA_VERSION`, and `run_migrations`, which reads the version once and then
runs every step from there on.

A step is one transaction: it succeeds as a whole or leaves the database as it was. Four
kinds of statements make up the steps:

* `ALTER TABLE … ADD COLUMN`, which fails on a column that is there (`addColumn`), or is
  probed for first (`addMissing`); every row gets the default of the new column;
* `CREATE … IF NOT EXISTS` and `DROP … IF EXISTS` (`createAll`, `dropObject`);
* the data phases: sync ids, the wrapped key, the vault id, the password slot, the
  acknowledged versions;
* the version, last in every step.

What the random functions and the clock return is an argument (`MigrationDraws`), and so
is the decoder of wrapped keys. The columns of a row that no step names are a type `κ`.
-/

namespace SentinelPass

open Lib List

def currentSchemaVersion : Nat := 14

/-! ## The stored database -/

/-- The tables that carry sync columns. -/
inductive SyncTable
  | entries
  | sshKeys
  | totpSecrets
  | domainMappings
deriving DecidableEq

/-- The tables a step adds columns to. -/
inductive AlteredTable
  | synced (t : SyncTable)
  | dbMetadata
  | syncMetadata
deriving DecidableEq

/-- The columns the steps add. -/
inductive ColumnName
  | syncId
  | syncVersion
  | syncState
  | lastSyncedAt
  | isDeleted
  | deletedAt
  | credentialType
  | keyEpoch
  | vaultUuid
  | formatVersion
  | slotRegistryMac
  | domainEnc
  | protocolVersion
  | syncAckedVersion
  | lineageHighWater
deriving DecidableEq

def ColumnName.text : ColumnName → String
  | syncId => "sync_id"
  | syncVersion => "sync_version"
  | syncState => "sync_state"
  | lastSyncedAt => "last_synced_at"
  | isDeleted => "is_deleted"
  | deletedAt => "deleted_at"
  | credentialType => "credential_type"
  | keyEpoch => "key_epoch"
  | vaultUuid => "vault_uuid"
  | formatVersion => "format_version"
  | slotRegistryMac => "slot_registry_mac"
  | domainEnc => "domain_enc"
  | protocolVersion => "protocol_version"
  | syncAckedVersion => "sync_acked_version"
  | lineageHighWater => "lineage_high_water"

/-- A column of a table. -/
abbrev Column := AlteredTable × ColumnName

/-- The tables, indexes and triggers the steps create or drop. -/
inductive SchemaObject
  | syncMetadata
  | syncDevices
  | syncTombstones
  | idxEntriesSyncId
  | idxEntriesSyncState
  | idxSshKeysSyncId
  | idxSshKeysSyncState
  | idxTotpSecretsSyncId
  | idxTotpSecretsSyncState
  | idxSyncTombstonesPushed
  | idxEntriesModifiedAt
  | idxEntriesCreatedAt
  | idxEntriesCredentialType
  | entities
  | entityMemberships
  | secretEqualityIndex
  | entryLifecycle
  | registryState
  | idxEntityMembershipsEntityId
  | idxSecretEqualityIndexUpdated
  | keySlots
  | idxKeySlotsType
  | domainMappingTags
  | idxDomainMappingTagsTag
  | idxDomainMappingTagsRoot
  | idxDomainMappingTagsMapping
  | idxDomainMappingsDomain
  | updateEntryModifiedTimestamp
  | syncDeadLetter
  | syncConflicts
  | custodyObjects
deriving DecidableEq

/-- A row of a table with sync columns. A column the table has not got yet holds
anything: `addColumn` writes the default. `credentialType` belongs to `entries`,
`domainEnc` to `domain_mappings`. -/
structure StoredRow (κ : Type) where
  rowId : Int64
  syncId : Option Uuid
  sync : SyncCols
  credentialType : CredentialType
  domainEnc : Option Bytes
  rest : κ

/-- The rows of the four tables. -/
abbrev StoredRows (κ : Type) := SyncTable → List (StoredRow κ)

/-- The row of `db_metadata`. -/
structure StoredMetadata where
  version : Nat
  (kdfParams wrappedDek dekNonce : Bytes)
  keyEpoch : Int64
  vaultUuid : Option Uuid
  formatVersion : Int64
  slotRegistryMac : Option Bytes

/-- A row of `key_slots`. -/
structure StoredSlot where
  slotUuid : Uuid
  slotType : SlotType
  (kdfParams wrappedDek dekNonce : Bytes)
  keyEpoch : Int64
  createdAt : Int
  revokedAt : Option Int
  formatVersion : Int64

/-- The columns of `sync_metadata` the steps add. -/
structure StoredSyncMetadata where
  (protocolVersion lineageHighWater : Int64)

/-- The database file, at any schema version. -/
structure StoredDb (κ : Type) where
  metadata : StoredMetadata
  columns : List Column
  objects : List SchemaObject
  keySlots : List StoredSlot
  syncMetadata : Option StoredSyncMetadata
  rows : StoredRows κ

namespace StoredDb

variable {κ : Type} (db : StoredDb κ)

/-- `db_metadata.version`. -/
def version : Nat := db.metadata.version

/-- `UPDATE db_metadata SET version = ? WHERE id = 1`. -/
def setVersion (v : Nat) : StoredDb κ := { db with metadata := { db.metadata with version := v } }

/-- `UPDATE <table> SET …`: every row of a table. -/
def mapRows (t : SyncTable) (f : StoredRow κ → StoredRow κ) : StoredDb κ :=
  { db with rows := fun u => if u = t then (db.rows t).map f else db.rows u }

/-- `CREATE … IF NOT EXISTS`, one after another. -/
def createAll (objects : List SchemaObject) : StoredDb κ :=
  { db with
    objects := objects.foldl (fun known o => if o ∈ known then known else known ++ [o]) db.objects }

/-- `DROP … IF EXISTS`. -/
def dropObject (o : SchemaObject) : StoredDb κ :=
  { db with objects := db.objects.filter fun known => known ≠ o }

/-- The default every row gets when a column of a table with sync columns is added. -/
def fillRow : ColumnName → StoredRow κ → StoredRow κ
  | .syncId, r => { r with syncId := none }
  | .syncVersion, r => { r with sync := { r.sync with syncVersion := 0 } }
  | .syncState, r => { r with sync := { r.sync with syncState := .pending } }
  | .lastSyncedAt, r => { r with sync := { r.sync with lastSyncedAt := none } }
  | .isDeleted, r => { r with sync := { r.sync with isDeleted := false } }
  | .deletedAt, r => { r with sync := { r.sync with deletedAt := none } }
  | .syncAckedVersion, r => { r with sync := { r.sync with syncAckedVersion := 0 } }
  | .credentialType, r => { r with credentialType := .password }
  | .domainEnc, r => { r with domainEnc := none }
  | _, r => r

/-- The default a new column of `db_metadata` gets. -/
def fillMetadata : ColumnName → StoredMetadata → StoredMetadata
  | .keyEpoch, m => { m with keyEpoch := 1 }
  | .vaultUuid, m => { m with vaultUuid := none }
  | .formatVersion, m => { m with formatVersion := 1 }
  | .slotRegistryMac, m => { m with slotRegistryMac := none }
  | _, m => m

/-- The default a new column of `sync_metadata` gets. -/
def fillSyncMetadata : ColumnName → StoredSyncMetadata → StoredSyncMetadata
  | .protocolVersion, m => { m with protocolVersion := 0 }
  | .lineageHighWater, m => { m with lineageHighWater := 0 }
  | _, m => m

def fill : Column → StoredDb κ
  | (.synced t, c) => db.mapRows t (fillRow c)
  | (.dbMetadata, c) => { db with metadata := fillMetadata c db.metadata }
  | (.syncMetadata, c) => { db with syncMetadata := db.syncMetadata.map (fillSyncMetadata c) }

/-- The table has one more column, with its default. -/
def withColumn (c : Column) : StoredDb κ :=
  { db with columns := db.columns ++ [c] }.fill c

/-- `ALTER TABLE … ADD COLUMN`. -/
def addColumn (c : Column) : Except PmError (StoredDb κ) :=
  if c ∈ db.columns then
    .error (.database ("SQLite error: duplicate column name: " ++ c.2.text))
  else .ok (db.withColumn c)

/-- `ALTER TABLE … ADD COLUMN` after a look at `pragma_table_info`. -/
def addMissing (c : Column) : StoredDb κ := if c ∈ db.columns then db else db.withColumn c

end StoredDb

/-! ## The steps -/

/-- What the random functions and the clock return to one run of a step. -/
structure MigrationDraws where
  syncId : SyncTable → Int64 → Uuid
  (vaultUuid slotUuid : Uuid)
  now : Int

section Steps

variable {κ : Type} (rewrap : Bytes → Option Bytes) (d : MigrationDraws) (db : StoredDb κ)

/-- The sync columns of the three tables whose rows are synced, and of the mappings. -/
def v2Columns : List Column :=
  let row : List ColumnName :=
    [.syncId, .syncVersion, .syncState, .lastSyncedAt, .isDeleted, .deletedAt]
  row.map (Prod.mk (.synced .entries)) ++ row.map (Prod.mk (.synced .sshKeys)) ++
    row.map (Prod.mk (.synced .totpSecrets)) ++
    [(.synced .domainMappings, .syncId), (.synced .domainMappings, .syncVersion),
      (.synced .domainMappings, .syncState), (.synced .domainMappings, .lastSyncedAt)]

/-- `assign_sync_ids`: a fresh id for every row that has none. -/
def assignSyncIds : StoredDb κ :=
  { db with rows := fun t =>
      (db.rows t).map fun r => { r with syncId := r.syncId <|> some (d.syncId t r.rowId) } }

def migrateV1ToV2 : Except PmError (StoredDb κ) := do
  let altered ← v2Columns.foldlM StoredDb.addColumn db
  let created := altered.createAll
    [.syncMetadata, .syncDevices, .syncTombstones, .idxEntriesSyncId, .idxEntriesSyncState,
      .idxSshKeysSyncId, .idxSshKeysSyncState, .idxTotpSecretsSyncId, .idxTotpSecretsSyncState,
      .idxSyncTombstonesPushed]
  .ok ((assignSyncIds d created).setVersion 2)

def migrateV2ToV3 : Except PmError (StoredDb κ) :=
  .ok ((db.createAll [.idxEntriesModifiedAt, .idxEntriesCreatedAt]).setVersion 3)

def migrateV3ToV4 : Except PmError (StoredDb κ) := do
  let altered ← db.addColumn (.synced .entries, .credentialType)
  .ok ((altered.createAll [.idxEntriesCredentialType]).setVersion 4)

/-- The wrapped key in the current shape, if it can be read. -/
def rewrapDek : StoredDb κ :=
  { db with
    metadata := { db.metadata with
      wrappedDek := (rewrap db.metadata.wrappedDek).getD db.metadata.wrappedDek } }

def migrateV4ToV5 : Except PmError (StoredDb κ) := do
  let altered ← db.addColumn (.dbMetadata, .keyEpoch)
  let created := altered.createAll
    [.entities, .entityMemberships, .secretEqualityIndex, .entryLifecycle, .registryState,
      .idxEntityMembershipsEntityId, .idxSecretEqualityIndexUpdated]
  .ok ((rewrapDek rewrap created).setVersion 5)

/-- `vault_uuid = COALESCE(vault_uuid, …)`. -/
def mintVaultUuid : StoredDb κ :=
  { db with
    metadata := { db.metadata with vaultUuid := db.metadata.vaultUuid <|> some d.vaultUuid } }

def migrateV5ToV6 : Except PmError (StoredDb κ) :=
  let altered := (db.addMissing (.dbMetadata, .vaultUuid)).addMissing (.dbMetadata, .formatVersion)
  .ok ((mintVaultUuid d altered).setVersion 6)

/-- The password slot, from the wrap of `db_metadata`, if there is no slot at all. -/
def mintPasswordSlot : StoredDb κ :=
  if db.keySlots = [] then
    let slot : StoredSlot :=
      { slotUuid := d.slotUuid, slotType := .password, kdfParams := db.metadata.kdfParams
        wrappedDek := db.metadata.wrappedDek, dekNonce := db.metadata.dekNonce
        keyEpoch := db.metadata.keyEpoch, createdAt := d.now, revokedAt := none
        formatVersion := 1 }
    { db with keySlots := [slot] }
  else db

def migrateV6ToV7 : Except PmError (StoredDb κ) :=
  let altered := (db.createAll [.keySlots, .idxKeySlotsType]).addMissing
    (.dbMetadata, .slotRegistryMac)
  .ok ((mintPasswordSlot d altered).setVersion 7)

def migrateV7ToV8 : Except PmError (StoredDb κ) :=
  let created := db.createAll
    [.domainMappingTags, .idxDomainMappingTagsTag, .idxDomainMappingTagsRoot,
      .idxDomainMappingTagsMapping]
  let dropped := created.dropObject .idxDomainMappingsDomain
  .ok ((dropped.addMissing (.synced .domainMappings, .domainEnc)).setVersion 8)

def migrateV8ToV9 : Except PmError (StoredDb κ) :=
  .ok ((db.dropObject .updateEntryModifiedTimestamp).setVersion 9)

/-- `sync_acked_version = CASE WHEN sync_state = 'synced' THEN sync_version ELSE 0 END`. -/
def SyncCols.seeded (c : SyncCols) : SyncCols :=
  { c with syncAckedVersion := if c.syncState = .synced then c.syncVersion else 0 }

/-- The acknowledged version of every row of a table, from its state. -/
def seedAcked (t : SyncTable) : StoredDb κ :=
  (db.addMissing (.synced t, .syncAckedVersion)).mapRows t
    fun r => { r with sync := r.sync.seeded }

def migrateV9ToV10 : Except PmError (StoredDb κ) :=
  let altered := db.addMissing (.syncMetadata, .protocolVersion)
  let seeded := seedAcked (seedAcked (seedAcked altered .entries) .sshKeys) .totpSecrets
  .ok (seeded.setVersion 10)

def migrateV10ToV11 : Except PmError (StoredDb κ) :=
  .ok ((db.createAll [.syncDeadLetter]).setVersion 11)

def migrateV11ToV12 : Except PmError (StoredDb κ) :=
  .ok ((db.createAll [.syncConflicts]).setVersion 12)

def migrateV12ToV13 : Except PmError (StoredDb κ) :=
  .ok ((db.addMissing (.syncMetadata, .lineageHighWater)).setVersion 13)

def migrateV13ToV14 : Except PmError (StoredDb κ) :=
  .ok ((db.createAll [.custodyObjects]).setVersion 14)

/-- The step from version `k` to version `k + 1`. -/
def migrateStep (k : Nat) : Except PmError (StoredDb κ) :=
  match k with
  | 1 => migrateV1ToV2 d db
  | 2 => migrateV2ToV3 db
  | 3 => migrateV3ToV4 db
  | 4 => migrateV4ToV5 rewrap db
  | 5 => migrateV5ToV6 d db
  | 6 => migrateV6ToV7 d db
  | 7 => migrateV7ToV8 db
  | 8 => migrateV8ToV9 db
  | 9 => migrateV9ToV10 db
  | 10 => migrateV10ToV11 db
  | 11 => migrateV11ToV12 db
  | 12 => migrateV12ToV13 db
  | 13 => migrateV13ToV14 db
  | _ => .ok db

/-- The steps a connection runs that read version `v`: `if version < k + 1`, in order. -/
def pendingSteps (v : Nat) : List Nat := (range' 1 13).filter fun k => v < k + 1

/-- `run_migrations` of one connection, undisturbed. -/
def runMigrations (draws : Nat → MigrationDraws) : Except PmError (StoredDb κ) :=
  (pendingSteps db.version).foldlM (fun db k => migrateStep rewrap (draws k) db k) db

end Steps

theorem pendingSteps_eq {v : Nat} (h1 : 1 ≤ v) (h2 : v ≤ 14) :
    pendingSteps v = range' v (14 - v) := by
  interval_cases v <;> rfl

/-! ## What a step leaves -/

namespace StoredDb

variable {κ : Type} (db : StoredDb κ)

section Frame

variable (v : Nat) (t : SyncTable) (f : StoredRow κ → StoredRow κ) (objects : List SchemaObject)
  (o : SchemaObject) (c : Column)

@[simp] theorem version_setVersion : (db.setVersion v).version = v := rfl
@[simp] theorem columns_setVersion : (db.setVersion v).columns = db.columns := rfl
@[simp] theorem objects_setVersion : (db.setVersion v).objects = db.objects := rfl
@[simp] theorem keySlots_setVersion : (db.setVersion v).keySlots = db.keySlots := rfl
@[simp] theorem rows_setVersion : (db.setVersion v).rows = db.rows := rfl

@[simp] theorem columns_mapRows : (db.mapRows t f).columns = db.columns := rfl
@[simp] theorem columns_createAll : (db.createAll objects).columns = db.columns := rfl
@[simp] theorem columns_dropObject : (db.dropObject o).columns = db.columns := rfl
@[simp] theorem keySlots_createAll : (db.createAll objects).keySlots = db.keySlots := rfl

@[simp] theorem columns_fill : (db.fill c).columns = db.columns := by
  obtain ⟨t, n⟩ := c
  cases t <;> rfl

@[simp] theorem objects_fill : (db.fill c).objects = db.objects := by
  obtain ⟨t, n⟩ := c
  cases t <;> rfl

@[simp] theorem columns_withColumn : (db.withColumn c).columns = db.columns ++ [c] :=
  columns_fill ..

@[simp] theorem objects_withColumn : (db.withColumn c).objects = db.objects := objects_fill ..

@[simp] theorem objects_addMissing : (db.addMissing c).objects = db.objects := by
  unfold addMissing
  split
  · rfl
  exact objects_withColumn db c

@[simp] theorem mem_columns_addMissing {x : Column} :
    x ∈ (db.addMissing c).columns ↔ x = c ∨ x ∈ db.columns := by
  unfold addMissing
  split
  · next h =>
    constructor
    · exact Or.inr
    rintro (rfl | hx)
    · exact h
    exact hx
  · simp [or_comm]

@[simp] theorem mem_objects_dropObject {x} :
    x ∈ (db.dropObject o).objects ↔ x ∈ db.objects ∧ x ≠ o := by
  simp [dropObject]

theorem mem_createAll {x known} :
    x ∈ objects.foldl (fun known o => if o ∈ known then known else known ++ [o]) known ↔
      x ∈ objects ∨ x ∈ known := by
  induction objects generalizing known with
  | nil => simp
  | cons o rest ih =>
    rw [foldl_cons, ih, mem_cons]
    by_cases h : o ∈ known
    · rw [if_pos h]
      by_cases hx : x = o
      · subst hx
        simp [h]
      · simp [hx]
    · rw [if_neg h, mem_append, mem_singleton]
      tauto

@[simp] theorem mem_objects_createAll {x} :
    x ∈ (db.createAll objects).objects ↔ x ∈ objects ∨ x ∈ db.objects := mem_createAll objects

end Frame

/-! A statement that finds its work done changes nothing. -/

theorem setVersion_eq_self {v : Nat} (h : db.version = v) : db.setVersion v = db := by
  subst h
  rfl

theorem addMissing_eq_self {c : Column} (h : c ∈ db.columns) : db.addMissing c = db := if_pos h

theorem createAll_eq_self {objects} (h : ∀ o ∈ objects, o ∈ db.objects) :
    db.createAll objects = db := by
  have hfold : objects.foldl (fun known o => if o ∈ known then known else known ++ [o])
      db.objects = db.objects := by
    induction objects with
    | nil => rfl
    | cons o rest ih =>
      rw [foldl_cons, if_pos (h o mem_cons_self)]
      exact ih fun x hx => h x (mem_cons_of_mem o hx)
  unfold createAll
  rw [hfold]

theorem dropObject_eq_self {o} (h : o ∉ db.objects) : db.dropObject o = db := by
  have hfilter : (db.objects.filter fun known => known ≠ o) = db.objects := by
    rw [filter_eq_self]
    intro x hx
    exact decide_eq_true fun he => h (he ▸ hx)
  unfold dropObject
  rw [hfilter]

theorem mapRows_eq_self {t f} (h : ∀ r ∈ db.rows t, f r = r) : db.mapRows t f = db := by
  have hrows : (fun u => if u = t then (db.rows t).map f else db.rows u) = db.rows := by
    funext u
    by_cases hu : u = t
    · subst hu
      rw [if_pos rfl]
      exact (map_congr_left h).trans (map_id _)
    · rw [if_neg hu]
  unfold mapRows
  rw [hrows]

end StoredDb

/-! ## The columns of a step -/

def stepColumns : Nat → List Column
  | 1 => v2Columns
  | 3 => [(.synced .entries, .credentialType)]
  | 4 => [(.dbMetadata, .keyEpoch)]
  | 5 => [(.dbMetadata, .vaultUuid), (.dbMetadata, .formatVersion)]
  | 6 => [(.dbMetadata, .slotRegistryMac)]
  | 7 => [(.synced .domainMappings, .domainEnc)]
  | 9 =>
    [(.syncMetadata, .protocolVersion), (.synced .entries, .syncAckedVersion),
      (.synced .sshKeys, .syncAckedVersion), (.synced .totpSecrets, .syncAckedVersion)]
  | 12 => [(.syncMetadata, .lineageHighWater)]
  | _ => []

/-- The step adds its columns without looking whether they are there. -/
def Unprobed (k : Nat) : Prop := k = 1 ∨ k = 3 ∨ k = 4

instance (k : Nat) : Decidable (Unprobed k) := inferInstanceAs (Decidable (_ ∨ _))

theorem stepColumns_disjoint {j k} (hj : Unprobed j) (h1 : 1 ≤ k) (h2 : k ≤ 13) (hne : j ≠ k) {c}
    (hc : c ∈ stepColumns j) : c ∉ stepColumns k := by
  have hall : (stepColumns j).all (fun c => c ∉ stepColumns k) = true := by
    rcases hj with rfl | rfl | rfl <;> interval_cases k <;> first | exact absurd rfl hne | decide
  simpa using all_eq_true.mp hall c hc

section AddColumns

variable {κ : Type} {db db' : StoredDb κ} {l : List Column} {c : Column}

theorem addColumn_ok (h : db.addColumn c = .ok db') : c ∉ db.columns ∧ db' = db.withColumn c := by
  unfold StoredDb.addColumn at h
  rw [ite_error_eq_ok, Except.ok.injEq] at h
  exact ⟨h.1, h.2.symm⟩

theorem addColumn_of_not_mem (h : c ∉ db.columns) : db.addColumn c = .ok (db.withColumn c) :=
  if_neg h

theorem addColumns_ok (h : l.foldlM StoredDb.addColumn db = .ok db') :
    ∀ x, x ∈ db'.columns ↔ x ∈ db.columns ∨ x ∈ l := by
  induction l generalizing db with
  | nil =>
    cases h
    simp
  | cons c rest ih =>
    obtain ⟨mid, hc, hrest⟩ := foldlM_cons_ok h
    obtain ⟨-, rfl⟩ := addColumn_ok hc
    intro x
    rw [ih hrest x, StoredDb.columns_withColumn, mem_append, mem_singleton, mem_cons, or_assoc]

theorem addColumns_isOk (hnew : ∀ x ∈ l, x ∉ db.columns) (hnodup : l.Nodup) :
    ∃ db', l.foldlM StoredDb.addColumn db = .ok db' := by
  induction l generalizing db with
  | nil => exact ⟨db, rfl⟩
  | cons c rest ih =>
    have hc := addColumn_of_not_mem (hnew c mem_cons_self)
    rw [foldlM_cons, hc]
    refine ih ?_ hnodup.of_cons
    intro x hx hmem
    rw [StoredDb.columns_withColumn, mem_append, mem_singleton] at hmem
    rcases hmem with hmem | rfl
    · exact hnew x (mem_cons_of_mem c hx) hmem
    · exact (nodup_cons.mp hnodup).1 hx

end AddColumns

section StepFacts

variable {κ : Type} {rewrap : Bytes → Option Bytes} {d e : MigrationDraws}
  {db db' : StoredDb κ} {k : Nat} {t u : SyncTable}

@[simp] theorem columns_assignSyncIds : (assignSyncIds d db).columns = db.columns := rfl
@[simp] theorem columns_rewrapDek : (rewrapDek rewrap db).columns = db.columns := rfl
@[simp] theorem columns_mintVaultUuid : (mintVaultUuid d db).columns = db.columns := rfl

@[simp] theorem columns_mintPasswordSlot : (mintPasswordSlot d db).columns = db.columns := by
  unfold mintPasswordSlot
  split <;> rfl

@[simp] theorem mem_columns_seedAcked {x : Column} :
    x ∈ (seedAcked db t).columns ↔ x = (.synced t, .syncAckedVersion) ∨ x ∈ db.columns := by
  simp [seedAcked]

theorem migrateStep_ok (h1 : 1 ≤ k) (h2 : k ≤ 13) (h : migrateStep rewrap d db k = .ok db') :
    db'.version = k + 1 ∧ ∀ c, c ∈ db'.columns ↔ c ∈ db.columns ∨ c ∈ stepColumns k := by
  interval_cases k
  case «1» =>
      obtain ⟨altered, halter, h⟩ := bind_ok h
      cases h
      refine ⟨rfl, fun c => ?_⟩
      simpa [stepColumns] using addColumns_ok halter c
  case «3» =>
      obtain ⟨altered, halter, h⟩ := bind_ok h
      cases h
      obtain ⟨-, rfl⟩ := addColumn_ok halter
      exact ⟨rfl, fun c => by simp [stepColumns]⟩
  case «4» =>
      obtain ⟨altered, halter, h⟩ := bind_ok h
      cases h
      obtain ⟨-, rfl⟩ := addColumn_ok halter
      exact ⟨rfl, fun c => by simp [stepColumns]⟩
  all_goals
    cases h
    exact ⟨rfl, fun c => by simp [stepColumns, or_comm, or_left_comm, or_assoc]⟩

/-- The steps that look first never fail, and the others do not on a database without
their columns. -/
theorem migrateStep_isOk (h1 : 1 ≤ k) (h2 : k ≤ 13)
    (hnew : Unprobed k → ∀ c ∈ stepColumns k, c ∉ db.columns) :
    ∃ db', migrateStep rewrap d db k = .ok db' := by
  interval_cases k
  case «1» =>
      obtain ⟨altered, halter⟩ := addColumns_isOk (l := v2Columns) (hnew (.inl rfl)) (by decide)
      exact ⟨_, by rw [migrateStep, migrateV1ToV2, halter]; rfl⟩
  case «3» =>
      have halter := addColumn_of_not_mem (hnew (.inr (.inl rfl)) _ mem_cons_self)
      exact ⟨_, by rw [migrateStep, migrateV3ToV4, halter]; rfl⟩
  case «4» =>
      have halter := addColumn_of_not_mem (hnew (.inr (.inr rfl)) _ mem_cons_self)
      exact ⟨_, by rw [migrateStep, migrateV4ToV5, halter]; rfl⟩
  all_goals exact ⟨_, rfl⟩

theorem migrateStep_unprobed_error (hk : Unprobed k) (hold : ∀ c ∈ stepColumns k, c ∈ db.columns) :
    ∃ e, migrateStep rewrap d db k = .error e := by
  cases h : migrateStep rewrap d db k with
  | error e => exact ⟨e, rfl⟩
  | ok db' =>
    exfalso
    rcases hk with rfl | rfl | rfl
    · obtain ⟨altered, halter, -⟩ := bind_ok h
      obtain ⟨mid, hfirst, -⟩ := foldlM_cons_ok halter
      exact (addColumn_ok hfirst).1 (hold _ mem_cons_self)
    · obtain ⟨altered, halter, -⟩ := bind_ok h
      exact (addColumn_ok halter).1 (hold _ mem_cons_self)
    · obtain ⟨altered, halter, -⟩ := bind_ok h
      exact (addColumn_ok halter).1 (hold _ mem_cons_self)

/-! ## A step run twice -/

theorem mintVaultUuid_eq_self (h : db.metadata.vaultUuid.isSome) : mintVaultUuid d db = db := by
  obtain ⟨u, hu⟩ := Option.isSome_iff_exists.mp h
  obtain ⟨metadata, columns, objects, keySlots, syncMetadata, rows⟩ := db
  obtain ⟨version, kdfParams, wrappedDek, dekNonce, keyEpoch, vaultUuid, formatVersion, mac⟩ :=
    metadata
  cases hu
  rfl

theorem mintPasswordSlot_eq_self (h : db.keySlots ≠ []) : mintPasswordSlot d db = db := if_neg h

theorem keySlots_mintPasswordSlot : (mintPasswordSlot d db).keySlots ≠ [] := by
  unfold mintPasswordSlot
  split
  · exact cons_ne_nil _ _
  · next h => exact h

@[simp] theorem objects_mintPasswordSlot : (mintPasswordSlot d db).objects = db.objects := by
  unfold mintPasswordSlot
  split <;> rfl

theorem SyncCols.seeded_seeded (c : SyncCols) : c.seeded.seeded = c.seeded := rfl

/-- The rows of the table are as the seeding leaves them. -/
def Seeded (t : SyncTable) (db : StoredDb κ) : Prop :=
  (.synced t, .syncAckedVersion) ∈ db.columns ∧ ∀ r ∈ db.rows t, r.sync.seeded = r.sync

theorem seedAcked_eq_self (h : Seeded t db) : seedAcked db t = db := by
  unfold seedAcked
  rw [StoredDb.addMissing_eq_self db h.1]
  refine StoredDb.mapRows_eq_self db fun r hr => ?_
  rw [h.2 r hr]

theorem seeded_seedAcked (t) : Seeded t (seedAcked db t) := by
  refine ⟨mem_columns_seedAcked.mpr (.inl rfl), ?_⟩
  intro r hr
  simp only [seedAcked, StoredDb.mapRows, if_true, mem_map] at hr
  obtain ⟨r, -, rfl⟩ := hr
  exact SyncCols.seeded_seeded r.sync

theorem rows_seedAcked_of_ne (h : u ≠ t) : (seedAcked db t).rows u = db.rows u := by
  unfold seedAcked StoredDb.addMissing StoredDb.withColumn
  split
  · simp [StoredDb.mapRows, h]
  · simp [StoredDb.mapRows, StoredDb.fill, h]

theorem Seeded.seedAcked (h : Seeded u db) (hne : u ≠ t) : Seeded u (seedAcked db t) := by
  refine ⟨mem_columns_seedAcked.mpr (.inr h.1), ?_⟩
  rw [rows_seedAcked_of_ne hne]
  exact h.2

theorem migrateStep_again (h1 : 1 ≤ k) (h2 : k ≤ 13) (hk : ¬ Unprobed k)
    (h : migrateStep rewrap d db k = .ok db') : migrateStep rewrap e db' k = .ok db' := by
  obtain ⟨hversion, hcolumns⟩ := migrateStep_ok h1 h2 h
  have hadd : ∀ c ∈ stepColumns k, db'.addMissing c = db' := fun c hc =>
    StoredDb.addMissing_eq_self db' ((hcolumns c).mpr (.inr hc))
  have hset := StoredDb.setVersion_eq_self db' hversion
  interval_cases k
  case «1» => exact absurd (.inl rfl) hk
  case «3» => exact absurd (.inr (.inl rfl)) hk
  case «4» => exact absurd (.inr (.inr rfl)) hk
  case «5» =>
      have hmint : mintVaultUuid e db' = db' := by
        cases h
        refine mintVaultUuid_eq_self ?_
        simp only [mintVaultUuid, StoredDb.setVersion]
        cases StoredMetadata.vaultUuid _ <;> rfl
      rw [migrateStep, migrateV5ToV6, hadd _ (by decide), hadd _ (by decide), hmint, hset]
  case «6» =>
      have hcreate : db'.createAll [.keySlots, .idxKeySlotsType] = db' := by
        cases h
        exact StoredDb.createAll_eq_self _ (by simp)
      have hmint : mintPasswordSlot e db' = db' := by
        cases h
        exact mintPasswordSlot_eq_self keySlots_mintPasswordSlot
      rw [migrateStep, migrateV6ToV7, hcreate, hadd _ (by decide), hmint, hset]
  case «7» =>
      have hcreate : db'.createAll [.domainMappingTags, .idxDomainMappingTagsTag,
          .idxDomainMappingTagsRoot, .idxDomainMappingTagsMapping] = db' := by
        cases h
        exact StoredDb.createAll_eq_self _ (by simp)
      have hdrop : db'.dropObject .idxDomainMappingsDomain = db' := by
        cases h
        exact StoredDb.dropObject_eq_self _ (by simp)
      rw [migrateStep, migrateV7ToV8, hcreate, hdrop, hadd _ (by decide), hset]
  case «8» =>
      have hdrop : db'.dropObject .updateEntryModifiedTimestamp = db' := by
        cases h
        exact StoredDb.dropObject_eq_self _ (by simp)
      rw [migrateStep, migrateV8ToV9, hdrop, hset]
  case «9» =>
      -- A table stays seeded while the tables after it are.
      have hentries : Seeded .entries db' := by
        cases h
        exact ((seeded_seedAcked .entries).seedAcked (by decide)).seedAcked (by decide)
      have hssh : Seeded .sshKeys db' := by
        cases h
        exact (seeded_seedAcked .sshKeys).seedAcked (by decide)
      have htotp : Seeded .totpSecrets db' := by
        cases h
        exact seeded_seedAcked .totpSecrets
      rw [migrateStep, migrateV9ToV10, hadd _ (by decide), seedAcked_eq_self hentries,
        seedAcked_eq_self hssh, seedAcked_eq_self htotp, hset]
  case «12» => rw [migrateStep, migrateV12ToV13, hadd _ (by decide), hset]
  all_goals
    cases h
    simp only [migrateStep, migrateV2ToV3, migrateV10ToV11, migrateV11ToV12, migrateV13ToV14]
    rw [StoredDb.createAll_eq_self _ (by simp)]
    rfl

end StepFacts

end SentinelPass
