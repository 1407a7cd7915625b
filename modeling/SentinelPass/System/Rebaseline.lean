import SentinelPass.System.Creates
import SentinelPass.System.Migration

/-!
# The baseline after a migration

After `migrate_sync_authoritative` the device offers its vault to the fresh one it claimed.
The reset puts every live row back to acknowledged version 0 and leaves deleted rows, and
the versions of all rows, as they are.
-/

namespace SentinelPass

open Lib Relay List Option

/-! ## The vault that was claimed -/

/-- The relay has never heard of the vault. -/
structure Unheard (s : RelayState) (device vault : Uuid) : Prop where
  named : vault.isNil = false
  entries : ∀ id, s.syncEntriesV2.get? (vault, id) = none
  log : ∀ seq, s.syncMutationsV2.get? (vault, seq) = none
  results : ∀ id, s.mutationResults.get? (id, device, vault) = none
  epoch : s.vaultEpochs.get? vault = none

theorem emptyVault_of_migrationClaim {s s' device origin newVault now}
    (hnew : Unheard s device newVault) (h : migrationClaim s device origin newVault now = .ok s') :
    EmptyVault s' device newVault ∧ s'.vaultEpoch newVault = 1 := by
  obtain ⟨-, -, hmember, -⟩ := migrationClaim_applied h
  obtain ⟨vaults, counters, -, hcounters, rfl⟩ := migrationClaim_ok h
  obtain ⟨-, -, hget⟩ := Table.insert?_eq_some hcounters
  constructor
  · exact ⟨hnew.named, hmember, (hget newVault).trans (if_pos rfl), hnew.entries, hnew.log,
      hnew.results⟩
  · unfold RelayState.vaultEpoch
    rw [Table.get?_insertIgnore, if_pos rfl, hnew.epoch]
    rfl

/-! ## The reset -/

/-- The columns of a row after the reset. -/
def SyncCols.rebaselined (c : SyncCols) : SyncCols :=
  if c.isDeleted then c else { c with syncState := .pending, syncAckedVersion := 0 }

theorem sync_rebaselined {γ : Type} (row : SyncRow γ) :
    (rebaselined row).sync = row.sync.rebaselined := by
  unfold rebaselined SyncCols.rebaselined
  split <;> rfl

theorem content_rebaselined {γ : Type} (row : SyncRow γ) :
    (rebaselined row).content = row.content := by
  unfold rebaselined
  split <;> rfl

theorem cols_migrateSyncAuthoritative (db : LocalDb) (vault : Uuid) (t : SyncEntryType)
    (id : Uuid) :
    (migrateSyncAuthoritative db vault).cols t id = (db.cols t id).map SyncCols.rebaselined := by
  unfold LocalDb.cols
  rw [row_migrateSyncAuthoritative, Option.map_map, Option.map_map]
  exact congrArg (fun f => (db.row t id).map f) (funext sync_rebaselined)

def UniqueObjects (db : LocalDb) : Prop :=
  ∀ t u id r r', db.row t id = some r → db.row u id = some r' → t = u

theorem UniqueObjects.oneTable {db : LocalDb} (h : UniqueObjects db) (vault : Uuid) :
    OneTable (migrateSyncAuthoritative db vault) := by
  intro t u id r r' hr _ hr' _
  rw [row_migrateSyncAuthoritative] at hr hr'
  obtain ⟨row, hrow, -⟩ := map_eq_some_iff.mp hr
  obtain ⟨row', hrow', -⟩ := map_eq_some_iff.mp hr'
  exact h t u id row row' hrow hrow'

/-- The row is one of the baseline. -/
def SyncCols.InBaseline (c : SyncCols) : Prop := c.isDeleted = false ∨ c.syncState = .pending

/-- Every row that is live or pending fits a create: its version is one to the largest step,
a tombstone was not acknowledged before, and the numbers of a TOTP row can be read. -/
structure FitsBaseline (db : LocalDb) : Prop where
  cols : ∀ t id c, db.cols t id = some c → c.InBaseline →
    id.isNil = false ∧ (1 ≤ c.syncVersion.toInt ∧ c.syncVersion.toInt ≤ 10000) ∧
      (c.isDeleted = true → c.syncAckedVersion.toInt ≤ 0) ∧
      1 ≤ db.keyEpoch.toInt ∧ db.keyEpoch.toInt ≤ 100001
  readable : ∀ id r, db.row .totpSecret id = some r → r.sync.InBaseline → r.content.Readable

theorem pending_rebaselined_iff (c : SyncCols) :
    c.rebaselined.syncState = .pending ↔ c.InBaseline := by
  unfold SyncCols.rebaselined SyncCols.InBaseline
  cases c.isDeleted <;> simp

/-- A row of the baseline is offered as a create exactly if it fits one. -/
theorem createRow_rebaselined_iff (db : LocalDb) (vault id : Uuid) (c : SyncCols) :
    CreateRow (migrateSyncAuthoritative db vault) id c.rebaselined ↔
      id.isNil = false ∧ (1 ≤ c.syncVersion.toInt ∧ c.syncVersion.toInt ≤ 10000) ∧
        (c.isDeleted = true → c.syncAckedVersion.toInt ≤ 0) ∧ 1 ≤ db.keyEpoch.toInt := by
  have hversion : c.rebaselined.syncVersion = c.syncVersion := by
    unfold SyncCols.rebaselined
    split <;> rfl
  have hacked : c.rebaselined.syncAckedVersion.toInt ≤ 0 ↔
      (c.isDeleted = true → c.syncAckedVersion.toInt ≤ 0) := by
    unfold SyncCols.rebaselined
    cases c.isDeleted <;> simp
  constructor
  · intro h
    exact ⟨h.named, hversion ▸ h.version, hacked.mp h.unacked, h.epoch⟩
  · rintro ⟨hnamed, hstep, hunacked, hepoch⟩
    exact ⟨hnamed, hversion ▸ hstep, hacked.mpr hunacked, hepoch⟩

/-- The outbox after the migration can be collected, and is one of creates, exactly if every
row fits. -/
theorem baseline_iff (db : LocalDb) (vault : Uuid) :
    (migrateSyncAuthoritative db vault).TotpReadable ∧
      CreateOutbox (migrateSyncAuthoritative db vault) ↔ FitsBaseline db := by
  constructor
  · rintro ⟨hread, hcreate⟩
    constructor
    · intro t id c hc hin
      have hcols := cols_migrateSyncAuthoritative db vault t id
      rw [hc, map_some] at hcols
      obtain ⟨hrow, hmax⟩ := hcreate t id _ hcols ((pending_rebaselined_iff c).mpr hin)
      obtain ⟨hnamed, hversion, hacked, hmin⟩ := (createRow_rebaselined_iff db vault id c).mp hrow
      exact ⟨hnamed, hversion, hacked, hmin, hmax⟩
    · intro id r hr hin
      rw [← content_rebaselined r]
      refine hread id (rebaselined r) ?_ ?_
      · rw [row_migrateSyncAuthoritative, hr, map_some]
      · rw [sync_rebaselined]
        exact (pending_rebaselined_iff _).mpr hin
  · intro h
    constructor
    · intro id r' hr' hpend
      rw [row_migrateSyncAuthoritative] at hr'
      obtain ⟨r, hr, rfl⟩ := map_eq_some_iff.mp hr'
      rw [sync_rebaselined, pending_rebaselined_iff] at hpend
      rw [content_rebaselined]
      exact h.readable id r hr hpend
    · intro t id c' hc' hpend
      rw [cols_migrateSyncAuthoritative] at hc'
      obtain ⟨c, hc, rfl⟩ := map_eq_some_iff.mp hc'
      obtain ⟨hnamed, hversion, hacked, hmin, hmax⟩ :=
        h.cols t id c hc ((pending_rebaselined_iff c).mp hpend)
      exact ⟨(createRow_rebaselined_iff db vault id c).mpr ⟨hnamed, hversion, hacked, hmin⟩, hmax⟩

def oneEntryDb (c : SyncCols) : LocalDb :=
  { memberDb with
    entries := ⟨[(5, ⟨⟨"T", "me", "pw", .password, none, none, false, [], 0⟩, 0, c⟩)],
      nodup_singleton _⟩ }

/-- The mutations that are collected after the migration to vault 9. -/
def baselineOf (c : SyncCols) : Except PmError (List MutationV2) :=
  collectPendingMutations sampleEnv sampleNonces 1 9 1 (migrateSyncAuthoritative (oneEntryDb c) 9)

theorem cols_oneEntryDb {c c' t id} (h : (oneEntryDb c).cols t id = some c') :
    t = .credential ∧ id = 5 ∧ c' = c := by
  obtain ⟨r, hr, rfl⟩ := map_eq_some_iff.mp h
  unfold LocalDb.row at hr
  rw [← Table.mem_rows] at hr
  cases t with
  | credential =>
    obtain ⟨rfl, rfl⟩ := Prod.mk.inj (mem_singleton.mp hr)
    exact ⟨rfl, rfl, rfl⟩
  | sshKey => exact absurd hr not_mem_nil
  | totpSecret => exact absurd hr not_mem_nil

theorem uniqueObjects_oneEntryDb (c) : UniqueObjects (oneEntryDb c) := by
  have hcols : ∀ {t id r}, (oneEntryDb c).row t id = some r → t = .credential := by
    intro t id r hr
    have hcol : (oneEntryDb c).cols t id = some r.sync := by
      unfold LocalDb.cols
      rw [hr, map_some]
    exact (cols_oneEntryDb hcol).1
  intro t u id r r' hr hr'
  rw [hcols hr, hcols hr']

theorem unheard_nine : Unheard memberRelay 1 9 :=
  ⟨by decide, fun _ => rfl, fun _ => rfl, fun _ => rfl, rfl⟩

/-- A TOTP secret whose period was stored as a negative number. -/
def unreadableTotpDb : LocalDb :=
  { memberDb with
    totpSecrets := ⟨[(6, ⟨⟨5, "", "SHA1", 6, -1, none, none⟩, 0,
      ⟨3, 3, .synced, none, false, none⟩⟩)], nodup_singleton _⟩ }

end SentinelPass
