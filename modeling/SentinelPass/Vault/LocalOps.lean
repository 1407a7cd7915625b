import SentinelPass.Lib.Machine
import SentinelPass.Vault.Db

/-!
# Local writes

The write paths of the vault that touch synced rows: `vault/mod.rs`
(`add_entry`, `update_entry`, `delete_entry`), `vault/ssh_ops.rs` and
`vault/totp_ops.rs`. Each sets the sync columns by hand; nothing in the schema
does it for them. New sync ids (`Uuid::new_v4`) and the clock are arguments.
-/

namespace SentinelPass

open Lib LocalDb

/-! ## Sealing -/

def maxSummaryPlaintext : Nat := 64 * 1024

def maxSecretPlaintext : Nat := 2 * 1024 * 1024

/-- `seal_object_field`: refuses a plaintext over the bound of its field class. -/
def sealObjectField (max : Nat) (plaintext : String) : Except PmError Unit :=
  if plaintext.utf8ByteSize > max then
    .error (.crypto ("Encryption failed: plaintext (" ++ toString plaintext.utf8ByteSize ++
      " bytes) exceeds this field's declared maximum (" ++ toString max ++ ")"))
  else .ok ()

/-- Seal an optional field; `NULL` stays `NULL`. -/
def sealOptional (max : Nat) : Option String → Except PmError Unit
  | none => .ok ()
  | some plaintext => sealObjectField max plaintext

/-- The name of a synced table (`table_for`). -/
def tableFor : SyncEntryType → String
  | .credential => "entries"
  | .sshKey => "ssh_keys"
  | .totpSecret => "totp_secrets"

/-- The unique index on `sync_id`. -/
def requireFresh (db : LocalDb) (t : SyncEntryType) (id : Uuid) : Except PmError Unit :=
  if (db.row t id).isSome then
    .error (.database ("SQLite error: UNIQUE constraint failed: " ++ tableFor t ++ ".sync_id"))
  else .ok ()

/-- `sync_version + 1`. At the top of the `INTEGER` range SQLite leaves the
integers, and no reader of the column takes the value; the model stops there. -/
def bumpVersion (v : Int64) : Except PmError Int64 :=
  if v = Int64.maxValue then .error (.database "SQLite error: integer overflow") else .ok (v + 1)

/-! ## Credentials -/

/-- The fields of an `Entry` that are stored. -/
structure Entry where
  (title username password : String)
  (url notes : Option String)
  credentialType : CredentialType
  favorite : Bool

def sealEntryFields (e : Entry) : Except PmError Unit := do
  sealObjectField maxSummaryPlaintext e.title
  sealObjectField maxSummaryPlaintext e.username
  sealObjectField maxSecretPlaintext e.password
  sealOptional maxSecretPlaintext e.url
  sealOptional maxSecretPlaintext e.notes

def Entry.content (e : Entry) (domains : List DomainPayload) (now : Int) : Credential where
  title := e.title
  username := e.username
  password := e.password
  credentialType := e.credentialType
  url := e.url
  notes := e.notes
  favorite := e.favorite
  domains := domains
  modifiedAt := now

/-- `insert_entry_row`: version 1, pending. -/
def newEntryRow (e : Entry) (now : Int) : SyncRow Credential where
  content := e.content [] now
  createdAt := now
  sync := { SyncCols.default with syncVersion := 1 }

def addEntry (db : LocalDb) (syncId : Uuid) (e : Entry) (now : Int) : Except PmError LocalDb := do
  sealEntryFields e
  requireFresh db .credential syncId
  .ok (db.putRow .credential syncId (newEntryRow e now))

/-- `update_entry_row`: full replace, version bumped, pending. The `is_deleted`
columns and the domain mappings are not touched. -/
def updatedEntryRow (r : SyncRow Credential) (e : Entry) (version : Int64) (now : Int) :
    SyncRow Credential :=
  { r with
    content := e.content r.content.domains now
    sync := { r.sync with syncVersion := version, syncState := .pending } }

def updateEntry (db : LocalDb) (id : Uuid) (e : Entry) (now : Int) : Except PmError LocalDb :=
  match db.row .credential id with
  | none => .error (.database "SQLite error: Query returned no rows")
  | some r => do
    sealEntryFields e
    let version ← bumpVersion r.sync.syncVersion
    .ok (db.putRow .credential id (updatedEntryRow r e version now))

/-- The soft delete: tombstone columns, version bumped, pending, mappings gone. -/
def deletedEntryRow (r : SyncRow Credential) (version : Int64) (now : Int) : SyncRow Credential :=
  let sync := { r.sync with
    syncVersion := version, syncState := .pending, isDeleted := true, deletedAt := some now }
  { r with content := { r.content with domains := [] }, sync := sync }

def deleteEntry (db : LocalDb) (id : Uuid) (now : Int) : Except PmError LocalDb :=
  match db.row .credential id with
  | none => .error (.notFound "Entry")
  | some r =>
    if r.sync.isDeleted then .error (.notFound "Entry")
    else do
      let version ← bumpVersion r.sync.syncVersion
      .ok (db.putRow .credential id (deletedEntryRow r version now))

/-! ## SSH keys -/

/-- What `add_ssh_key_plaintext` takes. -/
structure NewSshKey where
  name : String
  comment : Option String
  keyType : String
  keySize : Option UInt32
  (publicKey privateKey fingerprint : String)

/-- The `INSERT` names no sync column but `sync_id`: the rest are defaults. -/
def newSshKeyRow (k : NewSshKey) (now : Int) : SyncRow SshKey :=
  let content : SshKey :=
    { name := k.name, comment := k.comment, keyType := k.keyType
      keySize := k.keySize.map fun n => n.toUInt64.toInt64, publicKey := k.publicKey
      privateKey := k.privateKey, fingerprint := k.fingerprint, modifiedAt := now }
  { content := content, createdAt := now, sync := SyncCols.default }

def addSshKey (db : LocalDb) (syncId : Uuid) (k : NewSshKey) (now : Int) :
    Except PmError LocalDb := do
  sealObjectField maxSecretPlaintext k.privateKey
  sealOptional maxSummaryPlaintext k.comment
  requireFresh db .sshKey syncId
  .ok (db.putRow .sshKey syncId (newSshKeyRow k now))

/-- `delete_ssh_key`: `DELETE FROM ssh_keys`. -/
def deleteSshKey (db : LocalDb) (id : Uuid) : Except PmError LocalDb :=
  if (db.row .sshKey id).isSome then .ok (db.setTable .sshKey ((db.table .sshKey).erase id))
  else .error (.notFound "SSH key")

/-! ## TOTP secrets -/

/-- What `str::trim` strips. -/
def isWhiteSpace (c : Char) : Bool :=
  let n := c.toNat
  (9 ≤ n && n ≤ 13) || n = 32 || n = 0x85 || n = 0xA0 || n = 0x1680 ||
    (0x2000 ≤ n && n ≤ 0x200A) || n = 0x2028 || n = 0x2029 || n = 0x202F || n = 0x205F ||
    n = 0x3000

/-- `normalize_secret`; `decodeBase32` is the base32 crate, padding optional. -/
def normalizeSecret (decodeBase32 : String → Option Bytes) (secret : String) :
    Except PmError String :=
  let trimmed := ((secret.toList.dropWhile isWhiteSpace).reverse.dropWhile isWhiteSpace).reverse
  let kept := trimmed.filter fun c => c ≠ ' ' && c ≠ '-'
  let normalized := String.ofList (kept.map Char.toUpper)
  if normalized = "" then .error (.invalidInput "TOTP secret cannot be empty")
  else
    match decodeBase32 normalized with
    | none => .error (.invalidInput "TOTP secret must be valid base32")
    | some [] => .error (.invalidInput "TOTP secret cannot decode to empty bytes")
    | some _ => .ok normalized

/-- What `add_totp_secret` takes besides the entry. -/
structure NewTotp where
  (secretBase32 algorithm : String)
  digits : UInt8
  period : UInt32
  (issuer accountName : Option String)

def NewTotp.content (p : NewTotp) (entry : Uuid) (normalized : String) : Totp where
  entry := entry
  secret := normalized
  algorithm := p.algorithm
  digits := p.digits.toUInt64.toInt64
  period := p.period.toUInt64.toInt64
  issuer := p.issuer
  accountName := p.accountName

/-- `SELECT … FROM totp_secrets WHERE entry_id = ?`. -/
def LocalDb.totpOf (db : LocalDb) (entry : Uuid) : Option (Uuid × SyncRow Totp) :=
  db.totpSecrets.rows.find? fun r => r.2.content.entry = entry

/-- `add_totp_secret`: the upsert on `entry_id`. A first add takes the column
defaults; a re-add keeps the row's `sync_id` and every sync column. -/
def addTotpSecret (decodeBase32 : String → Option Bytes) (db : LocalDb) (entry newId : Uuid)
    (p : NewTotp) (now : Int) : Except PmError LocalDb :=
  if (db.row .credential entry).isNone then .error (.notFound "Entry")
  else do
    let normalized ← normalizeSecret decodeBase32 p.secretBase32
    sealObjectField maxSecretPlaintext normalized
    sealOptional maxSummaryPlaintext p.issuer
    sealOptional maxSummaryPlaintext p.accountName
    match db.totpOf entry with
    | some (id, r) =>
      .ok (db.putRow .totpSecret id
        { content := p.content entry normalized, createdAt := now, sync := r.sync })
    | none => do
      requireFresh db .totpSecret newId
      .ok (db.putRow .totpSecret newId
        { content := p.content entry normalized, createdAt := now, sync := SyncCols.default })

/-- `remove_totp_secret`: `DELETE FROM totp_secrets WHERE entry_id = ?`. -/
def removeTotpSecret (db : LocalDb) (entry : Uuid) : Except PmError LocalDb :=
  if (db.totpOf entry).isSome then
    .ok (db.setTable .totpSecret
      (db.totpSecrets.filter fun _ r => r.content.entry ≠ entry))
  else .error (.notFound "TOTP secret for entry")

/-! ## The operations together -/

/-- A local write. -/
inductive LocalOp
  | addEntry (syncId : Uuid) (entry : Entry) (now : Int)
  | updateEntry (id : Uuid) (entry : Entry) (now : Int)
  | deleteEntry (id : Uuid) (now : Int)
  | addSshKey (syncId : Uuid) (key : NewSshKey) (now : Int)
  | deleteSshKey (id : Uuid)
  | addTotpSecret (entry newId : Uuid) (totp : NewTotp) (now : Int)
  | removeTotpSecret (entry : Uuid)

def LocalOp.run (decodeBase32 : String → Option Bytes) (db : LocalDb) :
    LocalOp → Except PmError LocalDb
  | addEntry syncId e now => SentinelPass.addEntry db syncId e now
  | updateEntry id e now => SentinelPass.updateEntry db id e now
  | deleteEntry id now => SentinelPass.deleteEntry db id now
  | addSshKey syncId k now => SentinelPass.addSshKey db syncId k now
  | deleteSshKey id => SentinelPass.deleteSshKey db id
  | addTotpSecret entry newId p now =>
    SentinelPass.addTotpSecret decodeBase32 db entry newId p now
  | removeTotpSecret entry => SentinelPass.removeTotpSecret db entry

/-! ## What a write does -/

variable {db db' : LocalDb} {id : Uuid} {op : LocalOp} {t : SyncEntryType}

theorem requireFresh_ok {u : Unit} (h : requireFresh db t id = .ok u) : db.row t id = none := by
  unfold requireFresh at h
  rw [ite_error_eq_ok] at h
  simpa using h.1

theorem bumpVersion_ok {v w : Int64} (h : bumpVersion v = .ok w) :
    v ≠ Int64.maxValue ∧ w = v + 1 := by
  unfold bumpVersion at h
  rw [ite_error_eq_ok, Except.ok.injEq] at h
  exact ⟨h.1, h.2.symm⟩

theorem LocalDb.totpOf_some {entry r} (h : db.totpOf entry = some (id, r)) :
    db.row .totpSecret id = some r ∧ r.content.entry = entry := by
  refine ⟨Table.mem_rows.mp (List.mem_of_find?_eq_some h), ?_⟩
  simpa using List.find?_some h

/-- The successful local writes, one constructor for each effect. -/
inductive LocalStep (db : LocalDb) : LocalOp → LocalDb → Prop
  | addEntry {syncId : Uuid} {e : Entry} {now : Int} : db.row .credential syncId = none →
      LocalStep db (.addEntry syncId e now) (db.putRow .credential syncId (newEntryRow e now))
  | updateEntry {id : Uuid} {e : Entry} {now : Int} {r : SyncRow Credential} :
      db.row .credential id = some r → r.sync.syncVersion ≠ Int64.maxValue →
      LocalStep db (.updateEntry id e now)
        (db.putRow .credential id (updatedEntryRow r e (r.sync.syncVersion + 1) now))
  | deleteEntry {id : Uuid} {now : Int} {r : SyncRow Credential} :
      db.row .credential id = some r → r.sync.isDeleted = false →
      r.sync.syncVersion ≠ Int64.maxValue →
      LocalStep db (.deleteEntry id now)
        (db.putRow .credential id (deletedEntryRow r (r.sync.syncVersion + 1) now))
  | addSshKey {syncId : Uuid} {k : NewSshKey} {now : Int} : db.row .sshKey syncId = none →
      LocalStep db (.addSshKey syncId k now) (db.putRow .sshKey syncId (newSshKeyRow k now))
  | deleteSshKey {id : Uuid} :
      LocalStep db (.deleteSshKey id) (db.setTable .sshKey ((db.table .sshKey).erase id))
  | addTotpSecret {entry newId : Uuid} {p : NewTotp} {now : Int} {normalized : String} :
      db.totpOf entry = none → db.row .totpSecret newId = none →
      LocalStep db (.addTotpSecret entry newId p now)
        (db.putRow .totpSecret newId
          { content := p.content entry normalized, createdAt := now, sync := SyncCols.default })
  | readdTotpSecret {entry newId id : Uuid} {p : NewTotp} {now : Int} {normalized : String}
      {r : SyncRow Totp} :
      (db.row .credential entry).isSome → db.totpOf entry = some (id, r) →
      LocalStep db (.addTotpSecret entry newId p now)
        (db.putRow .totpSecret id
          { content := p.content entry normalized, createdAt := now, sync := r.sync })
  | removeTotpSecret {entry : Uuid} : (db.totpOf entry).isSome →
      LocalStep db (.removeTotpSecret entry)
        (db.setTable .totpSecret (db.totpSecrets.filter fun _ r => r.content.entry ≠ entry))

/-- A write that succeeds is one of the constructors of `LocalStep`. -/
theorem LocalOp.run_step {dec : String → Option Bytes} (h : op.run dec db = .ok db') :
    LocalStep db op db' := by
  cases op with
  | addEntry syncId e now =>
    obtain ⟨_, -, h⟩ := bind_ok h
    obtain ⟨_, hfresh, h⟩ := bind_ok h
    cases h
    exact .addEntry (requireFresh_ok hfresh)
  | updateEntry id e now =>
    simp only [run, SentinelPass.updateEntry] at h
    split at h
    · cases h
    rename_i r hr
    obtain ⟨_, -, h⟩ := bind_ok h
    obtain ⟨version, hbump, h⟩ := bind_ok h
    cases h
    obtain ⟨hmax, rfl⟩ := bumpVersion_ok hbump
    exact .updateEntry hr hmax
  | deleteEntry id now =>
    simp only [run, SentinelPass.deleteEntry] at h
    split at h
    · cases h
    rename_i r hr
    rw [ite_error_eq_ok] at h
    obtain ⟨version, hbump, hok⟩ := bind_ok h.2
    cases hok
    obtain ⟨hmax, rfl⟩ := bumpVersion_ok hbump
    exact .deleteEntry hr (by simpa using h.1) hmax
  | addSshKey syncId k now =>
    obtain ⟨_, -, h⟩ := bind_ok h
    obtain ⟨_, -, h⟩ := bind_ok h
    obtain ⟨_, hfresh, h⟩ := bind_ok h
    cases h
    exact .addSshKey (requireFresh_ok hfresh)
  | deleteSshKey id =>
    simp only [run, SentinelPass.deleteSshKey] at h
    split at h
    · cases h
      exact .deleteSshKey
    · cases h
  | addTotpSecret entry newId p now =>
    simp only [run, SentinelPass.addTotpSecret, ite_error_eq_ok] at h
    obtain ⟨hparent, h⟩ := h
    obtain ⟨normalized, -, h⟩ := bind_ok h
    obtain ⟨_, -, h⟩ := bind_ok h
    obtain ⟨_, -, h⟩ := bind_ok h
    obtain ⟨_, -, h⟩ := bind_ok h
    split at h
    · next id r hr =>
      cases h
      exact .readdTotpSecret (by simpa [Option.isSome_iff_ne_none] using hparent) hr
    · next hnone =>
      obtain ⟨_, hfresh, h⟩ := bind_ok h
      cases h
      exact .addTotpSecret hnone (requireFresh_ok hfresh)
  | removeTotpSecret entry =>
    simp only [run, SentinelPass.removeTotpSecret] at h
    split at h
    · next hsome =>
      cases h
      exact .removeTotpSecret hsome
    · cases h

/-- What one write can do to the bookkeeping of one row: nothing, a first row
that was never acknowledged, a change that leaves it pending with the
acknowledged version it had, or its removal. -/
inductive ColsStep : Option SyncCols → Option SyncCols → Prop
  | same {c : Option SyncCols} : ColsStep c c
  | created {c : SyncCols} : c.syncState = .pending → c.syncAckedVersion = 0 →
      ColsStep none (some c)
  | edited {c c' : SyncCols} : c'.syncState = .pending →
      c'.syncAckedVersion = c.syncAckedVersion → ColsStep (some c) (some c')
  | removed {c : Option SyncCols} : ColsStep c none

theorem ColsStep.putRow {r} (h : ColsStep (db.cols t id) (some r.sync)) (u k) :
    ColsStep (db.cols u k) ((db.putRow t id r).cols u k) := by
  rw [cols_putRow]
  split
  · next hobj =>
    obtain ⟨rfl, rfl⟩ := hobj
    exact h
  · exact .same

theorem ColsStep.deleted {rows} (h : ∀ k, rows.get? k = (db.table t).get? k ∨ rows.get? k = none)
    (u k) : ColsStep (db.cols u k) ((db.setTable t rows).cols u k) := by
  unfold cols row
  by_cases hu : u = t
  · subst hu
    rw [table_setTable_self]
    rcases h k with hk | hk
    · rw [hk]
      exact .same
    · rw [hk]
      exact .removed
  · rw [table_setTable_of_ne db hu]
    exact .same

open ColsStep

/-- What one write can do to the bookkeeping of any row. -/
theorem LocalStep.cols (h : LocalStep db op db') (t : SyncEntryType) (id : Uuid) :
    ColsStep (db.cols t id) (db'.cols t id) := by
  cases h with
  | addEntry hnone =>
    refine putRow ?_ t id
    rw [cols, hnone]
    exact .created rfl rfl
  | updateEntry hr _ =>
    refine putRow ?_ t id
    rw [cols, hr]
    exact .edited rfl rfl
  | deleteEntry hr _ _ =>
    refine putRow ?_ t id
    rw [cols, hr]
    exact .edited rfl rfl
  | addSshKey hnone =>
    refine putRow ?_ t id
    rw [cols, hnone]
    exact .created rfl rfl
  | deleteSshKey =>
    refine deleted (fun k => ?_) t id
    rw [Table.get?_erase]
    split
    · exact .inr rfl
    exact .inl rfl
  | addTotpSecret _ hnone =>
    refine putRow ?_ t id
    rw [cols, hnone]
    exact .created rfl rfl
  | readdTotpSecret _ hr =>
    refine putRow ?_ t id
    rw [cols, (totpOf_some hr).1]
    exact .same
  | @removeTotpSecret entry _ =>
    refine deleted (fun k => ?_) t id
    rw [Table.get?_filter]
    change ((db.totpSecrets.get? k).filter _ = db.totpSecrets.get? k) ∨ _
    cases hk : db.totpSecrets.get? k with
    | none => exact .inr rfl
    | some r =>
      by_cases he : r.content.entry = entry
      · exact .inr (by simp [he])
      exact .inl (by simp [he])

/-- Conflicts, dead letters, configuration and epoch stay. -/
theorem LocalStep.frame (h : LocalStep db op db') :
    db'.syncConflicts = db.syncConflicts ∧ db'.syncDeadLetter = db.syncDeadLetter ∧
      db'.config = db.config ∧ db'.keyEpoch = db.keyEpoch := by
  cases h <;> simp

end SentinelPass
