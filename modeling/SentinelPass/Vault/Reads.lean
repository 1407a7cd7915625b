import SentinelPass.Sync.Apply
import Mathlib.Data.List.Sort

/-!
# Reading SSH keys and TOTP secrets

The readers of `vault/ssh_ops.rs` and `vault/totp_ops.rs`, with the code generation of
`totp.rs`. A key is returned under the id of its row, and a secret is found under its
credential. No query here names `is_deleted`, which is all that a tombstone of a peer sets.
-/

namespace SentinelPass

open Lib List Option LocalDb

/-! ## SSH keys -/

inductive SshKeyType
  | rsa
  | ed25519
  | ecdsa
  | ecdsaSha256
  | ecdsaSha384
  | ecdsaSha521
deriving DecidableEq

def SshKeyType.ofText : String → Option SshKeyType
  | "RSA" => some rsa
  | "ED25519" => some ed25519
  | "ECDSA" => some ecdsa
  | "ECDSA-SHA2-NISTP256" => some ecdsaSha256
  | "ECDSA-SHA2-NISTP384" => some ecdsaSha384
  | "ECDSA-SHA2-NISTP521" => some ecdsaSha521
  | _ => none

/-- `get_ssh_key`; the key comes as it is stored. A `key_size` that is no `u32` fails the
query, which reads as a missing row. -/
def getSshKey (db : LocalDb) (id : Uuid) :
    Except PmError (SshKeyType × Option Nat × SyncRow SshKey) :=
  match db.row .sshKey id with
  | none => .error (.notFound "SSH key")
  | some r =>
    match r.content.keySize.mapM (columnBelow (2 ^ 32) 3) with
    | .error _ => .error (.notFound "SSH key")
    | .ok keySize =>
      match SshKeyType.ofText r.content.keyType with
      | none => .error (.invalidInput ("Unknown key type: " ++ r.content.keyType))
      | some keyType => .ok (keyType, keySize, r)

structure SshKeySummary where
  keyId : Uuid
  name : String
  comment : Option String
  keyType : SshKeyType
  fingerprint : String

/-- A key type that is not known is listed as RSA. -/
def sshKeySummary (r : Uuid × SyncRow SshKey) : SshKeySummary where
  keyId := r.1
  name := r.2.content.name
  comment := r.2.content.comment
  keyType := (SshKeyType.ofText r.2.content.keyType).getD .rsa
  fingerprint := r.2.content.fingerprint

def listSshKeys (db : LocalDb) : List SshKeySummary := db.sshKeys.rows.map sshKeySummary

structure PaginationParams where
  (page pageSize : UInt32)

def PaginationParams.offset (p : PaginationParams) : Nat :=
  min (p.page.toNat * p.pageSize.toNat) (2 ^ 32 - 1)

def PaginationParams.limit (p : PaginationParams) : Nat := min p.pageSize.toNat 1000

structure PaginatedResult (α : Type) where
  items : List α
  totalCount : Nat
  hasMore : Bool

/-- `ORDER BY name`; keys of one name come in any order. -/
def listSshKeysPaginated (order : MapOrder SshKeySummary) (db : LocalDb) (p : PaginationParams) :
    PaginatedResult SshKeySummary :=
  let sorted := (order.arrange (listSshKeys db)).insertionSort fun a b => a.name ≤ b.name
  let items := (sorted.drop p.offset).take p.limit
  ⟨items, (listSshKeys db).length, p.offset + items.length < (listSshKeys db).length⟩

/-! ## TOTP secrets -/

inductive TotpAlgorithm
  | sha1
  | sha256
deriving DecidableEq

def TotpAlgorithm.ofText (value : String) : Option TotpAlgorithm :=
  match String.ofList ((trim value.toList).map Char.toLower) with
  | "sha1" => some sha1
  | "sha256" => some sha256
  | _ => none

structure TotpSecretMetadata where
  (totpId entryId : Uuid)
  algorithm : TotpAlgorithm
  (digits period : Nat)
  (issuer accountName : Option String)

/-- How both readers begin: the row of the entry at its column types, and its algorithm. -/
def readTotpRow (db : LocalDb) (entry : Uuid) : Except PmError (TotpSecretMetadata × Totp) :=
  match db.totpOf entry with
  | none => .error (.notFound "TOTP secret for entry")
  | some (id, r) =>
    match columnBelow 256 3 r.content.digits, columnBelow (2 ^ 32) 4 r.content.period with
    | .ok digits, .ok period =>
      match TotpAlgorithm.ofText r.content.algorithm with
      | none => .error (.database ("Invalid TOTP algorithm in database: " ++ r.content.algorithm))
      | some algorithm =>
        .ok (⟨id, entry, algorithm, digits, period, r.content.issuer, r.content.accountName⟩,
          r.content)
    | _, _ => .error (.notFound "TOTP secret for entry")

def getTotpMetadata (db : LocalDb) (entry : Uuid) : Except PmError TotpSecretMetadata :=
  (readTotpRow db entry).map Prod.fst

def decodeSecret (decodeBase32 : String → Option Bytes) (secretBase32 : String) :
    Except PmError Bytes :=
  let kept := (trim secretBase32.toList).filter fun c => c ≠ ' ' && c ≠ '-'
  match decodeBase32 (String.ofList (kept.map Char.toUpper)) with
  | none => .error (.invalidInput "TOTP secret must be valid base32")
  | some [] => .error (.invalidInput "TOTP secret cannot decode to empty bytes")
  | some key => .ok key

/-- `totp::generate_totp_code`; `hmac` is the HMAC of the algorithm. -/
def totpCode (hmac : TotpAlgorithm → Bytes → Bytes → Bytes) (decodeBase32 : String → Option Bytes)
    (secretBase32 : String) (algorithm : TotpAlgorithm) (digits period : Nat) (timestamp : Int) :
    Except PmError String :=
  if digits ≠ 6 ∧ digits ≠ 8 then .error (.invalidInput "TOTP digits must be 6 or 8")
  else if period = 0 then .error (.invalidInput "TOTP period must be greater than 0")
  else do
    let key ← decodeSecret decodeBase32 secretBase32
    let digest := hmac algorithm key (beBytes 8 (timestamp.toNat / period))
    let offset := (digest.getLastD 0).toNat % 16
    if digest.length < 20 then .error (.invalidInput "Invalid TOTP digest length")
    else if digest.length ≤ offset + 3 then .error (.invalidInput "Invalid TOTP digest offset")
    else
      let code := toString (beValue ((digest.drop offset).take 4) % 2 ^ 31 % 10 ^ digits)
      .ok (String.ofList (replicate (digits - code.length) '0') ++ code)

def secondsRemaining (period : Nat) (timestamp : Int) : Nat :=
  period - (timestamp % period).toNat

structure TotpCode where
  code : String
  secondsRemaining : Nat
deriving DecidableEq

def generateTotpCode (hmac : TotpAlgorithm → Bytes → Bytes → Bytes) (E : Env) (db : LocalDb)
    (entry : Uuid) (now : Int) : Except PmError TotpCode := do
  let (row, stored) ← readTotpRow db entry
  let secret ← normalizeSecret E.decodeBase32 stored.secret
  let code ← totpCode hmac E.decodeBase32 secret row.algorithm row.digits row.period now
  .ok ⟨code, secondsRemaining row.period now⟩

/-! ## What is returned -/

/-- No reader returns the key. -/
def SshKeyHidden (db : LocalDb) (id : Uuid) : Prop :=
  (∀ key, getSshKey db id ≠ .ok key) ∧ (∀ k ∈ listSshKeys db, k.keyId ≠ id) ∧
    ∀ order p, ∀ k ∈ (listSshKeysPaginated order db p).items, k.keyId ≠ id

/-- No reader returns the metadata or a code of the secret. -/
def TotpHidden (hmac : TotpAlgorithm → Bytes → Bytes → Bytes) (E : Env) (db : LocalDb)
    (id : Uuid) : Prop :=
  (∀ entry row, getTotpMetadata db entry = .ok row → row.totpId ≠ id) ∧
    ∀ entry r, db.totpOf entry = some (id, r) → ∀ now code,
      generateTotpCode hmac E db entry now ≠ .ok code

/-- The stored numbers fit their types, and the algorithm is known. -/
def Totp.Served (c : Totp) : Prop :=
  c.Readable ∧ (TotpAlgorithm.ofText c.algorithm).isSome = true

variable {db db' : LocalDb} {id entry : Uuid} {f : SyncCols → SyncCols}

theorem mem_listSshKeys {k} :
    k ∈ listSshKeys db ↔ ∃ r, db.row .sshKey k.keyId = some r ∧ sshKeySummary (k.keyId, r) = k := by
  constructor
  · intro h
    obtain ⟨⟨id, r⟩, hr, rfl⟩ := mem_map.mp h
    exact ⟨r, Table.mem_rows.mp hr, rfl⟩
  · rintro ⟨r, hr, hk⟩
    exact mem_map.mpr ⟨(k.keyId, r), Table.mem_rows.mpr hr, hk⟩

/-- Every row of the table is listed. -/
theorem sshKeyHidden_iff : SshKeyHidden db id ↔ db.row .sshKey id = none := by
  constructor
  · rintro ⟨-, hlist, -⟩
    refine eq_none_iff_forall_ne_some.mpr fun r hr => ?_
    exact hlist (sshKeySummary (id, r)) (mem_listSshKeys.mpr ⟨r, hr, rfl⟩) rfl
  · intro h
    have hlist : ∀ k ∈ listSshKeys db, k.keyId ≠ id := by
      rintro k hk rfl
      obtain ⟨r, hr, -⟩ := mem_listSshKeys.mp hk
      cases h.symm.trans hr
    refine ⟨fun key hkey => ?_, hlist, fun order p k hk => hlist k ?_⟩
    · unfold getSshKey at hkey
      rw [h] at hkey
      cases hkey
    · have hsorted := mem_of_mem_drop (mem_of_mem_take hk)
      rwa [mem_insertionSort, MapOrder.mem_arrange] at hsorted

theorem readTotpRow_ok {row c} (h : readTotpRow db entry = .ok (row, c)) :
    ∃ r, db.totpOf entry = some (row.totpId, r) ∧ r.content.Served := by
  unfold readTotpRow at h
  split at h
  · cases h
  next id r hrow =>
  split at h
  · next digits period hdigits hperiod =>
    split at h
    · cases h
    next algorithm halgorithm =>
    cases h
    refine ⟨r, hrow, ⟨columnBelow_isOk.mp ⟨_, hdigits⟩, ?_⟩, isSome_of_eq_some halgorithm⟩
    simpa using columnBelow_isOk.mp ⟨_, hperiod⟩
  · cases h

theorem readTotpRow_of_served {r} (hrow : db.totpOf entry = some (id, r)) (h : r.content.Served) :
    ∃ row, readTotpRow db entry = .ok (row, r.content) ∧ row.totpId = id := by
  obtain ⟨⟨hdigits, hperiod⟩, halgorithm⟩ := h
  have hdigits : ∃ n, columnBelow 256 3 r.content.digits = .ok n := columnBelow_isOk.mpr hdigits
  have hperiod : ∃ n, columnBelow (2 ^ 32) 4 r.content.period = .ok n :=
    columnBelow_isOk.mpr (by simpa using hperiod)
  obtain ⟨digits, hd⟩ := hdigits
  obtain ⟨period, hp⟩ := hperiod
  obtain ⟨algorithm, ha⟩ := isSome_iff_exists.mp halgorithm
  unfold readTotpRow
  rw [hrow]
  simp only [hd, hp, ha]
  exact ⟨_, rfl, rfl⟩

theorem totpHidden_iff {hmac E} :
    TotpHidden hmac E db id ↔ ∀ entry r, db.totpOf entry = some (id, r) → ¬ r.content.Served := by
  constructor
  · rintro ⟨hmeta, -⟩ entry r hrow hserved
    obtain ⟨row, hread, hid⟩ := readTotpRow_of_served hrow hserved
    refine hmeta entry row ?_ hid
    unfold getTotpMetadata
    rw [hread]
    rfl
  · intro h
    constructor
    · rintro entry row hmeta rfl
      obtain ⟨⟨row, c⟩, hread, rfl⟩ := map_ok hmeta
      obtain ⟨r, hrow, hserved⟩ := readTotpRow_ok hread
      exact h entry r hrow hserved
    · intro entry r hrow now code hcode
      obtain ⟨⟨row, c⟩, hread, -⟩ := bind_ok hcode
      obtain ⟨r', hrow', hserved⟩ := readTotpRow_ok hread
      cases hrow.symm.trans hrow'
      exact h entry r hrow hserved

/-! ## Remote deletions -/

/-- The queries of the TOTP readers do not see the bookkeeping columns. -/
theorem totpOf_updateCols :
    (db.updateCols .totpSecret id f).totpOf entry = (db.totpOf entry).map fun p =>
      (p.1, if p.1 = id then { p.2 with sync := f p.2.sync } else p.2) := by
  show (db.totpSecrets.rows.map _).find? _ = (db.totpSecrets.rows.find? _).map _
  rw [find?_map]
  congr 2
  funext p
  dsimp only [Function.comp]
  split <;> rfl

/-- **Remote deletions do not hide.** After an accepted tombstone an SSH key is hidden from
the readers exactly when it had no row, and a TOTP secret exactly when no query found a row of
it that the readers can serve. -/
theorem remote_deletion_hides_iff (hmac : TotpAlgorithm → Bytes → Bytes → Bytes) {E : Env}
    {now : Int} {blob : SyncEntryBlob} {effect : ApplyEffect}
    (h : applyRemoteEntryInTx E now db blob = .ok (db', effect)) (htomb : blob.isTombstone = true)
    (heffect : effect = .tombstoned ∨ effect = .skipped) :
    (blob.entryType = .sshKey →
      (SshKeyHidden db' blob.syncId ↔ db.row .sshKey blob.syncId = none)) ∧
    (blob.entryType = .totpSecret → (TotpHidden hmac E db' blob.syncId ↔
        ∀ entry r, db.totpOf entry = some (blob.syncId, r) → ¬ r.content.Served)) := by
  have hdb : db' = db ∨ ∃ f, db' = db.updateCols blob.entryType blob.syncId f := by
    cases applyRemoteEntryInTx_step h with
    | skipped => exact .inl rfl
    | tombstoned => exact .inr ⟨_, rfl⟩
    | updated _ _ _ hlive | inserted _ hlive => cases hlive.symm.trans htomb
    | recorded | keptLocal => exact absurd heffect (by decide)
  constructor
  · intro ht
    rw [sshKeyHidden_iff]
    rcases hdb with rfl | ⟨f, rfl⟩
    · rfl
    rw [ht, row_updateCols, if_pos ⟨rfl, rfl⟩, map_eq_none_iff]
  · intro ht
    rw [totpHidden_iff]
    rcases hdb with rfl | ⟨f, rfl⟩
    · rfl
    simp only [ht, totpOf_updateCols]
    constructor
    · intro hall entry r hrow
      exact hall entry { r with sync := f r.sync } (by rw [hrow]; simp)
    · intro hall entry r hrow
      obtain ⟨⟨id, r⟩, hfound, hr⟩ := map_eq_some_iff.mp hrow
      cases hr
      rw [apply_ite SyncRow.content, ite_self]
      exact hall entry r hfound

def sampleTombstone (t : SyncEntryType) (id : Uuid) : SyncEntryBlob :=
  ⟨id, t, 2, 0, [], true, 3⟩

/-- An SSH key and a TOTP secret that have been pulled. -/
def pulledObjects : LocalDb :=
  let key : SshKey := ⟨"key", none, "RSA", none, "", "private", "", 0⟩
  let totp : Totp := ⟨9, "SECRET", "SHA1", 6, 30, none, none⟩
  ((fresh (some 1) 1).putRow .sshKey 7 ⟨key, 0, .applied 1 0⟩).putRow .totpSecret 8
    ⟨totp, 0, .applied 1 0⟩

/-- Of three tombstones for a vault with two objects, the one that names neither hides. -/
theorem remote_deletion_hides_iff_pulled :
    SshKeyHidden pulledObjects 6 ∧
      (∃ db', applyRemoteEntryInTx sampleEnv 5 pulledObjects (sampleTombstone .sshKey 7)
          = .ok (db', .tombstoned) ∧ ¬ SshKeyHidden db' 7) ∧
      ∃ db', applyRemoteEntryInTx sampleEnv 5 pulledObjects (sampleTombstone .totpSecret 8)
          = .ok (db', .tombstoned) ∧ ¬ TotpHidden (fun _ _ _ => []) sampleEnv db' 8 := by
  have habsent : applyRemoteEntryInTx sampleEnv 5 pulledObjects (sampleTombstone .sshKey 6)
      = .ok (pulledObjects, .skipped) := rfl
  obtain ⟨db₁, hkey⟩ : ∃ db', applyRemoteEntryInTx sampleEnv 5 pulledObjects
      (sampleTombstone .sshKey 7) = .ok (db', .tombstoned) := ⟨_, rfl⟩
  obtain ⟨db₂, htotp⟩ : ∃ db', applyRemoteEntryInTx sampleEnv 5 pulledObjects
      (sampleTombstone .totpSecret 8) = .ok (db', .tombstoned) := ⟨_, rfl⟩
  have hnone := (remote_deletion_hides_iff (fun _ _ _ => []) habsent rfl (.inr rfl)).1 rfl
  have hseven := (remote_deletion_hides_iff (fun _ _ _ => []) hkey rfl (.inl rfl)).1 rfl
  have height := (remote_deletion_hides_iff (fun _ _ _ => []) htotp rfl (.inl rfl)).2 rfl
  refine ⟨hnone.mpr rfl, ⟨db₁, hkey, fun h => ?_⟩, db₂, htotp, fun h => ?_⟩
  · cases hseven.mp h
  · exact height.mp h 9 _ rfl ⟨by decide, rfl⟩

/-- A peer deletes both; they are still returned, the code of the secret included. -/
theorem deleted_objects_still_read :
    (∃ db', applyRemoteEntryInTx sampleEnv 5 pulledObjects (sampleTombstone .sshKey 7) =
        .ok (db', .tombstoned) ∧
      (db'.cols .sshKey 7).map (·.isDeleted) = some true ∧
      (getSshKey db' 7).toOption.map (·.2.2.content.privateKey) = some "private" ∧
      (listSshKeys db').map (·.keyId) = [7] ∧
      (listSshKeysPaginated .insertion db' ⟨0, 50⟩).items.map (·.keyId) = [7]) ∧
    ∃ db', applyRemoteEntryInTx sampleEnv 5 pulledObjects (sampleTombstone .totpSecret 8) =
        .ok (db', .tombstoned) ∧
      (db'.cols .totpSecret 8).map (·.isDeleted) = some true ∧
      (getTotpMetadata db' 9).toOption.map (·.totpId) = some 8 ∧
      (generateTotpCode (fun _ _ _ => replicate 20 1) sampleEnv db' 9 59).toOption =
        some ⟨"843009", 1⟩ := by
  refine ⟨⟨_, rfl, ?_⟩, _, rfl, ?_⟩
  · decide +kernel
  · decide +kernel

end SentinelPass
