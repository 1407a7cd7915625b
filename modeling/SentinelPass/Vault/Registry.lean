import SentinelPass.Daemon.Entries
import SentinelPass.Sync.LocalChanges
import SentinelPass.Sync.Resolve

/-!
# The equality index of the credential registry

`secret_equality_index` holds one tag for each entry whose secret can be compared
with others (`registry/mod.rs`); the reports group entries by tag and never look
at the entries again. Nothing in the schema keeps the table in step with
`entries`: every write path has its own hook, in `vault/mod.rs` for local writes,
in `apply_credential` for remote ones, and `sweep_registry_index` rebuilds what
is missing.

A tag is the HMAC of the secret under a key of the vault. Tags are of any type
`τ` here, and the HMAC is a function into it. A registry write that fails inside an
apply (an I/O error) is not modelled.
-/

namespace SentinelPass

open Lib List Option LocalDb Table SyncRow
open Daemon (isRetrievableSecret)

/-! ## The tables -/

/-- A row of `secret_equality_index`. `tag` is what `tag_cipher` opens to. -/
structure EqualityRow (τ : Type) where
  tag : τ
  (algorithmVersion equalityKeyId : Int64)
  updatedAt : Int

/-- `secret_equality_index`, and `entry_lifecycle.password_rotated_at`. -/
structure Registry (τ : Type) where
  equalityIndex : Table Uuid (EqualityRow τ)
  rotatedAt : Table Uuid Int

def equalityAlgorithmVersion : Int64 := 1

def equalityKeyId : Int64 := 1

/-- Result of one upsert. -/
inductive TagUpsert
  | inserted
  | unchanged
  | rotated
  | rekeyed
  | removed
deriving DecidableEq

def isEqualityEligible (credentialType : CredentialType) (secret : String) : Bool :=
  isRetrievableSecret credentialType && secret ≠ ""

section Writes

variable {τ : Type}

/-- The row `upsert_equality_tag` writes. -/
def currentRow (tag : τ) (now : Int) : EqualityRow τ where
  tag := tag
  algorithmVersion := equalityAlgorithmVersion
  equalityKeyId := equalityKeyId
  updatedAt := now

/-- `INSERT` or `update_tag`: the same row either way. -/
def Registry.writeTag (reg : Registry τ) (id : Uuid) (tag : τ) (now : Int) : Registry τ :=
  { reg with
    equalityIndex := reg.equalityIndex.upsert id (currentRow tag now) fun _ => currentRow tag now }

def stampRotation (reg : Registry τ) (id : Uuid) (now : Int) : Registry τ :=
  { reg with rotatedAt := reg.rotatedAt.upsert id now fun _ => now }

/-- `upsert_equality_tag_with_key`. -/
def upsertEqualityTag [DecidableEq τ] (tag : String → τ) (reg : Registry τ) (id : Uuid)
    (credentialType : CredentialType) (secret : String) (now : Int) : Registry τ × TagUpsert :=
  if isEqualityEligible credentialType secret then
    match reg.equalityIndex.get? id with
    | none => (reg.writeTag id (tag secret) now, .inserted)
    | some prior =>
      if prior.equalityKeyId ≠ equalityKeyId then
        (reg.writeTag id (tag secret) now, .rekeyed)
      else if prior.tag = tag secret then (reg, .unchanged)
      else (stampRotation (reg.writeTag id (tag secret) now) id now, .rotated)
  else ({ reg with equalityIndex := reg.equalityIndex.erase id }, .removed)

def purgeRegistryRows (reg : Registry τ) (id : Uuid) : Registry τ where
  equalityIndex := reg.equalityIndex.erase id
  rotatedAt := reg.rotatedAt.erase id

def Registry.tagOf (reg : Registry τ) (id : Uuid) : Option τ :=
  (reg.equalityIndex.get? id).map (·.tag)

/-- The reuse groups of `registry_overview`: the entries under one tag. -/
def Registry.tagGroup [DecidableEq τ] (reg : Registry τ) (tag : τ) : List Uuid :=
  (reg.equalityIndex.rows.filter fun row => row.2.tag = tag).map (·.1)

def eligibleSecret (credentialType : CredentialType) (secret : String) : Option String :=
  if isEqualityEligible credentialType secret then some secret else none

open Registry

theorem tagOf_writeTag (reg : Registry τ) (id k tag now) :
    (reg.writeTag id tag now).tagOf k = if k = id then some tag else reg.tagOf k := by
  unfold tagOf writeTag
  rw [get?_upsert]
  split
  · cases reg.equalityIndex.get? id <;> rfl
  · rfl

/-- A write of a tag touches the entry it is for. -/
theorem tagOf_upsertEqualityTag [DecidableEq τ] (tag : String → τ) (reg : Registry τ)
    (id k : Uuid) (credentialType : CredentialType) (secret : String) (now : Int) :
    (upsertEqualityTag tag reg id credentialType secret now).1.tagOf k =
      if k = id then (eligibleSecret credentialType secret).map tag else reg.tagOf k := by
  have hwrite := tagOf_writeTag reg id k (tag secret) now
  unfold upsertEqualityTag eligibleSecret
  by_cases helig : isEqualityEligible credentialType secret
  · rw [if_pos helig, if_pos helig]
    cases hprior : reg.equalityIndex.get? id with
    | none => exact hwrite
    | some prior =>
      dsimp only
      split
      · exact hwrite
      split
      · -- the tag is the one that is there already
        next hsame =>
        split
        · next hk =>
          subst hk
          simp [tagOf, hprior, hsame]
        · rfl
      · exact hwrite
  · rw [if_neg helig, if_neg helig]
    unfold tagOf
    rw [get?_erase]
    split <;> rfl

theorem tagOf_purgeRegistryRows (reg : Registry τ) (id k : Uuid) :
    (purgeRegistryRows reg id).tagOf k = if k = id then none else reg.tagOf k := by
  unfold tagOf purgeRegistryRows
  rw [get?_erase]
  split <;> rfl

theorem mem_tagGroup [DecidableEq τ] {reg : Registry τ} {tag id} :
    id ∈ reg.tagGroup tag ↔ reg.tagOf id = some tag := by
  unfold tagGroup tagOf
  rw [List.mem_map, Option.map_eq_some_iff]
  constructor
  · rintro ⟨⟨k, row⟩, hmem, rfl⟩
    rw [mem_filter, mem_rows] at hmem
    exact ⟨row, hmem.1, of_decide_eq_true hmem.2⟩
  · rintro ⟨row, hrow, htag⟩
    exact ⟨(id, row), mem_filter.mpr ⟨mem_rows.mpr hrow, decide_eq_true htag⟩, rfl⟩

end Writes

/-! ## The write paths -/

/-- The vault database with its registry. -/
structure RegistryState (τ : Type) where
  db : LocalDb
  registry : Registry τ

/-- What `SweepReport` counts. -/
structure SweepReport where
  (scanned inserted unchanged rotated rekeyed removed orphansPruned : Nat)

def SweepReport.count (r : SweepReport) : TagUpsert → SweepReport
  | .inserted => { r with inserted := r.inserted + 1 }
  | .unchanged => { r with unchanged := r.unchanged + 1 }
  | .rotated => { r with rotated := r.rotated + 1 }
  | .rekeyed => { r with rekeyed := r.rekeyed + 1 }
  | .removed => { r with removed := r.removed + 1 }

section Paths

variable {τ : Type} [DecidableEq τ] (tag : String → τ)

/-- The registry write of a local write path, in its transaction. -/
def localHook (reg : Registry τ) : LocalOp → Registry τ
  | .addEntry id e now => (upsertEqualityTag tag reg id e.credentialType e.password now).1
  | .updateEntry id e now => (upsertEqualityTag tag reg id e.credentialType e.password now).1
  | .deleteEntry id _ => purgeRegistryRows reg id
  | _ => reg

/-- The registry write of `apply_credential`; `r` is the row the apply left. After
the preamble the row is purged if it is deleted by then; content that was
written is tagged. -/
def credentialHook (reg : Registry τ) (id : Uuid) (r : SyncRow Credential) (now : Int) :
    ApplyEffect → Registry τ
  | .recorded | .keptLocal | .tombstoned =>
    if r.sync.isDeleted then purgeRegistryRows reg id else reg
  | .updated | .inserted =>
    (upsertEqualityTag tag reg id r.content.credentialType r.content.password now).1
  | .skipped => reg

/-- The registry write of an apply: SSH keys and TOTP secrets have none. -/
def applyHook (reg : Registry τ) (db' : LocalDb) (blob : SyncEntryBlob) (now : Int)
    (effect : ApplyEffect) : Registry τ :=
  if blob.entryType = .credential then
    match db'.row .credential blob.syncId with
    | some r => credentialHook tag reg blob.syncId r now effect
    | none => reg
  else reg

def sweepRow (now : Int) (acc : Registry τ × SweepReport) (row : Uuid × SyncRow Credential) :
    Registry τ × SweepReport :=
  if isRetrievableSecret row.2.content.credentialType then
    let (reg, outcome) := upsertEqualityTag tag acc.1 row.1 row.2.content.credentialType
      row.2.content.password now
    (reg, acc.2.count outcome)
  else acc

/-- `SELECT … FROM entries WHERE is_deleted = 0`. -/
def LocalDb.liveEntries (db : LocalDb) : List (Uuid × SyncRow Credential) :=
  db.entries.rows.filter fun row => !row.2.sync.isDeleted

/-- `entry_id IN (SELECT entry_id FROM entries WHERE is_deleted = 0)`. -/
def LocalDb.isLiveEntry (db : LocalDb) (id : Uuid) : Bool :=
  (db.row .credential id).any fun r => !r.sync.isDeleted

/-- `DELETE FROM … WHERE entry_id NOT IN (…)`, over the tables. -/
def pruneOrphans (db : LocalDb) (reg : Registry τ) : Registry τ where
  equalityIndex := reg.equalityIndex.filter fun id _ => db.isLiveEntry id
  rotatedAt := reg.rotatedAt.filter fun id _ => db.isLiveEntry id

def sweepRegistryIndex (db : LocalDb) (reg : Registry τ) (now : Int) : Registry τ × SweepReport :=
  let (swept, report) :=
    db.liveEntries.foldl (sweepRow tag now) (reg, ⟨db.liveEntries.length, 0, 0, 0, 0, 0, 0⟩)
  let pruned := pruneOrphans db swept
  let orphans := (swept.equalityIndex.rows.length - pruned.equalityIndex.rows.length) +
    (swept.rotatedAt.rows.length - pruned.rotatedAt.rows.length)
  (pruned, { report with orphansPruned := orphans })

/-- `resolve_conflict_take_remote`, with the registry write of its apply. -/
def takeRemoteTagged (E : Env) (now : Int) (s : RegistryState τ) (blob : SyncEntryBlob) :
    Except PmError (RegistryState τ) := do
  let (db', effect) ← applyRemoteEntryInTx E now
    (s.db.updateCols blob.entryType blob.syncId (.steppedBelow blob.syncVersion)) blob
  .ok ⟨db'.dropConflict blob.syncId, applyHook tag s.registry db' blob now effect⟩

/-- What happens to a vault. -/
inductive RegistryAction
  | edit (op : LocalOp)
  | acks (mutations : List MutationV2) (results : List MutationResult) (cursor : UInt64)
      (now : Int)
  | apply (blob : SyncEntryBlob) (now : Int)
  | keepLocal (object : Uuid)
  | takeRemote (object : Uuid) (now : Int)
  | sweep (now : Int)

def registryStep (E : Env) (s : RegistryState τ) : RegistryAction → Option (RegistryState τ)
  | .edit op =>
    (op.run E.decodeBase32 s.db).toOption.map fun db => ⟨db, localHook tag s.registry op⟩
  | .acks mutations results cursor now =>
    some { s with db := (applyPushAcks s.db mutations results cursor now).1 }
  | .apply blob now =>
    (applyRemoteEntryInTx E now s.db blob).toOption.map fun done =>
      ⟨done.1, applyHook tag s.registry done.1 blob now done.2⟩
  | .keepLocal object =>
    (s.db.syncConflicts.get? object).map fun r =>
      { s with db := resolveConflictKeepLocal s.db object r.objectType r.remoteVersion.toUInt64 }
  | .takeRemote object now =>
    (s.db.syncConflicts.get? object).bind fun r =>
      (takeRemoteTagged tag E now s (r.blob object)).toOption
  | .sweep now => some { s with registry := (sweepRegistryIndex tag s.db s.registry now).1 }

/-- A vault starts with no entry and an empty registry. -/
def registryMachine (E : Env) : Machine (RegistryState τ) RegistryAction where
  init s := (∃ vault keyEpoch, s.db = .fresh vault keyEpoch) ∧ s.registry = ⟨.empty, .empty⟩
  step := registryStep tag E

end Paths

/-! ## What the live rows say -/

/-- The secret a row may be compared by: none once it is deleted. -/
def SyncRow.secret (r : SyncRow Credential) : Option String :=
  if r.sync.isDeleted then none else eligibleSecret r.content.credentialType r.content.password

/-- The secret of a live, retrievable entry, if it is not empty. -/
def LocalDb.liveSecret (db : LocalDb) (id : Uuid) : Option String :=
  (db.row .credential id).bind secret

theorem liveSecret_of_row {db : LocalDb} {id : Uuid} {r : SyncRow Credential}
    (h : db.row .credential id = some r) : db.liveSecret id = r.secret := by
  unfold liveSecret
  rw [h]
  rfl

theorem liveSecret_congr {db db' : LocalDb} {id : Uuid}
    (h : db'.row .credential id = db.row .credential id) :
    db'.liveSecret id = db.liveSecret id := by
  unfold liveSecret
  rw [h]

theorem liveSecret_eq_some {db : LocalDb} {id secret} :
    db.liveSecret id = some secret ↔ ∃ r, db.row .credential id = some r ∧
      r.sync.isDeleted = false ∧ isRetrievableSecret r.content.credentialType = true ∧
      r.content.password = secret ∧ secret ≠ "" := by
  unfold liveSecret
  rw [bind_eq_some_iff]
  refine exists_congr fun r => and_congr_right fun _ => ?_
  unfold SyncRow.secret eligibleSecret isEqualityEligible
  constructor
  · intro h
    rw [ite_none_left_eq_some, ite_none_right_eq_some, Bool.and_eq_true,
      decide_eq_true_eq, some.injEq] at h
    obtain ⟨hlive, ⟨htype, hne⟩, rfl⟩ := h
    exact ⟨by simpa using hlive, htype, rfl, hne⟩
  · rintro ⟨hlive, htype, rfl, hne⟩
    simp [hlive, htype, hne]

theorem liveSecret_putRow (db : LocalDb) (id k : Uuid) (r : SyncRow Credential) :
    (db.putRow .credential id r).liveSecret k = if k = id then r.secret else db.liveSecret k := by
  split
  · next hk =>
    subst hk
    exact liveSecret_of_row (row_putRow_self db .credential k r)
  · next hk => exact liveSecret_congr (row_putRow_of_ne (t := .credential) db (fun h => hk h.2) r)

theorem row_updateCols_of_some {db : LocalDb} {t id r} (f) (h : db.row t id = some r) :
    (db.updateCols t id f).row t id = some { r with sync := f r.sync } := by
  rw [row_updateCols, if_pos ⟨rfl, rfl⟩, h]
  rfl

theorem secret_updateSync {r : SyncRow Credential} {c} (h : c.isDeleted = r.sync.isDeleted) :
    secret { r with sync := c } = r.secret := by
  unfold secret
  rw [h]

theorem liveSecret_updateCols (db : LocalDb) (t id k) {f}
    (hf : ∀ c, (f c).isDeleted = c.isDeleted) :
    (db.updateCols t id f).liveSecret k = db.liveSecret k := by
  unfold liveSecret
  rw [row_updateCols]
  split
  · cases db.row .credential k with
    | none => rfl
    | some r => exact secret_updateSync (hf r.sync)
  · rfl

theorem liveSecret_applyPushAcks (db mutations results cursor now k) :
    (applyPushAcks db mutations results cursor now).1.liveSecret k = db.liveSecret k := by
  have hone : ∀ (db : LocalDb) (m : MutationV2) (e : AckEffect),
      (e.run db m now).liveSecret k = db.liveSecret k := by
    intro db m e
    cases e with
    | applied =>
      exact (liveSecret_congr (row_dropStaleConflict ..)).trans
        (liveSecret_updateCols db _ _ k fun _ => rfl)
    | conflicted => exact liveSecret_updateCols db _ _ k fun _ => rfl
    | rebased current => exact liveSecret_updateCols db _ _ k fun _ => rfl
    | suspicious => rfl
    | rejected => rfl
  have hfold : (results.foldl (ackOne mutations now) db).liveSecret k = db.liveSecret k := by
    induction results generalizing db with
    | nil => rfl
    | cons result rest ih =>
      rw [foldl_cons, ih]
      unfold ackOne
      split
      · rfl
      exact hone db _ _
  exact (liveSecret_congr (row_setConfig ..)).trans hfold

/-! ## The index says what the live rows say -/

section Exactness

variable {τ : Type} {tag : String → τ} {s : RegistryState τ} {db' db : LocalDb}

/-- Every entry has the tag of its live secret, and no other entry has one. -/
def Exact (tag : String → τ) (s : RegistryState τ) : Prop :=
  ∀ id, s.registry.tagOf id = (s.db.liveSecret id).map tag

theorem Exact.of_one {s'} (h : Exact tag s) (id)
    (hself : s'.registry.tagOf id = (s'.db.liveSecret id).map tag)
    (hreg : ∀ k, k ≠ id → s'.registry.tagOf k = s.registry.tagOf k)
    (hdb : ∀ k, k ≠ id → s'.db.liveSecret k = s.db.liveSecret k) : Exact tag s' := by
  intro k
  by_cases hk : k = id
  · rw [hk]
    exact hself
  · rw [hreg k hk, hdb k hk]
    exact h k

theorem Exact.of_eq (h : Exact tag s) (hdb : ∀ k, db'.liveSecret k = s.db.liveSecret k) :
    Exact tag ⟨db', s.registry⟩ := by
  intro k
  rw [hdb k]
  exact h k

theorem Exact.purge (h : Exact tag s) (id : Uuid) (hgone : db'.liveSecret id = none)
    (hdb : ∀ k, k ≠ id → db'.liveSecret k = s.db.liveSecret k) :
    Exact tag ⟨db', purgeRegistryRows s.registry id⟩ := by
  have htag := tagOf_purgeRegistryRows s.registry id
  refine h.of_one id ?_ (fun k hk => ?_) hdb
  · rw [htag, if_pos rfl, hgone]
    rfl
  · exact (htag k).trans (if_neg hk)

/-- After the preamble of an apply: the row is as it was but for bookkeeping, and
purged if it is deleted. -/
theorem Exact.preamble {s : RegistryState τ} {db' : LocalDb} (h : Exact tag s) {id : Uuid}
    {r : SyncRow Credential} {c : SyncCols} (hr : s.db.row .credential id = some r)
    (hrow : db'.row .credential id = some { r with sync := c })
    (hkeep : c.isDeleted = false → r.sync.isDeleted = false)
    (hdb : ∀ k, k ≠ id → db'.liveSecret k = s.db.liveSecret k) :
    Exact tag ⟨db', if c.isDeleted then purgeRegistryRows s.registry id else s.registry⟩ := by
  have hself := liveSecret_of_row hrow
  cases hdel : c.isDeleted with
  | true =>
    refine h.purge id ?_ hdb
    rw [hself]
    exact if_pos hdel
  | false =>
    refine h.of_eq fun k => ?_
    by_cases hk : k = id
    · rw [hk, hself, liveSecret_of_row hr]
      exact secret_updateSync (hdel.trans (hkeep hdel).symm)
    · exact hdb k hk

theorem Exact.pruneOrphans {reg} (h : Exact tag ⟨db, reg⟩) :
    Exact tag ⟨db, SentinelPass.pruneOrphans db reg⟩ := by
  intro k
  change ((reg.equalityIndex.filter fun id _ => db.isLiveEntry id).get? k).map _ = _
  rw [get?_filter]
  cases hlive : db.isLiveEntry k with
  | true =>
    have hkeep : (reg.equalityIndex.get? k).filter (fun _ => true) = reg.equalityIndex.get? k := by
      cases reg.equalityIndex.get? k <;> rfl
    rw [hkeep]
    exact h k
  | false =>
    have hnone : db.liveSecret k = none := by
      rw [eq_none_iff_forall_ne_some]
      intro secret hsome
      obtain ⟨r, hr, hdel, -⟩ := liveSecret_eq_some.mp hsome
      simp [isLiveEntry, hr, hdel] at hlive
    rw [hnone]
    cases reg.equalityIndex.get? k <;> rfl

variable [DecidableEq τ]

theorem Exact.upsert (h : Exact tag s) (id) (r : SyncRow Credential) (now)
    (hlive : r.sync.isDeleted = false) :
    Exact tag ⟨s.db.putRow .credential id r,
      (upsertEqualityTag tag s.registry id r.content.credentialType r.content.password now).1⟩ := by
  have htag := fun k => tagOf_upsertEqualityTag tag s.registry id k r.content.credentialType
    r.content.password now
  have hdb := fun k => liveSecret_putRow s.db id k r
  refine h.of_one id ?_ (fun k hk => ?_) (fun k hk => ?_)
  · rw [htag, hdb, if_pos rfl, if_pos rfl]
    unfold secret
    rw [hlive]
    rfl
  · exact (htag k).trans (if_neg hk)
  · exact (hdb k).trans (if_neg hk)

theorem LocalStep.exact {op}
    (hstep : LocalStep s.db op db') (h : Exact tag s)
    (hlive : ∀ id e now, op = .updateEntry id e now →
      ∀ r, s.db.row .credential id = some r → r.sync.isDeleted = false) :
    Exact tag ⟨db', localHook tag s.registry op⟩ := by
  cases hstep with
  | @addEntry syncId e now hfresh => exact h.upsert syncId (newEntryRow e now) now rfl
  | @updateEntry id e now r hr hmax =>
    exact h.upsert id (updatedEntryRow r e (r.sync.syncVersion + 1) now) now
      (hlive id e now rfl r hr)
  | @deleteEntry id now r hr hnot hmax =>
    have hdb := fun k => liveSecret_putRow s.db id k
      (deletedEntryRow r (r.sync.syncVersion + 1) now)
    refine h.purge id ?_ fun k hk => (hdb k).trans (if_neg hk)
    rw [hdb, if_pos rfl]
    rfl
  -- the other tables are not the entries
  | addSshKey _ =>
    exact h.of_eq fun k => liveSecret_congr
      (row_putRow_of_ne s.db (by simp) _)
  | deleteSshKey => exact h.of_eq fun k => rfl
  | addTotpSecret _ _ =>
    exact h.of_eq fun k => liveSecret_congr (row_putRow_of_ne s.db (by simp) _)
  | readdTotpSecret _ _ =>
    exact h.of_eq fun k => liveSecret_congr (row_putRow_of_ne s.db (by simp) _)
  | removeTotpSecret _ => exact h.of_eq fun k => rfl

theorem ApplyStep.exact {E now blob effect} (hstep : ApplyStep E now s.db blob effect db')
    (h : Exact tag s) : Exact tag ⟨db', applyHook tag s.registry db' blob now effect⟩ := by
  have hother : ∀ k, ¬ (SyncEntryType.credential = blob.entryType ∧ k = blob.syncId) →
      db'.liveSecret k = s.db.liveSecret k := fun k hk => liveSecret_congr (hstep.row_of_ne hk)
  unfold applyHook
  by_cases htype : blob.entryType = .credential
  · rw [if_pos htype]
    obtain ⟨object, type, version, modified, payload, tombstone, origin⟩ := blob
    cases htype
    have hother : ∀ k, k ≠ object → db'.liveSecret k = s.db.liveSecret k := fun k hk =>
      hother k fun hobj => hk hobj.2
    cases hstep with
    | @recorded r hr hcon =>
      have hkept := @row_recordConflict
        ⟨object, .credential, version, modified, payload, tombstone, origin⟩ s.db now .credential
        object
      have hrow := row_updateCols_of_some SyncCols.conflicted (hkept.trans hr)
      rw [hrow]
      exact h.preamble hr hrow id hother
    | @keptLocal r hr hcon hkeep =>
      have hrow : s.db.row .credential object = some r := hr
      rw [hrow]
      exact h.preamble hr hrow id hother
    | @tombstoned r hr hcon hacc htomb =>
      have hrow := row_updateCols_of_some (.tombstoned version now) hr
      rw [hrow]
      exact h.preamble hr hrow (fun hlive => absurd hlive (by simp [SyncCols.tombstoned])) hother
    | @updated r p hr hcon hacc htomb hp =>
      rw [row_putRow_self]
      exact h.upsert object _ now rfl
    | @inserted p hr htomb hv hp =>
      rw [row_putRow_self]
      exact h.upsert object _ now rfl
    | skipped hr hskip =>
      have hrow : s.db.row .credential object = none := hr
      rw [hrow]
      exact h
  · rw [if_neg htype]
    exact h.of_eq fun k => hother k fun hobj => htype hobj.1.symm

theorem Exact.sweepRow {acc row} (h : Exact tag ⟨db, acc.1⟩) (now)
    (hrow : row ∈ db.liveEntries) : Exact tag ⟨db, (sweepRow tag now acc row).1⟩ := by
  obtain ⟨id, r⟩ := row
  obtain ⟨hmem, hlive⟩ := mem_filter.mp hrow
  have hr : db.row .credential id = some r := mem_rows.mp hmem
  have htag := fun k => tagOf_upsertEqualityTag tag acc.1 id k r.content.credentialType
    r.content.password now
  unfold SentinelPass.sweepRow
  split
  · refine h.of_one id ?_ (fun k hk => (htag k).trans (if_neg hk)) fun _ _ => rfl
    have hsecret : r.secret = eligibleSecret r.content.credentialType r.content.password :=
      if_neg (by simpa using hlive)
    rw [liveSecret_of_row hr, hsecret]
    exact (htag id).trans (if_pos rfl)
  · exact h

theorem Exact.sweep (h : Exact tag s) (now : Int) :
    Exact tag ⟨s.db, (sweepRegistryIndex tag s.db s.registry now).1⟩ := by
  -- the loop writes live rows only, each with its own tag
  have hloop : ∀ (rows : List (Uuid × SyncRow Credential)) (acc : Registry τ × SweepReport),
      (∀ row ∈ rows, row ∈ s.db.liveEntries) → Exact tag ⟨s.db, acc.1⟩ →
      Exact tag ⟨s.db, (rows.foldl (SentinelPass.sweepRow tag now) acc).1⟩ := by
    intro rows
    induction rows with
    | nil => exact fun _ _ hacc => hacc
    | cons row rest ih =>
      intro acc hmem hacc
      refine ih _ (fun x hx => hmem x (mem_cons_of_mem _ hx)) ?_
      exact hacc.sweepRow now (hmem row mem_cons_self)
  have hswept := hloop s.db.liveEntries (s.registry, ⟨s.db.liveEntries.length, 0, 0, 0, 0, 0, 0⟩)
    (fun _ hrow => hrow) h
  exact hswept.pruneOrphans

end Exactness

/-! ## Runs -/

section Runs

variable {τ : Type}

def UpdatesLive (s : RegistryState τ) : RegistryAction → Prop
  | .edit (.updateEntry id _ _) =>
    ∀ r, s.db.row .credential id = some r → r.sync.isDeleted = false
  | _ => True

instance (s : RegistryState τ) (a : RegistryAction) : Decidable (UpdatesLive s a) :=
  match a with
  | .edit (.updateEntry ..) => by
    unfold UpdatesLive
    infer_instance
  | .edit (.addEntry ..) | .edit (.deleteEntry ..) | .edit (.addSshKey ..)
  | .edit (.deleteSshKey ..) | .edit (.addTotpSecret ..) | .edit (.removeTotpSecret ..)
  | .acks .. | .apply .. | .keepLocal .. | .takeRemote .. | .sweep .. => .isTrue trivial

variable [DecidableEq τ] {tag : String → τ}

/-- Every step keeps the index exact, except an update of a deleted row. -/
theorem registryStep_exact {E : Env} {s s' : RegistryState τ} {a : RegistryAction} (h : Exact tag s)
    (hlive : UpdatesLive s a) (hs : registryStep tag E s a = some s') : Exact tag s' := by
  cases a with
  | edit op =>
    obtain ⟨db', hrun, rfl⟩ := map_eq_some_iff.mp hs
    refine (LocalOp.run_step (toOption_eq_some.mp hrun)).exact h ?_
    rintro id e now rfl r hr
    exact hlive r hr
  | acks mutations results cursor now =>
    cases hs
    exact h.of_eq (liveSecret_applyPushAcks s.db mutations results cursor now)
  | apply blob now =>
    obtain ⟨⟨db', effect⟩, hrun, rfl⟩ := map_eq_some_iff.mp hs
    exact (applyRemoteEntryInTx_step (toOption_eq_some.mp hrun)).exact h
  | keepLocal object =>
    obtain ⟨r, -, rfl⟩ := map_eq_some_iff.mp hs
    refine h.of_eq fun k => (liveSecret_congr (row_setConflicts ..)).trans ?_
    exact liveSecret_updateCols s.db _ _ k fun _ => rfl
  | takeRemote object now =>
    obtain ⟨r, -, hrun⟩ := bind_eq_some_iff.mp hs
    obtain ⟨⟨db', effect⟩, happ, hdone⟩ := bind_ok (toOption_eq_some.mp hrun)
    cases hdone
    -- stepping below the peer's version is bookkeeping, and so is dropping the record
    have hstepped := h.of_eq fun k => liveSecret_updateCols s.db r.objectType object k
      (f := .steppedBelow r.remoteVersion.toUInt64) fun _ => rfl
    have hdone := (applyRemoteEntryInTx_step happ).exact hstepped
    exact hdone.of_eq fun k => liveSecret_congr (row_setConflicts ..)
  | sweep now =>
    cases hs
    exact h.sweep now

/-- The index of a vault is exact after any run without an update of a deleted
entry. -/
theorem exact_of_reachable {E : Env} {s : RegistryState τ}
    (h : (registryMachine tag E).Reachable UpdatesLive s) :
    Exact tag s := by
  refine h.invariant ?_ fun hx hok hs => registryStep_exact hx hok hs
  rintro ⟨db, reg⟩ ⟨⟨vault, keyEpoch, rfl⟩, rfl⟩ id
  rfl

def HasSecret (db : LocalDb) (id : Uuid) (secret : String) : Prop :=
  ∃ r, db.row .credential id = some r ∧ r.sync.isDeleted = false ∧
    isRetrievableSecret r.content.credentialType = true ∧ r.content.password = secret ∧
    secret ≠ ""

/-- **Two entries are in one reuse group iff both are live, of a retrievable type
and have the same secret**, in every state that runs without an update of a
deleted entry reach. -/
theorem shared_tag_iff {E : Env} (hinj : Function.Injective tag) {s : RegistryState τ}
    (h : (registryMachine tag E).Reachable UpdatesLive s) (a b : Uuid) :
    (∃ t, a ∈ s.registry.tagGroup t ∧ b ∈ s.registry.tagGroup t) ↔
      ∃ secret, HasSecret s.db a secret ∧ HasSecret s.db b secret := by
  have hexact := exact_of_reachable h
  have hgroup : ∀ id t, id ∈ s.registry.tagGroup t ↔ ∃ secret, HasSecret s.db id secret ∧
      tag secret = t := by
    intro id t
    rw [mem_tagGroup, hexact id, map_eq_some_iff]
    exact exists_congr fun secret => and_congr_left fun _ => liveSecret_eq_some
  constructor
  · rintro ⟨t, ha, hb⟩
    obtain ⟨secret, ha, htag⟩ := (hgroup a t).mp ha
    obtain ⟨secret', hb, htag'⟩ := (hgroup b t).mp hb
    have hsame : secret = secret' := hinj (htag.trans htag'.symm)
    exact ⟨secret, ha, hsame ▸ hb⟩
  · rintro ⟨secret, ha, hb⟩
    exact ⟨tag secret, (hgroup a _).mpr ⟨secret, ha, rfl⟩, (hgroup b _).mpr ⟨secret, hb, rfl⟩⟩

end Runs

/-- A fresh vault whose tags are the secrets themselves. -/
def sampleRegistry : RegistryState String := ⟨.fresh (some 1) 1, ⟨.empty, .empty⟩⟩

/-- Two entries with one password, and the first is deleted. -/
def sampleReuse : List RegistryAction :=
  [.edit (.addEntry 7 sampleEntry 0), .edit (.addEntry 8 sampleEntry 1), .edit (.deleteEntry 7 2)]

theorem sampleRegistry_init :
    (registryMachine id sampleEnv).init sampleRegistry := ⟨⟨some 1, 1, rfl⟩, rfl⟩

/-- A third entry with the same password, and a sweep: it is in a group with the
second one, the deleted one is not. -/
theorem shared_tag_iff_sample : ∃ s, (registryMachine id sampleEnv).exec sampleRegistry
        (sampleReuse ++ [.edit (.addEntry 9 sampleEntry 3), .sweep 4]) = some s ∧
      (∃ t, 8 ∈ s.registry.tagGroup t ∧ 9 ∈ s.registry.tagGroup t) ∧
      ¬ ∃ t, 7 ∈ s.registry.tagGroup t ∧ 8 ∈ s.registry.tagGroup t := by
  have hallowed : Machine.Allowed (registryMachine id sampleEnv) UpdatesLive sampleRegistry
      (sampleReuse ++ [.edit (.addEntry 9 sampleEntry 3), .sweep 4]) := by decide +kernel
  have hany : ((registryMachine id sampleEnv).exec sampleRegistry
      (sampleReuse ++ [.edit (.addEntry 9 sampleEntry 3), .sweep 4])).any (fun s =>
        s.db.liveSecret 7 = none ∧ s.db.liveSecret 8 = some "secret" ∧
          s.db.liveSecret 9 = some "secret") = true := by decide +kernel
  obtain ⟨s, hs, h⟩ := (any_eq_true _ _).mp hany
  obtain ⟨h7, h8, h9⟩ := of_decide_eq_true h
  have hreach : (registryMachine id sampleEnv).Reachable UpdatesLive s :=
    ⟨sampleRegistry, sampleRegistry_init, Machine.run_of_exec hallowed hs⟩
  have hiff := shared_tag_iff Function.injective_id hreach
  refine ⟨s, hs, (hiff 8 9).mpr ⟨"secret", liveSecret_eq_some.mp h8, liveSecret_eq_some.mp h9⟩, ?_⟩
  intro hshared
  obtain ⟨secret, hdeleted, -⟩ := (hiff 7 8).mp hshared
  rw [liveSecret_eq_some.mpr hdeleted] at h7
  cases h7

/-- Updating the deleted entry succeeds and tags it again: it is in a group with
the live one. -/
theorem deleted_entry_keeps_tag : ∃ s r, (registryMachine id sampleEnv).exec sampleRegistry
        (sampleReuse ++ [.edit (.updateEntry 7 sampleEntry 3)]) = some s ∧
      s.db.row .credential 7 = some r ∧ r.sync.isDeleted = true ∧
      ∃ t, 7 ∈ s.registry.tagGroup t ∧ 8 ∈ s.registry.tagGroup t := by
  have hany : ((registryMachine id sampleEnv).exec sampleRegistry
      (sampleReuse ++ [.edit (.updateEntry 7 sampleEntry 3)])).any (fun s =>
        (s.db.row .credential 7).any (·.sync.isDeleted) ∧
          7 ∈ s.registry.tagGroup "secret" ∧ 8 ∈ s.registry.tagGroup "secret") = true := by
    decide +kernel
  obtain ⟨s, hs, h⟩ := (any_eq_true _ _).mp hany
  obtain ⟨hrow, h7, h8⟩ := of_decide_eq_true h
  obtain ⟨r, hr, hdel⟩ := (any_eq_true _ _).mp hrow
  exact ⟨s, r, hs, hr, hdel, "secret", h7, h8⟩

end SentinelPass
