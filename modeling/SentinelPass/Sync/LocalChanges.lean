import SentinelPass.Sync.Outbox

/-!
# Which local changes reach the outbox

After a local write, does the next collection offer the object to peers with its
new content? `Offered` is the question, asked of the database the write leaves;
`LocalOp.Offerable` is the answer, read off the database before it.
-/

namespace SentinelPass

open Lib LocalDb

def Carries : (t : SyncEntryType) → Payload t → Content t → Prop
  | .credential, p, c =>
    p.title = c.title ∧ p.username = c.username ∧ p.password = c.password ∧
      p.credentialType = c.credentialType ∧ p.url = c.url ∧ p.notes = c.notes ∧
      p.favorite = c.favorite ∧ p.domains = c.domains ∧ p.modifiedAt = c.modifiedAt
  | .sshKey, p, c =>
    p.name = c.name ∧ p.comment = c.comment ∧ p.keyType = c.keyType ∧ p.keySize = c.keySize ∧
      p.publicKey = c.publicKey ∧ p.privateKey = c.privateKey ∧
      p.fingerprint = c.fingerprint ∧ p.modifiedAt = c.modifiedAt
  | .totpSecret, p, c =>
    p.parentCredentialSyncId = some c.entry ∧ p.secret = c.secret ∧
      p.algorithm = c.algorithm ∧ (p.digits.toNat : Int) = c.digits.toInt ∧
      (p.period.toNat : Int) = c.period.toInt ∧ p.issuer = c.issuer ∧
      p.accountName = c.accountName

/-- The object is collected with its current content, or as a tombstone, above
its acknowledged version. -/
def Offered (E : Env) (nonces : Nonces) (device vault : Uuid) (keyEpoch : Int64) (db : LocalDb)
    (t : SyncEntryType) (id : Uuid) (deletes : Bool) : Prop :=
  ∃ ms, collectPendingMutations E nonces device vault keyEpoch db = .ok ms ∧
    ∃ m ∈ ms, m.objectType = t ∧ m.objectId = id ∧
      ackedVersionFor db t id < m.resultingVersion ∧ m.isTombstone = deletes ∧
      (deletes = false → ∃ r payload, db.row t id = some r ∧ Carries t payload r.content ∧
        m.encryptedPayload = E.sealPayload t (nonces.payload t id) payload)

def LocalOp.target (db : LocalDb) : LocalOp → SyncEntryType × Uuid
  | addEntry syncId _ _ => (.credential, syncId)
  | updateEntry id _ _ => (.credential, id)
  | deleteEntry id _ => (.credential, id)
  | addSshKey syncId _ _ => (.sshKey, syncId)
  | deleteSshKey id => (.sshKey, id)
  | addTotpSecret entry newId _ _ => (.totpSecret, ((db.totpOf entry).map Prod.fst).getD newId)
  | removeTotpSecret entry => (.totpSecret, ((db.totpOf entry).map Prod.fst).getD 0)

def LocalOp.deletes : LocalOp → Bool
  | deleteEntry _ _ => true
  | deleteSshKey _ => true
  | removeTotpSecret _ => true
  | _ => false

/-- A row's version after an edit is above its acknowledged version. -/
def SyncCols.EditOffers (c : SyncCols) : Prop :=
  ackedExpectation c.syncAckedVersion < (c.syncVersion + 1).toUInt64

/-- When the change a write makes reaches the outbox. -/
def LocalOp.Offerable (db : LocalDb) : LocalOp → Prop
  | addEntry _ _ _ => db.TotpReadable
  | updateEntry id _ _ => db.TotpReadable ∧
      ∃ c, db.cols .credential id = some c ∧ c.isDeleted = false ∧ c.EditOffers
  | deleteEntry id _ => db.TotpReadable ∧ ∃ c, db.cols .credential id = some c ∧ c.EditOffers
  | addTotpSecret entry _ _ _ => ∃ id r, db.totpOf entry = some (id, r) ∧
      r.sync.isDeleted = false ∧ r.sync.syncState = .pending ∧
      ackedExpectation r.sync.syncAckedVersion < r.sync.syncVersion.toUInt64 ∧
      ∀ k r', k ≠ id → db.row .totpSecret k = some r' → r'.sync.syncState = .pending →
        r'.content.Readable
  | addSshKey _ _ _ => False
  | deleteSshKey _ => False
  | removeTotpSecret _ => False

/-! ## Collected payloads -/

def HasParent (db : LocalDb) : (t : SyncEntryType) → SyncRow (Content t) → Prop
  | .credential, _ => True
  | .sshKey, _ => True
  | .totpSecret, r => (db.row .credential r.content.entry).isSome

theorem columnBelow_ok {bound index v n} (h : columnBelow bound index v = .ok n) :
    (n : Int) = v.toInt ∧ n < bound := by
  unfold columnBelow at h
  split at h
  · next hin =>
    cases h
    omega
  · cases h

variable {E : Env} {nonces : Nonces} {db : LocalDb} {t : SyncEntryType} {id device vault : Uuid}
  {keyEpoch : Int64} {deletes : Bool}

theorem rowPayload_carries {r payload}
    (h : rowPayload E nonces db t id r = .ok payload) (hparent : HasParent db t r) :
    Carries t payload r.content := by
  cases t with
  | credential =>
    cases h
    exact ⟨rfl, rfl, rfl, rfl, rfl, rfl, rfl, rfl, rfl⟩
  | sshKey =>
    cases h
    exact ⟨rfl, rfl, rfl, rfl, rfl, rfl, rfl, rfl⟩
  | totpSecret =>
    obtain ⟨digits, hd, h⟩ := bind_ok h
    obtain ⟨period, hp, h⟩ := bind_ok h
    cases h
    obtain ⟨hd, hdlt⟩ := columnBelow_ok hd
    obtain ⟨hp, hplt⟩ := columnBelow_ok hp
    refine ⟨if_pos hparent, rfl, rfl, ?_, ?_, rfl, rfl⟩
    · rw [← hd]
      exact congrArg Int.ofNat (UInt8.toNat_ofNat_of_lt' hdlt)
    · rw [← hp]
      exact congrArg Int.ofNat (UInt32.toNat_ofNat_of_lt' hplt)

/-- Offered means pending, above the acknowledged version, and in the wanted
state, with a collection that goes through. -/
theorem offered_iff {t : SyncEntryType} (hparent : ∀ r, db.row t id = some r → HasParent db t r) :
    Offered E nonces device vault keyEpoch db t id deletes ↔
      db.TotpReadable ∧ ∃ c, db.cols t id = some c ∧ c.syncState = .pending ∧
        ackedExpectation c.syncAckedVersion < c.syncVersion.toUInt64 ∧ c.isDeleted = deletes := by
  constructor
  · rintro ⟨ms, hms, m, hm, htype, hid, -, htomb, -⟩
    obtain ⟨t', id', r, hoff⟩ := (mem_collectPendingMutations hms).mp hm
    obtain ⟨hid', htype', -, -, -, htomb', -, -, -⟩ := hoff.fields
    obtain rfl : t' = t := htype'.symm.trans htype
    obtain rfl : id' = id := hid'.symm.trans hid
    refine ⟨collectPendingMutations_isOk.mp ⟨ms, hms⟩, r.sync, ?_, hoff.pending, hoff.above, ?_⟩
    · simp [cols, hoff.row]
    · rw [← htomb', htomb]
  · rintro ⟨hread, c, hc, hpend, habove, hdel⟩
    obtain ⟨ms, hms⟩ := collectPendingMutations_isOk.mpr hread
    obtain ⟨r, hr, rfl⟩ := Option.map_eq_some_iff.mp hc
    obtain ⟨m, hm, hoff⟩ := exists_offers hms hr hpend habove
    obtain ⟨hid, htype, -, -, -, htomb, -, hres, -⟩ := hoff.fields
    refine ⟨ms, hms, m, hm, htype, hid, ?_, htomb.trans hdel, ?_⟩
    · rw [hres, ackedVersionFor_row hr]
      exact habove
    · intro hlive
      obtain ⟨payload, hpayload, henc⟩ := hoff.payload
      rw [hdel, hlive, if_neg Bool.false_ne_true] at henc
      exact ⟨r, payload, hr, rowPayload_carries hpayload (hparent r hr), henc⟩

/-! ## The write paths -/

theorem totpReadable_putRow {r} (ht : t ≠ .totpSecret) :
    (db.putRow t id r).TotpReadable ↔ db.TotpReadable := by
  have hrow : ∀ k, (db.putRow t id r).row .totpSecret k = db.row .totpSecret k := fun k =>
    row_putRow_of_ne db (fun h => ht h.1.symm) r
  simp only [LocalDb.TotpReadable, hrow]

theorem offered_putRow_credential {r : SyncRow Credential} :
    Offered E nonces device vault keyEpoch (db.putRow .credential id r) .credential id deletes ↔
      db.TotpReadable ∧ r.sync.syncState = .pending ∧
        ackedExpectation r.sync.syncAckedVersion < r.sync.syncVersion.toUInt64 ∧
        r.sync.isDeleted = deletes := by
  have hparent : ∀ r', (db.putRow .credential id r).row .credential id = some r' →
      HasParent (db.putRow .credential id r) .credential r' := fun _ _ => trivial
  rw [offered_iff hparent, totpReadable_putRow (by decide)]
  simp

theorem Offered.offers (h : Offered E nonces device vault keyEpoch db t id deletes) :
    ∃ r m, Offers E nonces device vault keyEpoch db t id r m := by
  obtain ⟨ms, hms, m, hm, rfl, rfl, -⟩ := h
  obtain ⟨t, id, r, hoff⟩ := (mem_collectPendingMutations hms).mp hm
  obtain ⟨rfl, rfl, -⟩ := hoff.fields
  exact ⟨r, m, hoff⟩

theorem not_offered_of_none
    (h : db.row t id = none) : ¬ Offered E nonces device vault keyEpoch db t id deletes := by
  intro hoff
  obtain ⟨r, m, hoff⟩ := hoff.offers
  have hrow := hoff.row
  rw [h] at hrow
  cases hrow

/-- A row at the column defaults is not offered: version 0 is not above the
acknowledged version 0. -/
theorem not_offered_default {r : SyncRow (Content t)} (hr : r.sync = SyncCols.default) :
    ¬ Offered E nonces device vault keyEpoch (db.putRow t id r) t id deletes := by
  intro hoff
  obtain ⟨r', m, hoff⟩ := hoff.offers
  have hrow := hoff.row
  rw [row_putRow_self] at hrow
  cases hrow
  have habove := hoff.above
  rw [hr] at habove
  exact absurd habove (by decide)

theorem NewTotp.readable (p : NewTotp) (entry normalized) :
    (p.content entry normalized).Readable := by
  have hd := p.digits.toNat_lt
  have hp := p.period.toNat_lt
  have hdigits : p.digits.toUInt64.toInt64.toInt = p.digits.toNat := by
    rw [toInt_toInt64_of_lt]
    · simp
    · simp
      omega
  have hperiod : p.period.toUInt64.toInt64.toInt = p.period.toNat := by
    rw [toInt_toInt64_of_lt]
    · simp
    · simp
      omega
  refine ⟨?_, ?_⟩
  · change 0 ≤ p.digits.toUInt64.toInt64.toInt ∧ p.digits.toUInt64.toInt64.toInt < 256
    omega
  · change 0 ≤ p.period.toUInt64.toInt64.toInt ∧ p.period.toUInt64.toInt64.toInt < 2 ^ 32
    omega

theorem offered_readd {entry} {p : NewTotp}
    {normalized now} {r : SyncRow Totp} (hparent : (db.row .credential entry).isSome) :
    Offered E nonces device vault keyEpoch
        (db.putRow .totpSecret id ⟨p.content entry normalized, now, r.sync⟩)
        .totpSecret id false ↔
      r.sync.isDeleted = false ∧ r.sync.syncState = .pending ∧
        ackedExpectation r.sync.syncAckedVersion < r.sync.syncVersion.toUInt64 ∧
        ∀ k r', k ≠ id → db.row .totpSecret k = some r' → r'.sync.syncState = .pending →
          r'.content.Readable := by
  rw [offered_iff]
  · have hcols : ∀ c, (db.putRow .totpSecret id ⟨p.content entry normalized, now, r.sync⟩).cols
        .totpSecret id = some c ↔ r.sync = c := by
      intro c
      simp
    simp only [hcols, exists_eq_left']
    -- the collection reads the other rows as before and the new row always
    have hread : (db.putRow .totpSecret id ⟨p.content entry normalized, now, r.sync⟩).TotpReadable ↔
        ∀ k r', k ≠ id → db.row .totpSecret k = some r' → r'.sync.syncState = .pending →
          r'.content.Readable := by
      constructor
      · intro h k r' hk hr'
        refine h k r' ?_
        rw [row_putRow_of_ne db fun hc => hk hc.2]
        exact hr'
      · intro h k r' hr' hpend
        by_cases hk : k = id
        · subst hk
          rw [row_putRow_self] at hr'
          cases hr'
          exact NewTotp.readable p entry normalized
        · rw [row_putRow_of_ne db fun hc => hk hc.2] at hr'
          exact h k r' hk hr' hpend
    tauto
  · intro r' hr'
    rw [row_putRow_self] at hr'
    cases hr'
    change ((db.putRow .totpSecret id _).row .credential entry).isSome
    rwa [row_putRow_of_ne db (by simp)]

/-- **Local changes and the outbox.** After any local write that succeeds, the
next collection offers the object with its new content (as a tombstone for a
deletion) exactly when the write is `Offerable`. -/
theorem local_change_offered (E : Env) (nonces : Nonces) (device vault : Uuid) (keyEpoch : Int64)
    {db db' : LocalDb} {op : LocalOp} (h : op.run E.decodeBase32 db = .ok db') :
    Offered E nonces device vault keyEpoch db' (op.target db).1 (op.target db).2 op.deletes ↔
      op.Offerable db := by
  cases LocalOp.run_step h with
  | addEntry hnone =>
    refine offered_putRow_credential.trans ?_
    have habove : ackedExpectation 0 < (1 : Int64).toUInt64 := by decide
    exact ⟨fun hoff => hoff.1, fun hread => ⟨hread, rfl, habove, rfl⟩⟩
  | @updateEntry id e now r hr _ =>
    refine offered_putRow_credential.trans ?_
    have hcols : db.cols .credential id = some r.sync := by simp [cols, hr]
    simp only [LocalOp.Offerable, hcols, Option.some.injEq, exists_eq_left']
    constructor
    · rintro ⟨hread, -, habove, hlive⟩
      exact ⟨hread, hlive, habove⟩
    · rintro ⟨hread, hlive, habove⟩
      exact ⟨hread, rfl, habove, hlive⟩
  | @deleteEntry id now r hr _ _ =>
    refine offered_putRow_credential.trans ?_
    have hcols : db.cols .credential id = some r.sync := by simp [cols, hr]
    simp only [LocalOp.Offerable, hcols, Option.some.injEq, exists_eq_left']
    constructor
    · rintro ⟨hread, -, habove, -⟩
      exact ⟨hread, habove⟩
    · rintro ⟨hread, habove⟩
      exact ⟨hread, rfl, habove, rfl⟩
  | addSshKey hnone => exact iff_of_false (not_offered_default rfl) id
  | @deleteSshKey sshId =>
    refine iff_of_false (not_offered_of_none ?_) id
    change ((db.setTable .sshKey _).table .sshKey).get? sshId = none
    rw [table_setTable_self, Table.get?_erase, if_pos rfl]
  | @addTotpSecret entry newId p now normalized hnone _ =>
    have htarget : (LocalOp.addTotpSecret entry newId p now).target db = (.totpSecret, newId) := by
      simp [LocalOp.target, hnone]
    rw [htarget]
    exact iff_of_false (not_offered_default rfl) (by simp [LocalOp.Offerable, hnone])
  | @readdTotpSecret entry newId totpId p now normalized r hparent hr =>
    have htarget : (LocalOp.addTotpSecret entry newId p now).target db = (.totpSecret, totpId) := by
      simp [LocalOp.target, hr]
    rw [htarget]
    refine (offered_readd hparent).trans ?_
    simp [LocalOp.Offerable, hr]
  | @removeTotpSecret entry hsome =>
    obtain ⟨⟨totpId, r⟩, hr⟩ := Option.isSome_iff_exists.mp hsome
    have htarget : (LocalOp.removeTotpSecret entry).target db = (.totpSecret, totpId) := by
      simp [LocalOp.target, hr]
    rw [htarget]
    refine iff_of_false (not_offered_of_none ?_) id
    obtain ⟨hrow, hentry⟩ := totpOf_some hr
    have hget : db.totpSecrets.get? totpId = some r := hrow
    change (db.totpSecrets.filter fun _ r => r.content.entry ≠ entry).get? totpId = none
    rw [Table.get?_filter, hget]
    simp [hentry]

def sampleNonces : Nonces := ⟨fun _ _ => [0], fun _ _ => [0]⟩

def sampleSshKey : NewSshKey where
  name := "server"
  comment := none
  keyType := "ed25519"
  keySize := none
  publicKey := "public"
  privateKey := "private"
  fingerprint := "fingerprint"

def sampleEntry : Entry where
  title := "mail"
  username := "user"
  password := "secret"
  url := none
  notes := none
  credentialType := .password
  favorite := false

/-- An SSH key added to a fresh vault is stored, and nothing is collected. -/
theorem added_ssh_key_not_offered :
    ∃ db', (LocalOp.addSshKey 5 sampleSshKey 0).run sampleEnv.decodeBase32
        (LocalDb.fresh (some 1) 1) = .ok db' ∧
      (db'.row .sshKey 5).isSome ∧
      ¬ Offered sampleEnv sampleNonces 2 1 1 db' .sshKey 5 false := by
  refine ⟨(fresh (some 1) 1).putRow .sshKey 5 (newSshKeyRow sampleSshKey 0), ?_, ?_, ?_⟩
  · rfl
  · rw [row_putRow_self]
    rfl
  · rintro ⟨ms, hms, m, hm, -⟩
    cases hms
    cases hm

/-- An entry added to a fresh vault is offered. -/
theorem local_change_offered_addEntry :
    ∃ db', (LocalOp.addEntry 5 sampleEntry 0).run sampleEnv.decodeBase32
        (LocalDb.fresh (some 1) 1) = .ok db' ∧
      Offered sampleEnv sampleNonces 2 1 1 db' .credential 5 false := by
  have hrun : (LocalOp.addEntry 5 sampleEntry 0).run sampleEnv.decodeBase32
      (fresh (some 1) 1) =
        .ok ((fresh (some 1) 1).putRow .credential 5 (newEntryRow sampleEntry 0)) := rfl
  refine ⟨_, hrun, (local_change_offered sampleEnv sampleNonces 2 1 1 hrun).mpr ?_⟩
  intro id r hr
  cases hr

end SentinelPass
