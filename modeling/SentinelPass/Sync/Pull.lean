import SentinelPass.Sync.Apply

/-!
# Pulling

`pull_changes` of `sync/engine.rs`. A page is processed inside one transaction:
every foreign mutation is authenticated, applied or dead-lettered; TOTP secrets
whose parent has not arrived are tried once more at the end of the page; then the
cursor and the high-water move. `pullPage` runs one page against the database,
`pullLoop` the pages of one call.

Commit goes through the content guard, which publishes its receipt before and
after the SQL commit: `Guard` says how far that got.
-/

namespace SentinelPass

open Lib List

/-- One entry of the vault log, as the client decodes it. -/
structure MutationLogEntry where
  serverSequence : UInt64
  mutation : MutationV2
deriving DecidableEq

/-- A pull page, as the client decodes it. -/
structure PullResponseV2 where
  entries : List MutationLogEntry
  cursor : UInt64
  hasMore : Bool

def MutationLogEntry.blob (e : MutationLogEntry) : SyncEntryBlob := blobFromLogMutation e.mutation

def maxDeadLetter : Nat := 1000

/-- The row `dead_letter_entry` inserts. -/
def deadLetterRow (e : MutationLogEntry) (reason : String) (now : Int) : DeadLetterRow where
  mutationId := e.mutation.mutationId
  objectId := e.mutation.objectId
  objectType := e.mutation.objectType
  reason := reason
  receivedAt := now

def deadLetterEntry (now : Int) (db : LocalDb) (e : MutationLogEntry) (reason : String) :
    Except PmError LocalDb :=
  match db.syncDeadLetter.insert? e.serverSequence.toInt64 (deadLetterRow e reason now) with
  | none =>
    .error (.database
      "SQLite error: UNIQUE constraint failed: sync_dead_letter.server_sequence")
  | some letters => .ok (db.setDeadLetter letters)

/-- The checks a foreign mutation passes before it is applied: the reason it is
refused with. Its vault id is not among them. -/
def refusal (E : Env) (localEpoch : Int64) (m : MutationV2) : Option String :=
  if ¬ verifyMutationMac E.crypto E.macKey m then
    some "metadata authentication failed (relay tamper suspected)"
  else if m.mutationId ≠ mutationIdFor E.crypto m.vaultId m.objectId m.resultingVersion then
    some "mutation id does not match its content coordinates"
  else if m.keyEpoch < localEpoch then
    some ("mutation epoch " ++ toString m.keyEpoch.toInt ++
      " is below the local vault epoch " ++ toString localEpoch.toInt)
  else none

/-- What became of an entry of a page. -/
inductive Disposition
  | own
  | applied (effect : ApplyEffect)
  | deadLettered (reason : String)
deriving DecidableEq

/-- The page transaction: the database inside it, the entries put back for the
second pass with the reason, and what became of the others so far. -/
structure PageTx where
  db : LocalDb
  deferred : List (MutationLogEntry × String)
  outcomes : List (MutationLogEntry × Disposition)

def PageTx.settle (tx : PageTx) (e : MutationLogEntry) (db : LocalDb) (d : Disposition) : PageTx :=
  { tx with db := db, outcomes := tx.outcomes ++ [(e, d)] }

def PageTx.defer (tx : PageTx) (e : MutationLogEntry) (reason : String) : PageTx :=
  { tx with deferred := tx.deferred ++ [(e, reason)] }

def PageTx.deadLetter (tx : PageTx) (now : Int) (e : MutationLogEntry) (reason : String) :
    Except PmError PageTx := do
  let db ← deadLetterEntry now tx.db e reason
  .ok (tx.settle e db (.deadLettered reason))

/-- The first pass over an entry. A failed apply is rolled back to its savepoint. -/
def pageEntry (E : Env) (device : Uuid) (localEpoch : Int64) (now : Int) (tx : PageTx)
    (e : MutationLogEntry) : Except PmError PageTx :=
  if e.mutation.originDeviceId = device then .ok (tx.settle e tx.db .own)
  else
    match refusal E localEpoch e.mutation with
    | some reason => tx.deadLetter now e reason
    | none =>
      match applyRemoteEntryInTx E now tx.db e.blob with
      | .ok (db, effect) => .ok (tx.settle e db (.applied effect))
      | .error (.syncDeferred reason) => .ok (tx.defer e reason)
      | .error err => tx.deadLetter now e err.display

def requeueEntry (E : Env) (now : Int) (tx : PageTx) (d : MutationLogEntry × String) :
    Except PmError PageTx :=
  match applyRemoteEntryInTx E now tx.db d.1.blob with
  | .ok (db, effect) => .ok (tx.settle d.1 db (.applied effect))
  | .error other =>
    tx.deadLetter now d.1
      ("unresolved after one requeue pass: " ++ d.2 ++ " (" ++ other.display ++ ")")

def observedMax (entries : List MutationLogEntry) : UInt64 :=
  (entries.map (·.serverSequence)).foldl max 0

/-- The configuration a page leaves, before it goes through its columns. -/
def pageConfig (config : SyncConfig) (response : PullResponseV2) : SyncConfig :=
  { config with
    lastPullSequence := response.cursor
    lineageHighWater := max config.lineageHighWater (observedMax response.entries) }

def pagePasses (E : Env) (device : Uuid) (now : Int) (db : LocalDb)
    (entries : List MutationLogEntry) : Except PmError PageTx := do
  let tx ← entries.foldlM (pageEntry E device db.keyEpoch now) ⟨db, [], []⟩
  tx.deferred.foldlM (requeueEntry E now) tx

def pageBody (E : Env) (device : Uuid) (now : Int) (db : LocalDb) (response : PullResponseV2) :
    Except PmError PageTx := do
  let tx ← pagePasses E device now db response.entries
  if tx.db.syncDeadLetter.rows.length > maxDeadLetter then
    throw (.invalidInput ("sync dead-letter exceeded its bound (1000); the pull page was rolled " ++
      "back and the cursor did NOT advance. Inspect the sync_dead_letter table and purge " ++
      "resolved rows"))
  return { tx with db := tx.db.setConfig (pageConfig tx.db.config response).stored }

/-- How far a guarded transaction got: refused at its start, rolled back at its
commit, committed with the second receipt missing, or done. -/
inductive Guard
  | refused
  | rolledBack
  | receiptLost
  | committed
deriving DecidableEq

/-- `refusal()` of the content guard. -/
def guardRefusal : PmError :=
  .invalidInput ("entry integrity receipt mismatch or missing: possible rollback; " ++
    "use verified backup restore")

/-- The database after a page, what the page durably settled, and the answer. -/
structure PageResult where
  db : LocalDb
  outcomes : List (MutationLogEntry × Disposition)
  result : Except PmError UInt64

def PageResult.failed (db : LocalDb) (e : PmError) : PageResult := ⟨db, [], .error e⟩

def checkCursor (cursor highWater : UInt64) (response : PullResponseV2) : Except PmError Unit :=
  if response.cursor ≤ cursor then .error (.invalidInput "Relay pull cursor did not advance")
  else if response.cursor < highWater then
    .error (.invalidInput ("relay lineage moved backwards: cursor " ++
      toString response.cursor.toNat ++ " is below the trusted high-water " ++
      toString highWater.toNat ++ ". The relay log may have been reset or the vault swapped. " ++
      "Refusing to apply (re-pair under v2 to re-baseline)"))
  else .ok ()

/-- One page of `pull_changes`, from its non-empty response to the end of the
loop body. Success carries the new high-water. -/
def pullPage (E : Env) (device : Uuid) (now : Int) (guard : Guard) (cursor highWater : UInt64)
    (db : LocalDb) (response : PullResponseV2) : PageResult :=
  match checkCursor cursor highWater response with
  | .error e => .failed db e
  | .ok () =>
    match guard with
    | .refused => .failed db guardRefusal
    | _ =>
      match pageBody E device now db response with
      | .error e => .failed db e
      | .ok tx =>
        -- neither pass touches the configuration
        let high := (pageConfig db.config response).lineageHighWater
        match guard with
        | .committed => ⟨tx.db, tx.outcomes, .ok high⟩
        | .receiptLost => ⟨tx.db, tx.outcomes, .error (.io "receipt not published")⟩
        | _ => .failed db (.database "SQLite error: commit failed")

/-- One answer of the relay, with the clock and the guard of its page. -/
structure PullTurn where
  response : PullResponseV2
  now : Int
  guard : Guard

/-- The loop of `pull_changes` over the answers that arrive; when they run out,
the transport has failed. Success carries the number of entries. -/
def pullLoop (E : Env) (device : Uuid) (cursor highWater : UInt64) (db : LocalDb) (count : Nat) :
    List PullTurn → LocalDb × List (MutationLogEntry × Disposition) × Except PmError Nat
  | [] => (db, [], .error (.io "no response"))
  | turn :: rest =>
    if turn.response.entries = [] then (db, [], .ok count)
    else
      let count := count + turn.response.entries.length
      let page := pullPage E device turn.now turn.guard cursor highWater db turn.response
      match page.result with
      | .error e => (page.db, page.outcomes, .error e)
      | .ok high =>
        if turn.response.hasMore then
          let later := pullLoop E device turn.response.cursor high page.db count rest
          (later.1, page.outcomes ++ later.2.1, later.2.2)
        else (page.db, page.outcomes, .ok count)

/-- `pull_changes`: the cursor and the high-water come from the configuration. -/
def pullChanges (E : Env) (device : Uuid) (db : LocalDb) (turns : List PullTurn) :
    LocalDb × List (MutationLogEntry × Disposition) × Except PmError Nat :=
  pullLoop E device db.config.lastPullSequence db.config.lineageHighWater db 0 turns

/-! ## One turn of each pass -/

/-- A foreign mutation that passed every check. -/
structure Authentic (E : Env) (device : Uuid) (localEpoch : Int64) (m : MutationV2) : Prop where
  foreign : m.originDeviceId ≠ device
  mac : verifyMutationMac E.crypto E.macKey m = true
  id : m.mutationId = mutationIdFor E.crypto m.vaultId m.objectId m.resultingVersion
  epoch : localEpoch ≤ m.keyEpoch

variable {E : Env} {db db' : LocalDb} {e : MutationLogEntry} {localEpoch : Int64} {now : Int}
  {reason : String} {tx tx' : PageTx}

theorem refusal_eq_none {m} :
    refusal E localEpoch m = none ↔ verifyMutationMac E.crypto E.macKey m = true ∧
      m.mutationId = mutationIdFor E.crypto m.vaultId m.objectId m.resultingVersion ∧
      localEpoch ≤ m.keyEpoch := by
  unfold refusal
  by_cases hmac : verifyMutationMac E.crypto E.macKey m = true
  · rw [if_neg (not_not.mpr hmac)]
    by_cases hid : m.mutationId = mutationIdFor E.crypto m.vaultId m.objectId m.resultingVersion
    · rw [if_neg (not_not.mpr hid)]
      by_cases hepoch : m.keyEpoch < localEpoch
      · rw [if_pos hepoch]
        simp [Int64.not_le.mpr hepoch]
      · rw [if_neg hepoch]
        simp [hmac, ← hid, Int64.not_lt.mp hepoch]
    · rw [if_pos hid]
      simp [hid]
  · rw [if_pos hmac]
    simp [hmac]

/-- What the first pass can do with an entry. -/
inductive PageStep (E : Env) (device : Uuid) (localEpoch : Int64) (now : Int) (tx : PageTx)
    (e : MutationLogEntry) : PageTx → Prop
  | own : e.mutation.originDeviceId = device →
      PageStep E device localEpoch now tx e (tx.settle e tx.db .own)
  | applied {effect : ApplyEffect} {db : LocalDb} : Authentic E device localEpoch e.mutation →
      ApplyStep E now tx.db e.blob effect db →
      PageStep E device localEpoch now tx e (tx.settle e db (.applied effect))
  | deferred {reason : String} : Authentic E device localEpoch e.mutation →
      applyRemoteEntryInTx E now tx.db e.blob = .error (.syncDeferred reason) →
      PageStep E device localEpoch now tx e (tx.defer e reason)
  | deadLettered {reason : String} {db : LocalDb} : deadLetterEntry now tx.db e reason = .ok db →
      PageStep E device localEpoch now tx e (tx.settle e db (.deadLettered reason))

/-- What the second pass can do with an entry. -/
inductive RequeueStep (E : Env) (now : Int) (tx : PageTx) (e : MutationLogEntry) : PageTx → Prop
  | applied {effect : ApplyEffect} {db : LocalDb} : ApplyStep E now tx.db e.blob effect db →
      RequeueStep E now tx e (tx.settle e db (.applied effect))
  | deadLettered {reason : String} {db : LocalDb} : deadLetterEntry now tx.db e reason = .ok db →
      RequeueStep E now tx e (tx.settle e db (.deadLettered reason))

theorem PageTx.deadLetter_ok (h : tx.deadLetter now e reason = .ok tx') :
    ∃ db, deadLetterEntry now tx.db e reason = .ok db ∧
      tx' = tx.settle e db (.deadLettered reason) := by
  obtain ⟨db, hdb, h⟩ := bind_ok h
  cases h
  exact ⟨db, hdb, rfl⟩

/-- What one turn of the first pass can do. -/
theorem pageEntry_step {device : Uuid} (h : pageEntry E device localEpoch now tx e = .ok tx') :
    PageStep E device localEpoch now tx e tx' := by
  unfold pageEntry at h
  split at h
  · next hown =>
    cases h
    exact .own hown
  · next hforeign =>
    split at h
    · next reason _ =>
      obtain ⟨db, hdb, rfl⟩ := PageTx.deadLetter_ok h
      exact .deadLettered hdb
    · next hpass =>
      obtain ⟨hmac, hid, hepoch⟩ := refusal_eq_none.mp hpass
      have hauth : Authentic E device localEpoch e.mutation := ⟨hforeign, hmac, hid, hepoch⟩
      split at h
      · next db effect happ =>
        cases h
        exact .applied hauth (applyRemoteEntryInTx_step happ)
      · next reason hdef =>
        cases h
        exact .deferred hauth hdef
      · obtain ⟨db, hdb, rfl⟩ := PageTx.deadLetter_ok h
        exact .deadLettered hdb

theorem requeueEntry_step {d} (h : requeueEntry E now tx d = .ok tx') :
    RequeueStep E now tx d.1 tx' := by
  unfold requeueEntry at h
  split at h
  · next db effect happ =>
    cases h
    exact .applied (applyRemoteEntryInTx_step happ)
  · obtain ⟨db, hdb, rfl⟩ := PageTx.deadLetter_ok h
    exact .deadLettered hdb

theorem deadLetterEntry_ok (h : deadLetterEntry now db e reason = .ok db') :
    (∀ t, db'.table t = db.table t) ∧ db'.syncConflicts = db.syncConflicts ∧
      db'.config = db.config ∧ db'.keyEpoch = db.keyEpoch ∧
      db.syncDeadLetter.get? e.serverSequence.toInt64 = none ∧
      ∀ k, db'.syncDeadLetter.get? k =
        if k = e.serverSequence.toInt64 then some (deadLetterRow e reason now)
        else db.syncDeadLetter.get? k := by
  unfold deadLetterEntry at h
  split at h
  · cases h
  rename_i letters hins
  cases h
  obtain ⟨hnone, -, hget⟩ := Table.insert?_eq_some hins
  exact ⟨db.table_setDeadLetter letters, rfl, rfl, rfl, hnone, hget⟩

/-! ## Whole pages -/

def Settled (E : Env) (device : Uuid) (localEpoch : Int64) (now : Int) (db : LocalDb)
    (e : MutationLogEntry) : Disposition → Prop
  | .own => e.mutation.originDeviceId = device
  | .applied effect => Authentic E device localEpoch e.mutation ∧
      ∃ before after, ApplyStep E now before e.blob effect after
  | .deadLettered reason =>
    db.syncDeadLetter.get? e.serverSequence.toInt64 = some (deadLetterRow e reason now)

def DeadLettersGrow (db db' : LocalDb) : Prop :=
  ∀ k row, db.syncDeadLetter.get? k = some row → db'.syncDeadLetter.get? k = some row

theorem Settled.mono {device d} (hgrow : DeadLettersGrow db db')
    (h : Settled E device localEpoch now db e d) : Settled E device localEpoch now db' e d := by
  cases d with
  | own => exact h
  | applied effect => exact h
  | deadLettered reason => exact hgrow _ _ h

theorem DeadLettersGrow.deadLetter (h : deadLetterEntry now db e reason = .ok db') :
    DeadLettersGrow db db' := by
  obtain ⟨-, -, -, -, hnone, hget⟩ := deadLetterEntry_ok h
  intro k row hk
  rw [hget]
  split
  · next he =>
    subst he
    rw [hnone] at hk
    cases hk
  · exact hk

theorem DeadLettersGrow.apply {blob effect} (h : ApplyStep E now db blob effect db') :
    DeadLettersGrow db db' := by
  intro k row hk
  rwa [h.frame.1]

/-- What became of the entries handled so far. -/
abbrev Outcomes := List (MutationLogEntry × Disposition)

/-- An applied entry about the object `(t, id)` is among the outcomes. -/
def Touched (outcomes : Outcomes) (t : SyncEntryType) (id : Uuid) : Prop :=
  ∃ e effect, (e, .applied effect) ∈ outcomes ∧ e.mutation.objectType = t ∧ e.mutation.objectId = id

theorem Touched.mono {o o' t id} (hsub : o ⊆ o') (h : Touched o t id) : Touched o' t id := by
  obtain ⟨e, effect, hm, hobj⟩ := h
  exact ⟨e, effect, hsub hm, hobj⟩

section Passes

variable {device : Uuid} {db₀ : LocalDb} {entries : List MutationLogEntry}

/-- What holds in the middle of a page that began with the database `db₀`: every
outcome is what it says, what was put back is authentic, and rows and stored
conflicts changed only under applied entries. -/
structure PageInv (E : Env) (device : Uuid) (now : Int) (db₀ : LocalDb)
    (entries : List MutationLogEntry) (tx : PageTx) : Prop where
  settled : ∀ p ∈ tx.outcomes, p.1 ∈ entries ∧ Settled E device db₀.keyEpoch now tx.db p.1 p.2
  deferred : ∀ p ∈ tx.deferred, p.1 ∈ entries ∧ Authentic E device db₀.keyEpoch p.1.mutation
  rows : ∀ t id, tx.db.row t id = db₀.row t id ∨ Touched tx.outcomes t id
  conflicts : ∀ id, tx.db.syncConflicts.get? id = db₀.syncConflicts.get? id ∨
    ∃ t, Touched tx.outcomes t id
  letters : DeadLettersGrow db₀ tx.db
  config : tx.db.config = db₀.config
  keyEpoch : tx.db.keyEpoch = db₀.keyEpoch

theorem PageInv.start : PageInv E device now db₀ entries ⟨db₀, [], []⟩ where
  settled _ hp := absurd hp not_mem_nil
  deferred _ hp := absurd hp not_mem_nil
  rows _ _ := .inl rfl
  conflicts _ := .inl rfl
  letters _ _ h := h
  config := rfl
  keyEpoch := rfl

variable {l : List (MutationLogEntry × String)}

section

variable (h : PageInv E device now db₀ entries tx) (he : e ∈ entries)

include h he

/-- A truthful outcome keeps the invariant when nothing but its own object was
touched. -/
theorem PageInv.settle {d : Disposition} (hd : Settled E device db₀.keyEpoch now db e d)
    (hrows : ∀ t id, db.row t id = tx.db.row t id ∨ Touched (tx.settle e db d).outcomes t id)
    (hconf : ∀ id, db.syncConflicts.get? id = tx.db.syncConflicts.get? id ∨
      ∃ t, Touched (tx.settle e db d).outcomes t id) (hgrow : DeadLettersGrow tx.db db)
    (hconfig : db.config = tx.db.config) (hepoch : db.keyEpoch = tx.db.keyEpoch) :
    PageInv E device now db₀ entries (tx.settle e db d) where
  settled p hp := by
    rcases mem_append.mp hp with hp | hp
    · exact ⟨(h.settled p hp).1, (h.settled p hp).2.mono hgrow⟩
    · rw [mem_singleton] at hp
      subst hp
      exact ⟨he, hd⟩
  deferred := h.deferred
  rows t id := by
    rcases hrows t id with hsame | htouch
    · exact (h.rows t id).imp hsame.trans (·.mono (subset_append_left ..))
    · exact .inr htouch
  conflicts id := by
    rcases hconf id with hsame | htouch
    · exact (h.conflicts id).imp hsame.trans fun ⟨t, ht⟩ =>
        ⟨t, ht.mono (subset_append_left ..)⟩
    · exact .inr htouch
  letters k row hk := hgrow k row (h.letters k row hk)
  config := hconfig.trans h.config
  keyEpoch := hepoch.trans h.keyEpoch

theorem PageInv.deadLetter {reason : String} (hdb : deadLetterEntry now tx.db e reason = .ok db) :
    PageInv E device now db₀ entries (tx.settle e db (.deadLettered reason)) := by
  obtain ⟨htables, hconf, hconfig, hepoch, -, hget⟩ := deadLetterEntry_ok hdb
  refine h.settle he ?_ (fun t id => .inl (LocalDb.row_congr htables t id))
    (fun id => .inl (by rw [hconf])) (.deadLetter hdb) hconfig hepoch
  change db.syncDeadLetter.get? _ = _
  rw [hget, if_pos rfl]

theorem PageInv.apply {effect} (hauth : Authentic E device db₀.keyEpoch e.mutation)
    (happ : ApplyStep E now tx.db e.blob effect db) :
    PageInv E device now db₀ entries (tx.settle e db (.applied effect)) := by
  have hself : Touched (tx.settle e db (.applied effect)).outcomes e.blob.entryType e.blob.syncId :=
    ⟨e, effect, mem_concat_self .., rfl, rfl⟩
  refine h.settle he ⟨hauth, tx.db, db, happ⟩ (fun t id => ?_) (fun id => ?_) (.apply happ)
    happ.frame.2.1 happ.frame.2.2
  · by_cases hobj : t = e.blob.entryType ∧ id = e.blob.syncId
    · obtain ⟨rfl, rfl⟩ := hobj
      exact .inr hself
    · exact .inl (happ.row_of_ne hobj)
  · by_cases hobj : id = e.blob.syncId
    · subst hobj
      exact .inr ⟨_, hself⟩
    · exact .inl (happ.conflicts_of_ne hobj)

theorem PageInv.pageStep (hstep : PageStep E device db₀.keyEpoch now tx e tx') :
    PageInv E device now db₀ entries tx' := by
  cases hstep with
  | own hown =>
    exact h.settle he hown (fun _ _ => .inl rfl) (fun _ => .inl rfl) (fun _ _ hk => hk) rfl rfl
  | applied hauth happ => exact h.apply he hauth happ
  | deferred hauth _ =>
    refine { h with deferred := fun p hp => ?_ }
    rcases mem_append.mp hp with hp | hp
    · exact h.deferred p hp
    · rw [mem_singleton] at hp
      subst hp
      exact ⟨he, hauth⟩
  | deadLettered hdb => exact h.deadLetter he hdb

theorem PageInv.requeueStep (hauth : Authentic E device db₀.keyEpoch e.mutation)
    (hstep : RequeueStep E now tx e tx') : PageInv E device now db₀ entries tx' := by
  cases hstep with
  | applied happ => exact h.apply he hauth happ
  | deadLettered hdb => exact h.deadLetter he hdb

end

theorem pagePasses_inv (h : pagePasses E device now db₀ entries = .ok tx) :
    PageInv E device now db₀ entries tx := by
  obtain ⟨tx₁, hfirst, hsecond⟩ := bind_ok h
  have h₁ : PageInv E device now db₀ entries tx₁ := by
    refine foldlM_ok_invariant hfirst .start ?_
    intro x y e he hx hone
    exact hx.pageStep he (pageEntry_step hone)
  refine foldlM_ok_invariant hsecond h₁ ?_
  intro x y d hd hx hone
  obtain ⟨he, hauth⟩ := h₁.deferred d hd
  exact hx.requeueStep he hauth (requeueEntry_step hone)

theorem PageStep.grows {localEpoch : Int64} (h : PageStep E device localEpoch now tx e tx') :
    tx.outcomes ⊆ tx'.outcomes ∧ tx.deferred ⊆ tx'.deferred ∧
      ((∃ d, (e, d) ∈ tx'.outcomes) ∨ ∃ reason, (e, reason) ∈ tx'.deferred) := by
  cases h with
  | own _ =>
    exact ⟨subset_append_left .., List.Subset.refl _, .inl ⟨_, mem_concat_self ..⟩⟩
  | applied _ _ =>
    exact ⟨subset_append_left .., List.Subset.refl _, .inl ⟨_, mem_concat_self ..⟩⟩
  | deferred _ _ =>
    exact ⟨List.Subset.refl _, subset_append_left .., .inr ⟨_, mem_concat_self ..⟩⟩
  | deadLettered _ =>
    exact ⟨subset_append_left .., List.Subset.refl _, .inl ⟨_, mem_concat_self ..⟩⟩

theorem RequeueStep.grows (h : RequeueStep E now tx e tx') :
    tx.outcomes ⊆ tx'.outcomes ∧ ∃ d, (e, d) ∈ tx'.outcomes := by
  cases h with
  | applied _ => exact ⟨subset_append_left .., _, mem_concat_self ..⟩
  | deadLettered _ => exact ⟨subset_append_left .., _, mem_concat_self ..⟩

theorem pageLoop_grows {localEpoch : Int64} {l : List MutationLogEntry}
    (h : l.foldlM (pageEntry E device localEpoch now) tx = .ok tx') :
    tx.outcomes ⊆ tx'.outcomes ∧
      ∃ more, tx'.deferred = tx.deferred ++ more ∧ ∀ d ∈ more, d.1 ∈ l := by
  refine foldlM_ok_invariant (P := fun x => tx.outcomes ⊆ x.outcomes ∧
    ∃ more, x.deferred = tx.deferred ++ more ∧ ∀ d ∈ more, d.1 ∈ l) h
    ⟨List.Subset.refl _, [], by simp, fun d hd => absurd hd not_mem_nil⟩ ?_
  rintro x y e he ⟨hout, more, hdef, hmore⟩ hone
  have hstep := pageEntry_step hone
  refine ⟨List.Subset.trans hout hstep.grows.1, ?_⟩
  cases hstep with
  | own _ => exact ⟨more, hdef, hmore⟩
  | applied _ _ => exact ⟨more, hdef, hmore⟩
  | @deferred reason _ _ =>
    refine ⟨more ++ [(e, reason)], ?_, fun d hd => ?_⟩
    · change x.deferred ++ [(e, reason)] = _
      rw [hdef, append_assoc]
    · rcases mem_append.mp hd with hd | hd
      · exact hmore d hd
      · rw [mem_singleton] at hd
        rw [hd]
        exact he
  | deadLettered _ => exact ⟨more, hdef, hmore⟩

theorem requeueLoop_outcomes (h : l.foldlM (requeueEntry E now) tx = .ok tx') :
    tx.outcomes ⊆ tx'.outcomes := by
  refine foldlM_ok_invariant (P := fun x => tx.outcomes ⊆ x.outcomes) h (List.Subset.refl _) ?_
  intro x y d _ hx hone
  exact List.Subset.trans hx (requeueEntry_step hone).grows.1

theorem requeueLoop_deferred (h : l.foldlM (requeueEntry E now) tx = .ok tx') :
    tx'.deferred = tx.deferred := by
  refine foldlM_ok_invariant (P := fun x => x.deferred = tx.deferred) h rfl ?_
  intro x y d _ hx hone
  cases requeueEntry_step hone with
  | applied _ => exact hx
  | deadLettered _ => exact hx

/-- Every entry of a page got an outcome. -/
theorem pagePasses_covers (h : pagePasses E device now db₀ entries = .ok tx) :
    ∀ e ∈ entries, ∃ d, (e, d) ∈ tx.outcomes := by
  obtain ⟨tx₁, hfirst, hsecond⟩ := bind_ok h
  have hagain : ∀ d ∈ tx₁.deferred, ∃ out, (d.1, out) ∈ tx.outcomes := by
    refine foldlM_ok_forall (Q := fun d x => ∃ out, (d.1, out) ∈ x.outcomes) hsecond ?_ ?_
    · intro x y d hone
      exact (requeueEntry_step hone).grows.2
    · intro x y d c hone hc
      obtain ⟨out, hc⟩ := hc
      exact ⟨out, (requeueEntry_step hone).grows.1 hc⟩
  have hseen : ∀ e ∈ entries, (∃ d, (e, d) ∈ tx₁.outcomes) ∨ ∃ r, (e, r) ∈ tx₁.deferred := by
    refine foldlM_ok_forall
      (Q := fun e x => (∃ d, (e, d) ∈ x.outcomes) ∨ ∃ r, (e, r) ∈ x.deferred) hfirst ?_ ?_
    · intro x y e hone
      exact (pageEntry_step hone).grows.2.2
    · intro x y e c hone hc
      obtain ⟨hout, hdef, -⟩ := (pageEntry_step hone).grows
      exact hc.imp (fun ⟨d, hd⟩ => ⟨d, hout hd⟩) fun ⟨r, hr⟩ => ⟨r, hdef hr⟩
  intro e he
  rcases hseen e he with ⟨d, hd⟩ | ⟨r, hr⟩
  · exact ⟨d, requeueLoop_outcomes hsecond hd⟩
  · exact hagain _ hr

/-- The way from the database a page began with to the one it ends with, one outcome after
the other. -/
inductive PageRun (E : Env) (now : Int) (db₀ : LocalDb) : Outcomes → LocalDb → Prop
  | start : PageRun E now db₀ [] db₀
  | own {o : Outcomes} {db : LocalDb} {e : MutationLogEntry} : PageRun E now db₀ o db →
      PageRun E now db₀ (o ++ [(e, .own)]) db
  | applied {o : Outcomes} {db db' : LocalDb} {e : MutationLogEntry} {effect : ApplyEffect} :
      PageRun E now db₀ o db → ApplyStep E now db e.blob effect db' →
      PageRun E now db₀ (o ++ [(e, .applied effect)]) db'
  | deadLettered {o : Outcomes} {db db' : LocalDb} {e : MutationLogEntry} {reason : String} :
      PageRun E now db₀ o db → deadLetterEntry now db e reason = .ok db' →
      PageRun E now db₀ (o ++ [(e, .deadLettered reason)]) db'

/-- What a page did is what its outcomes say, in their order. -/
theorem pagePasses_run (h : pagePasses E device now db₀ entries = .ok tx) :
    PageRun E now db₀ tx.outcomes tx.db := by
  obtain ⟨tx₁, hfirst, hsecond⟩ := bind_ok h
  have h₁ : PageRun E now db₀ tx₁.outcomes tx₁.db := by
    refine foldlM_ok_invariant (P := fun x => PageRun E now db₀ x.outcomes x.db) hfirst .start ?_
    intro x y e _ hx hone
    cases pageEntry_step hone with
    | own _ => exact hx.own
    | applied _ happ => exact hx.applied happ
    | deferred _ _ => exact hx
    | deadLettered hdb => exact hx.deadLettered hdb
  refine foldlM_ok_invariant (P := fun x => PageRun E now db₀ x.outcomes x.db) hsecond h₁ ?_
  intro x y d _ hx hone
  cases requeueEntry_step hone with
  | applied happ => exact hx.applied happ
  | deadLettered hdb => exact hx.deadLettered hdb

end Passes

/-! ## Properties of the rows -/

/-- A property of the rows that entries in `K` do not disturb. -/
structure Stable (E : Env) (now : Int) (K : MutationLogEntry → Prop) (P : LocalDb → Prop) :
    Prop where
  tables : ∀ {db db' : LocalDb}, (∀ t, db'.table t = db.table t) → P db → P db'
  apply : ∀ {db db' : LocalDb} {e : MutationLogEntry} {effect : ApplyEffect}, K e →
    ApplyStep E now db e.blob effect db' → P db → P db'

section Stable

variable {device : Uuid} {K : MutationLogEntry → Prop} {P : LocalDb → Prop}

theorem Stable.pageLoop (h : Stable E now K P) {l : List MutationLogEntry} (hK : ∀ e ∈ l, K e)
    (hl : l.foldlM (pageEntry E device localEpoch now) tx = .ok tx') (h0 : P tx.db) :
    P tx'.db := by
  refine foldlM_ok_invariant (P := fun x => P x.db) hl h0 ?_
  intro x y e he hx hone
  cases pageEntry_step hone with
  | own _ => exact hx
  | applied _ happ => exact h.apply (hK e he) happ hx
  | deferred _ _ => exact hx
  | deadLettered hdb => exact h.tables (deadLetterEntry_ok hdb).1 hx

/-- Of the entries that waited only those matter that the second pass applied. -/
theorem Stable.requeueApplied (h : Stable E now K P) {l : List (MutationLogEntry × String)}
    (hl : l.foldlM (requeueEntry E now) tx = .ok tx')
    (hK : ∀ d ∈ l, ∀ effect, (d.1, .applied effect) ∈ tx'.outcomes → K d.1) (h0 : P tx.db) :
    P tx'.db := by
  induction l generalizing tx with
  | nil =>
    cases hl
    exact h0
  | cons d rest ih =>
    obtain ⟨tx₁, hone, hrest⟩ := foldlM_cons_ok hl
    refine ih hrest (fun d hd => hK d (mem_cons_of_mem _ hd)) ?_
    cases requeueEntry_step hone with
    | @applied effect _ happ =>
      have hmem := requeueLoop_outcomes hrest (mem_concat_self ..)
      exact h.apply (hK d mem_cons_self effect hmem) happ h0
    | deadLettered hdb => exact h.tables (deadLetterEntry_ok hdb).1 h0

theorem Stable.requeueLoop (h : Stable E now K P) {l : List (MutationLogEntry × String)}
    (hK : ∀ d ∈ l, K d.1) (hl : l.foldlM (requeueEntry E now) tx = .ok tx') (h0 : P tx.db) :
    P tx'.db :=
  h.requeueApplied hl (fun d hd _ _ => hK d hd) h0

theorem Stable.pagePasses (h : Stable E now K P) {db entries} (hK : ∀ e ∈ entries, K e)
    (hpage : SentinelPass.pagePasses E device now db entries = .ok tx) (h0 : P db) : P tx.db := by
  obtain ⟨tx₁, hfirst, hsecond⟩ := bind_ok hpage
  obtain ⟨-, more, hdef, hmore⟩ := pageLoop_grows hfirst
  refine h.requeueLoop (fun d hd => ?_) hsecond (h.pageLoop hK hfirst h0)
  rw [hdef] at hd
  exact hK _ (hmore d hd)

end Stable

def writtenBlob : MutationLogEntry × Disposition → Option SyncEntryBlob
  | (e, .applied effect) => if effect.writes then some e.blob else none
  | _ => none

theorem writtenBlob_eq_some {x blob} (h : writtenBlob x = some blob) : x.1.blob = blob := by
  unfold writtenBlob at h
  split at h
  · split at h
    · exact Option.some.inj h
    · exact absurd h nofun
  · exact absurd h nofun

/-! ## What is written is in the row -/

section Shows

open LocalDb

variable {blob : SyncEntryBlob} {effect : ApplyEffect} {written : List SyncEntryBlob}

/-- The row shows the version of the blob, and its content unless it is a tombstone. -/
def Shows (E : Env) (db : LocalDb) (blob : SyncEntryBlob) : Prop :=
  ∃ r, db.row blob.entryType blob.syncId = some r ∧
    r.sync.syncVersion = blob.syncVersion.toInt64 ∧ r.sync.isDeleted = blob.isTombstone ∧
    (blob.isTombstone = false →
      ∃ db₁ p, prepare E db₁ blob blob.entryType = .ok p ∧ p.content = r.content)

/-- Of the blobs that were written into one row, the last one is shown. -/
def LastShown (E : Env) (db : LocalDb) (written : List SyncEntryBlob) : Prop :=
  ∀ before blob after, written = before ++ blob :: after →
    (∀ b ∈ after, ¬ (blob.entryType = b.entryType ∧ blob.syncId = b.syncId)) → Shows E db blob

theorem ApplyStep.shows (h : ApplyStep E now db blob effect db') (hw : effect.writes = true) :
    Shows E db' blob := by
  cases h with
  | @tombstoned r hr _ _ htomb =>
    refine ⟨{ r with sync := .tombstoned blob.syncVersion now r.sync }, ?_, rfl, htomb.symm, ?_⟩
    · rw [row_updateCols, if_pos ⟨rfl, rfl⟩]
      exact congrArg _ hr
    · intro hlive
      cases hlive.symm.trans htomb
  | updated _ _ _ hlive hp =>
    exact ⟨_, row_putRow_self _ _ _ _, rfl, hlive.symm, fun _ => ⟨db, _, hp, rfl⟩⟩
  | inserted _ hlive _ hp =>
    exact ⟨_, row_putRow_self _ _ _ _, rfl, hlive.symm, fun _ => ⟨db, _, hp, rfl⟩⟩
  | recorded _ _ => cases hw
  | keptLocal _ _ _ => cases hw
  | skipped _ _ => cases hw

/-- A conflict that is recorded marks the row and leaves what it shows. -/
theorem Shows.unwritten {b : SyncEntryBlob} (h : Shows E db b)
    (happ : ApplyStep E now db blob effect db') (hw : effect.writes = false) : Shows E db' b := by
  cases happ with
  | recorded _ _ =>
    obtain ⟨r, hr, hshown⟩ := h
    by_cases hobj : b.entryType = blob.entryType ∧ b.syncId = blob.syncId
    · refine ⟨{ r with sync := r.sync.conflicted }, ?_, hshown⟩
      rw [row_updateCols, if_pos hobj, row_recordConflict, hr]
      rfl
    · exact ⟨r, by rw [row_updateCols, if_neg hobj, row_recordConflict, hr], hshown⟩
  | keptLocal _ _ _ => exact h
  | skipped _ _ => exact h
  | tombstoned _ _ _ _ => cases hw
  | updated _ _ _ _ _ => cases hw
  | inserted _ _ _ _ => cases hw

theorem LastShown.apply {e : MutationLogEntry} (h : LastShown E db written)
    (happ : ApplyStep E now db e.blob effect db') :
    LastShown E db' (written ++ [(e, .applied effect)].filterMap writtenBlob) := by
  intro before blob after heq hlast
  cases hw : effect.writes with
  | false =>
    have hnone : [(e, Disposition.applied effect)].filterMap writtenBlob = [] := by
      simp [writtenBlob, hw]
    rw [hnone, append_nil] at heq
    exact (h before blob after heq hlast).unwritten happ hw
  | true =>
    have hone : [(e, Disposition.applied effect)].filterMap writtenBlob = [e.blob] := by
      simp [writtenBlob, hw]
    rw [hone] at heq
    -- the blob is the one that was written now, or that one is for another row
    rcases eq_nil_or_concat after with rfl | ⟨after, b, rfl⟩
    · obtain ⟨-, hblob⟩ := append_inj' heq rfl
      cases hblob
      exact happ.shows hw
    · rw [concat_eq_append] at heq hlast
      rw [← cons_append, ← append_assoc] at heq
      obtain ⟨hwritten, hb⟩ := append_inj' heq rfl
      cases hb
      obtain ⟨r, hr, hshown⟩ := h before blob after hwritten
        fun b hb => hlast b (mem_append_left _ hb)
      exact ⟨r, (happ.row_of_ne (hlast _ (by simp))).trans hr, hshown⟩

theorem lastShown_nil (db : LocalDb) : LastShown E db [] := by
  intro before blob after heq
  simp at heq

theorem LastShown.congr (h : LastShown E db written) (hrows : ∀ t id, db'.row t id = db.row t id) :
    LastShown E db' written := by
  intro before blob after heq hlast
  obtain ⟨r, hr, hshown⟩ := h before blob after heq hlast
  exact ⟨r, (hrows _ _).trans hr, hshown⟩

end Shows

/-! ## Marks of a page -/

/-- Where the acknowledged versions and the stored conflicts of a page come from:
from the database it began with, or from an entry it applied. What it wrote last is shown. -/
structure PageMarks (E : Env) (now : Int) (db₀ : LocalDb) (tx : PageTx) : Prop where
  acked : ∀ t id c, tx.db.cols t id = some c →
    (∃ c₀, db₀.cols t id = some c₀ ∧ c₀.syncAckedVersion = c.syncAckedVersion) ∨
    ∃ e effect, (e, .applied effect) ∈ tx.outcomes ∧ effect.writes = true ∧
      e.blob.entryType = t ∧ e.blob.syncId = id ∧
      c.syncAckedVersion = e.blob.syncVersion.toInt64
  conflicts : ∀ id r, tx.db.syncConflicts.get? id = some r → db₀.syncConflicts.get? id = some r ∨
    ∃ e effect, (e, .applied effect) ∈ tx.outcomes ∧ id = e.blob.syncId ∧ r = conflictRow e.blob now
  shown : LastShown E tx.db (tx.outcomes.filterMap writtenBlob)

section Marks

variable {device : Uuid} {db₀ : LocalDb}

theorem PageMarks.quiet (h : PageMarks E now db₀ tx) {d : Disposition}
    (hd : writtenBlob (e, d) = none) (htables : ∀ t, db.table t = tx.db.table t)
    (hconf : db.syncConflicts = tx.db.syncConflicts) :
    PageMarks E now db₀ (tx.settle e db d) where
  acked t id c hc := by
    change db.cols t id = some c at hc
    rw [LocalDb.cols_congr htables] at hc
    refine (h.acked t id c hc).imp_right ?_
    rintro ⟨e', effect, hm, hrest⟩
    exact ⟨e', effect, mem_append_left _ hm, hrest⟩
  conflicts id r hr := by
    change db.syncConflicts.get? id = some r at hr
    rw [hconf] at hr
    refine (h.conflicts id r hr).imp_right ?_
    rintro ⟨e', effect, hm, hrest⟩
    exact ⟨e', effect, mem_append_left _ hm, hrest⟩
  shown := by
    have hsame : [(e, d)].filterMap writtenBlob = [] := by simp [hd]
    rw [PageTx.settle, filterMap_append, hsame, append_nil]
    exact h.shown.congr (LocalDb.row_congr htables)

theorem PageMarks.apply (h : PageMarks E now db₀ tx) {effect}
    (happ : ApplyStep E now tx.db e.blob effect db) :
    PageMarks E now db₀ (tx.settle e db (.applied effect)) where
  acked t id c hc := by
    rcases happ.acked hc with ⟨c₁, hc₁, hsame⟩ | ⟨hw, ht, hid, hver⟩
    · rcases h.acked t id c₁ hc₁ with ⟨c₀, hc₀, h₀⟩ | ⟨e', effect', hm, hw, ht, hid, hver⟩
      · exact .inl ⟨c₀, hc₀, h₀.trans hsame⟩
      exact .inr ⟨e', effect', mem_append_left _ hm, hw, ht, hid, hsame.symm.trans hver⟩
    · exact .inr ⟨e, effect, mem_concat_self .., hw, ht, hid, hver⟩
  conflicts id r hr := by
    rcases happ.conflicts hr with hold | ⟨hid, hrow⟩
    · refine (h.conflicts id r hold).imp_right ?_
      rintro ⟨e', effect', hm, hrest⟩
      exact ⟨e', effect', mem_append_left _ hm, hrest⟩
    · exact .inr ⟨e, effect, mem_concat_self .., hid, hrow⟩
  shown := by
    rw [PageTx.settle, filterMap_append]
    exact h.shown.apply happ

theorem pagePasses_marks {entries} (h : pagePasses E device now db₀ entries = .ok tx) :
    PageMarks E now db₀ tx := by
  obtain ⟨tx₁, hfirst, hsecond⟩ := bind_ok h
  have h₁ : PageMarks E now db₀ tx₁ := by
    refine foldlM_ok_invariant hfirst
      ⟨fun _ _ c hc => .inl ⟨c, hc, rfl⟩, fun _ _ hr => .inl hr, lastShown_nil _⟩ ?_
    intro x y e _ hx hone
    cases pageEntry_step hone with
    | own _ => exact hx.quiet rfl (fun _ => rfl) rfl
    | applied _ happ => exact hx.apply happ
    | deferred _ _ => exact ⟨hx.acked, hx.conflicts, hx.shown⟩
    | deadLettered hdb => exact hx.quiet rfl (deadLetterEntry_ok hdb).1 (deadLetterEntry_ok hdb).2.1
  refine foldlM_ok_invariant hsecond h₁ ?_
  intro x y d _ hx hone
  cases requeueEntry_step hone with
  | applied happ => exact hx.apply happ
  | deadLettered hdb => exact hx.quiet rfl (deadLetterEntry_ok hdb).1 (deadLetterEntry_ok hdb).2.1

end Marks

/-! ## The page transaction and the loop over pages -/

section Loop

variable {device : Uuid} {response : PullResponseV2}

/-- A page that gets to its commit ran both passes to the end and stayed within
the bound on dead letters. -/
theorem pageBody_ok {tx' : PageTx} (h : pageBody E device now db response = .ok tx') :
    ∃ tx, pagePasses E device now db response.entries = .ok tx ∧
      tx.db.syncDeadLetter.rows.length ≤ maxDeadLetter ∧
      tx' = { tx with db := tx.db.setConfig (pageConfig tx.db.config response).stored } := by
  obtain ⟨tx, htx, h⟩ := bind_ok h
  simp only [bind, Except.bind, throw, throwThe, MonadExceptOf.throw, pure, Except.pure,
    ite_error_eq_ok, Except.ok.injEq] at h
  exact ⟨tx, htx, Nat.not_lt.mp h.1, h.2.symm⟩

/-- A page either leaves the database alone and reports an error, or wrote all
of itself; the latter is an error only when the receipt of a commit that went
through could not be published. -/
theorem pullPage_cases (E : Env) (device : Uuid) (now : Int) (guard : Guard)
    (cursor highWater : UInt64) (db : LocalDb) (response : PullResponseV2) :
    (∃ e, pullPage E device now guard cursor highWater db response = .failed db e) ∨
    ∃ tx, checkCursor cursor highWater response = .ok () ∧
      pageBody E device now db response = .ok tx ∧
      ((guard = .committed ∧ pullPage E device now guard cursor highWater db response =
          ⟨tx.db, tx.outcomes, .ok (pageConfig db.config response).lineageHighWater⟩) ∨
        (guard = .receiptLost ∧ pullPage E device now guard cursor highWater db response =
          ⟨tx.db, tx.outcomes, .error (.io "receipt not published")⟩)) := by
  unfold pullPage
  cases hcheck : checkCursor cursor highWater response with
  | error e => exact .inl ⟨e, rfl⟩
  | ok _ =>
    cases hbody : pageBody E device now db response with
    | error e =>
      left
      cases guard with
      | refused => exact ⟨_, rfl⟩
      | rolledBack => exact ⟨e, rfl⟩
      | receiptLost => exact ⟨e, rfl⟩
      | committed => exact ⟨e, rfl⟩
    | ok tx =>
      cases guard with
      | refused => exact .inl ⟨_, rfl⟩
      | rolledBack => exact .inl ⟨_, rfl⟩
      | receiptLost => exact .inr ⟨tx, rfl, rfl, .inr ⟨rfl, rfl⟩⟩
      | committed => exact .inr ⟨tx, rfl, rfl, .inl ⟨rfl, rfl⟩⟩

/-- What holds of a page that changed nothing and of one that wrote all of itself holds of every
page. -/
theorem pullPage_rule {P : LocalDb → Outcomes → Prop} {guard : Guard} {cursor highWater : UInt64}
    (hfail : P db []) (hdone : ∀ {tx : PageTx}, pageBody E device now db response = .ok tx →
      P tx.db tx.outcomes) :
    P (pullPage E device now guard cursor highWater db response).db
      (pullPage E device now guard cursor highWater db response).outcomes := by
  rcases pullPage_cases E device now guard cursor highWater db response with
    ⟨e, h⟩ | ⟨tx, -, hbody, ⟨-, h⟩ | ⟨-, h⟩⟩
  · rw [h]
    exact hfail
  · rw [h]
    exact hdone hbody
  · rw [h]
    exact hdone hbody

/-- **The rule for a whole pull.** A relation between two databases and the
outcomes in between that every page establishes, and that composes, holds of the
loop. -/
theorem pullLoop_rule {R : LocalDb → LocalDb → Outcomes → Prop} (hrefl : ∀ db, R db db [])
    (htrans : ∀ {a b c x y}, R a b x → R b c y → R a c (x ++ y)) {turns : List PullTurn}
    (hpage : ∀ turn ∈ turns, ∀ {db : LocalDb} {tx : PageTx},
      pageBody E device turn.now db turn.response = .ok tx → R db tx.db tx.outcomes)
    (cursor highWater : UInt64) (db : LocalDb) (count : Nat) :
    R db (pullLoop E device cursor highWater db count turns).1
      (pullLoop E device cursor highWater db count turns).2.1 := by
  induction turns generalizing cursor highWater db count with
  | nil => exact hrefl db
  | cons turn rest ih =>
    have hone : R db
        (pullPage E device turn.now turn.guard cursor highWater db turn.response).db
        (pullPage E device turn.now turn.guard cursor highWater db turn.response).outcomes :=
      pullPage_rule (hrefl db) (hpage turn mem_cons_self)
    unfold pullLoop
    by_cases hempty : turn.response.entries = []
    · rw [if_pos hempty]
      exact hrefl db
    · rw [if_neg hempty]
      dsimp only
      cases (pullPage E device turn.now turn.guard cursor highWater db turn.response).result with
      | error e => exact hone
      | ok high =>
        dsimp only
        by_cases hmore : turn.response.hasMore = true
        · rw [if_pos hmore]
          exact htrans hone (ih (fun t ht => hpage t (mem_cons_of_mem _ ht)) ..)
        · rw [if_neg hmore]
          exact hone

end Loop

end SentinelPass
