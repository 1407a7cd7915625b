import SentinelPass.Sync.LocalChanges
import SentinelPass.Sync.Resolve
import SentinelPass.Sync.Transport

/-!
# One device with pushes in flight

`push_changes` collects under the database lock, releases it while a chunk is on
its way, and takes it again for the acknowledgement; anything can happen to the
database in between. The device here does local writes, collects, acknowledges
any chunk it has in flight with any answer, applies any pull page and keeps its
side of stored conflicts, in any order.

The Applied branch of `apply_push_acks` writes `synced` whatever the row's
version is by then. A run in which that never meets a row edited since its
collection leaves no edit behind (`no_edit_dropped`); `edit_dropped_in_flight`
is the run of an honest relay in which it does.
-/

namespace SentinelPass

open Lib LocalDb

def maxPushMutations : Nat := 500

/-- The locked half of `push_changes`: what is collected, chunk by chunk. -/
def collectForPush (E : Env) (nonces : Nonces) (device : Uuid) (db : LocalDb) :
    Except PmError (List (List MutationV2)) :=
  match db.config.vaultId with
  | none => .error (.invalidInput "Sync vault ID missing")
  | some vault => do
    let mutations ← collectPendingMutations E nonces device vault db.keyEpoch db
    .ok (chunks maxPushMutations mutations)

variable {E : Env} {chunk : List MutationV2} {db : LocalDb} {device : Uuid} {now : Int}
  {db' : LocalDb} {guard : Guard}

theorem collectForPush_offers {nonces collected}
    (h : collectForPush E nonces device db = .ok collected) (hchunk : chunk ∈ collected) {m}
    (hm : m ∈ chunk) : ∃ vault t id r, Offers E nonces device vault db.keyEpoch db t id r m := by
  unfold collectForPush at h
  split at h
  · cases h
  rename_i vault _
  obtain ⟨mutations, hcollect, h⟩ := bind_ok h
  cases h
  have hmem := (mem_collectPendingMutations hcollect).mp (mem_of_mem_chunks hchunk hm)
  exact ⟨vault, hmem⟩

/-- A database and the chunks that were collected from it. -/
structure DeviceState where
  db : LocalDb
  inFlight : List (List MutationV2)

/-- What the device does. -/
inductive DeviceAction
  | edit (op : LocalOp)
  | collect (nonces : Nonces)
  | acks (chunk : Nat) (results : List MutationResult) (serverCursor : UInt64) (now : Int)
  | page (cursor highWater : UInt64) (response : PullResponseV2) (now : Int) (guard : Guard)
  | keepLocal (object : Uuid) (now : Int) (guard : Guard)

def deviceStep (E : Env) (device : Uuid) (s : DeviceState) : DeviceAction → Option DeviceState
  | .edit op => (op.run E.decodeBase32 s.db).toOption.map fun db => { s with db := db }
  | .collect nonces =>
    (collectForPush E nonces device s.db).toOption.map fun collected =>
      { s with inFlight := s.inFlight ++ collected }
  | .acks i results cursor now =>
    s.inFlight[i]?.map fun chunk =>
      { s with db := (applyPushAcks s.db chunk results cursor now).1 }
  | .page cursor highWater response now guard =>
    some { s with db := (pullPage E device now guard cursor highWater s.db response).db }
  | .keepLocal object now guard =>
    some { s with db := (resolveSyncConflict E now guard s.db object false).db }

/-- No row is marked synced above its acknowledged version. -/
def NoDroppedEdit (db : LocalDb) : Prop :=
  ∀ t id c, db.cols t id = some c → c.syncState = .synced → c.syncVersion ≤ c.syncAckedVersion

def deviceMachine (E : Env) (device : Uuid) : Machine DeviceState DeviceAction where
  init s := NoDroppedEdit s.db ∧ s.inFlight = []
  step := deviceStep E device

/-- Every result that is honoured as Applied meets a row that has not moved past
the version it acknowledges. -/
def AcksCurrent (chunk : List MutationV2) (now : Int) : LocalDb → List MutationResult → Prop
  | _, [] => True
  | db, result :: rest =>
    (∀ m c, routed chunk result = some m → ackEffect m result.outcome = .applied →
      db.cols m.objectType m.objectId = some c →
      c.syncVersion ≤ m.resultingVersion.toInt64) ∧
    AcksCurrent chunk now (ackOne chunk now db result) rest

instance decidableAcksCurrent (chunk : List MutationV2) (now : Int) :
    (db : LocalDb) → (results : List MutationResult) → Decidable (AcksCurrent chunk now db results)
  | _, [] => .isTrue trivial
  | db, result :: rest =>
    have := decidableAcksCurrent chunk now (ackOne chunk now db result) rest
    decidable_of_iff ((∀ m ∈ routed chunk result, ackEffect m result.outcome = .applied →
        ∀ c ∈ db.cols m.objectType m.objectId, c.syncVersion ≤ m.resultingVersion.toInt64) ∧
        AcksCurrent chunk now (ackOne chunk now db result) rest)
      (and_congr_left' ⟨fun h m c hm heff hc => h m hm heff c hc,
        fun h m hm heff c hc => h m c hm heff hc⟩)

/-- The steps of a run in which no acknowledgement comes too late. -/
def Timely (s : DeviceState) : DeviceAction → Prop
  | .acks i results _ now => ∀ chunk, s.inFlight[i]? = some chunk →
      AcksCurrent chunk now s.db results
  | _ => True

instance (s : DeviceState) : (a : DeviceAction) → Decidable (Timely s a)
  | .acks .. => by
    unfold Timely
    infer_instance
  | .edit .. | .collect .. | .page .. | .keepLocal .. => .isTrue trivial

/-! ## What each step keeps -/

theorem NoDroppedEdit.congr (h : NoDroppedEdit db)
    (hcols : ∀ t id, db'.cols t id = db.cols t id) : NoDroppedEdit db' := by
  intro t id c hc
  rw [hcols] at hc
  exact h t id c hc

theorem NoDroppedEdit.localStep {op} (h : NoDroppedEdit db) (hstep : LocalStep db op db') :
    NoDroppedEdit db' := by
  intro t id c hc hsynced
  have hcols := hstep.cols t id
  rw [hc] at hcols
  generalize hold : db.cols t id = old at hcols
  cases hcols with
  | same => exact h t id c hold hsynced
  | created hpend _ =>
    rw [hpend] at hsynced
    cases hsynced
  | edited hpend _ =>
    rw [hpend] at hsynced
    cases hsynced

theorem noDroppedEdit_stable (E now) : Stable E now (fun _ => True) NoDroppedEdit where
  tables htables h := h.congr (cols_congr htables)
  apply {db db' e effect} _ happ h := by
    intro t id c hc hsynced
    by_cases hobj : t = e.blob.entryType ∧ id = e.blob.syncId
    · obtain ⟨rfl, rfl⟩ := hobj
      have hcols := happ.cols_self
      rw [hc] at hcols
      generalize hold : db.cols e.blob.entryType e.blob.syncId = old at hcols
      cases hcols with
      | recorded _ => cases hsynced
      | keptLocal _ _ => exact h _ _ c hold hsynced
      | tombstoned _ _ _ => exact Int64.le_refl _
      | updated _ _ => exact Int64.le_refl _
      | inserted _ => exact Int64.le_refl _
    · rw [happ.cols_of_ne hobj] at hc
      exact h t id c hc hsynced

theorem NoDroppedEdit.pullPage {cursor highWater response} (h : NoDroppedEdit db) :
    NoDroppedEdit (pullPage E device now guard cursor highWater db response).db := by
  refine pullPage_rule (P := fun db _ => NoDroppedEdit db) h fun hbody => ?_
  obtain ⟨tx, hpasses, -, rfl⟩ := pageBody_ok hbody
  have hwritten := (noDroppedEdit_stable E now).pagePasses (fun _ _ => trivial) hpasses h
  exact hwritten.congr fun t id =>
    cols_setConfig tx.db (pageConfig tx.db.config response).stored t id

theorem NoDroppedEdit.ackOne {result} (h : NoDroppedEdit db)
    (hcurrent : ∀ m c, routed chunk result = some m → ackEffect m result.outcome = .applied →
      db.cols m.objectType m.objectId = some c → c.syncVersion ≤ m.resultingVersion.toInt64) :
    NoDroppedEdit (ackOne chunk now db result) := by
  unfold SentinelPass.ackOne
  split
  · exact h
  rename_i m hm
  intro t id c hc hsynced
  rw [AckEffect.run_cols] at hc
  split at hc
  · next hobj =>
    obtain ⟨rfl, rfl⟩ := hobj
    obtain ⟨c₀, hc₀, rfl⟩ := Option.map_eq_some_iff.mp hc
    cases heff : ackEffect m result.outcome with
    | suspicious =>
      rw [heff] at hsynced
      exact h _ _ c₀ hc₀ hsynced
    | applied => exact hcurrent m c₀ hm heff hc₀
    | conflicted =>
      rw [heff] at hsynced
      cases hsynced
    | rebased current =>
      rw [heff] at hsynced
      cases hsynced
    | rejected =>
      rw [heff] at hsynced
      exact h _ _ c₀ hc₀ hsynced
  · exact h t id c hc hsynced

theorem NoDroppedEdit.acks {results} (h : NoDroppedEdit db)
    (hcurrent : AcksCurrent chunk now db results) (cursor) :
    NoDroppedEdit (applyPushAcks db chunk results cursor now).1 := by
  have hloop : NoDroppedEdit (results.foldl (SentinelPass.ackOne chunk now) db) := by
    induction results generalizing db with
    | nil => exact h
    | cons result rest ih => exact ih (h.ackOne hcurrent.1) hcurrent.2
  exact hloop.congr fun t id => cols_setConfig ..

theorem NoDroppedEdit.keepLocal {object : Uuid} (h : NoDroppedEdit db) :
    NoDroppedEdit (resolveSyncConflict E now guard db object false).db := by
  unfold resolveSyncConflict
  split
  · exact h
  intro t id c hc hsynced
  change (dropConflict _ _).cols t id = some c at hc
  rw [cols_dropConflict, cols_updateCols] at hc
  split at hc
  · obtain ⟨c₀, -, rfl⟩ := Option.map_eq_some_iff.mp hc
    cases hsynced
  exact h t id c hc hsynced

theorem NoDroppedEdit.step {s s' a} (h : NoDroppedEdit s.db) (hok : Timely s a)
    (hs : (deviceMachine E device).step s a = some s') : NoDroppedEdit s'.db := by
  cases a with
  | edit op =>
    obtain ⟨db, hdb, rfl⟩ := Option.map_eq_some_iff.mp hs
    exact h.localStep (LocalOp.run_step (toOption_eq_some.mp hdb))
  | collect nonces =>
    obtain ⟨collected, -, rfl⟩ := Option.map_eq_some_iff.mp hs
    exact h
  | acks i results cursor now =>
    obtain ⟨chunk, hchunk, rfl⟩ := Option.map_eq_some_iff.mp hs
    exact h.acks (hok chunk hchunk) cursor
  | page cursor highWater response now guard =>
    cases hs
    exact h.pullPage
  | keepLocal object now guard =>
    cases hs
    exact h.keepLocal

/-- **No local edit is dropped by a timely acknowledgement.** In every state of a
run in which no Applied result meets a row that has moved past the acknowledged
version, no row stands above its acknowledged version and counts as synced. -/
theorem no_edit_dropped {E : Env} {device : Uuid} {s : DeviceState}
    (h : (deviceMachine E device).Reachable Timely s) :
    ∀ t id c, s.db.cols t id = some c → c.syncAckedVersion < c.syncVersion →
      c.syncState ≠ .synced := by
  have hinv : NoDroppedEdit s.db :=
    h.invariant (fun h0 => h0.1) fun hx hok hs => hx.step hok hs
  intro t id c hc habove hsynced
  exact Int64.not_le.mpr habove (hinv t id c hc hsynced)

/-! ## An edit while the push is on its way -/

def sampleDevice : DeviceState := ⟨.fresh (some 1) 1, []⟩

def sampleCollected : List DeviceAction :=
  [.edit (.addEntry 7 sampleEntry 0), .collect sampleNonces]

def sampleChunk : List MutationV2 :=
  (((deviceMachine sampleEnv 2).exec sampleDevice sampleCollected).bind (·.inFlight.head?)).getD []

/-- A relay where device 2 is registered for vault 1. -/
def sampleDeviceRelay : Relay.RelayState :=
  (Relay.relay.exec .empty [Relay.sampleRegister 2]).getD .empty

def sampleAnswer : List MutationResult :=
  [⟨mutationIdFor sampleCrypto 1 7 1, 7, .applied 1 1⟩]

/-- The user edits the credential before the answer is there: the row ends synced
at version 2, acknowledged 1, and the next collection has nothing to send. -/
theorem edit_dropped_in_flight :
    (Relay.pushV2 sampleDeviceRelay 2 (pushRequest 1 sampleChunk) 5).toOption.map (·.2.results)
      = some sampleAnswer ∧
    ∃ s c, (deviceMachine sampleEnv 2).exec sampleDevice
        (sampleCollected ++ [.edit (.updateEntry 7 { sampleEntry with password := "new" } 1),
          .acks 0 sampleAnswer 1 6]) = some s ∧
      s.db.cols .credential 7 = some c ∧ c.syncAckedVersion < c.syncVersion ∧
      c.syncState = .synced ∧ collectForPush sampleEnv sampleNonces 2 s.db = .ok [] := by
  refine ⟨by decide +kernel, ?_⟩
  have hrun : (((deviceMachine sampleEnv 2).exec sampleDevice
      (sampleCollected ++ [.edit (.updateEntry 7 { sampleEntry with password := "new" } 1),
        .acks 0 sampleAnswer 1 6])).map fun s =>
      ((s.db.cols .credential 7).map fun c => (c.syncAckedVersion, c.syncVersion, c.syncState),
        (collectForPush sampleEnv sampleNonces 2 s.db).toOption))
      = some (some (1, 2, .synced), some []) := by decide +kernel
  obtain ⟨s, hs, heq⟩ := Option.map_eq_some_iff.mp hrun
  obtain ⟨hcols, hnext⟩ := Prod.mk.inj heq
  obtain ⟨c, hc, hvals⟩ := Option.map_eq_some_iff.mp hcols
  obtain ⟨hacked, hversion, hstate⟩ : _ ∧ _ ∧ _ := by simpa only [Prod.mk.injEq] using hvals
  refine ⟨s, c, hs, hc, ?_, hstate, toOption_eq_some.mp hnext⟩
  rw [hacked, hversion]
  decide

def timelyRun : List DeviceAction :=
  sampleCollected ++ [.acks 0 sampleAnswer 1 6,
    .edit (.updateEntry 7 { sampleEntry with password := "new" } 7)]

theorem timely_timelyRun :
    (deviceMachine sampleEnv 2).Allowed Timely sampleDevice timelyRun := by decide +kernel

/-- Without the edit in between the run is timely, and an edit after the answer
is pending. -/
theorem no_edit_dropped_sample :
    ∃ s, (deviceMachine sampleEnv 2).exec sampleDevice timelyRun = some s ∧
      (s.db.cols .credential 7).map (fun c => (c.syncAckedVersion, c.syncVersion))
        = some (1, 2) ∧
      ∀ t id c, s.db.cols t id = some c → c.syncAckedVersion < c.syncVersion →
        c.syncState ≠ .synced := by
  have hend : (((deviceMachine sampleEnv 2).exec sampleDevice timelyRun).map fun s =>
      (s.db.cols .credential 7).map fun c => (c.syncAckedVersion, c.syncVersion))
      = some (some (1, 2)) := by decide +kernel
  obtain ⟨s, hs, hcols⟩ := Option.map_eq_some_iff.mp hend
  have hinit : (deviceMachine sampleEnv 2).init sampleDevice := by
    refine ⟨fun t id c hc => ?_, rfl⟩
    change (fresh (some 1) 1).cols t id = some c at hc
    rw [cols_fresh] at hc
    cases hc
  have hrun := Machine.run_of_exec timely_timelyRun hs
  exact ⟨s, hs, hcols, no_edit_dropped ⟨sampleDevice, hinit, hrun⟩⟩

end SentinelPass
