import SentinelPass.Lib.Machine
import SentinelPass.Relay.State

/-!
# `push_v2`

The transactional push handler (`handlers/sync_v2.rs`). One request runs in one
SQLite transaction: `pushOne` is the loop body for one mutation, `PushTx` what
the transaction carries between two of them, and an `Except` error rolls the
whole request back.

`PushStep` says once what the loop body can do (replay a durable result, reject
as stale, reject as a version conflict, apply); `pushOne_step` is the inversion
every later proof uses.
-/

namespace SentinelPass.Relay

open Lib Base64

def maxMutationsPerPush : Nat := 500

/-- A mutation may not jump an object's version by more than this. -/
def maxVersionStep : UInt64 := 10000

/-- A mutation may not claim an epoch more than this far above the vault's. -/
def maxEpochJump : Int := 100000

/-- Static validation of a mutation. The base64 errors carry the decoder's own
text after the colon, which is not modelled. -/
def validateShape (m : MutationV2) : Except RelayError Unit := do
  if m.vaultId.isNil || m.objectId.isNil || m.mutationId.isNil then
    throw (.badRequest "mutation ids must not be nil")
  if m.entryType ∉ ["credential", "ssh_key", "totp_secret"] then
    throw (.badRequest ("Unknown entry_type: " ++ m.entryType))
  if m.resultingVersion = 0 then
    throw (.badRequest "resulting_version must be at least 1")
  if m.resultingVersion ≤ m.expectedVersion
      ∨ maxVersionStep < m.resultingVersion - m.expectedVersion then
    throw (.badRequest "resulting_version must exceed expected_version by a sane step")
  if m.keyEpoch < 1 then
    throw (.badRequest "key_epoch must be a positive epoch")
  match decode m.encryptedPayload with
  | none => throw (.badRequest "Invalid payload: ")
  | some _ => pure ()
  match decode m.metadataMac with
  | none => throw (.badRequest "Invalid metadata_mac: ")
  | some mac =>
    if mac.length ≠ 32 then
      throw (.badRequest "metadata_mac must decode to exactly 32 bytes")

/-- What `validate_shape` accepts. -/
structure WellShaped (m : MutationV2) : Prop where
  ids : (m.vaultId.isNil || m.objectId.isNil || m.mutationId.isNil) = false
  entryType : m.entryType ∈ ["credential", "ssh_key", "totp_secret"]
  positive : m.resultingVersion ≠ 0
  increases : m.expectedVersion < m.resultingVersion
  sane : m.resultingVersion - m.expectedVersion ≤ maxVersionStep
  epoch : 1 ≤ m.keyEpoch
  payload : ∃ payload, decode m.encryptedPayload = some payload
  mac : ∃ mac, decode m.metadataMac = some mac ∧ mac.length = 32

variable {device vault : Uuid} {m : MutationV2} {now : Int} {req : PushRequestV2}

theorem validateShape_eq_ok : validateShape m = .ok () ↔ WellShaped m := by
  unfold validateShape
  simp only [bind, Except.bind, throw, throwThe, MonadExceptOf.throw, pure, Except.pure,
    ite_error_eq_ok]
  constructor
  · rintro ⟨hids, htype, hpos, hstep, hepoch, hrest⟩
    split at hrest
    · cases hrest
    rename_i payload hp
    split at hrest
    · cases hrest
    rename_i mac hm
    rw [ite_error_eq_ok, not_not] at hrest
    rw [not_or, UInt64.not_le, UInt64.not_lt] at hstep
    exact ⟨by simpa using hids, not_not.mp htype, hpos, hstep.1, hstep.2,
      by simpa using hepoch, ⟨payload, hp⟩, ⟨mac, hm, hrest.1⟩⟩
  · rintro ⟨hids, htype, hpos, hinc, hsane, hepoch, ⟨payload, hp⟩, ⟨mac, hm, hlen⟩⟩
    refine ⟨by simp [hids], not_not.mpr htype, hpos, ?_, by simpa using hepoch, ?_⟩
    · rw [not_or, UInt64.not_le, UInt64.not_lt]
      exact ⟨hinc, hsane⟩
    · rw [hp, hm]
      simp [hlen]

/-- What the transaction carries from one mutation to the next. -/
structure PushTx where
  relay : RelayState
  vaultEpoch : Int64
  epochChanged : Bool
  results : List MutationResult

def storedOutcome (row : MutationResultRow) : MutationOutcome :=
  match row.outcome with
  | .applied =>
    .applied (row.resultingVersion.getD 0).toUInt64 (row.serverSequence.getD 0)
  | .rejected =>
    .rejected ((row.rejectionReason.bind parseRejectionReason).getD .malformed)

/-- The row `record_result` writes for an outcome. -/
def resultRow (m : MutationV2) (outcome : MutationOutcome) (now : Int) : MutationResultRow :=
  match outcome with
  | .applied v seq =>
    { objectId := m.objectId, outcome := .applied, rejectionReason := none,
      resultingVersion := some v.toInt64, serverSequence := some seq, createdAt := now }
  | .rejected reason =>
    { objectId := m.objectId, outcome := .rejected,
      rejectionReason := some (reasonToJson reason), resultingVersion := none,
      serverSequence := none, createdAt := now }

@[simp] theorem storedOutcome_resultRow (m outcome now) :
    storedOutcome (resultRow m outcome now) = outcome := by
  cases outcome with
  | applied v seq => simp [storedOutcome, resultRow]
  | rejected reason => simp [storedOutcome, resultRow]

/-- The primary key of a mutation's durable result. -/
def resultKey (vault device : Uuid) (m : MutationV2) : ResultKey :=
  (m.mutationId, device, vault)

/-- `record_result`: an existing row stays. -/
def recordResult (s : RelayState) (vault device : Uuid) (m : MutationV2)
    (outcome : MutationOutcome) (now : Int) : RelayState :=
  { s with mutationResults :=
      s.mutationResults.insertIgnore (resultKey vault device m) (resultRow m outcome now) }

namespace PushTx

/-- Append an answer for `m`. -/
def answer (tx : PushTx) (m : MutationV2) (outcome : MutationOutcome) : PushTx :=
  { tx with results := tx.results ++ [⟨m.mutationId, m.objectId, outcome⟩] }

def conclude (tx : PushTx) (vault device : Uuid) (m : MutationV2) (outcome : MutationOutcome)
    (now : Int) : PushTx :=
  { tx with relay := recordResult tx.relay vault device m outcome now }.answer m outcome

/-- A mutation above the vault's epoch moves the vault to it. -/
def advance (tx : PushTx) (m : MutationV2) : PushTx :=
  if tx.vaultEpoch < m.keyEpoch then
    { tx with vaultEpoch := m.keyEpoch, epochChanged := true }
  else tx

end PushTx

/-- The CAS guard: an absent object expects version 0. -/
def casApplies (current : Option Int64) (expected : UInt64) : Bool :=
  match current with
  | none => expected = 0
  | some v => v.toUInt64 = expected

/-- The value `UPDATE sequence_counters … + 1` leaves in the counter, read back.
A missing row, or a counter at the end of the `i64` range, does not read back as
an integer. -/
def nextSequence (s : RelayState) (vault : Uuid) : Except RelayError Int64 :=
  match s.sequenceCounters.get? vault with
  | none => .error (.database "Query returned no rows")
  | some c =>
    if c = Int64.maxValue then .error (.database "Invalid column type Real")
    else .ok (c + 1)

def logRow (m : MutationV2) (payload : Bytes) (now : Int) : SyncMutationV2 where
  mutationId := m.mutationId
  objectId := m.objectId
  entryType := m.entryType
  expectedVersion := m.expectedVersion.toInt64
  resultingVersion := m.resultingVersion.toInt64
  keyEpoch := m.keyEpoch
  originDeviceId := m.originDeviceId
  isTombstone := m.isTombstone
  metadataMac := m.metadataMac
  encryptedPayload := payload
  receivedAt := now

def entryRow (m : MutationV2) (payload : Bytes) (seq : Int64) (now : Int) : SyncEntryV2 where
  entryType := m.entryType
  currentVersion := m.resultingVersion.toInt64
  keyEpoch := m.keyEpoch
  isTombstone := m.isTombstone
  metadataMac := m.metadataMac
  encryptedPayload := payload
  originDeviceId := m.originDeviceId
  serverSequence := seq
  receivedAt := now

/-- The relay after an apply: counter advanced, log and object state written. -/
def RelayState.appended (s : RelayState) (vault : Uuid)
    (log' : Table (Uuid × Int64) SyncMutationV2) (m : MutationV2) (row : SyncEntryV2) :
    RelayState :=
  { s with
    sequenceCounters := s.sequenceCounters.update vault (· + 1)
    syncMutationsV2 := log'
    syncEntriesV2 := s.syncEntriesV2.upsert (vault, m.objectId) row (fun _ => row) }

def PushTx.applied (tx : PushTx) (vault device : Uuid) (m : MutationV2)
    (log' : Table (Uuid × Int64) SyncMutationV2) (payload : Bytes) (seq : Int64) (now : Int) :
    PushTx :=
  let relay := tx.relay.appended vault log' m (entryRow m payload seq now)
  { tx with relay }.conclude vault device m (.applied m.resultingVersion seq) now

/-- Allocate the next sequence, write the log entry, the object state and the
durable result. -/
def applyMutation (vault device : Uuid) (now : Int) (tx : PushTx) (m : MutationV2) :
    Except RelayError PushTx := do
  let seq ← nextSequence tx.relay vault
  match decode m.encryptedPayload with
  | none => .error (.badRequest "Invalid payload: ")
  | some payload =>
    match tx.relay.syncMutationsV2.insert? (vault, seq) (logRow m payload now) with
    | none => .error (.database "UNIQUE constraint failed: sync_mutations_v2")
    | some log' =>
      .ok (tx.applied vault device m log' payload seq now)

/-- The loop body of `push_v2`. -/
def pushOne (vault device : Uuid) (now : Int) (tx : PushTx) (m : MutationV2) :
    Except RelayError PushTx := do
  validateShape m
  if m.vaultId ≠ vault then
    throw (.badRequest "mutation vault_id must match the authenticated device's vault")
  if m.originDeviceId ≠ device then
    throw (.badRequest "origin_device_id must match authenticated device")
  match tx.relay.mutationResults.get? (resultKey vault device m) with
  | some row => return tx.answer m (storedOutcome row)
  | none =>
    if m.keyEpoch < tx.vaultEpoch then
      return tx.conclude vault device m (.rejected (.staleEpoch tx.vaultEpoch)) now
    if m.keyEpoch.toInt - tx.vaultEpoch.toInt > maxEpochJump then
      throw (.badRequest ("key_epoch advance of "
        ++ toString (m.keyEpoch.toInt - tx.vaultEpoch.toInt)
        ++ " exceeds the maximum jump of " ++ toString maxEpochJump))
    let tx := tx.advance m
    let current := tx.relay.currentVersion vault m.objectId
    if casApplies current m.expectedVersion then
      applyMutation vault device now tx m
    else
      return tx.conclude vault device m
        (.rejected (.versionConflict (current.getD 0).toUInt64)) now

/-- What the loop body of a push can do to the transaction. -/
inductive PushStep (vault device : Uuid) (now : Int) (m : MutationV2) (tx : PushTx) :
    PushTx → Prop
  /-- The mutation has a durable result: answer it again. -/
  | replay {row : MutationResultRow}
      (stored : tx.relay.mutationResults.get? (resultKey vault device m) = some row) :
      PushStep vault device now m tx (tx.answer m (storedOutcome row))
  /-- Sealed under an epoch below the vault's. -/
  | stale (fresh : tx.relay.mutationResults.get? (resultKey vault device m) = none)
      (below : m.keyEpoch < tx.vaultEpoch) :
      PushStep vault device now m tx
        (tx.conclude vault device m (.rejected (.staleEpoch tx.vaultEpoch)) now)
  /-- The stored version is not the expected one. -/
  | conflict (fresh : tx.relay.mutationResults.get? (resultKey vault device m) = none)
      (current : tx.vaultEpoch ≤ m.keyEpoch)
      (jump : m.keyEpoch.toInt - tx.vaultEpoch.toInt ≤ maxEpochJump)
      (cas : casApplies (tx.relay.currentVersion vault m.objectId) m.expectedVersion = false) :
      PushStep vault device now m tx
        ((tx.advance m).conclude vault device m (.rejected (.versionConflict
          ((tx.relay.currentVersion vault m.objectId).getD 0).toUInt64)) now)
  /-- The mutation is appended to the log. -/
  | apply {c : Int64} {payload : Bytes} {log' : Table (Uuid × Int64) SyncMutationV2}
      (fresh : tx.relay.mutationResults.get? (resultKey vault device m) = none)
      (current : tx.vaultEpoch ≤ m.keyEpoch)
      (jump : m.keyEpoch.toInt - tx.vaultEpoch.toInt ≤ maxEpochJump)
      (cas : casApplies (tx.relay.currentVersion vault m.objectId) m.expectedVersion = true)
      (counter : tx.relay.sequenceCounters.get? vault = some c)
      (bound : c ≠ Int64.maxValue)
      (decoded : decode m.encryptedPayload = some payload)
      (append : tx.relay.syncMutationsV2.insert? (vault, c + 1) (logRow m payload now)
        = some log') :
      PushStep vault device now m tx
        ((tx.advance m).applied vault device m log' payload (c + 1) now)

open PushTx

@[simp] theorem PushTx.advance_relay (tx : PushTx) (m) : (tx.advance m).relay = tx.relay := by
  unfold advance
  split <;> rfl

variable {tx : PushTx}

theorem applyMutation_ok {tx' : PushTx} (h : applyMutation vault device now tx m = .ok tx') :
    ∃ c payload log', tx.relay.sequenceCounters.get? vault = some c ∧ c ≠ Int64.maxValue ∧
      decode m.encryptedPayload = some payload ∧
      tx.relay.syncMutationsV2.insert? (vault, c + 1) (logRow m payload now) = some log' ∧
      tx' = tx.applied vault device m log' payload (c + 1) now := by
  unfold applyMutation nextSequence at h
  obtain ⟨seq, hseq, h⟩ := bind_ok h
  split at hseq
  · cases hseq
  rename_i c hc
  obtain ⟨hmax, hseq⟩ := ite_error_eq_ok.mp hseq
  cases hseq
  split at h
  · cases h
  rename_i payload hp
  split at h
  · cases h
  rename_i log' hlog
  cases h
  exact ⟨c, payload, log', hc, hmax, hp, hlog, rfl⟩

/-- **Inversion of the loop body**: a mutation the loop gets past is well shaped,
belongs to the device and its vault, and took one of the four steps. -/
theorem pushOne_step {tx' : PushTx} (h : pushOne vault device now tx m = .ok tx') :
    WellShaped m ∧ m.vaultId = vault ∧ m.originDeviceId = device ∧
      PushStep vault device now m tx tx' := by
  obtain ⟨_, hshape, h⟩ := bind_ok h
  simp only [bind, Except.bind, throw, throwThe, MonadExceptOf.throw, ite_error_eq_ok,
    not_not] at h
  obtain ⟨hvault, hdev, h⟩ := h
  refine ⟨validateShape_eq_ok.mp hshape, hvault, hdev, ?_⟩
  split at h
  · next row hrow =>
    cases h
    exact .replay hrow
  · next hnone =>
    split at h
    · next hlt =>
      cases h
      exact .stale hnone hlt
    · next hlt =>
      have hle : tx.vaultEpoch ≤ m.keyEpoch := by simpa using hlt
      obtain ⟨hjump, h⟩ := ite_error_eq_ok.mp h
      have hjump' := Int.not_lt.mp hjump
      rw [advance_relay] at h
      split at h
      · next hcas =>
        obtain ⟨c, payload, log', hc, hmax, hp, hlog, rfl⟩ := applyMutation_ok h
        rw [advance_relay] at hc hlog
        exact .apply hnone hle hjump' hcas hc hmax hp hlog
      · next hcas =>
        cases h
        exact .conflict hnone hle hjump' (by simpa using hcas)

/-- The state a push transaction starts its loop in. -/
def PushTx.start (s : RelayState) (vault : Uuid) : PushTx where
  relay := s
  vaultEpoch := s.vaultEpoch vault
  epochChanged := false
  results := []

/-- What the handler writes after the loop: the epoch high-water if it moved,
and the device's framing counter. -/
def finishPush (tx : PushTx) (vault device : Uuid) (deviceSequence : UInt64) (now : Int) :
    RelayState :=
  let epoch : VaultEpoch := ⟨tx.vaultEpoch, now⟩
  let s := if tx.epochChanged then
      { tx.relay with vaultEpochs := tx.relay.vaultEpochs.upsert vault epoch (fun _ => epoch) }
    else tx.relay
  let framing := deviceSequence.toInt64
  { s with deviceSequences := s.deviceSequences.upsert device framing (max · framing) }

/-- `push_v2` for an authenticated device. -/
def pushV2 (s : RelayState) (device : Uuid) (req : PushRequestV2) (now : Int) :
    Except RelayError (RelayState × PushResponseV2) := do
  if req.mutations.length > maxMutationsPerPush then
    throw (.badRequest "Too many mutations per push (max 500)")
  match s.deviceVault device with
  | none => throw (.notFound "Device not found")
  | some vault =>
    let tx ← req.mutations.foldlM (pushOne vault device now) (.start s vault)
    let s' := finishPush tx vault device req.deviceSequence now
    match s'.sequenceCounters.get? vault with
    | none => throw (.database "Query returned no rows")
    | some cursor => return (s', { serverCursor := cursor, results := tx.results })

theorem pushV2_ok {s s' resp} (h : pushV2 s device req now = .ok (s', resp)) :
    ∃ vault tx, s.deviceVault device = some vault ∧ req.mutations.length ≤ maxMutationsPerPush ∧
      req.mutations.foldlM (pushOne vault device now) (.start s vault) = .ok tx ∧
      s' = finishPush tx vault device req.deviceSequence now ∧
      s'.sequenceCounters.get? vault = some resp.serverCursor ∧ resp.results = tx.results := by
  unfold pushV2 at h
  simp only [bind, Except.bind, throw, throwThe, MonadExceptOf.throw, ite_error_eq_ok,
    Nat.not_lt] at h
  obtain ⟨hlen, h⟩ := h
  split at h
  · cases h
  rename_i vault hv
  split at h
  · cases h
  rename_i tx htx
  split at h
  · cases h
  rename_i cursor hcur
  cases h
  exact ⟨vault, tx, hv, hlen, htx, rfl, hcur, rfl⟩

theorem finishPush_tables (tx vault device n now) :
    (finishPush tx vault device n now).syncMutationsV2 = tx.relay.syncMutationsV2 ∧
    (finishPush tx vault device n now).syncEntriesV2 = tx.relay.syncEntriesV2 ∧
    (finishPush tx vault device n now).sequenceCounters = tx.relay.sequenceCounters ∧
    (finishPush tx vault device n now).mutationResults = tx.relay.mutationResults ∧
    (finishPush tx vault device n now).devices = tx.relay.devices := by
  unfold finishPush
  split <;> exact ⟨rfl, rfl, rfl, rfl, rfl⟩

theorem pushV2_of_loop {s c} (hv : s.deviceVault device = some vault)
    (hlen : req.mutations.length ≤ maxMutationsPerPush)
    (hloop : req.mutations.foldlM (pushOne vault device now) (.start s vault) = .ok tx)
    (hc : tx.relay.sequenceCounters.get? vault = some c) :
    pushV2 s device req now
      = .ok (finishPush tx vault device req.deviceSequence now, ⟨c, tx.results⟩) := by
  have hctr := (finishPush_tables tx vault device req.deviceSequence now).2.2.1
  unfold pushV2
  simp only [bind, Except.bind, pure, Except.pure, hv, gt_iff_lt,
    if_neg (Nat.not_lt.mpr hlen), hloop, hctr, hc]

/-! ## What the loop body leaves alone -/

section Frame

variable {tx' : PushTx}

@[simp] theorem PushTx.conclude_relay (o) :
    (tx.conclude vault device m o now).relay = recordResult tx.relay vault device m o now := rfl

@[simp] theorem PushTx.conclude_results (o) : (tx.conclude vault device m o now).results
      = tx.results ++ [⟨m.mutationId, m.objectId, o⟩] := rfl

@[simp] theorem PushTx.advance_results : (tx.advance m).results = tx.results := by
  unfold advance
  split <;> rfl

theorem PushTx.advance_vaultEpoch (h : tx.vaultEpoch ≤ m.keyEpoch) :
    (tx.advance m).vaultEpoch = m.keyEpoch := by
  unfold advance
  split
  · rfl
  · next hlt => exact Int64.le_antisymm h (by simpa using hlt)

end Frame

end SentinelPass.Relay
