import SentinelPass.Lib.Machine
import SentinelPass.Lib.Table
import SentinelPass.Sync.Mac

/-!
# Step-up approvals

`stepup.rs` and the two arms of `handle_message` that use it. A client proves the
master password for one operation (`StepUpAuthorize`) and gets an approval; a
gated operation (`ServiceCall`) has to present one. Failed proofs count towards a
throttle.

The daemon runs many connections at once. Each access to the shared state is one
step here: the throttle check, the record of a proof's outcome, the mint, the
gate. What the steps themselves do is `StepUpState`; the machine `stepUp` lets
them interleave, and keeps a history of the proofs, of the approvals and of the
gated operations that were let through.

Times are nanoseconds of `Instant`.
-/

namespace SentinelPass.Ipc

open Lib Option

/-! ## The shared state -/

abbrev Instant := Nat

def seconds (n : Nat) : Nat := n * 1000000000

def stepUpTtl : Nat := seconds 60

def throttleAfterFailures : Nat := 5

def throttleBase : Nat := seconds 60

def throttleCap : Nat := seconds 600

abbrev ConnectionId := BitVec 128

structure PendingApproval where
  connection : ConnectionId
  commitment : Vector UInt8 32
  expires : Instant
  consumed : Bool

inductive StepUpDenial
  | unknownOrConsumed
  | wrongConnection
  | expired
  | commitmentMismatch
deriving DecidableEq

def StepUpDenial.message : StepUpDenial → String
  | unknownOrConsumed => "approval unknown, already used, or never issued"
  | wrongConnection => "approval was issued on a different connection"
  | expired => "approval expired (60s maximum age)"
  | commitmentMismatch => "approval does not match this exact operation"

/-- `Inner`. `failures` saturates at the largest `u32`. -/
structure StepUpState where
  hmacKey : Option (Vector UInt8 32)
  pending : Table Text PendingApproval
  failures : Nat
  throttleUntil : Option Instant

namespace StepUpState

def new : StepUpState := ⟨none, .empty, 0, none⟩

def discard (s : StepUpState) (approvalId : Text) : StepUpState :=
  { s with pending := s.pending.erase approvalId }

/-- `key`: generated once, from the random bytes `random`. -/
def key (s : StepUpState) (random : Vector UInt8 32) : Vector UInt8 32 := s.hmacKey.getD random

/-- `commitment`: HMAC-SHA256 of the operation. -/
def commitment (c : Crypto) (key : Vector UInt8 32) (opBytes : Bytes) : Vector UInt8 32 :=
  let pad (b : UInt8) : Bytes := key.toList.map (b ^^^ ·) ++ List.replicate 32 b
  c.sha256 (pad 0x5c ++ (c.sha256 (pad 0x36 ++ opBytes)).toList)

/-- `throttled`: the seconds to wait. -/
def throttled (s : StepUpState) (now : Instant) : Option Nat :=
  s.throttleUntil.map fun deadline => max ((deadline - now) / seconds 1) 1

/-- The wait after this many failures beyond the fourth one. -/
def backoff (steps : Nat) : Nat :=
  (List.range (min steps 4)).foldl (fun wait _ => min (wait * 2) throttleCap) throttleBase

def recordFailure (s : StepUpState) (now : Instant) : StepUpState :=
  let failures := min (s.failures + 1) (2 ^ 32 - 1)
  if throttleAfterFailures ≤ failures then
    { s with failures, throttleUntil := some (now + backoff (failures - throttleAfterFailures)) }
  else { s with failures }

def recordSuccess (s : StepUpState) : StepUpState := { s with failures := 0, throttleUntil := none }

/-- `mint` at `now`; expired approvals are pruned a moment later. -/
def mint (c : Crypto) (s : StepUpState) (connection : ConnectionId) (opBytes : Bytes) (id : Text)
    (random : Vector UInt8 32) (now pruneNow : Instant) : StepUpState :=
  let approval : PendingApproval :=
    ⟨connection, commitment c (s.key random) opBytes, now + stepUpTtl, false⟩
  { s with
    hmacKey := some (s.key random)
    pending := (s.pending.filter fun _ p => pruneNow < p.expires).upsert id approval
      fun _ => approval }

def burn (s : StepUpState) (id : Text) : StepUpState :=
  { s with pending := s.pending.update id fun p => { p with consumed := true } }

/-- `take_if_valid`: the answer and the state it leaves. -/
def takeIfValid (c : Crypto) (s : StepUpState) (id : Text) (connection : ConnectionId)
    (opBytes : Bytes) (random : Vector UInt8 32) (now : Instant) :
      Except StepUpDenial Unit × StepUpState :=
  let key := s.key random
  let s := { s with hmacKey := some key }
  match s.pending.get? id with
  | none => (.error .unknownOrConsumed, s)
  | some entry =>
    if entry.consumed then (.error .unknownOrConsumed, s)
    else if entry.connection ≠ connection then (.error .wrongConnection, s)
    else if entry.expires ≤ now then (.error .expired, s.burn id)
    else if commitment c key opBytes ≠ entry.commitment then (.error .commitmentMismatch, s.burn id)
    else (.ok (), s.burn id)

end StepUpState

/-! ## Operations -/

/-- The variants of `VaultOp`. -/
inductive VaultOpKind
  | entryAdd | entryUpdate | entryDelete | totpAdd | totpRemove | sshKeyAdd | sshKeyDelete
  | registrySweep | entityAdd | entityDelete | entryAssign | entryUnassign | entryMarkRotated
  | entrySetExpiresAt | biometricEnable | biometricDisable | exportAll | importEntries | syncInit
  | syncDisable | syncDeviceRevoke | syncNow | syncMigrateClaim | syncMigrateAuthoritative
  | syncConflictResolve | syncDeadLetterPurge | syncPairStart | syncPairJoin | serviceGrantCreate
  | serviceGrantRevoke | serviceEnrollmentBegin
  | vaultCreate | vaultStatus | entryGet | entryList | totpCode | totpMetadata | sshKeyList
  | sshKeyGet | registryOverview | entityList | healthReport | auditVerify | biometricStatusGet
  | syncDeviceList | syncStatus | syncDeadLetterList | syncConflictList | serviceGetSecret
  | serviceEnrollmentComplete
deriving DecidableEq

def VaultOpKind.requiresAdminStepUp : VaultOpKind → Bool
  | entryAdd | entryUpdate | entryDelete | totpAdd | totpRemove | sshKeyAdd | sshKeyDelete
  | registrySweep | entityAdd | entityDelete | entryAssign | entryUnassign | entryMarkRotated
  | entrySetExpiresAt | biometricEnable | biometricDisable | exportAll | importEntries | syncInit
  | syncDisable | syncDeviceRevoke | syncNow | syncMigrateClaim | syncMigrateAuthoritative
  | syncConflictResolve | syncDeadLetterPurge | syncPairStart | syncPairJoin | serviceGrantCreate
  | serviceGrantRevoke | serviceEnrollmentBegin => true
  | _ => false

def VaultOpKind.grantAdmin : VaultOpKind → Bool
  | serviceGrantCreate | serviceGrantRevoke | serviceEnrollmentBegin => true
  | _ => false

/-- The operations, and what the daemon reads of them. -/
structure StepUpEnv (Op : Type) where
  crypto : Crypto
  kind : Op → VaultOpKind
  /-- `serde_json::to_vec`. -/
  toVec : Op → Option Bytes
  requireStepup : Bool

/-- The vault when a proof is asked for. -/
inductive VaultMode
  | maintenance
  | locked
  | unlocked
deriving DecidableEq

structure StepUpDenied where
  error : String
  retryAfterSecs : Option Nat

section Handlers

variable {Op : Type} (E : StepUpEnv Op)

def StepUpEnv.gated (op : Op) : Bool :=
  (E.kind op).grantAdmin || (E.requireStepup && (E.kind op).requiresAdminStepUp)

/-- `StepUpAuthorize` up to the verification of the password. -/
def beginAuthorize (s : StepUpState) (mode : VaultMode) (op : Op) (now : Instant) :
    Except StepUpDenied Bytes :=
  match s.throttled now with
  | some retryAfter => .error ⟨"too many failed verifications", some retryAfter⟩
  | none =>
    match mode with
    | .maintenance => .error ⟨"no vault: nothing to verify against", none⟩
    | .locked =>
      .error ⟨"vault is locked: unlock it before requesting step-up "
        ++ "(administrative mutations require the unlocked vault)", none⟩
    | .unlocked =>
      match E.toVec op with
      | none => .error ⟨"cannot serialize operation: ", none⟩
      | some opBytes => .ok opBytes

/-- `IpcMessage::ServiceResult` with an error, as the gate answers it. -/
structure ServiceError where
  (code message : String)

/-- The gate of `ServiceCall`. -/
def gate (s : StepUpState) (connection : ConnectionId) (op : Op) (approval : Option Text)
    (random : Vector UInt8 32) (now : Instant) : Except ServiceError Unit × StepUpState :=
  if E.gated op then
    match E.toVec op, approval with
    | none, _ =>
      (.error ⟨"step_up_required", "cannot serialize operation for approval binding: "⟩, s)
    | some _, none =>
      (.error ⟨"step_up_required", "this operation requires a fresh master-password approval"⟩, s)
    | some opBytes, some id =>
      match s.takeIfValid E.crypto id connection opBytes random now with
      | (.error denial, s) =>
        (.error ⟨"step_up_required", "step-up approval denied: " ++ denial.message⟩, s)
      | (.ok _, s) => (.ok (), s)
  else (.ok (), s)

end Handlers

/-! ## The daemon -/

/-- A proof, an approval or a use: what for, on which connection, when. -/
structure StepUpEvent (Op : Type) where
  connection : Nat
  op : Op
  time : Instant
deriving DecidableEq

/-- A proof in progress. -/
structure Attempt (Op : Type) where
  connection : Nat
  op : Op
  opBytes : Bytes

/-- The shared state, the identity of each connection so far, the proofs being
verified and those about to be minted; then the history. -/
structure StepUpServer (Op : Type) where
  state : StepUpState
  clock : Instant
  connections : List ConnectionId
  (verifying verified : List (Attempt Op))
  proofs : List (StepUpEvent Op)
  (minted passed : List (Text × StepUpEvent Op))

def StepUpServer.start {Op : Type} (clock : Instant) : StepUpServer Op :=
  ⟨.new, clock, [], [], [], [], [], []⟩

/-- `connect` draws an identity. `authorize` passes the throttle or is denied;
`verified`, `refused` and `aborted` are the outcomes of the password check number
`i`; `mint` follows a successful one. `call` is a `ServiceCall`. -/
inductive StepUpAction (Op : Type)
  | connect (id : ConnectionId)
  | authorize (connection : Nat) (op : Op) (mode : VaultMode) (now : Instant)
  | verified (i : Nat) (now : Instant)
  | refused (i : Nat) (now : Instant)
  | aborted (i : Nat)
  | mint (i : Nat) (id : Text) (random : Vector UInt8 32) (now pruneNow : Instant)
  | call (connection : Nat) (op : Op) (approval : Option Text) (random : Vector UInt8 32)
      (now : Instant)
  | discard (id : Text)

section Machine

variable {Op : Type} (E : StepUpEnv Op)

def StepUpAction.times : StepUpAction Op → List Instant
  | .authorize _ _ _ now | .verified _ now | .refused _ now | .call _ _ _ _ now => [now]
  | .mint _ _ _ now pruneNow => [now, pruneNow]
  | .connect _ | .aborted _ | .discard _ => []

def stepUpStep (s : StepUpServer Op) : StepUpAction Op → Option (StepUpServer Op)
  | .connect id => some { s with connections := s.connections ++ [id] }
  | .authorize connection op mode now =>
    match s.connections[connection]?, beginAuthorize E s.state mode op now with
    | none, _ => none
    | some _, .error _ => some { s with clock := now }
    | some _, .ok opBytes =>
      some { s with clock := now, verifying := s.verifying ++ [⟨connection, op, opBytes⟩] }
  | .verified i now =>
    (s.verifying[i]?).map fun a =>
      { s with
        clock := now, state := s.state.recordSuccess, verifying := s.verifying.eraseIdx i
        verified := s.verified ++ [a], proofs := s.proofs ++ [⟨a.connection, a.op, now⟩] }
  | .refused i now =>
    (s.verifying[i]?).map fun _ =>
      { s with
        clock := now, state := s.state.recordFailure now, verifying := s.verifying.eraseIdx i }
  | .aborted i => (s.verifying[i]?).map fun _ => { s with verifying := s.verifying.eraseIdx i }
  | .mint i id random now pruneNow =>
    match s.verified[i]? with
    | none => none
    | some a =>
      (s.connections[a.connection]?).map fun connection =>
        { s with
          clock := pruneNow
          state := s.state.mint E.crypto connection a.opBytes id random now pruneNow
          verified := s.verified.eraseIdx i
          minted := s.minted ++ [(id, ⟨a.connection, a.op, now⟩)] }
  | .call connection op approval random now =>
    (s.connections[connection]?).map fun id =>
      match gate E s.state id op approval random now with
      | (.error _, state) => { s with clock := now, state }
      | (.ok _, state) =>
        { s with
          clock := now, state
          passed := s.passed ++
            if E.gated op then [(approval.getD [], ⟨connection, op, now⟩)] else [] }
  | .discard id => some { s with state := s.state.discard id }

def stepUp : Machine (StepUpServer Op) (StepUpAction Op) where
  init s := ∃ clock, s = .start clock
  step := stepUpStep E

def ClockForward (s : StepUpServer Op) (a : StepUpAction Op) : Prop :=
  (s.clock :: a.times).Pairwise (· ≤ ·)

instance (s : StepUpServer Op) (a : StepUpAction Op) : Decidable (ClockForward s a) :=
  inferInstanceAs (Decidable ((s.clock :: a.times).Pairwise (· ≤ ·)))

end Machine

/-! ## The throttle -/

/-- A deadline is recorded exactly from the fifth failure on. -/
def ThrottleInv (s : StepUpState) : Prop :=
  s.throttleUntil.isSome ↔ throttleAfterFailures ≤ s.failures

section Throttle

variable {Op : Type} {E : StepUpEnv Op}

open StepUpState

theorem ThrottleInv.recordFailure (s now) (h : ThrottleInv s) :
    ThrottleInv (s.recordFailure now) := by
  unfold ThrottleInv StepUpState.recordFailure at *
  dsimp only
  split
  · next hmany => exact iff_of_true rfl hmany
  · next hfew =>
    have hsmall : ¬ throttleAfterFailures ≤ s.failures := by
      unfold throttleAfterFailures at *
      omega
    exact iff_of_false (fun hsome => hsmall (h.mp hsome)) hfew

theorem ThrottleInv.recordSuccess (s : StepUpState) : ThrottleInv s.recordSuccess := by
  simp [ThrottleInv, StepUpState.recordSuccess, throttleAfterFailures]

theorem takeIfValid_throttle (c) (s : StepUpState) (id connection opBytes random now) :
    (s.takeIfValid c id connection opBytes random now).2.failures = s.failures ∧
      (s.takeIfValid c id connection opBytes random now).2.throttleUntil = s.throttleUntil := by
  unfold takeIfValid
  dsimp only
  split
  · exact ⟨rfl, rfl⟩
  · split
    · exact ⟨rfl, rfl⟩
    · split
      · exact ⟨rfl, rfl⟩
      · split
        · exact ⟨rfl, rfl⟩
        · split
          · exact ⟨rfl, rfl⟩
          · exact ⟨rfl, rfl⟩

theorem gate_throttle (E s connection) (op : Op) (approval random now) :
    (gate E s connection op approval random now).2.failures = s.failures ∧
      (gate E s connection op approval random now).2.throttleUntil = s.throttleUntil := by
  unfold gate
  split
  · split
    · exact ⟨rfl, rfl⟩
    · exact ⟨rfl, rfl⟩
    · next opBytes id _ =>
      have htake := takeIfValid_throttle E.crypto s id connection opBytes random now
      split
      · next h => rwa [h] at htake
      · next h => rwa [h] at htake
  · exact ⟨rfl, rfl⟩

theorem ThrottleInv.step {s t} (h : ThrottleInv s.state) {a} (hstep : stepUpStep E s a = some t) :
    ThrottleInv t.state := by
  cases a with
  | connect id | discard id =>
    cases hstep
    exact h
  | authorize connection op mode now =>
    simp only [stepUpStep] at hstep
    split at hstep
    · cases hstep
    · cases hstep
      exact h
    · cases hstep
      exact h
  | verified i now =>
    obtain ⟨a, -, rfl⟩ := map_eq_some_iff.mp hstep
    exact .recordSuccess s.state
  | refused i now =>
    obtain ⟨a, -, rfl⟩ := map_eq_some_iff.mp hstep
    exact h.recordFailure s.state now
  | aborted i =>
    obtain ⟨a, -, rfl⟩ := map_eq_some_iff.mp hstep
    exact h
  | mint i id random now pruneNow =>
    simp only [stepUpStep] at hstep
    split at hstep
    · cases hstep
    obtain ⟨connection, -, rfl⟩ := map_eq_some_iff.mp hstep
    exact h
  | call connection op approval random now =>
    obtain ⟨id, -, rfl⟩ := map_eq_some_iff.mp hstep
    obtain ⟨hfailures, huntil⟩ := gate_throttle E s.state id op approval random now
    have hgate : ThrottleInv (gate E s.state id op approval random now).2 := by
      unfold ThrottleInv at h ⊢
      rw [hfailures, huntil]
      exact h
    split
    · next heq =>
      rw [heq] at hgate
      exact hgate
    · next heq =>
      rw [heq] at hgate
      exact hgate

/-- A proof with the correct password, asked for at `now`, is evaluated and gets
its approval. -/
def AcceptedAt (E : StepUpEnv Op) (s : StepUpServer Op) (connection : Nat) (op : Op)
    (now : Instant) : Prop :=
  ∀ id random, ∃ t, (stepUp E).exec s
      [.authorize connection op .unlocked now, .verified s.verifying.length now,
        .mint s.verified.length id random now now] = some t ∧
    t.minted = s.minted ++ [(id, ⟨connection, op, now⟩)]

theorem acceptedAt_of_not_throttled {s} (h : s.state.throttleUntil = none) {connection}
    (hconnection : connection < s.connections.length) {op} (hop : (E.toVec op).isSome) (now) :
    AcceptedAt E s connection op now := by
  intro id random
  obtain ⟨opBytes, hbytes⟩ := isSome_iff_exists.mp hop
  have hconn : s.connections[connection]? = some s.connections[connection] :=
    List.getElem?_eq_getElem hconnection
  have hbegin : beginAuthorize E s.state .unlocked op now = .ok opBytes := by
    simp [beginAuthorize, throttled, h, hbytes]
  simp [Machine.exec, stepUp, stepUpStep, hconn, hbegin]

/-- **Throttling.** In every reachable state: a wait is reported only while the
recorded deadline lies ahead, and there is a later time at which a correct
password is accepted, exactly when fewer than five failures are on record. -/
theorem throttle_ends_iff (E : StepUpEnv Op) (s : StepUpServer Op)
    (hreach : (stepUp E).Reachable ClockForward s) :
    ((∀ now, s.clock ≤ now → ∀ wait, s.state.throttled now = some wait →
        ∃ deadline, s.state.throttleUntil = some deadline ∧ now < deadline) ∧
      ∃ now, s.clock ≤ now ∧ ∀ connection op, connection < s.connections.length →
        (E.toVec op).isSome → AcceptedAt E s connection op now) ↔
    s.state.failures < throttleAfterFailures := by
  have hinv : ThrottleInv s.state := by
    refine hreach.invariant (P := fun s => ThrottleInv s.state) ?_ ?_
    · rintro x ⟨clock, rfl⟩
      simp [ThrottleInv, StepUpServer.start, new, throttleAfterFailures]
    · intro x y a hx _ hstep
      exact hx.step hstep
  constructor
  · rintro ⟨hends, -⟩
    by_contra hmany
    obtain ⟨deadline, hdeadline⟩ := isSome_iff_exists.mp (hinv.mpr (Nat.not_lt.mp hmany))
    -- ask again once the deadline has passed
    obtain ⟨d, hd, hlt⟩ := hends (max s.clock deadline) (Nat.le_max_left _ _) _
      (by rw [throttled, hdeadline]; rfl)
    rw [hdeadline] at hd
    cases hd
    exact absurd (Nat.le_max_right s.clock deadline) (Nat.not_le.mpr hlt)
  · intro hfew
    have hnone : s.state.throttleUntil = none :=
      not_isSome_iff_eq_none.mp fun hsome => absurd (hinv.mp hsome) (Nat.not_le.mpr hfew)
    refine ⟨?_, s.clock, Nat.le_refl _, ?_⟩
    · intro now _ wait hwait
      rw [throttled, hnone] at hwait
      cases hwait
    · intro connection op hconnection hop
      exact acceptedAt_of_not_throttled hnone hconnection hop s.clock

end Throttle

/-! ## Sample runs -/

/-- Operations are texts; all of them add an entry. -/
def sampleStepUpEnv : StepUpEnv Text where
  crypto := ⟨fun b => Vector.ofFn fun i : Fin 32 => b.getD (b.length - 1 - i.val) 0,
    fun _ _ => .replicate 32 0⟩
  kind _ := .entryAdd
  toVec op := some (textBytes op)
  requireStepup := true

def wrongPasswords (n : Nat) : List (StepUpAction Text) :=
  .connect 1 :: (List.range n).flatMap fun i =>
    [.authorize 0 ['a'] .unlocked (seconds i), .refused 0 (seconds i)]

theorem throttle_ends_after_four :
    ∃ s, (stepUp sampleStepUpEnv).exec (.start 0) (wrongPasswords 4) = some s ∧
      s.state.failures = 4 ∧ ∃ now, s.clock ≤ now ∧ AcceptedAt sampleStepUpEnv s 0 ['a'] now := by
  have hallowed : (stepUp sampleStepUpEnv).Allowed ClockForward (.start 0) (wrongPasswords 4) := by
    decide +kernel
  have hany : ((stepUp sampleStepUpEnv).exec (.start 0) (wrongPasswords 4)).any (fun s =>
      s.state.failures = 4 ∧ 0 < s.connections.length) = true := by
    decide +kernel
  obtain ⟨s, hs, h⟩ := (any_eq_true _ _).mp hany
  obtain ⟨hfailures, hconnection⟩ := of_decide_eq_true h
  obtain ⟨-, now, hnow, haccepted⟩ := (throttle_ends_iff sampleStepUpEnv s
    ⟨_, ⟨0, rfl⟩, Machine.run_of_exec hallowed hs⟩).mpr (by rw [hfailures]; decide)
  exact ⟨s, hs, hfailures, now, hnow, haccepted 0 ['a'] hconnection rfl⟩

/-- Five wrong passwords. The deadline is a minute later; an hour after it one more
second is asked for, and no password is ever evaluated again. -/
theorem throttle_never_ends :
    (stepUp sampleStepUpEnv).Allowed ClockForward (.start 0) (wrongPasswords 5) ∧
    ∃ s, (stepUp sampleStepUpEnv).exec (.start 0) (wrongPasswords 5) = some s ∧
      s.state.throttleUntil = some (seconds 64) ∧
      s.state.throttled (seconds 3664) = some 1 ∧
      ∀ mode op now, ∃ wait, beginAuthorize sampleStepUpEnv s.state mode op now
        = .error ⟨"too many failed verifications", some wait⟩ := by
  refine ⟨by decide +kernel, ?_⟩
  have hany : ((stepUp sampleStepUpEnv).exec (.start 0) (wrongPasswords 5)).any (fun s =>
      s.state.throttleUntil = some (seconds 64) ∧ s.state.throttled (seconds 3664) = some 1)
        = true := by
    decide +kernel
  obtain ⟨s, hs, h⟩ := (any_eq_true _ _).mp hany
  obtain ⟨huntil, hlater⟩ := of_decide_eq_true h
  refine ⟨s, hs, huntil, hlater, ?_⟩
  intro mode op now
  unfold beginAuthorize StepUpState.throttled
  rw [huntil]
  exact ⟨_, rfl⟩

end SentinelPass.Ipc
