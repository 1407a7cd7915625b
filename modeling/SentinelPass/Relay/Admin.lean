import Mathlib.Data.List.Sort
import SentinelPass.Relay.Push

/-!
# Registration, migration claims, cleanup, pull

The other relay handlers that touch the tables of v2 sync, and the relay as a
machine that takes one request (or one cleanup run) at a time. A request that
fails leaves the database as it was.
-/

namespace SentinelPass.Relay

open Lib

variable {s s' : RelayState} {now : Int} {device : Uuid}

/-- What `register_device` reads of its request. -/
structure RegisterDeviceRequest where
  (deviceId vaultId : Uuid)
  (deviceName deviceType publicKey : String)

/-- `register_device`. A vault that already has devices is joined only with a
pairing proof; `paired` is what that check answered. An existing device row
keeps everything but its name. -/
def registerDevice (s : RelayState) (req : RegisterDeviceRequest) (paired : Bool) (now : Int) :
    Except RelayError RelayState := do
  match Base64.decode req.publicKey with
  | none => throw (.badRequest "Invalid public key: ")
  | some publicKey =>
    if publicKey.length ≠ 32 then
      throw (.badRequest "Public key must be 32 bytes")
    if (s.devices.rows.any fun r => r.2.vaultId = req.vaultId) ∧ ¬ paired then
      throw (.auth "Missing or invalid pairing registration proof")
    if req.deviceName.utf8ByteSize > 255 then
      throw (.badRequest "Device name must be 255 characters or fewer")
    let row : DeviceRow :=
      { vaultId := req.vaultId, deviceName := req.deviceName, deviceType := req.deviceType,
        publicKey, registeredAt := now, revoked := false }
    return { s with
      vaults := s.vaults.insertIgnore req.vaultId now
      sequenceCounters := s.sequenceCounters.insertIgnore req.vaultId 0
      devices := s.devices.upsert req.deviceId row ({ · with deviceName := req.deviceName })
      deviceSequences := s.deviceSequences.insertIgnore req.deviceId 0 }

/-- The refusal of a second claim, which names the device that holds the first. -/
def claimRefusal (claimedBy : Uuid) : RelayError :=
  .conflict ("origin vault already re-baselined by device " ++ claimedBy.text ++
    "; re-onboard through that device's v2 pairing instead")

/-- `migration_claim`: mint the fresh vault `newVault` for the claimant and move
its device row there. One claim per origin vault. -/
def migrationClaim (s : RelayState) (device origin newVault : Uuid) (now : Int) :
    Except RelayError RelayState := do
  match s.migrationClaims.get? origin with
  | some claim => throw (claimRefusal claim.claimedBy)
  | none =>
    match s.deviceVault device with
    | none => throw (.notFound "Device not found")
    | some claimantVault =>
      if claimantVault ≠ origin then
        throw (.badRequest "claimant device does not belong to the origin vault")
      match s.vaults.insert? newVault now, s.sequenceCounters.insert? newVault 0 with
      | some vaults, some sequenceCounters =>
        return { s with
          migrationClaims :=
            s.migrationClaims.insertIgnore origin ⟨newVault, device, now⟩
          vaults
          sequenceCounters
          vaultEpochs := s.vaultEpochs.insertIgnore newVault ⟨1, now⟩
          devices := s.devices.update device ({ · with vaultId := newVault }) }
      | _, _ => throw (.database "UNIQUE constraint failed")

theorem registerDevice_ok {req paired} (h : registerDevice s req paired now = .ok s') :
    ∃ publicKey, Base64.decode req.publicKey = some publicKey ∧ s' = { s with
      vaults := s.vaults.insertIgnore req.vaultId now
      sequenceCounters := s.sequenceCounters.insertIgnore req.vaultId 0
      devices := s.devices.upsert req.deviceId
        ⟨req.vaultId, req.deviceName, req.deviceType, publicKey, now, false⟩
        ({ · with deviceName := req.deviceName })
      deviceSequences := s.deviceSequences.insertIgnore req.deviceId 0 } := by
  unfold registerDevice at h
  simp only [bind, Except.bind, throw, throwThe, MonadExceptOf.throw] at h
  split at h
  · cases h
  rename_i publicKey hkey
  simp only [ite_error_eq_ok] at h
  obtain ⟨-, -, -, h⟩ := h
  cases h
  exact ⟨publicKey, hkey, rfl⟩

theorem migrationClaim_ok {origin newVault : Uuid}
    (h : migrationClaim s device origin newVault now = .ok s') :
    ∃ vaults sequenceCounters, s.deviceVault device = some origin ∧
      s.sequenceCounters.insert? newVault 0 = some sequenceCounters ∧ s' = { s with
        migrationClaims := s.migrationClaims.insertIgnore origin ⟨newVault, device, now⟩
        vaults
        sequenceCounters
        vaultEpochs := s.vaultEpochs.insertIgnore newVault ⟨1, now⟩
        devices := s.devices.update device ({ · with vaultId := newVault }) } := by
  unfold migrationClaim at h
  split at h
  · cases h
  split at h
  · cases h
  rename_i claimant hv
  obtain ⟨horigin, h⟩ := ite_error_eq_ok.mp h
  split at h
  · next vaults counters _ hctr =>
    cases h
    exact ⟨vaults, counters, by rw [hv, not_not.mp horigin], hctr, rfl⟩
  · cases h

/-! ## Cleanup -/

/-- `ROW_NUMBER() OVER (PARTITION BY device_id ORDER BY created_at DESC, rowid DESC)`
of the row under `key`: one more than the rows of the same device that are newer. -/
def resultRowNumber (t : Table ResultKey MutationResultRow) (key : ResultKey)
    (row : MutationResultRow) : Nat :=
  let rowid := fun k => t.rows.findIdx fun r => r.1 = k
  1 + (t.rows.filter fun r => r.1.2.1 = key.2.1 ∧ (row.createdAt < r.2.createdAt ∨
      r.2.createdAt = row.createdAt ∧ rowid key < rowid r.1)).length

/-- `run_cleanup`, as far as v2 sync sees it: expire results older than the TTL,
then keep the newest `cap` per device. -/
def runCleanup (s : RelayState) (ttl : Int) (cap : UInt64) (now : Int) : RelayState :=
  let fresh := s.mutationResults.filter fun _ r => ¬ r.createdAt < now - max ttl 1
  { s with mutationResults :=
      fresh.filter fun k r => ¬ cap.toInt64.toInt < (resultRowNumber fresh k r : Int) }

/-! ## Pull -/

def logMutation (vault : Uuid) (e : SyncMutationV2) : MutationLogMutation where
  mutationId := e.mutationId
  vaultId := vault
  objectId := e.objectId
  entryType := e.entryType
  expectedVersion := e.expectedVersion.toUInt64
  resultingVersion := e.resultingVersion.toUInt64
  keyEpoch := e.keyEpoch
  originDeviceId := e.originDeviceId
  isTombstone := e.isTombstone
  encryptedPayload := Base64.encode e.encryptedPayload
  metadataMac := e.metadataMac

def pageLimit (limit : Option UInt32) : Nat :=
  max 1 (min (limit.getD 500).toNat 2000)

/-- `pull_v2` for an authenticated device. -/
def pullV2 (s : RelayState) (device : Uuid) (req : PullRequestV2) :
    Except RelayError PullResponseV2 :=
  match s.deviceVault device with
  | none => .error (.notFound "Device not found")
  | some vault =>
    let limit := pageLimit req.limit
    let rows := ((s.log vault).filter fun e => req.since < e.1).insertionSort
      fun a b => a.1 ≤ b.1
    let entries := (rows.take limit).map fun e => ⟨e.1, logMutation vault e.2⟩
    .ok
      { entries
        cursor := (entries.getLast?.map (·.serverSequence)).getD req.since
        hasMore := limit < rows.length }

/-! ## The relay as a machine -/

/-- One thing that happens to the relay database. -/
inductive RelayAction
  | register (req : RegisterDeviceRequest) (paired : Bool) (now : Int)
  | push (device : Uuid) (req : PushRequestV2) (now : Int)
  | cleanup (ttl : Int) (cap : UInt64) (now : Int)
  | claim (device origin newVault : Uuid) (now : Int)

def relayStep (s : RelayState) : RelayAction → Option RelayState
  | .register req paired now => (registerDevice s req paired now).toOption
  | .push device req now => ((pushV2 s device req now).map Prod.fst).toOption
  | .cleanup ttl cap now => some (runCleanup s ttl cap now)
  | .claim device origin newVault now => (migrationClaim s device origin newVault now).toOption

theorem relayStep_push {req} (h : relayStep s (.push device req now) = some s') :
    ∃ resp, pushV2 s device req now = .ok (s', resp) := by
  simp only [relayStep] at h
  cases hp : pushV2 s device req now with
  | error e => rw [hp] at h; cases h
  | ok r =>
    rw [hp] at h
    cases h
    exact ⟨r.2, rfl⟩

def relay : Machine RelayState RelayAction where
  init s := s = RelayState.empty
  step := relayStep

end SentinelPass.Relay
