import SentinelPass.Lib.Base64
import SentinelPass.Lib.Json
import SentinelPass.Lib.Table
import SentinelPass.Sync.Types

/-!
# The relay's tables and requests

The part of the relay's SQLite schema that the v2 sync handlers read and write
(`storage/mod.rs`), the requests they take (`handlers/sync_v2.rs`,
`handlers/devices.rs`) and their errors (`error.rs`).

Ids are stored as `TEXT`; the tables here are keyed by the `Uuid` itself. A
rejection reason is stored as the JSON its serializer writes and read back with
`parseRejectionReason`.
-/

namespace SentinelPass.Relay

open Lib Json

/-- Request errors, with the text the handler gives. -/
inductive RelayError
  | database (msg : String)
  | auth (msg : String)
  | notFound (msg : String)
  | conflict (msg : String)
  | badRequest (msg : String)
  | rateLimited
  | internal (msg : String)
deriving DecidableEq

/-- The relay's own `MutationV2`: type, payload and MAC arrive as text. -/
structure MutationV2 where
  (mutationId vaultId objectId : Uuid)
  entryType : String
  (expectedVersion resultingVersion : UInt64)
  keyEpoch : Int64
  originDeviceId : Uuid
  isTombstone : Bool
  (encryptedPayload metadataMac : String)
deriving DecidableEq

/-- Body of `POST /api/v2/sync/push`. -/
structure PushRequestV2 where
  deviceSequence : UInt64
  mutations : List MutationV2

/-- Body of `POST /api/v2/sync/pull`. -/
structure PullRequestV2 where
  since : Int64
  limit : Option UInt32

/-- A mutation of the log as the relay serializes it into a pull page. -/
structure MutationLogMutation where
  (mutationId vaultId objectId : Uuid)
  entryType : String
  (expectedVersion resultingVersion : UInt64)
  keyEpoch : Int64
  originDeviceId : Uuid
  isTombstone : Bool
  (encryptedPayload metadataMac : String)

/-- One entry of a pull page. -/
structure MutationLogEntry where
  serverSequence : Int64
  mutation : MutationLogMutation

/-- Answer to a pull. -/
structure PullResponseV2 where
  entries : List MutationLogEntry
  cursor : Int64
  hasMore : Bool

/-! ## Rows -/

/-- A row of `devices`. -/
structure DeviceRow where
  vaultId : Uuid
  (deviceName deviceType : String)
  publicKey : Bytes
  registeredAt : Int
  revoked : Bool
deriving DecidableEq

/-- A row of `sync_entries_v2`: the current state of an object. -/
structure SyncEntryV2 where
  entryType : String
  (currentVersion keyEpoch : Int64)
  isTombstone : Bool
  metadataMac : String
  encryptedPayload : Bytes
  originDeviceId : Uuid
  serverSequence : Int64
  receivedAt : Int
deriving DecidableEq

/-- A row of `sync_mutations_v2`: one entry of a vault's mutation log. The
version columns hold the wire's `u64` cast to `i64`. -/
structure SyncMutationV2 where
  (mutationId objectId : Uuid)
  entryType : String
  (expectedVersion resultingVersion keyEpoch : Int64)
  originDeviceId : Uuid
  isTombstone : Bool
  metadataMac : String
  encryptedPayload : Bytes
  receivedAt : Int
deriving DecidableEq

/-- The `outcome` column of `mutation_results`. -/
inductive StoredOutcome
  | applied
  | rejected
deriving DecidableEq

/-- A row of `mutation_results`: the durable answer to one mutation. -/
structure MutationResultRow where
  objectId : Uuid
  outcome : StoredOutcome
  rejectionReason : Option Json.Doc
  (resultingVersion serverSequence : Option Int64)
  createdAt : Int
deriving DecidableEq

/-- A row of `migration_claims`. -/
structure MigrationClaim where
  (newVaultId claimedBy : Uuid)
  claimedAt : Int
deriving DecidableEq

/-- A row of `vault_epochs`. -/
structure VaultEpoch where
  keyEpoch : Int64
  updatedAt : Int
deriving DecidableEq

/-- Key of a durable result: mutation, device, vault. -/
abbrev ResultKey := Uuid × Uuid × Uuid

/-- The relay database, as far as v2 sync uses it. -/
structure RelayState where
  vaults : Table Uuid Int
  devices : Table Uuid DeviceRow
  (sequenceCounters deviceSequences : Table Uuid Int64)
  syncEntriesV2 : Table (Uuid × Uuid) SyncEntryV2
  syncMutationsV2 : Table (Uuid × Int64) SyncMutationV2
  mutationResults : Table ResultKey MutationResultRow
  migrationClaims : Table Uuid MigrationClaim
  vaultEpochs : Table Uuid VaultEpoch
deriving DecidableEq

def RelayState.empty : RelayState where
  vaults := .empty
  devices := .empty
  sequenceCounters := .empty
  deviceSequences := .empty
  syncEntriesV2 := .empty
  syncMutationsV2 := .empty
  mutationResults := .empty
  migrationClaims := .empty
  vaultEpochs := .empty

namespace RelayState

/-- `SELECT vault_id FROM devices WHERE device_id = ?`. -/
def deviceVault (s : RelayState) (device : Uuid) : Option Uuid :=
  (s.devices.get? device).map (·.vaultId)

/-- The epoch the relay enforces for a vault: `0` before any row exists. -/
def vaultEpoch (s : RelayState) (vault : Uuid) : Int64 :=
  ((s.vaultEpochs.get? vault).map (·.keyEpoch)).getD 0

/-- `SELECT current_version FROM sync_entries_v2 WHERE …`. -/
def currentVersion (s : RelayState) (vault object : Uuid) : Option Int64 :=
  (s.syncEntriesV2.get? (vault, object)).map (·.currentVersion)

/-- The mutation log of a vault, in the order it was appended. -/
def log (s : RelayState) (vault : Uuid) : List (Int64 × SyncMutationV2) :=
  (s.syncMutationsV2.rows.filter fun r => r.1.1 = vault).map fun r => (r.1.2, r.2)

def objectLog (s : RelayState) (vault object : Uuid) : List (Int64 × SyncMutationV2) :=
  (s.log vault).filter fun e => e.2.objectId = object

theorem mem_objectLog {s : RelayState} {vault object x} :
    x ∈ s.objectLog vault object ↔ x ∈ s.log vault ∧ x.2.objectId = object := by
  simp [objectLog]

end RelayState

/-! ## Stored rejection reasons -/

/-- `serde_json::to_string` of a reason: an object tagged by `reason`. -/
def reasonToJson : RejectionReason → Json.Doc
  | .versionConflict c => [("reason", .str "version_conflict"), ("current_version", .ofU64 c)]
  | .staleEpoch e => [("reason", .str "stale_epoch"), ("vault_epoch", .ofI64 e)]
  | .malformed => [("reason", .str "malformed")]

def parseRejectionReason (d : Json.Doc) : Option RejectionReason := do
  let tag ← (fieldAs asStr d "reason").toOption
  if tag = "version_conflict" then
    (fieldAs asU64 d "current_version").toOption.map .versionConflict
  else if tag = "stale_epoch" then
    (fieldAs asI64 d "vault_epoch").toOption.map .staleEpoch
  else if tag = "malformed" then some .malformed
  else none

@[simp] theorem parseRejectionReason_reasonToJson (r) :
    parseRejectionReason (reasonToJson r) = some r := by
  -- each case reads the tag, then the one field the tag calls for
  unfold parseRejectionReason
  cases r with
  | versionConflict c =>
    rw [fieldAs_ok (v := .str "version_conflict") (a := "version_conflict")
        (by simp [field, reasonToJson]) rfl,
      fieldAs_ok (by simp [field, reasonToJson]) (asU64_ofU64 c)]
    rfl
  | staleEpoch e =>
    rw [fieldAs_ok (v := .str "stale_epoch") (a := "stale_epoch")
        (by simp [field, reasonToJson]) rfl,
      fieldAs_ok (by simp [field, reasonToJson]) (asI64_ofI64 e)]
    rfl
  | malformed =>
    rw [fieldAs_ok (v := .str "malformed") (a := "malformed")
      (by simp [field, reasonToJson]) rfl]
    rfl

end SentinelPass.Relay
