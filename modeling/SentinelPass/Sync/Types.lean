import SentinelPass.Lib.Bytes
import SentinelPass.Lib.Text

/-!
# Wire types of the sync protocol

The types the client (`sentinelpass-core`, `sync/v2.rs` and `sync/models.rs`)
and the relay (`sentinelpass-relay`, `handlers/sync_v2.rs`) exchange. Each crate
declares its own `MutationV2`; both are here, the client's as `MutationV2` and
the relay's as `Relay.MutationV2` in `Relay.State`.

Machine integers keep their width: a `u64` of the source is a `UInt64`, an `i64`
(and an SQLite `INTEGER` column) an `Int64`, and an `as` cast is `toInt64` or
`toUInt64`. Timestamps are compared and never cast, so they are `Int`.
-/

namespace SentinelPass

/-- A UUID: 128 bits. -/
abbrev Uuid := BitVec 128

def Uuid.isNil (u : Uuid) : Bool := u = 0

/-- The hyphenated text of a UUID. -/
def Uuid.text (u : Uuid) : String :=
  let digits := Lib.hex (Lib.beBytes 16 u.toNat)
  let part (start length : Nat) := (digits.drop start).take length
  String.ofList (['-'].intercalate [part 0 8, part 8 4, part 12 4, part 16 4, part 20 12])

/-- Raw bytes. -/
abbrev Bytes := List UInt8

/-- What kind of row a mutation carries. -/
inductive SyncEntryType
  | credential
  | sshKey
  | totpSecret
deriving DecidableEq

namespace SyncEntryType

/-- The wire tag (`object_type_tag`, and the serde `snake_case` name). -/
def tag : SyncEntryType → String
  | credential => "credential"
  | sshKey => "ssh_key"
  | totpSecret => "totp_secret"

def ofTag (s : String) : Option SyncEntryType :=
  if s = "credential" then some credential
  else if s = "ssh_key" then some sshKey
  else if s = "totp_secret" then some totpSecret
  else none

@[simp] theorem ofTag_tag (t) : ofTag t.tag = some t := by
  cases t <;> decide

end SyncEntryType

/-- A single v2 mutation as the client builds it. `metadataMac` is a `[u8; 32]`. -/
structure MutationV2 where
  (mutationId vaultId objectId : Uuid)
  objectType : SyncEntryType
  (expectedVersion resultingVersion : UInt64)
  keyEpoch : Int64
  originDeviceId : Uuid
  isTombstone : Bool
  encryptedPayload : Bytes
  metadataMac : Vector UInt8 32
deriving DecidableEq

/-- Why the relay rejected a mutation. -/
inductive RejectionReason
  | versionConflict (currentVersion : UInt64)
  | staleEpoch (vaultEpoch : Int64)
  | malformed
deriving DecidableEq

/-- The durable answer to one mutation. -/
inductive MutationOutcome
  | applied (resultingVersion : UInt64) (serverSequence : Int64)
  | rejected (reason : RejectionReason)
deriving DecidableEq

/-- One answer of a push response, in request order. -/
structure MutationResult where
  (mutationId objectId : Uuid)
  outcome : MutationOutcome
deriving DecidableEq

/-- The answer to a whole push request. -/
structure PushResponseV2 where
  serverCursor : Int64
  results : List MutationResult
deriving DecidableEq

end SentinelPass
