import SentinelPass.Relay.Log

/-!
# The v2 wire

How the two crates write and read a mutation as JSON. Each struct derives its
codec from its own field names: the client calls the type field `object_type`
(`sync/v2.rs`), the relay calls it `entry_type` (`handlers/sync_v2.rs`), in the
push it decodes and in the pull page it encodes.

The rest of the development talks about the structs that arrive, as the engine
does through its transport trait.
-/

namespace SentinelPass

open Lib Lib.Json Option MutationV2 Base64 Relay

/-- The text form of a UUID: it parses back to the UUID it was printed from. -/
structure UuidText where
  fmt : Uuid → String
  parse : String → Option Uuid
  parse_fmt : ∀ u, parse (fmt u) = some u

namespace UuidText

variable (U : UuidText)

def scalar (u : Uuid) : Scalar := .str (U.fmt u)

def conv (v : Scalar) : Option Uuid := (asStr v).bind U.parse

@[simp] theorem conv_scalar (u : Uuid) : U.conv (U.scalar u) = some u := U.parse_fmt u

end UuidText

def asBase64 (v : Scalar) : Option Bytes := (asStr v).bind decode

/-- Conversion of a base64 string of exactly 32 bytes. -/
def asMac (v : Scalar) : Option (Vector UInt8 32) :=
  (asBase64 v).bind fun bs => if h : bs.length = 32 then some ⟨bs.toArray, h⟩ else none

@[simp] theorem asBase64_encode (bs) : asBase64 (.str (encode bs)) = some bs := by
  unfold asBase64 asStr
  simp

@[simp] theorem asMac_encode (mac) : asMac (.str (encode mac.toList)) = some mac := by
  unfold asMac
  simp [Vector.toArray_toList]

/-- The derived `Serialize` of the client's struct. -/
def MutationV2.toJson (U : UuidText) (m : MutationV2) : Doc :=
  [("mutation_id", U.scalar m.mutationId), ("vault_id", U.scalar m.vaultId),
    ("object_id", U.scalar m.objectId),
    ("object_type", .str m.objectType.tag),
    ("expected_version", .ofU64 m.expectedVersion),
    ("resulting_version", .ofU64 m.resultingVersion),
    ("key_epoch", .ofI64 m.keyEpoch),
    ("origin_device_id", U.scalar m.originDeviceId),
    ("is_tombstone", .bool m.isTombstone),
    ("encrypted_payload", .str (encode m.encryptedPayload)),
    ("metadata_mac", .str (encode m.metadataMac.toList))]

/-- The derived `Deserialize` of the client's struct. -/
def MutationV2.ofJson (U : UuidText) (d : Doc) : Except DecodeError MutationV2 := do
  let mutationId ← fieldAs U.conv d "mutation_id"
  let vaultId ← fieldAs U.conv d "vault_id"
  let objectId ← fieldAs U.conv d "object_id"
  let objectType ← fieldAs (fun v => (asStr v).bind SyncEntryType.ofTag) d "object_type"
  let expectedVersion ← fieldAs asU64 d "expected_version"
  let resultingVersion ← fieldAs asU64 d "resulting_version"
  let keyEpoch ← fieldAs asI64 d "key_epoch"
  let originDeviceId ← fieldAs U.conv d "origin_device_id"
  let isTombstone ← fieldAs asBool d "is_tombstone"
  let encryptedPayload ← fieldAs asBase64 d "encrypted_payload"
  let metadataMac ← fieldAs asMac d "metadata_mac"
  return { mutationId, vaultId, objectId, objectType, expectedVersion, resultingVersion, keyEpoch,
           originDeviceId, isTombstone, encryptedPayload, metadataMac }

/-- The derived `Deserialize` of the relay's struct. -/
def Relay.MutationV2.ofJson (U : UuidText) (d : Doc) : Except DecodeError Relay.MutationV2 := do
  let mutationId ← fieldAs U.conv d "mutation_id"
  let vaultId ← fieldAs U.conv d "vault_id"
  let objectId ← fieldAs U.conv d "object_id"
  let entryType ← fieldAs asStr d "entry_type"
  let expectedVersion ← fieldAs asU64 d "expected_version"
  let resultingVersion ← fieldAs asU64 d "resulting_version"
  let keyEpoch ← fieldAs asI64 d "key_epoch"
  let originDeviceId ← fieldAs U.conv d "origin_device_id"
  let isTombstone ← fieldAs asBool d "is_tombstone"
  let encryptedPayload ← fieldAs asStr d "encrypted_payload"
  let metadataMac ← fieldAs asStr d "metadata_mac"
  return { mutationId, vaultId, objectId, entryType, expectedVersion, resultingVersion, keyEpoch,
           originDeviceId, isTombstone, encryptedPayload, metadataMac }

/-- The derived `Serialize` of a log mutation in a pull page. -/
def Relay.MutationLogMutation.toJson (U : UuidText) (m : Relay.MutationLogMutation) : Doc :=
  [("mutation_id", U.scalar m.mutationId), ("vault_id", U.scalar m.vaultId),
    ("object_id", U.scalar m.objectId),
    ("entry_type", .str m.entryType),
    ("expected_version", .ofU64 m.expectedVersion),
    ("resulting_version", .ofU64 m.resultingVersion),
    ("key_epoch", .ofI64 m.keyEpoch),
    ("origin_device_id", U.scalar m.originDeviceId),
    ("is_tombstone", .bool m.isTombstone),
    ("encrypted_payload", .str m.encryptedPayload),
    ("metadata_mac", .str m.metadataMac)]

/-! ## The names do not match -/

/-- The names of a serialized mutation, with the name of its type field. -/
def wireNames (typeField : String) : List String :=
  ["mutation_id", "vault_id", "object_id", typeField, "expected_version", "resulting_version",
    "key_epoch", "origin_device_id", "is_tombstone", "encrypted_payload", "metadata_mac"]

/-- The decoder finds the field at a position of the document under its name. -/
theorem read_wire {typeField d} (hnames : d.map Prod.fst = wireNames typeField)
    (hnd : (wireNames typeField).Nodup) (i : Nat) {α} {conv : Scalar → Option α} {name v a}
    (hname : (wireNames typeField)[i]? = some name) (hv : d[i]?.map Prod.snd = some v)
    (hc : conv v = some a) : fieldAs conv d name = .ok a := by
  obtain ⟨field, hfield, rfl⟩ := map_eq_some_iff.mp hv
  rw [← hnames, List.getElem?_map, hfield, map_some, some.injEq] at hname
  subst hname
  exact fieldAs_ok (field_of_mem (hnames ▸ hnd) (List.mem_of_getElem? hfield)) hc

/-- **Client and relay do not agree on the wire.** The relay rejects every
mutation a client can send, for want of `entry_type`, and the client rejects
every mutation of every page, for want of `object_type`. -/
theorem wire_type_field_mismatch (U : UuidText) : (∀ m : MutationV2,
      Relay.MutationV2.ofJson U (m.toJson U) = .error (.missingField "entry_type")) ∧
    (∀ m : Relay.MutationLogMutation,
      MutationV2.ofJson U (m.toJson U) = .error (.missingField "object_type")) := by
  constructor
  · intro m
    have hnames : (m.toJson U).map Prod.fst = wireNames "object_type" := rfl
    have hnd : (wireNames "object_type").Nodup := by decide
    -- the ids are read, then the decoder asks for a name that is not there
    unfold Relay.MutationV2.ofJson
    rw [read_wire hnames hnd 0 rfl rfl (U.conv_scalar _),
      read_wire hnames hnd 1 rfl rfl (U.conv_scalar _),
      read_wire hnames hnd 2 rfl rfl (U.conv_scalar _),
      fieldAs_missing asStr (by rw [hnames]; decide)]
    rfl
  · intro m
    have hnames : (m.toJson U).map Prod.fst = wireNames "entry_type" := rfl
    have hnd : (wireNames "entry_type").Nodup := by decide
    unfold ofJson
    rw [read_wire hnames hnd 0 rfl rfl (U.conv_scalar _),
      read_wire hnames hnd 1 rfl rfl (U.conv_scalar _),
      read_wire hnames hnd 2 rfl rfl (U.conv_scalar _),
      fieldAs_missing _ (by rw [hnames]; decide)]
    rfl

def unaryUuid : UuidText where
  fmt u := String.ofList (List.replicate u.toNat '1')
  parse s := some (BitVec.ofNat 128 s.toList.length)
  parse_fmt u := by simp [String.toList_ofList]

def sampleClientMutation : MutationV2 where
  mutationId := 11
  vaultId := 1
  objectId := 7
  objectType := .credential
  expectedVersion := 0
  resultingVersion := 1
  keyEpoch := 1
  originDeviceId := 2
  isTombstone := false
  encryptedPayload := [1, 2]
  metadataMac := Vector.replicate 32 0

/-- The push of that credential is not decoded by the relay, and its log entry
is not decoded by a client. -/
theorem wire_mismatch_sample :
    Relay.MutationV2.ofJson unaryUuid (sampleClientMutation.toJson unaryUuid)
      = .error (.missingField "entry_type") ∧
    MutationV2.ofJson unaryUuid
      ((Relay.logMutation 1 (Relay.logRow (Relay.sampleMutation 11 0 1 1) [1, 2] 0)).toJson
        unaryUuid) = .error (.missingField "object_type") := by
  decide +kernel

/-! ## With the name aligned -/

def renameField (old new : String) (d : Doc) : Doc :=
  d.map fun p => (if p.1 = old then new else p.1, p.2)

def MutationV2.toRelay (m : MutationV2) : Relay.MutationV2 where
  mutationId := m.mutationId
  vaultId := m.vaultId
  objectId := m.objectId
  entryType := m.objectType.tag
  expectedVersion := m.expectedVersion
  resultingVersion := m.resultingVersion
  keyEpoch := m.keyEpoch
  originDeviceId := m.originDeviceId
  isTombstone := m.isTombstone
  encryptedPayload := encode m.encryptedPayload
  metadataMac := encode m.metadataMac.toList

/-- A log mutation of a page as the client's struct. -/
def MutationV2.ofLog (m : Relay.MutationLogMutation) : Option MutationV2 := do
  let objectType ← SyncEntryType.ofTag m.entryType
  let encryptedPayload ← decode m.encryptedPayload
  let metadataMac ← asMac (.str m.metadataMac)
  return { mutationId := m.mutationId, vaultId := m.vaultId, objectId := m.objectId, objectType,
           expectedVersion := m.expectedVersion, resultingVersion := m.resultingVersion,
           keyEpoch := m.keyEpoch, originDeviceId := m.originDeviceId,
           isTombstone := m.isTombstone, encryptedPayload, metadataMac }

theorem ofLog_fields {m m'} (h : ofLog m = some m') :
    m'.originDeviceId = m.originDeviceId ∧ m'.mutationId = m.mutationId ∧
      m'.objectId = m.objectId ∧ m'.resultingVersion = m.resultingVersion := by
  unfold ofLog at h
  simp only [bind_eq_bind, bind_eq_some_iff, pure_def, some.injEq] at h
  obtain ⟨_, -, _, -, _, -, rfl⟩ := h
  exact ⟨rfl, rfl, rfl, rfl⟩

theorem MutationV2.ofLog_logMutation (m now) : ofLog (logMutation m.vaultId
      (logRow m.toRelay m.encryptedPayload now)) = some m := by
  simp [ofLog, logMutation, logRow, toRelay]

/-- Everything else agrees: with the one name aligned, what arrives is what was sent (`toRelay`,
`ofLog`). -/
theorem relay_decodes_aligned (U : UuidText) (m : MutationV2) :
    Relay.MutationV2.ofJson U (renameField "object_type" "entry_type" (m.toJson U))
      = .ok m.toRelay := by
  have hnames : (renameField "object_type" "entry_type" (m.toJson U)).map Prod.fst
      = wireNames "entry_type" := by
    simp [renameField, toJson, wireNames]
  have hnd : (wireNames "entry_type").Nodup := by decide
  unfold Relay.MutationV2.ofJson
  rw [read_wire hnames hnd 0 rfl rfl (U.conv_scalar _),
    read_wire hnames hnd 1 rfl rfl (U.conv_scalar _),
    read_wire hnames hnd 2 rfl rfl (U.conv_scalar _),
    read_wire hnames hnd 3 rfl rfl (asStr_str _),
    read_wire hnames hnd 4 rfl rfl (asU64_ofU64 _),
    read_wire hnames hnd 5 rfl rfl (asU64_ofU64 _),
    read_wire hnames hnd 6 rfl rfl (asI64_ofI64 _),
    read_wire hnames hnd 7 rfl rfl (U.conv_scalar _),
    read_wire hnames hnd 8 rfl rfl (asBool_bool _),
    read_wire hnames hnd 9 rfl rfl (asStr_str _),
    read_wire hnames hnd 10 rfl rfl (asStr_str _)]
  rfl

theorem client_decodes_aligned (U) {lm m} (h : ofLog lm = some m) :
    ofJson U (renameField "entry_type" "object_type" (lm.toJson U)) = .ok m := by
  unfold ofLog at h
  simp only [bind_eq_bind, bind_eq_some_iff, pure_def, some.injEq] at h
  obtain ⟨objectType, htype, payload, hpayload, mac, hmac, rfl⟩ := h
  have hnames : (renameField "entry_type" "object_type" (lm.toJson U)).map Prod.fst
      = wireNames "object_type" := by
    simp [renameField, Relay.MutationLogMutation.toJson, wireNames]
  have hnd : (wireNames "object_type").Nodup := by decide
  have hbase64 : asBase64 (.str lm.encryptedPayload) = some payload := hpayload
  unfold ofJson
  rw [read_wire hnames hnd 0 rfl rfl (U.conv_scalar _),
    read_wire hnames hnd 1 rfl rfl (U.conv_scalar _),
    read_wire hnames hnd 2 rfl rfl (U.conv_scalar _),
    read_wire hnames hnd 3 rfl rfl htype,
    read_wire hnames hnd 4 rfl rfl (asU64_ofU64 _),
    read_wire hnames hnd 5 rfl rfl (asU64_ofU64 _),
    read_wire hnames hnd 6 rfl rfl (asI64_ofI64 _),
    read_wire hnames hnd 7 rfl rfl (U.conv_scalar _),
    read_wire hnames hnd 8 rfl rfl (asBool_bool _),
    read_wire hnames hnd 9 rfl rfl hbase64,
    read_wire hnames hnd 10 rfl rfl hmac]
  rfl

/-- **Apart from the name nothing is lost.** A mutation that is pushed, decoded by the relay, kept
as a row of its log and pulled again is the mutation that was pushed. -/
theorem mutation_survives_relay (U : UuidText) (m : MutationV2) (now : Int) :
    ∃ r, Relay.MutationV2.ofJson U (renameField "object_type" "entry_type" (m.toJson U)) = .ok r ∧
      decode r.encryptedPayload = some m.encryptedPayload ∧
      ofJson U (renameField "entry_type" "object_type"
        ((logMutation r.vaultId (logRow r m.encryptedPayload now)).toJson U)) = .ok m := by
  refine ⟨m.toRelay, relay_decodes_aligned U m, by simp [toRelay], ?_⟩
  exact client_decodes_aligned U (ofLog_logMutation m now)

end SentinelPass
