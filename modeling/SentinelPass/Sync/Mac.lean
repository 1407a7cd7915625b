import SentinelPass.Sync.Types

/-!
# Mutation ids and the metadata MAC

`sync/v2.rs`: the canonical encoding of a mutation's metadata, the deterministic
mutation id, and what a holder of the data key builds and verifies. SHA-256 and
HMAC-SHA256 are the functions of two external crates; they are the fields of
`Crypto`, and every result about them says which property it needs.
-/

namespace SentinelPass

open Lib

/-- The two hash functions the protocol uses. -/
structure Crypto where
  sha256 : Bytes → Vector UInt8 32
  hmacSha256 : Bytes → Bytes → Vector UInt8 32

def utf8 (s : String) : Bytes := s.toUTF8.data.toList

def Uuid.asBytes (u : Uuid) : Bytes := beBytes 16 u.toNat

/-- `u64::to_be_bytes`. -/
def u64Bytes (v : UInt64) : Bytes := beBytes 8 v.toNat

/-- `i64::to_be_bytes`: two's complement. -/
def i64Bytes (v : Int64) : Bytes := u64Bytes v.toUInt64

/-- The metadata a v2 mutation authenticates. -/
structure MutationMetadata where
  (vaultId objectId : Uuid)
  objectType : SyncEntryType
  (expectedVersion resultingVersion : UInt64)
  keyEpoch : Int64
  originDeviceId : Uuid
  isTombstone : Bool
  mutationId : Uuid
  payloadSha256 : Bytes

def metadataMacVersion : Bytes := utf8 "sp-sync-v2-meta/1"

/-- The field separator `|`. -/
def sep : UInt8 := 124

def MutationMetadata.canonicalBytes (m : MutationMetadata) : Bytes :=
  metadataMacVersion ++ sep :: (m.vaultId.asBytes ++ sep :: (m.objectId.asBytes ++ sep ::
        (utf8 m.objectType.tag ++ sep :: (u64Bytes m.expectedVersion ++ sep ::
            (u64Bytes m.resultingVersion ++ sep :: (i64Bytes m.keyEpoch ++ sep ::
                (m.originDeviceId.asBytes ++ sep :: ([if m.isTombstone then 1 else 0] ++ sep ::
                    (m.mutationId.asBytes ++ sep :: m.payloadSha256)))))))))

def mutationIdNamespace : Uuid := 0x73705f73796e635f7632000000000001

/-- `mutation_id_for`: a truncated digest with the version and variant bits of a
UUIDv5. Neither payload nor epoch nor type is hashed. -/
def mutationIdFor (c : Crypto) (vault object : Uuid) (resultingVersion : UInt64) : Uuid :=
  let digest := c.sha256 <|
    mutationIdNamespace.asBytes ++ vault.asBytes ++ object.asBytes ++ u64Bytes resultingVersion
  let bytes := digest.toList.take 16
  let bytes := bytes.modify 6 fun b => (b &&& 0x0f) ||| 0x50
  let bytes := bytes.modify 8 fun b => (b &&& 0x3f) ||| 0x80
  BitVec.ofNat 128 (beValue bytes)

theorem variant_byte_ne_zero (b : UInt8) : (b &&& 0x3f) ||| 0x80 ≠ 0 := by
  intro h
  have hbit := congrArg (fun x : UInt8 => x.toNat.testBit 7) h
  simp only [UInt8.toNat_or, Nat.testBit_or] at hbit
  rw [show (0x80 : UInt8).toNat.testBit 7 = true from rfl, Bool.or_true] at hbit
  exact absurd hbit (by decide)

theorem mutationIdFor_not_nil (c vault object v) :
    (mutationIdFor c vault object v).isNil = false := by
  unfold mutationIdFor Uuid.isNil
  generalize c.sha256 _ = digest
  set bytes := ((digest.toList.take 16).modify 6 fun b => (b &&& 0x0f) ||| 0x50) with hbytes
  have hlen : bytes.length = 16 := by simp [hbytes]
  rw [decide_eq_false_iff_not]
  intro hzero
  have hvalue : beValue (bytes.modify 8 fun b => (b &&& 0x3f) ||| 0x80) = 0 := by
    have hlt := beValue_lt (bytes.modify 8 fun b => (b &&& 0x3f) ||| 0x80)
    rw [List.length_modify, hlen] at hlt
    have hmod := congrArg BitVec.toNat hzero
    rw [BitVec.toNat_ofNat, Nat.mod_eq_of_lt (by omega)] at hmod
    exact hmod
  refine variant_byte_ne_zero (bytes.get ⟨8, by omega⟩) (eq_zero_of_beValue hvalue ?_)
  rw [List.mem_iff_getElem]
  exact ⟨8, by simp [hlen], by simp⟩

/-- Everything `build_mutation` needs. -/
structure MutationInput where
  (vaultId objectId : Uuid)
  objectType : SyncEntryType
  (expectedVersion resultingVersion : UInt64)
  keyEpoch : Int64
  originDeviceId : Uuid
  isTombstone : Bool
  encryptedPayload : Bytes

def MutationV2.metadata (c : Crypto) (m : MutationV2) : MutationMetadata where
  vaultId := m.vaultId
  objectId := m.objectId
  objectType := m.objectType
  expectedVersion := m.expectedVersion
  resultingVersion := m.resultingVersion
  keyEpoch := m.keyEpoch
  originDeviceId := m.originDeviceId
  isTombstone := m.isTombstone
  mutationId := m.mutationId
  payloadSha256 := (c.sha256 m.encryptedPayload).toList

/-- The metadata `build_mutation` authenticates. -/
def MutationInput.metadata (c : Crypto) (i : MutationInput) : MutationMetadata where
  vaultId := i.vaultId
  objectId := i.objectId
  objectType := i.objectType
  expectedVersion := i.expectedVersion
  resultingVersion := i.resultingVersion
  keyEpoch := i.keyEpoch
  originDeviceId := i.originDeviceId
  isTombstone := i.isTombstone
  mutationId := mutationIdFor c i.vaultId i.objectId i.resultingVersion
  payloadSha256 := (c.sha256 i.encryptedPayload).toList

def buildMutation (c : Crypto) (macKey : Bytes) (i : MutationInput) : MutationV2 where
  mutationId := mutationIdFor c i.vaultId i.objectId i.resultingVersion
  vaultId := i.vaultId
  objectId := i.objectId
  objectType := i.objectType
  expectedVersion := i.expectedVersion
  resultingVersion := i.resultingVersion
  keyEpoch := i.keyEpoch
  originDeviceId := i.originDeviceId
  isTombstone := i.isTombstone
  encryptedPayload := i.encryptedPayload
  metadataMac := c.hmacSha256 macKey (i.metadata c).canonicalBytes

/-- `verify_mac` on a received mutation. -/
def verifyMutationMac (c : Crypto) (macKey : Bytes) (m : MutationV2) : Bool :=
  c.hmacSha256 macKey (m.metadata c).canonicalBytes = m.metadataMac

/-! ## The canonical encoding is injective -/

@[simp] theorem Uuid.length_asBytes (u : Uuid) : u.asBytes.length = 16 := length_beBytes 16 _

@[simp] theorem length_u64Bytes (v : UInt64) : (u64Bytes v).length = 8 := length_beBytes 8 _

@[simp] theorem length_i64Bytes (v : Int64) : (i64Bytes v).length = 8 := length_u64Bytes _

theorem Uuid.asBytes_inj {u v : Uuid} (h : u.asBytes = v.asBytes) : u = v :=
  BitVec.eq_of_toNat_eq (beBytes_inj u.isLt v.isLt h)

theorem u64Bytes_inj {v w : UInt64} (h : u64Bytes v = u64Bytes w) : v = w :=
  UInt64.toNat_inj.mp (beBytes_inj v.toNat_lt w.toNat_lt h)

theorem i64Bytes_inj {v w : Int64} (h : i64Bytes v = i64Bytes w) : v = w :=
  congrArg Int64.ofUInt64 (u64Bytes_inj h)

/-- The three tags start with different letters, so the one in front of the
remaining fields is known before its length is. -/
theorem tag_append_inj {t t' : SyncEntryType} {b b' : Bytes}
    (h : utf8 t.tag ++ sep :: b = utf8 t'.tag ++ sep :: b') : t = t' ∧ b = b' := by
  have hfirst : (utf8 t.tag).head? = (utf8 t'.tag).head? := by
    have hne : ∀ x : SyncEntryType, utf8 x.tag ≠ [] := by
      intro x
      cases x <;> decide
    have := congrArg List.head? h
    rwa [List.head?_append_of_ne_nil _ (hne t), List.head?_append_of_ne_nil _ (hne t')] at this
  have ht : t = t' := by
    revert hfirst
    cases t <;> cases t' <;> decide
  subst ht
  exact ⟨rfl, (append_sep_inj rfl h).2⟩

/-- The canonical encoding determines the metadata. -/
theorem canonicalBytes_inj {m m' : MutationMetadata}
    (h : m.canonicalBytes = m'.canonicalBytes) : m = m' := by
  obtain ⟨-, h⟩ := append_sep_inj rfl h
  obtain ⟨hvault, h⟩ := append_sep_inj (by simp) h
  obtain ⟨hobject, h⟩ := append_sep_inj (by simp) h
  obtain ⟨htype, h⟩ := tag_append_inj h
  obtain ⟨hexpected, h⟩ := append_sep_inj (by simp) h
  obtain ⟨hresulting, h⟩ := append_sep_inj (by simp) h
  obtain ⟨hepoch, h⟩ := append_sep_inj (by simp) h
  obtain ⟨horigin, h⟩ := append_sep_inj (by simp) h
  obtain ⟨htomb, h⟩ := append_sep_inj (by simp) h
  obtain ⟨hid, hpayload⟩ := append_sep_inj (by simp) h
  have htomb' : m.isTombstone = m'.isTombstone := by
    revert htomb
    cases m.isTombstone <;> cases m'.isTombstone <;> decide
  cases m
  cases m'
  simp only [MutationMetadata.mk.injEq]
  exact ⟨Uuid.asBytes_inj hvault, Uuid.asBytes_inj hobject, htype, u64Bytes_inj hexpected,
    u64Bytes_inj hresulting, i64Bytes_inj hepoch, Uuid.asBytes_inj horigin, htomb',
    Uuid.asBytes_inj hid, hpayload⟩

/-- One MAC input never stands for two mutations. -/
theorem canonicalBytes_injective : Function.Injective MutationMetadata.canonicalBytes := by
  intro m m' h
  exact canonicalBytes_inj h

/-- A mutation with the canonical bytes of a built one and an equal payload is that mutation. -/
theorem built_eq_of_canonical {c : Crypto} {macKey : Bytes} {i : MutationInput} {m : MutationV2}
    (hv : verifyMutationMac c macKey m = true)
    (hbytes : (m.metadata c).canonicalBytes = (i.metadata c).canonicalBytes)
    (hpayload : m.encryptedPayload = i.encryptedPayload) : m = buildMutation c macKey i := by
  have hmac : c.hmacSha256 macKey (m.metadata c).canonicalBytes = m.metadataMac := by
    simpa [verifyMutationMac] using hv
  have hmeta := canonicalBytes_inj hbytes
  cases m
  simp only [MutationV2.metadata, MutationInput.metadata, MutationMetadata.mk.injEq] at hmeta
  obtain ⟨rfl, rfl, rfl, rfl, rfl, rfl, rfl, rfl, rfl, -⟩ := hmeta
  subst hpayload
  simp only [buildMutation, MutationV2.mk.injEq, true_and]
  exact hmac.symm

end SentinelPass
