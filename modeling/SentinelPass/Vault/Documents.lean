import SentinelPass.Lib.JsonText
import SentinelPass.Vault.Envelope
import SentinelPass.Vault.Revocation

/-!
# Envelope documents as bytes

`AadContext::to_bytes` and the document `seal_envelope` writes, down to the bytes, with
the limits `open_envelope` puts on them. The parser that reads documents back stays
external (`Parsers`).
-/

namespace SentinelPass

open Lib EpochGuard Base64 Json AadContext Json.Value
open List (cons_append cons length_append length_cons)

/-! ## The text of a document -/

def EnvelopePurpose.tag : EnvelopePurpose → Text
  | summary => "summary".toList
  | secret => "secret".toList
  | entryTitle => "entry_title".toList
  | entryUsername => "entry_username".toList
  | entryPassword => "entry_password".toList
  | entryUrl => "entry_url".toList
  | entryNotes => "entry_notes".toList
  | totpIssuer => "totp_issuer".toList
  | totpAccount => "totp_account".toList

def ObjectType.tag : ObjectType → Text
  | password => "password".toList
  | apiKey => "api_key".toList
  | passkeyReference => "passkey_reference".toList
  | sshKey => "ssh_key".toList
  | totpSecret => "totp_secret".toList
  | registryEntity => "registry_entity".toList
  | keySlot => "key_slot".toList
  | domainMapping => "domain_mapping".toList
  | personalCustody => "personal_custody".toList

/-- `tombstone` is left out where the object has none. -/
def tombstoneMember : Option Bool → List (Text × Json.Value)
  | none => []
  | some deleted => [("tombstone".toList, .bool deleted)]

/-- The members of a context, in the order of its declaration. -/
def AadContext.toJson (c : AadContext) : Json.Value :=
  .obj ([("v".toList, .num c.aadVersion.toNat), ("vault".toList, .str c.vault),
    ("object".toList, .str c.object), ("purpose".toList, .str c.purpose.tag),
    ("type".toList, .str c.objectType.tag), ("schema_version".toList, .num c.schemaVersion.toInt),
    ("crypto_version".toList, .num c.cryptoVersion.toInt), ("epoch".toList, .num c.epoch.toInt)]
      ++ tombstoneMember c.tombstone)

def AadContext.toBytes (c : AadContext) : Bytes := textBytes (write c.toJson)

def Envelope.toJson (e : Envelope) : Json.Value :=
  .obj [("magic".toList, .str e.magic.toList),
    ("envelope_version".toList, .num e.envelopeVersion.toInt),
    ("crypto_version".toList, .num e.cryptoVersion.toInt), ("alg".toList, .str e.alg.toList),
    ("context".toList, e.context.toJson), ("nonce".toList, .str e.nonce.toList),
    ("ct".toList, .str e.ct.toList), ("tag".toList, .str e.tag.toList)]

/-- `serde_json::to_vec`. -/
def Envelope.toBytes (e : Envelope) : Bytes := textBytes (write e.toJson)

def envelopeMagic : Bytes := textBytes ('{' :: (quoted "magic".toList ++ ':' ::
  quoted "SPENV".toList))

def jsonDepthExceeds (bytes : Bytes) (maxDepth : Nat) : Bool :=
  depthExceeds maxDepth 0 .outside bytes

def maxEnvelopeDepth : Nat := 8

/-- The parser this leaves external. -/
structure Parsers where
  fromSlice : Bytes → Option Envelope

def Parsers.documents (P : Parsers) : Documents Bytes where
  hasMagic b := envelopeMagic.isPrefixOf b
  size := List.length
  tooDeep b := jsonDepthExceeds b maxEnvelopeDepth
  toVec := Envelope.toBytes
  fromSlice := P.fromSlice
  aadBytes := toBytes

/-! ## The associated data -/

theorem EnvelopePurpose.tag_injective {p q : EnvelopePurpose} (h : p.tag = q.tag) : p = q := by
  cases p <;> cases q <;> first | rfl | exact absurd h (by decide)

theorem ObjectType.tag_injective {t u : ObjectType} (h : t.tag = u.tag) : t = u := by
  cases t <;> cases u <;> first | rfl | exact absurd h (by decide)

theorem tombstoneMember_injective {a b} (h : tombstoneMember a = tombstoneMember b) : a = b := by
  cases a with
  | none =>
    cases b with
    | none => rfl
    | some y => cases h
  | some x =>
    cases b with
    | none => cases h
    | some y =>
      cases h
      rfl

theorem AadContext.toJson_injective {c d : AadContext} (h : c.toJson = d.toJson) : c = d := by
  obtain ⟨v, vault, object, purpose, type, schema, crypto, epoch, tombstone⟩ := c
  simp only [toJson, obj.injEq, cons_append, List.nil_append,
    cons.injEq, Prod.mk.injEq, num.injEq, str.injEq, true_and] at h
  obtain ⟨hv, rfl, rfl, hpurpose, htype, hschema, hcrypto, hepoch, htombstone⟩ := h
  obtain rfl := UInt32.toNat_inj.mp (Int.ofNat.inj hv)
  obtain rfl := EnvelopePurpose.tag_injective hpurpose
  obtain rfl := ObjectType.tag_injective htype
  obtain rfl := Int32.toInt_inj.mp hschema
  obtain rfl := Int32.toInt_inj.mp hcrypto
  obtain rfl := Int64.toInt_inj.mp hepoch
  obtain rfl := tombstoneMember_injective htombstone
  rfl

/-- The associated data determine the context. -/
theorem AadContext.toBytes_injective {c d : AadContext} (h : c.toBytes = d.toBytes) : c = d :=
  toJson_injective (write_injective (textBytes_injective h))

theorem Envelope.toBytes_injective {e f : Envelope} (h : e.toBytes = f.toBytes) : e = f := by
  have hjson := write_injective (textBytes_injective h)
  obtain ⟨magic, version, crypto, alg, context, nonce, ct, tag⟩ := e
  simp only [Envelope.toJson, obj.injEq, cons.injEq, Prod.mk.injEq,
    num.injEq, str.injEq, true_and, and_true] at hjson
  obtain ⟨hmagic, hversion, hcrypto, halg, hcontext, hnonce, hct, htag⟩ := hjson
  obtain rfl := String.toList_inj.mp hmagic
  obtain rfl := Int32.toInt_inj.mp hversion
  obtain rfl := Int32.toInt_inj.mp hcrypto
  obtain rfl := String.toList_inj.mp halg
  obtain rfl := toJson_injective hcontext
  obtain rfl := String.toList_inj.mp hnonce
  obtain rfl := String.toList_inj.mp hct
  obtain rfl := String.toList_inj.mp htag
  rfl

theorem AadContext.toBytes_cons (c : AadContext) :
    ∃ rest, c.toBytes = 123 :: rest ∧ 8 ≤ rest.length := by
  have hname : (Json.quoted "v".toList).length = 3 ∧ (Json.quoted "vault".toList).length = 7 := by
    decide
  refine ⟨_, by rw [toBytes, toJson, cons_append, Json.write,
    textBytes_cons, Json.bytes_open_brace, List.singleton_append], ?_⟩
  refine Nat.le_trans ?_ (length_le_textBytes _)
  simp only [cons_append, writeMembers, length_append, length_cons]
  omega

/-! ## What can have been sealed -/

/-- The calls of AES-256-GCM that seal with the keys of a vault: envelopes, bare
ciphertexts (`encrypt_entry`, payloads of `sync/crypto.rs`), the data key under a
master key and under a recovery key. -/
inductive SealCall
  | envelope (key : Key) (context : AadContext) (plaintext : Bytes)
  | entry (key : Key) (plaintext : Bytes)
  | wrap (masterKey : Key) (epochBound : Bool) (epoch : Int64) (dek : Key)
  | recoveryWrap (recoveryKey : Key) (vaultUuid slotUuid : Text) (epoch : Int64) (dek : Key)

namespace SealCall

def key : SealCall → Key
  | envelope key _ _ | entry key _ | wrap key _ _ _ | recoveryWrap key _ _ _ _ => key

def aad : SealCall → Bytes
  | envelope _ context _ => context.toBytes
  | entry _ _ => []
  | wrap _ epochBound epoch _ => epochAad epochBound epoch
  | recoveryWrap _ vaultUuid slotUuid epoch _ => recoverySlotAad vaultUuid slotUuid epoch

def message : SealCall → Bytes
  | envelope _ _ plaintext | entry _ plaintext => plaintext
  | wrap _ _ _ dek | recoveryWrap _ _ _ _ dek => dek.toList

end SealCall

/-- AES-256-GCM as an ideal cipher: only what one of the calls sealed opens, under its
key and with its associated data. -/
def VaultEnv.OpensOnly (E : VaultEnv) (calls : List SealCall) : Prop :=
  ∀ {key nonce aad ciphertext message}, E.aesOpen key nonce aad ciphertext = some message →
    ∃ call ∈ calls, call.key = key ∧ call.aad = aad ∧ call.message = message

/-- The contexts an expectation allows: the expected one, or one that differs from it in
the epoch only. -/
def EpochExpectation.Allows : EpochExpectation → AadContext → AadContext → Prop
  | strict, expected, context => context = expected
  | fromDocument, expected, context => context = { expected with epoch := context.epoch }

section Binding

variable {E : VaultEnv} {P : Parsers} {calls : List SealCall}

theorem SealCall.eq_envelope_of_aad {call : SealCall} {context} (h : call.aad = context.toBytes) :
    call = .envelope call.key context call.message := by
  obtain ⟨rest, hrest, hlength⟩ := context.toBytes_cons
  cases call with
  | envelope key sealed plaintext =>
    obtain rfl := toBytes_injective h
    rfl
  | entry key plaintext =>
    cases h
  | wrap masterKey epochBound epoch dek =>
    -- eight bytes at most
    have hshort : (epochAad epochBound epoch).length ≤ 8 := by
      unfold epochAad i64LeBytes
      split
      · rw [length_leBytes]
      · exact Nat.zero_le 8
    have hlong : (epochAad epochBound epoch).length = rest.length + 1 := by
      rw [show epochAad epochBound epoch = 123 :: rest from h.trans hrest, length_cons]
    omega
  | recoveryWrap recoveryKey vaultUuid slotUuid epoch dek =>
    -- the first byte is the length of the label
    have hhead : (recoverySlotAad vaultUuid slotUuid epoch).head? = some 19 := rfl
    rw [show recoverySlotAad vaultUuid slotUuid epoch = 123 :: rest from h.trans hrest] at hhead
    exact absurd (Option.some.inj hhead) (by decide)

/-- **Identity binding.** Whatever the document is, what it opens to was sealed under
the key as an envelope, and with the context the caller expects. -/
theorem openEnvelope_binds (hcipher : E.OpensOnly calls) {key : Key} {expected : AadContext}
    {document plaintext : Bytes} {expectation : EpochExpectation}
    (h : openEnvelopeImpl E P.documents key expected document expectation = .ok plaintext) :
    ∃ context, .envelope key context plaintext ∈ calls ∧ expectation.Allows expected context := by
  unfold openEnvelopeImpl at h
  simp only [ite_error_eq_ok] at h
  obtain ⟨-, -, -, h⟩ := h
  cases hparse : P.documents.fromSlice document with
  | none => rw [hparse] at h; cases h
  | some envelope =>
    rw [hparse] at h
    obtain ⟨_, -, h⟩ := bind_ok h
    obtain ⟨nonce, -, h⟩ := bind_ok h
    obtain ⟨tag, -, h⟩ := bind_ok h
    obtain ⟨ct, -, h⟩ := bind_ok h
    obtain ⟨-, h⟩ := ite_error_eq_ok.mp h
    obtain ⟨-, h⟩ := ite_error_eq_ok.mp h
    split at h
    · cases h
    rename_i message hmessage
    cases h
    obtain ⟨call, hcall, hkey, haad, hplain⟩ := hcipher hmessage
    have hone := call.eq_envelope_of_aad haad
    rw [hkey, hplain] at hone
    refine ⟨expectation.expected expected envelope.context, hone ▸ hcall, ?_⟩
    cases expectation with
    | strict => rfl
    | fromDocument => rfl

end Binding

def sampleContext : AadContext :=
  ⟨1, "v".toList, "o".toList, .secret, .password, 1, 1, 3, none⟩

def sampleMessage : Bytes := [1, 2, 3]

def onceCalledEnv : VaultEnv :=
  { toyVaultEnv with
    aesOpen := fun key _ aad _ =>
      if key = sampleDek ∧ aad = sampleContext.toBytes then some sampleMessage else none }

def sampleEnvelope : Envelope :=
  ⟨"SPENV", 2, 1, "A256GCM", sampleContext, encode sampleNonce.toList,
    encode sampleMessage, encode (Vector.replicate 16 0).toList⟩

def sampleParsers : Parsers := ⟨fun _ => some sampleEnvelope⟩

theorem openEnvelope_binds_sample :
    openEnvelopeImpl onceCalledEnv sampleParsers.documents sampleDek
      { sampleContext with epoch := 9 }
        sampleEnvelope.toBytes .fromDocument = .ok sampleMessage ∧
      ∃ context, SealCall.envelope sampleDek context sampleMessage
          ∈ [SealCall.envelope sampleDek sampleContext sampleMessage] ∧
        EpochExpectation.fromDocument.Allows { sampleContext with epoch := 9 } context := by
  have hcipher : onceCalledEnv.OpensOnly [.envelope sampleDek sampleContext sampleMessage] := by
    intro key nonce aad ciphertext message h
    have hif : (if key = sampleDek ∧ aad = sampleContext.toBytes then some sampleMessage else none)
        = some message := h
    split at hif
    · next hcall =>
      cases hif
      exact ⟨_, List.mem_singleton_self _, hcall.1.symm, hcall.2.symm, rfl⟩
    · cases hif
  have hopen : openEnvelopeImpl onceCalledEnv sampleParsers.documents sampleDek
      { sampleContext with epoch := 9 } sampleEnvelope.toBytes .fromDocument
        = .ok sampleMessage := by
    decide +kernel
  exact ⟨hopen, openEnvelope_binds hcipher hopen⟩

/-! ## What is sealed, opened again -/

/-- The documented behaviour of AES-256-GCM: a ciphertext opens under its own key, nonce
and associated data, and is as long as its plaintext and the tag. -/
structure VaultEnv.Gcm (E : VaultEnv) : Prop where
  open_seal : ∀ {key nonce aad msg ciphertext}, E.aesSeal key nonce aad msg = some ciphertext →
    E.aesOpen key nonce aad ciphertext = some msg
  length_seal : ∀ {key nonce aad msg ciphertext}, E.aesSeal key nonce aad msg = some ciphertext →
    ciphertext.length = msg.length + 16

def Parsers.ReadsBack (P : Parsers) : Prop := ∀ e : Envelope, P.fromSlice e.toBytes = some e

/-- The bytes of a document beside its context and its ciphertext. -/
def envelopeFraming : Nat := 152

/-- The context and the length of the plaintext stay within the limits of
`open_envelope`. -/
def Fits (context : AadContext) (n : Nat) : Prop :=
  context.toBytes.length ≤ maxAadBytes ∧
    envelopeFraming + context.toBytes.length + b64Length n ≤ maxEnvelopeBytes

section Fitting

theorem length_quoted_encode (bs) :
    (textBytes (quoted (encode bs).toList)).length = b64Length bs.length + 2 := by
  have hplain : ∀ c ∈ encodeBytes bs, escapeChar c = [c] ∧ c.toNat ≤ 127 := by
    have hall : ∀ n < 64, escapeChar (encodeChar n) = [encodeChar n] ∧
        (encodeChar n).toNat ≤ 127 := by decide
    intro c hc
    rcases mem_encodeBytes hc with rfl | ⟨n, hn, rfl⟩
    · decide
    · exact hall n hn
  have hbody : (encodeBytes bs).flatMap escapeChar = encodeBytes bs := by
    rw [List.flatMap_congr fun c hc => (hplain c hc).1]
    exact List.flatMap_singleton' _
  have hquote : String.utf8EncodeChar '"' = [34] := by decide
  rw [encode, String.toList_ofList, quoted, hbody, textBytes_cons, textBytes_append,
    textBytes_cons, textBytes_nil, hquote, length_append, length_append,
    length_textBytes_of_ascii fun c hc => (hplain c hc).2, length_encodeBytes]
  simp [b64Length]
  omega

theorem length_quoted_names :
    (["magic", "SPENV", "envelope_version", "crypto_version", "alg", "A256GCM", "context", "nonce",
      "ct", "tag"].map fun s => (textBytes (quoted s.toList)).length)
      = [7, 7, 18, 16, 5, 9, 9, 7, 4, 5] := by
  decide +kernel

theorem length_document {context} (hcrypto : context.cryptoVersion = supportedCryptoVersion)
    (nonce : Vector UInt8 12) (ct : Bytes) (tag : Vector UInt8 16) :
    (Envelope.toBytes ⟨"SPENV", envelopeVersion, context.cryptoVersion, "A256GCM", context,
      encode nonce.toList, encode ct, encode tag.toList⟩).length
      = envelopeFraming + context.toBytes.length + b64Length ct.length := by
  have hnames := length_quoted_names
  simp only [List.map_cons, cons.injEq] at hnames
  obtain ⟨h1, h2, h3, h4, h5, h6, h7, h8, h9, h10⟩ := hnames
  have hversion : (textBytes (showInt envelopeVersion.toInt)).length = 1 := by decide
  have hsupported : (textBytes (showInt supportedCryptoVersion.toInt)).length = 1 := by decide
  have hnonce : b64Length nonce.toList.length = 16 := by rw [Vector.length_toList]; rfl
  have htag : b64Length tag.toList.length = 24 := by rw [Vector.length_toList]; rfl
  simp only [Envelope.toBytes, Envelope.toJson, Json.write, Json.writeMembers, textBytes_cons,
    textBytes_append, textBytes_nil, length_append, length_quoted_encode, Json.bytes_comma,
    Json.bytes_colon, Json.bytes_open_brace, Json.bytes_close_brace, hcrypto, toBytes,
    h1, h2, h3, h4, h5, h6, h7, h8, h9, h10, hversion, hsupported, hnonce, htag, envelopeFraming,
    length_cons, List.length_nil]
  clear h1 h2 h3 h4 h5 h6 h7 h8 h9 h10 hversion hsupported hnonce htag hcrypto
  omega

theorem hasMagic_document (e : Envelope) (h : e.magic = "SPENV") :
    envelopeMagic.isPrefixOf e.toBytes = true := by
  rw [List.isPrefixOf_iff_prefix]
  refine ⟨textBytes (Json.writeMembers [("envelope_version".toList, .num e.envelopeVersion.toInt),
    ("crypto_version".toList, .num e.cryptoVersion.toInt), ("alg".toList, .str e.alg.toList),
    ("context".toList, e.context.toJson), ("nonce".toList, .str e.nonce.toList),
    ("ct".toList, .str e.ct.toList), ("tag".toList, .str e.tag.toList)]), ?_⟩
  rw [envelopeMagic, Envelope.toBytes, Envelope.toJson, h, Json.write, ← textBytes_append,
    Json.write]
  simp only [cons_append, List.append_assoc]

theorem depth_toJson (e : Envelope) : e.toJson.depth = 2 := by
  obtain ⟨magic, version, crypto, alg, ⟨v, vault, object, purpose, type, schema, crypto', epoch,
    tombstone⟩, nonce, ct, tag⟩ := e
  cases tombstone <;> rfl

theorem not_tooDeep_document (e : Envelope) : jsonDepthExceeds e.toBytes maxEnvelopeDepth
    = false := by
  have hdepth : 0 + e.toJson.depth ≤ maxEnvelopeDepth := by
    rw [depth_toJson]
    decide
  have h := depthExceeds_write e.toJson hdepth []
  rw [List.append_nil] at h
  rw [jsonDepthExceeds, Envelope.toBytes, h]
  rfl

theorem length_encode (bs) : (encode bs).length = b64Length bs.length := by
  rw [encode, String.length_ofList, length_encodeBytes]
  rfl

theorem decodeExactB64_of_vector {n} (v field) :
    decodeExactB64 (encode v.toList) n field = .ok v := by
  unfold decodeExactB64
  have hlength : (encode v.toList).length = b64Length n := by
    rw [length_encode, Vector.length_toList]
  rw [if_neg (fun h => h hlength), decodeConcat_encode]
  dsimp only
  rw [dif_pos Vector.length_toList]
  exact congrArg Except.ok (Vector.toArray_inj.mp (Array.toArray_toList))

theorem decodeCiphertext_of_le {bytes} (h : bytes.length ≤ maxCiphertextBytes) :
    decodeCiphertext (encode bytes) = .ok bytes := by
  have hmono : b64Length bytes.length ≤ b64Length maxCiphertextBytes := by
    unfold b64Length
    omega
  unfold decodeCiphertext
  rw [length_encode, if_neg (by omega), decodeConcat_encode]
  dsimp only
  rw [if_neg (by omega)]

theorem openEnvelope_sealed {E : VaultEnv} {P : Parsers} (hgcm : E.Gcm) (hparse : P.ReadsBack)
    {key : Key} {nonce : Vector UInt8 12} {context : AadContext} {plaintext blob : Bytes}
    {max : Nat} (h : sealEnvelope E P.documents key nonce context plaintext max = .ok blob) :
    openEnvelope E P.documents key context blob
      = if maxEnvelopeBytes < envelopeFraming + context.toBytes.length +
            b64Length plaintext.length then
          .error (.crypto "envelope document exceeds the size cap (4194304 bytes)")
        else if maxAadBytes < context.toBytes.length then
          .error (.crypto "expected context exceeds the AAD size contract")
        else .ok plaintext := by
  obtain ⟨hcrypto, hmax, ct, tag, hcipher, rfl⟩ := sealEnvelope_ok h
  have hct : ct.length = plaintext.length := by
    have hlength := hgcm.length_seal hcipher
    rw [length_append, Vector.length_toList] at hlength
    omega
  -- the document, by its fields
  obtain ⟨e, he⟩ : ∃ e : Envelope, e = ⟨"SPENV", envelopeVersion, context.cryptoVersion, "A256GCM",
    context, encode nonce.toList, encode ct, encode tag.toList⟩ := ⟨_, rfl⟩
  have hmagic : envelopeMagic.isPrefixOf e.toBytes = true := hasMagic_document e (by rw [he])
  have hsize : e.toBytes.length
      = envelopeFraming + context.toBytes.length + b64Length plaintext.length := by
    rw [he, length_document hcrypto, hct]
  have hhead : checkHead e = .ok () := by
    rw [he]
    simp [checkHead, hcrypto]
  have hnonce : decodeExactB64 e.nonce 12 "nonce" = .ok nonce := by
    rw [he]
    exact decodeExactB64_of_vector nonce "nonce"
  have htag : decodeExactB64 e.tag 16 "tag" = .ok tag := by
    rw [he]
    exact decodeExactB64_of_vector tag "tag"
  have hciphertext : decodeCiphertext e.ct = .ok ct := by
    rw [he]
    exact decodeCiphertext_of_le (by omega)
  have hcontext : e.context = context := by rw [he]
  have hopened : E.aesOpen key nonce context.toBytes (ct ++ tag.toList) = some plaintext :=
    hgcm.open_seal hcipher
  rw [← he]
  unfold openEnvelope openEnvelopeImpl
  simp only [Parsers.documents, hmagic, not_tooDeep_document, hparse e, hsize, hhead, hnonce, htag,
    hciphertext, hcontext, hopened, EpochExpectation.expected, ok_bind, Bool.true_eq_false,
    Bool.false_eq_true, if_false, ne_eq, not_true_eq_false]

/-- **Sealed documents open.** A document that was sealed opens to its plaintext exactly
when its context and its length stay within the limits of the reader. -/
theorem opens_iff_fits {E : VaultEnv} {P : Parsers} (hgcm : E.Gcm) (hparse : P.ReadsBack)
    {key : Key} {nonce : Vector UInt8 12} {context : AadContext} {plaintext blob : Bytes}
    {max : Nat} (h : sealEnvelope E P.documents key nonce context plaintext max = .ok blob) :
    openEnvelope E P.documents key context blob = .ok plaintext ↔
    Fits context plaintext.length := by
  rw [openEnvelope_sealed hgcm hparse h, ite_error_eq_ok, ite_error_eq_ok]
  unfold Fits
  constructor
  · rintro ⟨hsize, haad, -⟩
    omega
  · rintro ⟨haad, hsize⟩
    exact ⟨by omega, by omega, rfl⟩

end Fitting

/-! ## The longest plaintext -/

noncomputable def inverseParsers : Parsers where
  fromSlice b := by
    classical exact if h : ∃ e : Envelope, e.toBytes = b then some h.choose else none

theorem inverseParsers_readsBack : inverseParsers.ReadsBack := by
  intro e
  have h : ∃ f : Envelope, f.toBytes = e.toBytes := ⟨e, rfl⟩
  have hchoose := Envelope.toBytes_injective h.choose_spec
  simp only [inverseParsers]
  rw [dif_pos h, hchoose]

theorem toyVaultEnv_gcm : toyVaultEnv.Gcm where
  open_seal := by
    intro key nonce aad msg ciphertext h
    cases h
    have hstart : (msg ++ (sampleTag key nonce aad).toList).length - 16 = msg.length := by simp
    show (if (msg ++ (sampleTag key nonce aad).toList).drop _ = _ then
      some ((msg ++ (sampleTag key nonce aad).toList).take _) else none) = _
    rw [hstart, List.drop_left, if_pos rfl, List.take_left]
  length_seal := by
    intro key nonce aad msg ciphertext h
    cases h
    simp

theorem exists_sealed (P : Parsers) {plaintext : Bytes}
    (h : plaintext.length ≤ maxCiphertextBytes) :
    ∃ blob, sealEnvelope toyVaultEnv P.documents sampleDek sampleNonce sampleContext plaintext
      maxCiphertextBytes = .ok blob := by
  have hsplit : ∃ ct tag, splitTag (plaintext ++ (sampleTag sampleDek sampleNonce
      sampleContext.toBytes).toList) = some (ct, tag) := by
    unfold splitTag
    rw [dif_pos (by simp)]
    exact ⟨_, _, rfl⟩
  obtain ⟨ct, tag, hsplit⟩ := hsplit
  have hcipher : toyVaultEnv.aesSeal sampleDek sampleNonce (P.documents.aadBytes sampleContext)
      plaintext = some (plaintext ++
        (sampleTag sampleDek sampleNonce sampleContext.toBytes).toList) :=
    rfl
  unfold sealEnvelope
  rw [if_neg (by decide), if_neg (by omega), if_neg (by omega), hcipher]
  dsimp only
  rw [hsplit]
  exact ⟨_, rfl⟩

theorem opens_iff_fits_sample :
    ∃ blob, sealEnvelope toyVaultEnv inverseParsers.documents sampleDek sampleNonce sampleContext
        sampleMessage maxCiphertextBytes = .ok blob ∧
      (openEnvelope toyVaultEnv inverseParsers.documents sampleDek sampleContext blob
          = .ok sampleMessage ↔ Fits sampleContext sampleMessage.length) := by
  obtain ⟨blob, h⟩ := exists_sealed inverseParsers (show sampleMessage.length ≤ _ by decide)
  exact ⟨blob, h, opens_iff_fits toyVaultEnv_gcm inverseParsers_readsBack h⟩

/-- The longest plaintext the writer accepts is one no reader opens. -/
theorem longest_plaintext_never_opens :
    ∃ blob, sealEnvelope toyVaultEnv inverseParsers.documents sampleDek sampleNonce sampleContext
        (List.replicate maxCiphertextBytes 0) maxCiphertextBytes = .ok blob ∧
      openEnvelope toyVaultEnv inverseParsers.documents sampleDek sampleContext blob
        = .error (.crypto "envelope document exceeds the size cap (4194304 bytes)") := by
  have hlength : (List.replicate maxCiphertextBytes (0 : UInt8)).length = maxCiphertextBytes :=
    List.length_replicate
  obtain ⟨blob, h⟩ := exists_sealed inverseParsers (Nat.le_of_eq hlength)
  refine ⟨blob, h, ?_⟩
  have hb64 : b64Length maxCiphertextBytes = maxEnvelopeBytes := by decide
  rw [openEnvelope_sealed toyVaultEnv_gcm inverseParsers_readsBack h, hlength, hb64,
    if_pos (by unfold envelopeFraming; omega)]

end SentinelPass
