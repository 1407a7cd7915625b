import SentinelPass.Sync.Mac
import SentinelPass.Vault.LocalOps

/-!
# Payloads and what they are sealed with

The three payload structs of `sync/models.rs`, the `SyncEntryBlob` they travel
in, and the parameters of the development (`Env`): the functions of external
crates that the client calls on payloads and hashes. `Env.sealPayload` is
`serde_json::to_vec` followed by `encrypt_for_sync` under the data key,
`Env.openPayload` is `decrypt_sync_payload`; the nonces `encrypt_for_sync` draws
are arguments.
-/

namespace SentinelPass

structure CredentialPayload where
  (title username password : String)
  credentialType : CredentialType
  (url notes : Option String)
  favorite : Bool
  domains : List DomainPayload
  (createdAt modifiedAt : Int)

/-- The context-free three-part ciphertext older peers exchange. -/
structure LegacySecret where
  (ciphertext nonce authTag : Bytes)

structure SshKeyPayload where
  name : String
  comment : Option String
  keyType : String
  keySize : Option Int64
  (publicKey privateKey : String)
  (privateKeyEncrypted legacyNonce legacyAuthTag : Option Bytes)
  fingerprint : String
  (createdAt modifiedAt : Int)

structure TotpPayload where
  secret : String
  (secretEncrypted legacyNonce legacyAuthTag : Option Bytes)
  algorithm : String
  digits : UInt8
  period : UInt32
  (issuer accountName : Option String)
  createdAt : Int
  parentCredentialSyncId : Option Uuid

/-- The payload type of a synced table. -/
abbrev Payload : SyncEntryType → Type
  | .credential => CredentialPayload
  | .sshKey => SshKeyPayload
  | .totpSecret => TotpPayload

/-- What the client takes from external crates, for one data key. -/
structure Env where
  /-- SHA-256 and HMAC-SHA256. -/
  crypto : Crypto
  /-- `derive_metadata_mac_key` of the data key. -/
  macKey : Bytes
  /-- Serialize and encrypt a payload under a nonce. -/
  sealPayload : (t : SyncEntryType) → Bytes → Payload t → Bytes
  /-- Encrypt the tombstone document under a nonce. -/
  sealTombstone : Bytes → Bytes
  /-- `decrypt_sync_payload`. -/
  openPayload : (t : SyncEntryType) → Bytes → Except PmError (Payload t)
  /-- `encrypt_string`: the context-free encryption of a secret. -/
  legacySeal : Bytes → String → LegacySecret
  /-- The decryptors of the legacy shape. -/
  legacyOpen : SyncEntryType → LegacySecret → Except PmError String
  /-- The base32 decoder. -/
  decodeBase32 : String → Option Bytes

/-- A row on its way between the tables and the wire. -/
structure SyncEntryBlob where
  syncId : Uuid
  entryType : SyncEntryType
  syncVersion : UInt64
  modifiedAt : Int
  encryptedPayload : Bytes
  isTombstone : Bool
  originDeviceId : Uuid
deriving DecidableEq

/-- `blob_from_log_mutation`: `modified_at` is 0, so versions decide. -/
def blobFromLogMutation (m : MutationV2) : SyncEntryBlob where
  syncId := m.objectId
  entryType := m.objectType
  syncVersion := m.resultingVersion
  modifiedAt := 0
  encryptedPayload := m.encryptedPayload
  isTombstone := m.isTombstone
  originDeviceId := m.originDeviceId

/-! ## A sample environment

Small stand-ins for the external functions, so that runs can be evaluated: the
digests read their input backwards, and sealing keeps one text of the payload. -/

def asciiText (bs : Bytes) : String := String.ofList (bs.map fun b => Char.ofNat b.toNat)

def sampleCrypto : Crypto where
  sha256 bs := Vector.ofFn fun i => bs.reverse.getD i 0
  hmacSha256 key bs := Vector.ofFn fun i => (bs ++ key).reverse.getD i 0

def sampleCredentialPayload (title : String) : CredentialPayload where
  title := title
  username := ""
  password := ""
  credentialType := .password
  url := none
  notes := none
  favorite := false
  domains := []
  createdAt := 0
  modifiedAt := 0

def sampleSshKeyPayload (privateKey : String) : SshKeyPayload where
  name := ""
  comment := none
  keyType := "ed25519"
  keySize := none
  publicKey := ""
  privateKey := privateKey
  privateKeyEncrypted := none
  legacyNonce := none
  legacyAuthTag := none
  fingerprint := ""
  createdAt := 0
  modifiedAt := 0

/-- A TOTP payload that holds a secret and its parent. -/
def sampleTotpPayload (parent : Uuid) (secret : String) : TotpPayload where
  secret := secret
  secretEncrypted := none
  legacyNonce := none
  legacyAuthTag := none
  algorithm := "SHA1"
  digits := 6
  period := 30
  issuer := none
  accountName := none
  createdAt := 0
  parentCredentialSyncId := some parent

def sampleSeal : (t : SyncEntryType) → Payload t → Bytes
  | .credential, p => utf8 p.title
  | .sshKey, p => utf8 p.privateKey
  | .totpSecret, p => (p.parentCredentialSyncId.getD 0).asBytes ++ utf8 p.secret

def sampleOpen : (t : SyncEntryType) → Bytes → Payload t
  | .credential, bs => sampleCredentialPayload (asciiText bs)
  | .sshKey, bs => sampleSshKeyPayload (asciiText bs)
  | .totpSecret, bs =>
    sampleTotpPayload (BitVec.ofNat 128 (Lib.beValue (bs.take 16))) (asciiText (bs.drop 16))

def sampleEnv : Env where
  crypto := sampleCrypto
  macKey := [7]
  sealPayload t nonce p := nonce ++ sampleSeal t p
  sealTombstone nonce := nonce
  openPayload t bs :=
    match bs with
    | [] => .error (.crypto "Decryption failed: Sync blob too short")
    | _ :: text => .ok (sampleOpen t text)
  legacySeal nonce secret := { ciphertext := utf8 secret, nonce := nonce, authTag := [] }
  legacyOpen _ legacy := .ok (asciiText legacy.ciphertext)
  decodeBase32 s := some (utf8 s)

end SentinelPass
