import SentinelPass.Relay.Pairing
import SentinelPass.Relay.Results

/-!
# The relay under concurrent requests

`auth.rs` and the handlers behind it. A signed request takes the database lock
three times: `verify_auth` looks the device up, the middleware checks the nonce,
and the handler runs. In between other requests take the lock, so a request is
first `verified`, then `admitted`, then handled. Registration and retrieval are
public and take the lock once.

`passed`, `additions` and `revoked` are there for the statements: the requests
that got through the middleware and when, the devices that registrations added,
and the devices whose revocation was answered.
-/

namespace SentinelPass.Relay

open Lib

/-! ## The middleware -/

/-- A row of `seen_nonces`. -/
structure SeenNonce where
  deviceId : Uuid
  seenAt : Int

/-- A request whose signature was checked. -/
structure SignedRequest where
  device : Uuid
  timestamp : Int64
  (nonce method path : Text)
  (body signature : Bytes)
deriving DecidableEq

/-- The freshness test, in the arithmetic of `i64`. -/
def isFresh (window : Int64) (now : Int) (timestamp : Int64) : Bool :=
  ¬ max window 1 < (Int64.ofInt now - timestamp).abs

def signedMessage (E : RelayEnv) (method path : Text) (timestamp : Int64) (nonce : Text)
    (body : Bytes) : Bytes :=
  textBytes (method ++ '\n' :: (path ++ '\n' :: (showI64 timestamp ++ '\n' :: (nonce ++ '\n' ::
    hashBytesHex E body))))

/-- The key and the signature a request is checked with. -/
def checkSignature (E : RelayEnv) (publicKey message signature : Bytes) : Except RelayError Unit :=
  if publicKey.length ≠ 32 ∨ E.validKey publicKey = false then .error (.auth "Invalid public key")
  else if signature.length ≠ 64 then .error (.auth "Invalid signature length")
  else if E.verifySignature publicKey message signature = false then
    .error (.auth "Signature verification failed")
  else .ok ()

/-- The scheme an `Authorization` header starts with. -/
def authScheme : Text := "SentinelPass-Ed25519 ".toList

def verifyAuth (E : RelayEnv) (cfg : RelayConfig) (devices : Table Uuid DeviceRow)
    (header method path : Text) (body : Bytes) (now : Int) : Except RelayError SignedRequest :=
  if authScheme.isPrefixOf header = false then .error (.auth "Invalid auth scheme")
  else
    match splitn ':' 4 (header.drop authScheme.length) with
    | [deviceText, timestampText, nonce, signatureText] =>
      match E.parseUuid deviceText with
      | none => .error (.auth "Invalid device ID")
      | some device =>
        match parseI64 timestampText with
        | none => .error (.auth "Invalid timestamp")
        | some timestamp =>
          match Base64.decode (String.ofList signatureText) with
          | none => .error (.auth "Invalid signature encoding")
          | some signature =>
            if isFresh cfg.nonceWindowSecs now timestamp = false then
              .error (.auth "Request expired")
            else
              match devices.get? device with
              | none => .error (.auth "Unknown device")
              | some row =>
                if row.revoked then .error (.auth "Device revoked")
                else do
                  checkSignature E row.publicKey
                    (signedMessage E method path timestamp nonce body) signature
                  .ok ⟨device, timestamp, nonce, method, path, body, signature⟩
    | _ => .error (.auth "Invalid auth format")

/-- The nonce check of `auth_middleware`, and its pruning. -/
def consumeNonce (cfg : RelayConfig) (nonces : Table Text SeenNonce) (r : SignedRequest)
    (now : Int) : Except RelayError (Table Text SeenNonce) :=
  match nonces.insert? r.nonce ⟨r.device, now⟩ with
  | none => .error (.auth "Nonce reused")
  | some nonces =>
    .ok (nonces.filter fun _ row => ¬ row.seenAt < now - cfg.nonceWindowSecs.toInt)

/-- `run_cleanup` on the nonces. -/
def cleanupNonces (cfg : RelayConfig) (nonces : Table Text SeenNonce) (now : Int) :
    Table Text SeenNonce :=
  nonces.filter fun _ row => ¬ row.seenAt < now - max cfg.nonceWindowSecs.toInt 1

/-! ## Handlers -/

/-- What an authenticated request asks for; `other` leaves the modelled tables alone. -/
inductive Call
  | push (req : PushRequestV2)
  | uploadBootstrap (req : UploadBootstrapRequest)
  | uploadBootstrapV2 (req : UploadBootstrapV2Request)
  | revoke (target : Option Uuid)
  | claim (origin : Uuid)
  | other

/-- The relay program: its external functions, its configuration and its router. -/
structure ServerEnv where
  env : RelayEnv
  cfg : RelayConfig
  route : SignedRequest → Call

/-- The database. -/
structure ServerDb where
  relay : RelayState
  nonces : Table Text SeenNonce
  pairing : PairingDb

def ServerDb.empty : ServerDb := ⟨.empty, .empty, .empty⟩

/-- The random values a handler draws. -/
structure HandlerDraws where
  salt : Bytes
  newVault : Uuid

variable (S : ServerEnv)

/-- A handler under the lock. A failed request leaves the database as it was. -/
def runCall (db : ServerDb) (device : Uuid) (draws : HandlerDraws) (now : Int) :
    Call → Except RelayError ServerDb
  | .push req => (pushV2 db.relay device req now).map fun out => { db with relay := out.1 }
  | .uploadBootstrap req =>
    (uploadBootstrap S.env S.cfg db.relay db.pairing device req draws.salt now).map fun pairing =>
      { db with pairing := pairing }
  | .uploadBootstrapV2 req =>
    (uploadBootstrapV2 S.env S.cfg db.relay db.pairing device req draws.salt now).map fun pairing =>
      { db with pairing := pairing }
  | .revoke target =>
    (revokeDevice db.relay device target).map fun relay => { db with relay := relay }
  | .claim origin =>
    (migrationClaim db.relay device origin draws.newVault now).map fun relay =>
      { db with relay := relay }
  | .other => .ok db

/-- The device a call revokes once it is answered. -/
def Call.revokes : Call → Option Uuid
  | .revoke target => target
  | _ => none

/-- Calls that append to the log, stage a bootstrap or revoke. -/
def Call.mutates : Call → Bool
  | .push _ | .uploadBootstrap _ | .uploadBootstrapV2 _ | .revoke _ => true
  | .claim _ | .other => false

/-! ## The machine -/

/-- A device row that a registration inserted. -/
structure Addition where
  (device vault : Uuid)
  hadDevices : Bool
  proof : Option RegistrationProof
  time : Int

structure ServerState where
  db : ServerDb
  (verified admitted : List SignedRequest)
  passed : List (SignedRequest × Int)
  additions : List Addition
  revoked : List Uuid
  clock : Int

def ServerState.initial (clock : Int) : ServerState := ⟨.empty, [], [], [], [], [], clock⟩

/-- One lock acquisition, or the end of a request whose connection was lost.
`verify` reads the clock before it takes the lock. -/
inductive ServerAction
  | verify (header method path : Text) (body : Bytes) (now : Int)
  | checkNonce (i : Nat) (withinRate : Bool) (now : Int)
  | handle (i : Nat) (draws : HandlerDraws) (now : Int)
  | cancelVerified (i : Nat)
  | cancelAdmitted (i : Nat)
  | register (req : JoinRequest) (now : Int)
  | fetch (token : Text) (salt : Bytes) (now : Int)
  | retrieve (secret : Text) (salt : Bytes) (now : Int)
  | cleanup (now : Int)

/-- The middleware after `verify_auth`. -/
def nonceStep (s : ServerState) (i : Nat) (withinRate : Bool) (now : Int) : Option ServerState := do
  let r ← s.verified[i]?
  let s := { s with verified := s.verified.eraseIdx i, clock := now }
  match consumeNonce S.cfg s.db.nonces r now with
  | .error _ => some s
  | .ok nonces =>
    let s := { s with db := { s.db with nonces := nonces } }
    if withinRate then
      some { s with admitted := s.admitted ++ [r], passed := s.passed ++ [(r, now)] }
    else some s

def handleStep (s : ServerState) (i : Nat) (draws : HandlerDraws) (now : Int) :
    Option ServerState := do
  let r ← s.admitted[i]?
  let s := { s with admitted := s.admitted.eraseIdx i, clock := now }
  match runCall S s.db r.device draws now (S.route r) with
  | .error _ => some s
  | .ok db => some { s with db := db, revoked := s.revoked ++ (S.route r).revokes.toList }

/-- `register_device`, with the row it added. -/
def registerStep (s : ServerState) (req : JoinRequest) (now : Int) : ServerState :=
  let s := { s with clock := now }
  match registerDeviceWithProof S.env s.db.relay s.db.pairing req now with
  | .error _ => s
  | .ok (relay, pairing, used) =>
    let added : List Addition :=
      match s.db.relay.devices.get? req.device.deviceId with
      | some _ => []
      | none =>
        [⟨req.device.deviceId, req.device.vaultId,
          hasDevices s.db.relay req.device.vaultId, used, now⟩]
    { s with
      db := { s.db with relay := relay, pairing := pairing }
      additions := s.additions ++ added }

/-- `run_cleanup`. -/
def cleanupStep (s : ServerState) (now : Int) : ServerState :=
  { s with
    clock := now
    db :=
      { relay := runCleanup s.db.relay S.cfg.mutationResultTtlSecs
          S.cfg.maxMutationResultsPerDevice now
        nonces := cleanupNonces S.cfg s.db.nonces now
        pairing := cleanupPairing S.cfg s.db.pairing now } }

def serverStep (s : ServerState) : ServerAction → Option ServerState
  | .verify header method path body now =>
    (verifyAuth S.env S.cfg s.db.relay.devices header method path body now).toOption.map fun r =>
      { s with verified := s.verified ++ [r] }
  | .checkNonce i withinRate now => nonceStep S s i withinRate now
  | .handle i draws now => handleStep S s i draws now
  | .cancelVerified i => some { s with verified := s.verified.eraseIdx i }
  | .cancelAdmitted i => some { s with admitted := s.admitted.eraseIdx i }
  | .register req now => some (registerStep S s req now)
  | .fetch token salt now =>
    some { s with
      clock := now
      db := { s.db with
        pairing := (fetchBootstrap S.env S.cfg s.db.pairing token salt now).2 } }
  | .retrieve secret salt now =>
    some { s with
      clock := now
      db := { s.db with
        pairing := (retrieveBootstrapV2 S.env S.cfg s.db.pairing secret salt now).2 } }
  | .cleanup now => some (cleanupStep S s now)

def server : Machine ServerState ServerAction where
  init s := ∃ clock, s = .initial clock
  step := serverStep S

def ServerAction.request (s : ServerState) : ServerAction → Option SignedRequest
  | .checkNonce i _ _ => s.verified[i]?
  | .handle i _ _ => s.admitted[i]?
  | _ => none

def ServerAction.time : ServerAction → Option Int
  | .checkNonce _ _ now | .handle _ _ now | .register _ now | .fetch _ _ now | .retrieve _ _ now
  | .cleanup now => some now
  | .verify .. | .cancelVerified _ | .cancelAdmitted _ => none

/-! ## What the steps do -/

section Inversion

variable {S} {s s' : ServerState} {now : Int} {draws : HandlerDraws}

theorem verifyAuth_ok {E cfg devices header method path body r}
    (h : verifyAuth E cfg devices header method path body now = .ok r) :
    ∃ row, devices.get? r.device = some row ∧ row.revoked = false := by
  obtain ⟨-, h⟩ := ite_error_eq_ok.mp h
  split at h
  · split at h
    · cases h
    rename_i device hdevice
    split at h
    · cases h
    split at h
    · cases h
    obtain ⟨-, h⟩ := ite_error_eq_ok.mp h
    split at h
    · cases h
    rename_i row hrow
    obtain ⟨hrevoked, h⟩ := ite_error_eq_ok.mp h
    obtain ⟨_, -, h⟩ := bind_ok h
    cases h
    exact ⟨row, hrow, by simpa using hrevoked⟩
  · cases h

theorem consumeNonce_ok {cfg nonces nonces' r} (h : consumeNonce cfg nonces r now = .ok nonces') :
    nonces.get? r.nonce = none ∧
      ∀ n, nonces'.get? n = (if n = r.nonce then some ⟨r.device, now⟩ else nonces.get? n).filter
        fun row => ¬ row.seenAt < now - cfg.nonceWindowSecs.toInt := by
  unfold consumeNonce at h
  split at h
  · cases h
  rename_i inserted hins
  cases h
  obtain ⟨hnone, -, hget⟩ := Table.insert?_eq_some hins
  refine ⟨hnone, ?_⟩
  intro n
  rw [Table.get?_filter, hget n]

/-- A request at the nonce check is refused, held back by the rate limit, or
admitted. -/
theorem nonceStep_ok {i : Nat} {withinRate : Bool} (h : nonceStep S s i withinRate now = some s') :
    ∃ r, s.verified[i]? = some r ∧ ((∃ e, consumeNonce S.cfg s.db.nonces r now = .error e ∧
          s' = { s with verified := s.verified.eraseIdx i, clock := now }) ∨
        ∃ nonces, consumeNonce S.cfg s.db.nonces r now = .ok nonces ∧
          ((withinRate = false ∧ s' = { s with
              verified := s.verified.eraseIdx i, clock := now
              db := { s.db with nonces := nonces } }) ∨
            (withinRate = true ∧ s' = { s with
              verified := s.verified.eraseIdx i, clock := now
              db := { s.db with nonces := nonces }
              admitted := s.admitted ++ [r], passed := s.passed ++ [(r, now)] }))) := by
  obtain ⟨r, hr, h⟩ := Option.bind_eq_some_iff.mp h
  refine ⟨r, hr, ?_⟩
  dsimp only at h
  split at h
  · next e he =>
    cases h
    exact .inl ⟨e, he, rfl⟩
  · next nonces hok =>
    split at h
    · next hrate =>
      cases h
      exact .inr ⟨nonces, hok, .inr ⟨hrate, rfl⟩⟩
    · next hrate =>
      cases h
      exact .inr ⟨nonces, hok, .inl ⟨by simpa using hrate, rfl⟩⟩

theorem handleStep_ok {i : Nat} (h : handleStep S s i draws now = some s') :
    ∃ r, s.admitted[i]? = some r ∧
      (s' = { s with admitted := s.admitted.eraseIdx i, clock := now } ∨
        ∃ db, runCall S s.db r.device draws now (S.route r) = .ok db ∧ s' = { s with
            admitted := s.admitted.eraseIdx i, clock := now, db := db
            revoked := s.revoked ++ (S.route r).revokes.toList }) := by
  obtain ⟨r, hr, h⟩ := Option.bind_eq_some_iff.mp h
  refine ⟨r, hr, ?_⟩
  dsimp only at h
  split at h
  · cases h
    exact .inl rfl
  rename_i db hok
  cases h
  exact .inr ⟨db, hok, rfl⟩

theorem runCall_nonces {db db' device call}
    (h : runCall S db device draws now call = .ok db') : db'.nonces = db.nonces := by
  cases call with
  | push req | uploadBootstrap req | uploadBootstrapV2 req | revoke target | claim origin =>
    obtain ⟨out, -, rfl⟩ := map_ok h
    rfl
  | other =>
    cases h
    rfl

end Inversion

/-! ## A sample relay

Stand-ins for the external functions, so that runs can be evaluated: ids are
written in decimal, and a signature is the key followed by the start of the
message. -/

def toySign (key message : Bytes) : Bytes := key ++ (message ++ List.replicate 32 0).take 32

def toyRelayEnv : RelayEnv where
  crypto :=
    { sha256 := fun b => Vector.ofFn fun i => b.reverse.getD i 0
      hmacSha256 := fun key b => Vector.ofFn fun i => (b ++ key).reverse.getD i 0 }
  parseUuid t := (parseDigits t).map (BitVec.ofNat 128)
  validKey _ := true
  verifySignature key message signature := signature = toySign key message
  decodeUrlSafe t := Base64.decode (String.ofList t)
  argon2Hash _ token := some ("$argon2".toList ++ token)
  argon2Verify token stored := some (stored = "$argon2".toList ++ token)

def toyConfig : RelayConfig where
  nonceWindowSecs := 300
  maxPayloadSize := 1024
  pairingTtlSecs := 300
  maxActivePairings := 4
  pairingFetchAttemptLimit := 5
  pairingFetchBackoffBaseSecs := 1
  pairingFetchBackoffMaxSecs := 60
  pairingFetchAttemptRetentionSecs := 3600
  mutationResultTtlSecs := 3600
  maxMutationResultsPerDevice := 100

/-- Text bytes of the key that sample devices have. -/
def toyKey (device : Nat) : Bytes := List.replicate 32 (UInt8.ofNat device)

def toyHeader (device : Nat) (timestamp : Int64) (nonce method path : Text) (body : Bytes) : Text :=
  authScheme ++ Nat.toDigits 10 device ++ ':' :: (showI64 timestamp ++ ':' :: (nonce ++ ':' ::
    (Base64.encode (toySign (toyKey device)
      (signedMessage toyRelayEnv method path timestamp nonce body))).toList))

def toyJoin (device : Nat) (vault : Uuid) (name : String) (key : Nat) : JoinRequest where
  device := ⟨BitVec.ofNat 128 device, vault, name, "Desktop", Base64.encode (toyKey key)⟩
  pairingToken := none
  registrationProof := none

end SentinelPass.Relay
