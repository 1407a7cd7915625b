import SentinelPass.Relay.Admin
import SentinelPass.Sync.Mac

/-!
# Pairing and device membership

`handlers/pairing.rs`, `handlers/pairing_v2.rs`, `handlers/devices.rs` and
`pairing_security.rs`: a device uploads an encrypted bootstrap, a joiner proves
that it knows the secret and retrieves it, a registration proof is staged, and
`register_device` consumes the proof when the vault already has devices.

Argon2id, Ed25519, SHA-256 and the URL-safe Base64 reader are fields of
`RelayEnv`; salts are arguments. Every staged proof carries the number of its
staging in `serial`, which no handler reads.
-/

namespace SentinelPass.Relay

open Lib Option Base64

/-! ## Configuration and external functions -/

/-- `RelayConfig`, as far as these handlers and the middleware read it. -/
structure RelayConfig where
  nonceWindowSecs : Int64
  maxPayloadSize : Nat
  pairingTtlSecs : UInt64
  maxActivePairings : Nat
  pairingFetchAttemptLimit : UInt32
  (pairingFetchBackoffBaseSecs pairingFetchBackoffMaxSecs : UInt64)
  (pairingFetchAttemptRetentionSecs mutationResultTtlSecs : Int)
  maxMutationResultsPerDevice : UInt64

/-- The functions of other crates. -/
structure RelayEnv where
  crypto : Crypto
  parseUuid : Text → Option Uuid
  validKey : Bytes → Bool
  verifySignature : Bytes → Bytes → Bytes → Bool
  decodeUrlSafe : Text → Option Bytes
  argon2Hash : Bytes → Text → Option Text
  argon2Verify : Text → Text → Option Bool

variable (E : RelayEnv)

/-! ## Tokens and proofs -/

def hashBytesHex (b : Bytes) : Text := hex (E.crypto.sha256 b).toList

def validatePairingToken (token : Text) : Except RelayError Unit :=
  if token = [] ∨ 256 < (textBytes token).length then
    .error (.badRequest "Invalid pairing token length")
  else .ok ()

/-- `hash_pairing_token`, with the salt it draws. -/
def hashPairingToken (salt : Bytes) (token : Text) : Except RelayError Text := do
  validatePairingToken token
  match E.argon2Hash salt token with
  | none => .error (.internal "Failed to hash pairing token: ")
  | some hash => .ok hash

/-- `verify_pairing_token`: Argon2id rows, and bare SHA-256 rows of old relays. -/
def verifyPairingToken (token stored : Text) : Except RelayError Bool := do
  validatePairingToken token
  if "$argon2".toList.isPrefixOf stored then
    match E.argon2Verify token stored with
    | none => .error (.database "Malformed stored pairing hash: ")
    | some matched => .ok matched
  else .ok (hashBytesHex E (textBytes token) = stored)

/-- `verify_pairing_token(…).unwrap_or(false)`. -/
def tokenMatches (token stored : Text) : Bool := verifyPairingToken E token stored = .ok true

def hashRegistrationProofB64 (proof : String) : Except RelayError Text :=
  match decode proof with
  | none => .error (.badRequest "Invalid registration proof: ")
  | some bytes =>
    if bytes.length ≠ 32 then .error (.badRequest "Registration proof must be 32 bytes")
    else .ok (hashBytesHex E bytes)

/-! ## Tables -/

/-- A row of `pairing_bootstraps`. -/
structure PairingBootstrap where
  vaultId : Uuid
  (encryptedBootstrap pairingSalt : Bytes)
  expiresAt : Int
  consumed : Bool

/-- A row of `pairing_bootstraps_v2`. -/
structure PairingBootstrapV2 where
  vaultId : Uuid
  secretHash : Text
  (encryptedBootstrap registrationProof : Bytes)
  expiresAt : Int
  consumed : Bool
  receivedAt : Int

/-- A row of `pairing_fetch_attempts`. -/
structure FetchAttempt where
  (attempts firstAttemptAt lastAttemptAt blockedUntil : Int)

/-- A row of `pairing_registration_proofs`, with the number of its staging. -/
structure RegistrationProof where
  pairingTokenHash : Text
  vaultId : Uuid
  expiresAt : Int
  consumed : Bool
  serial : Nat

/-- The pairing tables, and how many proofs were staged so far. -/
structure PairingDb where
  bootstraps : Table Text PairingBootstrap
  bootstrapsV2 : Table Text PairingBootstrapV2
  fetchAttempts : Table Text FetchAttempt
  proofs : Table Text RegistrationProof
  staged : Nat

def PairingDb.empty : PairingDb := ⟨.empty, .empty, .empty, .empty, 0⟩

/-- `INSERT INTO pairing_registration_proofs`. -/
def stageProof (p : PairingDb) (proofHash tokenHash : Text) (vault : Uuid) (expiresAt : Int) :
    Except RelayError PairingDb :=
  match p.proofs.insert? proofHash ⟨tokenHash, vault, expiresAt, false, p.staged⟩ with
  | none =>
    .error (.database "UNIQUE constraint failed: pairing_registration_proofs.proof_hash")
  | some proofs => .ok { p with proofs := proofs, staged := p.staged + 1 }

/-! ## Uploads -/

structure UploadBootstrapRequest where
  pairingToken : Text
  (encryptedBootstrap pairingSalt registrationProof : String)

def uploadBootstrap (cfg : RelayConfig) (s : RelayState) (p : PairingDb) (device : Uuid)
    (req : UploadBootstrapRequest) (salt : Bytes) (now : Int) : Except RelayError PairingDb :=
  match decode req.encryptedBootstrap with
  | none => .error (.badRequest "Invalid bootstrap: ")
  | some encrypted =>
    match decode req.pairingSalt with
    | none => .error (.badRequest "Invalid salt: ")
    | some pairingSalt => do
      let tokenHash ← hashPairingToken E salt req.pairingToken
      let proofHash ← hashRegistrationProofB64 E req.registrationProof
      let expiresAt := now + cfg.pairingTtlSecs.toInt64.toInt
      match s.deviceVault device with
      | none => .error (.auth "Unknown device")
      | some vault =>
        let active := p.bootstraps.rows.countP fun row =>
          now < row.2.expiresAt && row.2.consumed = false
        if cfg.maxActivePairings ≤ active then .error (.conflict "Too many active pairings")
        else
          match p.bootstraps.insert? tokenHash
              ⟨vault, encrypted, pairingSalt, expiresAt, false⟩ with
          | none =>
            .error (.database "UNIQUE constraint failed: pairing_bootstraps.pairing_token")
          | some bootstraps =>
            stageProof { p with bootstraps := bootstraps } proofHash tokenHash vault expiresAt

/-- A validated pairing secret: its bootstrap id, and its text. -/
structure PairingSecret where
  (id raw : Text)

def parseSecret (encoded : Text) : Except RelayError PairingSecret :=
  match E.decodeUrlSafe (trim encoded) with
  | none => .error (.badRequest "invalid pairing secret encoding: ")
  | some bytes =>
    if bytes.length ≠ 32 then .error (.badRequest "pairing secret must be 32 bytes")
    else .ok ⟨hex ((E.crypto.sha256 bytes).toList.take 16), trim encoded⟩

structure UploadBootstrapV2Request where
  secret : Text
  (encryptedBootstrap registrationProof : String)

/-- `upload_bootstrap_v2`. A bootstrap that is replaced keeps its vault. -/
def uploadBootstrapV2 (cfg : RelayConfig) (s : RelayState) (p : PairingDb) (device : Uuid)
    (req : UploadBootstrapV2Request) (salt : Bytes) (now : Int) : Except RelayError PairingDb := do
  let secret ← parseSecret E req.secret
  match decode req.encryptedBootstrap with
  | none => .error (.badRequest "invalid bootstrap: ")
  | some encrypted =>
    if 65536 < encrypted.length then .error (.badRequest "bootstrap exceeds the maximum size")
    else
      match decode req.registrationProof with
      | none => .error (.badRequest "invalid registration proof: ")
      | some proof =>
        if proof.length ≠ 32 then .error (.badRequest "registration proof must be 32 bytes")
        else do
          let secretHash ← hashPairingToken E salt secret.raw
          let expiresAt := now + cfg.pairingTtlSecs.toInt64.toInt
          match s.deviceVault device with
          | none => .error (.auth "Unknown device")
          | some vault =>
            let active := p.bootstrapsV2.rows.countP fun row =>
              now < row.2.expiresAt && row.2.consumed = false
            if cfg.maxActivePairings ≤ active then
              .error (.conflict "Too many active pairings")
            else if (p.bootstrapsV2.get? secret.id).any (·.consumed) then
              .error (.conflict "pairing bootstrap already consumed")
            else
              let row : PairingBootstrapV2 :=
                ⟨vault, secretHash, encrypted, proof, expiresAt, false, now⟩
              .ok { p with bootstrapsV2 := p.bootstrapsV2.upsert secret.id row fun old =>
                { row with vaultId := old.vaultId } }

/-! ## Retrieval -/

/-- What counting an attempt led to; `blocked` writes nothing. -/
inductive AttemptOutcome
  | blocked
  | limited (p : PairingDb)
  | allowed (p : PairingDb)

def countAttempt (cfg : RelayConfig) (p : PairingDb) (lookup : Text) (now : Int) : AttemptOutcome :=
  let state := p.fetchAttempts.get? lookup
  if state.any fun row => now < row.blockedUntil then .blocked
  else
    let attempts := (state.map fun row => row.attempts + 1).getD 1
    let counted := p.fetchAttempts.upsert lookup ⟨attempts, now, now, 0⟩ fun row =>
      { row with attempts := attempts, lastAttemptAt := now }
    let limit : Int := max cfg.pairingFetchAttemptLimit.toNat 1
    if limit < attempts then
      -- the excess is cast to `u32`; the product saturates, and the maximum fits
      let overflow := (max (attempts - limit - 1) 0).toNat % 2 ^ 32
      let base := max cfg.pairingFetchBackoffBaseSecs.toNat 1
      let longest := max cfg.pairingFetchBackoffMaxSecs.toNat base
      let backoff := UInt64.ofNat (min (base * 2 ^ min overflow 16) longest)
      .limited { p with fetchAttempts := counted.update lookup fun row =>
        { row with blockedUntil := now + backoff.toInt64.toInt } }
    else .allowed { p with fetchAttempts := counted }

/-- A bare SHA-256 row is moved to its Argon2id hash: the key of the row and the
table afterwards. -/
def upgradeBootstrap (bootstraps : Table Text PairingBootstrap) (stored : Text)
    (hash : Except RelayError Text) : Option (Text × Table Text PairingBootstrap) :=
  if "$argon2".toList.isPrefixOf stored then some (stored, bootstraps)
  else
    match hash with
    | .error _ => some (stored, bootstraps)
    | .ok hash =>
      (bootstraps.get? stored).bind fun row =>
        ((bootstraps.erase stored).insert? hash row).map fun moved => (hash, moved)

/-- `fetch_bootstrap`: the bootstrap and its salt, encoded. -/
def fetchBootstrap (cfg : RelayConfig) (p : PairingDb) (token : Text) (salt : Bytes) (now : Int) :
    Except RelayError (String × String) × PairingDb :=
  let lookup := hashBytesHex E (textBytes token)
  match countAttempt cfg p lookup now with
  | .blocked => (.error .rateLimited, p)
  | .limited counted => (.error .rateLimited, counted)
  | .allowed counted =>
    let candidate := counted.bootstraps.rows.find? fun row =>
      now < row.2.expiresAt && row.2.consumed = false && tokenMatches E token row.1
    match candidate with
    | none => (.error (.notFound "Pairing token not found or expired"), counted)
    | some (stored, row) =>
      match upgradeBootstrap counted.bootstraps stored (hashPairingToken E salt token) with
      | none => (.error (.database "UNIQUE constraint failed: pairing_bootstraps.pairing_token"), p)
      | some (key, bootstraps) =>
        (.ok (encode row.encryptedBootstrap, encode row.pairingSalt), { counted with
            bootstraps := bootstraps.update key ({ · with consumed := true })
            fetchAttempts := counted.fetchAttempts.erase lookup })

/-- `retrieve_bootstrap_v2`: the bootstrap and the proof, encoded. -/
def retrieveBootstrapV2 (cfg : RelayConfig) (p : PairingDb) (encoded : Text) (salt : Bytes)
    (now : Int) : Except RelayError (String × String) × PairingDb :=
  match parseSecret E encoded with
  | .error e => (.error e, p)
  | .ok secret =>
    let lookup := hashBytesHex E (textBytes secret.id)
    match countAttempt cfg p lookup now with
    | .blocked => (.error .rateLimited, p)
    | .limited counted => (.error .rateLimited, counted)
    | .allowed counted =>
      let stored := (counted.bootstrapsV2.get? secret.id).filter fun row =>
        now < row.expiresAt && row.consumed = false && tokenMatches E secret.raw row.secretHash
      match stored with
      | none => (.error (.notFound "pairing bootstrap not found or expired"), counted)
      | some row =>
        let consumed := { counted with
          bootstrapsV2 := counted.bootstrapsV2.update secret.id ({ · with consumed := true })
          fetchAttempts := counted.fetchAttempts.erase lookup }
        let staged := do
          let proofHash ← hashRegistrationProofB64 E (encode row.registrationProof)
          let tokenHash ← hashPairingToken E salt secret.raw
          stageProof consumed proofHash tokenHash row.vaultId (now + 300)
        match staged with
        | .error e => (.error e, p)
        | .ok after =>
          (.ok (encode row.encryptedBootstrap, encode row.registrationProof), after)

/-! ## Membership -/

/-- `RegisterDeviceRequest`, with the pairing fields. -/
structure JoinRequest where
  device : RegisterDeviceRequest
  pairingToken : Option Text
  registrationProof : Option String

def hasDevices (s : RelayState) (vault : Uuid) : Bool :=
  s.devices.rows.any fun row => row.2.vaultId = vault

/-- The proof a joiner presents, checked and consumed. -/
def consumeProof (p : PairingDb) (req : JoinRequest) (now : Int) :
    Except RelayError (PairingDb × RegistrationProof) :=
  match req.pairingToken with
  | none => .error (.auth "Pairing token required")
  | some token =>
    match req.registrationProof with
    | none => .error (.auth "Registration proof required")
    | some proof => do
      let proofHash ← hashRegistrationProofB64 E proof
      match (p.proofs.get? proofHash).filter fun row =>
          row.vaultId = req.device.vaultId && now < row.expiresAt && row.consumed = false &&
            tokenMatches E token row.pairingTokenHash with
      | none => .error (.auth "Missing or invalid pairing registration proof")
      | some row =>
        .ok ({ p with proofs := p.proofs.update proofHash ({ · with consumed := true }) }, row)

/-- What a public key must be before anything is read. -/
def checkPublicKey (publicKey : String) : Except RelayError Unit :=
  match decode publicKey with
  | none => .error (.badRequest "Invalid public key: ")
  | some bytes =>
    if bytes.length ≠ 32 then .error (.badRequest "Public key must be 32 bytes") else .ok ()

/-- `register_device` with its proof: the new tables, and the proof that was
consumed. -/
def registerDeviceWithProof (s : RelayState) (p : PairingDb) (req : JoinRequest) (now : Int) :
    Except RelayError (RelayState × PairingDb × Option RegistrationProof) := do
  checkPublicKey req.device.publicKey
  if hasDevices s req.device.vaultId then
    let (p, row) ← consumeProof E p req now
    let s ← registerDevice s req.device true now
    .ok (s, p, some row)
  else
    let s ← registerDevice s req.device false now
    .ok (s, p, none)

/-- `revoke_device`. A target text that is no uuid names no device. -/
def revokeDevice (s : RelayState) (requester : Uuid) (target : Option Uuid) :
    Except RelayError RelayState :=
  match s.deviceVault requester with
  | none => .error (.notFound "Requester device not found")
  | some requesterVault =>
    match target.bind fun t => (s.deviceVault t).map fun v => (t, v) with
    | none => .error (.notFound "Target device not found")
    | some (target, targetVault) =>
      if requesterVault ≠ targetVault then
        .error (.auth "Cannot revoke device from different vault")
      else .ok { s with devices := s.devices.update target ({ · with revoked := true }) }

/-- `run_cleanup` on the pairing tables. -/
def cleanupPairing (cfg : RelayConfig) (p : PairingDb) (now : Int) : PairingDb :=
  let cutoff := now - max cfg.pairingFetchAttemptRetentionSecs 60
  { p with
    bootstraps := p.bootstraps.filter fun _ row => ¬ (row.expiresAt < now ∨ row.consumed = true)
    bootstrapsV2 := p.bootstrapsV2.filter fun _ row => ¬ (row.expiresAt < now ∨ row.consumed = true)
    proofs := p.proofs.filter fun _ row => ¬ (row.expiresAt < now ∨ row.consumed = true)
    fetchAttempts := p.fetchAttempts.filter fun _ row =>
      ¬ ((row.blockedUntil ≤ now ∧ row.lastAttemptAt < cutoff) ∨ row.lastAttemptAt < cutoff) }

/-! ## What the handlers do to proofs and devices -/

section Inversion

variable {E} {s s' : RelayState} {p p' : PairingDb} {now : Int}

/-- Proofs only go, or one more is staged. -/
inductive ProofChange (p p' : PairingDb) : Prop
  | kept (hstaged : p'.staged = p.staged)
      (hrows : ∀ hash row, p'.proofs.get? hash = some row → p.proofs.get? hash = some row)
  | staged (proofHash : Text) (row : RegistrationProof) (hstaged : p'.staged = p.staged + 1)
      (hserial : row.serial = p.staged)
      (hrows : ∀ hash, p'.proofs.get? hash
        = if hash = proofHash then some row else p.proofs.get? hash)

theorem ProofChange.refl (p) : ProofChange p p := .kept rfl fun _ _ h => h

theorem stageProof_ok {proofHash tokenHash vault expiresAt}
    (h : stageProof p proofHash tokenHash vault expiresAt = .ok p') : ProofChange p p' := by
  unfold stageProof at h
  split at h
  · cases h
  rename_i proofs hins
  cases h
  exact .staged proofHash _ rfl rfl (Table.insert?_eq_some hins).2.2

variable {cfg : RelayConfig} {salt : Bytes} {device : Uuid}

theorem uploadBootstrap_ok {req}
    (h : uploadBootstrap E cfg s p device req salt now = .ok p') : ProofChange p p' := by
  unfold uploadBootstrap at h
  split at h
  · cases h
  split at h
  · cases h
  obtain ⟨tokenHash, -, h⟩ := bind_ok h
  obtain ⟨proofHash, -, h⟩ := bind_ok h
  split at h
  · cases h
  obtain ⟨-, h⟩ := ite_error_eq_ok.mp h
  split at h
  · cases h
  rcases stageProof_ok h with ⟨hstaged, hrows⟩ | ⟨hash, row, hstaged, hserial, hrows⟩
  · exact .kept hstaged hrows
  · exact .staged hash row hstaged hserial hrows

theorem uploadBootstrapV2_ok {req} (h : uploadBootstrapV2 E cfg s p device req salt now = .ok p') :
    p'.proofs = p.proofs ∧ p'.staged = p.staged := by
  obtain ⟨secret, -, h⟩ := bind_ok h
  split at h
  · cases h
  obtain ⟨-, h⟩ := ite_error_eq_ok.mp h
  split at h
  · cases h
  obtain ⟨-, h⟩ := ite_error_eq_ok.mp h
  obtain ⟨secretHash, -, h⟩ := bind_ok h
  split at h
  · cases h
  obtain ⟨-, h⟩ := ite_error_eq_ok.mp h
  obtain ⟨-, h⟩ := ite_error_eq_ok.mp h
  cases h
  exact ⟨rfl, rfl⟩

theorem countAttempt_proofs {lookup counted}
    (h : countAttempt cfg p lookup now = .limited counted ∨
      countAttempt cfg p lookup now = .allowed counted) :
    counted.proofs = p.proofs ∧ counted.staged = p.staged := by
  unfold countAttempt at h
  dsimp only at h
  split at h
  · rcases h with h | h <;> cases h
  split at h
  · rcases h with h | h
    · cases h
      exact ⟨rfl, rfl⟩
    · cases h
  · rcases h with h | h
    · cases h
    · cases h
      exact ⟨rfl, rfl⟩

theorem proofChange_of_eq (h : p'.proofs = p.proofs ∧ p'.staged = p.staged) : ProofChange p p' :=
  .kept h.2 fun hash row hrow => by rw [← h.1]; exact hrow

theorem fetchBootstrap_proofs {token : Text} :
    ProofChange p (fetchBootstrap E cfg p token salt now).2 := by
  unfold fetchBootstrap
  dsimp only
  split
  · exact .refl p
  · next counted hcount => exact proofChange_of_eq (countAttempt_proofs (.inl hcount))
  · next counted hcount =>
    have hsame := countAttempt_proofs (.inr hcount)
    split
    · exact proofChange_of_eq hsame
    · split
      · exact .refl p
      · exact proofChange_of_eq hsame

theorem retrieveBootstrapV2_proofs {encoded : Text} :
    ProofChange p (retrieveBootstrapV2 E cfg p encoded salt now).2 := by
  unfold retrieveBootstrapV2
  split
  · exact .refl p
  · next secret hsecret =>
    dsimp only
    split
    · exact .refl p
    · next counted hcount => exact proofChange_of_eq (countAttempt_proofs (.inl hcount))
    · next counted hcount =>
      obtain ⟨hproofs, hstaged⟩ := countAttempt_proofs (.inr hcount)
      split
      · exact proofChange_of_eq ⟨hproofs, hstaged⟩
      · split
        · exact .refl p
        · next after hafter =>
          obtain ⟨proofHash, -, hafter⟩ := bind_ok hafter
          obtain ⟨tokenHash, -, hafter⟩ := bind_ok hafter
          -- staged on top of the counted table, whose proofs are the old ones
          have hchange := stageProof_ok hafter
          rcases hchange with ⟨hs, hrows⟩ | ⟨hash, row, hs, hserial, hrows⟩
          · refine .kept (hs.trans hstaged) fun hash row hrow => ?_
            rw [← hproofs]
            exact hrows hash row hrow
          · refine .staged hash row (hs.trans (by rw [← hstaged])) (hserial.trans hstaged) ?_
            intro hash'
            rw [← hproofs]
            exact hrows hash'

theorem cleanupPairing_proofs : ProofChange p (cleanupPairing cfg p now) := by
  refine .kept rfl fun hash row hrow => ?_
  have hfilter :
    (p.proofs.filter fun _ row => ¬ (row.expiresAt < now ∨ row.consumed = true)).get? hash
      = some row := hrow
  rw [Table.get?_filter] at hfilter
  exact (filter_eq_some_iff.mp hfilter).1

theorem consumeProof_ok {req row} (h : consumeProof E p req now = .ok (p', row)) :
    ∃ proofHash, p.proofs.get? proofHash = some row ∧ row.vaultId = req.device.vaultId ∧
      now < row.expiresAt ∧ row.consumed = false ∧ p'.staged = p.staged ∧
      ∀ hash, p'.proofs.get? hash =
        if hash = proofHash then some { row with consumed := true } else p.proofs.get? hash := by
  unfold consumeProof at h
  split at h
  · cases h
  split at h
  · cases h
  obtain ⟨proofHash, -, h⟩ := bind_ok h
  split at h
  · cases h
  rename_i row' hrow
  cases h
  obtain ⟨hget, hok⟩ := filter_eq_some_iff.mp hrow
  simp only [Bool.and_eq_true, decide_eq_true_eq] at hok
  refine ⟨proofHash, hget, hok.1.1.1, hok.1.1.2, hok.1.2, rfl, ?_⟩
  intro hash
  show (p.proofs.update proofHash _).get? hash = _
  rw [Table.get?_update, hget]
  rfl

theorem registerDeviceWithProof_ok {req used}
    (h : registerDeviceWithProof E s p req now = .ok (s', p', used)) :
    ((hasDevices s req.device.vaultId = true ∧
        ∃ row, used = some row ∧ consumeProof E p req now = .ok (p', row)) ∨
      (hasDevices s req.device.vaultId = false ∧ used = none ∧ p' = p)) ∧
    ∃ publicKey, decode req.device.publicKey = some publicKey ∧
      s'.devices = s.devices.upsert req.device.deviceId
        ⟨req.device.vaultId, req.device.deviceName, req.device.deviceType, publicKey, now, false⟩
        ({ · with deviceName := req.device.deviceName }) := by
  obtain ⟨_, -, h⟩ := bind_ok h
  split at h
  · next hhas =>
    obtain ⟨⟨p1, row⟩, hconsume, h⟩ := bind_ok h
    obtain ⟨s1, hreg, h⟩ := bind_ok h
    cases h
    obtain ⟨publicKey, hkey, rfl⟩ := registerDevice_ok hreg
    exact ⟨.inl ⟨hhas, row, rfl, hconsume⟩, publicKey, hkey, rfl⟩
  · next hhas =>
    obtain ⟨s1, hreg, h⟩ := bind_ok h
    cases h
    obtain ⟨publicKey, hkey, rfl⟩ := registerDevice_ok hreg
    exact ⟨.inr ⟨by simpa using hhas, rfl, rfl⟩, publicKey, hkey, rfl⟩

theorem revokeDevice_ok {requester target} (h : revokeDevice s requester target = .ok s') :
    ∃ device row, target = some device ∧ s.devices.get? device = some row ∧
      s' = { s with devices := s.devices.update device ({ · with revoked := true }) } := by
  unfold revokeDevice at h
  split at h
  · cases h
  split at h
  · cases h
  rename_i device vault hbind
  obtain ⟨t, rfl, hbind⟩ := bind_eq_some_iff.mp hbind
  obtain ⟨v, hv, hpair⟩ := map_eq_some_iff.mp hbind
  cases hpair
  obtain ⟨row, hrow, -⟩ := map_eq_some_iff.mp hv
  obtain ⟨-, h⟩ := ite_error_eq_ok.mp h
  cases h
  exact ⟨device, row, rfl, hrow, rfl⟩

end Inversion

end SentinelPass.Relay
