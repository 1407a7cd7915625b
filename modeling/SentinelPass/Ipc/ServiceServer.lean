import SentinelPass.Ipc.ServiceGrants
import SentinelPass.Ipc.StepUp

/-!
# The service secret handlers

The handlers of `ServiceGetSecret`, `ServiceGrantCreate`, `ServiceGrantRevoke`,
`ServiceEnrollmentBegin` and `ServiceEnrollmentComplete` (`ipc/server.rs`), with
`enrollment.rs` and `exe_policy.rs`.

A handler runs without interruption between two waits, and a write of the store
runs under the store lock, so the machine `grantServer` has a step for each of
those stretches: a request for a secret starts, loads the store, has its
executable checked and fetches the entry; an enrollment is taken up, and ends
when `gpg` has answered. In between anything else may happen, the vault may be
locked, the daemon restarted, the power cut, the file replaced.

The history keeps the grants as minted, the enrollments that were verified, the
revocations that were answered `revoked`, and the secrets that were handed out.
-/

namespace SentinelPass.Ipc

open Lib ServiceField

/-! ## Reports -/

inductive ServiceStatus
  | authorized
  | denied
  | locked
  | notFound
  | storeError
  | revoked
deriving DecidableEq

/-- The reports of the handlers; `secret` is `service_secret_report`. -/
inductive ServiceReport
  | secret (status : ServiceStatus) (value error : Option Text)
  | created (grantId : Uuid) (clientToken : Text) (expiresAt : Option DateTime)
      (requiredExeSha256 : Option (List Text))
  | pendingEnrollment (grantId : Uuid) (expiresAt : Option DateTime)
      (requiredExeSha256 : Option (List Text)) (registrationKeyFingerprint : Text)
  | challenge (nonce : Text) (transcript : Bytes)
  | enrolled (grantId : Uuid) (clientToken : Text)
deriving DecidableEq

namespace ServiceReport

def denied (error : Text) : ServiceReport := .secret .denied none (some error)

def locked : ServiceReport := .secret .locked none none

def notFound : ServiceReport := .secret .notFound none none

def storeUnavailable (e : Text) : ServiceReport :=
  denied ("grant store unavailable (fail closed): ".toList ++ e)

end ServiceReport

/-! ## The vault -/

/-- What a service may be given of an entry. -/
structure ServiceEntry where
  (title username password : Text)

def ServiceEntry.get (entry : ServiceEntry) : ServiceField → Text
  | .username => entry.username
  | .password => entry.password
  | .title => entry.title

inductive EntryError
  | notFound
  | other (e : Text)

/-- The open vault: its data key and its entries. -/
structure OpenVault where
  dek : Dek
  getEntry : Int64 → Except EntryError ServiceEntry

section Handlers

variable {π φ : Type} (E : GrantEnv π φ)

def serviceGrantStoreKey (vault : Option OpenVault) : Except ServiceReport Bytes :=
  match vault with
  | none => .error .locked
  | some v => .ok (E.storeKey v.dek)

/-! ## `service_get_secret` -/

structure SecretRequest where
  pid : Option UInt32
  clientId : Text
  entryId : Int64
  (field token : Text)

def authorizeRequest (vault : Option OpenVault) (file : StoreFile φ) (r : SecretRequest)
    (order : MapOrder ServiceGrant) (now : DateTime) :
    Except ServiceReport (ServiceField × ServiceGrantStore × ServiceGrant) := do
  let key ← serviceGrantStoreKey E vault
  match parse r.field with
  | none => .error (.denied
      ("unknown field ".toList ++ E.debugStr r.field ++ " (username, password, title)".toList))
  | some field =>
    match loadFromPath E file key with
    | .error e => .error (.storeUnavailable e)
    | .ok store =>
      match store.authorize E order r.clientId r.token r.entryId field now with
      | none => .error (.secret .denied none none)
      | some grant => .ok (field, store, grant)

inductive ExePolicyResult
  | notRequired
  | matched
  | mismatch
  | evidenceUnavailable (reason : Text)

/-- `check_policy`; `digest` is what `resolve_exe_digest` finds for the peer. -/
def checkPolicy (pins : List Text) (pid : Option UInt32) (digest : Except Text Text) :
    ExePolicyResult :=
  if pins.isEmpty then .notRequired
  else
    match pid, digest with
    | none, _ => .evidenceUnavailable "peer pid unavailable on this platform".toList
    | some _, .error reason => .evidenceUnavailable reason
    | some _, .ok digest =>
      if pins.any fun pin =>
        (textBytes pin).length = (textBytes digest).length && textBytes pin = textBytes digest
      then .matched
      else .mismatch

def enforcePolicy (grant : ServiceGrant) (pid : Option UInt32) (digest : Except Text Text) :
    Except ServiceReport Unit :=
  match checkPolicy grant.requiredExePolicy pid digest with
  | .matched | .notRequired => .ok ()
  | .mismatch => .error (.denied
      "executable policy mismatch (this process is not an approved binary)".toList)
  | .evidenceUnavailable reason => .error (.denied
      ("executable evidence unavailable (fail closed): ".toList ++ reason))

def fetchSecret (vault : Option OpenVault) (entryId : Int64) (field : ServiceField) :
    Except ServiceReport Text :=
  match vault with
  | none => .error .locked
  | some v =>
    match v.getEntry entryId with
    | .ok entry => .ok (entry.get field)
    | .error .notFound => .error .notFound
    | .error (.other e) => .error (.denied ("entry lookup failed: ".toList ++ e))

/-! ## `service_grant_create` and `service_grant_revoke` -/

structure CreateRequest where
  clientId : Text
  entryId : Int64
  fields : List Text
  expiresAt : Option Int64
  requiredExeSha256 : Option (List Text)
  registrationKeyFingerprint : Option Text

/-- The fields of the request, the first unknown one refused. -/
def parseFields (fields : List Text) : Except ServiceReport (List ServiceField) :=
  fields.mapM fun f =>
    match parse f with
    | some field => .ok field
    | none => .error (.denied (invalidInput "unknown field " ++ E.debugStr f))

/-- The random draws of a handler that makes a token. -/
structure Drawn where
  grantId : Uuid
  random : Vector UInt8 32
  now : DateTime

def createGrant (vault : Option OpenVault) (file : StoreFile φ) (r : CreateRequest)
    (drawn : Drawn) :
    Except ServiceReport (Bytes × ServiceGrant × Text × ServiceGrantStore) := do
  let key ← serviceGrantStoreKey E vault
  let fields ← parseFields E r.fields
  if fields.isEmpty then .error (.denied "a grant must name at least one field".toList)
  else if r.expiresAt.isSome ∧ (r.expiresAt.bind E.fromTimestamp).isNone then
    .error (.denied "expires_at out of range".toList)
  else
    match loadFromPath E file key with
    | .error e => .error (.storeUnavailable e)
    | .ok store =>
      let spec : ServiceGrantStore.GrantSpec :=
        ⟨r.clientId, r.entryId, fields, r.expiresAt.bind E.fromTimestamp, r.requiredExeSha256,
          r.registrationKeyFingerprint⟩
      match store.mintGrant E spec drawn.grantId drawn.random drawn.now with
      | .error e => .error (.denied e)
      | .ok (grant, token, store) => .ok (key, grant, token, store)

def createReport (grant : ServiceGrant) (token : Text) : ServiceReport :=
  match grant.registrationKeyFingerprint with
  | some fingerprint =>
    .pendingEnrollment grant.grantId grant.expiresAt grant.requiredExeSha256 fingerprint
  | none => .created grant.grantId token grant.expiresAt grant.requiredExeSha256

/-- The report when the store has been written, or not. -/
def saveReport (result : SaveResult) (report : ServiceReport) : ServiceReport :=
  match result with
  | .saved => report
  | .unpublished e | .unsynced e => .secret .storeError none (some e)

def revokeGrant (vault : Option OpenVault) (file : StoreFile φ) (grantIdStr : Text)
    (now : DateTime) : Except ServiceReport (Bytes × Uuid × ServiceGrantStore) := do
  let key ← serviceGrantStoreKey E vault
  match E.parseUuid grantIdStr with
  | none => .error (.denied "malformed grant id".toList)
  | some grantId =>
    match loadFromPath E file key with
    | .error e => .error (.storeUnavailable e)
    | .ok store =>
      match store.revoke grantId now with
      | none => .error .notFound
      | some store => .ok (key, grantId, store)

/-! ## Enrollment -/

def enrollmentTtl : Nat := seconds 300

structure EnrollmentChallenge where
  clientId : Text
  grantId : Uuid
  transcript : Bytes
  expires : Instant

/-- The grant `service_enrollment_begin` takes: the first of the client's. -/
def pendingGrant (store : ServiceGrantStore) (order : MapOrder ServiceGrant) (clientId : Text) :
    Option ServiceGrant :=
  (store.values order).find? fun g =>
    g.clientId = clientId && g.revokedAt.isNone && g.registrationKeyFingerprint.isSome

/-- `EnrollmentState::begin` for a grant: the challenge and the table it goes to. -/
def EnrollmentChallenge.issue (challenges : Table Text EnrollmentChallenge) (clientId : Text)
    (grant : ServiceGrant) (random : Vector UInt8 32) (pruneNow now : Instant) :
    Text × Bytes × Table Text EnrollmentChallenge :=
  let nonce := hex random.toList
  let transcript := E.transcriptToVec
    { clientId
      entryId := grant.entryId
      grantId := grant.grantId
      exePolicySha256 := grant.requiredExeSha256.map fun pins => [','].intercalate pins
      expiresAt := grant.expiresAt.map fun e => e / 1000000000
      fields := grant.fields.map asStr
      nonce
      registrationKeyFingerprint := grant.registrationKeyFingerprint.getD [] }
  let challenge : EnrollmentChallenge := ⟨clientId, grant.grantId, transcript, now + enrollmentTtl⟩
  (nonce, transcript,
    (challenges.filter fun _ c => pruneNow < c.expires).upsert nonce challenge fun _ => challenge)

/-- `service_enrollment_begin`. -/
def enrollmentBegin (vault : Option OpenVault) (file : StoreFile φ)
    (challenges : Table Text EnrollmentChallenge) (clientId : Text) (order : MapOrder ServiceGrant)
    (random : Vector UInt8 32) (pruneNow now : Instant) :
    ServiceReport × Table Text EnrollmentChallenge :=
  match serviceGrantStoreKey E vault with
  | .error report => (report, challenges)
  | .ok key =>
    match loadFromPath E file key with
    | .error e => (.denied ("grant store unavailable: ".toList ++ e), challenges)
    | .ok store =>
      match pendingGrant store order clientId with
      | none =>
        (.denied ("no enrollment-pending grant for client '".toList ++ clientId ++ "'".toList),
          challenges)
      | some grant =>
        match EnrollmentChallenge.issue E challenges clientId grant random pruneNow now with
        | (nonce, transcript, challenges) => (.challenge nonce transcript, challenges)

/-- How the run of `gpg` ends. -/
inductive GpgOutcome
  | notRun (error : Text)
  | importFailed (stderr : Text)
  | verifyFailed (stderr : Text)
  | verified (status : Text)

def splitWhitespace (t : Text) : List Text :=
  (t.splitOnP isWhitespace).filter fun piece => !piece.isEmpty

def eqIgnoreAsciiCase (a b : Text) : Bool := a.map Char.toLower = b.map Char.toLower

/-- The status lines of `gpg`. -/
def scanStatus (expected : Text) : List Text → Except Text Unit
  | [] => .error "gpg did not report a valid signature status".toList
  | line :: rest =>
    if "[GNUPG:] VALIDSIG ".toList.isPrefixOf line then
      match splitWhitespace line with
      | _ :: _ :: fingerprint :: _ =>
        if eqIgnoreAsciiCase fingerprint expected then .ok ()
        else .error ("signing key fingerprint mismatch: expected ".toList ++ expected
          ++ ", got ".toList ++ fingerprint)
      | _ => scanStatus expected rest
    else if "[GNUPG:] BADSIG".toList.isPrefixOf line then
      .error "signature does not match the transcript".toList
    else if "[GNUPG:] ERRSIG".toList.isPrefixOf line then
      .error "signature verification error".toList
    else if "[GNUPG:] NO_PUBKEY".toList.isPrefixOf line then
      .error "client public key not available in isolated keyring".toList
    else scanStatus expected rest

/-- `verify_signature`, given what `gpg` makes of the key, the transcript and the
signature. -/
def verifySignature (outcome : GpgOutcome) (expected : Text) : Except Text Unit :=
  match outcome with
  | .notRun error => .error error
  | .importFailed stderr => .error ("cannot import client public key: ".toList ++ stderr.take 200)
  | .verifyFailed stderr => .error ("gpg verification failed: ".toList ++ stderr.take 200)
  | .verified status => scanStatus expected (lines status)

/-- An enrollment while `gpg` runs. -/
structure PendingVerification where
  challenge : EnrollmentChallenge
  fingerprint : Text

/-- `EnrollmentState::take`. -/
def takeChallenge (challenges : Table Text EnrollmentChallenge) (nonce : Text) (now : Instant) :
    Option EnrollmentChallenge × Table Text EnrollmentChallenge :=
  ((challenges.get? nonce).filter fun c => now < c.expires, challenges.erase nonce)

/-- `service_enrollment_complete` up to the verification. -/
def enrollmentTake (vault : Option OpenVault) (file : StoreFile φ)
    (challenge : Option EnrollmentChallenge) (clientId : Text) :
    Except ServiceReport PendingVerification :=
  match challenge with
  | none => .error (.denied "enrollment challenge unknown, expired, or already used".toList)
  | some challenge =>
    if challenge.clientId ≠ clientId then
      .error (.denied "enrollment challenge does not belong to this client".toList)
    else do
      let key ← serviceGrantStoreKey E vault
      match loadFromPath E file key with
      | .error e => .error (.denied ("grant store unavailable: ".toList ++ e))
      | .ok store =>
        match store.grants.get? challenge.grantId with
        | none => .error .notFound
        | some grant => .ok ⟨challenge, grant.registrationKeyFingerprint.getD []⟩

def enrollmentRotate (vault : Option OpenVault) (file : StoreFile φ) (p : PendingVerification)
    (outcome : GpgOutcome) (random : Vector UInt8 32) :
    Except ServiceReport (Bytes × Text × ServiceGrantStore) :=
  match verifySignature outcome p.fingerprint with
  | .error reason => .error (.denied ("OpenPGP verification failed: ".toList ++ reason))
  | .ok _ => do
    let key ← serviceGrantStoreKey E vault
    match loadFromPath E file key with
    | .error e => .error (.denied ("grant store unavailable: ".toList ++ e))
    | .ok store =>
      match store.grants.get? p.challenge.grantId with
      | none => .error .notFound
      | some grant =>
        if grant.revokedAt.isSome then
          .error (.denied "grant was revoked during enrollment verification".toList)
        else
          match store.rotateToken E p.challenge.grantId random with
          | none => .error .notFound
          | some (token, store) => .ok (key, token, store)

end Handlers

/-! ## The daemon -/

/-- An enrollment whose signature was verified. -/
structure Enrollment where
  grantId : Uuid
  fingerprint : Text
  outcome : GpgOutcome

/-- A request that was authorized: what it found when, and the enrollments until then. -/
structure Loaded where
  field : ServiceField
  store : ServiceGrantStore
  grant : ServiceGrant
  time : DateTime
  enrolled : List Enrollment

inductive SecretPhase
  | started
  | policy (loaded : Loaded)
  | fetch (loaded : Loaded) (digest : Option Text)

/-- A request in progress; `before` are the revocations answered when it started. -/
structure InFlight where
  request : SecretRequest
  before : List Uuid
  phase : SecretPhase

/-- A request answered `authorized`. -/
structure Delivery where
  request : SecretRequest
  before : List Uuid
  loaded : Loaded
  digest : Option Text
  value : Text

/-- The daemon and the store's file; then the history. -/
structure GrantServer (φ : Type) where
  vault : Option OpenVault
  fs : StoreFs φ
  challenges : Table Text EnrollmentChallenge
  requests : List InFlight
  verifying : List PendingVerification
  minted : List ServiceGrant
  enrolled : List Enrollment
  revoked : List Uuid
  delivered : List Delivery

namespace GrantServer

variable {φ : Type}

def start (vault : Option OpenVault) : GrantServer φ :=
  ⟨vault, ⟨.absent, []⟩, .empty, [], [], [], [], [], []⟩

def forget (s : GrantServer φ) : GrantServer φ :=
  { s with vault := none, challenges := .empty, requests := [], verifying := [] }

end GrantServer

/-- `vault` is any change of the vault, a lock or an unlock among them. `load`,
`exe` and `fetch` continue request `i`, `verified` enrollment `i`. `tamper` puts
another file at the store's path. -/
inductive GrantAction (φ : Type)
  | vault (v : Option OpenVault)
  | create (r : CreateRequest) (drawn : Drawn) (order : MapOrder ServiceGrant)
      (fault : Option SaveFault)
  | revoke (grantId : Text) (now : DateTime) (order : MapOrder ServiceGrant)
      (fault : Option SaveFault)
  | begin (clientId : Text) (order : MapOrder ServiceGrant) (random : Vector UInt8 32)
      (pruneNow now : Instant)
  | complete (clientId nonce : Text) (now : Instant)
  | verified (i : Nat) (outcome : GpgOutcome) (random : Vector UInt8 32)
      (order : MapOrder ServiceGrant) (fault : Option SaveFault)
  | request (r : SecretRequest)
  | load (i : Nat) (order : MapOrder ServiceGrant) (now : DateTime)
  | exe (i : Nat) (digest : Except Text Text)
  | fetch (i : Nat)
  | restart
  | powerCut (i : Nat)
  | tamper (file : StoreFile φ)

section Machine

variable {π φ : Type} (E : GrantEnv π φ)

def grantAnswer (s : GrantServer φ) : GrantAction φ → Option (Option ServiceReport × GrantServer φ)
  | .vault v => some (none, { s with vault := v })
  | .create r drawn order fault =>
    match createGrant E s.vault s.fs.file r drawn with
    | .error report => some (some report, s)
    | .ok (key, grant, token, store) =>
      match saveToPath E s.fs (store.values order) key fault with
      | (result, fs) =>
        some (some (saveReport result (createReport grant token)),
          { s with fs, minted := s.minted ++ [grant] })
  | .revoke grantIdStr now order fault =>
    match revokeGrant E s.vault s.fs.file grantIdStr now with
    | .error report => some (some report, s)
    | .ok (key, grantId, store) =>
      match saveToPath E s.fs (store.values order) key fault with
      | (.saved, fs) =>
        some (some (.secret .revoked none none), { s with fs, revoked := s.revoked ++ [grantId] })
      | (result, fs) =>
        some (some (saveReport result (.secret .revoked none none)), { s with fs })
  | .begin clientId order random pruneNow now =>
    match enrollmentBegin E s.vault s.fs.file s.challenges clientId order random pruneNow now with
    | (report, challenges) => some (some report, { s with challenges })
  | .complete clientId nonce now =>
    match takeChallenge s.challenges nonce now with
    | (challenge, challenges) =>
      match enrollmentTake E s.vault s.fs.file challenge clientId with
      | .error report => some (some report, { s with challenges })
      | .ok p => some (none, { s with challenges, verifying := s.verifying ++ [p] })
  | .verified i outcome random order fault =>
    match s.verifying[i]? with
    | none => none
    | some p =>
      let s := { s with verifying := s.verifying.eraseIdx i }
      match enrollmentRotate E s.vault s.fs.file p outcome random with
      | .error report => some (some report, s)
      | .ok (key, token, store) =>
        match saveToPath E s.fs (store.values order) key fault with
        | (.unpublished e, fs) => some (some (.secret .storeError none (some e)), { s with fs })
        | (result, fs) =>
          some (some (saveReport result (.enrolled p.challenge.grantId token)), { s with
              fs
              enrolled := s.enrolled ++ [⟨p.challenge.grantId, p.fingerprint, outcome⟩] })
  | .request r => some (none, { s with requests := s.requests ++ [⟨r, s.revoked, .started⟩] })
  | .load i order now =>
    match s.requests[i]? with
    | some ⟨r, before, .started⟩ =>
      match authorizeRequest E s.vault s.fs.file r order now with
      | .error report => some (some report, { s with requests := s.requests.eraseIdx i })
      | .ok (field, store, grant) =>
        let loaded : Loaded := ⟨field, store, grant, now, s.enrolled⟩
        let phase : SecretPhase :=
          if grant.requiredExePolicy.isEmpty then .fetch loaded none else .policy loaded
        some (none, { s with requests := s.requests.set i ⟨r, before, phase⟩ })
    | _ => none
  | .exe i digest =>
    match s.requests[i]? with
    | some ⟨r, before, .policy loaded⟩ =>
      match enforcePolicy loaded.grant r.pid digest with
      | .error report => some (some report, { s with requests := s.requests.eraseIdx i })
      | .ok _ =>
        some (none, { s with
          requests := s.requests.set i ⟨r, before, .fetch loaded digest.toOption⟩ })
    | _ => none
  | .fetch i =>
    match s.requests[i]? with
    | some ⟨r, before, .fetch loaded digest⟩ =>
      let s := { s with requests := s.requests.eraseIdx i }
      match fetchSecret s.vault r.entryId loaded.field with
      | .error report => some (some report, s)
      | .ok value =>
        some (some (.secret .authorized (some value) none),
          { s with delivered := s.delivered ++ [⟨r, before, loaded, digest, value⟩] })
    | _ => none
  | .restart => some (none, s.forget)
  | .powerCut i => ((s.fs.file :: s.fs.undo)[i]?).map fun file =>
      (none, { s.forget with fs := ⟨file, []⟩ })
  | .tamper file => some (none, { s with fs := ⟨file, s.fs.file :: s.fs.undo⟩ })

def grantStep (s : GrantServer φ) (a : GrantAction φ) : Option (GrantServer φ) :=
  (grantAnswer E s a).map Prod.snd

def grantServer : Machine (GrantServer φ) (GrantAction φ) where
  init s := ∃ vault, s = .start vault
  step := grantStep E

/-- New ids are new; what the key opens of a file put at the path is a document that
is there already, or that a power cut could bring back. -/
def Unforged (s : GrantServer φ) : GrantAction φ → Prop
  | .create _ drawn _ _ => ∀ m ∈ s.minted, m.grantId ≠ drawn.grantId
  | .tamper file => ∀ b, file = .bytes b → ∀ key payload, openPayload E b key = .ok payload →
      ∃ b', .bytes b' ∈ s.fs.file :: s.fs.undo ∧ openPayload E b' key = .ok payload
  | _ => True

/-- The same for a run in which nobody else touches the file. -/
def untouched (s : GrantServer φ) : GrantAction φ → Bool
  | .create _ drawn _ _ => s.minted.all fun m => m.grantId ≠ drawn.grantId
  | .tamper _ => false
  | _ => true

theorem unforged_of_untouched {s a} (h : untouched s a = true) : Unforged E s a := by
  cases a with
  | create r drawn order fault => simpa [untouched, Unforged] using h
  | tamper file => cases h
  | _ => trivial

end Machine

/-! ## What the handlers have checked -/

section Inversion

variable {π φ : Type} {E : GrantEnv π φ} {vault : Option OpenVault} {file : StoreFile φ}
  {grant : ServiceGrant} {key : Bytes} {p : PendingVerification} {store' : ServiceGrantStore}
  {now : DateTime} {token : Text}

theorem authorizeRequest_ok {r order field store}
    (h : authorizeRequest E vault file r order now = .ok (field, store, grant)) :
    parse r.field = some field ∧ (∃ key, loadFromPath E file key = .ok store) ∧
      store.authorize E order r.clientId r.token r.entryId field now = some grant := by
  obtain ⟨key, -, h⟩ := bind_ok h
  split at h
  · cases h
  rename_i hfield
  split at h
  · cases h
  rename_i hload
  split at h
  · cases h
  rename_i hgrant
  cases h
  exact ⟨hfield, ⟨key, hload⟩, hgrant⟩

theorem enforcePolicy_ok {pid digest} (h : enforcePolicy grant pid digest = .ok ())
    (hpins : grant.requiredExePolicy ≠ []) :
    pid.isSome ∧ ∃ d, digest = .ok d ∧ d ∈ grant.requiredExePolicy := by
  unfold enforcePolicy checkPolicy at h
  rw [if_neg (by simpa using hpins)] at h
  cases pid with
  | none => cases h
  | some pid =>
    cases digest with
    | error reason => cases h
    | ok d =>
      dsimp only at h
      by_cases hany : (grant.requiredExePolicy.any fun pin =>
        (textBytes pin).length = (textBytes d).length && textBytes pin = textBytes d) = true
      · obtain ⟨pin, hpin, heq⟩ := List.any_eq_true.mp hany
        simp only [Bool.and_eq_true, decide_eq_true_eq] at heq
        exact ⟨rfl, d, rfl, textBytes_injective heq.2 ▸ hpin⟩
      · rw [if_neg hany] at h
        cases h

theorem createGrant_ok {r drawn}
    (h : createGrant E vault file r drawn = .ok (key, grant, token, store')) :
    ∃ store spec, loadFromPath E file key = .ok store ∧
      store.mintGrant E spec drawn.grantId drawn.random drawn.now = .ok (grant, token, store') := by
  obtain ⟨key', -, h⟩ := bind_ok h
  obtain ⟨fields, -, h⟩ := bind_ok h
  split at h
  · cases h
  split at h
  · cases h
  split at h
  · cases h
  rename_i store hload
  dsimp only at h
  split at h
  · cases h
  rename_i hmint
  cases h
  exact ⟨store, _, hload, hmint⟩

theorem revokeGrant_ok {grantIdStr grantId}
    (h : revokeGrant E vault file grantIdStr now = .ok (key, grantId, store')) :
    E.parseUuid grantIdStr = some grantId ∧
      ∃ store, loadFromPath E file key = .ok store ∧ store.revoke grantId now = some store' := by
  obtain ⟨key', -, h⟩ := bind_ok h
  split at h
  · cases h
  rename_i hid
  split at h
  · cases h
  rename_i store hload
  split at h
  · cases h
  rename_i hrevoke
  cases h
  exact ⟨hid, store, hload, hrevoke⟩

theorem enrollmentTake_ok {challenge clientId}
    (h : enrollmentTake E vault file challenge clientId = .ok p) :
    challenge = some p.challenge ∧ ∃ key store grant, loadFromPath E file key = .ok store ∧
      store.grants.get? p.challenge.grantId = some grant ∧
      p.fingerprint = grant.registrationKeyFingerprint.getD [] := by
  unfold enrollmentTake at h
  split at h
  · cases h
  split at h
  · cases h
  obtain ⟨key, -, h⟩ := bind_ok h
  split at h
  · cases h
  rename_i store hload
  split at h
  · cases h
  rename_i grant hgrant
  cases h
  exact ⟨rfl, key, store, grant, hload, hgrant, rfl⟩

theorem enrollmentRotate_ok {outcome random}
    (h : enrollmentRotate E vault file p outcome random = .ok (key, token, store')) :
    verifySignature outcome p.fingerprint = .ok () ∧ ∃ store, loadFromPath E file key = .ok store ∧
      store.rotateToken E p.challenge.grantId random = some (token, store') := by
  unfold enrollmentRotate at h
  split at h
  · cases h
  rename_i hverified
  obtain ⟨key', -, h⟩ := bind_ok h
  split at h
  · cases h
  rename_i store hload
  split at h
  · cases h
  split at h
  · cases h
  split at h
  · cases h
  rename_i hrotate
  cases h
  exact ⟨hverified, store, hload, hrotate⟩

end Inversion

end SentinelPass.Ipc
