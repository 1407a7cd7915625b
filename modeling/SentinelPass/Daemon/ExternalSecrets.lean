import SentinelPass.Daemon.Selection

/-!
# Secrets for local tools

`external_secret_access.rs` and the handlers of `GetExternalSecret` and `SaveSecret`.
A client is granted a domain and a field, to read or also to write; a grant is
compared with the request as a text. The entry is then found as for a fill
(`findCredential`) or by the scan of `saveSecretValue`.
-/

namespace SentinelPass.Daemon

open Lib

/-- Nanoseconds of UTC. -/
abbrev DateTime := Int

/-! ## The allowlist -/

inductive ExternalSecretField
  | username
  | password
  | title
deriving DecidableEq

def ExternalSecretField.asStr : ExternalSecretField → Text
  | username => "username".toList
  | password => "password".toList
  | title => "title".toList

def Entry.field (e : Entry) : ExternalSecretField → Text
  | .username => e.username
  | .password => e.password
  | .title => e.title

structure ExternalSecretGrant where
  (clientId domain : Text)
  field : ExternalSecretField
  expiresAt : Option DateTime
  allowWrite : Bool

def ExternalSecretGrant.isExpiredAt (g : ExternalSecretGrant) (now : DateTime) : Bool :=
  g.expiresAt.any fun expiresAt => expiresAt ≤ now

def ExternalSecretGrant.matchesScope (g : ExternalSecretGrant) (clientId domain : Text)
    (field : ExternalSecretField) : Bool :=
  g.clientId = clientId && g.domain = domain && g.field = field

/-- `ClientTokenRecord`, beside its time. -/
structure ClientTokenRecord where
  tokenHash : Text
  revoked : Bool

structure ExternalSecretAllowlist where
  grants : List ExternalSecretGrant
  clientTokens : Table Text ClientTokenRecord

def normalizeClientId (clientId : Text) : Option Text :=
  let value := toAsciiLowercase (trim clientId)
  if value = [] || !value.all (fun c => c.isAlphanum || c = '-' || c = '_') then none
  else some value

def normalizeDomain (domain : Text) : Option Text :=
  let value := toAsciiLowercase (trimEndMatches '.' (trim domain))
  if value = [] || '/' ∈ value || value.any isWhitespace then none else some value

namespace ExternalSecretAllowlist

def hashClientToken (E : DomainEnv) (token : Text) : Text :=
  hex (E.crypto.sha256 (textBytes token)).toList

def verifyClientToken (E : DomainEnv) (al : ExternalSecretAllowlist) (clientId : Text)
    (presented : Option Text) : Bool :=
  match normalizeClientId clientId with
  | none => false
  | some id =>
    match al.clientTokens.get? id with
    | none => true
    | some record =>
      !record.revoked && presented.any fun token => hashClientToken E token = record.tokenHash

/-- `grants_for_client` of a client. The order of the grants is not read. -/
def grantsForClient (al : ExternalSecretAllowlist) (clientId : Text) : List ExternalSecretGrant :=
  match normalizeClientId clientId with
  | none => []
  | some id => al.grants.filter fun g => g.clientId = id

def isAllowedAt (al : ExternalSecretAllowlist) (clientId domain : Text)
    (field : ExternalSecretField) (now : DateTime) : Bool :=
  match normalizeClientId clientId, normalizeDomain domain with
  | some clientId, some domain =>
    al.grants.any fun g => g.matchesScope clientId domain field && !g.isExpiredAt now
  | _, _ => false

/-- The check of `SaveSecret`. -/
def isWritableAt (al : ExternalSecretAllowlist) (clientId domain : Text) (now : DateTime) : Bool :=
  (al.grantsForClient clientId).any fun g =>
    g.allowWrite && !g.isExpiredAt now && g.domain = domain

end ExternalSecretAllowlist

/-! ## The handlers -/

/-- What the handlers see of the daemon: its profile, the vault if it is unlocked, and
what the allowlist file loads to. -/
structure SecretDaemon where
  requireStepup : Bool
  vault : Option SecretVault
  allowlist : Option ExternalSecretAllowlist

structure GetExternalSecretResponse where
  value : Option Text
  authorized : Bool
  error : Option Text
  locked : Option Bool
deriving DecidableEq

structure SaveSecretResponse where
  success : Bool
  locked : Option Bool
  error : Option Text
deriving DecidableEq

/-- A client, the token it presents and the domain it names. -/
structure SecretRequest where
  clientId : Text
  clientToken : Option Text
  domain : Text

def readDisabled : Text :=
  "strict profile: legacy external-secret grants are disabled on ".toList
    ++ "this daemon; use exact-entry service grants (`sentinelpass service-grant get`)".toList

def writeDisabled : Text :=
  "step_up_required: external-tool writes are disabled under the strict profile".toList

def SecretRequest.notAuthorized (r : SecretRequest) (field : ExternalSecretField) : Text :=
  "Client '".toList ++ r.clientId ++ "' is not authorized for ".toList ++ r.domain ++ " ".toList
    ++ field.asStr ++ ": run 'sentinelpass secret allow ".toList ++ r.clientId
    ++ " --domain ".toList ++ r.domain ++ " --field ".toList ++ field.asStr
    ++ "' and set SENTINELPASS_CLIENT_TOKEN".toList

def SecretRequest.noWriteGrant (r : SecretRequest) : Text :=
  "Client '".toList ++ r.clientId ++ "' has no write grant for '".toList ++ r.domain
    ++ "': run 'sentinelpass secret allow ".toList ++ r.clientId ++ " --domain ".toList ++ r.domain
    ++ " --field password --write' and set SENTINELPASS_CLIENT_TOKEN".toList

section Handlers

variable (E : DomainEnv) (s : SecretDaemon)

def getExternalSecret (r : SecretRequest) (field : ExternalSecretField)
    (order : MapOrder (Int64 × MappingRow)) (now : DateTime) : GetExternalSecretResponse :=
  if s.requireStepup then
    ⟨none, false, some readDisabled, none⟩
  else
    match s.vault with
    | none => ⟨none, true, none, some true⟩
    | some v =>
      match s.allowlist with
      | none => ⟨none, false, some "Failed to load external secret allowlist".toList, none⟩
      | some al =>
        if al.verifyClientToken E r.clientId r.clientToken
            && al.isAllowedAt r.clientId r.domain field now then
          match findCredential E v order r.domain none with
          | .ok (some (_, e)) => ⟨some (e.field field), true, none, none⟩
          | .ok none => ⟨none, true, none, none⟩
          | .error _ => ⟨none, true, some "Credential lookup failed".toList, none⟩
        else
          ⟨none, false, some (r.notAuthorized field), none⟩

def saveSecret (r : SecretRequest) (value : Text) (newId : Int64) (stamp : Timestamp)
    (now : DateTime) : SaveSecretResponse × SecretDaemon :=
  if s.requireStepup then
    (⟨false, none, some writeDisabled⟩, s)
  else
    match s.vault with
    | none => (⟨false, some true, some "vault is locked".toList⟩, s)
    | some v =>
      if s.allowlist.any fun al => al.verifyClientToken E r.clientId r.clientToken
          && al.isWritableAt r.clientId r.domain now then
        match saveSecretValue E v r.domain value newId stamp with
        | .ok v' => (⟨true, none, none⟩, { s with vault := some v' })
        | .error _ => (⟨false, none, some "Failed to save secret".toList⟩, s)
      else
        (⟨false, none, some r.noWriteGrant⟩, s)

def MayRead (r : SecretRequest) (field : ExternalSecretField) (now : DateTime) : Prop :=
  s.requireStepup = false ∧ ∃ al, s.allowlist = some al ∧
    al.verifyClientToken E r.clientId r.clientToken ∧ al.isAllowedAt r.clientId r.domain field now

def MayWrite (r : SecretRequest) (now : DateTime) : Prop :=
  s.requireStepup = false ∧ ∃ al, s.allowlist = some al ∧
    al.verifyClientToken E r.clientId r.clientToken ∧ al.isWritableAt r.clientId r.domain now

end Handlers

section Answers

variable {E : DomainEnv} {s : SecretDaemon} {r : SecretRequest} {v : SecretVault} {now : DateTime}

/-- What an answer with a value means. -/
theorem getExternalSecret_eq_some {field : ExternalSecretField}
    {order : MapOrder (Int64 × MappingRow)} {x : Text} (hv : s.vault = some v) :
    (getExternalSecret E s r field order now).value = some x ↔ MayRead E s r field now ∧
        ∃ id e, findCredential E v order r.domain none = .ok (some (id, e)) ∧
        x = e.field field := by
  unfold getExternalSecret MayRead
  by_cases hstep : s.requireStepup
  · simp [hstep]
  · rw [if_neg hstep, hv]
    cases hal : s.allowlist with
    | none => simp
    | some al =>
      dsimp only
      by_cases hok : al.verifyClientToken E r.clientId r.clientToken
          && al.isAllowedAt r.clientId r.domain field now
      · rw [if_pos hok]
        rw [Bool.and_eq_true] at hok
        cases findCredential E v order r.domain none with
        | error e => simp
        | ok o =>
          cases o with
          | none => simp
          | some found =>
            have hread : s.requireStepup = false ∧ ∃ al', some al = some al' ∧
                al'.verifyClientToken E r.clientId r.clientToken ∧
                al'.isAllowedAt r.clientId r.domain field now :=
              ⟨by simpa using hstep, al, rfl, hok⟩
            constructor
            · intro hx
              exact ⟨hread, found.1, found.2, rfl, (Option.some.inj hx).symm⟩
            · rintro ⟨-, id, e, hfound, rfl⟩
              cases hfound
              rfl
      · rw [if_neg hok]
        rw [Bool.and_eq_true] at hok
        simp only [reduceCtorEq, false_iff]
        rintro ⟨⟨-, al', hal', hgrant⟩, -⟩
        cases hal'
        exact hok hgrant

/-- A save is answered with success exactly if it is granted and the vault writes it. -/
theorem saveSecret_success {value : Text} {newId : Int64} {stamp : Timestamp} {s' : SecretDaemon}
    (hv : s.vault = some v) :
    saveSecret E s r value newId stamp now = (⟨true, none, none⟩, s') ↔ MayWrite E s r now ∧
        ∃ v', saveSecretValue E v r.domain value newId stamp = .ok v' ∧
          s' = { s with vault := some v' } := by
  unfold saveSecret MayWrite
  by_cases hstep : s.requireStepup
  · simp [hstep]
  · rw [if_neg hstep, hv]
    dsimp only
    have hgrant : (s.allowlist.any fun al => al.verifyClientToken E r.clientId r.clientToken
        && al.isWritableAt r.clientId r.domain now) ↔ ∃ al, s.allowlist = some al ∧
          al.verifyClientToken E r.clientId r.clientToken ∧
          al.isWritableAt r.clientId r.domain now := by
      cases s.allowlist <;> simp
    by_cases hok : s.allowlist.any fun al => al.verifyClientToken E r.clientId r.clientToken
        && al.isWritableAt r.clientId r.domain now
    · rw [if_pos hok]
      cases hsave : saveSecretValue E v r.domain value newId stamp with
      | error e => simp
      | ok v' =>
        simp only [Prod.mk.injEq, true_and, Except.ok.injEq, exists_eq_left']
        exact ⟨fun h => ⟨⟨by simpa using hstep, hgrant.mp hok⟩, h.symm⟩, fun h => h.2.symm⟩
    · rw [if_neg hok]
      simp only [Prod.mk.injEq, SaveSecretResponse.mk.injEq, reduceCtorEq, false_and, false_iff]
      rintro ⟨⟨-, h⟩, -⟩
      exact hok (hgrant.mpr h)

end Answers

/-! ## Grants and hosts -/

/-- A granted domain and the request have one host. -/
theorem normalizeHost_of_normalizeDomain {E : DomainEnv} {domain d : Text}
    (h : normalizeDomain domain = some d) :
    normalizeHost E domain = normalizeHost E d := by
  have htext : hostText domain = hostText d := by
    unfold normalizeDomain at h
    dsimp only at h
    split at h
    · cases h
    rename_i hok
    simp only [Bool.or_eq_true, not_or, Bool.not_eq_true] at hok
    have hd := Option.some.inj h
    rw [hd] at hok
    have htrim : trim d = d :=
      (trimmed_of_forall fun c hc => by simpa using List.any_eq_false.mp hok.2 c hc).trim_eq
    unfold hostText
    rw [htrim, ← hd, trimMatches_lowercase, toAsciiLowercase_idem, trimMatches_trimEndMatches]
  unfold normalizeHost
  rw [htext]

end SentinelPass.Daemon
