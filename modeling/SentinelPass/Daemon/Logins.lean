import SentinelPass.Daemon.Listing

/-!
# The logins of the browser

`save_credential` writes to the first listed entry, of whatever type, with the username and
a related URL; `get_credential_for_username` is served from the index of the mappings first.
-/

namespace SentinelPass.Daemon

open Lib Option

section Save

variable (E : DomainEnv) (v : SecretVault) (domain username : Text)

def loginFits (entry : Entry) : Bool :=
  entry.url.any (domainsMatch E domain) && usernameMatches (some username) entry.username

/-- One step of the scan of `save_credential`. -/
def isLoginTarget (summary : EntrySummary) : Bool :=
  match v.getEntry summary.entryId with
  | .ok entry => loginFits E domain username entry
  | .error _ => false

def newLogin (password : Text) (url : Option Text) (now : Timestamp) : Entry :=
  { title := "Credential for ".toList ++ domain, username, password, url, notes := none,
    credentialType := .password, modifiedAt := now, favorite := false }

/-- The existing entry with the new password and, if there is one, the new URL. -/
def rewriteLogin (password : Text) (url : Option Text) (now : Timestamp) (entry : Entry) : Entry :=
  { entry with password, url := url.or entry.url, modifiedAt := now }

def saveCredential (password : Text) (url : Option Text) (newId : Int64) (now : Timestamp) :
    Except VaultError SecretVault := do
  let existing ← if trim username = [] then .ok none else do
    let entries ← v.listEntries
    .ok ((entries.find? (isLoginTarget E v domain username)).map EntrySummary.entryId)
  match existing with
  | some entryId => do
    let entry ← v.getEntry entryId
    v.updateEntry entryId (rewriteLogin password url now entry) now
  | none => v.addEntry newId (newLogin domain username password url now) now

end Save

variable {E : DomainEnv} {v v' : SecretVault} {domain username password url : Text}
  {newId : Int64} {stamp : Timestamp}

theorem isLoginTarget_eq_true (s) : isLoginTarget E v domain username s ↔
      ∃ e, v.getEntry s.entryId = .ok e ∧ loginFits E domain username e := by
  unfold isLoginTarget
  cases v.getEntry s.entryId <;> simp

theorem saveCredential_eq (hname : trim username ≠ []) (password url newId now) :
    saveCredential E v domain username password url newId now
      = saveBy v (isLoginTarget E v domain username) (rewriteLogin password url now)
        (newLogin domain username password url now) newId now := by
  unfold saveCredential saveBy
  rw [if_neg hname]
  cases v.listEntries <;> rfl

theorem scannableBy_newLogin (hpage : domainsMatch E domain url) :
    scannableBy E domain (some username) (newLogin domain username password (some url) stamp) := by
  have hname : usernameMatches (some username) username = true := by
    simp only [usernameMatches, decide_true]
  show (isRetrievableSecret .password && domainsMatch E domain url &&
    usernameMatches (some username) username) = true
  rw [hpage, hname]
  rfl

/-- `save_credential` from a page of the domain. -/
def loginSaving (E : DomainEnv) {domain url : Text} (username : Text) (stamp : Timestamp)
    (hpage : domainsMatch E domain url) : Saving E domain (some username) where
  fits := loginFits E domain username
  rewrite value := rewriteLogin value (some url) stamp
  fresh value := newLogin domain username value (some url) stamp
  scans e := isRetrievableSecret e.credentialType
  addScans := true
  password_rewrite _ _ := rfl
  password_fresh _ := rfl
  title_rewrite _ _ := rfl
  servable_rewrite _ _ := rfl
  fits_of_scannable e h := by
    simp only [scannableBy, scannable, Bool.and_eq_true] at h
    simp only [loginFits, h, Bool.and_self]
  scannable_rewrite value e h := by
    unfold loginFits at h
    rw [Bool.and_eq_true] at h
    simp only [scannableBy, scannable, rewriteLogin, some_or, any_some, hpage, h.2, Bool.and_true]
  scannable_fresh value := scannableBy_newLogin hpage

/-- The lookup does not fail; an entry that the index serves is the one that is written; and
if it serves none, the one that is written is a secret. -/
structure LoginAgrees (E : DomainEnv) (v : SecretVault) (domain username : Text) : Prop where
  index : IndexOk E v domain
  delivered : ∀ id, DeliveredTo E v domain (some username) id →
    ∃ e, FirstListed v (loginFits E domain username) id e
  scanned : (∀ id, ¬ DeliveredTo E v domain (some username) id) →
    ∀ id e, FirstListed v (loginFits E domain username) id e → isRetrievableSecret e.credentialType

theorem loginSaving_agrees (stamp) (hpage : domainsMatch E domain url) :
    (loginSaving E username stamp hpage).Agrees v ↔ LoginAgrees E v domain username :=
  ⟨fun h => ⟨h.index, h.delivered, h.scanned⟩,
    fun h => ⟨h.index, h.delivered, h.scanned, fun _ => rfl⟩⟩

theorem saveCredential_saved (hname : trim username ≠ []) (hpage : domainsMatch E domain url)
    (h : saveCredential E v domain username password (some url) newId stamp = .ok v') :
    Listable v ∧ (loginSaving E username stamp hpage).Saved v v' newId password := by
  rw [saveCredential_eq hname] at h
  obtain ⟨hlist, ⟨id, e, hfirst, h⟩ | ⟨hno, h⟩⟩ := saveBy_ok isLoginTarget_eq_true h
  · exact ⟨hlist, .inl ⟨id, e, hfirst, Written.update hfirst.1 h⟩⟩
  · exact ⟨hlist, .inr ⟨hno, addEntry_isOk.mp ⟨v', h⟩, Written.add h⟩⟩

/-- Every login that is saved from the page is read back. -/
def LoginsReadBack (E : DomainEnv) (v : SecretVault) (domain username url : Text) : Prop :=
  ∀ password newId stamp order v',
    saveCredential E v domain username password (some url) newId stamp = .ok v' →
    ∃ id e, findCredential E v' order domain (some username) = .ok (some (id, e)) ∧
      e.password = password

/-- A login of a page of the domain that is saved is read back, whatever its password,
exactly if the two selections agree. -/
theorem login_read_back_iff (hname : trim username ≠ [])
    (hpage : normalizeHost E url = normalizeHost E domain) (hhost : (normalizeHost E domain).isSome)
    (hsome : ∃ password newId stamp v',
      saveCredential E v domain username password (some url) newId stamp = .ok v') :
    LoginsReadBack E v domain username url ↔ LoginAgrees E v domain username := by
  have hmatch : domainsMatch E domain url := by
    obtain ⟨host, hh⟩ := isSome_iff_exists.mp hhost
    exact domainsMatch_eq_true.mpr ⟨host, host, hh, hpage.trans hh, .inl rfl⟩
  constructor
  · intro hback
    obtain ⟨password₀, newId, stamp, v₀, hsave₀⟩ := hsome
    obtain ⟨password, hfresh⟩ := Saving.exists_fresh_value v
    obtain ⟨v', hsave⟩ : ∃ v',
        saveCredential E v domain username password (some url) newId stamp = .ok v' := by
      rw [saveCredential_eq hname] at hsave₀ ⊢
      exact saveBy_isOk hsave₀
    exact (loginSaving_agrees stamp hmatch).mp
      (Saving.agrees_of_served hfresh (saveCredential_saved hname hmatch hsave).2
        fun order => hback password newId stamp order v' hsave)
  · intro hagree password newId stamp order v' hsave
    obtain ⟨hlist, hsaved⟩ := saveCredential_saved hname hmatch hsave
    exact Saving.served_of_agrees ((loginSaving_agrees stamp hmatch).mpr hagree) hlist hsaved order

theorem login_read_back_iff_url :
    LoginsReadBack sampleDomains (oneLogin "T".toList (some "https://a.io".toList)) "a.io".toList
      "me".toList "https://a.io".toList := by
  refine (login_read_back_iff (by decide +kernel) (by decide +kernel) (by decide +kernel)
    ⟨"new".toList, 2, 5, _, rfl⟩).mpr ⟨indexOk_of_no_mapping rfl, fun id hd => ?_,
      fun _ id e hp => ?_⟩
  · exact absurd hd (not_deliveredTo_of_no_mapping rfl id)
  · obtain ⟨row, hget, -, hc⟩ := getEntry_eq_ok.mp hp.1
    rw [← Table.mem_rows] at hget
    cases List.mem_singleton.mp hget
    cases hc
    decide

/-- Two logins named `me`: the password goes to the one whose URL is the domain, and the
other, which has a mapping, is answered. -/
theorem saved_login_not_read :
    ∃ v', saveCredential sampleDomains (loginAndMapped "a.io".toList) "a.io".toList "me".toList
        "new".toList (some "https://a.io".toList) 3 5 = .ok v' ∧
      findCredential sampleDomains v' .insertion "a.io".toList (some "me".toList)
        = .ok (some (2, ⟨"U".toList, "me".toList, "other".toList, none, none, .password, 0,
          false⟩)) :=
  ⟨_, rfl, by decide +kernel⟩

end SentinelPass.Daemon
