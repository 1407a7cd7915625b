import SentinelPass.Ipc.ServiceAccess

/-!
# Enrolling a pending grant

A grant with a key fingerprint has no token until its client has proved possession
of the key. `ServiceEnrollmentBegin` names the client, not the grant: it takes the
first unrevoked grant of the client with a fingerprint in the order of the hash map,
enrolled or not, expired or not.
-/

namespace SentinelPass.Ipc

open Lib ServiceGrantStore

variable {π φ : Type}

/-- The vault is open and the store holds the grant: unrevoked, unexpired, with a
fingerprint and without a token. -/
structure PendingGrant (E : GrantEnv π φ) (s : GrantServer φ) (v : OpenVault)
    (store : ServiceGrantStore) (g : ServiceGrant) (fingerprint : Text) (time : DateTime) :
    Prop where
  vault : s.vault = some v
  loads : loadFromPath E s.fs.file (E.storeKey v.dek) = .ok store
  held : store.grants.get? g.grantId = some g
  unrevoked : g.revokedAt = none
  unexpired : ∀ e ∈ g.expiresAt, time < e
  fingerprint : g.registrationKeyFingerprint = some fingerprint
  pending : g.clientTokenHash = pendingTokenHash

/-- The document with the new token is not too large. -/
def Fits (E : GrantEnv π φ) (v : OpenVault) (store : ServiceGrantStore) (g : ServiceGrant)
    (random : Vector UInt8 32) (order : MapOrder ServiceGrant) : Prop :=
  ∀ token store', store.rotateToken E g.grantId random = some (token, store') →
    ∃ b, sealPayload E (E.grantsToString (store'.values order)) (E.storeKey v.dek) = .ok b

def HasToken (E : GrantEnv π φ) (s : GrantServer φ) (v : OpenVault) (g : ServiceGrant)
    (token : Text) : Prop :=
  ∃ store, loadFromPath E s.fs.file (E.storeKey v.dek) = .ok store ∧ store.grants.get? g.grantId
      = some { g with clientTokenHash := tokenHash E token }

/-- `ServiceEnrollmentBegin` for the grant's client answers with a challenge for the
grant, and `ServiceEnrollmentComplete` with that challenge in time and a valid
signature gives the grant its token. -/
def Enrollable (E : GrantEnv π φ) (s : GrantServer φ) (v : OpenVault) (store : ServiceGrantStore)
    (g : ServiceGrant) (fingerprint : Text) : Prop :=
  ∀ order random pruneNow now, ∃ nonce transcript c t,
    grantAnswer E s (.begin g.clientId order random pruneNow now)
      = some (some (.challenge nonce transcript), t) ∧
    t.challenges.get? nonce = some c ∧ c.grantId = g.grantId ∧
    ∀ now' outcome random' order', now' < now + enrollmentTtl →
      verifySignature outcome fingerprint = .ok () → Fits E v store g random' order' →
      ∃ u token u', grantAnswer E t (.complete g.clientId nonce now') = some (none, u) ∧
        grantAnswer E u (.verified s.verifying.length outcome random' order' none)
          = some (some (.enrolled g.grantId token), u') ∧
        HasToken E u' v g token

section Ceremony

variable {E : GrantEnv π φ} {s : GrantServer φ} {v : OpenVault} {store : ServiceGrantStore}
  {g : ServiceGrant} {fingerprint : Text} {time : DateTime}

/-- No other grant of the client could be taken for this one. -/
def OnlyCandidate (store : ServiceGrantStore) (g : ServiceGrant) : Prop :=
  ∀ id g', store.grants.get? id = some g' → g'.clientId = g.clientId → g'.revokedAt = none →
    g'.registrationKeyFingerprint.isSome → g' = g

theorem pendingGrant_of_only (h : PendingGrant E s v store g fingerprint time)
    (honly : OnlyCandidate store g) (order) : pendingGrant store order g.clientId = some g := by
  unfold pendingGrant
  cases hfind : (store.values order).find? fun g' =>
      g'.clientId = g.clientId && g'.revokedAt.isNone && g'.registrationKeyFingerprint.isSome with
  | none =>
    have hself := List.find?_eq_none.mp hfind g (mem_values.mpr ⟨_, h.held⟩)
    simp [h.unrevoked, h.fingerprint] at hself
  | some g' =>
    obtain ⟨id, hid⟩ := mem_values.mp (List.mem_of_find?_eq_some hfind)
    have hg' := List.find?_some hfind
    simp only [Bool.and_eq_true, decide_eq_true_eq, Option.isNone_iff_eq_none] at hg'
    rw [honly id g' hid hg'.1.1 hg'.1.2 hg'.2]

theorem pendingGrant_first {g' id} (hid : store.grants.get? id = some g') {clientId}
    (hclient : g'.clientId = clientId) (hrevoked : g'.revokedAt = none)
    (hfp : g'.registrationKeyFingerprint.isSome) :
    pendingGrant store (.first g') clientId = some g' := by
  have hmem : g' ∈ store.grants.rows.map Prod.snd :=
    List.mem_map.mpr ⟨(id, g'), Table.mem_rows.mpr hid, rfl⟩
  have hvalues : store.values (.first g') = g' :: (store.grants.rows.map Prod.snd).erase g' :=
    if_pos hmem
  unfold pendingGrant
  rw [hvalues, List.find?_cons_of_pos]
  simp [hclient, hrevoked, hfp]

theorem issue_eq (E : GrantEnv π φ) (challenges : Table Text EnrollmentChallenge) (clientId : Text)
    (grant : ServiceGrant) (random : Vector UInt8 32) (pruneNow now : Instant) :
    ∃ transcript challenges',
      EnrollmentChallenge.issue E challenges clientId grant random pruneNow now
        = (hex random.toList, transcript, challenges') ∧
      challenges'.get? (hex random.toList)
        = some ⟨clientId, grant.grantId, transcript, now + enrollmentTtl⟩ := by
  refine ⟨_, _, rfl, ?_⟩
  rw [Table.get?_upsert, if_pos rfl]
  cases (challenges.filter fun _ c => decide (pruneNow < c.expires)).get?
    (hex random.toList) <;> rfl

section

variable (h : PendingGrant E s v store g fingerprint time)

include h

theorem begin_answer {order g'} (hg' : pendingGrant store order g.clientId = some g')
    (random pruneNow now) :
    ∃ transcript challenges, grantAnswer E s (.begin g.clientId order random pruneNow now)
        = some (some (.challenge (hex random.toList) transcript), { s with challenges }) ∧
      challenges.get? (hex random.toList)
        = some ⟨g.clientId, g'.grantId, transcript, now + enrollmentTtl⟩ := by
  obtain ⟨transcript, challenges, hissue, hget⟩ :=
    issue_eq E s.challenges g.clientId g' random pruneNow now
  refine ⟨transcript, challenges, ?_, hget⟩
  simp only [grantAnswer, enrollmentBegin, serviceGrantStoreKey, h.vault, h.loads, hg', hissue]

theorem PendingGrant.bind_storeKey {β : Type} (f : Bytes → Except ServiceReport β) :
    (serviceGrantStoreKey E s.vault >>= f) = f (E.storeKey v.dek) := by
  rw [h.vault]
  rfl

theorem complete_answer {challenges : Table Text EnrollmentChallenge} {nonce : Text}
    {transcript : Bytes} {expires now : Instant}
    (hget : challenges.get? nonce = some ⟨g.clientId, g.grantId, transcript, expires⟩)
    (hnow : now < expires) :
    ∃ challenges', grantAnswer E { s with challenges } (.complete g.clientId nonce now)
      = some (none, { s with
          challenges := challenges'
          verifying :=
            s.verifying ++ [⟨⟨g.clientId, g.grantId, transcript, expires⟩, fingerprint⟩] }) := by
  refine ⟨challenges.erase nonce, ?_⟩
  have htake : takeChallenge challenges nonce now
      = (some ⟨g.clientId, g.grantId, transcript, expires⟩, challenges.erase nonce) := by
    unfold takeChallenge
    rw [hget, Option.filter_some, if_pos (by simpa using hnow)]
  have hp : enrollmentTake E s.vault s.fs.file
      (some ⟨g.clientId, g.grantId, transcript, expires⟩) g.clientId
      = .ok ⟨⟨g.clientId, g.grantId, transcript, expires⟩, fingerprint⟩ := by
    unfold enrollmentTake
    dsimp only
    rw [if_neg (by simp), h.bind_storeKey, h.loads]
    dsimp only
    rw [h.held]
    dsimp only
    rw [h.fingerprint]
    rfl
  simp only [grantAnswer, htake, hp]

end

theorem verified_answer (hE : E.Lawful) (h : PendingGrant E s v store g fingerprint time)
    (challenges : Table Text EnrollmentChallenge) {c : EnrollmentChallenge}
    (hc : c.grantId = g.grantId) {outcome : GpgOutcome}
    (hvalid : verifySignature outcome fingerprint = .ok ()) {random : Vector UInt8 32}
    {order : MapOrder ServiceGrant} (hfits : Fits E v store g random order) :
    ∃ token u, grantAnswer E { s with challenges, verifying := s.verifying ++ [⟨c, fingerprint⟩] }
        (.verified s.verifying.length outcome random order none)
        = some (some (.enrolled g.grantId token), u) ∧ HasToken E u v g token := by
  obtain ⟨token, store', hrotate⟩ :
      ∃ token store', store.rotateToken E g.grantId random = some (token, store') := by
    unfold rotateToken
    rw [h.held]
    dsimp only
    rw [if_pos (by rw [h.unrevoked]; rfl)]
    exact ⟨_, _, rfl⟩
  obtain ⟨b, hb⟩ := hfits token store' hrotate
  have hdone : enrollmentRotate E s.vault s.fs.file ⟨c, fingerprint⟩ outcome random
      = .ok (E.storeKey v.dek, token, store') := by
    unfold enrollmentRotate
    rw [hvalid, h.bind_storeKey, h.loads]
    dsimp only
    rw [hc, h.held]
    dsimp only
    rw [if_neg (by rw [h.unrevoked]; decide), hrotate]
  have hsave : saveToPath E s.fs (store'.values order) (E.storeKey v.dek) none
      = (.saved, ⟨.bytes b, []⟩) := by
    unfold saveToPath
    rw [hb]
  refine ⟨token, { s with
    challenges
    fs := ⟨.bytes b, []⟩
    verifying :=
      (s.verifying ++ [(⟨c, fingerprint⟩ : PendingVerification)]).eraseIdx s.verifying.length
    enrolled := s.enrolled ++ [⟨g.grantId, fingerprint, outcome⟩] }, ?_, ?_⟩
  · have hget : (s.verifying ++ [⟨c, fingerprint⟩])[s.verifying.length]?
        = some ⟨c, fingerprint⟩ := by
      simp
    simp only [grantAnswer, hget, hdone, hsave, saveReport, hc]
  · -- the document that was written is read back with the new hash
    obtain ⟨grant, hgrant, -, -, hget⟩ := rotateToken_eq_some hrotate
    obtain rfl : g = grant := Option.some.inj (h.held.symm.trans hgrant)
    have hfiled := filed_of_loadFromPath h.loads
    have hfiled' : store'.Filed := by
      intro id g' hg'
      rw [hget] at hg'
      split at hg'
      · next hid =>
        cases hg'
        exact ⟨hid.symm, (hfiled _ _ h.held).2⟩
      · exact hfiled id g' hg'
    obtain ⟨store'', hload, hsame⟩ := loadFromPath_sealed hE hfiled' hb
    exact ⟨store'', hload, hsame _ _ (by rw [hget, if_pos rfl])⟩

end Ceremony

/-- The ceremony reaches a pending grant, in whatever order the map is walked, exactly
if no other unrevoked grant of the client has a fingerprint. -/
theorem enrollable_iff (E : GrantEnv π φ) (hE : E.Lawful) (s : GrantServer φ) (v : OpenVault)
    (store : ServiceGrantStore) (g : ServiceGrant) (fingerprint : Text) (time : DateTime)
    (h : PendingGrant E s v store g fingerprint time) :
    Enrollable E s v store g fingerprint ↔ OnlyCandidate store g := by
  constructor
  · intro henroll id g' hid hclient hrevoked hfp
    obtain ⟨nonce, transcript, c, t, hbegin, hc, hcid, -⟩ :=
      henroll (.first g') (.replicate 32 0) 0 0
    obtain ⟨transcript', challenges, hanswer, hget⟩ :=
      begin_answer h (pendingGrant_first hid hclient hrevoked hfp) (.replicate 32 0) 0 0
    rw [hanswer] at hbegin
    cases hbegin
    obtain rfl : _ = c := Option.some.inj (hget.symm.trans hc)
    -- both are filed under their ids, which the challenge names
    have hg' : g'.grantId = id := (filed_of_loadFromPath h.loads id g' hid).1
    rw [← hg', show g'.grantId = g.grantId from hcid, h.held] at hid
    exact (Option.some.inj hid).symm
  · intro honly order random pruneNow now
    obtain ⟨transcript, challenges, hbegin, hget⟩ :=
      begin_answer h (pendingGrant_of_only h honly order) random pruneNow now
    refine ⟨_, transcript, _, _, hbegin, hget, rfl, ?_⟩
    intro now' outcome random' order' hnow hvalid hfits
    obtain ⟨challenges', hcomplete⟩ := complete_answer h hget hnow
    obtain ⟨token, u, hverified, htoken⟩ := verified_answer hE h challenges'
      (c := ⟨g.clientId, g.grantId, transcript, now + enrollmentTtl⟩) rfl hvalid hfits
    exact ⟨_, token, u, hcomplete, hverified, htoken⟩

/-! ## Two grants of one client -/

def enrollmentGrant (grantId : Uuid) : GrantAction (AuthenticatedStore (List ServiceGrant)) :=
  .create ⟨['c'], 1, ["password".toList], none, none, some sampleFingerprint⟩
    ⟨grantId, .replicate 32 1, 10⟩ .insertion none

/-- `ServiceEnrollmentBegin` and `ServiceEnrollmentComplete`, with a valid signature. -/
def sampleCeremony (random : Vector UInt8 32) :
    List (GrantAction (AuthenticatedStore (List ServiceGrant))) :=
  [.begin ['c'] .insertion random 0 0, .complete ['c'] (hex random.toList) 1,
    .verified 0 sampleValid random .insertion none]

def sampleWaiting (grantId : Uuid) : ServiceGrant :=
  { policyVersion := 1, grantId, clientId := ['c'], entryId := 1, fields := [.password]
    expiresAt := none, revokedAt := none, createdAt := 10, clientTokenHash := pendingTokenHash
    requiredExeSha256 := none, registrationKeyFingerprint := some sampleFingerprint }

/-- The open vault, and a store that holds these grants. -/
def sampleHolds (s : GrantServer (AuthenticatedStore (List ServiceGrant)))
    (p : List (Uuid × ServiceGrant) → Bool) : Bool :=
  (s.vault.any fun v => v.dek = sampleOpenVault.dek) &&
    (loadFromPath sampleGrantEnv s.fs.file sampleOpenVault.dek.toList).toOption.any fun store =>
      p store.grants.rows

theorem pendingGrant_sample {s p} (h : sampleHolds s p = true) (grantId)
    (hp : ∀ rows, p rows = true → (grantId, sampleWaiting grantId) ∈ rows) :
    ∃ v store, PendingGrant sampleGrantEnv s v store (sampleWaiting grantId) sampleFingerprint 100 ∧
      p store.grants.rows = true := by
  obtain ⟨hvault, hstore⟩ := Bool.and_eq_true_iff.mp h
  obtain ⟨v, hv, hdek⟩ := (Option.any_eq_true _ _).mp hvault
  obtain ⟨store, hload, hrows⟩ := (Option.any_eq_true _ _).mp hstore
  refine ⟨v, store, ⟨hv, ?_, Table.mem_rows.mp (hp _ hrows), rfl, ?_, rfl, rfl⟩, hrows⟩
  · rw [of_decide_eq_true hdek]
    exact toOption_eq_some.mp hload
  · intro e he
    cases he

theorem enrollable_iff_one_grant : ∃ s v store, (grantServer sampleGrantEnv).exec (.start none)
        [.vault (some sampleOpenVault), enrollmentGrant 1] = some s ∧
      PendingGrant sampleGrantEnv s v store (sampleWaiting 1) sampleFingerprint 100 ∧
      Enrollable sampleGrantEnv s v store (sampleWaiting 1) sampleFingerprint := by
  have hany : ((grantServer sampleGrantEnv).exec (.start none)
      [.vault (some sampleOpenVault), enrollmentGrant 1]).any (fun s =>
        sampleHolds s fun rows => rows = [(1, sampleWaiting 1)]) = true := by
    decide +kernel
  obtain ⟨s, hs, h⟩ := (Option.any_eq_true _ _).mp hany
  obtain ⟨v, store, hpending, hrows⟩ := pendingGrant_sample h 1 (by
    intro rows hrows
    rw [of_decide_eq_true hrows]
    exact List.mem_cons_self)
  refine ⟨s, v, store, hs, hpending, (enrollable_iff sampleGrantEnv sampleGrantEnv_lawful s v store
    _ _ 100 hpending).mpr ?_⟩
  intro id g' hg' _ _ _
  have hmem := Table.mem_rows.mpr hg'
  rw [of_decide_eq_true hrows, List.mem_singleton] at hmem
  exact (Prod.mk.inj hmem).2

/-- The client has a grant that is enrolled and one that waits. Walked in the order the
grants were made, the map offers the enrolled one: the ceremony gives that one a new
token, and the other one waits on. -/
theorem second_grant_not_enrolled : ∃ s v store,
      (grantServer sampleGrantEnv).Allowed (fun s a => untouched s a = true) (.start none)
        (.vault (some sampleOpenVault) :: enrollmentGrant 1 :: sampleCeremony (.replicate 32 2)
          ++ [enrollmentGrant 2]) ∧
      (grantServer sampleGrantEnv).exec (.start none)
        (.vault (some sampleOpenVault) :: enrollmentGrant 1 :: sampleCeremony (.replicate 32 2)
          ++ [enrollmentGrant 2]) = some s ∧
      PendingGrant sampleGrantEnv s v store (sampleWaiting 2) sampleFingerprint 100 ∧
      ¬ Enrollable sampleGrantEnv s v store (sampleWaiting 2) sampleFingerprint ∧
      ((grantServer sampleGrantEnv).exec s
        (sampleCeremony (.replicate 32 3) ++ sampleCeremony (.replicate 32 4))).any (fun u =>
          sampleHolds u (fun rows => (2, sampleWaiting 2) ∈ rows) &&
          u.enrolled.map Enrollment.grantId = [1, 1, 1]) = true := by
  have hallowed : (grantServer sampleGrantEnv).Allowed (fun s a => untouched s a = true)
    (.start none)
      (.vault (some sampleOpenVault) :: enrollmentGrant 1 :: sampleCeremony (.replicate 32 2)
        ++ [enrollmentGrant 2]) := by
    decide +kernel
  have hany : ((grantServer sampleGrantEnv).exec (.start none)
      (.vault (some sampleOpenVault) :: enrollmentGrant 1 :: sampleCeremony (.replicate 32 2)
        ++ [enrollmentGrant 2])).any (fun s =>
      sampleHolds s (fun rows => (2, sampleWaiting 2) ∈ rows) &&
      (grantAnswer sampleGrantEnv s (.begin ['c'] .insertion (.replicate 32 3) 0 0)).all (fun r =>
        r.2.challenges.rows.all fun row => row.2.grantId = 1) &&
      ((grantServer sampleGrantEnv).exec s
        (sampleCeremony (.replicate 32 3) ++ sampleCeremony (.replicate 32 4))).any (fun u =>
          sampleHolds u (fun rows => (2, sampleWaiting 2) ∈ rows) &&
          u.enrolled.map Enrollment.grantId = [1, 1, 1])) = true := by
    decide +kernel
  obtain ⟨s, hs, h⟩ := (Option.any_eq_true _ _).mp hany
  simp only [Bool.and_eq_true] at h
  obtain ⟨⟨hholds, hbegin⟩, hagain⟩ := h
  obtain ⟨v, store, hpending, -⟩ := pendingGrant_sample hholds 2
    (fun rows hrows => of_decide_eq_true hrows)
  refine ⟨s, v, store, hallowed, hs, hpending, ?_, ?_⟩
  · intro henroll
    obtain ⟨nonce, transcript, c, t, hanswer, hc, hcid, -⟩ :=
      henroll .insertion (.replicate 32 3) 0 0
    have hone : t.challenges.rows.all (fun row => row.2.grantId = 1) = true := by
      have hall := hbegin
      rw [show (sampleWaiting 2).clientId = ['c'] from rfl] at hanswer
      rw [hanswer] at hall
      exact hall
    have hrow := List.all_eq_true.mp hone _ (Table.mem_rows.mpr hc)
    rw [hcid] at hrow
    exact absurd hrow (by decide)
  · exact hagain

end SentinelPass.Ipc
