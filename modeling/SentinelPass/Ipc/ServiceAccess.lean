import SentinelPass.Ipc.ServiceServer

/-!
# A service secret needs a live grant

The invariant of the daemon is about documents: every document that is at the
store's path, or that a power cut could bring back, lists grants as they were
minted, up to their token hash and their revocation (`GrantOk`). A write derives
its document from the one at the path, so one lemma per operation on the store
shows that it lists no other grants; a file that was put at the path opens to a
document that is there already, because nobody else can make the MAC.

A request keeps what it found when it loaded the store; from then on the store may
change under it.
-/

namespace SentinelPass.Ipc

open Lib
open List (mem_cons_self mem_singleton not_mem_nil Subset mem_append_right mem_of_getElem?
  replicate)

variable {π φ : Type}

/-! ## Grants and documents -/

/-- The grant was minted, is revoked if that was answered, and has a token only once
its key was verified. -/
structure GrantOk (s : GrantServer φ) (g : ServiceGrant) : Prop where
  minted : ∃ m ∈ s.minted,
    g = { m with revokedAt := g.revokedAt, clientTokenHash := g.clientTokenHash }
  revoked : g.grantId ∈ s.revoked → g.revokedAt.isSome
  enrolled : ∀ fingerprint, g.registrationKeyFingerprint = some fingerprint →
    g.clientTokenHash = pendingTokenHash ∨
      ∃ e ∈ s.enrolled, e.grantId = g.grantId ∧ e.fingerprint = fingerprint

variable {g : ServiceGrant} {s : GrantServer φ}

theorem GrantOk.origin (h : GrantOk s g) : ∃ m ∈ s.minted, m.grantId = g.grantId ∧
      m.registrationKeyFingerprint = g.registrationKeyFingerprint := by
  obtain ⟨m, hm, heq⟩ := h.minted
  exact ⟨m, hm, by rw [heq], by rw [heq]⟩

theorem GrantOk.mono {t : GrantServer φ} (h : GrantOk s g) (hminted : s.minted ⊆ t.minted)
    (henrolled : s.enrolled ⊆ t.enrolled)
    (hrevoked : g.grantId ∈ t.revoked → g.grantId ∈ s.revoked) : GrantOk t g where
  minted := by
    obtain ⟨m, hm, heq⟩ := h.minted
    exact ⟨m, hminted hm, heq⟩
  revoked hin := h.revoked (hrevoked hin)
  enrolled fingerprint hfp := by
    rcases h.enrolled fingerprint hfp with hpending | ⟨e, he, heq⟩
    · exact .inl hpending
    exact .inr ⟨e, henrolled he, heq⟩

/-- Every grant listed at the path, or that a power cut brings back. -/
def FilesOk (E : GrantEnv π φ) (fs : StoreFs φ) (P : ServiceGrant → Prop) : Prop :=
  ∀ f ∈ fs.file :: fs.undo, ∀ g, f.Lists E g → P g

section Files

variable {E : GrantEnv π φ} {fs fs' : StoreFs φ} {P : ServiceGrant → Prop}
  {store : ServiceGrantStore} {key : Bytes}

theorem FilesOk.loaded (h : FilesOk E fs P) (hload : loadFromPath E fs.file key = .ok store)
    {id g} (hg : store.grants.get? id = some g) : P g ∧ g.grantId = id := by
  obtain ⟨hlists, hid⟩ := mem_of_loadFromPath hload hg
  exact ⟨h _ mem_cons_self g hlists, hid⟩

theorem FilesOk.save (hE : E.Lawful) {order fault result}
    (hsave : saveToPath E fs (store.values order) key fault = (result, fs'))
    (hold : result ≠ .saved → FilesOk E fs P) (hnew : ∀ id g, store.grants.get? id = some g → P g) :
    FilesOk E fs' P := by
  rcases saveToPath_cases hsave with ⟨⟨e, rfl⟩, rfl⟩ | ⟨b, hb, hfile, hcase⟩
  · exact hold (by simp)
  · have hwritten : ∀ g, (StoreFile.bytes b).Lists E g → P g := by
      intro g hg
      obtain ⟨id, hid⟩ := ServiceGrantStore.mem_values.mp (lists_sealed hE hb hg)
      exact hnew id g hid
    intro f hf g hg
    rcases hcase with ⟨⟨e, rfl⟩, hundo⟩ | ⟨-, hundo⟩
    · rw [hfile, hundo] at hf
      rcases List.mem_cons.mp hf with rfl | hf
      · exact hwritten g hg
      · exact hold (by simp) f hf g hg
    · rw [hfile, hundo] at hf
      rw [mem_singleton.mp hf] at hg
      exact hwritten g hg

theorem FilesOk.tamper (h : FilesOk E fs P) {file}
    (hunforged : ∀ b, file = .bytes b → ∀ key payload, openPayload E b key = .ok payload →
      ∃ b', .bytes b' ∈ fs.file :: fs.undo ∧ openPayload E b' key = .ok payload) :
    FilesOk E ⟨file, fs.file :: fs.undo⟩ P := by
  intro f hf g hg
  rcases List.mem_cons.mp hf with rfl | hf
  · obtain ⟨b, key, payload, raw, hfile, hopen, hraw, hmem⟩ := hg
    obtain ⟨b', hb', hopen'⟩ := hunforged b hfile key payload hopen
    exact h _ hb' g ⟨b', key, payload, raw, rfl, hopen', hraw, hmem⟩
  · exact h f hf g hg

end Files

/-! ## Requests -/

/-- What an authorized request found. -/
structure LoadedOk (E : GrantEnv π φ) (r : SecretRequest) (before : List Uuid) (l : Loaded) :
    Prop where
  field : ServiceField.parse r.field = some l.field
  held : ∃ id, l.store.grants.get? id = some l.grant
  authorizes : Authorizes E l.grant r.clientId r.token r.entryId l.field l.time
  enrolled : ∀ fingerprint, l.grant.registrationKeyFingerprint = some fingerprint →
    ∃ e ∈ l.enrolled, e.grantId = l.grant.grantId ∧ verifySignature e.outcome fingerprint = .ok ()
  unrevoked : l.grant.grantId ∉ before

/-- The executable of the peer has one of the digests the grant pins. -/
def PinnedDigest (g : ServiceGrant) (pid : Option UInt32) (digest : Option Text) : Prop :=
  g.requiredExePolicy = [] ∨ pid.isSome ∧ ∃ d, digest = some d ∧ d ∈ g.requiredExePolicy

def PhaseOk (E : GrantEnv π φ) (r : SecretRequest) (before : List Uuid) : SecretPhase → Prop
  | .started => True
  | .policy l => LoadedOk E r before l
  | .fetch l digest => LoadedOk E r before l ∧ PinnedDigest l.grant r.pid digest

structure GrantInv (E : GrantEnv π φ) (s : GrantServer φ) : Prop where
  ids : (s.minted.map ServiceGrant.grantId).Nodup
  files : FilesOk E s.fs (GrantOk s)
  revoked : ∀ id ∈ s.revoked, ∃ m ∈ s.minted, m.grantId = id
  enrolled : ∀ e ∈ s.enrolled, verifySignature e.outcome e.fingerprint = .ok ()
  verifying : ∀ p ∈ s.verifying, ∃ m ∈ s.minted, m.grantId = p.challenge.grantId ∧
    p.fingerprint = m.registrationKeyFingerprint.getD []
  requests : ∀ f ∈ s.requests, f.before ⊆ s.revoked ∧ PhaseOk E f.request f.before f.phase
  delivered : ∀ d ∈ s.delivered, LoadedOk E d.request d.before d.loaded ∧
    PinnedDigest d.loaded.grant d.request.pid d.digest

section Steps

variable {E : GrantEnv π φ} {t : GrantServer φ}

theorem GrantInv.initial (vault) : GrantInv E (.start vault) where
  ids := List.nodup_nil
  files f hf g hg := by
    rw [mem_singleton.mp hf] at hg
    exact absurd hg not_lists_absent
  revoked _ h := absurd h not_mem_nil
  enrolled _ h := absurd h not_mem_nil
  verifying _ h := absurd h not_mem_nil
  requests _ h := absurd h not_mem_nil
  delivered _ h := absurd h not_mem_nil

theorem GrantInv.congr (h : GrantInv E s) (hminted : t.minted = s.minted)
    (henrolled : t.enrolled = s.enrolled) (hrevoked : t.revoked = s.revoked)
    (hfiles : FilesOk E t.fs (GrantOk s)) (hverifying : ∀ p ∈ t.verifying, p ∈ s.verifying)
    (hrequests : ∀ f ∈ t.requests, f.before ⊆ s.revoked ∧ PhaseOk E f.request f.before f.phase)
    (hdelivered : ∀ d ∈ t.delivered, LoadedOk E d.request d.before d.loaded ∧
      PinnedDigest d.loaded.grant d.request.pid d.digest) : GrantInv E t where
  ids := by rw [hminted]; exact h.ids
  files f hf g hg := (hfiles f hf g hg).mono (by rw [hminted]; exact Subset.refl _)
    (by rw [henrolled]; exact Subset.refl _) (by rw [hrevoked]; exact id)
  revoked := by rw [hrevoked, hminted]; exact h.revoked
  enrolled := by rw [henrolled]; exact h.enrolled
  verifying p hp := by rw [hminted]; exact h.verifying p (hverifying p hp)
  requests := by rw [hrevoked]; exact hrequests
  delivered := hdelivered

variable {fault : Option SaveFault} {fs : StoreFs φ} {grant : ServiceGrant} {key : Bytes}
  {order : MapOrder ServiceGrant} {result : SaveResult} {store : ServiceGrantStore} {token : Text}
  {now : DateTime}

theorem GrantInv.create (hE : E.Lawful) (h : GrantInv E s) {r drawn}
    (hfresh : ∀ m ∈ s.minted, m.grantId ≠ drawn.grantId)
    (hcreate : createGrant E s.vault s.fs.file r drawn = .ok (key, grant, token, store))
    (hsave : saveToPath E s.fs (store.values order) key fault = (result, fs)) :
    GrantInv E { s with fs, minted := s.minted ++ [grant] } := by
  obtain ⟨old, spec, hload, hmint⟩ := createGrant_ok hcreate
  obtain ⟨hid, -, hpending, hget⟩ := mintGrant_ok hmint
  have hkeep : ∀ g, GrantOk s g → GrantOk { s with fs, minted := s.minted ++ [grant] } g :=
    fun g hg => hg.mono (List.subset_append_left _ _) (Subset.refl _) id
  refine ⟨?_, ?_, ?_, h.enrolled, ?_, h.requests, h.delivered⟩
  · rw [List.map_append]
    refine nodup_append_singleton h.ids ?_
    rw [hid]
    intro hmem
    obtain ⟨m, hm, heq⟩ := List.mem_map.mp hmem
    exact hfresh m hm heq
  · refine FilesOk.save hE hsave (fun _ f hf g hg => hkeep g (h.files f hf g hg)) ?_
    intro id g hg
    rw [hget] at hg
    split at hg
    · cases hg
      refine ⟨⟨grant, mem_append_right _ mem_cons_self, rfl⟩, ?_, ?_⟩
      · -- the id is new, so no revocation was answered for it
        intro hin
        obtain ⟨m, hm, heq⟩ := h.revoked _ hin
        exact absurd (heq.trans hid) (hfresh m hm)
      · intro fingerprint hfp
        exact .inl (hpending fingerprint hfp)
    · exact hkeep g (h.files.loaded hload hg).1
  · intro id hin
    obtain ⟨m, hm, heq⟩ := h.revoked id hin
    exact ⟨m, List.mem_append_left _ hm, heq⟩
  · intro p hp
    obtain ⟨m, hm, heq⟩ := h.verifying p hp
    exact ⟨m, List.mem_append_left _ hm, heq⟩

theorem GrantInv.revoke (hE : E.Lawful) (h : GrantInv E s) {grantIdStr grantId}
    (hrevoke : revokeGrant E s.vault s.fs.file grantIdStr now = .ok (key, grantId, store))
    (hsave : saveToPath E s.fs (store.values order) key fault = (result, fs)) {revoked}
    (hlist : revoked = s.revoked ∨ result = .saved ∧ revoked = s.revoked ++ [grantId]) :
    GrantInv E { s with fs, revoked } := by
  obtain ⟨-, old, hload, hrevoked⟩ := revokeGrant_ok hrevoke
  obtain ⟨grant, hgrant, hget⟩ := revoke_eq_some hrevoked
  obtain ⟨hok, hid⟩ := h.files.loaded hload hgrant
  have hsub : s.revoked ⊆ revoked := by
    rcases hlist with rfl | ⟨-, rfl⟩
    · exact Subset.refl _
    · exact List.subset_append_left _ _
  have hback : ∀ g : ServiceGrant, g.grantId ≠ grantId → g.grantId ∈ revoked →
      g.grantId ∈ s.revoked := by
    intro g hne hin
    rcases hlist with rfl | ⟨-, rfl⟩
    · exact hin
    rcases List.mem_append.mp hin with hin | hin
    · exact hin
    exact absurd (mem_singleton.mp hin) hne
  refine ⟨h.ids, ?_, ?_, h.enrolled, h.verifying, ?_, h.delivered⟩
  · refine FilesOk.save hE hsave ?_ ?_
    · -- an answer needs a durable write
      intro hunsaved f hf g hg
      rcases hlist with rfl | ⟨hsaved, -⟩
      · exact (h.files f hf g hg).mono (Subset.refl _) (Subset.refl _) id
      · exact absurd hsaved hunsaved
    · intro id g hg
      rw [hget] at hg
      split at hg
      · cases hg
        obtain ⟨m, hm, heq⟩ := hok.minted
        refine ⟨⟨m, hm, ?_⟩, fun _ => rfl, hok.enrolled⟩
        rw [heq]
      · next hne =>
        obtain ⟨hg', hid'⟩ := h.files.loaded hload hg
        exact hg'.mono (Subset.refl _) (Subset.refl _) (hback g (by rw [hid']; exact hne))
  · intro id hin
    rcases hlist with rfl | ⟨-, rfl⟩
    · exact h.revoked id hin
    · rcases List.mem_append.mp hin with hin | hin
      · exact h.revoked id hin
      · obtain ⟨m, hm, heq, -⟩ := hok.origin
        exact ⟨m, hm, by rw [heq, hid, mem_singleton.mp hin]⟩
  · intro f hf
    obtain ⟨hbefore, hphase⟩ := h.requests f hf
    exact ⟨Subset.trans hbefore hsub, hphase⟩

theorem GrantInv.enroll (hE : E.Lawful) (h : GrantInv E s) {p}
    (hp : ∃ m ∈ s.minted, m.grantId = p.challenge.grantId ∧
      p.fingerprint = m.registrationKeyFingerprint.getD []) {outcome}
    {random}
    (hrotate : enrollmentRotate E s.vault s.fs.file p outcome random = .ok (key, token, store))
    (hsave : saveToPath E s.fs (store.values order) key fault = (result, fs)) :
    GrantInv E { s with
      fs, enrolled := s.enrolled ++ [⟨p.challenge.grantId, p.fingerprint, outcome⟩] } := by
  obtain ⟨hverified, old, hload, hstore⟩ := enrollmentRotate_ok hrotate
  obtain ⟨grant, hgrant, hlive, -, hget⟩ := rotateToken_eq_some hstore
  obtain ⟨hok, hid⟩ := h.files.loaded hload hgrant
  have hkeep : ∀ g, GrantOk s g → GrantOk { s with
      fs, enrolled := s.enrolled ++ [⟨p.challenge.grantId, p.fingerprint, outcome⟩] } g :=
    fun g hg => hg.mono (Subset.refl _) (List.subset_append_left _ _) id
  refine ⟨h.ids, ?_, h.revoked, ?_, h.verifying, h.requests, h.delivered⟩
  · refine FilesOk.save hE hsave (fun _ f hf g hg => hkeep g (h.files f hf g hg)) ?_
    intro id g hg
    rw [hget] at hg
    split at hg
    · cases hg
      obtain ⟨m, hm, heq⟩ := hok.minted
      refine ⟨⟨m, hm, by rw [heq]⟩, hok.revoked, ?_⟩
      intro fingerprint hfp
      refine .inr ⟨_, mem_append_right _ mem_cons_self, hid.symm, ?_⟩
      -- ids are not reused: the fingerprint that was verified is this grant's
      obtain ⟨m₁, hm₁, hid₁, hfp₁⟩ := hp
      obtain ⟨m₂, hm₂, hid₂, hfp₂⟩ := hok.origin
      have hsame : m₁ = m₂ :=
        List.inj_on_of_nodup_map h.ids hm₁ hm₂ (by rw [hid₁, hid₂, hid])
      have hgrantFp : grant.registrationKeyFingerprint = some fingerprint := hfp
      show p.fingerprint = fingerprint
      rw [hfp₁, hsame, hfp₂, hgrantFp]
      rfl
    · exact hkeep g (h.files.loaded hload hg).1
  · intro e he
    rcases mem_snoc he with he | rfl
    · exact h.enrolled e he
    · exact hverified

theorem GrantInv.loadedOk (h : GrantInv E s) {r before} (hbefore : before ⊆ s.revoked) {field}
    (hauth : authorizeRequest E s.vault s.fs.file r order now = .ok (field, store, grant)) :
    LoadedOk E r before ⟨field, store, grant, now, s.enrolled⟩ := by
  obtain ⟨hfield, ⟨key, hload⟩, hgrant⟩ := authorizeRequest_ok hauth
  obtain ⟨⟨id, hheld⟩, hlive⟩ := authorize_eq_some hgrant
  have hok := (h.files.loaded hload hheld).1
  refine ⟨hfield, ⟨id, hheld⟩, hlive, ?_, ?_⟩
  · intro fingerprint hfp
    rcases hok.enrolled fingerprint hfp with hpending | ⟨e, he, hid, rfl⟩
    · exact absurd hpending hlive.enrolled
    exact ⟨e, he, hid, h.enrolled e he⟩
  · intro hin
    have hrevoked := hok.revoked (hbefore hin)
    rw [show grant.revokedAt = none from hlive.unrevoked] at hrevoked
    cases hrevoked

theorem GrantInv.setRequest (h : GrantInv E s) {i f}
    (hf : f.before ⊆ s.revoked ∧ PhaseOk E f.request f.before f.phase) :
    GrantInv E { s with requests := s.requests.set i f } := by
  refine h.congr rfl rfl rfl h.files (fun _ hp => hp) ?_ h.delivered
  intro f' hf'
  rcases List.mem_or_eq_of_mem_set hf' with hf' | rfl
  · exact h.requests f' hf'
  · exact hf

theorem GrantInv.dropRequest (h : GrantInv E s) (i : Nat) :
    GrantInv E { s with requests := s.requests.eraseIdx i } :=
  h.congr rfl rfl rfl h.files (fun _ hp => hp)
    (fun f hf => h.requests f (List.mem_of_mem_eraseIdx hf)) h.delivered

theorem GrantInv.forget (h : GrantInv E s) : GrantInv E s.forget :=
  h.congr rfl rfl rfl h.files (fun _ hp => absurd hp not_mem_nil)
    (fun _ hf => absurd hf not_mem_nil) h.delivered

theorem GrantInv.answer (hE : E.Lawful) (h : GrantInv E s) {a} (hok : Unforged E s a) {report}
    (hstep : grantAnswer E s a = some (report, t)) : GrantInv E t := by
  cases a with
  | vault v =>
    cases hstep
    exact h.congr rfl rfl rfl h.files (fun _ hp => hp) h.requests h.delivered
  | create r drawn order fault =>
    simp only [grantAnswer] at hstep
    split at hstep
    · cases hstep
      exact h
    rename_i hcreate
    cases hstep
    exact h.create hE hok hcreate rfl
  | revoke grantIdStr now order fault =>
    simp only [grantAnswer] at hstep
    split at hstep
    · cases hstep
      exact h
    rename_i hrevoke
    split at hstep
    · next hsave =>
      cases hstep
      exact h.revoke hE hrevoke hsave (.inr ⟨rfl, rfl⟩)
    · next hsave =>
      cases hstep
      exact h.revoke hE hrevoke hsave (.inl rfl)
  | begin clientId order random pruneNow now =>
    cases hstep
    exact h.congr rfl rfl rfl h.files (fun _ hp => hp) h.requests h.delivered
  | complete clientId nonce now =>
    simp only [grantAnswer] at hstep
    split at hstep
    · cases hstep
      exact h.congr rfl rfl rfl h.files (fun _ hp => hp) h.requests h.delivered
    rename_i p htake
    cases hstep
    obtain ⟨-, key, store, grant, hload, hgrant, hfp⟩ := enrollmentTake_ok htake
    obtain ⟨hg, hid⟩ := h.files.loaded hload hgrant
    obtain ⟨m, hm, hmid, hmfp⟩ := hg.origin
    refine ⟨h.ids, ?_, h.revoked, h.enrolled, ?_, h.requests, h.delivered⟩
    · intro f hf g hg
      exact (h.files f hf g hg).mono (Subset.refl _) (Subset.refl _) id
    · intro p' hp'
      rcases mem_snoc hp' with hp' | rfl
      · exact h.verifying p' hp'
      · exact ⟨m, hm, hmid.trans hid, by rw [hfp, hmfp]⟩
  | verified i outcome random order fault =>
    simp only [grantAnswer] at hstep
    split at hstep
    · cases hstep
    rename_i p hp
    have hpending := h.verifying p (mem_of_getElem? hp)
    have hdrop : GrantInv E { s with verifying := s.verifying.eraseIdx i } :=
      h.congr rfl rfl rfl h.files (fun _ => List.mem_of_mem_eraseIdx) h.requests h.delivered
    split at hstep
    · cases hstep
      exact hdrop
    rename_i hrotate
    split at hstep
    · next hsave =>
      cases hstep
      rcases saveToPath_cases hsave with ⟨-, rfl⟩ | ⟨b, -, -, ⟨⟨e, he⟩, -⟩ | ⟨he, -⟩⟩
      · exact hdrop
      · cases he
      · cases he
    · next hsave =>
      cases hstep
      exact hdrop.enroll hE hpending hrotate hsave
  | request r =>
    cases hstep
    refine h.congr rfl rfl rfl h.files (fun _ hp => hp) ?_ h.delivered
    intro f hf
    rcases mem_snoc hf with hf | rfl
    · exact h.requests f hf
    · exact ⟨Subset.refl _, trivial⟩
  | load i order now =>
    simp only [grantAnswer] at hstep
    split at hstep
    · next r before hget =>
      have hbefore := (h.requests _ (mem_of_getElem? hget)).1
      split at hstep
      · cases hstep
        exact h.dropRequest i
      rename_i field store grant hauth
      cases hstep
      have hloaded := h.loadedOk hbefore hauth
      refine h.setRequest ⟨hbefore, ?_⟩
      split
      · next hpins => exact ⟨hloaded, .inl (List.isEmpty_iff.mp hpins)⟩
      · exact hloaded
    · cases hstep
  | exe i digest =>
    simp only [grantAnswer] at hstep
    split at hstep
    · next r before loaded hget =>
      obtain ⟨hbefore, hloaded⟩ := h.requests _ (mem_of_getElem? hget)
      split at hstep
      · cases hstep
        exact h.dropRequest i
      rename_i hpolicy
      cases hstep
      refine h.setRequest ⟨hbefore, hloaded, ?_⟩
      by_cases hpins : loaded.grant.requiredExePolicy = []
      · exact .inl hpins
      obtain ⟨hpid, d, rfl, hd⟩ := enforcePolicy_ok hpolicy hpins
      exact .inr ⟨hpid, d, rfl, hd⟩
    · cases hstep
  | fetch i =>
    simp only [grantAnswer] at hstep
    split at hstep
    · next r before loaded digest hget =>
      obtain ⟨-, hloaded⟩ := h.requests _ (mem_of_getElem? hget)
      have hdrop := h.dropRequest i
      split at hstep
      · cases hstep
        exact hdrop
      · cases hstep
        refine hdrop.congr rfl rfl rfl hdrop.files (fun _ hp => hp) hdrop.requests ?_
        intro d hd
        rcases mem_snoc hd with hd | rfl
        · exact h.delivered d hd
        · exact hloaded
    · cases hstep
  | restart =>
    cases hstep
    exact h.forget
  | powerCut i =>
    obtain ⟨file, hfile, heq⟩ := Option.map_eq_some_iff.mp hstep
    cases heq
    refine h.forget.congr rfl rfl rfl ?_ (fun _ hp => hp) h.forget.requests h.delivered
    intro f hf g hg
    rw [mem_singleton.mp hf] at hg
    exact h.forget.files file (mem_of_getElem? hfile) g hg
  | tamper file =>
    cases hstep
    exact h.congr rfl rfl rfl (h.files.tamper hok) (fun _ hp => hp) h.requests h.delivered

theorem GrantInv.of_reachable (hE : E.Lawful)
    (hr : (grantServer E).Reachable (Unforged E) s) : GrantInv E s := by
  refine hr.invariant ?_ ?_
  · rintro x ⟨vault, rfl⟩
    exact .initial vault
  · intro x y a hx hok hstep
    obtain ⟨⟨report, y'⟩, hanswer, rfl⟩ := Option.map_eq_some_iff.mp hstep
    exact hx.answer hE hok hanswer

end Steps

/-! ## Answers -/

/-- The secret was covered by a grant of the store that was loaded, for an executable
the grant allows. -/
def Covered (E : GrantEnv π φ) (d : Delivery) : Prop :=
  LoadedOk E d.request d.before d.loaded ∧ PinnedDigest d.loaded.grant d.request.pid d.digest

/-- The steps that answer a `ServiceGetSecret`. -/
def GrantAction.answersSecret : GrantAction φ → Bool
  | .load .. | .exe .. | .fetch _ => true
  | _ => false

section Answers

variable {E : GrantEnv π φ} {t : GrantServer φ} {value error : Option Text} {now : DateTime}
  {order : MapOrder ServiceGrant} {vault : Option OpenVault} {file : StoreFile φ} {grantId : Text}

theorem authorizeRequest_error {r} :
    authorizeRequest E vault file r order now ≠ .error (.secret .authorized value error) := by
  intro h
  rcases bind_error h with h | ⟨key, -, h⟩
  · cases vault <;> cases h
  · split at h
    · cases h
    split at h
    · cases h
    split at h <;> cases h

theorem enforcePolicy_error {grant pid digest} :
    enforcePolicy grant pid digest ≠ .error (.secret .authorized value error) := by
  intro h
  unfold enforcePolicy at h
  split at h <;> cases h

theorem fetchSecret_error {entryId field} :
    fetchSecret vault entryId field ≠ .error (.secret .authorized value error) := by
  intro h
  unfold fetchSecret at h
  split at h
  · cases h
  split at h <;> cases h

theorem revokeGrant_error :
    revokeGrant E vault file grantId now ≠ .error (.secret .revoked value error) := by
  intro h
  rcases bind_error h with h | ⟨key, -, h⟩
  · cases vault <;> cases h
  · split at h
    · cases h
    split at h
    · cases h
    split at h <;> cases h

theorem delivered_of_authorized {a} (ha : a.answersSecret = true)
    (h : grantAnswer E s a = some (some (.secret .authorized value error), t)) :
    ∃ d ∈ t.delivered, value = some d.value := by
  cases a with
  | load i order now =>
    simp only [grantAnswer] at h
    split at h
    · split at h
      · next herror =>
        cases h
        exact absurd herror authorizeRequest_error
      · cases h
    · cases h
  | exe i digest =>
    simp only [grantAnswer] at h
    split at h
    · split at h
      · next herror =>
        cases h
        exact absurd herror enforcePolicy_error
      · cases h
    · cases h
  | fetch i =>
    simp only [grantAnswer] at h
    split at h
    · split at h
      · next herror =>
        cases h
        exact absurd herror fetchSecret_error
      · cases h
        exact ⟨_, mem_append_right _ mem_cons_self, rfl⟩
    · cases h
  | _ => cases ha

theorem revoked_of_answer {fault}
    (h : grantAnswer E s (.revoke grantId now order fault)
      = some (some (.secret .revoked value error), t)) :
    ∃ id ∈ t.revoked, E.parseUuid grantId = some id := by
  simp only [grantAnswer] at h
  split at h
  · next report hrevoke =>
    cases h
    exact absurd hrevoke revokeGrant_error
  · next hrevoke =>
    split at h
    · cases h
      exact ⟨_, mem_append_right _ mem_cons_self, (revokeGrant_ok hrevoke).1⟩
    rename_i result _ hunsaved _
    cases result with
    | saved => exact (hunsaved rfl).elim
    | unpublished e => cases h
    | unsynced e => cases h

end Answers

/-- In every run in which nobody else makes the MAC and the file is not rolled back: a
secret is only handed out when the store that was loaded held a grant for it, live at
that time, enrolled if it has a key fingerprint, and the executable of the peer is one
the grant allows; that grant was not among those answered `revoked` when the request
started. A grant answered `revoked` is, under every key, revoked in the store or gone. -/
theorem service_secret_needs_live_grant (E : GrantEnv π φ) (hE : E.Lawful) (s : GrantServer φ)
    (hr : (grantServer E).Reachable (Unforged E) s) :
    (∀ d ∈ s.delivered, Covered E d) ∧
    (∀ id ∈ s.revoked, ∀ key store, loadFromPath E s.fs.file key = .ok store →
      ∀ g, store.grants.get? id = some g → g.revokedAt.isSome) ∧
    (∀ a value error t, GrantAction.answersSecret a = true → Unforged E s a →
      grantAnswer E s a = some (some (.secret .authorized value error), t) →
      ∃ d ∈ t.delivered, value = some d.value ∧ Covered E d) ∧
    (∀ grantId now order fault value error t, grantAnswer E s (.revoke grantId now order fault)
        = some (some (.secret .revoked value error), t) →
      ∃ id ∈ t.revoked, E.parseUuid grantId = some id) := by
  have hinv := GrantInv.of_reachable hE hr
  refine ⟨hinv.delivered, ?_, ?_, ?_⟩
  · intro id hid key store hload g hg
    obtain ⟨hok, hgid⟩ := hinv.files.loaded hload hg
    exact hok.revoked (by rw [hgid]; exact hid)
  · intro a value error t ha hok hanswer
    obtain ⟨d, hd, hvalue⟩ := delivered_of_authorized ha hanswer
    exact ⟨d, hd, hvalue, (hinv.answer hE hok hanswer).delivered d hd⟩
  · intro grantId now order fault value error t hanswer
    exact revoked_of_answer hanswer

/-! ## A run -/

def sampleGrantEnv : GrantEnv (List ServiceGrant) (AuthenticatedStore (List ServiceGrant)) where
  crypto := ⟨fun b => Vector.ofFn fun i : Fin 32 => b.getD i.val 0, fun key _ =>
    Vector.ofFn fun i : Fin 32 => key.getD i.val 0⟩
  storeKey dek := dek.toList
  payloadBytes _ := []
  envelopeToVec e := e
  envelopeFromSlice e := some e
  size _ := 0
  grantsToString l := l
  grantsFromStr l := some l
  transcriptToVec t := textBytes t.nonce
  fromTimestamp t := some (t.toInt * 1000000000)
  parseUuid t := some (t.length : Nat)
  debugStr t := t

theorem sampleGrantEnv_lawful : sampleGrantEnv.Lawful := ⟨fun _ => rfl, fun _ => rfl⟩

def sampleOpenVault : OpenVault := ⟨.replicate 32 7, fun _ => .ok ⟨['t'], ['u'], ['p']⟩⟩

/-- The fingerprint of the client's key, and what `gpg` says of its signature. -/
def sampleFingerprint : Text := replicate 40 'a'

def sampleValid : GpgOutcome := .verified ("[GNUPG:] VALIDSIG ".toList ++ sampleFingerprint)

/-- A grant that asks for an enrolled key and a pinned executable is used once; another
grant is revoked meanwhile. -/
def pinnedGrantRun : List (GrantAction (AuthenticatedStore (List ServiceGrant))) :=
  [.vault (some sampleOpenVault),
    .create ⟨['c'], 1, ["password".toList], none, some [replicate 64 'b'],
      some sampleFingerprint⟩ ⟨1, .replicate 32 1, 10⟩ .insertion none,
    .begin ['c'] .insertion (.replicate 32 2) 0 0,
    .complete ['c'] (hex (replicate 32 2)) 1,
    .verified 0 sampleValid (.replicate 32 3) .insertion none,
    .create ⟨['d'], 1, ["title".toList], none, none, none⟩ ⟨2, .replicate 32 4, 20⟩ .reversed none,
    .request ⟨some 5, ['c'], 1, "password".toList,
      ServiceGrantStore.serviceToken (.replicate 32 3)⟩,
    .load 0 .reversed 30,
    .revoke ['x', 'x'] 31 .insertion none,
    .exe 0 (.ok (replicate 64 'b'))]

theorem service_secret_needs_live_grant_pinned :
    ∃ s t, (grantServer sampleGrantEnv).exec (.start none) pinnedGrantRun = some s ∧
      s.revoked = [2] ∧
      grantAnswer sampleGrantEnv s (.fetch 0)
        = some (some (.secret .authorized (some ['p']) none), t) ∧
      ∃ d ∈ t.delivered, d.value = ['p'] ∧ Covered sampleGrantEnv d := by
  have hallowed : (grantServer sampleGrantEnv).Allowed (fun s a => untouched s a = true)
      (.start none) pinnedGrantRun := by
    decide +kernel
  have hany : ((grantServer sampleGrantEnv).exec (.start none) pinnedGrantRun).any (fun s =>
      s.revoked = [2] ∧ (grantAnswer sampleGrantEnv s (.fetch 0)).any (fun r =>
        r.1 = some (.secret .authorized (some ['p']) none)) = true) = true := by
    decide +kernel
  obtain ⟨s, hs, h⟩ := (Option.any_eq_true _ _).mp hany
  obtain ⟨hrevoked, h⟩ := of_decide_eq_true h
  obtain ⟨⟨report, t⟩, ht, hreport⟩ := (Option.any_eq_true _ _).mp h
  obtain rfl : report = _ := of_decide_eq_true hreport
  have hrun := (Machine.run_of_exec hallowed hs).mono (unforged_of_untouched sampleGrantEnv)
  obtain ⟨-, -, hanswer, -⟩ := service_secret_needs_live_grant sampleGrantEnv
    sampleGrantEnv_lawful s ⟨_, ⟨none, rfl⟩, hrun⟩
  obtain ⟨d, hd, hvalue, hcovered⟩ := hanswer (.fetch 0) _ _ t rfl trivial ht
  exact ⟨s, t, hs, hrevoked, ht, d, hd, (Option.some.inj hvalue).symm, hcovered⟩

end SentinelPass.Ipc
