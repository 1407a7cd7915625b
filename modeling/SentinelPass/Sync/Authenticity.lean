import SentinelPass.Sync.Pull

/-!
# Authenticity of pulled mutations

The relay chooses entries, cursors and `has_more` freely; what reaches the rows
must have been built by a holder of the data key. The two cryptographic facts
this rests on are the fields of `Unforgeable`: a MAC that verifies was made by
`buildMutation` on the same canonical bytes, and SHA-256 tells the payloads in
play apart.

Under them every applied mutation is a built one, field by field
(`Unforgeable.built`). For which relay vault it was built is not checked:
`pull_changes` never compares the mutation's vault id with the configured one,
so that part holds exactly for the mutations that carry it
(`pull_authentic_iff`), and `foreign_vault_applied` shows one that does not.
-/

namespace SentinelPass

open Lib List

def shownBy (turns : List PullTurn) : Set MutationV2 :=
  { m | ∃ turn ∈ turns, ∃ e ∈ turn.response.entries, e.mutation = m }

/-- HMAC-SHA256 is unforgeable and SHA-256 has no collision, as far as the
mutations `shown` and the inputs `genuine` that key holders gave to
`build_mutation` are concerned. -/
structure Unforgeable (E : Env) (genuine : Set MutationInput) (shown : Set MutationV2) :
    Prop where
  mac : ∀ m ∈ shown, verifyMutationMac E.crypto E.macKey m = true → ∃ i ∈ genuine,
    (m.metadata E.crypto).canonicalBytes = (i.metadata E.crypto).canonicalBytes
  sha256 : ∀ m ∈ shown, ∀ i ∈ genuine,
    E.crypto.sha256 m.encryptedPayload = E.crypto.sha256 i.encryptedPayload →
      m.encryptedPayload = i.encryptedPayload

/-- `m` is what a key holder built for the relay vault `vault`, at the local
epoch or above. Equality covers object, type, versions, epoch, origin, tombstone
flag, payload, id and MAC. -/
def BuiltFor (E : Env) (genuine : Set MutationInput) (vault : Uuid) (localEpoch : Int64)
    (m : MutationV2) : Prop :=
  ∃ i ∈ genuine, i.vaultId = vault ∧ localEpoch ≤ i.keyEpoch ∧ m = buildMutation E.crypto E.macKey i

theorem Unforgeable.built {E genuine shown} (h : Unforgeable E genuine shown) {m} (hm : m ∈ shown)
    (hv : verifyMutationMac E.crypto E.macKey m = true) :
    ∃ i ∈ genuine, m = buildMutation E.crypto E.macKey i := by
  obtain ⟨i, hi, hbytes⟩ := h.mac m hm hv
  have hsha : E.crypto.sha256 m.encryptedPayload = E.crypto.sha256 i.encryptedPayload :=
    Vector.toList_inj.mp (congrArg MutationMetadata.payloadSha256 (canonicalBytes_inj hbytes))
  exact ⟨i, hi, built_eq_of_canonical hv hbytes (h.sha256 m hm i hi hsha)⟩

/-! ## From one page to a whole pull -/

/-- What a pull that showed `shown` did between two databases: it applied only
authentic mutations, and rows and stored conflicts changed only under them. -/
structure Pulled (E : Env) (device : Uuid) (shown : Set MutationV2) (db db' : LocalDb)
    (outcomes : Outcomes) : Prop where
  applied : ∀ e effect, (e, .applied effect) ∈ outcomes →
    e.mutation ∈ shown ∧ Authentic E device db.keyEpoch e.mutation
  rows : ∀ t id, db'.row t id = db.row t id ∨ Touched outcomes t id
  conflicts : ∀ id, db'.syncConflicts.get? id = db.syncConflicts.get? id ∨
    ∃ t, Touched outcomes t id
  keyEpoch : db'.keyEpoch = db.keyEpoch

section Pulled

variable {E : Env} {device : Uuid} {shown : Set MutationV2} {a b c : LocalDb}

theorem Pulled.refl (db) : Pulled E device shown db db [] where
  applied _ _ h := absurd h not_mem_nil
  rows _ _ := .inl rfl
  conflicts _ := .inl rfl
  keyEpoch := rfl

theorem Pulled.trans {x y} (h₁ : Pulled E device shown a b x) (h₂ : Pulled E device shown b c y) :
    Pulled E device shown a c (x ++ y) where
  applied e effect he := by
    rcases mem_append.mp he with he | he
    · exact h₁.applied e effect he
    · rw [← h₁.keyEpoch]
      exact h₂.applied e effect he
  rows t id := by
    rcases h₂.rows t id with hsame | htouch
    · rw [hsame]
      exact (h₁.rows t id).imp_right (·.mono (subset_append_left ..))
    · exact .inr (htouch.mono (subset_append_right ..))
  conflicts id := by
    rcases h₂.conflicts id with hsame | ⟨t, htouch⟩
    · rw [hsame]
      exact (h₁.conflicts id).imp_right fun ⟨t, ht⟩ => ⟨t, ht.mono (subset_append_left ..)⟩
    · exact .inr ⟨t, htouch.mono (subset_append_right ..)⟩
  keyEpoch := h₂.keyEpoch.trans h₁.keyEpoch

theorem Pulled.page {now response tx} (h : pageBody E device now a response = .ok tx)
    (hshown : ∀ e ∈ response.entries, e.mutation ∈ shown) :
    Pulled E device shown a tx.db tx.outcomes := by
  obtain ⟨tx₀, hpasses, -, rfl⟩ := pageBody_ok h
  have hinv := pagePasses_inv hpasses
  refine ⟨fun e effect he => ?_, fun t id => ?_, hinv.conflicts, hinv.keyEpoch⟩
  · obtain ⟨hin, hauth, -⟩ := hinv.settled _ he
    exact ⟨hshown e hin, hauth⟩
  · rw [LocalDb.row_setConfig]
    exact hinv.rows t id

theorem pullChanges_pulled (E device db turns) :
    Pulled E device (shownBy turns) db (pullChanges E device db turns).1
      (pullChanges E device db turns).2.1 := by
  refine pullLoop_rule (R := Pulled E device (shownBy turns)) Pulled.refl Pulled.trans ?_ ..
  intro turn hturn db tx hbody
  exact Pulled.page hbody fun e he => ⟨turn, hturn, e, he, rfl⟩

end Pulled

/-- **Pull authenticity.** Whatever the relay answers, rows and stored conflicts
change only under applied foreign mutations, and such a mutation is one that a
key holder built for the configured relay vault, at the local epoch or above,
exactly if it carries that vault's id. -/
theorem pull_authentic_iff {E : Env} {genuine : Set MutationInput} {turns : List PullTurn}
    (hcrypto : Unforgeable E genuine (shownBy turns)) (device : Uuid) (db : LocalDb)
    {vault : Uuid} (hconfig : db.config.vaultId = some vault) :
    (∀ t id, (pullChanges E device db turns).1.row t id ≠ db.row t id →
      Touched (pullChanges E device db turns).2.1 t id) ∧
    (∀ id, (pullChanges E device db turns).1.syncConflicts.get? id ≠ db.syncConflicts.get? id →
      ∃ t, Touched (pullChanges E device db turns).2.1 t id) ∧
    ∀ e effect, (e, .applied effect) ∈ (pullChanges E device db turns).2.1 →
      e.mutation.originDeviceId ≠ device ∧
      (BuiltFor E genuine vault db.keyEpoch e.mutation ↔
        some e.mutation.vaultId = db.config.vaultId) := by
  have hpull := pullChanges_pulled E device db turns
  refine ⟨fun t id hne => (hpull.rows t id).resolve_left hne,
    fun id hne => (hpull.conflicts id).resolve_left hne, fun e effect he => ?_⟩
  obtain ⟨hshown, hauth⟩ := hpull.applied e effect he
  refine ⟨hauth.foreign, ?_⟩
  rw [hconfig, Option.some.injEq]
  constructor
  · rintro ⟨i, -, hvault, -, heq⟩
    rw [heq]
    exact hvault
  · intro hvault
    obtain ⟨i, hi, heq⟩ := hcrypto.built hshown hauth.mac
    have hepoch := hauth.epoch
    rw [heq] at hvault hepoch
    exact ⟨i, hi, hvault, hepoch, heq⟩

/-! ## A mutation of another vault -/

/-- Device 2 created credential 7 for the relay vault 1. -/
def samplePeerInput : MutationInput where
  vaultId := 1
  objectId := 7
  objectType := .credential
  expectedVersion := 0
  resultingVersion := 1
  keyEpoch := 1
  originDeviceId := 2
  isTombstone := false
  encryptedPayload := 0 :: utf8 "mail"

def samplePeerEntry : MutationLogEntry where
  serverSequence := 1
  mutation := buildMutation sampleCrypto [7] samplePeerInput

def samplePeerTurn : PullTurn where
  response := { entries := [samplePeerEntry], cursor := 1, hasMore := false }
  now := 0
  guard := .committed

theorem unforgeable_samplePeer :
    Unforgeable sampleEnv {samplePeerInput} (shownBy [samplePeerTurn]) := by
  have hshown : ∀ m ∈ shownBy [samplePeerTurn],
      m = buildMutation sampleCrypto [7] samplePeerInput := by
    rintro m ⟨turn, hturn, e, he, rfl⟩
    rw [mem_singleton] at hturn
    subst hturn
    rw [show samplePeerTurn.response.entries = [samplePeerEntry] from rfl, mem_singleton] at he
    rw [he]
    rfl
  constructor
  · intro m hm _
    rw [hshown m hm]
    exact ⟨samplePeerInput, rfl, rfl⟩
  · intro m hm i hi _
    rw [hshown m hm, Set.mem_singleton_iff.mp hi]
    rfl

/-- A device that has moved to relay vault 9 applies a mutation built for relay
vault 1. -/
theorem foreign_vault_applied : Unforgeable sampleEnv {samplePeerInput} (shownBy [samplePeerTurn]) ∧
    (samplePeerEntry, .applied .inserted) ∈
      (pullChanges sampleEnv 3 (.fresh (some 9) 1) [samplePeerTurn]).2.1 ∧
    ¬ BuiltFor sampleEnv {samplePeerInput} 9 1 samplePeerEntry.mutation := by
  refine ⟨unforgeable_samplePeer, by decide +kernel, ?_⟩
  rintro ⟨i, hi, hvault, -⟩
  rw [Set.mem_singleton_iff.mp hi] at hvault
  exact absurd hvault (by decide)

/-- A device still configured for relay vault 1 applies it as what it is. -/
theorem pull_authentic_iff_samplePeer : (samplePeerEntry, .applied .inserted) ∈
      (pullChanges sampleEnv 3 (.fresh (some 1) 1) [samplePeerTurn]).2.1 ∧
    BuiltFor sampleEnv {samplePeerInput} 1 1 samplePeerEntry.mutation := by
  have happ : (samplePeerEntry, .applied .inserted) ∈
      (pullChanges sampleEnv 3 (.fresh (some 1) 1) [samplePeerTurn]).2.1 := by decide +kernel
  have hauth := pull_authentic_iff unforgeable_samplePeer 3 (.fresh (some 1) 1) rfl
  exact ⟨happ, (hauth.2.2 _ _ happ).2.mpr rfl⟩

end SentinelPass
