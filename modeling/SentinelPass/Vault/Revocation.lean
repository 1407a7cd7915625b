import SentinelPass.Vault.KeyChanges

/-!
# Revoked password slots

`VaultManager::open` unlocks from the row of `db_metadata`; revocation, rotation
and recovery write `key_slots`. The two agree as long as the one usable password
slot mirrors the metadata row (`OneMirror`).
-/

namespace SentinelPass

open Lib EpochGuard Option

variable {E : VaultEnv}

def KeySlot.UsablePassword (slot : KeySlot) : Prop :=
  slot.slotType = .password ∧ slot.revokedAt = none

instance (slot : KeySlot) : Decidable slot.UsablePassword :=
  inferInstanceAs (Decidable (slot.slotType = .password ∧ slot.revokedAt = none))

/-- The slot holds the key material of the metadata row. -/
def KeySlot.Mirrors (slot : KeySlot) (m : DbMetadata) : Prop :=
  slot.kdfParams = some m.kdfParams ∧ slot.wrappedDek = m.wrappedDek ∧
    slot.dekNonce = m.dekNonce ∧ slot.keyEpoch = m.keyEpoch

/-- What a vault opens from is the material of a usable password slot. -/
def OpensFromUsableSlot (db : VaultDb) : Prop :=
  ∃ u slot, db.keySlots.get? u = some slot ∧ slot.UsablePassword ∧ slot.Mirrors db.metadata

/-- There is one usable password slot, and it mirrors the metadata row. -/
def OneMirror (db : VaultDb) : Prop :=
  ∃ u slot, db.keySlots.get? u = some slot ∧ slot.UsablePassword ∧ slot.Mirrors db.metadata ∧
    ∀ u' slot', db.keySlots.get? u' = some slot' → slot'.UsablePassword → u' = u

/-- A vault as it is created, migrated or re-keyed, that nobody holds open. -/
def VaultState.Initial (s : VaultState) : Prop :=
  s.sessions = [] ∧ ∃ u slot, s.db.keySlots.rows = [(u, slot)] ∧ slot.UsablePassword ∧
    slot.Mirrors s.db.metadata

/-- Opening and key changes, in any order, by any number of processes. -/
def vault (E : VaultEnv) : Machine VaultState VaultAction where
  init := VaultState.Initial
  step := vaultStep E

def SparesPassword (s : VaultState) : VaultAction → Prop
  | .revokeKeySlot _ slotUuid _ _ => ∀ slot ∈ s.db.keySlots.get? slotUuid, ¬ slot.UsablePassword
  | _ => True

instance (s : VaultState) (a : VaultAction) : Decidable (SparesPassword s a) :=
  match a with
  | .revokeKeySlot .. => by
    unfold SparesPassword
    infer_instance
  | .openVault .. | .createRecoverySlot .. | .changeMasterPassword .. | .recoverAccess ..
  | .importPairingBootstrap .. | .close .. => .isTrue trivial

/-! ## One mirror, kept by every operation -/

section OneMirror

variable {db db' : VaultDb} {kdfParams : KdfParams} {wrapped : WrappedKey} {now newEpoch : Int64}
  {slotUuid : Text} {dek : Key} {r : Draws}

theorem OneMirror.opens (h : OneMirror db) : OpensFromUsableSlot db := by
  obtain ⟨u, slot, hget, huse, hmirrors, -⟩ := h
  exact ⟨u, slot, hget, huse, hmirrors⟩

theorem OneMirror.same (h : OneMirror db)
    (hslots : ∀ u slot, slot.UsablePassword →
      (db'.keySlots.get? u = some slot ↔ db.keySlots.get? u = some slot))
    (hmeta : ∀ slot : KeySlot, slot.Mirrors db.metadata → slot.Mirrors db'.metadata) :
    OneMirror db' := by
  obtain ⟨u, slot, hget, huse, hmirrors, hone⟩ := h
  refine ⟨u, slot, (hslots u slot huse).mpr hget, huse, hmeta slot hmirrors, ?_⟩
  intro u' slot' hget' huse'
  exact hone u' slot' ((hslots u' slot' huse').mp hget') huse'

theorem OneMirror.attempts (h : OneMirror db) (attempts) :
    OneMirror { db with failedAttempts := attempts } :=
  h.same (fun _ _ _ => Iff.rfl) fun _ hm => hm

theorem OneMirror.commit (h : OneMirror db) (dek : Key) : OneMirror (commitSlotRegistry E dek db) :=
  h.same (fun _ _ _ => Iff.rfl) fun _ hm => hm

theorem oneMirror_new {keySlots}
    {epoch} {others : Text → Option KeySlot}
    (hget : ∀ u, keySlots.get? u =
      if u = slotUuid then some (newPasswordSlot kdfParams wrapped epoch now) else others u)
    (hothers : ∀ u slot, others u = some slot → ¬ slot.UsablePassword) :
    OneMirror (setMaterial { db with keySlots := keySlots } kdfParams wrapped epoch) := by
  refine ⟨slotUuid, newPasswordSlot kdfParams wrapped epoch now, ?_, ⟨rfl, rfl⟩,
    ⟨rfl, rfl, rfl, rfl⟩, ?_⟩
  · exact (hget slotUuid).trans (if_pos rfl)
  · intro u slot hslot huse
    by_contra hne
    have hold : others u = some slot := by
      rw [← hslot]
      exact ((hget u).trans (if_neg hne)).symm
    exact hothers u slot hold huse

theorem retireRecovery_password {slot slot'} (huse : slot'.UsablePassword) :
    retireRecovery now slot = slot' ↔ slot = slot' := by
  unfold retireRecovery
  split
  · next hrec =>
    -- a recovery slot is neither of the two
    constructor
    · rintro rfl
      exact absurd huse.2 (by simp)
    · rintro rfl
      exact absurd (hrec.1.symm.trans huse.1) (by decide)
  · exact Iff.rfl

theorem OneMirror.createRecoverySlotTx {recoveryKey : Key} (h : OneMirror db)
    (htx : createRecoverySlotTx E dek db recoveryKey r = .ok db') : OneMirror db' := by
  obtain ⟨wrapped, keySlots, -, -, rfl, hnone, hget⟩ := createRecoverySlotTx_ok htx
  suffices hsame : OneMirror { db with keySlots := keySlots } from hsame.commit dek
  refine h.same ?_ fun _ hm => hm
  intro u slot huse
  show keySlots.get? u = some slot ↔ _
  rw [hget u]
  split
  · next hu =>
    -- the new row is a recovery slot, and its uuid was free
    subst hu
    rw [hnone]
    constructor
    · intro hslot
      rw [← some.inj hslot] at huse
      exact SlotType.noConfusion huse.1
    · intro hslot
      cases hslot
  · simp only [map_eq_some_iff, retireRecovery_password huse]
    constructor
    · rintro ⟨slot', hslot, rfl⟩
      exact hslot
    · intro hslot
      exact ⟨slot, hslot, rfl⟩

theorem OneMirror.revokeKeySlotTx (h : OneMirror db)
    (hspare : ∀ slot ∈ db.keySlots.get? slotUuid, ¬ slot.UsablePassword)
    (htx : revokeKeySlotTx E dek db slotUuid now = .ok db') : OneMirror db' := by
  obtain ⟨target, -, htarget, ⟨-, rfl⟩ | ⟨-, -, rfl⟩⟩ := revokeKeySlotTx_ok htx
  · exact h
  suffices hsame : OneMirror { db with keySlots := db.keySlots.update slotUuid fun slot =>
      { slot with revokedAt := some now } } from hsame.commit dek
  refine h.same ?_ fun _ hm => hm
  intro u slot huse
  show (db.keySlots.update slotUuid _).get? u = some slot ↔ _
  rw [Table.get?_update]
  split
  · next hu =>
    subst hu
    rw [htarget]
    constructor
    · intro hslot
      rw [← some.inj hslot] at huse
      exact absurd huse.2 (by simp)
    · intro hslot
      rw [← some.inj hslot] at huse
      exact absurd huse (hspare target htarget)
  · exact Iff.rfl

open OneMirror

theorem OneMirror.rotationTx (h : OneMirror db)
    (htx : rotationTx E dek db kdfParams wrapped newEpoch = .ok db') : OneMirror db' := by
  obtain ⟨-, rfl⟩ := rotationTx_ok htx
  obtain ⟨u, slot, hget, huse, -, hone⟩ := h
  refine commit ?_ dek
  have hnew : rewrapPassword kdfParams wrapped newEpoch slot = { slot with
      format := .bincode, kdfParams := some kdfParams, wrappedDek := wrapped,
      dekNonce := wrapped.nonce, keyEpoch := newEpoch } := if_pos huse
  refine ⟨u, { slot with
      format := .bincode, kdfParams := some kdfParams, wrappedDek := wrapped,
      dekNonce := wrapped.nonce, keyEpoch := newEpoch }, ?_, huse, ⟨rfl, rfl, rfl, rfl⟩, ?_⟩
  · refine (get?_syncPasswordSlots kdfParams wrapped newEpoch u).trans ?_
    show (db.keySlots.get? u).map _ = _
    rw [hget, map_some, hnew]
  intro v slot' hslot' huse'
  have hmap := (get?_syncPasswordSlots kdfParams wrapped newEpoch v).symm.trans hslot'
  obtain ⟨old, hold, rfl⟩ := map_eq_some_iff.mp hmap
  refine hone v old hold ?_
  -- rewrapping keeps the type and the revocation of a row
  unfold rewrapPassword at huse'
  split at huse'
  · next husable => exact husable
  exact huse'

theorem OneMirror.recoveryTx
    (htx : recoveryTx E dek db wrapped newEpoch r = .ok db') : OneMirror db' := by
  obtain ⟨keySlots, -, rfl, -, hget⟩ := recoveryTx_ok htx
  refine commit (oneMirror_new hget ?_) dek
  intro u slot hslot huse
  obtain ⟨old, -, rfl⟩ := map_eq_some_iff.mp hslot
  unfold retire at huse
  split at huse
  · exact absurd huse.2 (by simp)
  · next hrev => exact hrev huse.2

end OneMirror

/-! ## Steps and runs -/

section Runs

variable {s s' : VaultState} {now : Int64}

theorem oneMirror_initial (h : s.Initial) : OneMirror s.db := by
  obtain ⟨-, u, slot, hrows, huse, hmirrors⟩ := h
  have hmem : ∀ v slot', s.db.keySlots.get? v = some slot' ↔ (v, slot') = (u, slot) := by
    intro v slot'
    rw [← Table.mem_rows, hrows, List.mem_singleton]
  refine ⟨u, slot, (hmem u slot).mpr rfl, huse, hmirrors, ?_⟩
  intro v slot' hget _
  exact congrArg Prod.fst ((hmem v slot').mp hget)

/-- Every operation keeps the one mirror, except a revocation of the password slot itself. -/
theorem OneMirror.step {a : VaultAction} (h : OneMirror s.db) (hspare : SparesPassword s a)
    (hstep : vaultStep E s a = some s') : OneMirror s'.db := by
  have hdb := vaultStep_db hstep
  generalize s'.db = db' at hdb ⊢
  cases hdb with
  | attempts attempts => exact h.attempts attempts
  | bootstrapped dek => exact (h.attempts []).commit dek
  | createRecoverySlot htx => exact h.createRecoverySlotTx htx
  | revokeKeySlot htx => exact h.revokeKeySlotTx hspare htx
  | changeMasterPassword _ htx => exact h.rotationTx htx
  | recoverAccess _ htx => exact recoveryTx htx
  | importPairingBootstrap hget => exact commit (oneMirror_new hget nofun) _

theorem OneMirror.reachable (h : (vault E).Reachable SparesPassword s) : OneMirror s.db :=
  h.invariant (fun hinit => oneMirror_initial hinit)
    fun hs hok hstep => hs.step hok hstep

theorem openVault_unlocks {password w session}
    (h : (openVault E s password now w).1 = .returned (.ok session)) :
    unlockVaultWithEpoch E password s.db.metadata.kdfParams s.db.metadata.wrappedDek
      s.db.metadata.keyEpoch = .ok session.dek := by
  have hcases := openVault_cases (E := E) s password now w
  rw [h] at hcases
  generalize (openVault E s password now w).2 = after at hcases
  generalize hans : Outcome.returned (Except.ok session) = answer at hcases
  cases hcases with
  | refused => cases hans
  | verified _ _ hunlock =>
    cases hans
    exact hunlock
  | bootstrapped _ _ hunlock _ _ hok =>
    rw [hok session hans.symm]
    exact hunlock

/-- Revoking the one usable password slot leaves nothing that mirrors what the
vault opens from. -/
theorem OneMirror.revoked {dek : Key} {db db' : VaultDb} {slotUuid : Text} {slot : KeySlot}
    (h : OneMirror db) (hget : db.keySlots.get? slotUuid = some slot) (huse : slot.UsablePassword)
    (htx : SentinelPass.revokeKeySlotTx E dek db slotUuid now = .ok db') :
    ¬ OpensFromUsableSlot db' := by
  obtain ⟨target, -, htarget, ⟨hrev, -⟩ | ⟨-, -, rfl⟩⟩ := revokeKeySlotTx_ok htx
  · -- a usable slot is not revoked already
    rw [hget] at htarget
    cases htarget
    exact absurd huse.2 hrev
  · rintro ⟨u, slot', hslot', huse', -⟩
    obtain ⟨v, -, -, -, -, hone⟩ := h
    have hslot : (if u = slotUuid then (db.keySlots.get? slotUuid).map fun slot =>
        { slot with revokedAt := some now } else db.keySlots.get? u) = some slot' := by
      rw [← Table.get?_update]
      exact hslot'
    split at hslot
    · rw [hget, map_some] at hslot
      rw [← some.inj hslot] at huse'
      exact absurd huse'.2 (by simp)
    · next hu => exact hu ((hone u slot' hslot huse').trans (hone slotUuid slot hget huse).symm)

/-- **Opening uses a usable slot.** In every run that revokes no usable password
slot by hand, an open that succeeds unlocked the material of one; and a
revocation keeps this only if it spares the password slot. -/
theorem open_unlocks_from_usable_slot (E : VaultEnv) (s : VaultState)
    (hreach : (vault E).Reachable SparesPassword s) :
    OpensFromUsableSlot s.db ∧
    (∀ password now w session, (openVault E s password now w).1 = .returned (.ok session) →
      ∃ u slot params, s.db.keySlots.get? u = some slot ∧ slot.UsablePassword ∧
        slot.kdfParams = some params ∧
        unlockVaultWithEpoch E password params slot.wrappedDek slot.keyEpoch = .ok session.dek) ∧
    ∀ session slotUuid now follow answer s',
      revokeKeySlot E s session slotUuid now follow = (.returned (.ok answer), s') →
        (OpensFromUsableSlot s'.db ↔
          ∀ slot ∈ s.db.keySlots.get? slotUuid, ¬ slot.UsablePassword) := by
  have hone := OneMirror.reachable hreach
  refine ⟨hone.opens, ?_, ?_⟩
  · intro password now w session hopen
    obtain ⟨u, slot, hget, huse, ⟨hparams, hwrap, -, hepoch⟩, -⟩ := hone
    refine ⟨u, slot, _, hget, huse, hparams, ?_⟩
    rw [hwrap, hepoch]
    exact openVault_unlocks hopen
  · intro session slotUuid now follow answer s' hrevoke
    have htx : revokeKeySlotTx E session.dek s.db slotUuid now = .ok s'.db := by
      rcases revokeKeySlot_cases s session slotUuid now follow with
        ⟨e, hout⟩ | ⟨db, htx, hout⟩
      · rw [hout] at hrevoke
        cases hrevoke
      · have hafter :=
          followConstantEpoch_db (E := E) { s with db := db } session.vaultUuid follow
        rw [← hout, hrevoke] at hafter
        rw [htx, hafter]
    constructor
    · intro hopens slot hget huse
      exact hone.revoked hget huse htx hopens
    · intro hspare
      exact (hone.revokeKeySlotTx hspare htx).opens

end Runs

/-! ## A small vault -/

def padKey (b : Bytes) : Key := Vector.ofFn fun i => b.getD i 0

/-- A tag that depends on everything that is bound. -/
def sampleTag (key : Key) (nonce : Vector UInt8 12) (aad : Bytes) : Vector UInt8 16 :=
  Vector.replicate 16 ((key.toList ++ nonce.toList ++ aad).foldl (· + ·) 0)

def toyVaultEnv : VaultEnv where
  crypto := sumCrypto
  deriveMasterKey password _ := .ok (padKey password)
  aesSeal key nonce aad msg := some (msg ++ (sampleTag key nonce aad).toList)
  aesOpen key nonce aad ciphertext :=
    let start := ciphertext.length - 16
    if ciphertext.drop start = (sampleTag key nonce aad).toList then some (ciphertext.take start)
    else none
  hkdf key _ := key
  kdfBytes _ params := ⟨params.salt.toList, by simp⟩
  wrapBytes _ wrapped := ⟨wrapped.authTag.toList, by simp⟩
  nonceBytes _ nonce := ⟨nonce.toList, by simp⟩
  sidecarPath := "vault.db.epoch"

def sampleDek : Key := Vector.replicate 32 7

def samplePassword : Bytes := utf8 "first password"

def sampleNonce : Vector UInt8 12 := Vector.replicate 12 3

def sampleParams : KdfParams := ⟨Vector.replicate 16 5, 65536, 3, 1, 32⟩

/-- The data key under the password, bound to epoch 1. -/
def sampleWrap : WrappedKey :=
  ⟨sampleDek.toList, sampleNonce, sampleTag (padKey samplePassword) sampleNonce
    (i64LeBytes 1), true⟩

def sampleSlots : Table Text KeySlot :=
  ⟨[("p".toList, newPasswordSlot sampleParams sampleWrap 1 100)], by decide⟩

/-- A vault as `create` leaves it, without the MAC. -/
def sampleUnsealedDb : VaultDb where
  metadata := ⟨.document, sampleParams, sampleWrap, sampleNonce, 1, some "v".toList, none⟩
  keySlots := sampleSlots
  failedAttempts := []

def sampleVault : VaultState where
  db := commitSlotRegistry toyVaultEnv sampleDek sampleUnsealedDb
  file := none
  sessions := []
  dataKey := sampleDek

theorem sampleVault_initial : sampleVault.Initial :=
  ⟨rfl, _, _, rfl, ⟨rfl, rfl⟩, ⟨rfl, rfl, rfl, rfl⟩⟩

def sampleDraws : Draws :=
  ⟨200, "r".toList, ⟨Vector.replicate 16 6, 65536, 3, 1, 32⟩, Vector.replicate 12 4⟩

def withRecovery : List VaultAction :=
  [.openVault samplePassword 150 .allDone,
    .createRecoverySlot 0 (Vector.replicate 32 9) sampleDraws (.write .done)]

theorem withRecovery_runs : ((vault toyVaultEnv).exec sampleVault withRecovery).isSome := by
  decide +kernel

def recoverableVault : VaultState :=
  ((vault toyVaultEnv).exec sampleVault withRecovery).get withRecovery_runs

theorem recoverableVault_reachable {ok}
    (hallowed : (vault toyVaultEnv).Allowed ok sampleVault withRecovery) :
    (vault toyVaultEnv).Reachable ok recoverableVault :=
  ⟨sampleVault, sampleVault_initial, Machine.run_of_exec hallowed (some_get _).symm⟩

/-- The password of a revoked slot still opens the vault, while a recovery slot
is there and no usable password slot is. -/
theorem revoked_password_opens :
    ∃ s session, (vault toyVaultEnv).Reachable (fun _ _ => True) s ∧ s.sessions[0]? = some session ∧
      let out := revokeKeySlot toyVaultEnv s session "p".toList 300 (.write .done)
      out.1.isOk = true ∧
        (out.2.db.keySlots.get? "r".toList).any (fun slot => slot.revokedAt.isNone) = true ∧
        (out.2.db.keySlots.get? "p".toList).any (fun slot => slot.revokedAt.isSome) = true ∧
        (openVault toyVaultEnv out.2 samplePassword 400 .allDone).1.isOk = true ∧
        ¬ OpensFromUsableSlot out.2.db := by
  have hspare : (vault toyVaultEnv).Reachable SparesPassword recoverableVault :=
    recoverableVault_reachable (by decide +kernel)
  have hsession : recoverableVault.sessions[0]? = some ⟨sampleDek, "v".toList⟩ := by decide +kernel
  have hgets : recoverableVault.db.keySlots.get? "p".toList
      = some (newPasswordSlot sampleParams sampleWrap 1 100) := by decide +kernel
  refine ⟨recoverableVault, _, hspare.mono fun _ => trivial, hsession, by decide +kernel,
    by decide +kernel, by decide +kernel, by decide +kernel, ?_⟩
  rcases revokeKeySlot_cases (E := toyVaultEnv) recoverableVault ⟨sampleDek, "v".toList⟩
    "p".toList 300
    (.write .done) with ⟨e, hout⟩ | ⟨db, htx, hout⟩
  · have hok : (revokeKeySlot toyVaultEnv recoverableVault ⟨sampleDek, "v".toList⟩ "p".toList 300
        (.write .done)).1.isOk = true := by decide +kernel
    rw [hout] at hok
    exact absurd hok nofun
  · rw [hout, followConstantEpoch_db]
    exact (OneMirror.reachable hspare).revoked hgets ⟨rfl, rfl⟩ htx

/-- The two slots after the recovery slot was made. -/
theorem open_unlocks_from_usable_slot_withRecovery : OpensFromUsableSlot recoverableVault.db ∧
      ∃ session, (openVault toyVaultEnv recoverableVault samplePassword 400 .allDone).1
          = .returned (.ok session) ∧
        ∃ u slot params, recoverableVault.db.keySlots.get? u = some slot ∧ slot.UsablePassword ∧
          slot.kdfParams = some params ∧
          unlockVaultWithEpoch toyVaultEnv samplePassword params slot.wrappedDek slot.keyEpoch
            = .ok session.dek := by
  have hreach : (vault toyVaultEnv).Reachable SparesPassword recoverableVault :=
    recoverableVault_reachable (by decide +kernel)
  obtain ⟨hopens, hunlock, -⟩ := open_unlocks_from_usable_slot toyVaultEnv recoverableVault hreach
  have hok : (openVault toyVaultEnv recoverableVault samplePassword 400 .allDone).1.isOk
      = true := by
    decide +kernel
  obtain ⟨session, hsession⟩ := Outcome.isOk_iff.mp hok
  exact ⟨hopens, session, hsession, hunlock _ _ _ _ hsession⟩

end SentinelPass
