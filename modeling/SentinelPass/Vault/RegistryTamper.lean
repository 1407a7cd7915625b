import SentinelPass.Lib.Utf8
import SentinelPass.Vault.CrashSafety

/-!
# Tampering with the slot registry

Someone without the data key edits `key_slots` and the key columns of
`db_metadata`, or puts earlier ones back. The registry MAC covers the rows, the
sidecar digest covers the metadata row and the MAC in it, so at the recorded
epoch an open pins everything; one epoch ahead it needs a wrap bound to that
epoch, which the vault has not made yet. A history records the wraps it made.

A sidecar that has not followed the last commit still vouches for the state
before it, pair-join and restore lower the epoch, and another copy of the vault
makes wraps of its own: `earlier_registry_opens`.
-/

namespace SentinelPass

open Lib EpochGuard List Option Machine

variable {E : VaultEnv} {db db' : VaultDb}

/-! ## What the MAC reads -/

/-- The columns of a row of `key_slots`, as they are stored. -/
structure SlotColumns where
  slotUuid : Text
  slotType : SlotType
  (kdfParams wrappedDek dekNonce : Blob)
  (keyEpoch createdAt : Int64)
  revokedAt : Option Int64
  formatVersion : Int64

def slotColumns (E : VaultEnv) (row : Text × KeySlot) : SlotColumns where
  slotUuid := row.1
  slotType := row.2.slotType
  kdfParams := row.2.kdfBlob E
  wrappedDek := E.wrapBytes row.2.format row.2.wrappedDek
  dekNonce := E.nonceBytes row.2.format row.2.dekNonce
  keyEpoch := row.2.keyEpoch
  createdAt := row.2.createdAt
  revokedAt := row.2.revokedAt
  formatVersion := row.2.formatVersion

/-- The bytes `compute_registry_mac` feeds. -/
def registryMessage (E : VaultEnv) (db : VaultDb) : Bytes :=
  let ordered := db.keySlots.rows.insertionSort fun a b => a.1 ≤ b.1
  feedLenPrefixed (leBytes 8 ordered.length) ++ feedLenPrefixed (i64LeBytes db.metadata.keyEpoch) ++
    ordered.flatMap (slotBytes E)

def UuidsFit (db : VaultDb) : Prop := ∀ row ∈ db.keySlots.rows, (textBytes row.1).length < 2 ^ 63

section Framing

variable {a a' b b' : Bytes}

theorem feedLenPrefixed_append_inj (ha : a.length < 2 ^ 63) (ha' : a'.length < 2 ^ 63)
    (h : feedLenPrefixed a ++ b = feedLenPrefixed a' ++ b') : a = a' ∧ b = b' := by
  unfold feedLenPrefixed at h
  rw [append_assoc, append_assoc] at h
  exact append_len_inj (Nat.lt_trans ha (by decide)) (Nat.lt_trans ha' (by decide)) h

theorem i64LeBytes_length_lt (v : Int64) : (i64LeBytes v).length < 2 ^ 63 := by
  rw [i64LeBytes, length_leBytes]
  decide

theorem i64LeBytes_inj {v v' : Int64} (h : i64LeBytes v = i64LeBytes v') : v = v' :=
  congrArg Int64.ofUInt64
    (UInt64.toNat_inj.mp (leBytes_inj v.toUInt64.toNat_lt v'.toUInt64.toNat_lt h))

theorem revokedBytes_length_lt (o : Option Int64) :
    ((o.map i64LeBytes).getD []).length < 2 ^ 63 := by
  cases o with
  | none => decide
  | some v => exact i64LeBytes_length_lt v

theorem revokedBytes_inj {o o' : Option Int64}
    (h : (o.map i64LeBytes).getD [] = (o'.map i64LeBytes).getD []) : o = o' := by
  have hne : ∀ v, i64LeBytes v ≠ [] := by
    intro v hv
    have hlen := congrArg length hv
    cases hlen
  cases o with
  | none =>
    cases o' with
    | none => rfl
    | some v' => exact absurd h.symm (hne v')
  | some v =>
    cases o' with
    | none => exact absurd h (hne v)
    | some v' => rw [i64LeBytes_inj h]

theorem slotTypeBytes_length_lt (t : SlotType) : (utf8 t.asStr).length < 2 ^ 63 := by
  cases t <;> decide

theorem slotTypeBytes_inj {t t' : SlotType} (h : utf8 t.asStr = utf8 t'.asStr) : t = t' := by
  cases t <;> cases t' <;> first | rfl | exact absurd h (by decide)

/-- The MAC's framing loses nothing but the order of the rows. -/
theorem slotBytes_append_inj {row row' : Text × KeySlot} (hfit : (textBytes row.1).length < 2 ^ 63)
    (hfit' : (textBytes row'.1).length < 2 ^ 63)
    (h : slotBytes E row ++ b = slotBytes E row' ++ b') :
    slotColumns E row = slotColumns E row' ∧ b = b' := by
  unfold slotBytes at h
  simp only [append_assoc] at h
  obtain ⟨huuid, h⟩ := feedLenPrefixed_append_inj hfit hfit' h
  obtain ⟨htype, h⟩ :=
    feedLenPrefixed_append_inj (slotTypeBytes_length_lt _) (slotTypeBytes_length_lt _) h
  obtain ⟨hkdf, h⟩ := framedBlob_append_inj h
  obtain ⟨hwrap, h⟩ := framedBlob_append_inj h
  obtain ⟨hnonce, h⟩ := framedBlob_append_inj h
  obtain ⟨hepoch, h⟩ :=
    feedLenPrefixed_append_inj (i64LeBytes_length_lt _) (i64LeBytes_length_lt _) h
  obtain ⟨hcreated, h⟩ :=
    feedLenPrefixed_append_inj (i64LeBytes_length_lt _) (i64LeBytes_length_lt _) h
  obtain ⟨hrevoked, h⟩ :=
    feedLenPrefixed_append_inj (revokedBytes_length_lt _) (revokedBytes_length_lt _) h
  obtain ⟨hversion, h⟩ :=
    feedLenPrefixed_append_inj (i64LeBytes_length_lt _) (i64LeBytes_length_lt _) h
  have hid : row.1 = row'.1 := textBytes_injective huuid
  refine ⟨?_, h⟩
  simp only [slotColumns, hid, slotTypeBytes_inj htype, hkdf, hwrap, hnonce,
    i64LeBytes_inj hepoch, i64LeBytes_inj hcreated, revokedBytes_inj hrevoked,
    i64LeBytes_inj hversion]

theorem slotBytes_ne_nil (row) : slotBytes E row ≠ [] := by
  intro h
  have hlen := congrArg length h
  simp [slotBytes, feedLenPrefixed] at hlen

theorem flatMap_slotBytes_inj {l l' : List (Text × KeySlot)}
    (hl : ∀ row ∈ l, (textBytes row.1).length < 2 ^ 63)
    (hl' : ∀ row ∈ l', (textBytes row.1).length < 2 ^ 63)
    (h : l.flatMap (slotBytes E) = l'.flatMap (slotBytes E)) :
    l.map (slotColumns E) = l'.map (slotColumns E) := by
  -- on the rows of one side; the other can neither end before nor go on after it
  induction l generalizing l' with
  | nil =>
    cases l' with
    | nil => rfl
    | cons row' l' =>
      exact absurd (append_eq_nil_iff.mp h.symm).1 (slotBytes_ne_nil row')
  | cons row l ih =>
    cases l' with
    | nil => exact absurd (append_eq_nil_iff.mp h).1 (slotBytes_ne_nil row)
    | cons row' l' =>
      rw [forall_mem_cons] at hl hl'
      obtain ⟨hrow, hrest⟩ := slotBytes_append_inj hl.1 hl'.1 h
      rw [map_cons, map_cons, hrow, ih hl.2 hl'.2 hrest]

end Framing

theorem registryMessage_perm (hfit : UuidsFit db) (hfit' : UuidsFit db')
    (h : registryMessage E db = registryMessage E db') :
    (db.keySlots.rows.map (slotColumns E)).Perm (db'.keySlots.rows.map (slotColumns E)) := by
  have hlen : ∀ n, (leBytes 8 n).length < 2 ^ 63 := by
    intro n
    rw [length_leBytes]
    decide
  unfold registryMessage at h
  simp only [append_assoc] at h
  obtain ⟨-, h⟩ := feedLenPrefixed_append_inj (hlen _) (hlen _) h
  obtain ⟨-, h⟩ := feedLenPrefixed_append_inj (i64LeBytes_length_lt _) (i64LeBytes_length_lt _) h
  have hordered := flatMap_slotBytes_inj
    (fun row hrow => hfit row ((mem_insertionSort _).mp hrow))
    (fun row hrow => hfit' row ((mem_insertionSort _).mp hrow)) h
  have hperm := ((perm_insertionSort (fun a b => a.1 ≤ b.1) db.keySlots.rows).map
    (slotColumns E)).symm
  rw [hordered] at hperm
  exact hperm.trans ((perm_insertionSort _ _).map _)

/-! ## What an open has checked -/

section Opening

variable {s : VaultState} {session : Session}

theorem finishOpen_ok {follow dek vaultUuid}
    (h : (finishOpen (ensureOrVerifySlotRegistry E follow s dek vaultUuid) dek vaultUuid).1
      = .returned (.ok session)) :
    session = ⟨dek, vaultUuid⟩ ∧
      ∀ mac, s.db.metadata.slotRegistryMac = some mac → mac = registryMac E dek s.db := by
  unfold ensureOrVerifySlotRegistry at h
  cases hmac : s.db.metadata.slotRegistryMac with
  | some stored =>
    rw [hmac] at h
    cases hverify : verifySlotRegistry E dek s.db with
    | error e => rw [hverify] at h; cases h
    | ok u =>
      rw [hverify] at h
      cases h
      rw [← hmac, verifySlotRegistry_ok.mp hverify]
      exact ⟨rfl, fun mac hsome => (some.inj hsome).symm⟩
  | none =>
    refine ⟨?_, nofun⟩
    rw [hmac] at h
    dsimp only at h
    split at h
    · cases h
    · cases follow with
      | crash => cases h
      | write w =>
        cases w with
        | done => cases h; rfl
        | writeFailed e => cases h
        | renameFailed e => cases h

/-- What a successful open has checked. -/
theorem openVault_ok {password : Bytes} {now : Int64} {w : OpenWrites}
    (h : (openVault E s password now w).1 = .returned (.ok session)) :
    ∃ verdict file, enforceEpochGuard E w.mint s = (.ok (session.vaultUuid, verdict), file) ∧
      unlockVaultWithEpoch E password s.db.metadata.kdfParams s.db.metadata.wrappedDek
        s.db.metadata.keyEpoch = .ok session.dek ∧
      (adoptPending E w.heal { s with file := file } session.vaultUuid verdict).1 = .ok () ∧
      ∀ mac, s.db.metadata.slotRegistryMac = some mac → mac = registryMac E session.dek s.db := by
  unfold openVault at h
  cases hlock : remainingLockoutSeconds s.db now with
  | some remaining => rw [hlock] at h; cases h
  | none =>
    rw [hlock] at h
    cases hguard : enforceEpochGuard E w.mint s with
    | mk answer file =>
      rw [hguard] at h
      cases answer with
      | error e => cases h
      | ok v =>
        obtain ⟨vaultUuid, verdict⟩ := v
        dsimp only at h
        cases hunlock : unlockVaultWithEpoch E password s.db.metadata.kdfParams
            s.db.metadata.wrappedDek s.db.metadata.keyEpoch with
        | error e => rw [hunlock] at h; cases h
        | ok dek =>
          rw [hunlock] at h
          cases hadopt : adoptPending E w.heal { s with file := file } vaultUuid verdict with
          | mk answer file' =>
            rw [hadopt] at h
            cases answer with
            | error e => cases h
            | ok u =>
              obtain ⟨rfl, hmac⟩ := finishOpen_ok h
              exact ⟨verdict, file, rfl, rfl, by rw [hadopt], hmac⟩

end Opening

/-! ## Epochs over a history -/

/-- The epoch gate of `restore_from_parsed`: the bundle is older than what the sidecar
records of its vault, or is another state of the same epoch. -/
def epochRewound (E : VaultEnv) (file : Option Text) (bundle : VaultDb) (vaultUuid : Text) : Bool :=
  (recorded file).any fun side =>
    side.vaultUuid = vaultUuid && (bundle.metadata.keyEpoch < side.epoch ||
      (bundle.metadata.keyEpoch = side.epoch &&
        side.digestHex ≠ hex (materialDigest E bundle).toList))

/-- What `restore_from_parsed` does to the keys: the password opens the bundle, its
database takes the place of the vault's, and the sidecar is re-based on it. -/
def restoreFromParsed (E : VaultEnv) (s : VaultState) (password : Bytes) (bundle : VaultDb)
    (allowEpochRewind : Bool) (w : WriteOutcome) : Option VaultState :=
  match bundle.metadata.vaultUuid, unlockVaultWithEpoch E password bundle.metadata.kdfParams
      bundle.metadata.wrappedDek bundle.metadata.keyEpoch with
  | some vaultUuid, .ok dek =>
    if s.sessions ≠ [] ∨ (epochRewound E s.file bundle vaultUuid && !allowEpochRewind) then none
    else
      some { s with
        db := bundle, dataKey := dek
        file := (rebase w s.file vaultUuid bundle.metadata.keyEpoch (materialDigest E bundle)).2 }
  | _, _ => none

/-- A vault, and every wrap its metadata row has held, with the epoch beside it. -/
structure History where
  vault : VaultState
  wraps : List (WrappedKey × Int64)

def VaultState.wrap (s : VaultState) : WrappedKey × Int64 :=
  (s.db.metadata.wrappedDek, s.db.metadata.keyEpoch)

inductive HistoryAction
  | own (a : VaultAction)
  | restore (password : Bytes) (bundle : VaultDb) (allowEpochRewind : Bool) (w : WriteOutcome)

def HistoryAction.step (E : VaultEnv) (s : VaultState) : HistoryAction → Option VaultState
  | own a => (SentinelPass.vault E).step s a
  | restore password bundle allowEpochRewind w =>
    restoreFromParsed E s password bundle allowEpochRewind w

def History.start (s : VaultState) : History := ⟨s, [s.wrap]⟩

/-- The vault's own operations and restores, with the wraps recorded. -/
def histories (E : VaultEnv) : Machine History HistoryAction where
  init h := ∃ s : VaultState, s.Initial ∧ h = .start s
  step h a := (a.step E h.vault).map fun s => ⟨s, h.wraps ++ [s.wrap]⟩

/-- No other vault's keys are adopted and no backup is restored. -/
def KeepsKeys (_ : History) : HistoryAction → Prop
  | .own (.importPairingBootstrap ..) | .restore .. => False
  | .own _ => True

instance (h : History) (a : HistoryAction) : Decidable (KeepsKeys h a) := by
  unfold KeepsKeys
  split <;> infer_instance

section Epochs

variable {s s' : VaultState}

theorem keyEpoch_le_of_step {h : History} {a : VaultAction} (hkeep : KeepsKeys h (.own a))
    (hstep : (vault E).step s a = some s') :
    s.db.metadata.keyEpoch.toInt ≤ s'.db.metadata.keyEpoch.toInt := by
  have hdb := vaultStep_db hstep
  generalize s'.db = db' at hdb ⊢
  cases hdb with
  | attempts attempts => exact Int.le_refl _
  | bootstrapped dek => exact Int.le_refl _
  | createRecoverySlot htx =>
    obtain ⟨wrapped, keySlots, -, -, rfl, -⟩ := createRecoverySlotTx_ok htx
    exact Int.le_refl _
  | revokeKeySlot htx =>
    obtain ⟨target, -, -, ⟨-, rfl⟩ | ⟨-, -, rfl⟩⟩ := revokeKeySlotTx_ok htx
    · exact Int.le_refl _
    · exact Int.le_refl _
  | changeMasterPassword hnext htx =>
    obtain ⟨-, rfl⟩ := rotationTx_ok htx
    exact (Int.le_add_one (Int.le_refl _)).trans (nextEpoch_ok hnext).2.ge
  | recoverAccess hnext htx =>
    obtain ⟨keySlots, -, rfl, -⟩ := recoveryTx_ok htx
    exact (Int.le_add_one (Int.le_refl _)).trans (nextEpoch_ok hnext).2.ge
  | importPairingBootstrap hget => exact hkeep.elim

/-- The wraps a vault made while it kept its keys are bound to no later epoch than its own. -/
theorem wraps_le_keyEpoch {h : History} (hreach : (histories E).Reachable KeepsKeys h) :
    ∀ wrap ∈ h.wraps, wrap.2.toInt ≤ h.vault.db.metadata.keyEpoch.toInt := by
  refine hreach.invariant
    (P := fun h => ∀ wrap ∈ h.wraps, wrap.2.toInt ≤ h.vault.db.metadata.keyEpoch.toInt) ?_ ?_
  · rintro h ⟨s, -, rfl⟩ wrap hwrap
    rw [mem_singleton.mp hwrap]
    exact Int.le_refl _
  · intro h h' a hwraps hkeep hstep wrap hwrap
    cases a with
    | restore => exact hkeep.elim
    | own a =>
      obtain ⟨s', hs', rfl⟩ := map_eq_some_iff.mp hstep
      rcases mem_append.mp hwrap with hwrap | hwrap
      · exact (hwraps wrap hwrap).trans (keyEpoch_le_of_step hkeep hs')
      · rw [mem_singleton.mp hwrap]
        exact Int.le_refl _

end Epochs

/-! ## Tampering -/

/-- The sidecar records the vault as it stands. -/
def SidecarCurrent (E : VaultEnv) (s : VaultState) (vaultUuid : Text) : Prop :=
  recorded s.file
    = some ⟨vaultUuid, s.db.metadata.keyEpoch, hex (materialDigest E s.db).toList⟩

instance (E : VaultEnv) (s : VaultState) (vaultUuid : Text) :
    Decidable (SidecarCurrent E s vaultUuid) :=
  inferInstanceAs (Decidable (recorded s.file = _))

theorem slotRegistryMac_of_material (h : keyMaterial E db' = keyMaterial E db) :
    db'.metadata.slotRegistryMac = db.metadata.slotRegistryMac := by
  have hbytes := congrArg (fun m => m.registryMac.bytes) h
  unfold keyMaterial at hbytes
  cases hmac' : db'.metadata.slotRegistryMac with
  | none =>
    cases hmac : db.metadata.slotRegistryMac with
    | none => rfl
    | some mac =>
      simp only [hmac, hmac'] at hbytes
      exact absurd (congrArg length hbytes) (by simp)
  | some mac' =>
    cases hmac : db.metadata.slotRegistryMac with
    | none =>
      simp only [hmac, hmac'] at hbytes
      exact absurd (congrArg length hbytes) (by simp)
    | some mac =>
      simp only [hmac, hmac'] at hbytes
      rw [Vector.toList_inj.mp hbytes]

/-- The key material of the open database is the recorded one, unless a wrap
that is bound to the next epoch was opened. -/
theorem openVault_material {s : VaultState} {db' : VaultDb} {vaultUuid : Text}
    {hashed : Set Bytes} (hsha : Set.InjOn E.crypto.sha256 hashed)
    (hhashed : (keyMaterial E s.db).framed ∈ hashed ∧ (keyMaterial E db').framed ∈ hashed)
    (hside : SidecarCurrent E s vaultUuid) {password : Bytes} {now : Int64} {w : OpenWrites}
    {session : Session}
    (hopen : (openVault E { s with db := db' } password now w).1 = .returned (.ok session)) :
    keyMaterial E db' = keyMaterial E s.db ∨ db'.metadata.wrappedDek.epochBound = true ∧
        db'.metadata.keyEpoch.toInt = s.db.metadata.keyEpoch.toInt + 1 := by
  obtain ⟨verdict, file, hguard, -, hadopt, -⟩ := openVault_ok hopen
  obtain ⟨-, hcheck⟩ := enforceEpochGuard_ok hguard
  rcases check_ok hcheck with ⟨hnone, -⟩ | ⟨side, hrec, -, -, hverdict⟩
  · -- the sidecar is there
    cases hside.symm.trans hnone
  · cases hside.symm.trans hrec
    rcases hverdict with ⟨-, -, hdigest⟩ | ⟨rfl, hnext⟩
    · have hunhex := congrArg unhex hdigest
      rw [unhex_hex, unhex_hex] at hunhex
      have heq := Vector.toList_inj.mp (some.inj hunhex)
      exact .inl (digestOf_inj hsha hhashed.1 hhashed.2 heq).symm
    · refine .inr ⟨?_, hnext⟩
      cases hbound : db'.metadata.wrappedDek.epochBound with
      | true => rfl
      | false =>
        simp only [adoptPending, hbound] at hadopt
        cases hadopt

/-- **The slot registry is tamper evident.** `h` is where a history ended, its
MAC is committed and its sidecar is current. Whatever stands in `key_slots` and
in the key columns now, an open that hands out the vault's key found the rows and
the material of `h`. The MAC tells the two messages apart, SHA-256 the two
materials, and a wrap that opens to the key at an epoch is one that the history
recorded at that epoch. -/
theorem registry_tamper_evident (E : VaultEnv) (h : History)
    (hreach : (histories E).Reachable KeepsKeys h) (vaultUuid : Text)
    (hashed macced : Set Bytes) (hsha : Set.InjOn E.crypto.sha256 hashed)
    (hhmac : Set.InjOn
      (E.crypto.hmacSha256 (E.hkdf h.vault.dataKey slotRegistryMacInfo).toList) macced)
    (hmac : h.vault.db.metadata.slotRegistryMac
      = some (registryMac E h.vault.dataKey h.vault.db))
    (hside : SidecarCurrent E h.vault vaultUuid) (db' : VaultDb)
    (hhashed : (keyMaterial E h.vault.db).framed ∈ hashed ∧ (keyMaterial E db').framed ∈ hashed)
    (hmacced : registryMessage E h.vault.db ∈ macced ∧ registryMessage E db' ∈ macced)
    (hfits : UuidsFit h.vault.db ∧ UuidsFit db') (password : Bytes)
    (hwrap : db'.metadata.wrappedDek.epochBound = true →
      unlockVaultWithEpoch E password db'.metadata.kdfParams db'.metadata.wrappedDek
        db'.metadata.keyEpoch = .ok h.vault.dataKey →
      (db'.metadata.wrappedDek, db'.metadata.keyEpoch) ∈ h.wraps)
    (now : Int64) (w : OpenWrites) (session : Session)
    (hopen : (openVault E { h.vault with db := db' } password now w).1 = .returned (.ok session))
    (hkey : session.dek = h.vault.dataKey) :
    keyMaterial E db' = keyMaterial E h.vault.db ∧ (db'.keySlots.rows.map (slotColumns E)).Perm
      (h.vault.db.keySlots.rows.map (slotColumns E)) := by
  obtain ⟨verdict, file, -, hunlock, -, hstored⟩ := openVault_ok hopen
  rw [hkey] at hunlock hstored
  have hmaterial : keyMaterial E db' = keyMaterial E h.vault.db := by
    rcases openVault_material hsha hhashed hside hopen with hsame | ⟨hbound, hahead⟩
    · exact hsame
    -- no wrap was bound to an epoch above the latest
    have hle := wraps_le_keyEpoch hreach _ (hwrap hbound hunlock)
    dsimp only at hle
    omega
  have hpinned : db'.metadata.slotRegistryMac = some (registryMac E h.vault.dataKey h.vault.db) :=
    (slotRegistryMac_of_material hmaterial).trans hmac
  exact ⟨hmaterial, registryMessage_perm hfits.2 hfits.1
    (hhmac hmacced.1 hmacced.2 (hstored _ hpinned)).symm⟩

/-- The rows stored the other way round, after a failed attempt. -/
def reordered (db : VaultDb) : VaultDb :=
  { db with
    keySlots := ⟨db.keySlots.rows.reverse, by
      rw [map_reverse]
      exact nodup_reverse.mpr db.keySlots.keys_nodup⟩
    failedAttempts := [390] }

theorem keyMaterial_reordered (db) : keyMaterial E (reordered db) = keyMaterial E db := rfl

theorem UuidsFit.reordered (h : UuidsFit db) : UuidsFit (reordered db) :=
  fun row hrow => h row (mem_reverse.mp hrow)

def rotated : List HistoryAction :=
  [.own (.openVault samplePassword 150 .allDone),
    .own (.changeMasterPassword 0 samplePassword secondPassword sampleDraws (.write .done))]

def rotatedAndRecoverable : List HistoryAction :=
  rotated ++ [.own (.createRecoverySlot 0 (Vector.replicate 32 9) sampleDraws (.write .done))]

theorem rotatedAndRecoverable_runs :
    ((histories toyVaultEnv).exec (.start sampleVault) rotatedAndRecoverable).isSome := by
  decide +kernel

def recoverable : History :=
  ((histories toyVaultEnv).exec (.start sampleVault) rotatedAndRecoverable).get
    rotatedAndRecoverable_runs

theorem uuidsFit_recoverable : UuidsFit recoverable.vault.db := by
  have hall : recoverable.vault.db.keySlots.rows.all
      (fun row => (textBytes row.1).length < 2 ^ 63) = true := by decide +kernel
  intro row hrow
  exact of_decide_eq_true (all_eq_true.mp hall row hrow)

theorem registry_tamper_evident_reordered :
    ((reordered recoverable.vault.db).keySlots.rows.map (slotColumns toyVaultEnv)).Perm
      (recoverable.vault.db.keySlots.rows.map (slotColumns toyVaultEnv)) := by
  have hok : (openVault toyVaultEnv { recoverable.vault with db := reordered recoverable.vault.db }
      secondPassword 400 .allDone).1.isOk = true := by decide +kernel
  obtain ⟨session, hopen⟩ := Outcome.isOk_iff.mp hok
  have hunlock : unlockVaultWithEpoch toyVaultEnv secondPassword
      (reordered recoverable.vault.db).metadata.kdfParams
      (reordered recoverable.vault.db).metadata.wrappedDek
      (reordered recoverable.vault.db).metadata.keyEpoch = .ok recoverable.vault.dataKey := by
    decide +kernel
  have hkey : session.dek = recoverable.vault.dataKey := by
    obtain ⟨verdict, file, -, hsession, -⟩ := openVault_ok hopen
    exact Except.ok.inj (hsession.symm.trans hunlock)
  have hmessage : registryMessage toyVaultEnv (reordered recoverable.vault.db)
      = registryMessage toyVaultEnv recoverable.vault.db := by decide +kernel
  have hmacced : registryMessage toyVaultEnv (reordered recoverable.vault.db)
      ∈ ({registryMessage toyVaultEnv recoverable.vault.db} : Set Bytes) := by
    rw [hmessage]
    exact Set.mem_singleton _
  have hreach : (histories toyVaultEnv).Reachable KeepsKeys recoverable :=
    ⟨.start sampleVault, ⟨sampleVault, sampleVault_initial, rfl⟩,
      run_of_exec (by decide +kernel) (some_get _).symm⟩
  exact (registry_tamper_evident toyVaultEnv recoverable hreach "v".toList
    {(keyMaterial toyVaultEnv recoverable.vault.db).framed}
    {registryMessage toyVaultEnv recoverable.vault.db} (Set.injOn_singleton _ _)
    (Set.injOn_singleton _ _) (by decide +kernel) (by decide +kernel)
    (reordered recoverable.vault.db)
    ⟨Set.mem_singleton _, by rw [keyMaterial_reordered]; exact Set.mem_singleton _⟩
    ⟨Set.mem_singleton _, hmacced⟩
    ⟨uuidsFit_recoverable, uuidsFit_recoverable.reordered⟩ secondPassword
    (fun _ _ => by decide +kernel) 400 .allDone session hopen hkey).2

/-! ## Earlier states that open -/

/-- The database is put back, the password opens it, the material is not the
latest. -/
def putBack (s : VaultState) (db : VaultDb) (password : Bytes) : Bool :=
  s.db.metadata.slotRegistryMac = some (registryMac toyVaultEnv s.dataKey s.db) &&
    (openVault toyVaultEnv { s with db := db } password 400 .allDone).1.isOk &&
    keyMaterial toyVaultEnv db ≠ keyMaterial toyVaultEnv s.db

/-- The sample vault's own first wrap comes back as a pairing bootstrap. -/
def rejoined : HistoryAction :=
  .own (.importPairingBootstrap 0 samplePassword ⟨sampleParams, sampleWrap, 1⟩ true sampleDraws
    (.write .done))

/-- A backup of the sample vault is restored, with the acknowledgment. -/
def restored : HistoryAction := .restore samplePassword sampleVault.db true .done

/-- What one history ended with is put back after another. -/
def opensAfter (before after : List HistoryAction) (password : Bytes) (current : Bool) : Bool :=
  ((histories toyVaultEnv).exec (.start sampleVault) before).any fun u =>
    ((histories toyVaultEnv).exec (.start sampleVault) after).any fun h =>
      putBack h.vault u.vault.db password &&
        (!current || decide (SidecarCurrent toyVaultEnv h.vault "v".toList))

/-- A rotation's crash leaves the sidecar with the old state, which the old
password opens. A pair-join or a restore lowers the epoch, and the state before it
opens as one epoch ahead; so does the state of a copy of the vault that rotated. -/
theorem earlier_registry_opens :
    opensAfter [] (oneRotationCrash.map .own) samplePassword false = true ∧
    opensAfter rotated (rotated ++ [rejoined]) secondPassword true = true ∧
    opensAfter rotated (rotated ++ [.own (.close 0), restored]) secondPassword true = true ∧
    opensAfter rotated (rotated.take 1) secondPassword true = true := by
  decide +kernel

end SentinelPass
