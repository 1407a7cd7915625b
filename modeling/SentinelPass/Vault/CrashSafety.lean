import SentinelPass.Vault.Revocation

/-!
# Crashes between a commit and the sidecar

Every key change commits to the database and then moves the sidecar; a crash or
a failed write in between leaves the two apart. The vault opens again as long as
the sidecar is unreadable, records the vault as it is, or is one epoch behind an
epoch-bound wrap (`SidecarFits`).

A rotation or a recovery moves a vault from the second case to the third. A
change at a constant epoch has no such room, and neither has a second epoch
change while the sidecar is behind; `Anchored` asks for the sidecar write in
these cases. Where an operation fails before its sidecar write, what the write
would have done is not looked at.
-/

namespace SentinelPass

open Lib EpochGuard
open Option (map_some some map_eq_some_iff)

/-- AES-256-GCM: a sealed ciphertext opens to what was sealed, or not at all. -/
def VaultEnv.Authentic (E : VaultEnv) : Prop :=
  ∀ key nonce aad msg ciphertext, E.aesSeal key nonce aad msg = some ciphertext →
    ∀ key' aad' msg', E.aesOpen key' nonce aad' ciphertext = some msg' → msg' = msg

variable {E : VaultEnv}

/-! ## What comes out of a wrap -/

section Wraps

variable {dataKey dek : Key} {wrapped : WrappedKey} {key : Key}

theorem keyOfBytes_toList {b : Bytes} (h : keyOfBytes b = some key) : key.toList = b := by
  unfold keyOfBytes at h
  split at h
  · cases h
    rfl
  · cases h

theorem SealedOver.opens (hauth : E.Authentic) (h : SealedOver E dataKey wrapped)
    {aad bytes} {out}
    (hopen : E.aesOpen key wrapped.nonce aad (wrapped.wrappedDek ++ wrapped.authTag.toList)
      = some bytes) (hkey : keyOfBytes bytes = some out) : out = dataKey := by
  obtain ⟨sealKey, sealAad, hseal⟩ := h
  have hbytes := hauth _ _ _ _ _ hseal _ _ _ hopen
  have hlist : out.toList = dataKey.toList := (keyOfBytes_toList hkey).trans hbytes
  exact Vector.toList_inj.mp hlist

theorem SealedOver.unlock (hauth : E.Authentic) (h : SealedOver E dataKey wrapped)
    {password params epoch}
    (hunlock : unlockVaultWithEpoch E password params wrapped epoch = .ok dek) : dek = dataKey := by
  obtain ⟨masterKey, -, hunlock⟩ := bind_ok hunlock
  unfold unwrapDekUnderKey at hunlock
  split at hunlock
  · cases hunlock
  rename_i bytes hopen
  split at hunlock
  · cases hunlock
  rename_i key hkey
  cases hunlock
  exact h.opens hauth hopen hkey

theorem SealedOver.recover (hauth : E.Authentic) {slot} (h : SealedOver E dataKey slot.wrappedDek)
    {recoveryKey vaultUuid slotUuid}
    (hopen : unwrapDekViaRecoverySlot E recoveryKey vaultUuid slotUuid slot = .ok dek) :
    dek = dataKey := by
  obtain ⟨-, hopen⟩ := ite_error_eq_ok.mp hopen
  obtain ⟨hnonce, hopen⟩ := ite_error_eq_ok.mp hopen
  rw [not_not.mp hnonce] at hopen
  split at hopen
  · cases hopen
  rename_i bytes hbytes
  split at hopen
  · cases hopen
  rename_i key hkey
  cases hopen
  exact h.opens hauth hbytes hkey

end Wraps

/-! ## The sidecar against the database -/

/-- The sidecar lets the vault open: it cannot be read, it records the vault, or
the vault is one authenticated epoch ahead. -/
def SidecarFits (E : VaultEnv) (db : VaultDb) (vaultUuid : Text) (file : Option Text) : Prop :=
  ∀ side, recorded file = some side → side.vaultUuid = vaultUuid ∧
    ((side.epoch = db.metadata.keyEpoch ∧ side.digestHex = hex (materialDigest E db).toList) ∨
      (db.metadata.keyEpoch.toInt = side.epoch.toInt + 1 ∧
        db.metadata.wrappedDek.epochBound = true))

def sidecarEpoch (file : Option Text) : Option Int64 := (recorded file).map Sidecar.epoch

section Fits

variable {db db' : VaultDb} {vaultUuid : Text} {file : Option Text}

theorem sidecarFits_anchor (hline : OneLine vaultUuid) :
    SidecarFits E db vaultUuid (anchor E db vaultUuid) := by
  intro side hside
  rw [anchor, recorded_render hline] at hside
  cases hside
  exact ⟨rfl, .inl ⟨rfl, rfl⟩⟩

section

variable (h : SidecarFits E db vaultUuid file)

include h

theorem SidecarFits.behind (hother : sidecarEpoch file ≠ some db.metadata.keyEpoch) {side}
    (hside : recorded file = some side) :
    side.vaultUuid = vaultUuid ∧ db.metadata.keyEpoch.toInt = side.epoch.toInt + 1 ∧
      db.metadata.wrappedDek.epochBound = true := by
  obtain ⟨huuid, ⟨hepoch, -⟩ | ⟨hepoch, hbound⟩⟩ := h side hside
  · refine absurd ?_ hother
    rw [sidecarEpoch, hside, map_some, hepoch]
  · exact ⟨huuid, hepoch, hbound⟩

theorem SidecarFits.constant (hepoch : db'.metadata.keyEpoch = db.metadata.keyEpoch)
    (hwrap : db'.metadata.wrappedDek = db.metadata.wrappedDek)
    (hother : sidecarEpoch file ≠ some db.metadata.keyEpoch) :
    SidecarFits E db' vaultUuid file := by
  intro side hside
  obtain ⟨huuid, hbehind, hbound⟩ := h.behind hother hside
  rw [hepoch, hwrap]
  exact ⟨huuid, .inr ⟨hbehind, hbound⟩⟩

theorem SidecarFits.next (hepoch : db'.metadata.keyEpoch.toInt = db.metadata.keyEpoch.toInt + 1)
    (hbound : db'.metadata.wrappedDek.epochBound = true)
    (hcurrent : sidecarEpoch file = none ∨ sidecarEpoch file = some db.metadata.keyEpoch) :
    SidecarFits E db' vaultUuid file := by
  intro side hside
  have hat : side.epoch = db.metadata.keyEpoch := by
    rw [sidecarEpoch, hside, map_some] at hcurrent
    rcases hcurrent with hnone | hat
    · cases hnone
    exact some.inj hat
  exact ⟨(h side hside).1, .inr ⟨by rw [hepoch, hat], hbound⟩⟩

end

theorem SidecarFits.guarded {s} (h : SidecarFits E s.db vaultUuid s.file)
    (huuid : s.db.metadata.vaultUuid = some vaultUuid) (hline : OneLine vaultUuid)
    (hfile : GuardedFile E s file) : SidecarFits E s.db vaultUuid file := by
  rcases hfile with rfl | ⟨u, hu, rfl⟩
  · exact h
  rw [huuid] at hu
  cases hu
  exact sidecarFits_anchor hline

theorem followSidecarAtConstantEpoch_file (w db file vaultUuid) :
    (followSidecarAtConstantEpoch E w db file vaultUuid).2 = anchor E db vaultUuid ∨
      (followSidecarAtConstantEpoch E w db file vaultUuid).2 = file ∧
        (w = .done → ∃ side, recorded file = some side ∧
          (side.vaultUuid ≠ vaultUuid ∨ side.epoch ≠ db.metadata.keyEpoch)) := by
  have hrebase : (rebase w file vaultUuid db.metadata.keyEpoch (materialDigest E db)).2
        = anchor E db vaultUuid ∨
      (rebase w file vaultUuid db.metadata.keyEpoch (materialDigest E db)).2 = file ∧
        (w = .done → ∃ side, recorded file = some side ∧
          (side.vaultUuid ≠ vaultUuid ∨ side.epoch ≠ db.metadata.keyEpoch)) := by
    rcases rebase_cases w file vaultUuid db.metadata.keyEpoch (materialDigest E db) with
      hdone | ⟨hw, e, hfail⟩
    · rw [hdone]
      exact .inl rfl
    · rw [hfail]
      exact .inr ⟨rfl, fun hdone => absurd hdone hw⟩
  unfold followSidecarAtConstantEpoch peek
  cases hside : recorded file with
  | none =>
    rw [hside] at hrebase
    exact hrebase
  | some side =>
    rw [hside] at hrebase
    dsimp only [map_some]
    split
    · next huuid => exact .inr ⟨rfl, fun _ => ⟨side, rfl, .inl huuid⟩⟩
    · split
      · exact hrebase
      rename_i hepoch
      split
      · exact .inr ⟨rfl, fun _ => ⟨side, rfl, .inr hepoch⟩⟩
      exact .inr ⟨rfl, fun _ => ⟨side, rfl, .inr hepoch⟩⟩

theorem bump_file (path w file vaultUuid newEpoch digest) :
    (bump path w file vaultUuid newEpoch digest).2 = some (render vaultUuid newEpoch digest) ∨
      (bump path w file vaultUuid newEpoch digest).2 = file ∧
        (w = .done → ∃ side, recorded file = some side ∧
          (side.vaultUuid ≠ vaultUuid ∨ newEpoch < side.epoch)) := by
  have hwrite : (write w file vaultUuid newEpoch digest).2
    = some (render vaultUuid newEpoch digest) ∨
      (write w file vaultUuid newEpoch digest).2 = file ∧ w ≠ .done := by
    cases w with
    | done => exact .inl rfl
    | writeFailed e => exact .inr ⟨rfl, nofun⟩
    | renameFailed e => exact .inr ⟨rfl, nofun⟩
  have hdone : (write w file vaultUuid newEpoch digest).2
    = some (render vaultUuid newEpoch digest) ∨
      (write w file vaultUuid newEpoch digest).2 = file ∧
        (w = .done → ∃ side, recorded file = some side ∧
          (side.vaultUuid ≠ vaultUuid ∨ newEpoch < side.epoch)) :=
    hwrite.imp_right fun ⟨hfile, hw⟩ => ⟨hfile, fun hd => absurd hd hw⟩
  unfold bump
  cases hside : recorded file with
  | none =>
    rw [hside] at hdone
    exact hdone
  | some side =>
    rw [hside] at hdone
    dsimp only
    split
    · next huuid => exact .inr ⟨rfl, fun _ => ⟨side, rfl, .inl huuid⟩⟩
    · split
      · next hlow => exact .inr ⟨rfl, fun _ => ⟨side, rfl, .inr hlow⟩⟩
      · exact hdone

end Fits

/-! ## Consistent vaults -/

/-- One data key is behind the wraps and behind the registry MAC, which may
still be waiting for its bootstrap. -/
structure ConsistentDb (E : VaultEnv) (dataKey : Key) (vaultUuid : Text) (db : VaultDb) : Prop where
  uuid : db.metadata.vaultUuid = some vaultUuid
  mac : db.metadata.slotRegistryMac = some (registryMac E dataKey db) ∨
    db.metadata.slotRegistryMac = none ∧ preBootstrap E db = true
  wrap : SealedOver E dataKey db.metadata.wrappedDek
  slots : ∀ u slot, db.keySlots.get? u = some slot → SealedOver E dataKey slot.wrappedDek

/-- A consistent database, sessions that hold its key and a sidecar that fits. -/
structure Consistent (E : VaultEnv) (s : VaultState) (vaultUuid : Text) : Prop where
  line : OneLine vaultUuid
  db : ConsistentDb E s.dataKey vaultUuid s.db
  sessions : ∀ session ∈ s.sessions, session = ⟨s.dataKey, vaultUuid⟩
  fits : SidecarFits E s.db vaultUuid s.file

/-- A vault nobody has opened yet: created, re-keyed or migrated, in the last
case with a slot that copies the bytes of the metadata row and has no MAC. -/
structure VaultState.Fresh (E : VaultEnv) (s : VaultState) : Prop where
  initial : s.Initial
  uuid : ∃ u, s.db.metadata.vaultUuid = some u ∧ OneLine u ∧ SidecarFits E s.db u s.file
  mac : s.db.metadata.slotRegistryMac = some (registryMac E s.dataKey s.db) ∨
    s.db.metadata.slotRegistryMac = none ∧
      ∀ row ∈ s.db.keySlots.rows, row.2.format = s.db.metadata.format
  wrap : SealedOver E s.dataKey s.db.metadata.wrappedDek

/-- The sidecar is written wherever a crash would leave it too far behind. -/
def Anchored (s : VaultState) : VaultAction → Prop
  | .openVault _ _ w => s.db.metadata.slotRegistryMac = none → w.follow = .write .done
  | .createRecoverySlot _ _ _ follow =>
    follow = .write .done ∨ sidecarEpoch s.file ≠ some s.db.metadata.keyEpoch
  | .revokeKeySlot _ slotUuid _ follow =>
    follow = .write .done ∨ sidecarEpoch s.file ≠ some s.db.metadata.keyEpoch ∨
      ∀ slot ∈ s.db.keySlots.get? slotUuid, slot.revokedAt ≠ none
  | .changeMasterPassword _ _ _ _ follow =>
    follow = .write .done ∨ sidecarEpoch s.file = none ∨
      sidecarEpoch s.file = some s.db.metadata.keyEpoch
  | .recoverAccess _ _ _ _ follow =>
    follow = .write .done ∨ sidecarEpoch s.file = none ∨
      sidecarEpoch s.file = some s.db.metadata.keyEpoch
  | .importPairingBootstrap .. => False
  | .close _ => True

instance (s : VaultState) (a : VaultAction) : Decidable (Anchored s a) :=
  match a with
  | .openVault .. | .createRecoverySlot .. | .revokeKeySlot .. | .changeMasterPassword ..
  | .recoverAccess .. => by
    unfold Anchored
    infer_instance
  | .importPairingBootstrap .. => .isFalse id
  | .close _ => .isTrue trivial

section Transactions

variable {dataKey : Key} {vaultUuid : Text} {db db' : VaultDb}

@[simp] theorem retireRecovery_wrappedDek (now slot) :
    (retireRecovery now slot).wrappedDek = slot.wrappedDek := by
  unfold retireRecovery
  split
  · rfl
  rfl

@[simp] theorem retire_wrappedDek (now slot) : (retire now slot).wrappedDek = slot.wrappedDek := by
  unfold retire
  split
  · rfl
  rfl

theorem ConsistentDb.attempts (h : ConsistentDb E dataKey vaultUuid db) (attempts) :
    ConsistentDb E dataKey vaultUuid { db with failedAttempts := attempts } :=
  ⟨h.uuid, h.mac, h.wrap, h.slots⟩

theorem consistentDb_commit (huuid : db.metadata.vaultUuid = some vaultUuid)
    (hwrap : SealedOver E dataKey db.metadata.wrappedDek)
    (hslots : ∀ u slot, db.keySlots.get? u = some slot → SealedOver E dataKey slot.wrappedDek) :
    ConsistentDb E dataKey vaultUuid (commitSlotRegistry E dataKey db) :=
  ⟨huuid, .inl rfl, hwrap, hslots⟩

section

variable (h : ConsistentDb E dataKey vaultUuid db) {r : Draws} {wrapped : WrappedKey}
  {newEpoch : Int64}

include h

theorem ConsistentDb.createRecoverySlotTx {recoveryKey : Key}
    (htx : createRecoverySlotTx E dataKey db recoveryKey r = .ok db') :
    ConsistentDb E dataKey vaultUuid db' ∧ db'.metadata.keyEpoch = db.metadata.keyEpoch ∧
      db'.metadata.wrappedDek = db.metadata.wrappedDek := by
  obtain ⟨wrapped, keySlots, -, hwrap, rfl, -, hget⟩ := createRecoverySlotTx_ok htx
  refine ⟨consistentDb_commit h.uuid h.wrap ?_, rfl, rfl⟩
  intro u slot hslot
  rw [hget u] at hslot
  split at hslot
  · rw [← some.inj hslot]
    exact wrapDekForRecoverySlot_ok hwrap
  obtain ⟨old, hold, rfl⟩ := map_eq_some_iff.mp hslot
  rw [retireRecovery_wrappedDek]
  exact h.slots u old hold

theorem ConsistentDb.revokeKeySlotTx {slotUuid now}
    (htx : revokeKeySlotTx E dataKey db slotUuid now = .ok db') :
    ConsistentDb E dataKey vaultUuid db' ∧ db'.metadata.keyEpoch = db.metadata.keyEpoch ∧
      db'.metadata.wrappedDek = db.metadata.wrappedDek ∧
      ((∀ slot ∈ db.keySlots.get? slotUuid, slot.revokedAt ≠ none) → db' = db) := by
  obtain ⟨target, -, htarget, ⟨-, rfl⟩ | ⟨hrev, -, rfl⟩⟩ := revokeKeySlotTx_ok htx
  · exact ⟨h, rfl, rfl, fun _ => rfl⟩
  · refine ⟨consistentDb_commit h.uuid h.wrap ?_, rfl, rfl,
      fun hall => absurd hrev (hall target htarget)⟩
    intro u slot hslot
    rw [Table.get?_update] at hslot
    split at hslot
    · obtain ⟨old, hold, rfl⟩ := map_eq_some_iff.mp hslot
      exact h.slots slotUuid old hold
    exact h.slots u slot hslot

theorem ConsistentDb.rotationTx {kdfParams} (hsealed : SealedOver E dataKey wrapped)
    (htx : rotationTx E dataKey db kdfParams wrapped newEpoch = .ok db') :
    ConsistentDb E dataKey vaultUuid db' ∧ db'.metadata.keyEpoch = newEpoch ∧
    db'.metadata.wrappedDek = wrapped := by
  obtain ⟨-, rfl⟩ := rotationTx_ok htx
  refine ⟨consistentDb_commit h.uuid hsealed ?_, rfl, rfl⟩
  intro u slot hslot
  have hslot' := (get?_syncPasswordSlots kdfParams wrapped newEpoch u).symm.trans hslot
  obtain ⟨old, hold, rfl⟩ := map_eq_some_iff.mp hslot'
  unfold rewrapPassword
  split
  · exact hsealed
  exact h.slots u old hold

theorem ConsistentDb.recoveryTx (hsealed : SealedOver E dataKey wrapped)
    (htx : recoveryTx E dataKey db wrapped newEpoch r = .ok db') :
    ConsistentDb E dataKey vaultUuid db' ∧ db'.metadata.keyEpoch = newEpoch ∧
    db'.metadata.wrappedDek = wrapped := by
  obtain ⟨keySlots, -, rfl, -, hget⟩ := recoveryTx_ok htx
  refine ⟨consistentDb_commit h.uuid hsealed ?_, rfl, rfl⟩
  intro u slot hslot
  have hslot' := (hget u).symm.trans hslot
  split at hslot'
  · rw [← some.inj hslot']
    exact hsealed
  obtain ⟨old, hold, rfl⟩ := map_eq_some_iff.mp hslot'
  rw [retire_wrappedDek]
  exact h.slots u old hold

end

end Transactions

/-! ## Steps and runs -/

section Steps

variable {s : VaultState} {vaultUuid : Text} {follow : Follow}

theorem VaultState.Fresh.consistent (h : s.Fresh E) : ∃ vaultUuid, Consistent E s vaultUuid := by
  obtain ⟨⟨hsessions, v, slot, hrows, huse, hparams, hwrap, hnonce, hepoch⟩,
    ⟨vaultUuid, huuid, hline, hfits⟩, hmac, hsealed⟩ := h
  refine ⟨vaultUuid, hline, ⟨huuid, hmac.imp_right ?_, hsealed, ?_⟩, ?_, hfits⟩
  · rintro ⟨hnone, hformat⟩
    refine ⟨hnone, ?_⟩
    have hsame : slot.format = s.db.metadata.format := hformat (v, slot) (by rw [hrows]; simp)
    -- with one format, equal material is equal bytes
    simp [preBootstrap, hrows, huse.1, huse.2, hepoch, KeySlot.kdfBlob, hparams, hwrap,
      hnonce, hsame]
  · intro u slot' hget
    rw [← Table.mem_rows, hrows, List.mem_singleton] at hget
    cases hget
    rw [hwrap]
    exact hsealed
  · rw [hsessions]
    exact nofun

theorem Consistent.openVault (hauth : E.Authentic) (h : Consistent E s vaultUuid) (password now) {w}
    (hguard : s.db.metadata.slotRegistryMac = none → w.follow = .write .done) :
    Consistent E (openVault E s password now w).2 vaultUuid := by
  have hcases := openVault_cases (E := E) s password now w
  generalize (SentinelPass.openVault E s password now w).1 = outcome at hcases
  generalize (SentinelPass.openVault E s password now w).2 = after at hcases ⊢
  generalize w.follow = follow at hcases hguard
  -- a session that is added holds the data key and the vault's uuid
  have hnew : ∀ {dek : Key} {u : Text}, unlockVaultWithEpoch E password s.db.metadata.kdfParams
      s.db.metadata.wrappedDek s.db.metadata.keyEpoch = .ok dek → s.db.metadata.vaultUuid = some u →
      dek = s.dataKey ∧ u = vaultUuid := by
    intro dek u hunlock hu
    refine ⟨h.db.wrap.unlock hauth hunlock, ?_⟩
    rw [h.db.uuid] at hu
    exact (some.inj hu).symm
  have hadd : ∀ session ∈ s.sessions ++ [⟨s.dataKey, vaultUuid⟩],
      session = ⟨s.dataKey, vaultUuid⟩ := by
    intro session hmem
    rcases List.mem_append.mp hmem with hold | hlast
    · exact h.sessions session hold
    · exact List.mem_singleton.mp hlast
  cases hcases with
  | refused hfile =>
    exact ⟨h.line, h.db.attempts _, h.sessions, h.fits.guarded h.db.uuid h.line hfile⟩
  | verified hfile hu hunlock =>
    obtain ⟨rfl, rfl⟩ := hnew hunlock hu
    exact ⟨h.line, h.db.attempts _, hadd, h.fits.guarded h.db.uuid h.line hfile⟩
  | bootstrapped hfile hu hunlock hmac hboot =>
    obtain ⟨rfl, rfl⟩ := hnew hunlock hu
    have hdone := hguard hmac
    cases hboot with
    | crash => cases hdone
    | failed hw =>
      cases hdone
      exact absurd rfl hw
    | followed =>
      exact ⟨h.line, consistentDb_commit h.db.uuid h.db.wrap h.db.slots, hadd,
        sidecarFits_anchor h.line⟩

theorem Consistent.followConstantEpoch (h : Consistent E s vaultUuid) {db}
    (hdb : ConsistentDb E s.dataKey vaultUuid db)
    (hepoch : db.metadata.keyEpoch = s.db.metadata.keyEpoch)
    (hwrap : db.metadata.wrappedDek = s.db.metadata.wrappedDek)
    (hguard : follow = .write .done ∨ sidecarEpoch s.file ≠ some s.db.metadata.keyEpoch ∨
      db = s.db) :
    Consistent E (followConstantEpoch E { s with db := db } vaultUuid follow).2 vaultUuid := by
  have hstay : follow ≠ .write .done → SidecarFits E db vaultUuid s.file := by
    intro hnot
    rcases hguard with hdone | hother | rfl
    · exact absurd hdone hnot
    · exact h.fits.constant hepoch hwrap hother
    · exact h.fits
  cases follow with
  | crash => exact ⟨h.line, hdb, h.sessions, hstay nofun⟩
  | write w =>
    refine ⟨h.line, hdb, h.sessions, ?_⟩
    show SidecarFits E db vaultUuid (followSidecarAtConstantEpoch E w db s.file vaultUuid).2
    rcases followSidecarAtConstantEpoch_file w db s.file vaultUuid with
      hanchor | ⟨hsame, hdone⟩
    · rw [hanchor]
      exact sidecarFits_anchor h.line
    · rw [hsame]
      by_cases hw : w = .done
      · -- the write was asked for, so the sidecar is elsewhere
        obtain ⟨side, hside, hno⟩ := hdone hw
        have huuid := (h.fits side hside).1
        refine h.fits.constant hepoch hwrap ?_
        rw [sidecarEpoch, hside, map_some, ← hepoch]
        intro hat
        rcases hno with hno | hno
        · exact hno huuid
        · exact hno (some.inj hat)
      · exact hstay fun hf => hw (Follow.write.inj hf)

theorem Consistent.followBump (h : Consistent E s vaultUuid) {db : VaultDb} {follow : Follow}
    {newEpoch : Int64} (hdb : ConsistentDb E s.dataKey vaultUuid db)
    (hnext : nextEpoch s.db.metadata.keyEpoch = .ok newEpoch)
    (hepoch : db.metadata.keyEpoch = newEpoch)
    (hbound : db.metadata.wrappedDek.epochBound = true)
    (hguard : follow = .write .done ∨ sidecarEpoch s.file = none ∨
      sidecarEpoch s.file = some s.db.metadata.keyEpoch) :
    Consistent E (followBump E { s with db := db } vaultUuid newEpoch follow).2 vaultUuid := by
  subst hepoch
  have hint := (nextEpoch_ok hnext).2
  have hstay : follow ≠ .write .done → SidecarFits E db vaultUuid s.file := by
    intro hnot
    rcases hguard with hdone | hcurrent
    · exact absurd hdone hnot
    exact h.fits.next hint hbound hcurrent
  cases follow with
  | crash => exact ⟨h.line, hdb, h.sessions, hstay nofun⟩
  | write w =>
    refine ⟨h.line, hdb, h.sessions, ?_⟩
    show SidecarFits E db vaultUuid
      (bump E.sidecarPath w s.file vaultUuid db.metadata.keyEpoch (materialDigest E db)).2
    rcases bump_file E.sidecarPath w s.file vaultUuid db.metadata.keyEpoch
      (materialDigest E db) with
      hanchor | ⟨hsame, hdone⟩
    · rw [hanchor]
      exact sidecarFits_anchor h.line
    · rw [hsame]
      by_cases hw : w = .done
      · -- a sidecar that fits is never ahead of the new epoch
        obtain ⟨side, hside, hno⟩ := hdone hw
        obtain ⟨huuid, hplace⟩ := h.fits side hside
        have hle : side.epoch.toInt ≤ s.db.metadata.keyEpoch.toInt := by
          rcases hplace with ⟨hat, -⟩ | ⟨hbehind, -⟩
          · rw [hat]
          · omega
        rcases hno with hno | hno
        · exact absurd huuid hno
        rw [Int64.lt_iff_toInt_lt] at hno
        omega
      · exact hstay fun hf => hw (Follow.write.inj hf)

theorem Consistent.afterSession {α : Type} {out : Outcome α × VaultState} (i : Nat)
    (h : Consistent E out.2 vaultUuid) : Consistent E (afterSession i out) vaultUuid := by
  obtain ⟨outcome, t⟩ := out
  cases outcome with
  | crashed =>
    refine ⟨h.line, h.db, ?_, h.fits⟩
    intro session hmem
    exact h.sessions session (List.mem_of_mem_eraseIdx hmem)
  | returned r => exact h

theorem Consistent.changeMasterPassword (h : Consistent E s vaultUuid)
    (currentPassword newPassword) (r)
    (hguard : follow = .write .done ∨ sidecarEpoch s.file = none ∨
      sidecarEpoch s.file = some s.db.metadata.keyEpoch) :
    Consistent E (changeMasterPassword E s ⟨s.dataKey, vaultUuid⟩ currentPassword newPassword r
      follow).2 vaultUuid := by
  rcases changeMasterPassword_cases s ⟨s.dataKey, vaultUuid⟩ currentPassword newPassword r
    follow with ⟨attempts, e, hout⟩ | ⟨wrapped, newEpoch, db, hsealed, hbound, hnext, htx, hout⟩
  · rw [hout]
    exact ⟨h.line, h.db.attempts attempts, h.sessions, h.fits⟩
  · rw [hout]
    obtain ⟨hdb, hepoch, hwrap⟩ := h.db.rotationTx hsealed htx
    exact h.followBump hdb hnext hepoch (by rw [hwrap]; exact hbound) hguard

theorem Consistent.recoverAccess (hauth : E.Authentic) (h : Consistent E s vaultUuid)
    (recoveryKey : Key) (newPassword : Bytes) (r : Draws) (mint : WriteOutcome) {follow : Follow}
    (hguard : follow = .write .done ∨ sidecarEpoch s.file = none ∨
      sidecarEpoch s.file = some s.db.metadata.keyEpoch) :
    Consistent E (recoverAccess E s recoveryKey newPassword r mint follow).2 vaultUuid := by
  obtain ⟨file, hfile, hcases⟩ := recoverAccess_cases s recoveryKey newPassword r mint follow
  have hs : Consistent E { s with file := file } vaultUuid :=
    ⟨h.line, h.db, h.sessions, h.fits.guarded h.db.uuid h.line hfile⟩
  rcases hcases with ⟨e, hout⟩ | ⟨u, dek, newEpoch, wrapped, db, hu, hstage, htx, hout⟩
  · rw [hout]
    exact hs
  · rw [hout]
    obtain ⟨⟨row, hrow, hopen⟩, hnext, hsealed, hbound⟩ := stageRecovery_ok hstage
    have hslot := h.db.slots row.1 row.2 (Table.mem_rows.mp hrow)
    obtain rfl : dek = s.dataKey := hslot.recover hauth hopen
    obtain rfl : u = vaultUuid := by
      rw [h.db.uuid] at hu
      exact (some.inj hu).symm
    obtain ⟨hdb, hepoch, hwrap⟩ := h.db.recoveryTx hsealed htx
    refine hs.followBump hdb hnext hepoch (by rw [hwrap]; exact hbound) (hguard.imp_right ?_)
    -- a file that was just minted records the epoch
    intro hcurrent
    rcases hfile with rfl | ⟨v, hv, rfl⟩
    · exact hcurrent
    rw [hu] at hv
    cases hv
    refine .inr ?_
    show sidecarEpoch (anchor E s.db u) = _
    rw [sidecarEpoch, anchor, recorded_render h.line]
    rfl

/-- The steps that `Anchored` allows keep the vault consistent. -/
theorem Consistent.step (hauth : E.Authentic) {s' : VaultState} {a : VaultAction}
    (h : Consistent E s vaultUuid)
    (hanchored : Anchored s a) (hstep : vaultStep E s a = some s') : Consistent E s' vaultUuid := by
  have hsession : ∀ {i : Nat} {session : Session}, s.sessions[i]? = some session →
      session = ⟨s.dataKey, vaultUuid⟩ := fun hi => h.sessions _ (List.mem_of_getElem? hi)
  cases a with
  | openVault password now w =>
    cases hstep
    exact h.openVault hauth password now hanchored
  | createRecoverySlot i recoveryKey r follow =>
    obtain ⟨session, hi, rfl⟩ := map_eq_some_iff.mp hstep
    obtain rfl := hsession hi
    refine Consistent.afterSession i ?_
    rcases createRecoverySlot_cases s ⟨s.dataKey, vaultUuid⟩ recoveryKey r follow with
      ⟨e, hout⟩ | ⟨db, htx, hout⟩
    · rw [hout]
      exact h
    · rw [hout]
      obtain ⟨hdb, hepoch, hwrap⟩ := h.db.createRecoverySlotTx htx
      exact h.followConstantEpoch hdb hepoch hwrap (hanchored.imp_right .inl)
  | revokeKeySlot i slotUuid now follow =>
    obtain ⟨session, hi, rfl⟩ := map_eq_some_iff.mp hstep
    obtain rfl := hsession hi
    refine Consistent.afterSession i ?_
    rcases revokeKeySlot_cases s ⟨s.dataKey, vaultUuid⟩ slotUuid now follow with
      ⟨e, hout⟩ | ⟨db, htx, hout⟩
    · rw [hout]
      exact h
    · rw [hout]
      obtain ⟨hdb, hepoch, hwrap, hsame⟩ := h.db.revokeKeySlotTx htx
      exact h.followConstantEpoch hdb hepoch hwrap (hanchored.imp_right (Or.imp_right hsame))
  | changeMasterPassword i currentPassword newPassword r follow =>
    obtain ⟨session, hi, rfl⟩ := map_eq_some_iff.mp hstep
    obtain rfl := hsession hi
    exact Consistent.afterSession i (h.changeMasterPassword currentPassword newPassword r hanchored)
  | recoverAccess recoveryKey newPassword r mint follow =>
    cases hstep
    exact h.recoverAccess hauth recoveryKey newPassword r mint hanchored
  | importPairingBootstrap i password bootstrap empty r follow => exact hanchored.elim
  | close i =>
    cases hstep
    refine ⟨h.line, h.db, ?_, h.fits⟩
    intro session hmem
    exact h.sessions session (List.mem_of_mem_eraseIdx hmem)

theorem SidecarFits.check (h : SidecarFits E s.db vaultUuid s.file) :
    check E.sidecarPath .done s.file vaultUuid s.db.metadata.keyEpoch (materialDigest E s.db)
        = (.ok (.mintedFromAbsent s.db.metadata.keyEpoch), anchor E s.db vaultUuid) ∨
    check E.sidecarPath .done s.file vaultUuid s.db.metadata.keyEpoch (materialDigest E s.db)
        = (.ok .current, s.file) ∨
    ∃ side, recorded s.file = some side ∧ side.vaultUuid = vaultUuid ∧
      s.db.metadata.keyEpoch.toInt = side.epoch.toInt + 1 ∧
      s.db.metadata.wrappedDek.epochBound = true ∧
      check E.sidecarPath .done s.file vaultUuid s.db.metadata.keyEpoch (materialDigest E s.db)
        = (.ok (.healPending side.epoch s.db.metadata.keyEpoch), s.file) := by
  unfold EpochGuard.check
  cases hside : recorded s.file with
  | none => exact .inl rfl
  | some side =>
    refine .inr ?_
    obtain ⟨huuid, ⟨hepoch, hdigest⟩ | ⟨hepoch, hbound⟩⟩ := h side hside
    · refine .inl ?_
      simp [huuid, hepoch, hdigest]
    · refine .inr ⟨side, rfl, huuid, hepoch, hbound, ?_⟩
      have hlow : ¬ s.db.metadata.keyEpoch < side.epoch := by
        rw [Int64.lt_iff_toInt_lt]
        omega
      have hhigh : side.epoch < s.db.metadata.keyEpoch := by
        rw [Int64.lt_iff_toInt_lt]
        omega
      have hmax := ne_maxValue_of_lt (Int64.lt_iff_toInt_lt.mp hhigh)
      have hjump : ¬ saturatingSucc side.epoch < s.db.metadata.keyEpoch := by
        have hsucc := toInt_add_one_of_ne hmax
        rw [saturatingSucc, if_neg hmax, Int64.lt_iff_toInt_lt]
        omega
      simp [huuid, hlow, hhigh, hjump]

theorem adoptPending_heal {side} (hside : recorded s.file = some side)
    (huuid : side.vaultUuid = vaultUuid)
    (hepoch : s.db.metadata.keyEpoch.toInt = side.epoch.toInt + 1)
    (hbound : s.db.metadata.wrappedDek.epochBound = true) :
    ∃ file, adoptPending E .done s vaultUuid (.healPending side.epoch s.db.metadata.keyEpoch)
      = (.ok (), file) := by
  have hbelow : side.epoch.toInt < s.db.metadata.keyEpoch.toInt := by omega
  have hmax := ne_maxValue_of_lt hbelow
  have hsucc : s.db.metadata.keyEpoch = side.epoch + 1 :=
    Int64.toInt_inj.mp (hepoch.trans (toInt_add_one_of_ne hmax).symm)
  unfold adoptPending adoptHeal
  simp only [hbound, if_true, hside]
  split
  · exact ⟨_, rfl⟩
  · rw [if_neg (by simp [huuid, hsucc])]
    exact ⟨_, rfl⟩

theorem ConsistentDb.finish (h : ConsistentDb E s.dataKey vaultUuid s.db) :
    (finishOpen (ensureOrVerifySlotRegistry E (.write .done) s s.dataKey vaultUuid) s.dataKey
      vaultUuid).1 = .returned (.ok ⟨s.dataKey, vaultUuid⟩) := by
  unfold ensureOrVerifySlotRegistry
  rcases h.mac with hmac | ⟨hmac, hpre⟩
  · rw [hmac]
    rw [verifySlotRegistry_ok.mpr hmac]
    rfl
  · rw [hmac]
    rw [if_neg (by rw [hpre]; simp)]
    rfl

theorem Consistent.opens (hauth : E.Authentic) (h : Consistent E s vaultUuid) {password : Bytes}
    {now : Int64} {dek : Key} (hlock : remainingLockoutSeconds s.db now = none)
    (hunlock : unlockVaultWithEpoch E password s.db.metadata.kdfParams s.db.metadata.wrappedDek
      s.db.metadata.keyEpoch = .ok dek) :
    (SentinelPass.openVault E s password now .allDone).1 = .returned (.ok ⟨dek, vaultUuid⟩) := by
  obtain rfl := h.db.wrap.unlock hauth hunlock
  -- after the guard and the heal only the file has changed
  have hfinish : ∀ file : Option Text, (finishOpen (ensureOrVerifySlotRegistry E (.write .done)
        { s with file := file, db := { s.db with failedAttempts := [] } } s.dataKey vaultUuid)
        s.dataKey vaultUuid).1 = .returned (.ok ⟨s.dataKey, vaultUuid⟩) := by
    intro file
    exact ConsistentDb.finish
      (h.db.attempts [])
  unfold SentinelPass.openVault enforceEpochGuard
  simp only [hlock, h.db.uuid, OpenWrites.allDone]
  rcases h.fits.check with hminted | hcurrent | ⟨side, hside, huuid, hepoch, hbound, hheal⟩
  · simp only [hminted, hunlock]
    exact hfinish _
  · simp only [hcurrent, hunlock]
    exact hfinish _
  · obtain ⟨file, hadopt⟩ := adoptPending_heal (E := E) hside huuid hepoch hbound
    simp only [hheal, Except.map, hunlock, hadopt]
    exact hfinish _

/-- **A vault survives its crashes.** After every run of opens, slot changes,
rotations and recoveries that `Anchored` allows, the guard lets the vault pass
and every password that unlocks it opens it. -/
theorem open_after_crash (E : VaultEnv) (hauth : E.Authentic) (s₀ s : VaultState)
    (hfresh : s₀.Fresh E) (hrun : (vault E).Run Anchored s₀ s) :
    (∃ vaultUuid verdict file, enforceEpochGuard E .done s = (.ok (vaultUuid, verdict), file)) ∧
    ∀ password now dek, remainingLockoutSeconds s.db now = none →
      unlockVaultWithEpoch E password s.db.metadata.kdfParams s.db.metadata.wrappedDek
        s.db.metadata.keyEpoch = .ok dek →
      ∃ vaultUuid, (SentinelPass.openVault E s password now .allDone).1
        = .returned (.ok ⟨dek, vaultUuid⟩) := by
  obtain ⟨vaultUuid, hstart⟩ := hfresh.consistent
  have h : Consistent E s vaultUuid :=
    hrun.invariant (P := fun s => Consistent E s vaultUuid) hstart
      fun hs hok hstep => hs.step hauth hok hstep
  constructor
  · unfold enforceEpochGuard
    simp only [h.db.uuid]
    rcases h.fits.check with hminted | hcurrent | ⟨side, -, -, -, -, hheal⟩
    · exact ⟨_, _, _, by rw [hminted]; rfl⟩
    · exact ⟨_, _, _, by rw [hcurrent]; rfl⟩
    · exact ⟨_, _, _, by rw [hheal]; rfl⟩
  · intro password now dek hlock hunlock
    exact ⟨vaultUuid, h.opens hauth hlock hunlock⟩

end Steps

/-! ## Crashes that lock the vault -/

/-- The password unlocks the wrap, nothing is locked out, and the guard refuses. -/
def refused (s : VaultState) (password : Bytes) (now : Int64) : Bool :=
  (remainingLockoutSeconds s.db now).isNone &&
    (unlockVaultWithEpoch toyVaultEnv password s.db.metadata.kdfParams s.db.metadata.wrappedDek
      s.db.metadata.keyEpoch).isOk &&
    !(enforceEpochGuard toyVaultEnv .done s).1.isOk &&
    !(SentinelPass.openVault toyVaultEnv s password now .allDone).1.isOk

/-- The sample vault as a migration leaves it: no MAC, one format. -/
def migratedVault : VaultState :=
  { sampleVault with
    db := { sampleUnsealedDb with
      metadata := { sampleUnsealedDb.metadata with format := .bincode } } }

def secondPassword : Bytes := utf8 "second password"

def thirdPassword : Bytes := utf8 "third password"

def bootstrapCrash : List VaultAction := [.openVault samplePassword 150 ⟨.done, .done, .crash⟩]

def revokeCrash : List VaultAction := withRecovery ++ [.revokeKeySlot 0 "r".toList 300 .crash]

def rotationCrashes : List VaultAction :=
  [.openVault samplePassword 150 .allDone, .openVault samplePassword 160 .allDone,
    .changeMasterPassword 0 samplePassword secondPassword sampleDraws .crash,
    .changeMasterPassword 0 secondPassword thirdPassword sampleDraws .crash]

theorem sampleVault_fresh : sampleVault.Fresh toyVaultEnv where
  initial := sampleVault_initial
  uuid := ⟨"v".toList, rfl, oneLine_v, nofun⟩
  mac := .inl rfl
  wrap := ⟨padKey samplePassword, i64LeBytes 1, rfl⟩

theorem migratedVault_fresh : migratedVault.Fresh toyVaultEnv where
  initial := ⟨rfl, _, _, rfl, ⟨rfl, rfl⟩, ⟨rfl, rfl, rfl, rfl⟩⟩
  uuid := ⟨"v".toList, rfl, oneLine_v, nofun⟩
  mac := .inr ⟨rfl, by decide⟩
  wrap := ⟨padKey samplePassword, i64LeBytes 1, rfl⟩

theorem refused_of_exec {s₀ acts password now}
    (h : ((vault toyVaultEnv).exec s₀ acts).any (fun s => refused s password now) = true) :
    ∃ s, (vault toyVaultEnv).Run (fun _ _ => True) s₀ s ∧ refused s password now = true := by
  obtain ⟨s, hexec, hrefused⟩ := (Option.any_eq_true _ _).mp h
  exact ⟨s, Machine.run_of_exec (Machine.allowed_true _ _) hexec, hrefused⟩

/-- One crash after a bootstrap or a revocation, or two crashes after rotations, and the
valid password is refused by the guard. -/
theorem crash_refused : migratedVault.Fresh toyVaultEnv ∧ sampleVault.Fresh toyVaultEnv ∧
    (∃ s, (vault toyVaultEnv).Run (fun _ _ => True) migratedVault s ∧
      refused s samplePassword 400 = true) ∧
    (∃ s, (vault toyVaultEnv).Run (fun _ _ => True) sampleVault s ∧
      refused s samplePassword 400 = true) ∧
    ∃ s, (vault toyVaultEnv).Run (fun _ _ => True) sampleVault s ∧
      refused s thirdPassword 400 = true := by
  have hboot : ((vault toyVaultEnv).exec migratedVault bootstrapCrash).any
      (fun s => refused s samplePassword 400) = true := by decide +kernel
  have hrevoke : ((vault toyVaultEnv).exec sampleVault revokeCrash).any
      (fun s => refused s samplePassword 400) = true := by decide +kernel
  have hrotate : ((vault toyVaultEnv).exec sampleVault rotationCrashes).any
      (fun s => refused s thirdPassword 400) = true := by decide +kernel
  exact ⟨migratedVault_fresh, sampleVault_fresh, refused_of_exec hboot, refused_of_exec hrevoke,
    refused_of_exec hrotate⟩

theorem toyVaultEnv_authentic : toyVaultEnv.Authentic := by
  intro key nonce aad msg ciphertext hseal key' aad' msg' hopen
  cases hseal
  have hlen : (msg ++ (sampleTag key nonce aad).toList).length - 16 = msg.length := by simp
  dsimp only [toyVaultEnv] at hopen
  rw [hlen] at hopen
  split at hopen
  · rw [List.take_left] at hopen
    exact (some.inj hopen).symm
  · cases hopen

/-- A rotation whose crash leaves the sidecar one epoch behind. -/
def oneRotationCrash : List VaultAction :=
  [.openVault samplePassword 150 .allDone,
    .changeMasterPassword 0 samplePassword secondPassword sampleDraws .crash]

theorem oneRotationCrash_runs : ((vault toyVaultEnv).exec sampleVault oneRotationCrash).isSome := by
  decide +kernel

theorem open_after_crash_rotation :
    ∃ s vaultUuid, (vault toyVaultEnv).Run Anchored sampleVault s ∧ s.db.metadata.keyEpoch = 2 ∧
      (SentinelPass.openVault toyVaultEnv s secondPassword 400 .allDone).1
        = .returned (.ok ⟨sampleDek, vaultUuid⟩) := by
  have hallowed : (vault toyVaultEnv).Allowed Anchored sampleVault oneRotationCrash := by
    decide +kernel
  have hrun := Machine.run_of_exec hallowed (Option.some_get oneRotationCrash_runs).symm
  obtain ⟨vaultUuid, hopen⟩ := (open_after_crash toyVaultEnv toyVaultEnv_authentic sampleVault _
    sampleVault_fresh hrun).2 secondPassword 400 sampleDek (by decide +kernel) (by decide +kernel)
  exact ⟨_, vaultUuid, hrun, by decide +kernel, hopen⟩

end SentinelPass
