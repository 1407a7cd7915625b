import SentinelPass.Vault.Revocation

/-!
# The lockout

`get_remaining_lockout_seconds` over histories of `open` and `change_master_password`, by any
number of processes. Both record a wrong password in `failed_attempts`, and an `open` that
finds the right one clears the table.

The clock is read once in a call: the reading that the lockout was checked with is also the
time that a failure is recorded at.
-/

namespace SentinelPass

open Lib List Outcome

/-- The operations that check the master password. -/
inductive PasswordCall
  | openVault (password : Bytes) (now : Int64) (w : OpenWrites)
  | changeMasterPassword (session : Session) (currentPassword newPassword : Bytes) (r : Draws)
      (follow : Follow)

def Outcome.error? {α : Type} : Outcome α → Option VaultError
  | returned (.error e) => some e
  | _ => none

namespace PasswordCall

variable (E : VaultEnv) (s : VaultState)

def now : PasswordCall → Int64
  | openVault _ now _ => now
  | changeMasterPassword _ _ _ r _ => r.now

/-- The error that is returned, and the state afterwards. -/
def run : PasswordCall → Option VaultError × VaultState
  | openVault password now w =>
    let p := SentinelPass.openVault E s password now w
    (p.1.error?, p.2)
  | changeMasterPassword session currentPassword newPassword r follow =>
    let p := SentinelPass.changeMasterPassword E s session currentPassword newPassword r follow
    (p.1.error?, p.2)

/-- What is wrong with the call itself. -/
def misuse : PasswordCall → Option VaultError
  | openVault .. => none
  | changeMasterPassword _ currentPassword newPassword _ _ =>
    (returned (checkNewPassword currentPassword newPassword)).error?

/-- What stands in the way between the lockout and the password. -/
def obstacle : PasswordCall → Option VaultError
  | openVault _ _ w => (returned (enforceEpochGuard E w.mint s).1).error?
  | changeMasterPassword .. => (returned (nextEpoch s.db.metadata.keyEpoch)).error?

/-- The password does not open the vault. -/
def wrong : PasswordCall → Bool
  | openVault password _ _ =>
    !(unlockVaultWithEpoch E password s.db.metadata.kdfParams s.db.metadata.wrappedDek
      s.db.metadata.keyEpoch).isOk
  | changeMasterPassword session currentPassword newPassword r _ =>
    rotateMasterPassword E session.dek currentPassword s.db.metadata.kdfParams
      s.db.metadata.wrappedDek s.db.metadata.keyEpoch newPassword r.kdfParams r.nonce
        = .error .authenticationFailed

/-- The password opens the vault, and for a change the new one is wrapped. -/
def right : PasswordCall → Bool
  | openVault password _ _ =>
    (unlockVaultWithEpoch E password s.db.metadata.kdfParams s.db.metadata.wrappedDek
      s.db.metadata.keyEpoch).isOk
  | changeMasterPassword session currentPassword newPassword r _ =>
    (rotateMasterPassword E session.dek currentPassword s.db.metadata.kdfParams
      s.db.metadata.wrappedDek s.db.metadata.keyEpoch newPassword r.kdfParams r.nonce).isOk

/-- What `failed_attempts` may hold after a call that is not locked out. The password is
evaluated once nothing else is in the way: a wrong one is recorded. -/
def after (call : PasswordCall) : List (List Int64) :=
  match call.misuse, call.obstacle E s, call.wrong E s with
  | none, none, true => [s.db.failedAttempts ++ [call.now]]
  | none, none, false => [s.db.failedAttempts, []]
  | _, _, _ => [s.db.failedAttempts]

end PasswordCall

/-! ## One call -/

section Call

variable {E : VaultEnv} {s : VaultState} {call : PasswordCall}

theorem failedAttempt_attempts (db now e) :
    (failedAttempt db now e).2.failedAttempts = db.failedAttempts ++ [now] := by
  unfold failedAttempt
  dsimp only
  split <;> rfl

theorem finishOpen_attempts (follow s dek vaultUuid) :
    (finishOpen (ensureOrVerifySlotRegistry E follow s dek vaultUuid) dek
        vaultUuid).2.db.failedAttempts
      = s.db.failedAttempts := by
  have hregistry : (ensureOrVerifySlotRegistry E follow s dek vaultUuid).2.db.failedAttempts
      = s.db.failedAttempts := by
    unfold ensureOrVerifySlotRegistry
    split
    · rfl
    split
    · rfl
    cases follow <;> rfl
  cases hout : ensureOrVerifySlotRegistry E follow s dek vaultUuid with
  | mk out s' =>
    rw [hout] at hregistry
    cases out with
    | crashed => exact hregistry
    | returned answer => cases answer <;> exact hregistry

open PasswordCall

theorem run_locked {remaining : Int} (h : remainingLockoutSeconds s.db call.now = some remaining) :
    call.run E s = (some (call.misuse.getD (.lockedOut remaining)), s) := by
  cases call with
  | openVault password now w =>
    dsimp only [run, openVault]
    rw [show remainingLockoutSeconds s.db now = some remaining from h]
    rfl
  | changeMasterPassword session currentPassword newPassword r follow =>
    dsimp only [run, changeMasterPassword, misuse]
    cases checkNewPassword currentPassword newPassword with
    | error e => rfl
    | ok u =>
      rw [show remainingLockoutSeconds s.db r.now = some remaining from h]
      rfl

theorem run_unlocked (hlock : remainingLockoutSeconds s.db call.now = none) :
    (call.run E s).2.db.failedAttempts ∈ call.after E s := by
  cases call with
  | openVault password now w =>
    dsimp only [PasswordCall.run, PasswordCall.after, PasswordCall.obstacle,
      PasswordCall.wrong, openVault]
    rw [show remainingLockoutSeconds s.db now = none from hlock]
    rcases enforceEpochGuard E w.mint s with ⟨e | v, file⟩
    · exact mem_cons_self
    dsimp only
    cases unlockVaultWithEpoch E password s.db.metadata.kdfParams s.db.metadata.wrappedDek
      s.db.metadata.keyEpoch with
    | error e => exact mem_singleton.mpr (failedAttempt_attempts s.db now e)
    | ok dek =>
      rcases adoptPending E w.heal { s with file := file } v.1 v.2 with ⟨e | u, file'⟩
      · exact mem_cons_self
      · exact mem_cons_of_mem _ (mem_singleton.mpr (finishOpen_attempts w.follow _ dek v.1))
  | changeMasterPassword session currentPassword newPassword r follow =>
    dsimp only [PasswordCall.run, PasswordCall.after, PasswordCall.misuse, PasswordCall.obstacle,
      PasswordCall.wrong, changeMasterPassword]
    rw [show remainingLockoutSeconds s.db r.now = none from hlock]
    cases checkNewPassword currentPassword newPassword with
    | error e => exact mem_cons_self
    | ok u =>
      cases nextEpoch s.db.metadata.keyEpoch with
      | error e => exact mem_cons_self
      | ok newEpoch =>
        cases rotateMasterPassword E session.dek currentPassword s.db.metadata.kdfParams
          s.db.metadata.wrappedDek s.db.metadata.keyEpoch newPassword r.kdfParams r.nonce with
        | error e =>
          by_cases he : e = .authenticationFailed
          · subst he
            exact mem_singleton.mpr (failedAttempt_attempts s.db r.now _)
          · simp [he, error?]
        | ok wrapped =>
          cases htx : rotationTx E session.dek s.db r.kdfParams wrapped newEpoch with
          | error e => simp [htx, error?]
          | ok db =>
            obtain ⟨_, -, hdb⟩ := bind_ok htx
            cases hdb
            cases follow <;> simp [htx, error?] <;> exact .inl rfl

/-- An answer other than `LockedOut`. -/
def NotLocked {α : Type} (r : Except VaultError α) : Prop := ∀ n, r ≠ .error (.lockedOut n)

open EpochGuard

theorem notLocked_write (w : WriteOutcome) (file : Option Text) (vaultUuid : Text)
    (epoch : Int64) : ∀ digest, NotLocked (write w file vaultUuid epoch digest).1 := by
  cases w <;> exact fun digest n => nofun

theorem notLocked_enforceEpochGuard (w : WriteOutcome) :
    NotLocked (enforceEpochGuard E w s).1 := by
  intro n
  unfold enforceEpochGuard check
  split
  · nofun
  dsimp only
  split
  · cases w <;> nofun
  · split_ifs <;> nofun

theorem notLocked_adoptPending (w : WriteOutcome) (vaultUuid : Text) (verdict : EpochCheck) :
    NotLocked (adoptPending E w s vaultUuid verdict).1 := by
  intro n
  unfold adoptPending adoptHeal
  split
  · split_ifs
    · split
      · nofun
      · split_ifs
        · nofun
        · nofun
        · exact notLocked_write w s.file vaultUuid _ _ n
    · nofun
  · nofun

theorem notLocked_verifySlotRegistry (dek : Key) (db : VaultDb) :
    NotLocked (verifySlotRegistry E dek db) := by
  intro n
  unfold verifySlotRegistry
  split
  · nofun
  · split <;> nofun

theorem error?_ne_of_notLocked {α : Type} {e : VaultError} (h : NotLocked (.error e : Except _ α))
    (n : Int) : some e ≠ some (.lockedOut n) := by
  rintro ⟨⟩
  exact h n rfl

theorem finishOpen_notLocked (follow : Follow) (s : VaultState) (dek : Key) (vaultUuid : Text)
    (n : Int) :
    (finishOpen (ensureOrVerifySlotRegistry E follow s dek vaultUuid) dek vaultUuid).1.error?
      ≠ some (.lockedOut n) := by
  unfold ensureOrVerifySlotRegistry
  split
  · have h := notLocked_verifySlotRegistry (E := E) dek s.db
    cases hverify : verifySlotRegistry E dek s.db with
    | error e => exact error?_ne_of_notLocked (hverify ▸ h) n
    | ok u => nofun
  split
  · nofun
  rcases follow with _ | (_ | _ | _) <;> nofun

/-- The right password is not answered `LockedOut` by a call that is not locked out. -/
theorem run_right (hlock : remainingLockoutSeconds s.db call.now = none)
    (hright : call.right E s = true) (n : Int) : (call.run E s).1 ≠ some (.lockedOut n) := by
  cases call with
  | openVault password now w =>
    dsimp only [PasswordCall.run, PasswordCall.right, openVault] at hright ⊢
    rw [show remainingLockoutSeconds s.db now = none from hlock]
    have hguard := notLocked_enforceEpochGuard (E := E) (s := s) w.mint
    revert hguard
    rcases enforceEpochGuard E w.mint s with ⟨e | v, file⟩ <;> intro hguard
    · exact error?_ne_of_notLocked hguard n
    cases hunlock : unlockVaultWithEpoch E password s.db.metadata.kdfParams
        s.db.metadata.wrappedDek s.db.metadata.keyEpoch with
    | error e => rw [hunlock] at hright; cases hright
    | ok dek =>
      have hadopt := notLocked_adoptPending (E := E) (s := { s with file := file }) w.heal v.1 v.2
      dsimp only
      revert hadopt
      rcases adoptPending E w.heal { s with file := file } v.1 v.2 with ⟨e | u, file'⟩ <;>
        intro hadopt
      · exact error?_ne_of_notLocked hadopt n
      · exact finishOpen_notLocked w.follow _ dek v.1 n
  | changeMasterPassword session currentPassword newPassword r follow =>
    dsimp only [PasswordCall.run, PasswordCall.right, changeMasterPassword] at hright ⊢
    rw [show remainingLockoutSeconds s.db r.now = none from hlock]
    have hcheck : NotLocked (checkNewPassword currentPassword newPassword) := by
      intro n
      unfold checkNewPassword
      split_ifs <;> nofun
    have hnext : NotLocked (nextEpoch s.db.metadata.keyEpoch) := by
      intro n
      unfold nextEpoch
      split_ifs <;> nofun
    cases hnew : checkNewPassword currentPassword newPassword with
    | error e => exact error?_ne_of_notLocked (hnew ▸ hcheck) n
    | ok u =>
      dsimp only
      cases hepoch : nextEpoch s.db.metadata.keyEpoch with
      | error e => exact error?_ne_of_notLocked (hepoch ▸ hnext) n
      | ok newEpoch =>
        cases hrotate : rotateMasterPassword E session.dek currentPassword s.db.metadata.kdfParams
            s.db.metadata.wrappedDek s.db.metadata.keyEpoch newPassword r.kdfParams r.nonce with
        | error e => rw [hrotate] at hright; cases hright
        | ok wrapped =>
          dsimp only
          cases htx : rotationTx E session.dek s.db r.kdfParams wrapped newEpoch with
          | error e =>
            cases hverify : verifySlotRegistry E session.dek s.db with
            | error e' =>
              unfold rotationTx at htx
              rw [hverify] at htx
              cases htx
              exact error?_ne_of_notLocked (hverify ▸ notLocked_verifySlotRegistry _ _) n
            | ok u => unfold rotationTx at htx; rw [hverify] at htx; cases htx
          | ok db => cases follow <;> nofun

variable (E s call) in
theorem run_attempts : (call.run E s).2.db.failedAttempts
    ∈ [s.db.failedAttempts ++ [call.now], s.db.failedAttempts, []] := by
  cases hlock : remainingLockoutSeconds s.db call.now with
  | some remaining => simp [run_locked hlock]
  | none =>
    have h := run_unlocked (E := E) hlock
    unfold PasswordCall.after at h
    split at h <;> simp_all

end Call

/-! ## Calls one after another -/

structure LockoutState where
  vault : VaultState
  clock : Int

/-- Calls by any processes, at times that do not go back. -/
def lockout (E : VaultEnv) : Machine LockoutState PasswordCall where
  init s := s.vault.db.failedAttempts = []
  step s call :=
    if s.clock ≤ call.now.toInt then some ⟨(call.run E s.vault).2, call.now.toInt⟩ else none

/-- The last recorded failure is the newest, and is past. -/
def LockoutState.Ordered (s : LockoutState) : Prop :=
  ∀ last ∈ s.vault.db.failedAttempts.getLast?, last.toInt ≤ s.clock ∧
    ∀ time ∈ s.vault.db.failedAttempts, time.toInt ≤ last.toInt

theorem LockoutState.Ordered.step {E s t call} (h : s.Ordered)
    (hs : (lockout E).step s call = some t) : t.Ordered := by
  obtain ⟨hclock, ht⟩ := Option.ite_none_right_eq_some.mp hs
  cases ht
  intro last hlast
  have hrun := run_attempts E s.vault call
  generalize (call.run E s.vault).2.db.failedAttempts = after at hlast hrun ⊢
  simp only [mem_cons, not_mem_nil, or_false] at hrun
  obtain rfl | rfl | rfl := hrun
  · rw [getLast?_concat] at hlast
    cases hlast
    refine ⟨le_rfl, fun time htime => ?_⟩
    obtain htime | rfl := mem_snoc htime
    · cases hold : s.vault.db.failedAttempts.getLast? with
      | none => simp [getLast?_eq_none_iff.mp hold] at htime
      | some old =>
        obtain ⟨hpast, hnewest⟩ := h old hold
        exact (hnewest time htime).trans (hpast.trans hclock)
    · exact le_rfl
  · exact ⟨(h last hlast).1.trans hclock, (h last hlast).2⟩
  · cases hlast

/-- When the delay after these failures is over. -/
def lockoutEnd (attempts : List Int64) (last : Int64) : Int :=
  last.toInt + 60 * 2 ^ min (attempts.length - 5) 10

theorem LockoutState.Ordered.remaining {s : LockoutState} {last : Int64} (h : s.Ordered)
    (hlast : s.vault.db.failedAttempts.getLast? = some last)
    (hmany : 5 ≤ s.vault.db.failedAttempts.length) (now : Int64) :
    remainingLockoutSeconds s.vault.db now
      = if now.toInt < lockoutEnd s.vault.db.failedAttempts last then
          some (lockoutEnd s.vault.db.failedAttempts last - now.toInt)
        else none := by
  have hmax : (s.vault.db.failedAttempts.map Int64.toInt).max? = some last.toInt :=
    max?_eq_some_iff.mpr ⟨mem_map_of_mem (mem_of_getLast? hlast),
      forall_mem_map.mpr (h last hlast).2⟩
  have hduration : lockoutDurationSeconds s.vault.db.failedAttempts.length
      = some (60 * 2 ^ min (s.vault.db.failedAttempts.length - 5) 10) :=
    if_neg (Nat.not_lt.mpr hmany)
  unfold remainingLockoutSeconds
  rw [hduration, hmax]
  generalize hend : lockoutEnd s.vault.db.failedAttempts last = deadline
  unfold lockoutEnd at hend
  have hrest : 60 * 2 ^ min (s.vault.db.failedAttempts.length - 5) 10 - (now.toInt - last.toInt)
      = deadline - now.toInt := by omega
  dsimp only [bind, Option.bind]
  rw [hrest]
  simp only [Int.sub_pos]

/-- **The schedule.** From the fifth failure on a call before the deadline is refused and
changes nothing. From the deadline on the password is evaluated once nothing else is in the
way, and the right one is not answered `LockedOut`. -/
theorem lockout_schedule {E : VaultEnv} {s : LockoutState}
    (h : (lockout E).Reachable (fun _ _ => True) s) {last : Int64}
    (hlast : s.vault.db.failedAttempts.getLast? = some last)
    (hmany : 5 ≤ s.vault.db.failedAttempts.length) (call : PasswordCall) :
    let deadline := lockoutEnd s.vault.db.failedAttempts last
    (call.now.toInt < deadline → call.run E s.vault
        = (some (call.misuse.getD (.lockedOut (deadline - call.now.toInt))), s.vault)) ∧
    (deadline ≤ call.now.toInt →
      (call.run E s.vault).2.db.failedAttempts ∈ call.after E s.vault ∧
      (call.right E s.vault = true → ∀ n, (call.run E s.vault).1 ≠ some (.lockedOut n))) := by
  have hordered : s.Ordered := by
    refine h.invariant (fun hinit => ?_) fun hx _ hs => hx.step hs
    intro last hlast
    simp [show _ = [] from hinit] at hlast
  have hremaining := hordered.remaining hlast hmany call.now
  refine ⟨fun hbefore => run_locked ?_, fun hafter => ?_⟩
  · rw [hremaining, if_pos hbefore]
  · rw [if_neg (not_lt.mpr hafter)] at hremaining
    exact ⟨run_unlocked hremaining, run_right hremaining⟩

def wrongOpen (now : Int64) : PasswordCall :=
  .openVault (utf8 "guess") now .allDone

theorem fiveFailures_run :
    ((lockout toyVaultEnv).exec ⟨sampleVault, 0⟩ (.replicate 5 (wrongOpen 150))).isSome := by
  decide +kernel

def fiveFailures : LockoutState :=
  ((lockout toyVaultEnv).exec ⟨sampleVault, 0⟩ (.replicate 5 (wrongOpen 150))).get fiveFailures_run

theorem fiveFailures_reachable : (lockout toyVaultEnv).Reachable (fun _ _ => True) fiveFailures :=
  ⟨⟨sampleVault, 0⟩, rfl, Machine.run_of_exec (Machine.allowed_true _ _) (Option.some_get _).symm⟩

/-- Refused at 209, recorded as the sixth failure at 210, and open with the right password. -/
theorem lockout_schedule_five :
    ((wrongOpen 209).run toyVaultEnv fiveFailures.vault).1 = some (.lockedOut 1) ∧
      ((wrongOpen 210).run toyVaultEnv fiveFailures.vault).2.db.failedAttempts
        = [150, 150, 150, 150, 150, 210] ∧
      ∀ n, ((PasswordCall.openVault samplePassword 210 .allDone).run toyVaultEnv
        fiveFailures.vault).1 ≠ some (.lockedOut n) := by
  have hlast : fiveFailures.vault.db.failedAttempts.getLast? = some 150 := by decide +kernel
  have h := lockout_schedule fiveFailures_reachable hlast (by decide +kernel)
  have hbefore := (h (wrongOpen 209)).1 (by decide +kernel)
  have hafter := ((h (wrongOpen 210)).2 (by decide +kernel)).1
  have hright := ((h (.openVault samplePassword 210 .allDone)).2 (by decide +kernel)).2
    (by decide +kernel)
  have hrecorded : (wrongOpen 210).after toyVaultEnv fiveFailures.vault
      = [[150, 150, 150, 150, 150, 210]] := by decide +kernel
  rw [hrecorded] at hafter
  exact ⟨(congrArg Prod.fst hbefore).trans (by decide +kernel), mem_singleton.mp hafter, hright⟩

def wrongChange (newPassword : String) (now : Int64) : PasswordCall :=
  .changeMasterPassword ⟨sampleDek, "v".toList⟩ (utf8 "guess") (utf8 newPassword)
    { sampleDraws with now := now } .crash

/-- Another file was restored under the sidecar. -/
def behindSidecar : VaultState :=
  { sampleVault with file := some (EpochGuard.render "v".toList 2 EpochGuard.sampleDigest) }

/-- After five failures and the delay, the call has a wrong password and it is not looked
at. -/
def unevaluated (start : VaultState) (failures : List PasswordCall) (call : PasswordCall) : Bool :=
  ((lockout toyVaultEnv).exec ⟨start, 0⟩ failures).any fun s =>
    s.vault.db.failedAttempts = [150, 150, 150, 150, 150] &&
      lockoutEnd s.vault.db.failedAttempts 150 ≤ call.now.toInt && call.wrong toyVaultEnv s.vault &&
      (call.run toyVaultEnv s.vault).2.db.failedAttempts = s.vault.db.failedAttempts

/-- A new password that is too short, and an `open` that the epoch guard refuses. -/
theorem short_password_not_evaluated :
    unevaluated sampleVault (.replicate 5 (wrongOpen 150)) (wrongChange "short" 300) = true ∧
    unevaluated behindSidecar (.replicate 5 (wrongChange "second password" 150)) (wrongOpen 300)
      = true := by
  decide +kernel

end SentinelPass
