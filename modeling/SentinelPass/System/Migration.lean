import SentinelPass.Relay.Membership
import SentinelPass.Vault.Db

/-!
# Authoritative migration

A device claims the vault it syncs with (`claim_sync_migration`): the relay mints a fresh
vault, records the claim and moves the device's row there, in one transaction
(`migrationClaim`). Then the device re-points its configuration and offers everything
again (`migrate_sync_authoritative`). Between the two, the answer may be lost.
-/

namespace SentinelPass

open Lib Relay Option

/-! ## The device -/

/-- Why a claim came to nothing. -/
inductive ClaimError
  | client (e : PmError)
  | relay (e : RelayError)

/-- `claim_sync_migration`: the origin is the vault of the local configuration. -/
def claimSyncMigration (db : LocalDb) (s : RelayState) (device newVault : Uuid) (now : Int) :
    Except ClaimError (Uuid × RelayState) :=
  match db.config.vaultId with
  | none => .error (.client (.invalidInput "Sync vault ID missing"))
  | some origin =>
    match migrationClaim s device origin newVault now with
    | .error e => .error (.relay e)
    | .ok s' => .ok (newVault, s')

/-- `sync_state = 'pending', sync_acked_version = 0 WHERE is_deleted = 0`. -/
def rebaselined {γ : Type} (row : SyncRow γ) : SyncRow γ :=
  if row.sync.isDeleted then row
  else { row with sync := { row.sync with syncState := .pending, syncAckedVersion := 0 } }

def migrateSyncAuthoritative (db : LocalDb) (newRelayVault : Uuid) : LocalDb where
  entries := db.entries.mapVal fun _ => rebaselined
  sshKeys := db.sshKeys.mapVal fun _ => rebaselined
  totpSecrets := db.totpSecrets.mapVal fun _ => rebaselined
  syncConflicts := .empty
  syncDeadLetter := .empty
  config :=
    { db.config with
      vaultId := some newRelayVault, lastPushSequence := 0, lastPullSequence := 0,
      lineageHighWater := 0 }
  keyEpoch := db.keyEpoch

theorem row_migrateSyncAuthoritative (db vault t id) :
    (migrateSyncAuthoritative db vault).row t id = (db.row t id).map rebaselined := by
  have htable : (migrateSyncAuthoritative db vault).table t
      = (db.table t).mapVal fun _ => rebaselined := by
    cases t <;> rfl
  unfold LocalDb.row
  rw [htable, Table.get?_mapVal]

/-- The device offers everything it has to an empty vault. -/
structure Rebaselined (db : LocalDb) (vault : Uuid) (db' : LocalDb) : Prop where
  config : db'.config = ⟨some vault, 0, 0, 0⟩
  conflicts : db'.syncConflicts = .empty
  deadLetters : db'.syncDeadLetter = .empty
  live : ∀ t id row, db.row t id = some row → row.sync.isDeleted = false →
    ∃ row', db'.row t id = some row' ∧ row'.content = row.content ∧
      row'.sync.syncState = .pending ∧ row'.sync.syncAckedVersion = 0
  deleted : ∀ t id row, db.row t id = some row → row.sync.isDeleted = true → db'.row t id = some row

theorem rebaselined_migrate (db vault) :
    Rebaselined db vault (migrateSyncAuthoritative db vault) where
  config := rfl
  conflicts := rfl
  deadLetters := rfl
  live t id row hrow hlive := by
    refine ⟨rebaselined row, ?_, ?_⟩
    · rw [row_migrateSyncAuthoritative, hrow]
      rfl
    · unfold rebaselined
      rw [hlive]
      exact ⟨rfl, rfl, rfl⟩
  deleted t id row hrow hdeleted := by
    rw [row_migrateSyncAuthoritative, hrow, map_some, rebaselined, if_pos hdeleted]

/-! ## Claims stand -/

def ClaimsKept (s s' : RelayState) : Prop :=
  ∀ origin claim, s.migrationClaims.get? origin = some claim →
    s'.migrationClaims.get? origin = some claim

theorem ClaimsKept.of_eq {s s'} (h : s'.migrationClaims = s.migrationClaims) : ClaimsKept s s' := by
  intro origin claim hclaim
  rw [h]
  exact hclaim

theorem migrationClaim_conflict {s : RelayState} {origin holder vault : Uuid} {since : Int}
    (h : s.migrationClaims.get? origin = some ⟨vault, holder, since⟩) (device newVault : Uuid)
    (now : Int) :
    migrationClaim s device origin newVault now = .error (claimRefusal holder) := by
  unfold migrationClaim
  rw [h]
  rfl

theorem migrationClaim_applied {s s' device origin newVault now}
    (h : migrationClaim s device origin newVault now = .ok s') :
    s.migrationClaims.get? origin = none ∧
      s'.migrationClaims.get? origin = some ⟨newVault, device, now⟩ ∧
      s'.deviceVault device = some newVault ∧ ClaimsKept s s' := by
  have hnone : s.migrationClaims.get? origin = none := by
    cases hget : s.migrationClaims.get? origin with
    | none => rfl
    | some claim =>
      rw [migrationClaim_conflict hget] at h
      cases h
  obtain ⟨vaults, counters, hdevice, -, rfl⟩ := migrationClaim_ok h
  obtain ⟨row, hrow, -⟩ := map_eq_some_iff.mp hdevice
  refine ⟨hnone, ?_, ?_, ?_⟩
  · show (s.migrationClaims.insertIgnore origin _).get? origin = _
    rw [Table.get?_insertIgnore, if_pos rfl, hnone]
    rfl
  · show ((s.devices.update device _).get? device).map _ = _
    rw [Table.get?_update, if_pos rfl, hrow]
    rfl
  · intro o claim hclaim
    show (s.migrationClaims.insertIgnore origin _).get? o = _
    rw [Table.get?_insertIgnore]
    split
    · next ho =>
      rw [ho, hnone] at hclaim
      cases hclaim
    · exact hclaim

theorem pushV2_migrationClaims {s s' device req now resp}
    (h : pushV2 s device req now = .ok (s', resp)) : s'.migrationClaims = s.migrationClaims := by
  obtain ⟨vault, tx, -, -, hloop, rfl, -, -⟩ := pushV2_ok h
  have hfinish : (finishPush tx vault device req.deviceSequence now).migrationClaims
      = tx.relay.migrationClaims := by
    unfold finishPush
    split <;> rfl
  rw [hfinish]
  refine foldlM_ok_invariant (P := fun tx => tx.relay.migrationClaims = s.migrationClaims)
    hloop rfl ?_
  intro x y m _ hx hone
  obtain ⟨-, -, -, hstep⟩ := pushOne_step hone
  rw [hstep.frame.2, hx]

section Server

variable {S : ServerEnv} {s s' : ServerState} {now : Int}

theorem runCall_claimsKept {db db' device draws call}
    (h : runCall S db device draws now call = .ok db') : ClaimsKept db.relay db'.relay := by
  cases call with
  | push req =>
    obtain ⟨⟨relay, resp⟩, hpush, rfl⟩ := map_ok h
    exact .of_eq (pushV2_migrationClaims hpush)
  | uploadBootstrap req | uploadBootstrapV2 req =>
    obtain ⟨p, -, rfl⟩ := map_ok h
    exact .of_eq rfl
  | revoke target =>
    obtain ⟨relay, hrevoke, rfl⟩ := map_ok h
    obtain ⟨id, row, -, -, rfl⟩ := revokeDevice_ok hrevoke
    exact .of_eq rfl
  | claim origin =>
    obtain ⟨relay, hclaim, rfl⟩ := map_ok h
    exact (migrationClaim_applied hclaim).2.2.2
  | other =>
    cases h
    exact .of_eq rfl

theorem registerStep_claimsKept (req now) :
    ClaimsKept s.db.relay (registerStep S s req now).db.relay := by
  unfold registerStep
  dsimp only
  split
  · exact .of_eq rfl
  · next relay pairing used hok =>
    refine .of_eq ?_
    show relay.migrationClaims = _
    obtain ⟨_, -, hok⟩ := bind_ok hok
    split at hok
    · obtain ⟨⟨p, row⟩, -, hok⟩ := bind_ok hok
      obtain ⟨s1, hreg, hok⟩ := bind_ok hok
      cases hok
      obtain ⟨row, -, rfl⟩ := registerDevice_ok hreg
      rfl
    · obtain ⟨s1, hreg, hok⟩ := bind_ok hok
      cases hok
      obtain ⟨row, -, rfl⟩ := registerDevice_ok hreg
      rfl

theorem serverStep_claimsKept {a} (h : serverStep S s a = some s') :
    ClaimsKept s.db.relay s'.db.relay := by
  cases a with
  | verify header method path body now =>
    obtain ⟨r, -, rfl⟩ := map_eq_some_iff.mp h
    exact .of_eq rfl
  | checkNonce i withinRate now =>
    obtain ⟨r, -, hcases⟩ := nonceStep_ok h
    rcases hcases with ⟨e, -, rfl⟩ | ⟨nonces, -, ⟨-, rfl⟩ | ⟨-, rfl⟩⟩ <;> exact .of_eq rfl
  | handle i draws now =>
    obtain ⟨r, -, rfl | ⟨db, hcall, rfl⟩⟩ := handleStep_ok h
    · exact .of_eq rfl
    · exact runCall_claimsKept hcall
  | register req now =>
    cases h
    exact registerStep_claimsKept req now
  | cancelVerified i | cancelAdmitted i | fetch token salt now | retrieve secret salt now
  | cleanup now =>
    cases h
    exact .of_eq rfl

theorem run_claimsKept (h : (server S).Run (fun _ _ => True) s s') :
    ClaimsKept s.db.relay s'.db.relay := by
  refine h.invariant (P := fun t => ClaimsKept s.db.relay t.db.relay) (.of_eq rfl) ?_
  intro x y a hx _ hstep origin claim hclaim
  exact serverStep_claimsKept hstep origin claim (hx origin claim hclaim)

end Server

/-! ## One authority -/

/-- After a claim was applied, in every later state of the relay the claim stands and every
claim of the origin is refused, that of the same device as well; with the answer, the device
completes the migration. -/
theorem migration_claim_once (S : ServerEnv) (u v t : ServerState) (device origin newVault : Uuid)
    (now : Int) (happlied : migrationClaim u.db.relay device origin newVault now = .ok v.db.relay)
    (hlater : (server S).Run (fun _ _ => True) v t) (db : LocalDb)
    (hlocal : db.config.vaultId = some origin) :
    u.db.relay.migrationClaims.get? origin = none ∧ v.db.relay.deviceVault device = some newVault ∧
      t.db.relay.migrationClaims.get? origin = some ⟨newVault, device, now⟩ ∧
      (∀ device' newVault' now', migrationClaim t.db.relay device' origin newVault' now'
        = .error (claimRefusal device)) ∧
      (∀ newVault' now', claimSyncMigration db t.db.relay device newVault' now'
        = .error (.relay (claimRefusal device))) ∧
      Rebaselined db newVault (migrateSyncAuthoritative db newVault) := by
  obtain ⟨hnone, hclaim, hvault, -⟩ := migrationClaim_applied happlied
  have hstands := run_claimsKept hlater origin _ hclaim
  refine ⟨hnone, hvault, hstands, migrationClaim_conflict hstands, fun newVault' now' => ?_,
    rebaselined_migrate db newVault⟩
  unfold claimSyncMigration
  rw [hlocal]
  dsimp only
  rw [migrationClaim_conflict hstands]

/-! ## A lost answer -/

def memberRelay : RelayState :=
  (registerDevice .empty (toyJoin 1 7 "laptop" 1).device false 100).toOption.getD .empty

def claimedRelay : RelayState := (migrationClaim memberRelay 1 7 9 110).toOption.getD .empty

theorem claimedRelay_applied : migrationClaim memberRelay 1 7 9 110 = .ok claimedRelay := by
  rfl

/-- What the device has, before and after a claim whose answer is lost. -/
def memberDb : LocalDb := LocalDb.fresh (some 7) 1

/-- A phone joins the claimed vault and the relay cleans up; the claim still stands. -/
theorem migration_claim_once_sample :
    ∃ t, (server pairingServer).exec
        { ServerState.initial 0 with db := { ServerDb.empty with relay := claimedRelay } }
        [.register (toyJoin 2 7 "phone" 1) 120, .cleanup 200] = some t ∧
      t.db.relay.migrationClaims.get? 7 = some ⟨9, 1, 110⟩ ∧
      migrationClaim t.db.relay 2 7 10 210 = .error (claimRefusal 1) := by
  obtain ⟨t, ht⟩ : ∃ t, (server pairingServer).exec
      { ServerState.initial 0 with db := { ServerDb.empty with relay := claimedRelay } }
      [.register (toyJoin 2 7 "phone" 1) 120, .cleanup 200] = some t := ⟨_, rfl⟩
  obtain ⟨-, -, hstands, hrefused, -⟩ := migration_claim_once pairingServer
    { ServerState.initial 0 with db := { ServerDb.empty with relay := memberRelay } } _ t
    1 7 9 110 claimedRelay_applied (Machine.run_of_exec (Machine.allowed_true _ _) ht) memberDb rfl
  exact ⟨t, ht, hstands, hrefused 2 10 210⟩

/-- The claim was applied and the device repeats it: it does not learn the vault. -/
theorem lost_claim_refused :
    claimSyncMigration memberDb memberRelay 1 9 110 = .ok (9, claimedRelay) ∧
      ∀ newVault now, claimSyncMigration memberDb claimedRelay 1 newVault now
        = .error (.relay (claimRefusal 1)) := by
  refine ⟨rfl, fun newVault now => ?_⟩
  rfl

end SentinelPass
