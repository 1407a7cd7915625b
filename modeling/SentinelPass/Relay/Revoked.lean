import SentinelPass.Relay.Server

/-!
# Revoked devices

`verify_auth` reads the `revoked` flag and gives the lock back; the handler runs
later and does not look again. A revocation therefore takes effect at once on
requests that are still to be verified, and not on those already past it. It
holds from its answer on when none of those can write (`Quiet`).
-/

namespace SentinelPass.Relay

open Lib List Option

variable {S : ServerEnv} {s s' : ServerState}

/-- When a revocation is handled, requests of its target past `verify_auth` do not
write. -/
def Quiet (S : ServerEnv) (s : ServerState) : ServerAction → Prop
  | .handle i _ _ => ∀ r ∈ s.admitted[i]?, ∀ r' ∈ s.verified ++ s.admitted.eraseIdx i,
      (S.route r).revokes = some r'.device → (S.route r').mutates = false
  | _ => True

instance (S : ServerEnv) (s : ServerState) (a : ServerAction) : Decidable (Quiet S s a) :=
  match a with
  | .handle .. => by
    unfold Quiet
    infer_instance
  | .verify .. | .checkNonce .. | .cancelVerified _ | .cancelAdmitted _ | .register .. | .fetch ..
  | .retrieve .. | .cleanup _ => .isTrue trivial

def RowRevoked (devices : Table Uuid DeviceRow) (device : Uuid) : Prop :=
  ∃ row, devices.get? device = some row ∧ row.revoked = true

/-- Revoked devices have revoked rows, and nothing in flight that writes. -/
structure RevokedInv (S : ServerEnv) (s : ServerState) : Prop where
  rows : ∀ device ∈ s.revoked, RowRevoked s.db.relay.devices device
  quiet : ∀ r ∈ s.verified ++ s.admitted, r.device ∈ s.revoked → (S.route r).mutates = false

/-! ## Rows stay revoked -/

section Rows

variable {devices : Table Uuid DeviceRow} {device : Uuid} {id : Uuid}

theorem RowRevoked.update (h : RowRevoked devices device) {g}
    (hg : ∀ row, row.revoked = true → (g row).revoked = true) :
    RowRevoked (devices.update id g) device := by
  obtain ⟨row, hrow, hrevoked⟩ := h
  by_cases hid : device = id
  · exact ⟨g row, by simp [← hid, hrow], hg row hrevoked⟩
  · exact ⟨row, by simp [hid, hrow], hrevoked⟩

theorem RowRevoked.upsert (h : RowRevoked devices device) {new g}
    (hg : ∀ row, row.revoked = true → (g row).revoked = true) :
    RowRevoked (devices.upsert id new g) device := by
  obtain ⟨row, hrow, hrevoked⟩ := h
  by_cases hid : device = id
  · exact ⟨g row, by simp [← hid, hrow], hg row hrevoked⟩
  · exact ⟨row, by simp [hid, hrow], hrevoked⟩

end Rows

section Calls

variable {db db' : ServerDb} {device : Uuid} {draws : HandlerDraws} {now : Int} {call : Call}
  {d : Uuid}

theorem runCall_keeps_revoked (h : runCall S db device draws now call = .ok db')
    (hd : RowRevoked db.relay.devices d) : RowRevoked db'.relay.devices d := by
  cases call with
  | push req =>
    obtain ⟨⟨relay, resp⟩, hpush, rfl⟩ := map_ok h
    show RowRevoked relay.devices d
    rw [(pushV2_frame hpush).1]
    exact hd
  | uploadBootstrap req | uploadBootstrapV2 req =>
    obtain ⟨p, -, rfl⟩ := map_ok h
    exact hd
  | revoke target =>
    obtain ⟨relay, hrevoke, rfl⟩ := map_ok h
    obtain ⟨id, row, -, -, rfl⟩ := revokeDevice_ok hrevoke
    exact hd.update fun _ _ => rfl
  | claim origin =>
    obtain ⟨relay, hclaim, rfl⟩ := map_ok h
    obtain ⟨vaults, counters, -, -, rfl⟩ := migrationClaim_ok hclaim
    exact hd.update fun _ hrow => hrow
  | other =>
    cases h
    exact hd

theorem runCall_revokes (h : runCall S db device draws now call = .ok db')
    (hd : call.revokes = some d) : RowRevoked db'.relay.devices d := by
  cases call with
  | revoke target =>
    obtain ⟨relay, hrevoke, rfl⟩ := map_ok h
    obtain ⟨id, row, rfl, hrow, rfl⟩ := revokeDevice_ok hrevoke
    cases hd
    refine ⟨{ row with revoked := true }, ?_, rfl⟩
    show (db.relay.devices.update d _).get? d = _
    rw [Table.get?_update, if_pos rfl, hrow]
    rfl
  | push req | uploadBootstrap req | uploadBootstrapV2 req | claim origin | other => cases hd

/-- What a revoked device can no longer do: the mutation log, the staged
bootstraps and proofs, and who is revoked are as before. -/
structure Untouched (db db' : ServerDb) : Prop where
  log : db'.relay.syncMutationsV2 = db.relay.syncMutationsV2
  pairing : db'.pairing = db.pairing
  revoked : ∀ id, (db'.relay.devices.get? id).map (·.revoked)
    = (db.relay.devices.get? id).map (·.revoked)

theorem Untouched.refl (db) : Untouched db db := ⟨rfl, rfl, fun _ => rfl⟩

theorem runCall_untouched (h : runCall S db device draws now call = .ok db')
    (hcall : call.mutates = false) : Untouched db db' ∧ call.revokes = none := by
  cases call with
  | push req | uploadBootstrap req | uploadBootstrapV2 req | revoke target => cases hcall
  | claim origin =>
    obtain ⟨relay, hclaim, rfl⟩ := map_ok h
    obtain ⟨vaults, counters, -, -, rfl⟩ := migrationClaim_ok hclaim
    refine ⟨⟨rfl, rfl, ?_⟩, rfl⟩
    intro id
    show ((db.relay.devices.update device _).get? id).map _ = _
    rw [Table.get?_update]
    split
    · next hid =>
      rw [Option.map_map, hid]
      rfl
    · rfl
  | other =>
    cases h
    exact ⟨.refl _, rfl⟩

end Calls

/-! ## Steps -/

theorem RevokedInv.fewer (h : RevokedInv S s) (hrevoked : s'.revoked = s.revoked)
    (hrows : ∀ d, RowRevoked s.db.relay.devices d → RowRevoked s'.db.relay.devices d)
    (hflight : s'.verified ++ s'.admitted ⊆ s.verified ++ s.admitted) :
    RevokedInv S s' := by
  refine ⟨?_, ?_⟩
  · intro d hd
    rw [hrevoked] at hd
    exact hrows d (h.rows d hd)
  · intro r hr hd
    rw [hrevoked] at hd
    exact h.quiet r (hflight hr) hd

theorem verified_erase_subset (s : ServerState) (i : Nat) :
    s.verified.eraseIdx i ++ s.admitted ⊆ s.verified ++ s.admitted :=
  ((eraseIdx_sublist s.verified i).append_right s.admitted).subset

theorem admitted_erase_subset (s : ServerState) (i : Nat) :
    s.verified ++ s.admitted.eraseIdx i ⊆ s.verified ++ s.admitted :=
  ((eraseIdx_sublist s.admitted i).append_left s.verified).subset

section

variable (h : RevokedInv S s) {i : Nat} {now : Int}

include h

theorem RevokedInv.verify {r}
    (hrow : ∃ row, s.db.relay.devices.get? r.device = some row ∧ row.revoked = false) :
    RevokedInv S { s with verified := s.verified ++ [r] } := by
  refine ⟨h.rows, ?_⟩
  intro r' hr' hd
  rw [append_assoc, mem_append, mem_append, mem_singleton] at hr'
  rcases hr' with hr' | rfl | hr'
  · exact h.quiet r' (mem_append_left _ hr') hd
  · -- a request of a revoked device is not verified
    obtain ⟨row, hget, hfalse⟩ := hrow
    obtain ⟨row', hget', htrue⟩ := h.rows _ hd
    rw [hget] at hget'
    cases hget'
    rw [hfalse] at htrue
    cases htrue
  · exact h.quiet r' (mem_append_right _ hr') hd

theorem RevokedInv.checkNonce {withinRate : Bool}
    (hstep : nonceStep S s i withinRate now = some s') : RevokedInv S s' := by
  obtain ⟨r, hr, ⟨e, -, rfl⟩ | ⟨nonces, -, ⟨-, rfl⟩ | ⟨-, rfl⟩⟩⟩ := nonceStep_ok hstep
  · exact h.fewer rfl (fun _ hd => hd) (verified_erase_subset s i)
  · exact h.fewer rfl (fun _ hd => hd) (verified_erase_subset s i)
  · refine h.fewer rfl (fun _ hd => hd) ?_
    intro r' hr'
    rw [← append_assoc, mem_append, mem_singleton] at hr'
    rcases hr' with hr' | rfl
    · exact verified_erase_subset s i hr'
    · exact mem_append_left _ (mem_of_getElem? hr)

theorem RevokedInv.handle {draws} (hquiet : Quiet S s (.handle i draws now))
    (hstep : handleStep S s i draws now = some s') : RevokedInv S s' := by
  obtain ⟨r, hr, rfl | ⟨db, hdb, rfl⟩⟩ := handleStep_ok hstep
  · exact h.fewer rfl (fun _ hd => hd) (admitted_erase_subset s i)
  · refine ⟨?_, ?_⟩
    · intro d hd
      rcases mem_append.mp hd with hd | hd
      · exact runCall_keeps_revoked hdb (h.rows d hd)
      · exact runCall_revokes hdb (mem_toList.mp hd)
    · intro r' hr' hd
      rcases mem_append.mp hd with hd | hd
      · exact h.quiet r' (admitted_erase_subset s i hr') hd
      · exact hquiet r hr r' hr' (mem_toList.mp hd)

theorem RevokedInv.register (req now) : RevokedInv S (registerStep S s req now) := by
  unfold registerStep
  dsimp only
  split
  · exact h.fewer rfl (fun _ hd => hd) (List.Subset.refl _)
  · next relay pairing used hok =>
    obtain ⟨-, publicKey, -, hdevices⟩ := registerDeviceWithProof_ok hok
    refine h.fewer rfl ?_ (List.Subset.refl _)
    intro d hd
    show RowRevoked relay.devices d
    rw [hdevices]
    exact hd.upsert fun _ hrow => hrow

/-- Revoked rows stay revoked, their requests in flight only read. -/
theorem RevokedInv.step {a : ServerAction} (hquiet : Quiet S s a)
    (hstep : serverStep S s a = some s') :
    RevokedInv S s' := by
  cases a with
  | verify header method path body now =>
    obtain ⟨r, hr, rfl⟩ := map_eq_some_iff.mp hstep
    exact h.verify (verifyAuth_ok (toOption_eq_some.mp hr))
  | checkNonce i withinRate now => exact h.checkNonce hstep
  | handle i draws now => exact h.handle hquiet hstep
  | cancelVerified i =>
    cases hstep
    exact h.fewer rfl (fun _ hd => hd) (verified_erase_subset s i)
  | cancelAdmitted i =>
    cases hstep
    exact h.fewer rfl (fun _ hd => hd) (admitted_erase_subset s i)
  | register req now =>
    cases hstep
    exact h.register req now
  | fetch token salt now | retrieve secret salt now | cleanup now =>
    cases hstep
    exact h.fewer rfl (fun _ hd => hd) (List.Subset.refl _)

end

/-- **Revocation takes effect.** In every quiet run, from the answer on, a step of
a request authenticated as the revoked device appends nothing, stages nothing
and revokes nobody. -/
theorem revoked_device_cannot_write (S : ServerEnv) (s : ServerState)
    (hreach : (server S).Reachable (Quiet S) s) (a : ServerAction) (u : ServerState)
    (r : SignedRequest) (hrevoked : r.device ∈ s.revoked) (hreq : a.request s = some r)
    (hstep : serverStep S s a = some u) : Untouched s.db u.db ∧ u.revoked = s.revoked := by
  have hinv : RevokedInv S s := by
    refine hreach.invariant ?_ ?_
    · rintro x ⟨clock, rfl⟩
      refine ⟨?_, ?_⟩
      · intro d hd
        cases hd
      · intro r hr
        cases hr
    · intro x y b hx hok hb
      exact hx.step hok hb
  cases a with
  | checkNonce i withinRate now =>
    obtain ⟨_, -, ⟨e, -, rfl⟩ | ⟨nonces, -, ⟨-, rfl⟩ | ⟨-, rfl⟩⟩⟩ := nonceStep_ok hstep
    · exact ⟨.refl _, rfl⟩
    · exact ⟨⟨rfl, rfl, fun _ => rfl⟩, rfl⟩
    · exact ⟨⟨rfl, rfl, fun _ => rfl⟩, rfl⟩
  | handle i draws now =>
    obtain ⟨r', hr', hcases⟩ := handleStep_ok hstep
    obtain rfl : r' = r := some.inj (hr'.symm.trans hreq)
    have hreads := hinv.quiet r' (mem_append_right _ (mem_of_getElem? hr')) hrevoked
    rcases hcases with rfl | ⟨db, hdb, rfl⟩
    · exact ⟨.refl _, rfl⟩
    · obtain ⟨huntouched, hnone⟩ := runCall_untouched hdb hreads
      refine ⟨huntouched, ?_⟩
      show s.revoked ++ _ = _
      rw [hnone, toList_none, append_nil]
  | verify | cancelVerified | cancelAdmitted | register | fetch | retrieve | cleanup => cases hreq

/-! ## Sample runs -/

/-- A relay with three paths: a push, the revocation of device 2, and the status. -/
def revocationServer : ServerEnv :=
  ⟨toyRelayEnv, toyConfig, fun r =>
    if r.path = "/push".toList then .push ⟨1, [sampleMutation 11 0 1 1]⟩
    else if r.path = "/revoke".toList then .revoke (some 2)
    else .other⟩

/-- Device 2 sends a request, which is verified and admitted at 110. -/
def deviceSends (path nonce : String) : List ServerAction :=
  [.verify (toyHeader 2 110 nonce.toList "POST".toList path.toList []) "POST".toList path.toList []
      110, .checkNonce 0 true 110]

/-- Device 2 sends a request of its own and, before that is handled, revokes
itself. -/
def revocationRun (path : String) : List ServerAction :=
  .register (toyJoin 2 1 "laptop" 2) 100 ::
    (deviceSends path "a" ++ deviceSends "/revoke" "b" ++ [.handle 1 ⟨[], 0⟩ 110])

theorem revocationRun_status_runs :
    ((server revocationServer).exec (.initial 0) (revocationRun "/status")).any (fun s =>
      s.revoked = [2] ∧ (s.admitted[0]?.map (·.device)) = some 2) = true := by
  decide +kernel

theorem revoked_device_cannot_write_status :
    ∃ s u, (server revocationServer).exec (.initial 0) (revocationRun "/status") = some s ∧
      s.revoked = [2] ∧ serverStep revocationServer s (.handle 0 ⟨[], 0⟩ 120) = some u ∧
      Untouched s.db u.db := by
  have hallowed : (server revocationServer).Allowed (Quiet revocationServer) (.initial 0)
      (revocationRun "/status") := by
    decide +kernel
  obtain ⟨s, hs, hstate⟩ := (any_eq_true _ _).mp revocationRun_status_runs
  obtain ⟨hrevoked, hflight⟩ := of_decide_eq_true hstate
  obtain ⟨r, hr, hdevice⟩ := map_eq_some_iff.mp hflight
  have hmem : r.device ∈ s.revoked := by
    rw [hrevoked, hdevice]
    exact mem_singleton.mpr rfl
  have hrun := Machine.run_of_exec hallowed hs
  obtain ⟨u, hu⟩ : ∃ u, serverStep revocationServer s (.handle 0 ⟨[], 0⟩ 120) = some u := by
    show ∃ u, handleStep revocationServer s 0 ⟨[], 0⟩ 120 = some u
    unfold handleStep
    rw [hr]
    dsimp only [bind_eq_bind, bind_some]
    split
    · exact ⟨_, rfl⟩
    · exact ⟨_, rfl⟩
  exact ⟨s, u, hs, hrevoked, hu,
    (revoked_device_cannot_write revocationServer s ⟨_, ⟨0, rfl⟩, hrun⟩ (.handle 0 ⟨[], 0⟩ 120) u r
      hmem hr hu).1⟩

/-- A push of device 2 that was verified before the revocation appends after it. -/
theorem revoked_device_pushes :
    ∃ s r u, (server revocationServer).exec (.initial 0) (revocationRun "/push") = some s ∧
      s.revoked = [2] ∧ ServerAction.request s (.handle 0 ⟨[], 0⟩ 120) = some r ∧ r.device = 2 ∧
      serverStep revocationServer s (.handle 0 ⟨[], 0⟩ 120) = some u ∧
      s.db.relay.syncMutationsV2.rows.length = 0 ∧ u.db.relay.syncMutationsV2.rows.length = 1 := by
  have hany : ((server revocationServer).exec (.initial 0) (revocationRun "/push")).any (fun s =>
      s.revoked = [2] ∧ (s.admitted[0]?.map (·.device)) = some 2 ∧
        s.db.relay.syncMutationsV2.rows.length = 0 ∧
        ((serverStep revocationServer s (.handle 0 ⟨[], 0⟩ 120)).map
          (·.db.relay.syncMutationsV2.rows.length)) = some 1) = true := by
    decide +kernel
  obtain ⟨s, hs, hstate⟩ := (any_eq_true _ _).mp hany
  obtain ⟨hrevoked, hflight, hbefore, hafter⟩ := of_decide_eq_true hstate
  obtain ⟨r, hr, hdevice⟩ := map_eq_some_iff.mp hflight
  obtain ⟨u, hu, hlength⟩ := map_eq_some_iff.mp hafter
  exact ⟨s, r, u, hs, hrevoked, hr, hdevice, hu, hbefore, hlength⟩

end SentinelPass.Relay
