import SentinelPass.Relay.Server

/-!
# Replays

A timestamp is accepted on both sides of the clock, while a nonce is remembered
for the window from its arrival. The memory covers the validity of a request
whose timestamp is not ahead of the clock when it is admitted, and whose nonce
is checked while its timestamp is fresh (`Timely`).
-/

namespace SentinelPass.Relay

open Lib List Option

variable {S : ServerEnv} {s s' : ServerState}

/-- A request that is about to get through is dated between the start of the
window and now. -/
def InWindow (S : ServerEnv) (s : ServerState) : ServerAction → Prop
  | .checkNonce i _ now => ∀ r ∈ s.verified[i]?, s.db.nonces.get? r.nonce = none →
      r.timestamp.toInt ≤ now ∧ now ≤ r.timestamp.toInt + S.cfg.nonceWindowSecs.toInt
  | _ => True

instance (S : ServerEnv) (s : ServerState) (a : ServerAction) : Decidable (InWindow S s a) :=
  match a with
  | .checkNonce .. => by
    unfold InWindow
    infer_instance
  | .verify .. | .handle .. | .cancelVerified _ | .cancelAdmitted _ | .register .. | .fetch ..
  | .retrieve .. | .cleanup _ => .isTrue trivial

def ClockForward (s : ServerState) (a : ServerAction) : Prop := ∀ now ∈ a.time, s.clock ≤ now

instance (s : ServerState) (a : ServerAction) : Decidable (ClockForward s a) :=
  inferInstanceAs (Decidable (∀ now ∈ a.time, s.clock ≤ now))

/-- The clock does not go back, and requests get through within their window. -/
def Timely (S : ServerEnv) (s : ServerState) (a : ServerAction) : Prop :=
  ClockForward s a ∧ InWindow S s a

instance (S : ServerEnv) (s : ServerState) (a : ServerAction) : Decidable (Timely S s a) :=
  inferInstanceAs (Decidable (ClockForward s a ∧ InWindow S s a))

/-- Every request that passed is still remembered, or passed more than a window
ago; and none passed twice. -/
structure ReplayInv (window : Int) (s : ServerState) : Prop where
  times : ∀ x ∈ s.passed, x.1.timestamp.toInt ≤ x.2 ∧ x.2 ≤ s.clock
  kept : ∀ x ∈ s.passed, (∃ row, s.db.nonces.get? x.1.nonce = some row ∧ x.2 ≤ row.seenAt) ∨
    x.2 + window < s.clock
  once : (s.passed.map Prod.fst).Nodup

/-! ## Steps -/

section Steps

variable {window : Int}

section

variable (h : ReplayInv window s) {now : Int}

include h

theorem ReplayInv.later (hnonces : s'.db.nonces = s.db.nonces) (hpassed : s'.passed = s.passed)
    (hclock : s.clock ≤ s'.clock) : ReplayInv window s' := by
  refine ⟨?_, ?_, ?_⟩
  · intro x hx
    rw [hpassed] at hx
    obtain ⟨hdate, htime⟩ := h.times x hx
    exact ⟨hdate, by omega⟩
  · intro x hx
    rw [hpassed] at hx
    rw [hnonces]
    refine (h.kept x hx).imp_right ?_
    intro hold
    omega
  · rw [hpassed]
    exact h.once

theorem ReplayInv.prune {nonces} (hclock : s.clock ≤ now) (hget :
    ∀ n row, s.db.nonces.get? n = some row → now - window ≤ row.seenAt → nonces.get? n = some row) :
    ReplayInv window { s with db := { s.db with nonces := nonces }, clock := now } := by
  refine ⟨?_, ?_, h.once⟩
  · intro x hx
    obtain ⟨hdate, htime⟩ := h.times x hx
    exact ⟨hdate, Int.le_trans htime hclock⟩
  · intro x hx
    show (∃ row, nonces.get? x.1.nonce = some row ∧ _) ∨ _ < now
    rcases h.kept x hx with ⟨row, hrow, hseen⟩ | hold
    · by_cases hcut : now - window ≤ row.seenAt
      · exact .inl ⟨row, hget _ _ hrow hcut, hseen⟩
      -- what is pruned arrived more than a window ago
      exact .inr (by omega)
    · exact .inr (by omega)

theorem ReplayInv.fresh {r} (hclock : s.clock ≤ now) (hnone : s.db.nonces.get? r.nonce = none)
    (hlate : now ≤ r.timestamp.toInt + window) : r ∉ s.passed.map Prod.fst := by
  intro hmem
  obtain ⟨x, hx, rfl⟩ := mem_map.mp hmem
  obtain ⟨hdate, -⟩ := h.times x hx
  rcases h.kept x hx with ⟨row, hrow, -⟩ | hold
  · rw [hnone] at hrow
    cases hrow
  · omega

theorem ReplayInv.pass {r : SignedRequest} {now : Int} (hclock : s.clock = now)
    (hrow : ∃ row, s.db.nonces.get? r.nonce = some row ∧ now ≤ row.seenAt)
    (hdate : r.timestamp.toInt ≤ now) (hfresh : r ∉ s.passed.map Prod.fst) :
    ReplayInv window { s with passed := s.passed ++ [(r, now)] } := by
  have hlast : ∀ {x : SignedRequest × Int}, x ∈ s.passed ++ [(r, now)] →
      x ∈ s.passed ∨ x = (r, now) := by
    intro x hx
    rcases mem_append.mp hx with hx | hx
    · exact .inl hx
    exact .inr (mem_singleton.mp hx)
  refine ⟨?_, ?_, ?_⟩
  · intro x hx
    rcases hlast hx with hx | rfl
    · exact h.times x hx
    · exact ⟨hdate, by show now ≤ s.clock; omega⟩
  · intro x hx
    rcases hlast hx with hx | rfl
    · exact h.kept x hx
    · exact .inl hrow
  · show ((s.passed ++ [(r, now)]).map Prod.fst).Nodup
    rw [map_append]
    exact nodup_append_singleton h.once hfresh

end

section

variable (hwindow : 1 ≤ S.cfg.nonceWindowSecs.toInt) (h : ReplayInv S.cfg.nonceWindowSecs.toInt s)

include hwindow h

theorem ReplayInv.checkNonce {i withinRate now}
    (htimely : Timely S s (.checkNonce i withinRate now))
    (hstep : nonceStep S s i withinRate now = some s') :
    ReplayInv S.cfg.nonceWindowSecs.toInt s' := by
  have hclock : s.clock ≤ now := htimely.1 now rfl
  obtain ⟨r, hr, ⟨e, -, rfl⟩ | ⟨nonces, hok, hcases⟩⟩ := nonceStep_ok hstep
  · exact h.later rfl rfl hclock
  · obtain ⟨hnone, hget⟩ := consumeNonce_ok hok
    obtain ⟨hdate, hlate⟩ := htimely.2 r hr hnone
    have hmine : nonces.get? r.nonce = some ⟨r.device, now⟩ := by
      rw [hget r.nonce, if_pos rfl, filter_some, if_pos]
      simp
      omega
    have hpruned : ReplayInv S.cfg.nonceWindowSecs.toInt
        { s with db := { s.db with nonces := nonces }, clock := now } := by
      refine h.prune hclock ?_
      intro n row hrow hcut
      have hne : n ≠ r.nonce := by
        rintro rfl
        rw [hnone] at hrow
        cases hrow
      rw [hget n, if_neg hne, hrow, filter_some, if_pos]
      simpa using hcut
    rcases hcases with ⟨-, rfl⟩ | ⟨-, rfl⟩
    · exact hpruned.later rfl rfl (Int.le_refl _)
    · have hfresh := h.fresh hclock hnone hlate
      have hpass := hpruned.pass rfl ⟨_, hmine, Int.le_refl _⟩ hdate hfresh
      exact hpass.later rfl rfl (Int.le_refl _)

/-- A timely step keeps that no request has passed twice. -/
theorem ReplayInv.step {a : ServerAction} (htimely : Timely S s a)
    (hstep : serverStep S s a = some s') :
    ReplayInv S.cfg.nonceWindowSecs.toInt s' := by
  cases a with
  | verify header method path body now =>
    obtain ⟨r, -, rfl⟩ := map_eq_some_iff.mp hstep
    exact h.later rfl rfl (Int.le_refl _)
  | checkNonce i withinRate now => exact h.checkNonce hwindow htimely hstep
  | handle i draws now =>
    have hclock : s.clock ≤ now := htimely.1 now rfl
    obtain ⟨r, -, rfl | ⟨db, hdb, rfl⟩⟩ := handleStep_ok hstep
    · exact h.later rfl rfl hclock
    · exact h.later (runCall_nonces hdb) rfl hclock
  | cancelVerified i | cancelAdmitted i =>
    cases hstep
    exact h.later rfl rfl (Int.le_refl _)
  | register req now =>
    have hclock : s.clock ≤ now := htimely.1 now rfl
    cases hstep
    unfold registerStep
    dsimp only
    split
    · exact h.later rfl rfl hclock
    · exact h.later rfl rfl hclock
  | fetch token salt now | retrieve secret salt now =>
    cases hstep
    exact h.later rfl rfl (htimely.1 now rfl)
  | cleanup now =>
    cases hstep
    have hclock : s.clock ≤ now := htimely.1 now rfl
    have hpruned : ReplayInv S.cfg.nonceWindowSecs.toInt
        { s with db := { s.db with nonces := cleanupNonces S.cfg s.db.nonces now },
                  clock := now } := by
      refine h.prune hclock ?_
      intro n row hrow hcut
      rw [cleanupNonces, Table.get?_filter, hrow, filter_some, if_pos]
      simp
      omega
    exact hpruned.later rfl rfl (Int.le_refl _)

end

end Steps

/-- **A request passes once.** In every run with a clock that does not go back
and requests that get through within their window. -/
theorem request_passes_once (S : ServerEnv) (hwindow : 1 ≤ S.cfg.nonceWindowSecs) (s : ServerState)
    (hreach : (server S).Reachable (Timely S) s) : (s.passed.map Prod.fst).Nodup := by
  have hone : 1 ≤ S.cfg.nonceWindowSecs.toInt := Int64.le_iff_toInt_le.mp hwindow
  have hinv : ReplayInv S.cfg.nonceWindowSecs.toInt s := by
    refine hreach.invariant ?_ ?_
    · rintro x ⟨clock, rfl⟩
      exact ⟨nofun, nofun, nodup_nil⟩
    · intro x y a hx hok hstep
      exact hx.step hone hok hstep
  exact hinv.once

/-! ## Sample runs -/

def statusPath : Text := "/api/v2/sync/status".toList

def statusServer : ServerEnv := ⟨toyRelayEnv, toyConfig, fun _ => .other⟩

def statusVerify (timestamp : Int64) (now : Int) : ServerAction :=
  .verify (toyHeader 1 timestamp "n".toList "GET".toList statusPath [])
    "GET".toList statusPath [] now

/-- A request dated 1000 is sent at 1000, and twice more within the window. -/
def statusRun : List ServerAction :=
  [.register (toyJoin 1 7 "laptop" 1) 900, statusVerify 1000 1000, .checkNonce 0 true 1000,
    statusVerify 1000 1100, .checkNonce 0 true 1100, .cleanup 1300, statusVerify 1000 1300,
    .checkNonce 0 true 1300]

theorem statusRun_runs : ((server statusServer).exec (.initial 0) statusRun).isSome := by
  decide +kernel

theorem request_passes_once_statusRun :
    ∃ s, (server statusServer).exec (.initial 0) statusRun = some s ∧
      (s.passed.map Prod.fst).Nodup := by
  have hallowed : (server statusServer).Allowed (Timely statusServer) (.initial 0) statusRun := by
    decide +kernel
  have hexec := (some_get statusRun_runs).symm
  exact ⟨_, hexec, request_passes_once statusServer (by decide) _
    ⟨_, ⟨0, rfl⟩, Machine.run_of_exec hallowed hexec⟩⟩

/-- The same request dated ahead: sent at 1000, and once more at 1301. By then
the cleanup has forgotten it, and its timestamp is still in the window. -/
def futureRun : List ServerAction :=
  [.register (toyJoin 1 7 "laptop" 1) 900, statusVerify 1300 1000, .checkNonce 0 true 1000,
    .cleanup 1301, statusVerify 1300 1301, .checkNonce 0 true 1301]

/-- A request that is dated ahead of the clock passes twice. -/
theorem future_request_passes_twice : 1 ≤ statusServer.cfg.nonceWindowSecs ∧
    (server statusServer).Allowed ClockForward (.initial 0) futureRun ∧
    ∃ s, (server statusServer).exec (.initial 0) futureRun = some s ∧
      ¬ (s.passed.map Prod.fst).Nodup := by
  refine ⟨by decide, by decide +kernel, ?_⟩
  have hany : ((server statusServer).exec (.initial 0) futureRun).any
      (fun s => ¬ (s.passed.map Prod.fst).Nodup) = true := by
    decide +kernel
  obtain ⟨s, hs, htwice⟩ := (any_eq_true _ _).mp hany
  exact ⟨s, hs, of_decide_eq_true htwice⟩

end SentinelPass.Relay
