import SentinelPass.Relay.Pages

/-!
# What the relay's answers say about its log

An Applied answer, fresh or replayed, means that the mutation's version is in the
log under the device's own name (`Truthful`), and what a push adds to the log is
what was in the push (`pushV2_new`).
-/

namespace SentinelPass.Relay

open Lib List PushTx

/-- A log row that a mutation of `l`, sent by `device` to its own vault, became. -/
def LoggedFrom (l : List MutationV2) (vault device : Uuid) (now : Int) (e : SyncMutationV2) :
    Prop :=
  ∃ m ∈ l, ∃ payload, WellShaped m ∧ m.vaultId = vault ∧ m.originDeviceId = device ∧
    Base64.decode m.encryptedPayload = some payload ∧ e = logRow m payload now

variable {device : Uuid} {req : PushRequestV2} {resp : PushResponseV2} {s s' : RelayState}
  {now : Int}

/-- **What a push adds to the log** is in the device's own vault and was in the
push. -/
theorem pushV2_new (h : pushV2 s device req now = .ok (s', resp)) {v : Uuid}
    {x : Int64 × SyncMutationV2} (hx : x ∈ s'.log v) (hnew : x ∉ s.log v) :
    s.deviceVault device = some v ∧ LoggedFrom req.mutations v device now x.2 := by
  obtain ⟨vault, tx, hvault, -, hloop, rfl, -, -⟩ := pushV2_ok h
  have hend : (finishPush tx vault device req.deviceSequence now).log v = tx.relay.log v := by
    unfold RelayState.log
    rw [(finishPush_tables tx vault device req.deviceSequence now).1]
  rw [hend] at hx
  have hall : ∀ x ∈ tx.relay.log v,
      x ∈ s.log v ∨ v = vault ∧ LoggedFrom req.mutations vault device now x.2 := by
    refine foldlM_ok_invariant (P := fun tx => ∀ x ∈ tx.relay.log v,
      x ∈ s.log v ∨ v = vault ∧ LoggedFrom req.mutations vault device now x.2) hloop
      (fun x hx => .inl hx) ?_
    intro a b m hm ha hone x hx
    obtain ⟨hshape, hmv, hmd, hstep⟩ := pushOne_step hone
    rcases hstep.log with hsame | ⟨seq, payload, -, hdec, -, happ⟩
    · rw [hsame] at hx
      exact ha x hx
    · rw [happ] at hx
      split at hx
      · next hv =>
        rcases mem_append.mp hx with hx | hx
        · exact ha x hx
        · rw [mem_singleton] at hx
          rw [hx]
          exact .inr ⟨hv, m, hm, payload, hshape, hmv, hmd, hdec, rfl⟩
      · exact ha x hx
  obtain ⟨rfl, hfrom⟩ := (hall x hx).resolve_left hnew
  exact ⟨hvault, hfrom⟩

/-! ## Applied means logged -/

/-- The version is in the vault's log, under that mutation id and that device. -/
def LoggedAs (s : RelayState) (id device vault : Uuid) (version : UInt64) : Prop :=
  ∃ x ∈ s.log vault, x.2.mutationId = id ∧ x.2.originDeviceId = device ∧
    x.2.resultingVersion.toUInt64 = version

theorem LoggedAs.mono {id vault version} (hlog : ∀ x ∈ s.log vault, x ∈ s'.log vault)
    (h : LoggedAs s id device vault version) : LoggedAs s' id device vault version := by
  obtain ⟨x, hx, hfields⟩ := h
  exact ⟨x, hlog x hx, hfields⟩

def Truthful (s : RelayState) : Prop :=
  ∀ id device vault row, s.mutationResults.get? (id, device, vault) = some row →
    ∀ version seq, storedOutcome row = .applied version seq → LoggedAs s id device vault version

theorem truthful_empty : Truthful RelayState.empty := by
  intro id device vault row h
  cases h

theorem Truthful.congr (h : Truthful s)
    (hrows : ∀ k row, s'.mutationResults.get? k = some row → s.mutationResults.get? k = some row)
    (hlog : ∀ v x, x ∈ s.log v → x ∈ s'.log v) : Truthful s' := by
  intro id device vault row hrow version seq hout
  exact (h id device vault row (hrows _ row hrow) version seq hout).mono (hlog vault)

section Step

variable {vault : Uuid} {m : MutationV2} {tx : PushTx}

theorem Truthful.conclude (h : Truthful tx.relay)
    (hfresh : tx.relay.mutationResults.get? (resultKey vault device m) = none)
    {outcome}
    (hout : ∀ version seq, outcome = .applied version seq →
      LoggedAs tx.relay m.mutationId device vault version) :
    Truthful (tx.conclude vault device m outcome now).relay := by
  intro id d v row hrow version seq hstored
  rw [conclude_relay, recordResult_get? _ _ _ hfresh] at hrow
  -- recording a result touches no log
  have hlog : LoggedAs tx.relay id d v version →
      LoggedAs (tx.conclude vault device m outcome now).relay id d v version :=
    LoggedAs.mono fun x hx => hx
  split at hrow
  · next hkey =>
    cases hrow
    obtain ⟨rfl, rfl, rfl⟩ : id = m.mutationId ∧ d = device ∧ v = vault := by
      simpa [resultKey] using hkey
    rw [storedOutcome_resultRow] at hstored
    exact hlog (hout version seq hstored)
  · exact hlog (h id d v row hrow version seq hstored)

theorem Truthful.pushStep {tx' : PushTx} (h : Truthful tx.relay) (hdev : m.originDeviceId = device)
    (hstep : PushStep vault device now m tx tx') : Truthful tx'.relay := by
  cases hstep with
  | replay _ => exact h
  | stale hfresh _ => exact h.conclude hfresh fun _ _ ho => nomatch ho
  | conflict hfresh _ _ _ =>
    refine Truthful.conclude (by rwa [advance_relay]) (by rwa [advance_relay]) ?_
    exact fun _ _ ho => nomatch ho
  | @apply c payload log' hfresh _ _ _ _ _ _ hlog =>
    have hgrow : ∀ v x, x ∈ tx.relay.log v →
        x ∈ (tx.relay.appended vault log' m (entryRow m payload (c + 1) now)).log v := by
      intro v x hx
      rw [log_appended hlog]
      split
      · exact mem_append_left _ hx
      · exact hx
    refine Truthful.conclude ?_ ?_ ?_
    · rw [advance_relay]
      exact h.congr (fun _ _ hrow => hrow) hgrow
    · rw [advance_relay]
      exact hfresh
    · intro version seq ho
      cases ho
      refine ⟨(c + 1, logRow m payload now), ?_, rfl, hdev, by simp [logRow]⟩
      show _ ∈ (tx.relay.appended vault log' m (entryRow m payload (c + 1) now)).log vault
      rw [log_appended hlog, if_pos rfl]
      exact mem_append_right _ (mem_singleton_self _)

end Step

theorem Truthful.pushV2 (h : Truthful s) (hp : pushV2 s device req now = .ok (s', resp)) :
    Truthful s' ∧ ∃ vault, s.deviceVault device = some vault ∧
      ∀ r ∈ resp.results, ∀ version seq, r.outcome = .applied version seq →
        LoggedAs s' r.mutationId device vault version := by
  obtain ⟨vault, tx, hvault, -, hloop, rfl, -, hres⟩ := pushV2_ok hp
  have htx : Truthful tx.relay := by
    refine foldlM_ok_invariant (P := fun tx => Truthful tx.relay) hloop h ?_
    intro x y m _ hx hone
    obtain ⟨-, -, hdev, hstep⟩ := pushOne_step hone
    exact hx.pushStep hdev hstep
  obtain ⟨hlog, -, -, hrows, -⟩ := finishPush_tables tx vault device req.deviceSequence now
  have hend : Truthful (finishPush tx vault device req.deviceSequence now) := by
    refine htx.congr (fun k row hrow => by rwa [hrows] at hrow) fun v x hx => ?_
    unfold RelayState.log at hx ⊢
    rwa [hlog]
  refine ⟨hend, vault, hvault, ?_⟩
  intro r hr version seq hout
  obtain ⟨hall, hanswers⟩ := pushLoop_results hloop
  rw [hres, hanswers] at hr
  obtain ⟨m, hm, rfl⟩ := mem_map.mp ((mem_append.mp hr).resolve_left not_mem_nil)
  obtain ⟨row, hrow⟩ := hall m hm
  have hstored : storedOutcome row = .applied version seq := by
    rw [← hout]
    show _ = tx.outcomeOf vault device m
    unfold outcomeOf
    rw [hrow]
    rfl
  refine hend m.mutationId device vault row ?_ version seq hstored
  rw [hrows]
  exact hrow

theorem Truthful.step {a} (h : Truthful s) (hs : relayStep s a = some s') : Truthful s' := by
  cases a with
  | register req paired now =>
    obtain ⟨row, -, rfl⟩ := registerDevice_ok (toOption_eq_some.mp hs)
    exact h.congr (fun _ _ hrow => hrow) fun _ _ hx => hx
  | push device req now =>
    obtain ⟨resp, hp⟩ := relayStep_push hs
    exact (h.pushV2 hp).1
  | cleanup ttl cap now =>
    cases hs
    refine h.congr (fun k row hrow => ?_) fun _ _ hx => hx
    change ((s.mutationResults.filter _).filter _).get? k = some row at hrow
    rw [Table.get?_filter, Table.get?_filter] at hrow
    exact (Option.filter_eq_some_iff.mp (Option.filter_eq_some_iff.mp hrow).1).1
  | claim device origin newVault now =>
    obtain ⟨vaults, counters, -, -, rfl⟩ := migrationClaim_ok (toOption_eq_some.mp hs)
    exact h.congr (fun _ _ hrow => hrow) fun _ _ hx => hx

/-- **An acknowledged write stays.** Whatever was answered Applied, now or from a stored result, is
in the log of the device's vault, whatever the relay does afterwards. -/
theorem applied_stays_logged {now : Int} {t : RelayState} (h : relay.Reachable (fun _ _ => True) s)
    (hp : pushV2 s device req now = .ok (s', resp)) (hrun : relay.Run (fun _ _ => True) s' t) :
    ∃ vault, s.deviceVault device = some vault ∧ ∀ r ∈ resp.results, ∀ version seq,
      r.outcome = .applied version seq → LoggedAs t r.mutationId device vault version := by
  have htruth : Truthful s := h.invariant (fun h0 => h0 ▸ truthful_empty) fun hx _ hs => hx.step hs
  obtain ⟨-, vault, hvault, hlogged⟩ := htruth.pushV2 hp
  have hgrow : s'.log vault <+: t.log vault := by
    refine hrun.invariant (P := fun u => s'.log vault <+: u.log vault) prefix_rfl ?_
    exact fun hx _ hs => hx.trans (relayStep_log hs vault)
  refine ⟨vault, hvault, fun r hr version seq hout => ?_⟩
  exact (hlogged r hr version seq hout).mono fun x hx => hgrow.subset hx

/-- The row of an applied mutation outlives the cleanup of its result. -/
theorem applied_stays_logged_cleanup : ∃ s s' resp vault,
    pushV2 s 2 ⟨1, [sampleMutation 11 0 1 1]⟩ 10 = .ok (s', resp) ∧
      ∃ r ∈ resp.results, LoggedAs (runCleanup s' 5 10 100) r.mutationId 2 vault 1 := by
  have hexec : (relay.exec .empty [sampleRegister 2]).any (fun s =>
      (pushV2 s 2 ⟨1, [sampleMutation 11 0 1 1]⟩ 10).toOption.any fun p =>
        p.2.results.head?.any (·.outcome = .applied 1 1)) = true := by decide +kernel
  obtain ⟨s, hs, hpush⟩ := (Option.any_eq_true _ _).mp hexec
  obtain ⟨⟨s', resp⟩, hp, hhead⟩ := (Option.any_eq_true _ _).mp hpush
  obtain ⟨r, hr, hout⟩ := (Option.any_eq_true _ _).mp hhead
  have hp := toOption_eq_some.mp hp
  obtain ⟨vault, -, hall⟩ := applied_stays_logged
    ⟨_, rfl, Machine.run_of_exec (Machine.allowed_true _ _) hs⟩ hp
    (Machine.run_of_exec (Machine.allowed_true _ [.cleanup 5 10 100]) rfl)
  have hr := mem_of_head? hr
  exact ⟨s, s', resp, vault, hp, r, hr, hall r hr 1 1 (of_decide_eq_true hout)⟩

/-! ## Every row was pushed -/

/-- **Tenants are apart.** Each row of a vault's log is of a mutation that the device it names
pushed while it was in that vault. -/
theorem log_pushed_by_member {t : RelayState} {vault : Uuid} {x : Int64 × SyncMutationV2}
    (h : relay.Reachable (fun _ _ => True) t) (hx : x ∈ t.log vault) :
    ∃ s s' device req resp now, relay.Reachable (fun _ _ => True) s ∧
      pushV2 s device req now = .ok (s', resp) ∧ relay.Run (fun _ _ => True) s' t ∧
      s.deviceVault device = some vault ∧ LoggedFrom req.mutations vault device now x.2 := by
  obtain ⟨s₀, hinit, hrun⟩ := h
  induction hrun with
  | refl => cases hinit ▸ hx
  | @step u t a hrun _ hstep ih =>
    by_cases hold : x ∈ u.log vault
    · obtain ⟨s, s', device, req, resp, now, hs, hp, hlater, hfrom⟩ := ih hold
      exact ⟨s, s', device, req, resp, now, hs, hp, hlater.step trivial hstep, hfrom⟩
    -- only a push adds rows
    cases a with
    | push device req now =>
      obtain ⟨resp, hp⟩ := relayStep_push hstep
      exact ⟨u, t, device, req, resp, now, ⟨s₀, hinit, hrun⟩, hp, .refl, pushV2_new hp hx hold⟩
    | register =>
      obtain ⟨row, -, rfl⟩ := registerDevice_ok (toOption_eq_some.mp hstep)
      exact absurd hx hold
    | cleanup => cases hstep; exact absurd hx hold
    | claim =>
      obtain ⟨vaults, counters, -, -, rfl⟩ := migrationClaim_ok (toOption_eq_some.mp hstep)
      exact absurd hx hold

/-- Two vaults with a device each, and a push to the first one. -/
def twoVaults : List RelayAction :=
  [sampleRegister 2,
    .register ⟨3, 4, "phone", "mobile", Base64.encode (List.replicate 32 8)⟩ true 0,
    .push 2 ⟨1, [sampleMutation 11 0 1 1]⟩ 10, .cleanup 5 10 100]

theorem log_pushed_by_member_sample : ∃ t x s s' device req resp now,
    relay.exec .empty twoVaults = some t ∧ x ∈ t.log 1 ∧
      pushV2 s device req now = .ok (s', resp) ∧ relay.Run (fun _ _ => True) s' t ∧
      s.deviceVault device = some 1 ∧ LoggedFrom req.mutations 1 device now x.2 := by
  have hexec : (relay.exec .empty twoVaults).any (fun t => (t.log 1).head?.isSome) = true := by
    decide +kernel
  obtain ⟨t, ht, hlog⟩ := (Option.any_eq_true _ _).mp hexec
  obtain ⟨x, hx⟩ := Option.isSome_iff_exists.mp hlog
  have hx := mem_of_head? hx
  obtain ⟨s, s', device, req, resp, now, -, hp, hrun, hdev, hfrom⟩ := log_pushed_by_member
    ⟨_, rfl, Machine.run_of_exec (Machine.allowed_true _ _) ht⟩ hx
  exact ⟨t, x, s, s', device, req, resp, now, ht, hx, hp, hrun, hdev, hfrom⟩

end SentinelPass.Relay
