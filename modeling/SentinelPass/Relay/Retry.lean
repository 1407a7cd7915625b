import SentinelPass.Relay.Results

/-!
# Retrying a push

A client that lost the answer to a push sends the same request again, any number
of times, while other devices push and the relay expires result rows
(`betweenRetries`). `push_retry` says what the retry is answered:

* no mutation of the request that reached the log reaches it a second time;
* while the result rows are kept, the answers are the original ones;
* a logged mutation whose row is gone is answered as `Superseded`.

The last point is weaker than a version conflict: the epoch gate comes before
the version guard, so `retry_after_rotation` is answered `StaleEpoch` for a
mutation the log already holds.
-/

namespace SentinelPass.Relay

open Lib List RelayState SyncMutationV2 PushTx

/-- The request that took the relay from `s` to `s1` put `m` into the log. -/
def AppliedBy (s s1 : RelayState) (vault : Uuid) (m : MutationV2) : Prop :=
  ∃ seq payload receivedAt, Base64.decode m.encryptedPayload = some payload ∧
    (seq, logRow m payload receivedAt) ∈ s1.log vault ∧
    (seq, logRow m payload receivedAt) ∉ s.log vault

/-- What may happen between two sends of `req` by `device`. -/
def betweenRetries (device : Uuid) (req : PushRequestV2) : RelayState → RelayAction → Prop
  | _, .push device' req' _ => device' ≠ device ∨ req' = req
  | _, .cleanup .. => True
  | _, _ => False

/-- The stored row of a mutation of `device`. -/
def RelayState.resultOf (s : RelayState) (vault device : Uuid) (m : MutationV2) :
    Option MutationResultRow :=
  s.mutationResults.get? (resultKey vault device m)

theorem runCleanup_get? (s ttl cap now k) :
    (runCleanup s ttl cap now).mutationResults.get? k = s.mutationResults.get? k ∨
      (runCleanup s ttl cap now).mutationResults.get? k = none := by
  unfold runCleanup
  simp only [Table.get?_filter]
  cases s.mutationResults.get? k with
  | none => exact .inl rfl
  | some row =>
    simp only [Option.filter_some]
    split
    · simp only [Option.filter_some]
      split
      · exact .inl rfl
      exact .inr rfl
    · exact .inr rfl

/-! ## What holds between retries -/

/-- The log and the device's binding, at any point between two sends. -/
structure RetryInv (s1 : RelayState) (device vault : Uuid) (s : RelayState) : Prop where
  logInv : LogInv s
  vaultOf : s.deviceVault device = some vault
  counter : ∃ c, s.sequenceCounters.get? vault = some c
  log : ∀ x ∈ s1.log vault, x ∈ s.log vault

variable {device vault : Uuid} {l : List MutationV2} {m : MutationV2} {now : Int}
  {req : PushRequestV2} {resp : PushResponseV2} {s s' s1 : RelayState} {tx : PushTx}

theorem RetryInv.step {a} (h : RetryInv s1 device vault s) (hok : betweenRetries device req s a)
    (hs : relay.step s a = some s') : RetryInv s1 device vault s' := by
  have hinv := h.logInv.step hs
  cases a with
  | push device' req' now =>
    obtain ⟨resp, hp⟩ := relayStep_push hs
    obtain ⟨hdev, hlog, -, -, hctr⟩ := pushV2_frame hp
    obtain ⟨c, hc⟩ := h.counter
    refine ⟨hinv, ?_, hctr vault c hc, fun x hx => hlog vault x (h.log x hx)⟩
    unfold deviceVault
    rw [hdev]
    exact h.vaultOf
  | cleanup ttl cap now =>
    cases hs
    exact ⟨hinv, h.vaultOf, h.counter, h.log⟩
  | register _ _ _ => exact absurd hok id
  | claim _ _ _ _ => exact absurd hok id

/-- The result row of a logged mutation between two sends: the original, none, or
one that answers it as superseded. -/
def RowAfter (s1 : RelayState) (vault device : Uuid) (m : MutationV2) (s : RelayState) : Prop :=
  s.resultOf vault device m = s1.resultOf vault device m ∨
  s.resultOf vault device m = none ∨
  ∃ row, s.resultOf vault device m = some row ∧ Superseded m (storedOutcome row)

/-- A mutation of a request that the request logged, at its first place there. -/
structure LoggedFirst (req : PushRequestV2) (vault device : Uuid) (s1 : RelayState)
    (m : MutationV2) : Prop where
  first : ∃ pre post, req.mutations = pre ++ m :: post ∧
    ∀ m' ∈ pre, resultKey vault device m' ≠ resultKey vault device m
  logged : ∃ x ∈ s1.log vault, x.2.objectId = m.objectId ∧
    x.2.resultingVersion.toUInt64 = m.resultingVersion

theorem LoggedFirst.resend (hm : LoggedFirst req vault device s1 m)
    (h : RetryInv s1 device vault s) (hp : pushV2 s device req now = .ok (s', resp))
    (hnone : s.resultOf vault device m = none) :
    ∃ row, s'.resultOf vault device m = some row ∧ Superseded m (storedOutcome row) := by
  obtain ⟨vault', tx, hv, -, hloop, rfl, -, -⟩ := pushV2_ok hp
  rw [h.vaultOf] at hv
  cases hv
  obtain ⟨pre, post, hreq, hpre⟩ := hm.first
  obtain ⟨x, hx, hobj, hres⟩ := hm.logged
  rw [hreq] at hloop
  obtain ⟨-, -, -, hrows, -⟩ := finishPush_tables tx vault device req.deviceSequence now
  unfold resultOf
  rw [hrows]
  exact pushLoop_superseded hloop hpre h.logInv hnone
    (mem_objectLog.mpr ⟨h.log x hx, hobj⟩) hres

theorem RowAfter.step {a} (hrow : RowAfter s1 vault device m s)
    (hm : LoggedFirst req vault device s1 m) (h : RetryInv s1 device vault s)
    (hok : betweenRetries device req s a) (hs : relay.step s a = some s') :
    RowAfter s1 vault device m s' := by
  cases a with
  | push device' req' now =>
    obtain ⟨resp, hp⟩ := relayStep_push hs
    obtain ⟨-, -, hother, hkeep, -⟩ := pushV2_frame hp
    by_cases hd : device' = device
    · -- the request itself, sent again
      have hreq : req' = req := hok.resolve_left fun hne => hne hd
      subst hd hreq
      cases hcur : s.resultOf vault device' m with
      | none => exact .inr (.inr (hm.resend h hp hcur))
      | some row =>
        have hsame : s'.resultOf vault device' m = s.resultOf vault device' m := by
          rw [hcur]
          exact hkeep _ row hcur
        unfold RowAfter
        rw [hsame]
        exact hrow
    · have hsame : s'.resultOf vault device m = s.resultOf vault device m :=
        hother _ (Ne.symm hd)
      unfold RowAfter
      rw [hsame]
      exact hrow
  | cleanup ttl cap now =>
    cases hs
    rcases runCleanup_get? s ttl cap now (resultKey vault device m) with hsame | hgone
    · unfold RowAfter resultOf
      rw [hsame]
      exact hrow
    · exact .inr (.inl hgone)
  | register _ _ _ => exact absurd hok id
  | claim _ _ _ _ => exact absurd hok id

/-! ## Replaying a request -/

theorem pushOne_replay {row} (hshape : WellShaped m) (hvault : m.vaultId = vault)
    (hdev : m.originDeviceId = device) (hrow : tx.stored (resultKey vault device m) = some row) :
    pushOne vault device now tx m = .ok (tx.answer m (storedOutcome row)) := by
  unfold stored at hrow
  unfold pushOne
  rw [validateShape_eq_ok.mpr hshape]
  simp only [bind, Except.bind, pure, Except.pure, hvault, hdev, ne_eq, not_true_eq_false,
    if_false, hrow]

theorem pushLoop_static {tx' : PushTx} (h : l.foldlM (pushOne vault device now) tx = .ok tx') :
    ∀ m ∈ l, WellShaped m ∧ m.vaultId = vault ∧ m.originDeviceId = device := by
  induction l generalizing tx with
  | nil => exact fun m hm => absurd hm not_mem_nil
  | cons m rest ih =>
    obtain ⟨tx₁, hone, hrest⟩ := foldlM_cons_ok h
    obtain ⟨hshape, hvault, hdev, -⟩ := pushOne_step hone
    intro m' hm'
    rcases mem_cons.mp hm' with rfl | hm'
    · exact ⟨hshape, hvault, hdev⟩
    · exact ih hrest m' hm'

theorem pushLoop_replay
    (hstatic : ∀ m ∈ l, WellShaped m ∧ m.vaultId = vault ∧ m.originDeviceId = device)
    (hrows : ∀ m ∈ l, ∃ row, tx.stored (resultKey vault device m) = some row) :
    ∃ tx', l.foldlM (pushOne vault device now) tx = .ok tx' ∧ tx'.relay = tx.relay := by
  induction l generalizing tx with
  | nil => exact ⟨tx, rfl, rfl⟩
  | cons m rest ih =>
    obtain ⟨hshape, hvault, hdev⟩ := hstatic m mem_cons_self
    obtain ⟨row, hrow⟩ := hrows m mem_cons_self
    have hrows' : ∀ m' ∈ rest, ∃ row',
        (tx.answer m (storedOutcome row)).stored (resultKey vault device m') = some row' :=
      fun m' hm' => hrows m' (mem_cons_of_mem _ hm')
    obtain ⟨tx', hrest, hrelay⟩ :=
      ih (fun m' hm' => hstatic m' (mem_cons_of_mem _ hm')) hrows'
    refine ⟨tx', ?_, hrelay⟩
    rw [foldlM_cons, pushOne_replay hshape hvault hdev hrow]
    exact hrest

/-- While the rows of the first send are kept, the retry succeeds with the same answers. -/
theorem RetryInv.replay {s2 : RelayState} {now' : Int}
    (h1 : pushV2 s device req now = .ok (s1, resp))
    (hv : s.deviceVault device = some vault) (h : RetryInv s1 device vault s2)
    (hkept : ∀ m ∈ req.mutations, s2.resultOf vault device m = s1.resultOf vault device m) :
    ∃ s3 resp', pushV2 s2 device req now' = .ok (s3, resp') ∧ resp'.results = resp.results := by
  obtain ⟨vault', tx, hv', hlen, hloop, rfl, -, hres⟩ := pushV2_ok h1
  rw [hv] at hv'
  cases hv'
  obtain ⟨-, -, -, htables, -⟩ := finishPush_tables tx vault device req.deviceSequence now
  obtain ⟨hrows, hanswers⟩ := pushLoop_results hloop
  -- the rows the retry finds are the ones the first send left
  have hstored : ∀ m ∈ req.mutations, (start s2 vault).stored (resultKey vault device m)
        = tx.stored (resultKey vault device m) := by
    intro m hm
    have := hkept m hm
    unfold resultOf at this
    rw [htables] at this
    exact this
  have hrows2 : ∀ m ∈ req.mutations, ∃ row,
      (start s2 vault).stored (resultKey vault device m) = some row := by
    intro m hm
    rw [hstored m hm]
    exact hrows m hm
  obtain ⟨tx2, hloop2, hrelay2⟩ := pushLoop_replay (pushLoop_static hloop) hrows2
  obtain ⟨-, hanswers2⟩ := pushLoop_results hloop2
  obtain ⟨c, hc⟩ := h.counter
  refine ⟨_, _, pushV2_of_loop h.vaultOf hlen hloop2 (by rw [hrelay2]; exact hc), ?_⟩
  show tx2.results = resp.results
  rw [hres, hanswers, hanswers2]
  refine congrArg _ (map_congr_left fun m hm => ?_)
  have hsame : tx2.stored (resultKey vault device m) = tx.stored (resultKey vault device m) := by
    rw [← hstored m hm]
    unfold stored
    rw [hrelay2]
  unfold outcomeOf
  rw [hsame]

/-! ## The retry theorem -/

/-- A mutation the request logged has, at its first place in the request, a twin
with the same key, version and epoch. -/
theorem AppliedBy.loggedFirst (ha : AppliedBy s s1 vault m)
    (h1 : pushV2 s device req now = .ok (s1, resp)) (hv : s.deviceVault device = some vault) :
    ∃ m₀, LoggedFirst req vault device s1 m₀ ∧
      resultKey vault device m₀ = resultKey vault device m ∧
      m₀.resultingVersion = m.resultingVersion ∧ m₀.keyEpoch = m.keyEpoch := by
  obtain ⟨seq, payload, t, hdec, hin, hnot⟩ := ha
  obtain ⟨vault', tx, hv', -, hloop, rfl, -, -⟩ := pushV2_ok h1
  rw [hv] at hv'
  cases hv'
  have hlog : (finishPush tx vault device req.deviceSequence now).log vault
      = tx.relay.log vault := by
    unfold log
    rw [(finishPush_tables tx vault device req.deviceSequence now).1]
  rw [hlog] at hin
  obtain ⟨pre, m₀, post, payload₀, hreq, -, hrow, -, -, hpre⟩ := pushLoop_append hloop hin hnot
  -- the two log rows are the same row, so the two mutations agree on its columns
  have hres : m.resultingVersion = m₀.resultingVersion := by
    have := congrArg (fun e => e.resultingVersion.toUInt64) hrow
    simpa [logRow] using this
  have hkey : resultKey vault device m₀ = resultKey vault device m := by
    have := congrArg mutationId hrow
    unfold resultKey
    rw [show m₀.mutationId = m.mutationId from this.symm]
  refine ⟨m₀, ⟨⟨pre, post, hreq, hpre⟩, (seq, logRow m payload t), by rwa [hlog], ?_, ?_⟩,
    hkey, hres.symm, (congrArg keyEpoch hrow).symm⟩
  · exact congrArg objectId hrow
  · simpa [logRow] using hres

/-- **Retrying a push.** From any relay state `s` reached from the empty relay,
let `device` push `req` with success, and let other devices push, the relay clean
up and the device send `req` again, in any order, up to a state `s2`. Then

* a mutation of `req` that the first send logged is in the log exactly once;
* if the result rows of the first send are all still there, sending `req` once
  more succeeds with exactly the original answers;
* a logged mutation whose original row is gone is answered, by a retry that
  succeeds, with a version conflict at or above its version, or as sealed under
  an epoch below the vault's. -/
theorem push_retry {s s1 s2 : RelayState} {device : Uuid} {req : PushRequestV2} {now : Int}
    {resp : PushResponseV2} (hs : relay.Reachable (fun _ _ => True) s)
    (h1 : pushV2 s device req now = .ok (s1, resp))
    (hrun : relay.Run (betweenRetries device req) s1 s2) :
    ∃ vault, s.deviceVault device = some vault ∧ (∀ m ∈ req.mutations, AppliedBy s s1 vault m →
        ∃! x, x ∈ s2.log vault ∧ x.2.objectId = m.objectId ∧
          x.2.resultingVersion.toUInt64 = m.resultingVersion) ∧
      ((∀ m ∈ req.mutations, s2.resultOf vault device m = s1.resultOf vault device m) →
        ∀ now', ∃ s3 resp', pushV2 s2 device req now' = .ok (s3, resp') ∧
          resp'.results = resp.results) ∧
      (∀ now' s3 resp', pushV2 s2 device req now' = .ok (s3, resp') →
        ∀ (i : Nat) m, req.mutations[i]? = some m → AppliedBy s s1 vault m →
          s2.resultOf vault device m ≠ s1.resultOf vault device m →
          ∃ answer, resp'.results[i]? = some answer ∧ Superseded m answer.outcome) := by
  have hinv1 := (logInv_of_reachable hs).pushV2 h1
  obtain ⟨hdev1, -, -, -, -⟩ := pushV2_frame h1
  obtain ⟨vault, tx, hv, -, hloop, hs1, hcur, -⟩ := pushV2_ok h1
  have h0 : RetryInv s1 device vault s1 :=
    ⟨hinv1, by unfold deviceVault; rw [hdev1]; exact hv, ⟨_, hcur⟩, fun _ hx => hx⟩
  have hretry : RetryInv s1 device vault s2 :=
    hrun.invariant h0 fun hx hok hst => hx.step hok hst
  refine ⟨vault, hv, ?_, fun hkept now' => hretry.replay h1 hv hkept, ?_⟩
  · rintro m - ⟨seq, payload, t, -, hin, -⟩
    refine ⟨(seq, logRow m payload t), ⟨hretry.log _ hin, rfl, by simp [logRow]⟩, ?_⟩
    rintro x ⟨hx, hobj, hres⟩
    refine hretry.logInv.eq_of_resultingVersion hx (hretry.log _ hin) hobj ?_
    simp [hres, logRow]
  · intro now' s3 resp' hp i m hi ha hchanged
    obtain ⟨m₀, hfirst, hkey, hres, hepoch⟩ := ha.loggedFirst h1 hv
    have hof : ∀ st : RelayState, st.resultOf vault device m₀ = st.resultOf vault device m := by
      intro st
      unfold resultOf
      rw [hkey]
    have hafter : RetryInv s1 device vault s2 ∧ RowAfter s1 vault device m₀ s2 :=
      hrun.invariant (P := fun st => RetryInv s1 device vault st ∧ RowAfter s1 vault device m₀ st)
        ⟨h0, .inl rfl⟩ fun hx hok hst => ⟨hx.1.step hok hst, hx.2.step hfirst hx.1 hok hst⟩
    -- the row the retry ends up with
    obtain ⟨row, hrow, hsup⟩ : ∃ row, s3.resultOf vault device m₀ = some row ∧
        Superseded m₀ (storedOutcome row) := by
      rcases hafter.2 with hsame | hnone | ⟨row, hrow, hsup⟩
      · rw [hof, hof] at hsame
        exact absurd hsame hchanged
      · exact hfirst.resend hretry hp hnone
      · exact ⟨row, (pushV2_frame hp).2.2.2.1 _ row hrow, hsup⟩
    obtain ⟨vault', tx', hv', -, hloop', rfl, -, hresults⟩ := pushV2_ok hp
    rw [hretry.vaultOf] at hv'
    cases hv'
    obtain ⟨-, hanswers⟩ := pushLoop_results hloop'
    obtain ⟨-, -, -, htables, -⟩ := finishPush_tables tx' vault device req.deviceSequence now'
    have hstored : tx'.stored (resultKey vault device m) = some row := by
      rw [hof] at hrow
      unfold resultOf at hrow
      rwa [htables] at hrow
    refine ⟨⟨m.mutationId, m.objectId, tx'.outcomeOf vault device m⟩, ?_, ?_⟩
    · rw [hresults, hanswers]
      show ([] ++ _)[i]? = _
      rw [nil_append, getElem?_map, hi]
      rfl
    · show Superseded m (tx'.outcomeOf vault device m)
      unfold outcomeOf
      rw [hstored]
      unfold Superseded at hsup ⊢
      rw [← hres, ← hepoch]
      exact hsup

/-! ## A retry across a rotation -/

def rotationPush : PushRequestV2 := ⟨1, [sampleMutation 11 0 1 1]⟩

def rotationStart : RelayState :=
  (relay.exec .empty [sampleRegister 2, sampleRegister 3]).getD .empty

def rotationFirst : RelayState :=
  (relay.exec rotationStart [.push 2 rotationPush 10]).getD .empty

/-- Device 3 moves the vault to epoch 2, and the results expire. -/
def rotationBetween : List RelayAction :=
  [.push 3 ⟨1, [{ sampleMutation 21 0 1 2 with objectId := 8, originDeviceId := 3 }]⟩ 20,
    .cleanup 5 10 100]

def rotationExpired : RelayState :=
  (relay.exec rotationFirst rotationBetween).getD .empty

/-- The logged mutation of device 2 is answered `StaleEpoch` once its result row
is gone, not with a version conflict. -/
theorem retry_after_rotation :
    relay.exec .empty [sampleRegister 2, sampleRegister 3] = some rotationStart ∧
    (pushV2 rotationStart 2 rotationPush 10).toOption.map Prod.fst = some rotationFirst ∧
    relay.exec rotationFirst rotationBetween = some rotationExpired ∧
    AppliedBy rotationStart rotationFirst 1 (sampleMutation 11 0 1 1) ∧
    rotationExpired.resultOf 1 2 (sampleMutation 11 0 1 1) = none ∧
    (pushV2 rotationExpired 2 rotationPush 101).toOption.map (fun r => r.2.results)
      = some [⟨11, 7, .rejected (.staleEpoch 2)⟩] := by
  refine ⟨by decide +kernel, by decide +kernel, by decide +kernel,
    ⟨1, [1, 2], 10, ?_, ?_, ?_⟩, by decide +kernel, by decide +kernel⟩
  · decide +kernel
  · decide +kernel
  · decide +kernel

/-- In that run the mutation of device 2 is in the log once. -/
theorem push_retry_rotation : ∃! x, x ∈ rotationExpired.log 1 ∧ x.2.objectId = 7 ∧
      x.2.resultingVersion.toUInt64 = 1 := by
  have hfirst : (pushV2 rotationStart 2 rotationPush 10).toOption
      = some (rotationFirst, ⟨1, [⟨11, 7, .applied 1 1⟩]⟩) := by decide +kernel
  have hstart : relay.Reachable (fun _ _ => True) rotationStart :=
    ⟨_, rfl, Machine.run_of_exec (Machine.allowed_true _ _)
      (show relay.exec .empty [sampleRegister 2, sampleRegister 3] = _ by decide +kernel)⟩
  have hexec : relay.exec rotationFirst rotationBetween = some rotationExpired := by
    decide +kernel
  have hallowed : relay.Allowed (betweenRetries 2 rotationPush) rotationFirst rotationBetween :=
    ⟨.inl (by decide), fun _ _ => ⟨trivial, fun _ _ => trivial⟩⟩
  have hrun := Machine.run_of_exec hallowed hexec
  obtain ⟨vault, hv, honce, -, -⟩ := push_retry hstart (toOption_eq_some.mp hfirst) hrun
  have hvault : some vault = some 1 := by rw [← hv]; decide +kernel
  cases hvault
  exact honce (sampleMutation 11 0 1 1) (by decide +kernel)
    ⟨1, [1, 2], 10, by decide +kernel, by decide +kernel, by decide +kernel⟩

end SentinelPass.Relay
