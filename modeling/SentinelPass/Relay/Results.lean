import SentinelPass.Relay.Log

/-!
# Durable results and retries

`mutation_results` is the relay's memory of what it answered. One pass of the
push loop fixes the row of the mutation it handles and no other
(`PushStep.stored`), so a whole request answers every mutation with the outcome
of the row that ends up stored for it (`pushLoop_results`), and only a mutation
that had no row can reach the log (`pushLoop_append`).

A mutation whose version is in the log but whose row is gone is answered as
`Superseded`: a version conflict at or above its version, or a stale epoch.
-/

namespace SentinelPass.Relay

open Lib List PushTx

variable {vault device : Uuid} {now : Int} {tx tx' : PushTx}

/-- The durable row under a key, in the middle of a push. -/
def PushTx.stored (tx : PushTx) (k : ResultKey) : Option MutationResultRow :=
  tx.relay.mutationResults.get? k

section Step

variable {m : MutationV2}

theorem recordResult_get? (s outcome k)
    (hfresh : s.mutationResults.get? (resultKey vault device m) = none) :
    (recordResult s vault device m outcome now).mutationResults.get? k
      = if k = resultKey vault device m then some (resultRow m outcome now)
        else s.mutationResults.get? k := by
  show (s.mutationResults.insertIgnore _ _).get? k = _
  rw [Table.get?_insertIgnore, hfresh]
  rfl

/-- **The loop body fixes one durable row and answers with it**: the row that
was there, or one it writes. -/
theorem PushStep.stored (h : PushStep vault device now m tx tx') :
    ∃ row, (∀ r, tx.stored (resultKey vault device m) = some r → row = r) ∧ (∀ k, tx'.stored k
        = if k = resultKey vault device m then some row else tx.stored k) ∧
      tx'.results = tx.results ++ [⟨m.mutationId, m.objectId, storedOutcome row⟩] := by
  have hconcl : ∀ (tx₀ : PushTx) (o : MutationOutcome),
      tx₀.relay.mutationResults = tx.relay.mutationResults → tx₀.results = tx.results →
      tx.stored (resultKey vault device m) = none →
      ∃ row, (∀ r, tx.stored (resultKey vault device m) = some r → row = r) ∧
        (∀ k, (tx₀.conclude vault device m o now).stored k
          = if k = resultKey vault device m then some row else tx.stored k) ∧
        (tx₀.conclude vault device m o now).results
          = tx.results ++ [⟨m.mutationId, m.objectId, storedOutcome row⟩] := by
    intro tx₀ o hrows hres hfresh
    refine ⟨resultRow m o now, fun r hr => ?_, fun k => ?_, ?_⟩
    · rw [hfresh] at hr
      cases hr
    · unfold PushTx.stored at hfresh ⊢
      rw [PushTx.conclude_relay, recordResult_get? _ _ _ (by rw [hrows]; exact hfresh), hrows]
    · rw [PushTx.conclude_results, hres, storedOutcome_resultRow]
  cases h with
  | @replay row hstored =>
    refine ⟨row, fun r hr => ?_, fun k => ?_, rfl⟩
    · unfold stored at hr
      rw [hstored] at hr
      exact Option.some.inj hr
    · unfold stored
      split
      · next hk => rw [hk]; exact hstored
      · rfl
  | stale hfresh _ => exact hconcl tx _ rfl rfl hfresh
  | conflict hfresh _ _ _ =>
    exact hconcl (tx.advance m) _ (by rw [advance_relay]) advance_results hfresh
  | apply hfresh _ _ _ _ _ _ _ =>
    refine hconcl _ _ ?_ advance_results hfresh
    show (tx.advance m).relay.mutationResults = _
    rw [advance_relay]

theorem PushStep.log (h : PushStep vault device now m tx tx') :
    (∀ v, tx'.relay.log v = tx.relay.log v) ∨
    ∃ seq payload, tx.stored (resultKey vault device m) = none ∧
      Base64.decode m.encryptedPayload = some payload ∧
      casApplies (tx.relay.currentVersion vault m.objectId) m.expectedVersion = true ∧
      ∀ v, tx'.relay.log v
        = if v = vault then tx.relay.log v ++ [(seq, logRow m payload now)]
          else tx.relay.log v := by
  cases h with
  | replay _ => exact .inl fun _ => rfl
  | stale _ _ => exact .inl fun _ => rfl
  | conflict _ _ _ _ =>
    left
    intro v
    rw [conclude_relay, advance_relay]
    rfl
  | @apply c payload log' hfresh _ _ hcas hc hmax hdec hlog =>
    refine .inr ⟨c + 1, payload, hfresh, hdec, hcas, fun v => ?_⟩
    show (tx.relay.appended vault log' m (entryRow m payload (c + 1) now)).log v = _
    exact log_appended hlog v

end Step

/-! ## Whole requests -/

section Loop

variable {l : List MutationV2}

section

variable (h : l.foldlM (pushOne vault device now) tx = .ok tx')

include h

theorem pushLoop_stored_mono {k row} (hk : tx.stored k = some row) : tx'.stored k = some row := by
  refine foldlM_ok_invariant (P := fun tx => tx.stored k = some row) h hk ?_
  intro x y m _ hx hone
  obtain ⟨-, -, -, hstep⟩ := pushOne_step hone
  obtain ⟨r, hkeep, hset, -⟩ := hstep.stored
  rw [hset]
  split
  · next he =>
    subst he
    rw [hkeep row hx]
  · exact hx

theorem pushLoop_stored_frame {k} (hk : ∀ m ∈ l, k ≠ resultKey vault device m) :
    tx'.stored k = tx.stored k := by
  refine foldlM_ok_invariant (P := fun t => t.stored k = tx.stored k) h rfl ?_
  intro x y m hm hx hone
  obtain ⟨-, -, -, hstep⟩ := pushOne_step hone
  obtain ⟨r, -, hset, -⟩ := hstep.stored
  rw [hset, if_neg (hk m hm), hx]

def PushTx.outcomeOf (tx : PushTx) (vault device : Uuid) (m : MutationV2) : MutationOutcome :=
  ((tx.stored (resultKey vault device m)).map storedOutcome).getD (.rejected .malformed)

/-- Every mutation of a request ends up with a durable row, and is answered with
the outcome of that row. -/
theorem pushLoop_results :
    (∀ m ∈ l, ∃ row, tx'.stored (resultKey vault device m) = some row) ∧
      tx'.results = tx.results ++ l.map fun m =>
      ⟨m.mutationId, m.objectId, tx'.outcomeOf vault device m⟩ := by
  induction l generalizing tx with
  | nil =>
    cases h
    exact ⟨fun m hm => absurd hm not_mem_nil, by simp⟩
  | cons m rest ih =>
    obtain ⟨tx₁, hone, hrest⟩ := foldlM_cons_ok h
    obtain ⟨-, -, -, hstep⟩ := pushOne_step hone
    obtain ⟨row, -, hset, hres⟩ := hstep.stored
    have hrow : tx₁.stored (resultKey vault device m) = some row := by rw [hset, if_pos rfl]
    have hfinal := pushLoop_stored_mono hrest hrow
    obtain ⟨hall, hrestres⟩ := ih hrest
    constructor
    · intro m' hm'
      rcases mem_cons.mp hm' with rfl | hm'
      · exact ⟨row, hfinal⟩
      · exact hall m' hm'
    · have hout : tx'.outcomeOf vault device m = storedOutcome row := by
        unfold outcomeOf
        rw [hfinal]
        rfl
      rw [hrestres, hres, map_cons, hout, append_assoc]
      rfl

theorem pushLoop_log_mono {v x} (hx : x ∈ tx.relay.log v) : x ∈ tx'.relay.log v := by
  refine foldlM_ok_invariant (P := fun tx => x ∈ tx.relay.log v) h hx ?_
  intro t u m _ ht hone
  obtain ⟨-, -, -, hstep⟩ := pushOne_step hone
  rcases hstep.log with hsame | ⟨seq, payload, -, -, -, happ⟩
  · rwa [hsame]
  · rw [happ]
    split
    · exact mem_append_left _ ht
    · exact ht

/-- A log entry that a request added was appended by the first mutation of the
request under its key, and that key had no durable row before. -/
theorem pushLoop_append {x : Int64 × SyncMutationV2} (hin : x ∈ tx'.relay.log vault)
    (hnot : x ∉ tx.relay.log vault) :
    ∃ pre m post payload, l = pre ++ m :: post ∧ WellShaped m ∧ x.2 = logRow m payload now ∧
      Base64.decode m.encryptedPayload = some payload ∧
      tx.stored (resultKey vault device m) = none ∧
      ∀ m' ∈ pre, resultKey vault device m' ≠ resultKey vault device m := by
  induction l generalizing tx with
  | nil =>
    cases h
    exact absurd hin hnot
  | cons m rest ih =>
    obtain ⟨tx₁, hone, hrest⟩ := foldlM_cons_ok h
    obtain ⟨hshape, -, -, hstep⟩ := pushOne_step hone
    by_cases hx : x ∈ tx₁.relay.log vault
    · -- appended by this very mutation
      rcases hstep.log with hsame | ⟨seq, payload, hfresh, hdec, -, happ⟩
      · rw [hsame] at hx
        exact absurd hx hnot
      · rw [happ, if_pos rfl, mem_append, mem_singleton] at hx
        have hx' := hx.resolve_left hnot
        exact ⟨[], m, rest, payload, rfl, hshape, by rw [hx'], hdec, hfresh,
          fun m' hm' => absurd hm' not_mem_nil⟩
    · obtain ⟨pre, m', post, payload, rfl, hshape', hxe, hdec, hfresh, hpre⟩ := ih hrest hx
      obtain ⟨row, -, hset, -⟩ := hstep.stored
      rw [hset] at hfresh
      split at hfresh
      · cases hfresh
      rename_i hne
      refine ⟨m :: pre, m', post, payload, rfl, hshape', hxe, hdec, hfresh, ?_⟩
      intro m'' hm''
      rcases mem_cons.mp hm'' with rfl | hm''
      · exact Ne.symm hne
      · exact hpre m'' hm''

end

end Loop

/-! ## Mutations that are already in the log -/

/-- The answers a mutation gets that the log has moved past: the object is at its
version or beyond, or the vault's epoch is above the mutation's. -/
def Superseded (m : MutationV2) (o : MutationOutcome) : Prop :=
  (∃ cv, o = .rejected (.versionConflict cv) ∧ m.resultingVersion ≤ cv) ∨
  (∃ ve, o = .rejected (.staleEpoch ve) ∧ m.keyEpoch < ve)

section Logged

variable {m : MutationV2}

theorem LogInv.le_current {s} (h : LogInv s) {object x} (hx : x ∈ s.objectLog vault object) :
    x.2.resultingVersion.toUInt64.toNat
      ≤ ((s.currentVersion vault object).map fun c => c.toUInt64.toNat).getD 0 := by
  rw [← h.casHead_eq]
  exact (h.chain vault object).le_head (mem_map_of_mem hx)

/-- A mutation whose version is in the log and whose durable row is gone is
answered as superseded. -/
theorem PushStep.superseded (h : PushStep vault device now m tx tx') (hinv : LogInv tx.relay)
    (hshape : WellShaped m) (hfresh : tx.stored (resultKey vault device m) = none)
    {x : Int64 × SyncMutationV2} (hx : x ∈ tx.relay.objectLog vault m.objectId)
    (hres : x.2.resultingVersion.toUInt64 = m.resultingVersion) :
    ∃ row, tx'.stored (resultKey vault device m) = some row ∧ Superseded m (storedOutcome row) := by
  have hle := hinv.le_current hx
  rw [hres] at hle
  have hstore : ∀ (tx₀ : PushTx) (o : MutationOutcome),
      tx₀.stored (resultKey vault device m) = none → Superseded m o →
      ∃ row, (tx₀.conclude vault device m o now).stored (resultKey vault device m) = some row ∧
        Superseded m (storedOutcome row) := by
    intro tx₀ o hnone hsup
    refine ⟨resultRow m o now, ?_, by rwa [storedOutcome_resultRow]⟩
    unfold PushTx.stored at hnone ⊢
    rw [PushTx.conclude_relay, recordResult_get? _ _ _ hnone, if_pos rfl]
  cases h with
  | replay hstored =>
    unfold PushTx.stored at hfresh
    rw [hstored] at hfresh
    cases hfresh
  | stale _ hbelow => exact hstore tx _ hfresh (.inr ⟨_, rfl, hbelow⟩)
  | conflict _ _ _ _ =>
    refine hstore _ _ (by unfold PushTx.stored; rwa [PushTx.advance_relay]) (.inl ⟨_, rfl, ?_⟩)
    cases hcur : tx.relay.currentVersion vault m.objectId with
    | none => rw [hcur] at hle; exact hle
    | some v => rw [hcur] at hle; exact hle
  | apply _ _ _ hcas _ _ _ _ =>
    -- the guard would need the object to stand below the mutation's own version
    have hexp := hinv.expected_eq hcas
    rw [hinv.casHead_eq] at hexp
    have hlt := UInt64.lt_iff_toNat_lt.mp hshape.increases
    omega

theorem pushLoop_superseded {pre post}
    (h : (pre ++ m :: post).foldlM (pushOne vault device now) tx = .ok tx')
    (hpre : ∀ m' ∈ pre, resultKey vault device m' ≠ resultKey vault device m)
    (hinv : LogInv tx.relay) (hfresh : tx.stored (resultKey vault device m) = none) {x}
    (hx : x ∈ tx.relay.objectLog vault m.objectId)
    (hres : x.2.resultingVersion.toUInt64 = m.resultingVersion) :
    ∃ row, tx'.stored (resultKey vault device m) = some row ∧ Superseded m (storedOutcome row) := by
  rw [foldlM_append] at h
  obtain ⟨tx₁, hloop₁, h⟩ := bind_ok h
  obtain ⟨tx₂, hone, hloop₂⟩ := foldlM_cons_ok h
  obtain ⟨hshape, -, -, hstep⟩ := pushOne_step hone
  have hfresh₁ : tx₁.stored (resultKey vault device m) = none := by
    rw [pushLoop_stored_frame hloop₁ fun m' hm' => Ne.symm (hpre m' hm'), hfresh]
  have hx₁ : x ∈ tx₁.relay.objectLog vault m.objectId := by
    rw [RelayState.mem_objectLog] at hx ⊢
    exact ⟨pushLoop_log_mono hloop₁ hx.1, hx.2⟩
  obtain ⟨row, hrow, hsup⟩ := hstep.superseded (hinv.pushLoop hloop₁) hshape hfresh₁ hx₁ hres
  exact ⟨row, pushLoop_stored_mono hloop₂ hrow, hsup⟩

end Logged

/-! ## What a push leaves alone -/

theorem PushStep.frame {m} (h : PushStep vault device now m tx tx') :
    tx'.relay.devices = tx.relay.devices ∧
      tx'.relay.migrationClaims = tx.relay.migrationClaims := by
  cases h with
  | replay _ => exact ⟨rfl, rfl⟩
  | stale _ _ => exact ⟨rfl, rfl⟩
  | conflict _ _ _ _ =>
    rw [conclude_relay, advance_relay]
    exact ⟨rfl, rfl⟩
  | apply _ _ _ _ _ _ _ _ =>
    unfold applied
    rw [conclude_relay, advance_relay]
    exact ⟨rfl, rfl⟩

theorem PushStep.counters {m} (h : PushStep vault device now m tx tx') {v c}
    (hc : tx.relay.sequenceCounters.get? v = some c) :
    ∃ c', tx'.relay.sequenceCounters.get? v = some c' := by
  cases h with
  | replay _ => exact ⟨c, hc⟩
  | stale _ _ => exact ⟨c, hc⟩
  | conflict _ _ _ _ =>
    rw [conclude_relay, advance_relay]
    exact ⟨c, hc⟩
  | apply _ _ _ _ _ _ _ _ =>
    unfold applied
    rw [conclude_relay, advance_relay]
    show ∃ c', (tx.relay.sequenceCounters.update vault (· + 1)).get? v = some c'
    rw [Table.get?_update]
    split
    · next hv => rw [← hv, hc]; exact ⟨c + 1, rfl⟩
    · exact ⟨c, hc⟩

theorem pushV2_frame {s s' req resp} (h : pushV2 s device req now = .ok (s', resp)) :
    s'.devices = s.devices ∧
    (∀ v x, x ∈ s.log v → x ∈ s'.log v) ∧
    (∀ k, k.2.1 ≠ device → s'.mutationResults.get? k = s.mutationResults.get? k) ∧
    (∀ k row, s.mutationResults.get? k = some row → s'.mutationResults.get? k = some row) ∧
    (∀ v c, s.sequenceCounters.get? v = some c → ∃ c', s'.sequenceCounters.get? v = some c') := by
  obtain ⟨vault, tx, -, -, hloop, rfl, -, -⟩ := pushV2_ok h
  obtain ⟨hlog, -, hctr, hres, hdev⟩ := finishPush_tables tx vault device req.deviceSequence now
  have hlog' : (finishPush tx vault device req.deviceSequence now).log = tx.relay.log := by
    funext v
    unfold RelayState.log
    rw [hlog]
  rw [hdev, hres, hlog', hctr]
  refine ⟨?_, fun v x hx => pushLoop_log_mono hloop hx, fun k hk => ?_,
    fun k row hrow => pushLoop_stored_mono hloop hrow, fun v c hc => ?_⟩
  · refine foldlM_ok_invariant (P := fun tx => tx.relay.devices = s.devices) hloop rfl ?_
    intro x y m _ hx hone
    obtain ⟨-, -, -, hstep⟩ := pushOne_step hone
    rw [hstep.frame.1, hx]
  · exact pushLoop_stored_frame hloop fun m _ hkm => hk (by rw [hkm]; rfl)
  · refine foldlM_ok_invariant
      (P := fun tx => ∃ c', tx.relay.sequenceCounters.get? v = some c') hloop ⟨c, hc⟩ ?_
    intro x y m _ hx hone
    obtain ⟨-, -, -, hstep⟩ := pushOne_step hone
    obtain ⟨c', hc'⟩ := hx
    exact hstep.counters hc'

end SentinelPass.Relay
