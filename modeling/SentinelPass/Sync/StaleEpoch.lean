import SentinelPass.Relay.Results
import SentinelPass.Sync.Outbox
import SentinelPass.Sync.Wire

/-!
# Stale-epoch answers

A mutation id hashes vault, object and resulting version, and the relay stores
its answer under that id. A mutation that was once rejected as stale is answered
from the stored row for as long as the row lives, whatever epoch it is retried
under.
-/

namespace SentinelPass.Relay

open Lib List Option

def IsStale (o : MutationOutcome) : Prop := ∃ epoch, o = .rejected (.staleEpoch epoch)

/-- A stale-epoch answer is stored for the mutation. -/
def PushTx.StaleStored (tx : PushTx) (vault device : Uuid) (m : MutationV2) : Prop :=
  ∃ row, tx.stored (resultKey vault device m) = some row ∧ IsStale (storedOutcome row)

/-- The answer of one pass of the loop to a mutation that is not below the
vault's epoch. -/
theorem PushStep.stale_iff {vault device : Uuid} {now : Int} {m : MutationV2} {tx tx' : PushTx}
    (h : PushStep vault device now m tx tx') (hepoch : tx.vaultEpoch ≤ m.keyEpoch) :
    ∃ o, tx'.results = tx.results ++ [⟨m.mutationId, m.objectId, o⟩] ∧
      (IsStale o ↔ tx.StaleStored vault device m) := by
  have hfresh : tx.stored (resultKey vault device m) = none →
      ∀ o, ¬ IsStale o → (IsStale o ↔ tx.StaleStored vault device m) := by
    intro hnone o ho
    refine iff_of_false ho ?_
    rintro ⟨row, hrow, -⟩
    rw [hnone] at hrow
    cases hrow
  cases h with
  | @replay row hstored =>
    refine ⟨storedOutcome row, rfl, fun hs => ⟨row, hstored, hs⟩, ?_⟩
    rintro ⟨row', hrow', hs⟩
    cases hstored.symm.trans hrow'
    exact hs
  | stale _ hbelow => exact absurd hepoch (Int64.not_le.mpr hbelow)
  | conflict hnone _ _ _ =>
    exact ⟨_, by rw [PushTx.conclude_results, PushTx.advance_results],
      hfresh hnone _ (by rintro ⟨_, h⟩; cases h)⟩
  | @apply c payload log' hnone _ _ _ _ _ _ _ =>
    refine ⟨.applied m.resultingVersion (c + 1), ?_, hfresh hnone _ (by rintro ⟨_, h⟩; cases h)⟩
    exact congrArg (· ++ _) PushTx.advance_results

/-- **Stale-epoch answers.** In every answered push, at the moment the relay
comes to a mutation whose epoch is not below the vault's, the answer is not
`StaleEpoch` exactly when no stale-epoch answer is stored under its id. -/
theorem stale_answer_iff {s s' : RelayState} {device : Uuid} {req : PushRequestV2} {now : Int}
    {resp : PushResponseV2} (h : pushV2 s device req now = .ok (s', resp)) :
    ∃ vault, s.deviceVault device = some vault ∧ ∀ pre m post, req.mutations = pre ++ m :: post →
        ∃ tx result, pre.foldlM (pushOne vault device now) (.start s vault) = .ok tx ∧
          resp.results[pre.length]? = some result ∧ result.mutationId = m.mutationId ∧
          (tx.vaultEpoch ≤ m.keyEpoch →
            (¬ IsStale result.outcome ↔ ¬ tx.StaleStored vault device m)) := by
  obtain ⟨vault, txe, hv, -, hloop, -, -, hres⟩ := pushV2_ok h
  refine ⟨vault, hv, fun pre m post hsplit => ?_⟩
  rw [hsplit, foldlM_append] at hloop
  obtain ⟨tx, hpre, hloop⟩ := bind_ok hloop
  obtain ⟨tx₁, hone, hpost⟩ := foldlM_cons_ok hloop
  obtain ⟨-, -, -, hstep⟩ := pushOne_step hone
  obtain ⟨-, hres₀⟩ := pushLoop_results hpre
  obtain ⟨row, -, -, hres₁⟩ := hstep.stored
  obtain ⟨-, hres₂⟩ := pushLoop_results hpost
  refine ⟨tx, ⟨m.mutationId, m.objectId, storedOutcome row⟩, hpre, ?_, rfl, fun hepoch => ?_⟩
  · -- the answers of `pre` come first, then this one
    have hlen : tx.results.length = pre.length := by
      rw [hres₀]
      simp [PushTx.start]
    rw [hres, hres₂, hres₁, append_assoc, ← hlen]
    simp
  · obtain ⟨o, ho, hiff⟩ := hstep.stale_iff hepoch
    have hsame : storedOutcome row = o := by
      have := append_cancel_left (hres₁.symm.trans ho)
      simpa using this
    rw [hsame]
    exact not_congr hiff

end SentinelPass.Relay

namespace SentinelPass

/-! ## A rejected mutation retried after a rotation -/

open Relay in
/-- Devices 2 and 3 share vault 1, which device 3 has moved to epoch 2. -/
def staleRelay : RelayState :=
  (relay.exec .empty [sampleRegister 2, sampleRegister 3,
    .push 3 ⟨1, [{ sampleMutation 21 0 1 2 with objectId := 8, originDeviceId := 3 }]⟩ 10]).getD
      .empty

/-- A credential that device 2 created at epoch 1 and has not pushed yet. -/
def staleVault : LocalDb :=
  let e : Entry := ⟨"mail", "user", "secret", none, none, .password, false⟩
  (LocalDb.fresh (some 1) 1).putRow .credential 7 (newEntryRow e 0)

def stalePush (keyEpoch : Int64) : Relay.PushRequestV2 :=
  let nonces : Nonces := ⟨fun _ _ => [0], fun _ _ => [0]⟩
  let mutations := (collectPendingMutations sampleEnv nonces 2 1 keyEpoch staleVault).toOption
  ⟨1, (mutations.getD []).map (·.toRelay)⟩

/-- Device 2 pushes at epoch 1 and is rejected; its row stays pending. After it
has moved to epoch 2, the vault's own, the same row is collected under the same
id and rejected again. -/
theorem stale_replayed_after_rotation : ∃ s₁ r₁ s₂ r₂,
      (Relay.pushV2 staleRelay 2 (stalePush 1) 20).toOption = some (s₁, r₁) ∧
      (Relay.pushV2 s₁ 2 (stalePush 2) 30).toOption = some (s₂, r₂) ∧
      (stalePush 1).mutations.map (·.keyEpoch) = [1] ∧
      (stalePush 2).mutations.map (·.keyEpoch) = [2] ∧
      (stalePush 1).mutations.map (·.mutationId) = (stalePush 2).mutations.map (·.mutationId) ∧
      s₁.vaultEpoch 1 = 2 ∧
      r₁.results.map (·.outcome) = [.rejected (.staleEpoch 2)] ∧
      r₂.results.map (·.outcome) = [.rejected (.staleEpoch 2)] := by
  have h : ((Relay.pushV2 staleRelay 2 (stalePush 1) 20).toOption.bind fun p =>
      (Relay.pushV2 p.1 2 (stalePush 2) 30).toOption.map fun q =>
        (p.1.vaultEpoch 1, p.2.results.map (·.outcome), q.2.results.map (·.outcome)))
      = some (2, [.rejected (.staleEpoch 2)], [.rejected (.staleEpoch 2)]) := by
    decide +kernel
  obtain ⟨⟨s₁, r₁⟩, h₁, h⟩ := Option.bind_eq_some_iff.mp h
  obtain ⟨⟨s₂, r₂⟩, h₂, h⟩ := Option.map_eq_some_iff.mp h
  simp only [Prod.mk.injEq] at h
  exact ⟨s₁, r₁, s₂, r₂, h₁, h₂, by decide +kernel, by decide +kernel, by decide +kernel,
    h.1, h.2.1, h.2.2⟩

/-- The first push of that run, where nothing is stored yet, would be answered
truthfully at the vault's epoch. -/
theorem stale_answer_iff_fresh :
    ∃ s₁ r₁, (Relay.pushV2 staleRelay 2 (stalePush 2) 20).toOption = some (s₁, r₁) ∧
      ∃ m result, (stalePush 2).mutations = [m] ∧ r₁.results[0]? = some result ∧
        ¬ Relay.IsStale result.outcome := by
  have hok : (Relay.pushV2 staleRelay 2 (stalePush 2) 20).toOption.isSome := by decide +kernel
  obtain ⟨⟨s₁, r₁⟩, hpush⟩ := Option.isSome_iff_exists.mp hok
  obtain ⟨m, hm⟩ : ∃ m, (stalePush 2).mutations = [m] :=
    List.length_eq_one_iff.mp (by decide +kernel)
  refine ⟨s₁, r₁, hpush, ?_⟩
  obtain ⟨vault, hv, hall⟩ := Relay.stale_answer_iff (Lib.toOption_eq_some.mp hpush)
  obtain ⟨tx, result, htx, hres, -, hiff⟩ := hall [] m [] hm
  cases htx
  have hvault : some vault = some 1 := by rw [← hv]; decide +kernel
  cases hvault
  have hmem : m ∈ (stalePush 2).mutations := by rw [hm]; exact List.mem_singleton_self m
  have hepoch : ∀ m ∈ (stalePush 2).mutations, staleRelay.vaultEpoch 1 ≤ m.keyEpoch := by
    decide +kernel
  have hnone : ∀ m ∈ (stalePush 2).mutations,
      staleRelay.mutationResults.get? (Relay.resultKey 1 2 m) = none := by
    decide +kernel
  refine ⟨m, result, hm, hres, (hiff (hepoch m hmem)).mpr ?_⟩
  rintro ⟨row, hrow, -⟩
  change staleRelay.mutationResults.get? (Relay.resultKey 1 2 m) = some row at hrow
  rw [hnone m hmem] at hrow
  cases hrow

end SentinelPass
