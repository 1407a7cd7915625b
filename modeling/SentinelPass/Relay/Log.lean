import SentinelPass.Lib.CasLog
import SentinelPass.Lib.Words
import SentinelPass.Relay.Admin

/-!
# Integrity of the relay log

`LogInv` is what four tables keep together under pushes (replayed, rejected or
applied), cleanup, registrations and migration claims:

* the sequence numbers of a vault's log increase and stay at or below the
  vault's counter;
* the log entries of an object form a compare-and-swap chain from version 0
  (`Lib.CasChain`, over the `u64` the columns stand for);
* `sync_entries_v2` holds the last log entry of each object, nothing else.

One step of the push loop keeps it (`LogInv.pushStep`), hence one request, hence
every run from the empty relay (`logInv_of_reachable`).
-/

namespace SentinelPass.Relay

open Lib List RelayState PushTx

/-- Expected and resulting version of a log row, as the wire's `u64`. -/
def versions (e : Int64 × SyncMutationV2) : Nat × Nat :=
  (e.2.expectedVersion.toUInt64.toNat, e.2.resultingVersion.toUInt64.toNat)

/-- The object-state row that a log entry leaves behind. -/
def entryOf (e : Int64 × SyncMutationV2) : SyncEntryV2 where
  entryType := e.2.entryType
  currentVersion := e.2.resultingVersion
  keyEpoch := e.2.keyEpoch
  isTombstone := e.2.isTombstone
  metadataMac := e.2.metadataMac
  encryptedPayload := e.2.encryptedPayload
  originDeviceId := e.2.originDeviceId
  serverSequence := e.1
  receivedAt := e.2.receivedAt

/-- The log, the object states and the counters fit together. -/
structure LogInv (s : RelayState) : Prop where
  increasing : ∀ v, (s.log v).Pairwise fun a b => a.1 < b.1
  counter : ∀ v seq e, (seq, e) ∈ s.log v → ∃ c, s.sequenceCounters.get? v = some c ∧ seq ≤ c
  chain : ∀ v o, CasChain 0 ((s.objectLog v o).map versions)
  entries : ∀ v o, s.syncEntriesV2.get? (v, o) = (s.objectLog v o).getLast?.map entryOf

theorem logInv_empty : LogInv empty where
  increasing _ := .nil
  counter _ _ _ h := by cases h
  chain _ _ := trivial
  entries _ _ := rfl

variable {device vault : Uuid} {m : MutationV2} {now : Int} {s s' : RelayState}
  {x : Int64 × SyncMutationV2} {v : Uuid} {tx tx' : PushTx}

theorem LogInv.congr (h : LogInv s) (hlog : s'.syncMutationsV2 = s.syncMutationsV2)
    (hent : s'.syncEntriesV2 = s.syncEntriesV2)
    (hctr : ∀ v c, s.sequenceCounters.get? v = some c → s'.sequenceCounters.get? v = some c) :
    LogInv s' := by
  have hlog' : s'.log = s.log := by funext v; unfold log; rw [hlog]
  have hobj : s'.objectLog = s.objectLog := by
    funext v o; unfold objectLog; rw [hlog']
  refine ⟨by rw [hlog']; exact h.increasing, ?_, by rw [hobj]; exact h.chain,
    by rw [hobj, hent]; exact h.entries⟩
  intro v seq e he
  rw [hlog'] at he
  obtain ⟨c, hc, hle⟩ := h.counter v seq e he
  exact ⟨c, hctr v c hc, hle⟩

theorem LogInv.casHead_eq (h : LogInv s) (v o : Uuid) : casHead 0 ((s.objectLog v o).map versions)
      = ((s.currentVersion v o).map fun c => c.toUInt64.toNat).getD 0 := by
  rw [casHead_eq_getLast, currentVersion, h.entries, getLast?_map]
  simp only [Option.map_map]
  rfl

theorem LogInv.eq_of_resultingVersion (h : LogInv s) {y} (hx : x ∈ s.log v) (hy : y ∈ s.log v)
    (hobj : x.2.objectId = y.2.objectId)
    (hver : x.2.resultingVersion.toUInt64 = y.2.resultingVersion.toUInt64) : x = y := by
  -- resulting versions strictly increase along the object's log
  have hpw := pairwise_map.mp (h.chain v y.2.objectId).pairwise
  refine eq_of_pairwise_lt hpw (mem_objectLog.mpr ⟨hx, hobj⟩)
    (mem_objectLog.mpr ⟨hy, rfl⟩) ?_
  exact congrArg UInt64.toNat hver

theorem LogInv.resultingVersion_pos (h : LogInv s) (hx : x ∈ s.log v) :
    0 < x.2.resultingVersion.toUInt64.toNat :=
  (h.chain v x.2.objectId).base_lt
    (mem_map_of_mem (mem_objectLog.mpr ⟨hx, rfl⟩))

/-! ## Appending to the log -/

section Append

variable {c : Int64} {e : SyncMutationV2} {row : SyncEntryV2}
  {log' : Table (Uuid × Int64) SyncMutationV2}

theorem log_appended (h : s.syncMutationsV2.insert? (vault, c) e = some log') (v : Uuid) :
    (s.appended vault log' m row).log v
      = if v = vault then s.log v ++ [(c, e)] else s.log v := by
  obtain ⟨-, hrows, -⟩ := Table.insert?_eq_some h
  unfold log
  show (log'.rows.filter _).map _ = _
  rw [hrows, filter_append, map_append]
  split
  · next hv => simp [hv]
  · next hv => simp [Ne.symm hv]

theorem objectLog_appended (h : s.syncMutationsV2.insert? (vault, c) e = some log') (v o : Uuid) :
    (s.appended vault log' m row).objectLog v o
      = if v = vault ∧ o = e.objectId then s.objectLog v o ++ [(c, e)]
        else s.objectLog v o := by
  unfold objectLog
  rw [log_appended h]
  by_cases hv : v = vault
  · rw [if_pos hv, filter_append]
    by_cases ho : o = e.objectId
    · simp [hv, ho]
    · simp [ho, Ne.symm ho]
  · rw [if_neg hv, if_neg (fun hc => hv hc.1)]

end Append

/-! ## One step of the push loop -/

theorem LogInv.expected_eq (h : LogInv s)
    (hcas : casApplies (s.currentVersion vault m.objectId) m.expectedVersion = true) :
    m.expectedVersion.toNat = casHead 0 ((s.objectLog vault m.objectId).map versions) := by
  rw [h.casHead_eq]
  cases hcur : s.currentVersion vault m.objectId with
  | none =>
    rw [hcur] at hcas
    have h0 : m.expectedVersion = 0 := by simpa [casApplies] using hcas
    rw [h0]
    rfl
  | some v =>
    rw [hcur] at hcas
    have hv : v.toUInt64 = m.expectedVersion := by simpa [casApplies] using hcas
    rw [← hv]
    rfl

theorem LogInv.append (h : LogInv s) {c payload log'} (hshape : WellShaped m)
    (hcas : casApplies (s.currentVersion vault m.objectId) m.expectedVersion = true)
    (hc : s.sequenceCounters.get? vault = some c) (hmax : c ≠ Int64.maxValue)
    (hlog : s.syncMutationsV2.insert? (vault, c + 1) (logRow m payload now) = some log') :
    LogInv (s.appended vault log' m (entryRow m payload (c + 1) now)) where
  increasing v := by
    rw [log_appended hlog]
    split
    · next hv =>
      subst hv
      rw [pairwise_append]
      refine ⟨h.increasing v, pairwise_singleton _ _, ?_⟩
      intro a ha b hb
      -- every sequence in the log is at or below the counter
      obtain ⟨c', hc', hle⟩ := h.counter v a.1 a.2 ha
      rw [mem_singleton] at hb
      rw [hc] at hc'
      cases hc'
      rw [hb, Int64.lt_iff_toInt_lt, toInt_add_one_of_ne hmax]
      have := Int64.le_iff_toInt_le.mp hle
      omega
    · exact h.increasing v
  counter v seq e he := by
    rw [log_appended hlog] at he
    show ∃ c', (s.sequenceCounters.update vault (· + 1)).get? v = some c' ∧ seq ≤ c'
    rw [Table.get?_update]
    split at he
    · next hv =>
      subst hv
      rw [if_pos rfl, hc]
      refine ⟨c + 1, rfl, ?_⟩
      rw [Int64.le_iff_toInt_le, toInt_add_one_of_ne hmax]
      rcases mem_append.mp he with he | he
      · obtain ⟨c', hc', hle⟩ := h.counter v seq e he
        rw [hc] at hc'
        cases hc'
        have := Int64.le_iff_toInt_le.mp hle
        omega
      · rw [mem_singleton, Prod.mk.injEq] at he
        rw [he.1, toInt_add_one_of_ne hmax]
    · next hv =>
      rw [if_neg hv]
      exact h.counter v seq e he
  chain v o := by
    rw [objectLog_appended hlog]
    split
    · next hvo =>
      obtain ⟨rfl, rfl⟩ := hvo
      have hexp := h.expected_eq hcas
      rw [map_append, map_singleton, casChain_concat]
      refine ⟨h.chain _ _, ?_, ?_⟩
      · simpa [versions, logRow] using hexp
      · simpa [versions, logRow] using UInt64.lt_iff_toNat_lt.mp hshape.increases
    · exact h.chain v o
  entries v o := by
    rw [objectLog_appended hlog]
    show (s.syncEntriesV2.upsert (vault, m.objectId) _ _).get? (v, o) = _
    rw [Table.get?_upsert]
    by_cases hvo : v = vault ∧ o = (logRow m payload now).objectId
    · rw [if_pos (Prod.ext hvo.1 hvo.2), if_pos hvo, getLast?_concat]
      cases s.syncEntriesV2.get? (vault, m.objectId) <;> rfl
    · have hne : (v, o) ≠ (vault, m.objectId) := fun he => hvo (Prod.mk.inj he)
      rw [if_neg hne, if_neg hvo]
      exact h.entries v o

theorem LogInv.pushStep (h : LogInv tx.relay) (hshape : WellShaped m)
    (hstep : PushStep vault device now m tx tx') : LogInv tx'.relay := by
  cases hstep with
  | replay _ => exact h
  | stale _ _ => exact h.congr rfl rfl fun _ _ hc => hc
  | conflict _ _ _ _ =>
    rw [conclude_relay, advance_relay]
    exact h.congr rfl rfl fun _ _ hc => hc
  | apply _ _ _ hcas hc hmax _ hlog =>
    have happ := h.append hshape hcas hc hmax hlog
    unfold applied
    rw [conclude_relay, advance_relay]
    exact happ.congr rfl rfl fun _ _ hc => hc

theorem LogInv.pushLoop {l : List MutationV2} (h : LogInv tx.relay)
    (hloop : l.foldlM (pushOne vault device now) tx = .ok tx') : LogInv tx'.relay := by
  refine foldlM_ok_invariant (P := fun tx => LogInv tx.relay) hloop h ?_
  intro x y m _ hx hone
  obtain ⟨hshape, -, -, hstep⟩ := pushOne_step hone
  exact hx.pushStep hshape hstep

theorem LogInv.pushV2 {req resp} (h : LogInv s) (hp : pushV2 s device req now = .ok (s', resp)) :
    LogInv s' := by
  obtain ⟨vault, tx, -, -, hloop, rfl, -, -⟩ := pushV2_ok hp
  have h0 : LogInv (start s vault).relay := h
  have htx := h0.pushLoop hloop
  obtain ⟨hlog, hent, hctr, -, -⟩ := finishPush_tables tx vault device req.deviceSequence now
  exact htx.congr hlog hent fun v c hc => by rwa [hctr]

/-! ## Whole runs -/

theorem LogInv.step {a} (h : LogInv s) (hs : relay.step s a = some s') : LogInv s' := by
  cases a with
  | register req paired now =>
    obtain ⟨row, -, rfl⟩ := registerDevice_ok (toOption_eq_some.mp hs)
    refine h.congr rfl rfl fun v c hc => ?_
    show (s.sequenceCounters.insertIgnore req.vaultId 0).get? v = some c
    rw [Table.get?_insertIgnore]
    split
    · next hv => rw [← hv, hc]; rfl
    · exact hc
  | push device req now =>
    obtain ⟨resp, hp⟩ := relayStep_push hs
    exact h.pushV2 hp
  | cleanup ttl cap now =>
    cases hs
    exact h.congr rfl rfl fun _ _ hc => hc
  | claim device origin newVault now =>
    obtain ⟨vaults, counters, -, hctr, rfl⟩ := migrationClaim_ok (toOption_eq_some.mp hs)
    obtain ⟨hnone, -, hget⟩ := Table.insert?_eq_some hctr
    refine h.congr rfl rfl fun v c hc => ?_
    show counters.get? v = some c
    rw [hget]
    split
    · next hv =>
      -- the fresh vault had no counter
      rw [hv, hnone] at hc
      cases hc
    · exact hc

theorem logInv_of_reachable {ok} (h : relay.Reachable ok s) : LogInv s :=
  h.invariant (fun h0 => h0 ▸ logInv_empty) fun hx _ hs => hx.step hs

/-- **Relay log integrity.** Whatever pushes, cleanup runs, registrations and
migration claims an empty relay went through, in every vault the log's sequence
numbers increase, every object's entries form a chain from version 0, and the
object table holds exactly the last entry of each chain. -/
theorem relay_log_integrity {s : RelayState} (h : relay.Reachable (fun _ _ => True) s)
    (vault : Uuid) :
    (s.log vault).Pairwise (fun a b => a.1 < b.1) ∧
    (∀ object, CasChain 0 ((s.objectLog vault object).map versions)) ∧
    (∀ object, s.syncEntriesV2.get? (vault, object)
      = (s.objectLog vault object).getLast?.map entryOf) := by
  have hinv := logInv_of_reachable h
  exact ⟨hinv.increasing vault, hinv.chain vault, hinv.entries vault⟩

/-- A mutation of object 7 in vault 1 by device 2. -/
def sampleMutation (mutationId : Uuid) (expected resulting : UInt64) (keyEpoch : Int64) :
    MutationV2 where
  mutationId := mutationId
  vaultId := 1
  objectId := 7
  entryType := "credential"
  expectedVersion := expected
  resultingVersion := resulting
  keyEpoch := keyEpoch
  originDeviceId := 2
  isTombstone := false
  encryptedPayload := Base64.encode [1, 2]
  metadataMac := Base64.encode (replicate 32 0)

def sampleRegister (device : Uuid) : RelayAction :=
  .register ⟨device, 1, "laptop", "desktop", Base64.encode (List.replicate 32 9)⟩ true 0

/-- One batch that creates object 7 and updates it, a stale retry, a cleanup. -/
def sampleRun : List RelayAction :=
  [sampleRegister 2, .push 2 ⟨1, [sampleMutation 11 0 1 1, sampleMutation 12 1 3 1]⟩ 10,
    .cleanup 5 10 100,
    .push 2 ⟨2, [sampleMutation 11 0 1 1]⟩ 101]

theorem relay_log_integrity_sampleRun :
    ∃ s, relay.exec RelayState.empty sampleRun = some s ∧ (s.log 1).length = 2 ∧
      (s.log 1).Pairwise (fun a b => a.1 < b.1) ∧
      (∀ object, CasChain 0 ((s.objectLog 1 object).map versions)) ∧
      (∀ object, s.syncEntriesV2.get? (1, object)
        = (s.objectLog 1 object).getLast?.map entryOf) := by
  have hlen : ((relay.exec empty sampleRun).map fun s => (s.log 1).length)
      = some 2 := by decide +kernel
  obtain ⟨s, hs, hl⟩ := Option.map_eq_some_iff.mp hlen
  exact ⟨s, hs, hl, relay_log_integrity
    ⟨_, rfl, Machine.run_of_exec (Machine.allowed_true _ _) hs⟩ 1⟩

end SentinelPass.Relay
