import SentinelPass.System.LostUpdate

/-!
# Pushing creates into an empty vault

`push_changes` sends the outbox chunk by chunk and acknowledges each answer. When every
mutation creates its object (`Creates`) and nothing of it is in the vault yet (`Created`),
the relay applies each of them (`pushV2_creates`) and each acknowledgement takes its row
out of the outbox (`pushChunks_creates`). Rows that nothing was sent for stay as they are
(`pushChunks_untouched`).
-/

namespace SentinelPass

open Lib Relay List Option RelayState Table

/-! ## The loop of the client -/

/-- The relay and the database of the device, and what was answered so far. -/
structure PushRun where
  relay : RelayState
  db : LocalDb
  results : List MutationResult

/-- One chunk of `push_changes`: send it, then acknowledge the answer. -/
def pushChunk (device : Uuid) (deviceSequence : UInt64) (now : Int) (run : PushRun)
    (chunk : List MutationV2) : Option PushRun := do
  let (relay, answer) ← (pushV2 run.relay device (pushRequest deviceSequence chunk) now).toOption
  let cursor ← (wireU64 answer.serverCursor).toOption
  some ⟨relay, (applyPushAcks run.db chunk answer.results cursor now).1,
    run.results ++ answer.results⟩

/-- The chunks one after the other, the `k`-th at time `clock k`. -/
def pushChunks (device : Uuid) (deviceSequence : UInt64) (clock : Nat → Int) :
    Nat → PushRun → List (List MutationV2) → Option PushRun
  | _, run, [] => some run
  | k, run, chunk :: rest =>
    (pushChunk device deviceSequence (clock k) run chunk).bind fun run' =>
      pushChunks device deviceSequence clock (k + 1) run' rest

def pushChanges (E : Env) (nonces : Nonces) (device : Uuid) (clock : Nat → Int)
    (relay : RelayState) (db : LocalDb) : Option PushRun :=
  (collectForPush E nonces device db).toOption.bind
    (pushChunks device (db.config.lastPushSequence + 1) clock 0 ⟨relay, db, []⟩)

theorem pushChunk_eq_some {device deviceSequence now run run' chunk} :
    pushChunk device deviceSequence now run chunk = some run' ↔ ∃ relay answer cursor,
        pushV2 run.relay device (pushRequest deviceSequence chunk) now = .ok (relay, answer) ∧
        wireU64 answer.serverCursor = .ok cursor ∧
        run' = ⟨relay, (applyPushAcks run.db chunk answer.results cursor now).1,
          run.results ++ answer.results⟩ := by
  unfold pushChunk
  cases hp : pushV2 run.relay device (pushRequest deviceSequence chunk) now with
  | error e => simp [Except.toOption]
  | ok x =>
    obtain ⟨relay, answer⟩ := x
    cases hc : wireU64 answer.serverCursor with
    | error e => simp [Except.toOption, hc]
    | ok cursor => simp [Except.toOption, hc, eq_comm]

/-! ## The relay -/

/-- The vault was minted for the device and nothing is in it. -/
structure EmptyVault (s : RelayState) (device vault : Uuid) : Prop where
  minted : vault.isNil = false
  member : s.deviceVault device = some vault
  counter : s.sequenceCounters.get? vault = some 0
  entries : ∀ id, s.syncEntriesV2.get? (vault, id) = none
  log : ∀ seq, s.syncMutationsV2.get? (vault, seq) = none
  results : ∀ id, s.mutationResults.get? (id, device, vault) = none

/-- Only the mutations `done` are in the vault. -/
structure Created (device vault : Uuid) (done : List MutationV2) (s : RelayState) : Prop where
  member : s.deviceVault device = some vault
  counter : ∃ c, s.sequenceCounters.get? vault = some c ∧ c.toInt = done.length
  entries : ∀ id row, s.syncEntriesV2.get? (vault, id) = some row → id ∈ done.map (·.objectId)
  log : ∀ seq row, s.syncMutationsV2.get? (vault, seq) = some row → seq.toInt ≤ done.length
  results : ∀ id row, s.mutationResults.get? (id, device, vault) = some row →
    id ∈ done.map (·.mutationId)

/-- The mutation is accepted by the relay and creates its object. -/
structure Creates (device vault : Uuid) (epoch : Int64) (m : MutationV2) : Prop where
  shaped : WellShaped m.toRelay
  vault : m.vaultId = vault
  device : m.originDeviceId = device
  epoch : m.keyEpoch = epoch
  expected : m.expectedVersion = 0

/-- The relay at epoch `e` takes mutations of the epoch. -/
def EpochOpen (epoch e : Int64) : Prop := e ≤ epoch ∧ epoch.toInt - e.toInt ≤ maxEpochJump

theorem EpochOpen.refl (epoch : Int64) : EpochOpen epoch epoch :=
  ⟨Int64.le_refl _, by rw [Int.sub_self]; decide⟩

def AnsweredApplied (m : MutationV2) (r : MutationResult) : Prop :=
  r.mutationId = m.mutationId ∧ ∃ seq, r.outcome = .applied m.resultingVersion seq

theorem EmptyVault.created {s device vault} (h : EmptyVault s device vault) :
    Created device vault [] s where
  member := h.member
  counter := ⟨0, h.counter, rfl⟩
  entries id _ hrow := absurd ((h.entries id).symm.trans hrow) nofun
  log seq _ hrow := absurd ((h.log seq).symm.trans hrow) nofun
  results id _ hrow := absurd ((h.results id).symm.trans hrow) nofun

section Relay

variable {device vault : Uuid} {epoch : Int64} {done : List MutationV2}

theorem Created.applied {s : RelayState} (h : Created device vault done s) (m : MutationV2)
    (now : Int) {c : Int64} {payload : Bytes} {log' : Table (Uuid × Int64) SyncMutationV2}
    (hc : s.sequenceCounters.get? vault = some c) (hlen : c.toInt = done.length)
    (hmax : c ≠ Int64.maxValue)
    (hlog : s.syncMutationsV2.insert? (vault, c + 1) (logRow m.toRelay payload now) = some log')
    (outcome : MutationOutcome) :
    Created device vault (done ++ [m]) (recordResult
      (s.appended vault log' m.toRelay (entryRow m.toRelay payload (c + 1) now))
      vault device m.toRelay outcome now) where
  member := h.member
  counter := by
    refine ⟨c + 1, ?_, ?_⟩
    · show (s.sequenceCounters.update vault (· + 1)).get? vault = some (c + 1)
      rw [get?_update, if_pos rfl, hc]
      rfl
    · rw [toInt_add_one_of_ne hmax, hlen, length_append, length_singleton]
      rfl
  entries id row hrow := by
    change (s.syncEntriesV2.upsert (vault, m.objectId) _ _).get? (vault, id) = some row at hrow
    rw [map_append, mem_append]
    by_cases hid : id = m.objectId
    · right
      rw [hid]
      exact mem_singleton_self _
    · left
      rw [get?_upsert, if_neg (fun he => hid (Prod.ext_iff.mp he).2)] at hrow
      exact h.entries id row hrow
  log seq row hrow := by
    change log'.get? (vault, seq) = some row at hrow
    obtain ⟨-, -, hget⟩ := insert?_eq_some hlog
    rw [hget] at hrow
    rw [length_append, length_singleton]
    split at hrow
    · next heq =>
      obtain ⟨-, rfl⟩ := Prod.mk.inj heq
      rw [toInt_add_one_of_ne hmax, hlen]
      exact Int.le_refl _
    · have := h.log seq row hrow
      omega
  results id row hrow := by
    change (s.mutationResults.insertIgnore (m.mutationId, device, vault) _).get? (id, device, vault)
      = some row at hrow
    rw [map_append, mem_append]
    by_cases hid : id = m.mutationId
    · right
      rw [hid]
      exact mem_singleton_self _
    · left
      rw [get?_insertIgnore, if_neg (fun he => hid (Prod.ext_iff.mp he).1)] at hrow
      exact h.results id row hrow

variable {new pre : List MutationV2} {tx : PushTx}

theorem pushOne_creates {m : MutationV2} (now : Int) (h : Created device vault done tx.relay)
    (hm : Creates device vault epoch m) (hopen : EpochOpen epoch tx.vaultEpoch)
    (hobject : m.objectId ∉ done.map (·.objectId)) (hid : m.mutationId ∉ done.map (·.mutationId))
    (hfew : done.length + 1 < 2 ^ 63) :
    ∃ tx' seq, pushOne vault device now tx m.toRelay = .ok tx' ∧
      Created device vault (done ++ [m]) tx'.relay ∧ tx'.vaultEpoch = epoch ∧
      tx'.relay.vaultEpochs = tx.relay.vaultEpochs ∧
      tx'.results
        = tx.results ++ [⟨m.mutationId, m.objectId, .applied m.resultingVersion seq⟩] := by
  obtain ⟨c, hc, hlen⟩ := h.counter
  have hmax : c ≠ Int64.maxValue := by
    rintro rfl
    have : Int64.maxValue.toInt = 2 ^ 63 - 1 := rfl
    omega
  obtain ⟨payload, hpayload⟩ := hm.shaped.payload
  have hnolog : tx.relay.syncMutationsV2.get? (vault, c + 1) = none := by
    rw [eq_none_iff_forall_ne_some]
    intro row hrow
    have hle := h.log _ row hrow
    rw [toInt_add_one_of_ne hmax, hlen] at hle
    omega
  obtain ⟨log', hlog⟩ : ∃ log', tx.relay.syncMutationsV2.insert? (vault, c + 1)
      (logRow m.toRelay payload now) = some log' := by
    rw [← isSome_iff_exists, ← ne_none_iff_isSome, ne_eq, insert?_eq_none]
    rintro ⟨row, hrow⟩
    exact absurd (hnolog.symm.trans hrow) nofun
  have hnoresult : tx.relay.mutationResults.get? (resultKey vault device m.toRelay) = none := by
    rw [eq_none_iff_forall_ne_some]
    exact fun row hrow => hid (h.results _ row hrow)
  have hnoentry : tx.relay.currentVersion vault m.objectId = none := by
    unfold currentVersion
    rw [map_eq_none_iff, eq_none_iff_forall_ne_some]
    exact fun row hrow => hobject (h.entries _ row hrow)
  have hepoch : m.toRelay.keyEpoch = epoch := hm.epoch
  refine ⟨(tx.advance m.toRelay).applied vault device m.toRelay log' payload (c + 1) now, c + 1,
    ?_, ?_, ?_, ?_, ?_⟩
  · unfold pushOne applyMutation nextSequence
    rw [validateShape_eq_ok.mpr hm.shaped]
    have hstale : ¬ m.toRelay.keyEpoch < tx.vaultEpoch := by
      rw [hepoch]
      exact Int64.not_lt.mpr hopen.1
    have hjump : ¬ m.toRelay.keyEpoch.toInt - tx.vaultEpoch.toInt > maxEpochJump := by
      rw [hepoch]
      exact Int.not_lt.mpr hopen.2
    have hcas : casApplies (tx.relay.currentVersion vault m.toRelay.objectId)
        m.toRelay.expectedVersion = true := by
      show casApplies (tx.relay.currentVersion vault m.objectId) m.expectedVersion = true
      rw [hnoentry, hm.expected]
      rfl
    have hvault : ¬ m.toRelay.vaultId ≠ vault := not_not.mpr hm.vault
    have hdevice : ¬ m.toRelay.originDeviceId ≠ device := not_not.mpr hm.device
    simp only [bind, Except.bind, if_neg hvault, if_neg hdevice, hnoresult,
      if_neg hstale, if_neg hjump, hcas, if_true, PushTx.advance_relay, hc, if_neg hmax, hpayload,
      hlog]
  · have happlied := h.applied m now hc hlen hmax hlog
      (.applied m.resultingVersion (c + 1))
    rw [← PushTx.advance_relay tx m.toRelay] at happlied
    exact happlied
  · show (tx.advance m.toRelay).vaultEpoch = epoch
    rw [PushTx.advance_vaultEpoch (by rw [hepoch]; exact hopen.1), hepoch]
  · show (tx.advance m.toRelay).relay.vaultEpochs = _
    rw [PushTx.advance_relay]
  · show (tx.advance m.toRelay).results ++ _ = _
    rw [PushTx.advance_results]
    rfl

/-- The mutations of a push, none of which is in the vault. -/
structure NewCreates (device vault : Uuid) (epoch : Int64) (done new : List MutationV2) : Prop where
  creates : ∀ m ∈ new, Creates device vault epoch m
  objects : ((done ++ new).map (·.objectId)).Nodup
  ids : ((done ++ new).map (·.mutationId)).Nodup
  few : (done ++ new).length < 2 ^ 63

theorem NewCreates.rest (h : NewCreates device vault epoch done (pre ++ new)) :
    NewCreates device vault epoch (done ++ pre) new where
  creates m hm := h.creates m (mem_append_right _ hm)
  objects := by
    rw [append_assoc]
    exact h.objects
  ids := by
    rw [append_assoc]
    exact h.ids
  few := by
    rw [append_assoc]
    exact h.few

theorem NewCreates.front (h : NewCreates device vault epoch done (pre ++ new)) :
    NewCreates device vault epoch done pre where
  creates m hm := h.creates m (mem_append_left _ hm)
  objects := h.objects.sublist
    (((sublist_append_left pre new).append_left done).map _)
  ids := h.ids.sublist (((sublist_append_left pre new).append_left done).map _)
  few := by
    have := h.few
    simp only [length_append] at this ⊢
    omega

theorem notMem_of_nodup_append_cons {α β : Type} {f : α → β} {done rest a}
    (h : ((done ++ a :: rest).map f).Nodup) : f a ∉ done.map f := by
  rw [map_append, map_cons] at h
  intro hmem
  exact (nodup_append.mp h).2.2 _ hmem _ mem_cons_self rfl

theorem pushLoop_creates (now tx) (h : Created device vault done tx.relay)
    (hopen : EpochOpen epoch tx.vaultEpoch) (hnew : NewCreates device vault epoch done new) :
    ∃ tx' answers, (new.map MutationV2.toRelay).foldlM (pushOne vault device now) tx = .ok tx' ∧
      Created device vault (done ++ new) tx'.relay ∧ EpochOpen epoch tx'.vaultEpoch ∧
      tx'.relay.vaultEpochs = tx.relay.vaultEpochs ∧ tx'.results = tx.results ++ answers ∧
      List.Forall₂ AnsweredApplied new answers := by
  induction new generalizing done tx with
  | nil =>
    refine ⟨tx, [], rfl, ?_, hopen, rfl, ?_, .nil⟩
    · rw [append_nil]
      exact h
    · rw [append_nil]
  | cons m rest ih =>
    have hfew := hnew.few
    rw [length_append, length_cons] at hfew
    obtain ⟨tx₁, seq, hone, h₁, hepoch, hepochs, hresults⟩ := pushOne_creates now h
      (hnew.creates m mem_cons_self) hopen (notMem_of_nodup_append_cons hnew.objects)
      (notMem_of_nodup_append_cons hnew.ids) (by omega)
    have hrest : NewCreates device vault epoch (done ++ [m]) rest := NewCreates.rest hnew
    obtain ⟨tx₂, answers, hloop, h₂, hopen₂, hepochs₂, hresults₂, hall⟩ :=
      ih tx₁ h₁ (hepoch ▸ EpochOpen.refl epoch) hrest
    refine ⟨tx₂, ⟨m.mutationId, m.objectId, .applied m.resultingVersion seq⟩ :: answers, ?_, ?_,
      hopen₂, hepochs₂.trans hepochs, ?_, .cons ⟨rfl, seq, rfl⟩ hall⟩
    · rw [map_cons, foldlM_cons, hone]
      exact hloop
    · rw [append_assoc] at h₂
      exact h₂
    · rw [hresults₂, hresults, append_assoc]
      rfl

theorem Created.finishPush (h : Created device vault done tx.relay) (n now) :
    Created device vault done (finishPush tx vault device n now) := by
  obtain ⟨hlog, hentries, hcounters, hresults, hdevices⟩ :=
    finishPush_tables tx vault device n now
  constructor
  · unfold deviceVault
    rw [hdevices]
    exact h.member
  · rw [hcounters]
    exact h.counter
  · rw [hentries]
    exact h.entries
  · rw [hlog]
    exact h.log
  · rw [hresults]
    exact h.results

theorem epochOpen_finishPush (n now) (htx : EpochOpen epoch tx.vaultEpoch)
    (hrelay : EpochOpen epoch (tx.relay.vaultEpoch vault)) :
    EpochOpen epoch ((finishPush tx vault device n now).vaultEpoch vault) := by
  unfold finishPush vaultEpoch
  split
  · rw [get?_upsert, if_pos rfl]
    cases tx.relay.vaultEpochs.get? vault with
    | none => exact htx
    | some old => exact htx
  · exact hrelay

theorem pushV2_creates {s} (n now) (h : Created device vault done s)
    (hopen : EpochOpen epoch (s.vaultEpoch vault)) (hnew : NewCreates device vault epoch done new)
    (hlen : new.length ≤ maxMutationsPerPush) :
    ∃ s' answer cursor, pushV2 s device (pushRequest n new) now = .ok (s', answer) ∧
      wireU64 answer.serverCursor = .ok cursor ∧ Created device vault (done ++ new) s' ∧
      EpochOpen epoch (s'.vaultEpoch vault) ∧
      List.Forall₂ AnsweredApplied new answer.results := by
  obtain ⟨tx, answers, hloop, htx, hopen', hepochs, hresults, hall⟩ :=
    pushLoop_creates now (.start s vault) h hopen hnew
  obtain ⟨c, hc, hcount⟩ := htx.counter
  have hpush : pushV2 s device (pushRequest n new) now
      = .ok (finishPush tx vault device n now, ⟨c, tx.results⟩) :=
    pushV2_of_loop h.member (by rw [pushRequest, length_map]; exact hlen) hloop hc
  have hrelay : EpochOpen epoch (tx.relay.vaultEpoch vault) := by
    unfold vaultEpoch
    rw [hepochs]
    exact hopen
  refine ⟨_, _, c.toUInt64, hpush, ?_, htx.finishPush n now, epochOpen_finishPush n now hopen'
    hrelay, ?_⟩
  · show wireU64 c = .ok c.toUInt64
    unfold wireU64
    rw [if_neg (by omega)]
  · show List.Forall₂ AnsweredApplied new tx.results
    rw [hresults]
    exact hall

end Relay

/-! ## The device -/

def NotPending (db : LocalDb) (t : SyncEntryType) (id : Uuid) : Prop :=
  ∀ c, db.cols t id = some c → c.syncState ≠ .pending

section Device

variable {chunk : List MutationV2} {now : Int} {db : LocalDb} {t : SyncEntryType} {id : Uuid}
  {r : MutationResult} {results : List MutationResult}

theorem ackOne_untouched (h : ∀ m ∈ chunk, ¬ (t = m.objectType ∧ id = m.objectId)) :
    (ackOne chunk now db r).cols t id = db.cols t id := by
  unfold ackOne
  split
  · rfl
  · next m hm => rw [AckEffect.run_cols, if_neg (h m (routed_eq_some hm).1)]

theorem applyPushAcks_untouched {cursor : UInt64}
    (h : ∀ m ∈ chunk, ¬ (t = m.objectType ∧ id = m.objectId)) :
    (applyPushAcks db chunk results cursor now).1.cols t id = db.cols t id := by
  unfold applyPushAcks
  induction results generalizing db with
  | nil => rfl
  | cons r rest ih => rw [foldl_cons, ih, ackOne_untouched h]

section

variable (hids : (chunk.map (·.mutationId)).Nodup)

include hids

theorem routed_of_nodup {m} (hm : m ∈ chunk) (hr : r.mutationId = m.mutationId) :
    routed chunk r = some m := by
  unfold routed
  rw [find?_eq_some_iff_append]
  obtain ⟨pre, post, rfl⟩ := append_of_mem hm
  refine ⟨decide_eq_true hr.symm, pre, post, rfl, fun x hx => ?_⟩
  rw [hr, Bool.not_eq_true', decide_eq_false_iff_not]
  intro heq
  exact notMem_of_nodup_append_cons hids (heq ▸ mem_map_of_mem hx)

theorem ackOne_applied {m} (hm : m ∈ chunk) (hr : AnsweredApplied m r)
    (h : NotPending db t id ∨ t = m.objectType ∧ id = m.objectId) :
    NotPending (ackOne chunk now db r) t id := by
  obtain ⟨hid, seq, hout⟩ := hr
  have heffect : ackEffect m r.outcome = .applied := by
    rw [hout]
    exact if_pos rfl
  intro c hc
  unfold ackOne at hc
  rw [routed_of_nodup hids hm hid] at hc
  dsimp only at hc
  rw [heffect, AckEffect.run_cols] at hc
  split at hc
  · obtain ⟨c₀, -, rfl⟩ := map_eq_some_iff.mp hc
    exact nofun
  · next hne => exact (h.resolve_right hne) c hc

theorem acks_applied {part} (hpart : part ⊆ chunk)
    (hall : List.Forall₂ AnsweredApplied part results)
    (h : NotPending db t id ∨ ∃ m ∈ part, t = m.objectType ∧ id = m.objectId) :
    NotPending (results.foldl (ackOne chunk now) db) t id := by
  induction hall generalizing db with
  | nil =>
    rcases h with h | ⟨m, hm, -⟩
    · exact h
    exact absurd hm not_mem_nil
  | @cons m r part results hr _ ih =>
    have hm : m ∈ chunk := hpart mem_cons_self
    refine ih (fun x hx => hpart (mem_cons_of_mem _ hx)) ?_
    rcases h with h | ⟨x, hx, hobj⟩
    · exact .inl (ackOne_applied hids hm hr (.inl h))
    rcases mem_cons.mp hx with rfl | hx
    · exact .inl (ackOne_applied hids hm hr (.inr hobj))
    exact .inr ⟨x, hx, hobj⟩

theorem applyPushAcks_applied (cursor : UInt64) (hall : List.Forall₂ AnsweredApplied chunk results)
    (h : NotPending db t id ∨ ∃ m ∈ chunk, t = m.objectType ∧ id = m.objectId) :
    NotPending
    (applyPushAcks db chunk results cursor now).1 t id := by
  have hacks : NotPending (results.foldl (ackOne chunk now) db) t id :=
    acks_applied hids (List.Subset.refl chunk) hall h
  intro c hc
  exact hacks c hc

end

end Device

/-! ## All chunks -/

section Chunks

variable {device vault : Uuid} {epoch : Int64} {n : UInt64} {clock : Nat → Int}
  {css : List (List MutationV2)} {k : Nat} {run : PushRun}

theorem pushChunks_untouched {run'} (h : pushChunks device n clock k run css = some run')
    {t id} (hnone : ∀ m ∈ css.flatten, ¬ (t = m.objectType ∧ id = m.objectId)) :
    run'.db.cols t id = run.db.cols t id := by
  induction css generalizing k run with
  | nil =>
    cases h
    rfl
  | cons chunk rest ih =>
    obtain ⟨run₁, hchunk, h⟩ := bind_eq_some_iff.mp h
    obtain ⟨relay, answer, cursor, -, -, rfl⟩ := pushChunk_eq_some.mp hchunk
    rw [ih h fun m hm => hnone m (mem_append_right _ hm)]
    exact applyPushAcks_untouched fun m hm => hnone m (mem_append_left _ hm)

/-- A push of creates into a vault without them is applied and leaves none of their rows
in the outbox. -/
theorem pushChunks_creates {done : List MutationV2} (h : Created device vault done run.relay)
    (hopen : EpochOpen epoch (run.relay.vaultEpoch vault))
    (hnew : NewCreates device vault epoch done css.flatten)
    (hlen : ∀ chunk ∈ css, chunk.length ≤ maxMutationsPerPush) :
    ∃ run' answers, pushChunks device n clock k run css = some run' ∧
      run'.results = run.results ++ answers ∧
      List.Forall₂ AnsweredApplied css.flatten answers ∧
      ∀ t id, (NotPending run.db t id ∨
          ∃ m ∈ css.flatten, t = m.objectType ∧ id = m.objectId) → NotPending run'.db t id := by
  induction css generalizing k run done with
  | nil =>
    refine ⟨run, [], rfl, (append_nil _).symm, .nil, fun t id hor => ?_⟩
    rcases hor with hor | ⟨m, hm, -⟩
    · exact hor
    exact absurd hm not_mem_nil
  | cons chunk rest ih =>
    have hids : (chunk.map (·.mutationId)).Nodup :=
      hnew.front.ids.sublist ((sublist_append_right done chunk).map _)
    obtain ⟨s', answer, cursor, hpush, hcursor, hs', hopen', hall⟩ :=
      pushV2_creates n (clock k) h hopen hnew.front (hlen chunk mem_cons_self)
    obtain ⟨run₁, hrun₁⟩ : ∃ run₁, run₁ = PushRun.mk s'
        (applyPushAcks run.db chunk answer.results cursor (clock k)).1
        (run.results ++ answer.results) := ⟨_, rfl⟩
    have hchunk := pushChunk_eq_some.mpr ⟨s', answer, cursor, hpush, hcursor, hrun₁⟩
    have hs₁ : Created device vault (done ++ chunk) run₁.relay := by
      rw [hrun₁]
      exact hs'
    have hopen₁ : EpochOpen epoch (run₁.relay.vaultEpoch vault) := by
      rw [hrun₁]
      exact hopen'
    obtain ⟨run', answers, hrest, hresults, hanswers, hpending⟩ := ih hs₁ hopen₁
      hnew.rest fun c hc => hlen c (mem_cons_of_mem _ hc)
    rw [hrun₁] at hresults hpending
    refine ⟨run', answer.results ++ answers, ?_, ?_, ?_, fun t id hor => hpending t id ?_⟩
    · exact bind_eq_some_iff.mpr ⟨_, hchunk, hrest⟩
    · rw [hresults, append_assoc]
    · rw [flatten_cons]
      exact rel_append hall hanswers
    · rw [flatten_cons] at hor
      rcases hor with hor | ⟨m, hm, hobj⟩
      · exact .inl (applyPushAcks_applied hids cursor hall (.inl hor))
      rcases mem_append.mp hm with hm | hm
      · exact .inl (applyPushAcks_applied hids cursor hall (.inr ⟨m, hm, hobj⟩))
      exact .inr ⟨m, hm, hobj⟩

end Chunks

/-! ## What the outbox holds -/

section Outbox

variable {E : Env} {nonces : Nonces} {device vault : Uuid} {keyEpoch : Int64} {db : LocalDb}
  {out : List MutationV2}

def OneTable (db : LocalDb) : Prop :=
  ∀ t u id r r', db.row t id = some r → r.sync.syncState = .pending → db.row u id = some r' →
    r'.sync.syncState = .pending → t = u

variable {blobs : List SyncEntryBlob} {t : SyncEntryType}

theorem blobIds (h : collectPendingBlobs E nonces device db t = .ok blobs) :
    (blobs.map (·.syncId)).Nodup := by
  rw [map_of_mapM_ok (fun _ _ hblob => (pendingBlob_ok hblob).1) h]
  exact (db.table t).keys_nodup.sublist (filter_sublist.map _)

theorem blobIds_disjoint (hone : OneTable db) {u} (htu : t ≠ u) {blobs'}
    (h : collectPendingBlobs E nonces device db t = .ok blobs)
    (h' : collectPendingBlobs E nonces device db u = .ok blobs') :
    ∀ a ∈ blobs.map (·.syncId), ∀ b ∈ blobs'.map (·.syncId), a ≠ b := by
  rintro _ ha _ hb rfl
  obtain ⟨blob, hblob, hid⟩ := mem_map.mp ha
  obtain ⟨blob', hblob', hid'⟩ := mem_map.mp hb
  obtain ⟨id, r, hr, hpend, hbuilt⟩ := (mem_collectPendingBlobs h).mp hblob
  obtain ⟨id', r', hr', hpend', hbuilt'⟩ := (mem_collectPendingBlobs h').mp hblob'
  rw [(pendingBlob_ok hbuilt).1] at hid
  rw [(pendingBlob_ok hbuilt').1] at hid'
  subst hid hid'
  exact htu (hone t u _ r r' hr hpend hr' hpend')

section

variable (hone : OneTable db)
  (h : collectPendingMutations E nonces device vault keyEpoch db = .ok out)

include hone h

theorem collected_objects : (out.map (·.objectId)).Nodup := by
  obtain ⟨credentials, hcred, h⟩ := bind_ok h
  obtain ⟨sshKeys, hssh, h⟩ := bind_ok h
  obtain ⟨totps, htotp, h⟩ := bind_ok h
  cases h
  have hall : ((credentials ++ sshKeys ++ totps).map (·.syncId)).Nodup := by
    rw [map_append, map_append, nodup_append, nodup_append]
    refine ⟨⟨blobIds hcred, blobIds hssh, blobIds_disjoint hone (by decide) hcred hssh⟩,
      blobIds htotp, fun a ha => ?_⟩
    rcases mem_append.mp ha with ha | ha
    · exact blobIds_disjoint hone (by decide) hcred htotp a ha
    · exact blobIds_disjoint hone (by decide) hssh htotp a ha
  -- a mutation keeps the id of its blob, and a blob gives at most one
  generalize credentials ++ sshKeys ++ totps = blobs at hall
  induction blobs with
  | nil => exact nodup_nil
  | cons blob rest ih =>
    rw [map_cons, nodup_cons] at hall
    rw [filterMap_cons]
    cases hm : pendingMutation E db device vault keyEpoch blob with
    | none => exact ih hall.2
    | some m =>
      have hid : ∀ {b m}, pendingMutation E db device vault keyEpoch b = some m →
          m.objectId = b.syncId := by
        intro b m hbm
        unfold pendingMutation at hbm
        split at hbm
        · cases hbm
        · cases hbm
          rfl
      refine nodup_cons.mpr ⟨fun hmem => hall.1 ?_, ih hall.2⟩
      obtain ⟨m', hm', heq⟩ := mem_map.mp hmem
      obtain ⟨b, hb, hbm⟩ := mem_filterMap.mp hm'
      have hsame : b.syncId = blob.syncId := by
        rw [← hid hbm, ← hid hm]
        exact heq
      exact hsame ▸ mem_map_of_mem hb

theorem collected_ids (hdistinct : DistinctIds E.crypto {x | ∃ m ∈ out, m.coordinates = x}) :
    (out.map (·.mutationId)).Nodup := by
  have hid : ∀ m ∈ out, m.mutationId = E.crypto.idOf m.coordinates := by
    intro m hm
    obtain ⟨t, id, r, hoffers⟩ := (mem_collectPendingMutations h).mp hm
    obtain ⟨rfl, -, rfl, -, -, -, -, hver, hmid⟩ := hoffers.fields
    rw [hmid, ← hver]
    rfl
  refine List.Nodup.map_on (fun x hx y hy hxy => ?_) (collected_objects hone h).of_map
  rw [hid x hx, hid y hy] at hxy
  have hcoords := hdistinct ⟨x, hx, rfl⟩ ⟨y, hy, rfl⟩ hxy
  exact inj_on_of_nodup_map (collected_objects hone h) hx hy
    (Prod.ext_iff.mp (Prod.ext_iff.mp hcoords).2).1

end

end Outbox

/-! ## An outbox of creates -/

/-- The row is pushed as a create that the relay accepts. -/
structure CreateRow (db : LocalDb) (id : Uuid) (c : SyncCols) : Prop where
  named : id.isNil = false
  version : 1 ≤ c.syncVersion.toInt ∧ c.syncVersion.toInt ≤ 10000
  unacked : c.syncAckedVersion.toInt ≤ 0
  epoch : 1 ≤ db.keyEpoch.toInt

theorem ackedExpectation_eq_zero {acked : Int64} : ackedExpectation acked = 0 ↔
    acked.toInt ≤ 0 := by
  unfold ackedExpectation
  have hzero : (0 : Int64).toInt = 0 := rfl
  split
  · next hneg =>
    rw [Int64.lt_iff_toInt_lt, hzero] at hneg
    simp only [true_iff]
    omega
  · next hnn =>
    rw [Int64.lt_iff_toInt_lt, hzero, Int.not_lt] at hnn
    have hnat := toNat_toUInt64_of_nonneg hnn
    rw [← UInt64.toNat_inj, UInt64.toNat_zero]
    omega

theorem saneCreate_iff {v : Int64} :
    (0 < v.toUInt64 ∧ v.toUInt64 ≤ maxVersionStep) ↔ 1 ≤ v.toInt ∧ v.toInt ≤ 10000 := by
  have hstep : maxVersionStep.toNat = 10000 := rfl
  rw [UInt64.lt_iff_toNat_lt, UInt64.le_iff_toNat_le, UInt64.toNat_zero, hstep]
  constructor
  · rintro ⟨hpos, hle⟩
    have hint : v.toInt = v.toUInt64.toNat := by
      rw [← toInt_toInt64_of_lt (show v.toUInt64.toNat < 2 ^ 63 by omega), Int64.toInt64_toUInt64]
    omega
  · rintro ⟨hpos, hle⟩
    have hnat := toNat_toUInt64_of_nonneg (v := v) (by omega)
    omega

section Creates

variable {E : Env} {nonces : Nonces} {device vault : Uuid} {db : LocalDb} {t : SyncEntryType}
  {id : Uuid} {r : SyncRow (Content t)} {m : MutationV2} {clock : Nat → Int}

theorem Offers.creates_iff (h : Offers E nonces device vault db.keyEpoch db t id r m)
    (hvault : vault.isNil = false) :
    (m.expectedVersion = 0 ∧ validateShape m.toRelay = .ok ()) ↔ CreateRow db id r.sync := by
  obtain ⟨rfl, rfl, hv, hdev, hepoch, -, hexp, hres, hmid⟩ := h.fields
  rw [validateShape_eq_ok, hexp, ackedExpectation_eq_zero]
  have hone : (1 : Int64).toInt = 1 := rfl
  constructor
  · rintro ⟨hacked, hshape⟩
    have hids := hshape.ids
    rw [Bool.or_eq_false_iff, Bool.or_eq_false_iff] at hids
    have hexpected : m.toRelay.expectedVersion = 0 :=
      hexp.trans (ackedExpectation_eq_zero.mpr hacked)
    have hincreases := hshape.increases
    have hsane := hshape.sane
    rw [hexpected] at hincreases hsane
    rw [UInt64.sub_zero] at hsane
    refine ⟨hids.1.2, saneCreate_iff.mp ?_, hacked, ?_⟩
    · rw [← hres]
      exact ⟨hincreases, hsane⟩
    · have hle := hshape.epoch
      rw [show m.toRelay.keyEpoch = db.keyEpoch from hepoch, Int64.le_iff_toInt_le, hone] at hle
      exact hle
  · intro hrow
    have hexpected : m.toRelay.expectedVersion = 0 :=
      hexp.trans (ackedExpectation_eq_zero.mpr hrow.unacked)
    obtain ⟨hpos, hle⟩ := saneCreate_iff.mpr hrow.version
    rw [← hres] at hpos hle
    refine ⟨hrow.unacked, ?_⟩
    constructor
    · show (m.vaultId.isNil || m.objectId.isNil || m.mutationId.isNil) = false
      rw [hv, hvault, hrow.named, hmid, mutationIdFor_not_nil]
      rfl
    · show m.objectType.tag ∈ _
      cases m.objectType <;> decide
    · exact (UInt64.pos_iff_ne_zero.mp hpos)
    · rw [hexpected]
      exact hpos
    · rw [hexpected, UInt64.sub_zero]
      exact hle
    · show 1 ≤ m.keyEpoch
      rw [hepoch, Int64.le_iff_toInt_le, hone]
      exact hrow.epoch
    · exact ⟨_, Base64.decode_encode _⟩
    · exact ⟨_, Base64.decode_encode _, m.metadataMac.length_toList⟩

/-- Every pending row is pushed as a create, at an epoch the relay takes. -/
def CreateOutbox (db : LocalDb) : Prop :=
  ∀ t id c, db.cols t id = some c → c.syncState = .pending →
    CreateRow db id c ∧ db.keyEpoch.toInt ≤ 100001

/-- Everything that was offered is created, and nothing is left to offer. -/
def PushesAll (E : Env) (nonces : Nonces) (device : Uuid) (clock : Nat → Int) (s : RelayState)
    (db : LocalDb) (out : List MutationV2) : Prop :=
  ∃ run, pushChanges E nonces device clock s db = some run ∧
    List.Forall₂ AnsweredApplied out run.results ∧ ∀ t id, NotPending run.db t id

theorem pushChanges_eq {out s} (hconfig : db.config.vaultId = some vault)
    (h : collectPendingMutations E nonces device vault db.keyEpoch db = .ok out) :
    pushChanges E nonces device clock s db = pushChunks device (db.config.lastPushSequence + 1)
      clock 0 ⟨s, db, []⟩ (chunks maxPushMutations out) := by
  unfold pushChanges collectForPush
  rw [hconfig]
  dsimp only
  rw [h]
  rfl

theorem epoch_of_pushChunks {k n run run'} {chunk css}
    (h : pushChunks device n clock k run ((m :: chunk) :: css) = some run')
    (hempty : EmptyVault run.relay device vault)
    (hfloor : run.relay.vaultEpoch vault ≤ m.keyEpoch) :
    m.keyEpoch.toInt - (run.relay.vaultEpoch vault).toInt ≤ maxEpochJump := by
  obtain ⟨run₁, hchunk, -⟩ := bind_eq_some_iff.mp h
  obtain ⟨relay, answer, cursor, hpush, -, -⟩ := pushChunk_eq_some.mp hchunk
  obtain ⟨v, tx, hv, -, hloop, -⟩ := pushV2_ok hpush
  cases hv.symm.trans hempty.member
  obtain ⟨tx₁, hone, -⟩ := foldlM_cons_ok hloop
  obtain ⟨-, -, -, hstep⟩ := pushOne_step hone
  cases hstep with
  | replay stored => exact absurd ((hempty.results _).symm.trans stored) nofun
  | stale _ below => exact absurd below (Int64.not_lt.mpr hfloor)
  | conflict _ _ jump _ => exact jump
  | apply _ _ jump _ _ _ _ _ => exact jump

/-- The outbox of the device, which syncs with an empty vault at its first epoch. The ids
of its mutations do not collide, and the relay's counter does not run out. -/
structure OutboxFor (E : Env) (nonces : Nonces) (device vault : Uuid) (s : RelayState)
    (db : LocalDb) (out : List MutationV2) : Prop where
  empty : EmptyVault s device vault
  first : s.vaultEpoch vault = 1
  config : db.config.vaultId = some vault
  collected : collectPendingMutations E nonces device vault db.keyEpoch db = .ok out
  oneTable : OneTable db
  distinct : DistinctIds E.crypto {x | ∃ m ∈ out, m.coordinates = x}
  few : out.length < 2 ^ 63

section Outbox

variable {out : List MutationV2} {s : RelayState}

section

variable (h : OutboxFor E nonces device vault s db out) {run : PushRun}

include h

theorem OutboxFor.offers (hr : db.row t id = some r) (hpend : r.sync.syncState = .pending)
    (hrow : CreateRow db id r.sync) :
    ∃ m ∈ out, Offers E nonces device vault db.keyEpoch db t id r m := by
  refine exists_offers h.collected hr hpend ?_
  rw [ackedExpectation_eq_zero.mpr hrow.unacked]
  exact (saneCreate_iff.mpr hrow.version).1

theorem OutboxFor.keyEpoch_eq (hm : m ∈ out) : m.keyEpoch = db.keyEpoch := by
  obtain ⟨_, _, _, hoffers⟩ := (mem_collectPendingMutations h.collected).mp hm
  exact hoffers.fields.2.2.2.2.1

theorem OutboxFor.epoch_le (hrun : pushChanges E nonces device clock s db = some run)
    (hm : m ∈ out) (hmin : 1 ≤ db.keyEpoch.toInt) : db.keyEpoch.toInt ≤ 100001 := by
  have hone : (1 : Int64).toInt = 1 := rfl
  obtain ⟨x, xs, rfl⟩ := exists_cons_of_ne_nil (ne_nil_of_mem hm)
  have hx := h.keyEpoch_eq mem_cons_self
  obtain ⟨c, css, hcss⟩ := chunks_cons (n := maxPushMutations) (by decide) x xs
  rw [pushChanges_eq h.config h.collected, hcss] at hrun
  have hjump := epoch_of_pushChunks hrun h.empty (by
    show s.vaultEpoch vault ≤ x.keyEpoch
    rw [h.first, hx, Int64.le_iff_toInt_le, hone]
    exact hmin)
  rw [h.first, hx, hone, maxEpochJump] at hjump
  omega

theorem OutboxFor.above_of_not_left (hrun : pushChanges E nonces device clock s db = some run)
    (hnone : ∀ t id, NotPending run.db t id) (hr : db.row t id = some r)
    (hpend : r.sync.syncState = .pending) :
    ackedExpectation r.sync.syncAckedVersion < r.sync.syncVersion.toUInt64 := by
  by_contra habove
  rw [pushChanges_eq h.config h.collected] at hrun
  have hcols : db.cols t id = some r.sync := by
    unfold LocalDb.cols
    rw [hr, map_some]
  have hsame : run.db.cols t id = db.cols t id := by
    refine pushChunks_untouched hrun fun m hm hobj => ?_
    rw [flatten_chunks (by decide)] at hm
    obtain ⟨u, k, r', hoffers⟩ := (mem_collectPendingMutations h.collected).mp hm
    obtain ⟨hk, hu, -⟩ := hoffers.fields
    obtain ⟨rfl, rfl⟩ : t = u ∧ id = k := ⟨hobj.1.trans hu, hobj.2.trans hk⟩
    cases hoffers.row.symm.trans hr
    exact habove hoffers.above
  exact hnone t id r.sync (hsame.trans hcols) hpend

/-- The outbox is one of creates if the relay accepts it as such and nothing is left. -/
theorem OutboxFor.createOutbox
    (hshape : ∀ m ∈ out, m.expectedVersion = 0 ∧ validateShape m.toRelay = .ok ())
    (hall : PushesAll E nonces device clock s db out) : CreateOutbox db := by
  obtain ⟨run, hrun, -, hnone⟩ := hall
  intro t id c hc hpend
  obtain ⟨r, hr, rfl⟩ := map_eq_some_iff.mp hc
  obtain ⟨m, hm, hoffers⟩ := exists_offers h.collected hr hpend
    (h.above_of_not_left hrun hnone hr hpend)
  have hrow := (hoffers.creates_iff h.empty.minted).mp (hshape m hm)
  exact ⟨hrow, h.epoch_le hrun hm hrow.epoch⟩

theorem OutboxFor.creates (hcreate : CreateOutbox db) (hm : m ∈ out) :
    Creates device vault db.keyEpoch m ∧ EpochOpen db.keyEpoch (s.vaultEpoch vault) := by
  obtain ⟨t, id, r, hoffers⟩ := (mem_collectPendingMutations h.collected).mp hm
  have hcols : db.cols t id = some r.sync := by
    unfold LocalDb.cols
    rw [hoffers.row, map_some]
  obtain ⟨hrow, hmax⟩ := hcreate t id r.sync hcols hoffers.pending
  obtain ⟨hexp, hok⟩ := (hoffers.creates_iff h.empty.minted).mpr hrow
  obtain ⟨-, -, hv, hdev, hepoch, -⟩ := hoffers.fields
  refine ⟨⟨validateShape_eq_ok.mp hok, hv, hdev, hepoch, hexp⟩, ?_⟩
  have hone : (1 : Int64).toInt = 1 := rfl
  have hmin := hrow.epoch
  unfold EpochOpen
  rw [h.first, Int64.le_iff_toInt_le, hone, maxEpochJump]
  exact ⟨hmin, by omega⟩

theorem OutboxFor.pushesAll (hcreate : CreateOutbox db) :
    PushesAll E nonces device clock s db out := by
  have hflat : (chunks maxPushMutations out).flatten = out := flatten_chunks (by decide) out
  have hcovered : ∀ t id, NotPending db t id ∨ ∃ m ∈ out, t = m.objectType ∧ id = m.objectId := by
    intro t id
    by_cases hpend : NotPending db t id
    · exact .inl hpend
    unfold NotPending at hpend
    push Not at hpend
    obtain ⟨c, hc, hpend⟩ := hpend
    obtain ⟨r, hr, rfl⟩ := map_eq_some_iff.mp hc
    obtain ⟨m, hm, hoffers⟩ := h.offers hr hpend (hcreate t id r.sync hc hpend).1
    obtain ⟨hid, ht, -⟩ := hoffers.fields
    exact .inr ⟨m, hm, ht.symm, hid.symm⟩
  unfold PushesAll
  rw [pushChanges_eq h.config h.collected]
  by_cases hnil : out = []
  · subst hnil
    refine ⟨⟨s, db, []⟩, rfl, .nil, fun t id => (hcovered t id).resolve_right ?_⟩
    rintro ⟨m, hm, -⟩
    exact absurd hm not_mem_nil
  · obtain ⟨x, hx⟩ := exists_mem_of_ne_nil out hnil
    have hnew : NewCreates device vault db.keyEpoch [] (chunks maxPushMutations out).flatten := by
      rw [hflat]
      exact ⟨fun m hm => (h.creates hcreate hm).1, collected_objects h.oneTable h.collected,
        collected_ids h.oneTable h.collected h.distinct, h.few⟩
    have hstart : Created device vault [] (PushRun.mk s db []).relay := h.empty.created
    obtain ⟨run, answers, hrun, hresults, hall, hpending⟩ :=
      pushChunks_creates hstart
        (h.creates hcreate hx).2 hnew fun c hc => length_le_of_mem_chunks hc
    rw [hflat] at hall hpending
    refine ⟨run, hrun, ?_, fun t id => hpending t id (hcovered t id)⟩
    rw [hresults]
    exact hall

/-- Every mutation of the outbox is an accepted create and a push leaves nothing pending,
exactly if every pending row is pushed as a create. -/
theorem OutboxFor.pushes_creates_iff (clock : Nat → Int) :
    ((∀ m ∈ out, m.expectedVersion = 0 ∧ validateShape m.toRelay = .ok ()) ∧
      PushesAll E nonces device clock s db out) ↔ CreateOutbox db := by
  constructor
  · exact fun hall => h.createOutbox hall.1 hall.2
  · intro hcreate
    refine ⟨fun m hm => ?_, h.pushesAll hcreate⟩
    have hm := (h.creates hcreate hm).1
    exact ⟨hm.expected, validateShape_eq_ok.mpr hm.shaped⟩

end

end Outbox

end Creates

end SentinelPass
