import SentinelPass.System.Lineage

/-!
# No silent lost update

Whenever the relay applies a mutation over a version that another device wrote,
the pushing device had integrated that version before it collected the push: it
had written it into its row, or the user had resolved it as a stored conflict.

`apply_push_acks` breaks this when it re-bases: a VersionConflict below the
attempted version moves `sync_acked_version` up to the relay's version whoever
wrote it, the next page then looks stale against the local row, and the next push
overwrites it (`lost_update`). In runs whose re-bases are to known versions the
property holds of every applied mutation (`no_lost_update`).

Mutation ids are truncated digests. `DistinctIds` says that the ids of a set of
mutations do not collide; the runs collect mutations of such a set only.
-/

namespace SentinelPass

open Lib Relay List Option MutationV2

def MutationV2.coordinates (m : MutationV2) : Uuid × Uuid × UInt64 :=
  (m.vaultId, m.objectId, m.resultingVersion)

def Crypto.idOf (c : Crypto) (x : Uuid × Uuid × UInt64) : Uuid := mutationIdFor c x.1 x.2.1 x.2.2

def DistinctIds (c : Crypto) (S : Set (Uuid × Uuid × UInt64)) : Prop := S.InjOn c.idOf

def rowCoordinates (vault : Uuid) (e : SyncMutationV2) : Uuid × Uuid × UInt64 :=
  (vault, e.objectId, e.resultingVersion.toUInt64)

/-- The log holds mutations of the set, under their ids. -/
def LogBuilt (c : Crypto) (S : Set (Uuid × Uuid × UInt64)) (r : RelayState) : Prop :=
  ∀ vault, ∀ x ∈ r.log vault,
    x.2.mutationId = c.idOf (rowCoordinates vault x.2) ∧ rowCoordinates vault x.2 ∈ S

/-- A push on its way. -/
structure PushInv (c : Crypto) (S : Set (Uuid × Uuid × UInt64)) (r : RelayState)
    (task : PushTask) : Prop where
  built : ∀ m ∈ task.chunk, m.mutationId = c.idOf m.coordinates ∧ m.coordinates ∈ S
  expected : ∀ m ∈ task.chunk, m.expectedVersion = 0 ∨
    Known r task.device task.seen m.objectType m.objectId m.expectedVersion
  seen : ∀ blob ∈ task.seen, FromLog r task.device blob
  answers : ∀ answer ∈ task.answers, AnswersLogged r task.device task.chunk answer.results

structure SystemInv (E : Env) (S : Set (Uuid × Uuid × UInt64)) (s : System) : Prop where
  log : LogInv s.relay
  truthful : Truthful s.relay
  built : LogBuilt E.crypto S s.relay
  devices : ∀ device, DeviceInv s.relay device (s.devices device)
  pushes : ∀ task ∈ s.pushes, PushInv E.crypto S s.relay task
  pulls : ∀ task ∈ s.pulls, ∀ e ∈ task.response.entries, FromLog s.relay task.device e.blob

/-! ## A push reaches the relay -/

section Push

variable {c : Crypto} {S : Set (Uuid × Uuid × UInt64)} {r r' : RelayState} {task : PushTask}
  {now : Int} {answer : PushResponseV2}

theorem PushInv.mono (hgrow : RelayGrows r r') (h : PushInv c S r task) : PushInv c S r' task where
  built := h.built
  expected m hm := (h.expected m hm).imp_right (·.mono hgrow (List.Subset.refl _))
  seen blob hb := (h.seen blob hb).mono hgrow
  answers a ha x hx m hm heff := (h.answers a ha x hx m hm heff).mono hgrow

theorem relayGrows_pushV2 {device req} (h : pushV2 r device req now = .ok (r', answer)) :
    RelayGrows r r' := by
  obtain ⟨hdev, hlog, -⟩ := pushV2_frame h
  refine ⟨fun device vault hv => ?_, hlog⟩
  unfold RelayState.deviceVault at hv ⊢
  rwa [hdev]

/-- What a chunk adds to the log: one of its mutations, under the device's name
and in its vault. -/
theorem pushed_new
    (hp : pushV2 r task.device (pushRequest task.deviceSequence task.chunk) now = .ok (r', answer))
    {vault : Uuid} {x : Int64 × SyncMutationV2} (hx : x ∈ r'.log vault) (hnew : x ∉ r.log vault) :
    r.deviceVault task.device = some vault ∧ ∃ m ∈ task.chunk, m.vaultId = vault ∧
      x.2.mutationId = m.mutationId ∧ x.2.objectId = m.objectId ∧
      x.2.expectedVersion.toUInt64 = m.expectedVersion ∧
      x.2.resultingVersion.toUInt64 = m.resultingVersion ∧
      x.2.originDeviceId = task.device := by
  obtain ⟨hv, sent, hsent, payload, -, hvault, horigin, -, hrow⟩ := pushV2_new hp hx hnew
  obtain ⟨m, hm, rfl⟩ := mem_map.mp hsent
  rw [hrow]
  exact ⟨hv, m, hm, hvault, rfl, rfl, by simp [logRow, toRelay], by simp [logRow, toRelay], horigin⟩

theorem LogBuilt.push (h : LogBuilt c S r) (htask : PushInv c S r task)
    (hp : pushV2 r task.device (pushRequest task.deviceSequence task.chunk) now
      = .ok (r', answer)) : LogBuilt c S r' := by
  intro vault x hx
  by_cases hold : x ∈ r.log vault
  · exact h vault x hold
  · obtain ⟨-, m, hm, hvault, hid, hobj, -, hver, -⟩ := pushed_new hp hx hold
    have hcoord : rowCoordinates vault x.2 = m.coordinates := by
      unfold rowCoordinates coordinates
      rw [hvault, hobj, hver]
    rw [hid, hcoord]
    exact htask.built m hm

/-- What the relay answers Applied to is in its log under the device's name: the
id of the log row belongs to one mutation only. -/
theorem answersLogged_push (hids : DistinctIds c S) (htruth : Truthful r) (hbuilt : LogBuilt c S r)
    (htask : PushInv c S r task)
    (hp : pushV2 r task.device (pushRequest task.deviceSequence task.chunk) now
      = .ok (r', answer)) : AnswersLogged r' task.device task.chunk answer.results := by
  obtain ⟨-, vault, hv, hlogged⟩ := htruth.pushV2 hp
  have hbuilt' := hbuilt.push htask hp
  intro result hres m hm heff
  obtain ⟨seq, hout⟩ := ackEffect_applied heff
  obtain ⟨x, hx, hid, horigin, hver⟩ := hlogged result hres _ seq hout
  obtain ⟨hsent, hmid⟩ := routed_eq_some hm
  obtain ⟨hrow, hrowS⟩ := hbuilt' vault x hx
  obtain ⟨hmine, hmineS⟩ := htask.built m hsent
  have hcoord : rowCoordinates vault x.2 = m.coordinates := by
    refine hids hrowS hmineS ?_
    rw [← hrow, ← hmine, hid, hmid]
  have hobj : x.2.objectId = m.objectId := congrArg (·.2.1) hcoord
  exact ⟨vault, (relayGrows_pushV2 hp).vaults _ _ hv, x, hx, hobj, hver, horigin⟩

end Push

/-! ## The steps of the system -/

/-- The hash assumption: only mutations of the set are collected. -/
def CollectsFrom (E : Env) (S : Set (Uuid × Uuid × UInt64)) (s : System) : SystemAction → Prop
  | .collect device nonces =>
    ∀ collected ∈ (collectForPush E nonces device (s.devices device).db).toOption,
      ∀ chunk ∈ collected, ∀ m ∈ chunk, m.coordinates ∈ S
  | _ => True

/-- Acknowledgements re-base to known versions only. -/
def RebasesToKnown (s : System) : SystemAction → Prop
  | .acks i j now => ∀ task ∈ s.pushes[i]?, ∀ answer ∈ task.answers[j]?,
      RebasesKnown s.relay task.device (s.devices task.device).integrated task.chunk now
        (s.devices task.device).db answer.results
  | _ => True

def Careful (E : Env) (S : Set (Uuid × Uuid × UInt64)) (s : System) (a : SystemAction) : Prop :=
  CollectsFrom E S s a ∧ RebasesToKnown s a

instance (E : Env) (S : Set (Uuid × Uuid × UInt64)) [DecidablePred (· ∈ S)] (s : System) :
    (a : SystemAction) → Decidable (CollectsFrom E S s a)
  | .collect .. => by
    unfold CollectsFrom
    infer_instance
  | .register .. | .cleanup .. | .edit .. | .send .. | .acks .. | .fetch .. | .apply .. |
    .resolve .. => .isTrue trivial

instance (s : System) : (a : SystemAction) → Decidable (RebasesToKnown s a)
  | .acks .. => by
    unfold RebasesToKnown
    infer_instance
  | .register .. | .cleanup .. | .edit .. | .collect .. | .send .. | .fetch .. | .apply .. |
    .resolve .. => .isTrue trivial

instance (E : Env) (S : Set (Uuid × Uuid × UInt64)) [DecidablePred (· ∈ S)] (s : System)
    (a : SystemAction) : Decidable (Careful E S s a) :=
  inferInstanceAs (Decidable (_ ∧ _))

theorem AckedKnown.expectation {r device object integrated t acked}
    (h : AckedKnown r device integrated t object acked) :
    ackedExpectation acked = 0 ∨ Known r device integrated t object (ackedExpectation acked) := by
  unfold ackedExpectation
  split
  · exact .inl rfl
  rename_i hneg
  refine h.imp_left fun hle => ?_
  rw [Int64.le_antisymm hle (Int64.not_lt.mp hneg)]
  rfl

namespace SystemInv

variable {E : Env} {S : Set (Uuid × Uuid × UInt64)} {s : System}

theorem initial (h : s.Initial) : SystemInv E S s := by
  obtain ⟨hrelay, hpushes, hpulls, hdevices⟩ := h
  refine ⟨?_, ?_, ?_, fun device => ?_, ?_, ?_⟩
  · rw [hrelay]
    exact logInv_empty
  · rw [hrelay]
    exact truthful_empty
  · rw [hrelay]
    intro vault x hx
    cases hx
  · obtain ⟨hnone, hconf, hacked⟩ := hdevices device
    refine ⟨fun t id c hc => .inl ?_, fun id row hr => ?_, fun blob hb => ?_⟩
    · rw [hacked t id c hc]
      exact Int64.le_refl 0
    · rw [hconf] at hr
      cases hr
    · rw [hnone] at hb
      cases hb
  · rw [hpushes]
    exact fun _ ht => nomatch ht
  · rw [hpulls]
    exact fun _ ht => nomatch ht

section

variable (h : SystemInv E S s) {device : Uuid} {s' : System}

include h

theorem setRelay {r} (hgrow : RelayGrows s.relay r) (hlog : LogInv r) (htruth : Truthful r)
    (hbuilt : LogBuilt E.crypto S r) : SystemInv E S { s with relay := r } where
  log := hlog
  truthful := htruth
  built := hbuilt
  devices device := (h.devices device).mono hgrow
  pushes task ht := (h.pushes task ht).mono hgrow
  pulls task ht e he := (h.pulls task ht e he).mono hgrow

theorem setDevice {d : Device} (hd : DeviceInv s.relay device d) : SystemInv E S
    (s.setDevice device d) :=
  { h with
    devices other := by
      show DeviceInv s.relay other (Function.update s.devices device d other)
      by_cases heq : other = device
      · rw [heq, Function.update_self]
        exact hd
      · rw [Function.update_of_ne heq]
        exact h.devices other }

theorem admin {a : RelayAction} {r : RelayState} (hs : relayStep s.relay a = some r)
    (hclaim : ∀ device origin newVault now, a ≠ .claim device origin newVault now)
    (hsame : r.syncMutationsV2 = s.relay.syncMutationsV2) :
    SystemInv E S { s with relay := r } := by
  refine h.setRelay (relayGrows_step hs hclaim) (h.log.step hs) (h.truthful.step hs) ?_
  intro vault x hx
  refine h.built vault x ?_
  unfold RelayState.log at hx ⊢
  rwa [hsame] at hx

theorem collect {device : Uuid} {nonces : Nonces} {collected : List (List MutationV2)}
    (hc : collectForPush E nonces device (s.devices device).db = .ok collected)
    (hS : ∀ chunk ∈ collected, ∀ m ∈ chunk, m.coordinates ∈ S) :
    SystemInv E S { s with pushes := s.pushes ++ s.newTasks device collected } := by
  refine { h with pushes := fun task ht => ?_ }
  rcases mem_append.mp ht with ht | ht
  · exact h.pushes task ht
  obtain ⟨chunk, hchunk, rfl⟩ := mem_map.mp ht
  refine ⟨fun m hm => ?_, fun m hm => ?_, (h.devices device).integrated, fun _ ha => nomatch ha⟩
  · obtain ⟨vault, t, id, row, hoff⟩ := collectForPush_offers hc hchunk hm
    obtain ⟨hid, -, hvault, -, -, -, -, hver, hmid⟩ := hoff.fields
    refine ⟨?_, hS chunk hchunk m hm⟩
    rw [hmid, ← hvault, ← hid, ← hver]
    rfl
  · obtain ⟨vault, t, id, row, hoff⟩ := collectForPush_offers hc hchunk hm
    obtain ⟨rfl, rfl, -, -, -, -, hexp, -, -⟩ := hoff.fields
    have hcols : (s.devices device).db.cols m.objectType m.objectId = some row.sync := by
      rw [LocalDb.cols, hoff.row]
      rfl
    rw [hexp]
    exact ((h.devices device).acked _ _ _ hcols).expectation

theorem send (hids : DistinctIds E.crypto S) {i now} (hs : sendStep s i now = some s') :
    SystemInv E S s' := by
  obtain ⟨task, relay, answer, htask, hp, rfl⟩ := sendStep_ok hs
  have hmem := mem_of_getElem? htask
  have hinv := h.pushes task hmem
  have hgrow := relayGrows_pushV2 hp
  have hrelay := h.setRelay hgrow (h.log.pushV2 hp) (h.truthful.pushV2 hp).1
    (h.built.push hinv hp)
  have hanswers := answersLogged_push hids h.truthful h.built hinv hp
  refine { hrelay with pushes := fun t ht => ?_ }
  rcases mem_or_eq_of_mem_set ht with ht | rfl
  · exact hrelay.pushes t ht
  · refine { hinv.mono hgrow with answers := fun a ha => ?_ }
    rcases mem_snoc ha with ha | rfl
    · exact (hinv.mono hgrow).answers a ha
    · exact hanswers

theorem fetch {limit} (hs : fetchStep s device limit = some s') : SystemInv E S s' := by
  obtain ⟨cursor, highWater, response, hresp, rfl⟩ := fetchStep_ok hs
  refine { h with pulls := fun task ht => ?_ }
  rcases mem_snoc ht with ht | rfl
  · exact h.pulls task ht
  · obtain ⟨vault, hv, hpage⟩ := sendPull_spec h.log hresp
    intro e he
    obtain ⟨x, hx, -, hentry⟩ := hpage.sound e he
    exact ⟨vault, hv, x, hx, e.mutation, hentry.mutation, rfl⟩

end

theorem step (hids : DistinctIds E.crypto S) {a s'} (h : SystemInv E S s) (hok : Careful E S s a)
    (hs : (system E).step s a = some s') : SystemInv E S s' := by
  change systemStep E s a = some s' at hs
  cases a with
  | register req paired now =>
    obtain ⟨r, hr, rfl⟩ := map_eq_some_iff.mp hs
    obtain ⟨row, -, rfl⟩ := registerDevice_ok (toOption_eq_some.mp hr)
    exact h.admin hr (fun _ _ _ _ => nofun) rfl
  | cleanup ttl cap now =>
    unfold systemStep at hs
    obtain ⟨r, hr, rfl⟩ := map_eq_some_iff.mp hs
    refine h.admin hr (fun _ _ _ _ => nofun) ?_
    cases hr
    rfl
  | edit device op =>
    obtain ⟨db, hdb, rfl⟩ := map_eq_some_iff.mp hs
    exact h.setDevice ((h.devices device).edit (LocalOp.run_step (toOption_eq_some.mp hdb)))
  | collect device nonces =>
    obtain ⟨collected, hc, rfl⟩ := map_eq_some_iff.mp hs
    exact h.collect (toOption_eq_some.mp hc) (hok.1 collected hc)
  | send i now => exact h.send hids hs
  | acks i j now =>
    obtain ⟨task, answer, cursor, htask, hanswer, rfl⟩ := acksStep_ok hs
    have hlogged := (h.pushes task (mem_of_getElem? htask)).answers answer
      (mem_of_getElem? hanswer)
    exact h.setDevice ((h.devices task.device).acks hlogged (hok.2 task htask answer hanswer)
      cursor)
  | fetch device limit => exact h.fetch hs
  | apply k now guard =>
    obtain ⟨task, page, htask, rfl, rfl⟩ := applyStep_ok hs
    exact h.setDevice ((h.devices task.device).page (h.pulls task (mem_of_getElem? htask)))
  | resolve device object takeRemote now guard =>
    cases hs
    exact h.setDevice ((h.devices device).resolve guard object takeRemote)

theorem of_reachable (hids : DistinctIds E.crypto S)
    (h : (system E).Reachable (Careful E S) s) : SystemInv E S s :=
  h.invariant initial fun hx hok hs => hx.step hids hok hs

end SystemInv

/-! ## Whole runs -/

/-- **No silent lost update.** In every state of a run whose acknowledgements
re-base to known versions only: if a send makes the relay apply a mutation `y`
over a version `x` of another device, then `x` was among what the pushing device
had integrated when it collected the push. -/
theorem no_lost_update {E : Env} {S : Set (Uuid × Uuid × UInt64)} (hids : DistinctIds E.crypto S)
    {s s' : System} (hs : (system E).Reachable (Careful E S) s) {i : Nat} {now : Int}
    {task : PushTask} (htask : s.pushes[i]? = some task)
    (hsend : (system E).step s (.send i now) = some s') {vault : Uuid}
    {x y : Int64 × SyncMutationV2} (hy : y ∈ s'.relay.log vault) (hnew : y ∉ s.relay.log vault)
    (hx : x ∈ s'.relay.log vault) (hobj : x.2.objectId = y.2.objectId)
    (hver : x.2.resultingVersion = y.2.expectedVersion)
    (hpeer : x.2.originDeviceId ≠ task.device) :
    y.2.originDeviceId = task.device ∧ ∃ m, MutationV2.ofLog (logMutation vault x.2) = some m ∧
        blobFromLogMutation m ∈ task.seen := by
  have hinv := SystemInv.of_reachable hids hs
  obtain ⟨task', relay, answer, htask', hp, rfl⟩ := sendStep_ok hsend
  obtain rfl : task = task' := some.inj (htask.symm.trans htask')
  have hlog := hinv.log.pushV2 hp
  have hpush := (hinv.pushes task (mem_of_getElem? htask)).mono (relayGrows_pushV2 hp)
  obtain ⟨hv, m, hm, -, -, hmobj, hexp, -, horigin⟩ := pushed_new hp hy hnew
  have hv' := (relayGrows_pushV2 hp).vaults _ _ hv
  refine ⟨horigin, ?_⟩
  -- an entry of the log with that object and version is `x`
  have huniq : ∀ z ∈ relay.log vault, z.2.objectId = m.objectId →
      z.2.resultingVersion.toUInt64 = m.expectedVersion → z = x := by
    intro z hz hzobj hzver
    refine hlog.eq_of_resultingVersion hz hx (by rw [hzobj, hobj, hmobj]) ?_
    rw [hzver, hver, hexp]
  have hpos := hlog.resultingVersion_pos hx
  rcases hpush.expected m hm with h0 | hmine | ⟨blob, hblob, -, hid, hbver⟩
  · -- version 0 is nobody's
    rw [hver, hexp, h0] at hpos
    exact absurd hpos (lt_irrefl 0)
  · obtain ⟨w, hw, z, hz, hzobj, hzver, hzorigin⟩ := hmine
    obtain rfl : vault = w := some.inj (hv'.symm.trans hw)
    rw [huniq z hz hzobj hzver] at hzorigin
    exact absurd hzorigin hpeer
  · obtain ⟨w, hw, z, hz, m', hm', rfl⟩ := hpush.seen blob hblob
    obtain rfl : vault = w := some.inj (hv'.symm.trans hw)
    obtain ⟨-, -, hmo, hmv⟩ := ofLog_fields hm'
    have hzx := huniq z hz (hmo.symm.trans hid) (hmv.symm.trans hbver)
    rw [hzx] at hm'
    exact ⟨m', hm', hblob⟩

/-! ## Two devices and one credential -/

/-- An empty relay and devices that have never synced. -/
def sampleSystem : System := ⟨.empty, fun _ => ⟨.fresh (some 1) 1, []⟩, [], []⟩

def sampleJoin (device : Uuid) : SystemAction :=
  .register ⟨device, 1, "laptop", "desktop", Base64.encode (List.replicate 32 9)⟩ true 0

/-- A device changes the password of credential 7. -/
def sampleEdit (device : Uuid) (password : String) (now : Int) : SystemAction :=
  .edit device (.updateEntry 7 { sampleEntry with password := password } now)

theorem sampleSystem_initial : sampleSystem.Initial := by
  refine ⟨rfl, rfl, rfl, fun device => ⟨rfl, rfl, fun t id c hc => ?_⟩⟩
  change (LocalDb.fresh (some 1) 1).cols t id = some c at hc
  rw [LocalDb.cols_fresh] at hc
  cases hc

/-- The device overwrites a version of another device that it had not seen. -/
def OverwritesUnseen (s s' : System) (vault : Uuid) (task : PushTask) : Prop :=
  ∃ y ∈ s'.relay.log vault, y ∉ s.relay.log vault ∧ y.2.originDeviceId = task.device ∧
    ∃ x ∈ s'.relay.log vault, x.2.objectId = y.2.objectId ∧
      x.2.resultingVersion = y.2.expectedVersion ∧ x.2.originDeviceId ≠ task.device ∧
      ∀ m ∈ ofLog (logMutation vault x.2), blobFromLogMutation m ∉ task.seen

instance (s s' : System) (vault : Uuid) (task : PushTask) :
    Decidable (OverwritesUnseen s s' vault task) :=
  inferInstanceAs (Decidable (∃ y ∈ s'.relay.log vault, _ ∧ _ ∧
    ∃ x ∈ s'.relay.log vault, _ ∧ _ ∧ _ ∧ ∀ m ∈ ofLog (logMutation vault x.2), _))

/-- Device 3 has version 1 of credential 7. Device 2 pushes version 2; device 3
edits twice and pushes version 3, which conflicts with 2 and is re-based onto it;
the page with version 2 is below the local row; the next push is collected. -/
def lostRun : List SystemAction :=
  [sampleJoin 2, sampleJoin 3, .edit 2 (.addEntry 7 sampleEntry 0), .collect 2 sampleNonces,
    .send 0 1, .acks 0 0 2, .fetch 3 none, .apply 0 3 .committed,
    sampleEdit 2 "two" 4, .collect 2 sampleNonces, .send 1 5, .acks 1 0 6,
    sampleEdit 3 "b" 7, sampleEdit 3 "bb" 8, .collect 3 sampleNonces, .send 2 9, .acks 2 0 10,
    .fetch 3 none, .apply 1 11 .committed, .collect 3 sampleNonces]

/-- That push overwrites version 2, which device 3 neither wrote into its row nor
recorded as a conflict. -/
theorem lost_update : sampleSystem.Initial ∧ ∃ s s' task,
      (system sampleEnv).exec sampleSystem lostRun = some s ∧ s.pushes[3]? = some task ∧
      (system sampleEnv).step s (.send 3 12) = some s' ∧ OverwritesUnseen s s' 1 task ∧
      (s.devices 3).db.syncConflicts.get? 7 = none := by
  refine ⟨sampleSystem_initial, ?_⟩
  have hrun : (((system sampleEnv).exec sampleSystem lostRun).any fun s =>
      (s.pushes[3]?).any fun task => ((system sampleEnv).step s (.send 3 12)).any fun s' =>
        decide (OverwritesUnseen s s' 1 task ∧
          ((s.devices 3).db.syncConflicts.get? 7).isNone = true)) = true := by decide +kernel
  obtain ⟨s, hs, hrun⟩ := (Option.any_eq_true ..).mp hrun
  obtain ⟨task, htask, hrun⟩ := (Option.any_eq_true ..).mp hrun
  obtain ⟨s', hs', hrun⟩ := (Option.any_eq_true ..).mp hrun
  obtain ⟨hover, hnone⟩ := of_decide_eq_true hrun
  exact ⟨s, s', task, hs, htask, hs', hover, isNone_iff_eq_none.mp hnone⟩

/-- The answer to device 2's first push is lost, so its second one is re-based
onto its own version 1; device 3 pulls, edits and collects. -/
def carefulRun : List SystemAction :=
  [sampleJoin 2, sampleJoin 3, .edit 2 (.addEntry 7 sampleEntry 0), .collect 2 sampleNonces,
    .send 0 1, sampleEdit 2 "two" 2, .collect 2 sampleNonces, .send 1 3, .acks 1 0 4,
    .collect 2 sampleNonces, .send 2 5, .fetch 3 none, .apply 0 6 .committed,
    sampleEdit 3 "b" 7, .collect 3 sampleNonces]

def carefulIds : List (Uuid × Uuid × UInt64) := [(1, 7, 1), (1, 7, 2), (1, 7, 3), (1, 7, 4)]

theorem distinctIds_careful : DistinctIds sampleEnv.crypto {x | x ∈ carefulIds} := by
  have hnodup : (carefulIds.map sampleEnv.crypto.idOf).Nodup := by decide +kernel
  exact fun a ha b hb => inj_on_of_nodup_map hnodup ha hb

theorem careful_carefulRun : (system sampleEnv).Allowed
    (Careful sampleEnv {x | x ∈ carefulIds}) sampleSystem carefulRun := by decide +kernel

/-- Device 3 overwrites version 3 of device 2, which it had integrated. -/
theorem no_lost_update_carefulRun : ∃ s s' task, ∃ x y : Int64 × SyncMutationV2,
      (system sampleEnv).exec sampleSystem carefulRun = some s ∧
      s.pushes[3]? = some task ∧ (system sampleEnv).step s (.send 3 12) = some s' ∧
      y ∈ s'.relay.log 1 ∧ y ∉ s.relay.log 1 ∧ x.2.resultingVersion = y.2.expectedVersion ∧
      x.2.originDeviceId ≠ task.device ∧ y.2.originDeviceId = task.device ∧
      ∃ m, MutationV2.ofLog (logMutation 1 x.2) = some m ∧ blobFromLogMutation m ∈ task.seen := by
  have hrun : (((system sampleEnv).exec sampleSystem carefulRun).any fun s =>
      (s.pushes[3]?).any fun task => ((system sampleEnv).step s (.send 3 12)).any fun s' =>
        decide (∃ y ∈ s'.relay.log 1, y ∉ s.relay.log 1 ∧ ∃ x ∈ s'.relay.log 1,
          x.2.objectId = y.2.objectId ∧ x.2.resultingVersion = y.2.expectedVersion ∧
          x.2.originDeviceId ≠ task.device)) = true := by decide +kernel
  obtain ⟨s, hs, hrun⟩ := (Option.any_eq_true ..).mp hrun
  obtain ⟨task, htask, hrun⟩ := (Option.any_eq_true ..).mp hrun
  obtain ⟨s', hs', hrun⟩ := (Option.any_eq_true ..).mp hrun
  obtain ⟨y, hy, hnew, x, hx, hobj, hver, hpeer⟩ := of_decide_eq_true hrun
  have hreach : (system sampleEnv).Reachable (Careful sampleEnv {x | x ∈ carefulIds}) s :=
    ⟨sampleSystem, sampleSystem_initial, Machine.run_of_exec careful_carefulRun hs⟩
  have hseen := no_lost_update distinctIds_careful hreach htask hs' hy hnew hx hobj hver hpeer
  exact ⟨s, s', task, x, y, hs, htask, hs', hy, hnew, hver, hpeer, hseen⟩

end SentinelPass
