import SentinelPass.Sync.Authenticity
import SentinelPass.Sync.Transport

/-!
# The pull cursor

One device that pulls, page by page, from a relay that anything else may happen
to in between, local writes and push acknowledgements of the device included.
`CursorInv` is what every state of such a run satisfies: the cursor is the
sequence number of a log entry (or 0), every page is a `PageRun` from the database
it found to the one it left, and every log entry at or below the cursor has a
`Disposed` to show for it.

The other half is about one page alone (`pullPage_cases`): it is written as a
whole or not at all, and the error a caller sees means "not at all" with one
exception, the receipt that could not be published after the SQL commit.
-/

namespace SentinelPass

open Lib Relay

/-- A page: the database it found, what became of its entries, and the database it left. -/
structure PulledPage where
  now : Int
  before : LocalDb
  outcomes : Outcomes
  after : LocalDb

/-- The relay, the device's database, and the pages so far. -/
structure PullState where
  relay : RelayState
  db : LocalDb
  history : List PulledPage

/-- What can happen. -/
inductive PullAction
  | relay (a : RelayAction)
  | page (limit : Option UInt32) (now : Int) (guard : Guard)
  | edit (op : LocalOp)
  | acks (mutations : List MutationV2) (results : List MutationResult) (serverCursor : UInt64)
      (now : Int)

/-- The device starts over in another relay vault: `migrate_sync_authoritative`
zeroes the cursor with it, so a run ends there. -/
def PullAction.restarts (device : Uuid) : PullAction → Bool
  | relay (.claim claimant _ _ _) => claimant = device
  | _ => false

/-- One page of `pull_changes`: the request goes out with the stored cursor, and
an empty answer ends the call. -/
def pageStep (E : Env) (device : Uuid) (s : PullState) (limit : Option UInt32) (now : Int)
    (guard : Guard) : Option PullState :=
  match sendPull s.relay device s.db.config.lastPullSequence limit with
  | .error _ => none
  | .ok response =>
    if response.entries = [] then none
    else
      let page := pullPage E device now guard s.db.config.lastPullSequence
        s.db.config.lineageHighWater s.db response
      some { s with db := page.db, history := s.history ++ [⟨now, s.db, page.outcomes, page.db⟩] }

def pullStep (E : Env) (device : Uuid) (s : PullState) (a : PullAction) : Option PullState :=
  if a.restarts device then none
  else
    match a with
    | .relay a => (relayStep s.relay a).map fun r => { s with relay := r }
    | .page limit now guard => pageStep E device s limit now guard
    | .edit op => (op.run E.decodeBase32 s.db).toOption.map fun db => { s with db := db }
    | .acks ms results cursor now =>
      some { s with db := (applyPushAcks s.db ms results cursor now).1 }

/-- A device that has pulled nothing, in front of an empty relay. -/
def pulling (E : Env) (device : Uuid) : Machine PullState PullAction where
  init s := s.relay = .empty ∧ s.db.config.lastPullSequence = 0 ∧ s.history = []
  step := pullStep E device

/-- The outcomes of the page lead from the database it found to the one it left; the
configuration is written last. -/
def PulledPage.Done (E : Env) (p : PulledPage) : Prop :=
  PageRun E p.now p.before p.outcomes (p.after.setConfig p.before.config)

/-- What there is to show for a log entry that the cursor has passed: it
originated here; or a page applied it on its way from the database it found to
the one it left, in one of the ways `ApplyStep` lists (written, kept as a conflict
alternative, outdone by the local version, or skipped as a tombstone of an object
without a row); or it has a dead letter. -/
def Disposed (E : Env) (device vault : Uuid) (s : PullState) (x : Int64 × SyncMutationV2) : Prop :=
  x.2.originDeviceId = device ∨
  (∃ page ∈ s.history, page.Done E ∧ ∃ e effect, EntryOf vault x e ∧
    (e, .applied effect) ∈ page.outcomes ∧ (effect = .skipped → e.mutation.isTombstone = true)) ∨
  (∃ row, s.db.syncDeadLetter.get? x.1 = some row ∧ row.mutationId = x.2.mutationId)

/-- The cursor and what lies at or below it. -/
structure CursorInv (E : Env) (device : Uuid) (s : PullState) : Prop where
  log : LogInv s.relay
  positive : Positive s.relay
  /-- The cursor came from the log of the device's vault. -/
  position : s.db.config.lastPullSequence = 0 ∨ ∃ vault, s.relay.deviceVault device = some vault ∧
    ∃ x ∈ s.relay.log vault, x.1.toInt = s.db.config.lastPullSequence.toNat
  disposed : ∀ vault, s.relay.deviceVault device = some vault → ∀ x ∈ s.relay.log vault,
    x.1.toInt ≤ s.db.config.lastPullSequence.toNat → Disposed E device vault s x

variable {E : Env} {device vault : Uuid} {now : Int} {s s' : PullState}
  {x : Int64 × SyncMutationV2}

theorem Disposed.mono (h : Disposed E device vault s x) (hhist : s.history ⊆ s'.history)
    (hgrow : DeadLettersGrow s.db s'.db) : Disposed E device vault s' x := by
  rcases h with hown | ⟨page, hmem, hpage⟩ | ⟨row, hrow, hid⟩
  · exact .inl hown
  · exact .inr (.inl ⟨page, hhist hmem, hpage⟩)
  exact .inr (.inr ⟨row, hgrow _ _ hrow, hid⟩)

/-! ## The relay moves -/

theorem not_claim {a : RelayAction} (h : (PullAction.relay a).restarts device = false)
    (origin newVault : Uuid) (now : Int) :
    a ≠ .claim device origin newVault now := by
  rintro rfl
  simp [PullAction.restarts] at h

theorem CursorInv.relayStep {r : RelayState} {a : RelayAction} (h : CursorInv E device s)
    (hs : relayStep s.relay a = some r) (hclaim : (PullAction.relay a).restarts device = false) :
    CursorInv E device { s with relay := r } where
  log := h.log.step hs
  positive := h.positive.step hs
  position := by
    refine h.position.imp_right ?_
    rintro ⟨vault, hv, x, hx, hseq⟩
    exact ⟨vault, deviceVault_step hs (not_claim hclaim) hv, x,
      (relayStep_log hs vault).subset hx, hseq⟩
  disposed vault hv x hx hle := by
    rcases h.position with hzero | ⟨vault', hv', y, hy, hseq⟩
    · -- nothing was pulled, and sequence numbers are positive
      have hpos := (h.positive.step hs).log vault x hx
      rw [hzero] at hle
      exact absurd (lt_of_lt_of_le hpos hle) (lt_irrefl _)
    · have hsame := deviceVault_step hs (not_claim hclaim) hv'
      rw [hv, Option.some.injEq] at hsame
      subst hsame
      by_cases hold : x ∈ s.relay.log vault
      · exact (h.disposed vault hv' x hold hle).mono (List.Subset.refl _) fun _ _ hk => hk
      · have hlt := lt_of_isPrefix (fun x : Int64 × SyncMutationV2 => x.1.toInt)
          (relayStep_log hs vault)
          (((h.log.step hs).increasing vault).imp Int64.lt_iff_toInt_lt.mp) hy hx hold
        change x.1.toInt ≤ (s.db.config.lastPullSequence.toNat : Int) at hle
        omega

/-! ## The device moves -/

theorem CursorInv.keepCursor {db : LocalDb} (h : CursorInv E device s)
    (hcursor : db.config.lastPullSequence = s.db.config.lastPullSequence)
    (hletters : db.syncDeadLetter = s.db.syncDeadLetter) :
    CursorInv E device { s with db := db } where
  log := h.log
  positive := h.positive
  position := by
    rw [hcursor]
    exact h.position
  disposed vault hv x hx hle := by
    rw [hcursor] at hle
    refine (h.disposed vault hv x hx hle).mono (List.Subset.refl _) fun k row hk => ?_
    rwa [hletters]

theorem applyPushAcks_keeps (db ms results cursor now) :
    (applyPushAcks db ms results cursor now).1.config.lastPullSequence
        = db.config.lastPullSequence ∧
      (applyPushAcks db ms results cursor now).1.syncDeadLetter = db.syncDeadLetter := by
  have hloop : ∀ db₀ : LocalDb, (results.foldl (ackOne ms now) db₀).config = db₀.config ∧
      (results.foldl (ackOne ms now) db₀).syncDeadLetter = db₀.syncDeadLetter := by
    induction results with
    | nil => exact fun _ => ⟨rfl, rfl⟩
    | cons r rest ih =>
      intro db₀
      have hone : (ackOne ms now db₀ r).config = db₀.config ∧
          (ackOne ms now db₀ r).syncDeadLetter = db₀.syncDeadLetter := by
        unfold ackOne
        split
        · exact ⟨rfl, rfl⟩
        · next m _ =>
          obtain ⟨hl, hc, -, -⟩ := AckEffect.run_frame db₀ m now (ackEffect m r.outcome)
          exact ⟨hc, hl⟩
      rw [List.foldl_cons, (ih _).1, (ih _).2]
      exact hone
  refine ⟨?_, (hloop db).2⟩
  change (results.foldl (ackOne ms now) db).config.lastPullSequence = _
  rw [(hloop db).1]

/-- Versions in the log are positive, so only a tombstone is skipped. -/
theorem tombstone_of_skipped {e : MutationLogEntry} {before after : LocalDb}
    (hlog : LogInv s.relay) (hx : x ∈ s.relay.log vault) (hentry : EntryOf vault x e)
    (h : ApplyStep E now before e.blob .skipped after) : e.mutation.isTombstone = true := by
  have hpos : 0 < x.2.resultingVersion.toUInt64.toNat :=
    (hlog.chain vault x.2.objectId).base_lt
      (List.mem_map_of_mem (RelayState.mem_objectLog.mpr ⟨hx, rfl⟩))
  obtain ⟨-, -, -, hversion⟩ := ofLog_fields hentry.mutation
  cases h with
  | skipped _ hskip =>
    refine hskip.resolve_right fun hzero => ?_
    have hzero' : x.2.resultingVersion.toUInt64 = 0 := hversion.symm.trans hzero
    rw [hzero'] at hpos
    exact absurd hpos (Nat.lt_irrefl 0)

/-- An entry that a page of the run settled. -/
theorem Settled.disposed {localEpoch : Int64} {e : MutationLogEntry} {d : Disposition}
    {page : PulledPage} (h : Settled E device localEpoch now s.db e d) (hlog : LogInv s.relay)
    (hx : x ∈ s.relay.log vault) (hentry : EntryOf vault x e) (hpage : page ∈ s.history)
    (hdone : page.Done E) (hmem : (e, d) ∈ page.outcomes) : Disposed E device vault s x := by
  obtain ⟨horigin, hid, -, -⟩ := ofLog_fields hentry.mutation
  cases d with
  | own => exact .inl (horigin.symm.trans h)
  | applied effect =>
    obtain ⟨-, before, after, happ⟩ := h
    refine .inr (.inl ⟨page, hpage, hdone, e, effect, hentry, hmem, ?_⟩)
    rintro rfl
    exact tombstone_of_skipped hlog hx hentry happ
  | deadLettered reason =>
    have hrow : s.db.syncDeadLetter.get? x.1 = some (deadLetterRow e reason now) := by
      rw [← hentry.sequence]
      exact h
    exact .inr (.inr ⟨_, hrow, hid⟩)

theorem CursorInv.page {response : PullResponseV2} {tx : PageTx} (h : CursorInv E device s)
    (hv : s.relay.deviceVault device = some vault)
    (hpage : PageOf s.relay vault s.db.config.lastPullSequence response)
    (hne : response.entries ≠ []) (hbody : pageBody E device now s.db response = .ok tx) :
    CursorInv E device
      { s with db := tx.db, history := s.history ++ [⟨now, s.db, tx.outcomes, tx.db⟩] } := by
  obtain ⟨tx₀, hpasses, -, rfl⟩ := pageBody_ok hbody
  have hinv := pagePasses_inv hpasses
  have hdone : PulledPage.Done E ⟨now, s.db, tx₀.outcomes,
      tx₀.db.setConfig (pageConfig tx₀.db.config response).stored⟩ := by
    have hsame : tx₀.db.setConfig s.db.config = tx₀.db := by
      rw [← hinv.config]
      rfl
    have hrun := pagePasses_run hpasses
    rwa [← hsame] at hrun
  refine ⟨h.log, h.positive, .inr ⟨vault, hv, hpage.last hne⟩, ?_⟩
  intro vault' hv' x hx hle
  rw [hv, Option.some.injEq] at hv'
  subst hv'
  by_cases hold : x.1.toInt ≤ s.db.config.lastPullSequence.toNat
  · exact (h.disposed vault hv x hx hold).mono (List.subset_append_left ..) hinv.letters
  · obtain ⟨e, he, hentry⟩ := hpage.complete x hx (by omega) hle
    obtain ⟨d, hd⟩ := pagePasses_covers hpasses e he
    obtain ⟨-, hsettled⟩ := hinv.settled _ hd
    exact Settled.disposed hsettled h.log hx hentry (List.mem_concat_self ..) hdone hd

theorem CursorInv.pageStep {limit guard} (h : CursorInv E device s)
    (hs : pageStep E device s limit now guard = some s') : CursorInv E device s' := by
  unfold SentinelPass.pageStep at hs
  split at hs
  · cases hs
  rename_i response hresp
  obtain ⟨vault, hv, hpage⟩ := sendPull_spec h.log hresp
  split at hs
  · cases hs
  rename_i hne
  cases hs
  rcases pullPage_cases E device now guard s.db.config.lastPullSequence
    s.db.config.lineageHighWater s.db response with ⟨e, hfail⟩ | ⟨tx, -, hbody, hdone⟩
  · rw [hfail]
    refine ⟨h.log, h.positive, h.position, fun vault hv x hx hle => ?_⟩
    exact (h.disposed vault hv x hx hle).mono (List.subset_append_left ..) fun _ _ hk => hk
  · have hwritten := h.page hv hpage hne hbody
    rcases hdone with ⟨-, hdone⟩ | ⟨-, hdone⟩ <;> rw [hdone] <;> exact hwritten

theorem CursorInv.step {a} (h : CursorInv E device s) (hs : (pulling E device).step s a = some s') :
    CursorInv E device s' := by
  change pullStep E device s a = some s' at hs
  unfold pullStep at hs
  split at hs
  · cases hs
  rename_i hrestart
  rw [Bool.not_eq_true] at hrestart
  cases a with
  | relay a =>
    obtain ⟨r, hr, rfl⟩ := Option.map_eq_some_iff.mp hs
    exact h.relayStep hr hrestart
  | page limit now guard => exact h.pageStep hs
  | edit op =>
    obtain ⟨db, hdb, rfl⟩ := Option.map_eq_some_iff.mp hs
    obtain ⟨-, hletters, hconfig, -⟩ := (LocalOp.run_step (toOption_eq_some.mp hdb)).frame
    exact h.keepCursor (by rw [hconfig]) hletters
  | acks ms results cursor now =>
    cases hs
    obtain ⟨hcursor, hletters⟩ := applyPushAcks_keeps s.db ms results cursor now
    exact h.keepCursor hcursor hletters

theorem cursorInv_of_reachable (h : (pulling E device).Reachable (fun _ _ => True) s) :
    CursorInv E device s := by
  refine h.invariant ?_ fun hx _ hs => hx.step hs
  rintro s ⟨hrelay, hcursor, -⟩
  refine ⟨hrelay ▸ logInv_empty, hrelay ▸ positive_empty, .inl hcursor, ?_⟩
  intro vault _ x hx
  rw [hrelay] at hx
  cases hx

/-- **The pull cursor passes disposed entries only**, and a page that fails is no
page, unless it failed on the receipt of a commit that had gone through: then it
is the page that success would have written. -/
theorem pull_cursor_disposed {E : Env} {device : Uuid} {s : PullState}
    (h : (pulling E device).Reachable (fun _ _ => True) s) :
    (∀ vault, s.relay.deviceVault device = some vault → ∀ x ∈ s.relay.log vault,
      x.1.toInt ≤ s.db.config.lastPullSequence.toNat → Disposed E device vault s x) ∧
    ∀ now guard cursor highWater response err,
      (pullPage E device now guard cursor highWater s.db response).result = .error err →
      (pullPage E device now guard cursor highWater s.db response).db = s.db ∨
      (guard = .receiptLost ∧ ∃ high,
        pullPage E device now .committed cursor highWater s.db response =
          ⟨(pullPage E device now guard cursor highWater s.db response).db,
            (pullPage E device now guard cursor highWater s.db response).outcomes, .ok high⟩) := by
  refine ⟨(cursorInv_of_reachable h).disposed, ?_⟩
  intro now guard cursor highWater response err herr
  rcases pullPage_cases E device now guard cursor highWater s.db response with
    ⟨e, hfail⟩ | ⟨tx, hcheck, hbody, ⟨-, hdone⟩ | ⟨hguard, hdone⟩⟩
  · rw [hfail]
    exact .inl rfl
  · rw [hdone] at herr
    cases herr
  · refine .inr ⟨hguard, (pageConfig s.db.config response).lineageHighWater, ?_⟩
    rw [hdone]
    unfold pullPage
    rw [hcheck, hbody]

/-- Registrations of devices 2 and 3, a push by device 2, and a page of device 3. -/
def samplePullRun : List PullAction :=
  [.relay (sampleRegister 2), .relay (sampleRegister 3),
    .relay (.push 2 (pushRequest 1 [samplePeerEntry.mutation]) 5),
    .page none 6 .committed]

theorem pull_cursor_disposed_samplePullRun :
    ∃ s, (pulling sampleEnv 3).exec ⟨.empty, .fresh (some 1) 1, []⟩ samplePullRun = some s ∧
      s.db.config.lastPullSequence = 1 ∧ (s.relay.log 1).length = 1 ∧
      ∀ x ∈ s.relay.log 1, x.1.toInt ≤ s.db.config.lastPullSequence.toNat →
        Disposed sampleEnv 3 1 s x := by
  have hend : (((pulling sampleEnv 3).exec ⟨.empty, .fresh (some 1) 1, []⟩ samplePullRun).map
      fun s => (s.db.config.lastPullSequence, (s.relay.log 1).length, s.relay.deviceVault 3))
      = some (1, 1, some 1) := by decide +kernel
  obtain ⟨s, hs, heq⟩ := Option.map_eq_some_iff.mp hend
  obtain ⟨hcursor, hlen, hvault⟩ : _ ∧ _ ∧ _ := by simpa only [Prod.mk.injEq] using heq
  have hreach : (pulling sampleEnv 3).Reachable (fun _ _ => True) s :=
    ⟨_, ⟨rfl, rfl, rfl⟩, Machine.run_of_exec (Machine.allowed_true _ _) hs⟩
  exact ⟨s, hs, hcursor, hlen, (pull_cursor_disposed hreach).1 1 hvault⟩

/-- A tombstone of an object that the device has no row of. -/
def unknownTombstone : PullResponseV2 :=
  ⟨[⟨1, buildMutation sampleCrypto [7] ⟨1, 8, .credential, 1, 2, 1, 2, true, [0]⟩⟩], 1, false⟩

/-- The receipt of a committed page is lost: the caller sees an error, and the
row, the cursor and the high-water are the page's. A page with a tombstone of an
unknown object moves the cursor past it and leaves no row, no conflict and no dead
letter. -/
theorem page_error_after_commit :
    (pullPage sampleEnv 3 0 .receiptLost 0 0 (.fresh (some 1) 1) samplePeerTurn.response).result
        = .error (.io "receipt not published") ∧
    (pullPage sampleEnv 3 0 .receiptLost 0 0 (.fresh (some 1) 1)
        samplePeerTurn.response).db.config
        = { vaultId := some 1, lastPushSequence := 0, lastPullSequence := 1,
            lineageHighWater := 1 } ∧
    ((pullPage sampleEnv 3 0 .receiptLost 0 0 (.fresh (some 1) 1)
        samplePeerTurn.response).db.row .credential 7).isSome ∧
    (let page := pullPage sampleEnv 3 0 .committed 0 0 (.fresh (some 1) 1) unknownTombstone
     page.outcomes.map Prod.snd = [.applied .skipped] ∧ page.db.config.lastPullSequence = 1 ∧
      page.db.row .credential 8 = none ∧ page.db.syncConflicts.rows = [] ∧
      page.db.syncDeadLetter.rows = []) := by
  decide +kernel

end SentinelPass
