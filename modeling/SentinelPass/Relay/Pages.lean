import SentinelPass.Lib.Paging
import SentinelPass.Relay.Results

/-!
# The log as a reader sees it

Between two pulls the log of a vault grows at its end (`relayStep_log`), its
sequence numbers are positive (`Positive`), a device stays in its vault
(`deviceVault_step`), and a page answers with everything from the reader's
position up to the cursor it returns (`pullV2_page`).

`Walk` is the reader that calls `pull_v2` until there is no more: `paged_pull_exact` says
that it gets the log above its first position as it stands at the last call.
-/

namespace SentinelPass.Relay

open Lib List Option RelayState PushTx

/-! ## Growth -/

variable {a : RelayAction} {device vault : Uuid} {now : Int} {s s' : RelayState} {tx tx' : PushTx}

theorem PushStep.log_isPrefix {m} (h : PushStep vault device now m tx tx') (v) :
    tx.relay.log v <+: tx'.relay.log v := by
  rcases h.log with hsame | ⟨seq, payload, -, -, -, happ⟩
  · rw [hsame]
  · rw [happ]
    split
    · exact prefix_append _ _
    · exact prefix_rfl

theorem pushV2_log {req resp} (h : pushV2 s device req now = .ok (s', resp)) (v) :
    s.log v <+: s'.log v := by
  obtain ⟨vault, tx, -, -, hloop, rfl, -, -⟩ := pushV2_ok h
  have hend : (finishPush tx vault device req.deviceSequence now).log v = tx.relay.log v := by
    unfold log
    rw [(finishPush_tables tx vault device req.deviceSequence now).1]
  rw [hend]
  refine foldlM_ok_invariant (P := fun tx => s.log v <+: tx.relay.log v) hloop prefix_rfl ?_
  intro x y m _ hx hone
  obtain ⟨-, -, -, hstep⟩ := pushOne_step hone
  exact hx.trans (hstep.log_isPrefix v)

theorem relayStep_log (h : relayStep s a = some s') (v : Uuid) : s.log v <+: s'.log v := by
  cases a with
  | register req paired now =>
    obtain ⟨row, -, rfl⟩ := registerDevice_ok (toOption_eq_some.mp h)
    exact prefix_rfl
  | push device req now =>
    obtain ⟨resp, hp⟩ := relayStep_push h
    exact pushV2_log hp v
  | cleanup ttl cap now =>
    cases h
    exact prefix_rfl
  | claim device origin newVault now =>
    obtain ⟨vaults, counters, -, -, rfl⟩ := migrationClaim_ok (toOption_eq_some.mp h)
    exact prefix_rfl

theorem deviceVault_step (h : relayStep s a = some s')
    (hclaim : ∀ origin newVault now, a ≠ .claim device origin newVault now)
    (hv : s.deviceVault device = some vault) : s'.deviceVault device = some vault := by
  unfold deviceVault at hv ⊢
  obtain ⟨row, hrow, rfl⟩ := map_eq_some_iff.mp hv
  cases a with
  | register req paired now =>
    obtain ⟨new, -, rfl⟩ := registerDevice_ok (toOption_eq_some.mp h)
    rw [Table.get?_upsert]
    split
    · next hd =>
      subst hd
      rw [hrow]
      rfl
    · rw [hrow]
      rfl
  | push pusher req now =>
    obtain ⟨resp, hp⟩ := relayStep_push h
    rw [(pushV2_frame hp).1, hrow]
    rfl
  | cleanup ttl cap now =>
    cases h
    change (s.devices.get? device).map _ = _
    rw [hrow]
    rfl
  | claim claimant origin newVault now =>
    obtain ⟨vaults, counters, -, -, rfl⟩ := migrationClaim_ok (toOption_eq_some.mp h)
    have hne : device ≠ claimant := fun he => hclaim origin newVault now (by rw [he])
    rw [Table.get?_update, if_neg hne, hrow]
    rfl

/-! ## Positive sequence numbers -/

/-- Counters start at 0 and are counted up before they are used. -/
structure Positive (s : RelayState) : Prop where
  counters : ∀ v c, s.sequenceCounters.get? v = some c → 0 ≤ c.toInt
  log : ∀ v x, x ∈ s.log v → 0 < x.1.toInt

theorem positive_empty : Positive empty where
  counters _ _ h := by cases h
  log _ _ h := by cases h

theorem Positive.congr (h : Positive s) (hlog : s'.syncMutationsV2 = s.syncMutationsV2)
    (hctr : ∀ v c, s'.sequenceCounters.get? v = some c →
      s.sequenceCounters.get? v = some c ∨ c = 0) : Positive s' where
  counters v c hc := by
    rcases hctr v c hc with hold | rfl
    · exact h.counters v c hold
    · exact Int.le_refl 0
  log v x hx := by
    unfold RelayState.log at hx
    rw [hlog] at hx
    exact h.log v x hx

theorem Positive.pushStep {m} (h : Positive tx.relay)
    (hstep : PushStep vault device now m tx tx') : Positive tx'.relay := by
  cases hstep with
  | replay _ => exact h
  | stale _ _ => exact h.congr rfl fun _ _ hc => .inl hc
  | conflict _ _ _ _ =>
    rw [conclude_relay, advance_relay]
    exact h.congr rfl fun _ _ hc => .inl hc
  | @apply c payload log' _ _ _ _ hc hmax _ hlog =>
    have hpos := h.counters vault c hc
    have hnext := toInt_add_one_of_ne hmax
    unfold applied
    rw [conclude_relay, advance_relay]
    constructor
    · intro v c' hc'
      change (tx.relay.sequenceCounters.update vault (· + 1)).get? v = some c' at hc'
      rw [Table.get?_update] at hc'
      split at hc'
      · rw [hc] at hc'
        cases hc'
        change 0 ≤ (c + 1).toInt
        omega
      · exact h.counters v c' hc'
    · intro v x hx
      change x ∈ (tx.relay.appended vault log' m (entryRow m payload (c + 1) now)).log v at hx
      rw [log_appended hlog] at hx
      split at hx
      · rcases mem_append.mp hx with hx | hx
        · exact h.log v x hx
        · rw [mem_singleton] at hx
          rw [hx]
          change 0 < (c + 1).toInt
          omega
      · exact h.log v x hx

theorem Positive.step (h : Positive s) (hs : relayStep s a = some s') : Positive s' := by
  cases a with
  | register req paired now =>
    obtain ⟨row, -, rfl⟩ := registerDevice_ok (toOption_eq_some.mp hs)
    refine h.congr rfl fun v c hc => ?_
    rw [Table.get?_insertIgnore] at hc
    split at hc
    · next hv =>
      subst hv
      cases hold : s.sequenceCounters.get? req.vaultId with
      | none => rw [hold] at hc; exact .inr (some.inj hc).symm
      | some c' => rw [hold] at hc; exact .inl hc
    · exact .inl hc
  | push device req now =>
    obtain ⟨resp, hp⟩ := relayStep_push hs
    obtain ⟨vault, tx, -, -, hloop, rfl, -, -⟩ := pushV2_ok hp
    have htx : Positive tx.relay := by
      refine foldlM_ok_invariant (P := fun tx => Positive tx.relay) hloop h ?_
      intro x y m _ hx hone
      obtain ⟨-, -, -, hstep⟩ := pushOne_step hone
      exact hx.pushStep hstep
    obtain ⟨hlog, -, hctr, -, -⟩ := finishPush_tables tx vault device req.deviceSequence now
    exact htx.congr hlog fun v c hc => .inl (by rwa [hctr] at hc)
  | cleanup ttl cap now =>
    cases hs
    exact h.congr rfl fun _ _ hc => .inl hc
  | claim device origin newVault now =>
    obtain ⟨vaults, counters, -, hins, rfl⟩ := migrationClaim_ok (toOption_eq_some.mp hs)
    obtain ⟨-, -, hget⟩ := Table.insert?_eq_some hins
    refine h.congr rfl fun v c hc => ?_
    rw [hget] at hc
    split at hc
    · exact .inr (some.inj hc).symm
    exact .inl hc

/-! ## A page -/

/-- The rows of the log above a sequence number. -/
def rowsAbove (s : RelayState) (vault : Uuid) (since : Int64) : List (Int64 × SyncMutationV2) :=
  (s.log vault).filter fun x => since.toInt < x.1.toInt

def pageRows (s : RelayState) (vault : Uuid) (since : Int64) (limit : Option UInt32) :
    List (Int64 × SyncMutationV2) :=
  page (fun x : Int64 × SyncMutationV2 => x.1.toInt) since.toInt (pageLimit limit) (s.log vault)

/-- **What a pull answers**: the rows of a page, the last of them as the cursor, and
whether there are rows above it. -/
theorem pullV2_page (hinv : LogInv s) {since : Int64} {limit : Option UInt32}
    {resp : PullResponseV2} (h : pullV2 s device ⟨since, limit⟩ = .ok resp) :
    ∃ vault, s.deviceVault device = some vault ∧
      resp.entries = (pageRows s vault since limit).map (fun x => ⟨x.1, logMutation vault x.2⟩) ∧
      resp.cursor = (((pageRows s vault since limit).getLast?).map (·.1)).getD since ∧
      (resp.hasMore ↔ pageLimit limit < (rowsAbove s vault since).length) := by
  unfold pullV2 at h
  split at h
  · cases h
  rename_i vault hvault
  have hfilter : ((s.log vault).filter fun e => since < e.1)
      = (s.log vault).filter fun x => since.toInt < x.1.toInt := by
    refine filter_congr fun x _ => ?_
    rw [decide_eq_decide, Int64.lt_iff_toInt_lt]
  have hsorted : ((s.log vault).filter fun x => since.toInt < x.1.toInt).Pairwise
      fun a b => a.1 ≤ b.1 := by
    refine ((hinv.increasing vault).imp fun hlt => ?_).filter _
    exact Int64.le_of_lt hlt
  cases h
  refine ⟨vault, hvault, ?_, ?_, ?_⟩
  · dsimp only
    rw [hfilter, hsorted.insertionSort_eq]
    rfl
  · dsimp only
    rw [hfilter, hsorted.insertionSort_eq, List.getLast?_map, Option.map_map]
    rfl
  · dsimp only
    rw [hfilter, hsorted.insertionSort_eq, decide_eq_true_iff]
    rfl

/-! ## A walk over the log -/

/-- The reader does not move to another vault. -/
def Stays (device : Uuid) (_ : RelayState) (a : RelayAction) : Prop :=
  ∀ origin newVault now, a ≠ .claim device origin newVault now

/-- Calls of `pull_v2`, each from the cursor that the one before returned, until there is no
more; the relay goes on between two calls. The walk ends in the state of its last call. -/
inductive Walk (device : Uuid) : RelayState → Int64 → List (Option UInt32) →
    List MutationLogEntry → RelayState → Int64 → Prop
  | last {s : RelayState} {since : Int64} {limit : Option UInt32} {resp : PullResponseV2} :
      pullV2 s device ⟨since, limit⟩ = .ok resp → resp.hasMore = false →
      Walk device s since [limit] resp.entries s resp.cursor
  | more {s s' t : RelayState} {since c : Int64} {limit : Option UInt32}
      {limits : List (Option UInt32)} {resp : PullResponseV2} {es : List MutationLogEntry} :
      pullV2 s device ⟨since, limit⟩ = .ok resp → resp.hasMore = true →
      relay.Run (Stays device) s s' → Walk device s' resp.cursor limits es t c →
      Walk device s since (limit :: limits) (resp.entries ++ es) t c

variable {since c : Int64} {limits : List (Option UInt32)} {es : List MutationLogEntry}
  {t : RelayState}

theorem log_of_run {ok} (h : relay.Run ok s t) (v) : s.log v <+: t.log v :=
  h.invariant (P := fun x => s.log v <+: x.log v) prefix_rfl
    fun hx _ hs => hx.trans (relayStep_log hs v)

/-- A page with more to come ends in a row, and is followed by what lies above it. -/
theorem page_of_more (hinv : LogInv t) (hgrow : s.log vault <+: t.log vault) {limit : Option UInt32}
    (hmore : pageLimit limit < (rowsAbove s vault since).length) :
    ∃ row ∈ s.log vault, (pageRows s vault since limit).getLast? = some row ∧
      pageRows s vault since limit ++ rowsAbove t vault row.1 = rowsAbove t vault since ∧
      (rowsAbove s vault row.1).length < (rowsAbove s vault since).length := by
  have hpos : 0 < pageLimit limit := Nat.lt_of_lt_of_le Nat.one_pos (Nat.le_max_left ..)
  have hsorted : (t.log vault).Pairwise fun a b => a.1.toInt < b.1.toInt :=
    (hinv.increasing vault).imp Int64.lt_iff_toInt_lt.mp
  cases hlast : (pageRows s vault since limit).getLast? with
  | none =>
    have hlen : (pageRows s vault since limit).length = 0 := by
      rw [getLast?_eq_none_iff.mp hlast]
      rfl
    rw [pageRows, page, length_take] at hlen
    unfold rowsAbove at hmore
    omega
  | some row =>
    refine ⟨row, (mem_page (mem_of_getLast? hlast)).1, rfl,
      page_append_above hgrow hsorted hmore.le hlast, ?_⟩
    unfold rowsAbove at hmore ⊢
    rw [filter_above_page (hsorted.sublist hgrow.sublist) hlast, length_drop]
    omega

theorem Walk.exact (h : Walk device s since limits es t c) (hinv : LogInv s)
    (hv : s.deviceVault device = some vault) :
    LogInv t ∧ s.log vault <+: t.log vault ∧
      es = (rowsAbove t vault since).map (fun x => ⟨x.1, logMutation vault x.2⟩) ∧
      (c = since ∨ ∃ row ∈ t.log vault, row.1 = c) := by
  induction h with
  | @last s since limit resp hpull hlast =>
    obtain ⟨w, hw, hentries, hcursor, hmore⟩ := pullV2_page hinv hpull
    cases hv.symm.trans hw
    rw [hlast] at hmore
    have hall : pageRows s vault since limit = rowsAbove s vault since :=
      take_of_length_le (Nat.le_of_not_lt fun hlt => Bool.false_ne_true (hmore.mpr hlt))
    refine ⟨hinv, prefix_rfl, hall ▸ hentries, ?_⟩
    rw [hcursor]
    cases hl : (pageRows s vault since limit).getLast? with
    | none => exact .inl rfl
    | some row => exact .inr ⟨row, (mem_page (mem_of_getLast? hl)).1, rfl⟩
  | @more s s' t since c limit limits resp es hpull hsome hrun _ ih =>
    obtain ⟨w, hw, hentries, hcursor, hmore⟩ := pullV2_page hinv hpull
    cases hv.symm.trans hw
    have hv' : s'.deviceVault device = some vault :=
      hrun.invariant hv
        fun hx hok hs => deviceVault_step hs hok hx
    obtain ⟨hinvt, hgrow, hes, hc⟩ := ih (hrun.invariant hinv fun hx _ hs => hx.step hs) hv'
    have hgrow' := (log_of_run hrun vault).trans hgrow
    obtain ⟨row, hrow, hlast, hpage, -⟩ := page_of_more hinvt hgrow' (hmore.mp hsome)
    rw [hlast] at hcursor
    refine ⟨hinvt, hgrow', ?_, ?_⟩
    · rw [hes, hentries, hcursor, ← hpage, map_append]
      rfl
    · exact .inr (hc.elim (fun h => ⟨row, hgrow'.subset hrow, (h.trans hcursor).symm⟩) id)

/-- A reader that asks again while there is more comes to an end, whatever its limits. -/
theorem exists_walk (hinv : LogInv s) (hv : s.deviceVault device = some vault) (since : Int64)
    (limits : Nat → Option UInt32) :
    ∃ n es c, Walk device s since ((range n).map limits) es s c := by
  -- each page with more to come leaves fewer rows above the cursor
  induction hn : (rowsAbove s vault since).length using Nat.strong_induction_on
    generalizing since limits with
  | _ n ih =>
    obtain ⟨resp, hpull⟩ : ∃ resp, pullV2 s device ⟨since, limits 0⟩ = .ok resp := by
      unfold pullV2
      rw [hv]
      exact ⟨_, rfl⟩
    cases hmore : resp.hasMore with
    | false => exact ⟨1, _, _, .last hpull hmore⟩
    | true =>
      obtain ⟨w, hw, -, hcursor, hiff⟩ := pullV2_page hinv hpull
      cases hv.symm.trans hw
      obtain ⟨row, -, hlast, -, hfewer⟩ := page_of_more hinv prefix_rfl (hiff.mp hmore)
      rw [hlast] at hcursor
      obtain ⟨m, es, c, hwalk⟩ := ih _ (hn ▸ hfewer) row.1 (fun i => limits (i + 1)) rfl
      have hrange : (range (m + 1)).map limits
          = limits 0 :: (range m).map fun i => limits (i + 1) := by
        rw [List.range_succ_eq_map, List.map_cons, List.map_map]
        rfl
      refine ⟨m + 1, resp.entries ++ es, c, ?_⟩
      rw [hrange]
      refine .more hpull hmore .refl ?_
      rw [hcursor]
      exact hwalk

/-- **Paged pull is exact.** A walk returns the log above its start as it stands at the last
call, each entry once and in the order of the sequence numbers; what is appended later lies
above the cursor that it ends with; and a walk during which nothing is appended ends. -/
theorem paged_pull_exact (hinv : LogInv s) (hv : s.deviceVault device = some vault)
    (since : Int64) :
    (∀ limits es t c, Walk device s since limits es t c → s.log vault <+: t.log vault ∧
      es = (rowsAbove t vault since).map (fun x => ⟨x.1, logMutation vault x.2⟩) ∧
      (es.Pairwise fun a b => a.serverSequence < b.serverSequence) ∧
      ∀ u, relay.Run (fun _ _ => True) t u → ∀ x ∈ u.log vault, since < x.1 →
        ⟨x.1, logMutation vault x.2⟩ ∈ es ∨ c < x.1) ∧
    ∀ limits : Nat → Option UInt32, ∃ n es c,
      Walk device s since ((range n).map limits) es s c := by
  refine ⟨fun limits es t c hwalk => ?_, exists_walk hinv hv since⟩
  obtain ⟨hinvt, hgrow, hes, hc⟩ := hwalk.exact hinv hv
  refine ⟨hgrow, hes, ?_, fun u hrun x hx hsince => ?_⟩
  · rw [hes]
    exact ((hinvt.increasing vault).filter _).map _ fun _ _ hlt => hlt
  · by_cases hold : x ∈ t.log vault
    · left
      rw [hes]
      exact mem_map_of_mem (mem_filter.mpr
        ⟨hold, decide_eq_true (Int64.lt_iff_toInt_lt.mp hsince)⟩)
    · right
      rcases hc with rfl | ⟨row, hrow, rfl⟩
      · exact hsince
      · have hinvu := hrun.invariant hinvt fun hy _ hs => hy.step hs
        exact Int64.lt_iff_toInt_lt.mpr (lt_of_isPrefix (fun y => y.1.toInt)
          (log_of_run hrun vault)
          ((hinvu.increasing vault).imp Int64.lt_iff_toInt_lt.mp) hrow hx hold)

theorem paged_pull_exact_sampleRun : ∃ s, relay.exec RelayState.empty sampleRun = some s ∧
      ∃ n es c, Walk 2 s 0 ((range n).map fun _ => some 1) es s c ∧ es.length = 2 := by
  have hstate : ((relay.exec empty sampleRun).map fun s =>
      (s.deviceVault 2, (rowsAbove s 1 0).length)) = some (some 1, 2) := by decide +kernel
  obtain ⟨s, hs, hrows⟩ := map_eq_some_iff.mp hstate
  obtain ⟨hv, hlen⟩ := Prod.mk.inj hrows
  have hinv : LogInv s :=
    logInv_of_reachable ⟨_, rfl, Machine.run_of_exec (Machine.allowed_true _ _) hs⟩
  obtain ⟨n, es, c, hwalk⟩ := (paged_pull_exact hinv hv 0).2 fun _ => some 1
  refine ⟨s, hs, n, es, c, hwalk, ?_⟩
  rw [((paged_pull_exact hinv hv 0).1 _ _ _ _ hwalk).2.1, length_map, hlen]

end SentinelPass.Relay
