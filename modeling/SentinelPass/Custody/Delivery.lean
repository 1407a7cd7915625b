import SentinelPass.Custody.Session

/-!
# Deliveries are exact and single-use

`SessionInv` is what every critical section keeps: at most `MAX_LIVE_LEASES` leases, and a
receiver that is linked to a lease is linked to one that is live, started and for its own
scope and reference. `WorldInv` adds what the calls and workers between two locks know.

Most steps only take leases and receivers away (`Shrinks`); what the invariants say about
the ones that are left stays true. The steps that add something are `began`, `acquired`,
`started` and `delivered` below.
-/

namespace SentinelPass.Custody

open Lib List Option World Table SessionState

variable {κ : Type}

/-! ## Critical sections -/

/-- The session invariant. -/
structure SessionInv (s : SessionState κ) : Prop where
  capacity : s.leases.rows.length ≤ maxLiveLeases
  linked : ∀ {rid r l}, s.receivers.get? rid = some r →
    r.lease = some l → ∃ e, s.leases.get? l = some e ∧ e.started = true ∧ e.scope = r.scope ∧
      e.reference = r.reference
  unlinked : ∀ {rid r}, s.receivers.get? rid = some r →
    r.lease = none → r.value = none

/-- Nothing is added and nothing that is left is changed. -/
structure Shrinks (s t : SessionState κ) : Prop where
  leases : ∀ {l e}, t.leases.get? l = some e → s.leases.get? l = some e
  receivers : ∀ {rid r}, t.receivers.get? rid = some r →
    s.receivers.get? rid = some r

section Session

variable {s t : SessionState κ} {id l rid : Id} {now later : Instant}

theorem shrinks_close (s : SessionState κ) (id : Id) : Shrinks s (s.close id) where
  leases h := (of_get?_erase h).2
  receivers h := (of_get?_filter h).1

theorem shrinks_reap (s : SessionState κ) (now : Instant) : Shrinks s (s.reap now) where
  leases h := (of_get?_filter h).1
  receivers h := (of_get?_filter h).1

theorem SessionInv.shrink (h : SessionInv s) (hst : Shrinks s t)
    (hlength : t.leases.rows.length ≤ s.leases.rows.length)
    (hlive : ∀ {rid r l}, t.receivers.get? rid = some r →
      r.lease = some l → (t.leases.get? l).isSome) : SessionInv t where
  capacity := hlength.trans h.capacity
  linked hr hl := by
    obtain ⟨e, he, hrest⟩ := h.linked (hst.receivers hr) hl
    obtain ⟨e', he'⟩ := isSome_iff_exists.mp (hlive hr hl)
    have hsame := hst.leases he'
    rw [he, some.injEq] at hsame
    subst hsame
    exact ⟨e, he', hrest⟩
  unlinked hr := h.unlinked (hst.receivers hr)

theorem SessionInv.close (h : SessionInv s) (id : Id) : SessionInv (s.close id) := by
  refine h.shrink (shrinks_close s id) (length_filter_le ..) fun {rid r l} hr hl => ?_
  obtain ⟨hold, hne⟩ := of_get?_filter hr
  obtain ⟨e, he, -⟩ := h.linked hold hl
  have hli : l ≠ id := by
    rintro rfl
    simp [hl] at hne
  simp [SessionState.close, hli, he]

theorem SessionInv.reap (h : SessionInv s) (now : Instant) : SessionInv (s.reap now) := by
  refine h.shrink (shrinks_reap s now) (length_filter_le ..) fun {rid r l} hr hl => ?_
  obtain ⟨-, hlive⟩ := of_get?_filter hr
  rw [hl] at hlive
  simpa [SessionState.reap] using hlive

theorem sessionInv_invalidate (s : SessionState κ) : SessionInv s.invalidate where
  capacity := Nat.zero_le _
  linked h := by cases h
  unlinked h := by cases h

theorem shrinks_invalidate (s : SessionState κ) : Shrinks s s.invalidate where
  leases h := by cases h
  receivers h := by cases h

theorem shrinks_dropReceiver (s : SessionState κ) (rid : Id) :
    Shrinks s { s with receivers := s.receivers.erase rid } where
  leases h := h
  receivers h := (of_get?_erase h).2

theorem SessionInv.dropReceiver (h : SessionInv s) (rid : Id) :
    SessionInv { s with receivers := s.receivers.erase rid } := by
  refine h.shrink (shrinks_dropReceiver s rid) le_rfl fun hr hl => ?_
  obtain ⟨e, he, -⟩ := h.linked ((shrinks_dropReceiver s rid).receivers hr) hl
  exact isSome_iff_exists.mpr ⟨e, he⟩

variable {cancelled : Bool} {e : CustodyError} {reference : ObjectRef} {scope : CustodyScope}
  {started : Instant}

theorem grant_ok (h : s.grant scope reference = .ok t) :
    t.leases = s.leases ∧ t.receivers = s.receivers := by
  unfold SessionState.grant at h
  split at h
  · cases h
  split at h
  · split at h
    · cases h
    · cases h
      exact ⟨rfl, rfl⟩
  · split at h
    · cases h
    · cases h
      exact ⟨rfl, rfl⟩

theorem register_error (h : s.register scope reference rid now = (t, .error e)) :
    t = s ∨ t = s.reap now := by
  unfold SessionState.register at h
  split at h
  · cases h
    exact .inl rfl
  dsimp only at h
  split at h
  · cases h
    exact .inr rfl
  split at h
  · cases h
    exact .inr rfl
  · cases h

theorem register_ok {u : Unit} (h : s.register scope reference rid now = (t, .ok u)) :
    t.leases = (s.reap now).leases ∧ ∀ k, t.receivers.get? k =
      if k = rid then some ⟨scope, reference, none, none⟩ else (s.reap now).receivers.get? k := by
  unfold SessionState.register at h
  split at h
  · cases h
  dsimp only at h
  split at h
  · cases h
  split at h
  · cases h
  rename_i receivers hins
  cases h
  exact ⟨rfl, (insert?_eq_some hins).2.2⟩

theorem finishAcquire_error
    (h : s.finishAcquire scope reference started cancelled id now later = (t, .error e)) :
    t = s ∨ t = s.reap now := by
  unfold finishAcquire at h
  split at h
  · cases h
    exact .inl rfl
  dsimp only at h
  split at h
  · cases h
    exact .inr rfl
  split at h
  · cases h
    exact .inr rfl
  split at h
  · cases h
    exact .inr rfl
  split at h
  · cases h
    exact .inr rfl
  · cases h

theorem enrolled_of_authorize {scope : CustodyScope} {reference : ObjectRef}
    (h : s.authorize scope reference = .ok ()) : ⟨scope, reference⟩ ∈ s.objects := by
  obtain ⟨_, -, h⟩ := bind_ok h
  obtain ⟨_, -, h⟩ := bind_ok h
  split at h
  · cases h
  split at h
  · cases h
  rename_i o hfind
  split at h
  · cases h
  rename_i href
  have hfound := find?_some hfind
  simp only [Bool.and_eq_true, decide_eq_true_eq] at hfound
  rw [← hfound.1, ← not_not.mp href]
  exact mem_of_find?_eq_some hfind

theorem finishAcquire_ok {expires : Instant}
    (h : s.finishAcquire scope reference started cancelled id now later = (t, .ok expires)) :
    ⟨scope, reference⟩ ∈ s.objects ∧ t.receivers = (s.reap now).receivers ∧
      t.leases.rows.length ≤ maxLiveLeases ∧ ∀ k, t.leases.get? k =
        if k = id then some ⟨scope, reference, expires, false⟩ else (s.reap now).leases.get? k := by
  unfold finishAcquire at h
  split at h
  · cases h
  rename_i hauth
  dsimp only at h
  split at h
  · cases h
  rename_i hroom
  split at h
  · cases h
  split at h
  · cases h
  split at h
  · cases h
  rename_i leases hins
  cases h
  obtain ⟨-, hrows, hget⟩ := insert?_eq_some hins
  refine ⟨enrolled_of_authorize hauth, rfl, ?_, hget⟩
  show leases.rows.length ≤ maxLiveLeases
  rw [hrows, length_append, length_singleton]
  omega

/-- The first lock of a delivery links a lease that has not started with a receiver for
the same scope and reference. -/
theorem beginDelivery_ok {expires : Instant} {d : Delivery}
    (h : s.beginDelivery id expires rid now later = .ok (t, d)) :
    ∃ lease destination, s.leases.get? id = some lease ∧ lease.started = false ∧
      s.receivers.get? rid = some destination ∧ destination.scope = lease.scope ∧
      destination.reference = lease.reference ∧ destination.lease = none ∧
      d.scope = lease.scope ∧ d.reference = lease.reference ∧
      t = { s with
        leases := s.leases.update id fun l => { l with started := true }
        receivers := s.receivers.update rid fun r => { r with lease := some id } } := by
  unfold beginDelivery at h
  split at h
  · cases h
  split at h
  · cases h
  rename_i lease hlease
  split at h
  · cases h
  rename_i hstarted
  split at h
  · cases h
  rename_i destination hdest
  split at h
  · cases h
  rename_i hmatch
  obtain ⟨_, -, h⟩ := bind_ok h
  cases h
  simp only [Bool.or_eq_true, decide_eq_true_eq, not_or, not_not, Bool.not_eq_true] at hmatch
  exact ⟨lease, destination, hlease, by simpa using hstarted, hdest, hmatch.1.1,
    hmatch.1.2, by simpa using hmatch.2, rfl, rfl, rfl⟩

/-- The last lock of a delivery puts the value into the receiver linked to the lease. -/
theorem finishDelivery_ok {d : Delivery} {value : Option κ} {v : κ}
    (h : s.finishDelivery id rid d cancelled value now = .ok (t, v)) :
    value = some v ∧ ∃ lease destination, s.leases.get? id = some lease ∧
      s.receivers.get? rid = some destination ∧ destination.lease = some id ∧
      t = { s with receivers := s.receivers.update rid fun r => { r with value := some v } } := by
  unfold finishDelivery at h
  split at h
  · cases h
  split at h
  · cases h
  obtain ⟨_, -, h⟩ := bind_ok h
  split at h
  · cases h
  rename_i hlive
  split at h
  · cases h
  rename_i destination hdest
  split at h
  · cases h
  rename_i hlink
  split at h
  · cases h
  · cases h
    obtain ⟨lease, hlease⟩ := ne_none_iff_exists'.mp
      (fun hn => hlive (isNone_iff_eq_none.mpr hn))
    exact ⟨rfl, lease, destination, hlease, hdest, not_not.mp hlink, rfl⟩

end Session

/-! ## The history -/

def Event.putLease : Event κ → Option Id
  | .put _ lease _ _ => some lease
  | _ => none

/-- The leases that have put a value, one entry a put. -/
def putLeases (events : List (Event κ)) : List Id := events.filterMap Event.putLease

/-- The vault returned `v` to delivery `call` after it began. -/
def ReadDuring (events : List (Event κ)) (call : Nat) (lease receiver : Id) (scope : CustodyScope)
    (reference : ObjectRef) (v : κ) : Prop :=
  ∃ before during, events = before ++ .began call lease receiver :: during ∧
    .read call scope reference v ∈ during

/-- Delivery `call` put `v`, which the vault had returned to it between its begin and the
put. -/
def DeliveredBy (events : List (Event κ)) (call : Nat) (lease receiver : Id)
    (scope : CustodyScope) (reference : ObjectRef) (v : κ) : Prop :=
  ∃ before during after,
    events = before ++ .began call lease receiver :: during ++ .put call lease receiver v :: after ∧
      .read call scope reference v ∈ during

section History

variable {events : List (Event κ)} {call : Nat} {lease receiver : Id} {scope : CustodyScope}
  {reference : ObjectRef} {v : κ}

@[simp] theorem putLeases_append (events more : List (Event κ)) :
    putLeases (events ++ more) = putLeases events ++ putLeases more := filterMap_append

theorem ReadDuring.append (h : ReadDuring events call lease receiver scope reference v) (more) :
    ReadDuring (events ++ more) call lease receiver scope reference v := by
  obtain ⟨before, during, rfl, hread⟩ := h
  exact ⟨before, during ++ more, by simp, mem_append_left more hread⟩

theorem DeliveredBy.append (h : DeliveredBy events call lease receiver scope reference v) (more) :
    DeliveredBy (events ++ more) call lease receiver scope reference v := by
  obtain ⟨before, during, after, rfl, hread⟩ := h
  exact ⟨before, during, after ++ more, by simp, hread⟩

theorem readDuring_concat (h : .began call lease receiver ∈ events) :
    ReadDuring (events ++ [.read call scope reference v]) call lease receiver scope reference
      v := by
  obtain ⟨before, during, rfl⟩ := append_of_mem h
  exact ⟨before, during ++ [.read call scope reference v], by simp, by simp⟩

theorem ReadDuring.put (h : ReadDuring events call lease receiver scope reference v) :
    DeliveredBy (events ++ [.put call lease receiver v]) call lease receiver scope reference v := by
  obtain ⟨before, during, rfl, hread⟩ := h
  exact ⟨before, during, [], by simp, hread⟩

end History

/-! ## The invariant -/

def DeliverPhase.delivery? : DeliverPhase κ → Option Delivery
  | .admitted d _ | .waiting d _ _ | .ready d _ => some d
  | .entered | .unwinding | .ended => none

def WorkerStage.result? : WorkerStage κ → Option (Except CustodyError (Option κ))
  | .queued => none
  | .finished result | .sent result => some result

/-- What a phase may hold: a value the vault returned during the call, or a worker that
reads for it. -/
def PhaseOk (events : List (Event κ)) (workers : List (Worker κ)) (i : Nat) (lease receiver : Id) :
    DeliverPhase κ → Prop
  | .ready d (some v) => ReadDuring events i lease receiver d.scope d.reference v
  | .waiting d _ w => ∃ wk, workers[w]? = some wk ∧ wk.owner = .deliver i ∧
      wk.scope = d.scope ∧ wk.reference = d.reference
  | _ => True

/-- More may happen, and workers may change, as long as they read for the same call. -/
theorem PhaseOk.mono {events events' : List (Event κ)} {workers workers' : List (Worker κ)}
    {i : Nat} {l rid : Id} {phase : DeliverPhase κ} (h : PhaseOk events workers i l rid phase)
    (hread : ∃ more, events' = events ++ more)
    (hworker : ∀ {w : Nat} {wk : Worker κ}, workers[w]? = some wk → ∃ wk',
      workers'[w]? = some wk' ∧ wk'.owner = wk.owner ∧ wk'.scope = wk.scope ∧
        wk'.reference = wk.reference) : PhaseOk events' workers' i l rid phase := by
  cases phase with
  | ready d value =>
    cases value with
    | none => trivial
    | some v =>
      obtain ⟨more, rfl⟩ := hread
      exact ReadDuring.append h more
  | waiting d round w =>
    obtain ⟨wk, hw, ho, hs, hr⟩ := h
    obtain ⟨wk', hw', ho', hs', hr'⟩ := hworker hw
    exact ⟨wk', hw', ho'.trans ho, hs'.trans hs, hr'.trans hr⟩
  | entered => trivial
  | admitted d round => trivial
  | unwinding => trivial
  | ended => trivial

structure WorldInv (s : World κ) : Prop where
  session : SessionInv s.session
  /-- A live lease was handed out, for its scope and reference. -/
  minted : ∀ {l e}, s.session.leases.get? l = some e →
    l ∈ s.handles.map Prod.fst ∧ .acquired l e.scope e.reference ∈ s.events
  /-- A receiver was registered for its scope and reference. -/
  registered : ∀ {rid r}, s.session.receivers.get? rid = some r →
    .registered rid r.scope r.reference ∈ s.events
  began : ∀ {i c}, s.deliveries[i]? = some c →
    .began i c.lease c.receiver ∈ s.events ∧ c.lease ∈ s.handles.map Prod.fst
  /-- A delivery past its first lock has the lease for itself, before any put. -/
  started : ∀ {i : Nat} {c} {d}, s.deliveries[i]? = some c →
    c.phase.delivery? = some d → c.lease ∉ putLeases s.events ∧
      ∀ {e}, s.session.leases.get? c.lease = some e →
        e.started = true ∧ e.scope = d.scope ∧ e.reference = d.reference
  alone : ∀ {i j : Nat} {c c'} {d d'}, s.deliveries[i]? = some c →
    s.deliveries[j]? = some c' → c.phase.delivery? = some d → c'.phase.delivery? = some d' →
    c.lease = c'.lease → i = j
  phases : ∀ {i c}, s.deliveries[i]? = some c →
    PhaseOk s.events s.workers i c.lease c.receiver c.phase
  workers : ∀ {w i : Nat} {wk}, s.workers[w]? = some wk → wk.owner = .deliver i →
    ∃ c, s.deliveries[i]? = some c ∧ ∀ {v}, wk.stage.result? = some (.ok (some v)) →
      ReadDuring s.events i c.lease c.receiver wk.scope wk.reference v
  putsOnce : (putLeases s.events).Nodup
  puts : ∀ {l}, l ∈ putLeases s.events → l ∈ s.handles.map Prod.fst ∧
    ∀ {e}, s.session.leases.get? l = some e → e.started = true
  held : ∀ {rid l r v}, s.session.receivers.get? rid = some r →
    r.lease = some l → r.value = some v →
    ∃ call, DeliveredBy s.events call l rid r.scope r.reference v

/-- The lease is the delivery's alone, before any put. -/
structure Sole (s : World κ) (i : Nat) (l : Id) (d : Delivery) : Prop where
  unput : l ∉ putLeases s.events
  lease : ∀ {e}, s.session.leases.get? l = some e →
    e.started = true ∧ e.scope = d.scope ∧ e.reference = d.reference
  alone : ∀ {j c d'}, s.deliveries[j]? = some c →
    c.phase.delivery? = some d' → c.lease = l → j = i

/-- No lease appears but the new one of an acquisition, and no handle is forgotten. -/
structure LeasesFrom (s t : World κ) (new : Id → Prop) : Prop where
  leases : ∀ {l}, (t.session.leases.get? l).isSome → (s.session.leases.get? l).isSome ∨ new l
  handles : ∀ {l}, l ∈ s.handles.map Prod.fst → l ∈ t.handles.map Prod.fst

/-- What a step leads to. -/
def Moves (s t : World κ) (new : Id → Prop) : Prop := WorldInv t ∧ LeasesFrom s t new

theorem Moves.next {s t u : World κ} {new : Id → Prop} (h : Moves s t new)
    (hinv : WorldInv t → WorldInv u) (hsession : u.session = t.session)
    (hhandles : u.handles = t.handles) : Moves s u new :=
  ⟨hinv h.1, fun hl => h.2.leases (hsession ▸ hl), fun hl => hhandles ▸ h.2.handles hl⟩

namespace WorldInv

variable {s : World κ} {i : Nat} {c : DeliverCall κ}

/-- The step leaves no lease that was not there before. -/
theorem moves {t : World κ} {new : Id → Prop} (h : WorldInv t)
    (hleases : ∀ {l e}, t.session.leases.get? l = some e →
      ∃ e', s.session.leases.get? l = some e') (hhandles : t.handles = s.handles) :
    Moves s t new := by
  refine ⟨h, fun hl => ?_, fun hl => hhandles ▸ hl⟩
  obtain ⟨e, he⟩ := isSome_iff_exists.mp hl
  exact .inl (isSome_iff_exists.mpr (hleases he))

theorem kept {t new} (h : WorldInv t) (hsession : t.session = s.session)
    (hhandles : t.handles = s.handles) : Moves s t new :=
  h.moves (fun {_ e} he => ⟨e, hsession ▸ he⟩) hhandles

theorem start : WorldInv (start κ) where
  session := ⟨Nat.zero_le _, (fun h => by cases h), (fun h => by cases h)⟩
  minted h := by cases h
  registered h := by cases h
  began h := by cases h
  started h := by cases h
  alone h := by cases h
  phases h := by cases h
  workers h := by cases h
  putsOnce := nodup_nil
  puts h := by cases h
  held h := by cases h

theorem shrink (h : WorldInv s) {t} (hst : Shrinks s.session t) (ht : SessionInv t) :
    WorldInv { s with session := t } :=
  { h with
    session := ht
    minted he := h.minted (hst.leases he)
    registered hr := h.registered (hst.receivers hr)
    started hc hd :=
      have hs := h.started hc hd
      ⟨hs.1, fun he => hs.2 (hst.leases he)⟩
    puts hl :=
      have hp := h.puts hl
      ⟨hp.1, fun he => hp.2 (hst.leases he)⟩
    held hr := h.held (hst.receivers hr) }

theorem shrunk {new : Id → Prop} (h : WorldInv s) {t} (hst : Shrinks s.session t)
    (ht : SessionInv t) : Moves s { s with session := t } new :=
  (h.shrink hst ht).moves (fun {_ e} he => ⟨e, hst.leases he⟩) rfl

theorem record (h : WorldInv s) (more) (hmore : putLeases more = []) :
    WorldInv { s with events := s.events ++ more } where
  session := h.session
  minted he := ⟨(h.minted he).1, mem_append_left more (h.minted he).2⟩
  registered hr := mem_append_left more (h.registered hr)
  began hc := ⟨mem_append_left more (h.began hc).1, (h.began hc).2⟩
  started hc hd := by
    simp only [putLeases_append, hmore, append_nil]
    exact h.started hc hd
  alone := h.alone
  phases hc := (h.phases hc).mono ⟨more, rfl⟩ fun hw => ⟨_, hw, rfl, rfl, rfl⟩
  workers hw ho := by
    obtain ⟨c, hc, hread⟩ := h.workers hw ho
    exact ⟨c, hc, fun hv => (hread hv).append more⟩
  putsOnce := by
    simp only [putLeases_append, hmore, append_nil]
    exact h.putsOnce
  puts := by
    simp only [putLeases_append, hmore, append_nil]
    exact h.puts
  held hr hl hv := by
    obtain ⟨call, hcall⟩ := h.held hr hl hv
    exact ⟨call, hcall.append more⟩

theorem acquires (h : WorldInv s) (acquires) (cancelled) :
    WorldInv { s with acquires := acquires, cancelled := cancelled } :=
  { h with }

theorem spawn (h : WorldInv s) (wk) (hqueued : wk.stage = .queued)
    (howner : ∀ {i}, wk.owner = .deliver i → ∃ c, s.deliveries[i]? = some c) :
    WorldInv { s with workers := s.workers ++ [wk] } :=
  { h with
    phases hc := (h.phases hc).mono ⟨[], by simp⟩ fun hw =>
      ⟨_, getElem?_snoc.mpr (.inl hw), rfl, rfl, rfl⟩
    workers {w i old} hw ho := by
      rcases getElem?_snoc.mp hw with hold | ⟨-, rfl⟩
      · exact h.workers hold ho
      · obtain ⟨c, hc⟩ := howner ho
        refine ⟨c, hc, fun hv => ?_⟩
        rw [hqueued] at hv
        cases hv }

variable {j w : Nat} {later now : Instant} {new : Id → Prop} {permits : Bool}
  {phase : DeliverPhase κ} {t : World κ}
  {wk : Worker κ}

theorem setWorker (h : WorldInv s) {f}
    (hf : ∀ wk, (f wk).owner = wk.owner ∧ (f wk).scope = wk.scope ∧ (f wk).reference = wk.reference)
    (hresult : ∀ {wk i c v}, s.workers[w]? = some wk →
      wk.owner = .deliver i → s.deliveries[i]? = some c →
      (f wk).stage.result? = some (.ok (some v)) →
      ReadDuring s.events i c.lease c.receiver wk.scope wk.reference v) :
    WorldInv { s with workers := s.workers.modify w f } :=
  { h with
    phases hc := (h.phases hc).mono ⟨[], by simp⟩ fun {w' wk} hw => by
      by_cases hww : w = w'
      · subst hww
        exact ⟨f wk, by simp [hw], hf wk⟩
      · exact ⟨wk, by simp [hww, hw], rfl, rfl, rfl⟩
    workers {w' i wk} hw ho := by
      by_cases hww : w = w'
      · subst hww
        obtain ⟨old, hold, rfl⟩ : ∃ old, s.workers[w]? = some old ∧ f old = wk := by
          simpa using hw
        obtain ⟨fo, fs, fr⟩ := hf old
        obtain ⟨c, hc, -⟩ := h.workers hold (fo.symm.trans ho)
        refine ⟨c, hc, fun hv => ?_⟩
        rw [fs, fr]
        exact hresult hold (fo.symm.trans ho) hc hv
      · exact h.workers (by simpa [hww] using hw) ho }

theorem getElem?_setDeliver {c'} (hi : s.deliveries[i]? = some c)
    (hj : (s.setDeliver i phase).deliveries[j]? = some c') :
    (j = i ∧ c' = { c with phase := phase }) ∨ (j ≠ i ∧ s.deliveries[j]? = some c') := by
  by_cases hji : j = i
  · subst hji
    simp only [setDeliver, List.getElem?_modify_eq, hi, Option.map_eq_map, Option.map_some,
      Option.some.injEq] at hj
    exact .inl ⟨rfl, hj.symm⟩
  · exact .inr ⟨hji, by simpa [setDeliver, Ne.symm hji] using hj⟩

theorem exists_setDeliver (i phase) {old} (hj : s.deliveries[j]? = some old) :
    ∃ c', (s.setDeliver i phase).deliveries[j]? = some c' ∧
      c'.lease = old.lease ∧ c'.receiver = old.receiver := by
  by_cases hji : i = j
  · subst hji
    exact ⟨{ old with phase := phase }, by simp [setDeliver, hj], rfl, rfl⟩
  · exact ⟨old, by simp [setDeliver, hji, hj], rfl, rfl⟩

section

variable (h : WorldInv s) {d : Delivery} {cancelled : Bool} {v : κ}

include h

theorem sole (hi : s.deliveries[i]? = some c) (hd : c.phase.delivery? = some d) :
    Sole s i c.lease d :=
  ⟨(h.started hi hd).1, (h.started hi hd).2, fun hj hd' => h.alone hj hi hd' hd⟩

theorem setDeliver (hi : s.deliveries[i]? = some c)
    (hsole : ∀ {d}, phase.delivery? = some d → Sole s i c.lease d)
    (hphase : PhaseOk s.events s.workers i c.lease c.receiver phase) :
    WorldInv (s.setDeliver i phase) :=
  { h with
    began hj := by
      rcases getElem?_setDeliver hi hj with ⟨rfl, rfl⟩ | ⟨-, hold⟩
      · have hbegan := h.began hi
        exact hbegan
      · exact h.began hold
    started hj hd := by
      rcases getElem?_setDeliver hi hj with ⟨rfl, rfl⟩ | ⟨-, hold⟩
      · exact ⟨(hsole hd).unput, (hsole hd).lease⟩
      · exact h.started hold hd
    alone hj hk hd hd' hl := by
      rcases getElem?_setDeliver hi hj with ⟨rfl, rfl⟩ | ⟨-, hj'⟩
      · rcases getElem?_setDeliver hi hk with ⟨rfl, rfl⟩ | ⟨-, hk'⟩
        · rfl
        exact ((hsole hd).alone hk' hd' hl.symm).symm
      · rcases getElem?_setDeliver hi hk with ⟨rfl, rfl⟩ | ⟨-, hk'⟩
        · exact (hsole hd').alone hj' hd hl
        · exact h.alone hj' hk' hd hd' hl
    phases hj := by
      rcases getElem?_setDeliver hi hj with ⟨rfl, rfl⟩ | ⟨-, hold⟩
      · exact hphase
      exact h.phases hold
    workers hw ho := by
      obtain ⟨old, hold, hread⟩ := h.workers hw ho
      obtain ⟨c', hc', hl, hr⟩ := exists_setDeliver i phase hold
      refine ⟨c', hc', fun hv => ?_⟩
      rw [hl, hr]
      exact hread hv }

theorem leave (hi : s.deliveries[i]? = some c) (hphase : phase = .unwinding ∨ phase = .ended) :
    WorldInv (s.setDeliver i phase) := by
  rcases hphase with rfl | rfl
  · exact h.setDeliver hi (fun hd => by cases hd) trivial
  · exact h.setDeliver hi (fun hd => by cases hd) trivial

theorem call (new) (hlease : new.lease ∈ s.handles.map Prod.fst)
    (hphase : new.phase = .entered ∨ new.phase = .unwinding) :
    WorldInv { s with
      deliveries := s.deliveries ++ [new]
      events := s.events ++ [.began s.deliveries.length new.lease new.receiver] } := by
  have hrecord := h.record [.began s.deliveries.length new.lease new.receiver] rfl
  have hnone : ∀ {d}, new.phase.delivery? ≠ some d := by
    intro d hd
    rcases hphase with hp | hp <;> rw [hp] at hd <;> cases hd
  refine ⟨hrecord.session, hrecord.minted, hrecord.registered, ?_, ?_, ?_, ?_, ?_,
    hrecord.putsOnce, hrecord.puts, hrecord.held⟩
  · intro j c hj
    rcases getElem?_snoc.mp hj with hold | ⟨rfl, rfl⟩
    · exact hrecord.began hold
    · exact ⟨by simp, hlease⟩
  · intro j c d hj hd
    rcases getElem?_snoc.mp hj with hold | ⟨rfl, rfl⟩
    · exact hrecord.started hold hd
    · exact absurd hd hnone
  · intro j k c c' d d' hj hk hd hd' hl
    rcases getElem?_snoc.mp hj with hj | ⟨rfl, rfl⟩
    · rcases getElem?_snoc.mp hk with hk | ⟨rfl, rfl⟩
      · exact h.alone hj hk hd hd' hl
      · exact absurd hd' hnone
    · exact absurd hd hnone
  · intro j c hj
    rcases getElem?_snoc.mp hj with hold | ⟨rfl, rfl⟩
    · exact hrecord.phases hold
    · rcases hphase with hp | hp <;> rw [hp] <;> trivial
  · intro w j wk hw ho
    obtain ⟨c, hc, hread⟩ := hrecord.workers hw ho
    exact ⟨c, getElem?_snoc.mpr (.inl hc), hread⟩

theorem register (scope reference rid now) : Moves s
    (s.register scope reference rid now) new := by
  have hreap := h.shrink (shrinks_reap s.session now) (h.session.reap now)
  unfold World.register
  cases hr : s.session.register scope reference rid now with
  | mk t result =>
    cases result with
    | error e =>
      rcases register_error hr with rfl | rfl
      · exact h.kept rfl rfl
      exact h.shrunk (shrinks_reap s.session now) (h.session.reap now)
    | ok u =>
      obtain ⟨hleases, hget⟩ := register_ok hr
      have hrecord := hreap.record [.registered rid scope reference] rfl
      -- Another receiver is as it was; the new one is empty.
      have hold : ∀ {k r}, t.receivers.get? k = some r →
          (s.session.reap now).receivers.get? k = some r ∨
            (k = rid ∧ r = ⟨scope, reference, none, none⟩) := by
        intro k r hk
        rw [hget k] at hk
        split at hk
        · next heq => exact .inr ⟨heq, (some.inj hk).symm⟩
        exact .inl hk
      refine moves ⟨⟨?_, ?_, ?_⟩, ?_, ?_, hrecord.began, ?_, hrecord.alone, hrecord.phases,
        hrecord.workers, hrecord.putsOnce, ?_, ?_⟩ (fun {_ e} he =>
          ⟨e, (shrinks_reap s.session now).leases (hleases ▸ he)⟩) rfl
      · show t.leases.rows.length ≤ maxLiveLeases
        rw [hleases]
        exact hreap.session.capacity
      · intro k r l hk hl
        show ∃ e, t.leases.get? l = some e ∧ _
        rw [hleases]
        rcases hold hk with hk | ⟨rfl, rfl⟩
        · exact hreap.session.linked hk hl
        · cases hl
      · intro k r hk hl
        rcases hold hk with hk | ⟨rfl, rfl⟩
        · exact hreap.session.unlinked hk hl
        · rfl
      · intro l e he
        exact hrecord.minted (hleases ▸ he)
      · intro k r hk
        rcases hold hk with hk | ⟨rfl, rfl⟩
        · exact hrecord.registered hk
        · exact mem_append_right _ mem_cons_self
      · intro i c d hc hd
        refine ⟨(hrecord.started hc hd).1, fun he => (hrecord.started hc hd).2 ?_⟩
        exact hleases ▸ he
      · intro l hl
        refine ⟨(hrecord.puts hl).1, fun he => (hrecord.puts hl).2 ?_⟩
        exact hleases ▸ he
      · intro k l r v hk hl hv
        rcases hold hk with hk | ⟨rfl, rfl⟩
        · exact hrecord.held hk hl hv
        · cases hl

theorem acquired {scope} {reference} {started expires}
    {id} {t} (hfresh : id ∉ s.handles.map Prod.fst) (hok :
    s.session.finishAcquire scope reference started cancelled id now later = (t, .ok expires)) :
    Moves s { s with
      session := t, handles := s.handles ++ [(id, expires)]
      events := s.events ++ [.acquired id scope reference] } (some id = some ·) := by
  obtain ⟨-, hreceivers, hcapacity, hget⟩ := finishAcquire_ok hok
  have hreap := h.shrink (shrinks_reap s.session now) (h.session.reap now)
  have hrecord := hreap.record [.acquired id scope reference] rfl
  have hmore : ∀ {l}, l ∈ s.handles.map Prod.fst →
      l ∈ (s.handles ++ [(id, expires)]).map Prod.fst := by
    intro l hl
    rw [map_append]
    exact mem_append_left _ hl
  -- A lease that was handed out before is not the new one.
  have hold : ∀ {l e}, l ∈ s.handles.map Prod.fst →
      t.leases.get? l = some e → (s.session.reap now).leases.get? l = some e := by
    intro l e hl he
    have hne : l ≠ id := fun heq => hfresh (heq ▸ hl)
    rw [hget l, if_neg hne] at he
    exact he
  refine ⟨⟨⟨hcapacity, ?_, ?_⟩, ?_, ?_, ?_, ?_, hrecord.alone, hrecord.phases, hrecord.workers,
    hrecord.putsOnce, ?_, ?_⟩, ?_, hmore⟩
  · intro rid r l hr hl
    obtain ⟨e, he, hrest⟩ := hreap.session.linked (hreceivers ▸ hr) hl
    refine ⟨e, ?_, hrest⟩
    show t.leases.get? l = some e
    have hne : l ≠ id := fun heq => hfresh (heq ▸ (hreap.minted he).1)
    rw [hget l, if_neg hne]
    exact he
  · intro rid r hr hl
    exact hreap.session.unlinked (hreceivers ▸ hr) hl
  · intro l e he
    have hl := (hget l).symm.trans he
    split at hl
    · next heq =>
      subst heq
      obtain rfl := some.inj hl
      exact ⟨by simp, mem_append_right _ mem_cons_self⟩
    · exact ⟨hmore (hrecord.minted hl).1, (hrecord.minted hl).2⟩
  · intro rid r hr
    exact hrecord.registered (hreceivers ▸ hr)
  · intro i c hc
    exact ⟨(hrecord.began hc).1, hmore (hrecord.began hc).2⟩
  · intro i c d hc hd
    exact ⟨(hrecord.started hc hd).1, fun he =>
      (hrecord.started hc hd).2 (hold (hrecord.began hc).2 he)⟩
  · intro l hl
    exact ⟨hmore (hrecord.puts hl).1, fun he => (hrecord.puts hl).2 (hold (hrecord.puts hl).1 he)⟩
  · intro rid l r v hr hl hv
    exact hrecord.held (hreceivers ▸ hr) hl hv
  · intro l hl
    obtain ⟨e, he⟩ := isSome_iff_exists.mp hl
    have hl := (hget l).symm.trans he
    split at hl
    · next heq => exact .inr (congrArg some heq.symm)
    · exact .inl (isSome_iff_exists.mpr ⟨e, (shrinks_reap s.session now).leases hl⟩)

theorem lock (hi : s.deliveries[i]? = some c) {t}
    (hok : s.session.beginDelivery c.lease c.expires c.receiver now later = .ok (t, d))
    (hdelivery : phase.delivery? = some d)
    (hphase : PhaseOk s.events s.workers i c.lease c.receiver phase) :
    Moves s ({ s with session := t }.setDeliver i phase) new := by
  obtain ⟨lease, dest, hlease, hstarted, hdest, hscope, hreference, hlink, hds, hdr, rfl⟩ :=
    beginDelivery_ok hok
  -- Nobody has put through this lease or is delivering it: it has not started.
  have hnoput : c.lease ∉ putLeases s.events := fun hp => by
    have := (h.puts hp).2 hlease
    rw [hstarted] at this
    cases this
  have hnobody : ∀ {j : Nat} {c'} {d'}, s.deliveries[j]? = some c' →
      c'.phase.delivery? = some d' → c'.lease ≠ c.lease := by
    intro j c' d' hj hd' heq
    have := ((h.started hj hd').2 (heq ▸ hlease)).1
    rw [hstarted] at this
    cases this
  have hlinked : WorldInv { s with session := { s.session with
      leases := s.session.leases.update c.lease fun l => { l with started := true }
      receivers := s.session.receivers.update c.receiver fun r =>
        { r with lease := some c.lease } } } := by
    refine ⟨⟨?_, ?_, ?_⟩, ?_, ?_, h.began, ?_, h.alone, h.phases, h.workers, h.putsOnce, ?_, ?_⟩
    · have hlen := h.session.capacity
      simpa [update, mapVal] using hlen
    · intro k r l hk hl
      show ∃ e, (s.session.leases.update c.lease fun l => { l with started := true }).get? l =
        some e ∧ _
      rw [get?_update]
      rcases of_get?_update hdest hk with ⟨rfl, rfl⟩ | ⟨-, hk⟩
      · cases hl
        exact ⟨{ lease with started := true }, by simp [hlease], rfl, hscope.symm, hreference.symm⟩
      · obtain ⟨e, he, hs, hrest⟩ := h.session.linked hk hl
        have hne : l ≠ c.lease := by
          rintro rfl
          rw [hlease, some.injEq] at he
          rw [← he, hstarted] at hs
          cases hs
        exact ⟨e, by rw [if_neg hne]; exact he, hs, hrest⟩
    · intro k r hk hl
      rcases of_get?_update hdest hk with ⟨rfl, rfl⟩ | ⟨-, hk⟩
      · cases hl
      exact h.session.unlinked hk hl
    · intro l e he
      rcases of_get?_update hlease he with ⟨rfl, rfl⟩ | ⟨-, he⟩
      · have hminted := h.minted hlease
        exact hminted
      · exact h.minted he
    · intro k r hk
      rcases of_get?_update hdest hk with ⟨rfl, rfl⟩ | ⟨-, hk⟩
      · have hregistered := h.registered hdest
        exact hregistered
      · exact h.registered hk
    · intro j c' d' hj hd'
      refine ⟨(h.started hj hd').1, fun he => ?_⟩
      rcases of_get?_update hlease he with ⟨heq, -⟩ | ⟨-, he⟩
      · exact absurd heq (hnobody hj hd')
      exact (h.started hj hd').2 he
    · intro l hl
      refine ⟨(h.puts hl).1, fun he => ?_⟩
      rcases of_get?_update hlease he with ⟨-, rfl⟩ | ⟨-, he⟩
      · rfl
      exact (h.puts hl).2 he
    · intro k l r v hk hl hv
      rcases of_get?_update hdest hk with ⟨rfl, rfl⟩ | ⟨-, hk⟩
      · have hnone := h.session.unlinked hdest hlink
        rw [show dest.value = some v from hv] at hnone
        cases hnone
      · exact h.held hk hl hv
  refine (hlinked.setDeliver hi (fun {d'} hd' => ⟨hnoput, fun he => ?_, ?_⟩) hphase).moves
    (fun {_ e} he => ?_) rfl
  · obtain rfl := mem_unique hdelivery hd'
    rcases of_get?_update hlease he with ⟨-, rfl⟩ | ⟨hne, -⟩
    · exact ⟨rfl, hds.symm, hdr.symm⟩
    · exact absurd rfl hne
  · exact fun hj hd hl => absurd hl (hnobody hj hd)
  · rcases of_get?_update hlease he with ⟨rfl, -⟩ | ⟨-, he⟩
    · exact ⟨lease, hlease⟩
    · exact ⟨e, he⟩

/-- The value a delivery has read goes into the receiver that is linked to its lease, when the
delivery itself is over. -/
theorem put {dest : ReceiverEntry κ} {rid l : Id} (hsole : Sole s i l d)
    (hnobody : ∀ {j c d'}, s.deliveries[j]? = some c →
      c.phase.delivery? = some d' → j ≠ i)
    (hhandle : l ∈ s.handles.map Prod.fst) (hdest : s.session.receivers.get? rid = some dest)
    (hlink : dest.lease = some l)
    (hread : ReadDuring s.events i l rid dest.scope dest.reference v) :
    WorldInv { s with
      session := { s.session with
        receivers := s.session.receivers.update rid fun r => { r with value := some v } }
      events := s.events ++ [.put i l rid v] } := by
  have hputs : putLeases (s.events ++ [.put i l rid v]) = putLeases s.events ++ [l] :=
    putLeases_append ..
  refine ⟨⟨h.session.capacity, ?_, ?_⟩, ?_, ?_, ?_, ?_, h.alone, ?_, ?_, ?_, ?_, ?_⟩
  · intro k r l hk hl
    rcases of_get?_update hdest hk with ⟨rfl, rfl⟩ | ⟨-, hk⟩
    · have hold := h.session.linked hdest hl
      exact hold
    · exact h.session.linked hk hl
  · intro k r hk hl
    rcases of_get?_update hdest hk with ⟨rfl, rfl⟩ | ⟨-, hk⟩
    · rw [show dest.lease = none from hl] at hlink
      cases hlink
    · exact h.session.unlinked hk hl
  · exact fun he => ⟨(h.minted he).1, mem_append_left _ (h.minted he).2⟩
  · intro k r hk
    refine mem_append_left _ ?_
    rcases of_get?_update hdest hk with ⟨rfl, rfl⟩ | ⟨-, hk⟩
    · have hregistered := h.registered hdest
      exact hregistered
    · exact h.registered hk
  · exact fun hj => ⟨mem_append_left _ (h.began hj).1, (h.began hj).2⟩
  · intro j c d' hj hd'
    refine ⟨?_, (h.started hj hd').2⟩
    rw [hputs, mem_append, mem_singleton]
    rintro (hp | heq)
    · exact (h.started hj hd').1 hp
    · exact hnobody hj hd' (hsole.alone hj hd' heq)
  · exact fun hj => (h.phases hj).mono ⟨_, rfl⟩ fun hw => ⟨_, hw, rfl, rfl, rfl⟩
  · intro w j wk hw ho
    obtain ⟨c, hc, hold⟩ := h.workers hw ho
    exact ⟨c, hc, fun hv => (hold hv).append _⟩
  · rw [hputs]
    exact nodup_append_singleton h.putsOnce hsole.unput
  · intro l' hl
    rw [hputs, mem_append, mem_singleton] at hl
    rcases hl with hl | rfl
    · exact h.puts hl
    · exact ⟨hhandle, fun he => (hsole.lease he).1⟩
  · intro k l' r v' hk hl hv
    rcases of_get?_update hdest hk with ⟨rfl, rfl⟩ | ⟨-, hk⟩
    · cases hv
      obtain rfl := mem_unique hlink hl
      exact ⟨i, hread.put⟩
    · obtain ⟨call, hcall⟩ := h.held hk hl hv
      exact ⟨call, hcall.append _⟩

theorem delivered (hi : s.deliveries[i]? = some c) {t value} (hready : c.phase = .ready d value)
    (hok : s.session.finishDelivery c.lease c.receiver d cancelled value now = .ok (t, v)) :
    WorldInv ({ s with
      session := t
      events := s.events ++ [Event.put i c.lease c.receiver v] }.setDeliver i .ended) := by
  obtain ⟨rfl, lease, dest, hlease, hdest, hlink, rfl⟩ := finishDelivery_ok hok
  have hsole := h.sole hi (by rw [hready]; rfl)
  obtain ⟨-, hscope, hreference⟩ := hsole.lease hlease
  -- The linked receiver is for the scope and reference of the delivery.
  obtain ⟨e, he, -, hes, her⟩ := h.session.linked hdest hlink
  obtain rfl := mem_unique hlease he
  have hread : ReadDuring s.events i c.lease c.receiver dest.scope dest.reference v := by
    have hp := h.phases hi
    rw [hready] at hp
    rw [← hes, ← her, hscope, hreference]
    exact hp
  have hother : ∀ {j c' d'},
      (s.setDeliver i .ended).deliveries[j]? = some c' → c'.phase.delivery? = some d' →
      j ≠ i ∧ s.deliveries[j]? = some c' := by
    intro j c' d' hj hd'
    rcases getElem?_setDeliver hi hj with ⟨rfl, rfl⟩ | hold
    · cases hd'
    exact hold
  exact (h.leave hi (.inr rfl)).put
    ⟨hsole.unput, hsole.lease, fun hj hd' hl => hsole.alone (hother hj hd').2 hd' hl⟩
    (fun hj hd' => (hother hj hd').1) (h.began hi).2 hdest hlink hread

/-! ## The workers -/

theorem stop (w : Nat) : WorldInv (s.stop w) := by
  refine h.setWorker (fun _ => ⟨rfl, rfl, rfl⟩) fun {wk i c v} hw ho hc hv => ?_
  obtain ⟨c', hc', hread⟩ := h.workers hw ho
  obtain rfl := mem_unique hc' hc
  exact hread hv

end

theorem spawn_ok (h : s.spawn permits wk now = .ok t) :
    t = { s with workers := s.workers ++ [wk] } := by
  obtain ⟨_, -, h⟩ := bind_ok h
  split at h
  · cases h
  · cases h
    rfl

theorem putLeases_readEvent (wk) (result : Except CustodyError (Option κ)) :
    putLeases (readEvent wk result) = [] := by
  unfold readEvent
  split
  · split <;> rfl
  · rfl

section

variable (h : WorldInv s)

include h

theorem workerRead {answer} (hw : s.workers[w]? = some wk)
    (hstep : s.workerRead w wk answer now = some t) : Moves s t new := by
  unfold World.workerRead at hstep
  split at hstep
  · cases hstep
    have hrecord := h.record _ (putLeases_readEvent wk (s.operate wk answer now))
    refine kept ?_ rfl rfl
    refine hrecord.setWorker (fun _ => ⟨rfl, rfl, rfl⟩) fun {wk' i c v} hw' ho hc hv => ?_
    obtain rfl := mem_unique hw hw'
    have hresult : s.operate wk answer now = .ok (some v) := some.inj hv
    have hevent : readEvent wk (s.operate wk answer now) = [.read i wk.scope wk.reference v] := by
      rw [hresult]
      unfold readEvent
      rw [ho]
    rw [hevent]
    exact readDuring_concat (h.began hc).1
  · cases hstep

theorem workerSend (hw : s.workers[w]? = some wk) (hstep : s.workerSend w wk now = some t) :
    Moves s t new := by
  unfold World.workerSend at hstep
  split at hstep
  · next result hstage =>
    cases hstep
    refine kept ?_ rfl rfl
    refine h.setWorker (fun _ => ⟨rfl, rfl, rfl⟩) fun {wk' i c v} hw' ho hc hv => ?_
    obtain rfl := mem_unique hw hw'
    obtain ⟨c', hc', hread⟩ := h.workers hw ho
    obtain rfl := mem_unique hc' hc
    refine hread ?_
    obtain ⟨_, -, hresult⟩ := bind_ok (some.inj hv)
    rw [hstage]
    exact congrArg some hresult
  · cases hstep

/-! ## The calls -/

theorem acquireRun {a} (hstep : s.acquireRun i a permits now = some t) : Moves s t new := by
  unfold World.acquireRun at hstep
  split at hstep
  · cases hstep
  split at hstep
  · cases hstep
    exact (h.acquires _ _).kept rfl rfl
  rename_i hspawn
  cases hstep
  rw [spawn_ok hspawn]
  exact ((h.spawn (acquireWorker i a) rfl fun ho => by cases ho).acquires _ _).kept rfl rfl

theorem acquireFinish {a id} (hfresh : id ∉ s.handles.map Prod.fst)
    (hstep : s.acquireFinish i a id now later = some t) : Moves s t (some id = some ·) := by
  unfold World.acquireFinish at hstep
  split at hstep
  · cases hstep
  split at hstep
  · next hend =>
    cases hstep
    rcases finishAcquire_error hend with rfl | rfl
    · exact (h.acquires _ _).kept rfl rfl
    · exact (h.shrunk (shrinks_reap s.session now) (h.session.reap now)).next
        (·.acquires _ _) rfl rfl
  · next hend =>
    cases hstep
    exact (h.acquired hfresh hend).next (·.acquires _ _) rfl rfl

theorem deliverLock (hi : s.deliveries[i]? = some c) (hstep : s.deliverLock i c now later = some t)
    : Moves s t new := by
  unfold World.deliverLock at hstep
  split at hstep
  · split at hstep
    · cases hstep
      exact (h.leave hi (.inl rfl)).kept rfl rfl
    · next hok =>
      cases hstep
      split
      · exact h.lock hi hok rfl trivial
      · exact h.lock hi hok rfl trivial
  · cases hstep

theorem deliverRun (hi : s.deliveries[i]? = some c) (hstep : s.deliverRun i c permits now = some t)
    :
    Moves s t new := by
  unfold World.deliverRun at hstep
  split at hstep
  · next d round hphase =>
    split at hstep
    · cases hstep
      exact (h.leave hi (.inl rfl)).kept rfl rfl
    rename_i hspawn
    cases hstep
    rw [spawn_ok hspawn]
    have hnew := h.spawn (deliveryWorker i c d round) rfl fun ho => by
      cases ho
      exact ⟨c, hi⟩
    refine kept ?_ rfl rfl
    refine hnew.setDeliver hi ?_ ⟨deliveryWorker i c d round, by simp, rfl, rfl, rfl⟩
    intro d' hd'
    exact hnew.sole hi (hphase ▸ hd')
  · cases hstep

end

theorem poll_ok {value} (h : s.poll wk now = some (.ok value)) :
    wk.stage.result? = some (.ok value) := by
  unfold poll at h
  split at h
  · cases h
  split at h
  · cases h
  split at h
  · cases h
  split at h
  · next hstage =>
    rw [hstage]
    exact h
  · cases h

section

variable (h : WorldInv s) (hi : s.deliveries[i]? = some c)

include h hi

theorem deliverPoll (hstep : s.deliverPoll i c now = some t) : Moves s t new := by
  unfold World.deliverPoll at hstep
  split at hstep
  · next d round w hphase =>
    obtain ⟨wk, hw, hstep⟩ := bind_eq_some_iff.mp hstep
    obtain ⟨result, hpoll, rfl⟩ := map_eq_some_iff.mp hstep
    have hmine := h.phases hi
    rw [hphase] at hmine
    obtain ⟨wk', hw', ho, hscope, hreference⟩ := hmine
    obtain rfl := mem_unique hw hw'
    cases result with
    | error e => exact ((h.stop w).leave hi (.inl (by cases round <;> rfl))).kept rfl rfl
    | ok value =>
      refine kept ?_ rfl rfl
      refine (h.stop w).setDeliver hi ?_ ?_
      · intro d' hd'
        refine (h.stop w).sole hi ?_
        rw [hphase]
        cases round <;> exact hd'
      · cases round with
        | first => trivial
        | second =>
          cases value with
          | none => trivial
          | some v =>
            obtain ⟨c', hc', hread⟩ := h.workers hw ho
            obtain rfl := mem_unique hc' hi
            have hv := hread (poll_ok hpoll)
            rw [hscope, hreference] at hv
            exact hv
  · cases hstep

theorem deliverFinish (hstep : s.deliverFinish i c now = some t) : Moves s t new := by
  unfold World.deliverFinish at hstep
  split at hstep
  · next d value hphase =>
    split at hstep
    · cases hstep
      exact (h.leave hi (.inl rfl)).kept rfl rfl
    rename_i hok
    cases hstep
    obtain ⟨-, lease, dest, -, -, -, rfl⟩ := finishDelivery_ok hok
    exact (h.delivered hi hphase hok).moves (fun {_ e} he => ⟨e, he⟩) rfl
  · cases hstep

theorem unwind (hstep : s.unwind i c = some t) : Moves s t new := by
  unfold World.unwind at hstep
  split at hstep
  · cases hstep
    exact (h.shrunk (shrinks_close s.session c.lease) (h.session.close c.lease)).next
      (·.leave hi (.inr rfl)) rfl rfl
  · cases hstep

end

theorem closeLease (h : WorldInv s) (id : Id) : Moves s (s.closeLease id) new :=
  h.shrunk (shrinks_close s.session id) (h.session.close id)

theorem grant (h : WorldInv s) (scope reference) : Moves s (s.grant scope reference) new := by
  unfold World.grant
  split
  · exact h.kept rfl rfl
  rename_i t hok
  obtain ⟨hleases, hreceivers⟩ := grant_ok hok
  have hst : Shrinks s.session t := ⟨fun he => hleases ▸ he, fun hr => hreceivers ▸ hr⟩
  refine h.shrunk hst (h.session.shrink hst (by rw [hleases]) fun hr hl => ?_)
  obtain ⟨e, he, -⟩ := h.session.linked (hst.receivers hr) hl
  rw [hleases, he]
  rfl

theorem step (h : WorldInv s) {a} (hfresh : FreshIds s a) (hstep : s.step a = some t) :
    Moves s t fun l => a.drawnLease = some l := by
  cases a with
  | grant scope reference =>
    cases hstep
    exact h.grant scope reference
  | register scope reference id now =>
    cases hstep
    exact h.register scope reference id now
  | dropReceiver id =>
    cases hstep
    exact h.shrunk (shrinks_dropReceiver s.session id) (h.session.dropReceiver id)
  | acquire scope reference cancel now =>
    cases hstep
    exact (h.acquires _ _).kept rfl rfl
  | acquireLock i =>
    obtain ⟨a, -, hstep⟩ := bind_eq_some_iff.mp hstep
    unfold acquireLock at hstep
    split at hstep
    · cases hstep
    split at hstep
    · cases hstep
      exact (h.acquires _ _).kept rfl rfl
    split at hstep
    · cases hstep
      exact (h.acquires _ _).kept rfl rfl
    · cases hstep
      exact (h.acquires _ _).kept rfl rfl
  | acquireRun i permits now =>
    obtain ⟨a, -, hstep⟩ := bind_eq_some_iff.mp hstep
    exact h.acquireRun hstep
  | acquirePoll i now =>
    obtain ⟨a, -, hstep⟩ := bind_eq_some_iff.mp hstep
    unfold acquirePoll at hstep
    split at hstep
    · next w _ =>
      obtain ⟨wk, -, hstep⟩ := bind_eq_some_iff.mp hstep
      obtain ⟨result, -, rfl⟩ := map_eq_some_iff.mp hstep
      exact ((h.stop w).acquires _ _).kept rfl rfl
    · cases hstep
  | acquireFinish i id now later =>
    obtain ⟨a, -, hstep⟩ := bind_eq_some_iff.mp hstep
    exact h.acquireFinish (hfresh id rfl) hstep
  | acquireDrop i =>
    obtain ⟨a, -, hstep⟩ := bind_eq_some_iff.mp hstep
    unfold acquireDrop at hstep
    split at hstep
    · next w _ =>
      cases hstep
      exact ((h.stop w).acquires _ _).kept rfl rfl
    · cases hstep
      exact (h.acquires _ _).kept rfl rfl
    · cases hstep
  | deliver handle receiver sameSession cancel =>
    obtain ⟨hd, hhd, rfl⟩ := map_eq_some_iff.mp hstep
    refine (h.call (s.newDelivery hd.1 hd.2 receiver sameSession cancel) ?_ ?_).kept rfl rfl
    · exact mem_map.mpr ⟨hd, mem_of_getElem? hhd, rfl⟩
    · unfold newDelivery
      split
      · exact .inr rfl
      exact .inl rfl
  | deliverLock i now later =>
    obtain ⟨c, hi, hstep⟩ := bind_eq_some_iff.mp hstep
    exact h.deliverLock hi hstep
  | deliverRun i permits now =>
    obtain ⟨c, hi, hstep⟩ := bind_eq_some_iff.mp hstep
    exact h.deliverRun hi hstep
  | deliverPoll i now =>
    obtain ⟨c, hi, hstep⟩ := bind_eq_some_iff.mp hstep
    exact h.deliverPoll hi hstep
  | deliverFinish i now =>
    obtain ⟨c, hi, hstep⟩ := bind_eq_some_iff.mp hstep
    exact h.deliverFinish hi hstep
  | deliverDrop i =>
    obtain ⟨c, hi, hstep⟩ := bind_eq_some_iff.mp hstep
    unfold deliverDrop at hstep
    split at hstep
    · next w _ =>
      cases hstep
      exact ((h.stop w).leave hi (.inl rfl)).kept rfl rfl
    · cases hstep
  | unwind i =>
    obtain ⟨c, hi, hstep⟩ := bind_eq_some_iff.mp hstep
    exact h.unwind hi hstep
  | workerRead w answer now =>
    obtain ⟨wk, hw, hstep⟩ := bind_eq_some_iff.mp hstep
    exact h.workerRead hw hstep
  | workerSend w now =>
    obtain ⟨wk, hw, hstep⟩ := bind_eq_some_iff.mp hstep
    exact h.workerSend hw hstep
  | cancel token =>
    cases hstep
    exact (h.acquires _ _).kept rfl rfl
  | close handle =>
    obtain ⟨hd, -, rfl⟩ := map_eq_some_iff.mp hstep
    exact h.closeLease hd.1
  | expire handle now =>
    obtain ⟨hd, -, hstep⟩ := bind_eq_some_iff.mp hstep
    split at hstep
    · cases hstep
      exact h.closeLease hd.1
    · cases hstep
  | invalidate =>
    cases hstep
    exact h.shrunk (shrinks_invalidate s.session) (sessionInv_invalidate s.session)

end WorldInv

/-! ## A lease that is new, and one that is gone -/

section Gone

variable {s t : World κ} {a : Action κ} {l : Id}

theorem WorldInv.enrolled (h : WorldInv s) {e : LeaseEntry} (hfresh : FreshIds s a)
    (hstep : s.step a = some t) (hnone : s.session.leases.get? l = none)
    (he : t.session.leases.get? l = some e) : ⟨e.scope, e.reference⟩ ∈ s.session.objects := by
  rcases (h.step hfresh hstep).2.leases (isSome_iff_exists.mpr ⟨e, he⟩) with hold | hnew
  · rw [hnone] at hold
    cases hold
  cases a with
  | acquireFinish i id now later =>
    obtain rfl := some.inj hnew
    obtain ⟨c, -, hstep⟩ := bind_eq_some_iff.mp hstep
    unfold World.acquireFinish at hstep
    split at hstep
    · cases hstep
    split at hstep
    · next hend =>
      cases hstep
      rcases finishAcquire_error hend with rfl | rfl
      · cases hnone.symm.trans he
      · cases hnone.symm.trans ((shrinks_reap s.session now).leases he)
    · next hend =>
      cases hstep
      obtain ⟨henrolled, -, -, hget⟩ := finishAcquire_ok hend
      have hid := hget id
      rw [if_pos rfl] at hid
      obtain rfl := some.inj (hid.symm.trans he)
      exact henrolled
  | _ => cases hnew

def Gone (s : World κ) (l : Id) : Prop :=
  l ∈ s.handles.map Prod.fst ∧ s.session.leases.get? l = none

theorem Gone.step (h : Gone s l) (hfresh : FreshIds s a)
    (hfrom : LeasesFrom s t fun l => a.drawnLease = some l) : Gone t l := by
  refine ⟨hfrom.handles h.1, ?_⟩
  by_contra hlive
  rcases hfrom.leases (isSome_iff_ne_none.mpr hlive) with hold | hnew
  · rw [h.2] at hold
    cases hold
  · exact hfresh l hnew h.1

/-- The action ends the lease `l`: its owner closes it or drops it, its delivery's guard
does, its timer runs, or the session is invalidated. -/
def Action.ends (s : World κ) (l : Id) : Action κ → Prop
  | .close handle | .expire handle _ => (s.handles[handle]?).map Prod.fst = some l
  | .unwind i => (s.deliveries[i]?).map DeliverCall.lease = some l
  | .invalidate => l ∈ s.handles.map Prod.fst
  | _ => False

theorem close_gone (hl : l ∈ s.handles.map Prod.fst) : Gone (s.closeLease l) l :=
  ⟨hl, by simp [closeLease, close]⟩

theorem WorldInv.gone (h : WorldInv s) (hends : a.ends s l) (hstep : s.step a = some t) :
    Gone t l := by
  cases a with
  | close handle =>
    obtain ⟨hd, hhd, rfl⟩ := map_eq_some_iff.mp hstep
    obtain ⟨hd', hhd', rfl⟩ := map_eq_some_iff.mp hends
    obtain rfl := mem_unique hhd hhd'
    exact close_gone (mem_map.mpr ⟨hd, mem_of_getElem? hhd, rfl⟩)
  | expire handle now =>
    obtain ⟨hd, hhd, hstep⟩ := bind_eq_some_iff.mp hstep
    obtain ⟨hd', hhd', rfl⟩ := map_eq_some_iff.mp hends
    obtain rfl := mem_unique hhd hhd'
    split at hstep
    · cases hstep
      exact close_gone (mem_map.mpr ⟨hd, mem_of_getElem? hhd, rfl⟩)
    · cases hstep
  | unwind i =>
    obtain ⟨c, hi, hstep⟩ := bind_eq_some_iff.mp hstep
    obtain ⟨c', hi', rfl⟩ := map_eq_some_iff.mp hends
    obtain rfl := mem_unique hi hi'
    unfold World.unwind at hstep
    split at hstep
    · cases hstep
      exact close_gone (h.began hi).2
    · cases hstep
  | invalidate =>
    cases hstep
    exact ⟨hends, rfl⟩
  | _ => exact absurd hends id

end Gone

/-! ## The result -/

variable {s : World κ}

/-- Over every interleaving: at most `MAX_LIVE_LEASES` leases are live; a lease puts a
value once, into one receiver; a receiver holds a value only if it was registered for the
scope and reference of a lease that is live, and the vault returned that value for that
reference during the delivery that put it; a lease that a step adds is for an object that is
enrolled then; and once a lease has ended, no receiver ever holds its value again. -/
theorem custody_delivery_exact (hreach : (custodyMachine κ).Reachable FreshIds s) :
    s.session.leases.rows.length ≤ maxLiveLeases ∧ (putLeases s.events).Nodup ∧
      (∀ {rid : Id} {r : ReceiverEntry κ} {v : κ}, s.session.receivers.get? rid = some r →
        r.value = some v → ∃ l call, r.lease = some l ∧ (s.session.leases.get? l).isSome ∧
          .acquired l r.scope r.reference ∈ s.events ∧
          .registered rid r.scope r.reference ∈ s.events ∧
          DeliveredBy s.events call l rid r.scope r.reference v) ∧
      (∀ {a : Action κ} {t : World κ} {l : Id} {e : LeaseEntry}, FreshIds s a →
        s.step a = some t → s.session.leases.get? l = none → t.session.leases.get? l = some e →
          ⟨e.scope, e.reference⟩ ∈ s.session.objects) ∧
      (∀ {a : Action κ} {l : Id} {t u : World κ}, a.ends s l → s.step a = some t →
        (custodyMachine κ).Run FreshIds t u → ∀ {rid : Id} {r : ReceiverEntry κ},
          u.session.receivers.get? rid = some r → r.lease ≠ some l) := by
  have hinv : WorldInv s := hreach.invariant (fun h => h ▸ .start)
    fun h hfresh hstep => (h.step hfresh hstep).1
  refine ⟨hinv.session.capacity, hinv.putsOnce, ?_, hinv.enrolled, ?_⟩
  · intro rid r v hr hv
    obtain ⟨l, hl⟩ : ∃ l, r.lease = some l := by
      cases hl : r.lease with
      | some l => exact ⟨l, rfl⟩
      | none =>
        rw [hinv.session.unlinked hr hl] at hv
        cases hv
    obtain ⟨e, he, -, hscope, hreference⟩ := hinv.session.linked hr hl
    obtain ⟨call, hcall⟩ := hinv.held hr hl hv
    have hacquired := (hinv.minted he).2
    rw [hscope, hreference] at hacquired
    exact ⟨l, call, hl, isSome_iff_exists.mpr ⟨e, he⟩, hacquired, hinv.registered hr, hcall⟩
  · intro a l t u hends hstep hrun rid r hr hl
    have hfresh : FreshIds s a := by
      cases a with
      | acquireFinish i id now later => exact hends.elim
      | _ => exact fun _ h => by cases h
    have hgone := hrun.invariant (P := fun u => WorldInv u ∧ Gone u l)
      ⟨(hinv.step hfresh hstep).1, hinv.gone hends hstep⟩
      fun h hok hs => ⟨(h.1.step hok hs).1, h.2.step hok (h.1.step hok hs).2⟩
    obtain ⟨e, he, -⟩ := hgone.1.session.linked hr hl
    rw [hgone.2.2] at he
    cases he

/-! ## One delivery -/

def sampleScope : CustodyScope := ⟨1, ['n'], ['i'], ['s'], ['m'], .mailRecovery⟩

def sampleReference : ObjectRef := ⟨['o'], ['1'], ['1'], replicate 64 'a'⟩

def readBy (w : Nat) : List (Action Nat) := [.workerRead w (.ok 42) 0, .workerSend w 0]

def acquiring (i : Nat) (id : Id) : List (Action Nat) :=
  [.acquire sampleScope sampleReference 0 0, .acquireLock i, .acquireRun i true 0] ++ readBy i ++
    [.acquirePoll i 0, .acquireFinish i id 0 0]

/-- An object is granted, a receiver registered, a lease acquired and delivered. -/
def sampleDelivery : List (Action Nat) :=
  [.grant sampleScope sampleReference, .register sampleScope sampleReference 1 0] ++
    acquiring 0 7 ++ [.deliver 0 1 true 0, .deliverLock 0 0 0, .deliverRun 0 true 0] ++
    readBy 1 ++ [.deliverPoll 0 0, .deliverRun 0 true 0] ++ readBy 2 ++
    [.deliverPoll 0 0, .deliverFinish 0 0]

def sampleHolds (s : World Nat) : Bool :=
  (s.session.receivers.get? 1).any fun r => r.value = some 42

theorem custody_delivery_exact_sample : ∃ s r, (custodyMachine Nat).Reachable FreshIds s ∧
    s.session.receivers.get? 1 = some r ∧ r.value = some 42 ∧ ∃ l call, r.lease = some l ∧
      DeliveredBy s.events call l 1 r.scope r.reference 42 := by
  have hexec : ((custodyMachine Nat).exec (.start Nat) sampleDelivery).any sampleHolds = true := by
    decide +kernel
  obtain ⟨s, hs, hholds⟩ := (any_eq_true _ _).mp hexec
  obtain ⟨r, hr, hv⟩ := (any_eq_true _ _).mp hholds
  have hv : r.value = some 42 := of_decide_eq_true hv
  have hallowed : (custodyMachine Nat).Allowed FreshIds (.start Nat) sampleDelivery := by
    decide +kernel
  have hreach : (custodyMachine Nat).Reachable FreshIds s :=
    ⟨.start Nat, rfl, Machine.run_of_exec hallowed hs⟩
  obtain ⟨-, -, hexact, -⟩ := custody_delivery_exact hreach
  obtain ⟨l, call, hl, -, -, -, hcall⟩ := hexact hr hv
  exact ⟨s, r, hreach, hr, hv, l, call, hl, hcall⟩

/-! ## One delivery at a time -/

/-- Over every interleaving, two deliveries past their first lock are for different leases, and a
linked receiver is linked to a live, started lease for its own scope and reference. -/
theorem custody_leases_exclusive (hreach : (custodyMachine κ).Reachable FreshIds s) :
    (∀ {i j : Nat} {c c' : DeliverCall κ} {d d' : Delivery}, s.deliveries[i]? = some c →
      s.deliveries[j]? = some c' → c.phase.delivery? = some d → c'.phase.delivery? = some d' →
        c.lease = c'.lease → i = j) ∧
    ∀ {rid l : Id} {r : ReceiverEntry κ}, s.session.receivers.get? rid = some r → r.lease = some l →
      ∃ e, s.session.leases.get? l = some e ∧ e.started = true ∧ e.scope = r.scope ∧
        e.reference = r.reference := by
  have hinv : WorldInv s := hreach.invariant (fun h => h ▸ .start)
    fun h hfresh hstep => (h.step hfresh hstep).1
  exact ⟨hinv.alone, hinv.session.linked⟩

/-- Two leases on one object, and three deliveries: the last one is refused, since its lease is
the one of the first. -/
def overlapping : List (Action Nat) :=
  [.grant sampleScope sampleReference, .register sampleScope sampleReference 1 0,
    .register sampleScope sampleReference 2 0] ++ acquiring 0 7 ++ acquiring 1 8 ++
    [.deliver 0 1 true 0, .deliver 1 2 true 0, .deliver 0 2 true 0, .deliverLock 0 0 0,
      .deliverLock 1 0 0, .deliverLock 2 0 0]

def admittedAt (s : World Nat) (i : Nat) : Bool :=
  (s.deliveries[i]?).any fun c => c.phase.delivery?.isSome

theorem custody_leases_exclusive_sample : ∃ s c c' e, (custodyMachine Nat).Reachable FreshIds s ∧
    s.deliveries[0]? = some c ∧ s.deliveries[1]? = some c' ∧ c.lease ≠ c'.lease ∧
    s.session.leases.get? 8 = some e ∧ e.started = true := by
  have hexec : ((custodyMachine Nat).exec (.start Nat) overlapping).any (fun s =>
      admittedAt s 0 && admittedAt s 1 && (s.session.receivers.get? 2).any (·.lease = some 8))
      = true := by
    decide +kernel
  obtain ⟨s, hs, hboth⟩ := (any_eq_true _ _).mp hexec
  simp only [Bool.and_eq_true] at hboth
  obtain ⟨⟨hfirst, hsecond⟩, hlinked⟩ := hboth
  obtain ⟨c, hc, hd⟩ := (any_eq_true _ _).mp hfirst
  obtain ⟨c', hc', hd'⟩ := (any_eq_true _ _).mp hsecond
  obtain ⟨d, hd⟩ := isSome_iff_exists.mp hd
  obtain ⟨d', hd'⟩ := isSome_iff_exists.mp hd'
  obtain ⟨r, hr, hl⟩ := (any_eq_true _ _).mp hlinked
  have hreach : (custodyMachine Nat).Reachable FreshIds s :=
    ⟨.start Nat, rfl, Machine.run_of_exec (by decide +kernel) hs⟩
  obtain ⟨halone, hlive⟩ := custody_leases_exclusive hreach
  obtain ⟨e, he, hstarted, -⟩ := hlive hr (of_decide_eq_true hl)
  have hne : c.lease ≠ c'.lease := fun heq => Nat.zero_ne_one (halone hc hc' hd hd' heq)
  exact ⟨s, c, c', e, hreach, hc, hc', hne, he, hstarted⟩

end SentinelPass.Custody
