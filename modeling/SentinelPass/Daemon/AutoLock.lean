import SentinelPass.Lib.Machine

/-!
# The inactivity lock

`DaemonVault` (`daemon/vault_state.rs`) with a clock. The tasks are the calls of the daemon
and one timer for each unlock; all of them go through the mutex around the manager, which is
handed over in the order of the requests. `sync_now` and `claim_sync_migration` keep it until
the network has answered.

The scheduler is fair: the clock moves only when no task can run (`Daemon.Settled`), and what
a task does between two waits takes no time. Times are in milliseconds.

A sleeping timer ticks before the inactivity bound (`TimerOk`), and its tick asks for the
mutex. So the bound is met, unless a call that waits for the network has the mutex.
-/

namespace SentinelPass.AutoLock

open Lib List Option Machine

inductive LockState
  | locked
  | unlocked
deriving DecidableEq

/-- The calls that hold the manager over a network request. -/
inductive NetworkCall
  | syncNow
  | claimSyncMigration
deriving DecidableEq

/-- The calls that take the mutex: `unlock_with_manager`, `lock`, the queries, of which some
record activity, and the network calls. -/
inductive Call (μ : Type)
  | unlockWithManager (vault : μ)
  | lock
  | query (records : Bool)
  | network (call : NetworkCall)

inductive Waiter (μ : Type)
  | call (c : Call μ)
  | timer (i : Nat)

/-- Where an auto-lock task is: not yet run, in `tick`, waiting for the mutex. -/
inductive TimerPhase
  | starting
  | sleeping
  | waiting
deriving DecidableEq

/-- An auto-lock task, with the time of its next tick. -/
structure Timer where
  phase : TimerPhase
  next : Nat

structure Daemon (μ : Type) where
  (now lastActivity : Nat)
  manager : Option μ
  state : LockState
  timers : List Timer
  holder : Option NetworkCall
  queue : List (Waiter μ)

def checkInterval (timeout : Nat) : Nat := if timeout = 0 then 1000 else min timeout 5000

def Timer.due (now : Nat) (t : Timer) : Bool :=
  match t.phase with
  | .starting => true
  | .sleeping => t.next ≤ now
  | .waiting => false

inductive Action (μ : Type)
  | advance (d : Nat)
  | recordActivity
  | request (c : Call μ)
  | poll (i : Nat)
  | grant
  | finish

/-- A step of a task, between two movements of the clock. -/
def Action.isTask {μ : Type} : Action μ → Bool
  | poll _ | grant => true
  | _ => false

section Model

variable {μ : Type}

def Daemon.Settled (s : Daemon μ) : Prop :=
  (∀ t ∈ s.timers, t.due s.now = false) ∧ (s.holder = none → s.queue = [])

instance (s : Daemon μ) : Decidable s.Settled :=
  inferInstanceAs (Decidable (_ ∧ (s.holder = none → s.queue = [])))

def Daemon.drop (s : Daemon μ) : Daemon μ := { s with manager := none, state := .locked }

def Daemon.setTimer (s : Daemon μ) (i : Nat) (t : Timer) : Daemon μ :=
  { s with timers := s.timers.set i t }

/-- The auto-lock task runs: its first `tick` is over at once, every later one checks the
activity and asks for the mutex. Ticks it has missed come one after the other. -/
def pollTimer (timeout : Nat) (s : Daemon μ) (i : Nat) : Option (Daemon μ) :=
  s.timers[i]?.bind fun t =>
    if t.due s.now = false then none
    else if t.phase = .starting then
      some (s.setTimer i ⟨.sleeping, s.now + checkInterval timeout⟩)
    else if s.state = .unlocked ∧ timeout ≤ s.now - s.lastActivity then
      some { s.setTimer i ⟨.waiting, t.next + checkInterval timeout⟩ with
        queue := s.queue ++ [.timer i] }
    else some (s.setTimer i ⟨.sleeping, t.next + checkInterval timeout⟩)

def recheck (timeout : Nat) (s : Daemon μ) (i : Nat) : Daemon μ :=
  let s' := { s with timers := s.timers.modify i fun t => { t with phase := .sleeping } }
  if s.now - s.lastActivity < timeout then s' else s'.drop

/-- A call has the mutex. All but the network calls give it back at once. -/
def serve (s : Daemon μ) : Call μ → Daemon μ
  | .unlockWithManager vault =>
    { s with
      manager := some vault
      state := .unlocked
      lastActivity := s.now
      timers := s.timers ++ [⟨.starting, s.now⟩] }
  | .lock => s.drop
  | .query records =>
    if s.manager.isSome && records then { s with lastActivity := s.now } else s
  | .network call => if s.manager.isSome then { s with holder := some call } else s

def grantMutex (timeout : Nat) (s : Daemon μ) : Option (Daemon μ) :=
  if s.holder = none then
    match s.queue with
    | [] => none
    | .call c :: rest => some (serve { s with queue := rest } c)
    | .timer i :: rest => some (recheck timeout { s with queue := rest } i)
  else none

def daemonStep (timeout : Nat) (s : Daemon μ) : Action μ → Option (Daemon μ)
  | .advance d =>
    if s.Settled ∧ ∀ t ∈ s.timers, t.phase = .sleeping → s.now + d ≤ t.next then
      some { s with now := s.now + d }
    else none
  | .recordActivity => some { s with lastActivity := s.now }
  | .request c => some { s with queue := s.queue ++ [.call c] }
  | .poll i => pollTimer timeout s i
  | .grant => grantMutex timeout s
  | .finish => if s.holder = none then none else some { s with holder := none }

def Daemon.new (now : Nat) : Daemon μ := ⟨now, now, none, .locked, [], none, []⟩

def daemonMachine (μ : Type) (timeout : Nat) : Machine (Daemon μ) (Action μ) where
  init s := ∃ now, s = .new now
  step := daemonStep timeout

/-! ## The invariant -/

variable {timeout : Nat} {s s' : Daemon μ} {i since : Nat}

/-- A task, by its phase. A sleeping one ticks again before the bound. -/
structure TimerOk (timeout : Nat) (s : Daemon μ) (i : Nat) (t : Timer) : Prop where
  next_le : t.next ≤ s.now + checkInterval timeout
  starting : t.phase = .starting → s.lastActivity = s.now
  sleeping : t.phase = .sleeping → s.state = .unlocked →
    t.next < s.lastActivity + timeout + checkInterval timeout
  waiting : t.phase = .waiting → .timer i ∈ s.queue

structure DaemonInv (timeout : Nat) (s : Daemon μ) : Prop where
  activity_le : s.lastActivity ≤ s.now
  loaded : s.manager = none ↔ s.state = .locked
  held : s.holder ≠ none → s.manager ≠ none
  started : s.state = .unlocked → s.timers ≠ []
  timers : ∀ (i : Nat) (t : Timer), s.timers[i]? = some t → TimerOk timeout s i t

/-- Once no task can run, an unlocked vault whose mutex is free is within the bound. -/
theorem DaemonInv.now_lt (h : DaemonInv timeout s) (hsettled : s.Settled)
    (hfree : s.holder = none) (hunlocked : s.state = .unlocked) :
    s.now < s.lastActivity + timeout + checkInterval timeout := by
  obtain ⟨t, rest, htimers⟩ := exists_cons_of_ne_nil (h.started hunlocked)
  have hmem : t ∈ s.timers := htimers ▸ mem_cons_self
  obtain ⟨i, hi⟩ := mem_iff_getElem?.mp hmem
  have hok := h.timers i t hi
  have hdue := hsettled.1 t hmem
  unfold Timer.due at hdue
  split at hdue
  · cases hdue
  · next hphase =>
    have hlt := hok.sleeping hphase hunlocked
    have hnext : s.now < t.next := by simpa using hdue
    omega
  · next hphase =>
    have hqueue := hok.waiting hphase
    rw [hsettled.2 hfree] at hqueue
    cases hqueue

/-! ## The steps -/

theorem DaemonInv.new (now : Nat) : DaemonInv timeout (.new now : Daemon μ) where
  activity_le := Nat.le_refl _
  loaded := ⟨fun _ => rfl, fun _ => rfl⟩
  held hne := absurd rfl hne
  started := nofun
  timers _ _ hi := absurd (mem_of_getElem? hi) not_mem_nil

section

variable (h : DaemonInv timeout s)

include h

theorem DaemonInv.advance (hsettled : s.Settled) (d : Nat) :
    DaemonInv timeout { s with now := s.now + d } :=
  { h with
    activity_le := Nat.le_trans h.activity_le (Nat.le_add_right _ _)
    timers i t hi := by
      obtain ⟨hnext, -, hsleeping, hwaiting⟩ := h.timers i t hi
      refine ⟨?_, fun hphase => ?_, hsleeping, hwaiting⟩
      · exact Nat.le_trans hnext (Nat.add_le_add_right (Nat.le_add_right _ _) _)
      · have hdue := hsettled.1 t (mem_of_getElem? hi)
        unfold Timer.due at hdue
        rw [hphase] at hdue
        cases hdue }

theorem DaemonInv.activity : DaemonInv timeout { s with lastActivity := s.now } :=
  { h with
    activity_le := Nat.le_refl _
    timers i t hi := by
      obtain ⟨hnext, -, hsleeping, hwaiting⟩ := h.timers i t hi
      refine ⟨hnext, fun _ => rfl, fun hphase hunlocked => ?_, hwaiting⟩
      have hlt := hsleeping hphase hunlocked
      have hle := h.activity_le
      show t.next < s.now + timeout + _
      omega }

theorem DaemonInv.setQueue {queue} (hqueue : ∀ i, .timer i ∈ s.queue → .timer i ∈ queue) :
    DaemonInv timeout { s with queue := queue } :=
  { h with
    timers i t hi := by
      obtain ⟨hnext, hstarting, hsleeping, hwaiting⟩ := h.timers i t hi
      exact ⟨hnext, hstarting, hsleeping, fun hphase => hqueue i (hwaiting hphase)⟩ }

theorem DaemonInv.setTimer {t : Timer} (ht : TimerOk timeout s i t) : DaemonInv timeout
    (s.setTimer i t) :=
  { h with
    started hunlocked heq := by
      have hlen : (s.timers.set i t).length = 0 := congrArg length heq
      rw [length_set] at hlen
      exact h.started hunlocked (eq_nil_of_length_eq_zero hlen)
    timers j u hu := by
      change (s.timers.set i t)[j]? = some u at hu
      rw [getElem?_set] at hu
      split at hu
      · next hij =>
        subst hij
        split at hu
        · cases hu
          exact ⟨ht.next_le, ht.starting, ht.sleeping, ht.waiting⟩
        · cases hu
      · obtain ⟨hnext, hstarting, hsleeping, hwaiting⟩ := h.timers j u hu
        exact ⟨hnext, hstarting, hsleeping, hwaiting⟩ }

theorem DaemonInv.poll (hpos : 0 < timeout) (hstep : pollTimer timeout s i = some s') :
    DaemonInv timeout s' := by
  obtain ⟨t, hi, hstep⟩ := bind_eq_some_iff.mp hstep
  have hok := h.timers i t hi
  split at hstep
  · cases hstep
  next hdue =>
  split at hstep
  · next hphase =>
    cases hstep
    refine h.setTimer ⟨Nat.le_refl _, nofun, fun _ _ => ?_, nofun⟩
    have hnow := hok.starting hphase
    show s.now + _ < _
    omega
  next hphase =>
  have hnext : t.next ≤ s.now := by
    unfold Timer.due at hdue
    split at hdue
    · next hstarting => exact absurd hstarting hphase
    · simpa using hdue
    exact absurd rfl hdue
  have hbound : t.next + checkInterval timeout ≤ s.now + checkInterval timeout :=
    Nat.add_le_add_right hnext _
  split at hstep
  · cases hstep
    -- the queue first: the task is in it before it waits
    have hqueue : DaemonInv timeout { s with queue := s.queue ++ [.timer i] } :=
      h.setQueue fun j hj => mem_append_left _ hj
    exact hqueue.setTimer ⟨hbound, nofun, nofun, fun _ => mem_concat_self⟩
  · next hearly =>
    cases hstep
    refine h.setTimer ⟨hbound, nofun, fun _ hunlocked => ?_, nofun⟩
    rw [not_and, Nat.not_le] at hearly
    have hlt := hearly hunlocked
    show t.next + _ < _
    omega

theorem DaemonInv.drop (hfree : s.holder = none) : DaemonInv timeout s.drop where
  activity_le := h.activity_le
  loaded := ⟨fun _ => rfl, fun _ => rfl⟩
  held hne := absurd hfree hne
  started := nofun
  timers i t hi := by
    obtain ⟨hnext, hstarting, -, hwaiting⟩ := h.timers i t hi
    exact ⟨hnext, hstarting, fun _ => nofun, hwaiting⟩

theorem DaemonInv.serve (hpos : 0 < timeout) (hfree : s.holder = none) (c : Call μ) :
    DaemonInv timeout (serve s c) := by
  cases c with
  | unlockWithManager vault =>
    refine ⟨Nat.le_refl _, ⟨nofun, nofun⟩, fun _ => nofun, fun _ => ?_, fun i t hi => ?_⟩
    · exact append_ne_nil_of_right_ne_nil _ (cons_ne_nil _ _)
    · change (s.timers ++ [_])[i]? = some t at hi
      rcases getElem?_snoc.mp hi with hi | ⟨-, rfl⟩
      · obtain ⟨hnext, -, -, hwaiting⟩ := h.timers i t hi
        refine ⟨hnext, fun _ => rfl, fun _ _ => ?_, hwaiting⟩
        show t.next < s.now + timeout + _
        omega
      · exact ⟨Nat.le_add_right _ _, fun _ => rfl, nofun, nofun⟩
  | lock => exact h.drop hfree
  | query records =>
    show DaemonInv timeout (ite _ _ _)
    split
    · exact h.activity
    exact h
  | network call =>
    show DaemonInv timeout (ite _ _ _)
    split
    · next hsome =>
      refine ⟨h.activity_le, h.loaded, fun _ => ne_none_iff_isSome.mpr hsome, h.started,
        fun i t hi => ?_⟩
      obtain ⟨hnext, hstarting, hsleeping, hwaiting⟩ := h.timers i t hi
      exact ⟨hnext, hstarting, hsleeping, hwaiting⟩
    · exact h

/-- The task at the head of the queue sleeps again; it must tick before the bound if the
vault stays unlocked. -/
theorem TimerOk.resumed {i : Nat} {rest : List (Waiter μ)}
    (hqueue : s.queue = .timer i :: rest)
    (hearly : s.state = .unlocked → s.now - s.lastActivity < timeout) {j : Nat} {t : Timer}
    (hj : (s.timers.modify i fun t => { t with phase := .sleeping })[j]? = some t) :
    TimerOk timeout { s with queue := rest } j t := by
  by_cases hij : i = j
  · subst hij
    rw [getElem?_modify_eq] at hj
    obtain ⟨u, hu, rfl⟩ := map_eq_some_iff.mp hj
    have hnext := (h.timers i u hu).next_le
    refine ⟨hnext, nofun, fun _ hunlocked => ?_, nofun⟩
    have hlt := hearly hunlocked
    show u.next < s.lastActivity + timeout + _
    omega
  · rw [getElem?_modify_ne _ _ hij] at hj
    obtain ⟨hnext, hstarting, hsleeping, hwaiting⟩ := h.timers j t hj
    refine ⟨hnext, hstarting, hsleeping, fun hphase => ?_⟩
    have hmem := hwaiting hphase
    rw [hqueue] at hmem
    rcases mem_cons.mp hmem with heq | hmem
    · exact absurd (Waiter.timer.inj heq).symm hij
    exact hmem

theorem DaemonInv.recheck {i : Nat} {rest : List (Waiter μ)} (hfree : s.holder = none)
    (hqueue : s.queue = .timer i :: rest) :
    DaemonInv timeout (recheck timeout { s with queue := rest } i) := by
  show DaemonInv timeout (ite _ _ _)
  split
  · next hearly =>
    refine ⟨h.activity_le, h.loaded, h.held, fun hunlocked heq => ?_, fun j t hj => ?_⟩
    · have hlen := congrArg length heq
      rw [length_modify] at hlen
      exact h.started hunlocked (eq_nil_of_length_eq_zero hlen)
    · obtain ⟨hnext, hstarting, hsleeping, hwaiting⟩ :=
        TimerOk.resumed h hqueue (fun _ => hearly) hj
      exact ⟨hnext, hstarting, hsleeping, hwaiting⟩
  · refine ⟨h.activity_le, ⟨fun _ => rfl, fun _ => rfl⟩, fun hne => absurd hfree hne, nofun,
      fun j t hj => ?_⟩
    have hdrop := h.drop hfree
    obtain ⟨hnext, hstarting, -, hwaiting⟩ := TimerOk.resumed hdrop hqueue nofun hj
    exact ⟨hnext, hstarting, fun _ => nofun, hwaiting⟩

theorem DaemonInv.step (hpos : 0 < timeout) {a} (hstep : daemonStep timeout s a = some s') :
    DaemonInv timeout s' := by
  cases a with
  | advance d =>
    change ite _ _ _ = some s' at hstep
    split at hstep
    · next hclock =>
      cases hstep
      exact h.advance hclock.1 d
    · cases hstep
  | recordActivity =>
    cases hstep
    exact h.activity
  | request c =>
    cases hstep
    exact h.setQueue fun i hi => mem_append_left _ hi
  | poll i => exact h.poll hpos hstep
  | grant =>
    change grantMutex timeout s = some s' at hstep
    unfold grantMutex at hstep
    split at hstep
    · next hfree =>
      split at hstep
      · cases hstep
      · next c rest hqueue =>
        cases hstep
        have hrest : DaemonInv timeout { s with queue := rest } := h.setQueue fun i hi => by
          rw [hqueue] at hi
          exact (mem_cons.mp hi).resolve_left nofun
        exact hrest.serve hpos hfree c
      · next i rest hqueue =>
        cases hstep
        exact h.recheck hfree hqueue
    · cases hstep
  | finish =>
    change ite _ _ _ = some s' at hstep
    split at hstep
    · cases hstep
    · cases hstep
      refine ⟨h.activity_le, h.loaded, fun hne => absurd rfl hne, h.started, fun i t hi => ?_⟩
      obtain ⟨hnext, hstarting, hsleeping, hwaiting⟩ := h.timers i t hi
      exact ⟨hnext, hstarting, hsleeping, hwaiting⟩

end

/-! ## The clock is never stopped -/

/-- What a task may still do at this instant: the ticks it has missed, each with a turn in the
queue. -/
def Timer.work (now : Nat) (t : Timer) : Nat :=
  2 * (now + 1 - t.next) + if t.phase = .starting then 1 else 0

def Waiter.work : Waiter μ → Nat
  | .call _ => 4
  | .timer _ => 1

def total {α : Type} (f : α → Nat) : List α → Nat
  | [] => 0
  | a :: rest => f a + total f rest

def Daemon.work (s : Daemon μ) : Nat :=
  total (Timer.work s.now) s.timers + total Waiter.work s.queue

theorem total_concat {α : Type} (f l) (a : α) : total f (l ++ [a]) = total f l + f a := by
  induction l with
  | nil => exact Nat.add_comm _ _
  | cons x rest ih => simp only [cons_append, total, ih, Nat.add_assoc]

theorem total_set {α : Type} (f) {l a} (h : l[i]? = some a) (b : α) :
    total f (l.set i b) + f a = total f l + f b := by
  induction l generalizing i with
  | nil => cases h
  | cons x rest ih =>
    cases i with
    | zero =>
      cases h
      simp only [set_cons_zero, total]
      omega
    | succ i =>
      have := ih h
      simp only [set_cons_succ, total]
      omega

theorem total_modify_le {α : Type} (f) {g} (hg : ∀ a, f (g a) ≤ f a) (l : List α) (i) :
    total f (l.modify i g) ≤ total f l := by
  induction l generalizing i with
  | nil => simp
  | cons x rest ih =>
    cases i with
    | zero =>
      have := hg x
      simp only [modify_zero_cons, total]
      omega
    | succ i =>
      have := ih i
      simp only [modify_succ_cons, total]
      omega

theorem checkInterval_pos (timeout : Nat) : 0 < checkInterval timeout := by
  unfold checkInterval
  split <;> omega

open Daemon

theorem poll_work (timeout) {t} (hi : s.timers[i]? = some t) (hdue : t.due s.now = true) :
    ∃ s', pollTimer timeout s i = some s' ∧ s'.work < s.work ∧ s'.now = s.now := by
  have hc := checkInterval_pos timeout
  have hset := total_set (Timer.work s.now) hi
  have hnotdue : ¬ t.due s.now = false := by rw [hdue]; exact nofun
  unfold pollTimer
  rw [hi, bind_some, if_neg hnotdue]
  by_cases hphase : t.phase = .starting
  · rw [if_pos hphase]
    refine ⟨_, rfl, ?_, rfl⟩
    have hw := hset ⟨.sleeping, s.now + checkInterval timeout⟩
    simp only [Timer.work, hphase, if_true, reduceCtorEq, if_false] at hw
    unfold work setTimer
    dsimp only
    omega
  · have hnext : t.next ≤ s.now := by
      unfold Timer.due at hdue
      split at hdue
      · next hstarting => exact absurd hstarting hphase
      · simpa using hdue
      · cases hdue
    rw [if_neg hphase]
    split
    · refine ⟨_, rfl, ?_, rfl⟩
      have hw := hset ⟨.waiting, t.next + checkInterval timeout⟩
      simp only [Timer.work, hphase, reduceCtorEq] at hw
      unfold work setTimer
      simp only [total_concat, Waiter.work]
      omega
    · refine ⟨_, rfl, ?_, rfl⟩
      have hw := hset ⟨.sleeping, t.next + checkInterval timeout⟩
      simp only [Timer.work, hphase, reduceCtorEq] at hw
      unfold work setTimer
      dsimp only
      omega

theorem serve_work (s : Daemon μ) (c : Call μ) :
    (serve s c).work ≤ s.work + 3 ∧ (serve s c).now = s.now := by
  cases c with
  | unlockWithManager vault =>
    refine ⟨?_, rfl⟩
    unfold serve work
    simp only [total_concat, Timer.work, if_true]
    omega
  | lock => exact ⟨Nat.le_add_right _ _, rfl⟩
  | query records =>
    show work (ite _ _ _) ≤ _ ∧ now (ite _ _ _) = _
    split <;> exact ⟨Nat.le_add_right _ _, rfl⟩
  | network call =>
    show work (ite _ _ _) ≤ _ ∧ now (ite _ _ _) = _
    split <;> exact ⟨Nat.le_add_right _ _, rfl⟩

theorem recheck_work (timeout) (s : Daemon μ) (i) :
    (recheck timeout s i).work ≤ s.work ∧ (recheck timeout s i).now = s.now := by
  have hle : ∀ t : Timer, Timer.work s.now { t with phase := .sleeping } ≤ t.work s.now := by
    intro t
    simp only [Timer.work, reduceCtorEq, if_false]
    omega
  have hsum := total_modify_le _ hle s.timers i
  show work (ite _ _ _) ≤ _ ∧ now (ite _ _ _) = _
  split <;> exact ⟨Nat.add_le_add_right hsum _, rfl⟩

theorem grant_work (timeout : Nat) (hfree : s.holder = none) (hqueue : s.queue ≠ []) :
    ∃ s', grantMutex timeout s = some s' ∧ s'.work < s.work ∧ s'.now = s.now := by
  unfold grantMutex
  rw [if_pos hfree]
  obtain ⟨w, rest, hq⟩ := exists_cons_of_ne_nil hqueue
  rw [hq]
  have hwork : s.work = work { s with queue := rest } + w.work := by
    unfold work
    rw [hq, total]
    dsimp only
    omega
  cases w with
  | call c =>
    obtain ⟨hle, hnow⟩ := serve_work { s with queue := rest } c
    refine ⟨_, rfl, ?_, hnow⟩
    rw [hwork]
    exact Nat.lt_of_le_of_lt hle (Nat.add_lt_add_left (by decide : 3 < 4) _)
  | timer i =>
    obtain ⟨hle, hnow⟩ := recheck_work timeout { s with queue := rest } i
    refine ⟨_, rfl, ?_, hnow⟩
    rw [hwork]
    exact Nat.lt_succ_of_le hle

theorem exists_settled (timeout s) :
    ∃ s', (daemonMachine μ timeout).Run (fun _ a => a.isTask = true) s s' ∧ s'.Settled ∧
      s'.now = s.now := by
  induction hn : s.work using Nat.strongRecOn generalizing s with
  | ind n ih =>
    have hcontinue : ∀ {a : Action μ} {s₁ : Daemon μ}, a.isTask = true →
        daemonStep timeout s a = some s₁ → s₁.work < s.work ∧ s₁.now = s.now →
        ∃ s', (daemonMachine μ timeout).Run (fun _ a => a.isTask = true) s s' ∧ s'.Settled ∧
          s'.now = s.now := by
      rintro a s₁ htask hstep ⟨hless, hnow⟩
      obtain ⟨s', hrun, hsettled, hnow'⟩ := ih s₁.work (hn ▸ hless) s₁ rfl
      have hone : (daemonMachine μ timeout).Run (fun _ a => a.isTask = true) s s₁ :=
        .step .refl htask hstep
      exact ⟨s', hone.trans hrun, hsettled, hnow'.trans hnow⟩
    by_cases htimers : ∀ t ∈ s.timers, t.due s.now = false
    · by_cases hqueue : s.holder = none → s.queue = []
      · exact ⟨s, .refl, ⟨htimers, hqueue⟩, rfl⟩
      · obtain ⟨hfree, hne⟩ := Classical.not_imp.mp hqueue
        obtain ⟨s₁, hstep, hless⟩ := grant_work timeout hfree hne
        exact hcontinue (a := .grant) rfl hstep hless
    · simp only [not_forall] at htimers
      obtain ⟨t, ht, hdue⟩ := htimers
      obtain ⟨i, hi⟩ := mem_iff_getElem?.mp ht
      obtain ⟨s₁, hstep, hless⟩ := poll_work timeout hi (by simpa using hdue)
      exact hcontinue (a := .poll i) rfl hstep hless

/-! ## The bound -/

/-- **Inactivity locks the vault, unless a call is waiting for the network.** At any time from
`lastActivity + timeout + checkInterval timeout` on, in every run: the tasks come to rest
before the clock moves, and when they have, the vault is locked iff no call has the manager. -/
theorem inactive_locked_iff {μ : Type} {timeout : Nat} (hpos : 0 < timeout) {s : Daemon μ}
    (h : (daemonMachine μ timeout).Reachable (fun _ _ => True) s)
    (hdue : s.lastActivity + timeout + checkInterval timeout ≤ s.now) :
    (∃ s', (daemonMachine μ timeout).Run (fun _ a => a.isTask = true) s s' ∧ s'.Settled ∧
      s'.now = s.now) ∧
    (s.Settled → ((s.manager = none ∧ s.state = .locked) ↔ s.holder = none)) := by
  have hinv : DaemonInv timeout s :=
    h.invariant (fun ⟨now, hnew⟩ => hnew ▸ DaemonInv.new now) fun hi _ hs => hi.step hpos hs
  refine ⟨exists_settled timeout s, fun hsettled => ⟨fun hlocked => ?_, fun hfree => ?_⟩⟩
  · by_contra hheld
    exact hinv.held hheld hlocked.1
  · have hlocked : s.state = .locked := by
      cases hstate : s.state with
      | locked => rfl
      | unlocked =>
        have := hinv.now_lt hsettled hfree hstate
        omega
    exact ⟨hinv.loaded.mpr hlocked, hlocked⟩

/-! ## A vault in use -/

/-- A lookup, a save, or an operation of a service. -/
def Call.isOperation : Call μ → Bool
  | query _ | network _ => true
  | unlockWithManager _ | lock => false

/-- The step serves an operation on the unlocked manager. -/
def Serves (s : Daemon μ) (a : Action μ) : Prop :=
  a = .grant ∧ s.manager.isSome ∧ ∃ c rest, s.queue = .call c :: rest ∧ c.isOperation

/-- An auto-lock task locks the vault. -/
def AutoLocks (timeout : Nat) (s s' : Daemon μ) : Prop :=
  daemonStep timeout s .grant = some s' ∧ s.state = .unlocked ∧ s'.state = .locked ∧
    ∃ i rest, s.queue = .timer i :: rest

/-- The operation that is served records activity, and the vault is unlocked only if no task
runs yet. -/
def recorded (s : Daemon μ) (a : Action μ) : Bool :=
  match a, s.queue with
  | .grant, .call (.query false) :: _ | .grant, .call (.network _) :: _ => s.manager.isNone
  | .grant, .call (.unlockWithManager _) :: _ => s.timers.isEmpty
  | _, _ => true

/-- Activity is not forgotten, and one task at most is there. -/
structure InUse (since : Nat) (s : Daemon μ) : Prop where
  since_le : since ≤ s.lastActivity
  activity_le : s.lastActivity ≤ s.now
  one : s.timers.length ≤ 1

theorem InUse.serve {c : Call μ} (h : InUse since s)
    (hok : ∀ v, c = .unlockWithManager v → s.timers = []) : InUse since (serve s c) := by
  have hle := Nat.le_trans h.since_le h.activity_le
  cases c with
  | unlockWithManager vault =>
    refine ⟨hle, Nat.le_refl _, ?_⟩
    show (s.timers ++ [_]).length ≤ 1
    rw [hok vault rfl]
    exact Nat.le_refl 1
  | lock => exact { h with }
  | query records =>
    show InUse since (ite _ _ _)
    split
    · exact ⟨hle, Nat.le_refl _, h.one⟩
    · exact h
  | network call =>
    show InUse since (ite _ _ _)
    split
    · exact { h with }
    · exact h

theorem InUse.step {a} (h : InUse since s) (hok : recorded s a)
    (hstep : daemonStep timeout s a = some s') : InUse since s' := by
  cases a with
  | advance d =>
    change ite _ _ _ = some s' at hstep
    split at hstep
    · cases hstep
      exact { h with activity_le := Nat.le_add_right_of_le h.activity_le }
    · cases hstep
  | recordActivity =>
    cases hstep
    exact ⟨Nat.le_trans h.since_le h.activity_le, Nat.le_refl _, h.one⟩
  | request c =>
    cases hstep
    exact { h with }
  | poll i =>
    obtain ⟨t, -, hstep⟩ := bind_eq_some_iff.mp hstep
    have hset : ∀ t, (s.timers.set i t).length ≤ 1 := fun t => by
      rw [length_set]
      exact h.one
    split at hstep
    · cases hstep
    split at hstep
    · cases hstep
      exact { h with one := hset _ }
    split at hstep <;> cases hstep
    · exact { h with one := hset _ }
    · exact { h with one := hset _ }
  | grant =>
    change grantMutex timeout s = some s' at hstep
    unfold grantMutex at hstep
    split at hstep
    · split at hstep
      · cases hstep
      · next c rest hqueue =>
        cases hstep
        refine InUse.serve { h with } fun v hv => ?_
        subst hv
        simp only [recorded, hqueue] at hok
        exact isEmpty_iff.mp hok
      · next i rest hqueue =>
        cases hstep
        have hone : (s.timers.modify i fun t => { t with phase := .sleeping }).length ≤ 1 := by
          rw [length_modify]
          exact h.one
        show InUse since (ite _ _ _)
        split
        · exact { h with one := hone }
        · exact { h with one := hone }
    · cases hstep
  | finish =>
    change ite _ _ _ = some s' at hstep
    split at hstep
    · cases hstep
    · cases hstep
      exact { h with }

theorem AutoLocks.idle (h : AutoLocks timeout s s') (hinv : InUse since s) :
    since + timeout ≤ s.now := by
  obtain ⟨hstep, hunlocked, hlocked, i, rest, hqueue⟩ := h
  change grantMutex timeout s = some s' at hstep
  unfold grantMutex at hstep
  rw [hqueue] at hstep
  split at hstep
  · cases hstep
    have hsince := hinv.since_le
    have hle := hinv.activity_le
    by_contra hearly
    have hrecent : s.now - s.lastActivity < timeout := by omega
    unfold recheck at hlocked
    rw [if_pos hrecent] at hlocked
    cases hunlocked.symm.trans hlocked
  · cases hstep

/-- **A vault in use is not locked**, in every run whose operations record activity and that
unlocks the vault once: after an operation the timeout passes before a task locks the vault,
and there is one task at most. -/
theorem in_use_not_locked {μ : Type} {timeout : Nat} {s : Daemon μ}
    (h : (daemonMachine μ timeout).Reachable (fun s a => recorded s a) s) :
    s.timers.length ≤ 1 ∧ ∀ {a s' t t'}, recorded s a → Serves s a →
      daemonStep timeout s a = some s' →
      (daemonMachine μ timeout).Run (fun s a => recorded s a) s' t →
      AutoLocks timeout t t' → s.now + timeout ≤ t.now := by
  have hinv : InUse 0 s := h.invariant
    (fun ⟨now, hnew⟩ => hnew ▸ ⟨Nat.zero_le _, Nat.le_refl _, Nat.zero_le _⟩)
    fun hi hok hs => hi.step hok hs
  refine ⟨hinv.one, ?_⟩
  rintro a s' t t' hok ⟨rfl, hsome, c, rest, hqueue, hop⟩ hstep hrun hlock
  -- the operation is a query that records activity
  have hserved : s'.lastActivity = s.now := by
    have hrec := hok
    simp only [recorded, hqueue] at hrec
    change grantMutex timeout s = some s' at hstep
    unfold grantMutex at hstep
    rw [hqueue] at hstep
    split at hstep
    · cases hstep
      match c, hop, hrec with
      | .query true, _, _ =>
        unfold serve
        rw [hsome]
        rfl
      | .query false, _, hnone | .network _, _, hnone =>
        rw [isNone_iff_eq_none.mp hnone] at hsome
        cases hsome
    · cases hstep
  have hafter := hinv.step hok hstep
  have hstart : InUse s.now s' := ⟨Nat.le_of_eq hserved.symm, hafter.activity_le, hafter.one⟩
  exact hlock.idle (hrun.invariant hstart fun hi hok hs => hi.step hok hs)

end Model

/-- An unlock, a query that records activity after a second, a synchronisation that is over in
time, and then nothing. -/
def idleAfterQuery : List (Action Nat) :=
  [.request (.unlockWithManager 7), .grant, .poll 0, .advance 1000, .request (.query true), .grant,
    .request (.network .syncNow), .grant, .advance 1000, .finish, .advance 1000, .poll 0,
    .advance 3000, .poll 0, .grant, .advance 1000]

theorem inactive_locked_iff_idle :
    ∃ s, (daemonMachine Nat 3000).Reachable (fun _ _ => True) s ∧ s.Settled ∧
      s.lastActivity + 3000 + checkInterval 3000 ≤ s.now ∧
      ((s.manager = none ∧ s.state = .locked) ↔ s.holder = none) := by
  have hreach : (daemonMachine Nat 3000).Reachable (fun _ _ => True) _ :=
    ⟨_, ⟨0, rfl⟩, run_of_exec (allowed_true _ idleAfterQuery) rfl⟩
  have hdue := inactive_locked_iff (by decide) hreach (by decide)
  exact ⟨_, hreach, by decide, by decide, hdue.2 (by decide)⟩

/-- A synchronisation is called a second after the unlock and waits for the network. -/
def idleDuringSync (d : Nat) : List (Action Nat) :=
  [.request (.unlockWithManager 7), .grant, .poll 0, .advance 1000, .request (.network .syncNow),
    .grant, .advance 2000, .poll 0, .advance d]

/-- The vault is open an hour after the last activity, with a timeout of three seconds. -/
theorem waiting_sync_keeps_unlocked :
    ∃ s, (daemonMachine Nat 3000).Reachable (fun _ _ => True) s ∧ s.Settled ∧
      s.lastActivity + 3600000 ≤ s.now ∧ s.manager = some 7 ∧ s.state = .unlocked := by
  refine ⟨_, ⟨_, ⟨0, rfl⟩, run_of_exec (allowed_true _ (idleDuringSync 3600000)) rfl⟩, ?_⟩
  decide

/-- An unlock at the start, a call of a service after 2.9 seconds, which records no activity. -/
def idleForService : List (Action Nat) :=
  [.request (.unlockWithManager 7), .grant, .poll 0, .advance 2900, .request (.query false)]

/-- The vault is locked 100 ms after a service has used it, and a vault that is unlocked again
has two tasks. -/
theorem service_use_locked :
    (∃ s s' t t', (daemonMachine Nat 3000).exec (Daemon.new 0) idleForService = some s ∧
      Serves s .grant ∧ daemonStep 3000 s .grant = some s' ∧
      (daemonMachine Nat 3000).exec s' [.advance 100, .poll 0] = some t ∧ AutoLocks 3000 t t' ∧
      t.now = s.now + 100) ∧
    ∃ s, (daemonMachine Nat 3000).exec (Daemon.new 0)
      [.request (.unlockWithManager 7), .grant, .request .lock, .grant,
        .request (.unlockWithManager 8), .grant] = some s ∧ s.timers.length = 2 :=
  ⟨⟨_, _, _, _, rfl, ⟨rfl, rfl, _, _, rfl, rfl⟩, rfl, rfl, ⟨rfl, rfl, rfl, _, _, rfl⟩, rfl⟩,
    _, rfl, rfl⟩

theorem in_use_not_locked_query : ∃ s s' t t' : Daemon Nat,
      (daemonMachine Nat 3000).Reachable (fun s a => recorded s a) s ∧ recorded s .grant ∧
      Serves s .grant ∧ daemonStep 3000 s .grant = some s' ∧
      (daemonMachine Nat 3000).Run (fun s a => recorded s a) s' t ∧ AutoLocks 3000 t t' ∧
      s.timers.length ≤ 1 ∧ s.now + 3000 ≤ t.now := by
  have hbefore : (daemonMachine Nat 3000).Allowed (fun s a => recorded s a) (.new 0)
      (idleAfterQuery.take 5) := by decide
  have hafter : (daemonMachine Nat 3000).Allowed (fun s a => recorded s a)
      (((daemonMachine Nat 3000).exec (.new 0) (idleAfterQuery.take 6)).get rfl)
      [.advance 2000, .poll 0, .advance 3000, .poll 0] := by decide
  have huse := in_use_not_locked ⟨_, ⟨0, rfl⟩, run_of_exec hbefore rfl⟩
  refine ⟨_, _, _, _, ⟨_, ⟨0, rfl⟩, run_of_exec hbefore rfl⟩, rfl,
    ⟨rfl, rfl, _, _, rfl, rfl⟩, rfl, run_of_exec hafter rfl, ⟨rfl, rfl, rfl, _, _, rfl⟩,
    huse.1, ?_⟩
  exact huse.2 rfl ⟨rfl, rfl, _, _, rfl, rfl⟩ rfl (run_of_exec hafter rfl)
    ⟨rfl, rfl, rfl, _, _, rfl⟩

end SentinelPass.AutoLock
