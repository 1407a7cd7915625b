import SentinelPass.Lib.Table
import SentinelPass.Lib.Machine

/-!
# The audit keys and the lock

The keys that seal audit records are one cell of the process (`audit.rs`). An open
installs them as soon as it has the DEK and holds a lease: if a later step fails, the
lease is dropped and clears the cell; if the open returns, it is defused and the keys
stay. `recover_access` never defuses its lease. `DaemonVault` unlocks in two steps, the
open on a blocking thread and then `unlock_with_manager`, and a lock clears the cell.

The tasks of one process are interleaved step by step; `unlock`, `unlock_with_biometric`
and `StepUpAuthorize` take turns at the KDF gate, and whoever changes the manager holds
its mutex.
-/

namespace SentinelPass.Daemon

open List Option

open Lib

/-! ## Tasks -/

/-- What runs an open. -/
inductive OpenKind
  | unlock
  | unlockBiometric
  | stepUp
  /-- Any other `VaultManager::open` of the process. -/
  | other
  | recoverAccess
deriving DecidableEq

/-- The opens that end in `unlock_with_manager`. -/
def OpenKind.unlocks : OpenKind → Bool
  | unlock | unlockBiometric => true
  | stepUp | other | recoverAccess => false

/-- The opens that take the KDF permit of the daemon. -/
def OpenKind.gated : OpenKind → Bool
  | unlock | unlockBiometric | stepUp => true
  | other | recoverAccess => false

inductive OpenPhase (κ : Type)
  | waiting
  | opening
  | leased (dek : κ)
  | opened (dek : κ)
  | storing (dek : κ)
  | finished

inductive LockPhase
  | waiting
  | holding
  | dropped
  | cleared
  | finished
deriving DecidableEq

/-- A request under way. `auto` is the lock of the inactivity timer. -/
inductive KeyTask (κ : Type)
  | opener (kind : OpenKind) (phase : OpenPhase κ)
  | locker (auto : Bool) (phase : LockPhase)

def KeyTask.isFinished {κ : Type} : KeyTask κ → Bool
  | opener _ .finished | locker _ .finished => true
  | _ => false

/-- An unlock that has installed the keys and not unlocked yet. -/
def KeyTask.unlocking {κ : Type} : KeyTask κ → Bool
  | opener kind (.leased _) => kind.unlocks
  | opener _ (.opened _) | opener _ (.storing _) => true
  | _ => false

def KeyTask.leases {κ : Type} : KeyTask κ → Bool
  | opener _ (.leased _) => true
  | _ => false

def KeyTask.answers {κ : Type} (t : KeyTask κ) : Bool := t.unlocking || t.leases

/-- A lock that has cleared the keys and is not over. -/
def KeyTask.hasCleared {κ : Type} : KeyTask κ → Bool
  | locker _ .cleared => true
  | _ => false

def KeyTask.holds {κ : Type} : KeyTask κ → Bool
  | opener _ (.storing _) | locker _ .holding | locker _ .dropped | locker _ .cleared => true
  | _ => false

/-! ## The process -/

structure KeyState (κ : Type) where
  /-- `AUDIT_KEYS`, by the DEK they are derived from. -/
  keys : Option κ
  /-- `DaemonVault::vault`, by the DEK of the manager. -/
  manager : Option κ
  /-- `DaemonVault::state`. -/
  unlocked : Bool
  /-- The task that holds the mutex of `vault`. -/
  mutex : Option Nat
  /-- The task that holds the KDF permit. -/
  gate : Option Nat
  tasks : List (KeyTask κ)

inductive KeyRequest
  | unlock
  | unlockBiometric
  | stepUpAuthorize
  | openVault
  | recoverAccess
  | lock
  | autoLock
deriving DecidableEq

/-- One step of task `i`. -/
inductive KeyAction (κ : Type)
  | request (r : KeyRequest)
  /-- The open starts, behind the gate where there is one. -/
  | enter (i : Nat)
  /-- The open fails before it has the DEK. -/
  | refuse (i : Nat)
  /-- `key_lease`. -/
  | install (i : Nat) (dek : κ)
  /-- The lease is dropped: a later step fails, or `recover_access` ends. -/
  | dropLease (i : Nat)
  /-- The lease is defused and the open returns. -/
  | defuse (i : Nat)
  /-- `unlock_with_manager` takes the mutex and stores the manager. -/
  | store (i : Nat)
  /-- `unlock_with_manager` sets the state and lets go of the mutex. -/
  | announce (i : Nat)
  /-- A lock takes the mutex. -/
  | acquire (i : Nat)
  /-- The auto-lock finds activity. -/
  | giveUp (i : Nat)
  | dropManager (i : Nat)
  | clearKeys (i : Nat)
  /-- A lock sets the state and lets go of the mutex. -/
  | setLocked (i : Nat)

section Model

variable {κ : Type}

/-- The task a request starts. `UnlockVault` answers at once when the vault is unlocked,
`StepUpAuthorize` and the timer when it is locked. -/
def KeyRequest.start (unlocked : Bool) : KeyRequest → Option (KeyTask κ)
  | unlock => if unlocked then none else some (.opener .unlock .waiting)
  | unlockBiometric => some (.opener .unlockBiometric .waiting)
  | stepUpAuthorize => if unlocked then some (.opener .stepUp .waiting) else none
  | openVault => some (.opener .other .waiting)
  | recoverAccess => some (.opener .recoverAccess .waiting)
  | lock => some (.locker false .waiting)
  | autoLock => if unlocked then some (.locker true .waiting) else none

namespace KeyState

variable (s : KeyState κ)

def put (i : Nat) (t : KeyTask κ) : KeyState κ := { s with tasks := s.tasks.set i t }

def releaseGate (i : Nat) : KeyState κ :=
  { s with gate := if s.gate = some i then none else s.gate }

def enter (i : Nat) (kind : OpenKind) : Option (KeyState κ) :=
  if kind.gated then
    if s.gate.isSome then none
    else some ({ s with gate := some i }.put i (.opener kind .opening))
  else some (s.put i (.opener kind .opening))

/-- An open returns with its lease defused; an unlock keeps the permit. -/
def defuse (i : Nat) (kind : OpenKind) (dek : κ) : Option (KeyState κ) :=
  match kind with
  | .recoverAccess => none
  | .unlock | .unlockBiometric => some (s.put i (.opener kind (.opened dek)))
  | .stepUp | .other => some ((s.releaseGate i).put i (.opener kind .finished))

def takeMutex (i : Nat) : Option (KeyState κ) :=
  if s.mutex.isSome then none else some { s with mutex := some i }

def move (i : Nat) : KeyTask κ → KeyAction κ → Option (KeyState κ)
  | .opener kind .waiting, .enter _ => s.enter i kind
  | .opener kind .opening, .refuse _ => some ((s.releaseGate i).put i (.opener kind .finished))
  | .opener kind .opening, .install _ dek =>
    some ({ s with keys := some dek }.put i (.opener kind (.leased dek)))
  | .opener kind (.leased _), .dropLease _ =>
    some (({ s with keys := none }.releaseGate i).put i (.opener kind .finished))
  | .opener kind (.leased dek), .defuse _ => s.defuse i kind dek
  | .opener kind (.opened dek), .store _ =>
    (s.takeMutex i).map fun s => { s with manager := some dek }.put i (.opener kind (.storing dek))
  | .opener kind (.storing _), .announce _ =>
    some (({ s with unlocked := true, mutex := none }.releaseGate i).put i (.opener kind .finished))
  | .locker auto .waiting, .acquire _ =>
    (s.takeMutex i).map fun s => s.put i (.locker auto .holding)
  | .locker true .holding, .giveUp _ =>
    some ({ s with mutex := none }.put i (.locker true .finished))
  | .locker auto .holding, .dropManager _ =>
    some ({ s with manager := none }.put i (.locker auto .dropped))
  | .locker auto .dropped, .clearKeys _ =>
    some ({ s with keys := none }.put i (.locker auto .cleared))
  | .locker auto .cleared, .setLocked _ =>
    some ({ s with unlocked := false, mutex := none }.put i (.locker auto .finished))
  | _, _ => none

end KeyState

def KeyAction.task? : KeyAction κ → Option Nat
  | request _ => none
  | enter i | refuse i | install i _ | dropLease i | defuse i | store i | announce i | acquire i
  | giveUp i | dropManager i | clearKeys i | setLocked i => some i

def KeyState.step (s : KeyState κ) (a : KeyAction κ) : Option (KeyState κ) :=
  match a with
  | .request r => (r.start s.unlocked).map fun t => { s with tasks := s.tasks ++ [t] }
  | a => do
    let i ← a.task?
    let t ← s.tasks[i]?
    s.move i t a

open KeyState

/-- A process starts locked, without keys and without tasks. -/
def keyMachine (κ : Type) : Machine (KeyState κ) (KeyAction κ) where
  init s := s = ⟨none, none, false, none, none, []⟩
  step := step

/-- Some task other than `i`. -/
def OtherTask (tasks : List (KeyTask κ)) (i : Nat) (p : KeyTask κ → Bool) : Prop :=
  ∃ j t, j ≠ i ∧ tasks[j]? = some t ∧ p t = true

open KeyTask

/-- The vault is unlocked and no lock is past the point where it clears the keys, or an
unlock other than task `i` counts on them. -/
def KeyState.Needed (s : KeyState κ) (i : Nat) : Prop :=
  (s.unlocked = true ∧ s.tasks.any hasCleared = false) ∨ OtherTask s.tasks i unlocking

/-- No open drops its lease while the keys are needed, none that does not unlock keeps it
while they are not, and no lock clears the keys of an unlock. -/
def Undisturbed (s : KeyState κ) : KeyAction κ → Prop
  | .dropLease i => ¬ s.Needed i
  | .defuse i => s.tasks[i]?.any unlocking = true ∨ s.keys = none ∨ s.Needed i
  | .clearKeys _ => s.tasks.any unlocking = false
  | _ => True

instance (tasks : List (KeyTask κ)) (i : Nat) (p : KeyTask κ → Bool) :
    Decidable (OtherTask tasks i p) := by
  refine decidable_of_iff (∃ j ∈ range tasks.length, j ≠ i ∧ (tasks[j]?).any p = true) ⟨?_, ?_⟩
  · rintro ⟨j, -, hji, hp⟩
    obtain ⟨t, ht, hp⟩ := (any_eq_true _ _).mp hp
    exact ⟨j, t, hji, ht, hp⟩
  · rintro ⟨j, t, hji, ht, hp⟩
    exact ⟨j, mem_range.mpr (List.getElem?_eq_some_iff.mp ht).1, hji, by rw [ht]; exact hp⟩

instance (s : KeyState κ) (i : Nat) : Decidable (s.Needed i) := inferInstanceAs (Decidable (_ ∨ _))

instance [DecidableEq κ] (s : KeyState κ) (a : KeyAction κ) : Decidable (Undisturbed s a) := by
  cases a <;> unfold Undisturbed <;> infer_instance

/-! ## The invariant -/

def MutexInv (s : KeyState κ) : Prop :=
  ∀ j t, s.tasks[j]? = some t → t.holds = true → s.mutex = some j

/-- The keys are there for an unlocked vault and for an unlock, and for nobody else. -/
structure KeyInv (s : KeyState κ) : Prop where
  unlocked : s.unlocked = true → s.tasks.any hasCleared = false → s.keys.isSome = true
  unlocking : s.tasks.any unlocking = true → s.keys.isSome = true
  installed : s.keys.isSome = true → (s.unlocked = true ∧ s.tasks.any hasCleared = false) ∨
      s.tasks.any answers = true

section Tasks

variable {tasks : List (KeyTask κ)} {i : Nat} {t t' : KeyTask κ} {p q : KeyTask κ → Bool}

theorem any_iff_other (hi : tasks[i]? = some t) :
    tasks.any p = true ↔ p t = true ∨ OtherTask tasks i p := by
  rw [List.any_eq_true]
  constructor
  · rintro ⟨x, hx, hp⟩
    obtain ⟨j, hj⟩ := mem_iff_getElem?.mp hx
    by_cases hji : j = i
    · rw [hji, hi] at hj
      cases hj
      exact .inl hp
    · exact .inr ⟨j, x, hji, hj, hp⟩
  · rintro (hp | ⟨j, x, -, hj, hp⟩)
    · exact ⟨t, mem_of_getElem? hi, hp⟩
    · exact ⟨x, mem_of_getElem? hj, hp⟩

theorem other_set (hi : tasks[i]? = some t) :
    OtherTask (tasks.set i t') i p ↔ OtherTask tasks i p := by
  constructor
  · rintro ⟨j, x, hji, hj, hp⟩
    rw [getElem?_set_of_some hi, if_neg hji] at hj
    exact ⟨j, x, hji, hj, hp⟩
  · rintro ⟨j, x, hji, hj, hp⟩
    refine ⟨j, x, hji, ?_, hp⟩
    rw [getElem?_set_of_some hi, if_neg hji]
    exact hj

theorem OtherTask.mono (h : OtherTask tasks i p) (himp : ∀ x, p x = true → q x = true) :
    OtherTask tasks i q := by
  obtain ⟨j, x, hji, hj, hp⟩ := h
  exact ⟨j, x, hji, hj, himp x hp⟩

end Tasks

/-- What the invariant says about one task and the others. -/
structure KeyInvAt (keys : Option κ) (isUnlocked : Bool) (t : KeyTask κ)
    (othersCleared othersUnlocking othersAnswer : Prop) : Prop where
  unlocked : isUnlocked = true → t.hasCleared = false → ¬ othersCleared → keys.isSome = true
  unlocking : t.unlocking = true ∨ othersUnlocking → keys.isSome = true
  installed : keys.isSome = true →
    (isUnlocked = true ∧ t.hasCleared = false ∧ ¬ othersCleared) ∨ t.answers = true ∨ othersAnswer

theorem KeyTask.holds_of_hasCleared {t : KeyTask κ} (h : t.hasCleared = true) : t.holds = true := by
  cases t with
  | opener kind phase => cases h
  | locker auto phase =>
    cases phase with
    | cleared => rfl
    | _ => cases h

section Steps

variable {s s' : KeyState κ} {a : KeyAction κ} {i : Nat} {t t' : KeyTask κ}

theorem keyInv_iff (hi : s.tasks[i]? = some t) :
    KeyInv s ↔ KeyInvAt s.keys s.unlocked t (OtherTask s.tasks i hasCleared)
      (OtherTask s.tasks i unlocking) (OtherTask s.tasks i answers) := by
  have hcleared : s.tasks.any hasCleared = false ↔
      t.hasCleared = false ∧ ¬ OtherTask s.tasks i hasCleared := by
    rw [← Bool.not_eq_true, any_iff_other hi, not_or, Bool.not_eq_true]
  constructor
  · intro h
    refine ⟨fun hu hc ho => h.unlocked hu (hcleared.mpr ⟨hc, ho⟩),
      fun hu => h.unlocking ((any_iff_other hi).mpr hu), fun hk => ?_⟩
    rcases h.installed hk with ⟨hu, hc⟩ | ha
    · exact .inl ⟨hu, hcleared.mp hc⟩
    exact .inr ((any_iff_other hi).mp ha)
  · intro h
    refine ⟨fun hu hc => h.unlocked hu (hcleared.mp hc).1 (hcleared.mp hc).2,
      fun hu => h.unlocking ((any_iff_other hi).mp hu), fun hk => ?_⟩
    rcases h.installed hk with ⟨hu, hc⟩ | ha
    · exact .inl ⟨hu, hcleared.mpr hc⟩
    exact .inr ((any_iff_other hi).mpr ha)

/-- The invariant after a step of task `i`, from what it says about the task before. -/
theorem KeyInv.of_move (h : KeyInv s) (hi : s.tasks[i]? = some t)
    (htasks : s'.tasks = s.tasks.set i t')
    (hmove : KeyInvAt s.keys s.unlocked t (OtherTask s.tasks i KeyTask.hasCleared)
        (OtherTask s.tasks i KeyTask.unlocking) (OtherTask s.tasks i KeyTask.answers) →
      KeyInvAt s'.keys s'.unlocked t' (OtherTask s.tasks i KeyTask.hasCleared)
        (OtherTask s.tasks i KeyTask.unlocking) (OtherTask s.tasks i KeyTask.answers)) :
    KeyInv s' := by
  have hi' : s'.tasks[i]? = some t' := by
    rw [htasks, getElem?_set_of_some hi, if_pos rfl]
  rw [keyInv_iff hi', htasks, other_set hi, other_set hi, other_set hi]
  exact hmove ((keyInv_iff hi).mp h)

theorem OtherTask.answers_of_unlocking {tasks : List (KeyTask κ)}
    (h : OtherTask tasks i unlocking) : OtherTask tasks i answers := by
  refine h.mono fun x hx => ?_
  rw [answers, hx, Bool.true_or]

/-- A step that touches neither the keys nor the state, of a task that answers for the keys
after it as before. -/
theorem KeyInv.quiet (h : KeyInv s) (hi : s.tasks[i]? = some t)
    (htasks : s'.tasks = s.tasks.set i t') (hkeys : s'.keys = s.keys)
    (hunlocked : s'.unlocked = s.unlocked) (hbefore : t.hasCleared = false)
    (hafter : t'.hasCleared = false) (hunlocking : t'.unlocking = true → t.unlocking = true)
    (hanswers : t.answers = true → t'.answers = true) : KeyInv s' := by
  refine h.of_move hi htasks fun hat => ?_
  rw [hkeys, hunlocked]
  refine ⟨fun hu _ ho => hat.unlocked hu hbefore ho,
    fun hu => hat.unlocking (hu.imp hunlocking id), fun hk => ?_⟩
  rcases hat.installed hk with ⟨hu, -, ho⟩ | ha
  · exact .inl ⟨hu, hafter, ho⟩
  exact .inr (ha.imp hanswers id)

variable {dek : κ} {kind : OpenKind}

section

variable (h : KeyInv s)

include h

theorem KeyInv.install (hi : s.tasks[i]? = some (.opener kind .opening)) :
    KeyInv ({ s with keys := some dek }.put i (.opener kind (.leased dek))) := by
  refine h.of_move hi rfl fun _ => ⟨fun _ _ _ => rfl, fun _ => rfl, fun _ => .inr (.inl ?_)⟩
  exact Bool.or_true _

theorem KeyInv.dropLease (hi : s.tasks[i]? = some (.opener kind (.leased dek))) (hok : ¬ s.Needed i)
    :
    KeyInv (({ s with keys := none }.releaseGate i).put i (.opener kind .finished)) := by
  obtain ⟨hlocked, hothers⟩ := not_or.mp hok
  refine h.of_move hi rfl fun _ => ⟨fun hu _ ho => ?_, fun hu => ?_, fun hk => by cases hk⟩
  · refine absurd ⟨hu, ?_⟩ hlocked
    rw [← Bool.not_eq_true, any_iff_other hi]
    rintro (hc | hc)
    · cases hc
    exact ho hc
  · rcases hu with hu | hu
    · cases hu
    exact absurd hu hothers

theorem KeyInv.leave (hi : s.tasks[i]? = some (.opener kind (.leased dek)))
    (hok : s.keys = none ∨ s.Needed i) :
    KeyInv ((s.releaseGate i).put i (.opener kind .finished)) := by
  refine h.of_move hi rfl fun hat => ⟨fun hu _ ho => hat.unlocked hu rfl ho, fun hu => ?_,
    fun hk => ?_⟩
  · rcases hu with hu | hu
    · cases hu
    exact hat.unlocking (.inr hu)
  · rcases hok with hnone | ⟨hu, hc⟩ | hu
    · have hsome : s.keys.isSome = true := hk
      rw [hnone] at hsome
      cases hsome
    · refine .inl ⟨hu, rfl, fun ho => ?_⟩
      rw [(any_iff_other hi).mpr (.inr ho)] at hc
      cases hc
    · exact .inr (.inr hu.answers_of_unlocking)

theorem KeyInv.announce (hmutex : MutexInv s)
    (hi : s.tasks[i]? = some (.opener kind (.storing dek))) :
    KeyInv (({ s with unlocked := true, mutex := none }.releaseGate i).put i
      (.opener kind .finished)) := by
  have hnone : ¬ OtherTask s.tasks i hasCleared := by
    rintro ⟨j, x, hji, hj, hx⟩
    have hholds : x.holds = true := holds_of_hasCleared hx
    exact hji (some.inj ((hmutex j x hj hholds).symm.trans (hmutex i _ hi rfl)))
  refine h.of_move hi rfl fun hat => ?_
  have hkeys : s.keys.isSome = true := hat.unlocking (.inl rfl)
  exact ⟨fun _ _ _ => hkeys, fun _ => hkeys, fun _ => .inl ⟨rfl, rfl, hnone⟩⟩

theorem KeyInv.clearKeys {auto : Bool} (hi : s.tasks[i]? = some (.locker auto .dropped))
    (hok : s.tasks.any KeyTask.unlocking = false) :
    KeyInv ({ s with keys := none }.put i (.locker auto .cleared)) := by
  refine h.of_move hi rfl fun _ => ⟨fun _ hc => (by cases hc), fun hu => ?_,
    fun hk => (by cases hk)⟩
  rcases hu with hu | hu
  · cases hu
  rw [(any_iff_other hi).mpr (.inr hu)] at hok
  cases hok

theorem KeyInv.setLocked {auto : Bool} (hi : s.tasks[i]? = some (.locker auto .cleared)) :
    KeyInv ({ s with unlocked := false, mutex := none }.put i (.locker auto .finished)) := by
  refine h.of_move hi rfl fun hat => ⟨fun hu => (by cases hu), fun hu => ?_, fun hk => ?_⟩
  · rcases hu with hu | hu
    · cases hu
    exact hat.unlocking (.inr hu)
  · rcases hat.installed hk with ⟨-, hc, -⟩ | ha | ha
    · cases hc
    · cases ha
    exact .inr (.inr ha)

end

theorem MutexInv.of_move (h : MutexInv s) (hi : s.tasks[i]? = some t)
    (htasks : s'.tasks = s.tasks.set i t') (hafter : t'.holds = true → s'.mutex = some i)
    (hothers : s'.mutex = s.mutex ∨ s.mutex = none ∨ t.holds = true) : MutexInv s' := by
  intro j x hj hx
  rw [htasks, getElem?_set_of_some hi] at hj
  split at hj
  · next hji =>
    cases hj
    rw [hji]
    exact hafter hx
  · next hji =>
    have hold := h j x hj hx
    rcases hothers with hsame | hnone | hheld
    · rw [hsame]
      exact hold
    · rw [hnone] at hold
      cases hold
    · exact absurd (some.inj (hold.symm.trans (h i t hi hheld))) hji

theorem KeyInv.request (h : KeyInv s)
    (hquiet : t.hasCleared = false ∧ t.unlocking = false ∧ t.answers = false) :
    KeyInv { s with tasks := s.tasks ++ [t] } := by
  obtain ⟨hcleared, hunlocking, hanswers⟩ := hquiet
  have hany : ∀ {p : KeyTask κ → Bool}, p t = false → (s.tasks ++ [t]).any p = s.tasks.any p := by
    intro p hp
    rw [any_append, any_cons, any_nil, hp, Bool.false_or, Bool.or_false]
  refine ⟨fun hu hc => h.unlocked hu ?_, fun hu => h.unlocking ?_, fun hk => ?_⟩
  · rw [← hany hcleared]
    exact hc
  · rw [← hany hunlocking]
    exact hu
  · show _ ∧ (s.tasks ++ [t]).any _ = false ∨ (s.tasks ++ [t]).any _ = true
    rw [hany hcleared, hany hanswers]
    exact h.installed hk

theorem MutexInv.request (h : MutexInv s) (hquiet : t.holds = false) :
    MutexInv { s with tasks := s.tasks ++ [t] } := by
  intro j x hj hx
  rcases getElem?_snoc.mp hj with hold | ⟨-, rfl⟩
  · exact h j x hold hx
  · rw [hquiet] at hx
    cases hx

theorem KeyRequest.start_quiet {r : KeyRequest} {isUnlocked : Bool}
    (h : r.start isUnlocked = some t) :
    (t.hasCleared = false ∧ t.unlocking = false ∧ t.answers = false) ∧ t.holds = false := by
  cases r <;> cases isUnlocked <;> cases h <;> exact ⟨⟨rfl, rfl, rfl⟩, rfl⟩

theorem KeyState.defuse_cases (h : s.defuse i kind dek = some s') :
    kind.unlocks = true ∧ s' = s.put i (.opener kind (.opened dek)) ∨
      kind.unlocks = false ∧ s' = (s.releaseGate i).put i (.opener kind .finished) := by
  cases kind <;> cases h
  · exact .inl ⟨rfl, rfl⟩
  · exact .inl ⟨rfl, rfl⟩
  · exact .inr ⟨rfl, rfl⟩
  exact .inr ⟨rfl, rfl⟩

theorem KeyState.enter_cases (h : s.enter i kind = some s') :
    ∃ gate, s' = { s with gate }.put i (.opener kind .opening) := by
  unfold enter at h
  split at h
  · split at h
    · cases h
    · cases h
      exact ⟨some i, rfl⟩
  · cases h
    exact ⟨s.gate, rfl⟩

theorem KeyState.takeMutex_some (h : s.takeMutex i = some s') :
    s.mutex = none ∧ s' = { s with mutex := some i } := by
  unfold takeMutex at h
  split at h
  · cases h
  rename_i hfree
  cases h
  exact ⟨not_isSome_iff_eq_none.mp hfree, rfl⟩

theorem keyInv_step (h : KeyInv s) (hmutex : MutexInv s) (hok : Undisturbed s a)
    (hstep : s.step a = some s') : KeyInv s' ∧ MutexInv s' := by
  unfold step at hstep
  split at hstep
  · obtain ⟨t, ht, rfl⟩ := map_eq_some_iff.mp hstep
    obtain ⟨hquiet, hholds⟩ := KeyRequest.start_quiet ht
    exact ⟨h.request hquiet, hmutex.request hholds⟩
  · obtain ⟨i, hia, htask⟩ := bind_eq_some_iff.mp hstep
    obtain ⟨t, hi, hmove⟩ := bind_eq_some_iff.mp htask
    -- one case for each line of `move`
    unfold move at hmove
    split at hmove
    · obtain ⟨gate, rfl⟩ := enter_cases hmove
      exact ⟨h.quiet hi rfl rfl rfl rfl rfl (fun hu => by cases hu) (fun ha => by cases ha),
        hmutex.of_move hi rfl (fun hh => by cases hh) (.inl rfl)⟩
    · cases hmove
      exact ⟨h.quiet hi rfl rfl rfl rfl rfl (fun hu => by cases hu) (fun ha => by cases ha),
        hmutex.of_move hi rfl (fun hh => by cases hh) (.inl rfl)⟩
    · cases hmove
      exact ⟨h.install hi, hmutex.of_move hi rfl (fun hh => by cases hh) (.inl rfl)⟩
    · cases hmove
      cases hia
      exact ⟨h.dropLease hi hok, hmutex.of_move hi rfl (fun hh => by cases hh) (.inl rfl)⟩
    · cases hia
      rcases defuse_cases hmove with ⟨hkind, rfl⟩ | ⟨hkind, rfl⟩
      · exact ⟨h.quiet hi rfl rfl rfl rfl rfl (fun _ => hkind) (fun _ => rfl),
          hmutex.of_move hi rfl (fun hh => by cases hh) (.inl rfl)⟩
      · refine ⟨h.leave hi ?_, hmutex.of_move hi rfl (fun hh => by cases hh) (.inl rfl)⟩
        rcases hok with hu | hok
        · rw [hi] at hu
          exact absurd (hkind.symm.trans hu) Bool.false_ne_true
        · exact hok
    · obtain ⟨s1, htake, rfl⟩ := map_eq_some_iff.mp hmove
      obtain ⟨hfree, rfl⟩ := takeMutex_some htake
      exact ⟨h.quiet hi rfl rfl rfl rfl rfl (fun _ => rfl) (fun _ => rfl),
        hmutex.of_move hi rfl (fun _ => rfl) (.inr (.inl hfree))⟩
    · cases hmove
      exact ⟨h.announce hmutex hi, hmutex.of_move hi rfl (fun hh => by cases hh) (.inr (.inr rfl))⟩
    · obtain ⟨s1, htake, rfl⟩ := map_eq_some_iff.mp hmove
      obtain ⟨hfree, rfl⟩ := takeMutex_some htake
      exact ⟨h.quiet hi rfl rfl rfl rfl rfl (fun hu => by cases hu) (fun ha => by cases ha),
        hmutex.of_move hi rfl (fun _ => rfl) (.inr (.inl hfree))⟩
    · cases hmove
      exact ⟨h.quiet hi rfl rfl rfl rfl rfl (fun hu => by cases hu) (fun ha => by cases ha),
        hmutex.of_move hi rfl (fun hh => by cases hh) (.inr (.inr rfl))⟩
    · cases hmove
      exact ⟨h.quiet hi rfl rfl rfl rfl rfl (fun hu => by cases hu) (fun ha => by cases ha),
        hmutex.of_move hi rfl (fun _ => hmutex i _ hi rfl) (.inl rfl)⟩
    · cases hmove
      exact ⟨h.clearKeys hi hok, hmutex.of_move hi rfl (fun _ => hmutex i _ hi rfl) (.inl rfl)⟩
    · cases hmove
      exact ⟨h.setLocked hi, hmutex.of_move hi rfl (fun hh => by cases hh) (.inr (.inr rfl))⟩
    · cases hmove

theorem keyInv_of_reachable (h : (keyMachine κ).Reachable Undisturbed s) : KeyInv s := by
  have hboth : KeyInv s ∧ MutexInv s := by
    refine h.invariant ?_
      (fun hinv hok hstep => keyInv_step hinv.1 hinv.2 hok hstep)
    rintro x rfl
    refine ⟨⟨fun hu => (by cases hu), fun hu => (by cases hu), fun hk => (by cases hk)⟩, ?_⟩
    intro j t hj
    cases hj
  exact hboth.1

end Steps

def KeyState.Idle (s : KeyState κ) : Prop := ∀ t ∈ s.tasks, t.isFinished = true

instance (s : KeyState κ) : Decidable s.Idle :=
  inferInstanceAs (Decidable (∀ t ∈ s.tasks, t.isFinished = true))

theorem KeyTask.finished_quiet {t : KeyTask κ} (h : t.isFinished = true) :
    t.hasCleared = false ∧ t.answers = false := by
  cases t with
  | opener kind phase =>
    cases phase with
    | finished => exact ⟨rfl, rfl⟩
    | _ => cases h
  | locker auto phase =>
    cases phase with
    | finished => exact ⟨rfl, rfl⟩
    | _ => cases h

/-- In every run whose leases and locks are undisturbed, the audit keys are installed exactly
when the vault is unlocked, whenever nothing is in progress. -/
theorem keys_follow_lock (s : KeyState κ) (hreach : (keyMachine κ).Reachable Undisturbed s)
    (hidle : s.Idle) : s.keys.isSome = true ↔ s.unlocked = true := by
  have hinv := keyInv_of_reachable hreach
  have hcleared : s.tasks.any hasCleared = false :=
    any_eq_false.mpr fun t ht hc =>
      Bool.false_ne_true ((finished_quiet (hidle t ht)).1.symm.trans hc)
  constructor
  · intro hkeys
    rcases hinv.installed hkeys with ⟨hunlocked, -⟩ | hanswers
    · exact hunlocked
    obtain ⟨t, ht, ha⟩ := any_eq_true.mp hanswers
    exact absurd ((finished_quiet (hidle t ht)).2.symm.trans ha) Bool.false_ne_true
  · intro hunlocked
    exact hinv.unlocked hunlocked hcleared

end Model

/-! ## Runs -/

def lockedProcess : KeyState Unit := ⟨none, none, false, none, none, []⟩

def unlockRun : List (KeyAction Unit) :=
  [.request .unlock, .enter 0, .install 0 (), .defuse 0, .store 0, .announce 0]

/-- `StepUpAuthorize` opens the vault again while it is in use. -/
def reopenRun : List (KeyAction Unit) :=
  unlockRun ++ [.request .stepUpAuthorize, .enter 1, .install 1 (), .defuse 1]

def lockRun : List (KeyAction Unit) :=
  reopenRun ++ [.request .lock, .acquire 2, .dropManager 2, .clearKeys 2, .setLocked 2]

def KeysFollowed (run : List (KeyAction Unit)) : Prop :=
  ∃ s, (keyMachine Unit).exec lockedProcess run = some s ∧ s.Idle ∧
    (s.keys.isSome = true ↔ s.unlocked = true)

theorem keys_follow_lock_unlocked : KeysFollowed reopenRun ∧ KeysFollowed lockRun := by
  have hfollow : ∀ run, ((keyMachine Unit).exec lockedProcess run).any (fun s => decide s.Idle) →
      (keyMachine Unit).Allowed Undisturbed lockedProcess run → KeysFollowed run := by
    intro run hexec hallowed
    obtain ⟨s, hs, hidle⟩ := (any_eq_true _ _).mp hexec
    have hidle := of_decide_eq_true hidle
    have hreach : (keyMachine Unit).Reachable Undisturbed s :=
      ⟨lockedProcess, rfl, Machine.run_of_exec hallowed hs⟩
    exact ⟨s, hs, hidle, keys_follow_lock s hreach hidle⟩
  exact ⟨hfollow _ (by decide +kernel) (by decide +kernel),
    hfollow _ (by decide +kernel) (by decide +kernel)⟩

/-- The vault is locked after the check of `StepUpAuthorize` and before its open. -/
def lockedStepUpRun : List (KeyAction Unit) :=
  unlockRun ++ [.request .stepUpAuthorize, .request .lock, .acquire 2, .dropManager 2, .clearKeys 2,
    .setLocked 2, .enter 1, .install 1 (), .defuse 1]

/-- The open of `StepUpAuthorize` fails after it has the DEK. -/
def failedStepUpRun : List (KeyAction Unit) :=
  unlockRun ++ [.request .stepUpAuthorize, .enter 1, .install 1 (), .dropLease 1]

def recoveryRun : List (KeyAction Unit) :=
  unlockRun ++ [.request .recoverAccess, .enter 1, .install 1 (), .dropLease 1]

/-- A lock between the open of an unlock and `unlock_with_manager`. -/
def lockedUnlockRun : List (KeyAction Unit) :=
  [.request .unlock, .enter 0, .install 0 (), .defuse 0, .request .lock, .acquire 1, .dropManager 1,
    .clearKeys 1, .setLocked 1, .store 0, .announce 0]

theorem reached_of_exec {run p} (h : ((keyMachine Unit).exec lockedProcess run).any p = true) :
    ∃ s, (keyMachine Unit).Reachable (fun _ _ => True) s ∧ p s = true := by
  obtain ⟨s, hs, hp⟩ := (any_eq_true _ _).mp h
  exact ⟨s, ⟨lockedProcess, rfl, Machine.run_of_exec (Machine.allowed_true _ _) hs⟩, hp⟩

def keysWhileLocked (s : KeyState Unit) : Bool := decide s.Idle && s.keys.isSome && !s.unlocked

def noKeysWhileUnlocked (s : KeyState Unit) : Bool := decide s.Idle && s.keys.isNone && s.unlocked

/-- Keys without an unlocked vault, and an unlocked vault without keys. -/
theorem keys_outlive_lock :
    (∃ s, (keyMachine Unit).Reachable (fun _ _ => True) s ∧ keysWhileLocked s = true) ∧
      ∀ run ∈ [failedStepUpRun, recoveryRun, lockedUnlockRun],
        ∃ s, (keyMachine Unit).exec lockedProcess run = some s ∧ noKeysWhileUnlocked s = true := by
  have hlocked : ((keyMachine Unit).exec lockedProcess lockedStepUpRun).any keysWhileLocked
      = true := by
    decide +kernel
  have hunlocked : [failedStepUpRun, recoveryRun, lockedUnlockRun].all (fun run =>
      ((keyMachine Unit).exec lockedProcess run).any noKeysWhileUnlocked) = true := by
    decide +kernel
  exact ⟨reached_of_exec hlocked, fun run hrun =>
    (any_eq_true _ _).mp (all_eq_true.mp hunlocked run hrun)⟩

end SentinelPass.Daemon
