import SentinelPass.Lib.Machine
import SentinelPass.Lib.Table
import SentinelPass.Lib.Text

/-!
# Private files

`PrivateDir::write` and `PrivateDir::read` (`anvai-secure-io/src/linux.rs`) over one
directory, by any number of processes, cut at the system calls. A write creates a file under
a temporary name of its process, fills and syncs it, renames it over the name and syncs the
directory; on an error it unlinks the temporary name. The answer of each system call is an
input (`Move`), a process may stop anywhere and the machine may lose power, after which each
entry of the directory is one it had since it was last synced.

What a call is about to do is its phase. `WriteEffect` says once what one system call of a
write can do; `writeStep_effect` is the inversion every later proof uses.
-/

namespace SentinelPass.SecureIo

open Lib List

abbrev Bytes := List UInt8

def maxBytes : Nat := 16 * 1024 * 1024

inductive Publish
  | createNew
  | replaceExisting
  | upsert
deriving DecidableEq

/-- `Error`. -/
inductive PrivateError
  | missing
  | alreadyExists
  | unsafePath
  | notPrivate
  | tooLarge
  | busy
  | io
  | commitUncertain
deriving DecidableEq

/-- How a system call, or a check of what it answered, fails. -/
inductive Failure
  | missing
  | alreadyExists
  | unsafePath
  | notPrivate
  | io
deriving DecidableEq

/-- `errno`, and the checks of metadata. -/
def Failure.error : Failure → PrivateError
  | missing => .missing
  | alreadyExists => .alreadyExists
  | unsafePath => .unsafePath
  | notPrivate => .notPrivate
  | io => .io

theorem Failure.error_ne (f : Failure) : f.error ≠ .commitUncertain := by
  cases f <;> exact nofun

/-- What the next system call of a call answers: success, a number of bytes, a failure. -/
inductive Move
  | ok
  | some (n : Nat)
  | fail (f : Failure)

/-! ## Names -/

/-- `leaf`: one component. -/
def leaf (name : Text) : Bool :=
  name ≠ [] && name ≠ ['.'] && name ≠ ['.', '.'] && '/' ∉ name

/-- What the temporary names of a process start with. -/
def tempFront (pid : Nat) : Text := ".anvai-pending-".toList ++ Nat.toDigits 10 pid ++ ['-']

/-- The temporary name for a number drawn from `TEMP_ID`. -/
def tempName (pid k : Nat) : Text := tempFront pid ++ Nat.toDigits 10 k

def isTempOf (pid : Nat) (name : Text) : Bool :=
  (tempFront pid).isPrefixOf name &&
    (parseDigits (name.drop (tempFront pid).length)).any fun k => tempName pid k = name

theorem isTempOf_tempName (pid k : Nat) : isTempOf pid (tempName pid k) = true := by
  unfold isTempOf tempName
  rw [drop_left, parseDigits_toDigits]
  simp

theorem dash_notMem_toDigits (n : Nat) : '-' ∉ Nat.toDigits 10 n := by
  intro h
  exact absurd (isDigit_of_mem_digits h) (by decide)

theorem tempName_inj {pid pid' k k' : Nat} (h : tempName pid k = tempName pid' k') :
    pid = pid' ∧ k = k' := by
  unfold tempName tempFront at h
  rw [append_assoc, append_assoc, append_assoc, append_assoc, append_cancel_left_eq] at h
  have hsplit := congrArg (splitOn '-') h
  rw [singleton_append, singleton_append,
    splitOn_append_cons_self_of_not_mem (dash_notMem_toDigits pid),
    splitOn_append_cons_self_of_not_mem (dash_notMem_toDigits pid'),
    splitOn_eq_singleton (dash_notMem_toDigits k),
    splitOn_eq_singleton (dash_notMem_toDigits k')] at hsplit
  obtain ⟨hpid, hk⟩ := cons.inj hsplit
  exact ⟨toDigits_inj hpid, toDigits_inj (cons.inj hk).1⟩

/-! ## The directory -/

/-- A file. Its owner is the write that created it; `published` and `synced` say whether it
has been renamed and whether its content is on the disk. -/
structure Node where
  content : Bytes
  owner : Nat
  (published synced : Bool)
deriving DecidableEq

/-- The directory, and every state it had since it was last synced. -/
structure Disk where
  dir : Table Text Nat
  past : List (Table Text Nat)
  nodes : List Node

namespace Disk

def empty : Disk := ⟨.empty, [], []⟩

def view (d : Disk) (name : Text) : Option Bytes :=
  (d.dir.get? name).bind fun i => d.nodes[i]?.map (·.content)

def change (d : Disk) (dir : Table Text Nat) : Disk :=
  { d with dir := dir, past := d.dir :: d.past }

/-- `openat` with `O_CREAT | O_EXCL`, once the name is free. -/
def create (d : Disk) (name : Text) (owner : Nat) : Disk :=
  { d.change (d.dir.upsert name d.nodes.length fun _ => d.nodes.length) with
    nodes := d.nodes ++ [⟨[], owner, false, false⟩] }

/-- `renameat`: the file takes the name, and what had it loses it. -/
def rename (d : Disk) (temp name : Text) (i : Nat) : Disk :=
  { d.change ((d.dir.erase temp).upsert name i fun _ => i) with
    nodes := d.nodes.modify i fun node => { node with published := true } }

def unlink (d : Disk) (name : Text) : Disk := d.change (d.dir.erase name)

end Disk

/-! ## Calls -/

/-- A process with its `TEMP_ID`. -/
structure Process where
  pid : Nat
  alive : Bool
  counter : Nat

/-- What a write does next. `cleanup` knows whether its file is still under the temporary
name. -/
inductive WritePhase
  | checking
  | drawing (tries : Nat)
  | writing (k i written : Nat)
  | ready (k i : Nat)
  | renamed (k : Nat)
  | cleanup (k : Nat) (file : Option Nat) (e : PrivateError)
  | done (result : Except PrivateError Unit)
  | dead
deriving DecidableEq

/-- The call has not returned and its process has not stopped. -/
def WritePhase.running : WritePhase → Bool
  | done _ | dead => false
  | _ => true

/-- A `write`. `replaced` is what its rename found under the name, and `changed` whether one
of its system calls changed what a reader of the name finds. -/
structure WriteCall where
  process : Nat
  name : Text
  bytes : Bytes
  publish : Publish
  phase : WritePhase
  replaced : Option (Option Nat)
  changed : Bool

inductive ReadPhase
  | opening
  | opened (i : Nat)
  | reading (i : Nat) (got : Bytes)
  | done (result : Except PrivateError Bytes)
  | dead
deriving DecidableEq

structure ReadCall where
  process : Nat
  name : Text
  limit : Nat
  phase : ReadPhase

namespace WriteCall

def goto (w : WriteCall) (phase : WritePhase) : WriteCall := { w with phase := phase }

end WriteCall

/-- The checks before the temporary file: the name, the size, the directory and, unless it
creates, the file that is there. -/
def checkStep (d : Disk) (w : WriteCall) (move : Move) : Option WritePhase :=
  if leaf w.name = false then some (.done (.error .unsafePath))
  else if maxBytes < w.bytes.length then some (.done (.error .tooLarge))
  else
    match move with
    | .fail f => some (.done (.error f.error))
    | .some _ => none
    | .ok =>
      if w.publish = .createNew then some (.drawing 128)
      else
        match d.dir.get? w.name with
        | some _ => some (.drawing 128)
        | none =>
          if w.publish = .upsert then some (.drawing 128) else some (.done (.error .missing))

/-- One turn of the loop that creates the temporary file. -/
def drawStep (d : Disk) (p : Process) (c : Nat) (w : WriteCall) (tries : Nat) (move : Move) :
    Option (Disk × Process × WriteCall) :=
  let k := p.counter % 2 ^ 64
  let p' := { p with counter := p.counter + 1 }
  match move with
  | .fail f => some (d, p', w.goto (.done (.error f.error)))
  | .some _ => none
  | .ok =>
    match d.dir.get? (tempName p.pid k) with
    | some _ => some (d, p', w.goto (.drawing tries))
    | none => some (d.create (tempName p.pid k) c, p', w.goto (.writing k d.nodes.length 0))

/-- `write_all`, a piece at a time, then `sync_all`. -/
def fillStep (d : Disk) (p : Process) (w : WriteCall) (k i written : Nat) (move : Move) :
    Option (Disk × Process × WriteCall) :=
  match move with
  | .fail f => some (d, p, w.goto (.cleanup k (some i) f.error))
  | .some n =>
    some ({ d with nodes := d.nodes.modify i fun node =>
        { node with content := w.bytes.take (written + n) } }, p,
      w.goto (.writing k i (written + n)))
  | .ok =>
    if w.bytes.length ≤ written then
      some ({ d with nodes := d.nodes.modify i fun node => { node with synced := true } }, p,
        w.goto (.ready k i))
    else none

/-- `renameat`, or `renameat2` with `RENAME_NOREPLACE`. -/
def renameStep (d : Disk) (p : Process) (w : WriteCall) (k i : Nat) (move : Move) :
    Option (Disk × Process × WriteCall) :=
  match move with
  | .fail f => some (d, p, w.goto (.cleanup k (some i) f.error))
  | .some _ => none
  | .ok =>
    match d.dir.get? (tempName p.pid k) with
    | none => some (d, p, w.goto (.cleanup k (some i) .missing))
    | some j =>
      if w.publish = .createNew ∧ d.dir.get? w.name ≠ none then
        some (d, p, w.goto (.cleanup k (some i) .alreadyExists))
      else
        some (d.rename (tempName p.pid k) w.name j, p,
          { w.goto (.renamed k) with replaced := some (d.dir.get? w.name) })

/-- One system call of `write`. -/
def writeStep (d : Disk) (p : Process) (c : Nat) (w : WriteCall) (move : Move) :
    Option (Disk × Process × WriteCall) :=
  match w.phase with
  | .checking => (checkStep d w move).map fun phase => (d, p, w.goto phase)
  | .drawing 0 => some (d, p, w.goto (.done (.error .busy)))
  | .drawing (tries + 1) => drawStep d p c w tries move
  | .writing k i written => fillStep d p w k i written move
  | .ready k i => renameStep d p w k i move
  | .renamed k =>
    match move with
    | .fail _ => some (d, p, w.goto (.cleanup k none .commitUncertain))
    | .some _ => none
    | .ok => some ({ d with past := [] }, p, w.goto (.done (.ok ())))
  | .cleanup k _ e =>
    match move with
    | .fail _ => some (d, p, w.goto (.done (.error e)))
    | .some _ => none
    | .ok => some (d.unlink (tempName p.pid k), p, w.goto (.done (.error e)))
  | .done _ | .dead => none

/-- The bounds of `read`, once the end of the file or of the limit is reached. -/
def finishRead (limit : Nat) (got : Bytes) : ReadPhase :=
  if limit < got.length then .done (.error .tooLarge) else .done (.ok got)

/-- One system call of `read`. -/
def readStep (d : Disk) (r : ReadCall) (move : Move) : Option ReadPhase :=
  match r.phase, move with
  | .opening, move =>
    if r.limit = 0 ∨ maxBytes < r.limit then some (.done (.error .tooLarge))
    else if leaf r.name = false then some (.done (.error .unsafePath))
    else
      match move with
      | .fail f => some (.done (.error f.error))
      | .some _ => none
      | .ok => some ((d.dir.get? r.name).elim (.done (.error .missing)) .opened)
  | .opened _, .fail _ | .reading _ _, .fail _ => some (.done (.error .io))
  | .opened i, .ok =>
    d.nodes[i]?.map fun node =>
      if r.limit < node.content.length then .done (.error .tooLarge) else .reading i []
  | .reading i got, .some n =>
    d.nodes[i]?.bind fun node =>
      let piece := (node.content.drop got.length).take (min n (r.limit + 1 - got.length))
      if n = 0 then none
      else if piece = [] then some (finishRead r.limit got) else some (.reading i (got ++ piece))
  | _, _ => none

/-! ## The machine -/

structure Fs where
  disk : Disk
  processes : List Process
  writes : List WriteCall
  reads : List ReadCall

inductive Action
  | spawn (pid : Nat)
  | crash (process : Nat)
  | powerLoss (dir : Table Text Nat) (contents : List Bytes)
  | beginWrite (process : Nat) (name : Text) (bytes : Bytes) (publish : Publish)
  | write (call : Nat) (move : Move)
  | beginRead (process : Nat) (name : Text) (limit : Nat)
  | read (call : Nat) (move : Move)

def WriteCall.stop (w : WriteCall) : WriteCall :=
  if w.phase.running then w.goto .dead else w

def ReadCall.stop (r : ReadCall) : ReadCall :=
  match r.phase with
  | .done _ => r
  | _ => { r with phase := .dead }

/-- A directory after the power was lost: every entry is one it had since it was last
synced. -/
def Disk.Recovers (d : Disk) (dir : Table Text Nat) : Prop :=
  ∀ r ∈ dir.rows, ∃ old ∈ d.dir :: d.past, old.get? r.1 = some r.2

instance (d : Disk) (dir : Table Text Nat) : Decidable (d.Recovers dir) := by
  unfold Disk.Recovers
  infer_instance

def Disk.lose (d : Disk) (dir : Table Text Nat) (contents : List Bytes) : Disk where
  dir := dir
  past := []
  nodes := d.nodes.mapIdx fun i node =>
    if node.synced then node else { node with content := contents.getD i [] }

def Fs.stop (s : Fs) (dead : Nat → Bool) : Fs :=
  { s with
    processes := s.processes.mapIdx fun i p => if dead i then { p with alive := false } else p
    writes := s.writes.map fun w => if dead w.process then w.stop else w
    reads := s.reads.map fun r => if dead r.process then r.stop else r }

def writeAction (s : Fs) (c : Nat) (move : Move) : Option Fs := do
  let w ← s.writes[c]?
  let p ← s.processes[w.process]?
  if p.alive = false then none
  else do
    let (d, p', w') ← writeStep s.disk p c w move
    let changed := w.changed || s.disk.view w.name ≠ d.view w.name
    some { s with
      disk := d
      processes := s.processes.set w.process p'
      writes := s.writes.set c { w' with changed := changed } }

def readAction (s : Fs) (c : Nat) (move : Move) : Option Fs := do
  let r ← s.reads[c]?
  let p ← s.processes[r.process]?
  if p.alive = false then none
  else do
    let phase ← readStep s.disk r move
    some { s with reads := s.reads.set c { r with phase := phase } }

def fsStep (s : Fs) : Action → Option Fs
  | .spawn pid => some { s with processes := s.processes ++ [⟨pid, true, 0⟩] }
  | .crash i => some (s.stop (· = i))
  | .powerLoss dir contents =>
    if s.disk.Recovers dir then
      some { s.stop (fun _ => true) with disk := s.disk.lose dir contents }
    else none
  | .beginWrite i name bytes publish =>
    s.processes[i]?.bind fun p =>
      if p.alive then
        some { s with writes := s.writes ++ [⟨i, name, bytes, publish, .checking, none, false⟩] }
      else none
  | .write c move => writeAction s c move
  | .beginRead i name limit =>
    s.processes[i]?.bind fun p =>
      if p.alive then some { s with reads := s.reads ++ [⟨i, name, limit, .opening⟩] } else none
  | .read c move => readAction s c move

def fsMachine : Machine Fs Action where
  init s := s = ⟨.empty, [], [], []⟩
  step := fsStep

/-! ## What one system call of a write does -/

/-- The effect of a system call. -/
inductive WriteEffect (d : Disk) (p : Process) (c : Nat) (w : WriteCall) :
    Disk → Process → WriteCall → Prop
  /-- Nothing but the counter of the process changes. -/
  | searching {p' : Process} {phase : WritePhase}
      (before : w.phase = .checking ∨ ∃ n, w.phase = .drawing n)
      (process : p' = p ∨ p' = { p with counter := p.counter + 1 })
      (after : (∃ n, phase = .drawing n) ∨ ∃ e, e ≠ .commitUncertain ∧ phase = .done (.error e)) :
      WriteEffect d p c w d p' (w.goto phase)
  | created {tries : Nat} (before : w.phase = .drawing (tries + 1))
      (free : d.dir.get? (tempName p.pid (p.counter % 2 ^ 64)) = none) :
      WriteEffect d p c w (d.create (tempName p.pid (p.counter % 2 ^ 64)) c)
        { p with counter := p.counter + 1 }
        (w.goto (.writing (p.counter % 2 ^ 64) d.nodes.length 0))
  | wrote {k i written n : Nat} (before : w.phase = .writing k i written) : WriteEffect d p c w
        { d with nodes := d.nodes.modify i fun node =>
            { node with content := w.bytes.take (written + n) } } p
        (w.goto (.writing k i (written + n)))
  | synced {k i written : Nat} (before : w.phase = .writing k i written)
      (all : w.bytes.length ≤ written) :
      WriteEffect d p c w
        { d with nodes := d.nodes.modify i fun node => { node with synced := true } } p
        (w.goto (.ready k i))
  | abandoned {k i : Nat} {e : PrivateError}
      (before : (∃ written, w.phase = .writing k i written) ∨ w.phase = .ready k i)
      (certain : e ≠ .commitUncertain) :
      WriteEffect d p c w d p (w.goto (.cleanup k (some i) e))
  | published {k i j : Nat} (before : w.phase = .ready k i)
      (there : d.dir.get? (tempName p.pid k) = some j)
      (absent : w.publish = .createNew → d.dir.get? w.name = none) :
      WriteEffect d p c w (d.rename (tempName p.pid k) w.name j) p
        { w.goto (.renamed k) with replaced := some (d.dir.get? w.name) }
  | durable {k : Nat} (before : w.phase = .renamed k) :
      WriteEffect d p c w { d with past := [] } p (w.goto (.done (.ok ())))
  | uncertain {k : Nat} (before : w.phase = .renamed k) :
      WriteEffect d p c w d p (w.goto (.cleanup k none .commitUncertain))
  | kept {k : Nat} {file : Option Nat} {e : PrivateError}
      (before : w.phase = .cleanup k file e) :
      WriteEffect d p c w d p (w.goto (.done (.error e)))
  | cleaned {k : Nat} {file : Option Nat} {e : PrivateError}
      (before : w.phase = .cleanup k file e) :
      WriteEffect d p c w (d.unlink (tempName p.pid k)) p (w.goto (.done (.error e)))

section Effects

variable {d d' : Disk} {p p' : Process} {c : Nat} {w w' : WriteCall} {move : Move} {k i : Nat}

theorem checkStep_cases {phase} (h : checkStep d w move = some phase) :
    (∃ n, phase = .drawing n) ∨ ∃ e, e ≠ .commitUncertain ∧ phase = .done (.error e) := by
  unfold checkStep at h
  split at h
  · exact .inr ⟨.unsafePath, by decide, (Option.some.inj h).symm⟩
  split at h
  · exact .inr ⟨.tooLarge, by decide, (Option.some.inj h).symm⟩
  split at h
  · next f => exact .inr ⟨f.error, f.error_ne, (Option.some.inj h).symm⟩
  · cases h
  split at h
  · exact .inl ⟨128, (Option.some.inj h).symm⟩
  split at h
  · exact .inl ⟨128, (Option.some.inj h).symm⟩
  split at h
  · exact .inl ⟨128, (Option.some.inj h).symm⟩
  exact .inr ⟨.missing, by decide, (Option.some.inj h).symm⟩

theorem drawStep_effect {tries : Nat} (hphase : w.phase = .drawing (tries + 1))
    (h : drawStep d p c w tries move = some (d', p', w')) : WriteEffect d p c w d' p' w' := by
  unfold drawStep at h
  dsimp only at h
  split at h
  · next f =>
    cases h
    exact .searching (.inr ⟨_, hphase⟩) (.inr rfl) (.inr ⟨_, f.error_ne, rfl⟩)
  · cases h
  · split at h
    · cases h
      exact .searching (.inr ⟨_, hphase⟩) (.inr rfl) (.inl ⟨_, rfl⟩)
    · next hfree =>
      cases h
      exact .created hphase hfree

theorem fillStep_effect {written : Nat} (hphase : w.phase = .writing k i written)
    (h : fillStep d p w k i written move = some (d', p', w')) : WriteEffect d p c w d' p' w' := by
  unfold fillStep at h
  split at h
  · next f =>
    cases h
    exact .abandoned (.inl ⟨_, hphase⟩) f.error_ne
  · cases h
    exact .wrote hphase
  · split at h
    · next hall =>
      cases h
      exact .synced hphase hall
    · cases h

theorem renameStep_effect (hphase : w.phase = .ready k i)
    (h : renameStep d p w k i move = some (d', p', w')) : WriteEffect d p c w d' p' w' := by
  unfold renameStep at h
  split at h
  · next f =>
    cases h
    exact .abandoned (.inr hphase) f.error_ne
  · cases h
  · split at h
    · cases h
      exact .abandoned (.inr hphase) (by decide)
    · next j hj =>
      split at h
      · cases h
        exact .abandoned (.inr hphase) (by decide)
      rename_i hfree
      cases h
      rw [not_and, not_not] at hfree
      exact .published hphase hj hfree

theorem writeStep_effect (h : writeStep d p c w move = some (d', p', w')) :
    WriteEffect d p c w d' p' w' := by
  unfold writeStep at h
  split at h
  · next hphase =>
    obtain ⟨phase, hcheck, heq⟩ := Option.map_eq_some_iff.mp h
    cases heq
    exact .searching (.inl hphase) (.inl rfl) (checkStep_cases hcheck)
  · next hphase =>
    cases h
    exact .searching (.inr ⟨_, hphase⟩) (.inl rfl) (.inr ⟨.busy, nofun, rfl⟩)
  · next hphase => exact drawStep_effect hphase h
  · next hphase => exact fillStep_effect hphase h
  · next hphase => exact renameStep_effect hphase h
  · next hphase =>
    split at h
    · cases h
      exact .uncertain hphase
    · cases h
    · cases h
      exact .durable hphase
  · next hphase =>
    split at h
    · cases h
      exact .kept hphase
    · cases h
    · cases h
      exact .cleaned hphase
  · cases h
  · cases h

theorem WriteEffect.same (h : WriteEffect d p c w d' p' w') :
    w'.process = w.process ∧ w'.name = w.name ∧ w'.bytes = w.bytes ∧ w'.publish = w.publish := by
  cases h <;> exact ⟨rfl, rfl, rfl, rfl⟩

theorem WriteEffect.process (h : WriteEffect d p c w d' p' w') :
    p'.pid = p.pid ∧ p'.alive = p.alive ∧ p.counter ≤ p'.counter := by
  cases h with
  | searching _ process _ => rcases process with rfl | rfl <;> simp
  | created _ _ => simp
  | _ => exact ⟨rfl, rfl, Nat.le_refl _⟩

end Effects

end SentinelPass.SecureIo
