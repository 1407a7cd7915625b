import SentinelPass.Relay.Answers
import SentinelPass.Sync.Device

/-!
# Any number of devices and a relay

The whole of v2 sync: a relay, devices that write locally, push, pull and resolve
conflicts, and the messages between them. A push is collected in one step, sent
in another, any number of times, and each answer may be acknowledged at any later
time or never; a pull page is fetched in one step and applied in another. So
requests and answers are lost, repeated and delayed.

`Device.integrated` and `PushTask.seen` are there for the statements: the peer
versions that a device has written into its rows or resolved as a stored
conflict, and what they were when a push was collected.
-/

namespace SentinelPass

open Lib Relay LocalDb

structure Device where
  db : LocalDb
  integrated : List SyncEntryBlob

/-- One chunk of a push, with the answers the relay has given to it. -/
structure PushTask where
  device : Uuid
  deviceSequence : UInt64
  chunk : List MutationV2
  seen : List SyncEntryBlob
  answers : List PushResponseV2

/-- A page on its way to a device, with the cursor and the high-water of the
loop that asked for it. -/
structure PullTask where
  device : Uuid
  (cursor highWater : UInt64)
  response : PullResponseV2

structure System where
  relay : RelayState
  devices : Uuid → Device
  pushes : List PushTask
  pulls : List PullTask

inductive SystemAction
  | register (req : RegisterDeviceRequest) (paired : Bool) (now : Int)
  | cleanup (ttl : Int) (cap : UInt64) (now : Int)
  | edit (device : Uuid) (op : LocalOp)
  | collect (device : Uuid) (nonces : Nonces)
  | send (push : Nat) (now : Int)
  | acks (push answer : Nat) (now : Int)
  | fetch (device : Uuid) (limit : Option UInt32)
  | apply (pull : Nat) (now : Int) (guard : Guard)
  | resolve (device object : Uuid) (takeRemote : Bool) (now : Int) (guard : Guard)

namespace System

def setDevice (s : System) (device : Uuid) (d : Device) : System :=
  { s with devices := Function.update s.devices device d }

/-- The system with the database of one device replaced. -/
def setDb (s : System) (device : Uuid) (db : LocalDb) : System :=
  s.setDevice device { s.devices device with db := db }

def newTasks (s : System) (device : Uuid) (collected : List (List MutationV2)) : List PushTask :=
  collected.map fun chunk =>
    { device := device
      deviceSequence := (s.devices device).db.config.lastPushSequence + 1
      chunk := chunk
      seen := (s.devices device).integrated
      answers := [] }

end System

def sendStep (s : System) (i : Nat) (now : Int) : Option System := do
  let task ← s.pushes[i]?
  let (relay, answer) ←
    (pushV2 s.relay task.device (pushRequest task.deviceSequence task.chunk) now).toOption
  some { s with
    relay := relay
    pushes := s.pushes.set i { task with answers := task.answers ++ [answer] } }

def acksStep (s : System) (i j : Nat) (now : Int) : Option System := do
  let task ← s.pushes[i]?
  let answer ← task.answers[j]?
  let cursor ← (wireU64 answer.serverCursor).toOption
  let db := (applyPushAcks (s.devices task.device).db task.chunk answer.results cursor now).1
  some (s.setDb task.device db)

def fetchStep (s : System) (device : Uuid) (limit : Option UInt32) : Option System := do
  let config := (s.devices device).db.config
  let response ← (sendPull s.relay device config.lastPullSequence limit).toOption
  if response.entries = [] then none
  else
    some { s with pulls := s.pulls ++
      [⟨device, config.lastPullSequence, config.lineageHighWater, response⟩] }

def applyStep (E : Env) (s : System) (k : Nat) (now : Int) (guard : Guard) : Option System := do
  let task ← s.pulls[k]?
  let d := s.devices task.device
  let page := pullPage E task.device now guard task.cursor task.highWater d.db task.response
  some (s.setDevice task.device
    ⟨page.db, d.integrated ++ page.outcomes.filterMap writtenBlob⟩)

def resolveStep (E : Env) (s : System) (device object : Uuid) (takeRemote : Bool) (now : Int)
    (guard : Guard) : System :=
  let d := s.devices device
  let r := resolveSyncConflict E now guard d.db object takeRemote
  s.setDevice device ⟨r.db, d.integrated ++ r.resolved.toList⟩

def systemStep (E : Env) (s : System) : SystemAction → Option System
  | .register req paired now =>
    (relayStep s.relay (.register req paired now)).map fun r => { s with relay := r }
  | .cleanup ttl cap now =>
    (relayStep s.relay (.cleanup ttl cap now)).map fun r => { s with relay := r }
  | .edit device op =>
    (op.run E.decodeBase32 (s.devices device).db).toOption.map (s.setDb device)
  | .collect device nonces =>
    (collectForPush E nonces device (s.devices device).db).toOption.map fun collected =>
      { s with pushes := s.pushes ++ s.newTasks device collected }
  | .send i now => sendStep s i now
  | .acks i j now => acksStep s i j now
  | .fetch device limit => fetchStep s device limit
  | .apply k now guard => applyStep E s k now guard
  | .resolve device object takeRemote now guard =>
    some (resolveStep E s device object takeRemote now guard)

/-- An empty relay and vaults that have never synced. -/
def System.Initial (s : System) : Prop :=
  s.relay = .empty ∧ s.pushes = [] ∧ s.pulls = [] ∧ ∀ device, (s.devices device).integrated = [] ∧
      (s.devices device).db.syncConflicts = .empty ∧
      ∀ t id c, (s.devices device).db.cols t id = some c → c.syncAckedVersion = 0

def system (E : Env) : Machine System SystemAction where
  init := System.Initial
  step := systemStep E

/-! ## What the steps with messages do -/

section Inversion

variable {E : Env} {s s' : System} {now : Int} {i : Nat}

theorem sendStep_ok (h : sendStep s i now = some s') :
    ∃ task relay answer, s.pushes[i]? = some task ∧
      pushV2 s.relay task.device (pushRequest task.deviceSequence task.chunk) now
        = .ok (relay, answer) ∧
      s' = { s with
        relay := relay
        pushes := s.pushes.set i { task with answers := task.answers ++ [answer] } } := by
  obtain ⟨task, htask, h⟩ := Option.bind_eq_some_iff.mp h
  obtain ⟨⟨relay, answer⟩, hp, h⟩ := Option.bind_eq_some_iff.mp h
  exact ⟨task, relay, answer, htask, toOption_eq_some.mp hp, (Option.some.inj h).symm⟩

theorem acksStep_ok {j : Nat} (h : acksStep s i j now = some s') :
    ∃ task answer cursor, s.pushes[i]? = some task ∧ task.answers[j]? = some answer ∧
      s' = s.setDb task.device
        (applyPushAcks (s.devices task.device).db task.chunk answer.results cursor now).1 := by
  obtain ⟨task, htask, h⟩ := Option.bind_eq_some_iff.mp h
  obtain ⟨answer, hanswer, h⟩ := Option.bind_eq_some_iff.mp h
  obtain ⟨cursor, -, h⟩ := Option.bind_eq_some_iff.mp h
  exact ⟨task, answer, cursor, htask, hanswer, (Option.some.inj h).symm⟩

theorem fetchStep_ok {device limit} (h : fetchStep s device limit = some s') :
    ∃ cursor highWater response, sendPull s.relay device cursor limit = .ok response ∧
      s' = { s with pulls := s.pulls ++ [⟨device, cursor, highWater, response⟩] } := by
  obtain ⟨response, hresp, h⟩ := Option.bind_eq_some_iff.mp h
  split at h
  · cases h
  exact ⟨_, _, response, toOption_eq_some.mp hresp, (Option.some.inj h).symm⟩

theorem applyStep_ok {k guard} (h : applyStep E s k now guard = some s') :
    ∃ task page, s.pulls[k]? = some task ∧
      page = pullPage E task.device now guard task.cursor task.highWater
        (s.devices task.device).db task.response ∧
      s' = s.setDevice task.device
        ⟨page.db, (s.devices task.device).integrated ++ page.outcomes.filterMap writtenBlob⟩ := by
  obtain ⟨task, htask, h⟩ := Option.bind_eq_some_iff.mp h
  exact ⟨task, _, htask, rfl, (Option.some.inj h).symm⟩

/-- After a page each row shows what the page has last written into it. -/
theorem applyStep_shown {k : Nat} {guard : Guard} (h : applyStep E s k now guard = some s') :
    ∃ device written, (s'.devices device).integrated = (s.devices device).integrated ++ written ∧
      LastShown E (s'.devices device).db written := by
  obtain ⟨task, page, -, rfl, rfl⟩ := applyStep_ok h
  have hdevice : ∀ d, (s.setDevice task.device d).devices task.device = d :=
    fun d => Function.update_self ..
  refine ⟨task.device, _, by rw [hdevice], ?_⟩
  rw [hdevice]
  refine pullPage_rule (P := fun db outcomes => LastShown E db (outcomes.filterMap writtenBlob))
    (lastShown_nil _) fun hbody => ?_
  obtain ⟨tx, hpasses, -, rfl⟩ := pageBody_ok hbody
  exact (pagePasses_marks hpasses).shown.congr fun t id => row_setConfig ..

end Inversion

end SentinelPass
