import SentinelPass.Lib.Machine
import SentinelPass.Lib.Table
import SentinelPass.Lib.Text

/-!
# Custody sessions

`custody/mod.rs` and `custody/workers.rs`: a read session hands out leases on enrolled
objects, and a lease delivers the secret of its object once, into a registered receiver.

`State` and the critical sections of `acquire` and `deliver_to` are functions on
`SessionState`; what a call does between two locks is a phase of it (`AcquirePhase`,
`DeliverPhase`), and the blocking reads are workers of their own. `custodyMachine` lets
all of them interleave, with the timers, the drops, cancellation and invalidation.

A lease's entry owns its lifetime, which is cancelled when the entry is dropped: it is
over exactly when the entry has left the table. Instants, random ids, the permits of the
shared semaphores and the answers of the vault are inputs of the actions; the secret is a
type `κ`. The machine keeps a history of what happened.
-/

namespace SentinelPass.Custody

open Lib

/-! ## Scopes and references -/

inductive CustodyError
  | unavailable | unsupported | locked | interactionRequired | denied | notFound
  | staleReference | conflict | cancelled | expired | capacity | invalidated | integrityFailed
deriving DecidableEq

inductive Purpose
  | mailRecovery
  | storageRecovery
deriving DecidableEq

structure CustodyScope where
  version : Nat
  (namespaceName issuer subject mailboxId : Text)
  purpose : Purpose
deriving DecidableEq

structure ObjectRef where
  (objectId revision keyEpoch bindingSha256 : Text)
deriving DecidableEq

def protocolVersion : Nat := 1

def maxLiveLeases : Nat := 8

/-- `identity`: printable ASCII without `*`. -/
def identity (s : Text) (max : Nat) : Bool :=
  let bytes := textBytes s
  bytes ≠ [] && bytes.length ≤ max && bytes.all fun b => 0x21 ≤ b && b ≤ 0x7e && b ≠ 0x2a

/-- `decimal`: a positive `u64` without leading zeros. -/
def decimal (s : Text) : Except CustodyError Nat :=
  if s = [] || (textBytes s).length > 20 || s.head? = some '0' || !s.all Char.isDigit then
    .error .denied
  else
    let n := Nat.ofDigitChars 10 s 0
    if n < 2 ^ 64 then .ok n else .error .denied

def CustodyScope.validate (s : CustodyScope) : Except CustodyError Unit :=
  if s.version ≠ protocolVersion || !identity s.namespaceName 128 || !identity s.issuer 512 ||
      !identity s.subject 512 || !identity s.mailboxId 512 then .error .denied
  else .ok ()

def ObjectRef.validate (r : ObjectRef) : Except CustodyError Unit := do
  let _ ← decimal r.revision
  let _ ← decimal r.keyEpoch
  if !identity r.objectId 128 || (textBytes r.bindingSha256).length ≠ 64 ||
      !r.bindingSha256.all fun c => c.isDigit || ('a' ≤ c && c ≤ 'f') then .error .denied
  else .ok ()

/-! ## The session -/

/-- Nanoseconds of `Instant`. -/
abbrev Instant := Nat

def seconds (n : Nat) : Nat := n * 1000000000

/-- `LEASE_SECONDS`. -/
def leaseTtl : Nat := seconds 120

/-- `DELIVERY_SECONDS`. -/
def deliveryTtl : Nat := seconds 5

/-- `[u8; 32]`. -/
abbrev Id := BitVec 256

/-- An enrolled object. -/
structure Object where
  scope : CustodyScope
  reference : ObjectRef

structure LeaseEntry where
  scope : CustodyScope
  reference : ObjectRef
  expires : Instant
  started : Bool

structure ReceiverEntry (κ : Type) where
  scope : CustodyScope
  reference : ObjectRef
  lease : Option Id
  value : Option κ

/-- `State`. `vault` says whether the session still has one. -/
structure SessionState (κ : Type) where
  (active lifetimeOver vault : Bool)
  objects : List Object
  leases : Table Id LeaseEntry
  receivers : Table Id (ReceiverEntry κ)

/-- What the first critical section of `deliver_to` reads. -/
structure Delivery where
  scope : CustodyScope
  reference : ObjectRef
  deadline : Instant

namespace SessionState

variable {κ : Type}

/-- A session as `authorize_read` creates it. -/
def new : SessionState κ := ⟨true, false, true, [], .empty, .empty⟩

variable (s : SessionState κ)

def authorize (scope : CustodyScope) (reference : ObjectRef) : Except CustodyError Unit := do
  scope.validate
  reference.validate
  if !s.active then .error .invalidated
  else
    match s.objects.find? fun o => o.scope = scope && o.reference.objectId = reference.objectId with
    | none => .error .denied
    | some o => if o.reference ≠ reference then .error .staleReference else .ok ()

def invalidate : SessionState κ → SessionState κ
  | _ => ⟨false, true, false, [], .empty, .empty⟩

def close (id : Id) : SessionState κ :=
  { s with
    leases := s.leases.erase id
    receivers := s.receivers.filter fun _ r => r.lease ≠ some id }

def reap (now : Instant) : SessionState κ :=
  let leases := s.leases.filter fun _ l => now < l.expires
  { s with
    leases := leases
    receivers := s.receivers.filter fun _ r =>
      r.lease.all fun id => (leases.get? id).isSome }

/-- The enrolment of an object in a running session (`authorize_read`). -/
def grant (scope : CustodyScope) (reference : ObjectRef) : Except CustodyError (SessionState κ) :=
  if !s.active then .error .invalidated
  else
    match s.objects.find? fun o => o.reference.objectId = reference.objectId with
    | some old =>
      if old.reference ≠ reference || old.scope ≠ scope then .error .staleReference else .ok s
    | none =>
      if s.objects.length ≥ maxLiveLeases then .error .capacity
      else .ok { s with objects := s.objects ++ [⟨scope, reference⟩] }

/-- `receiver`: the answer and the state it leaves. -/
def register (scope : CustodyScope) (reference : ObjectRef) (id : Id) (now : Instant) :
    SessionState κ × Except CustodyError Unit :=
  match s.authorize scope reference with
  | .error e => (s, .error e)
  | .ok _ =>
    let s := s.reap now
    if s.receivers.rows.length ≥ maxLiveLeases then (s, .error .capacity)
    else
      match s.receivers.insert? id ⟨scope, reference, none, none⟩ with
      | none => (s, .error .unavailable)
      | some receivers => ({ s with receivers := receivers }, .ok ())

/-- The last critical section of `acquire`: the answer, with the lease's expiry, and the
state it leaves. -/
def finishAcquire (scope : CustodyScope) (reference : ObjectRef) (started : Instant)
    (cancelled : Bool) (id : Id) (now later : Instant) :
    SessionState κ × Except CustodyError Instant :=
  match s.authorize scope reference with
  | .error e => (s, .error e)
  | .ok _ =>
    let s := s.reap now
    if s.leases.rows.length ≥ maxLiveLeases then (s, .error .capacity)
    else if later - started ≥ leaseTtl then (s, .error .expired)
    else if cancelled then (s, .error .cancelled)
    else
      let expires := later + leaseTtl
      match s.leases.insert? id ⟨scope, reference, expires, false⟩ with
      | none => (s, .error .unavailable)
      | some leases => ({ s with leases := leases }, .ok expires)

/-- The first critical section of `deliver_to`, with a handle that expires at `expires`. -/
def beginDelivery (id : Id) (expires : Instant) (receiver : Id) (now later : Instant) :
    Except CustodyError (SessionState κ × Delivery) := do
  if expires ≤ now then .error .expired
  else
    match s.leases.get? id with
    | none => .error .invalidated
    | some lease =>
      if lease.started then .error .invalidated
      else
        match s.receivers.get? receiver with
        | none => .error .invalidated
        | some destination =>
          if destination.scope ≠ lease.scope || destination.reference ≠ lease.reference ||
              destination.lease.isSome then .error .denied
          else do
            s.authorize lease.scope lease.reference
            .ok ({ s with
                leases := s.leases.update id fun l => { l with started := true }
                receivers := s.receivers.update receiver fun r => { r with lease := some id } },
              ⟨lease.scope, lease.reference, min expires (later + deliveryTtl)⟩)

/-- The last critical section of `deliver_to`: the value is put, or nothing changes. -/
def finishDelivery (id receiver : Id) (d : Delivery) (cancelled : Bool) (value : Option κ)
    (now : Instant) : Except CustodyError (SessionState κ × κ) := do
  if cancelled then .error .cancelled
  else if d.deadline ≤ now then .error .expired
  else do
    s.authorize d.scope d.reference
    if (s.leases.get? id).isNone then .error .invalidated
    else
      match s.receivers.get? receiver with
      | none => .error .invalidated
      | some destination =>
        if destination.lease ≠ some id then .error .invalidated
        else
          match value with
          | none => .error .unavailable
          | some v =>
            .ok ({ s with
                receivers := s.receivers.update receiver fun r => { r with value := some v } }, v)

end SessionState

/-! ## Calls and workers -/

/-- The cancellation a worker watches besides the caller's: the session's, or a lease's. -/
inductive Lifetime
  | session
  | lease (id : Id)

/-- The call a worker reads for. -/
inductive Owner
  | acquire (call : Nat)
  | deliver (call : Nat)

/-- `finished` is the operation's own result, `sent` the one the waiter can receive. -/
inductive WorkerStage (κ : Type)
  | queued
  | finished (result : Except CustodyError (Option κ))
  | sent (result : Except CustodyError (Option κ))

/-- A blocking read. `keeps` is set for the one whose operation returns the secret; the
others drop it in the worker. -/
structure Worker (κ : Type) where
  owner : Owner
  scope : CustodyScope
  reference : ObjectRef
  lifetime : Lifetime
  cancel : Nat
  deadline : Instant
  (keeps stopped : Bool)
  stage : WorkerStage κ

/-- `acquire` between its locks. -/
inductive AcquirePhase
  | entered
  | authorized
  | waiting (worker : Nat)
  | checked
  | ended
deriving DecidableEq

structure AcquireCall where
  scope : CustodyScope
  reference : ObjectRef
  cancel : Nat
  started : Instant
  phase : AcquirePhase

inductive Round
  | first
  | second
deriving DecidableEq

/-- `deliver_to` between its locks. A call that fails is `unwinding` until its guard has
closed the lease. -/
inductive DeliverPhase (κ : Type)
  | entered
  | admitted (d : Delivery) (round : Round)
  | waiting (d : Delivery) (round : Round) (worker : Nat)
  | ready (d : Delivery) (value : Option κ)
  | unwinding
  | ended

structure DeliverCall (κ : Type) where
  lease : Id
  expires : Instant
  receiver : Id
  cancel : Nat
  phase : DeliverPhase κ

/-- What happened. Calls of `deliver_to` are numbered. -/
inductive Event (κ : Type)
  | registered (receiver : Id) (scope : CustodyScope) (reference : ObjectRef)
  | acquired (lease : Id) (scope : CustodyScope) (reference : ObjectRef)
  | began (call : Nat) (lease receiver : Id)
  | read (call : Nat) (scope : CustodyScope) (reference : ObjectRef) (value : κ)
  | put (call : Nat) (lease receiver : Id) (value : κ)

/-- The session with everything that uses it. `handles` are the leases that were handed
out, each with its expiry. -/
structure World (κ : Type) where
  session : SessionState κ
  cancelled : List Nat
  acquires : List AcquireCall
  deliveries : List (DeliverCall κ)
  workers : List (Worker κ)
  handles : List (Id × Instant)
  events : List (Event κ)

inductive Action (κ : Type)
  | grant (scope : CustodyScope) (reference : ObjectRef)
  | register (scope : CustodyScope) (reference : ObjectRef) (id : Id) (now : Instant)
  | dropReceiver (id : Id)
  | acquire (scope : CustodyScope) (reference : ObjectRef) (cancel : Nat) (now : Instant)
  | acquireLock (i : Nat)
  | acquireRun (i : Nat) (permits : Bool) (now : Instant)
  | acquirePoll (i : Nat) (now : Instant)
  | acquireFinish (i : Nat) (id : Id) (now later : Instant)
  | acquireDrop (i : Nat)
  | deliver (handle : Nat) (receiver : Id) (sameSession : Bool) (cancel : Nat)
  | deliverLock (i : Nat) (now later : Instant)
  | deliverRun (i : Nat) (permits : Bool) (now : Instant)
  | deliverPoll (i : Nat) (now : Instant)
  | deliverFinish (i : Nat) (now : Instant)
  | deliverDrop (i : Nat)
  | unwind (i : Nat)
  | workerRead (w : Nat) (answer : Except CustodyError κ) (now : Instant)
  | workerSend (w : Nat) (now : Instant)
  | cancel (token : Nat)
  | close (handle : Nat)
  | expire (handle : Nat) (now : Instant)
  | invalidate

namespace World

variable {κ : Type} (s : World κ)

/-- `lifetime.check()` fails. -/
def lifetimeOver : Lifetime → Bool
  | .session => s.session.lifetimeOver
  | .lease id => (s.session.leases.get? id).isNone

/-- `Work::check`, for a deadline, a caller's cancellation and a lifetime. -/
def check (lifetime : Lifetime) (cancel : Nat) (deadline : Instant) (stopped : Bool)
    (now : Instant) : Except CustodyError Unit :=
  if s.lifetimeOver lifetime then .error .invalidated
  else if cancel ∈ s.cancelled then .error .cancelled
  else if deadline ≤ now then .error .expired
  else if stopped then .error .cancelled
  else .ok ()

def checkWorker (w : Worker κ) (now : Instant) : Except CustodyError Unit :=
  s.check w.lifetime w.cancel w.deadline w.stopped now

/-- `workers::run` up to the spawn: the check, then the two permits. -/
def spawn (permits : Bool) (w : Worker κ) (now : Instant) : Except CustodyError (World κ) := do
  s.checkWorker w now
  if !permits then .error .capacity
  else .ok { s with workers := s.workers ++ [w] }

/-- The biased `select!` of `workers::run`; `none` while nothing is ready. -/
def poll (w : Worker κ) (now : Instant) : Option (Except CustodyError (Option κ)) :=
  if s.lifetimeOver w.lifetime then some (.error .invalidated)
  else if w.cancel ∈ s.cancelled then some (.error .cancelled)
  else if w.deadline ≤ now then some (.error .expired)
  else
    match w.stage with
    | .sent result => some result
    | _ => none

/-- `StopOnDrop`. -/
def stop (w : Nat) : World κ :=
  { s with workers := s.workers.modify w fun wk => { wk with stopped := true } }

def setAcquire (i : Nat) (phase : AcquirePhase) : World κ :=
  { s with acquires := s.acquires.modify i fun c => { c with phase := phase } }

def setDeliver (i : Nat) (phase : DeliverPhase κ) : World κ :=
  { s with deliveries := s.deliveries.modify i fun c => { c with phase := phase } }

def setStage (w : Nat) (stage : WorkerStage κ) : World κ :=
  { s with workers := s.workers.modify w fun wk => { wk with stage := stage } }

/-- The operation of a worker: the vault's answer if the checks before it pass. -/
def operate (w : Worker κ) (answer : Except CustodyError κ) (now : Instant) :
    Except CustodyError (Option κ) := do
  s.checkWorker w now
  let value ← answer
  .ok (if w.keeps then some value else none)

/-- The read of a delivery is recorded when the vault has answered. -/
def readEvent (w : Worker κ) : Except CustodyError (Option κ) → List (Event κ)
  | .ok (some v) =>
    match w.owner with
    | .deliver call => [.read call w.scope w.reference v]
    | .acquire _ => []
  | _ => []

/-- A call of `deliver_to` on a receiver of this session, or of another one. -/
def newDelivery (lease : Id) (expires : Instant) (receiver : Id) (sameSession : Bool)
    (cancel : Nat) : DeliverCall κ :=
  { lease := lease, expires := expires, receiver := receiver, cancel := cancel
    phase := if cancel ∈ s.cancelled || !sameSession then .unwinding else .entered }

/-- The phase of a delivery after a read has resolved. -/
def afterRead (d : Delivery) : Round → Except CustodyError (Option κ) → DeliverPhase κ
  | _, .error _ => .unwinding
  | .first, .ok _ => .admitted d .second
  | .second, .ok value => .ready d value

/-- The read of round `round` of a delivery. -/
def deliveryWorker (i : Nat) (c : DeliverCall κ) (d : Delivery) (round : Round) : Worker κ :=
  { owner := .deliver i, scope := d.scope, reference := d.reference, lifetime := .lease c.lease
    cancel := c.cancel, deadline := d.deadline, keeps := round = .second, stopped := false
    stage := .queued }

def acquireWorker (i : Nat) (c : AcquireCall) : Worker κ :=
  { owner := .acquire i, scope := c.scope, reference := c.reference, lifetime := .session
    cancel := c.cancel, deadline := c.started + leaseTtl, keeps := false, stopped := false
    stage := .queued }

/-- `acquire` up to the first lock and through it. -/
def acquireLock (i : Nat) (c : AcquireCall) : Option (World κ) :=
  if c.phase ≠ .entered then none
  else if c.cancel ∈ s.cancelled then some (s.setAcquire i .ended)
  else
    match s.session.authorize c.scope c.reference with
    | .error _ => some (s.setAcquire i .ended)
    | .ok _ => some (s.setAcquire i (if s.session.vault then .authorized else .checked))

def acquireRun (i : Nat) (c : AcquireCall) (permits : Bool) (now : Instant) : Option (World κ) :=
  if c.phase ≠ .authorized then none
  else
    match s.spawn permits (acquireWorker i c) now with
    | .error _ => some (s.setAcquire i .ended)
    | .ok t => some (t.setAcquire i (.waiting s.workers.length))

def acquirePoll (i : Nat) (c : AcquireCall) (now : Instant) : Option (World κ) :=
  match c.phase with
  | .waiting w =>
    (s.workers[w]?).bind fun wk =>
      (s.poll wk now).map fun result =>
        (s.stop w).setAcquire i (if result.isOk then .checked else .ended)
  | _ => none

/-- The last lock of `acquire`. -/
def acquireFinish (i : Nat) (c : AcquireCall) (id : Id) (now later : Instant) : Option (World κ) :=
  if c.phase ≠ .checked then none
  else
    match s.session.finishAcquire c.scope c.reference c.started (c.cancel ∈ s.cancelled) id now
        later with
    | (session, .error _) => some ({ s with session := session }.setAcquire i .ended)
    | (session, .ok expires) =>
      some ({ s with
        session := session, handles := s.handles ++ [(id, expires)]
        events := s.events ++ [Event.acquired id c.scope c.reference] }.setAcquire i .ended)

/-- The future of an acquisition is dropped while it waits. -/
def acquireDrop (i : Nat) (c : AcquireCall) : Option (World κ) :=
  match c.phase with
  | .waiting w => some ((s.stop w).setAcquire i .ended)
  | .entered => some (s.setAcquire i .ended)
  | _ => none

/-- The first lock of `deliver_to`. -/
def deliverLock (i : Nat) (c : DeliverCall κ) (now later : Instant) : Option (World κ) :=
  match c.phase with
  | .entered =>
    match s.session.beginDelivery c.lease c.expires c.receiver now later with
    | .error _ => some (s.setDeliver i .unwinding)
    | .ok (session, d) =>
      some ({ s with session := session }.setDeliver i
        (if s.session.vault then .admitted d .first else .ready d none))
  | _ => none

def deliverRun (i : Nat) (c : DeliverCall κ) (permits : Bool) (now : Instant) : Option (World κ) :=
  match c.phase with
  | .admitted d round =>
    match s.spawn permits (deliveryWorker i c d round) now with
    | .error _ => some (s.setDeliver i .unwinding)
    | .ok t => some (t.setDeliver i (.waiting d round s.workers.length))
  | _ => none

def deliverPoll (i : Nat) (c : DeliverCall κ) (now : Instant) : Option (World κ) :=
  match c.phase with
  | .waiting d round w =>
    (s.workers[w]?).bind fun wk =>
      (s.poll wk now).map fun result => (s.stop w).setDeliver i (afterRead d round result)
  | _ => none

/-- The last lock of `deliver_to`. -/
def deliverFinish (i : Nat) (c : DeliverCall κ) (now : Instant) : Option (World κ) :=
  match c.phase with
  | .ready d value =>
    match s.session.finishDelivery c.lease c.receiver d (c.cancel ∈ s.cancelled) value now with
    | .error _ => some (s.setDeliver i .unwinding)
    | .ok (session, v) =>
      some ({ s with
        session := session
        events := s.events ++ [Event.put i c.lease c.receiver v] }.setDeliver i .ended)
  | _ => none

/-- The future of a delivery is dropped while it waits. -/
def deliverDrop (i : Nat) (c : DeliverCall κ) : Option (World κ) :=
  match c.phase with
  | .waiting _ _ w => some ((s.stop w).setDeliver i .unwinding)
  | _ => none

/-- `DeliveryGuard::drop`. -/
def unwind (i : Nat) (c : DeliverCall κ) : Option (World κ) :=
  match c.phase with
  | .unwinding => some ({ s with session := s.session.close c.lease }.setDeliver i .ended)
  | _ => none

def workerRead (w : Nat) (wk : Worker κ) (answer : Except CustodyError κ) (now : Instant) :
    Option (World κ) :=
  match wk.stage with
  | .queued =>
    some ({ s with events := s.events ++ readEvent wk (s.operate wk answer now) }.setStage w
      (.finished (s.operate wk answer now)))
  | _ => none

/-- A worker checks once more and sends its result. -/
def workerSend (w : Nat) (wk : Worker κ) (now : Instant) : Option (World κ) :=
  match wk.stage with
  | .finished result => some (s.setStage w (.sent ((s.checkWorker wk now).bind fun _ => result)))
  | _ => none

/-- `receiver`. -/
def register (scope : CustodyScope) (reference : ObjectRef) (id : Id) (now : Instant) : World κ :=
  match s.session.register scope reference id now with
  | (session, .error _) => { s with session := session }
  | (session, .ok _) =>
    { s with session := session, events := s.events ++ [Event.registered id scope reference] }

/-- `authorize_read` on this session. -/
def grant (scope : CustodyScope) (reference : ObjectRef) : World κ :=
  match s.session.grant scope reference with
  | .error _ => s
  | .ok session => { s with session := session }

/-- A lease is closed: by its owner, by the drop of its handle, or by its timer. -/
def closeLease (id : Id) : World κ := { s with session := s.session.close id }

def step : Action κ → Option (World κ)
  | .grant scope reference => some (s.grant scope reference)
  | .register scope reference id now => some (s.register scope reference id now)
  | .dropReceiver id =>
    some { s with session := { s.session with receivers := s.session.receivers.erase id } }
  | .acquire scope reference cancel now =>
    some { s with acquires := s.acquires ++ [⟨scope, reference, cancel, now, .entered⟩] }
  | .acquireLock i => (s.acquires[i]?).bind fun c => s.acquireLock i c
  | .acquireRun i permits now => (s.acquires[i]?).bind fun c => s.acquireRun i c permits now
  | .acquirePoll i now => (s.acquires[i]?).bind fun c => s.acquirePoll i c now
  | .acquireFinish i id now later =>
    (s.acquires[i]?).bind fun c => s.acquireFinish i c id now later
  | .acquireDrop i => (s.acquires[i]?).bind fun c => s.acquireDrop i c
  | .deliver handle receiver sameSession cancel =>
    (s.handles[handle]?).map fun h =>
      { s with
        deliveries := s.deliveries ++ [s.newDelivery h.1 h.2 receiver sameSession cancel]
        events := s.events ++ [.began s.deliveries.length h.1 receiver] }
  | .deliverLock i now later => (s.deliveries[i]?).bind fun c => s.deliverLock i c now later
  | .deliverRun i permits now => (s.deliveries[i]?).bind fun c => s.deliverRun i c permits now
  | .deliverPoll i now => (s.deliveries[i]?).bind fun c => s.deliverPoll i c now
  | .deliverFinish i now => (s.deliveries[i]?).bind fun c => s.deliverFinish i c now
  | .deliverDrop i => (s.deliveries[i]?).bind fun c => s.deliverDrop i c
  | .unwind i => (s.deliveries[i]?).bind fun c => s.unwind i c
  | .workerRead w answer now => (s.workers[w]?).bind fun wk => s.workerRead w wk answer now
  | .workerSend w now => (s.workers[w]?).bind fun wk => s.workerSend w wk now
  | .cancel token => some { s with cancelled := token :: s.cancelled }
  | .close handle => (s.handles[handle]?).map fun h => s.closeLease h.1
  | .expire handle now =>
    (s.handles[handle]?).bind fun h => if h.2 ≤ now then some (s.closeLease h.1) else none
  | .invalidate => some { s with session := s.session.invalidate }

end World

def World.start (κ : Type) : World κ := ⟨.new, [], [], [], [], [], []⟩

def custodyMachine (κ : Type) : Machine (World κ) (Action κ) where
  init s := s = .start κ
  step := World.step

/-- The id `acquire` draws for a new lease. -/
def Action.drawnLease {κ : Type} : Action κ → Option Id
  | .acquireFinish _ id _ _ => some id
  | _ => none

/-- `random_id` draws 32 random bytes: a lease gets an id that no lease had before. -/
def FreshIds {κ : Type} (s : World κ) (a : Action κ) : Prop :=
  ∀ id ∈ a.drawnLease, id ∉ s.handles.map Prod.fst

instance {κ : Type} (s : World κ) (a : Action κ) : Decidable (FreshIds s a) :=
  match h : a.drawnLease with
  | none => .isTrue fun id hid => by simp [h] at hid
  | some l =>
    if hl : l ∈ s.handles.map Prod.fst then .isFalse fun hf => hf l h hl
    else .isTrue fun id hid => by
      obtain rfl : l = id := Option.some.inj (h.symm.trans hid)
      exact hl

end SentinelPass.Custody
