import SentinelPass.Lib.Linearization
import SentinelPass.Daemon.ExternalSecrets

/-!
# Updates of the allowlist file

`allow_until_default` and `revoke_default` of `external_secret_access.rs`: each loads the
whole file, edits the grants in memory and saves the whole file. No lock is held in
between. On Linux a save writes a temporary file and renames it over the allowlist; on
the other platforms it truncates the allowlist and writes it in place.

Calls of any number of processes are interleaved step by step, and any of them may stop
before it returns, by a crash or by an I/O error.
-/

namespace SentinelPass.Daemon

open Lib List Option ExternalSecretGrant

/-! ## The edits -/

/-- Replace the first element that matches, or append. -/
def upsertFirst {α : Type} (p : α → Bool) (g : α) : List α → List α
  | [] => [g]
  | x :: rest => if p x then g :: rest else x :: upsertFirst p g rest

def ExternalSecretGrant.scope (g : ExternalSecretGrant) : Text × Text × ExternalSecretField :=
  (g.clientId, g.domain, g.field)

theorem ExternalSecretGrant.matchesScope_iff {g : ExternalSecretGrant} {clientId domain field} :
    g.matchesScope clientId domain field = true ↔ g.scope = (clientId, domain, field) := by
  simp [matchesScope, scope, and_assoc]

namespace ExternalSecretAllowlist

def upsertGrant (al : ExternalSecretAllowlist) (clientId domain : Text)
    (field : ExternalSecretField) (expiresAt : Option DateTime) (allowWrite : Bool) :
    Option (ExternalSecretGrant × ExternalSecretAllowlist) := do
  let clientId ← normalizeClientId clientId
  let domain ← normalizeDomain domain
  let grant : ExternalSecretGrant := { clientId, domain, field, expiresAt, allowWrite }
  some (grant, { al with
    grants := upsertFirst (fun existing => existing.matchesScope clientId domain field) grant
      al.grants })

def allowUntil (al : ExternalSecretAllowlist) (clientId domain : Text)
    (field : ExternalSecretField) (expiresAt : Option DateTime) :
    Option (ExternalSecretGrant × ExternalSecretAllowlist) :=
  al.upsertGrant clientId domain field expiresAt false

def revoke (al : ExternalSecretAllowlist) (clientId domain : Text) (field : ExternalSecretField) :
    Option (Option ExternalSecretGrant × ExternalSecretAllowlist) := do
  let clientId ← normalizeClientId clientId
  let domain ← normalizeDomain domain
  some (al.grants.find? fun grant => grant.matchesScope clientId domain field,
    { al with grants := al.grants.eraseP fun grant => grant.matchesScope clientId domain field })

def scopes (al : ExternalSecretAllowlist) : List (Text × Text × ExternalSecretField) :=
  al.grants.map scope

/-- No scope is granted twice: `upsert_grant` never does. -/
def DistinctScopes (al : ExternalSecretAllowlist) : Prop := al.scopes.Nodup

end ExternalSecretAllowlist

/-- The calls. -/
inductive AllowlistCall
  | allowUntil (clientId domain : Text) (field : ExternalSecretField) (expiresAt : Option DateTime)
  | revoke (clientId domain : Text) (field : ExternalSecretField)

/-- What a call does to the allowlist in memory; `none` is `InvalidInput`. -/
def AllowlistCall.edit (al : ExternalSecretAllowlist) :
    AllowlistCall → Option ExternalSecretAllowlist
  | allowUntil clientId domain field expiresAt =>
    (al.allowUntil clientId domain field expiresAt).map Prod.snd
  | revoke clientId domain field => (al.revoke clientId domain field).map Prod.snd

def AllowlistCall.scope? : AllowlistCall → Option (Text × Text × ExternalSecretField)
  | allowUntil clientId domain field _ | revoke clientId domain field => do
    let clientId ← normalizeClientId clientId
    let domain ← normalizeDomain domain
    some (clientId, domain, field)

def AllowlistCall.isAllow : AllowlistCall → Bool
  | allowUntil .. => true
  | revoke .. => false

/-! ## The file -/

inductive Platform
  | linux
  | other
deriving DecidableEq

/-- `serde_json`: what is written is read back, and no document is empty. -/
structure AllowlistCodec where
  toVecPretty : ExternalSecretAllowlist → Bytes
  fromSlice : Bytes → Option ExternalSecretAllowlist
  fromSlice_toVecPretty : ∀ al, fromSlice (toVecPretty al) = some al
  fromSlice_nil : fromSlice [] = none

def allowlistLimit : Nat := 1048576

def loadFromPath (C : AllowlistCodec) (platform : Platform) (file : Option Bytes) :
    Option ExternalSecretAllowlist :=
  match file with
  | none => some ⟨[], .empty⟩
  | some bytes =>
    if platform = .linux ∧ bytes.length > allowlistLimit then none else C.fromSlice bytes

/-- What `save_to_path` is about to write. -/
def saveContents (C : AllowlistCodec) (platform : Platform) (al : ExternalSecretAllowlist) :
    Option Bytes :=
  let contents := C.toVecPretty al
  if platform = .linux ∧ contents.length > allowlistLimit then none else some contents

def overwriteAt (file : Bytes) (offset : Nat) (chunk : Bytes) : Bytes :=
  file.take offset ++ replicate (offset - file.length) 0 ++ chunk
    ++ file.drop (offset + chunk.length)

/-! ## Interleaved calls -/

/-- Where a call is. `edited` and `writing` keep what the call loaded, to speak about it. -/
inductive AllowlistPhase
  | invoked
  | edited (loaded : ExternalSecretAllowlist) (contents : Bytes)
  | writing (loaded : ExternalSecretAllowlist) (contents : Bytes) (written : Nat)
  | saved
  | ended (outcome : Outcome)

def AllowlistPhase.outcome : AllowlistPhase → Outcome
  | ended outcome => outcome
  | _ => .running

def AllowlistPhase.isWriting : AllowlistPhase → Bool
  | writing .. => true
  | _ => false

structure RunningCall where
  call : AllowlistCall
  time : Nat
  phase : AllowlistPhase

def RunningCall.record (c : RunningCall) : CallRecord AllowlistCall :=
  ⟨c.call, c.time, c.phase.outcome⟩

/-- The file and the calls so far. -/
structure AllowlistState where
  file : Option Bytes
  calls : List RunningCall
  clock : Nat

def AllowlistState.history (s : AllowlistState) (i : Nat) : Option (CallRecord AllowlistCall) :=
  s.calls[i]?.map RunningCall.record

/-- One step of call `i`. -/
inductive AllowlistAction
  | invoke (call : AllowlistCall)
  | load (i : Nat)
  /-- The rename under Linux. -/
  | publish (i : Nat)
  /-- The open with `truncate` elsewhere. -/
  | truncate (i : Nat)
  /-- One `write` of `write_all`. -/
  | write (i n : Nat)
  | finish (i : Nat)
  /-- A crash, or an I/O error of the save. -/
  | interrupt (i : Nat)

def AllowlistCall.loaded (C : AllowlistCodec) (platform : Platform) (file : Option Bytes)
    (now : Nat) (call : AllowlistCall) : AllowlistPhase :=
  match loadFromPath C platform file with
  | none => .ended (.refused now)
  | some al =>
    match (call.edit al).bind (saveContents C platform) with
    | none => .ended (.refused now)
    | some contents => .edited al contents

/-- A write in place of at most `n` more bytes. -/
def writeOn (file contents : Bytes) (written n : Nat) : Bytes × Nat :=
  let chunk := (contents.drop written).take n
  (overwriteAt file written chunk, written + chunk.length)

def writtenPhase (loaded : ExternalSecretAllowlist) (contents : Bytes) (written : Nat) :
    AllowlistPhase :=
  if contents.length ≤ written then .saved else .writing loaded contents written

def AllowlistState.moveTo (s : AllowlistState) (i : Nat) (c : RunningCall) (phase : AllowlistPhase)
    (file : Option Bytes) : AllowlistState :=
  ⟨file, s.calls.set i { c with phase }, s.clock + 1⟩

def RunningCall.next (C : AllowlistCodec) (platform : Platform) (file : Option Bytes) (now : Nat)
    (c : RunningCall) : AllowlistAction → Option (AllowlistPhase × Option Bytes)
  | .invoke _ => none
  | .load _ =>
    match c.phase with
    | .invoked => some (c.call.loaded C platform file now, file)
    | _ => none
  | .publish _ =>
    match platform, c.phase with
    | .linux, .edited _ contents => some (.saved, some contents)
    | _, _ => none
  | .truncate _ =>
    match platform, c.phase with
    | .other, .edited loaded contents => some (.writing loaded contents 0, some [])
    | _, _ => none
  | .write _ n =>
    match c.phase with
    | .writing loaded contents written =>
      let (file, written) := writeOn (file.getD []) contents written n
      some (writtenPhase loaded contents written, some file)
    | _ => none
  | .finish _ =>
    match c.phase with
    | .saved => some (.ended (.returned now), file)
    | _ => none
  | .interrupt _ =>
    match c.phase with
    | .ended _ => none
    | _ => some (.ended (.interrupted now), file)

def AllowlistAction.call? : AllowlistAction → Option Nat
  | invoke _ => none
  | load i | publish i | truncate i | write i _ | finish i | interrupt i => some i

def AllowlistState.step (C : AllowlistCodec) (platform : Platform) (s : AllowlistState)
    (a : AllowlistAction) : Option AllowlistState :=
  match a with
  | .invoke call => some ⟨s.file, s.calls ++ [⟨call, s.clock, .invoked⟩], s.clock + 1⟩
  | a => do
    let i ← a.call?
    let c ← s.calls[i]?
    let (phase, file) ← c.next C platform s.file s.clock a
    some (s.moveTo i c phase file)

open AllowlistState

/-- Calls on an allowlist that loads to `start`. -/
def allowlistMachine (C : AllowlistCodec) (platform : Platform) (start : ExternalSecretAllowlist) :
    Machine AllowlistState AllowlistAction where
  init s := loadFromPath C platform s.file = some start ∧ s.calls = []
  step := step C platform

def AllowlistState.Writing (s : AllowlistState) : Prop := ∃ c ∈ s.calls, c.phase.isWriting = true

/-- The file still loads to what the call has loaded. -/
def AllowlistState.Unchanged (C : AllowlistCodec) (platform : Platform) (s : AllowlistState)
    (i : Nat) : Prop :=
  ∀ c loaded contents, s.calls[i]? = some c → c.phase = .edited loaded contents →
    loadFromPath C platform s.file = some loaded

/-- No save overwrites a change it has not seen, and a write in place is neither cut nor
read half-way. -/
def Unclobbered (C : AllowlistCodec) (platform : Platform) (s : AllowlistState) :
    AllowlistAction → Prop
  | .load _ => ¬ s.Writing
  | .publish i => s.Unchanged C platform i
  | .truncate i => ¬ s.Writing ∧ s.Unchanged C platform i
  | .interrupt i => ∀ c, s.calls[i]? = some c → c.phase.isWriting = false
  | .invoke _ | .write _ _ | .finish _ => True

def AllowlistCall.alone (C : AllowlistCodec) (platform : Platform) (al : ExternalSecretAllowlist)
    (call : AllowlistCall) : Option ExternalSecretAllowlist := do
  let al ← call.edit al
  let _ ← saveContents C platform al
  some al

/-! ## Revoked scopes -/

section Scopes

variable {C : AllowlistCodec} {platform : Platform} {al next : ExternalSecretAllowlist}
  {call : AllowlistCall} {sc : Text × Text × ExternalSecretField} {clientId domain : Text}

theorem map_scope_upsertFirst {p g} (hp : ∀ x, p x = true ↔ x.scope = g.scope) (l) :
    (upsertFirst p g l).map scope
      = if g.scope ∈ l.map scope then l.map scope
        else l.map scope ++ [g.scope] := by
  induction l with
  | nil => rfl
  | cons x rest ih =>
    unfold upsertFirst
    by_cases hx : x.scope = g.scope
    · rw [if_pos ((hp x).mpr hx), map_cons, map_cons, hx, if_pos mem_cons_self]
    · rw [if_neg (fun h => hx ((hp x).mp h)), map_cons, ih, map_cons]
      by_cases hmem : g.scope ∈ rest.map scope
      · rw [if_pos hmem, if_pos (mem_cons_of_mem _ hmem)]
      · rw [if_neg hmem, if_neg, cons_append]
        intro hcons
        rcases mem_cons.mp hcons with heq | hmem'
        · exact hx heq.symm
        · exact hmem hmem'

theorem map_scope_eraseP {p} (hp : ∀ x, p x = true ↔ x.scope = sc) (l : List ExternalSecretGrant) :
    (l.eraseP p).map scope = (l.map scope).erase sc := by
  induction l with
  | nil => rfl
  | cons x rest ih =>
    by_cases hx : x.scope = sc
    · rw [eraseP_cons_of_pos ((hp x).mpr hx), map_cons, hx, erase_cons_head]
    · rw [eraseP_cons_of_neg (fun h => hx ((hp x).mp h)), map_cons, map_cons, ih,
        erase_cons_tail (by simpa using hx)]

open AllowlistCall

/-- What a call does to the scopes that are granted. -/
theorem AllowlistCall.scopes_of_alone (h : call.alone C platform al = some next) :
    ∃ sc, call.scope? = some sc ∧
      next.scopes = if call.isAllow then (if sc ∈ al.scopes then al.scopes else al.scopes ++ [sc])
        else al.scopes.erase sc := by
  obtain ⟨edited, hedit, h⟩ := bind_eq_some_iff.mp h
  obtain ⟨_, -, h⟩ := bind_eq_some_iff.mp h
  cases h
  cases call with
  | allowUntil clientId domain field expiresAt =>
    obtain ⟨⟨grant, al'⟩, hallow, rfl⟩ := map_eq_some_iff.mp hedit
    obtain ⟨id, hid, hallow⟩ := bind_eq_some_iff.mp hallow
    obtain ⟨d, hd, hallow⟩ := bind_eq_some_iff.mp hallow
    cases hallow
    refine ⟨(id, d, field), ?_, ?_⟩
    · simp only [scope?, hid, hd, bind_eq_bind, bind_some]
    · exact map_scope_upsertFirst (g := ⟨id, d, field, expiresAt, false⟩)
        (fun x => matchesScope_iff) al.grants
  | revoke clientId domain field =>
    obtain ⟨⟨grant, al'⟩, hrevoke, rfl⟩ := map_eq_some_iff.mp hedit
    obtain ⟨id, hid, hrevoke⟩ := bind_eq_some_iff.mp hrevoke
    obtain ⟨d, hd, hrevoke⟩ := bind_eq_some_iff.mp hrevoke
    cases hrevoke
    refine ⟨(id, d, field), ?_, ?_⟩
    · simp only [scope?, hid, hd, bind_eq_bind, bind_some]
    · exact map_scope_eraseP (fun x => matchesScope_iff) al.grants

theorem ExternalSecretAllowlist.DistinctScopes.alone (hdistinct : al.DistinctScopes)
    (h : call.alone C platform al = some next) : next.DistinctScopes := by
  obtain ⟨sc, -, hscopes⟩ := scopes_of_alone h
  show next.scopes.Nodup
  rw [hscopes]
  split
  · split
    · exact hdistinct
    · next hnew => exact nodup_append_singleton hdistinct hnew
  · exact List.Nodup.erase sc hdistinct

theorem AllowlistCall.not_mem_alone (hnot : sc ∉ al.scopes)
    (hcall : call.isAllow = true → call.scope? ≠ some sc)
    (h : call.alone C platform al = some next) : sc ∉ next.scopes := by
  obtain ⟨sc', hsc', hscopes⟩ := scopes_of_alone h
  rw [hscopes]
  split
  · next hallow =>
    split
    · exact hnot
    intro hmem
    rcases mem_append.mp hmem with hmem | hmem
    · exact hnot hmem
    · rw [mem_singleton.mp hmem] at hcall
      exact hcall hallow hsc'
  · intro hmem
    exact hnot (mem_of_mem_erase hmem)

theorem not_mem_foldlM_alone {calls : List AllowlistCall} (hnot : sc ∉ al.scopes)
    (hcalls : ∀ call ∈ calls, call.isAllow = true → call.scope? ≠ some sc)
    (h : calls.foldlM (fun al call => alone C platform al call) al = some next) :
    sc ∉ next.scopes := by
  induction calls generalizing al with
  | nil =>
    cases h
    exact hnot
  | cons call rest ih =>
    obtain ⟨mid, hone, hrest⟩ := bind_eq_some_iff.mp h
    exact ih (not_mem_alone hnot (hcalls call mem_cons_self) hone)
      (fun c hc => hcalls c (mem_cons_of_mem call hc)) hrest

theorem distinctScopes_foldlM_alone {calls : List AllowlistCall} (hdistinct : al.DistinctScopes)
    (h : calls.foldlM (fun al call => alone C platform al call) al = some next) :
    next.DistinctScopes := by
  induction calls generalizing al with
  | nil =>
    cases h
    exact hdistinct
  | cons call rest ih =>
    obtain ⟨mid, hone, hrest⟩ := bind_eq_some_iff.mp h
    exact ih (hdistinct.alone hone) hrest

/-- A revoked scope stays so until a call allows it. -/
theorem not_mem_after_revoke {before after : List AllowlistCall} {start : ExternalSecretAllowlist}
    {field : ExternalSecretField} (hdistinct : start.DistinctScopes)
    (hsc : (revoke clientId domain field).scope? = some sc)
    (hafter : ∀ call ∈ after, call.isAllow = true → call.scope? ≠ some sc)
    (h : (before ++ .revoke clientId domain field :: after).foldlM
      (alone C platform) start = some next) : sc ∉ next.scopes := by
  rw [foldlM_append] at h
  obtain ⟨mid, hbefore, h⟩ := bind_eq_some_iff.mp h
  obtain ⟨revoked, hrevoke, hrest⟩ := bind_eq_some_iff.mp h
  refine not_mem_foldlM_alone ?_ hafter hrest
  have hmid : mid.scopes.Nodup := distinctScopes_foldlM_alone hdistinct hbefore
  obtain ⟨sc', hsc', hscopes⟩ := scopes_of_alone hrevoke
  rw [hsc] at hsc'
  cases hsc'
  rw [hscopes]
  exact List.Nodup.not_mem_erase hmid

theorem isAllowedAt_of_not_mem {field}
    (hnot : ∀ sc, (revoke clientId domain field).scope? = some sc → sc ∉ al.scopes)
    (now) : al.isAllowedAt clientId domain field now = false := by
  unfold ExternalSecretAllowlist.isAllowedAt
  cases hid : normalizeClientId clientId with
  | none => rfl
  | some id =>
    cases hd : normalizeDomain domain with
    | none => rfl
    | some d =>
      have hsc := hnot (id, d, field)
        (by simp only [scope?, hid, hd, bind_eq_bind, bind_some])
      refine any_eq_false.mpr fun g hg hboth => hsc ?_
      obtain ⟨hmatch, -⟩ := Bool.and_eq_true_iff.mp hboth
      exact mem_map.mpr ⟨g, hg, matchesScope_iff.mp hmatch⟩

end Scopes

/-! ## What one step does -/

section Steps

variable {C : AllowlistCodec} {platform : Platform} {start al : ExternalSecretAllowlist}
  {s t : AllowlistState} {a : AllowlistAction} {i : Nat} {c : RunningCall}
  {order : List (Nat × AllowlistCall)}

/-- The moves of a call. -/
inductive Moves (C : AllowlistCodec) (platform : Platform) (file : Option Bytes) (now i : Nat)
    (c : RunningCall) : AllowlistAction → AllowlistPhase → Option Bytes → Prop
  | load : c.phase = .invoked →
      Moves C platform file now i c (.load i) (c.call.loaded C platform file now) file
  | publish {loaded contents} : platform = .linux → c.phase = .edited loaded contents →
      Moves C platform file now i c (.publish i) .saved (some contents)
  | truncate {loaded contents} : platform = .other → c.phase = .edited loaded contents →
      Moves C platform file now i c (.truncate i) (.writing loaded contents 0) (some [])
  | write {loaded contents written n} : c.phase = .writing loaded contents written →
      Moves C platform file now i c (.write i n)
        (writtenPhase loaded contents (writeOn (file.getD []) contents written n).2)
        (some (writeOn (file.getD []) contents written n).1)
  | finish :
      c.phase = .saved → Moves C platform file now i c (.finish i) (.ended (.returned now)) file
  | interrupt : (∀ outcome, c.phase ≠ .ended outcome) →
      Moves C platform file now i c (.interrupt i) (.ended (.interrupted now)) file

theorem RunningCall.moves_of_next {file file' now phase} (hcall : a.call? = some i)
    (h : c.next C platform file now a = some (phase, file')) :
    Moves C platform file now i c a phase file' := by
  unfold RunningCall.next at h
  cases a with
  | invoke call => cases h
  | load j =>
    cases hcall
    dsimp only at h
    split at h
    · next hphase =>
      cases h
      exact .load hphase
    · cases h
  | publish j =>
    cases hcall
    dsimp only at h
    split at h
    · next hphase =>
      cases h
      exact .publish rfl hphase
    · cases h
  | truncate j =>
    cases hcall
    dsimp only at h
    split at h
    · next hphase =>
      cases h
      exact .truncate rfl hphase
    · cases h
  | write j n =>
    cases hcall
    dsimp only at h
    split at h
    · next hphase =>
      cases h
      exact .write hphase
    · cases h
  | finish j =>
    cases hcall
    dsimp only at h
    split at h
    · next hphase =>
      cases h
      exact .finish hphase
    · cases h
  | interrupt j =>
    cases hcall
    dsimp only at h
    split at h
    · cases h
    rename_i hphase
    cases h
    exact .interrupt hphase

/-- A step is a new call, or a move of one that is running. -/
theorem AllowlistState.step_cases (h : s.step C platform a = some t) : (∃ call, a = .invoke call ∧
      t = ⟨s.file, s.calls ++ [⟨call, s.clock, .invoked⟩], s.clock + 1⟩) ∨
    ∃ i c phase file, s.calls[i]? = some c ∧ Moves C platform s.file s.clock i c a phase file ∧
      t = s.moveTo i c phase file := by
  unfold step at h
  split at h
  · cases h
    exact .inl ⟨_, rfl, rfl⟩
  obtain ⟨i, hcall, h⟩ := bind_eq_some_iff.mp h
  obtain ⟨c, hc, h⟩ := bind_eq_some_iff.mp h
  obtain ⟨⟨phase, file⟩, hnext, h⟩ := bind_eq_some_iff.mp h
  cases h
  exact .inr ⟨i, c, phase, file, hc, c.moves_of_next hcall hnext, rfl⟩

theorem AllowlistState.getElem?_moveTo (hc : s.calls[i]? = some c) (phase file j) :
    (s.moveTo i c phase file).calls[j]? = if j = i then some { c with phase } else s.calls[j]? :=
  getElem?_set_of_some hc _ j

theorem AllowlistState.history_moveTo (hc : s.calls[i]? = some c) (phase file) :
    (s.moveTo i c phase file).history i = some { c.record with outcome := phase.outcome } ∧
      ∀ j, j ≠ i → (s.moveTo i c phase file).history j = s.history j := by
  unfold history
  refine ⟨by rw [getElem?_moveTo hc, if_pos rfl]; rfl, fun j hj => ?_⟩
  rw [getElem?_moveTo hc, if_neg hj]

theorem AllowlistState.history_eq (hc : s.calls[i]? = some c) : s.history i = some c.record := by
  unfold history
  rw [hc]
  rfl

theorem AllowlistState.mem_of_history {r} (h : s.history i = some r) :
    ∃ c ∈ s.calls, c.record = r := by
  obtain ⟨c, hc, hr⟩ := map_eq_some_iff.mp h
  exact ⟨c, mem_of_getElem? hc, hr⟩

end Steps

end SentinelPass.Daemon
