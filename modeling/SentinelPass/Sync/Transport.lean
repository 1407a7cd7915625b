import SentinelPass.Relay.Pages
import SentinelPass.Sync.Pull
import SentinelPass.Sync.Wire

/-!
# The client's requests

`SyncClient::push_v2` and `pull_v2` (`sync/client.rs`) against the relay's
handlers. A request is decoded into the relay's structs and its answer into the
client's (`toRelay`, `ofLog`); the two sides use `i64` and `u64` for the same
counters, so a number one side cannot hold is a decode error.
-/

namespace SentinelPass

open Lib Relay List

/-- What `signed_post` makes of a refused request. -/
def relayRefusal : PmError := .invalidInput "Relay error"

/-- An `i64` on the wire, read as a `u64`. -/
def wireU64 (v : Int64) : Except PmError UInt64 :=
  if v.toInt < 0 then .error (.invalidInput "Invalid v2 pull response: ") else .ok v.toUInt64

/-- A `u64` on the wire, read as an `i64`. -/
def wireI64 (v : UInt64) : Except PmError Int64 :=
  if v.toNat < 2 ^ 63 then .ok v.toInt64 else .error relayRefusal

def decodeEntry (e : Relay.MutationLogEntry) : Except PmError MutationLogEntry := do
  let serverSequence ← wireU64 e.serverSequence
  match MutationV2.ofLog e.mutation with
  | none => .error (.invalidInput "Invalid v2 pull response: ")
  | some mutation => .ok ⟨serverSequence, mutation⟩

/-- `pull_v2` of the client. -/
def sendPull (s : RelayState) (device : Uuid) (cursor : UInt64) (limit : Option UInt32) :
    Except PmError PullResponseV2 := do
  let since ← wireI64 cursor
  match pullV2 s device ⟨since, limit⟩ with
  | .error _ => .error relayRefusal
  | .ok resp => do
    let entries ← resp.entries.mapM decodeEntry
    let cursor ← wireU64 resp.cursor
    .ok ⟨entries, cursor, resp.hasMore⟩

/-- `push_v2` of the client: the request the relay sees. -/
def pushRequest (deviceSequence : UInt64) (mutations : List MutationV2) : PushRequestV2 :=
  ⟨deviceSequence, mutations.map MutationV2.toRelay⟩

theorem wireU64_ok {v w} (h : wireU64 v = .ok w) :
    0 ≤ v.toInt ∧ w = v.toUInt64 ∧ (w.toNat : Int) = v.toInt := by
  unfold wireU64 at h
  rw [ite_error_eq_ok, Except.ok.injEq, not_lt] at h
  obtain ⟨hnonneg, rfl⟩ := h
  exact ⟨hnonneg, rfl, toNat_toUInt64_of_nonneg hnonneg⟩

theorem wireI64_ok {v w} (h : wireI64 v = .ok w) : w.toInt = v.toNat := by
  unfold wireI64 at h
  split at h
  · next hlt =>
    cases h
    exact toInt_toInt64_of_lt hlt
  · cases h

/-- An entry of a page stands for a row of the log. -/
structure EntryOf (vault : Uuid) (x : Int64 × SyncMutationV2) (e : MutationLogEntry) : Prop where
  sequence : e.serverSequence.toInt64 = x.1
  mutation : MutationV2.ofLog (logMutation vault x.2) = some e.mutation

theorem decodeEntry_ok {vault x e} (h : decodeEntry ⟨x.1, logMutation vault x.2⟩ = .ok e) :
    EntryOf vault x e := by
  obtain ⟨seq, hseq, h⟩ := bind_ok h
  obtain ⟨-, rfl, -⟩ := wireU64_ok hseq
  split at h
  · cases h
  rename_i mutation hm
  cases h
  exact ⟨by simp, hm⟩

/-- The log between a client's cursor and the cursor of the page it was answered. -/
structure PageOf (s : RelayState) (vault : Uuid) (cursor : UInt64) (response : PullResponseV2) :
    Prop where
  /-- Nothing between the two cursors is missing. -/
  complete : ∀ x ∈ s.log vault, (cursor.toNat : Int) < x.1.toInt →
    x.1.toInt ≤ response.cursor.toNat → ∃ e ∈ response.entries, EntryOf vault x e
  /-- Nothing else is there. -/
  sound : ∀ e ∈ response.entries, ∃ x ∈ s.log vault, (cursor.toNat : Int) < x.1.toInt ∧
    EntryOf vault x e
  /-- The new cursor is a sequence number of the log. -/
  last : response.entries ≠ [] → ∃ x ∈ s.log vault, x.1.toInt = response.cursor.toNat

/-- A page of an honest relay holds exactly the log between the client's cursor and the one it
answers with. -/
theorem sendPull_spec {s : RelayState} (hinv : LogInv s) {device : Uuid} {cursor : UInt64}
    {limit : Option UInt32} {response : PullResponseV2}
    (h : sendPull s device cursor limit = .ok response) :
    ∃ vault, s.deviceVault device = some vault ∧ PageOf s vault cursor response := by
  obtain ⟨since, hsince, h⟩ := bind_ok h
  have hcursor := wireI64_ok hsince
  split at h
  · cases h
  rename_i resp hresp
  obtain ⟨vault, hvault, hentries, hlast, -⟩ := pullV2_page hinv hresp
  obtain ⟨entries, hdecode, h⟩ := bind_ok h
  obtain ⟨newCursor, hnew, h⟩ := bind_ok h
  cases h
  obtain ⟨-, -, hnewInt⟩ := wireU64_ok hnew
  rw [hentries] at hdecode
  -- an entry is decoded exactly for a row of the page
  have hmem : ∀ {e : MutationLogEntry}, e ∈ entries ↔
      ∃ x ∈ pageRows s vault since limit, decodeEntry ⟨x.1, logMutation vault x.2⟩ = .ok e := by
    intro e
    rw [mem_of_mapM_ok hdecode]
    simp
  have hall : ∀ x ∈ pageRows s vault since limit, ∃ e ∈ entries, EntryOf vault x e := by
    intro x hx
    obtain ⟨e, he⟩ := mapM_isOk.mp ⟨entries, hdecode⟩ _ (mem_map_of_mem hx)
    exact ⟨e, hmem.mpr ⟨x, hx, he⟩, decodeEntry_ok he⟩
  refine ⟨vault, hvault, ?_, ?_, ?_⟩
  · intro x hx habove hle
    cases hl : (pageRows s vault since limit).getLast? with
    | none =>
      -- an empty page does not move the cursor
      rw [hl] at hlast
      change resp.cursor = since at hlast
      rw [hnewInt, hlast, hcursor] at hle
      omega
    | some last =>
      rw [hl] at hlast
      rw [hnewInt, hlast] at hle
      refine hall x (mem_page_of_le ?_ hl hx (by rwa [hcursor]) hle)
      exact (hinv.increasing vault).imp Int64.lt_iff_toInt_lt.mp
  · intro e he
    obtain ⟨x, hx, hdec⟩ := hmem.mp he
    obtain ⟨hlog, habove⟩ := mem_page hx
    exact ⟨x, hlog, by rwa [← hcursor], decodeEntry_ok hdec⟩
  · intro hne
    obtain ⟨e, he⟩ := exists_mem_of_ne_nil _ hne
    obtain ⟨x, hx, -⟩ := hmem.mp he
    cases hl : (pageRows s vault since limit).getLast? with
    | none => exact absurd (getLast?_eq_none_iff.mp hl ▸ hx) not_mem_nil
    | some last =>
      rw [hl] at hlast
      change resp.cursor = last.1 at hlast
      refine ⟨last, (mem_page (mem_of_getLast? hl)).1, ?_⟩
      rw [hnewInt, hlast]

end SentinelPass
