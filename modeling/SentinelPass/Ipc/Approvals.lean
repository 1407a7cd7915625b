import SentinelPass.Ipc.StepUp
import SentinelPass.Lib.Utf8

/-!
# Approvals are single-use and bound

Over every interleaving of the steps in `StepUp`: each gated operation that was let
through has an approval of its own, minted for its connection and its operation
after a successful password check, less than sixty seconds before.

A step can only wear approvals down (`Worn`): burn them, or drop them. So an
approval in the store is always backed by its mint (`Backed`), a used one is burnt
for good, and identities are never drawn twice (`FreshRandom`).
-/

namespace SentinelPass.Ipc

open Lib StepUpState StepUpAction Table
open Option (map_eq_some_iff some)
open List (Subset mem_append mem_append_left mem_append_right prefix_refl mem_singleton nodup_nil)

variable {Op : Type}

/-! ## Steps on the shared state -/

/-- The key stays, and approvals are at most burnt or dropped. -/
structure Worn (s s' : StepUpState) : Prop where
  key : ∀ k, s.hmacKey = some k → s'.hmacKey = some k
  pending : ∀ id p', s'.pending.get? id = some p' → ∃ p, s.pending.get? id = some p ∧
    p' = { p with consumed := p'.consumed } ∧ (p.consumed = true → p'.consumed = true)

section State

variable {s : StepUpState}

theorem Worn.refl (s) : Worn s s where
  key _ h := h
  pending _ p h := ⟨p, h, rfl, fun h => h⟩

variable {s' : StepUpState}

theorem Worn.of_pending (hkey : ∀ k, s.hmacKey = some k → s'.hmacKey = some k)
    (hpending : s'.pending = s.pending) : Worn s s' where
  key := hkey
  pending id p h := by
    rw [hpending] at h
    exact ⟨p, h, rfl, fun h => h⟩

theorem Worn.burn (h : Worn s s') (id : Text) : Worn s (s'.burn id) where
  key := h.key
  pending id' p' hp' := by
    unfold StepUpState.burn at hp'
    rw [get?_update] at hp'
    split at hp'
    · next heq =>
      obtain ⟨p, hp, rfl⟩ := map_eq_some_iff.mp hp'
      obtain ⟨q, hq, hpq, -⟩ := h.pending id p hp
      refine ⟨q, by rw [heq]; exact hq, ?_, fun _ => rfl⟩
      rw [hpq]
    · exact h.pending id' p' hp'

theorem Worn.discard (s id) : Worn s (s.discard id) where
  key _ h := h
  pending id' p' hp' := by
    unfold StepUpState.discard at hp'
    rw [get?_erase] at hp'
    split at hp'
    · cases hp'
    exact ⟨p', hp', rfl, fun h => h⟩

theorem key_keep (s random) : Worn s { s with hmacKey := some (s.key random) } := by
  refine .of_pending ?_ rfl
  intro k hk
  simp [key, hk]

variable {c : Crypto} {id : Text} {connection : ConnectionId} {opBytes : Bytes}
  {random : Vector UInt8 32} {now : Instant}

theorem takeIfValid_worn : Worn s (s.takeIfValid c id connection opBytes random now).2 := by
  have hkey := key_keep s random
  unfold takeIfValid
  dsimp only
  split
  · exact hkey
  split
  · exact hkey
  split
  · exact hkey
  split
  · exact hkey.burn id
  · split
    · exact hkey.burn id
    · exact hkey.burn id

/-- An approval that is taken was there, for this connection and operation, and is
burnt. -/
theorem takeIfValid_ok (h : s.takeIfValid c id connection opBytes random now = (.ok (), s')) :
    (∃ p, s.pending.get? id = some p ∧ p.consumed = false ∧ p.connection = connection ∧
      now < p.expires ∧ commitment c (s.key random) opBytes = p.commitment) ∧
    ∀ p', s'.pending.get? id = some p' → p'.consumed = true := by
  unfold takeIfValid at h
  dsimp only at h
  split at h
  · cases h
  rename_i p hp
  split at h
  · cases h
  rename_i hfresh
  split at h
  · cases h
  rename_i hconn
  split at h
  · cases h
  rename_i hlive
  split at h
  · cases h
  rename_i hcommit
  cases h
  refine ⟨⟨p, hp, by simpa using hfresh, not_not.mp hconn, Nat.not_le.mp hlive,
    not_not.mp hcommit⟩, ?_⟩
  intro p' hp'
  unfold burn at hp'
  rw [get?_update, if_pos rfl] at hp'
  obtain ⟨q, -, rfl⟩ := map_eq_some_iff.mp hp'
  rfl

end State

section Gate

variable {E : StepUpEnv Op} {s : StepUpState} {connection : ConnectionId} {op : Op}
  {approval : Option Text} {random : Vector UInt8 32} {now : Instant}

theorem gate_worn : Worn s (gate E s connection op approval random now).2 := by
  unfold gate
  split
  · split
    · exact .refl s
    · exact .refl s
    · next opBytes id _ =>
      have hworn : Worn s (s.takeIfValid E.crypto id connection opBytes random now).2 :=
        takeIfValid_worn
      split
      · next heq => rwa [heq] at hworn
      · next heq => rwa [heq] at hworn
  · exact .refl s

/-- What a gated operation needs to pass. -/
theorem gate_ok {s' : StepUpState} (h : gate E s connection op approval random now = (.ok (), s'))
    (hgated : E.gated op = true) :
    ∃ id opBytes, approval = some id ∧ E.toVec op = some opBytes ∧
      s.takeIfValid E.crypto id connection opBytes random now = (.ok (), s') := by
  unfold gate at h
  rw [if_pos hgated] at h
  split at h
  · cases h
  · cases h
  rename_i opBytes id hbytes
  split at h
  · cases h
  rename_i heq
  cases h
  exact ⟨id, opBytes, rfl, hbytes, heq⟩

end Gate

theorem beginAuthorize_ok {E s mode} {op : Op} {now opBytes}
    (h : beginAuthorize E s mode op now = .ok opBytes) : E.toVec op = some opBytes := by
  unfold beginAuthorize at h
  split at h
  · cases h
  · cases mode with
    | maintenance | locked => cases h
    | unlocked =>
      dsimp only at h
      split at h
      · cases h
      rename_i hbytes
      cases h
      exact hbytes

/-! ## The invariant -/

/-- Identities of connections and approvals are not drawn twice. -/
def FreshRandom (s : StepUpServer Op) : StepUpAction Op → Prop
  | .connect id => id ∉ s.connections
  | .mint _ id _ _ _ => id ∉ s.minted.map Prod.fst
  | _ => True

/-- The clock does not go back and random identities are fresh. -/
def Orderly (s : StepUpServer Op) (a : StepUpAction Op) : Prop := ClockForward s a ∧ FreshRandom s a

instance (s : StepUpServer Op) (a : StepUpAction Op) : Decidable (FreshRandom s a) :=
  match a with
  | .connect id => inferInstanceAs (Decidable (id ∉ s.connections))
  | .mint _ id _ _ _ => inferInstanceAs (Decidable (id ∉ s.minted.map Prod.fst))
  | .authorize .. | .verified .. | .refused .. | .aborted .. | .call .. | .discard .. =>
      .isTrue trivial

instance (s : StepUpServer Op) (a : StepUpAction Op) : Decidable (Orderly s a) :=
  inferInstanceAs (Decidable (ClockForward s a ∧ FreshRandom s a))

/-- Approval `p` is what the mint `m` stored. -/
structure Backed (E : StepUpEnv Op) (s : StepUpServer Op) (id : Text) (p : PendingApproval)
    (m : StepUpEvent Op) : Prop where
  minted : (id, m) ∈ s.minted
  connection : s.connections[m.connection]? = some p.connection
  expires : p.expires = m.time + stepUpTtl
  commitment : ∃ key opBytes, s.state.hmacKey = some key ∧ E.toVec m.op = some opBytes ∧
    p.commitment = commitment E.crypto key opBytes

/-- The use `u` took the approval of the mint `m`, in its time. -/
structure Used (E : StepUpEnv Op) (s : StepUpServer Op) (u : Text × StepUpEvent Op)
    (m : StepUpEvent Op) : Prop where
  minted : (u.1, m) ∈ s.minted
  connection : m.connection = u.2.connection
  since : m.time ≤ u.2.time
  before : u.2.time < m.time + stepUpTtl
  commitment : ∃ key mBytes uBytes, s.state.hmacKey = some key ∧ E.toVec m.op = some mBytes ∧
    E.toVec u.2.op = some uBytes ∧
    commitment E.crypto key mBytes = commitment E.crypto key uBytes

/-- A successful password check for this operation on this connection, by `time`. -/
def Proved (s : StepUpServer Op) (connection : Nat) (op : Op) (time : Instant) : Prop :=
  ∃ e ∈ s.proofs, e.connection = connection ∧ e.op = op ∧ e.time ≤ time

structure ApprovalInv (E : StepUpEnv Op) (s : StepUpServer Op) : Prop where
  connections : s.connections.Nodup
  mintedIds : (s.minted.map Prod.fst).Nodup
  mintedTimes : ∀ m ∈ s.minted, m.2.time ≤ s.clock
  proved : ∀ m ∈ s.minted, Proved s m.2.connection m.2.op m.2.time
  waiting : ∀ a ∈ s.verified, Proved s a.connection a.op s.clock
  bytes : ∀ a ∈ s.verifying ++ s.verified, E.toVec a.op = some a.opBytes
  backed : ∀ id p, s.state.pending.get? id = some p → ∃ m, Backed E s id p m
  used : ∀ u ∈ s.passed, ∃ m, Used E s u m
  spent : ∀ u ∈ s.passed, ∀ p, s.state.pending.get? u.1 = some p → p.consumed = true
  once : (s.passed.map Prod.fst).Nodup

section Invariant

variable {E : StepUpEnv Op} {s t : StepUpServer Op}

theorem Proved.mono {connection op time time'} (h : Proved s connection op time)
    (hproofs : s.proofs ⊆ t.proofs) (hle : time ≤ time') : Proved t connection op time' := by
  obtain ⟨e, he, hconn, hop, htime⟩ := h
  exact ⟨e, hproofs he, hconn, hop, Nat.le_trans htime hle⟩

variable {id : Text} {m : StepUpEvent Op} {now : Instant} {random : Vector UInt8 32}

theorem Backed.mono {p p' : PendingApproval} (h : Backed E s id p m)
    (hminted : s.minted ⊆ t.minted) (hconn : s.connections <+: t.connections)
    (hkey : ∀ k, s.state.hmacKey = some k → t.state.hmacKey = some k)
    (hp : p' = { p with consumed := p'.consumed }) : Backed E t id p' m where
  minted := hminted h.minted
  connection := by
    obtain ⟨more, hmore⟩ := hconn
    have hlt := (List.getElem?_eq_some_iff.mp h.connection).1
    rw [← hmore, List.getElem?_append_left hlt, h.connection, hp]
  expires := by
    rw [hp]
    exact h.expires
  commitment := by
    obtain ⟨key, opBytes, hk, hbytes, hcommit⟩ := h.commitment
    refine ⟨key, opBytes, hkey key hk, hbytes, ?_⟩
    rw [hp]
    exact hcommit

theorem Used.mono {u} (h : Used E s u m) (hminted : s.minted ⊆ t.minted)
    (hkey : ∀ k, s.state.hmacKey = some k → t.state.hmacKey = some k) : Used E t u m :=
  { h with
    minted := hminted h.minted
    commitment := by
      obtain ⟨key, mBytes, uBytes, hk, hm, hu, hcommit⟩ := h.commitment
      exact ⟨key, mBytes, uBytes, hkey key hk, hm, hu, hcommit⟩ }

section

variable (h : ApprovalInv E s)

include h

theorem ApprovalInv.later (hworn : Worn s.state t.state) (hminted : t.minted = s.minted)
    (hpassed : t.passed = s.passed) (hclock : s.clock ≤ t.clock) (hproofs : s.proofs ⊆ t.proofs)
    (hconn : s.connections <+: t.connections) (hnodup : t.connections.Nodup)
    (hverified : ∀ a ∈ t.verified, a ∈ s.verified ∨ Proved t a.connection a.op t.clock)
    (hbytes : ∀ a ∈ t.verifying ++ t.verified, E.toVec a.op = some a.opBytes) :
    ApprovalInv E t where
  connections := hnodup
  mintedIds := by
    rw [hminted]
    exact h.mintedIds
  mintedTimes m hm := by
    rw [hminted] at hm
    exact Nat.le_trans (h.mintedTimes m hm) hclock
  proved m hm := by
    rw [hminted] at hm
    exact (h.proved m hm).mono hproofs (Nat.le_refl _)
  waiting a ha := by
    rcases hverified a ha with ha | ha
    · exact (h.waiting a ha).mono hproofs hclock
    · exact ha
  bytes := hbytes
  backed id p' hp' := by
    obtain ⟨p, hp, hsame, -⟩ := hworn.pending id p' hp'
    obtain ⟨m, hm⟩ := h.backed id p hp
    exact ⟨m, hm.mono (by rw [hminted]; exact Subset.refl _) hconn hworn.key hsame⟩
  used u hu := by
    rw [hpassed] at hu
    obtain ⟨m, hm⟩ := h.used u hu
    exact ⟨m, hm.mono (by rw [hminted]; exact Subset.refl _) hworn.key⟩
  spent u hu p' hp' := by
    rw [hpassed] at hu
    obtain ⟨p, hp, -, hconsumed⟩ := hworn.pending u.1 p' hp'
    exact hconsumed (h.spent u hu p hp)
  once := by
    rw [hpassed]
    exact h.once

theorem ApprovalInv.bytes_eraseIdx (i : Nat) :
    ∀ a ∈ s.verifying.eraseIdx i ++ s.verified, E.toVec a.op = some a.opBytes := by
  intro a ha
  refine h.bytes a ?_
  rcases mem_append.mp ha with ha | ha
  · exact mem_append_left _ (List.mem_of_mem_eraseIdx ha)
  · exact mem_append_right _ ha

theorem ApprovalInv.verified {i a} (ha : s.verifying[i]? = some a) (hclock : s.clock ≤ now) :
    ApprovalInv E { s with
      clock := now, state := s.state.recordSuccess, verifying := s.verifying.eraseIdx i
      verified := s.verified ++ [a], proofs := s.proofs ++ [⟨a.connection, a.op, now⟩] } := by
  refine h.later (.of_pending (fun _ hk => hk) rfl) rfl rfl hclock (List.subset_append_left _ _)
    (prefix_refl _) h.connections ?_ ?_
  · intro b hb
    rcases mem_append.mp hb with hb | hb
    · exact .inl hb
    right
    rw [mem_singleton.mp hb]
    exact ⟨⟨a.connection, a.op, now⟩, by simp, rfl, rfl, Nat.le_refl _⟩
  · intro b hb
    rw [← List.append_assoc] at hb
    rcases mem_snoc hb with hb | rfl
    · exact h.bytes_eraseIdx i b hb
    · exact h.bytes b (mem_append_left _ (List.mem_of_getElem? ha))

theorem ApprovalInv.mint {i : Nat} {a : Attempt Op} {connection : ConnectionId} {pruneNow : Instant}
    (ha : s.verified[i]? = some a) (hconn : s.connections[a.connection]? = some connection)
    (hclock : s.clock ≤ now) (hprune : now ≤ pruneNow) (hfresh : id ∉ s.minted.map Prod.fst) :
    ApprovalInv E { s with
      clock := pruneNow
      state := s.state.mint E.crypto connection a.opBytes id random now pruneNow
      verified := s.verified.eraseIdx i
      minted := s.minted ++ [(id, ⟨a.connection, a.op, now⟩)] } := by
  have hmem : a ∈ s.verified := List.mem_of_getElem? ha
  have hkey : ∀ k, s.state.hmacKey = some k → (some (s.state.key random)) = some k :=
    (key_keep s.state random).key
  have hget : ∀ id' p,
    (s.state.mint E.crypto connection a.opBytes id random now pruneNow).pending.get? id'
      = some p → id' = id ∧ p = ⟨connection, commitment E.crypto (s.state.key random) a.opBytes,
        now + stepUpTtl, false⟩ ∨ id' ≠ id ∧ s.state.pending.get? id' = some p := by
    intro id' p hp
    unfold StepUpState.mint at hp
    rw [get?_upsert] at hp
    split at hp
    · next heq =>
      left
      refine ⟨heq, ?_⟩
      rw [← some.inj hp]
      cases ((s.state.pending.filter fun _ p => pruneNow < p.expires).get? id) with
      | none => rfl
      | some q => rfl
    · next hne =>
      rw [get?_filter] at hp
      exact .inr ⟨hne, (Option.filter_eq_some_iff.mp hp).1⟩
  have hunused : ∀ u ∈ s.passed, u.1 ≠ id := by
    intro u hu heq
    obtain ⟨m, hm⟩ := h.used u hu
    have hmem := List.mem_map_of_mem (f := Prod.fst) hm.minted
    rw [heq] at hmem
    exact hfresh hmem
  refine ⟨h.connections, ?_, ?_, ?_, ?_, ?_, ?_, ?_, ?_, h.once⟩
  · rw [List.map_append]
    exact nodup_append_singleton h.mintedIds hfresh
  · intro m hm
    rcases mem_snoc hm with hm | rfl
    · exact Nat.le_trans (h.mintedTimes m hm) (Nat.le_trans hclock hprune)
    · exact hprune
  · intro m hm
    rcases mem_snoc hm with hm | rfl
    · exact h.proved m hm
    · exact (h.waiting a hmem).mono (Subset.refl _) hclock
  · intro b hb
    exact (h.waiting b (List.mem_of_mem_eraseIdx hb)).mono (Subset.refl _)
      (Nat.le_trans hclock hprune)
  · intro b hb
    refine h.bytes b ?_
    rcases mem_append.mp hb with hb | hb
    · exact mem_append_left _ hb
    · exact mem_append_right _ (List.mem_of_mem_eraseIdx hb)
  · intro id' p hp
    rcases hget id' p hp with ⟨rfl, rfl⟩ | ⟨hne, hp⟩
    · exact ⟨⟨a.connection, a.op, now⟩, by simp, hconn, rfl, s.state.key random, a.opBytes, rfl,
        h.bytes a (mem_append_right _ hmem), rfl⟩
    · obtain ⟨m, hm⟩ := h.backed id' p hp
      exact ⟨m, hm.mono (List.subset_append_left _ _) (prefix_refl _) hkey rfl⟩
  · intro u hu
    obtain ⟨m, hm⟩ := h.used u hu
    exact ⟨m, hm.mono (List.subset_append_left _ _) hkey⟩
  · intro u hu p hp
    rcases hget u.1 p hp with ⟨heq, -⟩ | ⟨-, hp⟩
    · exact absurd heq (hunused u hu)
    exact h.spent u hu p hp

theorem ApprovalInv.pass {connection : Nat} {cid : ConnectionId} {op : Op} {opBytes : Bytes}
    {state : StepUpState} (hconn : s.connections[connection]? = some cid) (hclock : s.clock ≤ now)
    (hbytes : E.toVec op = some opBytes)
    (htake : s.state.takeIfValid E.crypto id cid opBytes random now = (.ok (), state)) :
    ApprovalInv E { s with
      clock := now, state, passed := s.passed ++ [(id, ⟨connection, op, now⟩)] } := by
  obtain ⟨⟨p, hp, hfresh, hpconn, hlive, hcommit⟩, hburnt⟩ := takeIfValid_ok htake
  have hworn : Worn s.state state := by
    have h' : Worn s.state (s.state.takeIfValid E.crypto id cid opBytes random now).2 :=
      takeIfValid_worn
    rwa [htake] at h'
  obtain ⟨m, hm⟩ := h.backed id p hp
  obtain ⟨key, mBytes, hkey, hmBytes, hpcommit⟩ := hm.commitment
  have hunused : ∀ u ∈ s.passed, u.1 ≠ id := by
    intro u hu heq
    have hconsumed := h.spent u hu p (by rw [heq]; exact hp)
    rw [hfresh] at hconsumed
    cases hconsumed
  have hplain : ApprovalInv E { s with clock := now, state } :=
    h.later hworn rfl rfl hclock (Subset.refl _) (prefix_refl _) h.connections
      (fun a ha => .inl ha) h.bytes
  have hused : Used E { s with clock := now, state } (id, ⟨connection, op, now⟩) m := by
    refine ⟨hm.minted, ?_, Nat.le_trans (h.mintedTimes _ hm.minted) hclock, ?_,
      key, mBytes, opBytes,
      hworn.key key hkey, hmBytes, hbytes, ?_⟩
    · -- one identity is one connection
      rw [← hpconn] at hconn
      exact (List.getElem?_inj (List.getElem?_eq_some_iff.mp hm.connection).1 h.connections).mp
        (hm.connection.trans hconn.symm)
    · show now < m.time + stepUpTtl
      rw [← hm.expires]
      exact hlive
    · rw [← hpcommit, ← hcommit, StepUpState.key, hkey]
      rfl
  refine ⟨hplain.connections, hplain.mintedIds, hplain.mintedTimes, hplain.proved, hplain.waiting,
    hplain.bytes, ?_, ?_, ?_, ?_⟩
  · intro id' p' hp'
    obtain ⟨m', hm'⟩ := hplain.backed id' p' hp'
    exact ⟨m', ⟨hm'.minted, hm'.connection, hm'.expires, hm'.commitment⟩⟩
  · intro u hu
    rcases mem_snoc hu with hu | rfl
    · obtain ⟨m', hm'⟩ := hplain.used u hu
      exact ⟨m', hm'.mono (Subset.refl _) (fun _ hk => hk)⟩
    · exact ⟨m, hused.mono (Subset.refl _) (fun _ hk => hk)⟩
  · intro u hu p' hp'
    rcases mem_append.mp hu with hu | hu
    · exact hplain.spent u hu p' hp'
    · rw [mem_singleton.mp hu] at hp'
      exact hburnt p' hp'
  · rw [List.map_append]
    refine nodup_append_singleton h.once ?_
    intro hmem
    obtain ⟨u, hu, heq⟩ := List.mem_map.mp hmem
    exact hunused u hu heq

end

theorem ClockForward.le {a} (h : ClockForward s a) (hnow : now ∈ a.times) : s.clock ≤ now :=
  (List.pairwise_cons.mp h).1 now hnow

/-- Every orderly step keeps the invariant. -/
theorem ApprovalInv.step (h : ApprovalInv E s) {a : StepUpAction Op} (hok : Orderly s a)
    (hstep : stepUpStep E s a = some t) : ApprovalInv E t := by
  obtain ⟨hclock, hfresh⟩ := hok
  cases a with
  | connect id =>
    cases hstep
    refine h.later (.refl _) rfl rfl (Nat.le_refl _) (Subset.refl _) (List.prefix_append _ _)
      (nodup_append_singleton h.connections hfresh) (fun a ha => .inl ha) h.bytes
  | discard id =>
    cases hstep
    exact h.later (.discard _ id) rfl rfl (Nat.le_refl _) (Subset.refl _) (prefix_refl _)
      h.connections (fun a ha => .inl ha) h.bytes
  | authorize connection op mode now =>
    have hnow : s.clock ≤ now := hclock.le (by simp [times])
    simp only [stepUpStep] at hstep
    split at hstep
    · cases hstep
    · cases hstep
      exact h.later (.refl _) rfl rfl hnow (Subset.refl _) (prefix_refl _) h.connections
        (fun a ha => .inl ha) h.bytes
    · next opBytes _ hbegin =>
      cases hstep
      refine h.later (.refl _) rfl rfl hnow (Subset.refl _) (prefix_refl _) h.connections
        (fun a ha => .inl ha) ?_
      intro b hb
      rcases mem_append.mp hb with hb | hb
      · rcases mem_snoc hb with hb | rfl
        · exact h.bytes b (mem_append_left _ hb)
        · exact beginAuthorize_ok hbegin
      · exact h.bytes b (mem_append_right _ hb)
  | verified i now =>
    obtain ⟨a, ha, rfl⟩ := map_eq_some_iff.mp hstep
    exact h.verified ha (hclock.le (by simp [times]))
  | refused i now =>
    obtain ⟨a, ha, rfl⟩ := map_eq_some_iff.mp hstep
    refine h.later ?_ rfl rfl (hclock.le (by simp [times])) (Subset.refl _)
      (prefix_refl _) h.connections (fun a ha => .inl ha) (h.bytes_eraseIdx i)
    unfold recordFailure
    dsimp only
    split
    · exact .of_pending (fun _ hk => hk) rfl
    · exact .of_pending (fun _ hk => hk) rfl
  | aborted i =>
    obtain ⟨a, ha, rfl⟩ := map_eq_some_iff.mp hstep
    exact h.later (.refl _) rfl rfl (Nat.le_refl _) (Subset.refl _) (prefix_refl _)
      h.connections (fun a ha => .inl ha) (h.bytes_eraseIdx i)
  | mint i id random now pruneNow =>
    simp only [stepUpStep] at hstep
    split at hstep
    · cases hstep
    rename_i a ha
    obtain ⟨connection, hconn, rfl⟩ := map_eq_some_iff.mp hstep
    have hprune : now ≤ pruneNow := by
      have htimes := (List.pairwise_cons.mp hclock).2
      exact (List.pairwise_cons.mp htimes).1 pruneNow (by simp)
    exact h.mint ha hconn (hclock.le (by simp [times])) hprune hfresh
  | call connection op approval random now =>
    have hnow : s.clock ≤ now := hclock.le (by simp [times])
    obtain ⟨cid, hconn, rfl⟩ := map_eq_some_iff.mp hstep
    have hworn : Worn s.state (gate E s.state cid op approval random now).2 := gate_worn
    split
    · next state heq =>
      rw [heq] at hworn
      exact h.later hworn rfl rfl hnow (Subset.refl _) (prefix_refl _) h.connections
        (fun a ha => .inl ha) h.bytes
    · next state heq =>
      rw [heq] at hworn
      by_cases hgated : E.gated op = true
      · obtain ⟨id, opBytes, rfl, hbytes, htake⟩ := gate_ok heq hgated
        rw [if_pos hgated]
        exact h.pass hconn hnow hbytes htake
      · rw [if_neg hgated, List.append_nil]
        exact h.later hworn rfl rfl hnow (Subset.refl _) (prefix_refl _) h.connections
          (fun a ha => .inl ha) h.bytes

end Invariant

/-- The commitments of the operations in play do not collide. -/
def CommitmentsBind (E : StepUpEnv Op) (s : StepUpServer Op) : Prop :=
  ∀ key ∈ s.state.hmacKey, ∀ m ∈ s.minted, ∀ u ∈ s.passed, ∀ mBytes ∈ E.toVec m.2.op,
    ∀ uBytes ∈ E.toVec u.2.op, commitment E.crypto key mBytes = commitment E.crypto key uBytes →
        mBytes = uBytes

/-- **Approvals are single-use and bound.** In every run: each gated operation that
passed had an approval minted for its connection and operation after a successful
password check, less than sixty seconds before, and no approval let two pass. -/
theorem approvals_single_use (E : StepUpEnv Op)
    (hjson : ∀ op op' bytes, E.toVec op = some bytes → E.toVec op' = some bytes → op = op')
    (s : StepUpServer Op) (hreach : (stepUp E).Reachable Orderly s) (hbind : CommitmentsBind E s) :
    (∀ u ∈ s.passed, ∃ m, (u.1, m) ∈ s.minted ∧ m.connection = u.2.connection ∧ m.op = u.2.op ∧
      m.time ≤ u.2.time ∧ u.2.time < m.time + stepUpTtl ∧ Proved s m.connection m.op m.time) ∧
    (s.passed.map Prod.fst).Nodup ∧ (s.minted.map Prod.fst).Nodup := by
  have hinv : ApprovalInv E s := by
    refine hreach.invariant ?_ ?_
    · rintro x ⟨clock, rfl⟩
      refine ⟨nodup_nil, nodup_nil, ?_, ?_, ?_, ?_, ?_, ?_, ?_, nodup_nil⟩
      all_goals simp [StepUpServer.start, new, get?, empty]
    · intro x y a hx hok hstep
      exact hx.step hok hstep
  refine ⟨?_, hinv.once, hinv.mintedIds⟩
  intro u hu
  obtain ⟨m, hm⟩ := hinv.used u hu
  obtain ⟨key, mBytes, uBytes, hkey, hmBytes, huBytes, hcommit⟩ := hm.commitment
  obtain rfl := hbind key hkey _ hm.minted u hu mBytes hmBytes uBytes huBytes hcommit
  exact ⟨m, hm.minted, hm.connection, hjson _ _ _ hmBytes huBytes, hm.since, hm.before,
    hinv.proved _ hm.minted⟩

/-! ## A sample run -/

def sampleRandom : Vector UInt8 32 := .replicate 32 7

/-- Two connections. The first proves the password for `a`; the second presents
the approval, then the first does so twice. -/
def stolenApprovalRun : List (StepUpAction Text) :=
  [.connect 1, .connect 2, .authorize 0 ['a'] .unlocked (seconds 1), .verified 0 (seconds 2),
    .mint 0 ['i'] sampleRandom (seconds 2) (seconds 2),
    .call 1 ['a'] (some ['i']) sampleRandom (seconds 3),
    .call 0 ['a'] (some ['i']) sampleRandom (seconds 61),
    .call 0 ['a'] (some ['i']) sampleRandom (seconds 61)]

theorem approvals_single_use_stolenApprovalRun :
    ∃ s, (stepUp sampleStepUpEnv).exec (.start 0) stolenApprovalRun = some s ∧
      s.passed = [(['i'], ⟨0, ['a'], seconds 61⟩)] ∧ (s.passed.map Prod.fst).Nodup ∧
      ∀ u ∈ s.passed, ∃ m, (u.1, m) ∈ s.minted ∧ m.connection = u.2.connection ∧ m.op = u.2.op := by
  have hallowed : (stepUp sampleStepUpEnv).Allowed Orderly (.start 0) stolenApprovalRun := by
    decide +kernel
  have hany : ((stepUp sampleStepUpEnv).exec (.start 0) stolenApprovalRun).any (fun s =>
      s.passed = [(['i'], ⟨0, ['a'], seconds 61⟩)] ∧
      s.minted = [(['i'], ⟨0, ['a'], seconds 2⟩)]) = true := by
    decide +kernel
  obtain ⟨s, hs, h⟩ := (Option.any_eq_true _ _).mp hany
  obtain ⟨hpassed, hminted⟩ := of_decide_eq_true h
  have hjson : ∀ op op' bytes, sampleStepUpEnv.toVec op = some bytes →
      sampleStepUpEnv.toVec op' = some bytes → op = op' := by
    intro op op' bytes hop hop'
    exact textBytes_injective (some.inj (hop.trans hop'.symm))
  have hbind : CommitmentsBind sampleStepUpEnv s := by
    intro key _ m hm u hu mBytes hmBytes uBytes huBytes _
    rw [hminted, mem_singleton] at hm
    rw [hpassed, mem_singleton] at hu
    subst hm hu
    exact some.inj (hmBytes.symm.trans huBytes)
  obtain ⟨hused, honce, -⟩ := approvals_single_use sampleStepUpEnv hjson s
    ⟨_, ⟨0, rfl⟩, Machine.run_of_exec hallowed hs⟩ hbind
  refine ⟨s, hs, hpassed, honce, ?_⟩
  intro u hu
  obtain ⟨m, hm, hconn, hop, -⟩ := hused u hu
  exact ⟨m, hm, hconn, hop⟩

end SentinelPass.Ipc
