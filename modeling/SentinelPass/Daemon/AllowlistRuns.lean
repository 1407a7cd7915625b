import SentinelPass.Lib.JsonText
import SentinelPass.Daemon.Allowlist

/-!
# Overlapping updates of the allowlist

The calls of `Allowlist` take effect when their save is complete. `CallsInv` lists those
that did, as a linearization, and `DiskInv` says what the file holds.
-/

namespace SentinelPass.Daemon

open Lib List Option AllowlistState AllowlistCall AllowlistPhase Json.Value Json

section Steps

variable {C : AllowlistCodec} {platform : Platform} {start al : ExternalSecretAllowlist}
  {s t : AllowlistState} {a : AllowlistAction} {i : Nat} {c : RunningCall}
  {order : List (Nat × AllowlistCall)}

/-! ## The invariant -/

def AllowlistPhase.Edited (phase : AllowlistPhase) (loaded : ExternalSecretAllowlist)
    (contents : Bytes) : Prop :=
  phase = .edited loaded contents ∨ ∃ written, phase = .writing loaded contents written

def AllowlistPhase.Pending : AllowlistPhase → Prop
  | .saved | .ended _ => False
  | _ => True

/-- The calls so far, and those that took effect. -/
structure CallsInv (C : AllowlistCodec) (platform : Platform) (start : ExternalSecretAllowlist)
    (s : AllowlistState) (order : List (Nat × AllowlistCall)) (al : ExternalSecretAllowlist) :
    Prop where
  times : ∀ {j : Nat} {d : RunningCall}, s.calls[j]? = some d → d.time < s.clock
  linear : Linearizes (alone C platform) s.history start order al
  pending : ∀ {j : Nat} {d : RunningCall}, s.calls[j]? = some d → d.phase.Pending →
    j ∉ order.map Prod.fst
  saved : ∀ {j : Nat} {d : RunningCall}, s.calls[j]? = some d → d.phase = .saved →
    (j, d.call) ∈ order
  edited : ∀ {j : Nat} {d : RunningCall} {loaded : ExternalSecretAllowlist} {contents : Bytes},
    s.calls[j]? = some d → d.phase.Edited loaded contents →
    (d.call.edit loaded).bind (saveContents C platform) = some contents

/-- What the file holds: the allowlist, or the part of the next one that is written. -/
inductive DiskInv (C : AllowlistCodec) (platform : Platform) (s : AllowlistState)
    (al : ExternalSecretAllowlist) : Prop
  | whole : ¬ s.Writing → loadFromPath C platform s.file = some al → DiskInv C platform s al
  | part {i : Nat} {c : RunningCall} {contents : Bytes} {written : Nat} :
      platform = .other → s.calls[i]? = some c →
      c.phase = .writing al contents written → written ≤ contents.length →
      s.file = some (contents.take written) →
      (∀ {j : Nat} {d : RunningCall}, s.calls[j]? = some d → d.phase.isWriting = true → j = i) →
        DiskInv C platform s al

variable {contents : Bytes} {file : Option Bytes} {loaded : ExternalSecretAllowlist}
  {phase : AllowlistPhase} {time : Nat}

theorem AllowlistPhase.outcome_eq_returned (h : phase.outcome = .returned time) :
    phase = .ended (.returned time) := by
  cases phase with
  | ended outcome =>
    cases h
    rfl
  | _ => cases h

theorem AllowlistPhase.outcome_eq_refused (h : phase.outcome = .refused time) :
    phase = .ended (.refused time) := by
  cases phase with
  | ended outcome =>
    cases h
    rfl
  | _ => cases h

section

variable (h : CallsInv C platform start s order al) (hc : s.calls[i]? = some c)

include h hc

theorem CallsInv.move {order' al'}
    (hlinear : Linearizes (alone C platform) s.history start order' al')
    (horder : ∀ j, j ≠ i → j ∉ order.map Prod.fst → j ∉ order'.map Prod.fst)
    (hsub : ∀ x ∈ order, x ∈ order')
    (hend : ∀ time, phase.outcome.endedAt = some time → time = s.clock)
    (hreturned : ∀ time, phase = .ended (.returned time) → (i, c.call) ∈ order')
    (hrefused : ∀ time, phase = .ended (.refused time) → i ∉ order'.map Prod.fst)
    (hpending : phase.Pending → i ∉ order'.map Prod.fst)
    (hsaved : phase = .saved → (i, c.call) ∈ order')
    (hedited : ∀ loaded contents, phase.Edited loaded contents →
      (c.call.edit loaded).bind (saveContents C platform) = some contents) :
    CallsInv C platform start (s.moveTo i c phase file) order' al' := by
  have hget := getElem?_moveTo hc phase file
  have hhist := history_moveTo hc phase file
  have htime : c.time < s.clock := h.times hc
  refine ⟨?_, ?_, ?_, ?_, ?_⟩
  · intro j d hd
    rw [hget] at hd
    split at hd
    · cases hd
      exact Nat.lt_succ_of_lt htime
    exact Nat.lt_succ_of_lt (h.times hd)
  · refine hlinear.progress (history_eq hc) hhist.1 hhist.2 ?_ ?_ ?_
    · intro time hover j r hr
      obtain ⟨d, hd, rfl⟩ := map_eq_some_iff.mp hr
      rw [hend time hover]
      exact Nat.le_of_lt (h.times hd)
    · intro time hout
      exact hreturned time (outcome_eq_returned hout)
    · intro time hout
      exact hrefused time (outcome_eq_refused hout)
  · intro j d hd hpend
    rw [hget] at hd
    split at hd
    · next hji =>
      cases hd
      rw [hji]
      exact hpending hpend
    · next hji => exact horder j hji (h.pending hd hpend)
  · intro j d hd hsav
    rw [hget] at hd
    split at hd
    · next hji =>
      cases hd
      rw [hji]
      exact hsaved hsav
    · exact hsub _ (h.saved hd hsav)
  · intro j d loaded contents hd hed
    rw [hget] at hd
    split at hd
    · cases hd
      exact hedited loaded contents hed
    exact h.edited hd hed

theorem CallsInv.stay (hwas : c.phase.Pending) (hrunning : phase.outcome = .running)
    (hsaved : phase ≠ .saved)
    (hedited : ∀ loaded contents, phase.Edited loaded contents →
      (c.call.edit loaded).bind (saveContents C platform) = some contents) :
    CallsInv C platform start (s.moveTo i c phase file) order al := by
  have hfresh : i ∉ order.map Prod.fst := h.pending hc hwas
  refine h.move hc h.linear (fun _ _ hj => hj) (fun _ hx => hx) ?_ ?_ (fun _ _ => hfresh)
    (fun _ => hfresh) (fun hsav => absurd hsav hsaved) hedited
  · intro time hover
    rw [hrunning] at hover
    cases hover
  · intro time hret
    rw [hret] at hrunning
    cases hrunning

theorem CallsInv.ended {outcome} (hend : outcome.endedAt = some s.clock)
    (hreturned : ∀ time, outcome = .returned time → (i, c.call) ∈ order)
    (hrefused : ∀ time, outcome = .refused time → i ∉ order.map Prod.fst) :
    CallsInv C platform start (s.moveTo i c (.ended outcome) file) order al := by
  refine h.move hc h.linear (fun _ _ hj => hj) (fun _ hx => hx) ?_ ?_ ?_ False.elim ?_ ?_
  · intro time hover
    exact some.inj (hover.symm.trans hend)
  · intro time hret
    exact hreturned time (ended.inj hret)
  · intro time href
    exact hrefused time (ended.inj href)
  · intro hsav
    cases hsav
  · rintro loaded contents (hed | ⟨written, hed⟩) <;> cases hed

end

theorem AllowlistCall.loaded_cases (C platform file now) (call : AllowlistCall) :
    call.loaded C platform file now = .ended (.refused now) ∨
      ∃ al contents, loadFromPath C platform file = some al ∧
        (call.edit al).bind (saveContents C platform) = some contents ∧
        call.loaded C platform file now = .edited al contents := by
  unfold loaded
  cases loadFromPath C platform file with
  | none => exact .inl rfl
  | some al =>
    dsimp only
    cases hedit : (call.edit al).bind (saveContents C platform) with
    | none => exact .inl rfl
    | some contents => exact .inr ⟨al, contents, rfl, hedit, rfl⟩

theorem loadFromPath_saved {call : AllowlistCall}
    (h : (call.edit loaded).bind (saveContents C platform) = some contents) :
    ∃ next, call.alone C platform loaded = some next ∧
      loadFromPath C platform (some contents) = some next := by
  obtain ⟨next, hedit, hsave⟩ := bind_eq_some_iff.mp h
  refine ⟨next, ?_, ?_⟩
  · unfold alone
    rw [hedit]
    show (saveContents C platform next).bind _ = some next
    rw [hsave]
    rfl
  · unfold saveContents at hsave
    unfold loadFromPath
    dsimp only at hsave ⊢
    split at hsave
    · cases hsave
    rename_i hfits
    cases hsave
    rw [if_neg hfits]
    exact C.fromSlice_toVecPretty next

theorem CallsInv.commit (h : CallsInv C platform start s order al) (hc : s.calls[i]? = some c)
    (hphase : c.phase.Edited al contents) (file) :
    ∃ next, CallsInv C platform start (s.moveTo i c .saved file) (order ++ [(i, c.call)]) next ∧
      loadFromPath C platform (some contents) = some next := by
  obtain ⟨next, halone, hload⟩ := loadFromPath_saved (h.edited hc hphase)
  have hpending : c.phase.Pending := by
    rcases hphase with hphase | ⟨written, hphase⟩ <;> rw [hphase] <;> trivial
  have hrunning : c.record.outcome = .running := by
    show c.phase.outcome = .running
    rcases hphase with hphase | ⟨written, hphase⟩ <;> rw [hphase] <;> rfl
  have hlinear := h.linear.commit (history_eq hc) hrunning
    (h.pending hc hpending) halone
  have hmem : (i, c.call) ∈ order ++ [(i, c.call)] :=
    mem_append_right _ mem_cons_self
  refine ⟨next, h.move hc hlinear ?_ (fun x hx => mem_append_left _ hx) ?_ ?_ ?_ ?_ ?_ ?_, hload⟩
  · intro j hji hj hnew
    rw [map_append, mem_append] at hnew
    rcases hnew with hold | hnew
    · exact hj hold
    · exact hji (mem_singleton.mp hnew)
  · intro time hover
    cases hover
  · intro time hret
    cases hret
  · intro time href
    cases href
  · exact False.elim
  · intro _
    exact hmem
  · rintro loaded contents (hed | ⟨written, hed⟩) <;> cases hed

theorem CallsInv.invoke (h : CallsInv C platform start s order al) (call : AllowlistCall) :
    CallsInv C platform start
      ⟨s.file, s.calls ++ [⟨call, s.clock, .invoked⟩], s.clock + 1⟩ order al := by
  have hnone : s.calls[s.calls.length]? = none := getElem?_eq_none_iff.mpr le_rfl
  have hfresh : s.calls.length ∉ order.map Prod.fst := by
    intro hmem
    obtain ⟨⟨j, op⟩, hmem, hj⟩ := mem_map.mp hmem
    obtain ⟨r, hr, -⟩ := h.linear.listed hmem
    obtain ⟨d, hd, -⟩ := map_eq_some_iff.mp hr
    rw [show j = s.calls.length from hj, hnone] at hd
    cases hd
  refine ⟨?_, ?_, ?_, ?_, ?_⟩
  · intro j d hd
    rcases getElem?_snoc.mp hd with hold | ⟨-, rfl⟩
    · exact Nat.lt_succ_of_lt (h.times hold)
    · exact Nat.lt_succ_self s.clock
  · refine h.linear.invoke (i := s.calls.length) (r := ⟨call, s.clock, .running⟩) ?_ ?_ rfl ?_
    · unfold history
      rw [hnone]
      rfl
    · unfold history
      rw [getElem?_concat_length]
      rfl
    · intro j hj
      unfold history
      rw [getElem?_append]
      split
      · rfl
      rename_i hge
      rw [getElem?_eq_none_iff.mpr (by rw [length_singleton]; omega),
        getElem?_eq_none_iff.mpr (by omega)]
  · intro j d hd hpend
    rcases getElem?_snoc.mp hd with hold | ⟨rfl, -⟩
    · exact h.pending hold hpend
    · exact hfresh
  · intro j d hd hsav
    rcases getElem?_snoc.mp hd with hold | ⟨-, rfl⟩
    · exact h.saved hold hsav
    · cases hsav
  · intro j d loaded contents hd hed
    rcases getElem?_snoc.mp hd with hold | ⟨-, rfl⟩
    · exact h.edited hold hed
    · rcases hed with hed | ⟨written, hed⟩ <;> cases hed

/-! ## The file -/

theorem AllowlistState.writing_iff :
    s.Writing ↔ ∃ (i : Nat) (c : RunningCall), s.calls[i]? = some c ∧ c.phase.isWriting = true := by
  constructor
  · rintro ⟨c, hc, hw⟩
    obtain ⟨i, hi⟩ := mem_iff_getElem?.mp hc
    exact ⟨i, c, hi, hw⟩
  · rintro ⟨i, c, hi, hw⟩
    exact ⟨c, mem_of_getElem? hi, hw⟩

theorem AllowlistState.isWriting_moveTo (hc : s.calls[i]? = some c) {j d}
    (hd : (s.moveTo i c phase file).calls[j]? = some d) (hw : d.phase.isWriting = true) :
    j = i ∧ phase.isWriting = true ∨ j ≠ i ∧ s.calls[j]? = some d := by
  rw [getElem?_moveTo hc] at hd
  split at hd
  · next hji =>
    cases hd
    exact .inl ⟨hji, hw⟩
  · next hji => exact .inr ⟨hji, hd⟩

theorem DiskInv.idle (h : DiskInv C platform s al) (hc : s.calls[i]? = some c)
    (hbefore : c.phase.isWriting = false) (hafter : phase.isWriting = false) :
    DiskInv C platform (s.moveTo i c phase s.file) al := by
  have hothers : ∀ {j : Nat} {d : RunningCall}, (s.moveTo i c phase s.file).calls[j]? = some d →
      d.phase.isWriting = true → s.calls[j]? = some d := by
    intro j d hd hw
    rcases isWriting_moveTo hc hd hw with ⟨-, hphase⟩ | ⟨-, hold⟩
    · rw [hafter] at hphase
      cases hphase
    · exact hold
  cases h with
  | whole hnot hload =>
    refine .whole (fun hw => hnot ?_) hload
    obtain ⟨j, d, hd, hw⟩ := writing_iff.mp hw
    exact writing_iff.mpr ⟨j, d, hothers hd hw, hw⟩
  | @part k e contents written hother hk hwriting hle hfile honly =>
    have hki : k ≠ i := by
      rintro rfl
      rw [hc] at hk
      cases hk
      rw [hwriting] at hbefore
      cases hbefore
    refine .part hother ?_ hwriting hle hfile (fun hd hw => honly (hothers hd hw) hw)
    rw [getElem?_moveTo hc, if_neg hki]
    exact hk

theorem DiskInv.replaced {next : ExternalSecretAllowlist} (hc : s.calls[i]? = some c)
    (hothers : ∀ {j : Nat} {d : RunningCall}, s.calls[j]? = some d → d.phase.isWriting = true →
      j = i)
    (hload : loadFromPath C platform (some contents) = some next) :
    DiskInv C platform (s.moveTo i c .saved (some contents)) next := by
  refine .whole (fun hw => ?_) hload
  obtain ⟨j, d, hd, hw⟩ := writing_iff.mp hw
  rcases isWriting_moveTo hc hd hw with ⟨-, hphase⟩ | ⟨hji, hold⟩
  · cases hphase
  exact hji (hothers hold hw)

theorem DiskInv.whole_of_not_writing (h : DiskInv C platform s al) (hnot : ¬ s.Writing) :
    loadFromPath C platform s.file = some al := by
  cases h with
  | whole _ hload => exact hload
  | part _ hc hphase =>
    exact absurd (writing_iff.mpr ⟨_, _, hc, by rw [hphase]; rfl⟩) hnot

theorem writeOn_take (contents) {written} (hle : written ≤ contents.length) (n) :
    writeOn (contents.take written) contents written n
      = (contents.take (min (written + n) contents.length), min (written + n) contents.length) := by
  have hlen : (contents.take written).length = written := by
    rw [length_take]
    omega
  have hchunk : ((contents.drop written).take n).length
      = min (written + n) contents.length - written := by
    rw [length_take, length_drop]
    omega
  have hrest : (contents.take written).drop (min (written + n) contents.length) = [] :=
    drop_eq_nil_of_le (by rw [hlen]; omega)
  have hsum : written + (min (written + n) contents.length - written)
      = min (written + n) contents.length := by omega
  unfold writeOn overwriteAt
  dsimp only
  rw [hchunk, hsum, hrest, hlen, Nat.sub_self, replicate_zero, append_nil,
    append_nil, take_take, Nat.min_self]
  refine Prod.ext ?_ rfl
  rw [← take_add]
  rcases Nat.le_total (written + n) contents.length with h | h
  · rw [Nat.min_eq_left h]
  · rw [Nat.min_eq_right h, take_of_length_le h, take_of_length_le le_rfl]

/-! ## Whole runs -/

def AllowlistInv (C : AllowlistCodec) (platform : Platform) (start : ExternalSecretAllowlist)
    (s : AllowlistState) : Prop :=
  ∃ order al, CallsInv C platform start s order al ∧ DiskInv C platform s al

section

variable (hcalls : CallsInv C platform start s order al) (hdisk : DiskInv C platform s al) (hc :
    s.calls[i]? = some c)

include hcalls hdisk hc

theorem AllowlistInv.load (hphase : c.phase = .invoked) :
    AllowlistInv C platform start (s.moveTo i c (c.call.loaded C platform s.file s.clock)
      s.file) := by
  have hpending : c.phase.Pending := by rw [hphase]; trivial
  have hidle : c.phase.isWriting = false := by rw [hphase]; rfl
  rcases c.call.loaded_cases C platform s.file s.clock with
    hbad | ⟨loaded, contents, -, hsave, hgood⟩
  · rw [hbad]
    refine ⟨order, al, hcalls.ended hc rfl ?_ (fun _ _ => hcalls.pending hc hpending),
      hdisk.idle hc hidle rfl⟩
    intro time hret
    cases hret
  · rw [hgood]
    refine ⟨order, al, hcalls.stay hc hpending rfl (fun hsav => by cases hsav) ?_,
      hdisk.idle hc hidle rfl⟩
    rintro loaded' contents' (hed | ⟨written, hed⟩)
    · cases hed
      exact hsave
    · cases hed

theorem AllowlistInv.publish (hlinux : platform = .linux)
    (hphase : c.phase = .edited loaded contents) (hunchanged : s.Unchanged C platform i) :
    AllowlistInv C platform start (s.moveTo i c .saved (some contents)) := by
  cases hdisk with
  | part hother => exact absurd (hlinux.symm.trans hother) (by decide)
  | whole hnot hload =>
    have hsame : loaded = al :=
      some.inj ((hunchanged c loaded contents hc hphase).symm.trans hload)
    rw [hsame] at hphase
    obtain ⟨next, hcalls', hload'⟩ := hcalls.commit hc (.inl hphase) (some contents)
    refine ⟨_, next, hcalls', DiskInv.replaced hc (fun hd hw => absurd ?_ hnot) hload'⟩
    exact writing_iff.mpr ⟨_, _, hd, hw⟩

theorem AllowlistInv.truncate (hother : platform = .other)
    (hphase : c.phase = .edited loaded contents) (hnot : ¬ s.Writing)
    (hunchanged : s.Unchanged C platform i) :
    AllowlistInv C platform start (s.moveTo i c (.writing loaded contents 0) (some [])) := by
  have hload := hdisk.whole_of_not_writing hnot
  have hsame : loaded = al :=
    some.inj ((hunchanged c loaded contents hc hphase).symm.trans hload)
  rw [hsame] at hphase ⊢
  refine ⟨order, al, ?_, ?_⟩
  · refine hcalls.stay hc (by rw [hphase]; trivial) rfl (fun hsav => by cases hsav) ?_
    rintro loaded' contents' (hed | ⟨written, hed⟩)
    · cases hed
    · cases hed
      exact hcalls.edited hc (.inl hphase)
  · refine .part (i := i) (c := { c with phase := .writing al contents 0 }) hother ?_ rfl
      (Nat.zero_le _) rfl ?_
    · rw [getElem?_moveTo hc, if_pos rfl]
    · intro j d hd hw
      rcases isWriting_moveTo hc hd hw with ⟨hji, -⟩ | ⟨-, hold⟩
      · exact hji
      exact absurd (writing_iff.mpr ⟨_, _, hold, hw⟩) hnot

theorem AllowlistInv.write {written : Nat} (hphase : c.phase = .writing loaded contents written)
    (n : Nat) :
    AllowlistInv C platform start (s.moveTo i c
      (writtenPhase loaded contents (writeOn (s.file.getD []) contents written n).2)
      (some (writeOn (s.file.getD []) contents written n).1)) := by
  have hw : c.phase.isWriting = true := by rw [hphase]; rfl
  cases hdisk with
  | whole hnot => exact absurd (writing_iff.mpr ⟨i, c, hc, hw⟩) hnot
  | @part k e contents' written' hother hk hwriting hle hfile honly =>
    -- the call that writes is the one the file belongs to
    obtain rfl := honly hc hw
    rw [hc] at hk
    cases hk
    rw [hphase] at hwriting
    cases hwriting
    rw [hfile, getD_some, writeOn_take contents hle n]
    by_cases hdone : contents.length ≤ min (written + n) contents.length
    · have hall : min (written + n) contents.length = contents.length := by omega
      rw [writtenPhase, if_pos hdone, hall, take_length]
      obtain ⟨next, hcalls', hload'⟩ := hcalls.commit hc (.inr ⟨written, hphase⟩) (some contents)
      exact ⟨_, next, hcalls', DiskInv.replaced hc honly hload'⟩
    · rw [writtenPhase, if_neg hdone]
      refine ⟨order, al, ?_, ?_⟩
      · refine hcalls.stay hc (by rw [hphase]; trivial) rfl (fun hsav => by cases hsav) ?_
        rintro loaded' contents' (hed | ⟨written', hed⟩)
        · cases hed
        · cases hed
          exact hcalls.edited hc (.inr ⟨written, hphase⟩)
      · refine .part (i := i)
          (c := { c with phase := .writing al contents (min (written + n) contents.length) })
          hother ?_ rfl (Nat.min_le_right _ _) rfl ?_
        · rw [getElem?_moveTo hc, if_pos rfl]
        · intro j d hd hw'
          rcases isWriting_moveTo hc hd hw' with ⟨hji, -⟩ | ⟨-, hold⟩
          · exact hji
          exact honly hold hw'

theorem AllowlistInv.finish (hphase : c.phase = .saved) :
    AllowlistInv C platform start (s.moveTo i c (.ended (.returned s.clock)) s.file) := by
  refine ⟨order, al, hcalls.ended hc rfl (fun _ _ => hcalls.saved hc hphase) ?_,
    hdisk.idle hc (by rw [hphase]; rfl) rfl⟩
  intro time href
  cases href

theorem AllowlistInv.interrupt (hidle : c.phase.isWriting = false) : AllowlistInv C platform start
    (s.moveTo i c (.ended (.interrupted s.clock)) s.file) := by
  refine ⟨order, al, hcalls.ended hc rfl ?_ ?_, hdisk.idle hc hidle rfl⟩
  · intro time hret
    cases hret
  · intro time href
    cases href

end

theorem AllowlistInv.invoke (hcalls : CallsInv C platform start s order al)
    (hdisk : DiskInv C platform s al) (call) :
    AllowlistInv C platform start
      ⟨s.file, s.calls ++ [⟨call, s.clock, .invoked⟩], s.clock + 1⟩ := by
  have hold : ∀ {d}, d ∈ s.calls ++ [⟨call, s.clock, .invoked⟩] → d.phase.isWriting = true →
      d ∈ s.calls := by
    intro d hd hw
    rcases mem_snoc hd with hd | rfl
    · exact hd
    · cases hw
  refine ⟨order, al, hcalls.invoke call, ?_⟩
  cases hdisk with
  | whole hnot hload =>
    refine .whole (fun hw => hnot ?_) hload
    obtain ⟨d, hd, hw⟩ := hw
    exact ⟨d, hold hd hw, hw⟩
  | @part k e contents written hother hk hwriting hle hfile honly =>
    refine .part (i := k) hother ?_ hwriting hle hfile ?_
    · exact getElem?_snoc.mpr (.inl hk)
    · intro j d hd hw
      rcases getElem?_snoc.mp hd with hold | ⟨-, rfl⟩
      · exact honly hold hw
      · cases hw

open AllowlistInv

theorem AllowlistInv.step (h : AllowlistInv C platform start s) (hok : Unclobbered C platform s a)
    (hstep : s.step C platform a = some t) : AllowlistInv C platform start t := by
  obtain ⟨order, al, hcalls, hdisk⟩ := h
  rcases step_cases hstep with ⟨call, -, rfl⟩ | ⟨i, c, phase, file, hc, hmoves, rfl⟩
  · exact invoke hcalls hdisk call
  · cases hmoves with
    | load hphase => exact load hcalls hdisk hc hphase
    | publish hlinux hphase => exact publish hcalls hdisk hc hlinux hphase hok
    | truncate hother hphase =>
      exact truncate hcalls hdisk hc hother hphase hok.1 hok.2
    | write hphase => exact write hcalls hdisk hc hphase _
    | finish hphase => exact finish hcalls hdisk hc hphase
    | interrupt _ => exact interrupt hcalls hdisk hc (hok c hc)

theorem allowlistInv_of_reachable
    (h : (allowlistMachine C platform start).Reachable (Unclobbered C platform) s) :
    AllowlistInv C platform start s := by
  refine h.invariant ?_ (fun hinv hok hstep => hinv.step hok hstep)
  rintro x ⟨hload, hcalls⟩
  have hnone : ∀ j : Nat, x.calls[j]? = none := by
    intro j
    rw [hcalls, getElem?_nil]
  refine ⟨[], start, ⟨?_, Linearizes.nil ?_, ?_, ?_, ?_⟩, .whole ?_ hload⟩
  · intro j d hd
    rw [hnone] at hd
    cases hd
  · intro j
    unfold history
    rw [hnone]
    rfl
  · intro j d hd
    rw [hnone] at hd
    cases hd
  · intro j d hd
    rw [hnone] at hd
    cases hd
  · intro j d loaded contents hd
    rw [hnone] at hd
    cases hd
  · rintro ⟨d, hd, -⟩
    rw [hcalls] at hd
    cases hd

end Steps

/-- Call `i` is a revocation that returned, and no call allows its scope that was not over
before. -/
def RevokedForGood (s : AllowlistState) (i : Nat) (clientId domain : Text)
    (field : ExternalSecretField) : Prop :=
  (∃ invoked time, s.history i = some ⟨.revoke clientId domain field, invoked, .returned time⟩) ∧
    ∀ j r, s.history j = some r → r.op.isAllow = true →
      r.op.scope? = (revoke clientId domain field).scope? →
      Precedes s.history j i ∨ ∃ time, r.outcome = .refused time

/-- In every run in which no save overwrites a change it has not seen and no write in place
is cut or read half-way, the file loads to what the calls leave behind one after another,
and what was revoked for good is not authorised. -/
theorem allowlist_serializable (C : AllowlistCodec) (platform : Platform)
    (start : ExternalSecretAllowlist) (s : AllowlistState)
    (hreach : (allowlistMachine C platform start).Reachable (Unclobbered C platform) s)
    (hwhole : ¬ s.Writing) :
    ∃ al order, loadFromPath C platform s.file = some al ∧
      Linearizes (AllowlistCall.alone C platform) s.history start order al ∧
      (start.DistinctScopes → ∀ i clientId domain field, RevokedForGood s i clientId domain field →
        ∀ now, al.isAllowedAt clientId domain field now = false) := by
  obtain ⟨order, al, hcalls, hdisk⟩ := allowlistInv_of_reachable hreach
  refine ⟨al, order, hdisk.whole_of_not_writing hwhole, hcalls.linear, ?_⟩
  rintro hdistinct i clientId domain field ⟨⟨invoked, time, hi⟩, hallowed⟩ now
  refine isAllowedAt_of_not_mem (fun sc hsc => ?_) now
  obtain ⟨before, after, horder⟩ := append_of_mem (hcalls.linear.complete hi rfl)
  have heffect := hcalls.linear.effect
  rw [horder, map_append, map_cons] at heffect
  refine not_mem_after_revoke hdistinct hsc ?_ heffect
  intro call hcall hallow hsame
  obtain ⟨⟨j, op⟩, hj, rfl⟩ := mem_map.mp hcall
  have hmem : (j, op) ∈ order := by
    rw [horder]
    exact mem_append_right _ (mem_cons_of_mem _ hj)
  obtain ⟨r, hr, rfl, hnotRefused⟩ := hcalls.linear.listed hmem
  rcases hallowed j r hr hallow (hsame.trans hsc.symm) with hprec | ⟨t, href⟩
  · -- a call that was over before is not listed after the revocation
    have hpair := hcalls.linear.realTime
    rw [horder, pairwise_append, pairwise_cons] at hpair
    exact hpair.2.1.1 (j, r.op) hj hprec
  · exact hnotRefused t href

/-! ## Two runs -/

section Runs

variable {C : AllowlistCodec} {al al' : ExternalSecretAllowlist} {file : Option Bytes}
  {call call' : AllowlistCall} {contents contents' : Bytes}

theorem AllowlistCall.loaded_eq {platform : Platform}
    (hload : loadFromPath C platform file = some al)
    (hedit : (call.edit al).bind (saveContents C platform) = some contents) (now : Nat) :
    call.loaded C platform file now = .edited al contents := by
  rcases call.loaded_cases C platform file now with hbad | ⟨al', contents', hload', hedit', hgood⟩
  · unfold loaded at hbad
    rw [hload] at hbad
    dsimp only at hbad
    rw [hedit] at hbad
    cases hbad
  · rw [hload] at hload'
    cases hload'
    rw [hedit] at hedit'
    cases hedit'
    exact hgood

def seenChange (call call' : AllowlistCall) : List AllowlistAction :=
  [.invoke call, .invoke call', .load 0, .publish 0, .load 1, .publish 1, .finish 0, .finish 1]

section

variable (hload : loadFromPath C .linux file = some al)
  (hedit : (call.edit al).bind (saveContents C .linux) = some contents)

include hload hedit

/-- The calls overlap, and the second loads what the first has saved. -/
theorem reachable_undisturbed (hload' : loadFromPath C .linux (some contents) = some al')
    (hedit' : (call'.edit al').bind (saveContents C .linux) = some contents') :
    (allowlistMachine C .linux al).Reachable (Unclobbered C .linux)
      ⟨some contents', [⟨call, 0, .ended (.returned 6)⟩, ⟨call', 1, .ended (.returned 7)⟩], 8⟩ := by
  have hloaded := loaded_eq hload hedit 2
  have hloaded' := loaded_eq hload' hedit' 4
  have hexec : (allowlistMachine C .linux al).exec ⟨file, [], 0⟩ (seenChange call call')
      = some ⟨some contents',
        [⟨call, 0, .ended (.returned 6)⟩, ⟨call', 1, .ended (.returned 7)⟩], 8⟩ := by
    simp [seenChange, Machine.exec, allowlistMachine, step, AllowlistAction.call?,
      RunningCall.next, moveTo, hloaded, hloaded']
  refine ⟨_, ⟨hload, rfl⟩, Machine.run_of_exec ?_ hexec⟩
  -- nobody is writing at a load, and each save finds the file its call has loaded
  have hsaves : ∀ (call : AllowlistCall) (time : Nat) (al : ExternalSecretAllowlist)
      (contents : Bytes) (c : RunningCall) (loaded : ExternalSecretAllowlist) (written : Bytes),
      ⟨call, time, .edited al contents⟩ = c → c.phase = .edited loaded written → al = loaded := by
    rintro call time al contents _ loaded written rfl hphase
    cases hphase
    rfl
  simpa [seenChange, Machine.Allowed, Unclobbered, allowlistMachine, step, AllowlistAction.call?,
    RunningCall.next, moveTo, hloaded, hloaded', Writing, isWriting, Unchanged, hload, hload']
    using And.intro (hsaves call 0 al contents) (hsaves call' 1 al' contents')

theorem exec_overlap (hedit' : (call'.edit al).bind (saveContents C .linux) = some contents') :
    (allowlistMachine C .linux al).exec ⟨file, [], 0⟩
      [.invoke call, .invoke call', .load 0, .load 1, .publish 0, .finish 0, .publish 1, .finish 1]
      = some ⟨some contents',
        [⟨call, 0, .ended (.returned 5)⟩, ⟨call', 1, .ended (.returned 7)⟩], 8⟩ := by
  have hloaded := loaded_eq hload hedit 2
  have hloaded' := loaded_eq hload hedit' 3
  simp [Machine.exec, allowlistMachine, step, AllowlistAction.call?,
    RunningCall.next, moveTo, hloaded, hloaded']

end

theorem exec_cut (hload : loadFromPath C .other file = some al)
    (hedit : (call.edit al).bind (saveContents C .other) = some contents) :
    (allowlistMachine C .other al).exec ⟨file, [], 0⟩
      [.invoke call, .load 0, .truncate 0, .interrupt 0]
      = some ⟨some [], [⟨call, 0, .ended (.interrupted 3)⟩], 4⟩ := by
  have hloaded := loaded_eq hload hedit 1
  simp [Machine.exec, allowlistMachine, step, AllowlistAction.call?,
    RunningCall.next, moveTo, hloaded]

end Runs

def ExternalSecretGrant.toJson (g : ExternalSecretGrant) : Json.Value :=
  .arr [.str g.clientId, .str g.domain, .str g.field.asStr,
    .arr (g.expiresAt.toList.map num), .bool g.allowWrite]

def tokenJson (row : Text × ClientTokenRecord) : Json.Value :=
  .arr [.str row.1, .str row.2.tokenHash, .bool row.2.revoked]

def ExternalSecretAllowlist.toJson (al : ExternalSecretAllowlist) : Json.Value :=
  .arr [.arr (al.grants.map ExternalSecretGrant.toJson), .arr (al.clientTokens.rows.map tokenJson)]

theorem ExternalSecretField.asStr_injective : Function.Injective ExternalSecretField.asStr := by
  intro f g h
  cases f <;> cases g <;> first | rfl | exact absurd h (by decide)

theorem ExternalSecretGrant.toJson_injective : Function.Injective ExternalSecretGrant.toJson := by
  intro g h heq
  obtain ⟨clientId, domain, field, expiresAt, allowWrite⟩ := g
  obtain ⟨clientId', domain', field', expiresAt', allowWrite'⟩ := h
  simp only [toJson, arr.injEq, cons.injEq, str.injEq, bool.injEq, and_true] at heq
  obtain ⟨rfl, rfl, hfield, hexpires, rfl⟩ := heq
  obtain rfl := ExternalSecretField.asStr_injective hfield
  have hsame : expiresAt = expiresAt' := by
    cases expiresAt <;> cases expiresAt' <;> simp_all
  rw [hsame]

theorem tokenJson_injective : Function.Injective tokenJson := by
  rintro ⟨id, hash, revoked⟩ ⟨id', hash', revoked'⟩ heq
  obtain ⟨rfl, rfl, rfl⟩ := heq
  rfl

theorem ExternalSecretAllowlist.toJson_injective :
    Function.Injective ExternalSecretAllowlist.toJson := by
  rintro ⟨grants, ⟨rows, hrows⟩⟩ ⟨grants', ⟨rows', hrows'⟩⟩ heq
  simp only [toJson, arr.injEq, cons.injEq, and_true] at heq
  obtain rfl := map_injective_iff.mpr ExternalSecretGrant.toJson_injective heq.1
  obtain rfl := map_injective_iff.mpr tokenJson_injective heq.2
  rfl

/-- A writer of documents, and the parser that undoes it. -/
noncomputable def sampleCodec : AllowlistCodec where
  toVecPretty al := textBytes (write al.toJson)
  fromSlice bytes := by
    classical
    exact if h : ∃ al : ExternalSecretAllowlist, textBytes (write al.toJson) = bytes
      then some h.choose else none
  fromSlice_toVecPretty al := by
    have h : ∃ al' : ExternalSecretAllowlist,
        textBytes (write al'.toJson) = textBytes (write al.toJson) := ⟨al, rfl⟩
    rw [dif_pos h]
    have heq := write_injective (textBytes_injective h.choose_spec)
    rw [ExternalSecretAllowlist.toJson_injective heq]
  fromSlice_nil := by
    rw [dif_neg]
    rintro ⟨al, hal⟩
    obtain ⟨c, rest, hwrite, -⟩ := exists_write_cons al.toJson
    rw [textBytes_eq_nil.mp hal] at hwrite
    cases hwrite

def sampleGrant : ExternalSecretGrant :=
  ⟨"victor".toList, "example".toList, .password, none, false⟩

def sampleAllowlist : ExternalSecretAllowlist := ⟨[sampleGrant], .empty⟩

def sampleFile (al : ExternalSecretAllowlist) : Bytes := textBytes (write al.toJson)

theorem loadFromPath_sample {al} (hfits : (sampleFile al).length ≤ allowlistLimit) (platform) :
    loadFromPath sampleCodec platform (some (sampleFile al)) = some al := by
  unfold loadFromPath
  dsimp only
  rw [if_neg (fun h => absurd hfits (Nat.not_le_of_gt h.2))]
  exact sampleCodec.fromSlice_toVecPretty al

theorem saveContents_sample (al) (hfits : (sampleFile al).length ≤ allowlistLimit) (platform) :
    saveContents sampleCodec platform al = some (sampleFile al) := by
  exact if_neg (fun h => absurd hfits (Nat.not_le_of_gt h.2))

def sampleRevoke : AllowlistCall := .revoke "victor".toList "example".toList .password

def sampleAllow : AllowlistCall := .allowUntil "other".toList "example".toList .password none

def otherGrant : ExternalSecretGrant :=
  ⟨"other".toList, "example".toList, .password, none, false⟩

theorem loadFromPath_sampleAllowlist (platform) :
    loadFromPath sampleCodec platform (some (sampleFile sampleAllowlist)) = some sampleAllowlist :=
  loadFromPath_sample (by decide +kernel) platform

theorem sampleRevoke_saved (platform) :
    (sampleRevoke.edit sampleAllowlist).bind (saveContents sampleCodec platform)
      = some (sampleFile ⟨[], .empty⟩) :=
  saveContents_sample ⟨[], .empty⟩ (by decide +kernel) platform

theorem sampleAllow_saved (platform) :
    (sampleAllow.edit sampleAllowlist).bind (saveContents sampleCodec platform)
      = some (sampleFile ⟨[sampleGrant, otherGrant], .empty⟩) :=
  saveContents_sample ⟨[sampleGrant, otherGrant], .empty⟩ (by decide +kernel) platform

/-- The grant is revoked and another client's grant saved, at two times, with this file left. -/
def revokedAndAllowed (grants : List ExternalSecretGrant) (time time' : Nat) : AllowlistState where
  file := some (sampleFile ⟨grants, .empty⟩)
  calls := [⟨sampleRevoke, 0, .ended (.returned time)⟩, ⟨sampleAllow, 1, .ended (.returned time')⟩]
  clock := 8

theorem revokedForGood_sample (grants : List ExternalSecretGrant) (time time' : Nat) :
    RevokedForGood (revokedAndAllowed grants time time') 0 "victor".toList "example".toList
      .password := by
  refine ⟨⟨0, time, rfl⟩, fun j r hr hallow hscope => ?_⟩
  obtain ⟨c, hc, rfl⟩ := mem_of_history hr
  rcases mem_cons.mp hc with rfl | hc
  · cases hallow
  · cases mem_singleton.mp hc
    have hother : sampleAllow.scope? ≠ sampleRevoke.scope? := by decide +kernel
    exact absurd hscope hother

theorem allowlist_serializable_sample :
    ∃ al order,
      loadFromPath sampleCodec .linux (revokedAndAllowed [otherGrant] 6 7).file = some al ∧
      Linearizes (AllowlistCall.alone sampleCodec .linux)
        (revokedAndAllowed [otherGrant] 6 7).history sampleAllowlist order al ∧
      al.isAllowedAt "victor".toList "example".toList .password 0 = false := by
  have hreach : (allowlistMachine sampleCodec .linux sampleAllowlist).Reachable
      (Unclobbered sampleCodec .linux) (revokedAndAllowed [otherGrant] 6 7) :=
    reachable_undisturbed (loadFromPath_sampleAllowlist .linux) (sampleRevoke_saved .linux)
      (loadFromPath_sample (by decide +kernel) .linux)
      (saveContents_sample ⟨[otherGrant], .empty⟩ (by decide +kernel) .linux)
  have hwhole : ¬ (revokedAndAllowed [otherGrant] 6 7).Writing := by
    rintro ⟨c, hc, hw⟩
    rcases mem_cons.mp hc with rfl | hc
    · cases hw
    · cases mem_singleton.mp hc
      cases hw
  obtain ⟨al, order, hload, hlinear, hrevoked⟩ :=
    allowlist_serializable sampleCodec .linux sampleAllowlist _ hreach hwhole
  exact ⟨al, order, hload, hlinear,
    hrevoked (nodup_singleton _) 0 _ _ _ (revokedForGood_sample _ _ _) 0⟩

/-- The other client's grant is saved over the revocation. -/
def overwritten : AllowlistState := revokedAndAllowed [sampleGrant, otherGrant] 5 7

def cut : AllowlistState where
  file := some []
  calls := [⟨sampleRevoke, 0, .ended (.interrupted 3)⟩]
  clock := 4

/-- A revocation that returned is undone by a call that had loaded before it, and a write
in place that is cut leaves a file that does not load. -/
theorem unseen_change_lost :
    ((allowlistMachine sampleCodec .linux sampleAllowlist).Reachable (fun _ _ => True) overwritten ∧
      RevokedForGood overwritten 0 "victor".toList "example".toList .password ∧
      ∃ al, loadFromPath sampleCodec .linux overwritten.file = some al ∧
        al.isAllowedAt "victor".toList "example".toList .password 0 = true) ∧
    (allowlistMachine sampleCodec .other sampleAllowlist).Reachable (fun _ _ => True) cut ∧
      loadFromPath sampleCodec .other cut.file = none := by
  refine ⟨⟨⟨⟨some (sampleFile sampleAllowlist), [], 0⟩,
    ⟨loadFromPath_sampleAllowlist .linux, rfl⟩, ?_⟩,
    revokedForGood_sample _ _ _, _, loadFromPath_sample (by decide +kernel) .linux,
    by decide +kernel⟩,
    ⟨⟨some (sampleFile sampleAllowlist), [], 0⟩, ⟨loadFromPath_sampleAllowlist .other, rfl⟩, ?_⟩,
    sampleCodec.fromSlice_nil⟩
  · exact Machine.run_of_exec (Machine.allowed_true _ _)
      (exec_overlap (loadFromPath_sampleAllowlist .linux) (sampleRevoke_saved .linux)
        (sampleAllow_saved .linux))
  · exact Machine.run_of_exec (Machine.allowed_true _ _)
      (exec_cut (loadFromPath_sampleAllowlist .other) (sampleRevoke_saved .other))

end SentinelPass.Daemon
