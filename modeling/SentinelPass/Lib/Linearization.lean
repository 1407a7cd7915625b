import SentinelPass.Lib.Table

/-!
# Linearizations

Calls on a shared object overlap: each has a time at which it was invoked and, once it
is over, a time at which it ended and how. A linearization lists the calls that took
effect, one after another, so that

* every call that returned is listed, and no call that was refused is;
* a call that was over before another was invoked is not listed after it;
* the object holds what the listed calls, run alone in this order, leave behind.

A call that was interrupted may be listed or not.
-/

namespace SentinelPass.Lib

open List

/-- How a call stands. -/
inductive Outcome
  | running
  | returned (time : Nat)
  | refused (time : Nat)
  | interrupted (time : Nat)

/-- When a call was over. -/
def Outcome.endedAt : Outcome → Option Nat
  | running => none
  | returned time | refused time | interrupted time => some time

/-- A call of the operation `op`. -/
structure CallRecord (ω : Type) where
  op : ω
  invoked : Nat
  outcome : Outcome

section

variable {ω σ : Type} {apply : σ → ω → Option σ} {calls calls' : Nat → Option (CallRecord ω)}
  {start final : σ} {order : List (Nat × ω)} {i : Nat} {r : CallRecord ω}

/-- `a` was over before `b` was invoked. -/
def Precedes (calls : Nat → Option (CallRecord ω)) (a b : Nat) : Prop :=
  ∃ ra rb time, calls a = some ra ∧ calls b = some rb ∧ ra.outcome.endedAt = some time ∧
    time < rb.invoked

/-- The listed calls explain what the object holds. -/
structure Linearizes (apply : σ → ω → Option σ) (calls : Nat → Option (CallRecord ω)) (start : σ)
    (order : List (Nat × ω)) (final : σ) : Prop where
  nodup : (order.map Prod.fst).Nodup
  listed : ∀ {i op}, (i, op) ∈ order →
    ∃ r, calls i = some r ∧ r.op = op ∧ ∀ time, r.outcome ≠ .refused time
  complete : ∀ {i r time}, calls i = some r → r.outcome = .returned time → (i, r.op) ∈ order
  realTime : order.Pairwise fun a b => ¬ Precedes calls b.1 a.1
  effect : (order.map Prod.snd).foldlM apply start = some final

theorem Linearizes.nil (hnone : ∀ i, calls i = none) : Linearizes apply calls start [] start where
  nodup := nodup_nil
  listed h := absurd h (not_mem_nil)
  complete h := by
    rw [hnone] at h
    cases h
  realTime := List.Pairwise.nil
  effect := rfl

section

variable (h : Linearizes apply calls start order final)

include h

/-- A running call takes effect. -/
theorem Linearizes.commit (hi : calls i = some r) (hrunning : r.outcome = .running)
    (hfresh : i ∉ order.map Prod.fst) {next : σ} (happly : apply final r.op = some next) :
    Linearizes apply calls start (order ++ [(i, r.op)]) next where
  nodup := by
    rw [map_append, map_singleton]
    exact nodup_append_singleton h.nodup hfresh
  listed hmem := by
    rcases mem_append.mp hmem with hold | hnew
    · exact h.listed hold
    · cases mem_singleton.mp hnew
      exact ⟨r, hi, rfl, fun time => by rw [hrunning]; exact Outcome.noConfusion⟩
  complete hj hret := mem_append_left _ (h.complete hj hret)
  realTime := by
    refine pairwise_append.mpr ⟨h.realTime, pairwise_singleton _ _, fun a _ b hb => ?_⟩
    rw [mem_singleton.mp hb]
    rintro ⟨ra, rb, time, hra, -, hended, -⟩
    rw [hi] at hra
    cases hra
    rw [hrunning] at hended
    cases hended
  effect := by
    rw [map_append, foldlM_append, h.effect]
    show (some final).bind _ = some next
    rw [Option.bind_some, map_singleton, foldlM_cons, happly]
    rfl

/-- A call is invoked. -/
theorem Linearizes.invoke (hi : calls i = none) (hi' : calls' i = some r)
    (hrunning : r.outcome = .running) (hothers : ∀ j, j ≠ i → calls' j = calls j) :
    Linearizes apply calls' start order final where
  nodup := h.nodup
  listed {j op} hmem := by
    obtain ⟨rj, hj, hrest⟩ := h.listed hmem
    refine ⟨rj, ?_, hrest⟩
    rw [hothers j (fun hji => by rw [hji, hi] at hj; cases hj), hj]
  complete {j rj time} hj hret := by
    by_cases hji : j = i
    · rw [hji, hi'] at hj
      cases hj
      rw [hrunning] at hret
      cases hret
    · rw [hothers j hji] at hj
      exact h.complete hj hret
  realTime := by
    refine h.realTime.imp_of_mem fun {a b} ha hb hnot hprec => hnot ?_
    obtain ⟨rb, ra, time, hrb, hra, hended, hlt⟩ := hprec
    obtain ⟨_, hoa, -⟩ := h.listed ha
    obtain ⟨_, hob, -⟩ := h.listed hb
    rw [hothers _ (fun hai => by rw [hai, hi] at hoa; cases hoa)] at hra
    rw [hothers _ (fun hbi => by rw [hbi, hi] at hob; cases hob)] at hrb
    exact ⟨rb, ra, time, hrb, hra, hended, hlt⟩
  effect := h.effect

/-- A call goes on, or ends now: after all that were invoked. -/
theorem Linearizes.progress {outcome : Outcome} (hi : calls i = some r)
    (hi' : calls' i = some { r with outcome }) (hothers : ∀ j, j ≠ i → calls' j = calls j)
    (hend : ∀ time, outcome.endedAt = some time → ∀ j rj, calls j = some rj → rj.invoked ≤ time)
    (hreturned : ∀ time, outcome = .returned time → (i, r.op) ∈ order)
    (hrefused : ∀ time, outcome = .refused time → i ∉ order.map Prod.fst) :
    Linearizes apply calls' start order final := by
  have hsame : ∀ {j rj}, calls' j = some rj →
      ∃ old, calls j = some old ∧ old.op = rj.op ∧ old.invoked = rj.invoked ∧
      (j ≠ i → old = rj) := by
    intro j rj hj
    by_cases hji : j = i
    · rw [hji, hi'] at hj
      cases hj
      exact ⟨r, by rw [hji, hi], rfl, rfl, fun hne => absurd hji hne⟩
    · rw [hothers j hji] at hj
      exact ⟨rj, hj, rfl, rfl, fun _ => rfl⟩
  refine ⟨h.nodup, ?_, ?_, ?_, h.effect⟩
  · intro j op hmem
    obtain ⟨rj, hj, hop, hnot⟩ := h.listed hmem
    by_cases hji : j = i
    · rw [hji, hi] at hj
      cases hj
      refine ⟨{ r with outcome }, by rw [hji, hi'], hop, fun time hout => ?_⟩
      exact hrefused time hout (mem_map.mpr ⟨(j, op), hmem, hji⟩)
    · exact ⟨rj, by rw [hothers j hji, hj], hop, hnot⟩
  · intro j rj time hj hret
    by_cases hji : j = i
    · rw [hji, hi'] at hj
      cases hj
      rw [hji]
      exact hreturned time hret
    · rw [hothers j hji] at hj
      exact h.complete hj hret
  · refine h.realTime.imp fun {a b} hnot hprec => hnot ?_
    obtain ⟨rb, ra, time, hrb, hra, hended, hlt⟩ := hprec
    obtain ⟨olda, hoa, -, hinvoked, -⟩ := hsame hra
    obtain ⟨oldb, hob, -, -, hrest⟩ := hsame hrb
    by_cases hbi : b.1 = i
    · -- the call that ends now precedes nothing yet
      rw [hbi, hi'] at hrb
      cases hrb
      have := hend time hended _ _ hoa
      omega
    · rw [hrest hbi] at hob
      exact ⟨rb, olda, time, hob, hoa, hended, by rw [hinvoked]; exact hlt⟩

end

end

end SentinelPass.Lib
