import Mathlib.Data.List.Induction
import Mathlib.Order.Basic

/-!
# Logs of a compare-and-swap register

A register that accepts a write `(expected, resulting)` only when it holds
`expected` leaves a log in which each write expects what the one before it
left. `CasChain base l` says so for a log `l` of a register that started at
`base` and only moves up; `casHead base l` is what the register holds after it.
-/

namespace SentinelPass.Lib

open List

variable {α : Type*}

/-- Each write expects what the previous one left, and moves up. -/
def CasChain [LT α] : α → List (α × α) → Prop
  | _, [] => True
  | base, w :: rest => w.1 = base ∧ w.1 < w.2 ∧ CasChain w.2 rest

/-- What the register holds after the log. -/
def casHead : α → List (α × α) → α
  | base, [] => base
  | _, w :: rest => casHead w.2 rest

@[simp] theorem casHead_concat (base l) (w : α × α) : casHead base (l ++ [w]) = w.2 := by
  induction l generalizing base with
  | nil => rfl
  | cons x rest ih => exact ih x.2

theorem casHead_eq_getLast (base : α) (l : List (α × α)) :
    casHead base l = (l.getLast?.map Prod.snd).getD base := by
  induction l using reverseRecOn with
  | nil => rfl
  | append_singleton l w _ => simp

/-- A log grows exactly by the writes that pass the guard. -/
theorem casChain_concat [LT α] {base : α} {l : List (α × α)} {w : α × α} :
    CasChain base (l ++ [w]) ↔ CasChain base l ∧ w.1 = casHead base l ∧ w.1 < w.2 := by
  induction l generalizing base with
  | nil => simp [CasChain, casHead]
  | cons x rest ih =>
    simp only [cons_append, CasChain, ih]
    tauto

namespace CasChain

variable [Preorder α] {base : α} {l : List (α × α)}

theorem base_le_head (h : CasChain base l) : base ≤ casHead base l := by
  induction l generalizing base with
  | nil => exact le_refl _
  | cons x rest ih =>
    obtain ⟨hx, hlt, hrest⟩ := h
    exact hx ▸ (le_of_lt hlt).trans (ih hrest)

/-- Every logged version lies above the base. -/
theorem base_lt (h : CasChain base l) {w : α × α} (hw : w ∈ l) : base < w.2 := by
  induction l generalizing base with
  | nil => cases hw
  | cons x rest ih =>
    obtain ⟨hx, hlt, hrest⟩ := h
    rcases mem_cons.mp hw with rfl | hw
    · exact hx ▸ hlt
    · exact hx ▸ hlt.trans (ih hrest hw)

/-- Every logged version lies at or below the head. -/
theorem le_head (h : CasChain base l) {w : α × α} (hw : w ∈ l) : w.2 ≤ casHead base l := by
  induction l generalizing base with
  | nil => cases hw
  | cons x rest ih =>
    rcases mem_cons.mp hw with rfl | hw
    · exact base_le_head h.2.2
    · exact ih h.2.2 hw

/-- Resulting versions strictly increase along the log. -/
theorem pairwise (h : CasChain base l) : l.Pairwise fun a b => a.2 < b.2 := by
  induction l generalizing base with
  | nil => exact .nil
  | cons x rest ih =>
    exact .cons (fun w hw => base_lt h.2.2 hw) (ih h.2.2)

end CasChain

/-- Where a key strictly increases along a list, it determines the element. -/
theorem eq_of_pairwise_lt {β : Type*} [Preorder α] {key : β → α} {l : List β}
    (h : l.Pairwise fun a b => key a < key b) {a b : β} (ha : a ∈ l) (hb : b ∈ l)
    (hk : key a = key b) :
    a = b := by
  induction l with
  | nil => cases ha
  | cons x rest ih =>
    rw [pairwise_cons] at h
    rcases mem_cons.mp ha with rfl | ha'
    · rcases mem_cons.mp hb with rfl | hb'
      · rfl
      exact absurd (h.1 b hb') (hk ▸ lt_irrefl _)
    · rcases mem_cons.mp hb with rfl | hb'
      · exact absurd (h.1 a ha') (hk ▸ lt_irrefl _)
      exact ih h.2 ha' hb'

end SentinelPass.Lib
