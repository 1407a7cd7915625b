import Mathlib.Data.List.Sort
import SentinelPass.Lib.Text

/-!
# Stable sorting and the first match

`insertionSort` is stable: elements that its relation does not tell apart stay in
the order they had, so a sorted list that is sorted again is in lexicographic order
(`pairwise_insertionSort_thenBy`). In such a list the first match is the least one
(`find?_eq_some_iff_least`).

`textLe` is the order in which texts are compared.
-/

namespace SentinelPass.Lib

open List

section Stable

variable {α : Type}

/-- By `r`, and by `s` where `r` holds both ways. -/
def ThenBy (r s : α → α → Prop) (a b : α) : Prop := r a b ∧ (r b a → s a b)

variable {r s : α → α → Prop} [DecidableRel r] [Std.Total r] [IsTrans α r]

theorem pairwise_orderedInsert_thenBy {a : α} {l : List α} (hl : l.Pairwise (ThenBy r s))
    (ha : ∀ b ∈ l, s a b) : (l.orderedInsert r a).Pairwise (ThenBy r s) := by
  induction l with
  | nil => exact pairwise_singleton _ a
  | cons b l ih =>
    rw [pairwise_cons] at hl
    rw [orderedInsert_cons]
    split
    · next hab =>
      refine pairwise_cons.mpr ⟨?_, pairwise_cons.mpr hl⟩
      intro c hc
      refine ⟨?_, fun _ => ha c hc⟩
      rcases mem_cons.mp hc with rfl | hc
      · exact hab
      exact trans_of r hab (hl.1 c hc).1
    · next hab =>
      refine pairwise_cons.mpr ⟨?_, ih hl.2 fun c hc => ha c (mem_cons_of_mem b hc)⟩
      intro c hc
      rcases (mem_orderedInsert r).mp hc with rfl | hc
      · exact ⟨(total_of r _ _).resolve_left hab, fun h => absurd h hab⟩
      · exact hl.1 c hc

theorem pairwise_insertionSort_thenBy {l : List α} (hl : l.Pairwise s) :
    (l.insertionSort r).Pairwise (ThenBy r s) := by
  induction l with
  | nil => exact List.Pairwise.nil
  | cons a l ih =>
    rw [pairwise_cons] at hl
    refine pairwise_orderedInsert_thenBy (ih hl.2) fun b hb => hl.1 b ?_
    exact (mem_insertionSort r).mp hb

end Stable

/-- The first match of an ordered list is the least one. -/
theorem find?_eq_some_iff_least {α : Type} {r : α → α → Prop} {p : α → Bool} {l : List α}
    (hl : l.Pairwise r) (hanti : ∀ a ∈ l, ∀ b ∈ l, r a b → r b a → a = b) {a : α} :
    l.find? p = some a ↔ a ∈ l ∧ p a ∧ ∀ b ∈ l, p b → b = a ∨ r a b := by
  induction l with
  | nil => simp
  | cons c l ih =>
    rw [pairwise_cons] at hl
    have ih := ih hl.2 fun x hx y hy =>
      hanti x (mem_cons_of_mem c hx) y (mem_cons_of_mem c hy)
    by_cases hc : p c
    · rw [find?_cons_of_pos hc, Option.some.injEq]
      constructor
      · rintro rfl
        refine ⟨mem_cons_self, hc, fun b hb _ => ?_⟩
        exact (mem_cons.mp hb).imp id (hl.1 b)
      · rintro ⟨ha, -, hleast⟩
        rcases hleast c mem_cons_self hc with h | hac
        · exact h
        rcases mem_cons.mp ha with rfl | hal
        · rfl
        exact hanti c mem_cons_self a ha (hl.1 a hal) hac
    · rw [find?_cons_of_neg hc, ih]
      have hcp : ∀ b, p b → (b ∈ c :: l ↔ b ∈ l) := fun b hb => by
        rw [mem_cons, or_iff_right]
        rintro rfl
        exact hc hb
      constructor
      · rintro ⟨ha, hpa, hleast⟩
        exact ⟨(hcp a hpa).mpr ha, hpa, fun b hb hpb => hleast b ((hcp b hpb).mp hb) hpb⟩
      · rintro ⟨ha, hpa, hleast⟩
        exact ⟨(hcp a hpa).mp ha, hpa, fun b hb hpb => hleast b ((hcp b hpb).mpr hb) hpb⟩

theorem findSome?_eq_bind_find? {α β : Type} (f : α → Option β) (l : List α) :
    l.findSome? f = (l.find? fun a => (f a).isSome).bind f := by
  induction l with
  | nil => rfl
  | cons a l ih =>
    cases ha : f a with
    | none => rw [findSome?_cons, find?_cons_of_neg (by simp [ha]), ha, ih]
    | some b => rw [findSome?_cons, find?_cons_of_pos (by simp [ha]), ha,
        Option.bind_some, ha]

/-! ## Texts -/

/-- `str::cmp`, not greater. The order of the UTF-8 bytes is that of the characters. -/
def textLe : Text → Text → Bool
  | [], _ => true
  | _ :: _, [] => false
  | a :: s, b :: t => a.toNat < b.toNat || (a.toNat = b.toNat && textLe s t)

theorem textLe_total (s t : Text) : textLe s t ∨ textLe t s := by
  induction s, t using textLe.induct with
  | case1 t => exact .inl rfl
  | case2 a s => exact .inr rfl
  | case3 a s b t ih =>
    simp only [textLe, Bool.or_eq_true, Bool.and_eq_true, decide_eq_true_eq]
    rcases Nat.lt_trichotomy a.toNat b.toNat with hlt | heq | hgt
    · exact .inl (.inl hlt)
    · exact ih.imp (fun h => .inr ⟨heq, h⟩) fun h => .inr ⟨heq.symm, h⟩
    · exact .inr (.inl hgt)

theorem textLe_trans {s t u : Text} (hst : textLe s t) (htu : textLe t u) : textLe s u := by
  induction s, t using textLe.induct generalizing u with
  | case1 t => rfl
  | case2 a s => cases hst
  | case3 a s b t ih =>
    cases u with
    | nil => cases htu
    | cons c u =>
      simp only [textLe, Bool.or_eq_true, Bool.and_eq_true, decide_eq_true_eq] at hst htu ⊢
      rcases hst with hst | ⟨hab, hst⟩
      · omega
      · rcases htu with htu | ⟨hbc, htu⟩
        · omega
        · exact .inr ⟨hab.trans hbc, ih hst htu⟩

end SentinelPass.Lib
