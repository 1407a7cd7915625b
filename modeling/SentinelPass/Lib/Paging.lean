import Mathlib.Data.List.Sort
import Mathlib.Data.List.Infix
import Mathlib.Order.Basic

/-!
# Pages of a sorted log

A reader that asks for at most `n` entries above a position and then moves its
position to the last entry it got. `mem_page_of_le` says that this skips
nothing: on a log whose keys increase, every entry between the old position and
the new one was in the page. `lt_of_isPrefix` is the other half: entries a log
grows by lie above every entry it had.

`chunks` is the writer's side, a list cut into requests of bounded size.
-/

namespace SentinelPass.Lib

open List

variable {α κ : Type} [LinearOrder κ] (key : α → κ)

/-- At most `n` entries above `since`, in the order of the log. -/
def page (since : κ) (n : Nat) (log : List α) : List α :=
  (log.filter fun a => since < key a).take n

variable {key} {n : Nat}

theorem mem_page {since log a} (h : a ∈ page key since n log) : a ∈ log ∧ since < key a := by
  simpa using mem_of_mem_take h

/-- Every entry above `since` and not above the last entry of the page is in the
page. -/
theorem mem_page_of_le {since : κ} {n : Nat} {log : List α}
    (hsorted : log.Pairwise fun a b => key a < key b) {last : α}
    (hlast : (page key since n log).getLast? = some last) {a : α} (ha : a ∈ log)
    (hsince : since < key a) (hle : key a ≤ key last) : a ∈ page key since n log := by
  have hmem : a ∈ log.filter fun a => since < key a := mem_filter.mpr ⟨ha, by simpa⟩
  rw [← take_append_drop n (log.filter fun a => since < key a), mem_append] at hmem
  rcases hmem with htake | hdrop
  · exact htake
  -- what the page cut off lies above its last entry
  have hsplit := hsorted.filter fun a => since < key a
  rw [← take_append_drop n (log.filter fun a => since < key a)] at hsplit
  have habove := (pairwise_append.mp hsplit).2.2 last (mem_of_getLast? hlast) a hdrop
  exact absurd hle (not_le.mpr habove)

theorem filter_above_last {front rest : List α} {last : α}
    (hsorted : (front ++ rest).Pairwise fun a b => key a < key b)
    (hlast : front.getLast? = some last) :
    ((front ++ rest).filter fun a => key last < key a) = rest := by
  obtain ⟨init, rfl⟩ := getLast?_eq_some_iff.mp hlast
  obtain ⟨hfront, -, habove⟩ := pairwise_append.mp hsorted
  rw [filter_append, filter_eq_nil_iff.mpr, filter_eq_self.mpr, nil_append]
  · exact fun a ha => decide_eq_true (habove last (by simp) a ha)
  · intro a ha
    rw [decide_eq_true_iff, not_lt]
    rcases mem_append.mp ha with ha | ha
    · exact ((pairwise_append.mp hfront).2.2 a ha last (mem_singleton_self _)).le
    · exact (mem_singleton.mp ha ▸ le_refl _)

theorem filter_above_page {since : κ} {n : Nat} {log : List α}
    (hsorted : log.Pairwise fun a b => key a < key b) {last : α}
    (hlast : (page key since n log).getLast? = some last) :
    (log.filter fun a => key last < key a) = (log.filter fun a => since < key a).drop n := by
  have hsince := (mem_page (mem_of_getLast? hlast)).2
  have hfilter : (log.filter fun a => key last < key a)
      = (log.filter fun a => since < key a).filter fun a => key last < key a := by
    rw [filter_filter]
    refine filter_congr fun a _ => ?_
    rw [Bool.eq_iff_iff, Bool.and_eq_true, decide_eq_true_iff, decide_eq_true_iff]
    exact ⟨fun h => ⟨h, hsince.trans h⟩, And.left⟩
  have hsplit := hsorted.filter fun a => since < key a
  rw [← take_append_drop n (log.filter fun a => since < key a)] at hsplit
  rw [hfilter, ← take_append_drop n (log.filter fun a => since < key a),
    filter_above_last hsplit hlast, take_append_drop]

/-- A page that is full and what lies above its last entry, also in a log that has grown since,
are everything above the reader's position. -/
theorem page_append_above {since : κ} {n : Nat} {old new : List α} (hgrow : old <+: new)
    (hsorted : new.Pairwise fun a b => key a < key b)
    (hfull : n ≤ (old.filter fun a => since < key a).length) {last : α}
    (hlast : (page key since n old).getLast? = some last) :
    page key since n old ++ (new.filter fun a => key last < key a)
      = new.filter fun a => since < key a := by
  have hsame : page key since n old = page key since n new := by
    obtain ⟨rest, rfl⟩ := hgrow
    unfold page
    rw [filter_append, take_append_of_le_length hfull]
  rw [hsame] at hlast ⊢
  rw [filter_above_page hsorted hlast]
  exact take_append_drop n _

/-- A log grows at its end: a new entry lies above every old one. -/
theorem lt_of_isPrefix (key : α → κ) {old new : List α} (hgrow : old <+: new)
    (hsorted : new.Pairwise fun a b => key a < key b) {a b : α} (ha : a ∈ old) (hb : b ∈ new)
    (hnew : b ∉ old) : key a < key b := by
  obtain ⟨rest, rfl⟩ := hgrow
  have hrest : b ∈ rest := (mem_append.mp hb).resolve_left hnew
  exact (pairwise_append.mp hsorted).2.2 a ha b hrest

/-- A list cut into pieces of `n` elements, the last one possibly shorter. -/
def chunks {α : Type} (n : Nat) (l : List α) : List (List α) :=
  (range ((l.length + n - 1) / n)).map fun i => (l.drop (i * n)).take n

theorem mem_of_mem_chunks {α : Type} {l c : List α} {a : α} (hc : c ∈ chunks n l) (ha : a ∈ c) :
    a ∈ l := by
  obtain ⟨i, -, rfl⟩ := mem_map.mp hc
  exact mem_of_mem_drop (mem_of_mem_take ha)

theorem length_le_of_mem_chunks {α : Type} {l c : List α} (hc : c ∈ chunks n l) :
    c.length ≤ n := by
  obtain ⟨i, -, rfl⟩ := mem_map.mp hc
  exact length_take_le _ _

/-- The first pieces are what the list starts with. -/
theorem flatten_pieces {α : Type} (n : Nat) (l : List α) (k : Nat) :
    ((range k).map fun i => (l.drop (i * n)).take n).flatten = l.take (k * n) := by
  induction k with
  | zero => simp
  | succ k ih =>
    rw [range_succ, map_append, flatten_append, ih, Nat.succ_mul, take_add]
    simp

theorem flatten_chunks {α : Type} (hn : 0 < n) (l : List α) : (chunks n l).flatten = l := by
  unfold chunks
  rw [flatten_pieces]
  apply take_of_length_le
  have hdiv := Nat.lt_div_mul_add (a := l.length + n - 1) hn
  omega

/-- The first piece starts as the list does. -/
theorem chunks_cons {α : Type} {n : Nat} (hn : 0 < n) (a : α) (l : List α) :
    ∃ c css, chunks n (a :: l) = (a :: c) :: css := by
  obtain ⟨k, hk⟩ : ∃ k, ((a :: l).length + n - 1) / n = k + 1 := by
    refine Nat.exists_eq_succ_of_ne_zero (Nat.div_pos ?_ hn).ne'
    rw [length_cons]
    omega
  obtain ⟨m, rfl⟩ := Nat.exists_eq_succ_of_ne_zero hn.ne'
  unfold chunks
  rw [hk, range_succ_eq_map, map_cons, Nat.zero_mul, drop_zero]
  exact ⟨_, _, rfl⟩

end SentinelPass.Lib
