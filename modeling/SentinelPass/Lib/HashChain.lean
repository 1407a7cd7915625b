import Mathlib.Data.List.Chain
import Mathlib.Data.List.Infix

/-!
# Hash chains

A chain is a list of links; each names the hash of the one before it, and the
first one names the start. Where no two links in play have the same hash and none
has the start's, a link fixes everything before it: a chain whose last link
belongs to a chain from the start is a piece of it (`infix_of_last_mem`).
-/

namespace SentinelPass.Lib

open List

universe u v

/-- Links of type `α` with digests of type `δ`. -/
structure HashChain (α : Type u) (δ : Type v) where
  (prev hash : α → δ)

namespace HashChain

variable {α : Type u} {δ : Type v} (C : HashChain α δ)

/-- Each link names the hash of the one before it. -/
def Linked (l : List α) : Prop := l.IsChain fun a b => C.prev b = C.hash a

/-- A chain whose first link names `start`. -/
structure From (start : δ) (l : List α) : Prop where
  linked : C.Linked l
  first : ∀ a ∈ l.head?, C.prev a = start

/-- Among these links hashes are not shared, and none is the start. -/
structure NoCollision (start : δ) (links : List α) : Prop where
  inj : ∀ a ∈ links, ∀ b ∈ links, C.hash a = C.hash b → a = b
  start_ne : ∀ a ∈ links, C.hash a ≠ start

variable {C} {start : δ} {l g g₁ g₂ : List α} {a b : α}

theorem NoCollision.mono {links links' : List α} (h : C.NoCollision start links)
    (hsub : links' ⊆ links) :
    C.NoCollision start links' where
  inj a ha b hb := h.inj a (hsub ha) b (hsub hb)
  start_ne a ha := h.start_ne a (hsub ha)

theorem Linked.left {l₁ l₂ : List α} (h : C.Linked (l₁ ++ l₂)) : C.Linked l₁ :=
  List.IsChain.left_of_append h

/-- The two links at a joint. -/
theorem Linked.joint {l₁ l₂ : List α} (h : C.Linked (l₁ ++ [a] ++ b :: l₂)) :
    C.prev b = C.hash a := by
  rw [append_assoc, singleton_append] at h
  exact (isChain_append_cons_cons.mp h).2.1

/-- A chain that ends with a link of a chain from the start is the stretch of that
chain before the link. -/
theorem suffix_of_last (hg : C.From start (g₁ ++ a :: g₂)) (hl : C.Linked (l ++ [a]))
    (hno : C.NoCollision start (l ++ g₁)) : l <:+ g₁ := by
  induction l using reverseRecOn generalizing a g₁ g₂ with
  | nil => exact nil_suffix
  | append_singleton l x ih =>
    have hx : C.prev a = C.hash x := hl.joint
    have hxmem : x ∈ l ++ [x] ++ g₁ := by simp
    rcases eq_nil_or_concat' g₁ with rfl | ⟨g₁, z, rfl⟩
    · -- the first link of the other chain names the start, which is no hash
      have hstart : C.prev a = start := hg.first a rfl
      exact absurd (hx.symm.trans hstart) (hno.start_ne x hxmem)
    · have hz : C.prev a = C.hash z := hg.linked.joint
      have hzmem : z ∈ l ++ [x] ++ (g₁ ++ [z]) := by simp
      obtain rfl : x = z := hno.inj x hxmem z hzmem (hx.symm.trans hz)
      rw [append_assoc, singleton_append] at hg
      have hfewer : l ++ g₁ ⊆ l ++ [x] ++ (g₁ ++ [x]) := by
        intro c hc
        simp only [mem_append] at hc ⊢
        tauto
      obtain ⟨front, hfront⟩ := ih hg hl.left (hno.mono hfewer)
      exact ⟨front, by rw [← append_assoc, hfront]⟩

/-- **A chain is fixed by its last link.** -/
theorem infix_of_last_mem (hg : C.From start g) (hl : C.Linked (l ++ [a])) (ha : a ∈ g)
    (hno : C.NoCollision start (l ++ g)) : l ++ [a] <:+: g := by
  obtain ⟨g₁, g₂, rfl⟩ := append_of_mem ha
  have hfewer : l ++ g₁ ⊆ l ++ (g₁ ++ a :: g₂) := by
    intro c hc
    simp only [mem_append] at hc ⊢
    tauto
  obtain ⟨front, rfl⟩ := suffix_of_last hg hl (hno.mono hfewer)
  exact ⟨front, g₂, by simp⟩

end HashChain

end SentinelPass.Lib
