import SentinelPass.Lib.Text

/-!
# Cutting a character off and lowering a text

`trim_matches` and `trim_end_matches` with a character, `to_ascii_lowercase`, and how
they meet: lowering leaves a dot a dot, so it does not matter which is done first
(`trimMatches_lowercase`), and a text cut at its end is cut on both sides as the whole
one is (`trimMatches_trimEndMatches`).
-/

namespace SentinelPass.Lib

open List

/-- `str::trim_end_matches` with a character. -/
def trimEndMatches (c : Char) (t : Text) : Text := t.rdropWhile (· = c)

/-- `str::trim_matches` with a character. -/
def trimMatches (c : Char) (t : Text) : Text := trimEndMatches c (t.dropWhile (· = c))

def toAsciiLowercase (t : Text) : Text := t.map Char.toLower

theorem dropWhile_rdropWhile {α : Type} (p) (l : List α) :
    (l.rdropWhile p).dropWhile p = (l.dropWhile p).rdropWhile p := by
  induction l using reverseRecOn with
  | nil => rfl
  | append_singleton l a ih =>
    by_cases ha : p a
    · rw [rdropWhile_concat_pos _ _ _ ha, ih, dropWhile_append]
      split
      · next h =>
        rw [dropWhile_cons_of_pos ha, isEmpty_iff.mp h]
        rfl
      · rw [rdropWhile_concat_pos _ _ _ ha]
    · rw [rdropWhile_concat_neg _ _ _ ha, dropWhile_append]
      split
      · rw [dropWhile_cons_of_neg ha]
        exact (rdropWhile_concat_neg p [] a ha).symm
      · rw [rdropWhile_concat_neg _ _ _ ha]

theorem trimMatches_trimEndMatches (c t) :
    trimMatches c (trimEndMatches c t) = trimMatches c t := by
  unfold trimMatches trimEndMatches
  rw [dropWhile_rdropWhile, rdropWhile_idempotent]

/-! ## Lower case -/

theorem toLower_cases (c : Char) : (c.toLower = c ∧ ¬ (65 ≤ c.toNat ∧ c.toNat ≤ 90)) ∨
      (c.toLower.toNat = c.toNat + 32 ∧ 65 ≤ c.toNat ∧ c.toNat ≤ 90) := by
  unfold Char.toLower
  simp only [ge_iff_le]
  split
  · next h =>
    refine .inr ⟨?_, h⟩
    have hhi : c.val.toNat ≤ 90 := h.2
    have hoffset : ('a'.val - 'A'.val).toNat = 32 := rfl
    simp only [Char.toNat, UInt32.toNat_add]
    omega
  · next h => exact .inl ⟨rfl, h⟩

theorem toLower_toLower (c : Char) : c.toLower.toLower = c.toLower := by
  rcases toLower_cases c with ⟨h, -⟩ | ⟨h, hlo, hhi⟩
  · rw [h, h]
  · rcases toLower_cases c.toLower with ⟨h', -⟩ | ⟨h', hlo', hhi'⟩
    · exact h'
    omega

theorem toLower_eq_dot {c : Char} : c.toLower = '.' ↔ c = '.' := by
  rcases toLower_cases c with ⟨h, -⟩ | ⟨h, hlo, hhi⟩
  · rw [h]
  · have hdot : ('.' : Char).toNat = 46 := rfl
    constructor
    · intro hc
      rw [hc] at h
      omega
    · rintro rfl
      omega

@[simp] theorem toAsciiLowercase_idem (t : Text) :
    toAsciiLowercase (toAsciiLowercase t) = toAsciiLowercase t := by
  unfold toAsciiLowercase
  rw [map_map]
  exact map_congr_left fun c _ => toLower_toLower c

theorem trimMatches_lowercase (t : Text) :
    trimMatches '.' (toAsciiLowercase t) = toAsciiLowercase (trimMatches '.' t) := by
  have hp : ((fun c => decide (c = '.')) ∘ Char.toLower) = fun c => decide (c = '.') := by
    funext c
    simp [toLower_eq_dot]
  unfold trimMatches trimEndMatches toAsciiLowercase rdropWhile
  rw [dropWhile_map, hp, ← map_reverse, dropWhile_map, hp, ← map_reverse]

end SentinelPass.Lib
