import Mathlib.Algebra.Order.Ring.Int

/-!
# Casts and maxima of 64-bit words

Facts about `u64`/`i64` casts, about `max` and about the successor on `i64` that
programs with counters in both types need.
-/

namespace SentinelPass.Lib

/-- A `u64` in the lower half is the same number as an `i64`. -/
theorem toInt_toInt64_of_lt {v : UInt64} (h : v.toNat < 2 ^ 63) : v.toInt64.toInt = v.toNat := by
  rw [← Int64.toInt_toBitVec, UInt64.toBitVec_toInt64, BitVec.toInt_eq_toNat_of_lt]
  · simp
  · simp
    omega

/-- A non-negative `i64` is the same number as a `u64`. -/
theorem toNat_toUInt64_of_nonneg {v : Int64} (h : 0 ≤ v.toInt) :
    (v.toUInt64.toNat : Int) = v.toInt := by
  have hlt : v.toUInt64.toNat < 2 ^ 63 := by
    have hcond := Int64.toInt_toBitVec v
    rw [BitVec.toInt_eq_toNat_cond] at hcond
    have hnat : v.toUInt64.toNat = v.toBitVec.toNat := rfl
    split at hcond <;> omega
  simpa using (toInt_toInt64_of_lt hlt).symm

/-- The larger of two `i64` is one of them. -/
theorem max_eq_or (a b : Int64) : max a b = a ∨ max a b = b := by
  change (if a ≤ b then b else a) = a ∨ (if a ≤ b then b else a) = b
  split
  · exact .inr rfl
  exact .inl rfl

theorem max_eq_left_of_le {a b : Int64} (h : b ≤ a) : max a b = a := by
  change (if a ≤ b then b else a) = a
  split
  · next hab => exact Int64.le_antisymm h hab
  · rfl

/-- Below the largest `i64` the successor does not wrap. -/
theorem toInt_add_one_of_ne {v : Int64} (h : v ≠ Int64.maxValue) : (v + 1).toInt = v.toInt + 1 := by
  have hlo := v.le_toInt
  have hhi := v.toInt_lt
  have hne : v.toInt ≠ 2 ^ 63 - 1 := fun he => h (Int64.toInt_inj.mp (by rw [he]; rfl))
  have hone : (1 : Int64).toInt = 1 := rfl
  rw [Int64.toInt_add, hone]
  exact Int.bmod_eq_of_le (by omega) (by omega)

/-- What has a successor is not the largest. -/
theorem ne_maxValue_of_lt {a b : Int64} (h : a.toInt < b.toInt) : a ≠ Int64.maxValue := by
  rintro rfl
  have hbound := b.toInt_lt
  have hval : Int64.maxValue.toInt = 2 ^ 63 - 1 := rfl
  omega

end SentinelPass.Lib
