import Mathlib.Data.Int.Log
import Mathlib.Data.Rat.Floor
import Mathlib.Tactic.Linarith

/-!
# Double precision

A number is kept with 53 significant bits and rounded to the nearest, ties to even. The
exponent has no bounds here, so `f64` is the machine's rounding of every number that
neither overflows nor is subnormal.
-/

namespace SentinelPass.Lib

/-- The nearest integer, and the even one of two. -/
def roundEven (x : ℚ) : ℤ :=
  let q := ⌊x⌋
  if x - q < 1 / 2 ∨ x - q = 1 / 2 ∧ q % 2 = 0 then q else q + 1

/-- What the last of the 53 bits of a number is worth. -/
def ulp (x : ℚ) : ℚ := 2 ^ (Int.log 2 x - 52)

/-- Round to 53 bits. -/
def f64 (x : ℚ) : ℚ := roundEven (x / ulp x) * ulp x

/-- The largest relative error of one rounding. -/
def unitRoundoff : ℚ := 1 / 2 ^ 53

theorem unitRoundoff_nonneg : 0 ≤ unitRoundoff := by
  norm_num [unitRoundoff]

theorem ulp_pos (x : ℚ) : 0 < ulp x := zpow_pos (by norm_num) _

theorem roundEven_le (x : ℚ) : (roundEven x : ℚ) ≤ x + 1 / 2 := by
  have hfloor := Int.floor_le x
  unfold roundEven
  dsimp only
  split
  · linarith
  · next hup =>
    have hhalf : 1 / 2 ≤ x - ⌊x⌋ := not_lt.mp fun hlt => hup (.inl hlt)
    push_cast
    linarith

theorem roundEven_nonneg {x : ℚ} (hx : 0 ≤ x) : 0 ≤ roundEven x := by
  have hfloor : 0 ≤ ⌊x⌋ := Int.floor_nonneg.mpr hx
  unfold roundEven
  dsimp only
  split <;> omega

theorem f64_nonneg {x : ℚ} (hx : 0 ≤ x) : 0 ≤ f64 x := by
  have hround := roundEven_nonneg (div_nonneg hx (ulp_pos x).le)
  exact mul_nonneg (Int.cast_nonneg hround) (ulp_pos x).le

/-- Rounding makes a number at most half a unit in its last place larger. -/
theorem f64_le {x : ℚ} (hx : 0 ≤ x) : f64 x ≤ (1 + unitRoundoff) * x := by
  rcases hx.eq_or_lt with rfl | hpos
  · rw [mul_zero]
    decide +kernel
  have hlog : (2 : ℚ) ^ Int.log 2 x ≤ x := Int.zpow_log_le_self (by norm_num) hpos
  have hhalf : 1 / 2 * ulp x = unitRoundoff * 2 ^ Int.log 2 x := by
    rw [ulp, zpow_sub₀ two_ne_zero, unitRoundoff]
    norm_num
    ring
  calc f64 x ≤ (x / ulp x + 1 / 2) * ulp x :=
        mul_le_mul_of_nonneg_right (roundEven_le _) (ulp_pos x).le
    _ = x + unitRoundoff * 2 ^ Int.log 2 x := by
        rw [add_mul, div_mul_cancel₀ _ (ulp_pos x).ne', hhalf]
    _ ≤ (1 + unitRoundoff) * x := by
        have := mul_le_mul_of_nonneg_left hlog unitRoundoff_nonneg
        linarith

/-- `Duration::as_secs_f64`: the whole seconds and the nanoseconds are converted apart. -/
def asSecsF64 (d : ℚ) : ℚ := f64 (f64 ⌊d⌋ + f64 (Int.fract d))

theorem asSecsF64_nonneg {d : ℚ} (hd : 0 ≤ d) : 0 ≤ asSecsF64 d := by
  have hwhole : (0 : ℚ) ≤ ⌊d⌋ := Int.cast_nonneg (Int.floor_nonneg.mpr hd)
  exact f64_nonneg (add_nonneg (f64_nonneg hwhole) (f64_nonneg (Int.fract_nonneg d)))

theorem asSecsF64_le {d : ℚ} (hd : 0 ≤ d) : asSecsF64 d ≤ (1 + unitRoundoff) ^ 2 * d := by
  have hwhole : (0 : ℚ) ≤ ⌊d⌋ := Int.cast_nonneg (Int.floor_nonneg.mpr hd)
  have hfract := Int.fract_nonneg d
  have hu := unitRoundoff_nonneg
  calc asSecsF64 d ≤ (1 + unitRoundoff) * (f64 ⌊d⌋ + f64 (Int.fract d)) :=
        f64_le (add_nonneg (f64_nonneg hwhole) (f64_nonneg hfract))
    _ ≤ (1 + unitRoundoff) * ((1 + unitRoundoff) * ⌊d⌋ + (1 + unitRoundoff) * Int.fract d) :=
        mul_le_mul_of_nonneg_left (add_le_add (f64_le hwhole) (f64_le hfract)) (by linarith)
    _ = (1 + unitRoundoff) ^ 2 * (⌊d⌋ + Int.fract d) := by ring
    _ = (1 + unitRoundoff) ^ 2 * d := by rw [Int.floor_add_fract]

end SentinelPass.Lib
