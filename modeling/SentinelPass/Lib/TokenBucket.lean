import SentinelPass.Lib.Float64

/-!
# Token buckets

A bucket holds at most `capacity` tokens, gets `rate` of them back per unit of time
and gives one away at a time; its numbers are doubles. `WindowInv` is the invariant behind
the rate it enforces: what was given away since the window opened, together with what the
bucket still holds, is at most what it could hold then, what came back since and what the
`looks` at the bucket can have added by rounding.
-/

namespace SentinelPass.Lib

/-- A bucket, as it was when it was last looked at. -/
structure Bucket where
  (tokens lastRefill : ℚ)

namespace Bucket

/-- The tokens at a time; a clock that stands still or goes back brings none. -/
def refilled (capacity rate now : ℚ) (b : Bucket) : ℚ :=
  min (f64 (b.tokens + f64 (asSecsF64 (max 0 (now - b.lastRefill)) * rate))) capacity

/-- Take one token, if there is one. -/
def take (capacity rate now : ℚ) (b : Bucket) : Bool × Bucket :=
  let tokens := b.refilled capacity rate now
  if 1 ≤ tokens then (true, ⟨f64 (tokens - 1), now⟩) else (false, ⟨tokens, now⟩)

end Bucket

/-- The rate with the error of the four roundings of a refill. -/
def roundedRate (rate : ℚ) : ℚ := (1 + unitRoundoff) ^ 4 * rate

/-- What the two roundings of a bucket's tokens can add in one look at it. -/
def lookSlack (capacity : ℚ) : ℚ := 2 * (unitRoundoff * capacity)

/-- How a bucket bounds the `n` tokens it gave away in the window of length `t` that opens
at `start`. -/
structure WindowInv (capacity rate start t : ℚ) (n looks : ℕ) (b : Bucket) : Prop where
  nonneg : 0 ≤ b.tokens
  le_capacity : b.tokens ≤ capacity
  bounded : (n : ℚ) ≤ capacity + roundedRate rate * t + lookSlack capacity * looks
  before : b.lastRefill < start → n = 0
  since : start ≤ b.lastRefill → b.lastRefill ≤ start + t →
    n + b.tokens ≤ capacity + roundedRate rate * (b.lastRefill - start) + lookSlack capacity * looks

section Window

variable {capacity rate start t now : ℚ} {n looks : ℕ} {b : Bucket}

theorem roundedRate_nonneg (hrate : 0 ≤ rate) : 0 ≤ roundedRate rate :=
  mul_nonneg (pow_nonneg (by linarith [unitRoundoff_nonneg]) 4) hrate

theorem lookSlack_nonneg (hcap : 0 ≤ capacity) : 0 ≤ lookSlack capacity :=
  mul_nonneg two_pos.le (mul_nonneg unitRoundoff_nonneg hcap)

/-- A full bucket that nothing was taken from. -/
theorem WindowInv.full (hcap : 0 ≤ capacity) (hrate : 0 ≤ rate) (ht : 0 ≤ t) :
    WindowInv capacity rate start t 0 looks ⟨capacity, now⟩ := by
  have hslack := mul_nonneg (lookSlack_nonneg hcap) (Nat.cast_nonneg looks)
  refine ⟨hcap, le_rfl, ?_, fun _ => rfl, fun hstart _ => ?_⟩
  · have hback := mul_nonneg (roundedRate_nonneg hrate) ht
    push_cast
    linarith
  · have hback := mul_nonneg (roundedRate_nonneg hrate) (sub_nonneg.mpr hstart)
    push_cast
    linarith

theorem Bucket.refilled_nonneg (hcap : 0 ≤ capacity) (hrate : 0 ≤ rate) (h : 0 ≤ b.tokens) :
    0 ≤ b.refilled capacity rate now := by
  have helapsed := asSecsF64_nonneg (le_max_left 0 (now - b.lastRefill))
  exact le_min (f64_nonneg (add_nonneg h (f64_nonneg (mul_nonneg helapsed hrate)))) hcap

/-- A refill adds what the rate says and the error of its roundings. -/
theorem Bucket.refilled_le (hrate : 0 ≤ rate) (h : 0 ≤ b.tokens) (hfull : b.tokens ≤ capacity)
    (hlast : b.lastRefill ≤ now) : b.refilled capacity rate now
      ≤ b.tokens + unitRoundoff * capacity + roundedRate rate * (now - b.lastRefill) := by
  have hu := unitRoundoff_nonneg
  have hd : 0 ≤ now - b.lastRefill := sub_nonneg.mpr hlast
  have helapsed := asSecsF64_nonneg hd
  have hgain : f64 (asSecsF64 (now - b.lastRefill) * rate)
      ≤ (1 + unitRoundoff) ^ 3 * (now - b.lastRefill) * rate := by
    calc f64 (asSecsF64 (now - b.lastRefill) * rate)
        ≤ (1 + unitRoundoff) * (asSecsF64 (now - b.lastRefill) * rate) :=
          f64_le (mul_nonneg helapsed hrate)
      _ ≤ (1 + unitRoundoff) * ((1 + unitRoundoff) ^ 2 * (now - b.lastRefill) * rate) :=
          mul_le_mul_of_nonneg_left (mul_le_mul_of_nonneg_right (asSecsF64_le hd) hrate)
            (by linarith)
      _ = (1 + unitRoundoff) ^ 3 * (now - b.lastRefill) * rate := by ring
  have herror : unitRoundoff * b.tokens ≤ unitRoundoff * capacity :=
    mul_le_mul_of_nonneg_left hfull hu
  unfold Bucket.refilled
  rw [max_eq_right hd]
  calc min (f64 (b.tokens + f64 (asSecsF64 (now - b.lastRefill) * rate))) capacity
      ≤ f64 (b.tokens + f64 (asSecsF64 (now - b.lastRefill) * rate)) := min_le_left _ _
    _ ≤ (1 + unitRoundoff) * (b.tokens + f64 (asSecsF64 (now - b.lastRefill) * rate)) :=
        f64_le (add_nonneg h (f64_nonneg (mul_nonneg helapsed hrate)))
    _ ≤ (1 + unitRoundoff)
          * (b.tokens + (1 + unitRoundoff) ^ 3 * (now - b.lastRefill) * rate) :=
        mul_le_mul_of_nonneg_left (by linarith) (by linarith)
    _ = b.tokens + unitRoundoff * b.tokens + roundedRate rate * (now - b.lastRefill) := by
        unfold roundedRate
        ring
    _ ≤ _ := by linarith

/-- What was given away and what the bucket holds after a refill inside the window. -/
theorem WindowInv.add_refilled_le (hcap : 0 ≤ capacity) (hrate : 0 ≤ rate)
    (h : WindowInv capacity rate start t n looks b) (hlast : b.lastRefill ≤ now)
    (hopen : start ≤ now) (hclose : now ≤ start + t) :
    n + b.refilled capacity rate now ≤ capacity + roundedRate rate * (now - start)
      + lookSlack capacity * looks + unitRoundoff * capacity := by
  have herror := mul_nonneg unitRoundoff_nonneg hcap
  rcases lt_or_ge b.lastRefill start with hlt | hge
  · -- nothing was given away yet, and the bucket holds no more than it can
    have hback := mul_nonneg (roundedRate_nonneg hrate) (sub_nonneg.mpr hopen)
    have hslack := mul_nonneg (lookSlack_nonneg hcap) (Nat.cast_nonneg looks)
    have hfull : b.refilled capacity rate now ≤ capacity := min_le_right _ _
    rw [h.before hlt]
    push_cast
    linarith
  · have hsum := h.since hge (le_trans hlast hclose)
    have hrefill := Bucket.refilled_le hrate h.nonneg h.le_capacity hlast
    linarith

theorem WindowInv.mono (h : WindowInv capacity rate start t n looks b) {looks' : ℕ}
    (hle : looks ≤ looks') : WindowInv capacity rate start t n looks' b := by
  have hslack := mul_le_mul_of_nonneg_left (Nat.cast_le (α := ℚ).mpr hle)
    (lookSlack_nonneg (le_trans h.nonneg h.le_capacity))
  exact ⟨h.nonneg, h.le_capacity, by linarith [h.bounded], h.before,
    fun hopen hclose => by linarith [h.since hopen hclose]⟩

/-- One more look at the bucket: a token that is counted was given away inside the window,
and a look inside the window is counted. -/
theorem WindowInv.take (hcap : 0 ≤ capacity) (hsmall : unitRoundoff * capacity ≤ 1)
    (hrate : 0 ≤ rate) (h : WindowInv capacity rate start t n looks b)
    (hlast : b.lastRefill ≤ now) {m looks' : ℕ} (hle : looks ≤ looks')
    (hlooks : start ≤ now → now ≤ start + t → looks + 1 ≤ looks')
    (hcount : m = n ∨ m = n + 1 ∧ (b.take capacity rate now).1 = true ∧ start ≤ now ∧
      now ≤ start + t) :
    WindowInv capacity rate start t m looks' (b.take capacity rate now).2 := by
  have hu := unitRoundoff_nonneg
  have hnonneg : 0 ≤ b.refilled capacity rate now :=
    Bucket.refilled_nonneg hcap hrate h.nonneg
  have hfull : b.refilled capacity rate now ≤ capacity := min_le_right _ _
  have herror : unitRoundoff * b.refilled capacity rate now ≤ unitRoundoff * capacity :=
    mul_le_mul_of_nonneg_left hfull hu
  have hslack := lookSlack_nonneg hcap
  have hmono : lookSlack capacity * looks ≤ lookSlack capacity * looks' :=
    mul_le_mul_of_nonneg_left (Nat.cast_le.mpr hle) hslack
  have hbounded : (n : ℚ) ≤ capacity + roundedRate rate * t + lookSlack capacity * looks' := by
    linarith [h.bounded]
  have hsum : start ≤ now → now ≤ start + t → n + b.refilled capacity rate now
      + unitRoundoff * capacity
        ≤ capacity + roundedRate rate * (now - start) + lookSlack capacity * looks' := by
    intro hopen hclose
    have hold := h.add_refilled_le hcap hrate hlast hopen hclose
    have hnew : lookSlack capacity * (looks + 1 : ℕ) ≤ lookSlack capacity * looks' :=
      mul_le_mul_of_nonneg_left (Nat.cast_le.mpr (hlooks hopen hclose)) hslack
    have htwo : lookSlack capacity = 2 * (unitRoundoff * capacity) := rfl
    push_cast at hnew
    linarith
  have hbefore : now < start → n = 0 := fun hlt => h.before (lt_of_le_of_lt hlast hlt)
  unfold Bucket.take at hcount ⊢
  dsimp only at hcount ⊢
  split
  · next hone =>
    have hless : 0 ≤ b.refilled capacity rate now - 1 := sub_nonneg.mpr hone
    have hround := f64_le hless
    have hleft : f64 (b.refilled capacity rate now - 1)
        ≤ b.refilled capacity rate now + unitRoundoff * capacity - 1 := by linarith
    rcases hcount with rfl | ⟨rfl, -, hopen, hclose⟩
    · exact ⟨f64_nonneg hless, by linarith, hbounded, hbefore,
        fun hopen hclose => by linarith [hsum hopen hclose]⟩
    · have hsum := hsum hopen hclose
      refine ⟨f64_nonneg hless, by linarith, ?_, fun hlt => absurd hopen (not_le.mpr hlt), ?_⟩
      · have hwidth : roundedRate rate * (now - start) ≤ roundedRate rate * t :=
          mul_le_mul_of_nonneg_left (by linarith) (roundedRate_nonneg hrate)
        have herror := mul_nonneg hu hcap
        push_cast
        linarith
      · intro _ _
        push_cast
        linarith
  · next hnone =>
    rw [if_neg hnone] at hcount
    rcases hcount with rfl | ⟨-, hfalse, -⟩
    · exact ⟨hnonneg, hfull, hbounded, hbefore, fun hopen hclose => by
        linarith [hsum hopen hclose, mul_nonneg hu hcap]⟩
    · cases hfalse

end Window

end SentinelPass.Lib
