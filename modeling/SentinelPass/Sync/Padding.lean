import SentinelPass.Lib.Bytes

/-!
# Padding of sync payloads

`pad_payload` and `unpad_payload` of `sync/crypto.rs`. A padded payload is its length in eight
bytes, the data, and zeros up to the size of a bucket.
-/

namespace SentinelPass.Padding

open Lib List

def buckets : List Nat := [256, 512, 1024, 2048, 4096, 8192]

def bucketSize (totalNeeded : Nat) : Nat :=
  (buckets.find? (totalNeeded ≤ ·)).getD ((totalNeeded / 8192 + 1) * 8192)

/-- `Vec::resize`. -/
def resize (n : Nat) (l : List UInt8) : List UInt8 := l.take n ++ replicate (n - l.length) 0

def padPayload (data : List UInt8) : List UInt8 :=
  resize (bucketSize (data.length + 8)) (leBytes 8 data.length ++ data)

/-- `u64::from_le_bytes` of the first eight bytes. -/
def originalLen (padded : List UInt8) : Nat := beValue (padded.take 8).reverse

/-- `none` is a panic. -/
def unpadPayload (padded : List UInt8) : Option (Except String (List UInt8)) :=
  if padded.length < 8 then some (.error "Padded payload too short")
  else
    -- The sum wraps at `usize`, and then the slice ends before it starts. A build with overflow
    -- checks panics at the sum instead.
    let stop := (originalLen padded + 8) % 2 ^ 64
    if padded.length < stop then some (.error "Invalid padded payload length")
    else if stop < 8 then none
    else some (.ok ((padded.take stop).drop 8))

/-- An error, or the bytes that the length in front announces, all of them there. -/
def Bounded (padded : List UInt8) : Prop :=
  (∃ e, unpadPayload padded = some (.error e)) ∨ originalLen padded + 8 ≤ padded.length ∧
      unpadPayload padded = some (.ok ((padded.drop 8).take (originalLen padded)))

theorem le_bucketSize (n : Nat) : n ≤ bucketSize n := by
  unfold bucketSize
  cases h : buckets.find? (n ≤ ·) with
  | none => simp; omega
  | some b => simpa using find?_some h

theorem originalLen_lt (p) : originalLen p < 2 ^ 64 := by
  have h := beValue_lt (p.take 8).reverse
  have hlen : (p.take 8).reverse.length ≤ 8 := by simp
  exact h.trans_le (Nat.pow_le_pow_right (by omega) hlen)

theorem originalLen_append {d : List UInt8} (hd : d.length < 2 ^ 64) (rest) :
    originalLen (leBytes 8 d.length ++ rest) = d.length := by
  unfold originalLen
  rw [take_left' (length_leBytes ..), leBytes, reverse_reverse, beValue_beBytes]
  exact Nat.mod_eq_of_lt hd

theorem unpad_pad {d : List UInt8} (hd : d.length < 2 ^ 63) :
    unpadPayload (padPayload d) = some (.ok d) := by
  have hle := le_bucketSize (d.length + 8)
  have hpad : padPayload d
      = leBytes 8 d.length ++ (d ++ replicate (bucketSize (d.length + 8) - (d.length + 8)) 0) := by
    unfold padPayload resize
    rw [take_of_length_le (by simp; omega)]
    simp [Nat.add_comm]
  unfold unpadPayload
  rw [hpad, originalLen_append (by omega), Nat.mod_eq_of_lt (by omega)]
  simp [take_append]
  omega

theorem bounded_iff (p : List UInt8) : Bounded p ↔ (8 ≤ p.length → originalLen p < 2 ^ 64 - 8) := by
  have hlt := originalLen_lt p
  unfold Bounded unpadPayload
  by_cases hshort : p.length < 8
  · rw [if_pos hshort]
    exact iff_of_true (.inl ⟨_, rfl⟩) fun h => by omega
  rw [if_neg hshort]
  by_cases hwrap : originalLen p < 2 ^ 64 - 8
  · refine iff_of_true ?_ fun _ => hwrap
    rw [Nat.mod_eq_of_lt (by omega)]
    by_cases hfits : p.length < originalLen p + 8
    · exact .inl ⟨_, if_pos hfits⟩
    · refine .inr ⟨by omega, ?_⟩
      simp [hfits, drop_take]
  · refine iff_of_false ?_ fun h => hwrap (h (by omega))
    have hstop : (originalLen p + 8) % 2 ^ 64 = originalLen p + 8 - 2 ^ 64 := by omega
    rw [hstop]
    dsimp only
    rw [if_neg (by omega), if_pos (by omega)]
    simp

/-- What was padded is read back, and any other bytes are refused or read inside their bounds,
unless the length in front is one of the last eight. -/
theorem padding_sound_iff {data : List UInt8} (hdata : data.length < 2 ^ 63) (padded : List UInt8) :
    (unpadPayload (padPayload data) = some (.ok data) ∧ Bounded padded) ↔
      (8 ≤ padded.length → originalLen padded < 2 ^ 64 - 8) := by
  simp [unpad_pad hdata, bounded_iff]

theorem padding_sound_iff_three :
    unpadPayload (padPayload [1, 2, 3]) = some (.ok [1, 2, 3]) ∧
      Bounded [3, 0, 0, 0, 0, 0, 0, 0, 7] :=
  (padding_sound_iff (by decide) _).mpr fun _ => by decide

/-- A length of `2 ^ 64 - 1` passes the check. -/
theorem wrapped_length_panics : unpadPayload (replicate 8 255) = none := by
  decide

end SentinelPass.Padding
