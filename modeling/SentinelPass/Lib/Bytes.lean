import Mathlib.Data.List.Basic
import Mathlib.Data.List.Induction
import Mathlib.Data.Nat.Digits.Defs

/-!
# Fixed-width fields

`beBytes n v` writes the low `n` bytes of `v`, most significant first, and
`beValue` reads them back; `leBytes` is the other order. A record is decoded
from the front, one field at a time: `append_sep_inj` peels a field whose width
is known, `append_len_inj` one that comes with its length.
-/

namespace SentinelPass.Lib

open List

/-- `v` as `n` bytes, most significant first. -/
def beBytes : Nat → Nat → List UInt8
  | 0, _ => []
  | n + 1, v => beBytes n (v / 256) ++ [UInt8.ofNat (v % 256)]

/-- The number a big-endian byte string denotes. -/
def beValue (bs : List UInt8) : Nat := bs.foldl (fun acc b => acc * 256 + b.toNat) 0

theorem beValue_concat (bs b) : beValue (bs ++ [b]) = beValue bs * 256 + b.toNat := by
  unfold beValue
  rw [foldl_append]
  rfl

theorem beValue_lt (bs) : beValue bs < 256 ^ bs.length := by
  induction bs using reverseRecOn with
  | nil => exact Nat.one_pos
  | append_singleton bs b ih =>
    have hb := b.toNat_lt
    rw [beValue_concat, length_append, length_singleton, Nat.pow_succ]
    omega

/-- Only zeros have the value zero. -/
theorem eq_zero_of_beValue {bs : List UInt8} (h : beValue bs = 0) {b : UInt8} (hb : b ∈ bs) :
    b = 0 := by
  induction bs using reverseRecOn with
  | nil => exact absurd hb not_mem_nil
  | append_singleton bs c ih =>
    rw [beValue_concat] at h
    rcases mem_append.mp hb with hb | hb
    · exact ih (by omega) hb
    · rw [mem_singleton.mp hb]
      exact UInt8.toNat_inj.mp (show c.toNat = 0 by omega)

@[simp] theorem length_beBytes (n v : Nat) : (beBytes n v).length = n := by
  induction n generalizing v with
  | zero => rfl
  | succ n ih => simp [beBytes, ih]

/-- Reading back loses nothing but the bytes that did not fit. -/
theorem beValue_beBytes (n v : Nat) : beValue (beBytes n v) = v % 256 ^ n := by
  induction n generalizing v with
  | zero => simp [beBytes, beValue, Nat.mod_one]
  | succ n ih =>
    have hread : beValue (beBytes (n + 1) v) = beValue (beBytes n (v / 256)) * 256 + v % 256 := by
      simp [beBytes, beValue]
    rw [hread, ih, Nat.pow_succ, Nat.mul_comm (256 ^ n) 256, Nat.mod_mul]
    omega

/-- Values that fit are determined by their bytes. -/
theorem beBytes_inj {n v w : Nat} (hv : v < 256 ^ n) (hw : w < 256 ^ n)
    (h : beBytes n v = beBytes n w) : v = w := by
  have hval : beValue (beBytes n v) = beValue (beBytes n w) := by rw [h]
  rwa [beValue_beBytes, beValue_beBytes, Nat.mod_eq_of_lt hv, Nat.mod_eq_of_lt hw] at hval

/-- `v` as `n` bytes, least significant first. -/
def leBytes (n v : Nat) : List UInt8 := (beBytes n v).reverse

@[simp] theorem length_leBytes (n v : Nat) : (leBytes n v).length = n := by
  simp [leBytes]

theorem leBytes_inj {n v w : Nat} (hv : v < 256 ^ n) (hw : w < 256 ^ n)
    (h : leBytes n v = leBytes n w) :
    v = w :=
  beBytes_inj hv hw (reverse_inj.mp h)

/-- Peel one field that comes with its length before it. -/
theorem append_len_inj {n : Nat} {a a' b b' : List UInt8} (ha : a.length < 256 ^ n)
    (ha' : a'.length < 256 ^ n)
    (h : leBytes n a.length ++ (a ++ b) = leBytes n a'.length ++ (a' ++ b')) : a = a' ∧ b = b' := by
  obtain ⟨hlen, hrest⟩ := append_inj h (by simp)
  exact append_inj hrest (leBytes_inj ha ha' hlen)

/-- Peel one field of known width and the separator after it. -/
theorem append_sep_inj {α : Type} {a a' b b' : List α} {s : α} (hlen : a.length = a'.length)
    (h : a ++ s :: b = a' ++ s :: b') : a = a' ∧ b = b' := by
  obtain ⟨ha, hsb⟩ := append_inj h hlen
  exact ⟨ha, (cons.inj hsb).2⟩

end SentinelPass.Lib
