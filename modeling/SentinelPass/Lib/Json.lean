import Mathlib.Algebra.Order.Ring.Int
import Mathlib.Data.List.Basic

/-!
# Flat JSON documents

What a derived serializer writes for a struct of scalars, and how the derived
deserializer reads it back: every field of the struct is looked up by its own
name, a name that is missing or occurs twice is an error, and names the struct
does not have are ignored. Numbers are range-checked against the width of the
field that reads them.
-/

namespace SentinelPass.Lib.Json

open List

/-- A scalar value. -/
inductive Scalar
  | num (n : Int)
  | str (s : String)
  | bool (b : Bool)
deriving DecidableEq

/-- An object of scalars, in document order. -/
abbrev Doc := List (String × Scalar)

/-- Why a document does not decode. -/
inductive DecodeError
  | missingField (name : String)
  | duplicateField (name : String)
  | invalidValue (name : String)
deriving DecidableEq

namespace Scalar

/-- A `u64` as a JSON number. -/
def ofU64 (v : UInt64) : Scalar := .num v.toNat

/-- An `i64` as a JSON number. -/
def ofI64 (v : Int64) : Scalar := .num v.toInt

end Scalar

/-- The value under a name. -/
def field (d : Doc) (name : String) : Except DecodeError Scalar :=
  match d.filter fun p => p.1 = name with
  | [] => .error (.missingField name)
  | [p] => .ok p.2
  | _ => .error (.duplicateField name)

/-- Read a field through a partial conversion. -/
def fieldAs {α : Type} (conv : Scalar → Option α) (d : Doc) (name : String) :
    Except DecodeError α := do
  let v ← field d name
  match conv v with
  | some a => .ok a
  | none => .error (.invalidValue name)

/-- Conversion of a number in the range of `u64`. -/
def asU64 : Scalar → Option UInt64
  | .num n => if 0 ≤ n ∧ n < 2 ^ 64 then some (UInt64.ofNat n.toNat) else none
  | _ => none

/-- Conversion of a number in the range of `i64`. -/
def asI64 : Scalar → Option Int64
  | .num n => if -2 ^ 63 ≤ n ∧ n < 2 ^ 63 then some (Int64.ofInt n) else none
  | _ => none

/-- Conversion of a string. -/
def asStr : Scalar → Option String
  | .str s => some s
  | _ => none

/-- Conversion of a Boolean. -/
def asBool : Scalar → Option Bool
  | .bool b => some b
  | _ => none

variable {d : Doc} {name : String} {v : Scalar}

@[simp] theorem asU64_ofU64 (v : UInt64) : asU64 (.ofU64 v) = some v := by
  have h := v.toNat_lt
  unfold asU64 Scalar.ofU64
  simp only [Int.toNat_natCast, UInt64.ofNat_toNat]
  rw [if_pos (by omega)]

@[simp] theorem asI64_ofI64 (v : Int64) : asI64 (.ofI64 v) = some v := by
  have h1 := v.le_toInt
  have h2 := v.toInt_lt
  unfold asI64 Scalar.ofI64
  simp only [Int64.ofInt_toInt]
  rw [if_pos ⟨h1, h2⟩]

@[simp] theorem asStr_str (s : String) : asStr (.str s) = some s := rfl

@[simp] theorem asBool_bool (b : Bool) : asBool (.bool b) = some b := rfl

/-- A field that is there and converts is read. -/
theorem fieldAs_ok {α : Type} {conv : Scalar → Option α} {a : α} (hf : field d name = .ok v)
    (hc : conv v = some a) : fieldAs conv d name = .ok a := by
  unfold fieldAs
  rw [hf]
  show (match conv v with | some a => _ | none => _) = _
  rw [hc]

/-- In a document without repeated names, what stands under a name is read. -/
theorem field_of_mem (hnd : (d.map Prod.fst).Nodup) (hm : (name, v) ∈ d) :
    field d name = .ok v := by
  have hone : (d.filter fun p => p.1 = name) = [(name, v)] := by
    induction d with
    | nil => cases hm
    | cons p rest ih =>
      rw [map_cons, nodup_cons] at hnd
      rcases mem_cons.mp hm with rfl | hm
      · have hrest : (rest.filter fun p => p.1 = name) = [] := by
          rw [filter_eq_nil_iff]
          intro q hq hname
          exact hnd.1 (mem_map.mpr ⟨q, hq, by simpa using hname⟩)
        simp [hrest]
      · have hp : p.1 ≠ name := fun he =>
          hnd.1 (he ▸ mem_map_of_mem hm)
        simp only [filter_cons, hp]
        exact ih hnd.2 hm
  unfold field
  rw [hone]

/-- A document without the name fails on it, whatever the conversion. -/
theorem fieldAs_missing {α : Type} (conv : Scalar → Option α) {d : Doc} {name : String}
    (h : name ∉ d.map Prod.fst) :
    fieldAs conv d name = .error (.missingField name) := by
  have hnil : (d.filter fun p => p.1 = name) = [] := by
    rw [filter_eq_nil_iff]
    intro p hp hname
    exact h (mem_map.mpr ⟨p, hp, by simpa using hname⟩)
  unfold fieldAs field
  rw [hnil]
  rfl

end SentinelPass.Lib.Json
