import Mathlib.Data.List.Basic

/-!
# Base64, standard alphabet, canonical padding

`encode` writes three bytes as four characters and pads the last group.
`decode` is the strict reader: it accepts only text that `encode` can write
(padding present exactly where needed, no stray low bits). `decodeConcat` also reads
several such texts one after the other, as `data_encoding::BASE64` does.
`decode_encode` and `decodeConcat_encode` are the round trips.
-/

namespace SentinelPass.Lib.Base64

open List

/-- The character of a six-bit value. -/
def encodeChar (n : Nat) : Char :=
  if n < 26 then Char.ofNat (65 + n)
  else if n < 52 then Char.ofNat (71 + n)
  else if n < 62 then Char.ofNat (n - 4)
  else if n = 62 then '+' else '/'

/-- The six-bit value of a character of the alphabet. -/
def decodeChar (c : Char) : Option Nat :=
  if 65 ≤ c.toNat ∧ c.toNat ≤ 90 then some (c.toNat - 65)
  else if 97 ≤ c.toNat ∧ c.toNat ≤ 122 then some (c.toNat - 71)
  else if 48 ≤ c.toNat ∧ c.toNat ≤ 57 then some (c.toNat + 4)
  else if c = '+' then some 62
  else if c = '/' then some 63
  else none

theorem decodeChar_encodeChar {n : Nat} (h : n < 64) : decodeChar (encodeChar n) = some n := by
  have hall : ∀ m : Fin 64, decodeChar (encodeChar m) = some m.val := by decide
  exact hall ⟨n, h⟩

theorem encodeChar_ne_pad {n : Nat} (h : n < 64) : encodeChar n ≠ '=' := by
  have hall : ∀ m : Fin 64, encodeChar m ≠ '=' := by decide
  exact hall ⟨n, h⟩

/-- Groups of three bytes, the last one padded. -/
def encodeBytes : List UInt8 → List Char
  | [] => []
  | [a] =>
    [encodeChar (a.toNat / 4), encodeChar (a.toNat % 4 * 16), '=', '=']
  | [a, b] =>
    [encodeChar (a.toNat / 4), encodeChar (a.toNat % 4 * 16 + b.toNat / 16),
      encodeChar (b.toNat % 16 * 4), '=']
  | a :: b :: c :: rest =>
    encodeChar (a.toNat / 4) :: encodeChar (a.toNat % 4 * 16 + b.toNat / 16) ::
      encodeChar (b.toNat % 16 * 4 + c.toNat / 64) :: encodeChar (c.toNat % 64) :: encodeBytes rest

/-- A group that ends in padding: one or two bytes, low bits zero. -/
def decodeLast (w x y : Char) : Option (List UInt8) := do
  let a ← decodeChar w
  let b ← decodeChar x
  if y = '=' then
    if b % 16 = 0 then some [UInt8.ofNat (a * 4 + b / 16)] else none
  else
    let c ← decodeChar y
    if c % 4 = 0 then
      some [UInt8.ofNat (a * 4 + b / 16), UInt8.ofNat (b % 16 * 16 + c / 4)]
    else none

/-- Four characters. -/
def decodeGroup (w x y z : Char) : Option (List UInt8) :=
  if z = '=' then decodeLast w x y
  else do
    let a ← decodeChar w
    let b ← decodeChar x
    let c ← decodeChar y
    let d ← decodeChar z
    some [UInt8.ofNat (a * 4 + b / 16), UInt8.ofNat (b % 16 * 16 + c / 4),
      UInt8.ofNat (c % 4 * 64 + d)]

/-- The reader; `concat` says whether a padded group may stand before others. -/
def decodeBytes (concat : Bool) : List Char → Option (List UInt8)
  | [] => some []
  | w :: x :: y :: z :: rest =>
    if z = '=' ∧ rest ≠ [] ∧ concat = false then none
    else do
      let group ← decodeGroup w x y z
      let tail ← decodeBytes concat rest
      some (group ++ tail)
  | _ => none

private theorem ofNat_eq {n : Nat} {a : UInt8} (h : n = a.toNat) : UInt8.ofNat n = a := by
  rw [h, UInt8.ofNat_toNat]

theorem decodeBytes_encodeBytes (concat : Bool) (bs : List UInt8) :
    decodeBytes concat (encodeBytes bs) = some bs := by
  induction bs using encodeBytes.induct with
  | case1 => rfl
  | case2 a =>
    have ha := a.toNat_lt
    have hgroup : decodeGroup (encodeChar (a.toNat / 4)) (encodeChar (a.toNat % 4 * 16)) '=' '='
        = some [a] := by
      simp only [decodeGroup, decodeLast, if_true,
        decodeChar_encodeChar (show a.toNat / 4 < 64 by omega),
        decodeChar_encodeChar (show a.toNat % 4 * 16 < 64 by omega)]
      show (if _ then some _ else none) = some _
      rw [if_pos (by omega), ofNat_eq (show _ = a.toNat by omega)]
    simp [encodeBytes, decodeBytes, hgroup]
  | case3 a b =>
    have ha := a.toNat_lt
    have hb := b.toNat_lt
    have hpad := encodeChar_ne_pad (show b.toNat % 16 * 4 < 64 by omega)
    have hgroup : decodeGroup (encodeChar (a.toNat / 4))
        (encodeChar (a.toNat % 4 * 16 + b.toNat / 16)) (encodeChar (b.toNat % 16 * 4)) '='
        = some [a, b] := by
      simp only [decodeGroup, decodeLast, if_true, hpad, if_false,
        decodeChar_encodeChar (show a.toNat / 4 < 64 by omega),
        decodeChar_encodeChar (show a.toNat % 4 * 16 + b.toNat / 16 < 64 by omega),
        decodeChar_encodeChar (show b.toNat % 16 * 4 < 64 by omega)]
      show (if _ then some _ else none) = some _
      rw [if_pos (by omega), ofNat_eq (show _ = a.toNat by omega),
        ofNat_eq (show _ = b.toNat by omega)]
    simp [encodeBytes, decodeBytes, hgroup]
  | case4 a b c rest ih =>
    have ha := a.toNat_lt
    have hb := b.toNat_lt
    have hc := c.toNat_lt
    have hpad := encodeChar_ne_pad (show c.toNat % 64 < 64 by omega)
    simp only [encodeBytes, decodeBytes, decodeGroup, hpad, false_and, if_false, ih,
      decodeChar_encodeChar (show a.toNat / 4 < 64 by omega),
      decodeChar_encodeChar (show a.toNat % 4 * 16 + b.toNat / 16 < 64 by omega),
      decodeChar_encodeChar (show b.toNat % 16 * 4 + c.toNat / 64 < 64 by omega),
      decodeChar_encodeChar (show c.toNat % 64 < 64 by omega)]
    show some _ = some _
    rw [ofNat_eq (show _ = a.toNat by omega), ofNat_eq (show _ = b.toNat by omega),
      ofNat_eq (show _ = c.toNat by omega)]
    rfl

/-- Four characters for every three bytes begun. -/
theorem length_encodeBytes (bs : List UInt8) :
    (encodeBytes bs).length = (bs.length + 2) / 3 * 4 := by
  induction bs using encodeBytes.induct with
  | case1 => rfl
  | case2 a => simp [encodeBytes]
  | case3 a b => simp [encodeBytes]
  | case4 a b c rest ih =>
    simp only [encodeBytes, length_cons]
    omega

theorem mem_encodeBytes {bs c} (h : c ∈ encodeBytes bs) : c = '=' ∨ ∃ n < 64, c = encodeChar n := by
  have hchar : ∀ {n : Nat}, n < 64 → c = encodeChar n → c = '=' ∨ ∃ n < 64, c = encodeChar n :=
    fun hn hc => .inr ⟨_, hn, hc⟩
  induction bs using encodeBytes.induct with
  | case1 => cases h
  | case2 a =>
    have ha := a.toNat_lt
    simp only [encodeBytes, mem_cons, not_mem_nil, or_false] at h
    rcases h with h | h | h | h
    · exact hchar (by omega) h
    · exact hchar (by omega) h
    · exact .inl h
    · exact .inl h
  | case3 a b =>
    have ha := a.toNat_lt
    have hb := b.toNat_lt
    simp only [encodeBytes, mem_cons, not_mem_nil, or_false] at h
    rcases h with h | h | h | h
    · exact hchar (by omega) h
    · exact hchar (by omega) h
    · exact hchar (by omega) h
    · exact .inl h
  | case4 a b c' rest ih =>
    have ha := a.toNat_lt
    have hb := b.toNat_lt
    have hc := c'.toNat_lt
    simp only [encodeBytes, mem_cons] at h
    rcases h with h | h | h | h | h
    · exact hchar (by omega) h
    · exact hchar (by omega) h
    · exact hchar (by omega) h
    · exact hchar (by omega) h
    · exact ih h

/-- Text of a byte string. -/
def encode (bs : List UInt8) : String := String.ofList (encodeBytes bs)

/-- Bytes of a text, if `encode` can have written it. -/
def decode (s : String) : Option (List UInt8) := decodeBytes false s.toList

/-- Bytes of texts that `encode` wrote, one after the other. -/
def decodeConcat (s : String) : Option (List UInt8) := decodeBytes true s.toList

@[simp] theorem decode_encode (bs : List UInt8) : decode (encode bs) = some bs := by
  unfold decode encode
  rw [String.toList_ofList, decodeBytes_encodeBytes]

@[simp] theorem decodeConcat_encode (bs : List UInt8) : decodeConcat (encode bs) = some bs := by
  unfold decodeConcat encode
  rw [String.toList_ofList, decodeBytes_encodeBytes]

end SentinelPass.Lib.Base64
