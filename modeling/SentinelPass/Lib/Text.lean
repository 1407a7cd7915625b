import Mathlib.Algebra.Order.Ring.Int
import Mathlib.Data.List.DropRight

/-!
# Text as the standard library reads it

Pieces, lines, trimming, decimal integers and hexadecimal digits of a text, which is the
list of its characters. `lines` ends a line at each newline, drops one carriage
return before it and has no empty last line; `trim` removes what Unicode calls
white space; `parseI64` accepts a sign and refuses what does not fit.

Each reader has the lemma that it reads back what the writer beside it wrote.
-/

namespace SentinelPass.Lib

open List Option

/-- The characters of a text. -/
abbrev Text := List Char

/-- The UTF-8 bytes of a text. -/
def textBytes (t : Text) : List UInt8 := t.flatMap String.utf8EncodeChar

/-! ## Pieces -/

/-- `str::splitn` with a character: at most `n` pieces, the last one unsplit. -/
def splitn (sep : Char) : Nat → Text → List Text
  | 0, _ => []
  | 1, t => [t]
  | n + 2, t =>
    match t.dropWhile (· ≠ sep) with
    | [] => [t]
    | _ :: rest => t.takeWhile (· ≠ sep) :: splitn sep (n + 1) rest

/-! ## Lines -/

/-- One carriage return at the end goes. -/
def stripCr (l : Text) : Text :=
  if l.getLast? = some '\r' then l.dropLast else l

/-- The lines of a text; what follows the last newline is a line if it is not
empty, and keeps its carriage return. -/
def lines (t : Text) : List Text :=
  let pieces := t.splitOn '\n'
  pieces.dropLast.map stripCr ++ (pieces.getLast?.filter fun l => l ≠ []).toList

@[simp] theorem lines_nil : lines [] = [] := rfl

variable {c : Char} {l t : Text} {n : Nat} {bytes : List UInt8}

theorem lines_cons_line (h : '\n' ∉ l) (rest) :
    lines (l ++ '\n' :: rest) = stripCr l :: lines rest := by
  have hne : rest.splitOn '\n' ≠ [] := splitOn_ne_nil _ _
  unfold lines
  rw [splitOn_append_cons_self_of_not_mem h]
  simp only [dropLast_cons_of_ne_nil hne, map_cons, cons_append, getLast?_cons_of_ne_nil hne]

theorem stripCr_of_getLast (h : l.getLast? ≠ some '\r') : stripCr l = l :=
  if_neg h

theorem mem_stripCr (h : c ∈ stripCr l) : c ∈ l := by
  unfold stripCr at h
  split at h
  · exact dropLast_subset l h
  exact h

/-- No piece between separators holds one. -/
theorem not_mem_of_mem_splitOn (h : l ∈ t.splitOn c) : c ∉ l := by
  induction t generalizing l with
  | nil =>
    rw [splitOn_nil, mem_singleton] at h
    rw [h]
    exact not_mem_nil
  | cons x xs ih =>
    rw [splitOn_cons_eq_if_modifyHead] at h
    split at h
    · rcases mem_cons.mp h with rfl | h
      · exact not_mem_nil
      exact ih h
    · next hx =>
      obtain ⟨y, ys, hys⟩ := exists_cons_of_ne_nil (splitOn_ne_nil c xs)
      rw [hys] at h ih
      rcases mem_cons.mp h with rfl | h
      · -- the piece that `x` was put in front of
        intro hc
        rcases mem_cons.mp hc with rfl | hc
        · exact hx (beq_self_eq_true _)
        · exact ih mem_cons_self hc
      · exact ih (mem_cons_of_mem _ h)

/-- What follows the first separator of a suffix ends the pieces of the text. -/
theorem splitOn_tail_suffix {w : List Char} (h : w <:+ t) :
    (w.splitOn c).tail <:+ (t.splitOn c).tail := by
  obtain ⟨front, rfl⟩ := h
  induction front with
  | nil => exact suffix_rfl
  | cons x front ih =>
    rw [cons_append, splitOn_cons_eq_if_modifyHead]
    split
    · exact ih.trans (tail_suffix _)
    · rw [tail_modifyHead]
      exact ih

theorem intercalate_append {pieces rest} (hp : pieces ≠ []) (hr : rest ≠ []) :
    [c].intercalate (pieces ++ rest) = [c].intercalate pieces ++ c :: [c].intercalate rest := by
  induction pieces with
  | nil => exact absurd rfl hp
  | cons x xs ih =>
    by_cases hxs : xs = []
    · rw [hxs, singleton_append, intercalate_cons_of_ne_nil hr,
        intercalate_singleton, append_assoc, singleton_append]
    · rw [cons_append, intercalate_cons_of_ne_nil (by simp [hxs]), ih hxs,
        intercalate_cons_of_ne_nil hxs, append_assoc, append_assoc,
        append_assoc]

/-- The last pieces of a text are the text itself, or stand after a separator. -/
theorem splitOn_suffix_splitOn {s : Text} : s.splitOn c <:+ t.splitOn c ↔ s = t ∨ c :: s <:+ t := by
  constructor
  · rintro ⟨front, h⟩
    have ht : [c].intercalate (front ++ s.splitOn c) = t := by rw [h, intercalate_splitOn]
    by_cases hf : front = []
    · left
      rw [← ht, hf, nil_append, intercalate_splitOn]
    · right
      rw [intercalate_append hf (splitOn_ne_nil _ _), intercalate_splitOn] at ht
      exact ⟨_, ht⟩
  · rintro (rfl | ⟨front, rfl⟩)
    · exact suffix_rfl
    rw [splitOn_append_cons_self]
    exact suffix_append _ _

theorem not_mem_of_mem_lines (h : l ∈ lines t) : '\n' ∉ l := by
  rcases mem_append.mp h with h | h
  · obtain ⟨piece, hpiece, rfl⟩ := mem_map.mp h
    intro hc
    exact not_mem_of_mem_splitOn (dropLast_subset _ hpiece) (mem_stripCr hc)
  · rw [mem_toList, filter_eq_some_iff] at h
    exact not_mem_of_mem_splitOn (mem_of_getLast? h.1)

/-! ## White space -/

/-- `char::is_whitespace`: the Unicode property `White_Space`. -/
def isWhitespace (c : Char) : Bool :=
  let n := c.toNat
  (0x9 ≤ n && n ≤ 0xd) || n == 0x20 || n == 0x85 || n == 0xa0 || n == 0x1680 ||
    (0x2000 ≤ n && n ≤ 0x200a) || n == 0x2028 || n == 0x2029 || n == 0x202f || n == 0x205f ||
    n == 0x3000

def trim (t : Text) : Text := (t.dropWhile isWhitespace).rdropWhile isWhitespace

/-- A text that neither starts nor ends in white space. -/
def Trimmed (t : Text) : Prop :=
  (∀ c ∈ t.head?, isWhitespace c = false) ∧ ∀ c ∈ t.getLast?, isWhitespace c = false

theorem Trimmed.trim_eq (h : Trimmed t) : trim t = t := by
  obtain ⟨hhead, hlast⟩ := h
  cases t with
  | nil => rfl
  | cons c cs =>
    have hdrop : (c :: cs).dropWhile isWhitespace = c :: cs :=
      dropWhile_cons_of_neg (by rw [hhead c rfl]; decide)
    unfold trim
    rw [hdrop, rdropWhile_eq_self_iff]
    intro hne
    rw [hlast _ (getLast?_eq_some_getLast hne)]
    decide

theorem trimmed_trim (t : Text) : Trimmed (trim t) := by
  have hpre : trim t <+: t.dropWhile isWhitespace := rdropWhile_prefix _ _
  constructor
  · intro c hc
    obtain ⟨rest, hrest⟩ := hpre
    have hhead : (t.dropWhile isWhitespace).head? = some c := by
      rw [← hrest, head?_append, mem_def.mp hc]
      rfl
    have hnot := head?_dropWhile_not isWhitespace t
    rw [hhead] at hnot
    exact hnot
  · intro c hc
    have hne : trim t ≠ [] := by
      rintro he
      rw [he] at hc
      cases hc
    have hnot := rdropWhile_last_not isWhitespace (t.dropWhile isWhitespace) hne
    have hlast : (trim t).getLast hne = c :=
      some.inj ((getLast?_eq_some_getLast hne).symm.trans hc)
    exact Bool.eq_false_iff.mpr (hlast ▸ hnot)

theorem trimmed_of_forall (h : ∀ c ∈ t, isWhitespace c = false) : Trimmed t :=
  ⟨fun c hc => h c (mem_of_head? hc), fun c hc => h c (mem_of_getLast? hc)⟩

/-- A trimmed text on a line of its own is read back. -/
theorem Trimmed.trim_stripCr (h : Trimmed t) : trim (stripCr t) = t := by
  have hcr : t.getLast? ≠ some '\r' := by
    intro hlast
    have hws := h.2 '\r' hlast
    exact absurd hws (by decide)
  rw [stripCr_of_getLast hcr, h.trim_eq]

theorem mem_of_mem_trim (h : c ∈ trim t) : c ∈ t :=
  dropWhile_sublist _ |>.subset (( rdropWhile_prefix _ _).subset h)

/-! ## Integers -/

/-- The decimal text of an `i64`. -/
def showI64 (v : Int64) : Text :=
  if v.toInt < 0 then '-' :: Nat.toDigits 10 v.toInt.natAbs else Nat.toDigits 10 v.toInt.natAbs

/-- Digits only, and at least one. -/
def parseDigits (t : Text) : Option Nat :=
  if t ≠ [] ∧ t.all Char.isDigit then some (Nat.ofDigitChars 10 t 0) else none

/-- An integer in the range of `i64`. -/
def toI64 (v : Int) : Option Int64 :=
  if -2 ^ 63 ≤ v ∧ v < 2 ^ 63 then some (Int64.ofInt v) else none

/-- `str::parse::<i64>`: an optional sign, digits, in range. -/
def parseI64 (t : Text) : Option Int64 :=
  match t with
  | '-' :: rest => (parseDigits rest).bind fun n => toI64 (-(n : Int))
  | '+' :: rest => (parseDigits rest).bind fun n => toI64 n
  | _ => (parseDigits t).bind fun n => toI64 n

theorem toI64_toInt (v : Int64) : toI64 v.toInt = some v := by
  unfold toI64
  rw [if_pos ⟨v.le_toInt, v.toInt_lt⟩, Int64.ofInt_toInt]

theorem isDigit_of_mem_digits {n : Nat} (h : c ∈ Nat.toDigits 10 n) : c.isDigit = true :=
  Nat.isDigit_of_mem_toDigits (by decide) (by decide) h

theorem parseDigits_toDigits (n : Nat) : parseDigits (Nat.toDigits 10 n) = some n := by
  have hall : (Nat.toDigits 10 n).all Char.isDigit = true :=
    all_eq_true.mpr fun _ => isDigit_of_mem_digits
  unfold parseDigits
  rw [if_pos ⟨Nat.toDigits_ne_nil, hall⟩, Nat.ofDigitChars_ten_toDigits]

theorem toDigits_inj {m n : Nat} (h : Nat.toDigits 10 m = Nat.toDigits 10 n) : m = n := by
  rw [← Nat.ofDigitChars_ten_toDigits (n := m), h, Nat.ofDigitChars_ten_toDigits]

theorem isDigit_of_mem_showI64 {v : Int64} (h : c ∈ showI64 v) : c = '-' ∨ c.isDigit = true := by
  unfold showI64 at h
  split at h
  · rcases mem_cons.mp h with rfl | h
    · exact .inl rfl
    exact .inr (isDigit_of_mem_digits h)
  · exact .inr (isDigit_of_mem_digits h)

theorem isWhitespace_of_isDigit (h : c.isDigit = true) : isWhitespace c = false := by
  have hrange : 48 ≤ c.toNat ∧ c.toNat ≤ 57 := by
    rw [Char.isDigit, Bool.and_eq_true, decide_eq_true_eq, decide_eq_true_eq] at h
    exact ⟨UInt32.le_iff_toNat_le.mp h.1, UInt32.le_iff_toNat_le.mp h.2⟩
  unfold isWhitespace
  simp only [Bool.or_eq_false_iff, Bool.and_eq_false_iff, decide_eq_false_iff_not,
    beq_eq_false_iff_ne]
  omega

theorem trimmed_showI64 (v : Int64) : Trimmed (showI64 v) := by
  refine trimmed_of_forall fun c hc => ?_
  rcases isDigit_of_mem_showI64 hc with rfl | hdigit
  · decide
  · exact isWhitespace_of_isDigit hdigit

theorem newline_not_mem_showI64 (v : Int64) : '\n' ∉ showI64 v := by
  intro h
  rcases isDigit_of_mem_showI64 h with heq | hdigit
  · exact absurd heq (by decide)
  exact absurd hdigit (by decide)

theorem parseI64_showI64 (v : Int64) : parseI64 (showI64 v) = some v := by
  unfold showI64
  split
  · next hneg =>
    have habs : -((v.toInt.natAbs : Nat) : Int) = v.toInt := by omega
    show (parseDigits _).bind _ = _
    rw [parseDigits_toDigits, bind_some, habs, toI64_toInt]
  · next hpos =>
    have habs : ((v.toInt.natAbs : Nat) : Int) = v.toInt := by omega
    have hparse := parseDigits_toDigits v.toInt.natAbs
    obtain ⟨d, ds, hds⟩ := exists_cons_of_ne_nil
      (Nat.toDigits_ne_nil (n := v.toInt.natAbs) (b := 10))
    have hd : d.isDigit = true :=
      Nat.isDigit_of_mem_toDigits (by decide) (by decide) (hds ▸ mem_cons_self)
    rw [hds] at hparse ⊢
    unfold parseI64
    split
    · -- a digit is not a sign
      next heq =>
      rw [(cons.inj heq).1] at hd
      cases hd
    · next heq =>
      rw [(cons.inj heq).1] at hd
      cases hd
    · rw [hparse, bind_some, habs, toI64_toInt]

/-! ## Hexadecimal -/

/-- `{b:02x}`. -/
def hexByte (b : UInt8) : Text := [Nat.digitChar (b.toNat / 16), Nat.digitChar (b.toNat % 16)]

/-- Two lower-case digits for each byte. -/
def hex (bytes : List UInt8) : Text := bytes.flatMap hexByte

def isAsciiHexdigit (c : Char) : Bool :=
  c.isDigit || ('a' ≤ c && c ≤ 'f') || ('A' ≤ c && c ≤ 'F')

@[simp] theorem length_hex (bytes) : (hex bytes).length = 2 * bytes.length := by
  induction bytes with
  | nil => rfl
  | cons b rest ih =>
    simp only [hex, flatMap_cons, length_append] at ih ⊢
    simp only [hexByte, length_cons, length_nil]
    omega

/-- A nibble is written as a lower-case digit that is not white space. -/
theorem digitChar_hex (h : n < 16) :
    isAsciiHexdigit n.digitChar = true ∧ n.digitChar.toLower = n.digitChar ∧
      isWhitespace n.digitChar = false ∧ n.digitChar ≠ '\n' := by
  revert n
  decide

theorem mem_hex (h : c ∈ hex bytes) : ∃ n < 16, c = Nat.digitChar n := by
  obtain ⟨b, -, hc⟩ := mem_flatMap.mp h
  have hb := b.toNat_lt
  rcases mem_cons.mp hc with rfl | hc
  · exact ⟨_, by omega, rfl⟩
  · rw [mem_singleton.mp hc]
    exact ⟨_, Nat.mod_lt _ (by decide), rfl⟩

theorem map_toLower_hex (bytes) : (hex bytes).map Char.toLower = hex bytes := by
  refine (map_congr_left fun c hc => ?_).trans (map_id _)
  obtain ⟨n, hn, rfl⟩ := mem_hex hc
  exact (digitChar_hex hn).2.1

theorem all_isAsciiHexdigit_hex (bytes) : (hex bytes).all isAsciiHexdigit = true := by
  refine all_eq_true.mpr fun c hc => ?_
  obtain ⟨n, hn, rfl⟩ := mem_hex hc
  exact (digitChar_hex hn).1

theorem trimmed_hex (bytes) : Trimmed (hex bytes) := by
  refine trimmed_of_forall fun c hc => ?_
  obtain ⟨n, hn, rfl⟩ := mem_hex hc
  exact (digitChar_hex hn).2.2.1

theorem newline_not_mem_hex (bytes) : '\n' ∉ hex bytes := by
  intro h
  obtain ⟨n, hn, heq⟩ := mem_hex h
  exact (digitChar_hex hn).2.2.2 heq.symm

/-- The value of a lower-case digit. -/
def hexValue (c : Char) : Option Nat :=
  if 48 ≤ c.toNat ∧ c.toNat ≤ 57 then some (c.toNat - 48)
  else if 97 ≤ c.toNat ∧ c.toNat ≤ 102 then some (c.toNat - 87)
  else none

/-- The reader of `hex`: pairs of lower-case digits. -/
def unhex : Text → Option (List UInt8)
  | [] => some []
  | [_] => none
  | a :: b :: rest => do
    let x ← hexValue a
    let y ← hexValue b
    let bytes ← unhex rest
    some (UInt8.ofNat (16 * x + y) :: bytes)

theorem hexValue_digitChar (h : n < 16) : hexValue (Nat.digitChar n) = some n := by
  revert n
  decide

theorem digitChar_of_hexValue (h : hexValue c = some n) : n < 16 ∧ Nat.digitChar n = c := by
  have hdigit : ∀ m : Fin 10, Nat.digitChar m = Char.ofNat (48 + m) := by decide
  have hletter : ∀ m : Fin 6, Nat.digitChar (10 + m) = Char.ofNat (97 + m) := by decide
  unfold hexValue at h
  split at h
  · next hc =>
    have hn := some.inj h
    refine ⟨by omega, ?_⟩
    have := hdigit ⟨n, by omega⟩
    rw [this, show 48 + n = c.toNat by omega, Char.ofNat_toNat]
  · split at h
    · next hc =>
      have hn := some.inj h
      refine ⟨by omega, ?_⟩
      have := hletter ⟨n - 10, by omega⟩
      rw [show 10 + (n - 10) = n by omega, show 97 + (n - 10) = c.toNat by omega] at this
      rw [this, Char.ofNat_toNat]
    · cases h

theorem unhex_hex (bytes) : unhex (hex bytes) = some bytes := by
  induction bytes with
  | nil => rfl
  | cons b rest ih =>
    have hb := b.toNat_lt
    show unhex (Nat.digitChar (b.toNat / 16) :: Nat.digitChar (b.toNat % 16) :: hex rest) = _
    rw [unhex, hexValue_digitChar (by omega), hexValue_digitChar (by omega), ih]
    simp only [bind_eq_bind, bind_some]
    rw [Nat.div_add_mod, UInt8.ofNat_toNat]

theorem hex_of_unhex (h : unhex t = some bytes) : hex bytes = t := by
  induction t using unhex.induct generalizing bytes with
  | case1 =>
    cases h
    rfl
  | case2 => cases h
  | case3 a b rest ih =>
    obtain ⟨x, hx, h⟩ := bind_eq_some_iff.mp h
    obtain ⟨y, hy, h⟩ := bind_eq_some_iff.mp h
    obtain ⟨more, hmore, h⟩ := bind_eq_some_iff.mp h
    cases h
    obtain ⟨hx16, rfl⟩ := digitChar_of_hexValue hx
    obtain ⟨hy16, rfl⟩ := digitChar_of_hexValue hy
    have hval : (UInt8.ofNat (16 * x + y)).toNat = 16 * x + y := by
      exact Nat.mod_eq_of_lt (by omega)
    show Nat.digitChar ((UInt8.ofNat (16 * x + y)).toNat / 16) ::
      Nat.digitChar ((UInt8.ofNat (16 * x + y)).toNat % 16) :: hex more = _
    rw [hval, ih hmore, show (16 * x + y) / 16 = x by omega, show (16 * x + y) % 16 = y by omega]

end SentinelPass.Lib
