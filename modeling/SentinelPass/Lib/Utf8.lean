import SentinelPass.Lib.Text

/-!
# Bytes as UTF-8 text

`str::from_utf8` and its agreement with `textBytes`: it reads back what was
encoded, accepts nothing else, and a piece of an encoded text that is itself
valid is the encoding of a piece of the text. A newline is the byte 10 and no
other character has that byte.
-/

namespace SentinelPass.Lib

open List

/-- One character after another; a character has at most four bytes. -/
def readChars : Nat → List UInt8 → Option Text
  | _, [] => some []
  | 0, _ :: _ => none
  | fuel + 1, b :: rest =>
    match ((b :: rest).take 4).toByteArray.utf8DecodeChar? 0 with
    | none => none
    | some c => (readChars fuel ((b :: rest).drop c.utf8Size)).map (c :: ·)

def fromUtf8 (b : List UInt8) : Option Text := readChars b.length b

variable {t : Text} {fuel : Nat}

@[simp] theorem textBytes_nil : textBytes [] = [] := rfl

@[simp] theorem textBytes_cons (c t) :
    textBytes (c :: t) = String.utf8EncodeChar c ++ textBytes t := rfl

@[simp] theorem textBytes_append (s t : Text) : textBytes (s ++ t) = textBytes s ++ textBytes t :=
  flatMap_append

theorem length_textBytes_of_ascii (h : ∀ c ∈ t, c.toNat ≤ 127) :
    (textBytes t).length = t.length := by
  induction t with
  | nil => rfl
  | cons c t ih =>
    have hc : c.toNat ≤ 127 := h c mem_cons_self
    have hone : (String.utf8EncodeChar c).length = 1 := by
      unfold String.utf8EncodeChar
      simp only [show c.val.toNat ≤ 127 from hc, if_true, length_singleton]
    rw [textBytes_cons, length_append, hone, ih fun d hd => h d (mem_cons_of_mem c hd), length_cons]
    omega

theorem length_textBytes_hex (bytes) : (textBytes (hex bytes)).length = 2 * bytes.length := by
  rw [length_textBytes_of_ascii, length_hex]
  intro c hc
  have hascii : ∀ n < 16, (Nat.digitChar n).toNat ≤ 127 := by decide
  obtain ⟨n, hn, rfl⟩ := mem_hex hc
  exact hascii n hn

theorem toByteArray_textBytes (t : Text) : (textBytes t).toByteArray = t.utf8Encode := rfl

theorem readChars_textBytes (h : t.length ≤ fuel) :
    readChars fuel (textBytes t) = some t := by
  induction t generalizing fuel with
  | nil => rw [textBytes_nil, readChars]
  | cons c t ih =>
    have hlen := String.length_utf8EncodeChar c
    have hfour : c.utf8Size ≤ 4 := c.utf8Size_le_four
    obtain ⟨b, more, hb⟩ := exists_cons_of_ne_nil (String.utf8EncodeChar_ne_nil)
    obtain ⟨fuel, rfl⟩ := Nat.exists_eq_add_of_le' (Nat.lt_of_lt_of_le (Nat.succ_pos _) h)
    have htake : (String.utf8EncodeChar c ++ textBytes t).take 4
        = String.utf8EncodeChar c ++ (textBytes t).take (4 - c.utf8Size) := by
      rw [take_append, take_of_length_le (by omega), hlen]
    have hread : ((String.utf8EncodeChar c ++ textBytes t).take 4).toByteArray.utf8DecodeChar? 0
        = some c := by
      rw [htake, toByteArray_append, ByteArray.utf8DecodeChar?_utf8EncodeChar_append]
    have hdrop : (String.utf8EncodeChar c ++ textBytes t).drop c.utf8Size = textBytes t := by
      rw [← hlen, drop_left]
    have hrest := ih (Nat.le_of_succ_le_succ h)
    rw [textBytes_cons]
    rw [hb, cons_append] at hread hdrop ⊢
    rw [readChars, hread]
    dsimp only
    rw [hdrop, hrest]
    rfl

theorem length_le_textBytes (t : Text) : t.length ≤ (textBytes t).length := by
  induction t with
  | nil => exact Nat.le_refl 0
  | cons c t ih =>
    have hpos := c.utf8Size_pos
    rw [textBytes_cons, length_append, String.length_utf8EncodeChar, length_cons]
    omega

@[simp] theorem fromUtf8_textBytes (t : Text) : fromUtf8 (textBytes t) = some t :=
  readChars_textBytes (length_le_textBytes t)

theorem textBytes_of_readChars {b} (h : readChars fuel b = some t) : textBytes t = b := by
  induction fuel, b using readChars.induct generalizing t with
  | case1 =>
    rw [readChars] at h
    cases h
    rfl
  | case2 =>
    cases h
  | case3 fuel b rest hnone =>
    rw [readChars, hnone] at h
    cases h
  | case4 fuel b rest c hc ih =>
    rw [readChars, hc] at h
    obtain ⟨t, ht, rfl⟩ := Option.map_eq_some_iff.mp h
    obtain ⟨l, hl⟩ := ByteArray.exists_of_utf8DecodeChar?_eq_some hc
    have htake : (b :: rest).take 4 = String.utf8EncodeChar c ++ l.data.toList := by
      refine toByteArray_inj.mp ?_
      rw [hl, toByteArray_append]
      ext1
      simp
    have hwhole : b :: rest = String.utf8EncodeChar c ++ (l.data.toList ++ (b :: rest).drop 4) := by
      rw [← append_assoc, ← htake, take_append_drop]
    have hrest : textBytes t = l.data.toList ++ (b :: rest).drop 4 := by
      rw [ih ht, ← String.length_utf8EncodeChar, hwhole, drop_left, ← hwhole]
    rw [textBytes_cons, hrest, ← hwhole]

theorem textBytes_of_fromUtf8 {b} (h : fromUtf8 b = some t) : textBytes t = b :=
  textBytes_of_readChars h

theorem textBytes_injective {s : Text} (h : textBytes s = textBytes t) : s = t := by
  have hs := fromUtf8_textBytes s
  rw [h, fromUtf8_textBytes] at hs
  exact (Option.some.inj hs).symm

theorem textBytes_eq_nil : textBytes t = [] ↔ t = [] :=
  ⟨fun h => textBytes_injective h, fun h => by rw [h]; rfl⟩

/-- Bytes in front of more bytes of a text. -/
theorem isPrefix_of_textBytes {s t : Text} {rest : List UInt8}
    (h : textBytes s ++ rest = textBytes t) : s <+: t := by
  refine isPrefix_of_utf8Encode_append_eq_utf8Encode rest.toByteArray ?_
  rw [← toByteArray_textBytes, ← toByteArray_textBytes, ← h]
  simp

/-- A character starts with a first byte and goes on with others. -/
theorem utf8EncodeChar_shape (c : Char) :
    ∃ first more, String.utf8EncodeChar c = first :: more ∧ first.IsUTF8FirstByte ∧
      ∀ b ∈ more, ¬ b.IsUTF8FirstByte := by
  obtain ⟨first, more, hc⟩ := exists_cons_of_ne_nil (String.utf8EncodeChar_ne_nil (c := c))
  have hbyte := fun i (hi : i < (String.utf8EncodeChar c).length) =>
    @UInt8.isUTF8FirstByte_getElem_utf8EncodeChar c i hi
  simp only [hc] at hbyte
  refine ⟨first, more, hc, (hbyte 0 (by simp)).mpr rfl, ?_⟩
  intro b hb
  obtain ⟨i, hi, rfl⟩ := mem_iff_getElem.mp hb
  intro hfirst
  have hzero := (hbyte (i + 1) (by simpa using hi)).mp (by simpa using hfirst)
  omega

/-- Bytes at the end of a text that are text start at a character. -/
theorem isSuffix_of_textBytes {s t : Text} {front : List UInt8}
    (h : front ++ textBytes s = textBytes t) : s <:+ t := by
  induction t generalizing front with
  | nil =>
    have hs : textBytes s = [] := (append_eq_nil_iff.mp h).2
    obtain rfl := textBytes_eq_nil.mp hs
    exact nil_suffix
  | cons c t ih =>
    cases front with
    | nil =>
      obtain rfl : s = c :: t := textBytes_injective h
      exact suffix_rfl
    | cons x front =>
      obtain ⟨first, more, hc, -, hmore⟩ := utf8EncodeChar_shape c
      rw [textBytes_cons, hc, cons_append, cons_append, cons.injEq] at h
      rcases append_eq_append_iff.mp h.2 with ⟨mid, hsplit, hs⟩ | ⟨mid, hfront, hrest⟩
      · cases s with
        | nil => exact nil_suffix
        | cons d s =>
          cases mid with
          | nil =>
            rw [textBytes_injective hs]
            exact suffix_cons c t
          | cons y mid =>
            -- `d` would start with a byte from inside `c`
            obtain ⟨dfirst, dmore, hd, hdfirst, -⟩ := utf8EncodeChar_shape d
            rw [textBytes_cons, hd, cons_append, cons_append, cons.injEq] at hs
            have hy : y ∈ more := by simp [hsplit]
            exact absurd (hs.1 ▸ hdfirst) (hmore y hy)
      · exact (ih hrest.symm).trans (suffix_cons c t)

/-! ## Newlines -/

theorem newline_bytes : String.utf8EncodeChar '\n' = [10] := by decide

/-- The byte of a one-byte character is in no other character. -/
theorem eq_of_mem_utf8EncodeChar {c d : Char} {b : UInt8} (hd : String.utf8EncodeChar d = [b])
    (h : b ∈ String.utf8EncodeChar c) : c = d := by
  have hb : b.IsUTF8FirstByte := by
    obtain ⟨first, more, hshape, hfirst, -⟩ := utf8EncodeChar_shape d
    rw [hd] at hshape
    rwa [(cons.inj hshape).1]
  obtain ⟨first, more, hc, -, hmore⟩ := utf8EncodeChar_shape c
  rw [hc] at h
  rcases mem_cons.mp h with rfl | h
  · have hboth : textBytes [d] ++ more = textBytes [c] := by
      simp [hc, hd]
    obtain ⟨rest, hrest⟩ := isPrefix_of_textBytes hboth
    exact (cons.inj hrest.symm).1
  · exact absurd hb (hmore b h)

theorem eq_newline_of_mem {c : Char} (h : (10 : UInt8) ∈ String.utf8EncodeChar c) : c = '\n' :=
  eq_of_mem_utf8EncodeChar newline_bytes h

/-- A text ends with a newline when its bytes do. -/
theorem getLast?_textBytes {t : Text} :
    (textBytes t).getLast? = some 10 ↔ t.getLast? = some '\n' := by
  rcases eq_nil_or_concat' t with rfl | ⟨t, c, rfl⟩
  · simp
  · have hne : String.utf8EncodeChar c ≠ [] := String.utf8EncodeChar_ne_nil
    rw [textBytes_append, textBytes_cons, textBytes_nil, append_nil, getLast?_concat,
      getLast?_append_of_ne_nil _ hne]
    constructor
    · intro h
      rw [eq_newline_of_mem (mem_of_getLast? h)]
    · intro h
      rw [Option.some.inj h, newline_bytes]
      rfl

end SentinelPass.Lib
