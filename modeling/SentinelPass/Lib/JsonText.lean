import SentinelPass.Lib.Utf8

/-!
# JSON text

What a compact JSON writer produces for a tree of values, down to the characters:
strings with the short escapes and `\u00xx` for the other control characters,
integers in decimal, members in the order they are given, no white space.
-/

namespace SentinelPass.Lib.Json

open List

/-! ## Writing -/

/-- One character of a string literal. -/
def escapeChar (c : Char) : Text :=
  if c = '"' then ['\\', '"']
  else if c = '\\' then ['\\', '\\']
  else if c.toNat = 8 then ['\\', 'b']
  else if c.toNat = 9 then ['\\', 't']
  else if c.toNat = 10 then ['\\', 'n']
  else if c.toNat = 12 then ['\\', 'f']
  else if c.toNat = 13 then ['\\', 'r']
  else if c.toNat < 32 then
    ['\\', 'u', '0', '0', Nat.digitChar (c.toNat / 16), Nat.digitChar (c.toNat % 16)]
  else [c]

/-- A string literal. -/
def quoted (s : Text) : Text := '"' :: (s.flatMap escapeChar ++ ['"'])

/-- The decimal text of an integer. -/
def showInt (v : Int) : Text :=
  if v < 0 then '-' :: Nat.toDigits 10 v.natAbs else Nat.toDigits 10 v.natAbs

/-- A document. -/
inductive Value
  | null
  | bool (b : Bool)
  | num (n : Int)
  | str (s : Text)
  | arr (items : List Value)
  | obj (members : List (Text × Value))

mutual

/-- The text of a value. -/
def write : Value → Text
  | .null => ['n', 'u', 'l', 'l']
  | .bool true => ['t', 'r', 'u', 'e']
  | .bool false => ['f', 'a', 'l', 's', 'e']
  | .num n => showInt n
  | .str s => quoted s
  | .arr [] => ['[', ']']
  | .arr (v :: rest) => '[' :: (write v ++ writeItems rest)
  | .obj [] => ['{', '}']
  | .obj ((name, v) :: rest) => '{' :: (quoted name ++ ':' :: (write v ++ writeMembers rest))

/-- The items after the first one. -/
def writeItems : List Value → Text
  | [] => [']']
  | v :: rest => ',' :: (write v ++ writeItems rest)

/-- The members after the first one. -/
def writeMembers : List (Text × Value) → Text
  | [] => ['}']
  | (name, v) :: rest => ',' :: (quoted name ++ ':' :: (write v ++ writeMembers rest))

end

mutual

open Value

/-- How deep the brackets of a value nest. -/
def Value.depth : Value → Nat
  | .arr items => depthItems items + 1
  | .obj members => depthMembers members + 1
  | _ => 0

def Value.depthItems : List Value → Nat
  | [] => 0
  | v :: rest => max v.depth (depthItems rest)

def Value.depthMembers : List (Text × Value) → Nat
  | [] => 0
  | (_, v) :: rest => max v.depth (depthMembers rest)

end

/-! ## Strings and numbers read back -/

/-- What stands after a backslash. -/
def unescapeTail : Text → Option (Char × Text)
  | 'b' :: rest => some (Char.ofNat 8, rest)
  | 't' :: rest => some (Char.ofNat 9, rest)
  | 'n' :: rest => some (Char.ofNat 10, rest)
  | 'f' :: rest => some (Char.ofNat 12, rest)
  | 'r' :: rest => some (Char.ofNat 13, rest)
  | 'u' :: '0' :: '0' :: hi :: lo :: rest => do
    let hi ← hexValue hi
    let lo ← hexValue lo
    some (Char.ofNat (16 * hi + lo), rest)
  | c :: rest => some (c, rest)
  | [] => none

/-- Undo one `escapeChar`; a quote ends the string. -/
def unescape : Text → Option (Char × Text)
  | [] => none
  | c :: rest => if c = '"' then none else if c = '\\' then unescapeTail rest else some (c, rest)

theorem unescape_escapeChar (c rest) : unescape (escapeChar c ++ rest) = some (c, rest) := by
  have hof : ∀ n, c.toNat = n → c = Char.ofNat n := fun n h => by rw [← h, Char.ofNat_toNat]
  unfold escapeChar
  by_cases hquote : c = '"'
  · subst hquote
    rfl
  by_cases hslash : c = '\\'
  · subst hslash
    rfl
  by_cases h8 : c.toNat = 8
  · rw [hof 8 h8]
    rfl
  by_cases h9 : c.toNat = 9
  · rw [hof 9 h9]
    rfl
  by_cases h10 : c.toNat = 10
  · rw [hof 10 h10]
    rfl
  by_cases h12 : c.toNat = 12
  · rw [hof 12 h12]
    rfl
  by_cases h13 : c.toNat = 13
  · rw [hof 13 h13]
    rfl
  simp only [hquote, hslash, h8, h9, h10, h12, h13, if_false]
  by_cases hcontrol : c.toNat < 32
  · rw [if_pos hcontrol]
    have hhi := hexValue_digitChar (show c.toNat / 16 < 16 by omega)
    have hlo := hexValue_digitChar (show c.toNat % 16 < 16 by omega)
    have hsum : 16 * (c.toNat / 16) + c.toNat % 16 = c.toNat := by omega
    show unescapeTail ('u' :: '0' :: '0' :: _ :: _ :: rest) = _
    simp only [unescapeTail, hhi, hlo]
    show some (Char.ofNat (16 * (c.toNat / 16) + c.toNat % 16), rest) = _
    rw [hsum, Char.ofNat_toNat]
  · rw [if_neg hcontrol]
    show unescape (c :: rest) = _
    simp [unescape, hquote, hslash]

/-- The body of a string literal ends at its closing quote. -/
theorem escaped_append_inj {s t r r' : Text}
    (h : s.flatMap escapeChar ++ '"' :: r = t.flatMap escapeChar ++ '"' :: r') :
    s = t ∧ r = r' := by
  induction s generalizing t with
  | nil =>
    cases t with
    | nil => exact ⟨rfl, (cons.inj h).2⟩
    | cons d t =>
      rw [flatMap_cons, append_assoc] at h
      have hread := unescape_escapeChar d (t.flatMap escapeChar ++ '"' :: r')
      rw [← h] at hread
      cases hread
  | cons c s ih =>
    rw [flatMap_cons, append_assoc] at h
    have hc := unescape_escapeChar c (s.flatMap escapeChar ++ '"' :: r)
    cases t with
    | nil =>
      rw [h] at hc
      cases hc
    | cons d t =>
      rw [flatMap_cons, append_assoc] at h
      rw [h, unescape_escapeChar] at hc
      obtain ⟨rfl, hrest⟩ := Prod.mk.inj (Option.some.inj hc)
      obtain ⟨rfl, hr⟩ := ih hrest.symm
      exact ⟨rfl, hr⟩

theorem quoted_append_inj {s t r r' : Text} (h : quoted s ++ r = quoted t ++ r') :
    s = t ∧ r = r' := by
  unfold quoted at h
  simp only [cons_append, append_assoc, nil_append, cons.injEq, true_and] at h
  exact escaped_append_inj h

/-- The characters of a decimal number. -/
def isNumChar (c : Char) : Bool := c = '-' || c.isDigit

variable {n m : Int} {c : Char} {r r' : Text} {v : Value}

theorem isNumChar_of_mem_showInt (h : c ∈ showInt n) : isNumChar c = true := by
  unfold isNumChar
  unfold showInt at h
  split at h
  · rcases mem_cons.mp h with rfl | h
    · rfl
    rw [isDigit_of_mem_digits h, Bool.or_true]
  · rw [isDigit_of_mem_digits h, Bool.or_true]

theorem showInt_injective (h : showInt m = showInt n) : m = n := by
  have hsign : ∀ {a b : Nat}, '-' :: Nat.toDigits 10 a ≠ Nat.toDigits 10 b := by
    intro a b hab
    have hmem : '-' ∈ Nat.toDigits 10 b := hab ▸ mem_cons_self
    exact absurd (isDigit_of_mem_digits hmem) (by decide)
  unfold showInt at h
  split at h
  · split at h
    · have := toDigits_inj (cons.inj h).2
      omega
    · exact absurd h hsign
  · split at h
    · exact absurd h.symm hsign
    have := toDigits_inj h
    omega

/-- What may stand behind a value: nothing, or the next separator. -/
def Delimited (r : Text) : Prop := ∀ c ∈ r.head?, c = ',' ∨ c = ']' ∨ c = '}'

theorem delimited_cons {c : Char} {r : Text} (h : c = ',' ∨ c = ']' ∨ c = '}') :
    Delimited (c :: r) := by
  intro d hd
  cases hd
  exact h

theorem takeWhile_showInt (hr : Delimited r) :
    (showInt n ++ r).takeWhile isNumChar = showInt n := by
  rw [takeWhile_append_of_pos fun c hc => isNumChar_of_mem_showInt hc]
  cases r with
  | nil => simp
  | cons c r =>
    have hc : isNumChar c = false := by
      rcases hr c rfl with rfl | rfl | rfl <;> decide
    simp [hc]

theorem showInt_append_inj (hr : Delimited r) (hr' : Delimited r')
    (h : showInt m ++ r = showInt n ++ r') : m = n ∧ r = r' := by
  have hmn : m = n := by
    refine showInt_injective ?_
    rw [← takeWhile_showInt hr, h, takeWhile_showInt hr']
  subst hmn
  exact ⟨rfl, append_cancel_left h⟩

/-! ## Values -/

/-- Which kind of value starts with a character. -/
def startKind (c : Char) : Nat :=
  if c = 'n' then 0 else if c = 't' then 1 else if c = 'f' then 2 else if c = '"' then 4
  else if c = '[' then 5 else if c = '{' then 6 else if isNumChar c then 3 else 7

/-- The kind of a value, as its first character tells it. -/
def Value.kind : Value → Nat
  | .null => 0
  | .bool true => 1
  | .bool false => 2
  | .num _ => 3
  | .str _ => 4
  | .arr _ => 5
  | .obj _ => 6

theorem exists_showInt_cons (n : Int) : ∃ c rest, showInt n = c :: rest ∧ isNumChar c = true := by
  have hne : showInt n ≠ [] := by
    unfold showInt
    split
    · exact cons_ne_nil _ _
    · exact Nat.toDigits_ne_nil
  obtain ⟨c, rest, h⟩ := exists_cons_of_ne_nil hne
  exact ⟨c, rest, h, isNumChar_of_mem_showInt (h ▸ mem_cons_self)⟩

theorem startKind_of_isNumChar (h : isNumChar c = true) : startKind c = 3 := by
  have hne : ∀ d, isNumChar d = false → c ≠ d := by
    rintro d hd rfl
    rw [h] at hd
    cases hd
  unfold startKind
  simp only [hne 'n' (by decide), hne 't' (by decide), hne 'f' (by decide), hne '"' (by decide),
    hne '[' (by decide), hne '{' (by decide), if_false, h, if_true]

theorem exists_write_cons (v : Value) : ∃ c rest, write v = c :: rest ∧ startKind c = v.kind := by
  cases v with
  | null => exact ⟨'n', _, write.eq_1, rfl⟩
  | bool b =>
    cases b with
    | true => exact ⟨'t', _, write.eq_2, rfl⟩
    | false => exact ⟨'f', _, write.eq_3, rfl⟩
  | num n =>
    obtain ⟨c, rest, h, hc⟩ := exists_showInt_cons n
    exact ⟨c, rest, by rw [write, h], startKind_of_isNumChar hc⟩
  | str s => exact ⟨'"', _, by rw [write, quoted], rfl⟩
  | arr items =>
    cases items with
    | nil => exact ⟨'[', _, by rw [write], rfl⟩
    | cons v rest => exact ⟨'[', _, by rw [write], rfl⟩
  | obj members =>
    cases members with
    | nil => exact ⟨'{', _, by rw [write], rfl⟩
    | cons m rest => exact ⟨'{', _, by rw [write], rfl⟩

theorem kind_eq_of_write {w : Value} (h : write v ++ r = write w ++ r') : v.kind = w.kind := by
  obtain ⟨c, rest, hv, hc⟩ := exists_write_cons v
  obtain ⟨d, rest', hw, hd⟩ := exists_write_cons w
  rw [hv, hw] at h
  rw [← hc, ← hd, (cons.inj h).1]

theorem delimited_writeItems (items r) : Delimited (writeItems items ++ r) := by
  cases items with
  | nil => exact delimited_cons (.inr (.inl rfl))
  | cons v rest => exact delimited_cons (.inl rfl)

theorem delimited_writeMembers (members r) : Delimited (writeMembers members ++ r) := by
  cases members with
  | nil => exact delimited_cons (.inr (.inr rfl))
  | cons m rest => exact delimited_cons (.inl rfl)

/-- A value does not start with a separator. -/
theorem write_append_ne_cons (hc : startKind c = 7) : write v ++ r ≠ c :: r' := by
  intro h
  obtain ⟨d, rest, hv, hd⟩ := exists_write_cons v
  have hkind : v.kind ≤ 6 := by
    cases v with
    | bool b => cases b <;> exact Nat.le_of_ble_eq_true rfl
    | _ => exact Nat.le_of_ble_eq_true rfl
  rw [hv] at h
  rw [(cons.inj h).1, hc] at hd
  omega

mutual

/-- The text of a value tells the value and where it ends. -/
theorem write_append_inj (v w : Value) {r r' : Text} (hr : Delimited r) (hr' : Delimited r')
    (h : write v ++ r = write w ++ r') : v = w ∧ r = r' := by
  -- both start with the same character, so they are of one kind
  have hkind := kind_eq_of_write h
  cases v with
  | null =>
    cases w with
    | null => exact ⟨rfl, append_cancel_left h⟩
    | bool b => cases b <;> cases hkind
    | _ => cases hkind
  | bool b =>
    cases w with
    | bool b' =>
      cases b <;> cases b' <;>
        first | exact ⟨rfl, append_cancel_left h⟩ | cases hkind
    | _ => cases b <;> cases hkind
  | num n =>
    cases w with
    | num n' =>
      simp only [write] at h
      obtain ⟨rfl, hrest⟩ := showInt_append_inj hr hr' h
      exact ⟨rfl, hrest⟩
    | bool b => cases b <;> cases hkind
    | _ => cases hkind
  | str s =>
    cases w with
    | str s' =>
      simp only [write] at h
      obtain ⟨rfl, hrest⟩ := quoted_append_inj h
      exact ⟨rfl, hrest⟩
    | bool b => cases b <;> cases hkind
    | _ => cases hkind
  | arr items =>
    cases w with
    | arr items' =>
      cases items with
      | nil =>
        cases items' with
        | nil => exact ⟨rfl, append_cancel_left h⟩
        | cons w ws =>
          simp only [write, cons_append, append_assoc, cons.injEq, true_and] at h
          exact absurd h.symm (write_append_ne_cons (by decide))
      | cons v vs =>
        cases items' with
        | nil =>
          simp only [write, cons_append, append_assoc, cons.injEq, true_and] at h
          exact absurd h (write_append_ne_cons (by decide))
        | cons w ws =>
          simp only [write, cons_append, append_assoc, cons.injEq, true_and] at h
          obtain ⟨rfl, hrest⟩ := write_append_inj v w (delimited_writeItems vs r)
            (delimited_writeItems ws r') h
          obtain ⟨rfl, hr⟩ := writeItems_append_inj vs ws hrest
          exact ⟨rfl, hr⟩
    | bool b => cases b <;> cases hkind
    | _ => cases hkind
  | obj members =>
    cases w with
    | obj members' =>
      cases members with
      | nil =>
        cases members' with
        | nil => exact ⟨rfl, append_cancel_left h⟩
        | cons m ms =>
          simp only [write, quoted, cons_append, cons.injEq, true_and] at h
          exact absurd h.1 (by decide)
      | cons m ms =>
        cases members' with
        | nil =>
          simp only [write, quoted, cons_append, cons.injEq, true_and] at h
          exact absurd h.1 (by decide)
        | cons m' ms' =>
          obtain ⟨name, v⟩ := m
          obtain ⟨name', w⟩ := m'
          simp only [write, cons_append, append_assoc, cons.injEq, true_and] at h
          obtain ⟨rfl, hvalue⟩ := quoted_append_inj h
          obtain ⟨rfl, hrest⟩ := write_append_inj v w (delimited_writeMembers ms r)
            (delimited_writeMembers ms' r') (cons.inj hvalue).2
          obtain ⟨rfl, hr⟩ := writeMembers_append_inj ms ms' hrest
          exact ⟨rfl, hr⟩
    | bool b => cases b <;> cases hkind
    | _ => cases hkind

theorem writeItems_append_inj (vs ws) {r r'} (h : writeItems vs ++ r = writeItems ws ++ r') :
    vs = ws ∧ r = r' := by
  cases vs with
  | nil =>
    cases ws with
    | nil => exact ⟨rfl, (cons.inj h).2⟩
    | cons w ws => cases (cons.inj h).1
  | cons v vs =>
    cases ws with
    | nil => cases (cons.inj h).1
    | cons w ws =>
      simp only [writeItems, cons_append, append_assoc, cons.injEq, true_and] at h
      obtain ⟨rfl, hrest⟩ := write_append_inj v w (delimited_writeItems vs r)
        (delimited_writeItems ws r') h
      obtain ⟨rfl, hr⟩ := writeItems_append_inj vs ws hrest
      exact ⟨rfl, hr⟩

theorem writeMembers_append_inj (ms ms' : List (Text × Value)) {r r' : Text}
    (h : writeMembers ms ++ r = writeMembers ms' ++ r') : ms = ms' ∧ r = r' := by
  cases ms with
  | nil =>
    cases ms' with
    | nil => exact ⟨rfl, (cons.inj h).2⟩
    | cons m ms' => cases (cons.inj h).1
  | cons m ms =>
    cases ms' with
    | nil => cases (cons.inj h).1
    | cons m' ms' =>
      obtain ⟨name, v⟩ := m
      obtain ⟨name', w⟩ := m'
      simp only [writeMembers, cons_append, append_assoc, cons.injEq, true_and] at h
      obtain ⟨rfl, hvalue⟩ := quoted_append_inj h
      obtain ⟨rfl, hrest⟩ := write_append_inj v w (delimited_writeMembers ms r)
        (delimited_writeMembers ms' r') (cons.inj hvalue).2
      obtain ⟨rfl, hr⟩ := writeMembers_append_inj ms ms' hrest
      exact ⟨rfl, hr⟩

end

/-- A document is determined by its text. -/
theorem write_injective {v w : Value} (h : write v = write w) : v = w := by
  have hnil : Delimited [] := fun c hc => by cases hc
  exact (write_append_inj v w hnil hnil (by rw [h])).1

/-- A property of the elements of a list, checked by running through it. -/
theorem forall_mem_of_all {α : Type} {p : α → Prop} [DecidablePred p] {l : List α}
    (h : l.all (fun a => decide (p a)) = true) : ∀ a ∈ l, p a := by
  simpa using h

/-! ## Nesting -/

/-- Where a scan over the bytes stands: outside of string literals, inside one, or
behind a backslash. -/
inductive ScanMode
  | outside
  | inside
  | escaped
deriving DecidableEq

/-- Count brackets outside of string literals, from a depth on; stop as soon as the
depth passes the limit. -/
def depthExceeds (limit : Nat) : Nat → ScanMode → List UInt8 → Bool
  | _, _, [] => false
  | depth, .escaped, _ :: rest => depthExceeds limit depth .inside rest
  | depth, .inside, b :: rest =>
    if b = 92 then depthExceeds limit depth .escaped rest
    else if b = 34 then depthExceeds limit depth .outside rest
    else depthExceeds limit depth .inside rest
  | depth, .outside, b :: rest =>
    if b = 34 then depthExceeds limit depth .inside rest
    else if b = 123 ∨ b = 91 then
      if limit < depth + 1 then true else depthExceeds limit (depth + 1) .outside rest
    else if b = 125 ∨ b = 93 then depthExceeds limit (depth - 1) .outside rest
    else depthExceeds limit depth .outside rest

theorem bytes_open_bracket : String.utf8EncodeChar '[' = [91] := by decide

theorem bytes_close_bracket : String.utf8EncodeChar ']' = [93] := by decide

theorem bytes_open_brace : String.utf8EncodeChar '{' = [123] := by decide

theorem bytes_close_brace : String.utf8EncodeChar '}' = [125] := by decide

theorem bytes_comma : String.utf8EncodeChar ',' = [44] := by decide

theorem bytes_colon : String.utf8EncodeChar ':' = [58] := by decide

section Scan

variable {limit depth : Nat} {b : UInt8}

theorem depthExceeds_inside_bytes {bs rest : List UInt8} (h : ∀ b ∈ bs, b ≠ 92 ∧ b ≠ 34) :
    depthExceeds limit depth .inside (bs ++ rest) = depthExceeds limit depth .inside rest := by
  induction bs with
  | nil => rfl
  | cons b bs ih =>
    obtain ⟨hslash, hquote⟩ := h b mem_cons_self
    rw [cons_append, depthExceeds, if_neg hslash, if_neg hquote,
      ih fun c hc => h c (mem_cons_of_mem b hc)]

theorem depthExceeds_outside_bytes {bs rest}
    (h : ∀ b ∈ bs, b ≠ 34 ∧ b ≠ 123 ∧ b ≠ 91 ∧ b ≠ 125 ∧ b ≠ 93) :
    depthExceeds limit depth .outside (bs ++ rest) = depthExceeds limit depth .outside rest := by
  induction bs with
  | nil => rfl
  | cons b bs ih =>
    obtain ⟨hquote, hobj, harr, hobj', harr'⟩ := h b mem_cons_self
    rw [cons_append, depthExceeds, if_neg hquote, if_neg (by tauto), if_neg (by tauto),
      ih fun c hc => h c (mem_cons_of_mem b hc)]

theorem depthExceeds_backslash {c : Char} {b : UInt8} (hc : String.utf8EncodeChar c = [b]) (rest) :
    depthExceeds limit depth .inside (textBytes ['\\', c] ++ rest)
      = depthExceeds limit depth .inside rest := by
  have hslash : String.utf8EncodeChar '\\' = [92] := by decide
  simp [hc, hslash, depthExceeds]

/-- An escaped character does not end the literal. -/
theorem depthExceeds_escapeChar (c : Char) (rest : List UInt8) :
    depthExceeds limit depth .inside (textBytes (escapeChar c) ++ rest)
      = depthExceeds limit depth .inside rest := by
  have hall : ∀ n < 16, (String.utf8EncodeChar (Nat.digitChar n)).all
      (fun b => decide (b ≠ 92 ∧ b ≠ 34)) = true := by decide
  have hdigit : ∀ n < 16, ∀ b ∈ String.utf8EncodeChar (Nat.digitChar n), b ≠ 92 ∧ b ≠ 34 :=
    fun n hn => forall_mem_of_all (hall n hn)
  unfold escapeChar
  split_ifs with h1 h2 h3 h4 h5 h6 h7 h8
  · exact depthExceeds_backslash (by decide : String.utf8EncodeChar '"' = [34]) rest
  · exact depthExceeds_backslash (by decide : String.utf8EncodeChar '\\' = [92]) rest
  · exact depthExceeds_backslash (by decide : String.utf8EncodeChar 'b' = [98]) rest
  · exact depthExceeds_backslash (by decide : String.utf8EncodeChar 't' = [116]) rest
  · exact depthExceeds_backslash (by decide : String.utf8EncodeChar 'n' = [110]) rest
  · exact depthExceeds_backslash (by decide : String.utf8EncodeChar 'f' = [102]) rest
  · exact depthExceeds_backslash (by decide : String.utf8EncodeChar 'r' = [114]) rest
  · have hhead : textBytes ['\\', 'u', '0', '0', Nat.digitChar (c.toNat / 16),
        Nat.digitChar (c.toNat % 16)] ++ rest
        = textBytes ['\\', 'u'] ++ (textBytes ['0', '0', Nat.digitChar (c.toNat / 16),
          Nat.digitChar (c.toNat % 16)] ++ rest) := by
      simp
    rw [hhead, depthExceeds_backslash (by decide : String.utf8EncodeChar 'u' = [117]),
      depthExceeds_inside_bytes]
    intro b hb
    simp only [textBytes_cons, textBytes_nil, append_nil, mem_append] at hb
    rcases hb with hb | hb | hb | hb
    · exact hdigit 0 (by decide) b hb
    · exact hdigit 0 (by decide) b hb
    · exact hdigit (c.toNat / 16) (by omega) b hb
    · exact hdigit (c.toNat % 16) (by omega) b hb
  · refine depthExceeds_inside_bytes fun b hb => ⟨?_, ?_⟩
    · rintro rfl
      rw [textBytes_cons, textBytes_nil, append_nil] at hb
      exact h2 (eq_of_mem_utf8EncodeChar (by decide) hb)
    · rintro rfl
      rw [textBytes_cons, textBytes_nil, append_nil] at hb
      exact h1 (eq_of_mem_utf8EncodeChar (by decide) hb)

theorem depthExceeds_quoted (s rest) :
    depthExceeds limit depth .outside (textBytes (quoted s) ++ rest)
      = depthExceeds limit depth .outside rest := by
  have hquote : String.utf8EncodeChar '"' = [34] := by decide
  have hbody : ∀ t : Text, depthExceeds limit depth .inside
      (textBytes (t.flatMap escapeChar ++ ['"']) ++ rest)
      = depthExceeds limit depth .outside rest := by
    intro t
    induction t with
    | nil => simp [hquote, depthExceeds]
    | cons c t ih =>
      rw [flatMap_cons, append_assoc, textBytes_append, append_assoc,
        depthExceeds_escapeChar, ih]
  rw [quoted, textBytes_cons, hquote, singleton_append, cons_append, depthExceeds,
    if_pos rfl, hbody s]

theorem ne_bracket_of_isNumChar (h : isNumChar c = true) :
    ∀ b ∈ String.utf8EncodeChar c, b ≠ 34 ∧ b ≠ 123 ∧ b ≠ 91 ∧ b ≠ 125 ∧ b ≠ 93 := by
  have hne : ∀ d b, isNumChar d = false → String.utf8EncodeChar d = [b] →
      b ∉ String.utf8EncodeChar c := by
    intro d b hd hbytes hmem
    rw [← eq_of_mem_utf8EncodeChar hbytes hmem, h] at hd
    cases hd
  intro b hb
  refine ⟨?_, ?_, ?_, ?_, ?_⟩
  · rintro rfl
    exact hne '"' 34 (by decide) (by decide) hb
  · rintro rfl
    exact hne '{' 123 (by decide) (by decide) hb
  · rintro rfl
    exact hne '[' 91 (by decide) (by decide) hb
  · rintro rfl
    exact hne '}' 125 (by decide) (by decide) hb
  · rintro rfl
    exact hne ']' 93 (by decide) (by decide) hb

theorem depthExceeds_showInt (n rest) :
    depthExceeds limit depth .outside (textBytes (showInt n) ++ rest)
      = depthExceeds limit depth .outside rest := by
  refine depthExceeds_outside_bytes fun b hb => ?_
  obtain ⟨c, hc, hb⟩ := mem_flatMap.mp hb
  exact ne_bracket_of_isNumChar (isNumChar_of_mem_showInt hc) b hb

/-- The scan at a character of one byte that is no quote and no bracket. -/
theorem depthExceeds_separator (hc : String.utf8EncodeChar c = [b])
    (h : b ≠ 34 ∧ b ≠ 123 ∧ b ≠ 91 ∧ b ≠ 125 ∧ b ≠ 93) (t : List Char) (rest : List UInt8) :
    depthExceeds limit depth .outside (textBytes (c :: t) ++ rest)
      = depthExceeds limit depth .outside (textBytes t ++ rest) := by
  rw [textBytes_cons, append_assoc]
  refine depthExceeds_outside_bytes fun b' hb' => ?_
  rw [hc, mem_singleton] at hb'
  rwa [hb']

/-- The scan at an opening bracket below the limit. -/
theorem depthExceeds_open (hc : String.utf8EncodeChar c = [b]) (hb : b = 123 ∨ b = 91)
    (hlimit : depth < limit) (t : List Char) (rest : List UInt8) :
    depthExceeds limit depth .outside (textBytes (c :: t) ++ rest)
      = depthExceeds limit (depth + 1) .outside (textBytes t ++ rest) := by
  have hquote : b ≠ 34 := by rcases hb with rfl | rfl <;> decide
  rw [textBytes_cons, hc, append_assoc, singleton_append, depthExceeds, if_neg hquote,
    if_pos hb, if_neg (by omega)]

/-- The scan at a closing bracket. -/
theorem depthExceeds_close (hc : String.utf8EncodeChar c = [b]) (hb : b = 125 ∨ b = 93)
    (t : List Char) (rest : List UInt8) :
    depthExceeds limit (depth + 1) .outside (textBytes (c :: t) ++ rest)
      = depthExceeds limit depth .outside (textBytes t ++ rest) := by
  have hne : b ≠ 34 ∧ ¬ (b = 123 ∨ b = 91) := by rcases hb with rfl | rfl <;> decide
  rw [textBytes_cons, hc, append_assoc, singleton_append, depthExceeds, if_neg hne.1,
    if_neg hne.2, if_pos hb, Nat.add_sub_cancel]

end Scan

mutual

/-- The scan passes over a value that nests no deeper than the limit allows. -/
theorem depthExceeds_write (v : Value) {limit depth : Nat} (h : depth + v.depth ≤ limit)
    (rest : List UInt8) :
    depthExceeds limit depth .outside (textBytes (write v) ++ rest)
      = depthExceeds limit depth .outside rest := by
  cases v with
  | null =>
    rw [write]
    exact depthExceeds_outside_bytes (forall_mem_of_all (by decide))
  | bool b =>
    cases b with
    | true =>
      rw [write]
      exact depthExceeds_outside_bytes (forall_mem_of_all (by decide))
    | false =>
      rw [write]
      exact depthExceeds_outside_bytes (forall_mem_of_all (by decide))
  | num n => rw [write, depthExceeds_showInt]
  | str s => rw [write, depthExceeds_quoted]
  | arr items =>
    rw [Value.depth] at h
    cases items with
    | nil =>
      rw [write, depthExceeds_open bytes_open_bracket (.inr rfl) (by omega),
        depthExceeds_close bytes_close_bracket (.inr rfl), textBytes_nil, nil_append]
    | cons v vs =>
      rw [Value.depthItems] at h
      rw [write, depthExceeds_open bytes_open_bracket (.inr rfl) (by omega),
        textBytes_append, append_assoc, depthExceeds_write v (by omega),
        depthExceeds_writeItems vs (by omega)]
  | obj members =>
    rw [Value.depth] at h
    cases members with
    | nil =>
      rw [write, depthExceeds_open bytes_open_brace (.inl rfl) (by omega),
        depthExceeds_close bytes_close_brace (.inl rfl), textBytes_nil, nil_append]
    | cons m ms =>
      obtain ⟨name, v⟩ := m
      rw [Value.depthMembers] at h
      rw [write, depthExceeds_open bytes_open_brace (.inl rfl) (by omega),
        textBytes_append, append_assoc, depthExceeds_quoted,
        depthExceeds_separator bytes_colon (by decide), textBytes_append,
        append_assoc, depthExceeds_write v (by omega),
        depthExceeds_writeMembers ms (by omega)]

theorem depthExceeds_writeItems (vs) {limit depth} (h : depth + 1 + Value.depthItems vs ≤ limit)
    (rest) :
    depthExceeds limit (depth + 1) .outside (textBytes (writeItems vs) ++ rest)
      = depthExceeds limit depth .outside rest := by
  cases vs with
  | nil =>
    rw [writeItems, depthExceeds_close bytes_close_bracket (.inr rfl), textBytes_nil, nil_append]
  | cons v vs =>
    rw [Value.depthItems] at h
    rw [writeItems, depthExceeds_separator bytes_comma (by decide), textBytes_append,
      append_assoc, depthExceeds_write v (by omega), depthExceeds_writeItems vs (by omega)]

theorem depthExceeds_writeMembers (ms) {limit depth} (h : depth + 1 + Value.depthMembers ms ≤ limit)
    (rest) :
    depthExceeds limit (depth + 1) .outside (textBytes (writeMembers ms) ++ rest)
      = depthExceeds limit depth .outside rest := by
  cases ms with
  | nil =>
    rw [writeMembers, depthExceeds_close bytes_close_brace (.inl rfl), textBytes_nil, nil_append]
  | cons m ms =>
    obtain ⟨name, v⟩ := m
    rw [Value.depthMembers] at h
    rw [writeMembers, depthExceeds_separator bytes_comma (by decide),
      textBytes_append, append_assoc, depthExceeds_quoted,
      depthExceeds_separator bytes_colon (by decide), textBytes_append,
      append_assoc, depthExceeds_write v (by omega), depthExceeds_writeMembers ms (by omega)]

end

end SentinelPass.Lib.Json
