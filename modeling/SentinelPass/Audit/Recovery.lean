import SentinelPass.Audit.Log

/-!
# What a log file holds, and how its end is read

A file that only appends have written is a list of whole lines, each a record or
the start of a record that a crash cut and a later append ended, and after them
possibly a torn tail (`Chunk`). The window at the end of the file, the fallback
and the walk over older files all lead to the last whole record
(`recover_chunks`), and reading gives exactly the whole records
(`fileEntries_chunk`).

`AuditEnv.Lawful` is what `serde_json` documents about compact objects.
-/

namespace SentinelPass.Audit

open Lib List Option

variable {ρ : Type}

/-- Compact JSON objects: read back as written, cut ones do not parse, and the
text has no line break and starts and ends with a brace. -/
structure AuditEnv.Lawful (E : AuditEnv ρ) : Prop where
  roundTrip : ∀ e, E.fromJson (E.toJson e) = some e
  cut : ∀ e p, p <+: E.toJson e → p ≠ E.toJson e → E.fromJson p = none
  trimmed : ∀ e, Trimmed (E.toJson e)
  noNewline : ∀ e, '\n' ∉ E.toJson e
  noReturn : ∀ e, '\r' ∉ E.toJson e

variable {E : AuditEnv ρ} {c : Char}

/-! ## Digests in hexadecimal -/

theorem length_textBytes_hexDigest (d : Digest) : (textBytes (hexDigest d)).length = 64 := by
  rw [hexDigest, length_textBytes_hex, Vector.length_toList]

@[simp] theorem decodeDigest_hexDigest (d : Digest) :
    decodeDigest (hexDigest d) = .ok (some d) := by
  unfold decodeDigest
  rw [if_neg (by rw [length_textBytes_hexDigest]; decide)]
  unfold hexDigest
  rw [unhex_hex, bind_some, dif_pos Vector.length_toList]
  simp [Vector.toList]

theorem eq_hexDigest_of_decode {t d} (h : decodeDigest t = .ok (some d)) : t = hexDigest d := by
  unfold decodeDigest at h
  rw [ite_error_eq_ok] at h
  obtain ⟨bytes, hbytes, hd⟩ := bind_eq_some_iff.mp (Except.ok.inj h.2)
  split at hd
  · cases hd
    rw [hexDigest, Vector.toList_mk, List.toList_toArray, hex_of_unhex hbytes]
  · cases hd

theorem hexDigest_injective {a b : Digest} (h : hexDigest a = hexDigest b) : a = b := by
  have ha := decodeDigest_hexDigest a
  rw [h, decodeDigest_hexDigest] at ha
  exact (some.inj (Except.ok.inj ha)).symm

/-! ## Cut records -/

/-- Nothing, or the start of a record without its end. -/
def Cut (E : AuditEnv ρ) (p : Text) : Prop := p = [] ∨ ∃ e, p <+: E.toJson e ∧ p ≠ E.toJson e

theorem Cut.nil : Cut E [] := .inl rfl

section Laws

variable (hE : E.Lawful) {p : Text}
include hE

theorem toJson_injective {e f} (h : E.toJson e = E.toJson f) : e = f := by
  have he := hE.roundTrip e
  rw [h, hE.roundTrip] at he
  exact (some.inj he).symm

theorem toJson_ne_nil (e) : E.toJson e ≠ [] := by
  intro hnil
  -- an entry with another chain block has another text, of which nothing is the start
  obtain ⟨f, hf⟩ : ∃ f, f ≠ e := by
    cases hc : e.chain with
    | none =>
      refine ⟨⟨e.record, some ⟨0, 0, [], [], false⟩⟩, ?_⟩
      intro hf
      rw [← hf] at hc
      cases hc
    | some c =>
      refine ⟨⟨e.record, none⟩, ?_⟩
      intro hf
      rw [← hf] at hc
      cases hc
  have hne : [] ≠ E.toJson f := by
    intro hfnil
    exact hf (toJson_injective hE (hfnil.symm.trans hnil.symm))
  have hnone := hE.cut f [] nil_prefix hne
  rw [← hnil, hE.roundTrip] at hnone
  cases hnone

theorem Cut.fromJson (h : Cut E p) (hp : p ≠ []) : E.fromJson p = none := by
  rcases h with rfl | ⟨e, hpre, hne⟩
  · exact absurd rfl hp
  exact hE.cut e p hpre hne

theorem Cut.newline (h : Cut E p) : '\n' ∉ p := by
  rcases h with rfl | ⟨e, hpre, -⟩
  · exact not_mem_nil
  intro hmem
  exact hE.noNewline e (hpre.subset hmem)

theorem Cut.noReturn (h : Cut E p) : '\r' ∉ p := by
  rcases h with rfl | ⟨e, hpre, -⟩
  · exact not_mem_nil
  intro hmem
  exact hE.noReturn e (hpre.subset hmem)

theorem Cut.trim (h : Cut E p) : Cut E (trim p) := by
  cases p with
  | nil => exact .nil
  | cons c p =>
    obtain ⟨e, hpre, hne⟩ := h.resolve_left (cons_ne_nil c p)
    have hhead : (E.toJson e).head? = some c := by
      obtain ⟨rest, hrest⟩ := hpre
      rw [← hrest]
      rfl
    have hdrop : (c :: p).dropWhile isWhitespace = c :: p :=
      dropWhile_cons_of_neg (by rw [(hE.trimmed e).1 c hhead]; decide)
    have htrim : Lib.trim (c :: p) <+: c :: p := by
      unfold Lib.trim
      rw [hdrop]
      exact rdropWhile_prefix _ _
    refine .inr ⟨e, htrim.trans hpre, ?_⟩
    intro heq
    -- the trimmed text is not longer than `c :: p`, which is shorter than the record
    have hle := htrim.length_le
    rw [heq] at hle
    exact hne (hpre.eq_of_length_le hle)

end Laws

/-! ## Chunks -/

/-- A whole line. -/
inductive Item (ρ : Type)
  | record (e : AuditEntry ρ)
  | torn (p : Text)

namespace Item

def text (E : AuditEnv ρ) : Item ρ → Text
  | .record e => E.toJson e
  | .torn p => p

def entry : Item ρ → Option (AuditEntry ρ)
  | .record e => some e
  | .torn _ => none

def Ok (E : AuditEnv ρ) : Item ρ → Prop
  | .record _ => True
  | .torn p => Cut E p

end Item

/-- Whole lines, and what stands after the last newline. -/
structure Chunk (ρ : Type) where
  items : List (Item ρ)
  tail : Text

namespace Chunk

def text (E : AuditEnv ρ) (c : Chunk ρ) : Text :=
  c.items.flatMap (fun i => i.text E ++ ['\n']) ++ c.tail

def bytes (E : AuditEnv ρ) (c : Chunk ρ) : Bytes := textBytes (c.text E)

def entries (c : Chunk ρ) : List (AuditEntry ρ) := c.items.filterMap Item.entry

structure Ok (E : AuditEnv ρ) (c : Chunk ρ) : Prop where
  items : ∀ i ∈ c.items, i.Ok E
  tail : Cut E c.tail

end Chunk

section Lines

variable (hE : E.Lawful)
include hE

theorem Item.Ok.newline {i : Item ρ} (h : i.Ok E) : '\n' ∉ i.text E := by
  cases i with
  | record e => exact hE.noNewline e
  | torn p => exact Cut.newline hE h

theorem Item.Ok.noReturn {i : Item ρ} (h : i.Ok E) : '\r' ∉ i.text E := by
  cases i with
  | record e => exact hE.noReturn e
  | torn p => exact Cut.noReturn hE h

theorem splitOn_text {c : Chunk ρ} (h : c.Ok E) :
    (c.text E).splitOn '\n' = c.items.map (·.text E) ++ [c.tail] := by
  obtain ⟨items, tail⟩ := c
  have hitems : ∀ i ∈ items, i.Ok E := h.items
  have htail : '\n' ∉ tail := Cut.newline hE h.tail
  unfold Chunk.text
  clear h
  induction items with
  | nil => exact splitOn_eq_singleton htail
  | cons i items ih =>
    have hi := (hitems i mem_cons_self).newline hE
    rw [flatMap_cons, append_assoc, append_assoc, singleton_append,
      splitOn_append_cons_self_of_not_mem hi,
      ih fun j hj => hitems j (mem_cons_of_mem i hj)]
    rfl

theorem lines_text {c : Chunk ρ} (h : c.Ok E) :
    lines (c.text E) = c.items.map (·.text E) ++ if c.tail = [] then [] else [c.tail] := by
  unfold lines
  dsimp only
  rw [splitOn_text hE h, dropLast_concat, getLast?_concat]
  congr 1
  · refine (map_congr_left ?_).trans (map_id _)
    intro l hl
    obtain ⟨i, hi, rfl⟩ := mem_map.mp hl
    refine stripCr_of_getLast ?_
    intro hlast
    exact (h.items i hi).noReturn hE (mem_of_getLast? hlast)
  · by_cases htail : c.tail = []
    · simp [htail]
    · simp [htail]

end Lines

/-! ## Reading the end of a file -/

/-- The hash and the number of a record with a chain block. -/
def headOf (e : AuditEntry ρ) : Option (Digest × UInt64) :=
  e.chain.bind fun c => ((decodeDigest c.hash).toOption.bind id).map fun h => (h, c.seq)

def Headed (e : AuditEntry ρ) : Prop := ∃ c h, e.chain = some c ∧ c.hash = hexDigest h

theorem Headed.headOf {e : AuditEntry ρ} (h : Headed e) : ∃ head, headOf e = some head := by
  obtain ⟨c, d, hc, hd⟩ := h
  refine ⟨(d, c.seq), ?_⟩
  simp [Audit.headOf, hc, hd, Except.toOption]

theorem scanLines_append (xs ys) : scanLines E (xs ++ ys) = match scanLines E xs with
      | .ok none => scanLines E ys
      | found => found := by
  induction xs with
  | nil => rfl
  | cons x xs ih =>
    rw [cons_append, scanLines, scanLines]
    split
    · exact ih
    rename_i hnot
    split
    · next hnone => exact absurd hnone hnot
    · rfl

section Scan

variable (hE : E.Lawful) {p : Text}
include hE

theorem chainedLine_record {e} (h : Headed e) : chainedLine E (E.toJson e) = .ok (headOf e) := by
  obtain ⟨c, d, hc, hd⟩ := h
  unfold chainedLine
  rw [(hE.trimmed e).trim_eq, if_neg (toJson_ne_nil hE e), hE.roundTrip, bind_some, hc]
  simp [headOf, hc, hd, Except.map, Except.toOption]

theorem chainedLine_cut (h : Cut E p) : chainedLine E p = .ok none := by
  unfold chainedLine
  split
  · rfl
  rename_i hne
  rw [(h.trim hE).fromJson hE hne]
  rfl

theorem scanLines_items {items : List (Item ρ)} (hok : ∀ i ∈ items, i.Ok E)
    (hheaded : ∀ e ∈ items.filterMap Item.entry, Headed e) :
    scanLines E (items.map (·.text E)).reverse
      = .ok ((items.filterMap Item.entry).getLast?.bind headOf) := by
  induction items using reverseRecOn with
  | nil => rfl
  | append_singleton items i ih =>
    rw [map_append, map_singleton, reverse_append, reverse_singleton,
      singleton_append, scanLines, filterMap_append]
    have hi := hok i (by simp)
    cases i with
    | record e =>
      have hhe : Headed e := hheaded e (by simp [Item.entry])
      obtain ⟨head, hhead⟩ := hhe.headOf
      rw [show (Item.record e).text E = E.toJson e from rfl, chainedLine_record hE hhe, hhead]
      simp [Item.entry, hhead]
    | torn p =>
      rw [show (Item.torn p).text E = p from rfl, chainedLine_cut hE hi]
      simp only
      rw [ih (fun j hj => hok j (by simp [hj])) fun e he =>
        hheaded e (by simp at he ⊢; exact .inl he)]
      simp [Item.entry]

def Chunk.head (c : Chunk ρ) : Option (Digest × UInt64) := c.entries.getLast?.bind headOf

/-- The lines of a text that end in a newline, and the empty piece after the last. -/
def wholeLines (t : Text) : List Text :=
  if t.getLast? = some '\n' then t.splitOn '\n' else (t.splitOn '\n').dropLast

omit hE in
theorem lastChainedInBuffer_text (t first) : lastChainedInBuffer E (textBytes t) first
      = scanLines E (if first then (wholeLines t).tail else wholeLines t).reverse := by
  unfold lastChainedInBuffer wholeLines
  rw [fromUtf8_textBytes]
  simp [getLast?_textBytes]

theorem scanLines_chunk {c : Chunk ρ} (hok : c.Ok E) (hheaded : ∀ e ∈ c.entries, Headed e) :
    scanLines E (wholeLines (c.text E)).reverse = .ok c.head := by
  have hitems := scanLines_items hE hok.items hheaded
  unfold wholeLines
  rw [splitOn_text hE hok]
  split
  · next hlast =>
    -- nothing follows the last newline, and the empty piece is skipped
    have htail : c.tail = [] := by
      by_contra hne
      have hend : (c.text E).getLast? = c.tail.getLast? := by
        exact getLast?_append_of_ne_nil _ hne
      rw [hend] at hlast
      exact hok.tail.newline hE (mem_of_getLast? hlast)
    rw [htail, reverse_append, reverse_singleton, singleton_append, scanLines,
      chainedLine_cut hE (htail ▸ hok.tail)]
    exact hitems
  · rw [dropLast_concat]
    exact hitems

omit hE in
theorem wholeLines_suffix {w t} (h : w <:+ t) (hw : w ≠ []) :
    (wholeLines w).tail <:+ wholeLines t := by
  have hlast : t.getLast? = w.getLast? := by
    obtain ⟨front, rfl⟩ := h
    exact getLast?_append_of_ne_nil _ hw
  have hpieces : (w.splitOn '\n').tail <:+ t.splitOn '\n' :=
    (splitOn_tail_suffix h).trans (tail_suffix _)
  unfold wholeLines
  rw [hlast]
  split
  · exact hpieces
  obtain ⟨front, hfront⟩ := hpieces
  rw [tail_dropLast, ← hfront]
  by_cases hnil : (w.splitOn '\n').tail = []
  · rw [hnil]
    exact nil_suffix
  · rw [dropLast_append_of_ne_nil hnil]
    exact suffix_append _ _

theorem scanLines_window {c : Chunk ρ} (hok : c.Ok E) (hheaded : ∀ e ∈ c.entries, Headed e)
    {w : Text} (h : w <:+ c.text E) (hw : w ≠ []) :
    scanLines E (wholeLines w).tail.reverse = .ok none ∨
      scanLines E (wholeLines w).tail.reverse = .ok c.head := by
  obtain ⟨front, hfront⟩ := wholeLines_suffix h hw
  have hall := scanLines_chunk hE hok hheaded
  rw [← hfront, reverse_append, scanLines_append] at hall
  split at hall
  · next hnone => exact .inl hnone
  exact .inr hall

theorem lastChainedRecordInFile_chunk {c : Chunk ρ} (hok : c.Ok E)
    (hheaded : ∀ e ∈ c.entries, Headed e) :
    lastChainedRecordInFile E (c.bytes E) = .ok c.head := by
  have hwhole : lastChainedInBuffer E (c.bytes E) false = .ok c.head := by
    rw [Chunk.bytes, lastChainedInBuffer_text]
    exact scanLines_chunk hE hok hheaded
  unfold lastChainedRecordInFile
  split
  · next hnil =>
    rw [hnil] at hwhole
    exact hwhole
  · next hne =>
    dsimp only
    generalize hstart : (c.bytes E).length - min (c.bytes E).length chainTailScanBytes = start
    by_cases hzero : start = 0
    · subst hzero
      rw [drop_zero, show decide (0 < 0) = false from rfl, hwhole]
      cases c.head with
      | none => rfl
      | some head => rfl
    · have hpos : decide (0 < start) = true := decide_eq_true (Nat.pos_of_ne_zero hzero)
      have hread : fromUtf8 (c.bytes E) = some (c.text E) := fromUtf8_textBytes _
      have hwindow : lastChainedInBuffer E ((c.bytes E).drop start) true = .ok none ∨
          lastChainedInBuffer E ((c.bytes E).drop start) true = .ok c.head := by
        cases hutf : fromUtf8 ((c.bytes E).drop start) with
        | none =>
          -- the window starts inside a character
          refine .inl ?_
          unfold lastChainedInBuffer
          rw [hutf]
        | some w =>
          have hbytes := textBytes_of_fromUtf8 hutf
          rw [← hbytes, lastChainedInBuffer_text]
          refine scanLines_window hE hok hheaded ?_ ?_
          · refine @isSuffix_of_textBytes _ _ ((c.bytes E).take start) ?_
            rw [hbytes, take_append_drop]
            rfl
          · rintro rfl
            have hlen := congrArg length hbytes
            simp only [textBytes_nil, length_nil, length_drop] at hlen
            have hscan : 0 < chainTailScanBytes := by decide
            omega
      rw [hpos]
      rcases hwindow with hnone | hhead
      · rw [hnone]
        rw [if_neg hzero, hread]
        exact hwhole
      · rw [hhead]
        cases hc : c.head with
        | none =>
          dsimp only
          rw [if_neg hzero, hread, ← hc]
          exact hwhole
        | some head => rfl

theorem recover_chunks {chunks : List (Chunk ρ)} (hok : ∀ c ∈ chunks, c.Ok E)
    (hheaded : ∀ e ∈ chunks.flatMap Chunk.entries, Headed e) :
    headOfFiles E (chunks.map (·.bytes E)).reverse
      = .ok (((chunks.flatMap Chunk.entries).getLast?.bind headOf).getD (genesisPrev E, 0)) := by
  induction chunks using reverseRecOn with
  | nil => rfl
  | append_singleton chunks c ih =>
    have hc := lastChainedRecordInFile_chunk hE (hok c (by simp)) fun e he =>
      hheaded e (mem_flatMap.mpr ⟨c, by simp, he⟩)
    rw [map_append, map_singleton, reverse_append, reverse_singleton,
      singleton_append, headOfFiles, hc, flatMap_append, flatMap_singleton]
    unfold Chunk.head
    rcases eq_nil_or_concat' c.entries with hnil | ⟨front, e, he⟩
    · rw [hnil, append_nil]
      refine ih (fun d hd => hok d (by simp [hd])) ?_
      intro e he
      refine hheaded e ?_
      rw [flatMap_append]
      exact mem_append_left _ he
    · obtain ⟨head, hhead⟩ := (hheaded e (mem_flatMap.mpr ⟨c, by simp, by simp [he]⟩)).headOf
      rw [he, ← append_assoc, getLast?_concat, getLast?_concat, bind_some, hhead]
      rfl

/-! ## Reading whole files -/

def lineEntry (E : AuditEnv ρ) (line : Text) : Option (AuditEntry ρ) :=
  if trim line = [] then none else E.fromJson line

omit hE in
theorem fileEntries_text (t : Text) :
    fileEntries E (textBytes t) = (lines t).filterMap (lineEntry E) := by
  unfold fileEntries
  rw [fromUtf8_textBytes]
  dsimp only
  rw [filterMap_filter]
  refine filterMap_congr ?_
  intro l _
  unfold lineEntry
  simp

theorem lineEntry_cut (h : Cut E p) : lineEntry E p = none := by
  unfold lineEntry
  split
  · rfl
  rename_i hblank
  refine h.fromJson hE ?_
  rintro rfl
  exact hblank rfl

theorem lineEntry_item {i : Item ρ} (h : i.Ok E) : lineEntry E (i.text E) = i.entry := by
  cases i with
  | record e =>
    show lineEntry E (E.toJson e) = some e
    unfold lineEntry
    rw [(hE.trimmed e).trim_eq, if_neg (toJson_ne_nil hE e), hE.roundTrip]
  | torn p => exact lineEntry_cut hE h

theorem lineEntries_chunk {c : Chunk ρ} (h : c.Ok E) :
    (lines (c.text E)).filterMap (lineEntry E) = c.entries := by
  rw [lines_text hE h, filterMap_append, filterMap_map]
  have htail : (if c.tail = [] then [] else [c.tail]).filterMap (lineEntry E) = [] := by
    split
    · rfl
    simp [lineEntry_cut hE h.tail]
  rw [htail, append_nil]
  refine filterMap_congr ?_
  intro i hi
  exact lineEntry_item hE (h.items i hi)

theorem fileEntries_chunk {c : Chunk ρ} (h : c.Ok E) : fileEntries E (c.bytes E) = c.entries := by
  rw [Chunk.bytes, fileEntries_text]
  exact lineEntries_chunk hE h

end Scan

/-! ## A sample environment

A record is a number. An entry is written as its fields between braces, with a
bar between two of them and a letter outside ASCII in front. -/

/-- Digits are written as they are, other text as the digits of its bytes. -/
def sampleText (t : Text) : Text :=
  if t.all isAsciiHexdigit then t else 'x' :: hex (textBytes t)

def sampleUntext (t : Text) : Option Text :=
  if t.head? = some 'x' then (unhex t.tail).bind fromUtf8 else some t

def sampleFields (e : AuditEntry Nat) : List Text :=
  Nat.toDigits 10 e.record :: match e.chain with
    | none => []
    | some c => [Nat.toDigits 10 c.v.toNat, Nat.toDigits 10 c.seq.toNat, sampleText c.prev,
        sampleText c.hash, Nat.toDigits 10 c.sealed.toNat]

def sampleEntry : List Text → Option (AuditEntry Nat)
  | [record] => (parseDigits record).map fun record => ⟨record, none⟩
  | [record, v, seq, prev, hash, isSealed] => do
    let record ← parseDigits record
    let v ← parseDigits v
    let seq ← parseDigits seq
    let prev ← sampleUntext prev
    let hash ← sampleUntext hash
    some ⟨record, some ⟨UInt8.ofNat v, UInt64.ofNat seq, prev, hash, isSealed = ['1']⟩⟩
  | _ => none

def sampleToJson (e : AuditEntry Nat) : Text :=
  '{' :: 'é' :: ['|'].intercalate (sampleFields e) ++ ['}']

def sampleFromJson (t : Text) : Option (AuditEntry Nat) :=
  match t with
  | '{' :: 'é' :: rest =>
    if rest.getLast? = some '}' then sampleEntry (rest.dropLast.splitOn '|') else none
  | _ => none

def sampleSum (b : Bytes) : Nat := b.foldl (fun a x => (a * 257 + x.toNat + 1) % (2 ^ 61 - 1)) 1

def sampleDigest (tag : UInt8) (b : Bytes) : Digest :=
  let sum := sampleSum b
  Vector.ofFn fun i : Fin 32 => if i.val = 0 then tag else UInt8.ofNat (sum / 256 ^ (i.val - 1))

def sampleEnv : AuditEnv Nat where
  crypto := ⟨sampleDigest 1, fun key b => sampleDigest 2 (key ++ b)⟩
  toJson := sampleToJson
  fromJson := sampleFromJson
  timestamp n := n

theorem sampleUntext_text (t : Text) : sampleUntext (sampleText t) = some t := by
  unfold sampleText sampleUntext
  split
  · next hall =>
    rw [if_neg]
    intro hx
    exact absurd (all_eq_true.mp hall 'x' (mem_of_head? hx)) (by decide)
  · rw [head?_cons, if_pos rfl, tail_cons, unhex_hex, bind_some, fromUtf8_textBytes]

theorem sampleEntry_fields (e) : sampleEntry (sampleFields e) = some e := by
  obtain ⟨record, chain⟩ := e
  cases chain with
  | none =>
    show (parseDigits _).map _ = _
    rw [parseDigits_toDigits]
    rfl
  | some c =>
    obtain ⟨v, seq, prev, hash, isSealed⟩ := c
    unfold sampleFields sampleEntry
    simp only [parseDigits_toDigits, sampleUntext_text]
    cases isSealed with
    | false => simp
    | true =>
      have hone : Nat.toDigits 10 1 = ['1'] := by decide
      simp [hone]

theorem mem_sampleFields {e f} (hf : f ∈ sampleFields e) (hc : c ∈ f) :
    c = 'x' ∨ isAsciiHexdigit c = true := by
  have hdigits : ∀ n, f = Nat.toDigits 10 n → c = 'x' ∨ isAsciiHexdigit c = true := by
    rintro n rfl
    right
    unfold isAsciiHexdigit
    rw [isDigit_of_mem_digits hc]
    rfl
  have hhex : ∀ t, f = sampleText t → c = 'x' ∨ isAsciiHexdigit c = true := by
    rintro t rfl
    unfold sampleText at hc
    split at hc
    · next hall => exact .inr (all_eq_true.mp hall c hc)
    rcases mem_cons.mp hc with hx | hc
    · exact .inl hx
    exact .inr (all_eq_true.mp (all_isAsciiHexdigit_hex _) c hc)
  unfold sampleFields at hf
  cases hchain : e.chain with
  | none =>
    rw [hchain] at hf
    exact hdigits _ (mem_singleton.mp hf)
  | some chain =>
    rw [hchain] at hf
    simp only [mem_cons, not_mem_nil, or_false] at hf
    rcases hf with hf | hf | hf | hf | hf | hf
    · exact hdigits _ hf
    · exact hdigits _ hf
    · exact hdigits _ hf
    · exact hhex _ hf
    · exact hhex _ hf
    · exact hdigits _ hf

theorem mem_sampleBody {e} (hc : c ∈ ['|'].intercalate (sampleFields e)) :
    c = '|' ∨ c = 'x' ∨ isAsciiHexdigit c = true := by
  have hmem : ∀ fs, c ∈ ['|'].intercalate fs → c = '|' ∨ ∃ f ∈ fs, c ∈ f := by
    intro fs
    induction fs with
    | nil =>
      intro h
      cases h
    | cons f fs ih =>
      intro h
      by_cases hfs : fs = []
      · rw [hfs, intercalate_singleton] at h
        exact .inr ⟨f, mem_cons_self, h⟩
      · rw [intercalate_cons_of_ne_nil hfs, mem_append, mem_append] at h
        rcases h with (h | h) | h
        · exact .inr ⟨f, mem_cons_self, h⟩
        · exact .inl (mem_singleton.mp h)
        rcases ih h with h | ⟨g, hg, hcg⟩
        · exact .inl h
        exact .inr ⟨g, mem_cons_of_mem f hg, hcg⟩
  rcases hmem _ hc with h | ⟨f, hf, hcf⟩
  · exact .inl h
  exact .inr (mem_sampleFields hf hcf)

theorem not_mem_sampleToJson (e : AuditEntry Nat) {c : Char} (hc : c ∈ ['}', '\n', '\r']) :
    c ∉ '{' :: 'é' :: ['|'].intercalate (sampleFields e) := by
  intro hmem
  have hno : c ≠ '{' ∧ c ≠ 'é' ∧ c ≠ '|' ∧ c ≠ 'x' ∧ isAsciiHexdigit c = false := by
    simp only [mem_cons, not_mem_nil, or_false] at hc
    rcases hc with rfl | rfl | rfl
    · decide
    · decide
    · decide
  obtain ⟨hopen, hmark, hbar, hx, hhex⟩ := hno
  rcases mem_cons.mp hmem with h | hmem
  · exact hopen h
  · rcases mem_cons.mp hmem with h | hmem
    · exact hmark h
    · rcases mem_sampleBody hmem with h | h | h
      · exact hbar h
      · exact hx h
      · rw [hhex] at h
        cases h

theorem sampleEnv_lawful : sampleEnv.Lawful where
  roundTrip e := by
    show sampleFromJson (sampleToJson e) = some e
    have hbar : ∀ f ∈ sampleFields e, '|' ∉ f := by
      intro f hf hmem
      exact absurd (mem_sampleFields hf hmem) (by decide)
    show (if (['|'].intercalate (sampleFields e) ++ ['}']).getLast? = some '}' then
      sampleEntry ((['|'].intercalate (sampleFields e) ++ ['}']).dropLast.splitOn '|')
      else none) = _
    rw [getLast?_concat, if_pos rfl, dropLast_concat,
      splitOn_intercalate '|' hbar (cons_ne_nil _ _), sampleEntry_fields]
  cut e p hp hne := by
    -- a part of the text has no closing brace
    show sampleFromJson p = none
    have hpre : p <+: '{' :: 'é' :: ['|'].intercalate (sampleFields e) :=
      (prefix_concat_iff.mp hp).resolve_left hne
    have hno : '}' ∉ p := fun h => not_mem_sampleToJson e (by decide) (hpre.subset h)
    unfold sampleFromJson
    split
    · next rest =>
      rw [if_neg]
      intro hlast
      exact hno (by simp [mem_of_getLast? hlast])
    · rfl
  trimmed e := by
    refine ⟨?_, ?_⟩
    · intro c hc
      cases hc
      decide
    · intro c hc
      have hlast : (sampleToJson e).getLast? = some '}' := getLast?_concat
      rw [show c = '}' from (some.inj (hlast.symm.trans hc)).symm]
      decide
  noNewline e := by
    intro h
    rcases mem_append.mp h with h | h
    · exact not_mem_sampleToJson e (by decide) h
    · exact absurd h (by decide)
  noReturn e := by
    intro h
    rcases mem_append.mp h with h | h
    · exact not_mem_sampleToJson e (by decide) h
    · exact absurd h (by decide)

end SentinelPass.Audit
