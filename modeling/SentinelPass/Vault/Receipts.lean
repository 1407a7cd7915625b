import Mathlib.Data.Finset.Image
import Mathlib.Data.Set.Function
import SentinelPass.Lib.JsonText
import SentinelPass.Lib.Machine

/-!
# Content receipts

`content_guard::snapshot`: a map with one receipt for each row of the entries, the domain
mappings, their tags and the custody objects. The key of a receipt is the table and the id of
the row, the receipt is the digest of the JSON text of the row's columns.

The text determines the row (`json_injective` of each table), so without collisions of the
digest and with distinct ids the map determines the rows. The map is filled in the order of
the rows and a receipt with the key of an earlier one takes its place (`fill_hidden`): a row
that has its id in common with a later one leaves no trace. Only the custody objects are
refused then.
-/

namespace SentinelPass.ContentGuard

open Lib Json.Value
open List (cons mem_cons nodup_cons nodup_nil mem_map map_map map_append mem_append mem_map_of_mem
  mem_append_left mem_append_right)

abbrev Bytes := List UInt8

/-! ## Rows -/

/-- The columns of an entry that its receipt binds. -/
structure EntryRow where
  entryId : Int64
  syncId : Option Text
  credentialType : Text
  (title username password : Bytes)
  (url notes : Option Bytes)
  (createdAt modifiedAt : Int64)
  (favorite isDeleted : Bool)

structure MappingRow where
  (mappingId entryId : Int64)
  domain : Text
  isPrimary : Bool
  syncId : Option Text
  domainEnc : Option Bytes

structure TagRow where
  (tagId mappingId : Int64)
  tag : Bytes
  (isChainRoot equalityKeyId : Int64)

structure CustodyRow where
  (objectId scopeJson referenceJson : Text)
  envelope : Bytes
  deleted : Bool

/-- What the guard reads, in the order it reads it: the rows of a table are ordered by id. The
custody table is there from schema version 14 on. -/
structure Content where
  version : Int64
  entries : List EntryRow
  mappings : List MappingRow
  tags : List TagRow
  custody : Option (List CustodyRow)

/-! ## Texts of rows -/

def i64Json (v : Int64) : Json.Value := .num v.toInt

/-- A `Vec<u8>` is written as an array of numbers. -/
def bytesJson (b : Bytes) : Json.Value := .arr (b.map fun x => .num x.toNat)

def optionJson {α : Type} (f : α → Json.Value) : Option α → Json.Value
  | none => .null
  | some a => f a

def EntryRow.json (r : EntryRow) : Json.Value :=
  .arr [i64Json r.entryId, optionJson .str r.syncId, .str r.credentialType, bytesJson r.title,
    bytesJson r.username, bytesJson r.password, optionJson bytesJson r.url,
    optionJson bytesJson r.notes, i64Json r.createdAt, i64Json r.modifiedAt, .bool r.favorite,
    .bool r.isDeleted]

def MappingRow.json (r : MappingRow) : Json.Value :=
  .arr [i64Json r.mappingId, i64Json r.entryId, .str r.domain, .bool r.isPrimary,
    optionJson .str r.syncId, optionJson bytesJson r.domainEnc]

def TagRow.json (r : TagRow) : Json.Value :=
  .arr [i64Json r.tagId, i64Json r.mappingId, bytesJson r.tag, i64Json r.isChainRoot,
    i64Json r.equalityKeyId]

def CustodyRow.json (r : CustodyRow) : Json.Value :=
  .arr [.str r.objectId, .str r.scopeJson, .str r.referenceJson, bytesJson r.envelope,
    .bool r.deleted]

theorem i64Json_injective {v w : Int64} (h : i64Json v = i64Json w) : v = w :=
  Int64.toInt_inj.mp (num.inj h)

theorem bytesJson_injective {b c : Bytes} (h : bytesJson b = bytesJson c) : b = c := by
  refine List.map_injective_iff.mpr (fun x y hxy => ?_) (arr.inj h)
  exact UInt8.toNat_inj.mp (Int.ofNat.inj (num.inj hxy))

theorem optionJson_injective {α : Type} {f} (hf : ∀ {a b}, f a = f b → a = b)
    (hnull : ∀ a, f a ≠ .null) {x y : Option α} (h : optionJson f x = optionJson f y) : x = y := by
  cases x with
  | none =>
    cases y with
    | none => rfl
    | some b => exact absurd h.symm (hnull b)
  | some a =>
    cases y with
    | none => exact absurd h (hnull a)
    | some b => exact congrArg some (hf h)

theorem optionStr_injective {x y} (h : optionJson str x = optionJson .str y) : x = y :=
  optionJson_injective str.inj (fun _ => nofun) h

theorem optionBytes_injective {x y} (h : optionJson bytesJson x = optionJson bytesJson y) : x = y :=
  optionJson_injective bytesJson_injective (fun _ => nofun) h

open EntryRow

theorem EntryRow.json_injective {r s : EntryRow} (h : r.json = s.json) : r = s := by
  have hitems := arr.inj h
  simp only [cons.injEq, and_true, str.injEq, bool.injEq] at hitems
  obtain ⟨hid, hsync, htype, htitle, huser, hpass, hurl, hnotes, hcreated, hmodified, hfav, hdel⟩ :=
    hitems
  rw [mk.injEq]
  exact ⟨i64Json_injective hid, optionStr_injective hsync, htype, bytesJson_injective htitle,
    bytesJson_injective huser, bytesJson_injective hpass, optionBytes_injective hurl,
    optionBytes_injective hnotes, i64Json_injective hcreated, i64Json_injective hmodified, hfav,
    hdel⟩

open MappingRow

theorem MappingRow.json_injective {r s : MappingRow} (h : r.json = s.json) : r = s := by
  have hitems := arr.inj h
  simp only [cons.injEq, and_true, str.injEq, bool.injEq] at hitems
  obtain ⟨hid, hentry, hdomain, hprimary, hsync, henc⟩ := hitems
  rw [mk.injEq]
  exact ⟨i64Json_injective hid, i64Json_injective hentry, hdomain, hprimary,
    optionStr_injective hsync, optionBytes_injective henc⟩

theorem TagRow.json_injective {r s : TagRow} (h : r.json = s.json) : r = s := by
  have hitems := arr.inj h
  simp only [cons.injEq, and_true] at hitems
  obtain ⟨hid, hmapping, htag, hroot, hkey⟩ := hitems
  rw [TagRow.mk.injEq]
  exact ⟨i64Json_injective hid, i64Json_injective hmapping, bytesJson_injective htag,
    i64Json_injective hroot, i64Json_injective hkey⟩

theorem CustodyRow.json_injective {r s : CustodyRow} (h : r.json = s.json) : r = s := by
  have hitems := arr.inj h
  simp only [cons.injEq, and_true, str.injEq, bool.injEq] at hitems
  obtain ⟨hid, hscope, href, henvelope, hdel⟩ := hitems
  rw [CustodyRow.mk.injEq]
  exact ⟨hid, hscope, href, bytesJson_injective henvelope, hdel⟩

/-! ## The map -/

/-- `Receipts`: the pairs of the `BTreeMap`. -/
abbrev Receipts := Finset (Text × Text)

/-- `BTreeMap::insert`. -/
def Receipts.insertKey (m : Receipts) (k v : Text) : Receipts :=
  insert (k, v) (m.filter fun p => p.1 ≠ k)

def fill (pairs : List (Text × Text)) (m : Receipts) : Receipts :=
  pairs.foldl (fun m p => m.insertKey p.1 p.2) m

theorem mem_insertKey {m : Receipts} {k v p} :
    p ∈ m.insertKey k v ↔ p = (k, v) ∨ p ∈ m ∧ p.1 ≠ k := by
  unfold Receipts.insertKey
  rw [Finset.mem_insert, Finset.mem_filter]

theorem insertKey_insertKey (m : Receipts) (k v w : Text) :
    (m.insertKey k v).insertKey k w = m.insertKey k w := by
  ext p
  rw [mem_insertKey, mem_insertKey, mem_insertKey]
  constructor
  · rintro (rfl | ⟨rfl | hp, hne⟩)
    · exact .inl rfl
    · exact absurd rfl hne
    exact .inr hp
  · rintro (rfl | hp)
    · exact .inl rfl
    exact .inr ⟨.inr hp, hp.2⟩

theorem insertKey_comm (m : Receipts) {k l} (hne : k ≠ l) (v w) :
    (m.insertKey k v).insertKey l w = (m.insertKey l w).insertKey k v := by
  ext p
  simp only [mem_insertKey]
  constructor
  · rintro (rfl | ⟨rfl | ⟨hp, hpk⟩, hpl⟩)
    · exact .inr ⟨.inl rfl, hne.symm⟩
    · exact .inl rfl
    exact .inr ⟨.inr ⟨hp, hpl⟩, hpk⟩
  · rintro (rfl | ⟨rfl | ⟨hp, hpl⟩, hpk⟩)
    · exact .inr ⟨.inl rfl, hne⟩
    · exact .inl rfl
    exact .inr ⟨.inr ⟨hp, hpk⟩, hpl⟩

theorem fill_insertKey {pairs k} (hk : k ∈ pairs.map Prod.fst) (m v) :
    fill pairs (m.insertKey k v) = fill pairs m := by
  induction pairs generalizing m with
  | nil => cases hk
  | cons p rest ih =>
    show fill rest ((m.insertKey k v).insertKey p.1 p.2) = fill rest (m.insertKey p.1 p.2)
    by_cases heq : p.1 = k
    · rw [heq, insertKey_insertKey]
    · rcases mem_cons.mp hk with hhead | hrest
      · exact absurd hhead.symm heq
      rw [insertKey_comm m (Ne.symm heq), ih hrest]

theorem fill_append (ps qs m) : fill (ps ++ qs) m = fill qs (fill ps m) := List.foldl_append

theorem fill_hidden {ps qs p} (hp : p.1 ∈ qs.map Prod.fst) (m) :
    fill (ps ++ p :: qs) m = fill (ps ++ qs) m := by
  rw [fill_append, fill_append]
  exact fill_insertKey hp _ _

theorem mem_fill {pairs} (hnodup : (pairs.map Prod.fst).Nodup) {m}
    (hfresh : ∀ p ∈ m, p.1 ∉ pairs.map Prod.fst) {p} : p ∈ fill pairs m ↔ p ∈ pairs ∨ p ∈ m := by
  induction pairs generalizing m with
  | nil => exact ⟨.inr, fun h => h.resolve_left List.not_mem_nil⟩
  | cons q rest ih =>
    obtain ⟨hq, hrest⟩ := nodup_cons.mp hnodup
    have hfresh' : ∀ p ∈ m.insertKey q.1 q.2, p.1 ∉ rest.map Prod.fst := by
      intro p hp
      rcases mem_insertKey.mp hp with rfl | ⟨hp, -⟩
      · exact hq
      exact fun hin => hfresh p hp (List.mem_cons_of_mem _ hin)
    have hne : ∀ p ∈ m, p.1 ≠ q.1 := fun p hp heq => hfresh p hp (heq ▸ List.mem_cons_self)
    show p ∈ fill rest (m.insertKey q.1 q.2) ↔ _
    rw [ih hrest hfresh', mem_insertKey, mem_cons]
    constructor
    · rintro (hp | rfl | ⟨hp, -⟩)
      · exact .inl (.inr hp)
      · exact .inl (.inl rfl)
      exact .inr hp
    · rintro ((rfl | hp) | hp)
      · exact .inr (.inl rfl)
      · exact .inl hp
      exact .inr (.inr ⟨hp, hne p hp⟩)

/-! ## The snapshot -/

/-- The refusal of the guard, that of the custody table, and an error of SQLite. -/
inductive GuardError
  | refusal
  | custodyIntegrity
  | invalidQuery
deriving DecidableEq

def rowText (v : Json.Value) : Bytes := textBytes (Json.write v)

def fingerprint (sha256 : Bytes → Vector UInt8 32) (v : Json.Value) : Text :=
  hex (sha256 (rowText v)).toList

/-- How the rows of a table are keyed and written. The keys of a table start with its own
letter. -/
structure TableSpec (α : Type) where
  key : α → Text
  json : α → Json.Value
  mark : Char
  head_key : ∀ a, (key a).head? = some mark
  json_injective : ∀ {a b}, json a = json b → a = b

def entriesTable : TableSpec EntryRow where
  key r := "entry:".toList ++ showI64 r.entryId
  json := json
  mark := 'e'
  head_key _ := rfl
  json_injective := json_injective

def mappingsTable : TableSpec MappingRow where
  key r := "mapping:".toList ++ showI64 r.mappingId
  json := json
  mark := 'm'
  head_key _ := rfl
  json_injective := json_injective

def tagsTable : TableSpec TagRow where
  key r := "domain-tag:".toList ++ showI64 r.tagId
  json := TagRow.json
  mark := 'd'
  head_key _ := rfl
  json_injective := TagRow.json_injective

def custodyTable : TableSpec CustodyRow where
  key r := "custody:".toList ++ r.objectId
  json := CustodyRow.json
  mark := 'c'
  head_key _ := rfl
  json_injective := CustodyRow.json_injective

def TableSpec.pairs {α : Type} (T : TableSpec α) (sha256 : Bytes → Vector UInt8 32)
    (rows : List α) : List (Text × Text) :=
  rows.map fun a => (T.key a, fingerprint sha256 (T.json a))

/-- `check_row_bounds`. -/
def CustodyRow.inBounds (r : CustodyRow) : Bool :=
  (textBytes r.objectId).length ≤ 128 && (textBytes r.scopeJson).length ≤ 4096 &&
    (textBytes r.referenceJson).length ≤ 4096 && r.envelope.length ≤ 4096

/-- A custody row; its key must be new. -/
def insertCustody (sha256 : Bytes → Vector UInt8 32) (m : Receipts) (r : CustodyRow) :
    Except GuardError Receipts :=
  if r.inBounds = false then .error .invalidQuery
  else if custodyTable.key r ∈ m.image Prod.fst then .error .refusal
  else .ok (m.insertKey (custodyTable.key r) (fingerprint sha256 r.json))

def snapshot (sha256 : Bytes → Vector UInt8 32) (c : Content) : Except GuardError Receipts :=
  let m := fill (entriesTable.pairs sha256 c.entries) ∅
  let m := fill (mappingsTable.pairs sha256 c.mappings) m
  let m := fill (tagsTable.pairs sha256 c.tags) m
  match c.custody with
  | none => if 14 ≤ c.version then .error .custodyIntegrity else .ok m
  | some rows => rows.foldlM (insertCustody sha256) m

section Snapshot

variable {sha256 : Bytes → Vector UInt8 32} {c A B : Content} {m : Receipts} {p : Text × Text}

def Content.custodyRows (c : Content) : List CustodyRow := c.custody.getD []

def Content.pairs (sha256 : Bytes → Vector UInt8 32) (c : Content) : List (Text × Text) :=
  entriesTable.pairs sha256 c.entries ++ (mappingsTable.pairs sha256 c.mappings ++
    (tagsTable.pairs sha256 c.tags ++ custodyTable.pairs sha256 c.custodyRows))

theorem foldlM_insertCustody {rows m'} (h : rows.foldlM (insertCustody sha256) m = .ok m') :
    m' = fill (custodyTable.pairs sha256 rows) m ∧ (rows.map custodyTable.key).Nodup ∧
      ∀ r ∈ rows, custodyTable.key r ∉ m.image Prod.fst := by
  induction rows generalizing m with
  | nil =>
    cases h
    exact ⟨rfl, nodup_nil, fun _ hr => absurd hr List.not_mem_nil⟩
  | cons r rest ih =>
    obtain ⟨m₁, hr, hrest⟩ := foldlM_cons_ok h
    unfold insertCustody at hr
    rw [ite_error_eq_ok, ite_error_eq_ok] at hr
    obtain ⟨-, hnew, hr⟩ := hr
    cases hr
    obtain ⟨hfill, hnodup, hfresh⟩ := ih hrest
    have hkeep : ∀ q ∈ rest, custodyTable.key q ≠ custodyTable.key r ∧
        custodyTable.key q ∉ m.image Prod.fst := by
      intro q hq
      have hq := hfresh q hq
      simp only [Finset.mem_image, mem_insertKey, not_exists, not_and] at hq ⊢
      refine ⟨fun heq => hq _ (.inl rfl) heq.symm, fun p hp hpq => ?_⟩
      by_cases hpr : p.1 = custodyTable.key r
      · exact hq _ (.inl rfl) (hpr.symm.trans hpq)
      · exact hq p (.inr ⟨hp, hpr⟩) hpq
    refine ⟨hfill, nodup_cons.mpr ⟨fun hin => ?_, hnodup⟩, fun q hq => ?_⟩
    · obtain ⟨q, hq, heq⟩ := mem_map.mp hin
      exact (hkeep q hq).1 heq
    · rcases mem_cons.mp hq with rfl | hq
      · exact hnew
      exact (hkeep q hq).2

open Content

theorem snapshot_ok (h : snapshot sha256 c = .ok m) :
    m = fill (c.pairs sha256) ∅ ∧ (c.custodyRows.map custodyTable.key).Nodup := by
  unfold pairs
  rw [fill_append, fill_append, fill_append]
  unfold snapshot at h
  unfold custodyRows
  split at h
  · next hnone =>
    rw [ite_error_eq_ok] at h
    cases h.2
    rw [hnone]
    exact ⟨rfl, nodup_nil⟩
  · next rows hsome =>
    obtain ⟨hfill, hnodup, -⟩ := foldlM_insertCustody h
    rw [hsome]
    exact ⟨hfill, hnodup⟩

/-! ## Distinct ids -/

/-- No two rows of a table have one id. -/
structure Content.DistinctIds (c : Content) : Prop where
  entries : (c.entries.map EntryRow.entryId).Nodup
  mappings : (c.mappings.map mappingId).Nodup
  tags : (c.tags.map TagRow.tagId).Nodup

theorem showI64_injective {v w : Int64} (h : showI64 v = showI64 w) : v = w := by
  have := parseI64_showI64 v
  rw [h, parseI64_showI64] at this
  exact (Option.some.inj this).symm

theorem keys_pairs {α : Type} (sha256) (T : TableSpec α) (rows) :
    (T.pairs sha256 rows).map Prod.fst = rows.map T.key := by
  unfold TableSpec.pairs
  rw [map_map]
  rfl

theorem head_of_mem_keys {α : Type} {T : TableSpec α} {rows : List α} {k : Text}
    (h : k ∈ rows.map T.key) :
    k.head? = some T.mark := by
  obtain ⟨a, -, rfl⟩ := mem_map.mp h
  exact T.head_key a

theorem nodup_keys {α : Type} {rows : List α} {id} (key front)
    (hkey : ∀ a, key a = front ++ showI64 (id a)) (h : (rows.map id).Nodup) :
    (rows.map key).Nodup := by
  have hmap : rows.map key = (rows.map id).map fun v => front ++ showI64 v := by
    rw [map_map]
    exact List.map_congr_left fun a _ => hkey a
  rw [hmap]
  exact h.map fun v w hvw => showI64_injective (List.append_cancel_left hvw)

theorem nodup_append_marks {α : Type} {T : TableSpec α} {rows : List α} {keys}
    (hrows : (rows.map T.key).Nodup) (hkeys : keys.Nodup)
    (hmarks : ∀ k ∈ keys, k.head? ≠ some T.mark) : (rows.map T.key ++ keys).Nodup := by
  refine List.nodup_append.mpr ⟨hrows, hkeys, fun a ha b hb heq => ?_⟩
  exact hmarks b hb (heq ▸ head_of_mem_keys ha)

theorem keys_nodup (h : c.DistinctIds)
    (hcustody : (c.custodyRows.map custodyTable.key).Nodup) :
    ((c.pairs sha256).map Prod.fst).Nodup := by
  unfold pairs
  rw [map_append, map_append, map_append, keys_pairs, keys_pairs, keys_pairs, keys_pairs]
  have hentries := nodup_keys entriesTable.key "entry:".toList (fun _ => rfl) h.entries
  have hmappings := nodup_keys mappingsTable.key "mapping:".toList (fun _ => rfl) h.mappings
  have htags := nodup_keys tagsTable.key "domain-tag:".toList (fun _ => rfl) h.tags
  refine nodup_append_marks hentries (nodup_append_marks hmappings
    (nodup_append_marks htags hcustody ?_) ?_) ?_
  · intro k hk
    rw [head_of_mem_keys hk]
    decide
  · intro k hk
    rcases mem_append.mp hk with hk | hk <;> (rw [head_of_mem_keys hk]; decide)
  · intro k hk
    rcases mem_append.mp hk with hk | hk
    · rw [head_of_mem_keys hk]
      decide
    · rcases mem_append.mp hk with hk | hk <;> (rw [head_of_mem_keys hk]; decide)

theorem mem_snapshot (h : snapshot sha256 c = .ok m) (hids : c.DistinctIds) :
    p ∈ m ↔ p ∈ c.pairs sha256 := by
  obtain ⟨rfl, hcustody⟩ := snapshot_ok h
  rw [mem_fill (keys_nodup hids hcustody) fun _ hp => absurd hp (Finset.notMem_empty _)]
  exact or_iff_left (Finset.notMem_empty _)

/-! ## The rows of a map -/

def Content.texts (c : Content) : List Bytes :=
  c.entries.map (fun r => rowText r.json) ++ (c.mappings.map (fun r => rowText r.json) ++
    (c.tags.map (fun r => rowText r.json) ++ c.custodyRows.map fun r => rowText r.json))

def CollisionFree (sha256 : Bytes → Vector UInt8 32) (A B : Content) : Prop :=
  Set.InjOn sha256 {t | t ∈ A.texts ∨ t ∈ B.texts}

theorem collisionFree_of_subset (hsub : B.texts ⊆ A.texts)
    (hall : ∀ a ∈ A.texts, ∀ b ∈ A.texts, sha256 a = sha256 b → a = b) :
    CollisionFree sha256 A B := by
  have hin : ∀ {t : Bytes}, t ∈ A.texts ∨ t ∈ B.texts → t ∈ A.texts := fun h => h.elim id (hsub ·)
  intro a ha b hb hab
  exact hall a (hin ha) b (hin hb) hab

/-- The same rows, as often. -/
structure SameRows (A B : Content) : Prop where
  entries : A.entries.Perm B.entries
  mappings : A.mappings.Perm B.mappings
  tags : A.tags.Perm B.tags
  custody : A.custodyRows.Perm B.custodyRows

theorem mem_of_mem_pairs {α : Type} {T : TableSpec α} {rows a S} (hsha : Set.InjOn sha256 S)
    (ha : rowText (T.json a) ∈ S) (hrows : ∀ b ∈ rows, rowText (T.json b) ∈ S)
    (h : (T.key a, fingerprint sha256 (T.json a)) ∈ T.pairs sha256 rows) : a ∈ rows := by
  obtain ⟨b, hb, heq⟩ := mem_map.mp h
  have hdigest : (sha256 (rowText (T.json b))).toList = (sha256 (rowText (T.json a))).toList := by
    have hhex := congrArg unhex (Prod.mk.inj heq).2
    rw [fingerprint, fingerprint, unhex_hex, unhex_hex] at hhex
    exact Option.some.inj hhex
  have htext := hsha (hrows b hb) ha (Vector.toList_inj.mp hdigest)
  have hjson := Json.write_injective (textBytes_injective htext)
  exact T.json_injective hjson ▸ hb

theorem mem_pairs : p ∈ c.pairs sha256 ↔ p ∈ entriesTable.pairs sha256 c.entries ∨
      p ∈ mappingsTable.pairs sha256 c.mappings ∨ p ∈ tagsTable.pairs sha256 c.tags ∨
      p ∈ custodyTable.pairs sha256 c.custodyRows := by
  unfold pairs
  rw [mem_append, mem_append, mem_append]

theorem head_of_mem_pairs {α : Type} {T : TableSpec α} {rows} (h : p ∈ T.pairs sha256 rows) :
    p.1.head? = some T.mark := by
  have hkey := mem_map_of_mem (f := Prod.fst) h
  rw [keys_pairs] at hkey
  exact head_of_mem_keys hkey

theorem table_of_mem_pairs (h : p ∈ c.pairs sha256) :
    (p.1.head? = some 'e' → p ∈ entriesTable.pairs sha256 c.entries) ∧
    (p.1.head? = some 'm' → p ∈ mappingsTable.pairs sha256 c.mappings) ∧
    (p.1.head? = some 'd' → p ∈ tagsTable.pairs sha256 c.tags) ∧
    (p.1.head? = some 'c' → p ∈ custodyTable.pairs sha256 c.custodyRows) := by
  rcases mem_pairs.mp h with h | h | h | h
  · have hhead : p.1.head? = some 'e' := head_of_mem_pairs h
    rw [hhead]
    exact ⟨fun _ => h, fun he => absurd he (by decide), fun he => absurd he (by decide),
      fun he => absurd he (by decide)⟩
  · have hhead : p.1.head? = some 'm' := head_of_mem_pairs h
    rw [hhead]
    exact ⟨fun he => absurd he (by decide), fun _ => h, fun he => absurd he (by decide),
      fun he => absurd he (by decide)⟩
  · have hhead : p.1.head? = some 'd' := head_of_mem_pairs h
    rw [hhead]
    exact ⟨fun he => absurd he (by decide), fun he => absurd he (by decide), fun _ => h,
      fun he => absurd he (by decide)⟩
  · have hhead : p.1.head? = some 'c' := head_of_mem_pairs h
    rw [hhead]
    exact ⟨fun he => absurd he (by decide), fun he => absurd he (by decide),
      fun he => absurd he (by decide), fun _ => h⟩

theorem rows_subset (hsha : CollisionFree sha256 A B)
    (h : ∀ p ∈ A.pairs sha256, p ∈ B.pairs sha256) :
    A.entries ⊆ B.entries ∧ A.mappings ⊆ B.mappings ∧ A.tags ⊆ B.tags ∧
      A.custodyRows ⊆ B.custodyRows := by
  have hin : ∀ {t : Bytes} {c : Content}, c = A ∨ c = B → t ∈ c.texts →
      t ∈ {t | t ∈ A.texts ∨ t ∈ B.texts} := by
    rintro t c (rfl | rfl) ht
    · exact .inl ht
    exact .inr ht
  have hentry : ∀ {c : Content} {r : EntryRow}, r ∈ c.entries → rowText r.json ∈ c.texts :=
    fun hr => mem_append_left _ (mem_map_of_mem hr)
  have hmapping : ∀ {c : Content} {r : MappingRow}, r ∈ c.mappings → rowText r.json ∈ c.texts :=
    fun hr => mem_append_right _ (mem_append_left _ (mem_map_of_mem hr))
  have htag : ∀ {c : Content} {r : TagRow}, r ∈ c.tags → rowText r.json ∈ c.texts :=
    fun hr => mem_append_right _ (mem_append_right _
      (mem_append_left _ (mem_map_of_mem hr)))
  have hcustody : ∀ {c : Content} {r : CustodyRow}, r ∈ c.custodyRows → rowText r.json ∈ c.texts :=
    fun hr => mem_append_right _ (mem_append_right _
      (mem_append_right _ (mem_map_of_mem hr)))
  refine ⟨fun r hr => ?_, fun r hr => ?_, fun r hr => ?_, fun r hr => ?_⟩
  · have hpair := h _ (mem_pairs.mpr (.inl (mem_map_of_mem hr)))
    exact mem_of_mem_pairs hsha (hin (.inl rfl) (hentry hr))
      (fun b hb => hin (.inr rfl) (hentry hb))
      ((table_of_mem_pairs hpair).1 rfl)
  · have hpair := h _ (mem_pairs.mpr (.inr (.inl (mem_map_of_mem hr))))
    exact mem_of_mem_pairs hsha (hin (.inl rfl) (hmapping hr))
      (fun b hb => hin (.inr rfl) (hmapping hb)) ((table_of_mem_pairs hpair).2.1 rfl)
  · have hpair := h _ (mem_pairs.mpr (.inr (.inr (.inl (mem_map_of_mem hr)))))
    exact mem_of_mem_pairs hsha (hin (.inl rfl) (htag hr)) (fun b hb => hin (.inr rfl) (htag hb))
      ((table_of_mem_pairs hpair).2.2.1 rfl)
  · have hpair := h _ (mem_pairs.mpr (.inr (.inr (.inr (mem_map_of_mem hr)))))
    exact mem_of_mem_pairs hsha (hin (.inl rfl) (hcustody hr))
      (fun b hb => hin (.inr rfl) (hcustody hb)) ((table_of_mem_pairs hpair).2.2.2 rfl)

theorem perm_of_subset {α β : Type} {f : α → β} {as bs : List α} (ha : (as.map f).Nodup)
    (hb : (bs.map f).Nodup) (hab : as ⊆ bs) (hba : bs ⊆ as) : as.Perm bs :=
  (List.perm_ext_iff_of_nodup ha.of_map hb.of_map).mpr fun _ => ⟨fun h => hab h, fun h => hba h⟩

theorem sameRows_of_snapshot (hsha : CollisionFree sha256 A B) (hA : A.DistinctIds)
    (hB : B.DistinctIds) (hsA : snapshot sha256 A = .ok m) (hsB : snapshot sha256 B = .ok m) :
    SameRows A B := by
  have hsha' : CollisionFree sha256 B A := hsha.mono fun t ht => Or.symm ht
  have hpairs : ∀ p, p ∈ A.pairs sha256 ↔ p ∈ B.pairs sha256 := fun p =>
    (mem_snapshot hsA hA).symm.trans (mem_snapshot hsB hB)
  obtain ⟨he, hm, ht, hc⟩ := rows_subset hsha fun p hp => (hpairs p).mp hp
  obtain ⟨he', hm', ht', hc'⟩ := rows_subset hsha' fun p hp => (hpairs p).mpr hp
  exact ⟨perm_of_subset hA.entries hB.entries he he', perm_of_subset hA.mappings hB.mappings hm hm',
    perm_of_subset hA.tags hB.tags ht ht',
    perm_of_subset (snapshot_ok hsA).2 (snapshot_ok hsB).2 hc hc'⟩

/-! ## Hidden rows -/

/-- Some rows of the content; the custody objects are the same. -/
structure Content.Within (A B : Content) : Prop where
  version : A.version = B.version
  entries : A.entries.Sublist B.entries
  mappings : A.mappings.Sublist B.mappings
  tags : A.tags.Sublist B.tags
  custody : A.custody = B.custody

theorem exists_repeated {α β : Type} {f : α → β} {l} (h : ¬ (l.map f).Nodup) :
    ∃ l₁ a l₂, l = l₁ ++ a :: l₂ ∧ f a ∈ l₂.map f := by
  induction l with
  | nil => exact absurd nodup_nil h
  | cons x rest ih =>
    by_cases hx : f x ∈ rest.map f
    · exact ⟨[], x, rest, rfl, hx⟩
    · have hrest : ¬ (rest.map f).Nodup := fun hn => h (nodup_cons.mpr ⟨hx, hn⟩)
      obtain ⟨l₁, a, l₂, rfl, ha⟩ := ih hrest
      exact ⟨x :: l₁, a, l₂, rfl, ha⟩

theorem fill_pairs_hidden {α : Type} {T : TableSpec α} {l₁ l₂ a} (h : T.key a ∈ l₂.map T.key) (m) :
    fill (T.pairs sha256 (l₁ ++ a :: l₂)) m = fill (T.pairs sha256 (l₁ ++ l₂)) m := by
  unfold TableSpec.pairs
  rw [map_append, map_append, List.map_cons]
  refine fill_hidden ?_ m
  rw [map_map]
  exact h

theorem key_mem_of_id {α : Type} {key id front} (hkey : ∀ a, key a = front ++ showI64 (id a)) {a}
    {l : List α} (h : id a ∈ l.map id) : key a ∈ l.map key := by
  obtain ⟨b, hb, heq⟩ := mem_map.mp h
  refine mem_map.mpr ⟨b, hb, ?_⟩
  rw [hkey, hkey, heq]

theorem not_perm_of_removed {α : Type} {l₁ l₂ : List α} {a : α} :
    ¬ (l₁ ++ l₂).Perm (l₁ ++ a :: l₂) := by
  intro hperm
  have hlen := hperm.length_eq
  rw [List.length_append, List.length_append, List.length_cons] at hlen
  omega

theorem sublist_removed {α : Type} {l₁ l₂ : List α} {a : α} : (l₁ ++ l₂).Sublist (l₁ ++ a :: l₂) :=
  (List.sublist_cons_self a l₂).append_left l₁

theorem exists_hidden (sha256) (h : ¬ B.DistinctIds) :
    ∃ A : Content, A.Within B ∧ snapshot sha256 A = snapshot sha256 B ∧ ¬ SameRows A B := by
  by_cases he : (B.entries.map EntryRow.entryId).Nodup
  · by_cases hm : (B.mappings.map mappingId).Nodup
    · have ht : ¬ (B.tags.map TagRow.tagId).Nodup := fun ht => h ⟨he, hm, ht⟩
      obtain ⟨l₁, a, l₂, heq, ha⟩ := exists_repeated ht
      have hkey : tagsTable.key a ∈ l₂.map tagsTable.key := key_mem_of_id (fun _ => rfl) ha
      refine ⟨{ B with tags := l₁ ++ l₂ }, ⟨rfl, .refl _, .refl _, ?_, rfl⟩, ?_, fun hsame => ?_⟩
      · rw [heq]
        exact sublist_removed
      · unfold snapshot
        dsimp only
        rw [heq, fill_pairs_hidden hkey]
      · exact not_perm_of_removed (heq ▸ hsame.tags)
    · obtain ⟨l₁, a, l₂, heq, ha⟩ := exists_repeated hm
      have hkey : mappingsTable.key a ∈ l₂.map mappingsTable.key := key_mem_of_id (fun _ => rfl) ha
      refine ⟨{ B with mappings := l₁ ++ l₂ }, ⟨rfl, .refl _, ?_, .refl _, rfl⟩, ?_,
        fun hsame => ?_⟩
      · rw [heq]
        exact sublist_removed
      · unfold snapshot
        dsimp only
        rw [heq, fill_pairs_hidden hkey]
      · exact not_perm_of_removed (heq ▸ hsame.mappings)
  · obtain ⟨l₁, a, l₂, heq, ha⟩ := exists_repeated he
    have hkey : entriesTable.key a ∈ l₂.map entriesTable.key := key_mem_of_id (fun _ => rfl) ha
    refine ⟨{ B with entries := l₁ ++ l₂ }, ⟨rfl, ?_, .refl _, .refl _, rfl⟩, ?_, fun hsame => ?_⟩
    · rw [heq]
      exact sublist_removed
    · unfold snapshot
      rw [heq, fill_pairs_hidden hkey]
    · exact not_perm_of_removed (heq ▸ hsame.entries)

theorem Content.Within.distinctIds (h : A.Within B) (hB : B.DistinctIds) : A.DistinctIds where
  entries := hB.entries.sublist (h.entries.map _)
  mappings := hB.mappings.sublist (h.mappings.map _)
  tags := hB.tags.sublist (h.tags.map _)

theorem Content.Within.texts_subset (h : A.Within B) : A.texts ⊆ B.texts := by
  have hcustody : A.custodyRows = B.custodyRows := congrArg (Option.getD · []) h.custody
  intro t ht
  unfold texts at ht ⊢
  rw [hcustody] at ht
  rcases mem_append.mp ht with ht | ht
  · exact mem_append_left _ ((h.entries.map _).subset ht)
  refine mem_append_right _ ?_
  rcases mem_append.mp ht with ht | ht
  · exact mem_append_left _ ((h.mappings.map _).subset ht)
  refine mem_append_right _ ?_
  rcases mem_append.mp ht with ht | ht
  · exact mem_append_left _ ((h.tags.map _).subset ht)
  · exact mem_append_right _ ht

end Snapshot

/-- **Receipts determine the rows iff no id comes twice.** Two contents with distinct ids and
the same receipts have the same rows. And a content has distinct ids iff no row can be taken
out of it without a trace in its receipts. -/
theorem receipts_injective_iff (sha256 : Bytes → Vector UInt8 32) :
    (∀ (A B : Content) (m : Receipts), CollisionFree sha256 A B → A.DistinctIds →
      B.DistinctIds → snapshot sha256 A = .ok m → snapshot sha256 B = .ok m → SameRows A B) ∧
    (∀ (B : Content) (m : Receipts), CollisionFree sha256 B B → snapshot sha256 B = .ok m →
      (B.DistinctIds ↔ ∀ A : Content, A.Within B → snapshot sha256 A = .ok m → SameRows A B)) := by
  refine ⟨fun A B m hsha hA hB hsA hsB => sameRows_of_snapshot hsha hA hB hsA hsB, ?_⟩
  intro B m hsha hsB
  constructor
  · intro hB A hwithin hsA
    refine sameRows_of_snapshot (hsha.mono ?_) (hwithin.distinctIds hB) hB hsA hsB
    rintro t (ht | ht)
    · exact .inl (hwithin.texts_subset ht)
    exact .inr ht
  · intro hall
    by_contra hids
    obtain ⟨A, hwithin, heq, hdiffer⟩ := exists_hidden sha256 hids
    exact hdiffer (hall A hwithin (heq.trans hsB))

/-! ## A repeated entry -/

def tailDigest (b : Bytes) : Vector UInt8 32 := Vector.ofFn fun i => b.reverse.getD i 0

def sampleEntry (entryId : Int64) (password : UInt8) : EntryRow :=
  ⟨entryId, none, [], [1], [2], [password], none, none, 0, 0, false, false⟩

/-- The entries of a vault, before the custody table. -/
def sampleContent (entries : List EntryRow) : Content := ⟨13, entries, [], [], none⟩

def oldEntry : EntryRow := sampleEntry 1 3

def otherEntry : EntryRow := sampleEntry 2 4

theorem receipts_injective_two_entries :
    SameRows (sampleContent [oldEntry, otherEntry]) (sampleContent [otherEntry, oldEntry]) ∧
    ∃ m, snapshot tailDigest (sampleContent [oldEntry, otherEntry]) = .ok m ∧
      ((sampleContent [oldEntry, otherEntry]).DistinctIds ↔
        ∀ A : Content, A.Within (sampleContent [oldEntry, otherEntry]) →
          snapshot tailDigest A = .ok m →
            SameRows A (sampleContent [oldEntry, otherEntry])) := by
  obtain ⟨hsame, hiff⟩ := receipts_injective_iff tailDigest
  have hall : ∀ a ∈ (sampleContent [oldEntry, otherEntry]).texts,
      ∀ b ∈ (sampleContent [oldEntry, otherEntry]).texts,
        tailDigest a = tailDigest b → a = b := by
    decide +kernel
  have hswap : snapshot tailDigest (sampleContent [otherEntry, oldEntry])
      = snapshot tailDigest (sampleContent [oldEntry, otherEntry]) :=
    congrArg Except.ok (insertKey_comm ∅ (by decide +kernel) _ _)
  refine ⟨hsame _ _ _ ?_ ?_ ?_ rfl hswap, _, rfl, hiff _ _ ?_ rfl⟩
  · exact collisionFree_of_subset (by decide +kernel) hall
  · exact ⟨by decide, nodup_nil, nodup_nil⟩
  · exact ⟨by decide, nodup_nil, nodup_nil⟩
  · exact collisionFree_of_subset (List.Subset.refl _) hall

/-- The older password of an entry is in the vault beside the new one, under the same id; the
receipts are those of the new one. -/
theorem repeated_entry_hidden :
    snapshot tailDigest (sampleContent [oldEntry, sampleEntry 1 4])
      = snapshot tailDigest (sampleContent [sampleEntry 1 4]) ∧
    (snapshot tailDigest (sampleContent [sampleEntry 1 4])).isOk = true ∧
    CollisionFree tailDigest (sampleContent [oldEntry, sampleEntry 1 4])
      (sampleContent [sampleEntry 1 4]) ∧
    ¬ SameRows (sampleContent [oldEntry, sampleEntry 1 4]) (sampleContent [sampleEntry 1 4]) := by
  have hkey : entriesTable.key oldEntry ∈ [sampleEntry 1 4].map entriesTable.key :=
    List.mem_singleton.mpr rfl
  refine ⟨?_, rfl, ?_, fun hsame => ?_⟩
  · have hfill : fill (entriesTable.pairs tailDigest ([] ++ oldEntry :: [sampleEntry 1 4])) ∅
        = fill (entriesTable.pairs tailDigest ([] ++ [sampleEntry 1 4])) ∅ :=
      fill_pairs_hidden hkey ∅
    unfold snapshot sampleContent
    rw [List.nil_append, List.nil_append] at hfill
    rw [hfill]
  · exact collisionFree_of_subset (by decide +kernel) (by decide +kernel)
  · exact absurd hsame.entries.length_eq (by decide)

end SentinelPass.ContentGuard
