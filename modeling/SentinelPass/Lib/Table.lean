import Mathlib.Data.List.Basic
import Mathlib.Data.List.Nodup

/-!
# Keyed tables

An SQL table with a primary key: rows in insertion (rowid) order, no two with
the same key. The operations are the statements a store issues.

`get?` is the point query. Each operation has one equation that says what
`get?` reads afterwards, and `mem_rows` ties the point query to scans.

A hash map is a table too, walked in an order that nothing specifies (`MapOrder`).
-/

namespace SentinelPass.Lib

open List Option

theorem nodup_append_singleton {α : Type} {l : List α} {a : α} (h : l.Nodup) (ha : a ∉ l) :
    (l ++ [a]).Nodup := by
  rw [← concat_eq_append]
  exact h.concat ha

theorem getElem?_set_of_some {α : Type} {l : List α} {i a} (h : l[i]? = some a) (b j) :
    (l.set i b)[j]? = if j = i then some b else l[j]? := by
  have hlt : i < l.length := (List.getElem?_eq_some_iff.mp h).1
  rw [getElem?_set]
  by_cases hji : j = i
  · rw [if_pos hji.symm, if_pos hji, if_pos hlt]
  · rw [if_neg (Ne.symm hji), if_neg hji]

/-- Rows in insertion order under a primary key. -/
structure Table (κ ν : Type) where
  rows : List (κ × ν)
  keys_nodup : (rows.map Prod.fst).Nodup
deriving DecidableEq

namespace Table

variable {κ ν : Type}

/-- The table with no rows. -/
def empty : Table κ ν := ⟨[], nodup_nil⟩

instance : Inhabited (Table κ ν) := ⟨empty⟩

theorem rows_nodup (t : Table κ ν) : t.rows.Nodup := t.keys_nodup.of_map _

/-- Rewrite every row in place, keys and order kept. -/
def mapVal (t : Table κ ν) (g : κ → ν → ν) : Table κ ν where
  rows := t.rows.map fun p => (p.1, g p.1 p.2)
  keys_nodup := by
    have h : (t.rows.map fun p => (p.1, g p.1 p.2)).map Prod.fst = t.rows.map Prod.fst := by
      simp [Function.comp_def]
    rw [h]
    exact t.keys_nodup

/-- `DELETE FROM t WHERE ¬ p`: keep the rows that satisfy `p`. -/
def filter (t : Table κ ν) (p : κ → ν → Bool) : Table κ ν where
  rows := t.rows.filter fun r => p r.1 r.2
  keys_nodup := t.keys_nodup.sublist (filter_sublist.map _)

/-- Every key is new: the row goes to the end of the table. -/
def append (t : Table κ ν) (k : κ) (v : ν) (h : k ∉ t.rows.map Prod.fst) : Table κ ν where
  rows := t.rows ++ [(k, v)]
  keys_nodup := by
    rw [map_append]
    exact nodup_append_singleton t.keys_nodup h

variable [DecidableEq κ] {k : κ} {v : ν}

/-- The point query. -/
def get? (t : Table κ ν) (k : κ) : Option ν :=
  (t.rows.find? fun r => r.1 = k).map Prod.snd

/-- A scan and the point query see the same rows. -/
theorem mem_rows {t : Table κ ν} {k : κ} {v : ν} : (k, v) ∈ t.rows ↔ t.get? k = some v := by
  obtain ⟨rows, hnd⟩ := t
  unfold get?
  induction rows with
  | nil => simp
  | cons r rest ih =>
    rw [map_cons, nodup_cons] at hnd
    by_cases hk : r.1 = k
    · -- the head is the only row under `k`
      have hrest : (k, v) ∉ rest := fun hm =>
        hnd.1 (hk ▸ mem_map_of_mem hm)
      simp only [mem_cons, hrest, or_false, find?_cons, hk, decide_true,
        map_some, some.injEq]
      constructor
      · intro h; rw [← h]
      · intro h; rw [← h, ← hk]
    · have hne : (k, v) ≠ r := fun h => hk (by rw [← h])
      simp only [mem_cons, hne, false_or, find?_cons, hk]
      exact ih hnd.2

theorem get?_eq_none {t : Table κ ν} : t.get? k = none ↔ k ∉ t.rows.map Prod.fst := by
  unfold get?
  simp only [map_eq_none_iff, find?_eq_none, decide_eq_true_eq, List.mem_map,
    not_exists, not_and]

@[simp] theorem get?_empty (k : κ) : (empty : Table κ ν).get? k = none := rfl

@[simp] theorem get?_mapVal (t : Table κ ν) (g k) : (t.mapVal g).get? k = (t.get? k).map (g k) := by
  unfold get? mapVal
  simp only [find?_map, Function.comp_def]
  cases h : t.rows.find? fun r => decide (r.1 = k) with
  | none => rfl
  | some r =>
    have hk : r.1 = k := by simpa using find?_some h
    simp [hk]

@[simp] theorem get?_filter (t : Table κ ν) (p k) :
    (t.filter p).get? k = (t.get? k).filter (p k) := by
  refine Option.ext fun v => ?_
  rw [← mem_rows, filter_eq_some_iff, ← mem_rows]
  simp [filter]

theorem get?_append (t : Table κ ν) (k v) (h : k ∉ t.rows.map Prod.fst) (k') :
    (t.append k v h).get? k' = if k' = k then some v else t.get? k' := by
  refine Option.ext fun w => ?_
  rw [← mem_rows]
  by_cases hk : k' = k
  · subst hk
    have hno : (k', w) ∉ t.rows := fun hm => h (mem_map_of_mem hm)
    simp [append, hno, eq_comm]
  · simp [append, hk, mem_rows]

/-- `INSERT`: a key that is present is a constraint error. -/
def insert? (t : Table κ ν) (k : κ) (v : ν) : Option (Table κ ν) :=
  if h : k ∈ t.rows.map Prod.fst then none else some (t.append k v h)

/-- `INSERT … ON CONFLICT(k) DO NOTHING`. -/
def insertIgnore (t : Table κ ν) (k : κ) (v : ν) : Table κ ν :=
  if h : k ∈ t.rows.map Prod.fst then t else t.append k v h

/-- `UPDATE … WHERE key = k`. -/
def update (t : Table κ ν) (k : κ) (g : ν → ν) : Table κ ν :=
  t.mapVal fun k' v => if k' = k then g v else v

/-- `INSERT … ON CONFLICT(k) DO UPDATE`: `g` rewrites the row that is there. -/
def upsert (t : Table κ ν) (k : κ) (v : ν) (g : ν → ν) : Table κ ν :=
  if h : k ∈ t.rows.map Prod.fst then t.update k g else t.append k v h

/-- `DELETE … WHERE key = k`. -/
def erase (t : Table κ ν) (k : κ) : Table κ ν :=
  t.filter fun k' _ => k' ≠ k

theorem insert?_eq_some {t t' : Table κ ν} (h : t.insert? k v = some t') :
    t.get? k = none ∧ t'.rows = t.rows ++ [(k, v)] ∧
      ∀ k', t'.get? k' = if k' = k then some v else t.get? k' := by
  unfold insert? at h
  split at h
  · exact absurd h (by simp)
  rename_i hk
  cases h
  exact ⟨get?_eq_none.mpr hk, rfl, get?_append t k v hk⟩

theorem insert?_eq_none {t : Table κ ν} : t.insert? k v = none ↔ ∃ w, t.get? k = some w := by
  unfold insert?
  by_cases hk : k ∈ t.rows.map Prod.fst
  · simp only [hk, dite_true, true_iff]
    rw [← isSome_iff_exists, isSome_iff_ne_none, ne_eq, get?_eq_none]
    exact not_not.mpr hk
  · simp [hk, get?_eq_none.mpr hk]

@[simp] theorem get?_insertIgnore (t : Table κ ν) (k v k') : (t.insertIgnore k v).get? k' =
      if k' = k then some ((t.get? k).getD v) else t.get? k' := by
  unfold insertIgnore
  by_cases hk : k ∈ t.rows.map Prod.fst
  · rw [dif_pos hk]
    cases h : t.get? k with
    | none => exact absurd hk (get?_eq_none.mp h)
    | some w => by_cases he : k' = k <;> simp [he, h]
  · rw [dif_neg hk, get?_append, get?_eq_none.mpr hk]
    rfl

@[simp] theorem get?_update (t : Table κ ν) (k g k') :
    (t.update k g).get? k' = if k' = k then (t.get? k).map g else t.get? k' := by
  unfold update
  rw [get?_mapVal]
  split
  · next he => subst he; simp
  · simp

@[simp] theorem get?_upsert (t : Table κ ν) (k v g k') : (t.upsert k v g).get? k' =
      if k' = k then some (((t.get? k).map g).getD v) else t.get? k' := by
  unfold upsert
  by_cases hk : k ∈ t.rows.map Prod.fst
  · rw [dif_pos hk, get?_update]
    split
    · cases h : t.get? k with
      | none => exact absurd hk (get?_eq_none.mp h)
      | some w => rfl
    · rfl
  · rw [dif_neg hk, get?_append, get?_eq_none.mpr hk]
    rfl

@[simp] theorem get?_erase (t : Table κ ν) (k k' : κ) :
    (t.erase k).get? k' = if k' = k then none else t.get? k' := by
  unfold erase
  rw [get?_filter]
  by_cases he : k' = k
  · simp [he]
  · cases t.get? k' <;> simp [he]

section Rows

variable {t : Table κ ν} {k' : κ} {w : ν}

theorem of_get?_filter {p} (h : (t.filter p).get? k = some v) : t.get? k = some v ∧ p k v = true :=
  filter_eq_some_iff.mp (get?_filter t p k ▸ h)

theorem of_get?_erase (h : (t.erase k).get? k' = some v) : k' ≠ k ∧ t.get? k' = some v := by
  obtain ⟨hrow, hne⟩ := of_get?_filter h
  exact ⟨of_decide_eq_true hne, hrow⟩

theorem of_get?_update {g} (hk : t.get? k = some w) (h : (t.update k g).get? k' = some v) :
    (k' = k ∧ v = g w) ∨ (k' ≠ k ∧ t.get? k' = some v) := by
  rw [get?_update, hk] at h
  split at h
  · next heq => exact .inl ⟨heq, (some.inj h).symm⟩
  · next hne => exact .inr ⟨hne, h⟩

end Rows

end Table

/-- An order in which a hash map may be walked. -/
structure MapOrder (α : Type) where
  arrange : List α → List α
  perm : ∀ l, (arrange l).Perm l

namespace MapOrder

variable {α : Type} {a : α}

/-- Insertion order. -/
def insertion : MapOrder α := ⟨id, List.Perm.refl⟩

def reversed : MapOrder α := ⟨reverse, reverse_perm⟩

/-- `a` comes first, wherever it is. -/
def first [DecidableEq α] (a : α) : MapOrder α where
  arrange l := if a ∈ l then a :: l.erase a else l
  perm l := by
    split
    · next h => exact (perm_cons_erase h).symm
    · exact .refl l

theorem arrange_first [DecidableEq α] {l : List α} (h : a ∈ l) :
    ∃ rest, (first a).arrange l = a :: rest :=
  ⟨l.erase a, if_pos h⟩

@[simp] theorem mem_arrange (order : MapOrder α) {l} : a ∈ order.arrange l ↔ a ∈ l :=
  (order.perm l).mem_iff

end MapOrder

end SentinelPass.Lib
