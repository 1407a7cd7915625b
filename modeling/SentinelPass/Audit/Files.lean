import SentinelPass.Audit.Recovery

/-!
# The files of a log

`Shape` says what the directory is made of: chunks under descending numbers, and
the chunk of `audit.log`. Appends add to the last chunk (`Chunk.closed`,
`cut_of_take`). A rotation, also one that stops after any of its file operations,
renumbers the chunks and drops at most the oldest, the one under the highest
number the policy allows (`Shape.rotate`).
-/

namespace SentinelPass.Audit

open Lib List Chunk

variable {ρ : Type} {E : AuditEnv ρ}

/-! ## Shape -/

/-- The directory holds these chunks, oldest first. -/
structure Shape (E : AuditEnv ρ) (maxFiles : Nat) (d : AuditDir) (rot : List (Nat × Chunk ρ))
    (cur : Option (Chunk ρ)) : Prop where
  rotated : d.rotated = rot.map fun f => (f.1, f.2.bytes E)
  current : d.current = cur.map (·.bytes E)
  rotOk : ∀ f ∈ rot, f.2.Ok E
  curOk : ∀ c ∈ cur, c.Ok E
  desc : rot.Pairwise fun a b => b.1 < a.1
  range : ∀ f ∈ rot, 1 ≤ f.1 ∧ f.1 ≤ maxFiles

def chunksOf (rot : List (Nat × Chunk ρ)) (cur : Option (Chunk ρ)) : List (Chunk ρ) :=
  rot.map Prod.snd ++ cur.toList

section Reading

variable {maxFiles : Nat} {d : AuditDir} {rot : List (Nat × Chunk ρ)} {cur : Option (Chunk ρ)}

section

variable (h : Shape E maxFiles d rot cur)

include h

theorem Shape.chunksOk : ∀ c ∈ chunksOf rot cur, c.Ok E := by
  intro c hc
  rcases mem_append.mp hc with hc | hc
  · obtain ⟨f, hf, rfl⟩ := mem_map.mp hc
    exact h.rotOk f hf
  · exact h.curOk c (Option.mem_toList.mp hc)

theorem Shape.rotatedOldestFirst_eq : rotatedOldestFirst d = rot.map fun f => (f.1, f.2.bytes E) :=
    by
  unfold rotatedOldestFirst
  rw [h.rotated]
  refine mergeSort_of_pairwise ?_
  rw [pairwise_map]
  refine h.desc.imp ?_
  intro a b hab
  exact decide_eq_true (Nat.le_of_lt hab)

theorem Shape.contents :
    (chainFilesOldestFirst d).map Prod.snd = (chunksOf rot cur).map (·.bytes E) := by
  unfold chainFilesOldestFirst chunksOf
  rw [h.rotatedOldestFirst_eq, h.current]
  cases cur with
  | none => simp
  | some c => simp

theorem Shape.text : ∀ f ∈ chainFilesOldestFirst d, ∃ text, f.2 = textBytes text := by
  intro f hf
  have hmem : f.2 ∈ (chunksOf rot cur).map (·.bytes E) := by
    rw [← h.contents]
    exact mem_map_of_mem hf
  obtain ⟨c, -, hc⟩ := mem_map.mp hmem
  exact ⟨c.text E, hc.symm⟩

end

theorem Shape.readAllEntries_eq (hE : E.Lawful) (h : Shape E maxFiles d rot cur) :
    readAllEntries E d = (chunksOf rot cur).flatMap entries := by
  have hflat : readAllEntries E d
      = ((chainFilesOldestFirst d).map Prod.snd).flatMap (fileEntries E) := by
    rw [flatMap_map]
    rfl
  rw [hflat, h.contents, flatMap_map]
  refine flatMap_congr ?_
  intro c hc
  exact fileEntries_chunk hE (h.chunksOk c hc)

end Reading

/-! ## Writing -/

/-- The lines of a chunk once its torn tail is ended. -/
def Chunk.closed (c : Chunk ρ) : List (Item ρ) :=
  if c.tail = [] then c.items else c.items ++ [.torn c.tail]

theorem Chunk.closed_ok {c : Chunk ρ} (h : c.Ok E) : ∀ i ∈ c.closed, i.Ok E := by
  intro i hi
  unfold closed at hi
  split at hi
  · exact h.items i hi
  rcases mem_snoc hi with hi | rfl
  · exact h.items i hi
  · exact h.tail

theorem Chunk.closed_entries (c : Chunk ρ) : c.closed.filterMap Item.entry = c.entries := by
  unfold closed entries
  split
  · rfl
  simp [Item.entry]

section Writing

variable (hE : E.Lawful) {k : Nat}
include hE

theorem bytes_tailRepair {c : Chunk ρ} (h : c.Ok E) :
    c.bytes E ++ tailRepair (c.bytes E) = (⟨c.closed, []⟩ : Chunk ρ).bytes E := by
  unfold tailRepair closed bytes
  by_cases htail : c.tail = []
  · -- the file is empty, or its last line ended
    have hno : ¬ (textBytes (c.text E) ≠ [] ∧ (textBytes (c.text E)).getLast? ≠ some 10) := by
      rintro ⟨hne, hlast⟩
      refine hlast (getLast?_textBytes.mpr ?_)
      rcases eq_nil_or_concat' c.items with hnil | ⟨front, i, hitems⟩
      · exact absurd (by simp [text, hnil, htail]) hne
      unfold text
      rw [hitems, htail, append_nil, flatMap_append, flatMap_singleton,
        ← append_assoc, getLast?_concat]
    rw [if_neg hno, if_pos htail, append_nil]
    unfold text
    rw [htail]
  · have hend : (c.text E).getLast? = c.tail.getLast? := by
      exact getLast?_append_of_ne_nil _ htail
    have hyes : textBytes (c.text E) ≠ [] ∧ (textBytes (c.text E)).getLast? ≠ some 10 := by
      refine ⟨?_, ?_⟩
      · intro hnil
        refine htail (append_eq_nil_iff.mp (textBytes_eq_nil.mp hnil)).2
      · intro hlast
        rw [getLast?_textBytes, hend] at hlast
        exact h.tail.newline hE (mem_of_getLast? hlast)
    rw [if_pos hyes, if_neg htail]
    have hnewline : ([10] : Bytes) = textBytes ['\n'] := by decide
    rw [hnewline, ← textBytes_append]
    congr 1
    unfold text
    simp [Item.text]

omit hE in
theorem bytes_record (items e) : (⟨items, []⟩ : Chunk ρ).bytes E ++ lineBytes E e
      = (⟨items ++ [.record e], []⟩ : Chunk ρ).bytes E := by
  unfold bytes lineBytes
  unfold text
  simp [Item.text]

omit hE in
theorem bytes_tail (items q) :
    (⟨items, []⟩ : Chunk ρ).bytes E ++ textBytes q = (⟨items, q⟩ : Chunk ρ).bytes E := by
  unfold bytes
  unfold text
  simp

omit hE in
theorem cut_of_take_line {e q} (hq : textBytes q = (lineBytes E e).take k)
    (hk : k + 1 < (lineBytes E e).length) : Cut E q := by
  have hwhole : textBytes q ++ (lineBytes E e).drop k = textBytes (E.toJson e ++ ['\n']) := by
    rw [hq, take_append_drop]
    rfl
  have hlen : (textBytes q).length = k := by
    rw [hq, length_take]
    omega
  have hline : (lineBytes E e).length = (textBytes (E.toJson e)).length + 1 := by
    unfold lineBytes
    rw [textBytes_append, length_append]
    rfl
  have hshort : (textBytes q).length ≠ (textBytes (E.toJson e)).length := by omega
  rcases prefix_concat_iff.mp (isPrefix_of_textBytes hwhole) with heq | hpre
  · have hall : (textBytes q).length = (lineBytes E e).length := by rw [heq]; rfl
    omega
  · exact .inr ⟨e, hpre, fun heq => hshort (by rw [heq])⟩

omit hE in
theorem cut_of_take {c e} (hutf : (fromUtf8 ((tailRepair c ++ lineBytes E e).take k)).isSome)
    (hk : k + 1 < (tailRepair c ++ lineBytes E e).length) :
    (tailRepair c ++ lineBytes E e).take k = [] ∨
      ∃ q, Cut E q ∧ (tailRepair c ++ lineBytes E e).take k = tailRepair c ++ textBytes q := by
  obtain ⟨r, hr⟩ : ∃ r, tailRepair c = textBytes r := by
    unfold tailRepair
    split
    · exact ⟨['\n'], by decide⟩
    · exact ⟨[], rfl⟩
  have hrlen : (tailRepair c).length ≤ 1 := by
    unfold tailRepair
    split
    · exact Nat.le_refl 1
    · exact Nat.zero_le 1
  by_cases hzero : k < (tailRepair c).length
  · left
    rw [show k = 0 by omega, take_zero]
  · right
    obtain ⟨t, ht⟩ := Option.isSome_iff_exists.mp hutf
    have hbytes := textBytes_of_fromUtf8 ht
    rw [take_append, take_of_length_le (by omega)] at hbytes ⊢
    -- the text starts with the repair, and the rest of it is a text
    rw [hr] at hbytes
    obtain ⟨q, rfl⟩ := isPrefix_of_textBytes hbytes.symm
    rw [textBytes_append] at hbytes
    have hq := append_cancel_left hbytes
    refine ⟨q, cut_of_take_line hq ?_, ?_⟩
    · rw [length_append, hr] at hk
      rw [hr] at hzero
      omega
    · rw [hq, hr]

end Writing

/-! ## Rotation -/

section Rotation

variable {maxFiles : Nat} {d : AuditDir} {rot : List (Nat × Chunk ρ)} {cur : Option (Chunk ρ)}
  {i : Nat} {c : Chunk ρ}

theorem Shape.hasRotated_iff (h : Shape E maxFiles d rot cur) (n : Nat) :
    d.hasRotated n = true ↔ ∃ f ∈ rot, f.1 = n := by
  unfold AuditDir.hasRotated
  rw [h.rotated]
  simp

theorem filter_map_bytes (rot : List (Nat × Chunk ρ)) (n : Nat) :
    (rot.map fun f => (f.1, f.2.bytes E)).filter (fun f => f.1 ≠ n)
      = (rot.filter fun f => f.1 ≠ n).map fun f => (f.1, f.2.bytes E) := by
  rw [filter_map]
  rfl

theorem Shape.remove (h : Shape E maxFiles d rot cur) (n : Nat) :
    Shape E maxFiles { d with rotated := d.rotated.filter fun f => f.1 ≠ n }
      (rot.filter fun f => f.1 ≠ n) cur where
  rotated := by
    show d.rotated.filter _ = _
    rw [h.rotated, filter_map_bytes]
  current := h.current
  rotOk f hf := h.rotOk f (mem_of_mem_filter hf)
  curOk := h.curOk
  desc := h.desc.filter _
  range f hf := h.range f (mem_of_mem_filter hf)

theorem filter_of_absent {n : Nat} (h : ∀ f ∈ rot, f.1 ≠ n) : (rot.filter fun f => f.1 ≠ n) = rot :=
  filter_eq_self.mpr fun f hf => decide_eq_true (h f hf)

theorem Shape.filter_max (h : Shape E maxFiles d rot cur) {f} (hf : f ∈ rot)
    (hmax : f.1 = maxFiles) : rot = f :: rot.filter fun g => g.1 ≠ maxFiles := by
  cases rot with
  | nil => cases hf
  | cons g rest =>
    obtain ⟨hlt, -⟩ := pairwise_cons.mp h.desc
    have hg : g = f := by
      rcases mem_cons.mp hf with rfl | hrest
      · rfl
      have hbelow := hlt f hrest
      have htop := (h.range g mem_cons_self).2
      omega
    subst hg
    rw [filter_cons_of_neg (by simp [hmax]), filter_of_absent]
    intro x hx
    have := hlt x hx
    omega

theorem Shape.shift (h : Shape E maxFiles d rot cur) (hi : i + 1 ≤ maxFiles)
    (hfree : ∀ f ∈ rot, f.1 ≠ i + 1) :
    Shape E maxFiles (applyOp d (.shift i))
      (rot.map fun f => if f.1 = i then (i + 1, f.2) else f) cur := by
  unfold applyOp
  dsimp only
  split
  · refine ⟨?_, h.current, ?_, h.curOk, ?_, ?_⟩
    · show (d.rotated.filter _).map _ = _
      rw [h.rotated, filter_map_bytes, filter_of_absent hfree, map_map, map_map]
      refine map_congr_left ?_
      intro f _
      by_cases hf : f.1 = i
      · simp [hf]
      · simp [hf]
    · intro f hf
      obtain ⟨g, hg, rfl⟩ := mem_map.mp hf
      split
      · exact h.rotOk g hg
      · exact h.rotOk g hg
    · -- no number lies between `i` and `i + 1`
      rw [pairwise_map]
      refine h.desc.imp_of_mem ?_
      intro a b ha hb hab
      have hfa := hfree a ha
      by_cases hai : a.1 = i
      · rw [if_pos hai, if_neg (by omega)]
        show b.1 < i + 1
        omega
      · rw [if_neg hai]
        by_cases hbi : b.1 = i
        · rw [if_pos hbi]
          show i + 1 < a.1
          omega
        · rw [if_neg hbi]
          exact hab
    · intro f hf
      obtain ⟨g, hg, rfl⟩ := mem_map.mp hf
      split
      · exact ⟨Nat.succ_pos i, hi⟩
      · exact h.range g hg
  · next hnone =>
    have habsent : ∀ f ∈ rot, f.1 ≠ i := by
      intro f hf hfi
      exact hnone ((h.hasRotated_iff i).mpr ⟨f, hf, hfi⟩)
    have hsame : (rot.map fun f => if f.1 = i then (i + 1, f.2) else f) = rot := by
      refine (map_congr_left ?_).trans (map_id rot)
      intro f hf
      rw [if_neg (habsent f hf)]
      rfl
    rw [hsame]
    exact h

theorem Shape.retire (h : Shape E maxFiles d rot (some c)) (hmax : 1 ≤ maxFiles)
    (hfree : ∀ f ∈ rot, f.1 ≠ 1) : Shape E maxFiles (applyOp d .retire) (rot ++ [(1, c)]) none := by
  unfold applyOp
  rw [h.current]
  refine ⟨?_, rfl, ?_, by simp, ?_, ?_⟩
  · show d.rotated.filter _ ++ _ = _
    rw [h.rotated, filter_map_bytes, filter_of_absent hfree, map_append]
    rfl
  · intro f hf
    rcases mem_snoc hf with hf | rfl
    · exact h.rotOk f hf
    · exact h.curOk c rfl
  · rw [pairwise_append]
    refine ⟨h.desc, pairwise_singleton _ _, ?_⟩
    intro a ha b hb
    rw [mem_singleton.mp hb]
    have hrange := (h.range a ha).1
    have hne := hfree a ha
    show 1 < a.1
    omega
  · intro f hf
    rcases mem_snoc hf with hf | rfl
    · exact h.range f hf
    · exact ⟨Nat.le_refl 1, hmax⟩

theorem Shape.clear_absent (h : Shape E maxFiles d rot cur) (hfree : ∀ f ∈ rot, f.1 ≠ i + 1) :
    applyOp d (.clear i) = d := by
  unfold applyOp
  dsimp only
  split
  · rw [h.rotated, filter_map_bytes, filter_of_absent hfree, ← h.rotated]
  · rfl

/-- The operations for the files `i`, …, `1`, stopped anywhere, keep every chunk
when `i + 1` is free: each file moves into the place that the one before it left. -/
theorem Shape.rotateOps {c : Chunk ρ} {i : Nat} (h : Shape E maxFiles d rot (some c))
    (hi : i < maxFiles) (hfree : ∀ f ∈ rot, f.1 ≠ i + 1) (ops : Nat) :
    ∃ rot' cur', Shape E maxFiles (((rotateOps i).take ops).foldl applyOp d) rot' cur' ∧
      chunksOf rot' cur' = chunksOf rot (some c) := by
  induction i generalizing d rot ops with
  | zero =>
    cases ops with
    | zero => exact ⟨rot, some c, h, rfl⟩
    | succ ops =>
      refine ⟨rot ++ [(1, c)], none, ?_, by simp [chunksOf]⟩
      show Shape E maxFiles (([RotateOp.retire].take (ops + 1)).foldl applyOp d) _ _
      rw [take_of_length_le (by simp)]
      exact h.retire hi hfree
  | succ i ih =>
    cases ops with
    | zero => exact ⟨rot, some c, h, rfl⟩
    | succ ops =>
      show ∃ rot' cur', Shape E maxFiles (((RotateOp.shift (i + 1) :: Audit.rotateOps i).take
        ops).foldl applyOp (applyOp d (.clear (i + 1)))) rot' cur' ∧ _
      rw [h.clear_absent hfree]
      cases ops with
      | zero => exact ⟨rot, some c, h, rfl⟩
      | succ ops =>
        have hshift := h.shift hi hfree
        have hleft : ∀ f ∈ rot.map (fun f => if f.1 = i + 1 then (i + 1 + 1, f.2) else f),
            f.1 ≠ i + 1 := by
          intro f hf
          obtain ⟨g, -, rfl⟩ := mem_map.mp hf
          split
          · show i + 1 + 1 ≠ i + 1
            omega
          · next hne => exact hne
        obtain ⟨rot', cur', hshape, hchunks⟩ := ih hshift (by omega) hleft ops
        refine ⟨rot', cur', hshape, hchunks.trans ?_⟩
        unfold chunksOf
        rw [map_map]
        congr 1
        refine map_congr_left ?_
        intro f _
        show (if f.1 = i + 1 then (i + 1 + 1, f.2) else f).2 = f.2
        split
        · rfl
        rfl

theorem Shape.rotate {policy} (h : Shape E policy.maxFiles d rot (some c))
    (hmax : 1 ≤ policy.maxFiles) (ops : Nat) :
    ∃ rot' cur', Shape E policy.maxFiles (rotate policy d ops) rot' cur' ∧
      (chunksOf rot' cur' = chunksOf rot (some c) ∨
        ∃ b, (policy.maxFiles, b) ∈ rot ∧ chunksOf rot (some c) = b :: chunksOf rot' cur') := by
  unfold Audit.rotate
  obtain ⟨i, hi⟩ : ∃ i, policy.maxFiles = i + 1 := ⟨policy.maxFiles - 1, by omega⟩
  rw [show policy.maxFiles - 1 = i by omega]
  by_cases hfree : ∀ f ∈ rot, f.1 ≠ i + 1
  · obtain ⟨rot', cur', hshape, hchunks⟩ := h.rotateOps (by omega) hfree ops
    exact ⟨rot', cur', hshape, .inl hchunks⟩
  · simp only [not_forall, not_not] at hfree
    obtain ⟨⟨n, b⟩, hb, hn⟩ := hfree
    subst hn
    have hremoved := h.remove (i + 1)
    have hgone : ∀ f ∈ rot.filter (fun f => f.1 ≠ i + 1), f.1 ≠ i + 1 := by
      intro f hf
      exact of_decide_eq_true (mem_filter.mp hf).2
    have hdrop : chunksOf rot (some c)
        = b :: chunksOf (rot.filter fun f => f.1 ≠ i + 1) (some c) := by
      have hsplit := h.filter_max hb hi.symm
      rw [hi] at hsplit
      conv_lhs => rw [hsplit]
      rfl
    cases ops with
    | zero => exact ⟨rot, some c, h, .inl rfl⟩
    | succ ops =>
      -- once the first operation has removed the file, the rest keeps every chunk
      have hrest := hremoved.rotateOps (by omega) hgone (ops + 1)
      cases i with
      | zero =>
        have hretire : applyOp d .retire = applyOp
            { d with rotated := d.rotated.filter fun f => f.1 ≠ 1 } .retire := by
          have hcur : d.current = some (c.bytes E) := h.current
          unfold applyOp
          rw [hcur, filter_filter]
          simp
        obtain ⟨rot', cur', hshape, hchunks⟩ := hrest
        refine ⟨rot', cur', ?_, .inr ⟨b, hi ▸ hb, by rw [hdrop, hchunks]⟩⟩
        show Shape E policy.maxFiles ((([] : List RotateOp).take ops).foldl applyOp
          (applyOp d .retire)) rot' cur'
        rw [hretire]
        exact hshape
      | succ i =>
        by_cases hnext : d.hasRotated (i + 1) = true
        · have hclear : applyOp d (.clear (i + 1))
              = { d with rotated := d.rotated.filter fun f => f.1 ≠ i + 1 + 1 } := if_pos hnext
          obtain ⟨rot', cur', hshape, hchunks⟩ := hrest
          refine ⟨rot', cur', ?_, .inr ⟨b, hi ▸ hb, by rw [hdrop, hchunks]⟩⟩
          show Shape E policy.maxFiles (((RotateOp.shift (i + 1) :: Audit.rotateOps i).take
            ops).foldl applyOp (applyOp d (.clear (i + 1)))) rot' cur'
          rw [hclear, ← hremoved.clear_absent hgone]
          exact hshape
        · -- no file moves to the highest number, so the one there stays
          have hclear : applyOp d (.clear (i + 1)) = d := if_neg hnext
          have hshift : applyOp d (.shift (i + 1)) = d := if_neg hnext
          have habsent : ∀ f ∈ rot, f.1 ≠ i + 1 := by
            intro f hf hfi
            exact hnext ((h.hasRotated_iff (i + 1)).mpr ⟨f, hf, hfi⟩)
          show ∃ rot' cur', Shape E policy.maxFiles (((RotateOp.shift (i + 1) ::
            Audit.rotateOps i).take ops).foldl applyOp (applyOp d (.clear (i + 1)))) rot' cur' ∧ _
          rw [hclear]
          cases ops with
          | zero => exact ⟨rot, some c, h, .inl rfl⟩
          | succ ops =>
            show ∃ rot' cur', Shape E policy.maxFiles (((Audit.rotateOps i).take ops).foldl
              applyOp (applyOp d (.shift (i + 1)))) rot' cur' ∧ _
            rw [hshift]
            obtain ⟨rot', cur', hshape, hchunks⟩ := h.rotateOps (by omega) habsent ops
            exact ⟨rot', cur', hshape, .inl hchunks⟩

end Rotation

end SentinelPass.Audit
