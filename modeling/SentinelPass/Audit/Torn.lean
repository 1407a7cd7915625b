import SentinelPass.Audit.Files
import SentinelPass.Audit.Walk

/-!
# Torn appends

The log over runs of appends, restarts and crashes. A crash cuts the bytes of an
append anywhere, or stops the rotation after it anywhere. The next append ends
the torn line, and both it and the verifier have to skip what was cut. They do
when the cut leaves text that is not a whole record (`CleanCut`).
-/

namespace SentinelPass.Audit

open Lib List Option Chunk Audit

variable {ρ : Type}

/-! ## The machine -/

/-- The directory, every record whose whole line was written and, for each append
that was cut, the records up to and with its own. -/
structure LogState (ρ : Type) where
  dir : AuditDir
  written : List (AuditEntry ρ)
  torn : List (List (AuditEntry ρ))

def LogState.initial : LogState ρ := ⟨.empty, [], []⟩

/-- Every sequence of records that was hashed one after another. -/
def LogState.chains (s : LogState ρ) : List (List (AuditEntry ρ)) := s.written :: s.torn

/-- `start` opens the logger. `append` rotates if that is due, up to `ops` file
operations; `crash` writes the first `k` bytes of an append. -/
inductive LogAction (ρ : Type)
  | start
  | append (entry : AuditEntry ρ) (isSealed : Bool) (ops : Nat)
  | crash (entry : AuditEntry ρ) (isSealed : Bool) (k : Nat)

/-- The installed keys: the chain key while the vault is unlocked. -/
def installed (chainKey : Bytes) (isSealed : Bool) : Option Bytes :=
  if isSealed then some chainKey else none

section Machine

variable (E : AuditEnv ρ) (policy : AuditPolicy) (chainKey : Bytes)

def logStep (s : LogState ρ) : LogAction ρ → Option (LogState ρ)
  | .start => some { s with dir := s.dir.write [] }
  | .append entry isSealed ops =>
    match appendEntry E policy.sanitized s.dir entry (installed chainKey isSealed) ops with
    | .error _ => some s
    | .ok (e, d) => some { s with dir := d, written := s.written ++ [e] }
  | .crash entry isSealed k =>
    match chainEntry E s.dir entry (installed chainKey isSealed) with
    | .error _ => some s
    | .ok e =>
      let bytes := appendBytes E s.dir e
      if bytes.length ≤ k then
        some { s with dir := s.dir.write bytes, written := s.written ++ [e] }
      else
        some { s with dir := s.dir.write (bytes.take k), torn := s.torn ++ [s.written ++ [e]] }

def auditLog : Machine (LogState ρ) (LogAction ρ) where
  init s := s = .initial
  step := logStep E policy chainKey

/-- A crash does not cut inside a character, nor just before the newline. -/
def CleanCut (s : LogState ρ) : LogAction ρ → Prop
  | .crash entry isSealed k =>
    ∀ e ∈ (chainEntry E s.dir entry (installed chainKey isSealed)).toOption,
      (fromUtf8 ((appendBytes E s.dir e).take k)).isSome ∧ k + 1 ≠ (appendBytes E s.dir e).length
  | _ => True

end Machine

instance (E : AuditEnv ρ) (chainKey : Bytes) (s : LogState ρ) (a : LogAction ρ) :
    Decidable (CleanCut E chainKey s a) :=
  match a with
  | .crash .. => by
    unfold CleanCut
    infer_instance
  | .start | .append .. => .isTrue trivial

/-! ## The invariant -/

variable {E : AuditEnv ρ} {policy : AuditPolicy} {chainKey : Bytes}

/-- The files are chunks, their records end what was written, and what was hashed one
after another is a chain from the genesis hash. -/
structure LogInv (E : AuditEnv ρ) (maxFiles : Nat) (chainKey : Bytes) (s : LogState ρ) : Prop where
  shape : ∃ rot cur, Shape E maxFiles s.dir rot cur
  suffix : readAllEntries E s.dir <:+ s.written
  recent : readAllEntries E s.dir = [] → s.written = []
  chained : ∀ g ∈ s.chains, ∃ last, Chained E chainKey (some (genesisPrev E, 1)) g last

def GenesisFresh (E : AuditEnv ρ) (written : List (AuditEntry ρ)) : Prop :=
  ∀ e ∈ written, ∀ c ∈ e.chain, c.hash ≠ hexDigest (genesisPrev E)

section Appending

variable {s t : LogState ρ} {maxFiles : Nat}

theorem LogInv.recover (hE : E.Lawful) (h : LogInv E maxFiles chainKey s) :
    ∃ head, recoverChainHead E s.dir = .ok head ∧
      Chained E chainKey (some (genesisPrev E, 1)) s.written (some (head.1, head.2 + 1)) := by
  obtain ⟨rot, cur, hshape⟩ := h.shape
  obtain ⟨last, hchain⟩ := h.chained s.written mem_cons_self
  have hread := hshape.readAllEntries_eq hE
  have hheaded : ∀ e ∈ (chunksOf rot cur).flatMap entries, Headed e := by
    intro e he
    rw [← hread] at he
    exact hchain.headed e (h.suffix.subset he)
  have hrecover : recoverChainHead E s.dir
      = .ok (((readAllEntries E s.dir).getLast?.bind headOf).getD (genesisPrev E, 0)) := by
    unfold recoverChainHead
    rw [hshape.contents, recover_chunks hE hshape.chunksOk hheaded, hread]
  refine ⟨_, hrecover, ?_⟩
  rcases eq_nil_or_concat' (readAllEntries E s.dir) with hnil | ⟨front, e, he⟩
  · -- nothing was ever written
    rw [hnil, h.recent hnil]
    exact .nil _
  · obtain ⟨pruned, hpruned⟩ := h.suffix
    rw [he, ← append_assoc] at hpruned
    rw [← hpruned] at hchain ⊢
    obtain ⟨mid, c, p, hf, rfl⟩ := hchain.last
    have hhead : headOf e
        = some (linkHash E chainKey c.sealed p (canonicalRecordBytes E e), c.seq) := by
      simp [headOf, hf.chain, hf.hash, Except.toOption]
    rw [he, getLast?_concat, bind_some, hhead]
    exact hchain

theorem LogInv.chainEntry (hE : E.Lawful) (h : LogInv E maxFiles chainKey s) (entry : AuditEntry ρ)
    (isSealed : Bool) :
    ∃ e last, chainEntry E s.dir entry (installed chainKey isSealed) = .ok e ∧
      e.record = entry.record ∧
      Chained E chainKey (some (genesisPrev E, 1)) (s.written ++ [e]) last := by
  obtain ⟨head, hrecover, hchain⟩ := h.recover hE
  have hsome : (installed chainKey isSealed).isSome = isSealed := by
    cases isSealed with
    | false => rfl
    | true => rfl
  have hhash : chainHash E isSealed (installed chainKey isSealed) head.1
    (canonicalRecordBytes E entry)
      = .ok (linkHash E chainKey isSealed head.1 (canonicalRecordBytes E entry)) := by
    cases isSealed with
    | false => rfl
    | true => rfl
  let block : AuditChain := ⟨auditChainFormatVersion, head.2 + 1, hexDigest head.1,
    hexDigest (linkHash E chainKey isSealed head.1 (canonicalRecordBytes E entry)), isSealed⟩
  have hfollows : Follows E chainKey (some (head.1, head.2 + 1)) { entry with chain := some block }
      block head.1 := by
    refine ⟨rfl, rfl, rfl, rfl, ?_, ?_⟩
    · intro hnone
      cases hnone
    · intro running seq hsame
      cases hsame
      exact ⟨rfl, rfl⟩
  refine ⟨{ entry with chain := some block }, _, ?_, rfl, hchain.append (.cons hfollows (.nil _))⟩
  unfold Audit.chainEntry
  rw [hrecover, hsome]
  show (chainHash E isSealed _ head.1 _ >>= _) = _
  rw [hhash]
  rfl

/-! ## Steps -/

/-- The chunk of `audit.log`, empty where the file is missing. -/
def currentChunk (cur : Option (Chunk ρ)) : Chunk ρ := cur.getD ⟨[], []⟩

theorem chunksOf_current (rot) (cur : Option (Chunk ρ)) :
    (chunksOf rot (some (currentChunk cur))).flatMap entries
      = (chunksOf rot cur).flatMap entries := by
  cases cur with
  | none => simp [chunksOf, currentChunk, entries]
  | some c => rfl

theorem chunksOf_append {rot c c'} {new : List (AuditEntry ρ)} (h : c'.entries = c.entries ++ new) :
    (chunksOf rot (some c')).flatMap entries
      = (chunksOf rot (some c)).flatMap entries ++ new := by
  simp [chunksOf, h]

section Shapes

variable {d : AuditDir} {rot : List (Nat × Chunk ρ)} {cur : Option (Chunk ρ)}

theorem Shape.current_bytes (h : Shape E maxFiles d rot cur) :
    d.current.getD [] = (currentChunk cur).bytes E := by
  rw [h.current]
  cases cur with
  | none => rfl
  | some c => rfl

theorem Shape.current_ok (h : Shape E maxFiles d rot cur) : (currentChunk cur).Ok E := by
  cases hcur : cur with
  | none =>
    refine ⟨?_, Cut.nil⟩
    intro i hi
    cases hi
  | some c => exact h.curOk c hcur

theorem Shape.write (h : Shape E maxFiles d rot cur) {bytes c} (hc : c.Ok E)
    (hbytes : (currentChunk cur).bytes E ++ bytes = c.bytes E) :
    Shape E maxFiles (d.write bytes) rot (some c) :=
  { h with
    current := by
      show some (d.current.getD [] ++ bytes) = some (c.bytes E)
      rw [h.current_bytes, hbytes]
    curOk c' hc' := by
      cases hc'
      exact hc }

section

variable (hE : E.Lawful) (h : Shape E maxFiles d rot cur)

include hE h

theorem Shape.writeRecord (e) : Shape E maxFiles (d.write (appendBytes E d e)) rot
      (some ⟨(currentChunk cur).closed ++ [.record e], []⟩) := by
  have hok := h.current_ok
  refine h.write ⟨?_, Cut.nil⟩ ?_
  · intro i hi
    rcases mem_snoc hi with hi | rfl
    · exact closed_ok hok i hi
    · trivial
  · unfold appendBytes
    rw [h.current_bytes, ← append_assoc, bytes_tailRepair hE hok, bytes_record]

theorem Shape.readAllEntries_writeRecord (e) :
    readAllEntries E (d.write (appendBytes E d e)) = readAllEntries E d ++ [e] := by
  rw [(h.writeRecord hE e).readAllEntries_eq hE, h.readAllEntries_eq hE, ← chunksOf_current rot cur]
  refine chunksOf_append ?_
  show ((currentChunk cur).closed ++ [Item.record e]).filterMap Item.entry = _
  rw [filterMap_append, closed_entries]
  rfl

theorem Shape.writeCut {e k} (hutf : (fromUtf8 ((appendBytes E d e).take k)).isSome)
    (hk : k + 1 < (appendBytes E d e).length) :
    ∃ c : Chunk ρ, c.entries = (currentChunk cur).entries ∧
      Shape E maxFiles (d.write ((appendBytes E d e).take k)) rot (some c) := by
  have hok := h.current_ok
  rcases cut_of_take hutf hk with hnil | ⟨q, hq, htake⟩
  · refine ⟨currentChunk cur, rfl, ?_⟩
    show Shape E maxFiles (d.write ((tailRepair _ ++ lineBytes E e).take k)) rot _
    rw [hnil]
    exact h.write hok (append_nil _)
  · refine ⟨⟨(currentChunk cur).closed, q⟩, closed_entries _, ?_⟩
    show Shape E maxFiles (d.write ((tailRepair _ ++ lineBytes E e).take k)) rot _
    rw [htake]
    refine h.write ⟨closed_ok hok, hq⟩ ?_
    rw [h.current_bytes, ← append_assoc, bytes_tailRepair hE hok, bytes_tail]

end

end Shapes

/-- A step loses no record whose line was written, but those of the file that
retention drops. -/
def Kept (E : AuditEnv ρ) (maxFiles : Nat) (s t : LogState ρ) : Prop :=
  ∃ new, t.written = s.written ++ new ∧ (readAllEntries E t.dir = readAllEntries E s.dir ++ new ∨
      ∃ b, (maxFiles, b) ∈ s.dir.rotated ∧
        readAllEntries E s.dir ++ new = fileEntries E b ++ readAllEntries E t.dir)

theorem LogInv.of_kept (h : LogInv E maxFiles chainKey s) (hkept : Kept E maxFiles s t)
    (hshape : ∃ rot cur, Shape E maxFiles t.dir rot cur)
    (hchain : ∀ g ∈ t.chains, ∃ last, Chained E chainKey (some (genesisPrev E, 1)) g last)
    (hrecent : readAllEntries E t.dir = [] → t.written = []) : LogInv E maxFiles chainKey t := by
  refine ⟨hshape, ?_, hrecent, hchain⟩
  obtain ⟨new, hwritten, hread⟩ := hkept
  obtain ⟨pruned, hpruned⟩ := h.suffix
  rw [hwritten, ← hpruned, append_assoc]
  rcases hread with hread | ⟨b, -, hread⟩
  · rw [← hread]
    exact suffix_append _ _
  · rw [hread, ← append_assoc]
    exact suffix_append _ _

theorem LogInv.chained_concat (h : LogInv E maxFiles chainKey s) {e : AuditEntry ρ}
    {last : Head} (hchain : Chained E chainKey (some (genesisPrev E, 1)) (s.written ++ [e]) last) :
    ∀ g ∈ (s.written ++ [e]) :: s.torn,
      ∃ last, Chained E chainKey (some (genesisPrev E, 1)) g last := by
  intro g hg
  rcases mem_cons.mp hg with rfl | hg
  · exact ⟨last, hchain⟩
  · exact h.chained g (mem_cons_of_mem _ hg)

theorem LogInv.writeRecord (hE : E.Lawful) (h : LogInv E maxFiles chainKey s) {e : AuditEntry ρ}
    {last : Head} (hchain : Chained E chainKey (some (genesisPrev E, 1)) (s.written ++ [e]) last)
    (ht : t = { s with dir := s.dir.write (appendBytes E s.dir e), written := s.written ++ [e] }) :
    Kept E maxFiles s t ∧ LogInv E maxFiles chainKey t := by
  subst ht
  obtain ⟨rot, cur, hshape⟩ := h.shape
  have hread := hshape.readAllEntries_writeRecord hE e
  have hkept : Kept E maxFiles s
      { s with dir := s.dir.write (appendBytes E s.dir e), written := s.written ++ [e] } :=
    ⟨[e], rfl, .inl hread⟩
  refine ⟨hkept, h.of_kept hkept ⟨rot, _, hshape.writeRecord hE e⟩ (h.chained_concat hchain) ?_⟩
  intro hnil
  rw [hread] at hnil
  simp at hnil

theorem LogInv.rotate (hE : E.Lawful) {policy : AuditPolicy} (hmax : 1 ≤ policy.maxFiles)
    (h : LogInv E policy.maxFiles chainKey s) {e : AuditEntry ρ} {last : Head}
    (hchain : Chained E chainKey (some (genesisPrev E, 1)) (s.written ++ [e]) last) (ops : Nat)
    (ht : t = { s with
      dir := rotate policy (s.dir.write (appendBytes E s.dir e)) ops
      written := s.written ++ [e] }) :
    Kept E policy.maxFiles s t ∧ LogInv E policy.maxFiles chainKey t := by
  subst ht
  obtain ⟨rot, cur, hshape⟩ := h.shape
  have hwrite := hshape.writeRecord hE e
  obtain ⟨rot', cur', hrotated, hchunks⟩ := hwrite.rotate hmax ops
  have hbefore := hwrite.readAllEntries_eq hE
  have hafter := hrotated.readAllEntries_eq hE
  have hmem : e ∈ readAllEntries E (rotate policy (s.dir.write (appendBytes E s.dir e)) ops) := by
    rw [hafter, mem_flatMap]
    refine ⟨⟨(currentChunk cur).closed ++ [.record e], []⟩, ?_, ?_⟩
    · rcases hchunks with hsame | ⟨b, hb, hdrop⟩
      · rw [hsame]
        simp [chunksOf]
      · cases rot with
        | nil => cases hb
        | cons f rest =>
          have htail := (cons.inj hdrop).2
          rw [← htail]
          simp
    · show e ∈ ((currentChunk cur).closed ++ [Item.record e]).filterMap Item.entry
      simp [Item.entry]
  have hkept : Kept E policy.maxFiles s { s with
      dir := rotate policy (s.dir.write (appendBytes E s.dir e)) ops
      written := s.written ++ [e] } := by
    refine ⟨[e], rfl, ?_⟩
    -- the write itself lost nothing, and the rotation at most the oldest chunk
    rw [← hshape.readAllEntries_writeRecord hE e, hbefore]
    rcases hchunks with hsame | ⟨b, hb, hdrop⟩
    · left
      show readAllEntries E (rotate policy _ ops) = _
      rw [hafter, hsame]
    · right
      refine ⟨b.bytes E, ?_, ?_⟩
      · rw [hshape.rotated]
        exact mem_map_of_mem (f := fun f : Nat × Chunk ρ => (f.1, f.2.bytes E)) hb
      · show _ = fileEntries E (b.bytes E) ++ readAllEntries E (rotate policy _ ops)
        rw [fileEntries_chunk hE (hshape.rotOk _ hb), hafter, hdrop, flatMap_cons]
  refine ⟨hkept, h.of_kept hkept ⟨rot', cur', hrotated⟩ (h.chained_concat hchain) ?_⟩
  intro hnil
  rw [hnil] at hmem
  cases hmem

theorem LogInv.cut (hE : E.Lawful) (h : LogInv E maxFiles chainKey s) {e : AuditEntry ρ}
    {last : Head} (hchain : Chained E chainKey (some (genesisPrev E, 1)) (s.written ++ [e]) last)
    {k : Nat} (hutf : (fromUtf8 ((appendBytes E s.dir e).take k)).isSome)
    (hk : k + 1 < (appendBytes E s.dir e).length)
    (ht : t = { s with
      dir := s.dir.write ((appendBytes E s.dir e).take k)
      torn := s.torn ++ [s.written ++ [e]] }) :
    Kept E maxFiles s t ∧ LogInv E maxFiles chainKey t := by
  subst ht
  obtain ⟨rot, cur, hshape⟩ := h.shape
  obtain ⟨c, hentries, hcut⟩ := hshape.writeCut hE hutf hk
  have hread : readAllEntries E (s.dir.write ((appendBytes E s.dir e).take k))
      = readAllEntries E s.dir := by
    rw [hcut.readAllEntries_eq hE, hshape.readAllEntries_eq hE, ← chunksOf_current rot cur]
    simp [chunksOf, hentries]
  have hkept : Kept E maxFiles s { s with
      dir := s.dir.write ((appendBytes E s.dir e).take k)
      torn := s.torn ++ [s.written ++ [e]] } :=
    ⟨[], by simp, .inl (by rw [append_nil]; exact hread)⟩
  refine ⟨hkept, h.of_kept hkept ⟨rot, some c, hcut⟩ ?_ ?_⟩
  · intro g hg
    rcases mem_cons.mp hg with rfl | hg
    · exact h.chained _ mem_cons_self
    · rcases mem_snoc hg with hg | rfl
      · exact h.chained g (mem_cons_of_mem _ hg)
      · exact ⟨last, hchain⟩
  · intro hnil
    refine h.recent ?_
    rw [← hread]
    exact hnil

theorem LogInv.start (hE : E.Lawful) (h : LogInv E maxFiles chainKey s) :
    Kept E maxFiles s { s with dir := s.dir.write [] } ∧
      LogInv E maxFiles chainKey { s with dir := s.dir.write [] } := by
  obtain ⟨rot, cur, hshape⟩ := h.shape
  have hwrite := hshape.write hshape.current_ok (append_nil _)
  have hread : readAllEntries E (s.dir.write []) = readAllEntries E s.dir := by
    rw [hwrite.readAllEntries_eq hE, hshape.readAllEntries_eq hE, chunksOf_current]
  have hkept : Kept E maxFiles s { s with dir := s.dir.write [] } :=
    ⟨[], by simp, .inl (by rw [append_nil]; exact hread)⟩
  refine ⟨hkept, h.of_kept hkept ⟨rot, _, hwrite⟩ h.chained ?_⟩
  intro hnil
  refine h.recent ?_
  rw [← hread]
  exact hnil

end Appending

section Runs

variable {s t : LogState ρ}

theorem LogInv.initial (maxFiles : Nat) : LogInv E maxFiles chainKey .initial where
  shape := by
    refine ⟨[], none, rfl, rfl, ?_, ?_, List.Pairwise.nil, ?_⟩
    · intro f hf
      cases hf
    · intro c hc
      cases hc
    · intro f hf
      cases hf
  suffix := by
    simp [readAllEntries, chainFilesOldestFirst, rotatedOldestFirst, LogState.initial,
      AuditDir.empty]
  recent _ := rfl
  chained g hg := by
    rw [mem_singleton.mp hg]
    exact ⟨_, .nil _⟩

theorem AuditPolicy.sanitized_maxFiles (p : AuditPolicy) : 1 ≤ p.sanitized.maxFiles :=
  Nat.le_max_right _ _

theorem LogInv.appendEntry (hE : E.Lawful) (h : LogInv E policy.sanitized.maxFiles chainKey s)
    (entry : AuditEntry ρ) (isSealed : Bool) (ops : Nat) :
    ∃ e d, appendEntry E policy.sanitized s.dir entry (installed chainKey isSealed) ops
      = .ok (e, d) ∧
      e.record = entry.record ∧
      Kept E policy.sanitized.maxFiles s { s with dir := d, written := s.written ++ [e] } ∧
      LogInv E policy.sanitized.maxFiles chainKey
        { s with dir := d, written := s.written ++ [e] } := by
  obtain ⟨e, last, hentry, hrecord, hchain⟩ := h.chainEntry hE entry isSealed
  unfold Audit.appendEntry
  rw [hentry]
  by_cases hsize : policy.sanitized.maxFileBytes
      ≤ ((s.dir.write (appendBytes E s.dir e)).current.getD []).length
  · refine ⟨e, _, if_pos hsize, hrecord, ?_⟩
    exact h.rotate hE policy.sanitized_maxFiles hchain ops rfl
  · exact ⟨e, _, if_neg hsize, hrecord, h.writeRecord hE hchain rfl⟩

/-- What one step keeps of the files and of the chain. -/
theorem LogInv.step (hE : E.Lawful) (h : LogInv E policy.sanitized.maxFiles chainKey s)
    {a : LogAction ρ} (hcut : CleanCut E chainKey s a)
    (hstep : logStep E policy chainKey s a = some t) :
    Kept E policy.sanitized.maxFiles s t ∧ LogInv E policy.sanitized.maxFiles chainKey t := by
  cases a with
  | start =>
    cases hstep
    exact h.start hE
  | append entry isSealed ops =>
    obtain ⟨e, d, hok, -, hkept⟩ := h.appendEntry hE entry isSealed ops
    unfold logStep at hstep
    dsimp only at hstep
    rw [hok] at hstep
    cases hstep
    exact hkept
  | crash entry isSealed k =>
    obtain ⟨e, last, hok, -, hchain⟩ := h.chainEntry hE entry isSealed
    obtain ⟨hutf, hk⟩ := hcut e (toOption_eq_some.mpr hok)
    unfold logStep at hstep
    dsimp only at hstep
    rw [hok] at hstep
    dsimp only at hstep
    split at hstep
    · cases hstep
      exact h.writeRecord hE hchain rfl
    rename_i hcut
    cases hstep
    exact h.cut hE hchain hutf (by omega) rfl

theorem LogInv.of_reachable (hE : E.Lawful)
    (h : (auditLog E policy chainKey).Reachable (CleanCut E chainKey) s) :
    LogInv E policy.sanitized.maxFiles chainKey s := by
  refine h.invariant ?_ ?_
  · rintro x rfl
    exact .initial _
  · intro x y a hx hcut hstep
    exact (hx.step hE hcut hstep).2

/-- Records that go on from a hash other than the genesis, or from the genesis and
number one, can start a log. -/
theorem Chained.start {running : Digest} {seq : UInt64} {last : Head} {es : List (AuditEntry ρ)}
    (h : Chained E chainKey (some (running, seq)) es last)
    (hfirst : running = genesisPrev E → seq = 1) : ∃ last', Chained E chainKey none es last' := by
  cases h with
  | nil => exact ⟨none, .nil _⟩
  | cons hf rest =>
    obtain ⟨rfl, hseq⟩ := hf.next _ _ rfl
    refine ⟨last, .cons ⟨hf.chain, hf.version, hf.prev, hf.hash, ?_, ?_⟩ rest⟩
    · intro _ hgenesis
      rw [hseq, hfirst hgenesis]
    · intro running seq hnone
      cases hnone

theorem LogInv.verified {maxFiles : Nat} (h : LogInv E maxFiles chainKey s)
    (hfresh : GenesisFresh E s.written) : Verified E s.dir chainKey := by
  obtain ⟨rot, cur, hshape⟩ := h.shape
  obtain ⟨last, hchain⟩ := h.chained s.written mem_cons_self
  obtain ⟨pruned, hpruned⟩ := h.suffix
  rw [← hpruned] at hchain
  obtain ⟨mid, hold, hnew⟩ := hchain.split
  have hstart : ∃ last', Chained E chainKey none (readAllEntries E s.dir) last' := by
    rcases eq_nil_or_concat' pruned with rfl | ⟨front, e, rfl⟩
    · cases hold
      exact hnew.start fun _ => rfl
    · -- the last record that was dropped does not hash to the genesis constant
      obtain ⟨before, c, p, hf, rfl⟩ := hold.last
      refine hnew.start ?_
      intro hgenesis
      have hmem : e ∈ s.written := by
        rw [← hpruned]
        simp
      exact absurd (hf.hash.trans (by rw [hgenesis])) (hfresh e hmem c hf.chain)
  obtain ⟨last', hread⟩ := hstart
  exact verified_of_chained hshape.text hread

/-- **A torn append is survived.** In every run with clean cuts: the next append
succeeds, no record whose line was written is lost but those of the file that
retention drops, and the log verifies. -/
theorem log_survives_torn_appends (E : AuditEnv ρ) (hE : E.Lawful) (policy : AuditPolicy)
    (chainKey : Bytes) (s : LogState ρ)
    (hreach : (auditLog E policy chainKey).Reachable (CleanCut E chainKey) s)
    (hfresh : GenesisFresh E s.written) :
    (∀ entry isSealed ops, ∃ e d,
      appendEntry E policy.sanitized s.dir entry (installed chainKey isSealed) ops = .ok (e, d) ∧
        e.record = entry.record) ∧
    (∀ a t, CleanCut E chainKey s a → logStep E policy chainKey s a = some t →
      Kept E policy.sanitized.maxFiles s t) ∧
    readAllEntries E s.dir <:+ s.written ∧
    Verified E s.dir chainKey := by
  have hinv := LogInv.of_reachable hE hreach
  refine ⟨?_, ?_, hinv.suffix, hinv.verified hfresh⟩
  · intro entry isSealed ops
    obtain ⟨e, d, hok, hrecord, -⟩ := hinv.appendEntry hE entry isSealed ops
    exact ⟨e, d, hok, hrecord⟩
  · intro a t hcut hstep
    exact (hinv.step hE hcut hstep).1

end Runs

/-! ## Sample runs -/

def sampleKey : Bytes := [1, 2, 3]

def samplePolicy : AuditPolicy := ⟨256, 1⟩

def sampleLog : Machine (LogState Nat) (LogAction Nat) := auditLog sampleEnv samplePolicy sampleKey

/-- The second append is cut after `k` bytes. A third one follows after a restart
and rotates the file. -/
def tornRun (k : Nat) : List (LogAction Nat) :=
  [.append ⟨1, none⟩ true 0, .crash ⟨2, none⟩ true k, .start, .append ⟨3, none⟩ false 1]

theorem tornRun_allowed :
    sampleLog.Allowed (CleanCut sampleEnv sampleKey) .initial (tornRun 5) := by
  decide +kernel

theorem tornRun_runs : (sampleLog.exec .initial (tornRun 5)).any (fun s => s.written.length = 2 ∧
    s.dir.current = none ∧
    ∀ e ∈ s.written, e.chain.map AuditChain.hash ≠ some (hexDigest (genesisPrev sampleEnv)))
      = true := by
  decide +kernel

theorem log_survives_tornRun :
    ∃ s, sampleLog.exec .initial (tornRun 5) = some s ∧ s.written.length = 2 ∧
      s.dir.current = none ∧ readAllEntries sampleEnv s.dir <:+ s.written ∧
      Verified sampleEnv s.dir sampleKey := by
  obtain ⟨s, hs, hwritten⟩ := (any_eq_true _ _).mp tornRun_runs
  obtain ⟨hlen, hrotated, hhash⟩ := of_decide_eq_true hwritten
  have hfresh : GenesisFresh sampleEnv s.written := by
    intro e he c hc hgenesis
    refine hhash e he ?_
    rw [mem_def.mp hc, map_some, hgenesis]
  obtain ⟨-, -, hsuffix, hverified⟩ := log_survives_torn_appends sampleEnv sampleEnv_lawful
    samplePolicy sampleKey s ⟨_, rfl, Machine.run_of_exec tornRun_allowed hs⟩ hfresh
  exact ⟨s, hs, hlen, hrotated, hsuffix, hverified⟩

/-- Cut just before the newline, the record counts as torn for the next append and
as a record for the verifier: two records have number two. Cut inside a
character, the file can no longer be read as text: the chain starts again, and
verifying is an error. -/
theorem torn_append_breaks_log : sampleEnv.Lawful ∧
    (∃ s, sampleLog.exec .initial (tornRun 141) = some s ∧
      s.written.map AuditEntry.record = [1, 3] ∧
      ∃ report, verifyAuditChain sampleEnv s.dir (some sampleKey) = .ok report ∧
        report.outcome = .failed (.rotated 1) 3 (some 2) (.sequenceGap 3 2)) ∧
    ∃ s, sampleLog.exec .initial (tornRun 2) = some s ∧
      s.written.map (fun e => e.chain.map AuditChain.seq) = [some 1, some 1] ∧
      verifyAuditChain sampleEnv s.dir (some sampleKey)
        = .error (.fileIo "Failed to read audit log: ") := by
  have hnewline : (sampleLog.exec .initial (tornRun 141)).any (fun s =>
      s.written.map AuditEntry.record = [1, 3] ∧
      (verifyAuditChain sampleEnv s.dir (some sampleKey)).toOption.map AuditVerifyReport.outcome
        = some (.failed (.rotated 1) 3 (some 2) (.sequenceGap 3 2))) = true := by
    decide +kernel
  have hchar : (sampleLog.exec .initial (tornRun 2)).any (fun s =>
      s.written.map (fun e => e.chain.map AuditChain.seq) = [some 1, some 1] ∧
      verifyAuditChain sampleEnv s.dir (some sampleKey)
        = .error (.fileIo "Failed to read audit log: ")) = true := by
    decide +kernel
  obtain ⟨s, hs, h⟩ := (any_eq_true _ _).mp hnewline
  obtain ⟨hrecords, houtcome⟩ := of_decide_eq_true h
  obtain ⟨report, hreport, hfailed⟩ := map_eq_some_iff.mp houtcome
  obtain ⟨u, hu, h⟩ := (any_eq_true _ _).mp hchar
  exact ⟨sampleEnv_lawful, ⟨s, hs, hrecords, report, toOption_eq_some.mp hreport, hfailed⟩,
    u, hu, of_decide_eq_true h⟩

end SentinelPass.Audit
