import SentinelPass.Audit.Recovery

/-!
# What the verifier accepts

`Chained` says what a list of records has to be for the walk to go through it:
each record names the running hash, carries the next number and the hash of its
own contents. The walk looks at the lines of a file only through the entries they
hold (`verifyFile_ok`, `verifyFile_chained`), so both directions are proved
entry by entry.
-/

namespace SentinelPass.Audit

open Lib List VerifyState

variable {ρ : Type} {E : AuditEnv ρ} {key : Bytes}

/-! ## Chained records -/

/-- The running hash and the next number; `none` before the first chained record. -/
abbrev Head := Option (Digest × UInt64)

/-- Record `e` with block `c` goes on from `head`, with `p` as the hash before it. -/
structure Follows (E : AuditEnv ρ) (key : Bytes) (head : Head) (e : AuditEntry ρ) (c : AuditChain)
    (p : Digest) : Prop where
  chain : e.chain = some c
  version : c.v = auditChainFormatVersion
  prev : c.prev = hexDigest p
  hash : c.hash = hexDigest (linkHash E key c.sealed p (canonicalRecordBytes E e))
  first : head = none → p = genesisPrev E → c.seq = 1
  next : ∀ running seq, head = some (running, seq) → p = running ∧ c.seq = seq

def headAfter (E : AuditEnv ρ) (key : Bytes) (e : AuditEntry ρ) (c : AuditChain)
    (p : Digest) : Head :=
  some (linkHash E key c.sealed p (canonicalRecordBytes E e), c.seq + 1)

/-- Records that go on from one head to another. -/
inductive Chained (E : AuditEnv ρ) (key : Bytes) : Head → List (AuditEntry ρ) → Head → Prop
  | nil (head : Head) : Chained E key head [] head
  | cons {head last : Head} {e : AuditEntry ρ} {es : List (AuditEntry ρ)} {c : AuditChain}
      {p : Digest} (h : Follows E key head e c p)
      (rest : Chained E key (headAfter E key e c p) es last) :
      Chained E key head (e :: es) last

variable {chainKey : Option Bytes} {f : AuditFile × Bytes} {file : AuditFile}
  {fs : List (AuditFile × Bytes)} {h : Halt} {ls : List (Text × Nat)} {m n : Nat}
  {xs ys : List (AuditEntry ρ)}

theorem Chained.append {head mid last : Head} (hx : Chained E key head xs mid)
    (hy : Chained E key mid ys last) : Chained E key head (xs ++ ys) last := by
  induction hx with
  | nil => exact hy
  | cons h _ ih => exact .cons h (ih hy)

theorem Chained.split {head last : Head} (h : Chained E key head (xs ++ ys) last) :
    ∃ mid, Chained E key head xs mid ∧ Chained E key mid ys last := by
  induction xs generalizing head with
  | nil => exact ⟨head, .nil head, h⟩
  | cons x xs ih =>
    cases h with
    | cons hx rest =>
      obtain ⟨mid, hxs, hys⟩ := ih rest
      exact ⟨mid, .cons hx hxs, hys⟩

theorem Chained.last {head last e} (h : Chained E key head (xs ++ [e]) last) :
    ∃ mid c p, Follows E key mid e c p ∧ last = headAfter E key e c p := by
  obtain ⟨mid, -, hlast⟩ := h.split
  cases hlast with
  | cons hfollows rest =>
    cases rest
    exact ⟨mid, _, _, hfollows, rfl⟩

theorem Chained.headed {head last : Head} (h : Chained E key head xs last) :
    ∀ e ∈ xs, Headed e := by
  induction h with
  | nil => simp
  | cons hf _ ih => exact forall_mem_cons.mpr ⟨⟨_, _, hf.chain, hf.hash⟩, ih⟩

/-! ## The walk -/

def VerifyState.head (st : VerifyState) : Head :=
  if st.seenFirst then some (st.running, st.expectedSeq) else none

/-- The head, the suspected splices and the outcome. The checks read only the first
and the verdict only the other two. -/
structure VerifyState.At (st : VerifyState) (head : Head) (splices : Nat) : Prop where
  head : st.head = head
  splices : st.report.suspectedSplices = splices
  outcome : st.report.outcome = .verified

variable {st st' : VerifyState} {loc : Location} {e : AuditEntry ρ} {c : AuditChain}
  {head mid last : Head} {p : Digest} {line : Text × Nat}

theorem checkLink_ok (h : checkLink E st loc c = .ok st') :
    st'.seenFirst = true ∧ st'.report.suspectedSplices = st.report.suspectedSplices ∧
      st'.report.outcome = st.report.outcome ∧
      (st.seenFirst = false → c.prev = hexDigest (genesisPrev E) → c.seq = 1) ∧
      (st.seenFirst = true → c.seq = st.expectedSeq ∧ c.prev = hexDigest st.running) := by
  unfold checkLink fail at h
  split at h
  · next hfirst =>
    split at h
    · next hgenesis =>
      obtain ⟨hseq, h⟩ := ite_error_eq_ok.mp h
      cases h
      refine ⟨rfl, rfl, rfl, fun _ _ => not_not.mp hseq, ?_⟩
      intro hseen
      rw [hfirst] at hseen
      cases hseen
    · next hgenesis =>
      cases h
      refine ⟨rfl, rfl, rfl, fun _ hprev => absurd hprev hgenesis, ?_⟩
      intro hseen
      rw [hfirst] at hseen
      cases hseen
  · next hseen =>
    simp only [ite_error_eq_ok] at h
    obtain ⟨hseq, hprev, h⟩ := h
    cases h
    have htrue : st.seenFirst = true := by simpa using hseen
    exact ⟨htrue, rfl, rfl, fun hf => absurd hf hseen, fun _ => ⟨not_not.mp hseq, not_not.mp hprev⟩⟩

theorem chainDigests_ok {prev hash : Digest} (h : chainDigests c = .ok (some (prev, hash))) :
    c.prev = hexDigest prev ∧ c.hash = hexDigest hash := by
  obtain ⟨found, hprev, h⟩ := bind_ok h
  cases found with
  | none => cases h
  | some p =>
    obtain ⟨found, hhash, h⟩ := bind_ok h
    cases found with
    | none => cases h
    | some d =>
      cases h
      exact ⟨eq_hexDigest_of_decode hprev, eq_hexDigest_of_decode hhash⟩

theorem checkHash_ok (h : checkHash E (some key) st loc e c = .ok st') : ∃ p, c.prev = hexDigest p ∧
      c.hash = hexDigest (linkHash E key c.sealed p (canonicalRecordBytes E e)) ∧
      st'.seenFirst = st.seenFirst ∧
      st'.running = linkHash E key c.sealed p (canonicalRecordBytes E e) ∧
      st'.expectedSeq = c.seq + 1 ∧
      st'.report.suspectedSplices = st.report.suspectedSplices ∧
      st'.report.outcome = st.report.outcome := by
  unfold checkHash fail at h
  split at h
  · cases h
  · cases h
  rename_i prev expected hdigests
  obtain ⟨hprev, hhash⟩ := chainDigests_ok hdigests
  have hcomputed : chainHash E c.sealed (some key) prev (canonicalRecordBytes E e)
      = .ok (linkHash E key c.sealed prev (canonicalRecordBytes E e)) := by
    unfold chainHash
    split
    · next hnone => cases hnone
    · rfl
  rw [hcomputed] at h
  obtain ⟨hne, h⟩ := ite_error_eq_ok.mp h
  cases h
  exact ⟨prev, hprev, by rw [not_not.mp hne]; exact hhash, rfl, rfl, rfl, rfl, rfl⟩

theorem VerifyState.seenFirst_eq_false (h : st.head = none) : st.seenFirst = false := by
  by_contra hseen
  simp [head, hseen] at h

theorem VerifyState.seenFirst_of_some {running seq} (h : st.head = some (running, seq)) :
    st.seenFirst = true ∧ st.running = running ∧ st.expectedSeq = seq := by
  unfold head at h
  split at h
  · next hseen =>
    cases h
    exact ⟨hseen, rfl, rfl⟩
  · cases h

theorem verifyChained_ok (h : verifyChained E (some key) st loc e c = .ok st')
    (hst : st.At head n) (hchain : e.chain = some c) :
    ∃ p, Follows E key head e c p ∧ st'.At (headAfter E key e c p) n := by
  unfold verifyChained at h
  rw [if_neg (by simp)] at h
  obtain ⟨hversion, h⟩ := ite_error_eq_ok.mp h
  obtain ⟨mid, hlink, hhash⟩ := bind_ok h
  obtain ⟨hseen, hsplices, houtcome, hfirst, hnext⟩ := checkLink_ok hlink
  obtain ⟨p, hprev, hrecord, hseen', hrunning, hexpected, hsplices', houtcome'⟩ :=
    checkHash_ok hhash
  refine ⟨p, ⟨hchain, not_not.mp hversion, hprev, hrecord, ?_, ?_⟩, ?_,
    (hsplices'.trans hsplices).trans hst.splices, (houtcome'.trans houtcome).trans hst.outcome⟩
  · rintro rfl hp
    exact hfirst (st.seenFirst_eq_false hst.head) (by rw [hprev, hp])
  · rintro running seq rfl
    obtain ⟨hyes, rfl, rfl⟩ := seenFirst_of_some hst.head
    obtain ⟨hseq, hp⟩ := hnext hyes
    exact ⟨hexDigest_injective (hprev.symm.trans hp), hseq⟩
  · rw [VerifyState.head, hseen'.trans hseen, if_pos rfl, hrunning, hexpected]
    rfl

theorem checkLink_of_follows (loc) (hst : st.At head n) (h : Follows E key head e c p) :
    ∃ mid, checkLink E st loc c = .ok mid ∧ mid.seenFirst = true ∧
      mid.report.suspectedSplices = n ∧ mid.report.outcome = .verified := by
  unfold checkLink
  cases head with
  | none =>
    rw [if_pos (st.seenFirst_eq_false hst.head)]
    by_cases hgenesis : c.prev = hexDigest (genesisPrev E)
    · have hp : p = genesisPrev E := hexDigest_injective (h.prev.symm.trans hgenesis)
      rw [if_pos hgenesis, if_neg (by simpa using h.first rfl hp)]
      exact ⟨_, rfl, rfl, hst.splices, hst.outcome⟩
    · rw [if_neg hgenesis]
      exact ⟨_, rfl, rfl, hst.splices, hst.outcome⟩
  | some x =>
    obtain ⟨running, seq⟩ := x
    obtain ⟨hseen, rfl, rfl⟩ := seenFirst_of_some hst.head
    obtain ⟨rfl, hseq⟩ := h.next _ _ rfl
    rw [if_neg (by simp [hseen]), if_neg (by simpa using hseq), if_neg (by simpa using h.prev)]
    exact ⟨_, rfl, hseen, hst.splices, hst.outcome⟩

theorem verifyChained_of_follows (hst : st.At head n) (h : Follows E key head e c p) :
    ∃ st', verifyChained E (some key) st loc e c = .ok st' ∧ st'.At (headAfter E key e c p) n := by
  obtain ⟨mid, hlink, hseen, hsplices, houtcome⟩ := checkLink_of_follows loc hst h
  have hdigests : chainDigests c = .ok (some
      (p, linkHash E key c.sealed p (canonicalRecordBytes E e))) := by
    unfold chainDigests
    rw [h.prev, h.hash, decodeDigest_hexDigest, decodeDigest_hexDigest]
    rfl
  have hcomputed : chainHash E c.sealed (some key) p (canonicalRecordBytes E e)
      = .ok (linkHash E key c.sealed p (canonicalRecordBytes E e)) := by
    unfold chainHash
    split
    · next hnone => cases hnone
    · rfl
  unfold verifyChained
  rw [if_neg (by simp), if_neg (by simpa using h.version), hlink]
  show ∃ st', checkHash E (some key) mid loc e c = .ok st' ∧ _
  unfold checkHash
  rw [hdigests]
  dsimp only
  rw [hcomputed]
  dsimp only
  rw [if_neg (by simp)]
  refine ⟨_, rfl, ?_, hsplices, houtcome⟩
  rw [VerifyState.head, hseen, if_pos rfl]
  rfl

/-! ## Entries, lines, files -/

/-- What the walk does on a list of entries: legacy records before the first
chained one, chained ones, and suspected splices after it. -/
inductive Walk (E : AuditEnv ρ) (key : Bytes) :
    Head → Nat → List (AuditEntry ρ) → Head → Nat → Prop
  | nil (head : Head) (n : Nat) : Walk E key head n [] head n
  | legacy {last : Head} {n m : Nat} {e : AuditEntry ρ} {es : List (AuditEntry ρ)}
      (h : e.chain = none) (rest : Walk E key none n es last m) : Walk E key none n (e :: es) last m
  | splice {x : Digest × UInt64} {last : Head} {n m : Nat} {e : AuditEntry ρ}
      {es : List (AuditEntry ρ)} (h : e.chain = none)
      (rest : Walk E key (some x) (n + 1) es last m) :
      Walk E key (some x) n (e :: es) last m
  | chained {head last : Head} {n m : Nat} {e : AuditEntry ρ} {es : List (AuditEntry ρ)}
      {c : AuditChain} {p : Digest} (h : Follows E key head e c p)
      (rest : Walk E key (headAfter E key e c p) n es last m) : Walk E key head n (e :: es) last m

theorem Walk.append {k : Nat} (hx : Walk E key head n xs mid m)
    (hy : Walk E key mid m ys last k) : Walk E key head n (xs ++ ys) last k := by
  induction hx with
  | nil => exact hy
  | legacy h _ ih => exact .legacy h (ih hy)
  | splice h _ ih => exact .splice h (ih hy)
  | chained h _ ih => exact .chained h (ih hy)

theorem Walk.splices_le (h : Walk E key head n xs last m) : n ≤ m := by
  induction h with
  | nil => exact Nat.le_refl _
  | legacy _ _ ih => exact ih
  | splice _ _ ih => omega
  | chained _ _ ih => exact ih

theorem Walk.chained_of_some {x} (h : Walk E key (some x) n xs last m) (hm : m ≤ n) :
    Chained E key (some x) xs last := by
  generalize hhead : some x = head at h
  induction h generalizing x with
  | nil => exact .nil _
  | legacy => cases hhead
  | splice _ rest =>
    have := rest.splices_le
    omega
  | chained hf _ ih => exact .cons hf (ih hm rfl)

theorem Walk.legacy_chained {last : Head} (h : Walk E key none n xs last m) (hm : m ≤ n) :
    ∃ old new, xs = old ++ new ∧ (∀ e ∈ old, e.chain = none) ∧ Chained E key none new last := by
  generalize hhead : (none : Head) = head at h
  induction h with
  | nil => exact ⟨[], [], rfl, by simp, .nil _⟩
  | legacy hnone _ ih =>
    obtain ⟨old, new, rfl, hold, hnew⟩ := ih hm rfl
    exact ⟨_ :: old, new, rfl, forall_mem_cons.mpr ⟨hnone, hold⟩, hnew⟩
  | splice => cases hhead
  | chained hf rest =>
    exact ⟨[], _, rfl, by simp, .cons hf (rest.chained_of_some hm)⟩

theorem verifyEntry_ok (h : verifyEntry E (some key) st loc e = .ok st') (hst : st.At head n) :
    ∃ head' n', st'.At head' n' ∧ Walk E key head n [e] head' n' := by
  unfold verifyEntry at h
  dsimp only at h
  split at h
  · next hnone =>
    split at h
    · next hseen =>
      cases h
      have hhead : head = some (st.running, st.expectedSeq) := by
        rw [← hst.head, VerifyState.head, if_pos hseen]
      refine ⟨head, n + 1, ⟨hst.head, ?_, hst.outcome⟩, ?_⟩
      · show st.report.suspectedSplices + 1 = n + 1
        rw [hst.splices]
      · rw [hhead]
        exact .splice hnone (.nil _ _)
    · next hseen =>
      cases h
      have hhead : head = none := by
        rw [← hst.head, VerifyState.head, if_neg hseen]
      refine ⟨head, n, ⟨hst.head, hst.splices, hst.outcome⟩, ?_⟩
      rw [hhead]
      exact .legacy hnone (.nil _ _)
  · next c hc =>
    obtain ⟨p, hf, hst'⟩ := verifyChained_ok h ⟨hst.head, hst.splices, hst.outcome⟩ hc
    exact ⟨_, n, hst', .chained hf (.nil _ _)⟩

theorem verifyLine_ok (hst : st.At head n) (h : verifyLine E (some key) file st line = .ok st') :
    ∃ head' n', st'.At head' n' ∧ Walk E key head n (lineEntry E line.1).toList head' n' := by
  unfold verifyLine at h
  unfold lineEntry
  split at h
  · next hblank =>
    cases h
    rw [if_pos hblank]
    exact ⟨head, n, hst, .nil _ _⟩
  · next hblank =>
    rw [if_neg hblank]
    split at h
    · next hparse =>
      cases h
      rw [hparse]
      exact ⟨head, n, ⟨hst.head, hst.splices, hst.outcome⟩, .nil _ _⟩
    · next entry hparse =>
      rw [hparse]
      exact verifyEntry_ok h ⟨hst.head, hst.splices, hst.outcome⟩

theorem verifyLine_chained (file) (hst : st.At head n)
    (h : Chained E key head (lineEntry E line.1).toList last) :
    ∃ st', verifyLine E (some key) file st line = .ok st' ∧ st'.At last n := by
  unfold lineEntry at h
  unfold verifyLine
  split at h
  · next hblank =>
    rw [if_pos hblank]
    cases h
    exact ⟨st, rfl, hst⟩
  · next hblank =>
    rw [if_neg hblank]
    cases hparse : E.fromJson line.1 with
    | none =>
      rw [hparse] at h
      cases h
      exact ⟨_, rfl, hst.head, hst.splices, hst.outcome⟩
    | some e =>
      rw [hparse, Option.toList_some] at h
      cases h with
      | cons hf rest =>
        cases rest
        dsimp only
        unfold verifyEntry
        rw [hf.chain]
        exact verifyChained_of_follows ⟨hst.head, hst.splices, hst.outcome⟩ hf

theorem verifyLines_ok (hst : st.At head n)
    (h : ls.foldlM (verifyLine E (some key) file) st = .ok st') :
    ∃ head' n', st'.At head' n' ∧
      Walk E key head n ((ls.map Prod.fst).filterMap (lineEntry E)) head' n' := by
  induction ls generalizing st head n with
  | nil =>
    cases h
    exact ⟨head, n, hst, .nil _ _⟩
  | cons l ls ih =>
    obtain ⟨mid, hl, hrest⟩ := foldlM_cons_ok h
    obtain ⟨head', n', hmid, hwalk⟩ := verifyLine_ok hst hl
    obtain ⟨head'', n'', hst', hwalk'⟩ := ih hmid hrest
    refine ⟨head'', n'', hst', ?_⟩
    have happend := hwalk.append hwalk'
    rw [map_cons]
    cases hentry : lineEntry E l.1 with
    | none =>
      rw [filterMap_cons_none hentry]
      rwa [hentry] at happend
    | some e =>
      rw [filterMap_cons_some hentry]
      rwa [hentry] at happend

theorem verifyLines_chained (hst : st.At head n)
    (h : Chained E key head ((ls.map Prod.fst).filterMap (lineEntry E)) last) :
    ∃ st', ls.foldlM (verifyLine E (some key) file) st = .ok st' ∧ st'.At last n := by
  induction ls generalizing st head with
  | nil =>
    cases h
    exact ⟨st, rfl, hst⟩
  | cons l ls ih =>
    have hsplit : Chained E key head ((lineEntry E l.1).toList ++
        (ls.map Prod.fst).filterMap (lineEntry E)) last := by
      rw [map_cons] at h
      cases hentry : lineEntry E l.1 with
      | none => rwa [filterMap_cons_none hentry] at h
      | some e => rwa [filterMap_cons_some hentry] at h
    obtain ⟨mid, hl, hrest⟩ := hsplit.split
    obtain ⟨st₁, hok, hst₁⟩ := verifyLine_chained file hst hl
    obtain ⟨st₂, hok₂, hst₂⟩ := ih hst₁ hrest
    refine ⟨st₂, ?_, hst₂⟩
    rw [foldlM_cons, hok]
    exact hok₂

theorem verifyFile_ok (hst : st.At head n) (h : verifyFile E (some key) st f = .ok st') :
    ∃ head' n', st'.At head' n' ∧ Walk E key head n (fileEntries E f.2) head' n' := by
  unfold verifyFile at h
  split at h
  · cases h
  rename_i text htext
  rw [← textBytes_of_fromUtf8 htext, fileEntries_text]
  have hwalk := verifyLines_ok hst h
  rwa [zipIdx_map_fst] at hwalk

theorem verifyFile_chained {text : Text} (hst : st.At head n) (htext : f.2 = textBytes text)
    (h : Chained E key head (fileEntries E f.2) last) :
    ∃ st', verifyFile E (some key) st f = .ok st' ∧ st'.At last n := by
  unfold verifyFile
  rw [htext, fileEntries_text] at h
  rw [htext, fromUtf8_textBytes]
  refine verifyLines_chained hst ?_
  rwa [zipIdx_map_fst]

theorem verifyFiles_ok {head : Head} (hst : st.At head n)
    (h : fs.foldlM (verifyFile E (some key)) st = .ok st') :
    ∃ head' n', st'.At head' n' ∧
      Walk E key head n (fs.flatMap fun f => fileEntries E f.2) head' n' := by
  induction fs generalizing st head n with
  | nil =>
    cases h
    exact ⟨head, n, hst, .nil _ _⟩
  | cons f fs ih =>
    obtain ⟨mid, hf, hrest⟩ := foldlM_cons_ok h
    obtain ⟨head', n', hmid, hwalk⟩ := verifyFile_ok hst hf
    obtain ⟨head'', n'', hst', hwalk'⟩ := ih hmid hrest
    exact ⟨head'', n'', hst', hwalk.append hwalk'⟩

theorem verifyFiles_chained (hst : st.At head n) (htext : ∀ f ∈ fs, ∃ text, f.2 = textBytes text)
    (h : Chained E key head (fs.flatMap fun f => fileEntries E f.2) last) :
    ∃ st', fs.foldlM (verifyFile E (some key)) st = .ok st' ∧ st'.At last n := by
  induction fs generalizing st head with
  | nil =>
    cases h
    exact ⟨st, rfl, hst⟩
  | cons f fs ih =>
    obtain ⟨mid, hf, hrest⟩ := h.split
    obtain ⟨text, hf_text⟩ := htext f mem_cons_self
    obtain ⟨st₁, hok, hst₁⟩ := verifyFile_chained hst hf_text hf
    obtain ⟨st₂, hok₂, hst₂⟩ := ih hst₁ (fun g hg => htext g (mem_cons_of_mem f hg)) hrest
    refine ⟨st₂, ?_, hst₂⟩
    rw [foldlM_cons, hok]
    exact hok₂

/-! ## The verdict -/

/-- A report that ends the walk is not one of success. -/
def Halt.Failed : Halt → Prop
  | .failed report => report.outcome ≠ .verified
  | .error _ => True

theorem VerifyState.fail_failed {α : Type} {reason}
    (herr : (st.fail loc c reason : Except Halt α) = .error h) : h.Failed := by
  cases herr
  exact fun hv => AuditVerifyOutcome.noConfusion hv

theorem checkLink_error (herr : checkLink E st loc c = .error h) : h.Failed := by
  unfold checkLink at herr
  split at herr
  · split at herr
    · split at herr
      · exact fail_failed herr
      · cases herr
    · cases herr
  · split at herr
    · exact fail_failed herr
    · split at herr
      · exact fail_failed herr
      · cases herr

theorem checkHash_error (herr : checkHash E chainKey st loc e c = .error h) : h.Failed := by
  unfold checkHash at herr
  split at herr
  · cases herr
    trivial
  · exact fail_failed herr
  split at herr
  · cases herr
    trivial
  split at herr
  · exact fail_failed herr
  · cases herr

theorem verifyEntry_error (herr : verifyEntry E chainKey st loc e = .error h) : h.Failed := by
  unfold verifyEntry at herr
  dsimp only at herr
  split at herr
  · split at herr
    · cases herr
    · cases herr
  · unfold verifyChained at herr
    split at herr
    · exact fail_failed herr
    split at herr
    · exact fail_failed herr
    rcases bind_error herr with hlink | ⟨mid, -, hhash⟩
    · exact checkLink_error hlink
    · exact checkHash_error hhash

theorem verifyFile_error (herr : verifyFile E chainKey st f = .error h) : h.Failed := by
  unfold verifyFile at herr
  split at herr
  · cases herr
    trivial
  refine foldlM_error herr ?_
  intro st line h hline
  unfold verifyLine at hline
  split at hline
  · cases hline
  split at hline
  · cases hline
  exact verifyEntry_error hline

theorem closeReport_failed {report} (h : (Halt.failed report).Failed) :
    (closeReport report).outcome ≠ .verified := by
  unfold closeReport
  split
  · exact fun hv => AuditVerifyOutcome.noConfusion hv
  · exact h

theorem VerifyState.initial_at (files) : (initial E files).At none 0 :=
  ⟨rfl, rfl, rfl⟩

/-- Chained records verify. -/
theorem verified_of_chained {d : AuditDir} {last : Head}
    (htext : ∀ f ∈ chainFilesOldestFirst d, ∃ text, f.2 = textBytes text)
    (h : Chained E key none (readAllEntries E d) last) : Verified E d key := by
  obtain ⟨st, hok, hst⟩ := verifyFiles_chained (initial_at
    ((rotatedOldestFirst d).map (fun f => AuditFile.rotated f.1) ++ [.current])) htext h
  refine ⟨closeReport st.report, ?_, ?_⟩
  · unfold verifyAuditChain
    dsimp only
    rw [hok]
  · unfold closeReport
    rw [hst.splices, if_neg (Nat.lt_irrefl 0)]
    exact hst.outcome

/-- What verifies is a legacy prefix and chained records. -/
theorem chained_of_verified {d : AuditDir} (h : Verified E d key) :
    ∃ old new last, readAllEntries E d = old ++ new ∧ (∀ e ∈ old, e.chain = none) ∧
      Chained E key none new last := by
  obtain ⟨report, hreport, houtcome⟩ := h
  unfold verifyAuditChain at hreport
  dsimp only at hreport
  split at hreport
  · next st hok =>
    cases hreport
    obtain ⟨head, n, hst, hwalk⟩ := verifyFiles_ok (initial_at _) hok
    unfold closeReport at houtcome
    split at houtcome
    · cases houtcome
    rename_i hzero
    have hn : n ≤ 0 := by
      have := hst.splices
      omega
    obtain ⟨old, new, hread, hold, hnew⟩ := hwalk.legacy_chained hn
    exact ⟨old, new, head, hread, hold, hnew⟩
  · next report hfail =>
    cases hreport
    have hfailed : (Halt.failed report).Failed := foldlM_error hfail verifyFile_error
    exact absurd houtcome (closeReport_failed hfailed)
  · cases hreport

end SentinelPass.Audit
