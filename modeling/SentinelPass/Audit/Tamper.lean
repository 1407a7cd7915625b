import SentinelPass.Audit.Torn
import SentinelPass.Lib.HashChain

/-!
# Tamper evidence

Someone without the chain key edits the files of a log in any way. If the result
verifies, its records up to the last sealed one are hashed into that record, and
that record was hashed by the logger. So they are a piece of what the logger
hashed, but for one field: the sequence number is not part of what is hashed, and
the verifier takes the first one as it finds it.
-/

namespace SentinelPass.Audit

open Lib List Option AuditChain Audit

variable {ρ : Type} {E : AuditEnv ρ} {key : Bytes} {d : AuditDir}

/-! ## Links -/

/-- What is hashed for a record. -/
structure Link where
  sealed : Bool
  prev : Digest
  record : Bytes
deriving DecidableEq

def auditLinks (E : AuditEnv ρ) (key : Bytes) : HashChain Link Digest where
  prev := Link.prev
  hash l := linkHash E key l.sealed l.prev l.record

def linkOf (E : AuditEnv ρ) (e : AuditEntry ρ) : Option Link :=
  match e.chain with
  | none => none
  | some c =>
    (decodeDigest c.prev).toOption.join.map fun p => ⟨c.sealed, p, canonicalRecordBytes E e⟩

def links (E : AuditEnv ρ) (es : List (AuditEntry ρ)) : List Link := es.filterMap (linkOf E)

section Records

variable {head head' last last' : Head} {e e' : AuditEntry ρ} {c c' : AuditChain} {p p' : Digest}
  {xs ys : List (AuditEntry ρ)}

theorem Follows.linkOf (h : Follows E key head e c p) :
    Audit.linkOf E e = some ⟨c.sealed, p, canonicalRecordBytes E e⟩ := by
  unfold Audit.linkOf
  rw [h.chain]
  dsimp only
  rw [h.prev, decodeDigest_hexDigest]
  rfl

theorem Chained.mem (h : Chained E key head xs last) (he : e ∈ xs) :
    ∃ head c p, Follows E key head e c p := by
  induction h with
  | nil => cases he
  | cons hf _ ih =>
    rcases mem_cons.mp he with rfl | he
    · exact ⟨_, _, _, hf⟩
    · exact ih he

theorem Chained.map_linkOf (h : Chained E key head xs last) :
    xs.map (linkOf E) = (links E xs).map some := by
  induction h with
  | nil => rfl
  | cons hf _ ih =>
    unfold links at ih ⊢
    rw [map_cons, ih, filterMap_cons_some hf.linkOf, map_cons, hf.linkOf]

theorem Chained.linked (h : Chained E key head xs last) : (auditLinks E key).Linked (links E xs) ∧
      ∀ running seq, head = some (running, seq) → ∀ a ∈ (links E xs).head?, a.prev = running := by
  induction h with
  | nil => exact ⟨isChain_nil, by simp [links]⟩
  | @cons head last e es c p hf rest ih =>
    have hlinks : links E (e :: es) = ⟨c.sealed, p, canonicalRecordBytes E e⟩ :: links E es :=
      filterMap_cons_some hf.linkOf
    rw [hlinks]
    refine ⟨isChain_cons.mpr ⟨?_, ih.1⟩, ?_⟩
    · exact ih.2 _ _ rfl
    · intro running seq hhead a ha
      cases ha
      exact (hf.next running seq hhead).1

theorem Chained.from {g} (h : Chained E key (some (genesisPrev E, 1)) g last) :
    (auditLinks E key).From (genesisPrev E) (links E g) :=
  ⟨h.linked.1, h.linked.2 _ _ rfl⟩

theorem Follows.ext (hE : E.Lawful) (h : Follows E key head e c p)
    (h' : Follows E key head' e' c' p')
    (hlink : Audit.linkOf E e = Audit.linkOf E e') (hseq : c.seq = c'.seq) : e = e' := by
  rw [h.linkOf, h'.linkOf] at hlink
  obtain ⟨hsealed, hprev, hrecord⟩ := Link.mk.inj (some.inj hlink)
  have hstripped := toJson_injective hE (textBytes_injective hrecord)
  have hsame : e.record = e'.record := (AuditEntry.mk.inj hstripped).1
  have hchain : c = c' := by
    have hversion := h.version.trans h'.version.symm
    have hprevText : c.prev = c'.prev := by rw [h.prev, h'.prev, hprev]
    have hhash : c.hash = c'.hash := by rw [h.hash, h'.hash, hsealed, hprev, hrecord]
    cases c
    simp only at hversion hseq hprevText hhash hsealed
    rw [hversion, hseq, hprevText, hhash, hsealed]
  have hblock : e.chain = e'.chain := by rw [h.chain, h'.chain, hchain]
  cases e
  simp only at hsame hblock
  rw [hsame, hblock]

/-- Two chained lists with the same links differ at most in the number they start
with. -/
theorem Chained.ext (hE : E.Lawful) (hx : Chained E key head xs last)
    (hy : Chained E key head' ys last') (hlinks : xs.map (linkOf E) = ys.map (linkOf E))
    (hfirst : ∀ x ∈ xs.head?, ∀ y ∈ ys.head?, ∀ c ∈ x.chain, ∀ c' ∈ y.chain, c.seq = c'.seq) :
    xs = ys := by
  induction hx generalizing head' ys with
  | nil =>
    cases ys with
    | nil => rfl
    | cons y ys => cases hlinks
  | @cons head last x xs c p hf rest ih =>
    cases hy with
    | nil => cases hlinks
    | @cons _ _ y ys c' p' hf' rest' =>
      obtain ⟨hlink, htail⟩ := cons.inj hlinks
      have hseq : c.seq = c'.seq := hfirst x rfl y rfl c hf.chain c' hf'.chain
      obtain rfl := hf.ext hE hf' hlink hseq
      congr 1
      refine ih rest' htail ?_
      -- both go on with the number after that of the record they share
      intro a ha b hb ca hca cb hcb
      cases rest with
      | nil => cases ha
      | cons ha' _ =>
        cases rest' with
        | nil => cases hb
        | cons hb' _ =>
          cases ha
          cases hb
          rw [some.inj (hca.symm.trans ha'.chain),
            some.inj (hcb.symm.trans hb'.chain), (ha'.next _ _ rfl).2,
            (hb'.next _ _ rfl).2, hseq]

theorem Chained.seq_eq {running n} (h : Chained E key (some (running, n)) (xs ++ e :: ys) last)
    (hc : e.chain = some c) : c.seq = n + UInt64.ofNat xs.length := by
  induction xs generalizing running n with
  | nil =>
    cases h with
    | cons hf _ =>
      rw [some.inj (hc.symm.trans hf.chain), (hf.next _ _ rfl).2]
      simp
  | cons x xs ih =>
    cases h with
    | cons hf rest =>
      rw [ih rest, (hf.next _ _ rfl).2, length_cons, Nat.add_comm xs.length,
        UInt64.ofNat_add, UInt64.add_assoc]
      rfl

theorem Chained.length_links (h : Chained E key head xs last) :
    (links E xs).length = xs.length := by
  have hmap := congrArg length h.map_linkOf
  rw [length_map, length_map] at hmap
  exact hmap.symm

end Records

/-! ## The attacker -/

/-- The records from the first chained one to the last sealed one. -/
def sealedStretch (es : List (AuditEntry ρ)) : List (AuditEntry ρ) :=
  (es.dropWhile fun e => e.chain.isNone).rdropWhile fun e => !e.chain.any sealed

/-- Record `e` carries the HMAC of `message`. -/
def Tagged (E : AuditEnv ρ) (key : Bytes) (e : AuditEntry ρ) (message : Bytes) : Prop :=
  ∃ l, linkOf E e = some l ∧ l.sealed = true ∧ message = l.prev.toList ++ l.record ∧
    e.chain.map hash = some (hexDigest (E.crypto.hmacSha256 key message))

/-- No HMAC is forged: what the files carry the HMAC of, the logger computed it for. -/
def Unforged (E : AuditEnv ρ) (key : Bytes) (s : LogState ρ) (d : AuditDir) : Prop :=
  ∀ e ∈ readAllEntries E d, ∀ message, Tagged E key e message →
    ∃ g ∈ s.chains, ∃ e' ∈ g, Tagged E key e' message

/-- No two of the links in play have one hash, and none has that of the genesis. -/
def CollisionFree (E : AuditEnv ρ) (key : Bytes) (s : LogState ρ) (d : AuditDir) : Prop :=
  (auditLinks E key).NoCollision (genesisPrev E)
    (links E (readAllEntries E d) ++ s.chains.flatMap (links E))

/-- The first record of the stretch has the number that the logger gave it. -/
def FirstNumberGenuine (s : LogState ρ) (es : List (AuditEntry ρ)) : Prop :=
  ∀ e ∈ (sealedStretch es).head?, ∀ c ∈ e.chain, ∀ g ∈ s.chains, ∀ e' ∈ g, ∀ c' ∈ e'.chain,
    c'.hash = c.hash → c'.seq = c.seq

instance (s : LogState ρ) (es : List (AuditEntry ρ)) : Decidable (FirstNumberGenuine s es) := by
  unfold FirstNumberGenuine
  infer_instance

section Attack

variable {s : LogState ρ} {last : Head} {e e' : AuditEntry ρ}

theorem chained_sealedStretch (h : Verified E d key) :
    sealedStretch (readAllEntries E d) ⊆ readAllEntries E d ∧
      ∃ last, Chained E key none (sealedStretch (readAllEntries E d)) last := by
  obtain ⟨old, new, last, hread, hold, hnew⟩ := chained_of_verified h
  have hdrop : (readAllEntries E d).dropWhile (fun e => e.chain.isNone) = new := by
    rw [hread, dropWhile_append_of_pos (by simpa using hold)]
    cases hnew with
    | nil => rfl
    | cons hf _ => exact dropWhile_cons_of_neg (by simp [hf.chain])
  unfold sealedStretch
  rw [hdrop]
  obtain ⟨unsealed, hunsealed⟩ := rdropWhile_prefix
    (fun e : AuditEntry ρ => !e.chain.any sealed) new
  refine ⟨?_, ?_⟩
  · intro e he
    rw [hread, ← hunsealed]
    simp [he]
  · rw [← hunsealed] at hnew
    obtain ⟨mid, hstretch, -⟩ := hnew.split
    exact ⟨mid, hstretch⟩

theorem Tagged.linkOf_eq {message : Bytes} (h : Tagged E key e message)
    (h' : Tagged E key e' message) : linkOf E e = linkOf E e' := by
  obtain ⟨l, hl, hsealed, hmessage, -⟩ := h
  obtain ⟨l', hl', hsealed', hmessage', -⟩ := h'
  have hlen : l.prev.toList.length = l'.prev.toList.length := by
    rw [Vector.length_toList, Vector.length_toList]
  obtain ⟨hprev, hrecord⟩ := append_inj (hmessage.symm.trans hmessage') hlen
  rw [hl, hl']
  cases l
  cases l'
  simp only at hsealed hsealed' hprev hrecord
  rw [hsealed, hsealed', Vector.toList_inj.mp hprev, hrecord]

/-- The hashed contents are a piece of a genuine chain. -/
theorem stretch_links (hverified : Verified E d key) (hno : CollisionFree E key s d)
    (hmac : Unforged E key s d)
    (hchains : ∀ g ∈ s.chains, ∃ last, Chained E key (some (genesisPrev E, 1)) g last)
    (hne : sealedStretch (readAllEntries E d) ≠ []) :
    ∃ g ∈ s.chains, links E (sealedStretch (readAllEntries E d)) <:+: links E g := by
  obtain ⟨hsub, last, hstretch⟩ := chained_sealedStretch hverified
  have hsealed : ∀ h, ((sealedStretch (readAllEntries E d)).getLast h).chain.any sealed := by
    intro h
    have hlast := rdropWhile_last_not
      (fun e : AuditEntry ρ => !e.chain.any sealed) _ h
    unfold sealedStretch
    simpa using hlast
  generalize sealedStretch (readAllEntries E d) = stretch at hsub hstretch hsealed hne
  obtain ⟨front, e, rfl⟩ := (eq_nil_or_concat' stretch).resolve_left hne
  obtain ⟨mid, c, p, hf, rfl⟩ := hstretch.last
  have hc : c.sealed = true := by simpa [hf.chain] using hsealed hne
  -- the last record is sealed, so the logger hashed it
  have htagged : Tagged E key e (p.toList ++ canonicalRecordBytes E e) := by
    refine ⟨_, hf.linkOf, hc, rfl, ?_⟩
    rw [hf.chain, map_some, hf.hash, linkHash, if_pos hc]
  obtain ⟨g, hg, e', he', htagged'⟩ := hmac e (hsub (by simp)) _ htagged
  obtain ⟨glast, hgenuine⟩ := hchains g hg
  have hlink := hf.linkOf
  have hmem : (⟨c.sealed, p, canonicalRecordBytes E e⟩ : Link) ∈ links E g :=
    mem_filterMap.mpr ⟨e', he', by rw [← htagged.linkOf_eq htagged', hlink]⟩
  have hconcat : links E (front ++ [e])
      = links E front ++ [⟨c.sealed, p, canonicalRecordBytes E e⟩] := by
    unfold links
    rw [filterMap_append, filterMap_cons_some hlink, filterMap_nil]
  refine ⟨g, hg, ?_⟩
  rw [hconcat]
  refine HashChain.infix_of_last_mem hgenuine.from ?_ hmem (hno.mono ?_)
  · rw [← hconcat]
    exact hstretch.linked.1
  · intro l hl
    rcases mem_append.mp hl with hl | hl
    · obtain ⟨x, hx, hxl⟩ := mem_filterMap.mp hl
      exact mem_append_left _
        (mem_filterMap.mpr ⟨x, hsub (mem_append_left _ hx), hxl⟩)
    · exact mem_append_right _ (mem_flatMap.mpr ⟨g, hg, hl⟩)

/-- A record that stands in two chains has no more records before it in the first
than in the second. -/
theorem length_le_of_link (hno : CollisionFree E key s d) {a b a' b' : List (AuditEntry ρ)}
    {last' : Head} (hg : a ++ e :: b ∈ s.chains) (hg' : a' ++ e' :: b' ∈ s.chains)
    (h : Chained E key (some (genesisPrev E, 1)) (a ++ e :: b) last)
    (h' : Chained E key (some (genesisPrev E, 1)) (a' ++ e' :: b') last')
    (hlink : linkOf E e = linkOf E e') : a.length ≤ a'.length := by
  obtain ⟨_, c, p, hf⟩ := h.mem (e := e) (by simp)
  have hsplit : ∀ {x : AuditEntry ρ} (xs ys : List (AuditEntry ρ)),
      linkOf E x = some ⟨c.sealed, p, canonicalRecordBytes E e⟩ →
      links E (xs ++ x :: ys)
        = links E xs ++ ⟨c.sealed, p, canonicalRecordBytes E e⟩ :: links E ys := by
    intro x xs ys hx
    unfold links
    rw [filterMap_append, filterMap_cons_some hx]
  have hfrom := h.from
  have hfrom' := h'.from
  rw [hsplit a b hf.linkOf] at hfrom
  rw [hsplit a' b' (hlink ▸ hf.linkOf)] at hfrom'
  have hlinked : (auditLinks E key).Linked
      (links E a ++ [⟨c.sealed, p, canonicalRecordBytes E e⟩]) := by
    have := hfrom.linked
    rw [← singleton_append, ← append_assoc] at this
    exact this.left
  have hfewer : links E a ++ links E a' ⊆
      links E (readAllEntries E d) ++ s.chains.flatMap (links E) := by
    intro l hl
    refine mem_append_right _ (mem_flatMap.mpr ?_)
    rcases mem_append.mp hl with hl | hl
    · exact ⟨_, hg, by rw [hsplit a b hf.linkOf]; exact mem_append_left _ hl⟩
    · exact ⟨_, hg', by rw [hsplit a' b' (hlink ▸ hf.linkOf)]; exact mem_append_left _ hl⟩
  have hsuffix := HashChain.suffix_of_last hfrom' hlinked (hno.mono hfewer)
  obtain ⟨_, ha, -⟩ := h.split
  obtain ⟨_, ha', -⟩ := h'.split
  rw [← ha.length_links, ← ha'.length_links]
  exact hsuffix.length_le

theorem seq_of_hash_eq (hno : CollisionFree E key s d)
    (hchains : ∀ g ∈ s.chains, ∃ last, Chained E key (some (genesisPrev E, 1)) g last) {g g'}
    (hg : g ∈ s.chains) (hg' : g' ∈ s.chains) (he : e ∈ g) (he' : e' ∈ g') {c c'}
    (hc : e.chain = some c) (hc' : e'.chain = some c') (hhash : c'.hash = c.hash) :
    c'.seq = c.seq := by
  obtain ⟨_, hgen⟩ := hchains g hg
  obtain ⟨_, hgen'⟩ := hchains g' hg'
  obtain ⟨_, c₁, p, hf⟩ := hgen.mem he
  obtain ⟨_, c₂, p', hf'⟩ := hgen'.mem he'
  obtain rfl := some.inj (hc.symm.trans hf.chain)
  obtain rfl := some.inj (hc'.symm.trans hf'.chain)
  have hmem : ∀ {g : List (AuditEntry ρ)} {x : AuditEntry ρ} {l : Link}, g ∈ s.chains → x ∈ g →
      linkOf E x = some l → l ∈ links E (readAllEntries E d) ++ s.chains.flatMap (links E) := by
    intro g x l hg hx hl
    exact mem_append_right _
      (mem_flatMap.mpr ⟨g, hg, mem_filterMap.mpr ⟨x, hx, hl⟩⟩)
  have hlink : linkOf E e = linkOf E e' := by
    rw [hf.linkOf, hf'.linkOf]
    refine congrArg some (hno.inj _ (hmem hg he hf.linkOf) _ (hmem hg' he' hf'.linkOf) ?_)
    exact hexDigest_injective (hf.hash.symm.trans (hhash.symm.trans hf'.hash))
  obtain ⟨a, b, rfl⟩ := append_of_mem he
  obtain ⟨a', b', rfl⟩ := append_of_mem he'
  have hle := length_le_of_link hno hg hg' hgen hgen' hlink
  have hge := length_le_of_link hno hg' hg hgen' hgen hlink.symm
  rw [hgen.seq_eq hc, hgen'.seq_eq hc', Nat.le_antisymm hle hge]

end Attack

/-- **The log is tamper evident but for its first number.** Whatever was done to
the files of a log whose torn appends were cut cleanly: if they verify, the
records up to the last sealed one are a piece of what the logger chained, exactly
when the first of them still has its number. -/
theorem log_is_tamper_evident (E : AuditEnv ρ) (hE : E.Lawful) (policy : AuditPolicy) (key : Bytes)
    (s : LogState ρ) (hreach : (auditLog E policy key).Reachable (CleanCut E key) s)
    (d : AuditDir) (hverified : Verified E d key) (hno : CollisionFree E key s d)
    (hmac : Unforged E key s d) :
    (∃ g ∈ s.chains, sealedStretch (readAllEntries E d) <:+: g) ↔
      FirstNumberGenuine s (readAllEntries E d) := by
  have hchains := (LogInv.of_reachable hE hreach).chained
  constructor
  · rintro ⟨g, hg, hinfix⟩ e he c hc g' hg' e' he' c' hc' hhash
    have hmem : e ∈ g := hinfix.subset (mem_of_head? he)
    exact seq_of_hash_eq hno hchains hg hg' hmem he' hc hc' hhash
  · intro hfirst
    by_cases hne : sealedStretch (readAllEntries E d) = []
    · exact ⟨s.written, mem_cons_self, by rw [hne]; exact nil_infix⟩
    obtain ⟨-, last, hstretch⟩ := chained_sealedStretch hverified
    obtain ⟨g, hg, front, back, hlinks⟩ := stretch_links hverified hno hmac hchains hne
    obtain ⟨glast, hgenuine⟩ := hchains g hg
    -- the records of the logger that have the same links
    have hmap : g.map (linkOf E) = front.map some
        ++ (sealedStretch (readAllEntries E d)).map (linkOf E) ++ back.map some := by
      rw [hgenuine.map_linkOf, ← hlinks, map_append, map_append, hstretch.map_linkOf]
    obtain ⟨g₁, g₂, rfl, hleft, -⟩ := map_eq_append_iff.mp hmap
    obtain ⟨g₀, mid, rfl, -, hmid⟩ := map_eq_append_iff.mp hleft
    obtain ⟨_, hbefore, -⟩ := hgenuine.split
    obtain ⟨_, -, hmidChained⟩ := hbefore.split
    have hsame : sealedStretch (readAllEntries E d) = mid := by
      refine hstretch.ext hE hmidChained hmid.symm ?_
      intro x hx y hy c hc c' hc'
      have hy' : y ∈ g₀ ++ mid ++ g₂ := by simp [mem_of_head? hy]
      obtain ⟨_, c₁, p, hf⟩ := hstretch.mem (mem_of_head? hx)
      obtain ⟨_, c₂, p', hf'⟩ := hmidChained.mem (mem_of_head? hy)
      obtain rfl := some.inj (hc.symm.trans hf.chain)
      obtain rfl := some.inj (hc'.symm.trans hf'.chain)
      have hlink : linkOf E x = linkOf E y := by
        have hheads := congrArg head? hmid
        rw [head?_map, head?_map, mem_def.mp hx, mem_def.mp hy] at hheads
        exact (some.inj hheads).symm
      rw [hf.linkOf, hf'.linkOf] at hlink
      obtain ⟨hsealed, hp, hrecord⟩ := Link.mk.inj (some.inj hlink)
      refine (hfirst x hx c hc _ hg y hy' c' hc' ?_).symm
      rw [hf.hash, hf'.hash, hsealed, hp, hrecord]
    exact ⟨_, hg, g₀, g₂, by rw [hsame]⟩

/-! ## Sample logs -/

theorem unforged_of_written {s}
    (h : ∀ e ∈ readAllEntries E d, ∃ e' ∈ s.written, linkOf E e' = linkOf E e ∧
      e'.chain.map hash = e.chain.map hash) : Unforged E key s d := by
  rintro e he message ⟨l, hl, hsealed, hmessage, hhash⟩
  obtain ⟨e', he', hlink, hsame⟩ := h e he
  exact ⟨s.written, mem_cons_self, e', he', l, hlink.trans hl, hsealed, hmessage, hsame.trans hhash⟩

def threeAppends : List (LogAction Nat) :=
  [.append ⟨1, none⟩ true 0, .append ⟨2, none⟩ false 0, .append ⟨3, none⟩ true 0]

def keepAll : AuditPolicy := ⟨4096, 1⟩

/-- The log without its first record, every number raised by `shift`. -/
def renumbered (shift : UInt64) (s : LogState Nat) : AuditDir where
  rotated := []
  current := some ((s.written.drop 1).flatMap fun e => lineBytes sampleEnv
    { e with chain := e.chain.map fun c => { c with seq := c.seq + shift } })

/-- All that the assumptions and the verdict ask of the edited log. -/
def Accepted (s : LogState Nat) (d : AuditDir) : Prop :=
  (verifyAuditChain sampleEnv d (some sampleKey)).toOption.map AuditVerifyReport.outcome
    = some .verified ∧
  (∀ e ∈ readAllEntries sampleEnv d, ∃ e' ∈ s.written, linkOf sampleEnv e' = linkOf sampleEnv e ∧
    e'.chain.map hash = e.chain.map hash) ∧
  s.torn = [] ∧
  (∀ a ∈ links sampleEnv s.written, ∀ b ∈ links sampleEnv s.written,
    (auditLinks sampleEnv sampleKey).hash a = (auditLinks sampleEnv sampleKey).hash b → a = b) ∧
  ∀ a ∈ links sampleEnv s.written, (auditLinks sampleEnv sampleKey).hash a ≠ genesisPrev sampleEnv

instance (s : LogState Nat) (d : AuditDir) : Decidable (Accepted s d) := by
  unfold Accepted
  infer_instance

theorem Accepted.verified {s} (h : Accepted s d) : Verified sampleEnv d sampleKey := by
  obtain ⟨report, hreport, houtcome⟩ := map_eq_some_iff.mp h.1
  exact ⟨report, toOption_eq_some.mp hreport, houtcome⟩

theorem Accepted.collisionFree {s} (h : Accepted s d) :
    CollisionFree sampleEnv sampleKey s d := by
  obtain ⟨-, hwritten, htorn, hinj, hstart⟩ := h
  refine HashChain.NoCollision.mono ⟨hinj, hstart⟩ ?_
  intro l hl
  rcases mem_append.mp hl with hl | hl
  · obtain ⟨e, he, hel⟩ := mem_filterMap.mp hl
    obtain ⟨e', he', hlink, -⟩ := hwritten e he
    exact mem_filterMap.mpr ⟨e', he', hlink.trans hel⟩
  · unfold LogState.chains at hl
    rw [htorn, flatMap_singleton] at hl
    exact hl

theorem log_is_tamper_evident_pruned :
    ∃ s, (auditLog sampleEnv keepAll sampleKey).exec .initial threeAppends = some s ∧
      (sealedStretch (readAllEntries sampleEnv (renumbered 0 s))).length = 2 ∧
      ∃ g ∈ s.chains, sealedStretch (readAllEntries sampleEnv (renumbered 0 s)) <:+: g := by
  have hallowed : (auditLog sampleEnv keepAll sampleKey).Allowed (CleanCut sampleEnv sampleKey)
      .initial threeAppends :=
    ⟨trivial, fun _ _ => ⟨trivial, fun _ _ => ⟨trivial, fun _ _ => trivial⟩⟩⟩
  have hany : ((auditLog sampleEnv keepAll sampleKey).exec .initial threeAppends).any (fun s =>
      Accepted s (renumbered 0 s) ∧
      (sealedStretch (readAllEntries sampleEnv (renumbered 0 s))).length = 2 ∧
      FirstNumberGenuine s (readAllEntries sampleEnv (renumbered 0 s))) = true := by
    decide +kernel
  obtain ⟨s, hs, h⟩ := (any_eq_true _ _).mp hany
  obtain ⟨haccepted, hlen, hfirst⟩ := of_decide_eq_true h
  exact ⟨s, hs, hlen, (log_is_tamper_evident sampleEnv sampleEnv_lawful keepAll sampleKey s
    ⟨_, rfl, Machine.run_of_exec hallowed hs⟩ _ haccepted.verified haccepted.collisionFree
    (unforged_of_written haccepted.2.1)).mpr hfirst⟩

/-- The first record is removed and the others are numbered from seven. Nothing is
forged, no hashes collide, and the log verifies. -/
theorem renumbered_log_verifies : sampleEnv.Lawful ∧
    ∃ s, (auditLog sampleEnv keepAll sampleKey).exec .initial threeAppends = some s ∧
      CollisionFree sampleEnv sampleKey s (renumbered 5 s) ∧
      Unforged sampleEnv sampleKey s (renumbered 5 s) ∧
      Verified sampleEnv (renumbered 5 s) sampleKey ∧
      (sealedStretch (readAllEntries sampleEnv (renumbered 5 s))).map
        (fun e => e.chain.map AuditChain.seq) = [some 7, some 8] ∧
      ¬ ∃ g ∈ s.chains, sealedStretch (readAllEntries sampleEnv (renumbered 5 s)) <:+: g := by
  have hany : ((auditLog sampleEnv keepAll sampleKey).exec .initial threeAppends).any (fun s =>
      Accepted s (renumbered 5 s) ∧
      (sealedStretch (readAllEntries sampleEnv (renumbered 5 s))).map
        (fun e => e.chain.map seq) = [some 7, some 8] ∧
      ¬ ∃ g ∈ s.chains, sealedStretch (readAllEntries sampleEnv (renumbered 5 s)) <:+: g)
        = true := by
    decide +kernel
  obtain ⟨s, hs, h⟩ := (any_eq_true _ _).mp hany
  obtain ⟨haccepted, hseqs, hnot⟩ := of_decide_eq_true h
  exact ⟨sampleEnv_lawful, s, hs, haccepted.collisionFree, unforged_of_written haccepted.2.1,
    haccepted.verified, hseqs, hnot⟩

end SentinelPass.Audit
