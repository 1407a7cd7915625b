import Mathlib.Data.List.Count
import SentinelPass.Daemon.Selection

/-!
# The tag index and the plain relation of hosts

A mapping is found by the tags of its label chains, three formulations of one relation:
the tag condition of the query, the comparison of two tag sets (`chainTagSetsMatch`) and
the relation of the hosts as texts (`domainsMatch`). The chains of a host are its
dot-suffixes up to `maxChainTags` labels away (`mem_domainChainSuffixes`), so with distinct
tags for distinct chains all three agree up to that distance.
-/

namespace SentinelPass.Daemon

open Lib List

def chainTagSetsMatch (a b : ChainTags) : Bool :=
  b.all.any (· = a.root) || a.all.any (· = b.root)

theorem chainTagSetsMatch_iff {a b} :
    chainTagSetsMatch a b = true ↔ a.root ∈ b.all ∨ b.root ∈ a.all := by
  unfold chainTagSetsMatch
  simp only [Bool.or_eq_true, any_eq_true, decide_eq_true_eq, exists_eq_right]

/-- The rows of a mapping with these tags; the root is flagged. -/
def tagRows (root : Tag) (suffixes : List Tag) : List (Tag × Bool) :=
  (root, true) :: suffixes.map fun tag => (tag, false)

/-- `write_mapping_tags`: the rows of a mapping. -/
def writeMappingTags (E : DomainEnv) (tagKey : Bytes) (domain : Text) : List (Tag × Bool) :=
  match computeDomainChainTags E tagKey domain with
  | none => []
  | some tags => tagRows tags.root tags.suffixes

/-! ## Stored tags -/

/-- The root tag, flagged, and every suffix tag once. -/
def ExactTags (stored : List (Tag × Bool)) (expected : ChainTags) : Prop :=
  stored.Perm (tagRows expected.root expected.suffixes)

/-- The root tag, flagged, and as many suffix tags as there should be, but one of them stands
more often than it should, in the place of a sibling. -/
def SiblingCopied (stored : List (Tag × Bool)) (expected : ChainTags) : Prop :=
  ∃ copies : List Tag, stored.Perm (tagRows expected.root copies) ∧
    copies.length = expected.suffixes.length ∧ copies ⊆ expected.suffixes ∧
    expected.root ∉ copies ∧ ∃ tag, expected.suffixes.count tag < copies.count tag

section Stored

variable {stored : List (Tag × Bool)} {expected : ChainTags}

theorem count_tagRows (root tag : Tag) (suffixes : List Tag) :
    (tagRows root suffixes).count (tag, false) = suffixes.count tag := by
  rw [tagRows, count_cons_of_ne (by simp)]
  exact count_map_of_injective suffixes (fun t => (t, false)) (fun _ _ h => (Prod.mk.inj h).1) tag

theorem rootRows_eq (hcount : stored.countP (fun t => t.2) = 1)
    (hrows : ∀ t ∈ stored, t.2 = true → t.1 = expected.root) :
    stored.filter (fun t => t.2) = [(expected.root, true)] := by
  rw [countP_eq_length_filter] at hcount
  obtain ⟨⟨tag, flag⟩, hone⟩ := length_eq_one_iff.mp hcount
  have hmem : (tag, flag) ∈ stored.filter fun t => t.2 := by
    rw [hone]
    exact mem_singleton_self _
  obtain ⟨hin, rfl⟩ := mem_filter.mp hmem
  obtain rfl : tag = expected.root := hrows _ hin rfl
  exact hone

theorem suffixRows_eq :
    ((stored.filter fun t => !t.2).map Prod.fst).map (fun tag => (tag, false))
      = stored.filter fun t => !t.2 := by
  rw [map_map]
  refine (map_congr_left fun t ht => ?_).trans (map_id _)
  obtain ⟨tag, flag⟩ := t
  obtain rfl : flag = false := by simpa using (mem_filter.mp ht).2
  rfl

/-- What the comparison accepts: the root tag once and the right number of suffix tags. -/
theorem storedTagsMatchExpected_iff : storedTagsMatchExpected stored expected = true ↔
    ∃ copies : List Tag, stored.Perm (tagRows expected.root copies) ∧
      copies.length = expected.suffixes.length ∧ copies ⊆ expected.suffixes ∧
      expected.root ∉ copies := by
  have htests : storedTagsMatchExpected stored expected = true ↔
      stored.countP (fun t => t.2) = 1 ∧ stored.countP (fun t => !t.2) = expected.suffixes.length ∧
        ∀ t ∈ stored, if t.2 then t.1 = expected.root
          else t.1 ∈ expected.suffixes ∧ t.1 ≠ expected.root := by
    unfold storedTagsMatchExpected
    rw [Bool.and_eq_true, Bool.and_eq_true, decide_eq_true_eq, decide_eq_true_eq, and_assoc,
      all_eq_true]
    refine and_congr_right fun _ => and_congr_right fun _ => forall₂_congr fun t _ => ?_
    split <;> simp
  rw [htests]
  constructor
  · rintro ⟨hroot, hsuffix, hrows⟩
    have hcopy : ∀ tag ∈ (stored.filter fun t => !t.2).map Prod.fst,
        tag ∈ expected.suffixes ∧ tag ≠ expected.root := by
      intro tag htag
      obtain ⟨⟨_, flag⟩, ht, rfl⟩ := mem_map.mp htag
      obtain ⟨hin, hflag⟩ := mem_filter.mp ht
      obtain rfl : flag = false := by simpa using hflag
      exact hrows _ hin
    refine ⟨(stored.filter fun t => !t.2).map Prod.fst, ?_, ?_, fun tag h => (hcopy tag h).1,
      fun h => (hcopy _ h).2 rfl⟩
    · have hsplit := filter_append_perm (fun t : Tag × Bool => t.2) stored
      rw [rootRows_eq hroot fun t ht htrue => by simpa [htrue] using hrows t ht] at hsplit
      rw [tagRows, suffixRows_eq]
      exact hsplit.symm
    · rw [length_map, ← countP_eq_length_filter, hsuffix]
  · rintro ⟨copies, hperm, hlen, hsub, hroot⟩
    refine ⟨?_, ?_, fun t ht => ?_⟩
    · rw [hperm.countP_eq, tagRows, countP_cons, countP_map]
      simp
    · rw [hperm.countP_eq, tagRows, countP_cons, countP_map]
      simp [Function.comp_def, hlen]
    · rcases mem_cons.mp (hperm.mem_iff.mp ht) with rfl | ht
      · rfl
      obtain ⟨tag, htag, rfl⟩ := mem_map.mp ht
      exact ⟨hsub htag, fun heq => hroot (heq ▸ htag)⟩

/-- What the comparison accepts is the tag set of the host, unless a row was overwritten with
a copy of a sibling. -/
theorem stored_tags_exact_iff (stored : List (Tag × Bool)) (expected : ChainTags) :
    (storedTagsMatchExpected stored expected = true → ExactTags stored expected) ↔
      ¬ SiblingCopied stored expected := by
  constructor
  · rintro hexact ⟨copies, hperm, hlen, hsub, hroot, tag, hmore⟩
    have hexact := hexact (storedTagsMatchExpected_iff.mpr ⟨copies, hperm, hlen, hsub, hroot⟩)
    have hsame := (hperm.symm.trans hexact).count_eq (tag, false)
    rw [count_tagRows, count_tagRows] at hsame
    exact absurd hmore (by omega)
  · intro hno hmatch
    obtain ⟨copies, hperm, hlen, hsub, hroot⟩ := storedTagsMatchExpected_iff.mp hmatch
    have hle : ∀ tag ∈ copies, copies.count tag ≤ expected.suffixes.count tag := by
      intro tag _
      by_contra hmore
      exact hno ⟨copies, hperm, hlen, hsub, hroot, tag, Nat.lt_of_not_le hmore⟩
    have hcopies : copies.Perm expected.suffixes :=
      (subperm_ext_iff.mpr hle).perm_of_length_le hlen.ge
    exact hperm.trans ((hcopies.map _).cons _)

end Stored

/-! ## Hosts as labels -/

/-- Equal hosts, or one is a dot-suffix of the other. -/
def Related (a b : Text) : Prop := a = b ∨ '.' :: b <:+ a ∨ '.' :: a <:+ b

def labelDistance (a b : Text) : Nat :=
  (((a.splitOn '.').length : Int) - (b.splitOn '.').length).natAbs

section Chains

variable {a b host chain : Text}

theorem domainsMatch_iff_related {E domain} (ha : normalizeHost E a = some a)
    (hb : normalizeHost E domain = some b) : domainsMatch E a domain = true ↔ Related a b := by
  rw [domainsMatch_eq_true, ha, hb]
  constructor
  · rintro ⟨_, _, ⟨⟩, ⟨⟩, h⟩
    exact h
  · exact fun h => ⟨a, b, rfl, rfl, h⟩

theorem domainChainSuffixes_eq (h : host ≠ []) :
    domainChainSuffixes host = (range (min maxChainTags (host.splitOn '.').length)).map
      fun i => ['.'].intercalate ((host.splitOn '.').drop i) := by
  unfold domainChainSuffixes
  rw [if_neg h, ← map_take, take_range]

theorem splitOn_chain {i : Nat} (hi : i < (host.splitOn '.').length) :
    (['.'].intercalate ((host.splitOn '.').drop i)).splitOn '.' = (host.splitOn '.').drop i := by
  apply splitOn_intercalate
  · exact fun l hl => not_mem_of_mem_splitOn (mem_of_mem_drop hl)
  · intro hnil
    have := drop_eq_nil_iff.mp hnil
    omega

theorem mem_domainChainSuffixes (h : host ≠ []) : chain ∈ domainChainSuffixes host ↔
      (chain = host ∨ '.' :: chain <:+ host) ∧ labelDistance chain host < maxChainTags := by
  rw [domainChainSuffixes_eq h, ← splitOn_suffix_splitOn]
  simp only [mem_map, mem_range]
  unfold labelDistance
  constructor
  · rintro ⟨i, hi, rfl⟩
    have hlen : i < (host.splitOn '.').length := by omega
    rw [splitOn_chain hlen, length_drop]
    exact ⟨drop_suffix _ _, by omega⟩
  · rintro ⟨hsuffix, hdist⟩
    have hle := hsuffix.length_le
    have hpos : 0 < (chain.splitOn '.').length :=
      length_pos_iff.mpr (splitOn_ne_nil _ _)
    refine ⟨(host.splitOn '.').length - (chain.splitOn '.').length, by omega, ?_⟩
    rw [← suffix_iff_eq_drop.mp hsuffix, intercalate_splitOn]

theorem domainChainSuffixes_nodup : (domainChainSuffixes host).Nodup := by
  by_cases h : host = []
  · rw [h]
    exact nodup_nil
  · rw [domainChainSuffixes_eq h]
    refine List.Nodup.map_on (fun i hi j hj hij => ?_) nodup_range
    rw [mem_range] at hi hj
    have hlen := congrArg (fun t : Text => (t.splitOn '.').length) hij
    rw [splitOn_chain (by omega), splitOn_chain (by omega), length_drop, length_drop]
      at hlen
    omega

theorem chain_or_chain_iff (ha : a ≠ []) (hb : b ≠ []) :
    a ∈ domainChainSuffixes b ∨ b ∈ domainChainSuffixes a ↔
      Related a b ∧ labelDistance a b < maxChainTags := by
  have hsymm : labelDistance b a = labelDistance a b := by
    unfold labelDistance
    omega
  rw [mem_domainChainSuffixes hb, mem_domainChainSuffixes ha, hsymm, ← or_and_right, Related,
    eq_comm]
  refine and_congr_left fun _ => ?_
  tauto

end Chains

/-! ## Tags of chains -/

def chainTag (E : DomainEnv) (tagKey : Bytes) (chain : Text) : Tag :=
  E.crypto.hmacSha256 tagKey (textBytes chain)

section Tags

variable {E : DomainEnv} {tagKey : Bytes} {host : Text} {tags : ChainTags}

section

variable (h : computeChainTagsForNormalized E tagKey host = some tags)

include h

theorem chainTags_all : tags.all = (domainChainSuffixes host).map (chainTag E tagKey) := by
  unfold computeChainTagsForNormalized at h
  split at h
  · cases h
  rename_i root suffixes hmap
  cases h
  exact hmap.symm

theorem chainTags_root (hne : host ≠ []) : tags.root = chainTag E tagKey host := by
  have hall := chainTags_all h
  have hpos : 0 < (host.splitOn '.').length := length_pos_iff.mpr (splitOn_ne_nil _ _)
  rw [domainChainSuffixes_eq hne, show min maxChainTags (host.splitOn '.').length
    = (min maxChainTags (host.splitOn '.').length - 1) + 1 by unfold maxChainTags; omega,
    range_succ_eq_map, map_cons, map_cons, drop_zero,
    intercalate_splitOn] at hall
  exact (cons.inj hall).1

end

variable {a b : Text} {ta tb : ChainTags}

/-- The tag of one host is among the tags of the other iff the host is a chain of it. -/
theorem root_mem_all_iff (ha : a ≠ []) (hta : computeChainTagsForNormalized E tagKey a = some ta)
    (htb : computeChainTagsForNormalized E tagKey b = some tb)
    (hinj : ∀ chain ∈ domainChainSuffixes b, chainTag E tagKey a = chainTag E tagKey chain →
      a = chain) :
    ta.root ∈ tb.all ↔ a ∈ domainChainSuffixes b := by
  rw [chainTags_root hta ha, chainTags_all htb, mem_map]
  constructor
  · rintro ⟨chain, hchain, htag⟩
    rwa [hinj chain hchain htag.symm]
  · exact fun h => ⟨a, h, rfl⟩

theorem self_mem_domainChainSuffixes (ha : a ≠ []) : a ∈ domainChainSuffixes a := by
  rw [mem_domainChainSuffixes ha, labelDistance, Int.sub_self]
  exact ⟨.inl rfl, by decide⟩

theorem chainTagSetsMatch_iff_related (ha : a ≠ []) (hb : b ≠ [])
    (hta : computeChainTagsForNormalized E tagKey a = some ta)
    (htb : computeChainTagsForNormalized E tagKey b = some tb)
    (hinj : Set.InjOn (chainTag E tagKey)
      {chain | chain ∈ domainChainSuffixes a ∨ chain ∈ domainChainSuffixes b}) :
    chainTagSetsMatch ta tb = true ↔ Related a b ∧ labelDistance a b < maxChainTags := by
  rw [← chain_or_chain_iff ha hb]
  have hroot := root_mem_all_iff ha hta htb fun chain hchain htag =>
    hinj (.inl (self_mem_domainChainSuffixes ha)) (.inr hchain) htag
  have hroot' := root_mem_all_iff hb htb hta fun chain hchain htag =>
    hinj (.inr (self_mem_domainChainSuffixes hb)) (.inl hchain) htag
  rw [chainTagSetsMatch_iff, hroot, hroot']

end Tags

/-! ## The lookup -/

section Lookup

variable {E : DomainEnv} {v : SecretVault} {q : Text} {qtags : ChainTags} {domain : Text}

/-- The mapping is sealed and has the tags that were written for its domain. -/
def TagsConsistent (E : DomainEnv) (tagKey : Bytes) (m : MappingRow) : Prop :=
  ∃ domain, m.domainEnc = .opens domain ∧ m.tags.Perm (writeMappingTags E tagKey domain)

/-- The mapping is one of a live entry, for the host. -/
def SecretVault.MapsHost (v : SecretVault) (E : DomainEnv) (r : Int64 × MappingRow) (host : Text) :
    Prop :=
  r ∈ v.mappings.rows ∧ v.joined r.2 ∧
    ∃ domain, r.2.domainEnc = .opens domain ∧ normalizeHost E domain = some host

/-- The chains that a lookup of the host compares by their tags. -/
def chainsInvolved (E : DomainEnv) (v : SecretVault) (q : Text) : Set Text :=
  {chain | chain ∈ domainChainSuffixes q ∨
    ∃ r host, v.MapsHost E r host ∧ chain ∈ domainChainSuffixes host}

theorem storedTags_of_perm {host : Text} {tags : ChainTags} {stored : List (Tag × Bool)}
    (htags : computeChainTagsForNormalized E v.tagKey host = some tags)
    (hinj : Set.InjOn (chainTag E v.tagKey) {chain | chain ∈ domainChainSuffixes host})
    (hperm : stored.Perm (tagRows tags.root tags.suffixes)) :
    storedTagsMatchExpected stored tags = true := by
  have hnodup : tags.all.Nodup := by
    rw [chainTags_all htags]
    exact domainChainSuffixes_nodup.map_on fun x hx y hy => hinj hx hy
  exact storedTagsMatchExpected_iff.mpr ⟨tags.suffixes, hperm, rfl, List.Subset.refl _,
    (nodup_cons.mp hnodup).1⟩

theorem tagMatches_of_perm {tags m} (hperm : m.tags.Perm (tagRows tags.root tags.suffixes)) :
    tagMatches qtags m = chainTagSetsMatch qtags tags := by
  rw [Bool.eq_iff_iff, chainTagSetsMatch_iff]
  unfold tagMatches
  rw [hperm.any_eq, tagRows, any_cons, any_map]
  simp only [Bool.or_eq_true, Bool.and_eq_true, decide_eq_true_eq, any_eq_true,
    Function.comp_apply, ChainTags.all, mem_cons, Bool.false_eq_true, false_and, or_false,
    true_and]
  constructor
  · rintro ((h | h) | ⟨tag, htag, rfl⟩)
    · exact .inr (.inl h)
    · exact .inr h
    exact .inl (.inr htag)
  · rintro ((h | h) | h)
    · exact .inl (.inl h.symm)
    · exact .inr ⟨_, h, rfl⟩
    exact .inl (.inr h)

theorem not_tagMatches_of_no_host {m} (hperm : m.tags.Perm (writeMappingTags E v.tagKey domain))
    (hnone : normalizeHost E domain = none) : tagMatches qtags m = false := by
  unfold writeMappingTags computeDomainChainTags at hperm
  rw [hnone] at hperm
  unfold tagMatches
  rw [hperm.eq_nil]
  rfl

/-- The mapping is a candidate iff its host is related to the query up to the cap, and then
it is intact. -/
theorem tagMatches_iff_related {r : Int64 × MappingRow} {host : Text} (hq : q ≠ [])
    (hqtags : computeChainTagsForNormalized E v.tagKey q = some qtags)
    (hinj : Set.InjOn (chainTag E v.tagKey) (chainsInvolved E v q)) (hmaps : v.MapsHost E r host)
    (hopen : r.2.domainEnc = .opens domain) (hhost : normalizeHost E domain = some host)
    (hperm : r.2.tags.Perm (writeMappingTags E v.tagKey domain)) :
    Intact E v r ∧ (tagMatches qtags r.2 = true ↔
      Related q host ∧ labelDistance q host < maxChainTags) := by
  have hne := ne_nil_of_normalizeHost hhost
  obtain ⟨tags, htags⟩ := exists_chainTags v.tagKey hne
  have hexpected : computeDomainChainTags E v.tagKey domain = some tags := by
    unfold computeDomainChainTags
    rw [hhost, Option.bind_some, htags]
  unfold writeMappingTags at hperm
  rw [hexpected] at hperm
  constructor
  · refine ⟨domain, tags, hopen, hexpected, storedTags_of_perm htags (hinj.mono ?_) hperm⟩
    exact fun chain hchain => .inr ⟨r, host, hmaps, hchain⟩
  · rw [tagMatches_of_perm hperm]
    refine chainTagSetsMatch_iff_related hq hne hqtags htags (hinj.mono ?_)
    rintro chain (hchain | hchain)
    · exact .inl hchain
    exact .inr ⟨r, host, hmaps, hchain⟩

/-- Every sealed mapping of a live entry has the tags that were written for its domain. -/
def SealedAsWritten (E : DomainEnv) (v : SecretVault) : Prop :=
  ∀ r ∈ v.mappings.rows, v.joined r.2 → ∀ domain, r.2.domainEnc = .opens domain →
    r.2.tags.Perm (writeMappingTags E v.tagKey domain)

/-- Over mappings with the tags written for them, the index finds the entries with a sealed
mapping for a host related to the query, up to the cap. -/
theorem tagIndexed_iff_related {id : Int64} (hq : normalizeHost E q = some q)
    (hwritten : SealedAsWritten E v)
    (hinj : Set.InjOn (chainTag E v.tagKey) (chainsInvolved E v q)) :
    TagIndexed E v q id ↔ ∃ r host, v.MapsHost E r host ∧ r.2.entryId = id ∧
      Related q host ∧ labelDistance q host < maxChainTags := by
  have hqne := ne_nil_of_normalizeHost hq
  constructor
  · rintro ⟨r, domain, ⟨hr, hjoined, tags, htags, hmatch⟩, hopen, hdm, hid⟩
    obtain ⟨-, host, -, hhost, -⟩ := domainsMatch_eq_true.mp hdm
    have hmaps : v.MapsHost E r host := ⟨hr, hjoined, domain, hopen, hhost⟩
    exact ⟨r, host, hmaps, hid, (tagMatches_iff_related hqne htags hinj hmaps hopen hhost
      (hwritten r hr hjoined domain hopen)).2.mp hmatch⟩
  · rintro ⟨r, host, ⟨hr, hjoined, domain, hopen, hhost⟩, hid, hrelated⟩
    obtain ⟨qtags, hqtags⟩ := exists_chainTags v.tagKey hqne
    have hmatch := (tagMatches_iff_related hqne hqtags hinj ⟨hr, hjoined, domain, hopen, hhost⟩
      hopen hhost (hwritten r hr hjoined domain hopen)).2.mpr hrelated
    exact ⟨r, domain, ⟨hr, hjoined, qtags, hqtags, hmatch⟩, hopen,
      (domainsMatch_iff_related hq hhost).mpr hrelated.1, hid⟩

end Lookup

/-- Over mappings with the tags written for them, a lookup by tags does not fail and finds
the entries with a mapping for a host related to the query, up to the cap; two tag sets
match iff the hosts are related, up to the cap. A host is normalized if `normalizeHost`
leaves it as it is. -/
theorem tag_lookup_refines_domainsMatch (E : DomainEnv) :
    (∀ (v : SecretVault) (order : MapOrder (Int64 × MappingRow)) (q : Text),
      normalizeHost E q = some q →
      (∀ r ∈ v.mappings.rows, v.joined r.2 → TagsConsistent E v.tagKey r.2) →
      Set.InjOn (chainTag E v.tagKey) (chainsInvolved E v q) →
      ∃ tags ids, computeChainTagsForNormalized E v.tagKey q = some tags ∧
        verifiedTagCandidateEntryIds E v order q tags = .ok ids ∧
        ∀ id, id ∈ ids ↔ ∃ r host, v.MapsHost E r host ∧ r.2.entryId = id ∧
          Related q host ∧ labelDistance q host < maxChainTags) ∧
    ∀ (tagKey : Bytes) (a b : Text), normalizeHost E a = some a → normalizeHost E b = some b →
      Set.InjOn (chainTag E tagKey)
        {chain | chain ∈ domainChainSuffixes a ∨ chain ∈ domainChainSuffixes b} →
      ∃ ta tb, computeChainTagsForNormalized E tagKey a = some ta ∧
        computeChainTagsForNormalized E tagKey b = some tb ∧
        (chainTagSetsMatch ta tb = true ↔
          domainsMatch E a b = true ∧ labelDistance a b < maxChainTags) := by
  constructor
  · intro v order q hq hconsistent hinj
    have hqne := ne_nil_of_normalizeHost hq
    obtain ⟨qtags, hqtags⟩ := exists_chainTags v.tagKey hqne
    have hwritten : SealedAsWritten E v := by
      intro r hr hjoined domain hopen
      obtain ⟨domain', hopen', hperm⟩ := hconsistent r hr hjoined
      cases hopen.symm.trans hopen'
      exact hperm
    have hintact : ∀ r, Candidate E v q r → Intact E v r := by
      rintro r ⟨hr, hjoined, tags, htags, hmatch⟩
      obtain ⟨domain, hopen, hperm⟩ := hconsistent r hr hjoined
      cases hhost : normalizeHost E domain with
      | none => exact absurd (not_tagMatches_of_no_host hperm hhost) (by rw [hmatch]; decide)
      | some host =>
        exact (tagMatches_iff_related hqne htags hinj ⟨hr, hjoined, domain, hopen, hhost⟩ hopen
          hhost hperm).1
    obtain ⟨ids, hids⟩ := (verified_isOk order hqtags).mpr hintact
    exact ⟨qtags, ids, hqtags, hids, fun id =>
      (mem_verified hqtags hids).trans (tagIndexed_iff_related hq hwritten hinj)⟩
  · intro tagKey a b ha hb hinj
    have hane := ne_nil_of_normalizeHost ha
    have hbne := ne_nil_of_normalizeHost hb
    obtain ⟨ta, hta⟩ := exists_chainTags tagKey hane
    obtain ⟨tb, htb⟩ := exists_chainTags tagKey hbne
    refine ⟨ta, tb, hta, htb, ?_⟩
    rw [domainsMatch_iff_related ha hb]
    exact chainTagSetsMatch_iff_related hane hbne hta htb hinj

/-- Hosts as they are given, tags that are the bytes of a chain. -/
def hostsAsGiven : DomainEnv where
  crypto := ⟨fun b => Vector.ofFn fun i : Fin 32 => b.getD i.val 0, fun key b =>
    Vector.ofFn fun i : Fin 32 => (key ++ b).getD i.val 0⟩
  hostStr t := if "dummy://".toList.isPrefixOf t then some (t.drop 8) else none

/-- The tags of `x.a.io`, the last one overwritten with its sibling. -/
theorem copied_sibling_accepted :
    ∃ expected, computeChainTagsForNormalized hostsAsGiven [] "x.a.io".toList = some expected ∧
      ∃ a b, a ≠ b ∧ expected.suffixes = [a, b] ∧
        storedTagsMatchExpected [(expected.root, true), (a, false), (a, false)] expected = true ∧
        ¬ ExactTags [(expected.root, true), (a, false), (a, false)] expected := by
  refine ⟨_, rfl, _, _, ?_, rfl, by decide +kernel, fun h => ?_⟩
  · decide +kernel
  · have hcount := List.Perm.count_eq h (chainTag hostsAsGiven [] "io".toList, false)
    exact absurd hcount (by decide +kernel)

/-- One entry, mapped to `x.a.io`. -/
def mappedVault : SecretVault where
  tagKey := []
  entries := ⟨[(1, ⟨.readable ⟨"T".toList, "me".toList, "pw".toList, none, none, .password, 0,
    false⟩, false, true⟩)], nodup_singleton _⟩
  mappings :=
    ⟨[(7, ⟨1, [], .opens "x.a.io".toList, writeMappingTags hostsAsGiven [] "x.a.io".toList⟩)],
    nodup_singleton _⟩
  mapped r hr := by
    cases mem_singleton.mp hr
    exact mem_singleton_self _

theorem mapsHost_mappedVault {r host} (h : mappedVault.MapsHost hostsAsGiven r host) :
    host = "x.a.io".toList := by
  obtain ⟨hr, -, domain, hopen, hhost⟩ := h
  cases mem_singleton.mp hr
  cases hopen
  have hx : normalizeHost hostsAsGiven "x.a.io".toList = some "x.a.io".toList := by decide +kernel
  exact (Option.some.inj (hx.symm.trans hhost)).symm

theorem chainsInvolved_mappedVault {chain : Text}
    (h : chain ∈ chainsInvolved hostsAsGiven mappedVault "a.io".toList) :
    chain ∈ ["a.io".toList, "io".toList, "x.a.io".toList] := by
  have hq : domainChainSuffixes "a.io".toList = ["a.io".toList, "io".toList] := by decide +kernel
  have hx : domainChainSuffixes "x.a.io".toList
      = ["x.a.io".toList, "a.io".toList, "io".toList] := by decide +kernel
  rcases h with h | ⟨r, host, hmaps, h⟩
  · rw [hq] at h
    rcases mem_pair.mp h with rfl | rfl <;> simp
  · rw [mapsHost_mappedVault hmaps, hx] at h
    simp only [mem_cons] at h ⊢
    tauto

theorem injOn_mappedVault : Set.InjOn (chainTag hostsAsGiven mappedVault.tagKey)
    (chainsInvolved hostsAsGiven mappedVault "a.io".toList) := by
  have hpairs : (["a.io".toList, "io".toList, "x.a.io".toList] : List Text).all (fun x =>
      ["a.io".toList, "io".toList, "x.a.io".toList].all fun y =>
        chainTag hostsAsGiven [] x ≠ chainTag hostsAsGiven [] y || x = y) = true := by
    decide +kernel
  intro x hx y hy hxy
  have hpair := all_eq_true.mp
    (all_eq_true.mp hpairs x (chainsInvolved_mappedVault hx)) y (chainsInvolved_mappedVault hy)
  rcases Bool.or_eq_true _ _ ▸ hpair with hne | heq
  · exact absurd hxy (of_decide_eq_true hne)
  exact of_decide_eq_true heq

theorem mapsHost_sub : ∃ r, mappedVault.MapsHost hostsAsGiven r "x.a.io".toList ∧
    r.2.entryId = 1 ∧ Related "a.io".toList "x.a.io".toList ∧
      labelDistance "a.io".toList "x.a.io".toList < maxChainTags :=
  ⟨_, ⟨mem_singleton_self _, by decide +kernel, _, rfl, by decide +kernel⟩, rfl,
    .inr (.inr ⟨['x'], rfl⟩), by decide +kernel⟩

theorem tag_lookup_finds_subdomain :
    ∃ tags ids, computeChainTagsForNormalized hostsAsGiven [] "a.io".toList = some tags ∧
      verifiedTagCandidateEntryIds hostsAsGiven mappedVault .insertion "a.io".toList tags
        = .ok ids ∧ 1 ∈ ids := by
  obtain ⟨tags, ids, htags, hids, hmem⟩ :=
    (tag_lookup_refines_domainsMatch hostsAsGiven).1 mappedVault .insertion "a.io".toList
      (by decide +kernel)
      (fun r hr _ => by
        cases mem_singleton.mp hr
        exact ⟨"x.a.io".toList, rfl, List.Perm.refl _⟩)
      injOn_mappedVault
  obtain ⟨r, hmaps⟩ := mapsHost_sub
  exact ⟨tags, ids, htags, hids, (hmem 1).mpr ⟨r, _, hmaps⟩⟩

end SentinelPass.Daemon
