import SentinelPass.Daemon.ReadBack
import SentinelPass.Daemon.TagIndex

/-!
# The credentials of a domain

`list_domain_credentials`. The secrets that the index finds are the answer; only if it finds
no entry at all are the URLs of all entries looked at. The index yields an entry once for
each of its sealed mappings that matches, while a plaintext mapping adds it only if it is
not there yet (`pushMissing`).
-/

namespace SentinelPass.Daemon

open Lib List

/-! ## The answer -/

structure DomainCredential where
  (username title domain : Text)
deriving DecidableEq

/-- The order of the pairs of title and username. -/
def credentialLe (a b : DomainCredential) : Prop :=
  textLe a.title b.title ∧ (textLe b.title a.title → textLe a.username b.username)

instance : DecidableRel credentialLe := fun _ _ => by
  unfold credentialLe
  infer_instance

section Model

variable (E : DomainEnv) (v : SecretVault) (order : MapOrder (Int64 × MappingRow))
  (baseDomain : Text)

/-- The entries of the answer: the secrets that the index finds, or else the scan. -/
def listedEntries : Except VaultError (List (Int64 × Entry)) := do
  let indexed ← findIndexed E v order baseDomain
  if indexed = [] then do
    let entries ← v.listEntries
    .ok (entries.filterMap (scanEntry E v baseDomain none))
  else .ok (indexed.filter fun r => isRetrievableSecret r.2.credentialType)

def domainCredential (e : Entry) : DomainCredential :=
  ⟨e.username, e.title, (e.url.bind (normalizeHost E)).getD baseDomain⟩

def listDomainCredentials : Except VaultError (List DomainCredential) :=
  (listedEntries E v order baseDomain).map fun l =>
    (l.map fun r => domainCredential E baseDomain r.2).insertionSort credentialLe

end Model

/-! ## What is listed -/

section Spec

variable (E : DomainEnv) (v : SecretVault) (domain : Text)

def Indexed (id : Int64) : Prop :=
  ∃ q, lookupHost E domain = some q ∧ (TagIndexed E v q id ∨ LegacyIndexed v q id)

/-- A secret of the first stage that finds an entry. -/
def Answered (id : Int64) (e : Entry) : Prop :=
  v.getEntry id = .ok e ∧ isRetrievableSecret e.credentialType ∧ (Indexed E v domain id ∨
      (∀ other, ¬ Indexed E v domain other) ∧ e.url.any (domainsMatch E domain))

/-- The sealed mapping is one that the lookup of the host finds. -/
def SealFound (q : Text) (r : Int64 × MappingRow) : Prop :=
  Candidate E v q r ∧ ∃ other, r.2.domainEnc = .opens other ∧ domainsMatch E q other

/-- The lookup finds at most one sealed mapping of the entry. -/
def FoundOnce (id : Int64) : Prop :=
  ∀ q r r', lookupHost E domain = some q → SealFound E v q r → SealFound E v q r' →
    r.2.entryId = id → r'.2.entryId = id → r = r'

end Spec

section Proofs

variable {E : DomainEnv} {v : SecretVault} {domain q : Text}
  {order : MapOrder (Int64 × MappingRow)} {l : List (Int64 × Entry)} {id : Int64} {e : Entry}
  {ids : List Int64} {entries : List EntrySummary}

theorem mem_findIndexed (h : findIndexed E v order domain = .ok l) :
    (id, e) ∈ l ↔ Indexed E v domain id ∧ v.getEntry id = .ok e := by
  obtain ⟨tagged, legacy, rfl, htagged, hlegacy⟩ := findIndexed_ok h
  rw [mem_append, htagged, hlegacy, ← or_and_right]
  refine and_congr_left fun _ => ?_
  constructor
  · rintro (⟨q, hq, ht⟩ | ⟨q, hq, hl, -⟩)
    · exact ⟨q, hq, .inl ht⟩
    · exact ⟨q, hq, .inr hl⟩
  · rintro ⟨q, hq, hidx⟩
    by_cases ht : TagIndexed E v q id
    · exact .inl ⟨q, hq, ht⟩
    exact .inr ⟨q, hq, hidx.resolve_left ht, ht⟩

theorem findIndexed_eq_nil (h : findIndexed E v order domain = .ok l) :
    l = [] ↔ ∀ id, ¬ Indexed E v domain id := by
  have hok : IndexOk E v domain := (findIndexed_isOk order).mp ⟨l, h⟩
  constructor
  · rintro rfl id ⟨q, hq, hidx⟩
    obtain ⟨e, he⟩ := (hok q hq).2 id hidx
    exact not_mem_nil ((mem_findIndexed h).mpr ⟨⟨q, hq, hidx⟩, he⟩)
  · intro hno
    refine eq_nil_iff_forall_not_mem.mpr fun r hr => ?_
    exact hno r.1 ((mem_findIndexed h).mp hr).1

/-! ### How often an entry is listed -/

/-- The sealed domain opens to one that matches. -/
def sealMatches (E : DomainEnv) (q : Text) (r : Int64 × MappingRow) : Bool :=
  match r.2.domainEnc with
  | .opens other => domainsMatch E q other
  | _ => false

theorem sealFound_iff {r} : SealFound E v q r ↔ Candidate E v q r ∧ sealMatches E q r := by
  unfold SealFound sealMatches
  cases r.2.domainEnc <;> simp

theorem verified_eq {tags} (h : verifiedTagCandidateEntryIds E v order q tags = .ok ids) :
    ids = ((tagCandidates v order tags).filter (sealMatches E q)).map fun r => r.2.entryId := by
  obtain ⟨out, hout, h⟩ := bind_ok h
  cases h
  have hanswer : ∀ r o, verifyCandidate E v q r = .ok o →
      id o = if sealMatches E q r then some r.2.entryId else none := by
    intro r o ho
    obtain ⟨other, expected, hd, ht, hs⟩ := verifyCandidate_isOk.mp ⟨o, ho⟩
    simp only [verifyCandidate, hd, ht, hs, if_true, Except.ok.injEq] at ho
    simp only [sealMatches, hd, ← ho, id_eq]
  have hmap := map_of_mapM_ok hanswer hout
  rw [map_id] at hmap
  rw [hmap, filterMap_map, ← filterMap_eq_map, filterMap_filter]
  rfl

theorem pushMissing_filter_nodup {p more} :
    ((pushMissing ids more).filter p).Nodup ↔ (ids.filter p).Nodup := by
  unfold pushMissing
  induction more generalizing ids with
  | nil => rfl
  | cons a more ih =>
    rw [foldl_cons, ih]
    split
    · rfl
    rename_i ha
    rw [filter_append, nodup_append]
    refine ⟨And.left, fun h => ⟨h, (nodup_singleton a).filter p, ?_⟩⟩
    rintro x hx y hy rfl
    obtain rfl := mem_singleton.mp (mem_filter.mp hy).1
    exact ha (mem_filter.mp hx).1

theorem opened_ids (h : v.openRows ids = .ok l) (hjoined : ∀ id ∈ ids, (v.getRaw id).isSome) :
    l.map Prod.fst = ids := by
  have hid : ∀ r (o : Int64 × Entry), decryptEntryRow r = .ok o → Prod.fst o = Prod.fst r := by
    rintro r ⟨id, e⟩ ho
    exact (decryptEntryRow_eq_ok.mp ho).1.symm
  rw [map_of_mapM_ok hid h]
  clear h
  induction ids with
  | nil => rfl
  | cons a ids ih =>
    rw [forall_mem_cons] at hjoined
    obtain ⟨r, hr⟩ := Option.isSome_iff_exists.mp hjoined.1
    rw [filterMap_cons_some hr, map_cons, ih hjoined.2, (getRaw_eq_some.mp hr).1]

/-- The index yields an entry once exactly if one sealed mapping of it is found. -/
theorem indexed_ids_nodup (hq : lookupHost E domain = some q)
    (h : findIndexed E v order domain = .ok l) (p : Int64 → Bool) :
    ((l.map Prod.fst).filter p).Nodup ↔
      ∀ r r', SealFound E v q r → SealFound E v q r' → r.2.entryId = r'.2.entryId →
        p r.2.entryId → r = r' := by
  obtain ⟨host, hhost, hhostq⟩ := Option.bind_eq_some_iff.mp hq
  obtain ⟨tags, htags, heq⟩ := domainLookup_eq order hhostq
  have hlookup : domainLookup E v order host = .ok l := by
    unfold findIndexed at h
    rwa [hhost] at h
  rw [heq] at hlookup
  obtain ⟨verified, hverified, hopen⟩ := bind_ok hlookup
  have hids : l.map Prod.fst
      = pushMissing verified (legacyPlaintextCandidateEntryIds v order q) := by
    refine opened_ids hopen fun id hid => ?_
    obtain ⟨more, hpush, hmore, -⟩ :=
      pushMissing_eq verified (legacyPlaintextCandidateEntryIds v order q)
    rw [hpush, mem_append, hmore, mem_verified htags hverified, mem_legacy] at hid
    exact hid.elim joined_of_tagIndexed fun hl => joined_of_legacyIndexed hl.1
  rw [hids, pushMissing_filter_nodup, verified_eq hverified, filter_map, nodup_map_iff_inj_on]
  · simp only [mem_filter, mem_tagCandidates order htags, Function.comp_apply, ← sealFound_iff]
    constructor
    · intro hinj r r' hr hr' hid hp
      exact hinj r ⟨hr, hp⟩ r' ⟨hr', hid ▸ hp⟩ hid
    · rintro hinj r ⟨hr, hp⟩ r' ⟨hr', -⟩ hid
      exact hinj r r' hr hr' hid hp
  · -- the candidates are rows of the table, which are distinct
    have hrows : (v.mappings.rows.filter fun r => v.joined r.2 && tagMatches tags r.2).Nodup :=
      v.mappings.rows_nodup.filter _
    exact (((order.perm _).nodup_iff.mpr hrows).filter _).filter _

theorem mem_scanned (h : v.listEntries = .ok entries) :
    (id, e) ∈ entries.filterMap (scanEntry E v domain none) ↔
      v.getEntry id = .ok e ∧ scannable E domain e := by
  rw [mem_filterMap]
  constructor
  · rintro ⟨s, hs, hscan⟩
    obtain ⟨he, rfl, hscannable⟩ := (scanEntry_eq_some h hs).mp hscan
    rw [scannableBy_none] at hscannable
    exact ⟨he, hscannable⟩
  · rintro ⟨he, hscannable⟩
    obtain ⟨hs, -⟩ := summary_of_getEntry h he
    refine ⟨_, hs, (scanEntry_eq_some h hs).mpr ⟨he, rfl, ?_⟩⟩
    rwa [scannableBy_none]

theorem entryId_of_scanEntry {username s r} (h : scanEntry E v domain username s = some r) :
    r.1 = s.entryId := by
  unfold scanEntry at h
  split at h
  · split at h
    · split at h <;> cases h
      rfl
    · cases h
  · cases h

theorem scanned_nodup (h : v.listEntries = .ok entries) :
    ((entries.filterMap (scanEntry E v domain none)).map Prod.fst).Nodup := by
  have hnodup : (entries.map EntrySummary.entryId).Nodup := by
    obtain ⟨summaries, hsummaries, h⟩ := bind_ok h
    cases h
    have hperm := (perm_insertionSort titleLe summaries).map EntrySummary.entryId
    rw [hperm.nodup_iff, map_of_mapM_ok (fun _ _ => entryId_of_rowToSummary) hsummaries]
    have hrows := (perm_insertionSort idLe
      (v.entries.rows.filter fun r => !r.2.isDeleted)).map Prod.fst
    rw [SecretVault.listRaw, hrows.nodup_iff]
    exact v.entries.keys_nodup.sublist (filter_sublist.map _)
  refine hnodup.sublist ?_
  -- an entry that is scanned keeps its summary's id
  clear hnodup h
  induction entries with
  | nil => exact List.Sublist.slnil
  | cons s entries ih =>
    cases hs : scanEntry E v domain none s with
    | none =>
      rw [filterMap_cons_none hs]
      exact ih.cons _
    | some r =>
      rw [filterMap_cons_some hs, map_cons, map_cons, entryId_of_scanEntry hs]
      exact ih.cons_cons _

theorem count_of_indexed (h : findIndexed E v order domain = .ok l)
    (hid : Indexed E v domain id) (honce : FoundOnce E v domain id) :
    (l.map Prod.fst).count id = 1 := by
  obtain ⟨q, hq, hidx⟩ := hid
  have hnodup : ((l.map Prod.fst).filter (· == id)).Nodup := by
    refine (indexed_ids_nodup hq h _).mpr fun r r' hr hr' hsame hp => ?_
    have hrid := beq_iff_eq.mp hp
    exact honce q r r' hq hr hr' hrid (hsame.symm.trans hrid)
  obtain ⟨e, he⟩ := ((findIndexed_isOk order).mp ⟨l, h⟩ q hq).2 id hidx
  have hmem : id ∈ l.map Prod.fst :=
    mem_map.mpr ⟨(id, e), (mem_findIndexed h).mpr ⟨⟨q, hq, hidx⟩, he⟩, rfl⟩
  have hcount := count_filter (p := (· == id)) (l := l.map Prod.fst) (beq_self_eq_true id)
  rw [← hcount]
  exact count_eq_one_of_mem hnodup (mem_filter.mpr ⟨hmem, beq_self_eq_true id⟩)

/-- The entries of the answer are those of the stage, and nothing else; one whose mappings
are not found more than once is there once. -/
structure ListsStage (E : DomainEnv) (v : SecretVault) (domain : Text)
    (l : List (Int64 × Entry)) : Prop where
  mem : ∀ id e, (id, e) ∈ l ↔ Answered E v domain id e
  once : ∀ id e, Answered E v domain id e → FoundOnce E v domain id → (l.map Prod.fst).count id = 1

theorem listsStage_of_found {found : Int64} (hfound : Indexed E v domain found)
    (h : findIndexed E v order domain = .ok l) :
    ListsStage E v domain (l.filter fun r => isRetrievableSecret r.2.credentialType) := by
  have hindexed : ∀ {id e}, Answered E v domain id e → Indexed E v domain id :=
    fun ha => ha.2.2.resolve_right fun hno => hno.1 found hfound
  have hmem : ∀ id e, (id, e) ∈ l.filter (fun r => isRetrievableSecret r.2.credentialType) ↔
      Answered E v domain id e := by
    intro id e
    rw [mem_filter, mem_findIndexed h]
    constructor
    · rintro ⟨⟨hid, he⟩, htype⟩
      exact ⟨he, htype, .inl hid⟩
    · exact fun ha => ⟨⟨hindexed ha, ha.1⟩, ha.2.1⟩
  refine ⟨hmem, fun id e ha honce => Nat.le_antisymm ?_ ?_⟩
  · rw [← count_of_indexed h (hindexed ha) honce]
    exact (filter_sublist.map _).count_le id
  · exact count_pos_iff.mpr (mem_map.mpr ⟨(id, e), (hmem id e).mpr ha, rfl⟩)

theorem listsStage_of_scan (hno : ∀ id, ¬ Indexed E v domain id) (h : v.listEntries = .ok entries) :
    ListsStage E v domain (entries.filterMap (scanEntry E v domain none)) := by
  have hmem : ∀ id e, (id, e) ∈ entries.filterMap (scanEntry E v domain none) ↔
      Answered E v domain id e := by
    intro id e
    rw [mem_scanned h]
    unfold Answered scannable
    rw [Bool.and_eq_true]
    constructor
    · rintro ⟨he, htype, hurl⟩
      exact ⟨he, htype, .inr ⟨hno, hurl⟩⟩
    · rintro ⟨he, htype, hid | ⟨-, hurl⟩⟩
      · exact absurd hid (hno id)
      · exact ⟨he, htype, hurl⟩
  refine ⟨hmem, fun id e ha _ => ?_⟩
  exact count_eq_one_of_mem (scanned_nodup h)
    (mem_map.mpr ⟨(id, e), (hmem id e).mpr ha, rfl⟩)

/-- Two logins at `a.io`, the first by its URL and the second by a plaintext mapping. -/
def loginAndMapped (domain : Text) : SecretVault where
  tagKey := []
  entries := ⟨[(1, ⟨.readable ⟨"T".toList, "me".toList, "old".toList,
      some "https://a.io".toList, none, .password, 0, false⟩, false, true⟩),
    (2, ⟨.readable ⟨"U".toList, "me".toList, "other".toList, none, none, .password, 0, false⟩,
      false, true⟩)], by decide⟩
  mappings := ⟨[(1, ⟨2, domain, .absent, []⟩)], nodup_singleton _⟩
  mapped _ h := by
    cases mem_singleton.mp h
    exact .tail _ (.head _)

/-- `mappedVault` with a second sealed mapping of its entry. -/
def twiceMapped : SecretVault where
  tagKey := []
  entries := mappedVault.entries
  mappings := ⟨mappedVault.mappings.rows ++ [(8, ⟨1, [], .opens "a.io".toList,
    writeMappingTags hostsAsGiven [] "a.io".toList⟩)], by decide⟩
  mapped r hr := by
    rcases mem_append.mp hr with hr | hr <;> cases mem_singleton.mp hr <;>
      exact mem_singleton_self _

end Proofs

end SentinelPass.Daemon
