import SentinelPass.Daemon.Entries

/-!
# Which entry a request is served from

The index answers a request before the scan does, and mappings with a sealed domain
before those with a plaintext one; among the mappings of one kind the order is not
specified. So an entry is served from the index (`Delivered`) if its mapping comes
first in some order, and the scan decides only if the index has no secret
(`findCredential_some`). A lookup fails as a whole if one candidate is not intact or
one entry does not open (`IndexOk`).
-/

namespace SentinelPass.Daemon

open Lib List Option SecretVault

section Index

variable (E : DomainEnv) (v : SecretVault)

/-- The mapping is looked at in a lookup of the host. -/
def Candidate (q : Text) (r : Int64 × MappingRow) : Prop :=
  r ∈ v.mappings.rows ∧ v.joined r.2 ∧
    ∃ tags, computeChainTagsForNormalized E v.tagKey q = some tags ∧ tagMatches tags r.2

/-- The sealed domain opens and the stored tags are those of it. -/
def Intact (r : Int64 × MappingRow) : Prop :=
  ∃ domain expected, r.2.domainEnc = .opens domain ∧
    computeDomainChainTags E v.tagKey domain = some expected ∧
    storedTagsMatchExpected r.2.tags expected

/-- The entry has a sealed mapping for a host related to the one looked up. -/
def TagIndexed (q : Text) (id : Int64) : Prop :=
  ∃ r domain, Candidate E v q r ∧ r.2.domainEnc = .opens domain ∧ domainsMatch E q domain ∧
    r.2.entryId = id

/-- The entry has a plaintext mapping for the host. -/
def LegacyIndexed (q : Text) (id : Int64) : Prop :=
  ∃ r ∈ v.mappings.rows, v.joined r.2 ∧ r.2.domain = q ∧ r.2.domainEnc = .absent ∧ r.2.entryId = id

def IndexReadable (q : Text) : Prop :=
  (∀ r, Candidate E v q r → Intact E v r) ∧
    ∀ id, TagIndexed E v q id ∨ LegacyIndexed v q id → ∃ e, v.getEntry id = .ok e

def lookupHost (domain : Text) : Option Text := (normalizeHost E domain).bind (normalizeHost E)

def IndexOk (domain : Text) : Prop := ∀ q, lookupHost E domain = some q → IndexReadable E v q

def Retrievable (id : Int64) : Prop :=
  ∃ e, v.getEntry id = .ok e ∧ isRetrievableSecret e.credentialType

/-- The entry is served from the index, if its mapping comes first. -/
def Delivered (domain : Text) (id : Int64) : Prop :=
  ∃ q, lookupHost E domain = some q ∧ Retrievable v id ∧ (TagIndexed E v q id ∨
      LegacyIndexed v q id ∧ ∀ id', TagIndexed E v q id' → ¬ Retrievable v id')

end Index

section Lookup

variable {E : DomainEnv} {v : SecretVault} {q : Text} {order : MapOrder (Int64 × MappingRow)}
  {e : Entry} {host : Text} {id : Int64} {r : Int64 × MappingRow} {tags : ChainTags}
  {ids : List Int64}

theorem verifyCandidate_isOk : (∃ o, verifyCandidate E v q r = .ok o) ↔ Intact E v r := by
  unfold verifyCandidate Intact
  cases hd : r.2.domainEnc with
  | absent => simp
  | refused => simp
  | opens domain =>
    cases ht : computeDomainChainTags E v.tagKey domain with
    | none => simp [ht]
    | some expected => by_cases hs : storedTagsMatchExpected r.2.tags expected <;> simp [ht, hs]

theorem verifyCandidate_eq_some {o} (h : verifyCandidate E v q r = .ok o) :
    o = some id ↔ ∃ domain, r.2.domainEnc = .opens domain ∧ domainsMatch E q domain ∧
      r.2.entryId = id := by
  obtain ⟨domain, expected, hd, ht, hs⟩ := verifyCandidate_isOk.mp ⟨o, h⟩
  simp only [verifyCandidate, hd, ht, hs, if_true, Except.ok.injEq] at h
  rw [← h, hd]
  simp

theorem mem_tagCandidates (order) (htags : computeChainTagsForNormalized E v.tagKey q = some tags) :
    r ∈ tagCandidates v order tags ↔ Candidate E v q r := by
  unfold tagCandidates Candidate
  simp [htags]

theorem verified_isOk (order) (htags : computeChainTagsForNormalized E v.tagKey q = some tags) :
    (∃ ids, verifiedTagCandidateEntryIds E v order q tags = .ok ids) ↔
      ∀ r, Candidate E v q r → Intact E v r := by
  have hmap : (∃ out, (tagCandidates v order tags).mapM (verifyCandidate E v q) = .ok out) ↔
      ∀ r, Candidate E v q r → Intact E v r := by
    rw [mapM_isOk]
    simp only [mem_tagCandidates order htags, verifyCandidate_isOk]
  rw [← hmap]
  unfold verifiedTagCandidateEntryIds
  constructor
  · rintro ⟨ids, h⟩
    obtain ⟨out, hout, -⟩ := bind_ok h
    exact ⟨out, hout⟩
  · rintro ⟨out, hout⟩
    exact ⟨out.filterMap id, by rw [hout]; rfl⟩

theorem mem_verified (htags : computeChainTagsForNormalized E v.tagKey q = some tags)
    (h : verifiedTagCandidateEntryIds E v order q tags = .ok ids) :
    id ∈ ids ↔ TagIndexed E v q id := by
  obtain ⟨out, hout, h⟩ := bind_ok h
  cases h
  simp only [mem_filterMap, id_eq, exists_eq_right, mem_of_mapM_ok hout]
  constructor
  · rintro ⟨r, hr, hv⟩
    obtain ⟨domain, hd, hm, hid⟩ := (verifyCandidate_eq_some hv).mp rfl
    exact ⟨r, domain, (mem_tagCandidates order htags).mp hr, hd, hm, hid⟩
  · rintro ⟨r, domain, hr, hd, hm, hid⟩
    have hr := (mem_tagCandidates order htags).mpr hr
    obtain ⟨o, ho⟩ := mapM_isOk.mp ⟨out, hout⟩ r hr
    exact ⟨r, hr, (verifyCandidate_eq_some ho).mpr ⟨domain, hd, hm, hid⟩ ▸ ho⟩

theorem mem_legacy : id ∈ legacyPlaintextCandidateEntryIds v order q ↔ LegacyIndexed v q id := by
  unfold legacyPlaintextCandidateEntryIds LegacyIndexed
  simp only [List.mem_map, MapOrder.mem_arrange, List.mem_filter, Bool.and_eq_true,
    decide_eq_true_eq]
  constructor
  · rintro ⟨r, ⟨hr, ⟨hj, hd⟩, habs⟩, hid⟩
    exact ⟨r, hr, hj, hd, habs, hid⟩
  · rintro ⟨r, hr, hj, hd, habs, hid⟩
    exact ⟨r, ⟨hr, ⟨hj, hd⟩, habs⟩, hid⟩

theorem pushMissing_eq (entryIds ids) : ∃ more, pushMissing entryIds ids = entryIds ++ more ∧
      (∀ id, id ∈ more ↔ id ∈ ids ∧ id ∉ entryIds) ∧
      ∀ id rest, ids = id :: rest → id ∉ entryIds → ∃ tail, more = id :: tail := by
  unfold pushMissing
  induction ids generalizing entryIds with
  | nil => exact ⟨[], by simp⟩
  | cons a ids ih =>
    rw [foldl_cons]
    by_cases ha : a ∈ entryIds
    · obtain ⟨more, heq, hmem, -⟩ := ih entryIds
      rw [if_pos ha]
      refine ⟨more, heq, fun id => ?_, ?_⟩
      · rw [hmem, mem_cons]
        refine ⟨fun h => ⟨.inr h.1, h.2⟩, fun h => ⟨h.1.resolve_left ?_, h.2⟩⟩
        rintro rfl
        exact h.2 ha
      · rintro id rest hcons hid
        cases hcons
        exact absurd ha hid
    · obtain ⟨more, heq, hmem, -⟩ := ih (entryIds ++ [a])
      rw [if_neg ha]
      refine ⟨a :: more, by rw [heq, append_assoc]; rfl, fun id => ?_, ?_⟩
      · rw [mem_cons, mem_cons, hmem, mem_append, mem_singleton]
        constructor
        · rintro (rfl | ⟨hid, hno⟩)
          · exact ⟨.inl rfl, ha⟩
          · exact ⟨.inr hid, fun h => hno (.inl h)⟩
        · rintro ⟨hid, hno⟩
          by_cases hida : id = a
          · exact .inl hida
          exact .inr ⟨hid.resolve_left hida, fun h => h.elim hno hida⟩
      · rintro id rest hcons hid
        cases hcons
        exact ⟨more, rfl⟩

theorem getEntry_eq_ok_iff_raw :
    v.getEntry id = .ok e ↔ ∃ r, v.getRaw id = some r ∧ decryptEntryRow r = .ok (id, e) := by
  rw [getEntry_eq_ok]
  constructor
  · rintro ⟨row, hget, hdel, hc⟩
    exact ⟨(id, row), getRaw_eq_some.mpr ⟨rfl, hget, hdel⟩, decryptEntryRow_eq_ok.mpr ⟨rfl, hc⟩⟩
  · rintro ⟨r, hraw, hopen⟩
    obtain ⟨-, hget, hdel⟩ := getRaw_eq_some.mp hraw
    exact ⟨r.2, hget, hdel, (decryptEntryRow_eq_ok.mp hopen).2⟩

theorem mem_opened {out} (h : v.openRows ids = .ok out) :
    (id, e) ∈ out ↔ id ∈ ids ∧ v.getEntry id = .ok e := by
  rw [mem_of_mapM_ok h, getEntry_eq_ok_iff_raw]
  constructor
  · rintro ⟨r, hr, hopen⟩
    obtain ⟨id', hid', hraw⟩ := mem_filterMap.mp hr
    obtain ⟨rfl, -⟩ := getRaw_eq_some.mp hraw
    obtain ⟨rfl, -⟩ := decryptEntryRow_eq_ok.mp hopen
    exact ⟨hid', r, hraw, hopen⟩
  · rintro ⟨hid, r, hraw, hopen⟩
    exact ⟨r, mem_filterMap.mpr ⟨id, hid, hraw⟩, hopen⟩

theorem opened_isOk (ids) : (∃ out, v.openRows ids = .ok out) ↔
      ∀ id ∈ ids, (v.getRaw id).isSome → ∃ e, v.getEntry id = .ok e := by
  unfold openRows
  rw [mapM_isOk]
  constructor
  · intro h id hid hsome
    obtain ⟨r, hraw⟩ := isSome_iff_exists.mp hsome
    obtain ⟨rfl, -⟩ := getRaw_eq_some.mp hraw
    obtain ⟨⟨id', e⟩, hopen⟩ := h r (mem_filterMap.mpr ⟨r.1, hid, hraw⟩)
    obtain ⟨rfl, -⟩ := decryptEntryRow_eq_ok.mp hopen
    exact ⟨e, getEntry_eq_ok_iff_raw.mpr ⟨r, hraw, hopen⟩⟩
  · intro h r hr
    obtain ⟨id, hid, hraw⟩ := mem_filterMap.mp hr
    obtain ⟨e, he⟩ := h id hid (by rw [hraw]; rfl)
    obtain ⟨r', hraw', hopen⟩ := getEntry_eq_ok_iff_raw.mp he
    rw [hraw] at hraw'
    cases hraw'
    exact ⟨_, hopen⟩

theorem joined_of_tagIndexed (h : TagIndexed E v q id) : (v.getRaw id).isSome := by
  obtain ⟨r, domain, hr, -, -, rfl⟩ := h
  exact hr.2.1

theorem joined_of_legacyIndexed (h : LegacyIndexed v q id) : (v.getRaw id).isSome := by
  obtain ⟨r, -, hj, -, -, rfl⟩ := h
  exact hj

theorem domainLookup_eq (order) (hq : normalizeHost E host = some q) :
    ∃ tags, computeChainTagsForNormalized E v.tagKey q = some tags ∧ domainLookup E v order host
        = verifiedTagCandidateEntryIds E v order q tags >>= fun verified =>
            v.openRows (pushMissing verified (legacyPlaintextCandidateEntryIds v order q)) := by
  obtain ⟨tags, htags⟩ := exists_chainTags v.tagKey (ne_nil_of_normalizeHost hq)
  refine ⟨tags, htags, ?_⟩
  unfold domainLookup
  rw [hq]
  dsimp only
  rw [htags]

theorem domainLookup_isOk (order) (hq : normalizeHost E host = some q) :
    (∃ l, domainLookup E v order host = .ok l) ↔ IndexReadable E v q := by
  obtain ⟨tags, htags, heq⟩ := domainLookup_eq order hq
  rw [heq]
  constructor
  · rintro ⟨l, h⟩
    obtain ⟨verified, hverified, h⟩ := bind_ok h
    obtain ⟨more, hpush, hmore, -⟩ :=
      pushMissing_eq verified (legacyPlaintextCandidateEntryIds v order q)
    refine ⟨(verified_isOk order htags).mp ⟨verified, hverified⟩, fun id hid => ?_⟩
    have hin : id ∈ verified ++ more := by
      rw [mem_append, hmore, mem_verified htags hverified, mem_legacy]
      by_cases ht : TagIndexed E v q id
      · exact .inl ht
      exact .inr ⟨hid.resolve_left ht, ht⟩
    refine (opened_isOk _).mp ⟨l, h⟩ id (hpush ▸ hin) ?_
    exact hid.elim joined_of_tagIndexed joined_of_legacyIndexed
  · rintro ⟨hintact, hopen⟩
    obtain ⟨verified, hverified⟩ := (verified_isOk order htags).mpr hintact
    obtain ⟨more, hpush, hmore, -⟩ :=
      pushMissing_eq verified (legacyPlaintextCandidateEntryIds v order q)
    obtain ⟨l, hl⟩ := (opened_isOk (verified ++ more)).mpr fun id hid _ => by
      rw [mem_append, hmore, mem_verified htags hverified, mem_legacy] at hid
      exact hopen id (hid.imp_right And.left)
    refine ⟨l, ?_⟩
    rw [hverified, ← hl, ← hpush]
    rfl

theorem domainLookup_ok (hq : normalizeHost E host = some q) {l}
    (h : domainLookup E v order host = .ok l) :
    ∃ tagged legacy, l = tagged ++ legacy ∧
      (∀ id e, (id, e) ∈ tagged ↔ TagIndexed E v q id ∧ v.getEntry id = .ok e) ∧
      ∀ id e, (id, e) ∈ legacy ↔
        (LegacyIndexed v q id ∧ ¬ TagIndexed E v q id) ∧ v.getEntry id = .ok e := by
  obtain ⟨tags, htags, heq⟩ := domainLookup_eq order hq
  rw [heq] at h
  obtain ⟨verified, hverified, h⟩ := bind_ok h
  obtain ⟨more, hpush, hmore, -⟩ :=
    pushMissing_eq verified (legacyPlaintextCandidateEntryIds v order q)
  rw [hpush, openRows, filterMap_append, mapM_append] at h
  obtain ⟨tagged, htagged, h⟩ := bind_ok h
  obtain ⟨legacy, hlegacy, h⟩ := bind_ok h
  cases h
  refine ⟨tagged, legacy, rfl, fun id e => ?_, fun id e => ?_⟩
  · rw [mem_opened htagged, mem_verified htags hverified]
  · rw [mem_opened hlegacy, hmore, mem_legacy, mem_verified htags hverified]

theorem openRows_cons {a} (he : v.getEntry a = .ok e) (ids) :
    v.openRows (a :: ids) = (v.openRows ids).map ((a, e) :: ·) := by
  obtain ⟨r, hraw, hopen⟩ := getEntry_eq_ok_iff_raw.mp he
  unfold openRows
  rw [filterMap_cons_some hraw, mapM_cons, hopen]
  cases (ids.filterMap v.getRaw).mapM decryptEntryRow <;> rfl

theorem domainLookup_first (hq : normalizeHost E host = some q) (hready : IndexReadable E v q)
    {domain : Text} (hr : Candidate E v q r) (hd : r.2.domainEnc = .opens domain)
    (hm : domainsMatch E q domain) (he : v.getEntry r.2.entryId = .ok e) :
    ∃ rest, domainLookup E v (.first r) host = .ok ((r.2.entryId, e) :: rest) := by
  obtain ⟨l, hl⟩ := (domainLookup_isOk (.first r) hq).mpr hready
  obtain ⟨tags, htags, heq⟩ := domainLookup_eq (.first r) hq
  rw [heq] at hl
  obtain ⟨verified, hverified, hopen⟩ := bind_ok hl
  obtain ⟨more, hpush, -, -⟩ :=
    pushMissing_eq verified (legacyPlaintextCandidateEntryIds v (.first r) q)
  -- the mapping is the first candidate, so its entry is the first id
  obtain ⟨ids, rfl⟩ : ∃ ids, verified = r.2.entryId :: ids := by
    obtain ⟨out, hout, h⟩ := bind_ok hverified
    obtain ⟨others, hcand⟩ : ∃ others, tagCandidates v (.first r) tags = r :: others :=
      MapOrder.arrange_first
        ((MapOrder.mem_arrange _).mp ((mem_tagCandidates (.first r) htags).mpr hr))
    rw [hcand, mapM_cons] at hout
    obtain ⟨o, ho, hout⟩ := bind_ok hout
    obtain ⟨os, hos, hout⟩ := bind_ok hout
    cases hout
    cases h
    rw [(verifyCandidate_eq_some ho).mpr ⟨domain, hd, hm, rfl⟩]
    exact ⟨_, rfl⟩
  rw [hpush, cons_append, openRows_cons he] at hopen
  obtain ⟨rest, -, rfl⟩ := map_ok hopen
  exact ⟨rest, by rw [heq, hl]⟩

theorem domainLookup_legacy_first (hq : normalizeHost E host = some q)
    (hready : IndexReadable E v q) (hr : r ∈ v.mappings.rows) (hj : v.joined r.2)
    (hd : r.2.domain = q) (habs : r.2.domainEnc = .absent) (hno : ¬ TagIndexed E v q r.2.entryId)
    (he : v.getEntry r.2.entryId = .ok e) :
    ∃ tagged rest, domainLookup E v (.first r) host = .ok (tagged ++ (r.2.entryId, e) :: rest) ∧
      ∀ id e, (id, e) ∈ tagged → TagIndexed E v q id ∧ v.getEntry id = .ok e := by
  obtain ⟨l, hl⟩ := (domainLookup_isOk (.first r) hq).mpr hready
  obtain ⟨tags, htags, heq⟩ := domainLookup_eq (.first r) hq
  rw [heq] at hl
  obtain ⟨verified, hverified, hopen⟩ := bind_ok hl
  obtain ⟨more, hpush, -, hhead⟩ :=
    pushMissing_eq verified (legacyPlaintextCandidateEntryIds v (.first r) q)
  obtain ⟨ids, hids⟩ : ∃ ids, legacyPlaintextCandidateEntryIds v (.first r) q
      = r.2.entryId :: ids := by
    have hrows : r ∈ v.mappings.rows.filter fun r =>
        v.joined r.2 && r.2.domain = q && r.2.domainEnc = .absent :=
      mem_filter.mpr ⟨hr, by simp [hj, hd, habs]⟩
    obtain ⟨others, hothers⟩ := MapOrder.arrange_first hrows
    unfold legacyPlaintextCandidateEntryIds
    rw [hothers]
    exact ⟨_, rfl⟩
  obtain ⟨tail, rfl⟩ := hhead _ ids hids (mt (mem_verified htags hverified).mp hno)
  rw [hpush, openRows, filterMap_append, mapM_append] at hopen
  obtain ⟨tagged, htagged, hopen⟩ := bind_ok hopen
  obtain ⟨legacy, hlegacy, hopen⟩ := bind_ok hopen
  have hcons := openRows_cons he tail
  rw [openRows, hlegacy] at hcons
  obtain ⟨rest, -, hrest⟩ := map_ok hcons.symm
  cases hopen
  refine ⟨tagged, rest, by rw [heq, hl, ← hrest], fun id e hmem => ?_⟩
  rw [mem_opened htagged, mem_verified htags hverified] at hmem
  exact hmem

end Lookup

section Served

variable {E : DomainEnv} {v : SecretVault} {domain : Text} {order : MapOrder (Int64 × MappingRow)}

theorem findIndexed_isOk (order) :
    (∃ l, findIndexed E v order domain = .ok l) ↔ IndexOk E v domain := by
  unfold findIndexed IndexOk lookupHost
  cases hhost : normalizeHost E domain with
  | none => simp
  | some host =>
    cases hq : normalizeHost E host with
    | none => simp [domainLookup, hq]
    | some q =>
      rw [domainLookup_isOk order hq]
      simp [hq]

variable {id : Int64} {l : List (Int64 × Entry)}

theorem findIndexed_ok (h : findIndexed E v order domain = .ok l) :
    ∃ tagged legacy, l = tagged ++ legacy ∧ (∀ id e, (id, e) ∈ tagged ↔
        (∃ q, lookupHost E domain = some q ∧ TagIndexed E v q id) ∧ v.getEntry id = .ok e) ∧
      ∀ id e, (id, e) ∈ legacy ↔
        (∃ q, lookupHost E domain = some q ∧ LegacyIndexed v q id ∧ ¬ TagIndexed E v q id) ∧
          v.getEntry id = .ok e := by
  unfold findIndexed at h
  unfold lookupHost
  cases hhost : normalizeHost E domain with
  | none =>
    rw [hhost] at h
    cases h
    exact ⟨[], [], rfl, by simp, by simp⟩
  | some host =>
    rw [hhost] at h
    cases hq : normalizeHost E host with
    | none =>
      simp only [domainLookup, hq] at h
      cases h
      exact ⟨[], [], rfl, by simp [hq], by simp [hq]⟩
    | some q =>
      obtain ⟨tagged, legacy, hl, ht, hg⟩ := domainLookup_ok hq h
      exact ⟨tagged, legacy, hl, by simpa [hq] using ht, by simpa [hq] using hg⟩

/-- The entry may be handed out to a request with the username. -/
def servable (username : Option Text) (e : Entry) : Bool :=
  isRetrievableSecret e.credentialType && usernameMatches username e.username

/-- A row of an answer that may be handed out. -/
def servableRow (username : Option Text) (r : Int64 × Entry) : Bool := servable username r.2

def HoldsFor (v : SecretVault) (username : Option Text) (id : Int64) : Prop :=
  ∃ e, v.getEntry id = .ok e ∧ servable username e

/-- `Delivered`, for a request with a username. -/
def DeliveredTo (E : DomainEnv) (v : SecretVault) (domain : Text) (username : Option Text)
    (id : Int64) : Prop :=
  ∃ q, lookupHost E domain = some q ∧ HoldsFor v username id ∧ (TagIndexed E v q id ∨
      LegacyIndexed v q id ∧ ∀ id', TagIndexed E v q id' → ¬ HoldsFor v username id')

theorem deliveredTo_none : DeliveredTo E v domain none id ↔ Delivered E v domain id := by
  simp [DeliveredTo, HoldsFor, Delivered, Retrievable, servable, usernameMatches]

variable {username : Option Text}

theorem findCredential_eq :
    findCredential E v order domain username = findIndexed E v order domain >>= fun indexed =>
      match indexed.find? (servableRow username) with
      | some r => .ok (some r)
      | none =>
        v.listEntries.map fun entries => entries.findSome? (scanEntry E v domain username) := by
  refine congrArg (findIndexed E v order domain >>= ·) (funext fun indexed => ?_)
  show (match indexed.find? (servableRow username) with | some r => _ | none => _) = _
  cases indexed.find? (servableRow username) with
  | some r => rfl
  | none => cases v.listEntries <;> rfl

theorem findCredential_of_find (h : findIndexed E v order domain = .ok l) {r}
    (hfind : l.find? (servableRow username) = some r) :
    findCredential E v order domain username = .ok (some r) := by
  rw [findCredential_eq, h]
  show (match l.find? (servableRow username) with | some r => _ | none => _) = _
  rw [hfind]

theorem find?_indexed (username) (h : findIndexed E v order domain = .ok l) :
    (∀ id e, l.find? (servableRow username) = some (id, e) →
      DeliveredTo E v domain username id ∧ v.getEntry id = .ok e) ∧
      (l.find? (servableRow username) = none → ∀ id, ¬ DeliveredTo E v domain username id) := by
  obtain ⟨tagged, legacy, rfl, htagged, hlegacy⟩ := findIndexed_ok h
  constructor
  · intro id e hfind
    rw [find?_append, or_eq_some_iff] at hfind
    rcases hfind with hfind | ⟨hnone, hfind⟩
    · obtain ⟨⟨q, hq, ht⟩, he⟩ := (htagged id e).mp (mem_of_find?_eq_some hfind)
      have hsecret : servableRow username (id, e) := find?_some hfind
      exact ⟨⟨q, hq, ⟨e, he, hsecret⟩, .inl ht⟩, he⟩
    · obtain ⟨⟨q, hq, hl, -⟩, he⟩ := (hlegacy id e).mp (mem_of_find?_eq_some hfind)
      have hsecret : servableRow username (id, e) := find?_some hfind
      refine ⟨⟨q, hq, ⟨e, he, hsecret⟩, .inr ⟨hl, ?_⟩⟩, he⟩
      rintro id' ht' ⟨e', he', hsecret'⟩
      have hmem : (id', e') ∈ tagged := (htagged id' e').mpr ⟨⟨q, hq, ht'⟩, he'⟩
      exact find?_eq_none.mp hnone _ hmem hsecret'
  · rintro hnone id ⟨q, hq, ⟨e, he, hsecret⟩, hidx⟩
    have hmem : (id, e) ∈ tagged ++ legacy := by
      rw [mem_append, htagged, hlegacy]
      by_cases ht : TagIndexed E v q id
      · exact .inl ⟨⟨q, hq, ht⟩, he⟩
      exact .inr ⟨⟨q, hq, (hidx.resolve_left ht).1, ht⟩, he⟩
    exact find?_eq_none.mp hnone _ hmem hsecret

/-- A request that is answered from an entry: from the index, or else from the scan. -/
theorem findCredential_some {e : Entry}
    (h : findCredential E v order domain username = .ok (some (id, e))) :
    v.getEntry id = .ok e ∧ IndexOk E v domain ∧ (DeliveredTo E v domain username id ∨
        (∀ id', ¬ DeliveredTo E v domain username id') ∧ Listable v ∧
          FirstListed v (scannableBy E domain username) id e) := by
  rw [findCredential_eq] at h
  obtain ⟨l, hl, h⟩ := bind_ok h
  have hok : IndexOk E v domain := (findIndexed_isOk order).mp ⟨l, hl⟩
  obtain ⟨hsome, hnone⟩ := find?_indexed username hl
  cases hfind : l.find? (servableRow username) with
  | some r =>
    rw [hfind] at h
    cases h
    obtain ⟨hd, he⟩ := hsome id e hfind
    exact ⟨he, hok, .inl hd⟩
  | none =>
    rw [hfind] at h
    obtain ⟨entries, hentries, hscan⟩ := map_ok h
    have hs := (scan_eq_some hentries).mp hscan
    exact ⟨hs.1, hok, .inr ⟨hnone hfind, listEntries_isOk.mp ⟨entries, hentries⟩, hs⟩⟩

theorem findCredential_of_delivered (hok : IndexOk E v domain)
    (hd : DeliveredTo E v domain username id) (order) :
    ∃ id' e', findCredential E v order domain username = .ok (some (id', e')) ∧
      DeliveredTo E v domain username id' ∧ v.getEntry id' = .ok e' := by
  obtain ⟨l, hl⟩ := (findIndexed_isOk order).mpr hok
  obtain ⟨hsome, hnone⟩ := find?_indexed username hl
  cases hfind : l.find? (servableRow username) with
  | none => exact absurd hd (hnone hfind id)
  | some r =>
    exact ⟨r.1, r.2, findCredential_of_find hl hfind, hsome r.1 r.2 hfind⟩

theorem findCredential_first (hok : IndexOk E v domain) (hd : DeliveredTo E v domain username id) :
    ∃ order e, findCredential E v order domain username = .ok (some (id, e)) := by
  obtain ⟨q, hq, ⟨e, he, hservable⟩, hidx⟩ := hd
  have hsecret : servableRow username (id, e) := hservable
  obtain ⟨host, hhost, hhostq⟩ := bind_eq_some_iff.mp hq
  have hindexed : ∀ order, findIndexed E v order domain = domainLookup E v order host :=
    fun order => by
    unfold findIndexed
    rw [hhost]
  by_cases ht : TagIndexed E v q id
  · obtain ⟨r, domain', hr, hdom, hm, rfl⟩ := ht
    obtain ⟨rest, hl⟩ := domainLookup_first hhostq (hok q hq) hr hdom hm he
    refine ⟨.first r, e, findCredential_of_find ((hindexed _).trans hl) ?_⟩
    exact find?_cons_of_pos hsecret
  · obtain ⟨hl, hno⟩ := hidx.resolve_left ht
    obtain ⟨r, hr, hj, hdom, habs, rfl⟩ := hl
    obtain ⟨tagged, rest, hl, htagged⟩ :=
      domainLookup_legacy_first hhostq (hok q hq) hr hj hdom habs ht he
    refine ⟨.first r, e, findCredential_of_find ((hindexed _).trans hl) ?_⟩
    -- none of the entries before it may be handed out
    have hnone : tagged.find? (servableRow username) = none :=
      find?_eq_none.mpr fun x hx hsecret' => by
        obtain ⟨ht', he'⟩ := htagged x.1 x.2 hx
        exact hno x.1 ht' ⟨x.2, he', hsecret'⟩
    rw [find?_append, hnone, none_or, find?_cons_of_pos hsecret]

theorem findCredential_of_not_delivered (hok : IndexOk E v domain)
    (hno : ∀ id, ¬ DeliveredTo E v domain username id) {entries}
    (hentries : v.listEntries = .ok entries) (order) :
    findCredential E v order domain username
      = .ok (entries.findSome? (scanEntry E v domain username)) := by
  obtain ⟨l, hl⟩ := (findIndexed_isOk order).mpr hok
  have hnone : l.find? (servableRow username) = none := by
    cases hfind : l.find? (servableRow username) with
    | none => rfl
    | some r => exact absurd ((find?_indexed username hl).1 r.1 r.2 hfind).1 (hno r.1)
  rw [findCredential_eq, hl]
  show (match l.find? (servableRow username) with | some r => _ | none => _) = _
  rw [hnone, hentries]
  rfl

end Served

end SentinelPass.Daemon
