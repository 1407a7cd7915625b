import SentinelPass.Daemon.Domains
import SentinelPass.Lib.Machine
import SentinelPass.Lib.Sorted
import SentinelPass.Vault.Db

/-!
# Entries as the daemon finds them

`vault_state.rs` over the entries and the domain mappings of the open vault. An
entry is found by its mappings (`domainLookup`), by a scan for its URL
(`findCredential`), or, to be overwritten, by a scan for its URL or its title
(`findSaved`). Scans are in the order of the titles and, under one title, of the row
ids (`Listed`); the rows of an SQL query without `ORDER BY` come in any order, which
is a `MapOrder`.

Of a row only what it decrypts to is modelled, since a row may not decrypt at all or
not beyond its summary; sealed domains likewise.
-/

namespace SentinelPass.Daemon

open Lib List Option

/-- Seconds of UTC. -/
abbrev Timestamp := Int64

/-! ## Rows -/

/-- `Entry`, beside its row id and its time of creation. -/
structure Entry where
  (title username password : Text)
  (url notes : Option Text)
  credentialType : CredentialType
  modifiedAt : Timestamp
  favorite : Bool
deriving DecidableEq

structure EntrySummary where
  entryId : Int64
  (title username : Text)
  credentialType : CredentialType
  favorite : Bool

/-- What a row of `entries` decrypts to. -/
inductive RowContent
  | readable (entry : Entry)
  /-- The password, the URL or the notes do not open. -/
  | summaryOnly (title username : Text) (credentialType : CredentialType) (favorite : Bool)
  | unreadable

/-- A row of `entries`. -/
structure EntryRow where
  content : RowContent
  isDeleted : Bool
  /-- `update_entry` does not refuse the row: its columns are of one format and it has
  an identity, and its equality tag opens. -/
  updatable : Bool

/-- What the column `domain_enc` opens to under the identity of its row. -/
inductive SealedDomain
  | absent
  | refused
  | opens (domain : Text)
deriving DecidableEq

/-- A row of `domain_mappings` with its rows of `domain_mapping_tags`, each with the
flag `is_chain_root`. -/
structure MappingRow where
  entryId : Int64
  domain : Text
  domainEnc : SealedDomain
  tags : List (Tag × Bool)
deriving DecidableEq

/-- The open vault. A mapping refers to an entry (`FOREIGN KEY`). -/
structure SecretVault where
  tagKey : Bytes
  entries : Table Int64 EntryRow
  mappings : Table Int64 MappingRow
  mapped : ∀ r ∈ mappings.rows, r.2.entryId ∈ entries.rows.map Prod.fst

inductive VaultError
  | unreadable (entryId : Int64)
  | mapping (mappingId : Int64)
  | notFound (entryId : Int64)
  | refused (entryId : Int64)
  | constraint
  | host
deriving DecidableEq

def isRetrievableSecret : CredentialType → Bool
  | .password | .apiKey => true
  | .passkeyReference => false

def rowToSummary (r : Int64 × EntryRow) : Except VaultError EntrySummary :=
  match r.2.content with
  | .readable e => .ok ⟨r.1, e.title, e.username, e.credentialType, e.favorite⟩
  | .summaryOnly title username type favorite => .ok ⟨r.1, title, username, type, favorite⟩
  | .unreadable => .error (.unreadable r.1)

def decryptEntryRow (r : Int64 × EntryRow) : Except VaultError (Int64 × Entry) :=
  match r.2.content with
  | .readable e => .ok (r.1, e)
  | _ => .error (.unreadable r.1)

/-- `get_raw`: a row that is not deleted. -/
def SecretVault.getRaw (v : SecretVault) (id : Int64) : Option (Int64 × EntryRow) :=
  ((v.entries.get? id).filter fun r => !r.isDeleted).map fun r => (id, r)

/-- `ORDER BY entry_id ASC`. -/
def idLe (a b : Int64 × EntryRow) : Prop := a.1 ≤ b.1

instance : DecidableRel idLe := fun a b => inferInstanceAs (Decidable (a.1 ≤ b.1))

def SecretVault.listRaw (v : SecretVault) : List (Int64 × EntryRow) :=
  (v.entries.rows.filter fun r => !r.2.isDeleted).insertionSort idLe

def SecretVault.getEntry (v : SecretVault) (id : Int64) : Except VaultError Entry :=
  match v.getRaw id with
  | none => .error (.notFound id)
  | some r => (decryptEntryRow r).map Prod.snd

def titleLe (a b : EntrySummary) : Prop := textLe a.title b.title

instance : DecidableRel titleLe :=
  fun a b => inferInstanceAs (Decidable (textLe a.title b.title = true))

def SecretVault.listEntries (v : SecretVault) : Except VaultError (List EntrySummary) := do
  let entries ← v.listRaw.mapM rowToSummary
  .ok (entries.insertionSort titleLe)

theorem SecretVault.mapped_update (v : SecretVault) (id g) :
    ∀ r ∈ v.mappings.rows, r.2.entryId ∈ (v.entries.update id g).rows.map Prod.fst := by
  intro r hr
  have hkeys : (v.entries.update id g).rows.map Prod.fst = v.entries.rows.map Prod.fst := by
    simp [Table.update, Table.mapVal]
  rw [hkeys]
  exact v.mapped r hr

theorem SecretVault.mapped_append (v : SecretVault) {id} (row)
    (h : id ∉ v.entries.rows.map Prod.fst) :
    ∀ r ∈ v.mappings.rows, r.2.entryId ∈ (v.entries.append id row h).rows.map Prod.fst := by
  intro r hr
  rw [Table.append, map_append]
  exact mem_append_left _ (v.mapped r hr)

/-- `update_entry`. The row gets the time of the update, whatever the entry says. -/
def SecretVault.updateEntry (v : SecretVault) (id : Int64) (entry : Entry) (now : Timestamp) :
    Except VaultError SecretVault :=
  match v.entries.get? id with
  | none => .error (.notFound id)
  | some row =>
    if row.updatable then
      let write := fun r : EntryRow =>
        { r with content := .readable { entry with modifiedAt := now } }
      .ok { v with
        entries := v.entries.update id write
        mapped := v.mapped_update id write }
    else .error (.refused id)

/-- `add_entry`, under the row id that SQLite gives. -/
def SecretVault.addEntry (v : SecretVault) (newId : Int64) (entry : Entry) (now : Timestamp) :
    Except VaultError SecretVault :=
  let row : EntryRow := ⟨.readable { entry with modifiedAt := now }, false, true⟩
  if h : newId ∈ v.entries.rows.map Prod.fst then .error .constraint
  else .ok { v with entries := v.entries.append newId row h, mapped := v.mapped_append row h }

/-! ## The mappings -/

def storedTagsMatchExpected (stored : List (Tag × Bool)) (expected : ChainTags) : Bool :=
  stored.countP (fun t => t.2) = 1 &&
    stored.countP (fun t => !t.2) = expected.suffixes.length &&
    stored.all fun t =>
      if t.2 then t.1 = expected.root else t.1 ∈ expected.suffixes && t.1 ≠ expected.root

section Lookup

variable (E : DomainEnv) (v : SecretVault)

def tagMatches (queryTags : ChainTags) (m : MappingRow) : Bool :=
  m.tags.any fun t => t.1 = queryTags.root || (t.2 && t.1 ∈ queryTags.all)

def SecretVault.joined (m : MappingRow) : Bool := (v.getRaw m.entryId).isSome

/-- One candidate: sealed, intact and related to the host. -/
def verifyCandidate (queryHost : Text) (r : Int64 × MappingRow) :
    Except VaultError (Option Int64) :=
  match r.2.domainEnc with
  | .absent | .refused => .error (.mapping r.1)
  | .opens domain =>
    match computeDomainChainTags E v.tagKey domain with
    | none => .error (.mapping r.1)
    | some expected =>
      if storedTagsMatchExpected r.2.tags expected then
        .ok (if domainsMatch E queryHost domain then some r.2.entryId else none)
      else .error (.mapping r.1)

def tagCandidates (order : MapOrder (Int64 × MappingRow)) (queryTags : ChainTags) :
    List (Int64 × MappingRow) :=
  order.arrange (v.mappings.rows.filter fun r => v.joined r.2 && tagMatches queryTags r.2)

def verifiedTagCandidateEntryIds (order : MapOrder (Int64 × MappingRow)) (queryHost : Text)
    (queryTags : ChainTags) : Except VaultError (List Int64) := do
  let verified ← (tagCandidates v order queryTags).mapM (verifyCandidate E v queryHost)
  .ok (verified.filterMap id)

def legacyPlaintextCandidateEntryIds (order : MapOrder (Int64 × MappingRow)) (queryHost : Text) :
    List Int64 :=
  (order.arrange (v.mappings.rows.filter fun r =>
    v.joined r.2 && r.2.domain = queryHost && r.2.domainEnc = .absent)).map fun r => r.2.entryId

def pushMissing (entryIds ids : List Int64) : List Int64 :=
  ids.foldl (fun acc id => if id ∈ acc then acc else acc ++ [id]) entryIds

def SecretVault.openRows (ids : List Int64) : Except VaultError (List (Int64 × Entry)) :=
  (ids.filterMap v.getRaw).mapM decryptEntryRow

def domainLookup (order : MapOrder (Int64 × MappingRow)) (domain : Text) :
    Except VaultError (List (Int64 × Entry)) :=
  match normalizeHost E domain with
  | none => .ok []
  | some queryHost =>
    match computeChainTagsForNormalized E v.tagKey queryHost with
    | none => .error .host
    | some queryTags => do
      let verified ← verifiedTagCandidateEntryIds E v order queryHost queryTags
      v.openRows (pushMissing verified (legacyPlaintextCandidateEntryIds v order queryHost))

/-! ## Finding a credential -/

/-- The closure `username_matches`. -/
def usernameMatches (username : Option Text) (candidate : Text) : Bool :=
  match username with
  | none => true
  | some want => toAsciiLowercase (trim want) = toAsciiLowercase (trim candidate)

/-- One step of the scan of `get_credential_for_username`. -/
def scanEntry (domain : Text) (username : Option Text) (summary : EntrySummary) :
    Option (Int64 × Entry) :=
  if isRetrievableSecret summary.credentialType then
    match v.getEntry summary.entryId with
    | .ok entry =>
      if entry.url.any (domainsMatch E domain) && usernameMatches username entry.username then
        some (summary.entryId, entry)
      else none
    | .error _ => none
  else none

/-- The index of `get_credential_for_username`. -/
def findIndexed (order : MapOrder (Int64 × MappingRow)) (domain : Text) :
    Except VaultError (List (Int64 × Entry)) :=
  match normalizeHost E domain with
  | some host => domainLookup E v order host
  | none => .ok []

/-- `get_credential_for_username`, up to the response: the entry. -/
def findCredential (order : MapOrder (Int64 × MappingRow)) (domain : Text)
    (username : Option Text) : Except VaultError (Option (Int64 × Entry)) := do
  let indexed ← findIndexed E v order domain
  match indexed.find? fun r =>
      isRetrievableSecret r.2.credentialType && usernameMatches username r.2.username with
  | some r => .ok (some r)
  | none => do
    let entries ← v.listEntries
    .ok (entries.findSome? (scanEntry E v domain username))

/-! ## Saving a value -/

def related (domain : Text) (entry : Entry) : Bool :=
  entry.url.any (domainsMatch E domain) || domainsMatch E domain entry.title

/-- One step of the scan of `save_secret_value`. -/
def isSaveTarget (domain : Text) (summary : EntrySummary) : Bool :=
  match v.getEntry summary.entryId with
  | .ok entry => related E domain entry
  | .error _ => false

/-- The scan of `save_secret_value`. -/
def findSaved (domain : Text) (entries : List EntrySummary) : Option Int64 :=
  (entries.find? (isSaveTarget E v domain)).map EntrySummary.entryId

/-- The entry that `save_secret_value` creates. -/
def newEntry (domain value : Text) (now : Timestamp) : Entry :=
  { title := domain, username := "api-key".toList, password := value, url := some domain,
    notes := none, credentialType := .apiKey, modifiedAt := now, favorite := false }

def saveSecretValue (domain value : Text) (newId : Int64) (now : Timestamp) :
    Except VaultError SecretVault := do
  let entries ← v.listEntries
  match findSaved E v domain entries with
  | some entryId => do
    let entry ← v.getEntry entryId
    v.updateEntry entryId { entry with password := value, modifiedAt := now } now
  | none => v.addEntry newId (newEntry domain value now) now

end Lookup

/-! ## What the scans find -/

section Scans

variable {v : SecretVault} {e : Entry} {id : Int64} {l : List EntrySummary} {p : Entry → Bool}
  {q : EntrySummary → Bool} {r : Int64 × EntryRow} {s : EntrySummary}

open SecretVault

theorem getRaw_eq_some :
    v.getRaw id = some r ↔ r.1 = id ∧ v.entries.get? id = some r.2 ∧ r.2.isDeleted = false := by
  unfold getRaw
  rw [map_eq_some_iff]
  constructor
  · rintro ⟨row, hrow, rfl⟩
    rw [filter_eq_some_iff] at hrow
    exact ⟨rfl, hrow.1, by simpa using hrow.2⟩
  · rintro ⟨rfl, hget, hdel⟩
    exact ⟨r.2, filter_eq_some_iff.mpr ⟨hget, by simp [hdel]⟩, rfl⟩

theorem getEntry_eq_ok : v.getEntry id = .ok e ↔
      ∃ row, v.entries.get? id = some row ∧ row.isDeleted = false ∧ row.content = .readable e := by
  unfold getEntry decryptEntryRow
  cases hraw : v.getRaw id with
  | none =>
    simp only [reduceCtorEq, false_iff, not_exists, not_and]
    intro row hget hdel
    have hsome : v.getRaw id = some (id, row) := getRaw_eq_some.mpr ⟨rfl, hget, hdel⟩
    rw [hraw] at hsome
    cases hsome
  | some r =>
    obtain ⟨rfl, hget, hdel⟩ := getRaw_eq_some.mp hraw
    rw [hget]
    cases hc : r.2.content with
    | readable entry => simp [Except.map, hdel, hc]
    | summaryOnly => simp [Except.map, hc]
    | unreadable => simp [Except.map, hc]

theorem decryptEntryRow_eq_ok :
    decryptEntryRow r = .ok (id, e) ↔ r.1 = id ∧ r.2.content = .readable e := by
  unfold decryptEntryRow
  cases r.2.content <;> simp

theorem mem_listRaw : r ∈ v.listRaw ↔ v.getRaw r.1 = some r := by
  unfold listRaw
  rw [mem_insertionSort, mem_filter, Table.mem_rows, getRaw_eq_some]
  simp

instance : Std.Total idLe := ⟨fun a b => Int64.le_total a.1 b.1⟩

instance : IsTrans (Int64 × EntryRow) idLe := ⟨fun _ _ _ => Int64.le_trans⟩

instance : Std.Total titleLe := ⟨fun a b => textLe_total a.title b.title⟩

instance : IsTrans EntrySummary titleLe := ⟨fun _ _ _ => textLe_trans⟩

def Listable (v : SecretVault) : Prop :=
  ∀ id r, v.getRaw id = some r → r.2.content ≠ .unreadable

theorem rowToSummary_isOk : (∃ s, rowToSummary r = .ok s) ↔ r.2.content ≠ .unreadable := by
  unfold rowToSummary
  cases r.2.content <;> simp

theorem entryId_of_rowToSummary (h : rowToSummary r = .ok s) : s.entryId = r.1 := by
  unfold rowToSummary at h
  cases hc : r.2.content <;> rw [hc] at h <;> cases h <;> rfl

theorem listEntries_isOk : (∃ l, v.listEntries = .ok l) ↔ Listable v := by
  have hmap : (∃ l, v.listRaw.mapM rowToSummary = .ok l) ↔ Listable v := by
    rw [mapM_isOk]
    constructor
    · intro h id r hr
      have hid : r.1 = id := (getRaw_eq_some.mp hr).1
      exact rowToSummary_isOk.mp (h r (mem_listRaw.mpr (hid.symm ▸ hr)))
    · intro h r hr
      exact rowToSummary_isOk.mpr (h r.1 r (mem_listRaw.mp hr))
  rw [← hmap]
  constructor
  · rintro ⟨l, h⟩
    obtain ⟨entries, hentries, -⟩ := bind_ok h
    exact ⟨entries, hentries⟩
  · rintro ⟨entries, h⟩
    exact ⟨entries.insertionSort titleLe, by unfold listEntries; rw [h]; rfl⟩

/-- The entry under one id is listed no later than the entry under another. -/
def Listed (id : Int64) (title : Text) (id' : Int64) (title' : Text) : Prop :=
  textLe title title' ∧ (textLe title' title → id ≤ id')

theorem listEntries_ok (h : v.listEntries = .ok l) :
    (l.Pairwise fun a b => Listed a.entryId a.title b.entryId b.title) ∧
      ∀ s, s ∈ l ↔ ∃ r, v.getRaw s.entryId = some r ∧ rowToSummary r = .ok s := by
  obtain ⟨entries, hentries, h⟩ := bind_ok h
  cases h
  constructor
  · refine pairwise_insertionSort_thenBy (r := titleLe)
      ?_
    have hids : entries.map EntrySummary.entryId = v.listRaw.map Prod.fst :=
      map_of_mapM_ok (fun _ _ => entryId_of_rowToSummary) hentries
    have hsorted : (v.listRaw.map Prod.fst).Pairwise (· ≤ ·) :=
      pairwise_map.mpr (pairwise_insertionSort idLe _)
    rw [← hids] at hsorted
    exact pairwise_map.mp hsorted
  · intro s
    rw [mem_insertionSort, mem_of_mapM_ok hentries]
    constructor
    · rintro ⟨r, hr, hs⟩
      rw [entryId_of_rowToSummary hs]
      exact ⟨r, mem_listRaw.mp hr, hs⟩
    · rintro ⟨r, hr, hs⟩
      rw [entryId_of_rowToSummary hs] at hr
      exact ⟨r, mem_listRaw.mpr hr, hs⟩

theorem summary_of_getEntry (h : v.listEntries = .ok l) (he : v.getEntry id = .ok e) :
    ⟨id, e.title, e.username, e.credentialType, e.favorite⟩ ∈ l ∧
      ∀ s ∈ l, s.entryId = id → s.title = e.title ∧ s.credentialType = e.credentialType := by
  obtain ⟨row, hget, hdel, hc⟩ := getEntry_eq_ok.mp he
  have hraw : v.getRaw id = some (id, row) := getRaw_eq_some.mpr ⟨rfl, hget, hdel⟩
  have hrow : rowToSummary (id, row)
      = .ok ⟨id, e.title, e.username, e.credentialType, e.favorite⟩ := by
    unfold rowToSummary
    rw [hc]
  refine ⟨((listEntries_ok h).2 _).mpr ⟨_, hraw, hrow⟩, ?_⟩
  rintro s hs rfl
  obtain ⟨r, hr, hsum⟩ := ((listEntries_ok h).2 s).mp hs
  rw [hraw] at hr
  cases hr
  rw [hrow] at hsum
  have hs := Except.ok.inj hsum
  exact ⟨(congrArg EntrySummary.title hs).symm, (congrArg EntrySummary.credentialType hs).symm⟩

/-- The first entry in the order of the listing of which `p` holds. -/
def FirstListed (v : SecretVault) (p : Entry → Bool) (id : Int64) (e : Entry) : Prop :=
  v.getEntry id = .ok e ∧ p e ∧
    ∀ id' e', v.getEntry id' = .ok e' → p e' → Listed id e.title id' e'.title

/-- A scan finds the first listed entry that it looks for. -/
theorem find?_listed (h : v.listEntries = .ok l)
    (hq : ∀ s ∈ l, q s ↔ ∃ e, v.getEntry s.entryId = .ok e ∧ p e) :
    l.find? q = some s → ∃ e, FirstListed v p s.entryId e := by
  intro hfind
  obtain ⟨hsorted, hmem⟩ := listEntries_ok h
  have hanti : ∀ a ∈ l, ∀ b ∈ l, Listed a.entryId a.title b.entryId b.title →
      Listed b.entryId b.title a.entryId a.title → a = b := by
    intro a ha b hb hab hba
    have hid : a.entryId = b.entryId := Int64.le_antisymm (hab.2 hba.1) (hba.2 hab.1)
    obtain ⟨ra, hra, hsa⟩ := (hmem a).mp ha
    obtain ⟨rb, hrb, hsb⟩ := (hmem b).mp hb
    rw [hid, hrb] at hra
    cases hra
    rw [hsb] at hsa
    cases hsa
    rfl
  obtain ⟨hs, hqs, hleast⟩ := (find?_eq_some_iff_least hsorted hanti).mp hfind
  obtain ⟨e, he, hpe⟩ := (hq s hs).mp hqs
  refine ⟨e, he, hpe, fun id' e' he' hpe' => ?_⟩
  obtain ⟨hs', -⟩ := summary_of_getEntry h he'
  have hq' := (hq _ hs').mpr ⟨e', he', hpe'⟩
  have htitle : s.title = e.title := ((summary_of_getEntry h he).2 s hs rfl).1
  rcases hleast _ hs' hq' with heq | hle
  · subst heq
    rw [he'] at he
    cases he
    exact ⟨(textLe_total _ _).elim id id, fun _ => Int64.le_refl _⟩
  · rw [htitle] at hle
    exact hle

theorem FirstListed.unique {id' e'} (h : FirstListed v p id e) (h' : FirstListed v p id' e') :
    id = id' ∧ e = e' := by
  have hle := h.2.2 id' e' h'.1 h'.2.1
  have hge := h'.2.2 id e h.1 h.2.1
  have hid : id = id' := Int64.le_antisymm (hle.2 hge.1) (hge.2 hle.1)
  subst hid
  exact ⟨rfl, Except.ok.inj (h.1.symm.trans h'.1)⟩

section

variable (h : v.listEntries = .ok l) (hq : ∀ s ∈ l, q s ↔ ∃ e, v.getEntry s.entryId = .ok e ∧ p e)

include h hq

theorem find?_listed_none (hfind : l.find? q = none) (he : v.getEntry id = .ok e) : ¬ p e := by
  intro hpe
  obtain ⟨hs, -⟩ := summary_of_getEntry h he
  exact find?_eq_none.mp hfind _ hs ((hq _ hs).mpr ⟨e, he, hpe⟩)

theorem find?_of_first (he : FirstListed v p id e) : ∃ s, l.find? q = some s ∧ s.entryId = id := by
  cases hfind : l.find? q with
  | none => exact absurd he.2.1 (find?_listed_none h hq hfind he.1)
  | some s =>
    obtain ⟨e', he'⟩ := find?_listed h hq hfind
    exact ⟨s, rfl, (he'.unique he).1⟩

end

end Scans

section Found

variable {E : DomainEnv} {v : SecretVault} {domain : Text} {l : List EntrySummary}

/-- The entry a value is written to. -/
abbrev Picked (E : DomainEnv) (v : SecretVault) (domain : Text) (id : Int64) (e : Entry) : Prop :=
  FirstListed v (related E domain) id e

def scannable (E : DomainEnv) (domain : Text) (e : Entry) : Bool :=
  isRetrievableSecret e.credentialType && e.url.any (domainsMatch E domain)

/-- The entry the scan of a request finds. -/
abbrev Scanned (E : DomainEnv) (v : SecretVault) (domain : Text) (id : Int64) (e : Entry) : Prop :=
  FirstListed v (scannable E domain) id e

variable {s : EntrySummary}

theorem isSaveTarget_eq_true :
    isSaveTarget E v domain s ↔ ∃ e, v.getEntry s.entryId = .ok e ∧ related E domain e := by
  unfold isSaveTarget
  cases v.getEntry s.entryId <;> simp

/-- A secret with a related URL and the username that is asked for. -/
def scannableBy (E : DomainEnv) (domain : Text) (username : Option Text) (e : Entry) : Bool :=
  scannable E domain e && usernameMatches username e.username

theorem scannableBy_none : scannableBy E domain none = scannable E domain :=
  funext fun e => Bool.and_true (scannable E domain e)

variable {username : Option Text}

theorem scanEntry_eq_some (h : v.listEntries = .ok l) (hs : s ∈ l) {r} :
    scanEntry E v domain username s = some r ↔
      v.getEntry s.entryId = .ok r.2 ∧ s.entryId = r.1 ∧ scannableBy E domain username r.2 := by
  unfold scanEntry
  cases he : v.getEntry s.entryId with
  | error e => simp
  | ok e =>
    have htype := ((summary_of_getEntry h he).2 s hs rfl).2
    simp only [htype, Except.ok.injEq, scannableBy, scannable, Bool.and_eq_true, and_assoc]
    constructor
    · intro hr
      split at hr
      · next ht =>
        split at hr
        · next hu =>
          cases hr
          exact ⟨rfl, rfl, ht, hu⟩
        · cases hr
      · cases hr
    · rintro ⟨rfl, hid, ht, hu⟩
      rw [if_pos ht, if_pos hu, hid]

theorem scan_eq_some (h : v.listEntries = .ok l) {id e} :
    l.findSome? (scanEntry E v domain username) = some (id, e) ↔
      FirstListed v (scannableBy E domain username) id e := by
  have hq : ∀ s ∈ l, (scanEntry E v domain username s).isSome ↔
      ∃ e, v.getEntry s.entryId = .ok e ∧ scannableBy E domain username e := by
    intro s hs
    rw [isSome_iff_exists]
    constructor
    · rintro ⟨r, hr⟩
      obtain ⟨he, -, hp⟩ := (scanEntry_eq_some h hs).mp hr
      exact ⟨r.2, he, hp⟩
    · rintro ⟨e, he, hp⟩
      exact ⟨(s.entryId, e), (scanEntry_eq_some h hs).mpr ⟨he, rfl, hp⟩⟩
  rw [findSome?_eq_bind_find?, bind_eq_some_iff]
  constructor
  · rintro ⟨s, hfind, hs⟩
    obtain ⟨e', he'⟩ := find?_listed h hq hfind
    obtain ⟨he, rfl, -⟩ := (scanEntry_eq_some h (mem_of_find?_eq_some hfind)).mp hs
    cases Except.ok.inj (he.symm.trans he'.1)
    exact he'
  · intro he
    obtain ⟨s, hfind, hid⟩ := find?_of_first h hq he
    exact ⟨s, hfind, (scanEntry_eq_some h (mem_of_find?_eq_some hfind)).mpr
      ⟨hid ▸ he.1, hid, he.2.1⟩⟩

end Found

end SentinelPass.Daemon
