import SentinelPass.Daemon.ExternalSecrets

/-!
# A tool reads what it wrote

`SaveSecret` writes to the first listed entry whose URL or title is related to the
domain, of whatever type, and `GetExternalSecret` is served from the index, or else
from the first listed secret whose URL is related. The two need not be one entry.
-/

namespace SentinelPass.Daemon

open Lib List Option SecretVault Table

/-! ## What a write does to the vault -/

section Written

variable {E : DomainEnv} {v v' : SecretVault} {domain value : Text} {newId : Int64}
  {stamp : Timestamp}

/-- The vault after a write: `id` holds `e` and the other rows are as they were. -/
structure Written (v v' : SecretVault) (id : Int64) (e : Entry) : Prop where
  tagKey : v'.tagKey = v.tagKey
  mappings : v'.mappings = v.mappings
  here : v'.getEntry id = .ok e
  others : ∀ id', id' ≠ id → v'.entries.get? id' = v.entries.get? id'

variable {e : Entry} {id : Int64}

theorem updateEntry_isOk : (∃ v', v.updateEntry id e stamp = .ok v') ↔
      ∃ row, v.entries.get? id = some row ∧ row.updatable := by
  unfold updateEntry
  cases v.entries.get? id with
  | none => simp
  | some row => by_cases hup : row.updatable <;> simp [hup]

theorem Written.update {e' : Entry} (he : v.getEntry id = .ok e')
    (h : v.updateEntry id e stamp = .ok v') :
    Written v v' id { e with modifiedAt := stamp } := by
  obtain ⟨row, hget, hdel, -⟩ := getEntry_eq_ok.mp he
  unfold updateEntry at h
  rw [hget] at h
  dsimp only at h
  split at h
  · cases h
    refine ⟨rfl, rfl, getEntry_eq_ok.mpr ⟨⟨.readable { e with modifiedAt := stamp },
      row.isDeleted, row.updatable⟩, ?_, hdel, rfl⟩, fun id' hne => ?_⟩
    · rw [get?_update, if_pos rfl, hget]
      rfl
    · rw [get?_update, if_neg hne]
  · cases h

theorem addEntry_isOk :
    (∃ v', v.addEntry newId e stamp = .ok v') ↔ v.entries.get? newId = none := by
  rw [get?_eq_none]
  unfold addEntry
  by_cases hnew : newId ∈ v.entries.rows.map Prod.fst <;> simp [hnew]

theorem Written.add (h : v.addEntry newId e stamp = .ok v') :
    Written v v' newId { e with modifiedAt := stamp } := by
  unfold addEntry at h
  split at h
  · cases h
  · cases h
    refine ⟨rfl, rfl, getEntry_eq_ok.mpr ⟨⟨.readable { e with modifiedAt := stamp }, false, true⟩,
      ?_, rfl, rfl⟩, fun id' hne => ?_⟩
    · rw [get?_append, if_pos rfl]
    · rw [get?_append, if_neg hne]

/-- A value goes to the first listed entry that the scan accepts, or to a new one. -/
def saveBy (v : SecretVault) (accepts : EntrySummary → Bool) (rewrite : Entry → Entry)
    (fresh : Entry) (newId : Int64) (now : Timestamp) : Except VaultError SecretVault := do
  let entries ← v.listEntries
  match (entries.find? accepts).map EntrySummary.entryId with
  | some entryId => do
    let entry ← v.getEntry entryId
    v.updateEntry entryId (rewrite entry) now
  | none => v.addEntry newId fresh now

variable {accepts : EntrySummary → Bool} {p : Entry → Bool} {rewrite rewrite' : Entry → Entry}
  {fresh fresh' : Entry}

theorem saveBy_of_first (hp : ∀ s, accepts s ↔ ∃ e, v.getEntry s.entryId = .ok e ∧ p e)
    (hlist : Listable v) (h : FirstListed v p id e) :
    saveBy v accepts rewrite fresh newId stamp = v.updateEntry id (rewrite e) stamp := by
  obtain ⟨entries, hentries⟩ := listEntries_isOk.mpr hlist
  obtain ⟨s, hfind, rfl⟩ := find?_of_first hentries (fun s _ => hp s) h
  simp only [saveBy, hentries, ok_bind, hfind, map_some, h.1]

theorem saveBy_ok (hp : ∀ s, accepts s ↔ ∃ e, v.getEntry s.entryId = .ok e ∧ p e)
    (h : saveBy v accepts rewrite fresh newId stamp = .ok v') :
    Listable v ∧ ((∃ id e, FirstListed v p id e ∧ v.updateEntry id (rewrite e) stamp = .ok v') ∨
      (∀ id e, v.getEntry id = .ok e → ¬ p e) ∧ v.addEntry newId fresh stamp = .ok v') := by
  obtain ⟨entries, hentries, h⟩ := bind_ok h
  refine ⟨listEntries_isOk.mp ⟨entries, hentries⟩, ?_⟩
  cases hfind : entries.find? accepts with
  | none =>
    rw [hfind] at h
    exact .inr ⟨fun id e => find?_listed_none hentries (fun s _ => hp s) hfind, h⟩
  | some s =>
    rw [hfind] at h
    obtain ⟨e, he⟩ := find?_listed hentries (fun s _ => hp s) hfind
    obtain ⟨e', he', h⟩ := bind_ok h
    cases Except.ok.inj (he.1.symm.trans he')
    exact .inl ⟨s.entryId, e, he, h⟩

/-- Whether a value can be saved does not depend on the value. -/
theorem saveBy_isOk (h : saveBy v accepts rewrite fresh newId stamp = .ok v') :
    ∃ v'', saveBy v accepts rewrite' fresh' newId stamp = .ok v'' := by
  obtain ⟨entries, hentries, h⟩ := bind_ok h
  simp only [saveBy, hentries, ok_bind]
  cases hfind : entries.find? accepts with
  | none =>
    rw [hfind] at h
    exact addEntry_isOk.mpr (addEntry_isOk.mp ⟨v', h⟩)
  | some s =>
    rw [hfind] at h
    obtain ⟨e, he, h⟩ := bind_ok h
    simp only [map_some, he]
    exact updateEntry_isOk.mpr (updateEntry_isOk.mp ⟨v', h⟩)

theorem saveSecretValue_of_picked (hlist : Listable v) (h : Picked E v domain id e)
    (value newId stamp) :
    saveSecretValue E v domain value newId stamp
      = v.updateEntry id { e with password := value, modifiedAt := stamp } stamp :=
  saveBy_of_first (fun _ => isSaveTarget_eq_true) hlist h

theorem saveSecretValue_ok (h : saveSecretValue E v domain value newId stamp = .ok v') :
    Listable v ∧ ((∃ id e, Picked E v domain id e ∧
        Written v v' id { e with password := value, modifiedAt := stamp }) ∨
      (∀ id e, v.getEntry id = .ok e → ¬ related E domain e) ∧ v.entries.get? newId = none ∧
        Written v v' newId (newEntry domain value stamp)) := by
  obtain ⟨hlist, ⟨id, e, hp, h⟩ | ⟨hno, h⟩⟩ := saveBy_ok (fun _ => isSaveTarget_eq_true) h
  · exact ⟨hlist, .inl ⟨id, e, hp, Written.update hp.1 h⟩⟩
  · exact ⟨hlist, .inr ⟨hno, addEntry_isOk.mp ⟨v', h⟩, Written.add h⟩⟩

/-! ## The index and the scan after a write -/

theorem Written.getEntry_of_ne {id' : Int64} (h : Written v v' id e) (hne : id' ≠ id) :
    v'.getEntry id' = v.getEntry id' := by
  unfold getEntry getRaw
  rw [h.others id' hne]

section Frame

variable (h : Written v v' id e) (hold : v.entries.get? id = none ∨ ∃ old, v.getEntry id = .ok old)
include h hold

variable {id' : Int64} {q : Text} {r : Int64 × MappingRow}

theorem getEntry_frame (hthere : v.entries.get? id' ≠ none) :
    (∃ e', v'.getEntry id' = .ok e') ↔ ∃ e', v.getEntry id' = .ok e' := by
  by_cases hid : id' = id
  · subst hid
    exact iff_of_true ⟨e, h.here⟩ (hold.resolve_left hthere)
  · rw [h.getEntry_of_ne hid]

theorem getRaw_frame (hthere : v.entries.get? id' ≠ none) :
    (v'.getRaw id').isSome = (v.getRaw id').isSome := by
  by_cases hid : id' = id
  · subst hid
    obtain ⟨old, hold⟩ := hold.resolve_left hthere
    obtain ⟨r, hr, -⟩ := getEntry_eq_ok_iff_raw.mp hold
    obtain ⟨r', hr', -⟩ := getEntry_eq_ok_iff_raw.mp h.here
    rw [hr, hr']
    rfl
  · unfold getRaw
    rw [h.others id' hid]

theorem joined_frame (hr : r ∈ v.mappings.rows) : v'.joined r.2 = v.joined r.2 := by
  refine getRaw_frame h hold ?_
  rw [ne_eq, get?_eq_none, not_not]
  exact v.mapped r hr

theorem candidate_frame : Candidate E v' q r ↔ Candidate E v q r := by
  unfold Candidate
  rw [h.mappings, h.tagKey]
  exact and_congr_right fun hr => by rw [joined_frame h hold hr]

theorem tagIndexed_frame : TagIndexed E v' q id' ↔ TagIndexed E v q id' := by
  unfold TagIndexed
  simp only [candidate_frame h hold]

theorem legacyIndexed_frame : LegacyIndexed v' q id' ↔ LegacyIndexed v q id' := by
  unfold LegacyIndexed
  rw [h.mappings]
  refine exists_congr fun r => and_congr_right fun hr => ?_
  rw [joined_frame h hold hr]

omit h hold in
theorem there_of_raw (hsome : (v.getRaw id').isSome) : v.entries.get? id' ≠ none := by
  obtain ⟨r, hr⟩ := isSome_iff_exists.mp hsome
  rw [(getRaw_eq_some.mp hr).2.1]
  exact some_ne_none r.2

theorem indexOk_frame : IndexOk E v' domain ↔ IndexOk E v domain := by
  refine forall_congr' fun q => imp_congr_right fun _ => and_congr ?_ ?_
  · refine forall_congr' fun r => imp_congr (candidate_frame h hold) ?_
    unfold Intact
    rw [h.tagKey]
  · simp only [tagIndexed_frame h hold, legacyIndexed_frame h hold]
    refine forall_congr' fun id' => imp_congr_right fun hidx => getEntry_frame h hold ?_
    exact there_of_raw (hidx.elim joined_of_tagIndexed joined_of_legacyIndexed)

variable {username : Option Text}
  (hsame : ∀ old, v.getEntry id = .ok old → servable username e = servable username old)
include hsame

theorem holdsFor_frame (hthere : v.entries.get? id' ≠ none) :
    HoldsFor v' username id' ↔ HoldsFor v username id' := by
  unfold HoldsFor
  by_cases hid : id' = id
  · subst hid
    obtain ⟨old, hold⟩ := hold.resolve_left hthere
    simp [h.here, hold, hsame old hold]
  · rw [h.getEntry_of_ne hid]

theorem deliveredTo_frame :
    DeliveredTo E v' domain username id' ↔ DeliveredTo E v domain username id' := by
  have htag : ∀ {q id'}, TagIndexed E v q id' →
    (HoldsFor v' username id' ↔ HoldsFor v username id') :=
    fun ht => holdsFor_frame h hold hsame (there_of_raw (joined_of_tagIndexed ht))
  have hleg : ∀ {q id'}, LegacyIndexed v q id' →
    (HoldsFor v' username id' ↔ HoldsFor v username id') :=
    fun hl => holdsFor_frame h hold hsame (there_of_raw (joined_of_legacyIndexed hl))
  unfold DeliveredTo
  simp only [tagIndexed_frame h hold, legacyIndexed_frame h hold]
  refine exists_congr fun q => and_congr_right fun _ => ?_
  constructor
  · rintro ⟨hsecret, ht | ⟨hl, hno⟩⟩
    · exact ⟨(htag ht).mp hsecret, .inl ht⟩
    · exact ⟨(hleg hl).mp hsecret, .inr ⟨hl, fun id'' ht => mt (htag ht).mpr (hno id'' ht)⟩⟩
  · rintro ⟨hsecret, ht | ⟨hl, hno⟩⟩
    · exact ⟨(htag ht).mpr hsecret, .inl ht⟩
    · exact ⟨(hleg hl).mpr hsecret, .inr ⟨hl, fun id'' ht => mt (htag ht).mp (hno id'' ht)⟩⟩

omit hold hsame in
theorem listable_frame (hlist : Listable v) : Listable v' := by
  intro id' r hr
  by_cases hid : id' = id
  · subst hid
    obtain ⟨r', hr', hopen⟩ := getEntry_eq_ok_iff_raw.mp h.here
    rw [hr] at hr'
    cases hr'
    rw [(decryptEntryRow_eq_ok.mp hopen).2]
    exact fun hc => by cases hc
  · refine hlist id' r ?_
    rw [← hr]
    unfold getRaw
    rw [h.others id' hid]

end Frame

end Written

/-! ## Writing to the first entry that fits

Both ways to save write to the first listed entry that fits, or add one, and are read back
through `findCredential`. -/

/-- How a value is saved, and with which username it is asked for. -/
structure Saving (E : DomainEnv) (domain : Text) (username : Option Text) where
  fits : Entry → Bool
  rewrite : Text → Entry → Entry
  fresh : Text → Entry
  /-- The scan finds a rewritten entry, and a new one. -/
  scans : Entry → Bool
  addScans : Bool
  password_rewrite : ∀ value e, (rewrite value e).password = value
  password_fresh : ∀ value, (fresh value).password = value
  title_rewrite : ∀ value e, (rewrite value e).title = e.title
  servable_rewrite : ∀ value e, servable username (rewrite value e) = servable username e
  fits_of_scannable : ∀ e, scannableBy E domain username e → fits e
  scannable_rewrite : ∀ value e, fits e → scannableBy E domain username (rewrite value e) = scans e
  scannable_fresh : ∀ value, scannableBy E domain username (fresh value) = addScans

namespace Saving

variable {E : DomainEnv} {domain : Text} {username : Option Text} (S : Saving E domain username)
  {v v' : SecretVault} {newId : Int64} {value : Text}

/-- The value is saved: in the first entry that fits, or in a new one. -/
def Saved (v v' : SecretVault) (newId : Int64) (value : Text) : Prop :=
  (∃ id e, FirstListed v S.fits id e ∧ Written v v' id (S.rewrite value e)) ∨
    (∀ id e, v.getEntry id = .ok e → ¬ S.fits e) ∧ v.entries.get? newId = none ∧
      Written v v' newId (S.fresh value)

/-- The lookup does not fail; an entry that the index serves is the one that is written;
and if it serves none, the written entry is found by the scan. -/
structure Agrees (v : SecretVault) : Prop where
  index : IndexOk E v domain
  delivered : ∀ id, DeliveredTo E v domain username id → ∃ e, FirstListed v S.fits id e
  scanned : (∀ id, ¬ DeliveredTo E v domain username id) →
    ∀ id e, FirstListed v S.fits id e → S.scans e
  added : (∀ id e, v.getEntry id = .ok e → ¬ S.fits e) → S.addScans

variable {S}

/-- The entry that was written, and what it was before. -/
theorem Saved.written (h : S.Saved v v' newId value) :
    ∃ id e, Written v v' id e ∧ e.password = value ∧
      (v.entries.get? id = none ∨ ∃ old, v.getEntry id = .ok old) ∧
      (∀ old, v.getEntry id = .ok old → servable username e = servable username old) ∧
      ((∃ old, FirstListed v S.fits id old ∧ e = S.rewrite value old) ∨
        (∀ id e, v.getEntry id = .ok e → ¬ S.fits e) ∧ v.entries.get? id = none ∧
          e = S.fresh value) := by
  rcases h with ⟨id, e, hp, hw⟩ | ⟨hno, hnew, hw⟩
  · refine ⟨id, _, hw, S.password_rewrite value e, .inr ⟨e, hp.1⟩, ?_, .inl ⟨e, hp, rfl⟩⟩
    intro old hold
    cases Except.ok.inj (hp.1.symm.trans hold)
    exact S.servable_rewrite value e
  · refine ⟨newId, _, hw, S.password_fresh value, .inl hnew, ?_, .inr ⟨hno, hnew, rfl⟩⟩
    intro old hold
    obtain ⟨row, hget, -⟩ := getEntry_eq_ok.mp hold
    rw [hnew] at hget
    cases hget

theorem listed_self {id e} (he : v.getEntry id = .ok e) {id' e'} (he' : v.getEntry id' = .ok e')
    (hid : id' = id) : Listed id e.title id' e'.title := by
  subst hid
  cases Except.ok.inj (he.symm.trans he')
  exact ⟨(textLe_total _ _).elim id id, fun _ => Int64.le_refl _⟩

/-- The written entry is the first that the scan finds, if it finds it at all. -/
theorem scanned_of_written {id : Int64} {e : Entry} (hw : Written v v' id e)
    (hkind : (∃ old, FirstListed v S.fits id old ∧ e = S.rewrite value old) ∨
      (∀ id e, v.getEntry id = .ok e → ¬ S.fits e) ∧ v.entries.get? id = none ∧ e = S.fresh value)
    (hscan : scannableBy E domain username e) :
    FirstListed v' (scannableBy E domain username) id e := by
  refine ⟨hw.here, hscan, fun id' e' he' hscan' => ?_⟩
  by_cases hid : id' = id
  · exact listed_self hw.here he' hid
  · rw [hw.getEntry_of_ne hid] at he'
    have hfits := S.fits_of_scannable e' hscan'
    rcases hkind with ⟨old, hp, rfl⟩ | ⟨hno, -⟩
    · rw [S.title_rewrite]
      exact hp.2.2 id' e' he' hfits
    · exact absurd hfits (hno id' e' he')

theorem served_of_agrees (hagree : S.Agrees v) (hlist : Listable v)
    (hsaved : S.Saved v v' newId value) (order : MapOrder (Int64 × MappingRow)) :
    ∃ id e, findCredential E v' order domain username = .ok (some (id, e)) ∧
    e.password = value := by
  obtain ⟨id, e, hw, hvalue, hold, hsame, hkind⟩ := hsaved.written
  have hok := (indexOk_frame hw hold).mpr hagree.index
  by_cases hd : ∃ id', DeliveredTo E v domain username id'
  · obtain ⟨id', hd⟩ := hd
    obtain ⟨id'', e'', hfind, hd'', he''⟩ :=
      findCredential_of_delivered hok ((deliveredTo_frame hw hold hsame).mpr hd) order
    obtain ⟨old, hp⟩ := hagree.delivered id'' ((deliveredTo_frame hw hold hsame).mp hd'')
    obtain rfl : id'' = id := by
      rcases hkind with ⟨old', hp', -⟩ | ⟨hno, -⟩
      · exact (hp.unique hp').1
      · exact absurd hp.2.1 (hno id'' old hp.1)
    rw [hw.here] at he''
    cases he''
    exact ⟨id'', e, hfind, hvalue⟩
  · have hno : ∀ id', ¬ DeliveredTo E v domain username id' := fun id' h => hd ⟨id', h⟩
    obtain ⟨entries, hentries⟩ := listEntries_isOk.mpr (listable_frame hw hlist)
    have hscan : scannableBy E domain username e := by
      rcases hkind with ⟨old, hp, rfl⟩ | ⟨hnone, -, rfl⟩
      · rw [S.scannable_rewrite value old hp.2.1]
        exact hagree.scanned hno id old hp
      · rw [S.scannable_fresh]
        exact hagree.added hnone
    refine ⟨id, e, ?_, hvalue⟩
    rw [findCredential_of_not_delivered hok
        (fun id' => mt (deliveredTo_frame hw hold hsame).mp (hno id')) hentries order,
      (scan_eq_some hentries).mpr (scanned_of_written hw hkind hscan)]

def storedPassword (r : Int64 × EntryRow) : Text :=
  match r.2.content with
  | .readable e => e.password
  | _ => []

theorem exists_fresh_value (v : SecretVault) :
    ∃ value, ∀ id e, v.getEntry id = .ok e → e.password ≠ value := by
  refine ⟨'x' :: v.entries.rows.flatMap storedPassword, fun id e he heq => ?_⟩
  obtain ⟨row, hget, -, hc⟩ := getEntry_eq_ok.mp he
  have hpw : storedPassword (id, row) = e.password := by
    simp only [storedPassword, hc]
  have hle := (sublist_flatten_of_mem
    (mem_map_of_mem (f := storedPassword) (mem_rows.mpr hget))).length_le
  rw [hpw, heq, ← flatMap_def, length_cons] at hle
  omega

/-- With a value that no entry holds, whatever is served after the write is the entry that
was written. -/
theorem agrees_of_served (hfresh : ∀ id e, v.getEntry id = .ok e → e.password ≠ value)
    (hsaved : S.Saved v v' newId value)
    (hserved : ∀ order, ∃ id e,
      findCredential E v' order domain username = .ok (some (id, e)) ∧ e.password = value) :
    S.Agrees v := by
  obtain ⟨w, we, hw, -, hold, hsame, hkind⟩ := hsaved.written
  have hwritten : ∀ order id e, findCredential E v' order domain username = .ok (some (id, e)) →
      id = w := by
    intro order id e hfind
    obtain ⟨id', e', hfind', hvalue⟩ := hserved order
    cases Except.ok.inj (hfind.symm.trans hfind')
    by_contra hne
    have he := (findCredential_some hfind).1
    rw [hw.getEntry_of_ne hne] at he
    exact hfresh id e he hvalue
  obtain ⟨id, e, hfind, -⟩ := hserved .insertion
  obtain rfl := hwritten .insertion id e hfind
  obtain ⟨he, hok, hsel⟩ := findCredential_some hfind
  cases Except.ok.inj (hw.here.symm.trans he)
  refine ⟨(indexOk_frame hw hold).mp hok, fun id' hd => ?_, fun hno id' e' hp => ?_,
    fun hnone => ?_⟩
  · -- the mapping comes first in some order
    obtain ⟨order, e', hfirst⟩ :=
      findCredential_first hok ((deliveredTo_frame hw hold hsame).mpr hd)
    obtain rfl := hwritten order id' e' hfirst
    obtain ⟨q, -, ⟨old, hold, -⟩, -⟩ := hd
    rcases hkind with ⟨old', hp, -⟩ | ⟨-, hnone, -⟩
    · exact ⟨old', hp⟩
    · obtain ⟨row, hget, -⟩ := getEntry_eq_ok.mp hold
      rw [hnone] at hget
      cases hget
  · rcases hkind with ⟨old, hp', rfl⟩ | ⟨hnone, -⟩
    · obtain ⟨rfl, rfl⟩ := hp.unique hp'
      rcases hsel with hd | ⟨-, -, hscan⟩
      · exact absurd ((deliveredTo_frame hw hold hsame).mp hd) (hno _)
      rw [← S.scannable_rewrite value e' hp.2.1]
      exact hscan.2.1
    · exact absurd hp.2.1 (hnone id' e' hp.1)
  · rcases hkind with ⟨old, hp, -⟩ | ⟨-, hnew, rfl⟩
    · exact absurd hp.2.1 (hnone id old hp.1)
    rcases hsel with hd | ⟨-, -, hscan⟩
    · -- no mapping refers to a row that was not there
      obtain ⟨q, -, -, hidx⟩ := (deliveredTo_frame hw hold hsame).mp hd
      exact absurd hnew (there_of_raw
        (hidx.elim joined_of_tagIndexed fun hl => joined_of_legacyIndexed hl.1))
    · rw [← S.scannable_fresh value]
      exact hscan.2.1

end Saving

/-! ## Reading back -/

section ReadBack

variable {E : DomainEnv} {s : SecretDaemon} {v : SecretVault} {r : SecretRequest}
  {now now' : DateTime}

def ReadsOwnWrites (E : DomainEnv) (s : SecretDaemon) (r : SecretRequest) (now now' : DateTime) :
    Prop :=
  ∀ value newId stamp order s', saveSecret E s r value newId stamp now = (⟨true, none, none⟩, s') →
    (getExternalSecret E s' r .password order now').value = some value

/-- The domain has a host and its lookup does not fail; a secret that the index has is
the entry a value is written to; and if the index has none, the entry a value is
written to is a secret with a related URL. -/
structure Agrees (E : DomainEnv) (v : SecretVault) (domain : Text) : Prop where
  host : (normalizeHost E domain).isSome
  index : IndexOk E v domain
  delivered : ∀ id, Delivered E v domain id → ∃ e, Picked E v domain id e
  scanned : (∀ id, ¬ Delivered E v domain id) →
    ∀ id e, Picked E v domain id e → scannable E domain e

variable {domain : Text}

theorem related_of_scannable {e : Entry} (h : scannable E domain e) : related E domain e := by
  unfold scannable at h
  unfold related
  rw [Bool.and_eq_true] at h
  rw [Bool.or_eq_true]
  exact .inl h.2

/-- `save_secret_value`. -/
def secretSaving (E : DomainEnv) (domain : Text) (stamp : Timestamp) : Saving E domain none where
  fits := related E domain
  rewrite value e := { e with password := value, modifiedAt := stamp }
  fresh value := newEntry domain value stamp
  scans := scannable E domain
  addScans := (normalizeHost E domain).isSome
  password_rewrite _ _ := rfl
  password_fresh _ := rfl
  title_rewrite _ _ := rfl
  servable_rewrite _ _ := rfl
  fits_of_scannable e h := related_of_scannable (by rwa [scannableBy_none] at h)
  scannable_rewrite value e _ := by rw [scannableBy_none]; rfl
  scannable_fresh value := by
    rw [scannableBy_none, Bool.eq_iff_iff]
    exact domainsMatch_self

theorem secretSaving_agrees (stamp) :
    (secretSaving E domain stamp).Agrees v ↔ Agrees E v domain := by
  constructor
  · intro h
    refine ⟨?_, h.index, fun id hd => h.delivered id (deliveredTo_none.mpr hd),
      fun hno => h.scanned fun id => mt deliveredTo_none.mp (hno id)⟩
    -- without a host, no entry is related to the domain
    by_contra hnone
    refine hnone (h.added fun id e _ hrel => ?_)
    have hmatch : ∀ other, domainsMatch E domain other = true →
        (normalizeHost E domain).isSome := by
      intro other hother
      obtain ⟨host, -, hhost, -⟩ := domainsMatch_eq_true.mp hother
      rw [hhost]
      rfl
    rcases Bool.or_eq_true _ _ ▸ hrel with hurl | htitle
    · obtain ⟨url, -, hurl⟩ := (any_eq_true _ _).mp hurl
      exact hnone (hmatch url hurl)
    · exact hnone (hmatch _ htitle)
  · intro h
    exact ⟨h.index, fun id hd => h.delivered id (deliveredTo_none.mp hd),
      fun hno => h.scanned fun id => mt deliveredTo_none.mpr (hno id), fun _ => h.host⟩

/-- A client that may read and write a domain, and whose write succeeds, reads back every
value it saves exactly if the two selections agree. -/
theorem reads_own_write_iff (hv : s.vault = some v) (hread : MayRead E s r .password now')
    (hsome : ∃ value newId stamp s', saveSecret E s r value newId stamp now
      = (⟨true, none, none⟩, s')) :
    ReadsOwnWrites E s r now now' ↔ Agrees E v r.domain := by
  obtain ⟨value₀, newId, stamp, s₀, hsome⟩ := hsome
  obtain ⟨hwrite, v₀, hsave₀, -⟩ := (saveSecret_success hv).mp hsome
  constructor
  · intro hown
    obtain ⟨value, hfresh⟩ := Saving.exists_fresh_value v
    obtain ⟨v', hsave⟩ : ∃ v', saveSecretValue E v r.domain value newId stamp = .ok v' :=
      saveBy_isOk hsave₀
    refine (secretSaving_agrees stamp).mp (Saving.agrees_of_served hfresh
      (saveSecretValue_ok hsave).2 fun order => ?_)
    have hx := hown value newId stamp order { s with vault := some v' }
      ((saveSecret_success hv).mpr ⟨hwrite, v', hsave, rfl⟩)
    obtain ⟨-, id, e, hfind, hvalue⟩ := (getExternalSecret_eq_some rfl).mp hx
    exact ⟨id, e, hfind, hvalue.symm⟩
  · intro hagree value newId stamp order s' hs'
    obtain ⟨-, v', hsave, rfl⟩ := (saveSecret_success hv).mp hs'
    obtain ⟨id, e, hfind, hvalue⟩ := Saving.served_of_agrees
      ((secretSaving_agrees stamp).mpr hagree) (saveSecretValue_ok hsave).1
      (saveSecretValue_ok hsave).2 order
    exact (getExternalSecret_eq_some rfl).mpr ⟨hread, id, e, hfind, hvalue.symm⟩

def sampleDomains : DomainEnv where
  crypto := ⟨fun b => Vector.ofFn fun i : Fin 32 => b.getD i.val 0, fun key b =>
    Vector.ofFn fun i : Fin 32 => (key ++ b).getD i.val 0⟩
  hostStr t := ["https://".toList, "dummy://".toList].findSome? fun scheme =>
    if scheme.isPrefixOf t then some ((t.drop 8).takeWhile fun c => c ≠ '/' && c ≠ ':') else none

def oneLogin (title : Text) (url : Option Text) : SecretVault where
  tagKey := []
  entries := ⟨[(1, ⟨.readable ⟨title, "me".toList, "old".toList, url, none, .password, 0, false⟩,
    false, true⟩)], nodup_singleton _⟩
  mappings := .empty
  mapped _ h := absurd h not_mem_nil

def sampleRequest (domain : Text) : SecretRequest := ⟨"ci".toList, none, domain⟩

/-- The client `ci` may read and write the password of the domain. -/
def sampleDaemon (v : SecretVault) (domain : Text) : SecretDaemon where
  requireStepup := false
  vault := some v
  allowlist := some ⟨[⟨"ci".toList, domain, .password, none, true⟩], .empty⟩

theorem not_deliveredTo_of_no_mapping {username} (h : v.mappings.rows = []) (id) :
    ¬ DeliveredTo E v domain username id := by
  rintro ⟨q, -, -, ⟨x, -, hx, -⟩ | ⟨⟨x, hx, -⟩, -⟩⟩
  · exact absurd (h ▸ hx.1) not_mem_nil
  · exact absurd (h ▸ hx) not_mem_nil

theorem not_delivered_of_no_mapping (h : v.mappings.rows = []) (id : Int64) :
    ¬ Delivered E v domain id :=
  mt deliveredTo_none.mpr (not_deliveredTo_of_no_mapping h id)

theorem indexOk_of_no_mapping (h : v.mappings.rows = []) : IndexOk E v domain := by
  refine fun q _ => ⟨fun x hx => absurd (h ▸ hx.1) not_mem_nil, fun id hid => ?_⟩
  rcases hid with ⟨x, -, hx, -⟩ | ⟨x, hx, -⟩
  · exact absurd (h ▸ hx.1) not_mem_nil
  exact absurd (h ▸ hx) not_mem_nil

theorem reads_own_write_iff_url : ReadsOwnWrites sampleDomains
        (sampleDaemon (oneLogin "T".toList (some "https://a.io".toList)) "a.io".toList)
        (sampleRequest "a.io".toList) 0 0 ∧
      Agrees sampleDomains (oneLogin "T".toList (some "https://a.io".toList)) "a.io".toList := by
  have hagree : Agrees sampleDomains (oneLogin "T".toList (some "https://a.io".toList))
      "a.io".toList := by
    refine ⟨by decide +kernel, indexOk_of_no_mapping rfl,
      fun id hd => absurd hd (not_delivered_of_no_mapping rfl id), fun _ id e hp => ?_⟩
    obtain ⟨row, hget, -, hc⟩ := getEntry_eq_ok.mp hp.1
    rw [← mem_rows] at hget
    cases mem_singleton.mp hget
    cases hc
    decide +kernel
  have hsaved : saveSecret sampleDomains
      (sampleDaemon (oneLogin "T".toList (some "https://a.io".toList)) "a.io".toList)
      (sampleRequest "a.io".toList) "new".toList 2 5 0 = (⟨true, none, none⟩, _) :=
    Prod.ext (by decide +kernel) rfl
  exact ⟨(reads_own_write_iff rfl ⟨rfl, _, rfl, by decide +kernel, by decide +kernel⟩
    ⟨"new".toList, 2, 5, _, hsaved⟩).mpr hagree, hagree⟩

/-- The title names the domain and there is no URL: the value overwrites the password of
the login, and the client that wrote it is answered that there is none. -/
theorem saved_value_not_read :
    (saveSecret sampleDomains (sampleDaemon (oneLogin "a.io".toList none) "a.io".toList)
        (sampleRequest "a.io".toList) "new".toList 2 5 0).1 = ⟨true, none, none⟩ ∧
      ∃ s', (saveSecret sampleDomains (sampleDaemon (oneLogin "a.io".toList none) "a.io".toList)
          (sampleRequest "a.io".toList) "new".toList 2 5 0).2 = s' ∧
        (s'.vault.bind fun v => (v.getEntry 1).toOption.map Entry.password) = some "new".toList ∧
        MayRead sampleDomains s' (sampleRequest "a.io".toList) .password 0 ∧
        getExternalSecret sampleDomains s' (sampleRequest "a.io".toList) .password .insertion 0
          = ⟨none, true, none, none⟩ := by
  refine ⟨by decide +kernel, _, rfl, by decide +kernel, ⟨by decide +kernel, ?_⟩, by decide +kernel⟩
  exact ⟨⟨[⟨"ci".toList, "a.io".toList, .password, none, true⟩], .empty⟩, rfl, by decide +kernel,
    by decide +kernel⟩

end ReadBack

end SentinelPass.Daemon
