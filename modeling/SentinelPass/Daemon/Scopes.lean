import SentinelPass.Daemon.ReadBack

/-!
# The entries of a scope

A grant is for a domain and compared as a text, but the entry is then found through
`domainsMatch`, which relates a host to its subdomains and to its parents. An entry is
bound to a domain if its URL, its title or a mapping has the host of the domain.
-/

namespace SentinelPass.Daemon

open Lib List

/-- The URL, the title or a mapping of the entry has the host of the domain. -/
def Bound (E : DomainEnv) (v : SecretVault) (domain : Text) (id : Int64) : Prop :=
  ∃ host, normalizeHost E domain = some host ∧ ((∃ e, v.getEntry id = .ok e ∧
        (normalizeHost E e.title = some host ∨ ∃ url ∈ e.url, normalizeHost E url = some host)) ∨
      ∃ r ∈ v.mappings.rows, r.2.entryId = id ∧
        ((∃ d, r.2.domainEnc = .opens d ∧ normalizeHost E d = some host) ∨
          r.2.domainEnc = .absent ∧ normalizeHost E r.2.domain = some host))

section Scopes

variable {E : DomainEnv} {s : SecretDaemon} {v : SecretVault} {d : Text}

/-- Under grants for the domain, a value that is answered is a field of a bound entry, and
a write leaves every row of an entry that is not bound as it is. -/
structure ExactScopes (E : DomainEnv) (s : SecretDaemon) (v : SecretVault) (d : Text) : Prop where
  reads : ∀ r field order now x, normalizeDomain r.domain = some d →
    (getExternalSecret E s r field order now).value = some x →
    ∃ id e, findCredential E v order r.domain none = .ok (some (id, e)) ∧ x = e.field field ∧
      Bound E v d id
  writes : ∀ r value newId stamp now s', r.domain = d →
    saveSecret E s r value newId stamp now = (⟨true, none, none⟩, s') →
    ∃ v', s'.vault = some v' ∧ v'.mappings = v.mappings ∧
      ∀ id row, v.entries.get? id = some row → v'.entries.get? id = some row ∨ Bound E v d id

/-- The secrets that the index has are bound; if it has none, the secret that a scan finds
is bound. -/
def ReadExact (E : DomainEnv) (v : SecretVault) (d : Text) : Prop :=
  IndexOk E v d → (∀ id, Delivered E v d id → Bound E v d id) ∧
    ((∀ id, ¬ Delivered E v d id) → Listable v → ∀ id e, Scanned E v d id e → Bound E v d id)

/-- The entry that a value would be written to is bound. -/
def WriteExact (E : DomainEnv) (v : SecretVault) (d : Text) : Prop :=
  Listable v → ∀ id e row, Picked E v d id e → v.entries.get? id = some row → row.updatable →
    Bound E v d id

def ReadGranted (E : DomainEnv) (s : SecretDaemon) (d : Text) : Prop :=
  ∃ r field now, normalizeDomain r.domain = some d ∧ MayRead E s r field now

def WriteGranted (E : DomainEnv) (s : SecretDaemon) (d : Text) : Prop :=
  ∃ r now, r.domain = d ∧ MayWrite E s r now

theorem findCredential_congr {a b} (h : normalizeHost E a = normalizeHost E b) (order) :
    findCredential E v order a none = findCredential E v order b none := by
  have hindexed : findIndexed E v order a = findIndexed E v order b := by
    unfold findIndexed
    rw [h]
  have hscan : scanEntry E v a none = scanEntry E v b none := by
    unfold scanEntry
    rw [show domainsMatch E a = domainsMatch E b from funext (domainsMatch_congr h)]
  rw [findCredential_eq, findCredential_eq, hindexed, hscan]

theorem readExact_of_reads (hv : s.vault = some v) (h : ExactScopes E s v d)
    (hgrant : ReadGranted E s d) : ReadExact E v d := by
  obtain ⟨r, field, now, hd, hmay⟩ := hgrant
  have hbound : ∀ order id e, findCredential E v order d none = .ok (some (id, e)) →
      Bound E v d id := by
    intro order id e hfind
    rw [← findCredential_congr (normalizeHost_of_normalizeDomain hd)] at hfind
    have hvalue := (getExternalSecret_eq_some hv).mpr ⟨hmay, id, e, hfind, rfl⟩
    obtain ⟨id', e', hfind', -, hb⟩ := h.reads r field order now _ hd hvalue
    rw [hfind] at hfind'
    cases hfind'
    exact hb
  intro hok
  refine ⟨fun id hdel => ?_, fun hno hlist id e hscan => ?_⟩
  · obtain ⟨order, e, hfind⟩ := findCredential_first hok (deliveredTo_none.mpr hdel)
    exact hbound order id e hfind
  · obtain ⟨entries, hentries⟩ := listEntries_isOk.mpr hlist
    refine hbound .insertion id e ?_
    have hscan : FirstListed v (scannableBy E d none) id e := by rwa [scannableBy_none]
    rw [findCredential_of_not_delivered hok (fun id => mt deliveredTo_none.mp (hno id)) hentries,
      (scan_eq_some hentries).mpr hscan]

theorem writeExact_of_writes (hv : s.vault = some v) (h : ExactScopes E s v d)
    (hgrant : WriteGranted E s d) : WriteExact E v d := by
  obtain ⟨r, now, rfl, hmay⟩ := hgrant
  intro hlist id e row hp hget hup
  -- a value that the entry does not hold
  have hsave := saveSecretValue_of_picked hlist hp ('x' :: e.password) 0 0
  obtain ⟨v', hv'⟩ := updateEntry_isOk.mpr ⟨row, hget, hup⟩
  rw [hv'] at hsave
  obtain ⟨v'', hv'', -, hrows⟩ := h.writes r _ 0 0 now { s with vault := some v' } rfl
    ((saveSecret_success hv).mpr ⟨hmay, v', hsave, rfl⟩)
  cases hv''
  refine (hrows id row hget).resolve_left fun hsame => ?_
  have hhere := (Written.update hp.1 hv').here
  obtain ⟨row', hget', -, hc'⟩ := getEntry_eq_ok.mp hhere
  obtain ⟨row'', hget'', -, hc''⟩ := getEntry_eq_ok.mp hp.1
  rw [hsame] at hget'
  rw [hget] at hget''
  cases hget'
  cases hget''
  rw [hc'] at hc''
  have hpw : 'x' :: e.password = e.password :=
    congrArg Entry.password (RowContent.readable.inj hc'')
  exact absurd (congrArg length hpw) (by simp)

/-- A client is served from bound entries and writes to bound entries exactly if every
entry that its requests find is bound. -/
theorem scopes_exact_iff (hv : s.vault = some v) : ExactScopes E s v d ↔
      (ReadGranted E s d → ReadExact E v d) ∧ (WriteGranted E s d → WriteExact E v d) := by
  constructor
  · exact fun h => ⟨readExact_of_reads hv h, writeExact_of_writes hv h⟩
  · rintro ⟨hread, hwrite⟩
    refine ⟨fun r field order now x hd hx => ?_, fun r value newId stamp now s' hd hs' => ?_⟩
    · obtain ⟨hmay, id, e, hfind, hvalue⟩ := (getExternalSecret_eq_some hv).mp hx
      refine ⟨id, e, hfind, hvalue, ?_⟩
      rw [findCredential_congr (normalizeHost_of_normalizeDomain hd)] at hfind
      obtain ⟨-, hok, hsel⟩ := findCredential_some hfind
      rw [scannableBy_none] at hsel
      simp only [deliveredTo_none] at hsel
      obtain ⟨hdelivered, hscanned⟩ := hread ⟨r, field, now, hd, hmay⟩ hok
      rcases hsel with hdel | ⟨hno, hlist, hscan⟩
      · exact hdelivered id hdel
      · exact hscanned hno hlist id e hscan
    · subst hd
      obtain ⟨hmay, v', hsave, rfl⟩ := (saveSecret_success hv).mp hs'
      obtain ⟨hlist, hkind⟩ := saveSecretValue_ok hsave
      have hexact := hwrite ⟨r, now, rfl, hmay⟩ hlist
      refine ⟨v', rfl, ?_⟩
      rcases hkind with ⟨id, e, hp, hw⟩ | ⟨-, hnew, hw⟩
      · refine ⟨hw.mappings, fun id' row hget => ?_⟩
        by_cases hid : id' = id
        · subst hid
          rw [saveSecretValue_of_picked hlist hp] at hsave
          obtain ⟨row', hget', hup⟩ := updateEntry_isOk.mp ⟨v', hsave⟩
          exact .inr (hexact id' e row' hp hget' hup)
        · exact .inl ((hw.others id' hid).trans hget)
      · refine ⟨hw.mappings, fun id' row hget => .inl ?_⟩
        have hid : id' ≠ newId := by
          rintro rfl
          rw [hnew] at hget
          cases hget
        exact (hw.others id' hid).trans hget

theorem scopes_exact_iff_url : ExactScopes sampleDomains
      (sampleDaemon (oneLogin "T".toList (some "https://a.io".toList)) "a.io".toList)
      (oneLogin "T".toList (some "https://a.io".toList)) "a.io".toList := by
  have hbound : ∀ id e, (oneLogin "T".toList (some "https://a.io".toList)).getEntry id = .ok e →
      Bound sampleDomains (oneLogin "T".toList (some "https://a.io".toList)) "a.io".toList id := by
    intro id e he
    obtain ⟨row, hget, -, hc⟩ := getEntry_eq_ok.mp he
    rw [← Table.mem_rows] at hget
    cases mem_singleton.mp hget
    cases hc
    exact ⟨"a.io".toList, by decide +kernel,
      .inl ⟨_, he, .inr ⟨"https://a.io".toList, rfl, by decide +kernel⟩⟩⟩
  refine (scopes_exact_iff rfl).mpr
    ⟨fun _ _ => ⟨fun id hd => ?_, fun _ _ id e hs => hbound id e hs.1⟩,
    fun _ _ id e _ hp _ _ => hbound id e hp.1⟩
  exact absurd hd (not_delivered_of_no_mapping rfl id)

/-- A grant for `io`: the password of the login at `a.io` is answered, and overwritten. -/
theorem parent_scope_serves_login :
    ¬ Bound sampleDomains (oneLogin "T".toList (some "https://a.io".toList)) "io".toList 1 ∧
      (getExternalSecret sampleDomains
        (sampleDaemon (oneLogin "T".toList (some "https://a.io".toList)) "io".toList)
        (sampleRequest "io".toList) .password .insertion 0).value = some "old".toList ∧
      (saveSecret sampleDomains
        (sampleDaemon (oneLogin "T".toList (some "https://a.io".toList)) "io".toList)
        (sampleRequest "io".toList) "new".toList 2 5 0).1 = ⟨true, none, none⟩ ∧
      ((saveSecret sampleDomains
        (sampleDaemon (oneLogin "T".toList (some "https://a.io".toList)) "io".toList)
        (sampleRequest "io".toList) "new".toList 2 5 0).2.vault.bind fun v =>
          (v.getEntry 1).toOption.map Entry.password) = some "new".toList := by
  refine ⟨?_, by decide +kernel, by decide +kernel, by decide +kernel⟩
  rintro ⟨host, hhost, ⟨e, he, hbound⟩ | ⟨r, hr, -⟩⟩
  · cases hhost
    obtain ⟨row, hget, -, hc⟩ := getEntry_eq_ok.mp he
    rw [← Table.mem_rows] at hget
    cases mem_singleton.mp hget
    cases hc
    rcases hbound with htitle | ⟨url, hurl, hhost⟩
    · exact absurd htitle (by decide +kernel)
    · cases hurl
      exact absurd hhost (by decide +kernel)
  · exact absurd hr not_mem_nil

end Scopes

end SentinelPass.Daemon
