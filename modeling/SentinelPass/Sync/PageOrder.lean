import SentinelPass.Sync.Pull

/-!
# The order of a page

The second pass of a page applies entries out of log order. What makes that
harmless is the version test: a row that has reached the version of the last
mutation of its object is not moved by an older one (`AppliedAs.older`). So after
a page the row of every object is what its last mutation says
(`page_reflects_last`), provided that mutation is newer than what was there.

A tombstone for an object without a row leaves no trace, and so no version to
test against: a TOTP secret that waited for its parent comes back after its own
tombstone (`last_mutation_not_reflected`). The theorem leaves that case out.
-/

namespace SentinelPass

open Lib LocalDb SyncCols MutationLogEntry
open Option (some map_eq_some_iff)

def SameObject (a b : MutationLogEntry) : Prop :=
  a.mutation.objectType = b.mutation.objectType ∧ a.mutation.objectId = b.mutation.objectId

instance (a b : MutationLogEntry) : Decidable (SameObject a b) := by
  unfold SameObject
  infer_instance

/-- The version of the object's row, 0 without one. -/
def localVersion (db : LocalDb) (e : MutationLogEntry) : UInt64 :=
  ((db.cols e.mutation.objectType e.mutation.objectId).map (·.syncVersion.toUInt64)).getD 0

/-- The row is what the entry says: gone or deleted for a tombstone, live with
the content of the payload otherwise. -/
def Reflects (E : Env) (db : LocalDb) (e : MutationLogEntry) : Prop :=
  if e.mutation.isTombstone then ∀ r, e.blob.target db = some r → r.sync.isDeleted = true
  else ∃ r p, e.blob.target db = some r ∧ r.sync.isDeleted = false ∧
    prepare E db e.blob e.blob.entryType = .ok p ∧ r.content = p.content

/-- The object's row, if there is one, is synced and below the entry's version. -/
def SyncedBelow (db : LocalDb) (e : MutationLogEntry) : Prop :=
  ∀ c, db.cols e.mutation.objectType e.mutation.objectId = some c →
    c.syncState = .synced ∧ c.syncVersion.toUInt64 < e.mutation.resultingVersion

/-- The object's row is what the entry wrote, at the entry's version. -/
structure AppliedAs (E : Env) (db : LocalDb) (e : MutationLogEntry) : Prop where
  row : ∃ r, e.blob.target db = some r ∧ r.sync.syncState = .synced ∧
    r.sync.syncVersion.toUInt64 = e.mutation.resultingVersion ∧
    r.sync.isDeleted = e.mutation.isTombstone ∧
    (e.mutation.isTombstone = false →
      ∃ p, prepare E db e.blob e.blob.entryType = .ok p ∧ r.content = p.content)

section Apply

variable {E : Env} {now : Int} {db db' : LocalDb} {e e' : MutationLogEntry} {effect : ApplyEffect}

theorem not_concurrent {c blob} (h : c.syncState = .synced) : ¬ Concurrent c blob := by
  rintro ⟨hstate, -⟩
  rw [h] at hstate
  rcases hstate with h | h <;> cases h

section

variable (hne : ¬ SameObject e' e) (h : ApplyStep E now db e'.blob effect db')

include hne h

theorem target_of_ne : e.blob.target db' = e.blob.target db :=
  h.row_of_ne fun hobj => hne ⟨hobj.1.symm, hobj.2.symm⟩

theorem AppliedAs.of_ne (hat : AppliedAs E db e) : AppliedAs E db' e := by
  obtain ⟨r, hr, hstate, hver, hdel, hlive⟩ := hat.row
  refine ⟨r, (target_of_ne hne h).trans hr, hstate, hver, hdel, fun hl => ?_⟩
  obtain ⟨p, hp, hcontent⟩ := hlive hl
  exact ⟨p, prepare_mono (fun id hid => h.row_isSome hid) hp, hcontent⟩

theorem SyncedBelow.of_ne (hbelow : SyncedBelow db e) : SyncedBelow db' e := by
  intro c hc
  refine hbelow c ?_
  rwa [← h.cols_of_ne fun hobj => hne ⟨hobj.1.symm, hobj.2.symm⟩]

end

section

variable (hsame : SameObject e' e)
  (hlt : e'.mutation.resultingVersion < e.mutation.resultingVersion)
  (h : ApplyStep E now db e'.blob effect db')

include hsame hlt h

theorem SyncedBelow.older (hbelow : SyncedBelow db e) : SyncedBelow db' e := by
  have hver : e'.blob.syncVersion < e.mutation.resultingVersion := hlt
  have hcols := h.cols_self
  change ApplyCols _ _ _ (db.cols e'.mutation.objectType e'.mutation.objectId)
    (db'.cols e'.mutation.objectType e'.mutation.objectId) at hcols
  rw [hsame.1, hsame.2] at hcols
  intro c hc
  rw [hc] at hcols
  generalize hold : db.cols e.mutation.objectType e.mutation.objectId = old at hcols
  cases hcols with
  | recorded hcon => exact absurd hcon (not_concurrent (hbelow _ hold).1)
  | keptLocal _ _ => exact hbelow c hold
  | tombstoned _ _ _ => exact ⟨rfl, by simpa [tombstoned] using hver⟩
  | updated _ _ => exact ⟨rfl, by simpa [applied] using hver⟩
  | inserted _ => exact ⟨rfl, by simpa [applied] using hver⟩

theorem AppliedAs.older (hat : AppliedAs E db e) : AppliedAs E db' e := by
  obtain ⟨r, hr, hstate, hver, -⟩ := hat.row
  have hnow : db.cols e'.mutation.objectType e'.mutation.objectId = some r.sync := by
    rw [hsame.1, hsame.2, cols]
    exact congrArg _ hr
  have hcol : ∀ {r'}, e'.blob.target db = some r' → r'.sync = r.sync := by
    intro r' hr'
    have hcols : db.cols e'.mutation.objectType e'.mutation.objectId = some r'.sync := by
      exact congrArg _ hr'
    exact some.inj (hcols.symm.trans hnow)
  have hnot : ∀ {modified : Int},
      resolve r.sync.syncVersion.toUInt64 modified e'.blob ≠ .acceptRemote := by
    intro modified hacc
    have hle := le_of_resolve_acceptRemote hacc
    rw [hver] at hle
    exact absurd hle (UInt64.not_le.mpr hlt)
  have hsome : e'.blob.target db ≠ none := by
    intro hnone
    have hcols : db.cols e'.mutation.objectType e'.mutation.objectId = none := by
      exact congrArg _ hnone
    rw [hcols] at hnow
    cases hnow
  cases h with
  | recorded hr' hcon => exact absurd hcon (not_concurrent (hcol hr' ▸ hstate))
  | keptLocal _ _ _ => exact hat
  | tombstoned hr' _ hacc _ => exact absurd (hcol hr' ▸ hacc) hnot
  | updated hr' _ hacc _ _ => exact absurd (hcol hr' ▸ hacc) hnot
  | inserted hnone _ _ _ => exact absurd hnone hsome
  | skipped hnone _ => exact absurd hnone hsome

end

/-- The mutation itself, on a row below it: written, or skipped as a tombstone
of an object without a row. -/
theorem SyncedBelow.applySelf (hpos : 0 < e.mutation.resultingVersion)
    (h : ApplyStep E now db e.blob effect db') (hbelow : SyncedBelow db e) :
    AppliedAs E db' e ∨
      (effect = .skipped ∧ e.mutation.isTombstone = true ∧ e.blob.target db' = none) := by
  have hrow : ∀ {r}, e.blob.target db = some r → r.sync.syncState = .synced ∧
      r.sync.syncVersion.toUInt64 < e.mutation.resultingVersion := by
    intro r hr
    refine hbelow r.sync ?_
    exact congrArg _ hr
  have hcred : ∀ id, (db.row .credential id).isSome → (db'.row .credential id).isSome :=
    fun id hid => h.row_isSome hid
  cases h with
  | recorded hr hcon => exact absurd hcon (not_concurrent (hrow hr).1)
  | keptLocal hr _ hkeep =>
    exact absurd (le_of_resolve_keepLocal hkeep) (UInt64.not_le.mpr (hrow hr).2)
  | @tombstoned r hr _ _ htomb =>
    have htomb' : e.mutation.isTombstone = true := htomb
    refine .inl ⟨{ r with sync := r.sync.tombstoned e.blob.syncVersion now }, ?_, rfl, ?_, ?_, ?_⟩
    · unfold SyncEntryBlob.target at hr ⊢
      rw [row_updateCols, if_pos ⟨rfl, rfl⟩, hr]
      rfl
    · simp [tombstoned, blob, blobFromLogMutation]
    · rw [htomb']
      rfl
    · rw [htomb']
      intro hlive
      cases hlive
  | @updated r p _ _ _ hlive hp =>
    refine .inl ⟨_, row_putRow_self .., rfl, ?_, hlive.symm, fun _ => ⟨p, ?_, rfl⟩⟩
    · simp [applied, blob, blobFromLogMutation]
    · exact prepare_mono hcred hp
  | @inserted p _ hlive _ hp =>
    refine .inl ⟨_, row_putRow_self .., rfl, ?_, hlive.symm, fun _ => ⟨p, ?_, rfl⟩⟩
    · simp [applied, blob, blobFromLogMutation]
    · exact prepare_mono hcred hp
  | skipped hr hskip =>
    refine .inr ⟨rfl, hskip.resolve_right fun h0 => ?_, hr⟩
    have : e.mutation.resultingVersion = 0 := h0
    rw [this] at hpos
    exact absurd hpos (UInt64.lt_irrefl 0)

end Apply

/-! ## Through the passes -/

section Passes

variable {E : Env} {now : Int} {e : MutationLogEntry} {db : LocalDb}

/-- An entry that is about another object, or older. -/
def Older (e' e : MutationLogEntry) : Prop :=
  SameObject e' e → e'.mutation.resultingVersion < e.mutation.resultingVersion

theorem syncedBelow_stable (e) : Stable E now (Older · e) (SyncedBelow · e) where
  tables htables h c hc := h c (by rwa [← cols_congr htables])
  apply {_ _ e' _} hold happ h := by
    by_cases hsame : SameObject e' e
    · exact h.older hsame (hold hsame) happ
    · exact h.of_ne hsame happ

theorem appliedAs_stable (e) : Stable E now (Older · e) (AppliedAs E · e) where
  tables {db db'} htables h := by
    obtain ⟨r, hr, hstate, hver, hdel, hlive⟩ := h.row
    have hrow := row_congr htables
    refine ⟨r, (hrow _ _).trans hr, hstate, hver, hdel, fun hl => ?_⟩
    obtain ⟨p, hp, hcontent⟩ := hlive hl
    exact ⟨p, prepare_mono (fun id hid => by rwa [hrow]) hp, hcontent⟩
  apply {_ _ e' _} hold happ h := by
    by_cases hsame : SameObject e' e
    · exact h.older hsame (hold hsame) happ
    · exact h.of_ne hsame happ

theorem absent_stable (e) : Stable E now (¬ SameObject · e) fun db => e.blob.target db = none where
  tables htables h := (row_congr htables _ _).trans h
  apply hne happ h := (target_of_ne hne happ).trans h

theorem AppliedAs.reflects (h : AppliedAs E db e) : Reflects E db e := by
  obtain ⟨r, hr, -, -, hdel, hlive⟩ := h.row
  unfold Reflects
  by_cases htomb : e.mutation.isTombstone = true
  · rw [if_pos htomb]
    intro r' hr'
    rw [hr, some.injEq] at hr'
    rw [← hr', hdel, htomb]
  · rw [if_neg htomb]
    have hl : e.mutation.isTombstone = false := by simpa using htomb
    obtain ⟨p, hp, hcontent⟩ := hlive hl
    exact ⟨r, p, hr, hdel.trans hl, hp, hcontent⟩

theorem reflects_of_absent (htomb : e.mutation.isTombstone = true)
    (h : e.blob.target db = none) : Reflects E db e := by
  unfold Reflects
  rw [if_pos htomb]
  intro r hr
  rw [h] at hr
  cases hr

end Passes

section Last

variable {E : Env} {device : Uuid} {now : Int} {e : MutationLogEntry}
  {pre post : List MutationLogEntry}

/-- The second pass over the last mutation of an object: what waited before it is
older, what waited after it is about other objects. -/
theorem reflects_of_requeued {tx tx' : PageTx} {before after : List (MutationLogEntry × String)}
    {reason : String}
    (h : (before ++ (e, reason) :: after).foldlM (requeueEntry E now) tx = .ok tx')
    (hpos : 0 < e.mutation.resultingVersion) (hbelow : SyncedBelow tx.db e)
    (hbefore : ∀ d ∈ before, Older d.1 e) (hafter : ∀ d ∈ after, ¬ SameObject d.1 e)
    (hdead : ∀ reason, (e, .deadLettered reason) ∉ tx'.outcomes) : Reflects E tx'.db e := by
  rw [List.foldlM_append] at h
  obtain ⟨tx₁, hfirst, h⟩ := bind_ok h
  obtain ⟨tx₂, hone, hrest⟩ := foldlM_cons_ok h
  have hbelow₁ := (syncedBelow_stable e).requeueLoop hbefore hfirst hbelow
  cases requeueEntry_step hone with
  | applied happ =>
    rcases hbelow₁.applySelf hpos happ with hat | ⟨-, htomb, hnone⟩
    · refine ((appliedAs_stable e).requeueLoop (fun d hd hsame => ?_) hrest hat).reflects
      exact absurd hsame (hafter d hd)
    · exact reflects_of_absent htomb ((absent_stable e).requeueLoop hafter hrest hnone)
  | @deadLettered why _ _ =>
    exact absurd (requeueLoop_outcomes hrest (List.mem_concat_self ..)) (hdead why)

/-- **A page leaves the row of an object as its last mutation says**, if that
mutation is foreign, newer than the local row, and was not dead-lettered; left
out is a tombstone that met no row while an older mutation of the object waited
for its parent and was applied by the second pass. -/
theorem page_reflects_last {db : LocalDb} {response : PullResponseV2} {tx : PageTx}
    (hpage : pageBody E device now db response = .ok tx)
    (hsynced : ∀ t id c, db.cols t id = some c → c.syncState = .synced)
    (hforeign : ∀ e ∈ response.entries, Authentic E device db.keyEpoch e.mutation)
    (hincr : response.entries.Pairwise fun a b =>
      SameObject a b → a.mutation.resultingVersion < b.mutation.resultingVersion)
    (hsplit : response.entries = pre ++ e :: post) (hlast : ∀ e' ∈ post, ¬ SameObject e' e)
    (hnewer : localVersion db e < e.mutation.resultingVersion)
    (hdead : ∀ reason, (e, .deadLettered reason) ∉ tx.outcomes)
    (hwait : (e, .applied .skipped) ∈ tx.outcomes → ∀ d ∈ tx.deferred, SameObject d.1 e →
      ∀ effect, (d.1, .applied effect) ∉ tx.outcomes) :
    Reflects E tx.db e := by
  obtain ⟨tx₄, hpasses, -, rfl⟩ := pageBody_ok hpage
  suffices hrows : Reflects E tx₄.db e by
    unfold Reflects SyncEntryBlob.target at hrows ⊢
    simp only
    split at hrows
    · next htomb => rwa [if_pos htomb]
    rename_i htomb
    rw [if_neg htomb]
    obtain ⟨r, p, hr, hdel, hp, hc⟩ := hrows
    exact ⟨r, p, hr, hdel, prepare_mono (fun id hid => by simpa using hid) hp, hc⟩
  obtain ⟨tx₃, hfirst, hsecond⟩ := bind_ok hpasses
  rw [hsplit, List.foldlM_append] at hfirst
  obtain ⟨tx₁, hpre, hfirst⟩ := bind_ok hfirst
  obtain ⟨tx₂, hone, hpost⟩ := foldlM_cons_ok hfirst
  rw [hsplit, List.pairwise_append] at hincr
  have hold : ∀ e' ∈ pre, Older e' e := fun e' he' => hincr.2.2 e' he' e List.mem_cons_self
  have hother : ∀ e' ∈ post, Older e' e := fun e' he' hsame => absurd hsame (hlast e' he')
  have hpos : 0 < e.mutation.resultingVersion := by
    exact Nat.lt_of_le_of_lt (Nat.zero_le _) hnewer
  have hbelow₁ : SyncedBelow tx₁.db e := by
    refine (syncedBelow_stable e).pageLoop hold hpre fun c hc => ⟨hsynced _ _ c hc, ?_⟩
    unfold localVersion at hnewer
    rw [hc] at hnewer
    exact hnewer
  -- where the entries of the second pass come from
  obtain ⟨hout₃, more₃, hdef₃, hmore₃⟩ := pageLoop_grows hpost
  obtain ⟨-, more₁, hdef₁, hmore₁⟩ := pageLoop_grows hpre
  have hdef₄ := requeueLoop_deferred hsecond
  have hout₄ := requeueLoop_outcomes hsecond
  have hauth := hforeign e (by rw [hsplit]; exact List.mem_append_right _ List.mem_cons_self)
  cases pageEntry_step hone with
  | own hown => exact absurd hown hauth.foreign
  | applied _ happ =>
    change tx₃.deferred = tx₁.deferred ++ more₃ at hdef₃
    have holder : ∀ d ∈ tx₃.deferred, Older d.1 e := by
      intro d hd
      rw [hdef₃, hdef₁] at hd
      rcases List.mem_append.mp hd with hd | hd
      · exact hold _ (hmore₁ d hd)
      · exact hother _ (hmore₃ d hd)
    rcases hbelow₁.applySelf hpos happ with hat | ⟨rfl, htomb, hnone⟩
    · have hat₃ := (appliedAs_stable e).pageLoop hother hpost hat
      exact ((appliedAs_stable e).requeueLoop holder hsecond hat₃).reflects
    · have hskipped : (e, .applied .skipped) ∈ tx₄.outcomes :=
        hout₄ (hout₃ (List.mem_concat_self ..))
      have hnone₃ := (absent_stable e).pageLoop hlast hpost hnone
      refine reflects_of_absent htomb ((absent_stable e).requeueApplied hsecond ?_ hnone₃)
      intro d hd effect happlied hsame
      rw [← hdef₄] at hd
      exact hwait hskipped d hd hsame effect happlied
  | @deferred reason _ _ =>
    change tx₃.deferred = (tx₁.deferred ++ [(e, reason)]) ++ more₃ at hdef₃
    rw [hdef₁, List.append_assoc] at hdef₃
    rw [hdef₃] at hsecond
    have hbelow₃ := (syncedBelow_stable e).pageLoop hother hpost hbelow₁
    exact reflects_of_requeued hsecond hpos hbelow₃ (fun d hd => hold _ (hmore₁ d hd))
      (fun d hd => hlast _ (hmore₃ d hd)) hdead
  | @deadLettered why _ _ =>
    exact absurd (hout₄ (hout₃ (List.mem_concat_self ..))) (hdead why)

end Last

/-! ## Pages of device 2, pulled by device 3 -/

/-- Version `version` of an object, as device 2 pushed it into relay vault 1. -/
def samplePageEntry (t : SyncEntryType) (id : Uuid) (version : UInt64) (isTombstone : Bool)
    (payload : Bytes) : MutationLogEntry where
  serverSequence := version
  mutation := buildMutation sampleCrypto [7]
    { vaultId := 1, objectId := id, objectType := t, expectedVersion := version - 1
      resultingVersion := version, keyEpoch := 1, originDeviceId := 2
      isTombstone := isTombstone, encryptedPayload := payload }

def sampleCredentialEntry (version : UInt64) : MutationLogEntry :=
  samplePageEntry .credential 7 version false (0 :: utf8 "mail")

/-- The TOTP secret 8 of credential 7, before the credential is there. -/
def sampleTotpEntry (version : UInt64) : MutationLogEntry :=
  samplePageEntry .totpSecret 8 version false (0 :: (Uuid.asBytes 7 ++ utf8 "seed"))

def sampleTotpTombstone : MutationLogEntry := samplePageEntry .totpSecret 8 2 true [0]

def sampleTotpPage (last : MutationLogEntry) : PullResponseV2 where
  entries := [sampleTotpEntry 1, sampleCredentialEntry 1, last]
  cursor := 3
  hasMore := false

/-- A synced local copy of credential 7 at version 5. -/
def sampleAheadDb : LocalDb :=
  (fresh (some 1) 1).putRow .credential 7
    ⟨newEntryRow ⟨"home", "", "", none, none, .password, false⟩ 0 |>.content, 0, .applied 5 0⟩

theorem sampleAheadDb_synced (t id c) (h : sampleAheadDb.cols t id = some c) :
    c.syncState = .synced := by
  unfold sampleAheadDb at h
  rw [cols_putRow, cols_fresh] at h
  split at h
  · cases h
    rfl
  · cases h

def sampleOldPage : PullResponseV2 where
  entries := [sampleCredentialEntry 1]
  cursor := 1
  hasMore := false

theorem authentic_of_refusal {E device localEpoch m} (hforeign : m.originDeviceId ≠ device)
    (h : refusal E localEpoch m = none) : Authentic E device localEpoch m := by
  obtain ⟨hmac, hid, hepoch⟩ := refusal_eq_none.mp h
  exact ⟨hforeign, hmac, hid, hepoch⟩

/-- Both pages are of the kind the theorem is about: nothing local is pending,
every entry is authentic, versions increase, nothing is dead-lettered. In the
first the TOTP secret, put back for its parent, is inserted after its own
tombstone; in the second the local row stays, being ahead. -/
theorem last_mutation_not_reflected :
    (∃ tx, pageBody sampleEnv 3 0 (.fresh (some 1) 1) (sampleTotpPage sampleTotpTombstone)
      = .ok tx ∧
      (∀ e ∈ (sampleTotpPage sampleTotpTombstone).entries, Authentic sampleEnv 3 1 e.mutation) ∧
      (sampleTotpPage sampleTotpTombstone).entries.Pairwise (fun a b =>
        SameObject a b → a.mutation.resultingVersion < b.mutation.resultingVersion) ∧
      tx.outcomes.map Prod.snd = [.applied .inserted, .applied .skipped, .applied .inserted] ∧
      ¬ Reflects sampleEnv tx.db sampleTotpTombstone) ∧
    ∃ tx, pageBody sampleEnv 3 0 sampleAheadDb sampleOldPage = .ok tx ∧
      (∀ t id c, sampleAheadDb.cols t id = some c → c.syncState = .synced) ∧
      (∀ e ∈ sampleOldPage.entries, Authentic sampleEnv 3 1 e.mutation) ∧
      tx.outcomes.map Prod.snd = [.applied .keptLocal] ∧
      ¬ Reflects sampleEnv tx.db (sampleCredentialEntry 1) := by
  constructor
  · have hrun : ((pageBody sampleEnv 3 0 (.fresh (some 1) 1)
        (sampleTotpPage sampleTotpTombstone)).toOption.map fun tx =>
          (tx.outcomes.map Prod.snd, (tx.db.row .totpSecret 8).map (·.sync.isDeleted)))
        = some ([.applied .inserted, .applied .skipped, .applied .inserted], some false) := by
      decide +kernel
    obtain ⟨tx, htx, heq⟩ := map_eq_some_iff.mp hrun
    obtain ⟨hout, hrow⟩ := Prod.mk.inj heq
    refine ⟨tx, toOption_eq_some.mp htx, ?_, by decide +kernel, hout, ?_⟩
    · have hchecks : ∀ e ∈ (sampleTotpPage sampleTotpTombstone).entries,
          e.mutation.originDeviceId ≠ 3 ∧ refusal sampleEnv 1 e.mutation = none := by
        decide +kernel
      exact fun e he => authentic_of_refusal (hchecks e he).1 (hchecks e he).2
    · intro hreflects
      obtain ⟨r, hr, hlive⟩ := map_eq_some_iff.mp hrow
      have hdead := hreflects r hr
      rw [hlive] at hdead
      cases hdead
  · have hrun : ((pageBody sampleEnv 3 0 sampleAheadDb sampleOldPage).toOption.map fun tx =>
          (tx.outcomes.map Prod.snd, (tx.db.row .credential 7).map (·.content.title)))
        = some ([.applied .keptLocal], some "home") := by
      decide +kernel
    obtain ⟨tx, htx, heq⟩ := map_eq_some_iff.mp hrun
    obtain ⟨hout, hrow⟩ := Prod.mk.inj heq
    refine ⟨tx, toOption_eq_some.mp htx, sampleAheadDb_synced, ?_, hout, ?_⟩
    · have hchecks : ∀ e ∈ sampleOldPage.entries,
          e.mutation.originDeviceId ≠ 3 ∧ refusal sampleEnv 1 e.mutation = none := by
        decide +kernel
      exact fun e he => authentic_of_refusal (hchecks e he).1 (hchecks e he).2
    · rintro ⟨r, p, hr, -, hp, hcontent⟩
      obtain ⟨r', hr', htitle⟩ := map_eq_some_iff.mp hrow
      have hsame : r = r' := some.inj (hr.symm.trans hr')
      have hprep : (prepareCredential sampleEnv (sampleCredentialEntry 1).blob).toOption.map
          (·.content.title) = some "mail" := by decide +kernel
      have hmail : p.content.title = "mail" := by
        have hok : prepareCredential sampleEnv (sampleCredentialEntry 1).blob = .ok p := hp
        rw [hok] at hprep
        exact some.inj hprep
      rw [← hsame, hcontent, hmail] at htitle
      exact absurd htitle (by decide)

/-- The same page with an edit in the place of the deletion: the older version,
put back, does not undo it. -/
theorem page_reflects_last_totpEdit :
    ∃ tx, pageBody sampleEnv 3 0 (.fresh (some 1) 1) (sampleTotpPage (sampleTotpEntry 2)) = .ok tx ∧
      tx.outcomes.map Prod.snd = [.applied .inserted, .applied .inserted, .applied .keptLocal] ∧
      Reflects sampleEnv tx.db (sampleTotpEntry 2) := by
  have hrun : ((pageBody sampleEnv 3 0 (.fresh (some 1) 1)
      (sampleTotpPage (sampleTotpEntry 2))).toOption.map fun tx => tx.outcomes.map Prod.snd)
      = some [.applied .inserted, .applied .inserted, .applied .keptLocal] := by
    decide +kernel
  obtain ⟨tx, htx, hout⟩ := map_eq_some_iff.mp hrun
  have hok := toOption_eq_some.mp htx
  have hchecks : ∀ e ∈ (sampleTotpPage (sampleTotpEntry 2)).entries,
      e.mutation.originDeviceId ≠ 3 ∧ refusal sampleEnv 1 e.mutation = none := by
    decide +kernel
  have hnot : ∀ d : Disposition, (sampleTotpEntry 2, d) ∈ tx.outcomes →
      d = .applied .inserted ∨ d = .applied .keptLocal := by
    intro d hd
    have hd' : d ∈ tx.outcomes.map Prod.snd := List.mem_map_of_mem hd
    rw [hout] at hd'
    simpa using hd'
  refine ⟨tx, hok, hout, page_reflects_last hok ?_ ?_ (by decide +kernel)
    (show _ = [sampleTotpEntry 1, sampleCredentialEntry 1] ++ sampleTotpEntry 2 :: [] from rfl)
    (fun e he => absurd he List.not_mem_nil) (by decide +kernel) ?_ ?_⟩
  · intro t id c hc
    rw [cols_fresh] at hc
    cases hc
  · exact fun e he => authentic_of_refusal (hchecks e he).1 (hchecks e he).2
  · intro reason hd
    rcases hnot _ hd with h | h <;> cases h
  · intro hd
    rcases hnot _ hd with h | h <;> cases h

end SentinelPass
