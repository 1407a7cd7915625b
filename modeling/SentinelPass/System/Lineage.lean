import SentinelPass.System.State

/-!
# Where acknowledged versions come from

`sync_acked_version` becomes the expectation of the next push, so what the device
knows about that version decides whether the push may overwrite it. `Known` is a
version that the device logged itself or that it has integrated; `SystemInv` says
that every acknowledged version of every device is `Known`, and so is the
expectation of every push on its way.

Each kind of step keeps it: local writes, collection, a send, a page, a
resolution, and an acknowledgement as long as its re-bases are to known versions
(`RebasesKnown`). The relay only ever grows (`RelayGrows`), which is all that the
facts about messages on their way need.
-/

namespace SentinelPass

open Lib Relay List Option LocalDb

/-! ## Growth of the relay -/

/-- Devices stay in their vaults and logs keep their entries. -/
structure RelayGrows (r r' : RelayState) : Prop where
  vaults : ∀ device vault, r.deviceVault device = some vault → r'.deviceVault device = some vault
  logs : ∀ vault, ∀ x ∈ r.log vault, x ∈ r'.log vault

theorem RelayGrows.refl (r) : RelayGrows r r := ⟨fun _ _ h => h, fun _ _ h => h⟩

theorem relayGrows_step {r r' a} (h : relayStep r a = some r')
    (hclaim : ∀ device origin newVault now, a ≠ .claim device origin newVault now) :
    RelayGrows r r' :=
  ⟨fun device _ hv => deviceVault_step h (hclaim device) hv,
    fun vault _ hx => (relayStep_log h vault).subset hx⟩

def LoggedBy (r : RelayState) (device object : Uuid) (version : UInt64) : Prop :=
  ∃ vault ∈ r.deviceVault device, ∃ x ∈ r.log vault, x.2.objectId = object ∧
    x.2.resultingVersion.toUInt64 = version ∧ x.2.originDeviceId = device

instance (r : RelayState) (device object : Uuid) (version : UInt64) :
    Decidable (LoggedBy r device object version) :=
  -- by looking at the option: as a `BitVec` the vault would be searched for
  decidableExistsMem (p := fun vault => ∃ x ∈ r.log vault, _ ∧ _ ∧ _) (r.deviceVault device)

/-- The blob is an entry of the log of the device's vault. -/
def FromLog (r : RelayState) (device : Uuid) (blob : SyncEntryBlob) : Prop :=
  ∃ vault, r.deviceVault device = some vault ∧ ∃ x ∈ r.log vault, ∃ m,
    MutationV2.ofLog (logMutation vault x.2) = some m ∧ blob = blobFromLogMutation m

/-- The device pushed this version itself, or has integrated it. -/
def Known (r : RelayState) (device : Uuid) (integrated : List SyncEntryBlob) (t : SyncEntryType)
    (object : Uuid) (version : UInt64) : Prop :=
  LoggedBy r device object version ∨
    ∃ blob ∈ integrated, blob.entryType = t ∧ blob.syncId = object ∧ blob.syncVersion = version

instance (r : RelayState) (device : Uuid) (integrated : List SyncEntryBlob) (t : SyncEntryType)
    (object : Uuid) (version : UInt64) : Decidable (Known r device integrated t object version) :=
  inferInstanceAs (Decidable (_ ∨ ∃ blob ∈ integrated, _ ∧ _ ∧ _))

section Mono

variable {r r' : RelayState} {device object : Uuid} {version : UInt64} {blob : SyncEntryBlob}
  {integrated integrated' : List SyncEntryBlob} {t : SyncEntryType}

theorem LoggedBy.mono (hgrow : RelayGrows r r') (h : LoggedBy r device object version) :
    LoggedBy r' device object version := by
  obtain ⟨vault, hv, x, hx, hfields⟩ := h
  exact ⟨vault, hgrow.vaults _ _ hv, x, hgrow.logs vault x hx, hfields⟩

theorem FromLog.mono (hgrow : RelayGrows r r') (h : FromLog r device blob) :
    FromLog r' device blob := by
  obtain ⟨vault, hv, x, hx, m, hm⟩ := h
  exact ⟨vault, hgrow.vaults _ _ hv, x, hgrow.logs vault x hx, m, hm⟩

theorem Known.mono (hgrow : RelayGrows r r') (hsub : integrated ⊆ integrated')
    (h : Known r device integrated t object version) :
    Known r' device integrated' t object version := by
  refine h.imp (·.mono hgrow) ?_
  rintro ⟨b, hb, hfields⟩
  exact ⟨b, hsub hb, hfields⟩

end Mono

/-! ## One device -/

/-- An acknowledged version stands for nothing, or for a known version. -/
def AckedKnown (r : RelayState) (device : Uuid) (integrated : List SyncEntryBlob)
    (t : SyncEntryType) (object : Uuid) (acked : Int64) : Prop :=
  acked ≤ 0 ∨ Known r device integrated t object acked.toUInt64

instance (r : RelayState) (device : Uuid) (integrated : List SyncEntryBlob) (t : SyncEntryType)
    (object : Uuid) (acked : Int64) : Decidable (AckedKnown r device integrated t object acked) :=
  inferInstanceAs (Decidable (_ ∨ _))

theorem AckedKnown.max {r device object integrated t a b}
    (ha : AckedKnown r device integrated t object a)
    (hb : AckedKnown r device integrated t object b) :
    AckedKnown r device integrated t object (max a b) := by
  rcases max_eq_or a b with h | h
  · rwa [h]
  · rwa [h]

structure DeviceInv (r : RelayState) (device : Uuid) (d : Device) : Prop where
  acked : ∀ t id c, d.db.cols t id = some c →
    AckedKnown r device d.integrated t id c.syncAckedVersion
  conflicts : ∀ id row, d.db.syncConflicts.get? id = some row → FromLog r device (row.blob id)
  integrated : ∀ blob ∈ d.integrated, FromLog r device blob

section Device

variable {r r' : RelayState} {device : Uuid} {d : Device} {db : LocalDb} {E : Env} {now : Int}

theorem DeviceInv.mono (hgrow : RelayGrows r r') (h : DeviceInv r device d) :
    DeviceInv r' device d where
  acked t id c hc := (h.acked t id c hc).imp_right (·.mono hgrow (List.Subset.refl _))
  conflicts id row hr := (h.conflicts id row hr).mono hgrow
  integrated blob hb := (h.integrated blob hb).mono hgrow

/-- A step of the database alone: each acknowledged version was there, or stands
for nothing or a known version; stored conflicts only go. -/
theorem DeviceInv.setDb (h : DeviceInv r device d)
    (hacked : ∀ t id c, db.cols t id = some c →
      (∃ c₀, d.db.cols t id = some c₀ ∧ c₀.syncAckedVersion = c.syncAckedVersion) ∨
      AckedKnown r device d.integrated t id c.syncAckedVersion)
    (hconf : ∀ id row, db.syncConflicts.get? id = some row →
      d.db.syncConflicts.get? id = some row) :
    DeviceInv r device { d with db := db } where
  acked t id c hc := by
    rcases hacked t id c hc with ⟨c₀, hc₀, hsame⟩ | hknown
    · rw [← hsame]
      exact h.acked t id c₀ hc₀
    · exact hknown
  conflicts id row hr := h.conflicts id row (hconf id row hr)
  integrated := h.integrated

theorem DeviceInv.edit {op} (h : DeviceInv r device d) (hstep : LocalStep d.db op db) :
    DeviceInv r device { d with db := db } := by
  refine h.setDb (fun t id c hc => ?_) fun id row hr => by rwa [hstep.frame.1] at hr
  have hcols := hstep.cols t id
  rw [hc] at hcols
  generalize hold : d.db.cols t id = old at hcols
  cases hcols with
  | same => exact .inl ⟨c, rfl, rfl⟩
  | created _ hzero => exact .inr (.inl (by rw [hzero]; exact Int64.le_refl 0))
  | edited _ hsame => exact .inl ⟨_, rfl, hsame.symm⟩

theorem DeviceInv.page (h : DeviceInv r device d) {guard cursor highWater response}
    (hfrom : ∀ e ∈ response.entries, FromLog r device e.blob) :
    DeviceInv r device
      ⟨(pullPage E device now guard cursor highWater d.db response).db,
        d.integrated ++ (pullPage E device now guard cursor highWater d.db
          response).outcomes.filterMap writtenBlob⟩ := by
  refine pullPage_rule (P := fun db outcomes =>
    DeviceInv r device ⟨db, d.integrated ++ outcomes.filterMap writtenBlob⟩) ?_ fun hbody => ?_
  · show DeviceInv r device ⟨d.db, d.integrated ++ []⟩
    rw [append_nil]
    exact h
  -- what a finished page wrote, whatever its guard answered
  obtain ⟨tx₀, hpasses, -, rfl⟩ := pageBody_ok hbody
  have hmarks := pagePasses_marks hpasses
  have hshown : ∀ {e d}, (e, d) ∈ tx₀.outcomes → FromLog r device e.blob :=
    fun hm => hfrom _ ((pagePasses_inv hpasses).settled _ hm).1
  refine ⟨fun t id c hc => ?_, fun id row hr => ?_, fun blob hb => ?_⟩
  · rw [cols_setConfig] at hc
    rcases hmarks.acked t id c hc with ⟨c₀, hc₀, hsame⟩ | ⟨e, effect, hm, hw, ht, hid, hver⟩
    · rw [← hsame]
      exact (h.acked t id c₀ hc₀).imp_right
        (·.mono (.refl r) (subset_append_left ..))
    · refine .inr (.inr ⟨e.blob, mem_append_right _ ?_, ht, hid, by rw [hver]; simp⟩)
      exact mem_filterMap.mpr ⟨_, hm, by simp [writtenBlob, hw]⟩
  · rcases hmarks.conflicts id row hr with hold | ⟨e, effect, hm, hid, hrow⟩
    · exact h.conflicts id row hold
    · rw [hid, hrow, blob_conflictRow rfl]
      exact hshown hm
  · rcases mem_append.mp hb with hb | hb
    · exact h.integrated blob hb
    · obtain ⟨x, hm, hw⟩ := mem_filterMap.mp hb
      rw [← writtenBlob_eq_some hw]
      exact hshown hm

/-- A resolution: the alternative becomes integrated, on whichever side the row
ends. -/
theorem DeviceInv.resolve (h : DeviceInv r device d) (guard : Guard) (object : Uuid)
    (takeRemote : Bool) :
    DeviceInv r device
      ⟨(resolveSyncConflict E now guard d.db object takeRemote).db,
        d.integrated ++
          (resolveSyncConflict E now guard d.db object takeRemote).resolved.toList⟩ := by
  rcases resolveSyncConflict_step E now guard d.db object takeRemote with
    ⟨hdb, hnone⟩ | ⟨row, hrow, hsome, hstep⟩
  · rw [hdb, hnone, toList_none, append_nil]
    exact h
  rw [hsome, toList_some]
  generalize (resolveSyncConflict E now guard d.db object takeRemote).db = db' at hstep
  have hblob : FromLog r device (row.blob object) := h.conflicts object row hrow
  -- what was known stays known, and the alternative now is
  have hold : ∀ {t id c}, d.db.cols t id = some c →
      AckedKnown r device (d.integrated ++ [row.blob object]) t id c.syncAckedVersion := fun hc =>
    (h.acked _ _ _ hc).imp_right (·.mono (.refl r) (subset_append_left ..))
  have hnew : AckedKnown r device (d.integrated ++ [row.blob object]) row.objectType object
      row.remoteVersion.toUInt64.toInt64 :=
    .inr (.inr ⟨row.blob object, by simp, rfl, rfl, by simp [ConflictRow.blob]⟩)
  refine ⟨fun t id c hc => ?_, fun id row' hr => ?_, fun blob hb => ?_⟩
  · cases hstep with
    | keptLocal =>
      change (dropConflict _ _).cols t id = some c at hc
      rw [cols_dropConflict, cols_updateCols] at hc
      split at hc
      · next hobj =>
        obtain ⟨rfl, rfl⟩ := hobj
        obtain ⟨c₀, hc₀, rfl⟩ := map_eq_some_iff.mp hc
        exact (hold hc₀).max hnew
      · exact hold hc
    | tookRemote happ =>
      rcases happ.acked hc with ⟨c₁, hc₁, hsame⟩ | ⟨-, rfl, rfl, hver⟩
      · rw [← hsame]
        rw [cols_updateCols] at hc₁
        split at hc₁
        · obtain ⟨c₀, hc₀, rfl⟩ := map_eq_some_iff.mp hc₁
          -- stepping below the remote version leaves the acknowledged one
          have hkept := hold hc₀
          exact hkept
        · exact hold hc₁
      · rw [hver]
        exact hnew
  · cases hstep with
    | keptLocal =>
      have hr := conflicts_dropConflict hr
      rw [syncConflicts_updateCols] at hr
      exact h.conflicts id row' hr
    | tookRemote happ =>
      rcases happ.conflicts (conflicts_dropConflict hr) with hr | ⟨hid, rfl⟩
      · rw [syncConflicts_updateCols] at hr
        exact h.conflicts id row' hr
      · change id = object at hid
        subst hid
        exact hblob
  · rcases mem_snoc hb with hb | rfl
    · exact h.integrated blob hb
    · exact hblob

/-! ## Acknowledgements -/

/-- A re-base is to a version not above the acknowledged one, or to one that the
device knows. -/
def RebaseKnown (r : RelayState) (device : Uuid) (integrated : List SyncEntryBlob) (db : LocalDb)
    (m : MutationV2) : AckEffect → Prop
  | .rebased current => ∀ c ∈ db.cols m.objectType m.objectId,
      current ≤ c.syncAckedVersion ∨ AckedKnown r device integrated m.objectType m.objectId current
  | _ => True

instance (r : RelayState) (device : Uuid) (integrated : List SyncEntryBlob) (db : LocalDb)
    (m : MutationV2) : (e : AckEffect) → Decidable (RebaseKnown r device integrated db m e)
  | .rebased _ => inferInstanceAs (Decidable (∀ c ∈ db.cols m.objectType m.objectId, _ ∨ _))
  | .suspicious | .applied | .conflicted | .rejected => .isTrue trivial

/-- Every re-base that the results ask for, each at its turn. -/
def RebasesKnown (r : RelayState) (device : Uuid) (integrated : List SyncEntryBlob)
    (chunk : List MutationV2) (now : Int) : LocalDb → List MutationResult → Prop
  | _, [] => True
  | db, result :: rest =>
    (∀ m ∈ routed chunk result, RebaseKnown r device integrated db m (ackEffect m result.outcome)) ∧
    RebasesKnown r device integrated chunk now (ackOne chunk now db result) rest

instance decidableRebasesKnown (r : RelayState) (device : Uuid) (integrated : List SyncEntryBlob)
    (chunk : List MutationV2) (now : Int) : (db : LocalDb) → (results : List MutationResult) →
    Decidable (RebasesKnown r device integrated chunk now db results)
  | _, [] => .isTrue trivial
  | db, result :: rest =>
    have := decidableRebasesKnown r device integrated chunk now (ackOne chunk now db result) rest
    inferInstanceAs (Decidable ((∀ m ∈ routed chunk result, _) ∧ _))

/-- An answer to a chunk says Applied only of versions that the device logged. -/
def AnswersLogged (r : RelayState) (device : Uuid) (chunk : List MutationV2)
    (results : List MutationResult) : Prop :=
  ∀ result ∈ results, ∀ m, routed chunk result = some m →
    ackEffect m result.outcome = .applied → LoggedBy r device m.objectId m.resultingVersion

theorem DeviceInv.ackOne {chunk result}
    (h : DeviceInv r device d)
    (hlogged : ∀ m, routed chunk result = some m → ackEffect m result.outcome = .applied →
      LoggedBy r device m.objectId m.resultingVersion)
    (hrebase : ∀ m ∈ routed chunk result,
      RebaseKnown r device d.integrated d.db m (ackEffect m result.outcome)) :
    DeviceInv r device { d with db := ackOne chunk now d.db result } := by
  unfold SentinelPass.ackOne
  split
  · exact h
  rename_i m hm
  refine h.setDb (fun t id c hc => ?_) (AckEffect.run_frame ..).2.2.2
  rw [AckEffect.run_cols] at hc
  split at hc
  · next hobj =>
    obtain ⟨rfl, rfl⟩ := hobj
    obtain ⟨c₀, hc₀, rfl⟩ := map_eq_some_iff.mp hc
    cases heff : ackEffect m result.outcome with
    | suspicious => exact .inl ⟨c₀, hc₀, rfl⟩
    | conflicted => exact .inl ⟨c₀, hc₀, rfl⟩
    | rejected => exact .inl ⟨c₀, hc₀, rfl⟩
    | applied =>
      refine .inr (.inr (.inl ?_))
      have hmine := hlogged m hm heff
      simpa [AckEffect.onCols, SyncCols.acked] using hmine
    | rebased current =>
      refine .inr ?_
      show AckedKnown r device d.integrated _ _ (max c₀.syncAckedVersion current)
      have hbase := hrebase m hm
      rw [heff] at hbase
      rcases hbase c₀ hc₀ with hle | hknown
      · rw [max_eq_left_of_le hle]
        exact h.acked _ _ c₀ hc₀
      · exact (h.acked _ _ c₀ hc₀).max hknown
  · exact .inl ⟨c, hc, rfl⟩

theorem DeviceInv.acks {chunk : List MutationV2} {results : List MutationResult}
    (h : DeviceInv r device d) (hlogged : AnswersLogged r device chunk results)
    (hrebase : RebasesKnown r device d.integrated chunk now d.db results) (cursor : UInt64) :
    DeviceInv r device { d with db := (applyPushAcks d.db chunk results cursor now).1 } := by
  have hloop : DeviceInv r device
      { d with db := results.foldl (SentinelPass.ackOne chunk now) d.db } := by
    induction results generalizing d with
    | nil => exact h
    | cons result rest ih =>
      exact ih (h.ackOne (hlogged result mem_cons_self) hrebase.1)
        (fun x hx => hlogged x (mem_cons_of_mem _ hx)) hrebase.2
  refine hloop.setDb (fun t id c hc => .inl ⟨c, ?_, rfl⟩) fun _ _ hr => hr
  change (setConfig _ _).cols t id = some c at hc
  rwa [cols_setConfig] at hc

end Device

end SentinelPass
