import SentinelPass.Lib.Machine
import SentinelPass.Lib.Table
import SentinelPass.Lib.Utf8
import SentinelPass.Sync.Mac

/-!
# The service grant store

`service_grants.rs`. A grant binds a client and its token to one vault entry and
some of its fields. The store is a file: an envelope around the list of grants,
authenticated under a key derived from the data key of the open vault.

JSON is external here. What the code does with a document is to write it, to read
it back and to take the bytes of the text, so the text `π` and the file's bytes
`φ` are parameters, with the functions between them in `GrantEnv`. In memory the
grants are a hash map, and every walk over it takes a `MapOrder`.
-/

namespace SentinelPass.Ipc

open Lib Table

/-- Nanoseconds of UTC. -/
abbrev DateTime := Int

abbrev Dek := Vector UInt8 32

/-! ## Grants -/

inductive ServiceField
  | username
  | password
  | title
deriving DecidableEq

def ServiceField.asStr : ServiceField → Text
  | username => "username".toList
  | password => "password".toList
  | title => "title".toList

def ServiceField.parse (t : Text) : Option ServiceField :=
  if t = "username".toList then some .username
  else if t = "password".toList then some .password
  else if t = "title".toList then some .title
  else none

structure ServiceGrant where
  policyVersion : UInt32
  grantId : Uuid
  clientId : Text
  entryId : Int64
  fields : List ServiceField
  (expiresAt revokedAt : Option DateTime)
  createdAt : DateTime
  clientTokenHash : Text
  requiredExeSha256 : Option (List Text)
  registrationKeyFingerprint : Option Text
deriving DecidableEq

def pendingTokenHash : Text := "pending-enrollment".toList

def serviceTokenPrefix : Text := "sps_".toList

def maxStoreBytes : Nat := 1024 * 1024

def storeDomain : Bytes := utf8 "sentinelpass-service-grants-envelope-v2" ++ [0]

/-- `PasswordManagerError::InvalidInput`, as displayed. -/
def invalidInput (message : String) : Text := "Invalid input: ".toList ++ message.toList

def ServiceGrant.requiredExePolicy (g : ServiceGrant) : List Text := g.requiredExeSha256.getD []

/-! ## The file -/

structure AuthenticatedStore (π : Type) where
  formatVersion : UInt32
  payload : π
  mac : Text

/-- The members of the enrollment transcript beside `protocol`. -/
structure EnrollmentTranscript where
  clientId : Text
  entryId : Int64
  grantId : Uuid
  exePolicySha256 : Option Text
  expiresAt : Option Int
  fields : List Text
  (nonce registrationKeyFingerprint : Text)

/-- External functions: JSON, hashes, key derivation, times and ids. -/
structure GrantEnv (π φ : Type) where
  crypto : Crypto
  /-- `ServiceGrantStoreKey::from_dek`. -/
  storeKey : Dek → Bytes
  payloadBytes : π → Bytes
  envelopeToVec : AuthenticatedStore π → φ
  envelopeFromSlice : φ → Option (AuthenticatedStore π)
  size : φ → Nat
  grantsToString : List ServiceGrant → π
  grantsFromStr : π → Option (List ServiceGrant)
  transcriptToVec : EnrollmentTranscript → Bytes
  /-- `DateTime::from_timestamp` with no nanoseconds. -/
  fromTimestamp : Int64 → Option DateTime
  parseUuid : Text → Option Uuid
  /-- `{:?}`. -/
  debugStr : Text → Text

/-- What is written in JSON is read back. -/
structure GrantEnv.Lawful {π φ : Type} (E : GrantEnv π φ) : Prop where
  envelope : ∀ e, E.envelopeFromSlice (E.envelopeToVec e) = some e
  grants : ∀ l, E.grantsFromStr (E.grantsToString l) = some l

/-- What is at the store's path. -/
inductive StoreFile (φ : Type)
  | absent
  | unreadable (error : Text)
  | bytes (b : φ)

/-- `hex::decode`. -/
def hexDecode (t : Text) : Option Bytes := unhex (t.map Char.toLower)

structure ServiceGrantStore where
  grants : Table Uuid ServiceGrant

section File

variable {π φ : Type} (E : GrantEnv π φ)

def GrantEnv.mac (key : Bytes) (payload : π) : Bytes :=
  (E.crypto.hmacSha256 key (storeDomain ++ E.payloadBytes payload)).toList

def sealPayload (payload : π) (key : Bytes) : Except Text φ :=
  let bytes := E.envelopeToVec ⟨2, payload, hex (E.mac key payload)⟩
  if maxStoreBytes < E.size bytes then .error (invalidInput "grant store too large") else .ok bytes

def openPayload (bytes : φ) (key : Bytes) : Except Text π :=
  let invalid := invalidInput
    "grant store authentication failed; unsigned legacy stores require owner re-issuance"
  match E.envelopeFromSlice bytes with
  | none => .error invalid
  | some envelope =>
    if envelope.formatVersion ≠ 2 ∨ (textBytes envelope.mac).length ≠ 64 then .error invalid
    else if hexDecode envelope.mac = some (E.mac key envelope.payload) then .ok envelope.payload
    else .error invalid

def collectGrant (grants : Table Uuid ServiceGrant) (grant : ServiceGrant) :
    Except Text (Table Uuid ServiceGrant) :=
  match grants.insert? grant.grantId grant with
  | none => .error (invalidInput "service grant store failed closed: duplicate grant id")
  | some grants => .ok grants

def collectGrants (raw : List ServiceGrant) : Except Text (Table Uuid ServiceGrant) :=
  raw.foldlM collectGrant .empty

def loadFromPath (file : StoreFile φ) (key : Bytes) : Except Text ServiceGrantStore :=
  match file with
  | .absent => .ok ⟨.empty⟩
  | .unreadable error => .error error
  | .bytes b =>
    if maxStoreBytes < E.size b then .error (invalidInput "invalid grant store file")
    else do
      let payload ← openPayload E b key
      match E.grantsFromStr payload with
      | none => .error (invalidInput "service grant store failed closed (schema violation)")
      | some raw => do
        let grants ← collectGrants raw
        match grants.rows.find? fun row => row.2.policyVersion ≠ 1 with
        | some row => .error (invalidInput
            s!"service grant store failed closed: unknown policy_version {row.2.policyVersion}")
        | none => .ok ⟨grants⟩

/-- The file system around the store: what is at its path, and what a power cut may
bring back there. -/
structure StoreFs (φ : Type) where
  file : StoreFile φ
  undo : List (StoreFile φ)

/-- How the file system takes a write: it may fail before the rename, or be unable
to make the rename durable. -/
inductive SaveFault
  | unpublished (error : Text)
  | unsynced

inductive SaveResult
  | saved
  | unpublished (error : Text)
  | unsynced (error : Text)

def saveToPath (fs : StoreFs φ) (values : List ServiceGrant) (key : Bytes)
    (fault : Option SaveFault) : SaveResult × StoreFs φ :=
  match sealPayload E (E.grantsToString values) key, fault with
  | .error e, _ => (.unpublished e, fs)
  | .ok _, some (.unpublished e) => (.unpublished e, fs)
  | .ok body, some .unsynced =>
    (.unsynced (invalidInput
      "grant store published but durability unconfirmed; inspect before retrying"),
      ⟨.bytes body, fs.file :: fs.undo⟩)
  | .ok body, none => (.saved, ⟨.bytes body, []⟩)

end File

/-! ## Operations -/

/-- A lower-case hexadecimal text of `n` digits. -/
def isLowerHex (n : Nat) (t : Text) : Bool :=
  (textBytes t).length = n && t.all fun c => isAsciiHexdigit c && !c.isUpper

namespace ServiceGrantStore

variable {π φ : Type} (E : GrantEnv π φ) (store : ServiceGrantStore)

def values (order : MapOrder ServiceGrant) : List ServiceGrant :=
  order.arrange (store.grants.rows.map Prod.snd)

def tokenHash (token : Text) : Text := hex (E.crypto.sha256 (textBytes token)).toList

def authorize (order : MapOrder ServiceGrant) (clientId token : Text) (entryId : Int64)
    (field : ServiceField) (now : DateTime) : Option ServiceGrant :=
  if token = pendingTokenHash then none
  else
    let candidates := (store.values order).filter fun g =>
      g.clientId = clientId && g.entryId = entryId && g.revokedAt.isNone
        && (g.expiresAt.map fun e => decide (now < e)).getD true && g.fields.contains field
        && g.clientTokenHash ≠ pendingTokenHash
    candidates.find? fun g =>
      (textBytes g.clientTokenHash).length = 64
        && textBytes (tokenHash E token) = textBytes g.clientTokenHash

def serviceToken (random : Vector UInt8 32) : Text := serviceTokenPrefix ++ hex random.toList

/-- What a new grant is asked for. -/
structure GrantSpec where
  clientId : Text
  entryId : Int64
  fields : List ServiceField
  expiresAt : Option DateTime
  requiredExeSha256 : Option (List Text)
  registrationKeyFingerprint : Option Text

/-- `mint_grant`, with the id, the random bytes and the time it draws. -/
def mintGrant (spec : GrantSpec) (grantId : Uuid) (random : Vector UInt8 32) (now : DateTime) :
    Except Text (ServiceGrant × Text × ServiceGrantStore) :=
  if spec.fields.isEmpty then .error "a grant must name at least one field".toList
  else if spec.registrationKeyFingerprint.any fun fingerprint => !isLowerHex 40 fingerprint then
    .error ("registration key fingerprint must be exactly 40 lowercase hex characters "
      ++ "(OpenPGP v4)").toList
  else if spec.requiredExeSha256.any fun pins => pins.any fun pin => !isLowerHex 64 pin then
    .error "executable pins must be exactly 64 lowercase hex characters (SHA-256)".toList
  else
    let token := serviceToken random
    let grant : ServiceGrant :=
      { policyVersion := 1
        grantId
        clientId := spec.clientId
        entryId := spec.entryId
        fields := spec.fields
        expiresAt := spec.expiresAt
        revokedAt := none
        createdAt := now
        clientTokenHash :=
          if spec.registrationKeyFingerprint.isSome then pendingTokenHash else tokenHash E token
        requiredExeSha256 := spec.requiredExeSha256
        registrationKeyFingerprint := spec.registrationKeyFingerprint }
    .ok (grant, token, ⟨store.grants.upsert grantId grant fun _ => grant⟩)

def rotateToken (grantId : Uuid) (random : Vector UInt8 32) : Option (Text × ServiceGrantStore) :=
  match store.grants.get? grantId with
  | none => none
  | some grant =>
    if grant.revokedAt.isNone then
      let token := serviceToken random
      some (token, ⟨store.grants.update grantId fun g =>
        { g with clientTokenHash := tokenHash E token }⟩)
    else none

def revoke (grantId : Uuid) (now : DateTime) : Option ServiceGrantStore :=
  (store.grants.get? grantId).map fun _ =>
    ⟨store.grants.update grantId fun g => { g with revokedAt := some now }⟩

end ServiceGrantStore

/-! ## Reading and writing -/

section Laws

variable {π φ : Type} {E : GrantEnv π φ} {store : ServiceGrantStore} {b : φ} {g : ServiceGrant}
  {grantId : Uuid} {key : Bytes} {now : DateTime} {order : MapOrder ServiceGrant} {payload : π}
  {random : Vector UInt8 32} {raw values : List ServiceGrant} {store' : ServiceGrantStore}
  {token : Text}

theorem ServiceGrantStore.mem_values :
    g ∈ store.values order ↔ ∃ id, store.grants.get? id = some g := by
  simp only [values, MapOrder.mem_arrange, List.mem_map, Prod.exists, exists_eq_right]
  exact exists_congr fun id => mem_rows

/-! ### Authorization -/

open ServiceGrantStore

/-- The grant lets the client read this field of this entry with this token. -/
structure Authorizes (E : GrantEnv π φ) (g : ServiceGrant) (clientId token : Text) (entryId : Int64)
    (field : ServiceField) (now : DateTime) : Prop where
  client : g.clientId = clientId
  entry : g.entryId = entryId
  field : field ∈ g.fields
  unrevoked : g.revokedAt = none
  unexpired : ∀ e ∈ g.expiresAt, now < e
  token : g.clientTokenHash = tokenHash E token
  enrolled : g.clientTokenHash ≠ pendingTokenHash

/-- What a grant that authorizes a request looks like. -/
theorem authorize_eq_some {clientId : Text} {entryId : Int64} {field : ServiceField}
    (h : store.authorize E order clientId token entryId field now = some g) :
    (∃ id, store.grants.get? id = some g) ∧ Authorizes E g clientId token entryId field now := by
  unfold authorize at h
  split at h
  · cases h
  have hmem := List.mem_of_find?_eq_some h
  have htoken := List.find?_some h
  simp only [List.mem_filter, Bool.and_eq_true, decide_eq_true_eq, Option.isNone_iff_eq_none,
    List.contains_iff_mem] at hmem htoken
  obtain ⟨hmem, ⟨⟨⟨⟨hclient, hentry⟩, hrevoked⟩, hexpiry⟩, hfield⟩, hpending⟩ := hmem
  refine ⟨mem_values.mp hmem, hclient, hentry, hfield, hrevoked, ?_,
    (textBytes_injective htoken.2).symm, hpending⟩
  intro e he
  rw [Option.mem_def.mp he] at hexpiry
  simpa using hexpiry

/-! ### Documents -/

theorem collectGrants_ok {grants} (h : collectGrants raw = .ok grants) {id}
    (hg : grants.get? id = some g) : g ∈ raw ∧ g.grantId = id := by
  refine foldlM_ok_invariant (P := fun grants =>
    ∀ id g, grants.get? id = some g → g ∈ raw ∧ g.grantId = id) h (by simp) ?_ id g hg
  intro grants grants' a ha hinv heq
  unfold collectGrant at heq
  split at heq
  · cases heq
  rename_i hins
  cases heq
  obtain ⟨-, -, hget⟩ := insert?_eq_some hins
  intro id g hg
  rw [hget] at hg
  split at hg
  · next hid =>
    cases hg
    exact ⟨ha, hid.symm⟩
  · exact hinv id g hg

theorem collectGrants_of_nodup (h : (raw.map ServiceGrant.grantId).Nodup) :
    ∃ grants, collectGrants raw = .ok grants ∧ ∀ g ∈ raw, grants.get? g.grantId = some g := by
  suffices hloop : ∀ t : Table Uuid ServiceGrant, (∀ g ∈ raw, t.get? g.grantId = none) →
      ∃ grants, raw.foldlM collectGrant t = .ok grants ∧
      (∀ g ∈ raw, grants.get? g.grantId = some g) ∧
        ∀ id, id ∉ raw.map ServiceGrant.grantId → grants.get? id = t.get? id by
    obtain ⟨grants, hok, hget, -⟩ := hloop .empty (by simp)
    exact ⟨grants, hok, hget⟩
  induction raw with
  | nil => exact fun t _ => ⟨t, rfl, by simp, fun _ _ => rfl⟩
  | cons a rest ih =>
    intro t hnew
    rw [List.map_cons, List.nodup_cons] at h
    obtain ⟨t', ht'⟩ : ∃ t', t.insert? a.grantId a = some t' := by
      rw [← Option.isSome_iff_exists, Option.isSome_iff_ne_none]
      intro hnone
      obtain ⟨w, hw⟩ := insert?_eq_none.mp hnone
      rw [hnew a List.mem_cons_self] at hw
      cases hw
    obtain ⟨-, -, hget⟩ := insert?_eq_some ht'
    have hrest : ∀ g ∈ rest, t'.get? g.grantId = none := by
      intro g hg
      have hne : g.grantId ≠ a.grantId := fun heq => h.1 (heq ▸ List.mem_map_of_mem hg)
      rw [hget, if_neg hne]
      exact hnew g (List.mem_cons_of_mem a hg)
    obtain ⟨grants, hok, hin, hout⟩ := ih h.2 t' hrest
    refine ⟨grants, ?_, ?_, ?_⟩
    · rw [List.foldlM_cons, collectGrant, ht']
      exact hok
    · intro g hg
      rcases List.mem_cons.mp hg with rfl | hg
      · rw [hout _ h.1, hget, if_pos rfl]
      · exact hin g hg
    · intro id hid
      rw [List.map_cons, List.mem_cons, not_or] at hid
      rw [hout id hid.2, hget, if_neg hid.1]

/-- The document at the path, under some key, lists the grant. -/
def StoreFile.Lists (E : GrantEnv π φ) (file : StoreFile φ) (g : ServiceGrant) : Prop :=
  ∃ b key payload raw, file = .bytes b ∧ openPayload E b key = .ok payload ∧
    E.grantsFromStr payload = some raw ∧ g ∈ raw

theorem not_lists_absent : ¬ (StoreFile.absent : StoreFile φ).Lists E g := by
  rintro ⟨b, key, payload, raw, h, -⟩
  cases h

/-- A loaded store holds the listed grants under their ids. -/
theorem mem_of_loadFromPath {file : StoreFile φ} (h : loadFromPath E file key = .ok store)
    {id : Uuid} (hg : store.grants.get? id = some g) : file.Lists E g ∧ g.grantId = id := by
  unfold loadFromPath at h
  split at h
  · cases h
    cases hg
  · cases h
  rename_i b
  split at h
  · cases h
  obtain ⟨payload, hpayload, h⟩ := bind_ok h
  split at h
  · cases h
  rename_i raw hraw
  obtain ⟨grants, hgrants, h⟩ := bind_ok h
  split at h
  · cases h
  · cases h
    obtain ⟨hmem, hid⟩ := collectGrants_ok hgrants hg
    exact ⟨⟨b, key, payload, raw, rfl, hpayload, hraw, hmem⟩, hid⟩

/-- Every grant is filed under its id, in the one version that is understood. -/
def ServiceGrantStore.Filed (store : ServiceGrantStore) : Prop :=
  ∀ id g, store.grants.get? id = some g → g.grantId = id ∧ g.policyVersion = 1

theorem filed_of_loadFromPath {file} (h : loadFromPath E file key = .ok store) : store.Filed := by
  intro id g hg
  refine ⟨(mem_of_loadFromPath h hg).2, ?_⟩
  unfold loadFromPath at h
  split at h
  · cases h
    cases hg
  · cases h
  split at h
  · cases h
  obtain ⟨payload, -, h⟩ := bind_ok h
  split at h
  · cases h
  obtain ⟨grants, -, h⟩ := bind_ok h
  split at h
  · cases h
  rename_i hversions
  cases h
  simpa using List.find?_eq_none.mp hversions _ (mem_rows.mpr hg)

theorem sealPayload_ok (h : sealPayload E payload key = .ok b) :
    b = E.envelopeToVec ⟨2, payload, hex (E.mac key payload)⟩ ∧ E.size b ≤ maxStoreBytes := by
  unfold sealPayload at h
  dsimp only at h
  split at h
  · cases h
  rename_i hsize
  cases h
  exact ⟨rfl, Nat.not_lt.mp hsize⟩

theorem openPayload_sealed (hE : E.Lawful) {payload' key'} (hb : sealPayload E payload key = .ok b)
    (h : openPayload E b key' = .ok payload') : payload' = payload := by
  unfold openPayload at h
  rw [(sealPayload_ok hb).1, hE.envelope] at h
  dsimp only at h
  split at h
  · cases h
  split at h
  · cases h
    rfl
  · cases h

theorem openPayload_of_sealed (hE : E.Lawful) (hb : sealPayload E payload key = .ok b) :
    openPayload E b key = .ok payload := by
  unfold openPayload
  rw [(sealPayload_ok hb).1, hE.envelope]
  have hlength : (E.mac key payload).length = 32 := Vector.length_toList
  have hdecode : hexDecode (hex (E.mac key payload)) = some (E.mac key payload) := by
    rw [hexDecode, map_toLower_hex, unhex_hex]
  dsimp only
  rw [if_neg (by rw [length_textBytes_hex, hlength]; decide), if_pos hdecode]

theorem ServiceGrantStore.Filed.nodup (h : store.Filed) (order) :
    ((store.values order).map ServiceGrant.grantId).Nodup := by
  have hkeys : (store.grants.rows.map Prod.snd).map ServiceGrant.grantId
      = store.grants.rows.map Prod.fst := by
    rw [List.map_map]
    refine List.map_congr_left ?_
    rintro ⟨id, g⟩ hrow
    exact (h id g (mem_rows.mp hrow)).1
  have hperm := ((order.perm (store.grants.rows.map Prod.snd)).map ServiceGrant.grantId).nodup_iff
  exact hperm.mpr (hkeys ▸ store.grants.keys_nodup)

/-- A store that was written is read back. -/
theorem loadFromPath_sealed (hE : E.Lawful) (hfiled : store.Filed)
    (hb : sealPayload E (E.grantsToString (store.values order)) key = .ok b) :
    ∃ store', loadFromPath E (.bytes b) key = .ok store' ∧
      ∀ id g, store.grants.get? id = some g → store'.grants.get? id = some g := by
  obtain ⟨grants, hgrants, hget⟩ := collectGrants_of_nodup (hfiled.nodup order)
  have hversions : (grants.rows.find? fun row => row.2.policyVersion ≠ 1) = none := by
    refine List.find?_eq_none.mpr ?_
    rintro ⟨id, g⟩ hrow
    obtain ⟨hmem, -⟩ := collectGrants_ok hgrants (mem_rows.mp hrow)
    obtain ⟨id', hg⟩ := mem_values.mp hmem
    simpa using (hfiled id' g hg).2
  refine ⟨⟨grants⟩, ?_, ?_⟩
  · unfold loadFromPath
    dsimp only
    rw [if_neg (Nat.not_lt.mpr (sealPayload_ok hb).2), openPayload_of_sealed hE hb]
    show (match E.grantsFromStr (E.grantsToString (store.values order)) with
      | none => _
      | some raw => _) = _
    rw [hE.grants]
    dsimp only
    rw [hgrants]
    show (match grants.rows.find? fun row => row.2.policyVersion ≠ 1 with
      | some row => _
      | none => _) = _
    rw [hversions]
  · intro id g hg
    have := hget g (mem_values.mpr ⟨id, hg⟩)
    rwa [(hfiled id g hg).1] at this

theorem lists_sealed (hE : E.Lawful) (hb : sealPayload E (E.grantsToString values) key = .ok b)
    (h : (StoreFile.bytes b).Lists E g) : g ∈ values := by
  obtain ⟨b', key', payload, raw, heq, hopen, hraw, hg⟩ := h
  cases heq
  rw [openPayload_sealed hE hb hopen, hE.grants] at hraw
  cases hraw
  exact hg

theorem saveToPath_cases {fs fault result fs'}
    (h : saveToPath E fs values key fault = (result, fs')) :
    ((∃ e, result = .unpublished e) ∧ fs' = fs) ∨
      ∃ b, sealPayload E (E.grantsToString values) key = .ok b ∧ fs'.file = .bytes b ∧
        ((∃ e, result = .unsynced e) ∧ fs'.undo = fs.file :: fs.undo ∨
          result = .saved ∧ fs'.undo = []) := by
  unfold saveToPath at h
  split at h
  · cases h
    exact .inl ⟨⟨_, rfl⟩, rfl⟩
  · cases h
    exact .inl ⟨⟨_, rfl⟩, rfl⟩
  · next body hbody =>
    cases h
    exact .inr ⟨body, hbody, rfl, .inl ⟨⟨_, rfl⟩, rfl⟩⟩
  · next body hbody =>
    cases h
    exact .inr ⟨body, hbody, rfl, .inr ⟨rfl, rfl⟩⟩

/-! ### Operations on the store -/

theorem mintGrant_ok {spec grant}
    (h : store.mintGrant E spec grantId random now = .ok (grant, token, store')) :
    grant.grantId = grantId ∧ grant.policyVersion = 1 ∧
      (∀ fingerprint, grant.registrationKeyFingerprint = some fingerprint →
        grant.clientTokenHash = pendingTokenHash) ∧
      ∀ id, store'.grants.get? id = if id = grantId then some grant else store.grants.get? id := by
  unfold mintGrant at h
  split at h
  · cases h
  split at h
  · cases h
  split at h
  · cases h
  · cases h
    refine ⟨rfl, rfl, ?_, ?_⟩
    · intro fingerprint hsome
      dsimp only at hsome
      simp [hsome]
    · intro id
      rw [get?_upsert]
      split
      · cases store.grants.get? grantId <;> rfl
      · rfl

theorem rotateToken_eq_some (h : store.rotateToken E grantId random = some (token, store')) :
    ∃ grant, store.grants.get? grantId = some grant ∧ grant.revokedAt = none ∧
      token = serviceToken random ∧
      ∀ id, store'.grants.get? id = if id = grantId then
          some { grant with clientTokenHash := tokenHash E token }
        else store.grants.get? id := by
  unfold rotateToken at h
  split at h
  · cases h
  rename_i grant hgrant
  split at h
  · next hlive =>
    cases h
    refine ⟨grant, hgrant, Option.isNone_iff_eq_none.mp hlive, rfl, ?_⟩
    intro id
    rw [get?_update, hgrant]
    rfl
  · cases h

theorem revoke_eq_some (h : store.revoke grantId now = some store') :
    ∃ grant, store.grants.get? grantId = some grant ∧ ∀ id, store'.grants.get? id =
        if id = grantId then some { grant with revokedAt := some now }
        else store.grants.get? id := by
  obtain ⟨grant, hgrant, h⟩ := Option.map_eq_some_iff.mp h
  cases h
  refine ⟨grant, hgrant, ?_⟩
  intro id
  rw [get?_update, hgrant]
  rfl

end Laws

end SentinelPass.Ipc
