import SentinelPass.Vault.Receipts

/-!
# The receipt journal

`ContentTransaction` and its sidecar file (`content_guard.rs`). A commit has three durable
steps: the journal is saved with the new receipts pending, SQLite commits, the journal is
saved with the new receipts stable. A crash may come before and after each of them, a save
may fail before or after its rename, and a rename whose directory sync failed may be undone
by a loss of power. The next `begin` adopts the pending receipts if the content has them, but
saves nothing. Each call brings the key of its caller, who opened the vault earlier.

`Good` says what a journal file is for the database beside it: it opens under the current
key, its stable or its pending receipts are those of the content, and both are receipts of
the last acknowledged commit or of one attempted since. `TxOk` carries it from step to step
of a commit.
-/

namespace SentinelPass.ContentGuard

open Lib ContentGuard

/-! ## The journal file -/

/-- `State`. -/
structure JournalState where
  version : UInt32
  vault : Text
  stable : Receipts
  pending : Option Receipts

structure Document (τ : Type) where
  state : JournalState
  mac : τ
  secondaryMac : Option τ

def maxBytes : Nat := 64 * 1024 * 1024

/-- The digest, the HMAC of a state under the key derived from a DEK, and the length of the
text of a document. -/
structure GuardEnv (κ τ : Type) where
  sha256 : Bytes → Vector UInt8 32
  mac : κ → JournalState → τ
  size : Document τ → Nat

/-- What the guard reads of the database. -/
structure Db (κ : Type) where
  vault : Text
  dek : κ
  content : Content
  marked : Bool

section Model

variable {κ τ : Type}

/-- The document that `save` writes. -/
def authenticated (E : GuardEnv κ τ) (dek : κ) (state : JournalState) : Document τ :=
  ⟨state, E.mac dek state, none⟩

def load [DecidableEq τ] (E : GuardEnv κ τ) (dek : κ) (vault : Text) :
    Option (Document τ) → Except GuardError (Option JournalState)
  | none => .ok none
  | some doc =>
    if maxBytes < E.size doc then .error .refusal
    else if doc.mac ≠ E.mac dek doc.state ∧ doc.secondaryMac ≠ some (E.mac dek doc.state) then
      .error .refusal
    else if doc.state.version ≠ 1 ∨ doc.state.vault ≠ vault then .error .refusal
    else .ok (some doc.state)

def verifySnapshot [DecidableEq τ] (E : GuardEnv κ τ) (dek : κ) (db : Db κ)
    (file : Option (Document τ)) : Except GuardError Unit := do
  match ← load E dek db.vault file with
  | none => if db.marked then .error .refusal else .ok ()
  | some state =>
    let current ← snapshot E.sha256 db.content
    if current ≠ state.stable ∧ state.pending ≠ some current then .error .refusal else .ok ()

/-- The state that `begin` goes on with. -/
def openState [DecidableEq τ] (E : GuardEnv κ τ) (dek : κ) (db : Db κ)
    (file : Option (Document τ)) : Except GuardError JournalState := do
  let current ← snapshot E.sha256 db.content
  let state ← match ← load E dek db.vault file with
    | some state => .ok state
    | none => if db.marked then .error .refusal else .ok ⟨1, db.vault, current, none⟩
  if state.stable ≠ current ∧ state.pending ≠ some current then .error .refusal
  else .ok { state with stable := current, pending := none }

/-! ## Transactions -/

/-- Where a transaction is. -/
inductive TxPhase
  | opened
  | saved
  | committed
  | keySaved
deriving DecidableEq

/-- `ContentTransaction`: the key it was opened with, the database as the transaction sees it
and the state of its guard. -/
structure Tx (κ : Type) where
  key : κ
  db : Db κ
  state : JournalState
  phase : TxPhase

/-- The database and the journal file on the disk; `synced` is the file that a loss of power
leaves. `acked` are the receipts of the last commit that returned `Ok`, `since` those of the
commits that have written to the journal after it. -/
structure Store (κ τ : Type) where
  db : Db κ
  (file synced : Option (Document τ))
  tx : Option (Tx κ)
  acked : Option Receipts
  since : List Receipts

/-- How a save ends: before its rename, after it but without the sync, or well. -/
inductive SaveOutcome
  | failed
  | unsynced
  | saved
deriving DecidableEq

/-- The steps of the calls. `beginTx` has the key of the caller. -/
inductive Action (κ : Type)
  | beginTx (dek : κ)
  | modify (content : Content)
  | abort
  | firstSave (outcome : SaveOutcome)
  | sqlCommit (ok : Bool)
  | secondSave (outcome : SaveOutcome)
  | keySave (replacement : κ) (outcome : SaveOutcome)
  | crash
  | powerLoss (keep : Bool)

/-- `save`, and how it ended. -/
def Store.save (E : GuardEnv κ τ) (s : Store κ τ) (doc : Document τ) (outcome : SaveOutcome) :
    Store κ τ × SaveOutcome :=
  if maxBytes < E.size doc then (s, .failed)
  else
    match outcome with
    | .failed => (s, .failed)
    | .unsynced => ({ s with file := some doc }, .unsynced)
    | .saved => ({ s with file := some doc, synced := some doc }, .saved)

/-- The first save of a commit. `written` are its receipts, for the record of what has been
attempted. -/
def Store.saveFirst (E : GuardEnv κ τ) (s : Store κ τ) (doc : Document τ) (written : Receipts)
    (outcome : SaveOutcome) (next : Tx κ) : Store κ τ :=
  match s.save E doc outcome with
  | (s', .failed) => { s' with tx := none }
  | (s', .unsynced) => { s' with tx := none, since := s.since ++ [written] }
  | (s', .saved) => { s' with tx := some next, since := s.since ++ [written] }

/-- `commit`, up to its first save. -/
def firstSave (E : GuardEnv κ τ) (s : Store κ τ) (t : Tx κ) (outcome : SaveOutcome) : Store κ τ :=
  match snapshot E.sha256 t.db.content with
  | .error _ => { s with tx := none }
  | .ok written =>
    let state := { t.state with pending := some written }
    s.saveFirst E (authenticated E t.key state) written outcome
      { t with state := state, phase := .saved }

/-- `commit_empty_key_change`, up to its save. -/
def keySave (E : GuardEnv κ τ) (s : Store κ τ) (t : Tx κ) (replacement : κ)
    (outcome : SaveOutcome) : Store κ τ :=
  if snapshot E.sha256 t.db.content = .ok ∅ ∧ t.state.stable = ∅ then
    let state := { t.state with pending := some ∅ }
    s.saveFirst E ⟨state, E.mac t.key state, some (E.mac replacement state)⟩ ∅ outcome
      { t with db := { t.db with dek := replacement }, state := state, phase := .keySaved }
  else { s with tx := none }

def secondSave (E : GuardEnv κ τ) (s : Store κ τ) (t : Tx κ) (written : Receipts)
    (outcome : SaveOutcome) : Store κ τ :=
  let state := { t.state with stable := written, pending := none }
  match s.save E (authenticated E t.key state) outcome with
  | (s', .saved) => { s' with tx := none, acked := some written, since := [] }
  | (s', _) => { s' with tx := none }

def guardStep [DecidableEq τ] (E : GuardEnv κ τ) (s : Store κ τ) : Action κ → Option (Store κ τ)
  | .beginTx dek =>
    match s.tx, openState E dek s.db s.file with
    | some _, _ => none
    | none, .error _ => some s
    | none, .ok state =>
      some { s with tx := some ⟨dek, { s.db with marked := true }, state, .opened⟩ }
  | .modify content =>
    s.tx.bind fun t =>
      if t.phase = .opened then
        some { s with tx := some { t with db := { t.db with content := content } } }
      else none
  | .abort => s.tx.bind fun t => if t.phase = .opened then some { s with tx := none } else none
  | .firstSave outcome =>
    s.tx.bind fun t => if t.phase = .opened then some (firstSave E s t outcome) else none
  | .keySave replacement outcome =>
    s.tx.bind fun t =>
      if t.phase = .opened then some (keySave E s t replacement outcome) else none
  | .sqlCommit ok =>
    s.tx.bind fun t =>
      match t.phase, ok with
      | .saved, true => some { s with db := t.db, tx := some { t with phase := .committed } }
      | .keySaved, true => some { s with db := t.db, tx := none, acked := some ∅, since := [] }
      | .saved, false | .keySaved, false => some { s with tx := none }
      | _, _ => none
  | .secondSave outcome =>
    s.tx.bind fun t =>
      match t.phase, t.state.pending with
      | .committed, some written => some (secondSave E s t written outcome)
      | _, _ => none
  | .crash => some { s with tx := none }
  | .powerLoss keep =>
    let file := if keep then s.file else s.synced
    some { s with tx := none, file := file, synced := file }

/-- A vault before its first transaction under the guard. -/
def guardMachine [DecidableEq τ] (E : GuardEnv κ τ) : Machine (Store κ τ) (Action κ) where
  init s := ∃ db r, snapshot E.sha256 db.content = .ok r ∧ db.marked = false ∧
    s = ⟨db, none, none, none, none, []⟩
  step := guardStep E

/-- A `begin` has the key that the database has. -/
def KeyCurrent (s : Store κ τ) : Action κ → Prop
  | .beginTx dek => dek = s.db.dek
  | _ => True

instance [DecidableEq κ] (s : Store κ τ) (a : Action κ) : Decidable (KeyCurrent s a) := by
  unfold KeyCurrent
  split <;> infer_instance

/-! ## The invariant -/

/-- The receipts are those of the last acknowledged commit, or of one attempted since. -/
def Known (acked : Option Receipts) (since : List Receipts) (r : Receipts) : Prop :=
  ∀ q, acked = some q → r = q ∨ r ∈ since

def Good (E : GuardEnv κ τ) (db : Db κ) (acked : Option Receipts) (since : List Receipts) :
    Option (Document τ) → Prop
  | none => db.marked = false ∧ acked = none
  | some doc => E.size doc ≤ maxBytes ∧
      (doc.mac = E.mac db.dek doc.state ∨ doc.secondaryMac = some (E.mac db.dek doc.state)) ∧
      doc.state.version = 1 ∧ doc.state.vault = db.vault ∧
      (∃ r, snapshot E.sha256 db.content = .ok r ∧
        (doc.state.stable = r ∨ doc.state.pending = some r)) ∧
      Known acked since doc.state.stable ∧ ∀ p, doc.state.pending = some p → Known acked since p

/-- What every phase of a transaction has. -/
structure TxBase (s : Store κ τ) (t : Tx κ) : Prop where
  version : t.state.version = 1
  vault : t.state.vault = s.db.vault
  dbVault : t.db.vault = s.db.vault
  key : t.key = s.db.dek
  stable : Known s.acked s.since t.state.stable

/-- The journal has been saved with the state of the transaction. -/
def Saved (E : GuardEnv κ τ) (s : Store κ τ) (doc : Document τ) : Prop :=
  s.file = some doc ∧ s.synced = some doc ∧ E.size doc ≤ maxBytes

def TxOk (E : GuardEnv κ τ) (s : Store κ τ) (t : Tx κ) : Prop :=
  TxBase s t ∧
  match t.phase with
  | .opened => t.db.dek = s.db.dek ∧ snapshot E.sha256 s.db.content = .ok t.state.stable
  | .saved => t.db.dek = s.db.dek ∧ Saved E s (authenticated E t.key t.state) ∧
      ∃ p, snapshot E.sha256 t.db.content = .ok p ∧ t.state.pending = some p ∧
        Known s.acked s.since p
  | .committed => ∃ p, snapshot E.sha256 s.db.content = .ok p ∧ t.state.pending = some p ∧
      Known s.acked s.since p
  | .keySaved => Saved E s ⟨t.state, E.mac t.key t.state, some (E.mac t.db.dek t.state)⟩ ∧
      snapshot E.sha256 t.db.content = .ok ∅ ∧ t.state.stable = ∅ ∧ t.state.pending = some ∅

structure StoreInv (E : GuardEnv κ τ) (s : Store κ τ) : Prop where
  snap : ∃ r, snapshot E.sha256 s.db.content = .ok r
  file : Good E s.db s.acked s.since s.file
  synced : Good E s.db s.acked s.since s.synced
  tx : ∀ t, s.tx = some t → TxOk E s t

/-! ## What the journal accepts -/

variable {E : GuardEnv κ τ} {s s' : Store κ τ} {db : Db κ} {acked : Option Receipts}
  {since : List Receipts}

theorem Known.mono {r : Receipts} (h : Known acked since r) (w : Receipts) :
    Known acked (since ++ [w]) r := by
  intro q hq
  rcases h q hq with h | h
  · exact .inl h
  exact .inr (List.mem_append_left _ h)

theorem Known.last (w : Receipts) : Known acked (since ++ [w]) w :=
  fun _ _ => .inr (List.mem_append_right _ (List.mem_singleton_self w))

variable {file : Option (Document τ)} {t : Tx κ}

theorem Good.mono (h : Good E db acked since file) (w : Receipts) :
    Good E db acked (since ++ [w]) file := by
  cases file with
  | none => exact h
  | some doc =>
    obtain ⟨hsize, hmac, hversion, hvault, hr, hstable, hpending⟩ := h
    exact ⟨hsize, hmac, hversion, hvault, hr, hstable.mono w, fun p hp => (hpending p hp).mono w⟩

theorem Good.load [DecidableEq τ] {doc : Document τ} (h : Good E db acked since (some doc)) :
    load E db.dek db.vault (some doc) = .ok (some doc.state) := by
  obtain ⟨hsize, hmac, hversion, hvault, -⟩ := h
  have hvalid : ¬ (doc.mac ≠ E.mac db.dek doc.state ∧
      doc.secondaryMac ≠ some (E.mac db.dek doc.state)) := by
    rintro ⟨h₁, h₂⟩
    exact hmac.elim h₁ h₂
  have hstate : ¬ (doc.state.version ≠ 1 ∨ doc.state.vault ≠ db.vault) := by
    simp only [hversion, hvault, ne_eq, not_true_eq_false, or_self, not_false_eq_true]
  rw [ContentGuard.load, if_neg (Nat.not_lt.mpr hsize), if_neg hvalid, if_neg hstate]

/-- `begin` goes through, with the receipts of the content. -/
theorem Good.openState [DecidableEq τ] {r : Receipts} (h : Good E db acked since file)
    (hr : snapshot E.sha256 db.content = .ok r) :
    ∃ state, openState E db.dek db file = .ok state ∧ state.version = 1 ∧ state.vault = db.vault ∧
      state.stable = r ∧ Known acked since r := by
  cases file with
  | none =>
    obtain ⟨hmarked, hacked⟩ := h
    refine ⟨⟨1, db.vault, r, none⟩, ?_, rfl, rfl, rfl, ?_⟩
    · simp [ContentGuard.openState, hr, bind, Except.bind, ContentGuard.load, hmarked]
    · simp [Known, hacked]
  | some doc =>
    have hload := h.load
    obtain ⟨-, -, hversion, hvault, ⟨r', hr', hor⟩, hstable, hpending⟩ := h
    obtain rfl : r = r' := Except.ok.inj (hr.symm.trans hr')
    refine ⟨{ doc.state with stable := r, pending := none }, ?_, hversion, hvault, rfl, ?_⟩
    · have hmem : ¬ (doc.state.stable ≠ r ∧ doc.state.pending ≠ some r) := by
        rintro ⟨h₁, h₂⟩
        exact hor.elim h₁ h₂
      simp only [openState, hr, bind, Except.bind, hload, if_neg hmem]
    · rcases hor with h | h
      · exact h ▸ hstable
      · exact hpending r h

theorem Good.verifySnapshot [DecidableEq τ] (h : Good E db acked since file) :
    verifySnapshot E db.dek db file = .ok () := by
  cases file with
  | none => simp [ContentGuard.verifySnapshot, ContentGuard.load, h.1, bind, Except.bind]
  | some doc =>
    have hload := h.load
    obtain ⟨-, -, -, -, ⟨r, hr, hor⟩, -⟩ := h
    have hmem : ¬ (r ≠ doc.state.stable ∧ doc.state.pending ≠ some r) := by
      rintro ⟨h₁, h₂⟩
      exact hor.elim (fun h => h₁ h.symm) h₂
    simp only [verifySnapshot, hload, hr, bind, Except.bind, if_neg hmem]

/-- `content` would be accepted in the place of the content of the database, by
`verify_snapshot` or by `begin`, from a caller with the key of the database. -/
def Accepts [DecidableEq τ] (E : GuardEnv κ τ) (db : Db κ) (file : Option (Document τ))
    (content : Content) : Prop :=
  verifySnapshot E db.dek { db with content := content } file = .ok () ∨
    ∃ state, openState E db.dek { db with content := content } file = .ok state

/-- Once a commit has been acknowledged, only its receipts and those attempted since are
accepted. -/
theorem Good.accepts [DecidableEq τ] {q : Receipts} {content : Content}
    (h : Good E db (some q) since file)
    (hacc : Accepts E db file content) :
    ∃ p, snapshot E.sha256 content = .ok p ∧ (p = q ∨ p ∈ since) := by
  cases file with
  | none => cases h.2
  | some doc =>
    have hload := h.load
    obtain ⟨-, -, -, -, -, hstable, hpending⟩ := h
    have hknown : ∀ p, ¬ (p ≠ doc.state.stable ∧ doc.state.pending ≠ some p) →
        p = q ∨ p ∈ since := by
      intro p hp
      by_cases hs : p = doc.state.stable
      · exact hs ▸ hstable q rfl
      · exact hpending p (not_not.mp fun h => hp ⟨hs, h⟩) q rfl
    rcases hacc with hverify | ⟨state, hopen⟩
    · obtain ⟨loaded, hl, hrest⟩ := bind_ok hverify
      cases Except.ok.inj (hload.symm.trans hl)
      obtain ⟨p, hp, hite⟩ := bind_ok hrest
      exact ⟨p, hp, hknown p (ite_error_eq_ok.mp hite).1⟩
    · obtain ⟨p, hp, hrest⟩ := bind_ok hopen
      obtain ⟨loaded, hl, hstate⟩ := bind_ok hrest
      cases Except.ok.inj (hload.symm.trans hl)
      obtain ⟨_, heq, hite⟩ := bind_ok hstate
      cases heq
      exact ⟨p, hp, hknown p fun h => (ite_error_eq_ok.mp hite).1 ⟨fun h' => h.1 h'.symm, h.2⟩⟩

/-! ## The steps -/

theorem Store.save_cases (E : GuardEnv κ τ) (s : Store κ τ) (doc : Document τ)
    (outcome : SaveOutcome) :
    s.save E doc outcome = (s, .failed) ∨ E.size doc ≤ maxBytes ∧
      (s.save E doc outcome = ({ s with file := some doc }, .unsynced) ∨
        s.save E doc outcome = ({ s with file := some doc, synced := some doc }, .saved)) := by
  unfold Store.save
  split
  · exact .inl rfl
  rename_i hsize
  cases outcome with
  | failed => exact .inl rfl
  | unsynced => exact .inr ⟨Nat.not_lt.mp hsize, .inl rfl⟩
  | saved => exact .inr ⟨Nat.not_lt.mp hsize, .inr rfl⟩

theorem StoreInv.drop (h : StoreInv E s) : StoreInv E { s with tx := none } :=
  ⟨h.snap, h.file, h.synced, by simp⟩

/-- A first save keeps the invariant if its document is good. -/
theorem StoreInv.saveFirst {doc : Document τ} {next : Tx κ} (h : StoreInv E s) (w : Receipts)
    (outcome : SaveOutcome)
    (hdoc : E.size doc ≤ maxBytes → Good E s.db s.acked (s.since ++ [w]) (some doc))
    (hnext : ∀ s', s'.db = s.db → s'.acked = s.acked → s'.since = s.since ++ [w] →
      Saved E s' doc → TxOk E s' next) :
    StoreInv E (s.saveFirst E doc w outcome next) := by
  unfold Store.saveFirst
  rcases s.save_cases E doc outcome with hs | ⟨hsize, hs | hs⟩
  · rw [hs]
    exact h.drop
  · rw [hs]
    exact ⟨h.snap, hdoc hsize, h.synced.mono w, by simp⟩
  · rw [hs]
    refine ⟨h.snap, hdoc hsize, hdoc hsize, ?_⟩
    rintro t ⟨⟩
    exact hnext _ rfl rfl rfl ⟨rfl, rfl, hsize⟩

theorem TxBase.moved (h : TxBase s t) (w : Receipts) (hdb : s'.db = s.db)
    (hacked : s'.acked = s.acked) (hsince : s'.since = s.since ++ [w]) (phase : TxPhase) :
    TxBase s' { t with state := { t.state with pending := some w }, phase := phase } :=
  ⟨h.version, hdb ▸ h.vault, hdb ▸ h.dbVault, hdb ▸ h.key, hacked ▸ hsince ▸ h.stable.mono w⟩

/-- A document of the opened transaction, with what it is about to commit. -/
theorem TxBase.good {w : Receipts} {next : Option τ} (h : TxBase s t)
    (hcontent : snapshot E.sha256 s.db.content = .ok t.state.stable)
    (hsize : E.size ⟨{ t.state with pending := some w },
      E.mac t.key { t.state with pending := some w }, next⟩ ≤ maxBytes) :
    Good E s.db s.acked (s.since ++ [w]) (some ⟨{ t.state with pending := some w },
      E.mac t.key { t.state with pending := some w }, next⟩) := by
  refine ⟨hsize, .inl (h.key ▸ rfl), h.version, h.vault, ⟨_, hcontent, .inl rfl⟩,
    h.stable.mono w, ?_⟩
  rintro p ⟨⟩
  exact Known.last w

section

variable (h : StoreInv E s) (ht : s.tx = some t)

include h ht

theorem StoreInv.firstSave (hphase : t.phase = .opened) (outcome : SaveOutcome) :
    StoreInv E (firstSave E s t outcome) := by
  obtain ⟨hbase, hopened⟩ := h.tx t ht
  rw [hphase] at hopened
  obtain ⟨hdek, hcontent⟩ := hopened
  unfold ContentGuard.firstSave
  split
  · exact h.drop
  rename_i w hw
  refine h.saveFirst w outcome (hbase.good hcontent) fun s' hdb hacked hsince hsaved => ?_
  exact ⟨hbase.moved w hdb hacked hsince _, hdb ▸ hdek, hsaved, w, hw, rfl, hsince ▸ Known.last w⟩

theorem StoreInv.keySave (hphase : t.phase = .opened) (replacement : κ) (outcome : SaveOutcome) :
    StoreInv E (keySave E s t replacement outcome) := by
  obtain ⟨hbase, hopened⟩ := h.tx t ht
  rw [hphase] at hopened
  unfold ContentGuard.keySave
  split
  · rename_i hempty
    refine h.saveFirst ∅ outcome (hbase.good hopened.2) fun s' hdb hacked hsince hsaved => ?_
    obtain ⟨hversion, hvault, hdbVault, hkey, hstable⟩ := hbase.moved ∅ hdb hacked hsince .keySaved
    exact ⟨⟨hversion, hvault, hdbVault, hkey, hstable⟩, hsaved, hempty.1, hempty.2, rfl⟩
  · exact h.drop

theorem StoreInv.secondSave {w : Receipts} (hphase : t.phase = .committed)
    (hw : t.state.pending = some w) (outcome : SaveOutcome) :
    StoreInv E (secondSave E s t w outcome) := by
  obtain ⟨hbase, hcommitted⟩ := h.tx t ht
  rw [hphase] at hcommitted
  obtain ⟨p, hp, hpending, hknown⟩ := hcommitted
  obtain rfl : w = p := Option.some.inj (hw.symm.trans hpending)
  have hdoc : ∀ acked since doc, Known acked since w → E.size doc ≤ maxBytes →
      doc = authenticated E t.key { t.state with stable := w, pending := none } →
      Good E s.db acked since (some doc) := by
    rintro acked since _ hk hsize rfl
    exact ⟨hsize, .inl (hbase.key ▸ rfl), hbase.version, hbase.vault, ⟨w, hp, .inl rfl⟩, hk,
      by simp [authenticated]⟩
  unfold ContentGuard.secondSave
  rcases s.save_cases E (authenticated E t.key { t.state with stable := w, pending := none })
    outcome with hs | ⟨hsize, hs | hs⟩
  · simp only [hs]
    exact h.drop
  · simp only [hs]
    exact ⟨h.snap, hdoc _ _ _ hknown hsize rfl, h.synced, by simp⟩
  · simp only [hs]
    have hself : Known (some w) [] w := fun _ hq => .inl (Option.some.inj hq)
    exact ⟨h.snap, hdoc _ _ _ hself hsize rfl, hdoc _ _ _ hself hsize rfl, by simp⟩

theorem StoreInv.sqlCommit (hphase : t.phase = .saved) :
    StoreInv E { s with db := t.db, tx := some { t with phase := .committed } } := by
  obtain ⟨hbase, hsaved⟩ := h.tx t ht
  rw [hphase] at hsaved
  obtain ⟨hdek, ⟨hfile, hsynced, hsize⟩, p, hp, hpending, hknown⟩ := hsaved
  have hgood : Good E t.db s.acked s.since (some (authenticated E t.key t.state)) := by
    refine ⟨hsize, .inl ?_, hbase.version, hbase.vault.trans hbase.dbVault.symm,
      ⟨p, hp, .inr hpending⟩, hbase.stable, ?_⟩
    · exact congrArg (E.mac · t.state) (hbase.key.trans hdek.symm)
    · intro p' hp'
      exact Option.some.inj (hpending.symm.trans hp') ▸ hknown
  refine ⟨⟨p, hp⟩, hfile ▸ hgood, hsynced ▸ hgood, ?_⟩
  rintro _ ⟨⟩
  exact ⟨⟨hbase.version, hbase.vault.trans hbase.dbVault.symm, rfl, hbase.key.trans hdek.symm,
    hbase.stable⟩, p, hp, hpending, hknown⟩

/-- The journal of a key change opens under the old key until SQLite commits and under the new
one afterwards. -/
theorem StoreInv.keyCommit (hphase : t.phase = .keySaved) :
    StoreInv E { s with db := t.db, tx := none, acked := some ∅, since := [] } := by
  obtain ⟨hbase, hsaved⟩ := h.tx t ht
  rw [hphase] at hsaved
  obtain ⟨⟨hfile, hsynced, hsize⟩, hempty, hstable, hpending⟩ := hsaved
  have hself : Known (some ∅) [] ∅ := fun _ hq => .inl (Option.some.inj hq)
  have hgood : Good E t.db (some ∅) []
      (some ⟨t.state, E.mac t.key t.state, some (E.mac t.db.dek t.state)⟩) := by
    refine ⟨hsize, .inr rfl, hbase.version, hbase.vault.trans hbase.dbVault.symm,
      ⟨∅, hempty, .inl hstable⟩, hstable ▸ hself, ?_⟩
    intro p hp
    exact Option.some.inj (hpending.symm.trans hp) ▸ hself
  exact ⟨⟨∅, hempty⟩, hfile ▸ hgood, hsynced ▸ hgood, by simp⟩

end

theorem StoreInv.beginTx [DecidableEq τ] {state : JournalState} (h : StoreInv E s)
    (hopen : openState E s.db.dek s.db s.file = .ok state) :
    StoreInv E { s with
      tx := some ⟨s.db.dek, { s.db with marked := true }, state, .opened⟩ } := by
  obtain ⟨r, hr⟩ := h.snap
  obtain ⟨state', hstate', hversion, hvault, hstable, hknown⟩ := h.file.openState hr
  obtain rfl : state = state' := Except.ok.inj (hopen.symm.trans hstate')
  refine ⟨h.snap, h.file, h.synced, ?_⟩
  rintro _ ⟨⟩
  exact ⟨⟨hversion, hvault, rfl, rfl, hstable ▸ hknown⟩, rfl, hstable ▸ hr⟩

theorem StoreInv.step [DecidableEq τ] {a : Action κ} (h : StoreInv E s) (hkey : KeyCurrent s a)
    (hstep : guardStep E s a = some s') : StoreInv E s' := by
  cases a with
  | beginTx dek =>
    obtain rfl : dek = s.db.dek := hkey
    simp only [guardStep] at hstep
    split at hstep
    · cases hstep
    · cases hstep
      exact h
    · cases hstep
      exact h.beginTx (by assumption)
  | modify content =>
    obtain ⟨t, ht, hstep⟩ := Option.bind_eq_some_iff.mp hstep
    obtain ⟨hphase, ⟨⟩⟩ := Option.ite_none_right_eq_some.mp hstep
    refine ⟨h.snap, h.file, h.synced, ?_⟩
    rintro _ ⟨⟩
    obtain ⟨hbase, hopened⟩ := h.tx t ht
    refine ⟨⟨hbase.version, hbase.vault, hbase.dbVault, hbase.key, hbase.stable⟩, ?_⟩
    simp only [hphase] at hopened ⊢
    exact hopened
  | abort =>
    obtain ⟨t, -, hstep⟩ := Option.bind_eq_some_iff.mp hstep
    obtain ⟨-, ⟨⟩⟩ := Option.ite_none_right_eq_some.mp hstep
    exact h.drop
  | firstSave outcome =>
    obtain ⟨t, ht, hstep⟩ := Option.bind_eq_some_iff.mp hstep
    obtain ⟨hphase, ⟨⟩⟩ := Option.ite_none_right_eq_some.mp hstep
    exact h.firstSave ht hphase outcome
  | keySave replacement outcome =>
    obtain ⟨t, ht, hstep⟩ := Option.bind_eq_some_iff.mp hstep
    obtain ⟨hphase, ⟨⟩⟩ := Option.ite_none_right_eq_some.mp hstep
    exact h.keySave ht hphase replacement outcome
  | sqlCommit ok =>
    obtain ⟨t, ht, hstep⟩ := Option.bind_eq_some_iff.mp hstep
    split at hstep
    · cases hstep
      exact h.sqlCommit ht (by assumption)
    · cases hstep
      exact h.keyCommit ht (by assumption)
    · cases hstep
      exact h.drop
    · cases hstep
      exact h.drop
    · cases hstep
  | secondSave outcome =>
    obtain ⟨t, ht, hstep⟩ := Option.bind_eq_some_iff.mp hstep
    split at hstep
    · cases hstep
      exact h.secondSave ht (by assumption) (by assumption) outcome
    · cases hstep
  | crash =>
    cases hstep
    exact h.drop
  | powerLoss keep =>
    cases hstep
    cases keep with
    | true => exact ⟨h.snap, h.file, h.file, by simp⟩
    | false => exact ⟨h.snap, h.synced, h.synced, by simp⟩

theorem StoreInv.init [DecidableEq τ] (h : (guardMachine E).init s) : StoreInv E s := by
  obtain ⟨db, r, hr, hmarked, rfl⟩ := h
  exact ⟨⟨r, hr⟩, ⟨hmarked, rfl⟩, ⟨hmarked, rfl⟩, by simp⟩

/-- Between two transactions, the content is the journal's stable or its pending state, so
that `verify_snapshot` and `begin` go through for a caller with the key of the database.
After an acknowledged commit, only its content and what has been attempted since are
accepted; while nothing has been, that is the current content alone. -/
theorem journal_follows_content {κ τ : Type} [DecidableEq τ] (E : GuardEnv κ τ)
    (s : Store κ τ) (h : (guardMachine E).Reachable KeyCurrent s) :
    (∃ r, snapshot E.sha256 s.db.content = .ok r ∧
      ∀ doc, s.file = some doc → doc.state.stable = r ∨ doc.state.pending = some r) ∧
    verifySnapshot E s.db.dek s.db s.file = .ok () ∧
    (∃ state, openState E s.db.dek s.db s.file = .ok state) ∧
    ∀ q, s.acked = some q → (∀ content, Accepts E s.db s.file content →
        ∃ p, snapshot E.sha256 content = .ok p ∧ (p = q ∨ p ∈ s.since)) ∧
      (s.since = [] → snapshot E.sha256 s.db.content = .ok q) := by
  have hinv : StoreInv E s := h.invariant StoreInv.init fun hs hkey hstep => hs.step hkey hstep
  obtain ⟨r, hr⟩ := hinv.snap
  obtain ⟨state, hopen, -, -, -, hknown⟩ := hinv.file.openState hr
  refine ⟨⟨r, hr, ?_⟩, hinv.file.verifySnapshot, ⟨state, hopen⟩, ?_⟩
  · intro doc hdoc
    have hgood := hinv.file
    rw [hdoc] at hgood
    obtain ⟨-, -, -, -, ⟨r', hr', hor⟩, -⟩ := hgood
    exact Except.ok.inj (hr.symm.trans hr') ▸ hor
  · intro q hq
    have hgood := hinv.file
    rw [hq] at hgood
    refine ⟨fun content => hgood.accepts, fun hsince => ?_⟩
    rcases hknown q hq with h | h
    · rw [hr, h]
    · simp [hsince] at h

def keyTags : GuardEnv Bool Bool := ⟨tailDigest, fun dek _ => dek, fun _ => 0⟩

def oneReceipt : Receipts :=
  {(entriesTable.key oldEntry, fingerprint tailDigest oldEntry.json)}

/-- A vault as it is unlocked for the first time. -/
def firstUnlocked : Store Bool Bool :=
  ⟨⟨[], false, sampleContent [], false⟩, none, none, none, none, []⟩

/-- A commit, and a change of the key. -/
def keyChanged : List (Action Bool) :=
  [.beginTx false, .firstSave .saved, .sqlCommit true, .secondSave .saved,
    .beginTx false, .keySave true .saved, .sqlCommit true]

/-- The commit of the first entry by a caller with the key, up to its second save. -/
def firstEntry (dek : Bool) : List (Action Bool) :=
  [.beginTx dek, .modify (sampleContent [oldEntry]), .firstSave .saved, .sqlCommit true]

/-- The vault after the loss of power in the middle of the commit of its first entry. -/
def interruptedEntry : Store Bool Bool :=
  ⟨⟨[], true, sampleContent [oldEntry], true⟩,
    some ⟨⟨1, [], ∅, some oneReceipt⟩, true, none⟩, some ⟨⟨1, [], ∅, some oneReceipt⟩, true, none⟩,
    none, some ∅, [oneReceipt]⟩

theorem journal_follows_interrupted_entry :
    verifySnapshot keyTags true interruptedEntry.db interruptedEntry.file = .ok () ∧
    ∀ content, Accepts keyTags interruptedEntry.db interruptedEntry.file content →
      ∃ p, snapshot tailDigest content = .ok p ∧ (p = ∅ ∨ p ∈ [oneReceipt]) := by
  have hallowed : Machine.Allowed (guardMachine keyTags) KeyCurrent firstUnlocked
      (keyChanged ++ firstEntry true ++ [.powerLoss false]) := by
    decide +kernel
  have hrun := Machine.run_of_exec (t := interruptedEntry) hallowed rfl
  have h := journal_follows_content keyTags interruptedEntry
    ⟨firstUnlocked, ⟨_, ∅, rfl, rfl, rfl⟩, hrun⟩
  exact ⟨h.2.1, (h.2.2.2 ∅ rfl).1⟩

/-- A manager that was opened before the change of the key commits an entry, every call
returning `Ok`. Its journal opens under the old key alone: with the key that the database
has, `verify_snapshot` and `begin` refuse the vault. -/
theorem old_key_locks_vault :
    ((guardMachine keyTags).exec firstUnlocked
        (keyChanged ++ firstEntry false ++ [.secondSave .saved])).map
      (fun s => (s.db.dek, s.tx.isNone, s.acked, verifySnapshot keyTags s.db.dek s.db s.file,
        (openState keyTags s.db.dek s.db s.file).isOk))
      = some (true, true, some oneReceipt, .error .refusal, false) := rfl

end Model

end SentinelPass.ContentGuard
