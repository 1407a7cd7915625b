import SentinelPass.Sync.Outbox
import SentinelPass.Vault.Migrations

/-!
# Several connections migrate one database

Two processes that open one legacy vault both call `run_migrations`. Each reads the
version on its own, outside any transaction, and from then on runs the steps it found
pending, one transaction each, whatever the others do; a connection that is through
writes rows. A write is any function on the rows: local edits and push acknowledgements
are the ones that matter.
-/

namespace SentinelPass

open Lib List Machine

variable {κ : Type}

/-! ## The machine -/

/-- A connection, from the first read of the version on. -/
inductive Conn
  | idle
  | migrating (steps : List Nat)
  | opened
  | failed
deriving DecidableEq

def Conn.next : Conn → Option Nat
  | .migrating (k :: _) => some k
  | _ => none

/-- The file, the connections, and the writes made so far. -/
structure MigrationState (κ : Type) where
  db : StoredDb κ
  conns : Nat → Conn
  edits : List (StoredRows κ → StoredRows κ)

inductive MigrationAction (κ : Type)
  /-- `run_migrations` reads the version. -/
  | connect (i : Nat)
  /-- The next step of a connection, as one transaction. -/
  | migrate (i : Nat) (draws : MigrationDraws)
  /-- `validate_schema_version` reads the version back. -/
  | verify (i : Nat)
  /-- An open connection writes rows. -/
  | edit (i : Nat) (f : StoredRows κ → StoredRows κ)

namespace MigrationState

variable (s : MigrationState κ)

def setConn (i : Nat) (c : Conn) : MigrationState κ :=
  { s with conns := Function.update s.conns i c }

@[simp] theorem conns_setConn_self (i c) : (s.setConn i c).conns i = c := by
  simp [setConn]

theorem conns_setConn_of_ne {i j} (h : j ≠ i) (c) : (s.setConn i c).conns j = s.conns j := by
  simp [setConn, h]

end MigrationState

def migrationStep (rewrap : Bytes → Option Bytes) (s : MigrationState κ) :
    MigrationAction κ → Option (MigrationState κ)
  | .connect i =>
    match s.conns i with
    | .idle => some (s.setConn i (.migrating (pendingSteps s.db.version)))
    | _ => none
  | .migrate i d =>
    match s.conns i with
    | .migrating (k :: rest) =>
      match migrateStep rewrap d s.db k with
      | .ok db => some ({ s with db := db }.setConn i (.migrating rest))
      | .error _ => some (s.setConn i .failed)
    | _ => none
  | .verify i =>
    match s.conns i with
    | .migrating [] =>
      some (s.setConn i (if s.db.version = currentSchemaVersion then .opened else .failed))
    | _ => none
  | .edit i f =>
    match s.conns i with
    | .opened =>
      some { s with db := { s.db with rows := f s.db.rows }, edits := s.edits ++ [f] }
    | _ => none

/-- A database some release left behind: it has the columns of the steps before its
version, and of the steps after it those only that are probed for. -/
structure Legacy (db : StoredDb κ) : Prop where
  one_le : 1 ≤ db.version
  le_current : db.version ≤ 14
  columns : ∀ {k : Nat}, Unprobed k → ∀ c ∈ stepColumns k, (c ∈ db.columns ↔ k < db.version)

def migrationMachine (κ : Type) (rewrap : Bytes → Option Bytes) :
    Machine (MigrationState κ) (MigrationAction κ) where
  init s := Legacy s.db ∧ (∀ i, s.conns i = .idle) ∧ s.edits = []
  step := migrationStep rewrap

/-- The writes, one after another, on the rows of a database. -/
def StoredDb.edited (db : StoredDb κ) (edits : List (StoredRows κ → StoredRows κ)) : StoredDb κ :=
  { db with rows := edits.foldl (fun rows f => f rows) db.rows }

/-- No step is repeated that the database is more than one version past. The steps that
add columns unprobed are refused by a database that is past them, whenever they come. -/
def Unstale (s : MigrationState κ) : MigrationAction κ → Prop
  | .migrate i _ => ∀ k ∈ (s.conns i).next, s.db.version ≤ k + 1 ∨ Unprobed k
  | .connect _ | .verify _ | .edit _ _ => True

instance (s : MigrationState κ) : (a : MigrationAction κ) → Decidable (Unstale s a)
  | .migrate .. => by
    unfold Unstale
    infer_instance
  | .connect _ | .verify _ | .edit _ _ => .isTrue trivial

def MigrationState.Settled (s : MigrationState κ) : Prop :=
  (∃ i, s.conns i ≠ .idle) ∧ ∀ i steps, s.conns i ≠ .migrating steps

theorem Conn.next_eq_some {c : Conn} {k : Nat} (h : c.next = some k) :
    ∃ rest, c = .migrating (k :: rest) := by
  cases c with
  | migrating steps =>
    cases steps with
    | nil => cases h
    | cons j rest =>
      cases h
      exact ⟨rest, rfl⟩
  | idle => cases h
  | opened => cases h
  | failed => cases h

/-- What an action does, one constructor an outcome. -/
inductive MigrationEffect (rewrap : Bytes → Option Bytes) (s : MigrationState κ) :
    MigrationAction κ → MigrationState κ → Prop
  | connected {i : Nat} : s.conns i = .idle →
      MigrationEffect rewrap s (.connect i) (s.setConn i (.migrating (pendingSteps s.db.version)))
  | migrated {i k : Nat} {d : MigrationDraws} {rest : List Nat} {db : StoredDb κ} :
      s.conns i = .migrating (k :: rest) → migrateStep rewrap d s.db k = .ok db →
      MigrationEffect rewrap s (.migrate i d) ({ s with db := db }.setConn i (.migrating rest))
  | refused {i k : Nat} {d : MigrationDraws} {rest : List Nat} {e : PmError} :
      s.conns i = .migrating (k :: rest) → migrateStep rewrap d s.db k = .error e →
      MigrationEffect rewrap s (.migrate i d) (s.setConn i .failed)
  | verified {i : Nat} : s.conns i = .migrating [] → MigrationEffect rewrap s (.verify i)
        (s.setConn i (if s.db.version = currentSchemaVersion then .opened else .failed))
  | edited {i : Nat} {f : StoredRows κ → StoredRows κ} : s.conns i = .opened →
      MigrationEffect rewrap s (.edit i f)
        { s with db := { s.db with rows := f s.db.rows }, edits := s.edits ++ [f] }

section Runs

variable {rewrap : Bytes → Option Bytes} {db0 m m' : StoredDb κ} {s t : MigrationState κ}
  {a : MigrationAction κ} {i k : Nat} {d : MigrationDraws} {rest : List Nat}

theorem migrationStep_effect (h : migrationStep rewrap s a = some t) :
    MigrationEffect rewrap s a t := by
  cases a with
  | connect i =>
    cases hc : s.conns i with
    | idle =>
      rw [migrationStep, hc] at h
      cases h
      exact .connected hc
    | migrating steps => rw [migrationStep, hc] at h; cases h
    | opened => rw [migrationStep, hc] at h; cases h
    | failed => rw [migrationStep, hc] at h; cases h
  | migrate i d =>
    cases hc : s.conns i with
    | migrating steps =>
      cases steps with
      | nil => rw [migrationStep, hc] at h; cases h
      | cons k rest =>
        cases hm : migrateStep rewrap d s.db k with
        | ok db =>
          simp only [migrationStep, hc, hm] at h
          cases h
          exact .migrated hc hm
        | error e =>
          simp only [migrationStep, hc, hm] at h
          cases h
          exact .refused hc hm
    | idle => rw [migrationStep, hc] at h; cases h
    | opened => rw [migrationStep, hc] at h; cases h
    | failed => rw [migrationStep, hc] at h; cases h
  | verify i =>
    cases hc : s.conns i with
    | migrating steps =>
      cases steps with
      | nil =>
        rw [migrationStep, hc] at h
        cases h
        exact .verified hc
      | cons k rest => rw [migrationStep, hc] at h; cases h
    | idle => rw [migrationStep, hc] at h; cases h
    | opened => rw [migrationStep, hc] at h; cases h
    | failed => rw [migrationStep, hc] at h; cases h
  | edit i f =>
    cases hc : s.conns i with
    | opened =>
      rw [migrationStep, hc] at h
      cases h
      exact .edited hc
    | idle => rw [migrationStep, hc] at h; cases h
    | migrating steps => rw [migrationStep, hc] at h; cases h
    | failed => rw [migrationStep, hc] at h; cases h

/-! ## One migration -/

/-- One step after another, each at the version it is for. -/
inductive MigratedTo (rewrap : Bytes → Option Bytes) (db0 : StoredDb κ) : StoredDb κ → Prop
  | refl : MigratedTo rewrap db0 db0
  | step {m m' : StoredDb κ} {d : MigrationDraws} : MigratedTo rewrap db0 m →
      m.version ≤ 13 → migrateStep rewrap d m m.version = .ok m' → MigratedTo rewrap db0 m'

theorem Legacy.step (h : Legacy m) (hle : m.version ≤ 13)
    (hstep : migrateStep rewrap d m m.version = .ok m') : Legacy m' := by
  obtain ⟨hversion, hcolumns⟩ := migrateStep_ok h.one_le hle hstep
  refine ⟨by omega, by omega, ?_⟩
  intro j hj c hc
  rw [hcolumns c, h.columns hj c hc, hversion]
  by_cases hjk : j = m.version
  · subst hjk
    simp [hc]
  · have hnot := stepColumns_disjoint hj h.one_le hle hjk hc
    simp only [hnot, or_false]
    omega

theorem MigratedTo.foldlM (hlegacy : Legacy db0) (h : MigratedTo rewrap db0 m) :
    Legacy m ∧ db0.version ≤ m.version ∧ ∃ draws : Nat → MigrationDraws,
      (range' db0.version (m.version - db0.version)).foldlM
        (fun db k => migrateStep rewrap (draws k) db k) db0 = .ok m := by
  induction h with
  | refl =>
    refine ⟨hlegacy, le_rfl, fun _ => ⟨fun _ _ => 0, 0, 0, 0⟩, ?_⟩
    rw [Nat.sub_self]
    rfl
  | @step m m' d _ hle hstep ih =>
    obtain ⟨hm, hge, draws, hfold⟩ := ih
    obtain ⟨hversion, -⟩ := migrateStep_ok hm.one_le hle hstep
    refine ⟨hm.step hle hstep, by omega, fun k => if k = m.version then d else draws k, ?_⟩
    -- The loop so far does not see the draws of the new step.
    have hsame : (range' db0.version (m.version - db0.version)).foldlM
        (fun db k => migrateStep rewrap (if k = m.version then d else draws k) db k) db0 =
          .ok m := by
      rw [← hfold]
      refine foldlM_congr fun db k hk => ?_
      have hlt := (mem_range'_1.mp hk).2
      rw [if_neg (by omega)]
    have hlast : m'.version - db0.version = m.version - db0.version + 1 := by omega
    have hat : db0.version + 1 * (m.version - db0.version) = m.version := by omega
    rw [hlast, range'_concat, foldlM_append, hsame, hat]
    show migrateStep rewrap (if m.version = m.version then d else draws m.version) m
      m.version >>= pure = .ok m'
    rw [if_pos rfl, hstep]
    rfl

theorem MigratedTo.runMigrations (hlegacy : Legacy db0) (h : MigratedTo rewrap db0 m)
    (hm : m.version = 14) : ∃ draws, runMigrations rewrap db0 draws = .ok m := by
  obtain ⟨-, -, draws, hfold⟩ := h.foldlM hlegacy
  refine ⟨draws, ?_⟩
  rw [SentinelPass.runMigrations, pendingSteps_eq hlegacy.one_le hlegacy.le_current, ← hm]
  exact hfold

/-! ## The invariant -/

theorem StoredDb.edited_concat (db : StoredDb κ) (edits f) :
    db.edited (edits ++ [f]) = { db.edited edits with rows := f (db.edited edits).rows } := by
  unfold StoredDb.edited
  rw [foldl_append]
  rfl

/-- What holds all along, from the legacy database `db0`. -/
structure MigrationInv (rewrap : Bytes → Option Bytes) (db0 : StoredDb κ) (s : MigrationState κ) :
    Prop where
  /-- The file is what one migration has reached, and the writes on it. -/
  single : ∃ m, MigratedTo rewrap db0 m ∧ s.db = m.edited s.edits
  /-- No connection writes before the last step. -/
  edits : s.edits ≠ [] → s.db.version = 14
  /-- The last step that was run may be run again. -/
  again : ∀ {k : Nat}, db0.version ≤ k → s.db.version = k + 1 → ¬ Unprobed k →
    ∀ d, migrateStep rewrap d s.db k = .ok s.db
  /-- A connection runs every step from some version on that the file has reached. -/
  pending : ∀ {i : Nat} {steps : List Nat}, s.conns i = .migrating steps →
    ∃ k, db0.version ≤ k ∧ k ≤ s.db.version ∧ steps = range' k (14 - k)
  opened : ∀ {i : Nat}, s.conns i = .opened → s.db.version = 14
  /-- Until the last version, one connection has the next step to do. -/
  progress : s.db.version = 14 ∨ (∀ i, s.conns i = .idle) ∨
    ∃ i, s.conns i = .migrating (range' s.db.version (14 - s.db.version))

namespace MigrationInv

section

variable (hlegacy : Legacy db0) (h : MigrationInv rewrap db0 s)

include hlegacy h

theorem legacy : Legacy s.db ∧ db0.version ≤ s.db.version := by
  obtain ⟨m, hm, hdb⟩ := h.single
  obtain ⟨hleg, hge, -⟩ := hm.foldlM hlegacy
  rw [hdb]
  exact ⟨⟨hleg.one_le, hleg.le_current, hleg.columns⟩, hge⟩

omit hlegacy in
theorem pending_cons (hc : s.conns i = .migrating (k :: rest)) :
    db0.version ≤ k ∧ k ≤ s.db.version ∧ k ≤ 13 ∧ rest = range' (k + 1) (14 - (k + 1)) := by
  obtain ⟨j, hge, hle, hsteps⟩ := h.pending hc
  obtain ⟨n, hn⟩ : ∃ n, 14 - j = n + 1 := by
    cases hn : 14 - j with
    | zero => rw [hn] at hsteps; cases hsteps
    | succ n => exact ⟨n, rfl⟩
  rw [hn, range'_succ] at hsteps
  obtain ⟨rfl, rfl⟩ := cons.inj hsteps
  refine ⟨hge, hle, by omega, ?_⟩
  rw [show 14 - (k + 1) = n by omega]

theorem step_cases (hc : s.conns i = .migrating (k :: rest))
    (hok : s.db.version ≤ k + 1 ∨ Unprobed k) :
    (s.db.version = k ∧ ∃ db, migrateStep rewrap d s.db k = .ok db) ∨
      (k < s.db.version ∧ ∃ e, migrateStep rewrap d s.db k = .error e) ∨
      (s.db.version = k + 1 ∧ migrateStep rewrap d s.db k = .ok s.db) := by
  obtain ⟨hge, hle, h13, -⟩ := h.pending_cons hc
  obtain ⟨hleg, -⟩ := h.legacy hlegacy
  have h1 : 1 ≤ k := hlegacy.one_le.trans hge
  by_cases hk : s.db.version = k
  · refine .inl ⟨hk, migrateStep_isOk h1 h13 fun hu c hcol hmem => ?_⟩
    have hlt := (hleg.columns hu c hcol).mp hmem
    omega
  · have hlt : k < s.db.version := by omega
    by_cases hu : Unprobed k
    · exact .inr (.inl ⟨hlt, migrateStep_unprobed_error hu fun c hcol =>
        (hleg.columns hu c hcol).mpr hlt⟩)
    · have hnext : s.db.version = k + 1 := by
        have := hok.resolve_right hu
        omega
      exact .inr (.inr ⟨hnext, h.again hge hnext hu d⟩)

end

theorem init : MigrationInv rewrap db0 ⟨db0, fun _ => .idle, []⟩ where
  single := ⟨db0, .refl, rfl⟩
  edits h := absurd rfl h
  again hge hv := by
    have hv : db0.version = _ := hv
    omega
  pending h := by cases h
  opened h := by cases h
  progress := .inr (.inl fun _ => rfl)

theorem setConn (h : MigrationInv rewrap db0 s) {c : Conn}
    (hpending : ∀ {steps : List Nat}, c = .migrating steps →
      ∃ k, db0.version ≤ k ∧ k ≤ s.db.version ∧ steps = range' k (14 - k))
    (hopened : c = .opened → s.db.version = 14)
    (hprogress : s.db.version = 14 ∨ c = .migrating (range' s.db.version (14 - s.db.version)) ∨
      ∃ j, j ≠ i ∧ s.conns j = .migrating (range' s.db.version (14 - s.db.version))) :
    MigrationInv rewrap db0 (s.setConn i c) :=
  { h with
    pending {j} {steps} hj := by
      by_cases hji : j = i
      · subst hji
        exact hpending ((s.conns_setConn_self j c).symm.trans hj)
      · exact h.pending ((s.conns_setConn_of_ne hji c).symm.trans hj)
    opened {j} hj := by
      by_cases hji : j = i
      · subst hji
        exact hopened ((s.conns_setConn_self j c).symm.trans hj)
      · exact h.opened ((s.conns_setConn_of_ne hji c).symm.trans hj)
    progress := by
      rcases hprogress with hv | hc | ⟨j, hji, hj⟩
      · exact .inl hv
      · exact .inr (.inr ⟨i, (s.conns_setConn_self i c).trans hc⟩)
      exact .inr (.inr ⟨j, (s.conns_setConn_of_ne hji c).trans hj⟩) }

theorem progress_of_lag (h : MigrationInv rewrap db0 s) (hc : s.conns i = .migrating (k :: rest))
    (hlt : k < s.db.version) : s.db.version = 14 ∨
      ∃ j, j ≠ i ∧ s.conns j = .migrating (range' s.db.version (14 - s.db.version)) := by
  rcases h.progress with hv | hidle | ⟨j, hj⟩
  · exact .inl hv
  · rw [hidle i] at hc
    cases hc
  · refine .inr ⟨j, ?_, hj⟩
    rintro rfl
    rw [hc, Conn.migrating.injEq] at hj
    cases hn : 14 - s.db.version with
    | zero => rw [hn] at hj; cases hj
    | succ n =>
      rw [hn, range'_succ] at hj
      have := (cons.inj hj).1
      omega

open MigrationState

theorem advance (hlegacy : Legacy db0) (h : MigrationInv rewrap db0 s)
    (hc : s.conns i = .migrating (k :: rest)) (hv : s.db.version = k) {db}
    (hstep : migrateStep rewrap d s.db k = .ok db) :
    MigrationInv rewrap db0 ({ s with db := db }.setConn i (.migrating rest)) := by
  obtain ⟨hge, -, h13, hrest⟩ := h.pending_cons hc
  have h1 : 1 ≤ k := hlegacy.one_le.trans hge
  obtain ⟨hversion, -⟩ := migrateStep_ok h1 h13 hstep
  have hnone : s.edits = [] := by
    by_contra hne
    have := h.edits hne
    omega
  obtain ⟨m, hm, hdb⟩ := h.single
  rw [hnone] at hdb
  have hdb : s.db = m := hdb
  have hversion : ({ s with db := db }.setConn i (.migrating rest)).db.version = k + 1 := hversion
  refine ⟨⟨db, hm.step (d := d) ?_ ?_, ?_⟩, fun hne => absurd hnone hne, ?_, ?_, ?_, ?_⟩
  · rw [← hdb, hv]
    exact h13
  · rw [← hdb, hv]
    exact hstep
  · show db = db.edited s.edits
    rw [hnone]
    rfl
  · intro j hj hvj hu e
    obtain rfl : j = k := by omega
    exact migrateStep_again h1 h13 hu hstep
  · intro j steps hj
    by_cases hji : j = i
    · subst hji
      rw [conns_setConn_self, Conn.migrating.injEq] at hj
      exact ⟨k + 1, by omega, by omega, by rw [← hj, hrest]⟩
    · rw [conns_setConn_of_ne _ hji] at hj
      obtain ⟨n, hn0, hn, hsteps⟩ := h.pending hj
      exact ⟨n, hn0, by omega, hsteps⟩
  · intro j hj
    by_cases hji : j = i
    · subst hji
      rw [conns_setConn_self] at hj
      cases hj
    · rw [conns_setConn_of_ne _ hji] at hj
      have := h.opened hj
      omega
  · refine .inr (.inr ⟨i, ?_⟩)
    rw [conns_setConn_self, hversion, hrest]

theorem migrateStep_last_rows {db : StoredDb κ} (rows : StoredRows κ)
    (h : migrateStep rewrap d db 13 = .ok db) :
    migrateStep rewrap d { db with rows := rows } 13 = .ok { db with rows := rows } := by
  have hdb := Except.ok.inj h
  exact congrArg (fun x : StoredDb κ => Except.ok { x with rows := rows }) hdb

theorem edit (h : MigrationInv rewrap db0 s) (hc : s.conns i = .opened) (f) :
    MigrationInv rewrap db0
      { s with db := { s.db with rows := f s.db.rows }, edits := s.edits ++ [f] } where
  single := by
    obtain ⟨m, hm, hdb⟩ := h.single
    refine ⟨m, hm, ?_⟩
    rw [StoredDb.edited_concat, ← hdb]
  edits _ := h.opened hc
  again := by
    intro k hk hv hu e
    have hv : s.db.version = k + 1 := hv
    have hlast := h.opened hc
    obtain rfl : k = 13 := by omega
    exact migrateStep_last_rows _ (h.again hk hv hu e)
  pending := h.pending
  opened := h.opened
  progress := .inl (h.opened hc)

theorem step (hlegacy : Legacy db0) (h : MigrationInv rewrap db0 s) (hok : Unstale s a)
    (hstep : migrationStep rewrap s a = some t) :
    MigrationInv rewrap db0 t ∧ s.db.version ≤ t.db.version := by
  obtain ⟨hleg, hge⟩ := h.legacy hlegacy
  cases migrationStep_effect hstep with
  | @connected i hc =>
    have hsteps := pendingSteps_eq hleg.one_le hleg.le_current
    refine ⟨h.setConn ?_ (fun h => by cases h) (.inr (.inl (by rw [hsteps]))), le_rfl⟩
    intro steps hs
    cases hs
    exact ⟨s.db.version, hge, le_rfl, hsteps⟩
  | @migrated i k d rest db hc hm =>
    obtain ⟨hk0, -, hk13, hrest⟩ := h.pending_cons hc
    rcases h.step_cases hlegacy hc (hok k (by rw [hc]; rfl)) with ⟨hv, -⟩ | ⟨-, e, he⟩ | ⟨hv, hsame⟩
    · refine ⟨h.advance hlegacy hc hv hm, ?_⟩
      have hversion := (migrateStep_ok (hlegacy.one_le.trans hk0) hk13 hm).1
      show s.db.version ≤ db.version
      omega
    · rw [he] at hm
      cases hm
    · rw [hsame] at hm
      cases hm
      refine ⟨h.setConn ?_ (fun h => by cases h) ?_, le_rfl⟩
      · intro steps hs
        cases hs
        exact ⟨k + 1, by omega, by omega, hrest⟩
      · rcases h.progress_of_lag hc (by omega) with hlast | hother
        · exact .inl hlast
        exact .inr (.inr hother)
  | @refused i k d rest e hc hm =>
    rcases h.step_cases hlegacy hc (hok k (by rw [hc]; rfl)) with
      ⟨-, db, hdb⟩ | ⟨hlt, -⟩ | ⟨-, hsame⟩
    · rw [hdb] at hm
      cases hm
    · refine ⟨h.setConn (fun h => by cases h) (fun h => by cases h) ?_, le_rfl⟩
      rcases h.progress_of_lag hc hlt with hlast | hother
      · exact .inl hlast
      exact .inr (.inr hother)
    · rw [hsame] at hm
      cases hm
  | @verified i hc =>
    obtain ⟨k, -, hk, hsteps⟩ := h.pending hc
    have hlast : s.db.version = 14 := by
      have hlen := congrArg length hsteps
      rw [length_range', length_nil] at hlen
      have := hleg.le_current
      omega
    refine ⟨h.setConn ?_ (fun _ => hlast) (.inl hlast), le_rfl⟩
    intro steps hs
    split at hs <;> cases hs
  | @edited i f hc => exact ⟨h.edit hc f, le_rfl⟩

end MigrationInv

/-! ## The result -/

/-- Over every run without stale steps, the version only grows; when every connection is
through it is the current one; and at the current version the database is what one
migration and the same writes give. The first stale step takes the version back. -/
theorem concurrent_migration_is_one (hlegacy : Legacy db0)
    (hrun : (migrationMachine κ rewrap).Run Unstale ⟨db0, fun _ => .idle, []⟩ s) :
    (∀ t, (migrationMachine κ rewrap).Run Unstale s t → s.db.version ≤ t.db.version) ∧
      (s.Settled → s.db.version = currentSchemaVersion) ∧
      (s.db.version = currentSchemaVersion → ∃ draws m, runMigrations rewrap db0 draws = .ok m ∧
        s.db = m.edited s.edits) ∧
      (∀ a t, migrationStep rewrap s a = some t → ¬ Unstale s a → t.db.version < s.db.version) := by
  have hinv : MigrationInv rewrap db0 s :=
    hrun.invariant .init fun h hok hstep =>
      (h.step hlegacy hok hstep).1
  refine ⟨?_, ?_, ?_, ?_⟩
  · intro t ht
    exact (ht.invariant (P := fun t => MigrationInv rewrap db0 t ∧ s.db.version ≤ t.db.version)
      ⟨hinv, le_rfl⟩ fun h hok hstep =>
        have hs := h.1.step hlegacy hok hstep
        ⟨hs.1, h.2.trans hs.2⟩).2
  · rintro ⟨⟨i, hi⟩, hthrough⟩
    rcases hinv.progress with hv | hidle | ⟨j, hj⟩
    · exact hv
    · exact absurd (hidle i) hi
    exact absurd hj (hthrough j _)
  · intro hv
    obtain ⟨m, hm, hdb⟩ := hinv.single
    have hmv : m.version = 14 := by
      rw [hdb] at hv
      exact hv
    obtain ⟨draws, hdraws⟩ := hm.runMigrations hlegacy hmv
    exact ⟨draws, m, hdraws, hdb⟩
  · intro a t hstep hstale
    cases a with
    | connect i => exact absurd trivial hstale
    | verify i => exact absurd trivial hstale
    | edit i f => exact absurd trivial hstale
    | migrate i d =>
      simp only [Unstale, not_forall, not_or] at hstale
      obtain ⟨k, hnext, hlt, hu⟩ := hstale
      obtain ⟨rest, hc⟩ := Conn.next_eq_some hnext
      obtain ⟨hge, -, h13, -⟩ := hinv.pending_cons hc
      have h1 : 1 ≤ k := hlegacy.one_le.trans hge
      have hnew : Unprobed k → ∀ c ∈ stepColumns k, c ∉ s.db.columns := fun h => absurd h hu
      obtain ⟨db, hdb⟩ : ∃ db, migrateStep rewrap d s.db k = .ok db :=
        migrateStep_isOk h1 h13 hnew
      simp only [migrationStep, hc, hdb] at hstep
      cases hstep
      have hversion := (migrateStep_ok h1 h13 hdb).1
      show db.version < s.db.version
      omega

end Runs

/-! ## Two connections -/

/-- A database at version `v` with one credential, synced at version 3. -/
def sampleStored (v : Nat) : StoredDb Unit where
  metadata := ⟨v, [], [], [], 1, some 1, 1, none⟩
  columns := (range v).flatMap stepColumns
  objects := []
  keySlots := []
  syncMetadata := none
  rows t := if t = .entries then
      [{ rowId := 1, syncId := some 5, sync := { SyncCols.applied 3 0 with syncAckedVersion := 0 }
         credentialType := .password, domainEnc := none, rest := () }]
    else []

theorem sampleStored_legacy {v : Nat} (h : v = 9 ∨ v = 13) : Legacy (sampleStored v) := by
  refine ⟨?_, ?_, ?_⟩
  · rcases h with rfl | rfl <;> decide
  · rcases h with rfl | rfl <;> decide
  · intro k hk c hc
    have hlt : k < v := by
      rcases h with rfl | rfl <;> rcases hk with rfl | rfl | rfl <;> decide
    refine iff_of_true ?_ hlt
    exact mem_flatMap.mpr ⟨k, mem_range.mpr hlt, hc⟩

/-- `update_entry_row` on the sync columns of every credential. -/
def touchEntries (rows : StoredRows Unit) : StoredRows Unit := fun t =>
  if t = .entries then
    (rows t).map fun r =>
      { r with sync := { r.sync with
          syncVersion := r.sync.syncVersion + 1, syncState := .pending } }
  else rows t

/-- The acknowledgement of version 4 for every credential. -/
def ackEntries (rows : StoredRows Unit) : StoredRows Unit := fun t =>
  if t = .entries then (rows t).map fun r => { r with sync := r.sync.acked 4 0 } else rows t

def zeroDraws : MigrationDraws := ⟨fun _ _ => 0, 0, 0, 0⟩

def ackedVersions (db : StoredDb Unit) : List Int64 :=
  (db.rows .entries).map fun r => r.sync.syncAckedVersion

/-- Both connections run the last step, the second one for nothing. -/
def lastStepTwice : List (MigrationAction Unit) :=
  [.connect 0, .connect 1, .migrate 0 zeroDraws, .migrate 1 zeroDraws, .verify 0, .verify 1,
    .edit 0 touchEntries, .edit 1 ackEntries]

theorem concurrent_migration_is_one_sample : Legacy (sampleStored 13) ∧
    ∃ s, (migrationMachine Unit some).Run Unstale ⟨sampleStored 13, fun _ => .idle, []⟩ s ∧
      s.Settled ∧ s.db.version = currentSchemaVersion ∧
      ∃ draws m, runMigrations some (sampleStored 13) draws = .ok m ∧ s.db = m.edited s.edits := by
  have hlegacy := sampleStored_legacy (.inr rfl)
  have hallowed : (migrationMachine Unit some).Allowed Unstale
      ⟨sampleStored 13, fun _ => .idle, []⟩ lastStepTwice := by
    decide +kernel
  have hrun := run_of_exec hallowed rfl
  obtain ⟨-, hversion, hsame, -⟩ := concurrent_migration_is_one hlegacy hrun
  refine ⟨hlegacy, _, hrun, ?settled, hversion ?settled, hsame (hversion ?settled)⟩
  refine ⟨⟨0, by decide⟩, ?_⟩
  rintro (_ | _ | i) steps h <;> cases h

/-- The second connection reads version 9 and is overtaken: the first one migrates, and
edits the credential the relay has acknowledged at version 3. -/
def overtaken : List (MigrationAction Unit) :=
  [.connect 0, .connect 1] ++ replicate 5 (.migrate 0 zeroDraws) ++
    [.verify 0, .edit 0 touchEntries]

def lateSteps : List (MigrationAction Unit) :=
  replicate 5 (.migrate 1 zeroDraws) ++ [.verify 1]

/-- The late connection takes the version from 14 back to 10, and when both are through the
credential has no acknowledged version, where one migration and the same edit keep 3. -/
theorem late_migration_unseeds : Legacy (sampleStored 9) ∧
    ∃ s t u, (migrationMachine Unit some).Run (fun _ _ => True)
        ⟨sampleStored 9, fun _ => .idle, []⟩ s ∧
      migrationStep some s (.migrate 1 zeroDraws) = some t ∧
      s.db.version = 14 ∧ t.db.version = 10 ∧
      (migrationMachine Unit some).Run (fun _ _ => True) s u ∧ u.Settled ∧
      ackedVersions u.db = [0] ∧
      ∀ draws m, runMigrations some (sampleStored 9) draws = .ok m →
        ackedVersions (m.edited u.edits) = [3] := by
  refine ⟨sampleStored_legacy (.inl rfl), _, _, _,
    run_of_exec (allowed_true _ overtaken) rfl, rfl, rfl, rfl,
    run_of_exec (allowed_true _ lateSteps) rfl, ?_, ?_, ?_⟩
  · refine ⟨⟨0, by decide⟩, ?_⟩
    rintro (_ | _ | i) steps h <;> cases h
  · decide +kernel
  · intro draws m hm
    cases hm
    decide +kernel

end SentinelPass
