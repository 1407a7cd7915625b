import Mathlib.Algebra.Order.Ring.Int

/-!
# The rotation policy

`recommend` and `resolved_interval_days` of `registry/policy.rs`. Every sum and product of `i64`
is checked here: `none` is an overflow.
-/

namespace SentinelPass.Rotation

inductive EntityKind
  | broker
  | marketData
  | regulatoryData
  | notification
  | database
  | infrastructure
  | application
  | other

inductive Criticality
  | low
  | medium
  | high

inductive RotationStatus
  | ok
  | dueSoon
  | weak
  | reused
  | overdue

/-- The derived order. -/
def RotationStatus.severity : RotationStatus → Nat
  | ok => 0
  | dueSoon => 1
  | weak => 2
  | reused => 3
  | overdue => 4

structure RecommendationInput where
  kind : EntityKind
  criticality : Criticality
  (entryOverrideDays entityOverrideDays : Option Int64)
  ageDays : Int64
  reuseCount : Nat
  strengthScore : Option UInt8
  weakThresholdScore : UInt8
  expiresAt : Option Int64
  now : Int64
  suppressAge : Bool

inductive Reason
  | weakScore (score threshold : UInt8)
  | shared (count : Nat)
  | pastExpiry
  | expiresIn (days : Int)
  | pastInterval (days interval : Int)
  | dueIn (days interval : Int)

def Reason.text : Reason → String
  | weakScore score threshold => s!"strength score {score} is below the weak threshold {threshold}"
  | shared count => s!"secret is shared across {count} entries"
  | pastExpiry => "secret is past its recorded expiry"
  | expiresIn days => s!"secret expires in {days} days"
  | pastInterval days interval =>
      s!"secret is {days} days past its {interval} day rotation interval"
  | dueIn days interval => s!"rotation due in {days} days (interval {interval} days)"

/-- The reasons are strings in the source, `Reason.text` of these. -/
structure RotationRecommendation where
  status : RotationStatus
  reasons : List Reason
  resolvedIntervalDays : Int

def baseIntervalDays : EntityKind → Int
  | .database | .broker => 90
  | .regulatoryData => 365
  | _ => 180

/-- The value fits `i64`. -/
def Fits (x : Int) : Prop := -2 ^ 63 ≤ x ∧ x < 2 ^ 63

instance (x : Int) : Decidable (Fits x) := inferInstanceAs (Decidable (_ ∧ _))

def checked (x : Int) : Option Int := if Fits x then some x else none

def base (i : RecommendationInput) : Int :=
  ((i.entryOverrideDays.or i.entityOverrideDays).map Int64.toInt).getD (baseIntervalDays i.kind)

/-- The base interval by criticality: only doubling it can overflow. -/
def scaled (i : RecommendationInput) : Int :=
  match i.criticality with
  | .high => (base i).tdiv 2
  | .low => base i * 2
  | .medium => base i

def interval (i : RecommendationInput) : Int :=
  max (if 2 ≤ i.reuseCount then (scaled i).tdiv 2 else scaled i) 1

def resolvedIntervalDays (i : RecommendationInput) : Option Int :=
  (checked (scaled i)).map fun _ => interval i

def strengthFloor (i : RecommendationInput) : Option (RotationStatus × Reason) :=
  i.strengthScore.bind fun score =>
    if score < i.weakThresholdScore then some (.weak, .weakScore score i.weakThresholdScore)
    else none

def reuseFloor (i : RecommendationInput) : Option (RotationStatus × Reason) :=
  if 2 ≤ i.reuseCount then some (.reused, .shared i.reuseCount) else none

/-- Overdue, or due within the window. -/
def dueFloor (days : Int) (past soon : Reason) : Option (RotationStatus × Reason) :=
  if days ≤ 0 then some (.overdue, past) else if days ≤ 14 then some (.dueSoon, soon) else none

def expiryFloor (left : Int) : Option (RotationStatus × Reason) :=
  dueFloor (left / 86400) .pastExpiry (.expiresIn (left / 86400))

def ageFloor (interval remaining : Int) : Option (RotationStatus × Reason) :=
  dueFloor remaining (.pastInterval (-remaining) interval) (.dueIn remaining interval)

/-- `set_floor`. -/
def setFloor (status : RotationStatus) (floor : RotationStatus × Reason) : RotationStatus :=
  if status.severity < floor.1.severity then floor.1 else status

def floors (i : RecommendationInput) (interval : Int) (left remaining : Option Int) :
    List (Option (RotationStatus × Reason)) :=
  [strengthFloor i, reuseFloor i, left.bind expiryFloor, remaining.bind (ageFloor interval)]

def recommend (i : RecommendationInput) : Option RotationRecommendation := do
  let interval ← resolvedIntervalDays i
  let left ← i.expiresAt.mapM fun expiresAt => checked (expiresAt.toInt - i.now.toInt)
  let remaining ← if i.suppressAge then some none
    else (checked (interval - i.ageDays.toInt)).map some
  let found := (floors i interval left remaining).filterMap id
  return ⟨found.foldl setFloor .ok, found.map Prod.snd, interval⟩

/-! ## When it is as documented -/

/-- An input that should not be judged more mildly. -/
def Worse (i j : RecommendationInput) : Prop :=
  j = { i with ageDays := j.ageDays, reuseCount := j.reuseCount, now := j.now,
               expiresAt := j.expiresAt, strengthScore := j.strengthScore } ∧
    i.ageDays.toInt ≤ j.ageDays.toInt ∧ i.reuseCount ≤ j.reuseCount ∧ i.now.toInt ≤ j.now.toInt ∧
    (∀ e ∈ i.expiresAt, ∃ e' ∈ j.expiresAt, e'.toInt ≤ e.toInt) ∧
    ∀ n ∈ i.strengthScore, ∃ n' ∈ j.strengthScore, n'.toNat ≤ n.toNat

structure Sound (i : RecommendationInput) (r : RotationRecommendation) : Prop where
  interval : 1 ≤ r.resolvedIntervalDays
  expiry : .pastExpiry ∈ r.reasons ↔ ∃ e ∈ i.expiresAt, e.toInt ≤ i.now.toInt
  severity : ∀ j r', Worse i j → recommend j = some r' → r.status.severity ≤ r'.status.severity

/-- No result leaves `i64`. -/
structure NoOverflow (i : RecommendationInput) : Prop where
  doubled : Fits (scaled i)
  left : ∀ e ∈ i.expiresAt, Fits (e.toInt - i.now.toInt)
  remaining : i.suppressAge = false → Fits (interval i - i.ageDays.toInt)

def left (i : RecommendationInput) : Option Int :=
  i.expiresAt.map fun e => e.toInt - i.now.toInt

def remaining (i : RecommendationInput) : Option Int :=
  if i.suppressAge then none else some (interval i - i.ageDays.toInt)

/-- The recommendation without the overflow checks. -/
def verdict (i : RecommendationInput) : RotationRecommendation :=
  let found := (floors i (interval i) (left i) (remaining i)).filterMap id
  ⟨found.foldl setFloor .ok, found.map Prod.snd, interval i⟩

theorem recommend_eq_some {i r} : recommend i = some r ↔ NoOverflow i ∧ r = verdict i := by
  have hfields : NoOverflow i ↔ Fits (scaled i) ∧
    (∀ e ∈ i.expiresAt, Fits (e.toInt - i.now.toInt)) ∧
      (i.suppressAge = false → Fits (interval i - i.ageDays.toInt)) :=
    ⟨fun h => ⟨h.doubled, h.left, h.remaining⟩, fun h => ⟨h.1, h.2.1, h.2.2⟩⟩
  rw [hfields]
  unfold recommend resolvedIntervalDays verdict left remaining checked
  cases i.expiresAt <;> cases i.suppressAge <;> by_cases hdoubled : Fits (scaled i) <;>
    simp [hdoubled, eq_comm] <;> grind

theorem exists_dueFloor {x days past soon} :
    (∃ status, some (status, x) = dueFloor days past soon) ↔
    days ≤ 0 ∧ x = past ∨ 0 < days ∧ days ≤ 14 ∧ x = soon := by
  unfold dueFloor
  split_ifs <;> simp <;> grind

theorem pastExpiry_mem {i} : .pastExpiry ∈ (verdict i).reasons ↔
    ∃ e ∈ i.expiresAt, e.toInt - i.now.toInt < 86400 := by
  have hreasons : .pastExpiry ∈ (verdict i).reasons ↔ ∃ status,
      some (status, .pastExpiry) ∈ floors i (interval i) (left i) (remaining i) := by
    simp [verdict]
  rw [hreasons]
  unfold floors strengthFloor reuseFloor left expiryFloor ageFloor
  cases i.strengthScore <;> cases i.expiresAt <;> cases remaining i <;>
    simp [exists_or, exists_dueFloor] <;> grind

def floorSeverity (o : Option (RotationStatus × Reason)) : Nat := o.elim 0 (·.1.severity)

/-- The most severe floor wins. -/
theorem severity_foldl (l : List _) (s : RotationStatus) :
    ((l.filterMap id).foldl setFloor s).severity
    = l.foldl (fun n o => max n (floorSeverity o)) s.severity := by
  induction l generalizing s with
  | nil => rfl
  | cons o l ih =>
    cases o with
    | none =>
      show _ = l.foldl _ (max s.severity 0)
      rw [Nat.max_zero]
      exact ih s
    | some floor =>
      show ((l.filterMap id).foldl setFloor (setFloor s floor)).severity = _
      rw [ih, List.foldl_cons]
      congr 1
      unfold setFloor floorSeverity
      split <;> simp <;> omega

theorem dueFloor_severity {x y} (h : x ≤ y) (a b c d) :
    floorSeverity (dueFloor y a b) ≤ floorSeverity (dueFloor x c d) := by
  unfold dueFloor
  split_ifs <;> simp [floorSeverity, RotationStatus.severity] <;> omega

theorem interval_le {i j} (hscaled : scaled j = scaled i) (hreuse : i.reuseCount ≤ j.reuseCount) :
    interval j ≤ interval i := by
  have hhalf : (scaled i).tdiv 2 ≤ max (scaled i) 1 := by
    rw [Int.tdiv_eq_ediv, show Int.sign 2 = 1 from rfl]
    split <;> omega
  unfold interval
  rw [hscaled]
  split_ifs <;> omega

theorem Worse.severity_le {i j} (h : Worse i j) :
    (verdict i).status.severity ≤ (verdict j).status.severity := by
  obtain ⟨heq, hage, hreuse, hnow, hexpires, hscore⟩ := h
  have hinterval : interval j ≤ interval i := interval_le (by rw [heq]; rfl) hreuse
  have hstrength : floorSeverity (strengthFloor i) ≤ floorSeverity (strengthFloor j) := by
    unfold strengthFloor
    rw [show j.weakThresholdScore = i.weakThresholdScore by rw [heq]]
    cases hi : i.strengthScore with
    | none => exact Nat.zero_le _
    | some n =>
      obtain ⟨n', hn', hle⟩ := hscore n hi
      rw [hn']
      simp only [UInt8.lt_iff_toNat_lt, Option.bind_some]
      split_ifs <;> simp [floorSeverity]
      omega
  have hshared : floorSeverity (reuseFloor i) ≤ floorSeverity (reuseFloor j) := by
    unfold reuseFloor
    split_ifs <;> simp [floorSeverity, RotationStatus.severity]
    omega
  have hexpiry : floorSeverity ((left i).bind expiryFloor)
      ≤ floorSeverity ((left j).bind expiryFloor) := by
    unfold left
    cases hi : i.expiresAt with
    | none => exact Nat.zero_le _
    | some e =>
      obtain ⟨e', he', hle⟩ := hexpires e hi
      rw [he']
      exact dueFloor_severity (by dsimp only; omega) ..
  have holder : floorSeverity ((remaining i).bind (ageFloor (interval i)))
      ≤ floorSeverity ((remaining j).bind (ageFloor (interval j))) := by
    unfold remaining
    rw [show j.suppressAge = i.suppressAge by rw [heq]]
    split
    · rfl
    · exact dueFloor_severity (by omega) ..
  simp only [verdict, severity_foldl, floors, List.foldl_cons, List.foldl_nil]
  omega

/-- A recommendation is as documented exactly if no intermediate result overflows and the secret
does not expire within the next day. -/
theorem rotation_policy_iff (i : RecommendationInput) :
    (∃ r, recommend i = some r ∧ Sound i r) ↔ NoOverflow i ∧
      ∀ e ∈ i.expiresAt, e.toInt ≤ i.now.toInt ∨ i.now.toInt + 86400 ≤ e.toInt := by
  simp only [recommend_eq_some]
  constructor
  · rintro ⟨r, ⟨hover, rfl⟩, hsound⟩
    refine ⟨hover, fun e he => ?_⟩
    by_cases hday : e.toInt - i.now.toInt < 86400
    · obtain ⟨e', he', hle⟩ := hsound.expiry.mp (pastExpiry_mem.mpr ⟨e, he, hday⟩)
      cases he.symm.trans he'
      exact .inl hle
    · exact .inr (by omega)
  · rintro ⟨hover, hday⟩
    refine ⟨_, ⟨hover, rfl⟩, ⟨Int.le_max_right .., ?_, ?_⟩⟩
    · rw [pastExpiry_mem]
      grind
    · intro j r' hworse hr'
      rw [(recommend_eq_some.mp hr').2]
      exact hworse.severity_le

def sampleInput : RecommendationInput where
  kind := .other
  criticality := .medium
  entryOverrideDays := none
  entityOverrideDays := none
  ageDays := 0
  reuseCount := 1
  strengthScore := none
  weakThresholdScore := 3
  expiresAt := some 100
  now := 0
  suppressAge := false

/-- A secret that expires in 100 seconds is said to be past its expiry. -/
theorem early_expiry : ∃ r, recommend sampleInput = some r ∧ .pastExpiry ∈ r.reasons ∧
    ¬ ∃ e ∈ sampleInput.expiresAt, e.toInt ≤ sampleInput.now.toInt := by
  exact ⟨verdict sampleInput, rfl, pastExpiry_mem.mpr ⟨100, rfl, by decide⟩, by decide⟩

end SentinelPass.Rotation
