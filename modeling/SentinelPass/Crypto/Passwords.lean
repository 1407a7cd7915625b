import Mathlib.Data.List.Infix
import SentinelPass.Lib.Table
import SentinelPass.Lib.Text

/-!
# Generated and analysed passwords

`crypto/password.rs` and `crypto/strength.rs`. A generated password has one character drawn for
each class that is enabled, then characters of the whole pool, and is shuffled. The character
that stands for the symbols is drawn from the pool.
-/

namespace SentinelPass.Passwords

open Lib List

/-! ## Generation -/

def lowercase : Text := "abcdefghijklmnopqrstuvwxyz".toList
def uppercase : Text := "ABCDEFGHIJKLMNOPQRSTUVWXYZ".toList
def digits : Text := "0123456789".toList
def symbols : Text := "!@#$%^&*()_+-=[]\x7b\x7d|;:,.<>?".toList

structure PasswordGeneratorConfig where
  length : Nat
  (includeLowercase includeUppercase includeDigits includeSymbols excludeAmbiguous : Bool)

inductive CryptoError
  | encryptionFailed (message : String)
  | randomFailed (message : String)

namespace PasswordGeneratorConfig

variable (c : PasswordGeneratorConfig)

def validate : Except CryptoError Unit :=
  if c.length < 4 then
    .error (.encryptionFailed "Password length must be at least 4 characters")
  else if !c.includeLowercase && !c.includeUppercase && !c.includeDigits && !c.includeSymbols then
    .error (.encryptionFailed "At least one character type must be enabled")
  else .ok ()

def enabled : List Text :=
  (if c.includeLowercase then [lowercase] else []) ++
    (if c.includeUppercase then [uppercase] else []) ++
    (if c.includeDigits then [digits] else []) ++ if c.includeSymbols then [symbols] else []

def without (ambiguous chars : Text) : Text :=
  if c.excludeAmbiguous then chars.filter (· ∉ ambiguous) else chars

def ambiguous : Text := "l1IO0".toList

def pool : Text := c.without ambiguous c.enabled.flatten

/-- What the first characters are drawn from, one for each class. -/
def mandatory : List Text :=
  (if c.includeLowercase then [c.without ['l'] lowercase] else []) ++
    (if c.includeUppercase then [c.without ['I', 'O'] uppercase] else []) ++
    (if c.includeDigits then [c.without ['0', '1'] digits] else []) ++
    if c.includeSymbols then [c.pool] else []

end PasswordGeneratorConfig

/-- One random choice; there is none from an empty slice. -/
def push (draws : Nat → Nat) (password chars : Text) : Text :=
  password ++ (chars[draws password.length % chars.length]?).toList

/-- `none` is a panic: `Vec::with_capacity` takes at most `isize::MAX` bytes. -/
def generatePassword (c : PasswordGeneratorConfig) (draws : Nat → Nat) (shuffle : MapOrder Char) :
    Option (Except CryptoError Text) :=
  match c.validate with
  | .error e => some (.error e)
  | .ok () =>
    if c.pool = [] then
      some (.error (.randomFailed "Character pool is empty after applying filters"))
    else if 2 ^ 63 ≤ c.length then none
    else
      let password := c.mandatory.foldl (push draws) []
      let rest := replicate (c.length - password.length) c.pool
      some (.ok (shuffle.arrange (rest.foldl (push draws) password)))

open PasswordGeneratorConfig

structure Policy (c : PasswordGeneratorConfig) (password : Text) : Prop where
  length : password.length = c.length
  allowed : ∀ x ∈ password, ∃ chars ∈ c.enabled, x ∈ chars
  unambiguous : c.excludeAmbiguous → ∀ x ∈ password, x ∉ ambiguous
  classes : ∀ chars ∈ c.enabled, ∃ x ∈ password, x ∈ chars

/-- Whatever is drawn, the password is within the policy. -/
def MeetsPolicy (c : PasswordGeneratorConfig) : Prop :=
  ∀ draws shuffle, ∃ password,
    generatePassword c draws shuffle = some (.ok password) ∧ Policy c password

section Generate

variable {c : PasswordGeneratorConfig} {draws : Nat → Nat} {sets : List Text} {x : Char}

/-- Each set gives one character, by some draw. -/
structure Drawn (draws : Nat → Nat) (sets : List Text) (password : Text) : Prop where
  length : password.length = sets.length
  chosen : ∀ x ∈ password, ∃ chars ∈ sets, ∃ i, chars[draws i % chars.length]? = some x
  every : ∀ chars ∈ sets, ∃ x ∈ password, x ∈ chars

theorem foldl_push (draws : Nat → Nat) (h : ∀ chars ∈ sets, chars ≠ []) (password : Text) :
    ∃ more, sets.foldl (push draws) password = password ++ more ∧ Drawn draws sets more := by
  induction sets generalizing password with
  | nil => exact ⟨[], by simp, rfl, by simp, by simp⟩
  | cons chars sets ih =>
    rw [forall_mem_cons] at h
    have hlt : draws password.length % chars.length < chars.length :=
      Nat.mod_lt _ (length_pos_of_ne_nil h.1)
    have hx := getElem?_eq_getElem hlt
    obtain ⟨more, hmore, hlength, hchosen, hevery⟩ := ih h.2 (push draws password chars)
    refine ⟨chars.get ⟨_, hlt⟩ :: more, ?_, by simp [hlength], ?_, ?_⟩
    · rw [foldl_cons, hmore, push, hx]
      simp
    · rw [forall_mem_cons]
      refine ⟨⟨chars, mem_cons_self, _, hx⟩, fun x hmem => ?_⟩
      obtain ⟨other, hother, hdraw⟩ := hchosen x hmem
      exact ⟨other, mem_cons_of_mem _ hother, hdraw⟩
    · rw [forall_mem_cons]
      refine ⟨⟨_, mem_cons_self, get_mem ..⟩, fun other hother => ?_⟩
      obtain ⟨x, hmem, hin⟩ := hevery other hother
      exact ⟨x, mem_cons_of_mem _ hmem, hin⟩

/-- The sets that are drawn from, for all switches. -/
theorem mandatory_checked : ∀ l u d s e : Bool, (l || u || d || s) = true →
    let c : PasswordGeneratorConfig := ⟨0, l, u, d, s, e⟩
    c.pool ≠ [] ∧ c.mandatory.length ≤ 4 ∧ c.mandatory.all (fun m => m ≠ [] && m.all (· ∈ c.pool)) ∧
      ((s = true → (l || u || d) = false) →
        c.enabled.all fun chars => c.mandatory.any fun m => m.all (· ∈ chars)) ∧
      (s = true → (l || u || d) = true → symbols ∈ c.enabled ∧
        (c.pool :: c.mandatory).all fun m => m[0]?.all (· ∉ symbols)) := by
  decide +kernel

theorem mem_of_mem_pool (h : x ∈ c.pool) : (∃ chars ∈ c.enabled, x ∈ chars) ∧
      (c.excludeAmbiguous → x ∉ ambiguous) := by
  unfold pool without at h
  split at h
  · rw [mem_filter, mem_flatten] at h
    exact ⟨h.1, fun _ => of_decide_eq_true h.2⟩
  · next hall => exact ⟨mem_flatten.mp h, fun hx => absurd hx hall⟩

theorem validate_ok (h : c.validate = .ok ()) : 4 ≤ c.length ∧
    (c.includeLowercase || c.includeUppercase || c.includeDigits || c.includeSymbols) = true := by
  unfold validate at h
  split at h
  · cases h
  split at h
  · cases h
  next hlength hclass =>
  refine ⟨Nat.le_of_not_lt hlength, ?_⟩
  by_contra hnone
  simp only [Bool.or_eq_true, not_or] at hnone
  simp [hnone] at hclass

/-- The password before the shuffle. -/
theorem generatePassword_ok (hv : c.validate = .ok ()) (hpool : c.pool ≠ [])
    (hfits : c.length < 2 ^ 63) (hm : ∀ m ∈ c.mandatory, m ≠ []) (draws : Nat → Nat)
    (shuffle : MapOrder Char) :
    ∃ password, generatePassword c draws shuffle = some (.ok (shuffle.arrange password)) ∧
      Drawn draws (c.mandatory ++ replicate (c.length - c.mandatory.length) c.pool)
        password := by
  have hsets : ∀ chars ∈ c.mandatory ++ replicate (c.length - c.mandatory.length) c.pool,
      chars ≠ [] := by
    intro chars hc
    rcases mem_append.mp hc with hc | hc
    · exact hm chars hc
    · rwa [eq_of_mem_replicate hc]
  obtain ⟨first, hfirst, hdrawn⟩ := foldl_push draws hm []
  obtain ⟨password, hall, h⟩ := foldl_push draws hsets []
  refine ⟨password, ?_, h⟩
  rw [foldl_append, hfirst, nil_append, ← hdrawn.length] at hall
  unfold generatePassword
  rw [hv, hfirst]
  dsimp only
  rw [if_neg hpool, if_neg (Nat.not_le.mpr hfits), nil_append, hall, nil_append]

/-- A password is within the policy, whatever is drawn, exactly if the symbols are disabled or
are the only class. -/
theorem generated_policy_iff (c : PasswordGeneratorConfig) (hv : c.validate = .ok ())
    (hfits : c.length < 2 ^ 63) :
    MeetsPolicy c ↔ (c.includeSymbols = true →
      (c.includeLowercase || c.includeUppercase || c.includeDigits) = false) := by
  obtain ⟨hlength, hclass⟩ := validate_ok hv
  obtain ⟨n, l, u, d, s, e⟩ := c
  obtain ⟨hpool, hfour, hm, hcover, hheads⟩ := mandatory_checked l u d s e hclass
  simp only [all_eq_true, any_eq_true, Bool.and_eq_true, decide_eq_true_eq] at hm hcover
  have hdrawn := generatePassword_ok hv hpool hfits fun m hmem => (hm m hmem).1
  constructor
  · -- the first character of each set is drawn
    intro hmeets hs
    by_contra hother
    obtain ⟨henabled, hheads⟩ := hheads hs ((Bool.not_eq_false _).mp hother)
    obtain ⟨password, hp, hpolicy⟩ := hmeets (fun _ => 0) .insertion
    obtain ⟨drawn, hd, hdrawn⟩ := hdrawn (fun _ => 0) .insertion
    cases hp.symm.trans hd
    obtain ⟨x, hx, hsymbol⟩ := hpolicy.classes symbols henabled
    obtain ⟨chars, hchars, i, hi⟩ := hdrawn.chosen x hx
    rw [Nat.zero_mod] at hi
    have hset : chars ∈ pool ⟨n, l, u, d, s, e⟩ :: mandatory ⟨n, l, u, d, s, e⟩ := by
      rcases mem_append.mp hchars with hc | hc
      · exact mem_cons_of_mem _ hc
      · exact eq_of_mem_replicate hc ▸ mem_cons_self
    have hhead := all_eq_true.mp hheads chars hset
    rw [hi] at hhead
    exact of_decide_eq_true hhead hsymbol
  · intro hcond draws shuffle
    obtain ⟨password, hp, hdrawn⟩ := hdrawn draws shuffle
    have hin : ∀ x ∈ shuffle.arrange password, x ∈ pool ⟨n, l, u, d, s, e⟩ := by
      intro x hx
      obtain ⟨chars, hc, i, hi⟩ := hdrawn.chosen x ((MapOrder.mem_arrange _).mp hx)
      rcases mem_append.mp hc with hc | hc
      · exact (hm chars hc).2 x (mem_of_getElem? hi)
      · exact eq_of_mem_replicate hc ▸ mem_of_getElem? hi
    refine ⟨_, hp, ?_, fun x hx => (mem_of_mem_pool (hin x hx)).1,
      fun he x hx => (mem_of_mem_pool (hin x hx)).2 he, fun chars hc => ?_⟩
    · have hfour : (mandatory ⟨n, l, u, d, s, e⟩).length ≤ 4 := hfour
      rw [(shuffle.perm password).length_eq, hdrawn.length, length_append, length_replicate]
      exact Nat.add_sub_cancel' (hfour.trans hlength)
    · obtain ⟨m, hmem, hsub⟩ := hcover hcond chars hc
      obtain ⟨x, hx, hxm⟩ := hdrawn.every m (mem_append_left _ hmem)
      exact ⟨x, (MapOrder.mem_arrange _).mpr hx, hsub x hxm⟩

/-- The configuration of `generate_simple_password`. -/
theorem generated_policy_iff_simple : MeetsPolicy ⟨12, true, true, true, false, true⟩ :=
  (generated_policy_iff ⟨12, true, true, true, false, true⟩ rfl (by decide)).mpr (by simp)

/-- The default configuration has symbols enabled, and its password need not have one. -/
theorem default_password_without_symbol :
    PasswordGeneratorConfig.validate ⟨16, true, true, true, true, true⟩ = .ok () ∧
    ∃ password, generatePassword ⟨16, true, true, true, true, true⟩ (fun _ => 0) .insertion
        = some (.ok password) ∧ password.all (· ∉ symbols) :=
  ⟨rfl, "aA2aaaaaaaaaaaaa".toList, rfl, by decide +kernel⟩

end Generate

/-! ## Analysis -/

inductive PasswordStrength
  | veryWeak
  | weak
  | fair
  | good
  | strong
  | veryStrong

/-- The Unicode tables of the standard library, and the numbers `f64`. -/
structure AnalysisEnv (F : Type) where
  (isLowercase isUppercase : Char → Bool)
  toLowercase : Text → Text
  /-- `length * log2 charset_size`, or zero without a character set. -/
  entropyBits : Nat → Nat → F
  crackTimeSeconds : F → F
  lt : F → Nat → Bool

structure PasswordAnalysis (F : Type) where
  strength : PasswordStrength
  (entropyBits crackTimeSeconds : F)
  length : Nat
  (hasLowercase hasUppercase hasDigits hasSymbols : Bool)
  (warnings suggestions : List String)

def isAsciiPunctuation (x : Char) : Bool := '!' ≤ x && x ≤ '~' && !x.isAlphanum

/-- `windows(3)`. -/
def windows3 : Text → List (Char × Char × Char)
  | a :: b :: c :: rest => (a, b, c) :: windows3 (b :: c :: rest)
  | _ => []

/-- `as u8`. -/
def lowByte (x : Char) : Nat := x.toNat % 256

/-- `+ 1` on `u8`, which panics where it overflows. -/
def addOne (x : Nat) : Option Nat := if x = 255 then none else some (x + 1)

/-- `&&`; what it does not come to cannot panic. -/
def andAlso (p q : Option Bool) : Option Bool := p.bind fun x => if x then q else some false

/-- `||`. -/
def orElse (p q : Option Bool) : Option Bool := p.bind fun x => if x then some true else q

def sequentialBytes (a b c : Nat) : Option Bool :=
  orElse (andAlso ((addOne a).map (· == b)) ((addOne b).map (· == c)))
    (andAlso ((addOne b).map (a == ·)) ((addOne c).map (b == ·)))

/-- `any`, up to the first panic. -/
def anySequential : List (Char × Char × Char) → Option Bool
  | [] => some false
  | (a, b, c) :: rest => do
    if ← sequentialBytes (lowByte a) (lowByte b) (lowByte c) then some true
    else anySequential rest

def sequentialWarning : String := "Contains sequential characters (like 'abc' or '123')"

section

variable {F : Type} (E : AnalysisEnv F) (password : Text)

/-- The checks in their order, each with its warning and its suggestion. -/
def checks (sequential : Bool) : List (Bool × String × String) :=
  let length := (textBytes password).length
  [(length < 8, "Password is too short", "Use at least 8 characters"),
    (8 ≤ length && length < 12, "Password could be longer",
      "Consider using 12+ characters for better security"),
    (!password.any E.isLowercase, "Missing lowercase letters", "Add lowercase letters (a-z)"),
    (!password.any E.isUppercase, "Missing uppercase letters", "Add uppercase letters (A-Z)"),
    (!password.any Char.isDigit, "Missing numbers", "Add numbers (0-9)"),
    (!password.any isAsciiPunctuation, "Missing special characters",
      "Add special characters (!@#$%, etc.)"),
    ("password".toList <:+: E.toLowercase password, "Contains the word 'password'",
      "Avoid using dictionary words"),
    ((windows3 password).any fun (a, b, c) => a = b && b = c, "Contains repeating characters",
      "Avoid repeating characters"),
    (sequential, sequentialWarning, "Avoid sequential patterns")]

/-- `analyze_password` with overflow checks: `none` is a panic. -/
def analyzePassword : Option (PasswordAnalysis F) := do
  let length := (textBytes password).length
  let hasLowercase := password.any E.isLowercase
  let hasUppercase := password.any E.isUppercase
  let hasDigits := password.any Char.isDigit
  let hasSymbols := password.any isAsciiPunctuation
  let charsetSize := (if hasLowercase then 26 else 0) + (if hasUppercase then 26 else 0) +
    (if hasDigits then 10 else 0) + if hasSymbols then 32 else 0
  let entropyBits := E.entropyBits length charsetSize
  let strength :=
    if E.lt entropyBits 28 then .veryWeak else if E.lt entropyBits 36 then .weak
    else if E.lt entropyBits 60 then .fair else if E.lt entropyBits 80 then .good
    else if E.lt entropyBits 100 then .strong else .veryStrong
  let sequential ← anySequential (windows3 password)
  let found := (checks E password sequential).filter (·.1)
  some ⟨strength, entropyBits, E.crackTimeSeconds entropyBits, length, hasLowercase,
    hasUppercase, hasDigits, hasSymbols, found.map (·.2.1), found.map (·.2.2)⟩

end

def Steps (a b c : Nat) : Prop := a + 1 = b ∧ b + 1 = c ∨ a = b + 1 ∧ b = c + 1

def Overflows (a b c : Nat) : Prop := a = 255 ∨ b = 255 ∨ a = b + 1 ∧ c = 255

def LowSteps (w : Char × Char × Char) : Prop :=
  Steps (lowByte w.1) (lowByte w.2.1) (lowByte w.2.2)

/-- No triple overflows, up to the first whose low bytes are sequential. -/
def Clear : List (Char × Char × Char) → Prop
  | [] => True
  | w :: rest => ¬ Overflows (lowByte w.1) (lowByte w.2.1) (lowByte w.2.2) ∧
      (LowSteps w ∨ Clear rest)

/-- The analysis returns, and warns of sequential characters exactly where there are some. -/
def WarnsExactly {F : Type} (E : AnalysisEnv F) (password : Text) : Prop :=
  ∃ analysis, analyzePassword E password = some analysis ∧ (sequentialWarning ∈ analysis.warnings ↔
      ∃ a b c, [a, b, c] <:+: password ∧ Steps a.toNat b.toNat c.toNat)

section Analysis

variable {F : Type} {E : AnalysisEnv F} {password : Text} {a b c : Char}
  {ws : List (Char × Char × Char)}

theorem sequentialBytes_panics {a b c : Nat} (h : Overflows a b c) :
    sequentialBytes a b c = none := by
  unfold sequentialBytes orElse andAlso addOne
  rcases h with rfl | rfl | ⟨rfl, rfl⟩
  · rfl
  · by_cases ha : a = 255 <;> simp [ha]
  · have hup : b + 1 + 1 ≠ b := by omega
    by_cases ha : b = 254 <;> by_cases hb : b = 255 <;> simp [ha, hup]

theorem sequentialBytes_eq {a b c : Nat} (h : ¬ Overflows a b c) :
    ∃ r, sequentialBytes a b c = some r ∧ (r = true ↔ Steps a b c) := by
  unfold Overflows at h
  push Not at h
  obtain ⟨ha, hb, hc⟩ := h
  unfold sequentialBytes orElse andAlso addOne Steps
  rw [if_neg ha, if_neg hb]
  by_cases hdown : a = b + 1
  · have hup : b + 1 + 1 ≠ b := by omega
    simp [hdown, hup, hc hdown]
  · by_cases hup : a + 1 = b
    · by_cases hnext : b + 1 = c <;> simp [hup, hnext, hdown]
    · simp [hup, hdown]

theorem anySequential_panics (h : ¬ Clear ws) : anySequential ws = none := by
  induction ws with
  | nil => exact absurd trivial h
  | cons w rest ih =>
    by_cases hover : Overflows (lowByte w.1) (lowByte w.2.1) (lowByte w.2.2)
    · rw [anySequential, sequentialBytes_panics hover]
      rfl
    obtain ⟨r, hr, hsteps⟩ := sequentialBytes_eq hover
    have hlow : ¬ LowSteps w := fun hl => h ⟨hover, .inl hl⟩
    rw [anySequential, hr, Bool.eq_false_iff.mpr (mt hsteps.mp hlow)]
    exact ih fun hrest => h ⟨hover, .inr hrest⟩

theorem anySequential_eq (h : Clear ws) :
    ∃ r, anySequential ws = some r ∧ (r = true ↔ ∃ w ∈ ws, LowSteps w) := by
  induction ws with
  | nil => exact ⟨false, rfl, by simp⟩
  | cons w rest ih =>
    obtain ⟨r, hr, hsteps⟩ := sequentialBytes_eq h.1
    rw [anySequential, hr]
    by_cases hlow : LowSteps w
    · rw [hsteps.mpr hlow]
      exact ⟨true, rfl, by simp [hlow]⟩
    · rw [Bool.eq_false_iff.mpr (mt hsteps.mp hlow)]
      obtain ⟨r, hr, hsteps⟩ := ih (h.2.resolve_left hlow)
      exact ⟨r, hr, by simp [hsteps, hlow]⟩

/-- Three characters in sequence have low bytes in sequence, or overflow. -/
theorem exists_lowSteps (h : Clear ws) (hmem : (a, b, c) ∈ ws)
    (hsteps : Steps a.toNat b.toNat c.toNat) : ∃ w ∈ ws, LowSteps w := by
  induction ws with
  | nil => cases hmem
  | cons w rest ih =>
    by_cases hlow : LowSteps w
    · exact ⟨w, mem_cons_self, hlow⟩
    rcases mem_cons.mp hmem with rfl | hmem
    · have hover := h.1
      unfold LowSteps at hlow
      unfold Steps Overflows lowByte at *
      dsimp only at *
      omega
    · obtain ⟨v, hv, hlow⟩ := ih (h.2.resolve_left hlow) hmem
      exact ⟨v, mem_cons_of_mem _ hv, hlow⟩

theorem mem_windows3 : (a, b, c) ∈ windows3 password ↔ [a, b, c] <:+: password := by
  induction password using windows3.induct with
  | case1 x y z rest ih =>
    rw [windows3, mem_cons, ih, infix_cons_iff (a := x)]
    simp
  | case2 rest h =>
    rw [windows3]
    · refine iff_of_false not_mem_nil fun hin => ?_
      match rest, h with
      | [], _ | [_], _ | [_, _], _ => exact absurd hin.length_le (by simp)
      | x :: y :: z :: rest, h => exact h x y z rest rfl
    · exact h

theorem sequentialWarning_mem {sequential : Bool} :
    sequentialWarning ∈ ((checks E password sequential).filter (·.1)).map (·.2.1) ↔
      sequential = true := by
  constructor
  · intro h
    obtain ⟨row, hrow, htext⟩ := mem_map.mp h
    obtain ⟨hmem, hon⟩ := mem_filter.mp hrow
    simp only [checks, mem_cons, not_mem_nil, or_false] at hmem
    rcases hmem with rfl | rfl | rfl | rfl | rfl | rfl | rfl | rfl | rfl
    on_goal 9 => exact hon
    all_goals
      dsimp only at htext
      exact absurd htext (by decide)
  · rintro rfl
    refine mem_map.mpr ⟨(true, sequentialWarning, "Avoid sequential patterns"), ?_, rfl⟩
    exact mem_filter.mpr ⟨mem_of_getElem? (i := 8) rfl, rfl⟩

/-- The warning is exact on a text in which no triple overflows before the first one with
sequential low bytes, and that has a sequential triple if it has one with such low bytes. -/
theorem sequential_warning_iff (E : AnalysisEnv F) (password : Text) :
    WarnsExactly E password ↔ Clear (windows3 password) ∧ ((∃ w ∈ windows3 password, LowSteps w) →
        ∃ w ∈ windows3 password, Steps w.1.toNat w.2.1.toNat w.2.2.toNat) := by
  unfold WarnsExactly analyzePassword
  by_cases hclear : Clear (windows3 password)
  · obtain ⟨r, hr, hlow⟩ := anySequential_eq hclear
    simp only [hr, Option.bind_eq_bind, Option.bind_some, Option.some.injEq, exists_eq_left',
      sequentialWarning_mem, hlow, hclear, true_and, Prod.exists, mem_windows3]
    refine ⟨Iff.mp, fun h => ⟨h, ?_⟩⟩
    rintro ⟨a, b, c, hin, hsteps⟩
    obtain ⟨⟨x, y, z⟩, hmem, hlow⟩ := exists_lowSteps hclear (mem_windows3.mpr hin) hsteps
    exact ⟨x, y, z, mem_windows3.mp hmem, hlow⟩
  · rw [anySequential_panics hclear]
    simp [hclear]

/-- ASCII, with the length for the entropy. -/
def asciiAnalysis : AnalysisEnv Nat where
  isLowercase := Char.isLower
  isUppercase := Char.isUpper
  toLowercase text := text.map Char.toLower
  entropyBits length _ := length
  crackTimeSeconds := id
  lt a b := a < b

/-- The low byte of `Ł` is that of `A`, and `ÿ` has the low byte 255. -/
theorem low_bytes_warn :
    ¬ WarnsExactly asciiAnalysis "ŁBC".toList ∧
      analyzePassword asciiAnalysis "ÿab".toList = none := by
  refine ⟨?_, rfl⟩
  rintro ⟨analysis, h, hiff⟩
  cases h
  obtain ⟨a, b, c, hin, hsteps⟩ := hiff.mp (sequentialWarning_mem.mpr rfl)
  have hmem : (a, b, c) ∈ [('Ł', 'B', 'C')] := mem_windows3.mpr hin
  cases mem_singleton.mp hmem
  unfold Steps at hsteps
  revert hsteps
  decide

end Analysis

end SentinelPass.Passwords
