import SentinelPass.Lib.Machine
import SentinelPass.Lib.Words
import SentinelPass.Sync.Mac

/-!
# The epoch high-water sidecar

`vault/epoch_guard.rs`: a small text file beside the vault records the vault
uuid, the highest key epoch and a digest of the key material. `check` compares a
vault with it before any password is tried, `adoptHeal` and `bump` move it.

The file is its contents as text, `none` when it is absent or not UTF-8. A write
goes to a temporary file that is renamed, so it happens whole or not at all
(`WriteOutcome`). Every function returns its answer and the file afterwards.

The heal test `to != from + 1` is computed in `i64`, and the released program
wraps: `adopt_heal_wraps` moves the mark from the largest epoch to the smallest.
-/

namespace SentinelPass

open Lib

/-- Errors of opening a vault and of changing its keys. -/
inductive VaultError
  | invalidInput (msg : String)
  | notFound (msg : String)
  | io (msg : String)
  | database (msg : String)
  | crypto (msg : String)
  | authenticationFailed
  | lockedOut (remaining : Int)
  | epochRollback (onDisk highWater : Int64)
  | slotRegistryTampered
deriving DecidableEq

/-- A stored column or buffer: a `Vec` has at most `isize::MAX` bytes. -/
structure Blob where
  bytes : Bytes
  fits : bytes.length < 2 ^ 63
deriving DecidableEq

namespace EpochGuard

/-! ## The digest -/

/-- What the sidecar binds: three columns, the registry MAC and the epoch. -/
structure KeyMaterial where
  (kdfParams wrappedDek dekNonce registryMac : Blob)
  keyEpoch : Int64
deriving DecidableEq

def framedBlob (b : Blob) : Bytes := leBytes 8 b.bytes.length ++ b.bytes

def KeyMaterial.framed (m : KeyMaterial) : Bytes :=
  framedBlob m.kdfParams ++ framedBlob m.wrappedDek ++ framedBlob m.dekNonce ++
    framedBlob m.registryMac ++ leBytes 8 m.keyEpoch.toUInt64.toNat

def digestOf (c : Crypto) (m : KeyMaterial) : Vector UInt8 32 := c.sha256 m.framed

theorem framedBlob_append_inj {a a' b b'} (h : framedBlob a ++ b = framedBlob a' ++ b') :
    a = a' ∧ b = b' := by
  have ha : a.bytes.length < 256 ^ 8 := Nat.lt_trans a.fits (by decide)
  have ha' : a'.bytes.length < 256 ^ 8 := Nat.lt_trans a'.fits (by decide)
  unfold framedBlob at h
  rw [List.append_assoc, List.append_assoc] at h
  obtain ⟨hbytes, hrest⟩ := append_len_inj ha ha' h
  refine ⟨?_, hrest⟩
  cases a
  cases hbytes
  rfl

theorem framed_inj {m m' : KeyMaterial} (h : m.framed = m'.framed) : m = m' := by
  unfold KeyMaterial.framed at h
  simp only [List.append_assoc] at h
  obtain ⟨hkdf, h⟩ := framedBlob_append_inj h
  obtain ⟨hdek, h⟩ := framedBlob_append_inj h
  obtain ⟨hnonce, h⟩ := framedBlob_append_inj h
  obtain ⟨hmac, h⟩ := framedBlob_append_inj h
  have hepoch : m.keyEpoch = m'.keyEpoch := by
    have hnat := leBytes_inj m.keyEpoch.toUInt64.toNat_lt m'.keyEpoch.toUInt64.toNat_lt h
    exact congrArg Int64.ofUInt64 (UInt64.toNat_inj.mp hnat)
  cases m
  simp_all

/-- The framing of the digest loses nothing. -/
theorem digestOf_inj {c : Crypto} {hashed : Set Bytes} (hsha : Set.InjOn c.sha256 hashed)
    {m m' : KeyMaterial} (hm : m.framed ∈ hashed)
    (hm' : m'.framed ∈ hashed) (h : digestOf c m = digestOf c m') : m = m' :=
  framed_inj (hsha hm hm' h)

/-! ## The file -/

/-- A parsed sidecar. -/
structure Sidecar where
  vaultUuid : Text
  epoch : Int64
  digestHex : Text
deriving DecidableEq

def magic : Text := "sentinelpass-epoch-hwm/3".toList

/-- `parse`. No character outside ASCII has a hexadecimal digit as its lower
case, so lowering ASCII letters decides the same texts. -/
def parse (contents : Text) : Option Sidecar :=
  match lines contents with
  | first :: second :: third :: fourth :: _ =>
    if first ≠ magic then none
    else
      let vaultUuid := trim second
      (parseI64 (trim third)).bind fun epoch =>
        let digestHex := (trim fourth).map Char.toLower
        if vaultUuid = [] ∨ digestHex.length ≠ 64 ∨ digestHex.all isAsciiHexdigit = false then none
        else some ⟨vaultUuid, epoch, digestHex⟩
  | _ => none

/-- The four lines `write` puts into the file. -/
def render (vaultUuid : Text) (epoch : Int64) (digest : Vector UInt8 32) : Text :=
  magic ++ '\n' :: (vaultUuid ++ '\n' :: (showI64 epoch ++ '\n' :: (hex digest.toList ++ ['\n'])))

/-- What the file system does with a write. -/
inductive WriteOutcome
  | done
  | writeFailed (e : String)
  | renameFailed (e : String)
deriving DecidableEq

def write (w : WriteOutcome) (file : Option Text) (vaultUuid : Text) (epoch : Int64)
    (digest : Vector UInt8 32) : Except VaultError Unit × Option Text :=
  match w with
  | .done => (.ok (), some (render vaultUuid epoch digest))
  | .writeFailed e => (.error (.io ("epoch sidecar write failed: " ++ e)), file)
  | .renameFailed e => (.error (.io ("epoch sidecar rename failed: " ++ e)), file)

def refusal (path what : String) : VaultError :=
  .invalidInput (what ++ (" To re-base rollback protection on purpose (intentional restore or " ++
    "vault replacement), delete the sidecar file: ") ++ path)

def recorded (file : Option Text) : Option Sidecar := file.bind parse

def peek (file : Option Text) : Option (Text × Int64) :=
  (recorded file).map fun side => (side.vaultUuid, side.epoch)

/-! ## The calls -/

inductive EpochCheck
  | current
  | healPending (fromEpoch toEpoch : Int64)
  | mintedFromAbsent (epoch : Int64)

/-- `i64::saturating_add(1)`. -/
def saturatingSucc (v : Int64) : Int64 := if v = Int64.maxValue then v else v + 1

def check (path : String) (w : WriteOutcome) (file : Option Text) (vaultUuid : Text)
    (dbEpoch : Int64) (digest : Vector UInt8 32) : Except VaultError EpochCheck × Option Text :=
  match recorded file with
  | none =>
    let (answer, file') := write w file vaultUuid dbEpoch digest
    (answer.map fun _ => .mintedFromAbsent dbEpoch, file')
  | some side =>
    let answer :=
      if side.vaultUuid ≠ vaultUuid then
        .error (refusal path ("epoch sidecar belongs to a different vault (sidecar vault " ++
          String.ofList side.vaultUuid ++
          "); refusing to reset rollback protection by sidecar swap."))
      else if dbEpoch < side.epoch then .error (.epochRollback dbEpoch side.epoch)
      else if side.epoch < dbEpoch then
        if saturatingSucc side.epoch < dbEpoch then
          .error (refusal path ("vault epoch jumped from " ++ toString side.epoch.toInt ++ " to " ++
            toString dbEpoch.toInt ++
            (" — expected at most +1; suspected tampering, corruption, " ++
            "or an unhandled import.")))
        else .ok (.healPending side.epoch dbEpoch)
      else if side.digestHex = hex digest.toList then .ok .current
      else
        .error (refusal path ("vault key material does not match the high-water record at the " ++
          "same epoch — suspected material rollback (a revoked password would unlock this state)."))
    (answer, file)

/-- `adopt_heal`, with the wrapping addition of the released program. -/
def adoptHeal (w : WriteOutcome) (file : Option Text) (vaultUuid : Text)
    (fromEpoch toEpoch : Int64) (digest : Vector UInt8 32) : Except VaultError Unit × Option Text :=
  match recorded file with
  | none =>
    (.error (.invalidInput "epoch sidecar vanished before the pending heal could be adopted"), file)
  | some side =>
    if side.vaultUuid = vaultUuid ∧ side.epoch = toEpoch ∧ side.digestHex = hex digest.toList then
      (.ok (), file)
    else if side.vaultUuid ≠ vaultUuid ∨ side.epoch ≠ fromEpoch ∨ toEpoch ≠ fromEpoch + 1 then
      (.error (.invalidInput (("refusing to adopt a heal that does not match the pending " ++
        "transition (sidecar epoch ") ++ toString side.epoch.toInt ++ ", pending " ++
        toString fromEpoch.toInt ++ " -> " ++ toString toEpoch.toInt ++ ")")), file)
    else write w file vaultUuid toEpoch digest

def bump (path : String) (w : WriteOutcome) (file : Option Text) (vaultUuid : Text)
    (newEpoch : Int64) (digest : Vector UInt8 32) : Except VaultError Unit × Option Text :=
  match recorded file with
  | none => write w file vaultUuid newEpoch digest
  | some side =>
    if side.vaultUuid ≠ vaultUuid then
      (.error (refusal path ("epoch sidecar belongs to a different vault (sidecar vault " ++
        String.ofList side.vaultUuid ++ "); refusing to bump.")), file)
    else if newEpoch < side.epoch then (.error (.epochRollback newEpoch side.epoch), file)
    else write w file vaultUuid newEpoch digest

def rebase (w : WriteOutcome) (file : Option Text) (vaultUuid : Text) (epoch : Int64)
    (digest : Vector UInt8 32) : Except VaultError Unit × Option Text :=
  write w file vaultUuid epoch digest

/-! ## Reading back -/

/-- A uuid that stands on a line of its own. -/
structure OneLine (vaultUuid : Text) : Prop where
  ne_nil : vaultUuid ≠ []
  newline : '\n' ∉ vaultUuid
  trimmed : Trimmed vaultUuid

variable {dbEpoch : Int64} {digest : Vector UInt8 32} {file : Option Text} {path : String}
  {side : Sidecar} {vaultUuid : Text} {w : WriteOutcome}

/-- What is written is read back. -/
theorem parse_render (h : OneLine vaultUuid) (epoch : Int64) (digest : Vector UInt8 32) :
    parse (render vaultUuid epoch digest) = some ⟨vaultUuid, epoch, hex digest.toList⟩ := by
  have hlines : lines (render vaultUuid epoch digest) =
      [stripCr magic, stripCr vaultUuid, stripCr (showI64 epoch), stripCr (hex digest.toList)] := by
    unfold render
    rw [lines_cons_line (by decide), lines_cons_line h.newline,
      lines_cons_line (newline_not_mem_showI64 epoch), lines_cons_line (newline_not_mem_hex _),
      lines_nil]
  have hmagic : stripCr magic = magic := by decide
  unfold parse
  rw [hlines]
  simp only [hmagic, ne_eq, if_false, h.trimmed.trim_stripCr,
    (trimmed_showI64 epoch).trim_stripCr, parseI64_showI64, Option.bind_some,
    (trimmed_hex digest.toList).trim_stripCr, map_toLower_hex, h.ne_nil,
    all_isAsciiHexdigit_hex, length_hex, Vector.length_toList, Bool.true_eq_false,
    not_true_eq_false, or_false]

theorem recorded_render (h : OneLine vaultUuid) (epoch digest) :
    recorded (some (render vaultUuid epoch digest))
      = some ⟨vaultUuid, epoch, hex digest.toList⟩ :=
  parse_render h epoch digest

theorem OneLine.of_recorded (h : recorded file = some side) : OneLine side.vaultUuid := by
  obtain ⟨contents, -, h⟩ := Option.bind_eq_some_iff.mp h
  unfold parse at h
  split at h
  · next first second third fourth rest hlines =>
    split at h
    · cases h
    obtain ⟨epoch, -, h⟩ := Option.bind_eq_some_iff.mp h
    dsimp only at h
    split at h
    · cases h
    rename_i hok
    cases h
    rw [not_or] at hok
    have hsecond : '\n' ∉ second := not_mem_of_mem_lines (by rw [hlines]; simp)
    exact ⟨hok.1, fun hnl => hsecond (mem_of_mem_trim hnl), trimmed_trim second⟩
  · cases h

theorem write_cases (w file epoch digest) (h : OneLine vaultUuid) :
    ((write w file vaultUuid epoch digest).1 = .ok () ∧
      recorded (write w file vaultUuid epoch digest).2
        = some ⟨vaultUuid, epoch, hex digest.toList⟩) ∨
    (∃ e, (write w file vaultUuid epoch digest).1 = .error e) ∧
      (write w file vaultUuid epoch digest).2 = file := by
  cases w with
  | done => exact .inl ⟨rfl, recorded_render h epoch digest⟩
  | writeFailed e => exact .inr ⟨⟨_, rfl⟩, rfl⟩
  | renameFailed e => exact .inr ⟨⟨_, rfl⟩, rfl⟩

/-! ## Runs of calls -/

/-- A call of the guard, with what the file system does with its write. -/
inductive GuardCall
  | check (w : WriteOutcome) (vaultUuid : Text) (dbEpoch : Int64) (digest : Vector UInt8 32)
  | adoptHeal (w : WriteOutcome) (vaultUuid : Text) (fromEpoch toEpoch : Int64)
      (digest : Vector UInt8 32)
  | bump (w : WriteOutcome) (vaultUuid : Text) (newEpoch : Int64) (digest : Vector UInt8 32)

/-- The answer of a call, its payload left out, and the file afterwards. -/
def GuardCall.run (path : String) (file : Option Text) :
    GuardCall → Except VaultError Unit × Option Text
  | .check w vaultUuid dbEpoch digest =>
    let (answer, file') := EpochGuard.check path w file vaultUuid dbEpoch digest
    (answer.map fun _ => (), file')
  | .adoptHeal w vaultUuid fromEpoch toEpoch digest =>
    EpochGuard.adoptHeal w file vaultUuid fromEpoch toEpoch digest
  | .bump w vaultUuid newEpoch digest => EpochGuard.bump path w file vaultUuid newEpoch digest

def guardMachine (path : String) : Machine (Option Text) GuardCall where
  init file := (recorded file).isSome
  step file call := some (call.run path file).2

/-- The heal test does not overflow: it does so if the sidecar is at the largest epoch, and the
call heals that vault from there to the smallest one. -/
def GuardCall.Exact (file : Option Text) : GuardCall → Prop
  | .adoptHeal _ vaultUuid fromEpoch toEpoch _ =>
    ¬ ((recorded file).map (fun side => (side.vaultUuid, side.epoch))
        = some (vaultUuid, fromEpoch) ∧ fromEpoch = Int64.maxValue ∧ toEpoch = Int64.minValue)
  | _ => True

instance (file : Option Text) (call : GuardCall) : Decidable (call.Exact file) :=
  match call with
  | .adoptHeal .. => by
    unfold GuardCall.Exact
    infer_instance
  | .check .. | .bump .. => .isTrue trivial

/-! ### Calls that fail leave the file as it was -/

section Errors

variable {epoch fromEpoch : Int64} {e : VaultError}

theorem write_error (h : (write w file vaultUuid epoch digest).1 = .error e) :
    (write w file vaultUuid epoch digest).2 = file := by
  cases w with
  | done => cases h
  | writeFailed msg => rfl
  | renameFailed msg => rfl

theorem check_error (h : (check path w file vaultUuid epoch digest).1 = .error e) :
    (check path w file vaultUuid epoch digest).2 = file := by
  unfold check at h ⊢
  cases hrec : recorded file with
  | none =>
    simp only [hrec] at h ⊢
    cases hw : (write w file vaultUuid epoch digest).1 with
    | ok _ => rw [hw] at h; cases h
    | error e' => exact write_error hw
  | some side => rfl

theorem adoptHeal_error (h : (adoptHeal w file vaultUuid fromEpoch epoch digest).1 = .error e) :
    (adoptHeal w file vaultUuid fromEpoch epoch digest).2 = file := by
  unfold adoptHeal at h ⊢
  cases hrec : recorded file with
  | none => rfl
  | some side =>
    simp only [hrec] at h ⊢
    split at h
    · cases h
    rename_i hdone
    rw [if_neg hdone]
    split at h
    · next hno => rw [if_pos hno]
    · next hgo => rw [if_neg hgo]; exact write_error h

theorem bump_error (h : (bump path w file vaultUuid epoch digest).1 = .error e) :
    (bump path w file vaultUuid epoch digest).2 = file := by
  unfold bump at h ⊢
  cases hrec : recorded file with
  | none => simp only [hrec] at h ⊢; exact write_error h
  | some side =>
    simp only [hrec] at h ⊢
    split at h
    · next hno => rw [if_pos hno]
    rename_i huuid
    rw [if_neg huuid]
    split at h
    · next hno => rw [if_pos hno]
    · next hgo => rw [if_neg hgo]; exact write_error h

open GuardCall

theorem GuardCall.run_error {call : GuardCall} (h : (call.run path file).1 = .error e) :
    (call.run path file).2 = file := by
  cases call with
  | check w vaultUuid dbEpoch digest =>
    cases hcheck : (EpochGuard.check path w file vaultUuid dbEpoch digest).1 with
    | ok verdict =>
      have hok : ((check w vaultUuid dbEpoch digest).run path file).1 = .ok () := by
        show (EpochGuard.check path w file vaultUuid dbEpoch digest).1.map _ = _
        rw [hcheck]
        rfl
      rw [hok] at h
      cases h
    | error e' => exact check_error hcheck
  | adoptHeal w vaultUuid fromEpoch toEpoch digest => exact adoptHeal_error h
  | bump w vaultUuid newEpoch digest => exact bump_error h

end Errors

/-- All that a call does to a file that can be read: nothing, or it records an
epoch that is not below under the same uuid. -/
theorem GuardCall.run_cases (path : String) {call : GuardCall} (hrec : recorded file = some side)
    (hexact : call.Exact file) :
    (call.run path file).2 = file ∨ ∃ epoch digestHex, side.epoch ≤ epoch ∧
        recorded (call.run path file).2 = some ⟨side.vaultUuid, epoch, digestHex⟩ := by
  have hline := OneLine.of_recorded hrec
  have hwrite : ∀ (w : WriteOutcome) {epoch : Int64} (digest : Vector UInt8 32),
      side.epoch ≤ epoch → (write w file side.vaultUuid epoch digest).2 = file ∨
          ∃ epoch' digestHex, side.epoch ≤ epoch' ∧
            recorded (write w file side.vaultUuid epoch digest).2
              = some ⟨side.vaultUuid, epoch', digestHex⟩ := by
    intro w epoch digest hle
    rcases write_cases w file epoch digest hline with ⟨-, hnew⟩ | ⟨-, hold⟩
    · exact .inr ⟨epoch, _, hle, hnew⟩
    exact .inl hold
  cases call with
  | check w vaultUuid dbEpoch digest =>
    unfold run EpochGuard.check
    rw [hrec]
    exact .inl rfl
  | adoptHeal w vaultUuid fromEpoch toEpoch digest =>
    unfold run EpochGuard.adoptHeal
    simp only [hrec]
    split
    · exact .inl rfl
    split
    · exact .inl rfl
    rename_i hgo
    -- the one transition: from the recorded epoch to its successor
    simp only [not_or, not_not] at hgo
    obtain ⟨huuid, hfrom, hto⟩ := hgo
    have hmax : side.epoch ≠ Int64.maxValue := by
      intro hmax
      refine hexact ⟨?_, hfrom ▸ hmax, by rw [hto, ← hfrom, hmax]; rfl⟩
      rw [hrec, Option.map_some, huuid, hfrom]
    have hle : side.epoch ≤ toEpoch := by
      have hsucc := toInt_add_one_of_ne hmax
      rw [hto, ← hfrom, Int64.le_iff_toInt_le]
      omega
    rw [← huuid]
    exact hwrite w digest hle
  | bump w vaultUuid newEpoch digest =>
    unfold run EpochGuard.bump
    simp only [hrec]
    split
    · exact .inl rfl
    rename_i huuid
    split
    · exact .inl rfl
    rename_i hlt
    rw [← not_not.mp huuid]
    exact hwrite w digest (Int64.not_lt.mp hlt)

theorem run_recorded {file' : Option Text}
    (hrun : (guardMachine path).Run GuardCall.Exact file file') (hrec : recorded file = some side) :
    ∃ side', recorded file' = some side' ∧ side'.vaultUuid = side.vaultUuid ∧
      side.epoch ≤ side'.epoch := by
  refine hrun.invariant (P := fun f => ∃ side', recorded f = some side' ∧
    side'.vaultUuid = side.vaultUuid ∧ side.epoch ≤ side'.epoch)
    ⟨side, hrec, rfl, Int64.le_refl _⟩ ?_
  rintro f f' call ⟨side', hside, huuid, hle⟩ hexact hstep
  cases hstep
  rcases GuardCall.run_cases path hside hexact with hsame | ⟨epoch, digestHex, hge, hnew⟩
  · exact ⟨side', by rw [hsame, hside], huuid, hle⟩
  · exact ⟨_, hnew, huuid, Int64.le_trans hle hge⟩

theorem check_current (hrec : recorded file = some side)
    (h : (check path w file vaultUuid dbEpoch digest).1 = .ok .current) :
    vaultUuid = side.vaultUuid ∧ dbEpoch = side.epoch ∧ hex digest.toList = side.digestHex := by
  unfold check at h
  simp only [hrec] at h
  split at h
  · cases h
  rename_i huuid
  split at h
  · cases h
  rename_i hlow
  split at h
  · split at h
    · cases h
    · cases h
  · next hhigh =>
    split at h
    · next hdigest =>
      exact ⟨(not_not.mp huuid).symm,
        Int64.le_antisymm (Int64.not_lt.mp hhigh) (Int64.not_lt.mp hlow), hdigest.symm⟩
    · cases h

theorem check_healPending {fromEpoch toEpoch : Int64} (hrec : recorded file = some side)
    (h : (check path w file vaultUuid dbEpoch digest).1 = .ok (.healPending fromEpoch toEpoch)) :
    vaultUuid = side.vaultUuid ∧ fromEpoch = side.epoch ∧ toEpoch = dbEpoch ∧
      dbEpoch.toInt = side.epoch.toInt + 1 := by
  unfold check at h
  simp only [hrec] at h
  split at h
  · cases h
  rename_i huuid
  split at h
  · cases h
  split at h
  · next hhigh =>
    split at h
    · cases h
    rename_i hjump
    cases h
    refine ⟨(not_not.mp huuid).symm, rfl, rfl, ?_⟩
    -- the recorded epoch is below another one, so its successor does not wrap
    have hmax := ne_maxValue_of_lt (Int64.lt_iff_toInt_lt.mp hhigh)
    have hsucc := toInt_add_one_of_ne hmax
    rw [Int64.not_lt, saturatingSucc, if_neg hmax, Int64.le_iff_toInt_le] at hjump
    rw [Int64.lt_iff_toInt_lt] at hhigh
    omega
  · split at h
    · cases h
    · cases h

theorem check_ok {file' verdict}
    (h : check path w file vaultUuid dbEpoch digest = (.ok verdict, file')) :
    (recorded file = none ∧ verdict = .mintedFromAbsent dbEpoch ∧
      file' = some (render vaultUuid dbEpoch digest)) ∨
    ∃ side, recorded file = some side ∧ file' = file ∧ side.vaultUuid = vaultUuid ∧
      ((verdict = .current ∧ side.epoch = dbEpoch ∧ side.digestHex = hex digest.toList) ∨
        (verdict = .healPending side.epoch dbEpoch ∧ dbEpoch.toInt = side.epoch.toInt + 1)) := by
  have hanswer : (check path w file vaultUuid dbEpoch digest).1 = .ok verdict := by rw [h]
  cases hrec : recorded file with
  | none =>
    refine .inl ⟨rfl, ?_⟩
    unfold check at h
    simp only [hrec] at h
    cases w with
    | done =>
      cases h
      exact ⟨rfl, rfl⟩
    | writeFailed e => cases h
    | renameFailed e => cases h
  | some side =>
    have hfile : file' = file := by
      unfold check at h
      simp only [hrec] at h
      exact (Prod.mk.inj h).2.symm
    refine .inr ⟨side, rfl, hfile, ?_⟩
    cases verdict with
    | current =>
      obtain ⟨huuid, hepoch, hdigest⟩ := check_current hrec hanswer
      exact ⟨huuid.symm, .inl ⟨rfl, hepoch.symm, hdigest.symm⟩⟩
    | healPending fromEpoch toEpoch =>
      obtain ⟨huuid, rfl, rfl, hnext⟩ := check_healPending hrec hanswer
      exact ⟨huuid.symm, .inr ⟨rfl, hnext⟩⟩
    | mintedFromAbsent epoch =>
      -- a file that can be read is never minted
      unfold check at hanswer
      simp only [hrec] at hanswer
      repeat' split at hanswer
      all_goals cases hanswer

/-- **The guard is monotone and exact.** Along every run of calls that stays
clear of the overflowing heal test. -/
theorem guard_monotone_exact (c : Crypto) (hashed : Set Bytes) (hsha : Set.InjOn c.sha256 hashed)
    (path : String) :
    (∀ (file file' : Option Text) (side : Sidecar), recorded file = some side →
      (guardMachine path).Run GuardCall.Exact file file' →
        ∃ side', recorded file' = some side' ∧
          side'.vaultUuid = side.vaultUuid ∧ side.epoch ≤ side'.epoch ∧
          (∀ w vaultUuid dbEpoch digest,
            (check path w file' vaultUuid dbEpoch digest).1 = .ok .current →
              vaultUuid = side'.vaultUuid ∧ dbEpoch = side'.epoch ∧
                hex digest.toList = side'.digestHex) ∧
          (∀ w vaultUuid dbEpoch digest fromEpoch toEpoch,
            (check path w file' vaultUuid dbEpoch digest).1 = .ok (.healPending fromEpoch toEpoch) →
              vaultUuid = side'.vaultUuid ∧ fromEpoch = side'.epoch ∧ toEpoch = dbEpoch ∧
                dbEpoch.toInt = side'.epoch.toInt + 1) ∧
          ∀ (call : GuardCall) (e : VaultError), (call.run path file').1 = .error e →
            (call.run path file').2 = file') ∧
    ∀ m m' : KeyMaterial, m.framed ∈ hashed → m'.framed ∈ hashed → m ≠ m' →
      digestOf c m ≠ digestOf c m' := by
  constructor
  · intro file file' side hrec hrun
    obtain ⟨side', hrec', huuid, hle⟩ := run_recorded hrun hrec
    refine ⟨side', hrec', huuid, hle, ?_, ?_, ?_⟩
    · intro w vaultUuid dbEpoch digest h
      exact check_current hrec' h
    · intro w vaultUuid dbEpoch digest fromEpoch toEpoch h
      exact check_healPending hrec' h
    · intro call e h
      exact GuardCall.run_error h
  · intro m m' hm hm' hne h
    exact hne (digestOf_inj hsha hm hm' h)

/-! ### A heal at the end of the range, and an ordinary run -/

def sampleDigest : Vector UInt8 32 := Vector.replicate 32 0x11

def sampleFile : Option Text := some (render "v".toList 1 sampleDigest)

theorem oneLine_v : OneLine "v".toList := by
  refine ⟨by decide, by decide, trimmed_of_forall ?_⟩
  intro c hc
  obtain rfl : c = 'v' := List.mem_singleton.mp hc
  decide

theorem recorded_sampleFile : recorded sampleFile = some ⟨"v".toList, 1, hex sampleDigest.toList⟩ :=
  recorded_render oneLine_v 1 sampleDigest

/-- The largest epoch is recorded, then healed from. -/
def wrappingCalls : List GuardCall :=
  [.bump .done "v".toList Int64.maxValue sampleDigest,
    .adoptHeal .done "v".toList Int64.maxValue Int64.minValue sampleDigest]

/-- The mark falls from the first recorded epoch to the smallest one. -/
theorem adopt_heal_wraps : ∃ file' side side', recorded sampleFile = some side ∧
      (guardMachine "vault.db.epoch").Run (fun _ _ => True) sampleFile file' ∧
      recorded file' = some side' ∧ side'.epoch < side.epoch := by
  have hexec : (guardMachine "vault.db.epoch").exec sampleFile wrappingCalls
      = some (some (render "v".toList Int64.minValue sampleDigest)) := by decide +kernel
  exact ⟨_, _, _, recorded_sampleFile, Machine.run_of_exec (Machine.allowed_true _ _) hexec,
    recorded_render oneLine_v Int64.minValue sampleDigest, by decide⟩

/-- A checksum, enough to tell two materials apart. -/
def sumCrypto : Crypto where
  sha256 b := Vector.replicate 32 (b.foldl (· + ·) 0)
  hmacSha256 k b := Vector.replicate 32 ((k ++ b).foldl (· + ·) 0)

def emptyBlob : Blob := ⟨[], by decide⟩

def sampleMaterial (epoch : Int64) : KeyMaterial :=
  ⟨emptyBlob, emptyBlob, emptyBlob, emptyBlob, epoch⟩

/-- A rotation whose follow was lost, healed at the next open. -/
def healingCalls : List GuardCall :=
  [.check .done "v".toList 2 sampleDigest, .adoptHeal .done "v".toList 1 2 sampleDigest]

theorem injOn_sumCrypto :
    Set.InjOn sumCrypto.sha256 {(sampleMaterial 1).framed, (sampleMaterial 2).framed} := by
  rintro x (rfl | rfl) y (rfl | rfl) h
  · rfl
  · exact absurd h (by decide +kernel)
  · exact absurd h (by decide +kernel)
  rfl

theorem guard_monotone_exact_healingCalls :
    (∃ file', (guardMachine "vault.db.epoch").Run GuardCall.Exact sampleFile file' ∧
      ∃ side', recorded file' = some side' ∧ side'.vaultUuid = "v".toList ∧ 1 ≤ side'.epoch) ∧
    digestOf sumCrypto (sampleMaterial 1) ≠ digestOf sumCrypto (sampleMaterial 2) := by
  have hguard := guard_monotone_exact sumCrypto _ injOn_sumCrypto "vault.db.epoch"
  have hexec : (guardMachine "vault.db.epoch").exec sampleFile healingCalls
      = some (some (render "v".toList 2 sampleDigest)) := by decide +kernel
  have hallowed : (guardMachine "vault.db.epoch").Allowed GuardCall.Exact sampleFile
      healingCalls := by decide +kernel
  have hrun := Machine.run_of_exec hallowed hexec
  obtain ⟨side', hrec, huuid, hle, -⟩ := hguard.1 sampleFile _ _ recorded_sampleFile hrun
  exact ⟨⟨_, hrun, side', hrec, huuid, hle⟩, hguard.2 _ _ (.inl rfl) (.inr rfl) (by decide)⟩

end EpochGuard

end SentinelPass
