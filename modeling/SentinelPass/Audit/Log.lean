import SentinelPass.Lib.Machine
import SentinelPass.Lib.Utf8
import SentinelPass.Sync.Mac

/-!
# The audit log

`audit.rs`: one JSON record a line in `audit.log`, older records in
`audit.log.1`, `audit.log.2` and so on. Every record carries the hash of the one
before it and its own: HMAC-SHA256 under the chain key when the vault is
unlocked (`sealed`), SHA-256 otherwise. An append recovers the head of the chain
from the end of the files, ends a torn last line, writes one line and rotates
when the file is large. `verifyAuditChain` walks all files, oldest first.

`serde_json` on an entry is `AuditEnv.toJson` and `AuditEnv.fromJson`. What an
entry holds beside its chain block is only written and read as a whole, and is a
type `ρ` here; the verifier reports the time of the first and the last one.
Files that exist can be read and written, so the only read error is text that is
not UTF-8. `HEXLOWER.decode_mut` panics on a text of another length than 64.
-/

namespace SentinelPass.Audit

open Lib

/-! ## Entries -/

abbrev Digest := Vector UInt8 32

structure AuditChain where
  v : UInt8
  seq : UInt64
  (prev hash : Text)
  sealed : Bool
deriving DecidableEq

/-- `AuditEntry`: what it records, and the chain block. -/
structure AuditEntry (ρ : Type) where
  record : ρ
  chain : Option AuditChain
deriving DecidableEq

/-- The functions of other crates. -/
structure AuditEnv (ρ : Type) where
  crypto : Crypto
  toJson : AuditEntry ρ → Text
  fromJson : Text → Option (AuditEntry ρ)
  timestamp : ρ → Int

inductive AuditError
  | fileIo (msg : String)
  | panicked
deriving DecidableEq

def auditChainFormatVersion : UInt8 := 1

def genesisDomain : Bytes := textBytes "sentinelpass-audit-chain-genesis-v1".toList

def chainTailScanBytes : Nat := 64 * 1024

variable {ρ : Type} (E : AuditEnv ρ)

def genesisPrev : Digest := E.crypto.sha256 genesisDomain

/-- `canonical_record_bytes`: the entry without its chain block. -/
def canonicalRecordBytes (entry : AuditEntry ρ) : Bytes :=
  textBytes (E.toJson { entry with chain := none })

/-- `HEXLOWER.encode` of a digest. -/
def hexDigest (d : Digest) : Text := hex d.toList

/-- `HEXLOWER.decode_mut` into 32 bytes. -/
def decodeDigest (t : Text) : Except AuditError (Option Digest) :=
  if (textBytes t).length ≠ 64 then .error .panicked
  else .ok ((unhex t).bind fun bytes =>
    if h : bytes.length = 32 then some ⟨bytes.toArray, by simpa using h⟩ else none)

def linkHash (chainKey : Bytes) (isSealed : Bool) (prev : Digest) (record : Bytes) : Digest :=
  if isSealed then E.crypto.hmacSha256 chainKey (prev.toList ++ record)
  else E.crypto.sha256 (prev.toList ++ record)

def chainHash (isSealed : Bool) (chainKey : Option Bytes) (prev : Digest) (record : Bytes) :
    Except AuditError Digest :=
  match isSealed, chainKey with
  | true, none => .error (.fileIo "audit chain key unavailable for sealed record")
  | isSealed, key => .ok (linkHash E (key.getD []) isSealed prev record)

/-! ## Files -/

/-- The audit directory: the rotated files in the order they are listed, by the
number after the name, and `audit.log` unless it is missing. -/
structure AuditDir where
  rotated : List (Nat × Bytes)
  current : Option Bytes

def AuditDir.empty : AuditDir := ⟨[], none⟩

inductive AuditFile
  | rotated (n : Nat)
  | current
deriving DecidableEq

def rotatedOldestFirst (d : AuditDir) : List (Nat × Bytes) :=
  d.rotated.mergeSort fun a b => b.1 ≤ a.1

/-- `chain_files_oldest_first`, with the contents of the files that exist. -/
def chainFilesOldestFirst (d : AuditDir) : List (AuditFile × Bytes) :=
  (rotatedOldestFirst d).map (fun f => (.rotated f.1, f.2)) ++
    d.current.toList.map fun bytes => (.current, bytes)

/-! ## The head of the chain -/

/-- The hash and the number a line carries, if it is a chained record. -/
def chainedLine (line : Text) : Except AuditError (Option (Digest × UInt64)) :=
  if trim line = [] then .ok none
  else
    match (E.fromJson (trim line)).bind (·.chain) with
    | none => .ok none
    | some chain => (decodeDigest chain.hash).map fun hash => hash.map fun h => (h, chain.seq)

def scanLines : List Text → Except AuditError (Option (Digest × UInt64))
  | [] => .ok none
  | line :: rest =>
    match chainedLine E line with
    | .ok none => scanLines rest
    | found => found

/-- `last_chained_in_buffer`. A last line without a newline is torn; the first
line of a window may be cut. -/
def lastChainedInBuffer (buf : Bytes) (dropFirstFragment : Bool) :
    Except AuditError (Option (Digest × UInt64)) :=
  match fromUtf8 buf with
  | none => .ok none
  | some text =>
    let fragments := text.splitOn '\n'
    let whole := if buf.getLast? = some 10 then fragments else fragments.dropLast
    scanLines E (if dropFirstFragment then whole.tail else whole).reverse

def lastChainedRecordInFile (bytes : Bytes) : Except AuditError (Option (Digest × UInt64)) :=
  if bytes = [] then .ok none
  else
    let start := bytes.length - min bytes.length chainTailScanBytes
    match lastChainedInBuffer E (bytes.drop start) (0 < start) with
    | .error e => .error e
    | .ok (some found) => .ok (some found)
    | .ok none =>
      if start = 0 then .ok none
      else
        match fromUtf8 bytes with
        | none => .error (.fileIo "Failed to read audit log: ")
        | some _ => lastChainedInBuffer E bytes false

/-- The first of these files that has a chained record. -/
def headOfFiles : List Bytes → Except AuditError (Digest × UInt64)
  | [] => .ok (genesisPrev E, 0)
  | bytes :: rest =>
    match lastChainedRecordInFile E bytes with
    | .error e => .error e
    | .ok (some found) => .ok found
    | .ok none => headOfFiles rest

/-- `recover_chain_head`: newest file first. -/
def recoverChainHead (d : AuditDir) : Except AuditError (Digest × UInt64) :=
  headOfFiles E ((chainFilesOldestFirst d).map Prod.snd).reverse

/-! ## Appending -/

structure AuditPolicy where
  (maxFileBytes maxFiles : Nat)

def AuditPolicy.sanitized (p : AuditPolicy) : AuditPolicy :=
  ⟨max p.maxFileBytes 256, max p.maxFiles 1⟩

/-- The entry with the chain block it is written with. -/
def chainEntry (d : AuditDir) (entry : AuditEntry ρ) (chainKey : Option Bytes) :
    Except AuditError (AuditEntry ρ) := do
  let head ← recoverChainHead E d
  let hash ← chainHash E chainKey.isSome chainKey head.1 (canonicalRecordBytes E entry)
  .ok { entry with
    chain := some ⟨auditChainFormatVersion, head.2 + 1, hexDigest head.1, hexDigest hash,
      chainKey.isSome⟩ }

def tailRepair (file : Bytes) : Bytes := if file ≠ [] ∧ file.getLast? ≠ some 10 then [10] else []

def lineBytes (entry : AuditEntry ρ) : Bytes := textBytes (E.toJson entry ++ ['\n'])

def appendBytes (d : AuditDir) (entry : AuditEntry ρ) : Bytes :=
  tailRepair (d.current.getD []) ++ lineBytes E entry

def AuditDir.write (d : AuditDir) (bytes : Bytes) : AuditDir :=
  { d with current := some (d.current.getD [] ++ bytes) }

def AuditDir.hasRotated (d : AuditDir) (n : Nat) : Bool := d.rotated.any fun f => f.1 = n

/-- The file operations of `rotate`: `clear i` and `shift i` are done when file `i`
exists, `retire` renames `audit.log`. -/
inductive RotateOp
  | clear (i : Nat)
  | shift (i : Nat)
  | retire

def applyOp (d : AuditDir) : RotateOp → AuditDir
  | .clear i =>
    if d.hasRotated i then { d with rotated := d.rotated.filter fun f => f.1 ≠ i + 1 } else d
  | .shift i =>
    if d.hasRotated i then
      { d with rotated := (d.rotated.filter fun f => f.1 ≠ i + 1).map fun f =>
        if f.1 = i then (i + 1, f.2) else f }
    else d
  | .retire =>
    match d.current with
    | none => d
    | some bytes => ⟨(d.rotated.filter fun f => f.1 ≠ 1) ++ [(1, bytes)], none⟩

/-- The operations for the files `i`, …, `1` and for `audit.log`. -/
def rotateOps : Nat → List RotateOp
  | 0 => [.retire]
  | i + 1 => .clear (i + 1) :: .shift (i + 1) :: rotateOps i

/-- `rotate`, stopped after `ops` operations by an error or a crash. -/
def rotate (policy : AuditPolicy) (d : AuditDir) (ops : Nat) : AuditDir :=
  ((rotateOps (policy.maxFiles - 1)).take ops).foldl applyOp d

/-- `append_entry`: the entry as it is written, and the directory. -/
def appendEntry (policy : AuditPolicy) (d : AuditDir) (entry : AuditEntry ρ)
    (chainKey : Option Bytes) (ops : Nat) : Except AuditError (AuditEntry ρ × AuditDir) := do
  let entry ← chainEntry E d entry chainKey
  let d := d.write (appendBytes E d entry)
  if policy.maxFileBytes ≤ (d.current.getD []).length then .ok (entry, rotate policy d ops)
  else .ok (entry, d)

/-! ## Verification -/

inductive AuditChainStart
  | genesis
  | carriedOver
deriving DecidableEq

inductive AuditVerifyFailure
  | missingChainKey
  | unsupportedVersion (found : UInt8)
  | sequenceGap (expected found : UInt64)
  | linkMismatch
  | hashMismatch
  | suspectedSplice (count : Nat)
  | malformedChainFields
deriving DecidableEq

inductive AuditVerifyOutcome
  | verified
  | failed (file : AuditFile) (line : Nat) (seq : Option UInt64) (reason : AuditVerifyFailure)
deriving DecidableEq

structure AuditVerifyReport where
  files : List AuditFile
  (totalRecords chainedRecords legacyRecords suspectedSplices unsealedRecords malformedLines : Nat)
  chainStart : Option AuditChainStart
  (oldestRecord newestRecord : Option Int)
  outcome : AuditVerifyOutcome
deriving DecidableEq

/-- The variables of the walk. -/
structure VerifyState where
  report : AuditVerifyReport
  running : Digest
  expectedSeq : UInt64
  seenFirst : Bool

/-- The walk ends early: with a report, or with an error. -/
inductive Halt
  | failed (report : AuditVerifyReport)
  | error (e : AuditError)

/-- Where a record stands. -/
structure Location where
  file : AuditFile
  line : Nat

def VerifyState.fail {α : Type} (st : VerifyState) (loc : Location) (chain : AuditChain)
    (reason : AuditVerifyFailure) : Except Halt α :=
  .error (.failed { st.report with outcome := .failed loc.file loc.line (some chain.seq) reason })

/-- The link of a chained record to the one before it, or the start of the chain. -/
def checkLink (st : VerifyState) (loc : Location) (chain : AuditChain) : Except Halt VerifyState :=
  if st.seenFirst = false then
    if chain.prev = hexDigest (genesisPrev E) then
      let st :=
        { st with seenFirst := true, report := { st.report with chainStart := some .genesis } }
      if chain.seq ≠ 1 then st.fail loc chain (.sequenceGap 1 chain.seq) else .ok st
    else
      .ok { st with
        seenFirst := true, report := { st.report with chainStart := some .carriedOver } }
  else if chain.seq ≠ st.expectedSeq then
    st.fail loc chain (.sequenceGap st.expectedSeq chain.seq)
  else if chain.prev ≠ hexDigest st.running then st.fail loc chain .linkMismatch
  else .ok st

/-- The two digests of a chained record, `none` where one is not a digest. -/
def chainDigests (chain : AuditChain) : Except AuditError (Option (Digest × Digest)) := do
  match ← decodeDigest chain.prev with
  | none => .ok none
  | some prev =>
    match ← decodeDigest chain.hash with
    | none => .ok none
    | some hash => .ok (some (prev, hash))

def checkHash (chainKey : Option Bytes) (st : VerifyState) (loc : Location) (entry : AuditEntry ρ)
    (chain : AuditChain) : Except Halt VerifyState :=
  match chainDigests chain with
  | .error e => .error (.error e)
  | .ok none => st.fail loc chain .malformedChainFields
  | .ok (some (prev, expected)) =>
    match chainHash E chain.sealed chainKey prev (canonicalRecordBytes E entry) with
    | .error e => .error (.error e)
    | .ok computed =>
      if computed ≠ expected then st.fail loc chain .hashMismatch
      else
        .ok { st with
          running := computed
          expectedSeq := chain.seq + 1
          report := { st.report with
            chainedRecords := st.report.chainedRecords + 1
            unsealedRecords := st.report.unsealedRecords + if chain.sealed then 0 else 1 } }

def verifyChained (chainKey : Option Bytes) (st : VerifyState) (loc : Location)
    (entry : AuditEntry ρ) (chain : AuditChain) : Except Halt VerifyState :=
  if chain.sealed ∧ chainKey = none then st.fail loc chain .missingChainKey
  else if chain.v ≠ auditChainFormatVersion then
    st.fail loc chain (.unsupportedVersion chain.v)
  else do
    let st ← checkLink E st loc chain
    checkHash E chainKey st loc entry chain

def verifyEntry (chainKey : Option Bytes) (st : VerifyState) (loc : Location)
    (entry : AuditEntry ρ) : Except Halt VerifyState :=
  let time := E.timestamp entry.record
  let st := { st with
    report := { st.report with
      oldestRecord := some (st.report.oldestRecord.getD time)
      newestRecord := some time } }
  match entry.chain with
  | none =>
    -- a record without its block after the first chained one was stripped
    if st.seenFirst then
      .ok { st with
        report := { st.report with suspectedSplices := st.report.suspectedSplices + 1 } }
    else .ok { st with report := { st.report with legacyRecords := st.report.legacyRecords + 1 } }
  | some chain => verifyChained E chainKey st loc entry chain

def verifyLine (chainKey : Option Bytes) (file : AuditFile) (st : VerifyState) (line : Text × Nat) :
    Except Halt VerifyState :=
  if trim line.1 = [] then .ok st
  else
    let st := { st with report := { st.report with totalRecords := st.report.totalRecords + 1 } }
    match E.fromJson line.1 with
    | none =>
      .ok { st with report := { st.report with malformedLines := st.report.malformedLines + 1 } }
    | some entry => verifyEntry E chainKey st ⟨file, line.2 + 1⟩ entry

def verifyFile (chainKey : Option Bytes) (st : VerifyState) (file : AuditFile × Bytes) :
    Except Halt VerifyState :=
  match fromUtf8 file.2 with
  | none => .error (.error (.fileIo "Failed to read audit log: "))
  | some text => (lines text).zipIdx.foldlM (verifyLine E chainKey file.1) st

/-- Stripped records fail the verification, whatever it said before. -/
def closeReport (report : AuditVerifyReport) : AuditVerifyReport :=
  if 0 < report.suspectedSplices then
    { report with outcome := .failed .current 0 none (.suspectedSplice report.suspectedSplices) }
  else report

def VerifyState.initial (files : List AuditFile) : VerifyState where
  report := ⟨files, 0, 0, 0, 0, 0, 0, none, none, none, .verified⟩
  running := genesisPrev E
  expectedSeq := 1
  seenFirst := false

def verifyAuditChain (d : AuditDir) (chainKey : Option Bytes) :
    Except AuditError AuditVerifyReport :=
  let files := (rotatedOldestFirst d).map (fun f => AuditFile.rotated f.1) ++ [.current]
  match (chainFilesOldestFirst d).foldlM (verifyFile E chainKey) (.initial E files) with
  | .ok st => .ok (closeReport st.report)
  | .error (.failed report) => .ok (closeReport report)
  | .error (.error e) => .error e

def Verified (d : AuditDir) (chainKey : Bytes) : Prop :=
  ∃ report, verifyAuditChain E d (some chainKey) = .ok report ∧ report.outcome = .verified

/-! ## Reading -/

/-- The entries of a file, as `read_all_entries` picks them. -/
def fileEntries (bytes : Bytes) : List (AuditEntry ρ) :=
  match fromUtf8 bytes with
  | none => []
  | some text => ((lines text).filter fun l => trim l ≠ []).filterMap E.fromJson

def readAllEntries (d : AuditDir) : List (AuditEntry ρ) :=
  (chainFilesOldestFirst d).flatMap fun f => fileEntries E f.2

end SentinelPass.Audit
