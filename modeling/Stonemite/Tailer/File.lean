import Stonemite.Lib.Lines
import Stonemite.Lib.Checked
import Stonemite.Combat.Model

/-!
# One tailed log file

The byte-offset state of a log file and one read of it. What the operating system answers during the
read is a `LogFile`; the decoder of complete records is a parameter.
-/

namespace Stonemite.Tailer

open Stonemite.Combat

def readChunkBytes : Nat := 64 * 1024

def signatureBytes : Nat := 64

def maxLineBytes : Nat := 1024 * 1024

def newline : UInt8 := 10

def carriageReturn : UInt8 := 13

structure ReadBudget where
  bytes : Nat
  records : Nat

inductive DiagnosticKind
  | fileRead
  | fileReset
deriving DecidableEq, Repr

/-- What went wrong with a file, for the user. -/
structure LogDiagnostic where
  kind : DiagnosticKind
  path : Str
  message : String
deriving DecidableEq, Repr

/-- A path and the source that its lines belong to. -/
structure SourceSpec where
  path : Str
  source : LogSource

/-- Lines of a source were lost before its next record. -/
structure SourceGap where
  source : LogSource
  generation : Nat
  reason : GapReason
deriving DecidableEq, Repr

/-- A record with what its bytes decode to. -/
structure TailedRecord (Line : Type) where
  id : SourceRecordId
  line : Line
deriving DecidableEq, Repr

/-- A decoded record, and whether bytes had to be replaced. -/
structure DecodedRawLogLine (Line : Type) where
  line : Line
  hadInvalidUtf8 : Bool

structure ReadOutcome (Line : Type) where
  lines : List (TailedRecord Line) := []
  gaps : List SourceGap := []
  stableEof : Option (LogSourceId × Nat) := none
  diagnostics : List LogDiagnostic := []
  moreWork : Bool := false

/-- What tells one file from another under the same path. -/
structure FileIdentity where
  volumeSerial : Option Nat
  fileIndex : Option Nat
  creationTime : Nat
deriving DecidableEq, Repr

/-- An open file: the answers to the questions one read or one synchronization asks of it. `reads` are
the answers to its successive reads; no answer stands for the end of the file. -/
structure LogFile where
  metadata : Except String Nat
  identity : FileIdentity
  readExact : Nat → Nat → Except String (List UInt8)
  seek : Nat → Bool
  reads : List (Except String (List UInt8))
  latestLen : Option Nat

/-- The answer to opening a file. -/
inductive OpenResult
  | opened (file : LogFile)
  | notFound
  | failed (error : String)

/-- The state of one tailed file. -/
structure FileState where
  path : Str
  source : LogSource
  initialized : Bool
  identity : Option FileIdentity
  offset : Nat
  pending : List UInt8
  discardUntilNewline : Bool
  signature : List UInt8
  generation : Nat
  nextSequence : Nat

/-- `checked_add(1).unwrap_or(u64::MAX)`. -/
def increment (n : Nat) : Nat := (checkedAdd 64 n 1).getD (2 ^ 64 - 1)

/-- `read_suffix`: the bytes before the offset, as many as a signature has. -/
def readSuffix (file : LogFile) (offset : Nat) : Except String (List UInt8) :=
  let length := min offset signatureBytes
  if length = 0 then .ok [] else file.readExact (offset - length) length

/-- The bytes before the offset are still those of the signature. -/
def signatureMatches (file : LogFile) (offset : Nat) (expected : List UInt8) : Except String Bool :=
  if expected = [] then .ok true
  else (file.readExact (offset - expected.length) expected.length).map (· == expected)

/-- The last bytes of the file after some were read. -/
def extendSignature (signature bytes : List UInt8) : List UInt8 :=
  if bytes.length ≥ signatureBytes then bytes.drop (bytes.length - signatureBytes)
  else signature.drop (signature.length + bytes.length - signatureBytes) ++ bytes

namespace FileState

/-- A file that was not there yet. -/
def absent (path : Str) (source : LogSource) : FileState :=
  ⟨path, source, false, none, 0, [], false, [], 0, 0⟩

/-- The records are counted anew under the next generation. -/
def advanceGeneration (state : FileState) : FileState :=
  { state with generation := increment state.generation, nextSequence := 0 }

/-- Another file is read from its start under the next generation. -/
def resetGeneration (state : FileState) (identity : FileIdentity) : FileState :=
  let state := { state with
    identity := some identity
    offset := 0
    pending := []
    discardUntilNewline := false
    signature := [] }
  state.advanceGeneration

/-- The state after `initialize_at_end`, which keeps what it has set when the suffix cannot be read, and
the error. -/
def initializeAtEnd (state : FileState) (file : LogFile) (fileLen : Nat) : FileState × Option String :=
  let state := { state with initialized := true, identity := some file.identity, offset := fileLen, pending := [] }
  match readSuffix file fileLen with
  | .error error => (state, some error)
  | .ok signature =>
    ({ state with
        signature := signature
        discardUntilNewline := decide (fileLen > 0) && signature.getLast? != some newline }, none)

/-- Bytes are added to the pending line, or dropped up to the end of a line that was too long. -/
def appendBytes (state : FileState) (bytes : List UInt8) : FileState :=
  if !state.discardUntilNewline then { state with pending := state.pending ++ bytes }
  else if newline ∈ bytes then
    { state with
      discardUntilNewline := false
      pending := state.pending ++ bytes.drop (bytes.idxOf newline + 1) }
  else state

def fileDiagnostic (state : FileState) (kind : DiagnosticKind) (message : String) : LogDiagnostic :=
  ⟨kind, state.path, message⟩

/-- The end of a line is pending. -/
def pendingHasCompleteLine (state : FileState) : Bool := state.pending.contains newline

end FileState

/-- The content of a line whose newline was found: one carriage return before it is dropped. -/
def lineContent (line : List UInt8) : List UInt8 :=
  if line.getLast? = some carriageReturn then line.dropLast else line

section

variable {Line : Type} (decode : LogSource → List UInt8 → DecodedRawLogLine Line)

/-- One complete line of the pending bytes. -/
def extractLine (state : FileState) (outcome : ReadOutcome Line) (line : List UInt8) :
    FileState × ReadOutcome Line :=
  let content := lineContent line
  if content.length > maxLineBytes then
    let state := state.advanceGeneration
    (state, { outcome with
      gaps := outcome.gaps ++ [⟨state.source, state.generation, .oversizedRecord⟩]
      diagnostics := outcome.diagnostics ++
        [state.fileDiagnostic .fileRead ("discarded a log record larger than " ++ toString maxLineBytes ++ " bytes")] })
  else
    let decoded := decode state.source content
    let diagnostics := if decoded.hadInvalidUtf8 then
      [state.fileDiagnostic .fileRead "replaced invalid UTF-8 in one complete log record"] else []
    ({ state with nextSequence := increment state.nextSequence },
      { outcome with
        lines := outcome.lines ++ [⟨⟨state.source.id, state.generation, state.nextSequence⟩, decoded.line⟩]
        diagnostics := outcome.diagnostics ++ diagnostics })

/-- The loop over the complete lines at the front of the pending bytes, which stops after `maxRecords`
records. The third result counts the consumed bytes. -/
def extractLoop (maxRecords : Nat) :
    List (List UInt8) → Nat → FileState → ReadOutcome Line → FileState × ReadOutcome Line × Nat
  | [], consumed, state, outcome => (state, outcome, consumed)
  | line :: lines, consumed, state, outcome =>
    match maxRecords with
    | 0 => (state, outcome, consumed)
    | maxRecords + 1 =>
      let (state, outcome) := extractLine decode state outcome line
      -- an oversized line is consumed and does not count as a record
      extractLoop (if (lineContent line).length > maxLineBytes then maxRecords + 1 else maxRecords)
        lines (consumed + (line.length + 1)) state outcome

/-- The complete lines of the pending bytes, within the budget. -/
def extractCompleteLines (state : FileState) (maxRecords : Nat) (outcome : ReadOutcome Line) :
    FileState × ReadOutcome Line :=
  if maxRecords = 0 ∨ state.pending = [] then (state, outcome)
  else
    let (state, outcome, consumed) :=
      extractLoop decode maxRecords (completeLines newline state.pending) 0 state outcome
    let state := { state with pending := state.pending.drop consumed }
    if state.pending.length > maxLineBytes ∧ newline ∉ state.pending then
      let state := { state with pending := [], discardUntilNewline := true }.advanceGeneration
      (state, { outcome with
        gaps := outcome.gaps ++ [⟨state.source, state.generation, .discardUntilNewline⟩]
        diagnostics := outcome.diagnostics ++ [state.fileDiagnostic .fileRead
          ("discarding bytes until newline after a record exceeded " ++ toString maxLineBytes ++ " bytes")] })
    else (state, outcome)

/-- The length asked for by a read after `bytesRead` bytes of the budget. -/
def readLen (budget : ReadBudget) (bytesRead : Nat) : Nat :=
  min (budget.bytes - bytesRead) (min readChunkBytes (max budget.bytes 1))

/-- The loop of `read_file` over the reads of the system. -/
def readLoop (budget : ReadBudget) :
    List (Except String (List UInt8)) → Nat → FileState → ReadOutcome Line → FileState × ReadOutcome Line
  | [], _, state, outcome => (state, outcome)
  | answer :: reads, bytesRead, state, outcome =>
    if bytesRead < budget.bytes ∧ outcome.lines.length < budget.records then
      match answer with
      | .error error => (state, { outcome with
          diagnostics := outcome.diagnostics ++ [state.fileDiagnostic .fileRead
            ("read failed at byte " ++ toString state.offset ++ ": " ++ error)] })
      | .ok answer =>
        let bytes := answer.take (readLen budget bytesRead)
        if bytes = [] then (state, outcome)
        else
          let state := { state with
            offset := state.offset + bytes.length
            signature := extendSignature state.signature bytes }
          let state := state.appendBytes bytes
          let (state, outcome) := extractCompleteLines decode state (budget.records - outcome.lines.length) outcome
          readLoop budget reads (bytesRead + bytes.length) state outcome
    else (state, outcome)

/-- The reset of a file that is not the one the offset is of, if it is not. -/
def checkBoundary (state : FileState) (file : LogFile) (fileLen : Nat) (outcome : ReadOutcome Line) :
    FileState × ReadOutcome Line :=
  let recreated := state.identity.any (· != file.identity)
  let shrank := decide (fileLen < state.offset)
  let boundaryChanged := !recreated && !shrank && !state.signature.isEmpty &&
    !(match signatureMatches file state.offset state.signature with
      | .ok same => same
      | .error _ => false)
  if recreated || shrank || boundaryChanged then
    let reason := if recreated then "file was recreated"
      else if shrank then "file was truncated"
      else "file contents changed before the stored offset"
    let state := state.resetGeneration file.identity
    let gap := if recreated then .fileRecreated else if shrank then .fileTruncated else .boundaryChanged
    (state, { outcome with
      gaps := outcome.gaps ++ [⟨state.source, state.generation, gap⟩]
      diagnostics := outcome.diagnostics ++
        [state.fileDiagnostic .fileReset (reason ++ "; restarting at byte zero")] })
  else ({ state with identity := some file.identity }, outcome)

/-- The part of a read after the checks: pending lines first, then the file from the offset on. -/
def readLines (state : FileState) (file : LogFile) (fileLen : Nat) (budget : ReadBudget)
    (outcome : ReadOutcome Line) : FileState × ReadOutcome Line :=
  let (state, outcome) := extractCompleteLines decode state budget.records outcome
  if outcome.lines.length ≥ budget.records then
    (state, { outcome with moreWork := state.pendingHasCompleteLine || decide (fileLen > state.offset) })
  else if !file.seek state.offset then
    (state, { outcome with
      diagnostics := outcome.diagnostics ++
        [state.fileDiagnostic .fileRead ("could not seek to byte " ++ toString state.offset)] })
  else
    let (state, outcome) := readLoop decode budget file.reads 0 state outcome
    let latestLen := file.latestLen.getD fileLen
    let moreWork := state.pendingHasCompleteLine || decide (latestLen > state.offset)
    let stable := !moreWork && state.pending.isEmpty && !state.discardUntilNewline && latestLen == state.offset
    (state, { outcome with
      moreWork := moreWork
      stableEof := if stable then some (state.source.id, state.generation) else outcome.stableEof })

def readFile (state : FileState) (budget : ReadBudget) : OpenResult → FileState × ReadOutcome Line
  | .notFound => (state, {})
  | .failed error => (state, { diagnostics :=
      [state.fileDiagnostic .fileRead ("could not open log: " ++ error)] })
  | .opened file =>
    match file.metadata with
    | .error error => (state, { diagnostics :=
        [state.fileDiagnostic .fileRead ("could not read metadata: " ++ error)] })
    | .ok fileLen =>
      if !state.initialized then
        match state.initializeAtEnd file fileLen with
        | (state, none) => (state, {})
        | (state, some error) => (state, { diagnostics :=
            [state.fileDiagnostic .fileRead ("could not initialize at EOF: " ++ error)] })
      else
        let (state, outcome) := checkBoundary state file fileLen {}
        readLines decode state file fileLen budget outcome

end

end Stonemite.Tailer
