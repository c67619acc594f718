import Stonemite.Tailer.File
import Stonemite.Lib.TreeMap

/-!
# The log tailer

The tracked files by path key. `syncSources` follows the wanted sources, `readPath` reads one tracked
file; `opens` is what the file system answers for a path that is opened. Files are visited in the order
of their keys, where the source leaves the order open.
-/

open Std

namespace Stonemite.Tailer

open Stonemite.Combat

/-- A path as the tailer compares it. -/
abbrev PathKey := Str

/-- `PathKey::new`, in lower case and with one kind of slash. -/
def PathKey.new (path : Str) : PathKey :=
  Str.toAsciiLowercase (path.map fun c => if c = '/' then '\\' else c)

structure SyncOutcome where
  removedSources : List LogSource := []
  gaps : List SourceGap := []
  diagnostics : List LogDiagnostic := []

/-- The tailed files by their paths. -/
structure LogTailer where
  files : ExtTreeMap PathKey FileState

namespace FileState

/-- The change of a tracked file's source. -/
def reassociate (state : FileState) (source : LogSource) : FileState :=
  let state := state.advanceGeneration
  let state := if state.pending ≠ [] ∨ state.discardUntilNewline then
    { state with pending := [], discardUntilNewline := true } else state
  { state with source := source }

/-- A newly tracked file, at its end if it can be opened. -/
def track (spec : SourceSpec) (opened : OpenResult) : FileState × List LogDiagnostic :=
  let state := absent spec.path spec.source
  match opened with
  | .notFound => (state, [])
  | .failed error => (state, [state.fileDiagnostic .fileRead ("could not open log: " ++ error)])
  | .opened file =>
    match file.metadata with
    | .error error => (state, [state.fileDiagnostic .fileRead ("could not read metadata: " ++ error)])
    | .ok fileLen =>
      match state.initializeAtEnd file fileLen with
      | (state, none) => (state, [])
      | (state, some error) =>
        (state, [state.fileDiagnostic .fileRead ("could not initialize at EOF: " ++ error)])

end FileState

namespace LogTailer

def new : LogTailer := ⟨∅⟩

/-- The specification of each wanted path; the first of two for one path counts. -/
def expected (sources : List SourceSpec) : ExtTreeMap PathKey SourceSpec :=
  sources.foldl (fun map spec => map.insertIfNew (PathKey.new spec.path) spec) ∅

/-- One wanted path: a tracked file follows its source, any other file is tracked from now on. -/
def syncSpec (opens : Str → OpenResult) (t : LogTailer × SyncOutcome) (entry : PathKey × SourceSpec) :
    LogTailer × SyncOutcome :=
  let (key, spec) := entry
  let (tailer, outcome) := t
  match tailer.files[key]? with
  | some state =>
    if state.source ≠ spec.source then
      let moved := state.reassociate spec.source
      (⟨tailer.files.insert key { moved with path := spec.path }⟩,
        { outcome with
          removedSources := outcome.removedSources ++ [state.source]
          gaps := outcome.gaps ++ [⟨state.source, moved.generation, .sourceReassociated⟩] })
    else (⟨tailer.files.insert key { state with path := spec.path }⟩, outcome)
  | none =>
    let (state, diagnostics) := FileState.track spec (opens spec.path)
    (⟨tailer.files.insert key state⟩, { outcome with diagnostics := outcome.diagnostics ++ diagnostics })

def syncSources (tailer : LogTailer) (opens : Str → OpenResult) (sources : List SourceSpec) :
    LogTailer × SyncOutcome :=
  let expected := expected sources
  let removed := (tailer.files.filter fun key _ => !expected.contains key).toList.map (·.2.source)
  let kept := tailer.files.filter fun key _ => expected.contains key
  expected.toList.foldl (syncSpec opens) (⟨kept⟩, { removedSources := removed })

/-- The sources with their generations. -/
def trackedSources (tailer : LogTailer) : List (LogSource × Nat) :=
  tailer.files.toList.map fun entry => (entry.2.source, entry.2.generation)

def isTracked (tailer : LogTailer) (path : Str) : Bool := tailer.files.contains (PathKey.new path)

section

variable {Line : Type} (decode : LogSource → List UInt8 → DecodedRawLogLine Line)

def readPath (tailer : LogTailer) (opens : Str → OpenResult) (path : Str) (budget : ReadBudget) :
    LogTailer × ReadOutcome Line :=
  match tailer.files[PathKey.new path]? with
  | none => (tailer, {})
  | some state =>
    let (state, outcome) := readFile decode state budget (opens state.path)
    (⟨tailer.files.insert (PathKey.new path) state⟩, outcome)

end

end LogTailer

end Stonemite.Tailer
