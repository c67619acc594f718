import Stonemite.Trigger.Substitute
import Stonemite.Trigger.Conditions

/-!
# The compiled trigger library

Triggers as they are configured and compiled, and which of them a character's profiles activate. An id
stands for its UUID.
-/

namespace Stonemite.Triggers

abbrev TriggerId := Nat

abbrev FolderId := Nat

abbrev OverlayId := Nat

/-- Which client shows what a trigger displays. -/
inductive PresentationTarget
  | source
  | activeClient
  | allClients
  | global
deriving DecidableEq, Repr

/-- A pattern, as text or as a regex. -/
structure Pattern where
  text : Str
  useRegex : Bool
deriving DecidableEq, Repr

def Pattern.isEmpty (pattern : Pattern) : Bool := pattern.text.trim.isEmpty

inductive TimerKind
  | countdown
  | fastCountdown
  | progress
  | looping
deriving DecidableEq, Repr

/-- The duration may come from the line. -/
def TimerKind.acceptsDynamicDuration : TimerKind → Bool
  | countdown | progress => true
  | _ => false

/-- What a firing does to the timers that run. -/
inductive TimerRestartMode
  | startNew
  | restartAll
  | restartSameName
  | ignoreIfAnyRunning
  | ignoreIfSameNameRunning
deriving DecidableEq, Repr

/-- What a stage of a timer displays, speaks and plays. -/
structure TimerStageActions where
  displayText : Option Str := none
  speakText : Option Str := none
  sound : Option Str := none
deriving DecidableEq, Repr

structure TimerBehavior (P : Platform) where
  kind : TimerKind
  timerName : Str
  durationSeconds : P.F64
  resetDurationSeconds : P.F64
  timesToLoop : Nat
  restartMode : TimerRestartMode
  warningSeconds : Nat
  warning : TimerStageActions
  finish : TimerStageActions
  earlyEnd : TimerStageActions
  endEarlyPatterns : List Pattern
  endEarlyRepeatedCount : Nat
  endClearVariables : List Str

/-- The operations on a variable. -/
inductive VariableOp
  | setValue
  | setCounter
  | clear
deriving DecidableEq, Repr

structure VariableAction (P : Platform) where
  op : VariableOp
  name : Str
  value : Str
  step : P.F64
  initialValue : P.F64
  timeToLiveSeconds : P.F64

/-- A trigger, as far as the engine reads it. -/
structure Trigger (P : Platform) where
  id : TriggerId
  name : Str
  folder : Option FolderId
  enabled : Bool
  pattern : Pattern
  previousPattern : Option Pattern
  condition : Str
  lockoutSeconds : P.F64
  repeatedResetSeconds : P.F64
  variableActions : List (VariableAction P)
  displayText : Option Str
  speakText : Option Str
  sound : Option Str
  timer : Option (TimerBehavior P)
  priority : Int
  voiceRate : Int
  volume : Int
  textOverlays : List OverlayId
  timerOverlays : List OverlayId
  fontColor : Option Str
  activeColor : Option Str
  idleColor : Option Str
  resetColor : Option Str
  target : PresentationTarget
  quarantined : Bool

structure CharacterSelector where
  character : Str
  server : Str
deriving DecidableEq, Repr

/-- The selector is for the character, whatever the case. -/
def CharacterSelector.matches (selector : CharacterSelector) (character server : Str) : Bool :=
  selector.character.eqIgnoreAsciiCase character &&
    (selector.server.isEmpty || selector.server.eqIgnoreAsciiCase server)

inductive ProfileAssignment
  | global
  | characters (characters : List CharacterSelector)
deriving DecidableEq, Repr

/-- The profile is for the character. -/
def ProfileAssignment.covers (character server : Str) : ProfileAssignment → Bool
  | .global => true
  | .characters selectors => selectors.any (·.matches character server)

/-- A profile with its triggers and folders. -/
structure Profile where
  enabled : Bool
  assignment : ProfileAssignment
  triggers : List TriggerId
  folders : List FolderId

/-- A folder, as far as the engine reads it. -/
structure Folder where
  id : FolderId
  parent : Option FolderId

/-- The library, as far as the engine reads it. -/
structure TriggerLibrary (P : Platform) where
  folders : List Folder
  triggers : List (Trigger P)
  profiles : List Profile

/-! ### Compilation -/

inductive Matcher (P : Platform)
  | regex (regex : CompatRegex P) (constraints : List NumberConstraint) (prefilter : Prefilter)
      (expandedPattern : Str) (needsCharacter : Bool)
  | literal (text : Str) (needsCharacter : Bool)

/-- The codes that a template contains. -/
structure TemplateFlags where
  counter : Bool
  repeated : Bool
  logtime : Bool
deriving DecidableEq, Repr

def flagsFor (template : Str) : TemplateFlags :=
  ⟨containsCode template counterCode, containsCode template repeatedCode, containsCode template logtimeCode⟩

/-- A trigger with its patterns compiled. -/
structure CompiledTrigger (P : Platform) where
  id : TriggerId
  name : Str
  trigger : Trigger P
  matcher : Matcher P
  previous : Option (Matcher P)
  condition : Option (Condition P)
  conditionInvalid : Bool
  displayTemplate : Str
  speakTemplate : Str
  timerNameTemplate : Str
  warningDisplay : Str
  warningSpeak : Str
  endDisplay : Str
  endSpeak : Str
  earlyDisplay : Str
  earlySpeak : Str
  enderTemplates : List Pattern
  speakFlags : TemplateFlags
  displayFlags : TemplateFlags
  timerFlags : TemplateFlags

/-- A profile with the places of its triggers. -/
structure CompiledProfile where
  assignment : ProfileAssignment
  members : List Nat

/-- The library that the engine runs. -/
structure CompiledLibrary (P : Platform) where
  triggers : List (CompiledTrigger P)
  profiles : List CompiledProfile
  compileErrors : List (TriggerId × RegexCompatError)

section
variable {P : Platform}

variable (P) in
def compileMatcher (pattern : Pattern) : Except RegexCompatError (Matcher P) :=
  let needsCharacter := containsCode pattern.text characterCode
  if !pattern.useRegex then .ok (.literal pattern.text needsCharacter)
  else
    let expanded := expand P pattern.text
    if needsCharacter then
      -- the shape is checked with a placeholder, the character's own pattern compiled when it is needed
      match CompatRegex.compile P (replaceCode expanded.pattern characterCode ['X']) with
      | .error error => .error error
      | .ok regex => .ok (.regex regex expanded.constraints .none expanded.pattern true)
    else
      match CompatRegex.compile P expanded.pattern with
      | .error error => .error error
      | .ok regex => .ok (.regex regex expanded.constraints (.forPattern expanded.pattern) expanded.pattern false)

def compileTrigger (trigger : Trigger P) : Except RegexCompatError (CompiledTrigger P) :=
  match compileMatcher P trigger.pattern,
      ((trigger.previousPattern.filter fun pattern => !pattern.isEmpty).map (compileMatcher P)) with
  | .error error, _ => .error error
  | .ok _, some (.error error) => .error error
  | .ok matcher, previous =>
    let condition := Condition.parse P trigger.condition
    let warningSeconds := (trigger.timer.map (·.warningSeconds)).getD 0
    let preprocess (text : Option Str) : Str :=
      replaceCode (text.getD []) timerWarnTimeCode (Str.decimal warningSeconds)
    let timerNameSource := ((trigger.timer.map (·.timerName)).filter fun name => !name.trim.isEmpty).getD trigger.name
    let displayTemplate := preprocess trigger.displayText
    let speakTemplate := preprocess trigger.speakText
    let timerNameTemplate := preprocess (some timerNameSource)
    .ok {
      id := trigger.id
      name := trigger.name
      trigger := trigger
      matcher := matcher
      previous := previous.bind Except.toOption
      condition := condition
      conditionInvalid := condition.isNone && !trigger.condition.trim.isEmpty
      displayTemplate := displayTemplate
      speakTemplate := speakTemplate
      timerNameTemplate := timerNameTemplate
      warningDisplay := preprocess (trigger.timer.bind (·.warning.displayText))
      warningSpeak := preprocess (trigger.timer.bind (·.warning.speakText))
      endDisplay := preprocess (trigger.timer.bind (·.finish.displayText))
      endSpeak := preprocess (trigger.timer.bind (·.finish.speakText))
      earlyDisplay := preprocess (trigger.timer.bind (·.earlyEnd.displayText))
      earlySpeak := preprocess (trigger.timer.bind (·.earlyEnd.speakText))
      enderTemplates := (trigger.timer.map fun timer =>
        timer.endEarlyPatterns.filter fun pattern => !pattern.isEmpty).getD []
      speakFlags := flagsFor speakTemplate
      displayFlags := flagsFor displayTemplate
      timerFlags := flagsFor timerNameTemplate }

/-- Sorted and without duplicates. -/
def sortedIndexes (l : List Nat) : List Nat := (l.insertionSort (· ≤ ·)).dedup

namespace TriggerLibrary

/-- One round over the parents found so far; at most one more for each folder. -/
def subtreeLoop (folders : List Folder) : Nat → Nat → List FolderId → List FolderId
  | 0, _, result => result
  | fuel + 1, cursor, result =>
    match result[cursor]? with
    | none => result
    | some parent =>
      subtreeLoop folders fuel (cursor + 1) <| folders.foldl (fun result child =>
        if child.parent = some parent ∧ child.id ∉ result then result ++ [child.id] else result) result

/-- Ids of the folder and every folder transitively under it. -/
def folderSubtree (library : TriggerLibrary P) (folder : FolderId) : List FolderId :=
  subtreeLoop library.folders (library.folders.length + 1) 0 [folder]

end TriggerLibrary

namespace CompiledLibrary

/-- The compiled triggers in order, and what failed. -/
def compileTriggers (triggers : List (Trigger P)) : List (CompiledTrigger P) × List (TriggerId × RegexCompatError) :=
  triggers.foldl (fun (compiled, errors) trigger =>
    if !trigger.enabled || trigger.quarantined || trigger.pattern.isEmpty then (compiled, errors)
    else match compileTrigger trigger with
      | .ok trigger => (compiled ++ [trigger], errors)
      | .error error => (compiled, errors ++ [(trigger.id, error)])) ([], [])

/-- The index of a trigger by its id; the last of several counts. -/
def indexById (compiled : List (CompiledTrigger P)) (id : TriggerId) : Option Nat :=
  (compiled.zipIdx.filter fun entry => entry.1.id = id).getLast?.map (·.2)

/-- A profile with its triggers and those below its folders. -/
def compileProfile (library : TriggerLibrary P) (compiled : List (CompiledTrigger P)) (profile : Profile) :
    CompiledProfile :=
  let direct := profile.triggers.filterMap (indexById compiled)
  let foldered := profile.folders.flatMap fun folder =>
    let subtree := library.folderSubtree folder
    (library.triggers.filter fun trigger => trigger.folder.any fun parent => subtree.contains parent).filterMap
      fun trigger => indexById compiled trigger.id
  ⟨profile.assignment, sortedIndexes (direct ++ foldered)⟩

def compile (library : TriggerLibrary P) : CompiledLibrary P :=
  let (triggers, errors) := compileTriggers library.triggers
  ⟨triggers, (library.profiles.filter (·.enabled)).map (compileProfile library triggers), errors⟩

/-- The indexes active for a character; all of them without profiles. -/
def activeFor (library : CompiledLibrary P) (character server : Str) : List Nat :=
  if library.profiles.isEmpty then List.range library.triggers.length
  else sortedIndexes
    ((library.profiles.filter fun profile => profile.assignment.covers character server).flatMap (·.members))

end CompiledLibrary

end

end Stonemite.Triggers
