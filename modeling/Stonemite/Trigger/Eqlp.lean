import Stonemite.Trigger.Library
import Stonemite.Lib.Json
import Stonemite.Lib.TreeMap

/-!
# Triggers in the EQLP format

How the trigger data of a package is read into a native trigger and written from one. A field of the package that no
native field stands for is kept in the trigger's passthrough.
-/

open Std

namespace Stonemite

namespace Str

/-- `str::split` at each character of a kind. -/
def splitAny (p : Char → Bool) : Str → List Str
  | [] => [[]]
  | a :: s =>
    match splitAny p s with
    | [] => [[a]]
    | part :: parts => if p a then [] :: part :: parts else (a :: part) :: parts

/-- `[T]::join`. -/
def join (separator : Str) (parts : List Str) : Str := separator.intercalate parts

end Str

namespace Triggers

/-- `12.5` as it is written in the source. -/
def Platform.literal (P : Platform) (text : String) : P.F64 := (P.parse text.toList).getD P.zero

/-! ### Numbers -/

/-- A `serde_json::Number`; an integer is that of an `i64` or a `u64`. -/
inductive Number (P : Platform)
  | int (n : Int)
  | float (x : P.F64)

abbrev Value (P : Platform) := Json (Number P)

section
variable {P : Platform}

def Platform.ofInt (P : Platform) (n : Int) : P.F64 :=
  if 0 ≤ n then P.ofNat n.toNat else P.sub P.zero (P.ofNat n.natAbs)

namespace Number

def asI64 : Number P → Option Int
  | int n => if n < 2 ^ 63 then some n else none
  | float _ => none

def asF64 : Number P → P.F64
  | int n => P.ofInt n
  | float x => x

end Number

/-- `json!` of an `f64`. -/
def ofF64 (x : P.F64) : Value P := if P.isFinite x then .number (.float x) else .null

def ofInt (n : Int) : Value P := .number (.int n)

/-! ### Fields -/

/-- The fields of an object by name. -/
abbrev Fields (P : Platform) := Str → Option (Value P)

namespace Fields
variable (data : Fields P) (key : String)

def get : Option (Value P) := data key.toList

def stringField : Option Str := (data.get key).bind Json.asStr

def boolField : Bool := ((data.get key).bind Json.asBool).getD false

def i64Field : Option Int :=
  ((data.get key).bind Json.asNumber).map fun n => n.asI64.getD (P.toI64 n.asF64)

def f64Field : Option P.F64 := ((data.get key).bind Json.asNumber).map Number.asF64

end Fields

/-- A text that is there and not empty. -/
def nonEmpty (value : Option Str) : Option Str := value.filter fun text => !text.isEmpty

/-- `as i32`. -/
def toI32 (n : Int) : Int := n.bmod (2 ^ 32)

/-- `.max(0) as u32`. -/
def toU32 (n : Int) : Nat := n.toNat % 2 ^ 32

/-! ### Native triggers -/

/-- The fields that are kept for the export. -/
abbrev Passthrough (P : Platform) := ExtTreeMap Str (Value P)

structure Quarantine where
  reason : String
  detail : Str
deriving DecidableEq, Repr

/-- A trigger with what the engine does not look at. -/
structure NativeTrigger (P : Platform) extends Trigger P where
  index : Nat
  comments : Str
  quarantine : Option Quarantine
  passthrough : Passthrough P

inductive CompatSeverity
  | info
  | warning
  | error
deriving DecidableEq, Repr

/-- Something that the import tells the user. -/
structure CompatIssue where
  severity : CompatSeverity
  subject : Str
  code : String
  detail : Str
deriving DecidableEq, Repr

namespace TimerKind

def eqlpCode : TimerKind → Int
  | countdown => 1
  | fastCountdown => 2
  | progress => 3
  | looping => 4

def fromEqlpCode (code : Int) : Option TimerKind :=
  if code = 1 then some countdown
  else if code = 2 then some fastCountdown
  else if code = 3 then some progress
  else if code = 4 then some looping
  else none

end TimerKind

namespace TimerRestartMode

def eqlpCode : TimerRestartMode → Int
  | startNew => 0
  | restartAll => 1
  | restartSameName => 2
  | ignoreIfAnyRunning => 3
  | ignoreIfSameNameRunning => 4

def fromEqlpCode (code : Int) : Option TimerRestartMode :=
  if code = 0 then some startNew
  else if code = 1 then some restartAll
  else if code = 2 then some restartSameName
  else if code = 3 then some ignoreIfAnyRunning
  else if code = 4 then some ignoreIfSameNameRunning
  else none

end TimerRestartMode

/-! ### Import -/

/-- The fields of a timer that say what it does. -/
def timerSettings : List String :=
  ["DurationSeconds", "ResetDurationSeconds", "TimesToLoop", "TriggerAgainOption", "WarningSeconds", "AltTimerName",
    "WarningTextToDisplay", "WarningTextToSpeak", "WarningSoundToPlay", "EndTextToDisplay", "EndTextToSpeak",
    "EndSoundToPlay", "EndEarlyTextToDisplay", "EndEarlyTextToSpeak", "EndEarlySoundToPlay", "EndEarlyPattern",
    "EndUseRegex", "EndEarlyPattern2", "EndUseRegex2", "EndEarlyPattern3", "EndUseRegex3", "EndEarlyRepeatedCount",
    "EndTimerClearVariables"]

/-- `MAPPED_TRIGGER_FIELDS`, with the settings of a timer last. -/
def mappedTriggerFields : List String :=
  ["Comments", "Pattern", "UseRegex", "PreviousPattern", "PreviousUseRegex", "MatchVariableCondition", "LockoutTime",
    "RepeatedResetTime", "TextToDisplay", "TextToSpeak", "SoundToPlay", "Priority", "VoiceRate", "Volume", "FontColor",
    "ActiveColor", "IdleColor", "ResetColor", "VariableActions", "SelectedOverlays", "EnableTimer", "TimerType"] ++
  timerSettings

/-- The trigger has a field of its own for the key. -/
def isMapped (key : Str) : Bool := mappedTriggerFields.any fun field => field.toList = key

/-- The fields of the patterns that end a timer early. -/
def endEarlyFields : List (String × String) :=
  [("EndEarlyPattern", "EndUseRegex"), ("EndEarlyPattern2", "EndUseRegex2"), ("EndEarlyPattern3", "EndUseRegex3")]

/-- What separates the names of a list. -/
def isListSeparator (c : Char) : Bool := c = ',' || c = ' ' || c = ';'

/-- A name of a list of variables, as `$name` or in braces. -/
def cleanName (name : Str) : Str :=
  Str.trim (Str.trimEndMatches (· = '\x7d') ((name.trim.dropWhile (· = '$')).dropWhile (· = '\x7b')))

def splitVariableList (list : Str) : List Str :=
  ((list.splitAny isListSeparator).map cleanName).filter fun name => !name.isEmpty

def importAction (action : Fields P) : VariableAction P where
  op :=
    if (action.i64Field "ActionType").getD 0 = 1 then .clear
    else if (action.i64Field "DataType").getD 0 = 1 then .setCounter
    else .setValue
  name := (action.stringField "VariableName").getD []
  value := (action.stringField "Value").getD []
  step := (action.f64Field "Step").getD (P.literal "1.0")
  initialValue := (action.f64Field "InitialValue").getD (P.literal "0.0")
  timeToLiveSeconds := (action.f64Field "TimeToLiveSeconds").getD (P.literal "0.0")

def importActions (data : Fields P) : List (VariableAction P) :=
  ((((data.get "VariableActions").bind Json.asArray).getD []).filterMap Json.asObject).map fun action =>
    importAction (Json.lookup action)

/-- The display, speech and sound of a stage. -/
def importStage (data : Fields P) (display speak sound : String) : TimerStageActions :=
  ⟨nonEmpty (data.stringField display), nonEmpty (data.stringField speak), nonEmpty (data.stringField sound)⟩

/-- Legacy exports use `EnableTimer` with `TimerType` 0 for a countdown. -/
def importTimerType (data : Fields P) : Int :=
  let timerType := (data.i64Field "TimerType").getD 0
  if timerType = 0 && data.boolField "EnableTimer" then 1 else timerType

/-- The kind of the timer, if it has one that is known. -/
def importTimerKind (data : Fields P) : Option TimerKind := TimerKind.fromEqlpCode (importTimerType data)

/-- A pattern that is not empty. -/
def importPattern (data : Fields P) (patternKey regexKey : String) : Option Pattern :=
  (nonEmpty (data.stringField patternKey)).map fun text => ⟨text, data.boolField regexKey⟩

/-- The patterns that end the timer early. -/
def importEndEarlyPatterns (data : Fields P) : List Pattern :=
  endEarlyFields.filterMap fun (patternKey, regexKey) => importPattern data patternKey regexKey

def importTimer (data : Fields P) : Option (TimerBehavior P) :=
  (importTimerKind data).map fun kind => {
    kind := kind
    timerName := (data.stringField "AltTimerName").getD []
    durationSeconds := (data.f64Field "DurationSeconds").getD (P.literal "0.2")
    resetDurationSeconds := (data.f64Field "ResetDurationSeconds").getD (P.literal "0.0")
    timesToLoop := toU32 ((data.i64Field "TimesToLoop").getD 0)
    restartMode := (TimerRestartMode.fromEqlpCode ((data.i64Field "TriggerAgainOption").getD 0)).getD .startNew
    warningSeconds := toU32 ((data.i64Field "WarningSeconds").getD 0)
    warning := importStage data "WarningTextToDisplay" "WarningTextToSpeak" "WarningSoundToPlay"
    finish := importStage data "EndTextToDisplay" "EndTextToSpeak" "EndSoundToPlay"
    earlyEnd := importStage data "EndEarlyTextToDisplay" "EndEarlyTextToSpeak" "EndEarlySoundToPlay"
    endEarlyPatterns := importEndEarlyPatterns data
    endEarlyRepeatedCount := toU32 ((data.i64Field "EndEarlyRepeatedCount").getD 0)
    endClearVariables := splitVariableList ((data.stringField "EndTimerClearVariables").getD []) }

/-- An overlay of the import or one that is known: its EQLP id, its own id and whether it is a text overlay. -/
abbrev OverlayIds := List (Str × OverlayId × Bool)

/-- The ids of the overlays that the data selects. -/
def selectedOverlays (data : Fields P) : List Str :=
  ((((data.get "SelectedOverlays").bind Json.asArray).getD []).filterMap Json.asStr).filter fun id => !id.isEmpty

/-- The overlay of the id, and whether it is one of timers. -/
def resolveOverlay (overlayIds : OverlayIds) (id : Str) : Option (OverlayId × Bool) :=
  (overlayIds.find? fun overlay => overlay.1 = id).map (·.2)

/-- The text overlays, or the timer overlays, that are selected. -/
def importOverlays (overlayIds : OverlayIds) (isText : Bool) (selected : List Str) : List OverlayId :=
  ((selected.filterMap (resolveOverlay overlayIds)).filter fun overlay => overlay.2 = isText).map (·.1)

/-- The overlays that are not in the package. -/
def overlayIssues (overlayIds : OverlayIds) (name : Str) (selected : List Str) : List CompatIssue :=
  (selected.filter fun id => (resolveOverlay overlayIds id).isNone).map fun id =>
    ⟨.warning, name, "dangling-overlay",
      "references overlay '".toList ++ id ++ "' which is not part of this import".toList⟩

/-- The fields that are kept and never run, with what they do. -/
def retainedFields : List (String × String) :=
  [("ChatWebhook", "chat webhooks"), ("TextToSendToChat", "chat sending"), ("TextToShare", "clipboard sharing")]

/-- What the import tells of them. -/
def retainedIssues (data : Fields P) (name : Str) : List CompatIssue :=
  retainedFields.filterMap fun (field, what) =>
    (nonEmpty (data.stringField field)).map fun _ =>
      ⟨.info, name, "retained-field",
        what.toList ++ " are not executed by Stonemite; the field is kept for re-export".toList⟩

variable (P) in
/-- Why a pattern cannot be used. -/
def validate (which : String) (pattern : Pattern) : Option (String × RegexCompatError) :=
  if !pattern.useRegex || pattern.text.trim.isEmpty then none
  else
    match CompatRegex.compile P (replaceCode (expand P pattern.text).pattern characterCode "Probe".toList) with
    | .ok _ => none
    | .error error => some (which, error)

/-- The first pattern of a trigger that cannot be used. -/
def firstInvalid (trigger : Trigger P) : Option (String × RegexCompatError) :=
  (validate P "main" trigger.pattern).or
    ((trigger.previousPattern.bind (validate P "previous-line")).or
      (trigger.timer.bind fun timer => timer.endEarlyPatterns.findSome? (validate P "end-early")))

def RegexCompatError.text (error : RegexCompatError) : Str := error.reason.toList ++ ": ".toList ++ error.detail

/-- The quarantine of a trigger with a pattern that does not compile. -/
def quarantineOf (trigger : Trigger P) : Option Quarantine :=
  (firstInvalid trigger).map fun (which, error) =>
    ⟨"unsupported-regex", which.toList ++ ": ".toList ++ error.text⟩

def quarantineIssues (trigger : Trigger P) (name : Str) : List CompatIssue :=
  (firstInvalid trigger).toList.map fun (which, error) =>
    ⟨.error, name, "unsupported-regex", which.toList ++ " pattern was quarantined: ".toList ++ error.text⟩

/-- The trigger of the data, before its patterns are checked. `id` is the new id it gets. -/
def importFields (data : Fields P) (name : Str) (parent : Option FolderId) (overlayIds : OverlayIds) (id : TriggerId) :
    Trigger P where
  id := id
  name := name
  folder := parent
  enabled := false
  pattern := ⟨(data.stringField "Pattern").getD [], data.boolField "UseRegex"⟩
  previousPattern := importPattern data "PreviousPattern" "PreviousUseRegex"
  condition := (data.stringField "MatchVariableCondition").getD []
  lockoutSeconds := (data.f64Field "LockoutTime").getD (P.literal "0.0")
  repeatedResetSeconds := (data.f64Field "RepeatedResetTime").getD (P.literal "0.75")
  variableActions := importActions data
  displayText := nonEmpty (data.stringField "TextToDisplay")
  speakText := nonEmpty (data.stringField "TextToSpeak")
  sound := nonEmpty (data.stringField "SoundToPlay")
  timer := importTimer data
  priority := (data.i64Field "Priority").getD 3
  voiceRate := toI32 ((data.i64Field "VoiceRate").getD 0)
  volume := toI32 ((data.i64Field "Volume").getD 4)
  textOverlays := importOverlays overlayIds true (selectedOverlays data)
  timerOverlays := importOverlays overlayIds false (selectedOverlays data)
  fontColor := nonEmpty (data.stringField "FontColor")
  activeColor := nonEmpty (data.stringField "ActiveColor")
  idleColor := nonEmpty (data.stringField "IdleColor")
  resetColor := nonEmpty (data.stringField "ResetColor")
  target := .source
  quarantined := false

def importTrigger (data : ExtTreeMap Str (Value P)) (name : Str) (parent : Option FolderId) (overlayIds : OverlayIds)
    (id : TriggerId) : NativeTrigger P × List CompatIssue :=
  let fields : Fields P := fun key => data[key]?
  let trigger := importFields fields name parent overlayIds id
  let quarantine := quarantineOf trigger
  ({ trigger with
      quarantined := quarantine.isSome
      index := 0
      comments := (fields.stringField "Comments").getD []
      quarantine := quarantine
      passthrough := data.filter fun key _ => !isMapped key },
    overlayIssues overlayIds name (selectedOverlays fields) ++ retainedIssues fields name ++
      quarantineIssues trigger name)

/-! ### Export -/

/-- An overlay preset of the library, as far as a reference needs it. -/
structure OverlayPreset (P : Platform) where
  id : OverlayId
  passthrough : Passthrough P

/-- The overlays that the export looks up. -/
structure OverlayLibrary (P : Platform) where
  textOverlays : List (OverlayPreset P)
  timerOverlays : List (OverlayPreset P)

/-- A UUID in lower case with hyphens. -/
def uuidText (id : Nat) : Str :=
  let digits := Nat.toDigits 16 id
  let hex := List.replicate (32 - digits.length) '0' ++ digits
  Str.join ['-'] [hex.take 8, (hex.drop 8).take 4, (hex.drop 12).take 4, (hex.drop 16).take 4, hex.drop 20]

/-- The id under which the overlay is exported. -/
def OverlayPreset.eqlpId (preset : OverlayPreset P) : Str :=
  ((preset.passthrough["Id".toList]?).bind Json.asStr).getD (uuidText preset.id)

/-- The id an overlay is referenced by, if the library has the overlay. -/
def OverlayLibrary.reference (library : OverlayLibrary P) (id : OverlayId) : Option Str :=
  ((library.textOverlays.find? fun preset => preset.id = id).or
    (library.timerOverlays.find? fun preset => preset.id = id)).map OverlayPreset.eqlpId

def exportAction (action : VariableAction P) : Value P :=
  .object [
    ("ActionType".toList, ofInt (if action.op = .clear then 1 else 0)),
    ("DataType".toList, ofInt (if action.op = .setCounter then 1 else 0)),
    ("VariableName".toList, .string action.name),
    ("Value".toList, .string action.value),
    ("Step".toList, ofF64 action.step),
    ("InitialValue".toList, ofF64 action.initialValue),
    ("TimeToLiveSeconds".toList, ofF64 action.timeToLiveSeconds)]

/-- The fields of a place for a pattern that ends the timer. -/
def exportEndEarly (patternKey regexKey : String) : Option Pattern → List (String × Value P)
  | some pattern => [(patternKey, .string pattern.text), (regexKey, .bool pattern.useRegex)]
  | none => [(patternKey, .null), (regexKey, .bool false)]

def exportTimer (timer : TimerBehavior P) : List (String × Value P) :=
  [("EnableTimer", .bool true),
    ("TimerType", ofInt timer.kind.eqlpCode),
    ("DurationSeconds", ofF64 timer.durationSeconds),
    ("ResetDurationSeconds", ofF64 timer.resetDurationSeconds),
    ("TimesToLoop", ofInt timer.timesToLoop),
    ("TriggerAgainOption", ofInt timer.restartMode.eqlpCode),
    ("WarningSeconds", ofInt timer.warningSeconds),
    ("AltTimerName", .string timer.timerName),
    ("WarningTextToDisplay", .ofOption timer.warning.displayText),
    ("WarningTextToSpeak", .ofOption timer.warning.speakText),
    ("WarningSoundToPlay", .ofOption timer.warning.sound),
    ("EndTextToDisplay", .ofOption timer.finish.displayText),
    ("EndTextToSpeak", .ofOption timer.finish.speakText),
    ("EndSoundToPlay", .ofOption timer.finish.sound),
    ("EndEarlyTextToDisplay", .ofOption timer.earlyEnd.displayText),
    ("EndEarlyTextToSpeak", .ofOption timer.earlyEnd.speakText),
    ("EndEarlySoundToPlay", .ofOption timer.earlyEnd.sound)] ++
  (endEarlyFields.zipIdx.flatMap fun ((patternKey, regexKey), index) =>
    exportEndEarly patternKey regexKey timer.endEarlyPatterns[index]?) ++
  [("EndEarlyRepeatedCount", ofInt timer.endEarlyRepeatedCount),
    ("EndTimerClearVariables", .string (Str.join ", ".toList timer.endClearVariables))]

/-- The fields that are written over the passthrough. -/
def exportFields (library : OverlayLibrary P) (trigger : NativeTrigger P) : List (String × Value P) :=
  [("Comments", .string trigger.comments),
    ("Pattern", .string trigger.pattern.text),
    ("UseRegex", .bool trigger.pattern.useRegex),
    ("PreviousPattern", .ofOption (trigger.previousPattern.map (·.text))),
    ("PreviousUseRegex", .bool (trigger.previousPattern.any (·.useRegex))),
    ("MatchVariableCondition", .string trigger.condition),
    ("LockoutTime", ofF64 trigger.lockoutSeconds),
    ("RepeatedResetTime", ofF64 trigger.repeatedResetSeconds),
    ("TextToDisplay", .ofOption trigger.displayText),
    ("TextToSpeak", .ofOption trigger.speakText),
    ("SoundToPlay", .ofOption trigger.sound),
    ("Priority", ofInt trigger.priority),
    ("VoiceRate", ofInt trigger.voiceRate),
    ("Volume", ofInt trigger.volume),
    ("FontColor", .ofOption trigger.fontColor),
    ("ActiveColor", .ofOption trigger.activeColor),
    ("IdleColor", .ofOption trigger.idleColor),
    ("ResetColor", .ofOption trigger.resetColor),
    ("VariableActions", .array (trigger.variableActions.map exportAction)),
    ("SelectedOverlays", .array
      (((trigger.textOverlays ++ trigger.timerOverlays).filterMap library.reference).map Json.string))] ++
  match trigger.timer with
  | some timer => exportTimer timer
  | none => [("EnableTimer", .bool false), ("TimerType", ofInt 0)]

def exportTriggerData (library : OverlayLibrary P) (trigger : NativeTrigger P) : ExtTreeMap Str (Value P) :=
  (exportFields library trigger).foldl (fun data field => data.insert field.1.toList field.2) trigger.passthrough

end

end Triggers

end Stonemite
