import Stonemite.Trigger.Package
import Stonemite.Trigger.Committed

/-!
# Packages in the EQLP format

The import of a package's nodes: first the overlays of the tree, then its folders and triggers, whose references
resolve against those overlays and the ones of the library.
-/

open Std

namespace Stonemite.Triggers

def maxNodes : Nat := 50000

def maxDepth : Nat := 64

structure EqlpImport (P : Platform) where
  folders : List NativeFolder
  triggers : List (NativeTrigger P)
  textOverlays : List (TextOverlayPreset P)
  timerOverlays : List (TimerOverlayPreset P)
  report : CompatReport

/-- An import under way: the nodes seen in this pass and the ids drawn. -/
structure Importing (P : Platform) extends EqlpImport P where
  nodeCount : Nat
  drawn : Nat

def mappedOverlayFields : List String :=
  ["Id", "IsTextOverlay", "IsTimerOverlay", "FontSize", "FontColor", "BackgroundColor", "FadeDelay", "TimerMode",
    "SortBy", "ActiveColor", "IdleColor", "ResetColor", "ShowMillis", "IsDefault"]

section
variable {P : Platform}

/-- A JSON object, with its members in order. -/
abbrev Object (P : Platform) := List (Str × Value P)

/-- One more node, within the bound. -/
def bump (count : Nat) : Except Str Nat :=
  if maxNodes < count + 1 then
    .error ("the package contains more than ".toList ++ Str.decimal maxNodes ++ " entries".toList)
  else .ok (count + 1)

/-- The fields of an overlay that are kept as they are, and the id of its node. -/
def overlayPassthrough (overlay : Object P) (eqlpId : Option Str) : Passthrough P :=
  let kept : Passthrough P :=
    ExtTreeMap.ofList (overlay.filter fun field => !mappedOverlayFields.any fun key => key.toList = field.1)
  match eqlpId with
  | some id => kept.insert "Id".toList (.string id)
  | none => kept

/-- An overlay, of texts or of timers. -/
def importOverlay (uuids : Nat → Nat) (overlay : Object P) (name : Str) (eqlpId : Option Str) (state : Importing P) :
    Importing P :=
  let fields : Fields P := Json.lookup overlay
  let passthrough := overlayPassthrough overlay eqlpId
  let color (key default : String) : Str := (fields.stringField key).getD default.toList
  if fields.boolField "IsTimerOverlay" then
    { state with
      drawn := state.drawn + 1
      timerOverlays := state.timerOverlays ++ [{
        id := uuids state.drawn
        name := name
        isDefault := fields.boolField "IsDefault"
        mode := if (fields.i64Field "TimerMode").getD 0 = 1 then .cooldown else .standard
        sortBy := toI32 ((fields.i64Field "SortBy").getD 0)
        fontColor := color "FontColor" "#FFFFFFFF"
        activeColor := color "ActiveColor" "#FF1D397E"
        idleColor := color "IdleColor" "#FF8F1515"
        resetColor := color "ResetColor" "#FF8F1515"
        backgroundColor := color "BackgroundColor" "#5F000000"
        showMillis := fields.boolField "ShowMillis"
        passthrough := passthrough }] }
  else
    { state with
      drawn := state.drawn + 1
      textOverlays := state.textOverlays ++ [{
        id := uuids state.drawn
        name := name
        isDefault := fields.boolField "IsDefault"
        fontSize := (fields.stringField "FontSize").getD "12pt".toList
        fontColor := color "FontColor" "#FFFFFFFF"
        backgroundColor := color "BackgroundColor" "#5F000000"
        fadeDelaySeconds := toU32 ((fields.i64Field "FadeDelay").getD 10)
        passthrough := passthrough }] }

/-- The overlays of a node and the nodes below it, down to a depth. -/
def collectOverlays (uuids : Nat → Nat) : Nat → Importing P → Value P → Except Str (Importing P)
  | 0, _, _ => .error "the package folder tree is nested too deeply".toList
  | depth + 1, state, node =>
    match bump state.nodeCount with
    | .error error => .error error
    | .ok count =>
      let state := { state with nodeCount := count }
      match node.asObject with
      | none => .ok state
      | some object =>
        let fields : Fields P := Json.lookup object
        let state := match (fields.get "OverlayData").bind Json.asObject with
          | some overlay => importOverlay uuids overlay ((fields.stringField "Name").getD "Unnamed overlay".toList)
              (fields.stringField "Id") state
          | none => state
        (((fields.get "Nodes").bind Json.asArray).getD []).foldlM (collectOverlays uuids depth) state

/-- The trigger data of a node. -/
def triggerData (object : Object P) : Option (Object P) := (Fields.get (Json.lookup object) "TriggerData").bind Json.asObject

/-- A node whose overlay data is not null. -/
def isOverlayNode (object : Object P) : Bool :=
  match Fields.get (Json.lookup object) "OverlayData" with
  | none => false
  | some .null => false
  | some _ => true

def childNodes (object : Object P) : List (Value P) :=
  ((Fields.get (Json.lookup object) "Nodes").bind Json.asArray).getD []

def importTriggerNode (uuids : Nat → Nat) (overlayIds : OverlayIds) (parent : Option FolderId) (state : Importing P)
    (name : Str) (data : Object P) : Importing P :=
  let (native, issues) := importTrigger (ExtTreeMap.ofList data) name parent overlayIds (uuids state.drawn)
  { state with
    drawn := state.drawn + 1
    triggers := state.triggers ++ [native]
    report := { state.report with issues := state.report.issues ++ issues } }

/-- The folders and triggers of a node and the nodes below it, down to a depth. -/
def importNode (uuids : Nat → Nat) (overlayIds : OverlayIds) : Nat → Option FolderId → Importing P → Value P →
    Except Str (Importing P)
  | 0, _, _, _ => .error "the package folder tree is nested too deeply".toList
  | depth + 1, parent, state, node =>
    match bump state.nodeCount with
    | .error error => .error error
    | .ok count =>
      let state := { state with nodeCount := count }
      match node.asObject with
      | none => .ok state
      | some object =>
        let fields : Fields P := Json.lookup object
        let name := (fields.stringField "Name").getD "Unnamed".toList
        match triggerData object with
        | some data => .ok (importTriggerNode uuids overlayIds parent state name data)
        | none =>
          if isOverlayNode object then .ok state
          else
            let folder : NativeFolder := {
              id := uuids state.drawn
              name := name
              parent := parent
              index := state.folders.length % 2 ^ 32
              expanded := fields.boolField "IsExpanded" }
            (childNodes object).foldlM (importNode uuids overlayIds depth (some folder.id))
              { state with drawn := state.drawn + 1, folders := state.folders ++ [folder] }

/-- The import of the nodes of a package, with the overlays that are known already. -/
def eqlpImport (uuids : Nat → Nat) (nodes : List (Value P)) (existingOverlays : List (OverlayId × Str)) :
    Except Str (EqlpImport P) := do
  let collected ← nodes.foldlM (collectOverlays uuids (maxDepth + 1))
    ⟨⟨[], [], [], [], ⟨[], 0, 0, 0, 0⟩⟩, 0, 0⟩
  let overlayIds := eqlpOverlayIds collected.textOverlays collected.timerOverlays existingOverlays
  let state ← nodes.foldlM (importNode uuids overlayIds (maxDepth + 1) none) { collected with nodeCount := 0 }
  .ok { state.toEqlpImport with
    report := { state.report with
      triggersImported := state.triggers.length
      foldersImported := state.folders.length
      overlaysImported := state.textOverlays.length + state.timerOverlays.length
      triggersQuarantined := (state.triggers.filter fun trigger => trigger.quarantine.isSome).length } }

/-- What a commit reads from the package. -/
def EqlpImport.parsed (result : EqlpImport P) : ParsedImport P where
  folders := result.folders
  triggers := result.triggers
  textOverlays := result.textOverlays
  timerOverlays := result.timerOverlays
  assets := []

end

end Stonemite.Triggers
