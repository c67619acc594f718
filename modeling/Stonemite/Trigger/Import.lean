import Stonemite.Trigger.Eqlp
import Stonemite.Lib.Keyed

/-!
# Committing an import

The records of the native library, and how those of a parsed package become part of it. The file system and the ids
that are drawn are not modelled further.
-/

open Std

namespace Stonemite

theorem bind_eq_ok {ε α β : Type} {x : Except ε α} {f : α → Except ε β} {b : β} :
    x >>= f = .ok b ↔ ∃ a, x = .ok a ∧ f a = .ok b := by
  cases x with
  | error e => exact ⟨nofun, nofun⟩
  | ok a => exact ⟨fun h => ⟨a, rfl, h⟩, fun ⟨_, rfl, h⟩ => h⟩

namespace Str

/-- `char::is_control`. -/
def isControl (c : Char) : Bool := c.toNat < 0x20 || (0x7F ≤ c.toNat && c.toNat < 0xA0)

end Str

namespace Triggers

/-! ### Records -/

/-- A folder with what the window shows of it. -/
structure NativeFolder extends Folder where
  name : Str
  index : Nat
  expanded : Bool

structure TextOverlayPreset (P : Platform) extends OverlayPreset P where
  name : Str
  isDefault : Bool
  fontSize : Str
  fontColor : Str
  backgroundColor : Str
  fadeDelaySeconds : Nat

/-- The modes of an overlay of timers. -/
inductive TimerOverlayMode
  | standard
  | cooldown
deriving DecidableEq, Repr

structure TimerOverlayPreset (P : Platform) extends OverlayPreset P where
  name : Str
  isDefault : Bool
  mode : TimerOverlayMode
  sortBy : Int
  fontColor : Str
  activeColor : Str
  idleColor : Str
  resetColor : Str
  backgroundColor : Str
  showMillis : Bool

structure AssetRecord where
  name : Str
  fileName : Str
  sha256 : Str
  size : Nat
deriving DecidableEq, Repr

structure NativeLibrary (P : Platform) where
  folders : List NativeFolder
  triggers : List (NativeTrigger P)
  profiles : List Profile
  textOverlays : List (TextOverlayPreset P)
  timerOverlays : List (TimerOverlayPreset P)
  assets : List AssetRecord

/-- What a file gave, whatever its format. -/
structure ParsedImport (P : Platform) where
  folders : List NativeFolder
  triggers : List (NativeTrigger P)
  textOverlays : List (TextOverlayPreset P)
  timerOverlays : List (TimerOverlayPreset P)
  assets : List (AssetRecord × List UInt8)

/-- What the user chose for the import. -/
structure ImportOptions where
  newFolderName : Option Str
  replaceSameNames : Bool
  enable : Bool

structure ImportSummary where
  triggersAdded : Nat
  triggersReplaced : Nat
  foldersAdded : Nat
  overlaysAdded : Nat
  assetsAdded : Nat
deriving DecidableEq, Repr

section
variable {P : Platform}

def NativeLibrary.trigger (library : NativeLibrary P) (id : TriggerId) : Option (NativeTrigger P) :=
  library.triggers.find? fun trigger => trigger.id = id

def NativeLibrary.folder (library : NativeLibrary P) (id : FolderId) : Option NativeFolder :=
  library.folders.find? fun folder => folder.id = id

/-! ### Overlay references of an EQLP package -/

/-- The overlays of the library by the id a package knows them by. -/
def knownOverlays (library : NativeLibrary P) : List (OverlayId × Str) :=
  library.textOverlays.map (fun preset => (preset.id, preset.toOverlayPreset.eqlpId)) ++
    library.timerOverlays.map fun preset => (preset.id, preset.toOverlayPreset.eqlpId)

/-- The EQLP id that a preset was read with. -/
def OverlayPreset.packageId (preset : OverlayPreset P) : Option Str :=
  (preset.passthrough["Id".toList]?).bind Json.asStr

/-- What the references of a package resolve against; the overlays of the library stand for timer overlays. -/
def eqlpOverlayIds (textOverlays : List (TextOverlayPreset P)) (timerOverlays : List (TimerOverlayPreset P))
    (existingOverlays : List (OverlayId × Str)) : OverlayIds :=
  textOverlays.filterMap (fun preset => preset.toOverlayPreset.packageId.map fun id => (id, preset.id, true)) ++
    timerOverlays.filterMap (fun preset => preset.toOverlayPreset.packageId.map fun id => (id, preset.id, false)) ++
      existingOverlays.map fun (id, name) => (name, id, false)

/-! ### Media -/

/-- The file system under the store, with the errors it can answer. -/
structure FileSystem (P : Platform) where
  State : Type
  createAssetsDir : State → Except Str State
  /-- A file of the asset directory. -/
  hasFile : State → Str → Bool
  write : State → Str → List UInt8 → Except Str State
  save : State → NativeLibrary P → Except Str State

def validateEntryName (name : Str) : Except Str Unit :=
  let suspicious := name.isEmpty || decide (512 < name.bytes.length) || name.contains '\\' ||
    name.tails.any "..".toList.isPrefixOf || "/".toList.isPrefixOf name || name.contains ':' || name.any Str.isControl
  if suspicious then .error ("the package contains an unsafe entry name: '".toList ++ name ++ "'".toList)
  -- after the checks above, what is not a normal component is a leading `.`
  else if name = ['.'] || "./".toList.isPrefixOf name then
    .error ("the package contains an unsafe entry path: '".toList ++ name ++ "'".toList)
  else .ok ()

/-- A file that is there already is not written again. -/
def writeAsset (files : FileSystem P) (disk : files.State) (asset : AssetRecord × List UInt8) : Except Str files.State :=
  if files.hasFile disk asset.1.fileName then .ok disk else files.write disk asset.1.fileName asset.2

/-- A media file is written and its record added. -/
def installAsset (files : FileSystem P) (state : List AssetRecord × files.State) (asset : AssetRecord × List UInt8) :
    Except Str (List AssetRecord × files.State) := do
  validateEntryName asset.1.fileName
  let disk ← writeAsset files state.2 asset
  .ok (pushNew AssetRecord.fileName state.1 asset.1, disk)

/-- The records of the library and the disk once the media are installed. -/
def installAssets (files : FileSystem P) (disk : files.State) (records : List AssetRecord)
    (assets : List (AssetRecord × List UInt8)) : Except Str (List AssetRecord × files.State) := do
  let disk ← files.createAssetsDir disk
  assets.foldlM (installAsset files) (records, disk)

/-! ### Commit -/

/-- The name of the folder that the import is wrapped in. -/
def ImportOptions.wrapperName (options : ImportOptions) : Option Str :=
  (options.newFolderName.map Str.trim).filter fun name => !name.isEmpty

/-- The wrapper folder; its id is the first one drawn. -/
def ImportOptions.wrapper (options : ImportOptions) (uuids : Nat → Nat) (library : NativeLibrary P) :
    Option NativeFolder :=
  options.wrapperName.map fun name =>
    { id := uuids 0, parent := none, name := name, index := library.folders.length % 2 ^ 32, expanded := true }

/-- A folder at the root goes into the folder of the import. -/
def NativeFolder.reparent (rootParent : Option FolderId) (folder : NativeFolder) : NativeFolder :=
  { folder with parent := folder.parent.or rootParent }

/-- The trigger is enabled, if it can run. -/
def NativeTrigger.enabledBy (enable : Bool) (trigger : NativeTrigger P) : NativeTrigger P :=
  { trigger with enabled := (enable && trigger.quarantine.isNone) || trigger.enabled }

/-- A trigger directly in the target root that is named like one of the import. -/
def replaced (rootParent : Option FolderId) (triggers : List (NativeTrigger P)) (existing : NativeTrigger P) : Bool :=
  existing.folder == rootParent &&
    (triggers.map fun trigger => P.toLowercase trigger.name).contains (P.toLowercase existing.name)

/-- The triggers of the library that stay. -/
def retained (options : ImportOptions) (rootParent : Option FolderId) (library : NativeLibrary P)
    (triggers : List (NativeTrigger P)) : List (NativeTrigger P) :=
  if options.replaceSameNames then library.triggers.filter fun existing => !replaced rootParent triggers existing
  else library.triggers

/-- A new id, drawn for the place of the trigger, if the library has the trigger's own. -/
def regenerate (uuids : Nat → Nat) (existing : List (NativeTrigger P)) (index : Nat) (trigger : NativeTrigger P) :
    NativeTrigger P :=
  if existing.any fun other => other.id = trigger.id then { trigger with id := uuids (index + 1) } else trigger

/-- The library that is saved, with the summary, or why nothing is saved. -/
def commitTriggerImport (files : FileSystem P) (disk : files.State) (uuids : Nat → Nat) (library : NativeLibrary P)
    (parsed : ParsedImport P) (options : ImportOptions) : Except Str (NativeLibrary P × ImportSummary) := do
  let wrapper := options.wrapper uuids library
  let rootParent := wrapper.map (·.id)
  let folders := parsed.folders.map (NativeFolder.reparent rootParent)
  let enabled := parsed.triggers.map (NativeTrigger.enabledBy options.enable)
  let existing := retained options rootParent library enabled
  let triggers := enabled.mapIdx (regenerate uuids existing)
  let (assets, disk) ← installAssets files disk library.assets parsed.assets
  let committed : NativeLibrary P := {
    library with
    folders := library.folders ++ wrapper.toList ++ folders
    triggers := existing ++ triggers
    textOverlays := extendNew (fun preset => preset.toOverlayPreset.eqlpId) library.textOverlays parsed.textOverlays
    timerOverlays := extendNew (fun preset => preset.toOverlayPreset.eqlpId) library.timerOverlays parsed.timerOverlays
    assets := assets }
  match files.save disk committed with
  | .error error => .error ("Stonemite could not save the trigger library: ".toList ++ error)
  | .ok _ => .ok (committed, {
      triggersAdded := parsed.triggers.length
      triggersReplaced := library.triggers.length - existing.length
      foldersAdded := parsed.folders.length
      overlaysAdded := parsed.textOverlays.length + parsed.timerOverlays.length
      assetsAdded := parsed.assets.length })

end

end Triggers

end Stonemite
