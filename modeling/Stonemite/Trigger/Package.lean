import Stonemite.Trigger.Import
import Stonemite.Trigger.Engine

/-!
# Native packages

The export of a selection with what it depends on, and the import with its limits. An archive is the list of its
entries; the JSON of the manifest and the digest are those of a codec.
-/

open Std

namespace Stonemite.Triggers

def packageFormat : Str := "stonemite-triggers".toList

def formatVersion : Nat := 1

def maxEntries : Nat := 4096

def maxEntryBytes : Nat := 64 * 1024 * 1024

def maxTotalBytes : Nat := 256 * 1024 * 1024

structure Manifest (P : Platform) where
  format : Str
  version : Nat
  folders : List NativeFolder
  triggers : List (NativeTrigger P)
  textOverlays : List (TextOverlayPreset P)
  timerOverlays : List (TimerOverlayPreset P)
  assets : List AssetRecord

/-- What an import tells the user. -/
structure CompatReport where
  issues : List CompatIssue
  triggersImported : Nat
  foldersImported : Nat
  overlaysImported : Nat
  triggersQuarantined : Nat

structure PackageImport (P : Platform) where
  folders : List NativeFolder
  triggers : List (NativeTrigger P)
  textOverlays : List (TextOverlayPreset P)
  timerOverlays : List (TimerOverlayPreset P)
  assets : List (AssetRecord × List UInt8)
  report : CompatReport

/-- An entry of an archive, with the size it declares. -/
structure Entry where
  name : Str
  size : Nat
  bytes : List UInt8
deriving DecidableEq

/-- The JSON of the manifest, and the digest of a file. -/
structure Codec (P : Platform) where
  encode : Manifest P → List UInt8
  decode : List UInt8 → Except Str (Manifest P)
  /-- The SHA-256 digest in hexadecimal digits. -/
  digest : List UInt8 → Str

section
variable {P : Platform}

/-! ### Export -/

def NativeLibrary.folderSubtree (library : NativeLibrary P) (folder : FolderId) : List FolderId :=
  TriggerLibrary.subtreeLoop (library.folders.map (·.toFolder)) (library.folders.length + 1) 0 [folder]

/-- The selected folders with all below them. -/
def NativeLibrary.selectedFolders (library : NativeLibrary P) (folderIds : List FolderId) : List FolderId :=
  extendNew id [] (folderIds.flatMap library.folderSubtree)

/-- The triggers in these folders, and those that were selected themselves. -/
def NativeLibrary.selectedTriggers (library : NativeLibrary P) (folders : List FolderId) (triggerIds : List TriggerId) :
    List (NativeTrigger P) :=
  library.triggers.filter fun trigger =>
    triggerIds.contains trigger.id || trigger.folder.any fun folder => folders.contains folder

def NativeLibrary.parentOf (library : NativeLibrary P) (folder : FolderId) : Option FolderId :=
  (library.folder folder).bind (·.parent)

/-- The folders from a trigger's on, as long as there is a parent. -/
def ancestorsLoop (library : NativeLibrary P) : Nat → Option FolderId → List FolderId → Option (List FolderId)
  | _, none, folders => some folders
  | 0, some _, _ => none
  | fuel + 1, some folder, folders =>
    ancestorsLoop library fuel (library.parentOf folder) (pushNew id folders folder)

/-- The folders with those above the triggers. -/
def withAncestors (library : NativeLibrary P) (fuel : Nat) (triggers : List (NativeTrigger P))
    (folders : List FolderId) : Option (List FolderId) :=
  triggers.foldlM (fun folders trigger => ancestorsLoop library fuel trigger.folder folders) folders

def soundRefs (trigger : NativeTrigger P) : List Str :=
  let stages := match trigger.timer with
    | some timer => [timer.warning.sound, timer.finish.sound, timer.earlyEnd.sound]
    | none => []
  (trigger.sound :: stages).filterMap fun sound => sound.filter isSoundFile

def NativeLibrary.asset (library : NativeLibrary P) (sound : Str) : Option AssetRecord :=
  library.assets.find? fun asset => asset.name.eqIgnoreAsciiCase sound

/-- The media files that the triggers name, each once. -/
def NativeLibrary.dependentMedia (library : NativeLibrary P) (triggers : List (NativeTrigger P)) : List AssetRecord :=
  extendNew AssetRecord.fileName [] ((triggers.flatMap soundRefs).filterMap library.asset)

/-- The manifest of a selection; none if the ancestors of a folder do not end. -/
def exportManifest (fuel : Nat) (library : NativeLibrary P) (folderIds : List FolderId) (triggerIds : List TriggerId) :
    Option (Manifest P) :=
  let folders := library.selectedFolders folderIds
  let triggers := library.selectedTriggers folders triggerIds
  (withAncestors library fuel triggers folders).map fun folders => {
    format := packageFormat
    version := formatVersion
    folders := library.folders.filter fun folder => folders.contains folder.id
    triggers := triggers
    textOverlays := library.textOverlays.filter fun preset => triggers.any fun t => t.textOverlays.contains preset.id
    timerOverlays := library.timerOverlays.filter fun preset => triggers.any fun t => t.timerOverlays.contains preset.id
    assets := library.dependentMedia triggers }

/-- The entry of a record whose file can be read. -/
def mediaEntry (store : Option (Str → Option (List UInt8))) (record : AssetRecord) : Option Entry :=
  (store.bind fun read => read record.fileName).map fun bytes =>
    ⟨"assets/".toList ++ record.fileName, bytes.length, bytes⟩

/-- The manifest and the media files that could be read. -/
def Manifest.entries (codec : Codec P) (store : Option (Str → Option (List UInt8))) (manifest : Manifest P) : List Entry :=
  ⟨"manifest.json".toList, (codec.encode manifest).length, codec.encode manifest⟩ ::
    manifest.assets.filterMap (mediaEntry store)

def exportPackage (codec : Codec P) (fuel : Nat) (library : NativeLibrary P)
    (store : Option (Str → Option (List UInt8))) (folderIds : List FolderId) (triggerIds : List TriggerId) :
    Option (List Entry) :=
  (exportManifest fuel library folderIds triggerIds).map (Manifest.entries codec store)

/-! ### Import -/

/-- What the entries before have left. -/
structure Reading (P : Platform) where
  manifest : Option (Manifest P)
  assetBytes : List (Str × List UInt8)
  total : Nat

/-- One entry is checked, counted and kept. -/
def readEntry (codec : Codec P) (reading : Reading P) (entry : Entry) : Except Str (Reading P) := do
  validateEntryName entry.name
  let total := min (reading.total + entry.size) (2 ^ 64 - 1)
  let bytes := entry.bytes.take (maxEntryBytes + 1)
  if maxEntryBytes < entry.size then .error ("'".toList ++ entry.name ++ "' exceeds the per-file size limit".toList)
  else if maxTotalBytes < total then .error "the package exceeds the total size limit".toList
  else if maxEntryBytes < bytes.length then
    .error ("'".toList ++ entry.name ++ "' inflates beyond the size limit".toList)
  else if entry.name = "manifest.json".toList then
    match codec.decode bytes with
    | .error error => .error ("invalid manifest: ".toList ++ error)
    | .ok parsed =>
      if parsed.format ≠ packageFormat then .error "this is not a Stonemite trigger package".toList
      else .ok { reading with manifest := some parsed, total := total }
  else if "assets/".toList.isPrefixOf entry.name then
    .ok { reading with assetBytes := reading.assetBytes ++ [(entry.name.drop 7, bytes)], total := total }
  else .ok { reading with total := total }

/-- A media file whose bytes are there and have the digest, or what is wrong with it. -/
def importAsset (codec : Codec P) (assetBytes : List (Str × List UInt8)) (record : AssetRecord) :
    Except CompatIssue (AssetRecord × List UInt8) :=
  match assetBytes.find? fun asset => asset.1 = record.fileName with
  | some (_, bytes) =>
    if codec.digest bytes = record.sha256 then .ok (record, bytes)
    else .error ⟨.error, record.name, "corrupt-media",
      "the embedded media does not match its digest and was skipped".toList⟩
  | none => .error ⟨.warning, record.name, "missing-media",
      "the manifest references media that is not in the package".toList⟩

/-- What the import tells of a newer format. -/
def versionIssues (version : Nat) : List CompatIssue :=
  if formatVersion < version then
    [⟨.warning, "manifest.json".toList, "newer-package", "the package was written by a newer Stonemite (version ".toList ++
      Str.decimal version ++ " > ".toList ++ Str.decimal formatVersion ++ ")".toList⟩]
  else []

/-- The trigger, which the user has to enable. -/
def NativeTrigger.disabled (trigger : NativeTrigger P) : NativeTrigger P := { trigger with enabled := false }

/-- The import of a manifest, with the media that were in the package. -/
def Manifest.imported (codec : Codec P) (assetBytes : List (Str × List UInt8)) (manifest : Manifest P) :
    PackageImport P where
  folders := manifest.folders
  triggers := manifest.triggers.map NativeTrigger.disabled
  textOverlays := manifest.textOverlays
  timerOverlays := manifest.timerOverlays
  assets := manifest.assets.filterMap fun record => (importAsset codec assetBytes record).toOption
  report := {
    issues := versionIssues manifest.version ++ manifest.assets.filterMap fun record =>
      match importAsset codec assetBytes record with
      | .ok _ => none
      | .error issue => some issue
    triggersImported := manifest.triggers.length
    foldersImported := manifest.folders.length
    overlaysImported := manifest.textOverlays.length + manifest.timerOverlays.length
    triggersQuarantined := 0 }

def importPackage (codec : Codec P) (entries : List Entry) : Except Str (PackageImport P) := do
  if maxEntries < entries.length then
    .error ("the package has more than ".toList ++ Str.decimal maxEntries ++ " entries".toList)
  else
    let reading ← entries.foldlM (readEntry codec) ⟨none, [], 0⟩
    match reading.manifest with
    | none => .error "the package has no manifest.json".toList
    | some manifest => .ok (manifest.imported codec reading.assetBytes)

end

end Stonemite.Triggers
