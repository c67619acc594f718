import Stonemite.Trigger.Shared

/-!
# Installed media

The files of the media that an import brings along. A file that is there is kept, and so is a record of the library with
the same file name; a sound is looked up by the name of its record. `Directory` has the laws of the file system, and
`Directory.settled` is what a file holds after the loop; `mediaInstalled_iff` is the equivalence.
-/

open Std

namespace Stonemite.Triggers

variable {P : Platform} {codec : Codec P} {files : FileSystem P}

/-- The file that a sound of a trigger stands for. -/
def resolveSound (files : FileSystem P) (disk : files.State) (library : NativeLibrary P) (reference : Str) : Option Str :=
  if (reference.any fun c => c = '/' || c = '\\') || reference.tails.any "..".toList.isPrefixOf then none
  else (library.asset reference).bind fun record => if files.hasFile disk record.fileName then some record.fileName else none

/-- A sound that is a bare file name. -/
def BareName (reference : Str) : Prop :=
  '/' ∉ reference ∧ '\\' ∉ reference ∧ ¬ "..".toList <:+: reference

/-! ### Directories -/

/-- The directory of the media: the bytes of its files, under names that may be compared in a way of its own. -/
structure Directory (files : FileSystem P) where
  key : Str → Str
  content : files.State → Str → Option (List UInt8)
  hasFile_of_content : ∀ {disk name bytes}, content disk name = some bytes → files.hasFile disk name = true
  content_congr : ∀ {disk a b}, key a = key b → content disk a = content disk b
  hasFile_congr : ∀ {disk a b}, key a = key b → files.hasFile disk a = files.hasFile disk b
  content_create : ∀ {disk disk'}, files.createAssetsDir disk = .ok disk' → content disk' = content disk
  hasFile_create : ∀ {disk disk'}, files.createAssetsDir disk = .ok disk' → files.hasFile disk' = files.hasFile disk
  content_write : ∀ {disk disk' name bytes}, files.write disk name bytes = .ok disk' → content disk' name = some bytes
  content_write_of_ne : ∀ {disk disk' name bytes a}, files.write disk name bytes = .ok disk' → key a ≠ key name →
    content disk' a = content disk a
  hasFile_write_of_ne : ∀ {disk disk' name bytes a}, files.write disk name bytes = .ok disk' → key a ≠ key name →
    files.hasFile disk' a = files.hasFile disk a

namespace Directory
variable (D : Directory files)

/-- The first import whose file has this name. -/
def firstImport (assets : List (AssetRecord × List UInt8)) (name : Str) : Option (AssetRecord × List UInt8) :=
  assets.find? fun asset => D.key asset.1.fileName = D.key name

/-- The bytes that a file name stands for after an installation: those of the file that is there, or of its first import. -/
def settled (disk : files.State) (assets : List (AssetRecord × List UInt8)) (name : Str) : Option (List UInt8) :=
  if files.hasFile disk name then D.content disk name else (D.firstImport assets name).map (·.2)

/-- The file of the record has the bytes of its digest. -/
def Matches (codec : Codec P) (disk : files.State) (record : AssetRecord) : Prop :=
  ∃ bytes, D.content disk record.fileName = some bytes ∧ codec.digest bytes = record.sha256

variable {D} {disk disk' : files.State} {asset : AssetRecord × List UInt8} {assets : List (AssetRecord × List UInt8)}
  {records records' : List AssetRecord} {name : Str}

theorem settled_nil (disk : files.State) (name : Str) : D.settled disk [] name = D.content disk name := by
  unfold settled
  split
  · rfl
  · rename_i hnone
    cases hcontent : D.content disk name with
    | none => rfl
    | some bytes => exact absurd (D.hasFile_of_content hcontent) hnone

theorem settled_writeAsset (h : writeAsset files disk asset = .ok disk') (assets : List (AssetRecord × List UInt8)) (name : Str) :
    D.settled disk' assets name = D.settled disk (asset :: assets) name := by
  unfold writeAsset at h
  by_cases hkey : D.key asset.1.fileName = D.key name
  · have hcongr : files.hasFile disk asset.1.fileName = files.hasFile disk name := D.hasFile_congr hkey
    rw [hcongr] at h
    unfold settled
    by_cases hhas : files.hasFile disk name = true
    · rw [if_pos hhas] at h
      cases h
      rw [if_pos hhas, if_pos hhas]
    · rw [if_neg hhas] at h
      have hcontent : D.content disk' name = some asset.2 := by
        rw [← D.content_congr hkey]
        exact D.content_write h
      rw [if_pos (D.hasFile_of_content hcontent), if_neg hhas, hcontent, firstImport, List.find?_cons_of_pos (by simpa using hkey)]
      rfl
  · have hfind : D.firstImport (asset :: assets) name = D.firstImport assets name :=
      List.find?_cons_of_neg (by simpa using hkey)
    unfold settled
    rw [hfind]
    split at h
    · cases h
      rfl
    · rw [D.hasFile_write_of_ne h (Ne.symm hkey), D.content_write_of_ne h (Ne.symm hkey)]

theorem content_foldlM_installAsset {state state' : List AssetRecord × files.State}
    (h : assets.foldlM (installAsset files) state = .ok state') (name : Str) :
    D.content state'.2 name = D.settled state.2 assets name := by
  induction assets generalizing state with
  | nil =>
    cases h
    exact (settled_nil _ _).symm
  | cons asset assets ih =>
    rw [List.foldlM_cons] at h
    obtain ⟨between, hasset, h⟩ := bind_eq_ok.mp h
    obtain ⟨-, -, hasset⟩ := bind_eq_ok.mp hasset
    obtain ⟨written, hwrite, hasset⟩ := bind_eq_ok.mp hasset
    cases hasset
    rw [ih h, settled_writeAsset hwrite]

theorem content_installAssets (h : installAssets files disk records assets = .ok (records', disk')) (name : Str) :
    D.content disk' name = D.settled disk assets name := by
  obtain ⟨created, hcreate, h⟩ := bind_eq_ok.mp h
  rw [content_foldlM_installAsset h]
  unfold settled
  rw [D.hasFile_create hcreate, D.content_create hcreate]

theorem settled_of_content {bytes : List UInt8} (h : D.content disk name = some bytes) : D.settled disk assets name = some bytes := by
  rw [settled, if_pos (D.hasFile_of_content h)]
  exact h

end Directory

/-! ### Sounds -/

/-- The media of the package that a sound stands for. -/
def PackageImport.embedded (imported : PackageImport P) (sound : Str) : Option (AssetRecord × List UInt8) :=
  imported.assets.find? fun asset => asset.1.name.eqIgnoreAsciiCase sound

/-- The records of the library after an import: those of new files join its own. -/
def NativeLibrary.withMedia (library : NativeLibrary P) (imported : PackageImport P) : NativeLibrary P :=
  { library with assets := extendNew AssetRecord.fileName library.assets (imported.assets.map (·.1)) }

/-- The records match their files, and the sounds of the imported triggers stand for the media they came with. -/
structure MediaInstalled (D : Directory files) (codec : Codec P) (imported : PackageImport P) (disk : files.State)
    (library : NativeLibrary P) : Prop where
  records : ∀ record ∈ library.assets, D.Matches codec disk record
  sounds : ∀ trigger ∈ imported.triggers, ∀ sound ∈ soundRefs trigger, ∀ asset, imported.embedded sound = some asset →
    ∃ fileName, resolveSound files disk library sound = some fileName ∧ D.content disk fileName = some asset.2

/-- A file of a record that is added has the bytes of its digest if it is there, else the first import of that file has the same
digest; and the first record of the name of each sound, the library's own before those that are added, stands for a file of just
those bytes. -/
structure MediaFits (D : Directory files) (codec : Codec P) (imported : PackageImport P) (disk : files.State)
    (library : NativeLibrary P) : Prop where
  kept : ∀ record ∈ (library.withMedia imported).assets, record ∉ library.assets → files.hasFile disk record.fileName = true →
    D.Matches codec disk record
  first : ∀ record ∈ (library.withMedia imported).assets, record ∉ library.assets → files.hasFile disk record.fileName = false →
    ∀ asset, D.firstImport imported.assets record.fileName = some asset → asset.1.sha256 = record.sha256
  sounds : ∀ trigger ∈ imported.triggers, ∀ sound ∈ soundRefs trigger, ∀ asset, imported.embedded sound = some asset →
    BareName sound ∧ ∃ record, (library.withMedia imported).asset sound = some record ∧
      D.settled disk imported.assets record.fileName = some asset.2

theorem resolveSound_eq_some {D : Directory files} {disk : files.State} {library : NativeLibrary P} {sound : Str} {bytes : List UInt8} :
    (∃ fileName, resolveSound files disk library sound = some fileName ∧ D.content disk fileName = some bytes) ↔
      BareName sound ∧ ∃ record, library.asset sound = some record ∧ D.content disk record.fileName = some bytes := by
  have hbare : ((sound.any fun c => c = '/' || c = '\\') || sound.tails.any "..".toList.isPrefixOf) = true ↔ ¬ BareName sound := by
    have hdots : sound.tails.any "..".toList.isPrefixOf = true ↔ "..".toList <:+: sound := by
      simp only [List.any_eq_true, List.mem_tails, List.isPrefixOf_iff_prefix]
      constructor
      · rintro ⟨rest, hsuffix, hprefix⟩
        exact hprefix.isInfix.trans hsuffix.isInfix
      · rintro ⟨before, after, rfl⟩
        exact ⟨"..".toList ++ after, ⟨before, by rw [List.append_assoc]⟩, List.prefix_append _ _⟩
    have hslashes : (sound.any fun c => c = '/' || c = '\\') = true ↔ '/' ∈ sound ∨ '\\' ∈ sound := by
      simp only [List.any_eq_true, Bool.or_eq_true, decide_eq_true_eq, and_or_left, exists_or, exists_eq_right]
    rw [Bool.or_eq_true, hdots, hslashes, BareName]
    tauto
  unfold resolveSound
  by_cases h : BareName sound
  · rw [if_neg (by rw [hbare]; exact not_not.mpr h)]
    constructor
    · rintro ⟨fileName, hfile, hcontent⟩
      obtain ⟨record, hrecord, hfile⟩ := Option.bind_eq_some_iff.mp hfile
      split at hfile
      · cases hfile
        exact ⟨h, record, hrecord, hcontent⟩
      · cases hfile
    · rintro ⟨-, record, hrecord, hcontent⟩
      refine ⟨record.fileName, Option.bind_eq_some_iff.mpr ⟨record, hrecord, ?_⟩, hcontent⟩
      rw [if_pos (D.hasFile_of_content hcontent)]
  · rw [if_pos (hbare.mpr h)]
    exact ⟨nofun, fun hrecord => absurd hrecord.1 h⟩

theorem digest_of_importPackage {entries : List Entry} {imported : PackageImport P}
    (h : importPackage codec entries = .ok imported) {asset : AssetRecord × List UInt8} (hasset : asset ∈ imported.assets) :
    codec.digest asset.2 = asset.1.sha256 := by
  have himported : ∃ manifest assetBytes, imported = Manifest.imported codec assetBytes manifest := by
    unfold importPackage at h
    split at h
    · cases h
    · obtain ⟨reading, -, h⟩ := bind_eq_ok.mp h
      split at h
      · cases h
      · cases h
        exact ⟨_, _, rfl⟩
  obtain ⟨manifest, assetBytes, rfl⟩ := himported
  obtain ⟨record, -, himport⟩ := List.mem_filterMap.mp hasset
  unfold importAsset at himport
  split at himport
  · split at himport
    · cases himport
      assumption
    · cases himport
  · cases himport

/-- After the installation of the media of a package, every record of the library matches its file and every sound of an imported
trigger that stands for media of the package still does, exactly when the new records fit the files and the names. -/
theorem mediaInstalled_iff (D : Directory files) (codec : Codec P) (entries : List Entry) (imported : PackageImport P)
    (himport : importPackage codec entries = .ok imported) (library : NativeLibrary P) (disk disk' : files.State)
    (records : List AssetRecord) (hstore : ∀ record ∈ library.assets, D.Matches codec disk record)
    (hinstall : installAssets files disk library.assets imported.assets = .ok (records, disk')) :
    MediaInstalled D codec imported disk' { library with assets := records } ↔ MediaFits D codec imported disk library := by
  obtain rfl : records = (library.withMedia imported).assets := installAssets_records hinstall
  have hcontent (name : Str) : D.content disk' name = D.settled disk imported.assets name :=
    Directory.content_installAssets hinstall name
  have hsounds : (∀ trigger ∈ imported.triggers, ∀ sound ∈ soundRefs trigger, ∀ asset, imported.embedded sound = some asset →
      ∃ fileName, resolveSound files disk' (library.withMedia imported) sound = some fileName ∧
        D.content disk' fileName = some asset.2) ↔
      ∀ trigger ∈ imported.triggers, ∀ sound ∈ soundRefs trigger, ∀ asset, imported.embedded sound = some asset →
        BareName sound ∧ ∃ record, (library.withMedia imported).asset sound = some record ∧
          D.settled disk imported.assets record.fileName = some asset.2 := by
    simp only [resolveSound_eq_some]
    simp only [hcontent]
  -- the record of a new file, by whether the file is there
  have hmatches (record : AssetRecord) : D.Matches codec disk' record ↔
      (files.hasFile disk record.fileName = true → D.Matches codec disk record) ∧
        (files.hasFile disk record.fileName = false → ∃ asset, D.firstImport imported.assets record.fileName = some asset ∧
          asset.1.sha256 = record.sha256) := by
    rw [Directory.Matches, hcontent, Directory.settled]
    cases hthere : files.hasFile disk record.fileName with
    | true => exact ⟨fun h => ⟨fun _ => h, nofun⟩, fun h => h.1 rfl⟩
    | false =>
      rw [if_neg Bool.false_ne_true]
      constructor
      · rintro ⟨bytes, hbytes, hdigest⟩
        obtain ⟨asset, hasset, rfl⟩ := Option.map_eq_some_iff.mp hbytes
        refine ⟨nofun, fun _ => ⟨asset, hasset, ?_⟩⟩
        rw [← digest_of_importPackage himport (List.mem_of_find?_eq_some hasset), hdigest]
      · intro h
        obtain ⟨asset, hasset, hsame⟩ := h.2 rfl
        refine ⟨asset.2, by rw [hasset]; rfl, ?_⟩
        rw [digest_of_importPackage himport (List.mem_of_find?_eq_some hasset), hsame]
  constructor
  · intro h
    refine ⟨fun record hrecord _ hthere => ?_, fun record hrecord _ hnew asset hasset => ?_, hsounds.mp h.sounds⟩
    · exact ((hmatches record).mp (h.records record hrecord)).1 hthere
    · obtain ⟨asset', hasset', hdigest⟩ := ((hmatches record).mp (h.records record hrecord)).2 hnew
      rw [hasset', Option.some_inj] at hasset
      exact hasset ▸ hdigest
  · intro h
    refine ⟨fun record hrecord => ?_, hsounds.mpr h.sounds⟩
    by_cases hown : record ∈ library.assets
    · obtain ⟨bytes, hbytes, hdigest⟩ := hstore record hown
      exact ⟨bytes, (hcontent _).trans (Directory.settled_of_content hbytes), hdigest⟩
    · refine (hmatches record).mpr ⟨h.kept record hrecord hown, fun hnew => ?_⟩
      -- the record is that of an import, so its file has a first import
      obtain ⟨index, hindex⟩ := (mem_extendNew.mp hrecord).resolve_left hown
      obtain ⟨asset, hasset, rfl⟩ := List.mem_map.mp (List.mem_of_getElem? hindex.here)
      have hfound : (D.firstImport imported.assets asset.1.fileName).isSome = true :=
        List.find?_isSome.mpr ⟨asset, hasset, decide_eq_true rfl⟩
      obtain ⟨first, hfirst⟩ := Option.isSome_iff_exists.mp hfound
      exact ⟨first, hfirst, h.first _ hrecord hown hnew first hfirst⟩

/-! ### A second ding -/

namespace Literal

/-- The last file of the name. -/
def fileOf (disk : List (Str × List UInt8)) (name : Str) : Option (List UInt8) :=
  (disk.find? fun file => file.1 = name).map (·.2)

theorem fileOf_cons (name : Str) (bytes : List UInt8) (disk : List (Str × List UInt8)) (a : Str) :
    fileOf ((name, bytes) :: disk) a = if name = a then some bytes else fileOf disk a := by
  unfold fileOf
  by_cases h : name = a
  · rw [List.find?_cons_of_pos (by simpa using h), if_pos h]
    rfl
  · rw [List.find?_cons_of_neg (by simpa using h), if_neg h]

/-- A directory that holds its files in a list. -/
def drive : FileSystem platform where
  State := List (Str × List UInt8)
  createAssetsDir disk := .ok disk
  hasFile disk name := (fileOf disk name).isSome
  write disk name bytes := .ok ((name, bytes) :: disk)
  save disk _ := .ok disk

/-- The drive as a directory in which every name is its own key. -/
def driveDirectory : Directory drive where
  key name := name
  content disk name := fileOf disk name
  hasFile_of_content h := Option.isSome_iff_exists.mpr ⟨_, h⟩
  content_congr h := by rw [h]
  hasFile_congr h := by rw [h]
  content_create h := by cases h; rfl
  hasFile_create h := by cases h; rfl
  content_write h := by
    cases h
    exact (fileOf_cons _ _ _ _).trans (if_pos rfl)
  content_write_of_ne h hne := by
    cases h
    exact (fileOf_cons _ _ _ _).trans (if_neg (Ne.symm hne))
  hasFile_write_of_ne h hne := by
    cases h
    exact congrArg Option.isSome ((fileOf_cons _ _ _ _).trans (if_neg (Ne.symm hne)))

/-- A codec for one manifest, with the bytes for their own digest. -/
def mediaCodec (manifest : Manifest platform) : Codec platform where
  encode _ := [0]
  decode _ := .ok manifest
  digest bytes := bytes.map fun byte => Char.ofNat byte.toNat

/-- A record of the sound, for a file of one byte. -/
def dingRecord (fileName : Str) (byte : UInt8) : AssetRecord := ⟨"ding.wav".toList, fileName, [Char.ofNat byte.toNat], 1⟩

/-- A record of another sound. -/
def gongRecord : AssetRecord := ⟨"gong.wav".toList, "1-gong.wav".toList, [Char.ofNat 1], 1⟩

/-- A package of a trigger with its sound. -/
def dingManifest : Manifest platform where
  format := packageFormat
  version := formatVersion
  folders := []
  triggers := [sounding 4 "ding.wav".toList]
  textOverlays := []
  timerOverlays := []
  assets := [dingRecord "2-ding.wav".toList 2]

/-- A package with the manifest and one sound. -/
def dingEntries : List Entry :=
  [⟨"manifest.json".toList, 1, [0]⟩, ⟨"assets/2-ding.wav".toList, 1, [2]⟩]

def dingImport : PackageImport platform := dingManifest.imported (mediaCodec dingManifest) [("2-ding.wav".toList, [2])]

theorem dingImport_imported : importPackage (mediaCodec dingManifest) dingEntries = .ok dingImport := rfl

/-- A library with these records and nothing else. -/
def mediaOnly (assets : List AssetRecord) : NativeLibrary platform := ⟨[], [], [], [], [], assets⟩

end Literal

/-- The import into a library with a gong: both records match their files, and the trigger plays its ding. -/
theorem mediaInstalled_ding : MediaInstalled Literal.driveDirectory (Literal.mediaCodec Literal.dingManifest) Literal.dingImport
    [("2-ding.wav".toList, [2]), ("1-gong.wav".toList, [1])]
    (Literal.mediaOnly [Literal.gongRecord, Literal.dingRecord "2-ding.wav".toList 2]) := by
  refine (mediaInstalled_iff Literal.driveDirectory (Literal.mediaCodec Literal.dingManifest) Literal.dingEntries Literal.dingImport
    Literal.dingImport_imported (Literal.mediaOnly [Literal.gongRecord]) [("1-gong.wav".toList, [1])] _
    [Literal.gongRecord, Literal.dingRecord "2-ding.wav".toList 2] ?_ rfl).mpr
    ⟨fun record hrecord hnew hthere => ?_, fun record hrecord hnew _ asset hasset => ?_, ?_⟩
  · intro record hrecord
    obtain rfl := List.mem_singleton.mp hrecord
    exact ⟨[1], rfl, rfl⟩
  · obtain rfl | hrecord := List.mem_cons.mp hrecord
    · exact absurd List.mem_cons_self hnew
    · obtain rfl := List.mem_singleton.mp hrecord
      exact absurd hthere (by decide)
  · obtain rfl | hrecord := List.mem_cons.mp hrecord
    · exact absurd List.mem_cons_self hnew
    · obtain rfl := List.mem_singleton.mp hrecord
      obtain rfl := List.mem_singleton.mp (List.mem_of_find?_eq_some hasset)
      rfl
  · intro trigger htrigger sound hsound asset hasset
    obtain rfl := List.mem_singleton.mp htrigger
    obtain rfl := List.mem_singleton.mp hsound
    obtain rfl := List.mem_singleton.mp (List.mem_of_find?_eq_some hasset)
    exact ⟨⟨by decide, by decide, by decide⟩, Literal.dingRecord "2-ding.wav".toList 2, rfl, rfl⟩

/-- A library with another ding: the imported trigger plays that one. -/
theorem mediaInstalled_second_ding :
    ¬ ∀ (D : Directory Literal.drive) (codec : Codec Literal.platform) (entries : List Entry)
      (imported : PackageImport Literal.platform), importPackage codec entries = .ok imported →
      ∀ (library : NativeLibrary Literal.platform) (disk disk' : Literal.drive.State) (records : List AssetRecord),
        (∀ record ∈ library.assets, D.Matches codec disk record) →
        installAssets Literal.drive disk library.assets imported.assets = .ok (records, disk') →
        MediaInstalled D codec imported disk' { library with assets := records } := by
  intro h
  have hinstalled := h Literal.driveDirectory (Literal.mediaCodec Literal.dingManifest) Literal.dingEntries Literal.dingImport
    Literal.dingImport_imported (Literal.mediaOnly [Literal.dingRecord "1-ding.wav".toList 1]) [("1-ding.wav".toList, [1])]
    [("2-ding.wav".toList, [2]), ("1-ding.wav".toList, [1])]
    [Literal.dingRecord "1-ding.wav".toList 1, Literal.dingRecord "2-ding.wav".toList 2] ?_ rfl
  · obtain ⟨fileName, hfile, hbytes⟩ := hinstalled.sounds (Literal.sounding 4 "ding.wav".toList) List.mem_cons_self
      "ding.wav".toList List.mem_cons_self (Literal.dingRecord "2-ding.wav".toList 2, [2]) rfl
    cases hfile
    cases hbytes
  · intro record hrecord
    obtain rfl := List.mem_singleton.mp hrecord
    exact ⟨[1], rfl, rfl⟩

end Stonemite.Triggers
