import Stonemite.Trigger.Package
import Stonemite.Trigger.Committed
import Stonemite.Lib.Reach

/-!
# What a package shares

The folders and triggers of a selection, their dependencies, and what an import of the package finds. `Manifest.Of` says
what an export collects, `Importable` what an import lets through; `RoundTrip` is then read off the imported manifest in
`package_round_trip`.
-/

open Std Relation

namespace Stonemite.Triggers

variable {P : Platform} {library : NativeLibrary P} {codec : Codec P} {store : Option (Str → Option (List UInt8))}
  {folderIds : List FolderId} {triggerIds : List TriggerId} {fuel : Nat} {manifest : Manifest P}

/-! ### Folders of a selection -/

def NativeLibrary.IsChild (library : NativeLibrary P) (parent child : FolderId) : Prop :=
  ∃ folder ∈ library.folders, folder.parent = some parent ∧ folder.id = child

/-- The folder is in the subtree of a selected one. -/
def InSelection (library : NativeLibrary P) (folderIds : List FolderId) (folder : FolderId) : Prop :=
  ∃ selected ∈ folderIds, ReflTransGen library.IsChild selected folder

/-- The trigger is selected, or in a folder that is. -/
def Shares (library : NativeLibrary P) (folderIds : List FolderId) (triggerIds : List TriggerId)
    (trigger : NativeTrigger P) : Prop :=
  trigger.id ∈ triggerIds ∨ ∃ home, trigger.folder = some home ∧ InSelection library folderIds home

/-- A trigger of the package is in the folder or below it. -/
def AboveShared (library : NativeLibrary P) (folderIds : List FolderId) (triggerIds : List TriggerId)
    (folder : FolderId) : Prop :=
  ∃ trigger ∈ library.triggers, Shares library folderIds triggerIds trigger ∧ ∃ home, trigger.folder = some home ∧
    ReflTransGen (fun a b => library.parentOf a = some b) home folder

/-- The folders under one, in the order of the library. -/
def childrenOf (folders : List Folder) (parent : FolderId) : List FolderId :=
  (folders.filter fun folder => folder.parent = some parent).map (·.id)

theorem foldl_children (folders : List Folder) (parent : FolderId) (result : List FolderId) :
    folders.foldl (fun result child =>
        if child.parent = some parent ∧ child.id ∉ result then result ++ [child.id] else result) result =
      extendNew id result (childrenOf folders parent) := by
  induction folders generalizing result with
  | nil => rfl
  | cons folder folders ih =>
    rw [List.foldl_cons, ih]
    by_cases hp : folder.parent = some parent
    · have hcons : childrenOf (folder :: folders) parent = folder.id :: childrenOf folders parent := by
        rw [childrenOf, List.filter_cons_of_pos (by simpa using hp)]
        rfl
      rw [hcons, show extendNew id result (folder.id :: _) = extendNew id (pushNew id result folder.id) _ from rfl, pushNew]
      by_cases hm : folder.id ∈ result
      · rw [if_neg fun h => h.2 hm, if_pos (by simpa using hm)]
      · rw [if_pos ⟨hp, hm⟩, if_neg (by simpa using hm)]
    · rw [if_neg fun h => hp h.1, childrenOf, childrenOf, List.filter_cons_of_neg (by simpa using hp)]

theorem subtreeLoop_eq (folders : List Folder) (cursor : Nat) (result : List FolderId) :
    TriggerLibrary.subtreeLoop folders fuel cursor result = search (childrenOf folders) fuel cursor result := by
  induction fuel generalizing cursor result with
  | zero => rfl
  | succ fuel ih =>
    rw [TriggerLibrary.subtreeLoop, search]
    cases result[cursor]? with
    | none => rfl
    | some parent =>
      dsimp only
      rw [foldl_children, ih]

theorem mem_folderSubtree {folder selected : FolderId} :
    folder ∈ library.folderSubtree selected ↔ ReflTransGen library.IsChild selected folder := by
  have hchild : (fun a b => b ∈ childrenOf (library.folders.map (·.toFolder)) a) = library.IsChild := by
    ext a b
    simp only [childrenOf, NativeLibrary.IsChild, List.mem_map, List.mem_filter, decide_eq_true_eq]
    constructor
    · rintro ⟨_, ⟨⟨folder, hf, rfl⟩, hp⟩, rfl⟩
      exact ⟨folder, hf, hp, rfl⟩
    · rintro ⟨folder, hf, hp, rfl⟩
      exact ⟨_, ⟨⟨folder, hf, rfl⟩, hp⟩, rfl⟩
  have hids : ∀ a, childrenOf (library.folders.map (·.toFolder)) a ⊆ library.folders.map (·.id) := by
    intro a b hb
    have hb' : library.IsChild a b := by rwa [← hchild]
    obtain ⟨folder, hf, -, rfl⟩ := hb'
    exact List.mem_map_of_mem hf
  rw [NativeLibrary.folderSubtree, subtreeLoop_eq, mem_search hids (by simp), hchild]

theorem mem_selectedFolders {folder : FolderId} :
    folder ∈ library.selectedFolders folderIds ↔ InSelection library folderIds folder := by
  rw [NativeLibrary.selectedFolders, mem_extendNew_id, List.mem_flatMap, InSelection]
  simp only [List.not_mem_nil, false_or, mem_folderSubtree]

theorem mem_selectedTriggers {trigger : NativeTrigger P} :
    trigger ∈ library.selectedTriggers (library.selectedFolders folderIds) triggerIds ↔
      trigger ∈ library.triggers ∧ Shares library folderIds triggerIds trigger := by
  simp only [NativeLibrary.selectedTriggers, List.mem_filter, Bool.or_eq_true, List.contains_iff_mem, Option.any_eq_true,
    mem_selectedFolders, Shares]

/-! ### Ancestors -/

theorem ancestorsLoop_eq (cursor : Option FolderId) (folders : List FolderId) :
    ancestorsLoop library fuel cursor folders = (climb library.parentOf fuel cursor).map (extendNew id folders) := by
  induction fuel generalizing cursor folders with
  | zero => cases cursor <;> rfl
  | succ fuel ih =>
    cases cursor with
    | none => rfl
    | some folder =>
      rw [ancestorsLoop, climb, ih, Option.map_map]
      rfl

theorem parentOf_mem {a b : FolderId} (h : library.parentOf a = some b) : a ∈ library.folders.map (·.id) := by
  obtain ⟨folder, hf, -⟩ := Option.bind_eq_some_iff.mp h
  exact List.mem_map.mpr ⟨folder, List.mem_of_find?_eq_some hf, by simpa using List.find?_some hf⟩

theorem mem_withAncestors {triggers : List (NativeTrigger P)} {folders result : List FolderId}
    (h : withAncestors library fuel triggers folders = some result) (folder : FolderId) :
    folder ∈ result ↔ folder ∈ folders ∨ ∃ trigger ∈ triggers, ∃ home, trigger.folder = some home ∧
      ReflTransGen (fun a b => library.parentOf a = some b) home folder := by
  induction triggers generalizing folders with
  | nil =>
    cases h
    simp
  | cons trigger triggers ih =>
    rw [withAncestors, List.foldlM_cons, ancestorsLoop_eq] at h
    obtain ⟨folders', hascent, hresult⟩ := Option.bind_eq_some_iff.mp h
    obtain ⟨path, hpath, rfl⟩ := Option.map_eq_some_iff.mp hascent
    have hpathmem : folder ∈ path ↔ ∃ home, trigger.folder = some home ∧
        ReflTransGen (fun a b => library.parentOf a = some b) home folder := by
      cases hhome : trigger.folder with
      | none =>
        rw [hhome] at hpath
        cases fuel <;> cases hpath <;> simp
      | some home =>
        rw [hhome] at hpath
        rw [mem_climb hpath]
        simp
    rw [ih hresult, mem_extendNew_id, hpathmem, or_assoc]
    simp only [List.mem_cons, exists_eq_or_imp]

theorem withAncestors_isSome (hfuel : library.folders.length < fuel) {triggers : List (NativeTrigger P)}
    (hfree : ∀ trigger ∈ triggers, ∀ home, trigger.folder = some home → ¬ UnderCycle library.parentOf home)
    (folders : List FolderId) : ∃ result, withAncestors library fuel triggers folders = some result := by
  induction triggers generalizing folders with
  | nil => exact ⟨folders, rfl⟩
  | cons trigger triggers ih =>
    have hfuel' : (library.folders.map (·.id)).length < fuel := by rwa [List.length_map]
    obtain ⟨path, hpath⟩ := Option.isSome_iff_exists.mp
      (climb_isSome (fun _ _ => parentOf_mem) hfuel' fun home hhome => hfree trigger List.mem_cons_self home hhome)
    obtain ⟨result, hresult⟩ := ih (fun t ht => hfree t (List.mem_cons_of_mem _ ht)) (extendNew id folders path)
    refine ⟨result, ?_⟩
    rw [withAncestors, List.foldlM_cons, ancestorsLoop_eq, hpath]
    exact hresult

theorem not_underCycle_of_withAncestors {triggers : List (NativeTrigger P)} {folders result : List FolderId}
    (h : withAncestors library fuel triggers folders = some result) :
    ∀ trigger ∈ triggers, ∀ home, trigger.folder = some home → ¬ UnderCycle library.parentOf home := by
  induction triggers generalizing folders with
  | nil =>
    intro t ht
    cases ht
  | cons trigger triggers ih =>
    rw [withAncestors, List.foldlM_cons, ancestorsLoop_eq] at h
    obtain ⟨folders', hpath, hresult⟩ := Option.bind_eq_some_iff.mp h
    intro t ht home hhome
    rcases List.mem_cons.mp ht with rfl | ht
    · intro hcycle
      rw [hhome, hcycle.climb_eq_none] at hpath
      cases hpath
    · exact ih hresult t ht home hhome

/-! ### The manifest -/

/-- The overlays of the kind in the manifest. -/
def Manifest.presets (manifest : Manifest P) : OverlayRole → List (OverlayPreset P)
  | .text => manifest.textOverlays.map (·.toOverlayPreset)
  | .timer => manifest.timerOverlays.map (·.toOverlayPreset)

open Classical in
/-- The manifest of a selection. -/
structure Manifest.Of (manifest : Manifest P) (library : NativeLibrary P) (folderIds : List FolderId)
    (triggerIds : List TriggerId) : Prop where
  format : manifest.format = packageFormat
  version : manifest.version = formatVersion
  folders : manifest.folders = library.folders.filter fun folder =>
    InSelection library folderIds folder.id ∨ AboveShared library folderIds triggerIds folder.id
  triggers : manifest.triggers = library.triggers.filter (Shares library folderIds triggerIds ·)
  presets : ∀ role preset, preset ∈ manifest.presets role ↔
    preset ∈ library.presets role ∧ ∃ trigger ∈ manifest.triggers, preset.id ∈ trigger.overlays role
  assets : manifest.assets = library.dependentMedia manifest.triggers

theorem exportManifest_eq_some (hacyclic : Acyclic library.parentOf) (hfuel : library.folders.length < fuel) :
    ∃ manifest, exportManifest fuel library folderIds triggerIds = some manifest ∧
      manifest.Of library folderIds triggerIds := by
  classical
  obtain ⟨folders, hfolders⟩ := withAncestors_isSome hfuel (fun _ _ _ _ => not_underCycle hacyclic)
    (library.selectedFolders folderIds)
  have hmem := mem_withAncestors hfolders
  rw [exportManifest, hfolders]
  refine ⟨_, rfl, rfl, rfl, ?_, ?_, ?_, rfl⟩
  · refine List.filter_congr fun folder _ => ?_
    rw [Bool.eq_iff_iff, List.contains_iff_mem, hmem, decide_eq_true_iff, mem_selectedFolders]
    refine or_congr_right ?_
    simp only [mem_selectedTriggers, AboveShared, and_assoc]
  · refine List.filter_congr fun trigger ht => ?_
    have hmem : trigger ∈ library.selectedTriggers (library.selectedFolders folderIds) triggerIds ↔
        trigger ∈ library.triggers ∧ Shares library folderIds triggerIds trigger := mem_selectedTriggers
    rw [NativeLibrary.selectedTriggers, List.mem_filter, and_iff_right ht, and_iff_right ht] at hmem
    rw [Bool.eq_iff_iff, hmem, decide_eq_true_iff]
  · intro role preset
    cases role <;>
      simp only [Manifest.presets, NativeLibrary.presets, NativeTrigger.overlays, List.mem_map, List.mem_filter,
        List.any_eq_true, List.contains_iff_mem]
    · constructor
      · rintro ⟨p, ⟨hp, ht⟩, rfl⟩
        exact ⟨⟨p, hp, rfl⟩, ht⟩
      · rintro ⟨⟨p, hp, rfl⟩, ht⟩
        exact ⟨p, ⟨hp, ht⟩, rfl⟩
    · constructor
      · rintro ⟨p, ⟨hp, ht⟩, rfl⟩
        exact ⟨⟨p, hp, rfl⟩, ht⟩
      · rintro ⟨⟨p, hp, rfl⟩, ht⟩
        exact ⟨p, ⟨hp, ht⟩, rfl⟩

theorem dependentMedia_nodup (triggers : List (NativeTrigger P)) :
    ((library.dependentMedia triggers).map (·.fileName)).Nodup :=
  nodup_key_extendNew List.nodup_nil

/-- The record of a sound is in the manifest if its file is no other record's. -/
theorem mem_dependentMedia {triggers : List (NativeTrigger P)} {trigger : NativeTrigger P} {sound : Str}
    {record : AssetRecord} (ht : trigger ∈ triggers) (hsound : sound ∈ soundRefs trigger)
    (hrecord : library.asset sound = some record)
    (halone : ∀ other ∈ library.assets, other.fileName = record.fileName → other = record) :
    record ∈ library.dependentMedia triggers := by
  have hin : record ∈ (triggers.flatMap soundRefs).filterMap library.asset :=
    List.mem_filterMap.mpr ⟨sound, List.mem_flatMap.mpr ⟨trigger, ht, hsound⟩, hrecord⟩
  have hkey : ∃ other ∈ library.dependentMedia triggers, other.fileName = record.fileName :=
    key_extendNew.mpr (.inr ⟨record, hin, rfl⟩)
  obtain ⟨other, hother, hname⟩ := hkey
  rcases mem_extendNew.mp hother with h | ⟨index, h⟩
  · cases h
  · obtain ⟨sound', -, hsound'⟩ := List.mem_filterMap.mp (List.mem_of_getElem? h.here)
    rwa [← halone other (List.mem_of_find?_eq_some hsound') hname]

/-! ### The import -/

/-- What the import of a package asks of its entries. -/
structure Importable (entries : List Entry) : Prop where
  count : entries.length ≤ maxEntries
  names : ∀ entry ∈ entries, validateEntryName entry.name = .ok ()
  sizes : ∀ entry ∈ entries, entry.size ≤ maxEntryBytes
  total : (entries.map (·.size)).sum ≤ maxTotalBytes

theorem readEntry_of_valid (codec : Codec P) (reading : Reading P) (entry : Entry) (hname : validateEntryName entry.name = .ok ())
    (hsize : entry.size ≤ maxEntryBytes) (hlength : entry.bytes.length = entry.size)
    (htotal : reading.total + entry.size ≤ maxTotalBytes) :
    readEntry codec reading entry =
      if entry.name = "manifest.json".toList then
        match codec.decode entry.bytes with
        | .error error => .error ("invalid manifest: ".toList ++ error)
        | .ok parsed =>
          if parsed.format ≠ packageFormat then .error "this is not a Stonemite trigger package".toList
          else .ok { reading with manifest := some parsed, total := reading.total + entry.size }
      else if "assets/".toList.isPrefixOf entry.name then
        .ok { reading with
          assetBytes := reading.assetBytes ++ [(entry.name.drop 7, entry.bytes)]
          total := reading.total + entry.size }
      else .ok { reading with total := reading.total + entry.size } := by
  have hmin : min (reading.total + entry.size) (2 ^ 64 - 1) = reading.total + entry.size := by
    rw [maxTotalBytes] at htotal
    omega
  have htake : entry.bytes.take (maxEntryBytes + 1) = entry.bytes := List.take_of_length_le (by omega)
  rw [readEntry, hname, hmin, htake]
  show (if _ then _ else _) = _
  exact (if_neg (by omega)).trans ((if_neg (by omega)).trans (if_neg (by omega)))

/-- The bytes of the media are collected under their file names. -/
theorem foldlM_readEntry_media (codec : Codec P) (store : Option (Str → Option (List UInt8))) (reading : Reading P)
    (records : List AssetRecord)
    (hnames : ∀ entry ∈ records.filterMap (mediaEntry store), validateEntryName entry.name = .ok ())
    (hsizes : ∀ entry ∈ records.filterMap (mediaEntry store), entry.size ≤ maxEntryBytes)
    (htotal : reading.total + ((records.filterMap (mediaEntry store)).map (·.size)).sum ≤ maxTotalBytes) :
    ∃ total, (records.filterMap (mediaEntry store)).foldlM (readEntry codec) reading =
      .ok { reading with
        assetBytes := reading.assetBytes ++ records.filterMap fun record =>
          (store.bind fun read => read record.fileName).map fun bytes => (record.fileName, bytes)
        total := total } := by
  induction records generalizing reading with
  | nil => exact ⟨reading.total, by rw [List.filterMap_nil, List.filterMap_nil, List.append_nil]; rfl⟩
  | cons record records ih =>
    cases hread : store.bind fun read => read record.fileName with
    | none =>
      have hnone : mediaEntry store record = none := by rw [mediaEntry, hread]; rfl
      rw [List.filterMap_cons_none hnone] at hnames hsizes htotal ⊢
      rw [List.filterMap_cons_none (by rw [hread]; rfl)]
      exact ih reading hnames hsizes htotal
    | some bytes =>
      have hsome : mediaEntry store record = some ⟨"assets/".toList ++ record.fileName, bytes.length, bytes⟩ := by
        rw [mediaEntry, hread]; rfl
      rw [List.filterMap_cons_some hsome] at hnames hsizes htotal ⊢
      rw [List.filterMap_cons_some (by rw [hread]; rfl)]
      rw [List.map_cons, List.sum_cons] at htotal
      obtain ⟨total, h⟩ := ih
        ⟨reading.manifest, reading.assetBytes ++ [(record.fileName, bytes)], reading.total + bytes.length⟩
        (fun entry he => hnames entry (List.mem_cons_of_mem _ he)) (fun entry he => hsizes entry (List.mem_cons_of_mem _ he))
        (by simpa [Nat.add_assoc] using htotal)
      refine ⟨total, ?_⟩
      rw [List.foldlM_cons, readEntry_of_valid codec reading _ (hnames _ List.mem_cons_self) (hsizes _ List.mem_cons_self) rfl
        (by dsimp only at htotal ⊢; omega)]
      rw [if_neg (by simp), if_pos (by simp)]
      refine Eq.trans ?_ (h.trans ?_)
      · rfl
      · simp [List.append_assoc]

/-- The bytes of the records whose files can be read. -/
def mediaBytes (store : Option (Str → Option (List UInt8))) (records : List AssetRecord) : List (Str × List UInt8) :=
  records.filterMap fun record =>
    (store.bind fun read => read record.fileName).map fun bytes => (record.fileName, bytes)

theorem importPackage_of_count {entries : List Entry} (h : entries.length ≤ maxEntries) :
    importPackage codec entries = entries.foldlM (readEntry codec) ⟨none, [], 0⟩ >>= fun reading =>
      match reading.manifest with
      | none => .error "the package has no manifest.json".toList
      | some manifest => .ok (manifest.imported codec reading.assetBytes) := by
  unfold importPackage
  exact if_neg (Nat.not_lt.mpr h)

theorem importPackage_entries (hformat : manifest.format = packageFormat)
    (hjson : codec.decode (codec.encode manifest) = .ok manifest) (hi : Importable (manifest.entries codec store)) :
    importPackage codec (manifest.entries codec store) =
      .ok (manifest.imported codec (mediaBytes store manifest.assets)) := by
  have htotal := hi.total
  have hsizes := hi.sizes
  have hnames := hi.names
  rw [Manifest.entries] at htotal hsizes hnames
  rw [List.map_cons, List.sum_cons] at htotal
  dsimp only at htotal
  obtain ⟨total, hfold⟩ := foldlM_readEntry_media codec store
    ⟨some manifest, [], (codec.encode manifest).length⟩ manifest.assets
    (fun entry he => hnames entry (List.mem_cons_of_mem _ he)) (fun entry he => hsizes entry (List.mem_cons_of_mem _ he))
    htotal
  have hname : (⟨"manifest.json".toList, (codec.encode manifest).length, codec.encode manifest⟩ : Entry).name =
      "manifest.json".toList := rfl
  have hread : readEntry codec ⟨none, [], 0⟩
      ⟨"manifest.json".toList, (codec.encode manifest).length, codec.encode manifest⟩ =
      .ok ⟨some manifest, [], (codec.encode manifest).length⟩ := by
    have hfirst : 0 + (codec.encode manifest).length ≤ maxTotalBytes := by omega
    rw [readEntry_of_valid codec ⟨none, [], 0⟩ _ (hnames _ List.mem_cons_self) (hsizes _ List.mem_cons_self) rfl hfirst,
      if_pos hname]
    dsimp only
    rw [hjson]
    dsimp only
    rw [if_neg (by rw [hformat]; exact fun h => h rfl), Nat.zero_add]
  rw [importPackage_of_count hi.count, Manifest.entries, List.foldlM_cons, hread]
  exact bind_eq_ok.mpr ⟨_, hfold, rfl⟩

/-- A record of the manifest is imported with the bytes of its file if they have its digest. -/
theorem mem_imported_assets {record : AssetRecord} {read : Str → Option (List UInt8)} {bytes : List UInt8}
    (hrecord : record ∈ manifest.assets) (hread : read record.fileName = some bytes)
    (hdigest : codec.digest bytes = record.sha256) :
    (record, bytes) ∈ (manifest.imported codec (mediaBytes (some read) manifest.assets)).assets := by
  refine List.mem_filterMap.mpr ⟨record, hrecord, ?_⟩
  have hfound : (mediaBytes (some read) manifest.assets).find? (fun asset => asset.1 = record.fileName) =
      some (record.fileName, bytes) := by
    have hmem : (record.fileName, bytes) ∈ mediaBytes (some read) manifest.assets :=
      List.mem_filterMap.mpr ⟨record, hrecord, by rw [Option.bind_some, hread]; rfl⟩
    have hsome : ((mediaBytes (some read) manifest.assets).find? fun asset => asset.1 = record.fileName).isSome :=
      List.find?_isSome.mpr ⟨_, hmem, decide_eq_true rfl⟩
    obtain ⟨found, hfound⟩ := Option.isSome_iff_exists.mp hsome
    obtain ⟨other, -, hother⟩ := List.mem_filterMap.mp (List.mem_of_find?_eq_some hfound)
    have hname : found.1 = record.fileName := by simpa using List.find?_some hfound
    obtain ⟨bytes', hbytes', rfl⟩ := Option.map_eq_some_iff.mp hother
    dsimp only at hname
    rw [hname, Option.bind_some, hread, Option.some_inj] at hbytes'
    rw [hfound, hname, hbytes']
  rw [importAsset, hfound]
  dsimp only
  rw [if_pos hdigest]
  rfl

/-! ### The round trip -/

/-- The overlays of the kind in the import. -/
def PackageImport.presets (imported : PackageImport P) : OverlayRole → List (OverlayPreset P)
  | .text => imported.textOverlays.map (·.toOverlayPreset)
  | .timer => imported.timerOverlays.map (·.toOverlayPreset)

/-- The folder of a selection is below another selected folder, or a trigger of the package is in it or below it. -/
def HasParent (library : NativeLibrary P) (folderIds : List FolderId) (triggerIds : List TriggerId)
    (folder : FolderId) : Prop :=
  (∃ selected ∈ folderIds, selected ≠ folder ∧ ReflTransGen library.IsChild selected folder) ∨
    AboveShared library folderIds triggerIds folder

open Classical in
/-- What the import of a package of the selection finds. -/
structure RoundTrip (codec : Codec P) (library : NativeLibrary P) (store : Option (Str → Option (List UInt8)))
    (folderIds : List FolderId) (triggerIds : List TriggerId) (imported : PackageImport P) : Prop where
  folders : imported.folders = library.folders.filter fun folder =>
    InSelection library folderIds folder.id ∨ AboveShared library folderIds triggerIds folder.id
  triggers : imported.triggers =
    (library.triggers.filter (Shares library folderIds triggerIds ·)).map NativeTrigger.disabled
  folderRefs : ∀ trigger ∈ imported.triggers, ∀ home, trigger.folder = some home →
    (∃ folder ∈ library.folders, folder.id = home) → ∃ folder ∈ imported.folders, folder.id = home
  parentRefs : ∀ folder ∈ imported.folders, (∀ other ∈ library.folders, other.id = folder.id → other = folder) →
    HasParent library folderIds triggerIds folder.id → ∀ parent, folder.parent = some parent →
      (∃ record ∈ library.folders, record.id = parent) → ∃ record ∈ imported.folders, record.id = parent
  overlayRefs : ∀ role, ∀ trigger ∈ imported.triggers, ∀ id ∈ trigger.overlays role,
    (∃ preset ∈ library.presets role, preset.id = id) → ∃ preset ∈ imported.presets role, preset.id = id
  mediaRefs : ∀ trigger ∈ imported.triggers, ∀ sound ∈ soundRefs trigger, ∀ record, library.asset sound = some record →
    (∀ other ∈ library.assets, other.fileName = record.fileName → other = record) →
      ∀ read, store = some read → ∀ bytes, read record.fileName = some bytes → codec.digest bytes = record.sha256 →
        (record, bytes) ∈ imported.assets

@[simp] theorem NativeTrigger.disabled_folder (trigger : NativeTrigger P) : trigger.disabled.folder = trigger.folder :=
  rfl

@[simp] theorem NativeTrigger.disabled_overlays (trigger : NativeTrigger P) (role : OverlayRole) :
    trigger.disabled.overlays role = trigger.overlays role := by
  cases role <;> rfl

@[simp] theorem soundRefs_disabled (trigger : NativeTrigger P) : soundRefs trigger.disabled = soundRefs trigger := rfl

theorem HasParent.parent {folder : NativeFolder} (h : HasParent library folderIds triggerIds folder.id)
    (hf : folder ∈ library.folders) (halone : ∀ other ∈ library.folders, other.id = folder.id → other = folder)
    {parent : FolderId} (hp : folder.parent = some parent) :
    InSelection library folderIds parent ∨ AboveShared library folderIds triggerIds parent := by
  rcases h with ⟨selected, hs, hne, hreach⟩ | ⟨trigger, ht, hshares, home, hhome, hreach⟩
  · left
    rcases Relation.ReflTransGen.cases_tail hreach with heq | ⟨above, habove, record, hr, hrp, hid⟩
    · exact absurd heq.symm hne
    · obtain rfl := halone record hr hid
      rw [hp, Option.some_inj] at hrp
      exact ⟨selected, hs, hrp ▸ habove⟩
  · right
    refine ⟨trigger, ht, hshares, home, hhome, hreach.tail ?_⟩
    have hfound : library.folder folder.id = some folder := by
      have hsome : (library.folder folder.id).isSome := List.find?_isSome.mpr ⟨folder, hf, decide_eq_true rfl⟩
      obtain ⟨record, hrecord⟩ := Option.isSome_iff_exists.mp hsome
      have hid : record.id = folder.id := by simpa using List.find?_some hrecord
      rw [hrecord, halone record (List.mem_of_find?_eq_some hrecord) hid]
    rw [NativeLibrary.parentOf, hfound]
    exact hp

theorem Manifest.Of.roundTrip (hm : manifest.Of library folderIds triggerIds) :
    RoundTrip codec library store folderIds triggerIds
      (manifest.imported codec (mediaBytes store manifest.assets)) := by
  classical
  have hshares : ∀ trigger ∈ manifest.triggers, trigger ∈ library.triggers ∧ Shares library folderIds triggerIds trigger := by
    intro trigger ht
    rw [hm.triggers, List.mem_filter, decide_eq_true_iff] at ht
    exact ht
  have hfolder : ∀ id, InSelection library folderIds id ∨ AboveShared library folderIds triggerIds id →
      (∃ folder ∈ library.folders, folder.id = id) → ∃ folder ∈ manifest.folders, folder.id = id := by
    rintro _ h ⟨folder, hf, rfl⟩
    rw [hm.folders]
    exact ⟨folder, List.mem_filter.mpr ⟨hf, decide_eq_true h⟩, rfl⟩
  refine ⟨hm.folders, congrArg (List.map NativeTrigger.disabled) hm.triggers, ?_, ?_, ?_, ?_⟩
  · intro _ himported home hhome hin
    obtain ⟨trigger, ht, rfl⟩ := List.mem_map.mp himported
    obtain ⟨hlib, hs⟩ := hshares trigger ht
    exact hfolder home (.inr ⟨trigger, hlib, hs, home, hhome, .refl⟩) hin
  · intro folder hf halone hparent parent hp hin
    have hlib : folder ∈ library.folders := by
      have hf' : folder ∈ manifest.folders := hf
      rw [hm.folders] at hf'
      exact (List.mem_filter.mp hf').1
    exact hfolder parent (hparent.parent hlib halone hp) hin
  · rintro role _ himported id hid ⟨preset, hp, rfl⟩
    obtain ⟨trigger, ht, rfl⟩ := List.mem_map.mp himported
    rw [NativeTrigger.disabled_overlays] at hid
    have hmem := (hm.presets role preset).mpr ⟨hp, trigger, ht, hid⟩
    exact ⟨preset, by cases role <;> exact hmem, rfl⟩
  · rintro _ himported sound hsound record hrecord halone read rfl bytes hbytes hdigest
    obtain ⟨trigger, ht, rfl⟩ := List.mem_map.mp himported
    refine mem_imported_assets ?_ hbytes hdigest
    rw [hm.assets]
    exact mem_dependentMedia ht hsound hrecord halone

/-- A package that the import's limits let through is imported as the selection with its ancestors. -/
theorem package_round_trip (codec : Codec P) (fuel : Nat) (library : NativeLibrary P)
    (store : Option (Str → Option (List UInt8))) (folderIds : List FolderId) (triggerIds : List TriggerId)
    (hacyclic : Acyclic library.parentOf) (hfuel : library.folders.length < fuel)
    (hjson : ∀ manifest, exportManifest fuel library folderIds triggerIds = some manifest →
      codec.decode (codec.encode manifest) = .ok manifest) :
    ∃ entries, exportPackage codec fuel library store folderIds triggerIds = some entries ∧
      (Importable entries → ∃ imported, importPackage codec entries = .ok imported ∧
        RoundTrip codec library store folderIds triggerIds imported) := by
  obtain ⟨manifest, hmanifest, hm⟩ := exportManifest_eq_some hacyclic hfuel
  refine ⟨manifest.entries codec store, by rw [exportPackage, hmanifest]; rfl, fun hi => ⟨_, ?_, hm.roundTrip⟩⟩
  exact importPackage_entries hm.format (hjson manifest hmanifest) hi

theorem acyclic_parentOf (h : ∀ folder ∈ library.folders, ∀ parent ∈ folder.parent, parent < folder.id) :
    Acyclic library.parentOf := by
  refine acyclic_of_lt id fun child parent hchild => ?_
  obtain ⟨folder, hfolder, hparent⟩ := Option.bind_eq_some_iff.mp hchild
  have hid : folder.id = child := by simpa using List.find?_some hfolder
  exact hid ▸ h folder (List.mem_of_find?_eq_some hfolder) parent hparent

namespace Literal

/-- A codec for one manifest. -/
def codecOf (manifest : Manifest platform) : Codec platform where
  encode _ := [0]
  decode _ := .ok manifest
  digest _ := []

/-- The package of one selected trigger, with the folder that it is in. -/
def packManifest : Manifest platform where
  format := packageFormat
  version := formatVersion
  folders := [pack]
  triggers := [record 2 (some 1) []]
  textOverlays := []
  timerOverlays := []
  assets := []

theorem packLibrary_acyclic : Acyclic packLibrary.parentOf := acyclic_parentOf (by decide)

theorem packManifest_imported : importPackage (codecOf packManifest) (packManifest.entries (codecOf packManifest) none) =
    .ok (packManifest.imported (codecOf packManifest) []) := rfl

/-- A folder in another one. -/
def nested : NativeFolder where
  id := 3
  parent := some 1
  name := "Raids".toList
  index := 0
  expanded := true

def nestedLibrary : NativeLibrary platform := ⟨[pack, nested], [], [], [], [], []⟩

/-- The package of the inner folder. -/
def nestedManifest : Manifest platform where
  format := packageFormat
  version := formatVersion
  folders := [nested]
  triggers := []
  textOverlays := []
  timerOverlays := []
  assets := []

/-- A trigger that plays a sound. -/
def sounding (id : TriggerId) (sound : Str) : NativeTrigger platform :=
  { record id none [] with sound := some sound }

def ding (name fileName : Str) : AssetRecord := ⟨name, fileName, [], 1⟩

/-- Two names of one file. -/
def mediaLibrary : NativeLibrary platform where
  folders := []
  triggers := [sounding 4 "a b.wav".toList, sounding 5 "a_b.wav".toList]
  profiles := []
  textOverlays := []
  timerOverlays := []
  assets := [ding "a b.wav".toList "0-a_b.wav".toList, ding "a_b.wav".toList "0-a_b.wav".toList]

/-- The manifest of the triggers with their sounds. -/
def mediaManifest : Manifest platform where
  format := packageFormat
  version := formatVersion
  folders := []
  triggers := mediaLibrary.triggers
  textOverlays := []
  timerOverlays := []
  assets := [ding "a b.wav".toList "0-a_b.wav".toList]

/-- A file whose name the import takes for a traversal. -/
def dottedLibrary : NativeLibrary platform where
  folders := []
  triggers := [sounding 6 "a..wav".toList]
  profiles := []
  textOverlays := []
  timerOverlays := []
  assets := [ding "a..wav".toList "0-a..wav".toList]

/-- The manifest of a sound whose name has two dots. -/
def dottedManifest : Manifest platform where
  format := packageFormat
  version := formatVersion
  folders := []
  triggers := dottedLibrary.triggers
  textOverlays := []
  timerOverlays := []
  assets := dottedLibrary.assets

/-- A store in which every file can be read. -/
def readable : Option (Str → Option (List UInt8)) := some fun _ => some [7]

/-- A trigger in the inner folder with an overlay and a sound. -/
def raidTrigger : NativeTrigger platform := { record 7 (some 3) [3] with sound := some "ding.wav".toList }

/-- The record of its sound, under the digest of the file. -/
def raidDing : AssetRecord := ⟨"ding.wav".toList, "0-ding.wav".toList, [Char.ofNat 7], 1⟩

/-- Two folders with the trigger in the inner one, and a trigger at the root. -/
def raidLibrary : NativeLibrary platform where
  folders := [pack, nested]
  triggers := [raidTrigger, record 2 none []]
  profiles := []
  textOverlays := [overlayA 3]
  timerOverlays := []
  assets := [raidDing]

/-- The package of the outer folder. -/
def raidManifest : Manifest platform where
  format := packageFormat
  version := formatVersion
  folders := [pack, nested]
  triggers := [raidTrigger]
  textOverlays := [overlayA 3]
  timerOverlays := []
  assets := [raidDing]

/-- A codec for the manifest, with the bytes of a file for their own digest. -/
def raidCodec : Codec platform :=
  { codecOf raidManifest with digest := fun bytes => bytes.map fun byte => Char.ofNat byte.toNat }

theorem raidLibrary_exported : exportManifest 3 raidLibrary [1] [] = some raidManifest := rfl

theorem raidManifest_imported : importPackage raidCodec (raidManifest.entries raidCodec readable) =
    .ok (raidManifest.imported raidCodec [("0-ding.wav".toList, [7])]) := rfl

theorem raidLibrary_acyclic : Acyclic raidLibrary.parentOf := acyclic_parentOf (by decide)

end Literal

/-- The selected folder is imported with the folder in it, the trigger there, and the overlay and the sound that it refers to. -/
theorem package_round_trip_raid :
    ∃ imported, importPackage Literal.raidCodec (Literal.raidManifest.entries Literal.raidCodec Literal.readable) = .ok imported ∧
      RoundTrip Literal.raidCodec Literal.raidLibrary Literal.readable [1] [] imported ∧
      imported.folders = [Literal.pack, Literal.nested] ∧ imported.triggers = [Literal.raidTrigger.disabled] ∧
      (∃ preset ∈ imported.presets .text, preset.id = 3) ∧ (Literal.raidDing, [7]) ∈ imported.assets := by
  obtain ⟨entries, hexport, himport⟩ := package_round_trip Literal.raidCodec 3 Literal.raidLibrary Literal.readable [1] []
    Literal.raidLibrary_acyclic (by decide) fun manifest h => by
      rw [Literal.raidLibrary_exported] at h
      cases h
      rfl
  rw [exportPackage, Literal.raidLibrary_exported] at hexport
  obtain rfl := Option.some.inj hexport
  have himportable : Importable (Literal.raidManifest.entries Literal.raidCodec Literal.readable) := by
    refine ⟨by decide, fun entry hentry => ?_, by decide, by decide⟩
    obtain rfl | hentry := List.mem_cons.mp hentry
    · rfl
    · obtain rfl := List.mem_singleton.mp hentry
      rfl
  obtain ⟨imported, himported, hround⟩ := himport himportable
  obtain rfl : Literal.raidManifest.imported Literal.raidCodec [("0-ding.wav".toList, [7])] = imported := by
    rw [Literal.raidManifest_imported] at himported
    exact Except.ok.inj himported
  refine ⟨_, himported, hround, rfl, rfl, ?_, ?_⟩
  · exact hround.overlayRefs .text Literal.raidTrigger.disabled (List.mem_singleton.mpr rfl) 3 (List.mem_singleton.mpr rfl)
      ⟨_, List.mem_singleton.mpr rfl, rfl⟩
  · exact hround.mediaRefs Literal.raidTrigger.disabled (List.mem_singleton.mpr rfl) "ding.wav".toList
      (List.mem_singleton.mpr rfl) Literal.raidDing rfl (fun other hother _ => List.mem_singleton.mp hother) _ rfl [7] rfl rfl

/-- What keeps an import from being the selection, closed under references: the folder of a selected trigger comes with
it, the parent of a selected folder does not, media that share a file lose all names but one, and a dotted file name is
refused. -/
theorem package_differs :
    (∃ imported, exportManifest 2 Literal.packLibrary [] [2] = some Literal.packManifest ∧
      importPackage (Literal.codecOf Literal.packManifest)
        (Literal.packManifest.entries (Literal.codecOf Literal.packManifest) none) = .ok imported ∧
      ∃ folder ∈ imported.folders, ¬ InSelection Literal.packLibrary [] folder.id) ∧
    (∃ imported, exportManifest 3 Literal.nestedLibrary [3] [] = some Literal.nestedManifest ∧
      importPackage (Literal.codecOf Literal.nestedManifest)
        (Literal.nestedManifest.entries (Literal.codecOf Literal.nestedManifest) none) = .ok imported ∧
      Literal.nested ∈ imported.folders ∧ (∃ record ∈ Literal.nestedLibrary.folders, record.id = 1) ∧
      ∀ record ∈ imported.folders, record.id ≠ 1) ∧
    (∃ imported, exportManifest 1 Literal.mediaLibrary [] [4, 5] = some Literal.mediaManifest ∧
      importPackage (Literal.codecOf Literal.mediaManifest)
        (Literal.mediaManifest.entries (Literal.codecOf Literal.mediaManifest) Literal.readable) = .ok imported ∧
      Literal.mediaLibrary.asset "a_b.wav".toList = some (Literal.ding "a_b.wav".toList "0-a_b.wav".toList) ∧
      ∀ asset ∈ imported.assets, asset.1.name ≠ "a_b.wav".toList) ∧
    (∃ error, exportManifest 1 Literal.dottedLibrary [] [6] = some Literal.dottedManifest ∧
      importPackage (Literal.codecOf Literal.dottedManifest)
        (Literal.dottedManifest.entries (Literal.codecOf Literal.dottedManifest) Literal.readable) = .error error) := by
  refine ⟨⟨_, rfl, Literal.packManifest_imported, Literal.pack, List.mem_singleton.mpr rfl, ?_⟩,
    ⟨_, rfl, rfl, List.mem_singleton.mpr rfl, ⟨Literal.pack, List.mem_cons_self, rfl⟩, ?_⟩,
    ⟨_, rfl, rfl, rfl, ?_⟩, _, rfl, rfl⟩
  · rintro ⟨_, h, -⟩
    cases h
  · intro record hrecord
    obtain rfl := List.mem_singleton.mp hrecord
    decide
  · intro asset hasset
    obtain rfl := List.mem_singleton.mp hasset
    decide

end Stonemite.Triggers
