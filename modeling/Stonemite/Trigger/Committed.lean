import Stonemite.Trigger.Import
import Stonemite.Trigger.Literal

/-!
# What a committed import leaves

Which imports keep the ids of the library distinct, and which keep the references of the imported triggers. `Merged`
describes the saved library. For the ids `IdsApart` is the condition of `distinct_iff`; for the references `Survives`
says which overlays are taken, and `Anchored` and `Resolves` are the conditions of `references_kept_iff`.
-/

open Std

namespace Stonemite.Triggers

variable {P : Platform} {files : FileSystem P} {disk : files.State} {uuids : Nat → Nat} {library saved : NativeLibrary P}
  {parsed : ParsedImport P} {options : ImportOptions} {summary : ImportSummary}

/-! ### Roles -/

inductive OverlayRole
  | text
  | timer
deriving DecidableEq, Repr

/-- The overlays of the kind in the library. -/
def NativeLibrary.presets (library : NativeLibrary P) : OverlayRole → List (OverlayPreset P)
  | .text => library.textOverlays.map (·.toOverlayPreset)
  | .timer => library.timerOverlays.map (·.toOverlayPreset)

/-- The overlays of the kind in the import. -/
def ParsedImport.presets (parsed : ParsedImport P) : OverlayRole → List (OverlayPreset P)
  | .text => parsed.textOverlays.map (·.toOverlayPreset)
  | .timer => parsed.timerOverlays.map (·.toOverlayPreset)

/-- The overlays of the kind that the trigger names. -/
def NativeTrigger.overlays (trigger : NativeTrigger P) : OverlayRole → List OverlayId
  | .text => trigger.textOverlays
  | .timer => trigger.timerOverlays

/-! ### The merge -/

/-- The folder that takes what the import has at its root. -/
def ImportOptions.rootParent (options : ImportOptions) (uuids : Nat → Nat) (library : NativeLibrary P) :
    Option FolderId :=
  (options.wrapper uuids library).map (·.id)

/-- The triggers of the library that the import replaces. -/
def Replaces (uuids : Nat → Nat) (library : NativeLibrary P) (parsed : ParsedImport P) (options : ImportOptions)
    (existing : NativeTrigger P) : Prop :=
  options.replaceSameNames = true ∧ existing.folder = options.rootParent uuids library ∧
    ∃ trigger ∈ parsed.triggers, P.toLowercase trigger.name = P.toLowercase existing.name

instance : DecidablePred (Replaces uuids library parsed options) := fun _ => inferInstanceAs (Decidable (_ ∧ _ ∧ _))

/-- The lists of a library that was saved. -/
structure Merged (uuids : Nat → Nat) (library : NativeLibrary P) (parsed : ParsedImport P) (options : ImportOptions)
    (saved : NativeLibrary P) : Prop where
  folders : saved.folders = library.folders ++ (options.wrapper uuids library).toList ++
    parsed.folders.map (NativeFolder.reparent (options.rootParent uuids library))
  triggers : saved.triggers = library.triggers.filter (¬ Replaces uuids library parsed options ·) ++
    (parsed.triggers.map (NativeTrigger.enabledBy options.enable)).mapIdx
      (regenerate uuids (library.triggers.filter (¬ Replaces uuids library parsed options ·)))
  presets : ∀ role, saved.presets role =
    extendNew OverlayPreset.eqlpId (library.presets role) (parsed.presets role)
  assets : saved.assets = extendNew AssetRecord.fileName library.assets (parsed.assets.map (·.1))

theorem map_pushNew {α β κ : Type} [DecidableEq κ] (f : α → β) (key : β → κ) (known : List α) (a : α) :
    (pushNew (fun a => key (f a)) known a).map f = pushNew key (known.map f) (f a) := by
  rw [pushNew, pushNew, List.any_map]
  split_ifs with h h' h'
  · rfl
  · exact absurd h h'
  · exact absurd h' h
  · rw [List.map_append, List.map_singleton]

/-- Elements may be pushed for a key of what they are mapped to. -/
theorem map_extendNew {α β κ : Type} [DecidableEq κ] (f : α → β) (key : β → κ) (known incoming : List α) :
    (extendNew (fun a => key (f a)) known incoming).map f = extendNew key (known.map f) (incoming.map f) := by
  induction incoming generalizing known with
  | nil => rfl
  | cons a incoming ih =>
    rw [List.map_cons]
    simp only [extendNew, List.foldl_cons] at ih ⊢
    rw [ih, map_pushNew]

theorem installAsset_records {state state' : List AssetRecord × files.State} {asset : AssetRecord × List UInt8}
    (h : installAsset files state asset = .ok state') :
    state'.1 = pushNew AssetRecord.fileName state.1 asset.1 := by
  obtain ⟨-, -, h⟩ := bind_eq_ok.mp h
  obtain ⟨disk, -, h⟩ := bind_eq_ok.mp h
  cases h
  rfl

theorem foldlM_installAsset_records {state state' : List AssetRecord × files.State}
    {assets : List (AssetRecord × List UInt8)} (h : assets.foldlM (installAsset files) state = .ok state') :
    state'.1 = extendNew AssetRecord.fileName state.1 (assets.map (·.1)) := by
  induction assets generalizing state with
  | nil => cases h; rfl
  | cons asset assets ih =>
    rw [List.foldlM_cons] at h
    obtain ⟨state1, h1, h⟩ := bind_eq_ok.mp h
    rw [ih h, installAsset_records h1]
    rfl

theorem installAssets_records {state : List AssetRecord × files.State} {records : List AssetRecord}
    {assets : List (AssetRecord × List UInt8)} (h : installAssets files disk records assets = .ok state) :
    state.1 = extendNew AssetRecord.fileName records (assets.map (·.1)) := by
  obtain ⟨_, -, h⟩ := bind_eq_ok.mp h
  exact foldlM_installAsset_records h

theorem retained_eq (uuids : Nat → Nat) (library : NativeLibrary P) (parsed : ParsedImport P) (options : ImportOptions) :
    retained options (options.rootParent uuids library) library
      (parsed.triggers.map (NativeTrigger.enabledBy options.enable)) =
      library.triggers.filter (¬ Replaces uuids library parsed options ·) := by
  rw [retained]
  split_ifs with h
  · refine List.filter_congr fun existing _ => ?_
    have hnames : (parsed.triggers.map (NativeTrigger.enabledBy options.enable)).map
        (fun trigger => P.toLowercase trigger.name) = parsed.triggers.map fun trigger => P.toLowercase trigger.name := by
      rw [List.map_map]
      rfl
    have hreplaced : replaced (options.rootParent uuids library)
        (parsed.triggers.map (NativeTrigger.enabledBy options.enable)) existing = true ↔
          Replaces uuids library parsed options existing := by
      rw [replaced, hnames]
      simp [Replaces, h]
    rw [Bool.eq_iff_iff, Bool.not_eq_true', ← Bool.not_eq_true, hreplaced, decide_eq_true_iff]
  · rw [eq_comm, List.filter_eq_self]
    intro existing _
    simp [Replaces, h]

theorem merged (h : commitTriggerImport files disk uuids library parsed options = .ok (saved, summary)) :
    Merged uuids library parsed options saved := by
  obtain ⟨⟨assets, disk'⟩, hassets, h⟩ := bind_eq_ok.mp h
  dsimp only at h
  split at h
  · cases h
  · cases h
    have hretained := retained_eq uuids library parsed options
    refine ⟨rfl, ?_, fun role => ?_, installAssets_records hassets⟩
    · rw [← hretained]
      rfl
    · cases role
      · exact map_extendNew _ _ _ _
      · exact map_extendNew _ _ _ _

/-! ### Distinct ids -/

/-- No two records of a list have one id, and no two assets one file name. -/
structure NativeLibrary.Distinct (library : NativeLibrary P) : Prop where
  folders : (library.folders.map (·.id)).Nodup
  triggers : (library.triggers.map (·.id)).Nodup
  presets : ∀ role, ((library.presets role).map (·.id)).Nodup
  assets : (library.assets.map (·.fileName)).Nodup

/-- Ids are drawn without repetition and none is in use. -/
structure Unused (uuids : Nat → Nat) (library : NativeLibrary P) (parsed : ParsedImport P) : Prop where
  injective : Function.Injective uuids
  folders : ∀ n, ∀ folder ∈ library.folders ++ parsed.folders, uuids n ≠ folder.id
  triggers : ∀ n, ∀ trigger ∈ library.triggers ++ parsed.triggers, uuids n ≠ trigger.id

/-- The imports that leave the ids of the library distinct. -/
structure IdsApart (uuids : Nat → Nat) (library : NativeLibrary P) (parsed : ParsedImport P) (options : ImportOptions) :
    Prop where
  folders : (parsed.folders.map (·.id)).Nodup
  newFolders : ∀ folder ∈ parsed.folders, ∀ existing ∈ library.folders, folder.id ≠ existing.id
  /-- Two triggers of the import may share the id of a trigger that stays. -/
  triggers : parsed.triggers.Pairwise fun a b => a.id = b.id →
    ∃ existing ∈ library.triggers, ¬ Replaces uuids library parsed options existing ∧ existing.id = a.id
  presets : ∀ role, NewDistinct OverlayPreset.eqlpId (·.id) (library.presets role) (parsed.presets role)

theorem nodup_regenerated {held : List Nat} (u : Nat → Nat) (hu : Function.Injective u) (hheld : ∀ n, u n ∉ held)
    (l : List Nat) (hl : ∀ n, u n ∉ l) :
    (l.mapIdx fun index id => if id ∈ held then u (index + 1) else id).Nodup ↔
      l.Pairwise fun a b => a = b → a ∈ held := by
  induction l generalizing u with
  | nil => simp
  | cons a l ih =>
    have hl' : ∀ n, u n ∉ l := fun n hn => hl n (List.mem_cons_of_mem _ hn)
    rw [List.mapIdx_cons, List.nodup_cons, List.pairwise_cons,
      ih (fun n => u (n + 1)) (fun m n h => by simpa using hu h) (fun n => hheld _) fun n => hl' _]
    refine and_congr_left fun _ => ?_
    split_ifs with ha
    · refine iff_of_true ?_ fun _ _ _ => ha
      intro hmem
      obtain ⟨i, hi, h⟩ := List.mem_mapIdx.mp hmem
      split_ifs at h with hb
      · have := hu h
        omega
      · exact hl' _ (h ▸ List.getElem_mem hi)
    · constructor
      · rintro hmem b hb rfl
        obtain ⟨i, hi, rfl⟩ := List.mem_iff_getElem.mp hb
        refine absurd (List.mem_mapIdx.mpr ⟨i, hi, ?_⟩) hmem
        rw [if_neg ha]
      · intro h hmem
        obtain ⟨i, hi, hia⟩ := List.mem_mapIdx.mp hmem
        split_ifs at hia with hb
        · exact hl _ (List.mem_cons.mpr (.inl hia))
        · exact ha (h _ (List.getElem_mem hi) hia.symm)

theorem wrapper_id {folder : NativeFolder} (h : folder ∈ (options.wrapper uuids library).toList) : folder.id = uuids 0 := by
  rw [ImportOptions.wrapper, Option.mem_toList, Option.map_eq_some_iff] at h
  obtain ⟨_, -, rfl⟩ := h
  rfl

theorem Merged.nodup_folders (hm : Merged uuids library parsed options saved)
    (hd : (library.folders.map (·.id)).Nodup) (hu : Unused uuids library parsed) :
    (saved.folders.map (·.id)).Nodup ↔
      (parsed.folders.map (·.id)).Nodup ∧
        ∀ folder ∈ parsed.folders, ∀ existing ∈ library.folders, folder.id ≠ existing.id := by
  have hids : (parsed.folders.map (NativeFolder.reparent (options.rootParent uuids library))).map (·.id) =
      parsed.folders.map (·.id) := by
    rw [List.map_map]
    rfl
  have hbase : ((library.folders ++ (options.wrapper uuids library).toList).map (·.id)).Nodup := by
    rw [List.map_append, List.nodup_append]
    refine ⟨hd, ?_, ?_⟩
    · cases options.wrapper uuids library <;> simp
    · intro a ha b hb
      obtain ⟨existing, he, rfl⟩ := List.mem_map.mp ha
      obtain ⟨wrapper, hw, rfl⟩ := List.mem_map.mp hb
      rw [wrapper_id hw]
      exact (hu.folders 0 existing (List.mem_append_left _ he)).symm
  rw [hm.folders, List.map_append, hids, List.nodup_append]
  constructor
  · rintro ⟨-, hnodup, hne⟩
    refine ⟨hnodup, fun folder hf existing he => ?_⟩
    exact (hne _ (List.mem_map_of_mem (List.mem_append_left _ he)) _ (List.mem_map_of_mem hf)).symm
  · rintro ⟨hnodup, hne⟩
    refine ⟨hbase, hnodup, fun a ha b hb => ?_⟩
    obtain ⟨existing, he, rfl⟩ := List.mem_map.mp ha
    obtain ⟨folder, hf, rfl⟩ := List.mem_map.mp hb
    rcases List.mem_append.mp he with he | hw
    · exact (hne folder hf existing he).symm
    · rw [wrapper_id hw]
      exact hu.folders 0 folder (List.mem_append_right _ hf)

@[simp] theorem NativeTrigger.enabledBy_id (enable : Bool) (trigger : NativeTrigger P) :
    (trigger.enabledBy enable).id = trigger.id := rfl

theorem regenerate_id (held : List (NativeTrigger P)) (index : Nat) (trigger : NativeTrigger P) :
    (regenerate uuids held index trigger).id =
      if trigger.id ∈ held.map (·.id) then uuids (index + 1) else trigger.id := by
  simp only [regenerate, List.any_eq_true, decide_eq_true_eq, List.mem_map]
  split_ifs <;> rfl

theorem regenerated_ids (held triggers : List (NativeTrigger P)) (enable : Bool) :
    ((triggers.map (NativeTrigger.enabledBy enable)).mapIdx (regenerate uuids held)).map (·.id) =
      (triggers.map (·.id)).mapIdx fun index id => if id ∈ held.map (·.id) then uuids (index + 1) else id := by
  apply List.ext_getElem
  · simp
  · intro i h1 h2
    simp only [List.getElem_map, List.getElem_mapIdx, regenerate_id, NativeTrigger.enabledBy_id]
    congr

theorem Merged.nodup_triggers (hm : Merged uuids library parsed options saved)
    (hd : (library.triggers.map (·.id)).Nodup) (hu : Unused uuids library parsed) :
    (saved.triggers.map (·.id)).Nodup ↔
      parsed.triggers.Pairwise fun a b => a.id = b.id →
        ∃ existing ∈ library.triggers, ¬ Replaces uuids library parsed options existing ∧ existing.id = a.id := by
  set held := library.triggers.filter (¬ Replaces uuids library parsed options ·) with hheld
  have hmem : ∀ id, id ∈ held.map (·.id) ↔
      ∃ existing ∈ library.triggers, ¬ Replaces uuids library parsed options existing ∧ existing.id = id := by
    intro id
    simp [hheld, and_assoc]
  have hunheld : ∀ n, uuids n ∉ held.map (·.id) := by
    intro n hn
    obtain ⟨existing, he, -, h⟩ := (hmem _).mp hn
    exact hu.triggers n existing (List.mem_append_left _ he) h.symm
  have hnew : ∀ n, uuids n ∉ parsed.triggers.map (·.id) := by
    intro n hn
    obtain ⟨trigger, ht, h⟩ := List.mem_map.mp hn
    exact hu.triggers n trigger (List.mem_append_right _ ht) h.symm
  have hnodup : (held.map (·.id)).Nodup := hd.sublist (List.filter_sublist.map _)
  have hiff := (nodup_regenerated uuids hu.injective hunheld _ hnew).trans List.pairwise_map
  simp only [← hmem]
  rw [hm.triggers, List.map_append, ← hheld, regenerated_ids, List.nodup_append, ← hiff]
  refine ⟨fun h => h.2.1, fun h => ⟨hnodup, h, fun a ha b hb => ?_⟩⟩
  -- no imported trigger keeps an id that is held
  obtain ⟨i, hi, rfl⟩ := List.mem_mapIdx.mp hb
  rintro rfl
  split_ifs at ha with hid
  · exact hunheld _ ha
  · exact hid ha

/-- The saved library has distinct ids exactly for the imports that leave them distinct. -/
theorem distinct_iff (files : FileSystem P) (disk : files.State) (uuids : Nat → Nat) (library : NativeLibrary P)
    (parsed : ParsedImport P) (options : ImportOptions) (saved : NativeLibrary P) (summary : ImportSummary)
    (hd : library.Distinct) (hu : Unused uuids library parsed)
    (h : commitTriggerImport files disk uuids library parsed options = .ok (saved, summary)) :
    saved.Distinct ↔ IdsApart uuids library parsed options := by
  have hm := merged h
  have hfolders := hm.nodup_folders hd.folders hu
  have htriggers := hm.nodup_triggers hd.triggers hu
  have hpresets : ∀ role, ((saved.presets role).map (·.id)).Nodup ↔
      NewDistinct OverlayPreset.eqlpId (·.id) (library.presets role) (parsed.presets role) := by
    intro role
    rw [hm.presets role]
    exact nodup_map_extendNew (hd.presets role)
  have hassets : (saved.assets.map (·.fileName)).Nodup := by
    rw [hm.assets]
    exact nodup_key_extendNew hd.assets
  constructor
  · intro hs
    obtain ⟨hnodup, hne⟩ := hfolders.mp hs.folders
    exact ⟨hnodup, hne, htriggers.mp hs.triggers, fun role => (hpresets role).mp (hs.presets role)⟩
  · intro hc
    exact ⟨hfolders.mpr ⟨hc.folders, hc.newFolders⟩, htriggers.mpr hc.triggers,
      fun role => (hpresets role).mpr (hc.presets role), hassets⟩

namespace Literal

/-- A disk that takes every file. -/
def openFiles : FileSystem platform where
  State := Unit
  createAssetsDir disk := .ok disk
  hasFile _ _ := false
  write disk _ _ := .ok disk
  save disk _ := .ok disk

def pack : NativeFolder where
  id := 1
  parent := none
  name := "Pack".toList
  index := 0
  expanded := true

/-- A trigger with the folder and overlays it refers to. -/
def record (id : TriggerId) (folder : Option FolderId) (textOverlays : List OverlayId) : NativeTrigger platform :=
  { trigger id ⟨"ding".toList, false⟩ "ding".toList none with
    folder := folder
    enabled := false
    textOverlays := textOverlays
    index := 0
    comments := []
    quarantine := none
    passthrough := ∅ }

/-- A library of one folder with one trigger. -/
def packLibrary : NativeLibrary platform := ⟨[pack], [record 2 (some 1) []], [], [], [], []⟩

/-- The package of that library. -/
def packImport : ParsedImport platform := ⟨[pack], [record 2 (some 1) []], [], [], []⟩

/-- The options that take everything as it is. -/
def merge : ImportOptions := ⟨none, false, false⟩

/-- The library once its own package is imported. -/
def packTwice : NativeLibrary platform := ⟨[pack, pack], [record 2 (some 1) [], record 101 (some 1) []], [], [], [], []⟩

/-- The summary of an import of one trigger and one folder. -/
def packSummary : ImportSummary := ⟨1, 0, 1, 0, 0⟩

theorem packLibrary_distinct : packLibrary.Distinct where
  folders := List.nodup_singleton _
  triggers := List.nodup_singleton _
  presets role := by cases role <;> exact List.nodup_nil
  assets := List.nodup_nil

theorem packImport_unused : Unused (· + 100) packLibrary packImport where
  injective := add_left_injective 100
  folders n folder h := by
    simp only [packLibrary, packImport, List.mem_append, List.mem_singleton, or_self] at h
    rw [h, pack]
    dsimp only
    omega
  triggers n trigger h := by
    simp only [packLibrary, packImport, List.mem_append, List.mem_singleton, or_self] at h
    rw [h, record]
    dsimp only [Literal.trigger]
    omega

theorem packImport_committed :
    commitTriggerImport openFiles () (· + 100) packLibrary packImport merge = .ok (packTwice, packSummary) := rfl

end Literal

theorem distinct_iff_packTwice :
    Literal.packTwice.Distinct ↔ IdsApart (· + 100) Literal.packLibrary Literal.packImport Literal.merge :=
  distinct_iff Literal.openFiles () (· + 100) Literal.packLibrary Literal.packImport Literal.merge Literal.packTwice
    Literal.packSummary Literal.packLibrary_distinct Literal.packImport_unused Literal.packImport_committed

/-- A package whose folders the library has gives it two folders of one id. -/
theorem package_twice :
    ¬ ∀ (P : Platform) (files : FileSystem P) (disk : files.State) (uuids : Nat → Nat) (library : NativeLibrary P)
      (parsed : ParsedImport P) (options : ImportOptions) (saved : NativeLibrary P) (summary : ImportSummary),
      library.Distinct → Unused uuids library parsed →
        commitTriggerImport files disk uuids library parsed options = .ok (saved, summary) → saved.Distinct := by
  intro h
  have hd := h _ _ _ _ _ _ _ _ _ Literal.packLibrary_distinct Literal.packImport_unused Literal.packImport_committed
  exact absurd hd.folders (by decide)

/-! ### References -/

/-- A preset of the library, or of the import and taken into it, has the id. -/
def Survives (library : NativeLibrary P) (parsed : ParsedImport P) (role : OverlayRole) (id : OverlayId) : Prop :=
  (∃ preset ∈ library.presets role, preset.id = id) ∨
    ∃ index preset, NewAt OverlayPreset.eqlpId (library.presets role) (parsed.presets role) index preset ∧ preset.id = id

/-- The folder saved for one of the import has the parent it had, or the folder of the import where it had none. -/
structure FolderKept (uuids : Nat → Nat) (library : NativeLibrary P) (parsed : ParsedImport P) (options : ImportOptions)
    (saved : NativeLibrary P) (before after : NativeFolder) : Prop where
  parent : ∀ parent, before.parent = some parent → (∃ folder ∈ library.folders ++ parsed.folders, folder.id = parent) →
    after.parent = some parent ∧ ∃ folder ∈ saved.folders, folder.id = parent
  root : before.parent = none → ∀ wrapper ∈ options.wrapper uuids library, after.parent = some wrapper.id

/-- The trigger saved for one of the import refers to the folder and the overlays it referred to. -/
structure TriggerKept (uuids : Nat → Nat) (library : NativeLibrary P) (parsed : ParsedImport P) (options : ImportOptions)
    (saved : NativeLibrary P) (before after : NativeTrigger P) : Prop where
  folder : ∀ parent, before.folder = some parent → (∃ folder ∈ library.folders ++ parsed.folders, folder.id = parent) →
    after.folder = some parent ∧ ∃ folder ∈ saved.folders, folder.id = parent
  root : before.folder = none → ∀ wrapper ∈ options.wrapper uuids library, after.folder = some wrapper.id
  overlays : ∀ role, ∀ id ∈ before.overlays role,
    (∃ preset ∈ library.presets role ++ parsed.presets role, preset.id = id) →
      id ∈ after.overlays role ∧ ∃ preset ∈ saved.presets role, preset.id = id

/-- The references of what is imported resolve in the saved library, its roots are under the wrapper folder, and what
is not replaced stays as it was. -/
structure Kept (uuids : Nat → Nat) (library : NativeLibrary P) (parsed : ParsedImport P) (options : ImportOptions)
    (saved : NativeLibrary P) : Prop where
  folders : ∃ added, saved.folders = library.folders ++ (options.wrapper uuids library).toList ++ added ∧
    List.Forall₂ (FolderKept uuids library parsed options saved) parsed.folders added
  triggers : ∃ added, saved.triggers = library.triggers.filter (¬ Replaces uuids library parsed options ·) ++ added ∧
    List.Forall₂ (TriggerKept uuids library parsed options saved) parsed.triggers added

/-- What an imported trigger needs for its references to be kept. -/
structure Anchored (library : NativeLibrary P) (parsed : ParsedImport P) (options : ImportOptions)
    (trigger : NativeTrigger P) : Prop where
  root : options.wrapperName ≠ none → trigger.folder ≠ none
  overlays : ∀ role, ∀ id ∈ trigger.overlays role, (∃ preset ∈ parsed.presets role, preset.id = id) →
    Survives library parsed role id

theorem Merged.survives (hm : Merged uuids library parsed options saved) {role : OverlayRole} {id : OverlayId} :
    (∃ preset ∈ saved.presets role, preset.id = id) ↔ Survives library parsed role id := by
  rw [hm.presets role, Survives]
  simp only [mem_extendNew, or_and_right, exists_or]
  refine or_congr_right ⟨?_, ?_⟩
  · rintro ⟨preset, ⟨index, h⟩, hid⟩
    exact ⟨index, preset, h, hid⟩
  · rintro ⟨index, preset, h, hid⟩
    exact ⟨preset, ⟨index, h⟩, hid⟩

theorem Merged.folder_saved (hm : Merged uuids library parsed options saved) {id : FolderId}
    (h : ∃ folder ∈ library.folders ++ parsed.folders, folder.id = id) : ∃ folder ∈ saved.folders, folder.id = id := by
  obtain ⟨folder, hf, hid⟩ := h
  rw [hm.folders]
  rcases List.mem_append.mp hf with hf | hf
  · exact ⟨folder, List.mem_append_left _ (List.mem_append_left _ hf), hid⟩
  · exact ⟨folder.reparent _, List.mem_append_right _ (List.mem_map_of_mem hf), hid⟩

theorem Merged.folderKept (hm : Merged uuids library parsed options saved) (folder : NativeFolder) :
    FolderKept uuids library parsed options saved folder
      (folder.reparent (options.rootParent uuids library)) where
  parent parent hp h := ⟨by rw [NativeFolder.reparent, hp]; rfl, hm.folder_saved h⟩
  root hp wrapper hw := by
    rw [NativeFolder.reparent, hp, ImportOptions.rootParent, Option.mem_def.mp hw]
    rfl

theorem wrapper_eq_none : options.wrapper uuids library = none ↔ options.wrapperName = none := by
  rw [ImportOptions.wrapper, Option.map_eq_none_iff]

theorem Merged.triggerKept_iff (hm : Merged uuids library parsed options saved) {before after : NativeTrigger P}
    (hfolder : after.folder = before.folder) (hoverlays : ∀ role, after.overlays role = before.overlays role) :
    TriggerKept uuids library parsed options saved before after ↔ Anchored library parsed options before := by
  constructor
  · intro h
    refine ⟨fun hw hf => ?_, fun role id hid hp => ?_⟩
    · have hne : options.wrapper uuids library ≠ none := mt wrapper_eq_none.mp hw
      obtain ⟨wrapper, hwrapper⟩ := Option.ne_none_iff_exists'.mp hne
      have hafter := h.root hf wrapper hwrapper
      rw [hfolder, hf] at hafter
      cases hafter
    · obtain ⟨preset, hpreset, he⟩ := hp
      exact hm.survives.mp (h.overlays role id hid ⟨preset, List.mem_append_right _ hpreset, he⟩).2
  · intro h
    refine ⟨fun parent hp hf => ⟨hfolder.trans hp, hm.folder_saved hf⟩, fun hf wrapper hw => ?_, fun role id hid hp => ?_⟩
    · refine absurd hf (h.root fun hn => ?_)
      rw [wrapper_eq_none.mpr hn] at hw
      cases hw
    · refine ⟨hoverlays role ▸ hid, hm.survives.mpr ?_⟩
      obtain ⟨preset, hpreset, he⟩ := hp
      rcases List.mem_append.mp hpreset with hl | hi
      · exact .inl ⟨preset, hl, he⟩
      · exact h.overlays role id hid ⟨preset, hi, he⟩

theorem regenerate_folder (held : List (NativeTrigger P)) (index : Nat) (trigger : NativeTrigger P) :
    (regenerate uuids held index trigger).folder = trigger.folder := by
  rw [regenerate]
  split_ifs <;> rfl

theorem regenerate_overlays (held : List (NativeTrigger P)) (index : Nat) (trigger : NativeTrigger P)
    (role : OverlayRole) : (regenerate uuids held index trigger).overlays role = trigger.overlays role := by
  rw [regenerate]
  split_ifs
  · cases role <;> rfl
  · rfl

theorem enabledBy_overlays (enable : Bool) (trigger : NativeTrigger P) (role : OverlayRole) :
    (trigger.enabledBy enable).overlays role = trigger.overlays role := by
  cases role <;> rfl

theorem Merged.kept_iff (hm : Merged uuids library parsed options saved) :
    Kept uuids library parsed options saved ↔ ∀ trigger ∈ parsed.triggers, Anchored library parsed options trigger := by
  -- a trigger of the import, at its place in the saved library, is kept if it is anchored
  have hplace : ∀ held : List (NativeTrigger P), ∀ index (h : index < parsed.triggers.length),
      TriggerKept uuids library parsed options saved parsed.triggers[index]
        (regenerate uuids held index (parsed.triggers[index].enabledBy options.enable)) ↔
        Anchored library parsed options parsed.triggers[index] := fun held index h =>
    hm.triggerKept_iff (regenerate_folder _ _ _) fun role =>
      (regenerate_overlays _ _ _ role).trans (enabledBy_overlays _ _ role)
  constructor
  · rintro ⟨-, added, hadded, hkept⟩ trigger ht
    obtain ⟨index, h, rfl⟩ := List.mem_iff_getElem.mp ht
    rw [hm.triggers] at hadded
    obtain rfl := List.append_cancel_left hadded
    have hindex := (List.forall₂_iff_get.mp hkept).2 index h (by simpa using h)
    simp only [List.get_eq_getElem, List.getElem_mapIdx, List.getElem_map] at hindex
    exact (hplace _ index h).mp hindex
  · intro h
    refine ⟨⟨_, hm.folders, ?_⟩, _, hm.triggers, ?_⟩
    · rw [List.forall₂_map_right_iff, List.forall₂_same]
      exact fun folder _ => hm.folderKept folder
    · refine List.forall₂_iff_get.mpr ⟨by simp, fun index h1 _ => ?_⟩
      simp only [List.get_eq_getElem, List.getElem_mapIdx, List.getElem_map]
      exact (hplace _ index h1).mpr (h _ (List.getElem_mem h1))

/-! ### References of an EQLP package -/

/-- The overlay of the import that a package id names. -/
def ParsedImport.namedOverlay (parsed : ParsedImport P) (id : Str) : Option (OverlayId × OverlayRole) :=
  ((parsed.presets .text).find? fun preset => preset.packageId = some id).map (fun preset => (preset.id, .text)) |>.or <|
    ((parsed.presets .timer).find? fun preset => preset.packageId = some id).map fun preset => (preset.id, .timer)

/-- The overlay of the library that a package id names. -/
def NativeLibrary.namedOverlay (library : NativeLibrary P) (id : Str) : Option (OverlayId × OverlayRole) :=
  ((library.presets .text).find? fun preset => preset.eqlpId = id).map (fun preset => (preset.id, .text)) |>.or <|
    ((library.presets .timer).find? fun preset => preset.eqlpId = id).map fun preset => (preset.id, .timer)

/-- The ids an EQLP package's references resolve against, as a commit reads the package. -/
def ParsedImport.overlayIds (parsed : ParsedImport P) (library : NativeLibrary P) : OverlayIds :=
  eqlpOverlayIds parsed.textOverlays parsed.timerOverlays (knownOverlays library)

/-- The overlays that are selected are referenced in their role, and are in the saved library. -/
def SelectionKept (library : NativeLibrary P) (parsed : ParsedImport P) (saved : NativeLibrary P) (selected : List Str)
    (trigger : NativeTrigger P) : Prop :=
  ∀ id ∈ selected, ∀ overlay role, (parsed.namedOverlay id).or (library.namedOverlay id) = some (overlay, role) →
    overlay ∈ trigger.overlays role ∧ ∃ preset ∈ saved.presets role, preset.id = overlay

theorem find?_filterMap_packageId (presets : List (OverlayPreset P)) (id : Str) (isText : Bool) :
    ((presets.filterMap fun preset => preset.packageId.map fun id => (id, preset.id, isText)).find?
        fun overlay => overlay.1 = id).map (·.2) =
      (presets.find? fun preset => preset.packageId = some id).map fun preset => (preset.id, isText) := by
  induction presets with
  | nil => rfl
  | cons preset presets ih =>
    cases h : preset.packageId with
    | none => simpa [h] using ih
    | some key =>
      by_cases hk : key = id
      · simp [h, hk]
      · simpa [h, hk] using ih

theorem find?_map_eqlpId (presets : List (OverlayPreset P)) (id : Str) :
    ((presets.map fun preset => (preset.eqlpId, preset.id, false)).find? fun overlay => overlay.1 = id).map (·.2) =
      (presets.find? fun preset => preset.eqlpId = id).map fun preset => (preset.id, false) := by
  rw [List.find?_map, Option.map_map]
  rfl

/-- An overlay of the import is resolved to its role, one of the library to that of a timer overlay. -/
theorem resolveOverlay_eq (id : Str) :
    resolveOverlay (parsed.overlayIds library) id =
      ((parsed.namedOverlay id).map fun overlay => (overlay.1, decide (overlay.2 = .text))).or
        ((library.namedOverlay id).map fun overlay => (overlay.1, false)) := by
  have hids : parsed.overlayIds library =
      ((parsed.presets .text).filterMap fun preset => preset.packageId.map fun id => (id, preset.id, true)) ++
        ((parsed.presets .timer).filterMap fun preset => preset.packageId.map fun id => (id, preset.id, false)) ++
          (((library.presets .text).map fun preset => (preset.eqlpId, preset.id, false)) ++
            (library.presets .timer).map fun preset => (preset.eqlpId, preset.id, false)) := by
    simp only [ParsedImport.overlayIds, eqlpOverlayIds, knownOverlays, ParsedImport.presets, NativeLibrary.presets,
      List.filterMap_map, List.map_append, List.map_map]
    rfl
  rw [resolveOverlay, hids]
  simp only [List.find?_append, Option.map_or, find?_filterMap_packageId, find?_map_eqlpId, ParsedImport.namedOverlay,
    NativeLibrary.namedOverlay, Option.map_map, Function.comp_def]
  rfl

theorem mem_importOverlays {overlayIds : OverlayIds} {isText : Bool} {selected : List Str} {overlay : OverlayId} :
    overlay ∈ importOverlays overlayIds isText selected ↔
      ∃ id ∈ selected, resolveOverlay overlayIds id = some (overlay, isText) := by
  simp only [importOverlays, List.mem_map, List.mem_filter, List.mem_filterMap, decide_eq_true_eq]
  constructor
  · rintro ⟨⟨o, t⟩, ⟨⟨id, hid, h⟩, rfl⟩, rfl⟩
    exact ⟨id, hid, h⟩
  · rintro ⟨id, hid, h⟩
    exact ⟨_, ⟨⟨id, hid, h⟩, rfl⟩, rfl⟩

theorem mem_imported_overlays {data : ExtTreeMap Str (Value P)} {name : Str} {parent : Option FolderId}
    {overlayIds : OverlayIds} {id : TriggerId} {role : OverlayRole} {overlay : OverlayId} :
    overlay ∈ (importTrigger data name parent overlayIds id).1.overlays role ↔
      ∃ key ∈ selectedOverlays fun key => data[key]?, resolveOverlay overlayIds key = some (overlay, decide (role = .text)) := by
  cases role
  · exact mem_importOverlays
  · exact mem_importOverlays

theorem ParsedImport.mem_of_namedOverlay {id : Str} {overlay : OverlayId} {role : OverlayRole}
    (h : parsed.namedOverlay id = some (overlay, role)) : ∃ preset ∈ parsed.presets role, preset.id = overlay := by
  rw [ParsedImport.namedOverlay, Option.or_eq_some_iff] at h
  rcases h with h | ⟨-, h⟩ <;> obtain ⟨preset, hp, he⟩ := Option.map_eq_some_iff.mp h <;> cases he
  · exact ⟨preset, List.mem_of_find?_eq_some hp, rfl⟩
  · exact ⟨preset, List.mem_of_find?_eq_some hp, rfl⟩

theorem NativeLibrary.mem_of_namedOverlay {id : Str} {overlay : OverlayId} {role : OverlayRole}
    (h : library.namedOverlay id = some (overlay, role)) : ∃ preset ∈ library.presets role, preset.id = overlay := by
  rw [NativeLibrary.namedOverlay, Option.or_eq_some_iff] at h
  rcases h with h | ⟨-, h⟩ <;> obtain ⟨preset, hp, he⟩ := Option.map_eq_some_iff.mp h <;> cases he
  · exact ⟨preset, List.mem_of_find?_eq_some hp, rfl⟩
  · exact ⟨preset, List.mem_of_find?_eq_some hp, rfl⟩

/-- The overlay ids of the import are new. -/
def NewOverlays (library : NativeLibrary P) (parsed : ParsedImport P) : Prop :=
  ∀ role role', ∀ preset ∈ parsed.presets role, ∀ existing ∈ library.presets role', preset.id ≠ existing.id

/-- Only overlays of the import are referenced as text overlays, and their ids are not the library's. -/
theorem resolveOverlay_library_ne (hnew : NewOverlays library parsed) {id : Str} {overlay : OverlayId}
    {role : OverlayRole} (hl : library.namedOverlay id = some (overlay, role)) (other : Str) :
    resolveOverlay (parsed.overlayIds library) other ≠ some (overlay, true) := by
  intro hother
  obtain ⟨existing, he, hid⟩ := NativeLibrary.mem_of_namedOverlay hl
  rw [resolveOverlay_eq] at hother
  cases ho : parsed.namedOverlay other with
  | some named =>
    have hnamed : ∃ preset ∈ parsed.presets named.2, preset.id = named.1 := ParsedImport.mem_of_namedOverlay ho
    obtain ⟨preset, hpreset, hpid⟩ := hnamed
    rw [ho] at hother
    injection hother with hother
    have heq : named.1 = overlay := congrArg Prod.fst hother
    exact absurd (hpid.trans (heq.trans hid.symm)) (hnew _ _ preset hpreset existing he)
  | none =>
    rw [ho] at hother
    cases hl' : library.namedOverlay other <;> rw [hl'] at hother <;> simp at hother

/-- What a package id needs for the overlay it names to be referenced. -/
def Resolves (library : NativeLibrary P) (parsed : ParsedImport P) (id : Str) : Prop :=
  match parsed.namedOverlay id with
  | some (overlay, role) => Survives library parsed role overlay
  | none => ∀ overlay role, library.namedOverlay id = some (overlay, role) → role = .timer

theorem Merged.selectionKept_iff (hm : Merged uuids library parsed options saved) (hnew : NewOverlays library parsed)
    (data : ExtTreeMap Str (Value P)) (name : Str) (parent : Option FolderId) (id : TriggerId) :
    SelectionKept library parsed saved (selectedOverlays fun key => data[key]?)
        (importTrigger data name parent (parsed.overlayIds library) id).1 ↔
      ∀ key ∈ selectedOverlays fun key => data[key]?, Resolves library parsed key := by
  constructor
  · intro h key hkey
    rw [Resolves]
    cases hp : parsed.namedOverlay key with
    | some named =>
      have hkept := h key hkey named.1 named.2 (by rw [hp]; rfl)
      exact hm.survives.mp hkept.2
    | none =>
      rintro overlay role hl
      have hkept := h key hkey overlay role (by rw [hp, hl]; rfl)
      obtain ⟨other, -, hother⟩ := mem_imported_overlays.mp hkept.1
      cases role with
      | timer => rfl
      | text => exact absurd hother (resolveOverlay_library_ne hnew hl other)
  · intro h key hkey overlay role hnamed
    have hr := h key hkey
    rw [Resolves] at hr
    cases hp : parsed.namedOverlay key with
    | some named =>
      rw [hp] at hnamed hr
      cases hnamed
      refine ⟨mem_imported_overlays.mpr ⟨key, hkey, ?_⟩, hm.survives.mpr hr⟩
      rw [resolveOverlay_eq, hp]
      rfl
    | none =>
      rw [hp, Option.none_or] at hnamed
      rw [hp] at hr
      have hrole := hr overlay role hnamed
      refine ⟨mem_imported_overlays.mpr ⟨key, hkey, ?_⟩, hm.survives.mpr (.inl (NativeLibrary.mem_of_namedOverlay hnamed))⟩
      rw [resolveOverlay_eq, hp, hnamed, hrole]
      rfl

/-- The references of an import are kept exactly if each imported trigger is anchored, and those of an EQLP package
exactly if each package id resolves to the overlay it names. -/
theorem references_kept_iff (files : FileSystem P) (disk : files.State) (uuids : Nat → Nat) (library : NativeLibrary P)
    (parsed : ParsedImport P) (options : ImportOptions) (saved : NativeLibrary P) (summary : ImportSummary)
    (h : commitTriggerImport files disk uuids library parsed options = .ok (saved, summary)) :
    (Kept uuids library parsed options saved ↔ ∀ trigger ∈ parsed.triggers, Anchored library parsed options trigger) ∧
      (NewOverlays library parsed → ∀ (data : ExtTreeMap Str (Value P)) (name : Str) (parent : Option FolderId)
        (id : TriggerId),
        SelectionKept library parsed saved (selectedOverlays fun key => data[key]?)
            (importTrigger data name parent (parsed.overlayIds library) id).1 ↔
          ∀ key ∈ selectedOverlays fun key => data[key]?, Resolves library parsed key) :=
  ⟨(merged h).kept_iff, (merged h).selectionKept_iff⟩

namespace Literal

/-- A text overlay with the package id `A`. -/
def overlayA (id : OverlayId) : TextOverlayPreset platform where
  id := id
  passthrough := (∅ : Passthrough platform).insert "Id".toList (.string ['A'])
  name := "Alerts".toList
  isDefault := false
  fontSize := "12pt".toList
  fontColor := "#FFFFFFFF".toList
  backgroundColor := "#5F000000".toList
  fadeDelaySeconds := 10

@[simp] theorem overlayA_eqlpId (id : OverlayId) : (overlayA id).toOverlayPreset.eqlpId = ['A'] := by
  simp [OverlayPreset.eqlpId, overlayA, Json.asStr]

/-- The library after a package with the overlay was imported. -/
def overlayLibrary : NativeLibrary platform := ⟨[], [], [], [overlayA 1], [], []⟩

/-- The package once more: its overlay gets a new id, which its trigger refers to. -/
def overlayImport : ParsedImport platform := ⟨[], [record 2 none [3]], [overlayA 3], [], []⟩

/-- A text overlay with the package id `B`. -/
def overlayB (id : OverlayId) : TextOverlayPreset platform :=
  { overlayA id with passthrough := (∅ : Passthrough platform).insert "Id".toList (.string ['B']) }

@[simp] theorem overlayB_eqlpId (id : OverlayId) : (overlayB id).toOverlayPreset.eqlpId = ['B'] := by
  simp [OverlayPreset.eqlpId, overlayB, Json.asStr]

/-- A library with another overlay. -/
def otherLibrary : NativeLibrary platform := ⟨[], [], [], [overlayB 1], [], []⟩

/-- A package of a folder with a trigger that refers to the overlay of the package. -/
def alertImport : ParsedImport platform := ⟨[pack], [record 2 (some 1) [3]], [overlayA 3], [], []⟩

/-- The library with all of the package in it. -/
def alertSaved : NativeLibrary platform := ⟨[pack], [record 2 (some 1) [3]], [], [overlayB 1, overlayA 3], [], []⟩

theorem alertImport_committed :
    commitTriggerImport openFiles () (· + 100) otherLibrary alertImport merge = .ok (alertSaved, ⟨1, 0, 1, 1, 0⟩) := rfl

/-- The data of a trigger that selects the overlay by its package id. -/
def alertData : ExtTreeMap Str (Value platform) :=
  (∅ : ExtTreeMap Str (Value platform)).insert "SelectedOverlays".toList (.array [.string ['A']])

theorem alertImport_survives : Survives otherLibrary alertImport .text 3 := by
  refine .inr ⟨0, (overlayA 3).toOverlayPreset, ⟨rfl, ?_, fun _ h => absurd h (Nat.not_lt_zero _)⟩, rfl⟩
  intro existing hexisting
  obtain rfl := List.mem_singleton.mp hexisting
  rw [overlayA_eqlpId, overlayB_eqlpId]
  decide

end Literal

/-- The trigger of the package keeps its folder and its overlay, also where it is read from the selected package id. -/
theorem references_kept_iff_alert :
    Kept (· + 100) Literal.otherLibrary Literal.alertImport Literal.merge Literal.alertSaved ∧
      SelectionKept Literal.otherLibrary Literal.alertImport Literal.alertSaved
        (selectedOverlays fun key => Literal.alertData[key]?)
        (importTrigger Literal.alertData "alert".toList (some 1) (Literal.alertImport.overlayIds Literal.otherLibrary) 2).1 := by
  obtain ⟨hkept, hselection⟩ := references_kept_iff Literal.openFiles () (· + 100) Literal.otherLibrary Literal.alertImport
    Literal.merge Literal.alertSaved ⟨1, 0, 1, 1, 0⟩ Literal.alertImport_committed
  constructor
  · refine hkept.mpr fun trigger htrigger => ?_
    obtain rfl := List.mem_singleton.mp htrigger
    refine ⟨nofun, fun role id hid hpreset => ?_⟩
    cases role with
    | text =>
      obtain rfl := List.mem_singleton.mp hid
      exact Literal.alertImport_survives
    | timer => cases hid
  · have hnew : NewOverlays Literal.otherLibrary Literal.alertImport := by
      intro role role' preset hpreset existing hexisting
      cases role with
      | text =>
        cases role' with
        | text =>
          obtain rfl := List.mem_singleton.mp hpreset
          obtain rfl := List.mem_singleton.mp hexisting
          decide
        | timer => cases hexisting
      | timer => cases hpreset
    refine (hselection hnew Literal.alertData "alert".toList (some 1) 2).mpr fun key hkey => ?_
    have hselected : (selectedOverlays fun key => Literal.alertData[key]?) = [['A']] := by decide +kernel
    rw [hselected] at hkey
    obtain rfl := List.mem_singleton.mp hkey
    have hnamed : Literal.alertImport.namedOverlay ['A'] = some (3, .text) := by decide +kernel
    rw [Resolves, hnamed]
    exact Literal.alertImport_survives

/-- An overlay that the library has by its package id is not taken, and the trigger keeps the id of the one that was
dropped. -/
theorem overlay_dropped :
    ¬ ∀ (P : Platform) (files : FileSystem P) (disk : files.State) (uuids : Nat → Nat) (library : NativeLibrary P)
      (parsed : ParsedImport P) (options : ImportOptions) (saved : NativeLibrary P) (summary : ImportSummary),
      commitTriggerImport files disk uuids library parsed options = .ok (saved, summary) →
        Kept uuids library parsed options saved := by
  intro h
  obtain ⟨result, hresult⟩ : ∃ result, commitTriggerImport Literal.openFiles () (· + 100) Literal.overlayLibrary
      Literal.overlayImport Literal.merge = .ok result := ⟨_, rfl⟩
  have hkept := h _ _ _ _ _ _ _ result.1 result.2 hresult
  have hanchored := (merged hresult).kept_iff.mp hkept _ (List.mem_singleton.mpr rfl)
  rcases hanchored.overlays .text 3 (List.mem_singleton.mpr rfl)
    ⟨(Literal.overlayA 3).toOverlayPreset, List.mem_singleton.mpr rfl, rfl⟩ with ⟨preset, hp, hid⟩ | ⟨index, preset, hp, -⟩
  · obtain rfl := List.mem_singleton.mp hp
    exact absurd hid (by decide)
  · have hpreset := List.mem_of_getElem? hp.here
    obtain rfl := List.mem_singleton.mp hpreset
    refine hp.unknown _ (List.mem_singleton.mpr rfl) ?_
    rw [Literal.overlayA_eqlpId, Literal.overlayA_eqlpId]

end Stonemite.Triggers
