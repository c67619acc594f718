import Stonemite.Lib.Forest
import Stonemite.Lib.Lists
import Stonemite.Trigger.EqlpPackage
import Stonemite.Trigger.Shared

/-!
# EQLP export

The tree that a selection is exported as, rebuilt from the parents of the folders. Writing the JSON text and compressing
it are left out. `Ascends` relates the loop over the parents to the folders above; `exportsOnce_iff` and
`eqlp_export_complete_iff` are the equivalences for one export.
-/

open Std Relation

namespace Stonemite.Triggers

variable {P : Platform}

/-! ### The tree -/

inductive ExportNode (P : Platform)
  | folder (folder : NativeFolder) (nodes : List (ExportNode P))
  | trigger (trigger : NativeTrigger P)

/-- The fields of a node. -/
def exportNode (name : Str) (expanded : Bool) (triggerData : Value P) (index : Nat) (nodes : List (Value P)) : Value P :=
  .object [
    ("Id".toList, .null),
    ("Name".toList, .string name),
    ("IsExpanded".toList, .bool expanded),
    ("OriginalId".toList, .null),
    ("TriggerData".toList, triggerData),
    ("OverlayData".toList, .null),
    ("Index".toList, ofInt index),
    ("Parent".toList, .null),
    ("Nodes".toList, .array nodes)]

mutual

/-- A node as it is written. -/
def ExportNode.json (overlays : OverlayLibrary P) : ExportNode P → Value P
  | .folder folder nodes => exportNode folder.name folder.expanded .null folder.index (jsonOf overlays nodes)
  | .trigger trigger => exportNode trigger.name false (.object (exportTriggerData overlays trigger).toList) trigger.index []

def jsonOf (overlays : OverlayLibrary P) : List (ExportNode P) → List (Value P)
  | [] => []
  | node :: nodes => node.json overlays :: jsonOf overlays nodes

end

/-- The nodes under a place, down to a depth. -/
def buildExportTree (folders : List NativeFolder) (needed : List FolderId) (triggers : List (NativeTrigger P)) :
    Nat → Option FolderId → Except Str (List (ExportNode P))
  | 0, _ => .error "the folder tree is nested too deeply to export".toList
  | room + 1, parent => do
    let childFolders := (folders.filter fun folder => folder.parent = parent ∧ needed.contains folder.id).mergeSort
      fun a b => a.index ≤ b.index
    let nodes ← childFolders.mapM fun folder => do
      let children ← buildExportTree folders needed triggers room (some folder.id)
      return ExportNode.folder folder children
    let childTriggers := (triggers.filter fun trigger => trigger.folder = parent).mergeSort fun a b => a.index ≤ b.index
    return nodes ++ childTriggers.map .trigger

def NativeLibrary.overlayLibrary (library : NativeLibrary P) : OverlayLibrary P :=
  ⟨library.textOverlays.map (·.toOverlayPreset), library.timerOverlays.map (·.toOverlayPreset)⟩

/-- The warnings about sounds of the library, which an EQLP package cannot take along. -/
def mediaIssues (library : NativeLibrary P) (triggers : List (NativeTrigger P)) : List CompatIssue :=
  triggers.flatMap fun trigger => ((soundRefs trigger).filter fun sound => (library.asset sound).isSome).map fun sound =>
    ⟨.warning, trigger.name, "media-not-embedded",
      "EQLP packages cannot embed media; '".toList ++ sound ++ "' must be shared separately".toList⟩

/-- The roots of the exported tree; none if the ancestors of a folder do not end. -/
def exportTree (fuel : Nat) (library : NativeLibrary P) (folderIds : List FolderId) (triggerIds : List TriggerId) :
    Option (Except Str (List (ExportNode P))) :=
  let folders := library.selectedFolders folderIds
  let triggers := library.selectedTriggers folders triggerIds
  (withAncestors library fuel triggers folders).map fun needed =>
    buildExportTree library.folders needed triggers (maxDepth + 1) none

/-- The export of a selection, with its warnings. -/
def exportTriggers (fuel : Nat) (library : NativeLibrary P) (folderIds : List FolderId) (triggerIds : List TriggerId) :
    Option (Except Str (List (Value P)) × List CompatIssue) :=
  (exportTree fuel library folderIds triggerIds).map fun roots =>
    (roots.map (jsonOf library.overlayLibrary),
      mediaIssues library (library.selectedTriggers (library.selectedFolders folderIds) triggerIds))

/-! ### What is in a tree -/

mutual

def ExportNode.triggers : ExportNode P → List (NativeTrigger P)
  | .folder _ nodes => triggersOf nodes
  | .trigger trigger => [trigger]

def triggersOf : List (ExportNode P) → List (NativeTrigger P)
  | [] => []
  | node :: nodes => node.triggers ++ triggersOf nodes

end

mutual

def ExportNode.folders : ExportNode P → List NativeFolder
  | .folder folder nodes => folder :: foldersOf nodes
  | .trigger _ => []

def foldersOf : List (ExportNode P) → List NativeFolder
  | [] => []
  | node :: nodes => node.folders ++ foldersOf nodes

end

theorem triggersOf_append (nodes nodes' : List (ExportNode P)) : triggersOf (nodes ++ nodes') = triggersOf nodes ++ triggersOf nodes' := by
  induction nodes with
  | nil => rfl
  | cons node nodes ih => rw [List.cons_append, triggersOf, triggersOf, ih, List.append_assoc]

theorem foldersOf_append (nodes nodes' : List (ExportNode P)) : foldersOf (nodes ++ nodes') = foldersOf nodes ++ foldersOf nodes' := by
  induction nodes with
  | nil => rfl
  | cons node nodes ih => rw [List.cons_append, foldersOf, foldersOf, ih, List.append_assoc]

theorem triggersOf_map_trigger (triggers : List (NativeTrigger P)) : triggersOf (triggers.map .trigger) = triggers := by
  induction triggers with
  | nil => rfl
  | cons trigger triggers ih =>
    rw [List.map_cons, triggersOf, ih]
    rfl

theorem foldersOf_map_trigger (triggers : List (NativeTrigger P)) : foldersOf (triggers.map ExportNode.trigger) = [] := by
  induction triggers with
  | nil => rfl
  | cons trigger triggers ih =>
    rw [List.map_cons, foldersOf, ih]
    rfl

/-! ### The tree of a selection -/

/-- Folders point to their parents. -/
def folderPointers : Pointers NativeFolder FolderId := ⟨(·.id), (·.parent)⟩

theorem mapM_ok_iff {ε α β : Type} {f : α → Except ε β} {l : List α} :
    (∃ r, l.mapM f = .ok r) ↔ ∀ a ∈ l, ∃ b, f a = .ok b := by
  induction l with
  | nil => exact ⟨fun _ _ h => absurd h List.not_mem_nil, fun _ => ⟨[], rfl⟩⟩
  | cons a l ih =>
    simp only [List.mapM_cons, bind_eq_ok, List.forall_mem_cons]
    rw [← ih]
    constructor
    · rintro ⟨_, b, hb, r, hr, -⟩
      exact ⟨⟨b, hb⟩, r, hr⟩
    · rintro ⟨⟨b, hb⟩, r, hr⟩
      exact ⟨_, b, hb, r, hr, rfl⟩

/-- The folders that the tree is made of. -/
def neededIn (folders : List NativeFolder) (needed : List FolderId) : List NativeFolder :=
  folders.filter fun folder => needed.contains folder.id

section
variable {folders : List NativeFolder} {needed : List FolderId} {triggers : List (NativeTrigger P)} {room : Nat}
  {place : Option FolderId} {nodes : List (ExportNode P)}

theorem childFolders_perm (folders : List NativeFolder) (needed : List FolderId) (place : Option FolderId) :
    ((folders.filter fun folder => folder.parent = place ∧ needed.contains folder.id).mergeSort
      fun a b => a.index ≤ b.index).Perm (folderPointers.children (neededIn folders needed) place) := by
  refine (List.mergeSort_perm _ _).trans (List.Perm.of_eq ?_)
  rw [Pointers.children, neededIn, List.filter_filter]
  refine List.filter_congr fun folder _ => ?_
  rw [Bool.decide_and, Bool.decide_eq_true]
  rfl

/-- One level of the tree: a node for each folder, with what is under it, then the triggers. -/
theorem buildExportTree_succ :
    buildExportTree folders needed triggers (room + 1) place = .ok nodes ↔
      ∃ inner, nodes = inner ++ ((triggers.filter fun trigger => trigger.folder = place).mergeSort
          fun a b => a.index ≤ b.index).map .trigger ∧
        ((folders.filter fun folder => folder.parent = place ∧ needed.contains folder.id).mergeSort
          fun a b => a.index ≤ b.index).mapM (fun folder => do
            let children ← buildExportTree folders needed triggers room (some folder.id)
            return ExportNode.folder folder children) = .ok inner := by
  rw [buildExportTree, bind_eq_ok]
  constructor
  · rintro ⟨inner, hinner, h⟩
    cases h
    exact ⟨inner, rfl, hinner⟩
  · rintro ⟨inner, rfl, hinner⟩
    exact ⟨inner, hinner, rfl⟩

theorem buildExportTree_ok_iff : (∃ nodes, buildExportTree folders needed triggers room place = .ok nodes) ↔
    ¬ folderPointers.TooDeep (neededIn folders needed) room place := by
  induction room generalizing place with
  | zero => exact ⟨nofun, fun h => absurd trivial h⟩
  | succ room ih =>
    have hchildren (folder : NativeFolder) := (childFolders_perm folders needed place).mem_iff (a := folder)
    simp only [buildExportTree_succ, Pointers.TooDeep, not_exists, not_and]
    constructor
    · rintro ⟨_, inner, -, hinner⟩ folder hfolder
      obtain ⟨_, h⟩ := mapM_ok_iff.mp ⟨inner, hinner⟩ folder ((hchildren folder).mpr hfolder)
      obtain ⟨children, h, -⟩ := bind_eq_ok.mp h
      exact ih.mp ⟨children, h⟩
    · intro hroom
      obtain ⟨inner, hinner⟩ := mapM_ok_iff.mpr fun folder hfolder => by
        obtain ⟨children, h⟩ := ih.mpr (hroom folder ((hchildren folder).mp hfolder))
        exact ⟨ExportNode.folder folder children, bind_eq_ok.mpr ⟨children, h, rfl⟩⟩
      exact ⟨_, inner, rfl, hinner⟩

theorem triggersOf_perm (h : buildExportTree folders needed triggers room place = .ok nodes) :
    (triggersOf nodes).Perm ((folderPointers.descend (neededIn folders needed) room place).flatMap
      fun place => triggers.filter fun trigger => trigger.folder = place) := by
  induction room generalizing place nodes with
  | zero => cases h
  | succ room ih =>
    obtain ⟨inner, rfl, hinner⟩ := buildExportTree_succ.mp h
    have hunder {children : List NativeFolder} {inner : List (ExportNode P)}
        (h : List.Forall₂ (fun folder node => (do
          let nodes ← buildExportTree folders needed triggers room (some folder.id)
          return ExportNode.folder folder nodes) = .ok node) children inner) :
        (triggersOf inner).Perm (children.flatMap fun folder =>
          (folderPointers.descend (neededIn folders needed) room (some folder.id)).flatMap
            fun place => triggers.filter fun trigger => trigger.folder = place) := by
      induction h with
      | nil => exact .refl _
      | cons hnode _ ihs =>
        obtain ⟨nodes, hnodes, hnode⟩ := bind_eq_ok.mp hnode
        cases hnode
        exact (ih hnodes).append ihs
    rw [triggersOf_append, triggersOf_map_trigger, Pointers.descend, List.flatMap_cons, List.flatMap_assoc]
    refine List.perm_append_comm.trans (List.Perm.append (List.mergeSort_perm _ _) ?_)
    exact (hunder (forall₂_of_mapM_ok hinner)).trans ((childFolders_perm folders needed place).flatMap_right _)

theorem foldersOf_perm (h : buildExportTree folders needed triggers room place = .ok nodes) :
    (foldersOf nodes).Perm ((folderPointers.descend (neededIn folders needed) room place).flatMap
      (folderPointers.children (neededIn folders needed))) := by
  induction room generalizing place nodes with
  | zero => cases h
  | succ room ih =>
    obtain ⟨inner, rfl, hinner⟩ := buildExportTree_succ.mp h
    have hunder {children : List NativeFolder} {inner : List (ExportNode P)}
        (h : List.Forall₂ (fun folder node => (do
          let nodes ← buildExportTree folders needed triggers room (some folder.id)
          return ExportNode.folder folder nodes) = .ok node) children inner) :
        (foldersOf inner).Perm (children.flatMap fun folder => [folder] ++
          (folderPointers.descend (neededIn folders needed) room (some folder.id)).flatMap
            (folderPointers.children (neededIn folders needed))) := by
      induction h with
      | nil => exact .refl _
      | cons hnode _ ihs =>
        obtain ⟨nodes, hnodes, hnode⟩ := bind_eq_ok.mp hnode
        cases hnode
        exact ((ih hnodes).cons _).append ihs
    rw [foldersOf_append, foldersOf_map_trigger, List.append_nil, Pointers.descend, List.flatMap_cons, List.flatMap_assoc]
    refine (hunder (forall₂_of_mapM_ok hinner)).trans
      (((childFolders_perm folders needed place).flatMap_right _).trans ?_)
    refine (List.flatMap_append_perm _ _ _).symm.trans (List.Perm.of_eq ?_)
    rw [List.flatMap_singleton']
    rfl

end

/-! ### What is exported -/

/-- The folder is selected, or holds something that is. -/
def NativeLibrary.Needed (library : NativeLibrary P) (folderIds : List FolderId) (triggerIds : List TriggerId) (folder : FolderId) :
    Prop :=
  InSelection library folderIds folder ∨ AboveShared library folderIds triggerIds folder

open Classical in
/-- The triggers of a selection. -/
noncomputable def NativeLibrary.shared (library : NativeLibrary P) (folderIds : List FolderId) (triggerIds : List TriggerId) :
    List (NativeTrigger P) :=
  library.triggers.filter (Shares library folderIds triggerIds ·)

open Classical in
/-- The folders that hold a selection. -/
noncomputable def NativeLibrary.holders (library : NativeLibrary P) (folderIds : List FolderId) (triggerIds : List TriggerId) :
    List NativeFolder :=
  library.folders.filter (library.Needed folderIds triggerIds ·.id)

/-- The selection lies too deep for an EQLP package. -/
def NativeLibrary.TooDeep (library : NativeLibrary P) (folderIds : List FolderId) (triggerIds : List TriggerId) : Prop :=
  folderPointers.TooDeep (library.holders folderIds triggerIds) (maxDepth + 1) none

/-- How often the folder is reached from the top. -/
noncomputable def NativeLibrary.timesReached (library : NativeLibrary P) (folderIds : List FolderId) (triggerIds : List TriggerId)
    (folder : Option FolderId) : Nat :=
  (folderPointers.descend (library.holders folderIds triggerIds) (maxDepth + 1) none).count folder

section
variable {library : NativeLibrary P} {folderIds : List FolderId} {triggerIds : List TriggerId} {fuel : Nat}

theorem selectedTriggers_eq : library.selectedTriggers (library.selectedFolders folderIds) triggerIds =
    library.shared folderIds triggerIds := by
  classical
  refine List.filter_congr fun trigger ht => ?_
  have hmem : trigger ∈ library.selectedTriggers (library.selectedFolders folderIds) triggerIds ↔
      trigger ∈ library.triggers ∧ Shares library folderIds triggerIds trigger := mem_selectedTriggers
  rw [NativeLibrary.selectedTriggers, List.mem_filter, and_iff_right ht, and_iff_right ht] at hmem
  rw [Bool.eq_iff_iff, hmem, decide_eq_true_iff]

theorem mem_shared {trigger : NativeTrigger P} :
    trigger ∈ library.shared folderIds triggerIds ↔ trigger ∈ library.triggers ∧ Shares library folderIds triggerIds trigger := by
  classical
  rw [NativeLibrary.shared, List.mem_filter, decide_eq_true_iff]

theorem mem_holders {folder : NativeFolder} :
    folder ∈ library.holders folderIds triggerIds ↔ folder ∈ library.folders ∧ library.Needed folderIds triggerIds folder.id := by
  classical
  rw [NativeLibrary.holders, List.mem_filter, decide_eq_true_iff]

theorem neededIn_eq {needed : List FolderId}
    (h : withAncestors library fuel (library.shared folderIds triggerIds) (library.selectedFolders folderIds) = some needed) :
    neededIn library.folders needed = library.holders folderIds triggerIds := by
  classical
  refine List.filter_congr fun folder _ => ?_
  rw [Bool.eq_iff_iff, List.contains_iff_mem, mem_withAncestors h, decide_eq_true_iff, mem_selectedFolders]
  refine or_congr_right ?_
  simp only [mem_shared, AboveShared, and_assoc]

theorem exportTree_eq_some {roots : Except Str (List (ExportNode P))} :
    exportTree fuel library folderIds triggerIds = some roots ↔ ∃ needed,
      withAncestors library fuel (library.shared folderIds triggerIds) (library.selectedFolders folderIds) = some needed ∧
        buildExportTree library.folders needed (library.shared folderIds triggerIds) (maxDepth + 1) none = roots := by
  rw [exportTree, selectedTriggers_eq, Option.map_eq_some_iff]

/-- An exported tree holds the triggers and folders of the places that are visited, and there is one unless the selection lies
too deep. -/
theorem exportTree_nodes {nodes : List (ExportNode P)} (h : exportTree fuel library folderIds triggerIds = some (.ok nodes)) :
    (triggersOf nodes).Perm ((folderPointers.descend (library.holders folderIds triggerIds) (maxDepth + 1) none).flatMap
        fun place => (library.shared folderIds triggerIds).filter fun trigger => trigger.folder = place) ∧
      (foldersOf nodes).Perm ((folderPointers.descend (library.holders folderIds triggerIds) (maxDepth + 1) none).flatMap
        (folderPointers.children (library.holders folderIds triggerIds))) ∧ ¬ library.TooDeep folderIds triggerIds := by
  obtain ⟨needed, hneeded, h⟩ := exportTree_eq_some.mp h
  rw [NativeLibrary.TooDeep, ← neededIn_eq hneeded]
  exact ⟨triggersOf_perm h, foldersOf_perm h, buildExportTree_ok_iff.mp ⟨nodes, h⟩⟩

/-- No trigger of the selection is under a cycle of parents. -/
def Ascends (library : NativeLibrary P) (folderIds : List FolderId) (triggerIds : List TriggerId) : Prop :=
  ∀ trigger ∈ library.shared folderIds triggerIds, ∀ home, trigger.folder = some home → ¬ UnderCycle library.parentOf home

theorem Ascends.withAncestors (h : Ascends library folderIds triggerIds) (hfuel : library.folders.length < fuel) :
    ∃ needed, Triggers.withAncestors library fuel (library.shared folderIds triggerIds) (library.selectedFolders folderIds) =
      some needed :=
  withAncestors_isSome hfuel h _

theorem Ascends.exportTree (h : Ascends library folderIds triggerIds) (hfuel : library.folders.length < fuel)
    (hdeep : ¬ library.TooDeep folderIds triggerIds) :
    ∃ nodes, Triggers.exportTree fuel library folderIds triggerIds = some (.ok nodes) := by
  obtain ⟨needed, hneeded⟩ := h.withAncestors hfuel
  rw [NativeLibrary.TooDeep, ← neededIn_eq hneeded] at hdeep
  obtain ⟨nodes, hnodes⟩ := buildExportTree_ok_iff.mpr hdeep
  exact ⟨nodes, exportTree_eq_some.mpr ⟨needed, hneeded, hnodes⟩⟩

end

/-! ### Every trigger at most once -/

/-- Both exports end, and have no trigger of the selection more often than the library has it. -/
structure ExportsOnce (library : NativeLibrary P) (folderIds : List FolderId) (triggerIds : List TriggerId) : Prop where
  eqlpEnds : ∃ fuel result, exportTriggers fuel library folderIds triggerIds = some result
  packageEnds : ∃ fuel manifest, exportManifest fuel library folderIds triggerIds = some manifest
  eqlpOnce : ∀ fuel nodes, exportTree fuel library folderIds triggerIds = some (.ok nodes) →
    (triggersOf nodes).Subperm (library.shared folderIds triggerIds)
  packageOnce : ∀ fuel manifest, exportManifest fuel library folderIds triggerIds = some manifest →
    manifest.triggers.Subperm (library.shared folderIds triggerIds)

section
variable {library : NativeLibrary P} {folderIds : List FolderId} {triggerIds : List TriggerId}

/-- The exports end and have every trigger once exactly when no trigger of the selection is under a cycle of parents, and none
is in a folder that is reached twice from the top, or the tree is refused for its depth. -/
theorem exportsOnce_iff (library : NativeLibrary P) (folderIds : List FolderId) (triggerIds : List TriggerId) :
    ExportsOnce library folderIds triggerIds ↔ Ascends library folderIds triggerIds ∧
      (library.TooDeep folderIds triggerIds ∨ ∀ trigger ∈ library.shared folderIds triggerIds,
        library.timesReached folderIds triggerIds trigger.folder ≤ 1) := by
  constructor
  · intro h
    have hascends : Ascends library folderIds triggerIds := by
      obtain ⟨fuel, manifest, hmanifest⟩ := h.packageEnds
      obtain ⟨needed, hneeded, -⟩ := Option.map_eq_some_iff.mp hmanifest
      rw [selectedTriggers_eq] at hneeded
      exact not_underCycle_of_withAncestors hneeded
    refine ⟨hascends, or_iff_not_imp_left.mpr fun hdeep => ?_⟩
    obtain ⟨nodes, hnodes⟩ := hascends.exportTree (Nat.lt_succ_self _) hdeep
    exact flatMap_filter_subperm_iff.mp (((exportTree_nodes hnodes).1.symm.subperm).trans (h.eqlpOnce _ nodes hnodes))
  · rintro ⟨hascends, honce⟩
    obtain ⟨needed, hneeded⟩ := hascends.withAncestors (Nat.lt_succ_self _)
    have heqlp : ∃ result, exportTriggers library.folders.length.succ library folderIds triggerIds = some result := by
      rw [exportTriggers, exportTree_eq_some.mpr ⟨needed, hneeded, rfl⟩]
      exact ⟨_, rfl⟩
    have hpackage : ∃ manifest, exportManifest library.folders.length.succ library folderIds triggerIds = some manifest := by
      rw [exportManifest, selectedTriggers_eq, hneeded]
      exact ⟨_, rfl⟩
    refine ⟨⟨_, heqlp⟩, ⟨_, hpackage⟩, fun fuel nodes hnodes => ?_, fun fuel manifest hmanifest => ?_⟩
    · obtain ⟨htriggers, -, hdeep⟩ := exportTree_nodes hnodes
      exact htriggers.subperm.trans (flatMap_filter_subperm_iff.mpr (honce.resolve_left hdeep))
    · obtain ⟨_, -, rfl⟩ := Option.map_eq_some_iff.mp hmanifest
      rw [selectedTriggers_eq]

theorem timesReached_le_one (hids : (library.folders.map (·.id)).Nodup) (folder : Option FolderId) :
    library.timesReached folderIds triggerIds folder ≤ 1 := by
  refine Pointers.count_descend_le_one ?_ _ folder
  exact hids.sublist (List.filter_sublist.map _)

/-! ### Every trigger at least once -/

/-- The folder leads up to the top through folders that hold the selection. -/
def NativeLibrary.Hangs (library : NativeLibrary P) (folderIds : List FolderId) (triggerIds : List TriggerId)
    (folder : Option FolderId) : Prop :=
  folderPointers.Hangs (library.holders folderIds triggerIds) folder

theorem timesReached_eq_one_iff (hdeep : ¬ library.TooDeep folderIds triggerIds) {folder : Option FolderId} :
    library.timesReached folderIds triggerIds folder = 1 ↔
      library.Hangs folderIds triggerIds folder ∧ library.timesReached folderIds triggerIds folder ≤ 1 := by
  have hreached : 0 < library.timesReached folderIds triggerIds folder ↔ library.Hangs folderIds triggerIds folder :=
    List.count_pos_iff.trans (Pointers.mem_descend hdeep)
  rw [← hreached]
  omega

theorem mem_foldersOf_iff {fuel : Nat} {nodes : List (ExportNode P)}
    (h : exportTree fuel library folderIds triggerIds = some (.ok nodes)) {id : FolderId} :
    (∃ folder ∈ foldersOf nodes, folder.id = id) ↔ library.Hangs folderIds triggerIds (some id) := by
  obtain ⟨-, hfolders, hdeep⟩ := exportTree_nodes h
  simp only [hfolders.mem_iff, List.mem_flatMap, Pointers.mem_descend hdeep]
  constructor
  · rintro ⟨folder, ⟨place, hplace, hfolder⟩, rfl⟩
    exact ReflTransGen.tail hplace (Pointers.down_iff.mpr ⟨folder, hfolder, rfl⟩)
  · intro hangs
    obtain ⟨place, hplace, hdown⟩ := (ReflTransGen.cases_tail hangs).resolve_left (by simp)
    obtain ⟨folder, hfolder, hid⟩ := Pointers.down_iff.mp hdown
    exact ⟨folder, ⟨place, hplace, hfolder⟩, Option.some.inj hid⟩

/-- Of a library without cycles of parents: an EQLP export that succeeds has every trigger of the selection once and every
selected folder exactly when the folder of each of these triggers and each selected folder lead up to the top through folders
that hold the selection, and none is reached twice; or when the tree is refused for its depth. -/
theorem eqlp_export_complete_iff (library : NativeLibrary P) (folderIds : List FolderId) (triggerIds : List TriggerId)
    (fuel : Nat) (hacyclic : Acyclic library.parentOf) (hfuel : library.folders.length < fuel) :
    (∀ nodes, exportTree fuel library folderIds triggerIds = some (.ok nodes) →
      (triggersOf nodes).Perm (library.shared folderIds triggerIds) ∧
        ∀ selected ∈ folderIds, ∃ folder ∈ foldersOf nodes, folder.id = selected) ↔
    library.TooDeep folderIds triggerIds ∨
      (∀ trigger ∈ library.shared folderIds triggerIds, library.Hangs folderIds triggerIds trigger.folder ∧
        library.timesReached folderIds triggerIds trigger.folder ≤ 1) ∧
      ∀ selected ∈ folderIds, library.Hangs folderIds triggerIds (some selected) := by
  have hascends : Ascends library folderIds triggerIds := fun _ _ _ _ => not_underCycle hacyclic
  constructor
  · intro h
    refine or_iff_not_imp_left.mpr fun hdeep => ?_
    obtain ⟨nodes, hnodes⟩ := hascends.exportTree hfuel hdeep
    obtain ⟨htriggers, hfolders⟩ := h nodes hnodes
    refine ⟨fun trigger htrigger => ?_, fun selected hselected => (mem_foldersOf_iff hnodes).mp (hfolders selected hselected)⟩
    exact (timesReached_eq_one_iff hdeep).mp
      (flatMap_filter_perm_iff.mp ((exportTree_nodes hnodes).1.symm.trans htriggers) trigger htrigger)
  · intro h nodes hnodes
    obtain ⟨htriggers, -, hdeep⟩ := exportTree_nodes hnodes
    obtain ⟨honce, hselected⟩ := h.resolve_left hdeep
    refine ⟨htriggers.trans (flatMap_filter_perm_iff.mpr fun trigger htrigger => ?_), fun selected hmem =>
      (mem_foldersOf_iff hnodes).mpr (hselected selected hmem)⟩
    exact (timesReached_eq_one_iff hdeep).mpr (honce trigger htrigger)

end

/-! ### Cycles and dangling parents -/

namespace Literal

/-- A folder that is its own parent, with a trigger in it. -/
def loopLibrary : NativeLibrary platform :=
  ⟨[{ pack with parent := some 1 }], [record 2 (some 1) []], [], [], [], []⟩

/-- A trigger in a folder that is not there. -/
def strayLibrary : NativeLibrary platform := ⟨[pack], [record 2 (some 9) []], [], [], [], []⟩

end Literal

/-- The ascent from a folder that is its own parent never ends. -/
theorem exports_loop : ¬ ∀ (library : NativeLibrary Literal.platform) (folderIds : List FolderId) (triggerIds : List TriggerId),
    ExportsOnce library folderIds triggerIds := by
  intro h
  obtain ⟨fuel, manifest, hmanifest⟩ := (h Literal.loopLibrary [] [2]).packageEnds
  obtain ⟨needed, hneeded, -⟩ := Option.map_eq_some_iff.mp hmanifest
  refine not_underCycle_of_withAncestors hneeded (Literal.record 2 (some 1) []) List.mem_cons_self 1 rfl
    ⟨1, .refl, .single ?_⟩
  rfl

/-- A selected trigger of a folder at the top. -/
theorem eqlp_export_complete_pack : Acyclic Literal.packLibrary.parentOf ∧
    ∀ nodes, exportTree 2 Literal.packLibrary [] [2] = some (.ok nodes) →
      (triggersOf nodes).Perm (Literal.packLibrary.shared [] [2]) ∧
        ∀ selected ∈ ([] : List FolderId), ∃ folder ∈ foldersOf nodes, folder.id = selected := by
  refine ⟨Literal.packLibrary_acyclic, ?_⟩
  refine (eqlp_export_complete_iff Literal.packLibrary [] [2] 2 Literal.packLibrary_acyclic (by decide)).mpr (.inr ⟨?_, nofun⟩)
  intro trigger htrigger
  obtain rfl := List.mem_singleton.mp (mem_shared.mp htrigger).1
  have hids : (Literal.packLibrary.folders.map (·.id)).Nodup := by decide
  refine ⟨.single ⟨Literal.pack, mem_holders.mpr ⟨List.mem_cons_self, .inr ?_⟩, rfl, rfl⟩, timesReached_le_one hids _⟩
  exact ⟨_, List.mem_cons_self, .inl List.mem_cons_self, 1, rfl, .refl⟩

/-- A selected trigger whose folder is not there is left out of the tree. -/
theorem eqlp_export_stray :
    ¬ ∀ (library : NativeLibrary Literal.platform) (folderIds : List FolderId) (triggerIds : List TriggerId) (fuel : Nat),
      Acyclic library.parentOf → library.folders.length < fuel →
      ∀ nodes, exportTree fuel library folderIds triggerIds = some (.ok nodes) →
        (triggersOf nodes).Perm (library.shared folderIds triggerIds) ∧
          ∀ selected ∈ folderIds, ∃ folder ∈ foldersOf nodes, folder.id = selected := by
  intro h
  have hacyclic : Acyclic Literal.strayLibrary.parentOf := Literal.packLibrary_acyclic
  have hholder {folder : NativeFolder} (hfolder : folder ∈ Literal.strayLibrary.holders [] [2]) : folder = Literal.pack :=
    List.mem_singleton.mp (mem_holders.mp hfolder).1
  have hdeep : ¬ Literal.strayLibrary.TooDeep [] [2] := by
    rintro ⟨a, -, b, hb, -⟩
    obtain ⟨hb, hparent⟩ := Pointers.mem_children.mp hb
    rw [hholder hb] at hparent
    cases hparent
  have hascends : Ascends Literal.strayLibrary [] [2] := fun _ _ _ _ => not_underCycle hacyclic
  have hfuel : Literal.strayLibrary.folders.length < 2 := by decide
  obtain ⟨nodes, hnodes⟩ := hascends.exportTree hfuel hdeep
  have hperm := (exportTree_nodes hnodes).1.symm.trans (h Literal.strayLibrary [] [2] 2 hacyclic hfuel nodes hnodes).1
  have hstray : Literal.record 2 (some 9) [] ∈ Literal.strayLibrary.shared [] [2] :=
    mem_shared.mpr ⟨List.mem_cons_self, .inl List.mem_cons_self⟩
  obtain ⟨hangs, -⟩ := (timesReached_eq_one_iff hdeep).mp (flatMap_filter_perm_iff.mp hperm _ hstray)
  obtain ⟨place, -, folder, hfolder, -, hid⟩ := (ReflTransGen.cases_tail hangs).resolve_left (by simp [Literal.record])
  rw [hholder hfolder] at hid
  exact absurd (Option.some.inj hid) (by decide)

end Stonemite.Triggers
