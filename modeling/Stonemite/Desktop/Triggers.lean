import Stonemite.Lib.Reach
import Stonemite.Lib.Run
import Stonemite.Lib.Text

/-!
# The trigger library of the desktop editor

Edits of a library that refers by id from triggers to folders, from folders to their parents and from profiles to both.
No edit leaves a reference behind to what it removed, over any sequence of edits and with folders under a cycle.
`Resolved` is the invariant: every edit keeps it together with `Distinct` (`Resolved.kept`), and `edits_keep_references`
is the run.
-/

open Relation

namespace Stonemite.Desktop

structure Quarantine where
  reason : Str
  detail : Str
deriving DecidableEq, Repr

/-- A trigger; `rest` are the fields that no edit reads. -/
structure Trigger (Rest : Type) where
  id : Str
  name : Str
  folder : Option Str
  index : Int
  enabled : Bool
  quarantine : Option Quarantine
  rest : Rest

structure Folder where
  id : Str
  name : Str
  parent : Option Str
  index : Int
  expanded : Bool
deriving DecidableEq, Repr

/-- A named selection of triggers. -/
structure Profile where
  id : Str
  name : Str
  enabled : Bool
  triggers : List Str
  folders : List Str
deriving DecidableEq, Repr

/-- The library as the editor has it. -/
structure TriggerLibrary (Rest : Type) where
  folders : List Folder
  triggers : List (Trigger Rest)
  profiles : List Profile

namespace TriggerLibrary
variable {Rest : Type}

/-! ### The edits -/

/-- The folders right below another. -/
def childrenOf (folders : List Folder) (parent : Str) : List Str :=
  (folders.filter fun folder => folder.parent = some parent).map (·.id)

/-- Ids of a folder and everything transitively under it. Each folder is found at most once, so that the scan ends after as
many rounds as there are folders and one. -/
def folderSubtree (library : TriggerLibrary Rest) (folderId : Str) : List Str :=
  search (childrenOf library.folders) (library.folders.length + 1) 0 [folderId]

/-- The triggers go, from every profile as well. -/
def removeTriggers (library : TriggerLibrary Rest) (ids : List Str) : TriggerLibrary Rest :=
  { library with
    triggers := library.triggers.filter fun trigger => trigger.id ∉ ids
    profiles := library.profiles.map fun profile =>
      { profile with triggers := profile.triggers.filter fun id => id ∉ ids } }

/-- `fresh` is the new id. -/
def duplicateTrigger (library : TriggerLibrary Rest) (id fresh : Str) : TriggerLibrary Rest :=
  match library.triggers.find? fun trigger => trigger.id = id with
  | none => library
  | some source =>
    let copy := { source with
      id := fresh, name := source.name ++ " copy".toList, enabled := false, index := source.index + 1 }
    { library with triggers := library.triggers ++ [copy] }

def moveTriggers (library : TriggerLibrary Rest) (ids : List Str) (folder : Option Str) : TriggerLibrary Rest :=
  { library with
    triggers := library.triggers.map fun trigger =>
      if trigger.id ∈ ids then { trigger with folder := folder } else trigger }

/-- The triggers are switched on or off. -/
def setTriggersEnabled (library : TriggerLibrary Rest) (ids : List Str) (enabled : Bool) : TriggerLibrary Rest :=
  { library with
    triggers := library.triggers.map fun trigger =>
      if trigger.id ∈ ids ∧ ¬ (enabled ∧ trigger.quarantine.isSome) then { trigger with enabled := enabled } else trigger }

/-- A trigger of the subtree moves to the root. An empty id counts as no folder. -/
def uproot (subtree : List Str) (trigger : Trigger Rest) : Trigger Rest :=
  if trigger.folder.any fun folder => folder ≠ [] ∧ folder ∈ subtree then { trigger with folder := none } else trigger

/-- A folder goes with all below it, its triggers too. -/
def removeFolder (library : TriggerLibrary Rest) (id : Str) : TriggerLibrary Rest :=
  let subtree := library.folderSubtree id
  { folders := library.folders.filter fun folder => folder.id ∉ subtree
    triggers := library.triggers.map (uproot subtree)
    profiles := library.profiles.map fun profile =>
      { profile with folders := profile.folders.filter fun folderId => folderId ∉ subtree } }

end TriggerLibrary

/-- The edits of the trigger manager. -/
inductive Edit
  | removeTriggers (ids : List Str)
  | duplicateTrigger (id fresh : Str)
  | moveTriggers (ids : List Str) (folder : Option Str)
  | setTriggersEnabled (ids : List Str) (enabled : Bool)
  | removeFolder (id : Str)

namespace TriggerLibrary
variable {Rest : Type}

def apply (library : TriggerLibrary Rest) : Edit → TriggerLibrary Rest
  | .removeTriggers ids => library.removeTriggers ids
  | .duplicateTrigger id fresh => library.duplicateTrigger id fresh
  | .moveTriggers ids folder => library.moveTriggers ids folder
  | .setTriggersEnabled ids enabled => library.setTriggersEnabled ids enabled
  | .removeFolder id => library.removeFolder id

/-! ### References -/

def folderIds (library : TriggerLibrary Rest) : List Str := library.folders.map (·.id)

def triggerIds (library : TriggerLibrary Rest) : List Str := library.triggers.map (·.id)

def profileIds (library : TriggerLibrary Rest) : List Str := library.profiles.map (·.id)

/-- All ids. -/
def ids (library : TriggerLibrary Rest) : List Str := library.folderIds ++ (library.triggerIds ++ library.profileIds)

/-- No id is empty or that of two records of a list. -/
structure Distinct (library : TriggerLibrary Rest) : Prop where
  folders : library.folderIds.Nodup
  triggers : library.triggerIds.Nodup
  profiles : library.profileIds.Nodup
  nonempty : [] ∉ library.ids

/-- Every reference resolves. -/
structure Resolved (library : TriggerLibrary Rest) : Prop where
  home : ∀ trigger ∈ library.triggers, ∀ folder, trigger.folder = some folder → folder ∈ library.folderIds
  parent : ∀ folder ∈ library.folders, ∀ parent, folder.parent = some parent → parent ∈ library.folderIds
  profileTriggers : ∀ profile ∈ library.profiles, profile.triggers ⊆ library.triggerIds
  profileFolders : ∀ profile ∈ library.profiles, profile.folders ⊆ library.folderIds

/-- A new id is one that the library does not have, and triggers move to a folder of the library or to none. -/
def Allowed (library : TriggerLibrary Rest) : Edit → Prop
  | .duplicateTrigger _ fresh => fresh ≠ [] ∧ fresh ∉ library.ids
  | .moveTriggers _ folder => ∀ id, folder = some id → id ∈ library.folderIds
  | _ => True

/-- The folder is right under the other one. -/
def IsChild (library : TriggerLibrary Rest) (parent child : Str) : Prop :=
  ∃ folder ∈ library.folders, folder.parent = some parent ∧ folder.id = child

/-- The folder is the other one or under it. -/
def Under (library : TriggerLibrary Rest) (folder child : Str) : Prop := ReflTransGen library.IsChild folder child

variable {library : TriggerLibrary Rest}

theorem mem_folderSubtree {folder child : Str} : child ∈ library.folderSubtree folder ↔ library.Under folder child := by
  have hchild : (fun a b => b ∈ childrenOf library.folders a) = library.IsChild := by
    ext a b
    simp only [childrenOf, IsChild, List.mem_map, List.mem_filter, decide_eq_true_eq, and_assoc]
  have hids : ∀ a, childrenOf library.folders a ⊆ library.folderIds := by
    intro a b hb
    obtain ⟨folder, hfolder, rfl⟩ := List.mem_map.mp hb
    exact List.mem_map_of_mem (List.mem_of_mem_filter hfolder)
  rw [folderSubtree, mem_search hids (by simp [folderIds]), hchild]
  rfl

/-! ### What an edit does -/

/-- What is said of a removed folder: exactly the folders at or under it go, and every trigger stays, at the root if its
folder goes. -/
structure FolderRemoved (library after : TriggerLibrary Rest) (id : Str) : Prop where
  kept : after.folders.Sublist library.folders
  folders : ∀ folder ∈ library.folders, folder ∈ after.folders ↔ ¬ library.Under id folder.id
  triggers : List.Forall₂ (fun trigger trigger' =>
    (∃ folder, trigger.folder = some folder ∧ library.Under id folder) ∧ trigger' = { trigger with folder := none } ∨
      (∀ folder, trigger.folder = some folder → ¬ library.Under id folder) ∧ trigger' = trigger)
    library.triggers after.triggers

/-- What the edits say that the references do not. -/
def Keeps (library : TriggerLibrary Rest) : Edit → Prop
  | .removeFolder id => FolderRemoved library (library.removeFolder id) id
  | .setTriggersEnabled ids enabled => List.Forall₂ (fun trigger trigger' =>
      trigger' = { trigger with enabled := trigger'.enabled } ∧
        (trigger.quarantine.isSome → trigger'.enabled = true → trigger.enabled = true))
      library.triggers (library.setTriggersEnabled ids enabled).triggers
  | _ => True

/-! ### Ids after an edit -/

/-- No id is new. -/
structure IdsKept (library after : TriggerLibrary Rest) : Prop where
  folders : after.folderIds.Sublist library.folderIds
  triggers : after.triggerIds.Sublist library.triggerIds
  profiles : after.profileIds = library.profileIds

variable {after : TriggerLibrary Rest}

theorem IdsKept.ids (h : IdsKept library after) : after.ids.Sublist library.ids :=
  h.folders.append (h.triggers.append (h.profiles ▸ List.Sublist.refl _))

theorem IdsKept.distinct (h : IdsKept library after) (hdistinct : library.Distinct) : after.Distinct where
  folders := hdistinct.folders.sublist h.folders
  triggers := hdistinct.triggers.sublist h.triggers
  profiles := h.profiles ▸ hdistinct.profiles
  nonempty hnil := hdistinct.nonempty (h.ids.subset hnil)

theorem map_id_map {f : Trigger Rest → Trigger Rest} (hf : ∀ trigger, (f trigger).id = trigger.id) (l : List (Trigger Rest)) :
    (l.map f).map (·.id) = l.map (·.id) := by
  rw [List.map_map]
  exact List.map_congr_left fun trigger _ => hf trigger

@[simp] theorem triggerIds_moveTriggers (ids : List Str) (folder : Option Str) :
    (library.moveTriggers ids folder).triggerIds = library.triggerIds := by
  refine map_id_map (fun trigger => ?_) library.triggers
  split <;> rfl

@[simp] theorem triggerIds_setTriggersEnabled (ids : List Str) (enabled : Bool) :
    (library.setTriggersEnabled ids enabled).triggerIds = library.triggerIds := by
  refine map_id_map (fun trigger => ?_) library.triggers
  split <;> rfl

@[simp] theorem triggerIds_removeFolder (id : Str) : (library.removeFolder id).triggerIds = library.triggerIds := by
  refine map_id_map (fun trigger => ?_) library.triggers
  unfold uproot
  split <;> rfl

theorem idsKept_removeTriggers (ids : List Str) : IdsKept library (library.removeTriggers ids) where
  folders := .refl _
  triggers := List.filter_sublist.map _
  profiles := by
    unfold profileIds removeTriggers
    rw [List.map_map]
    rfl

theorem idsKept_moveTriggers (ids : List Str) (folder : Option Str) :
    IdsKept library (library.moveTriggers ids folder) where
  folders := .refl _
  triggers := by rw [triggerIds_moveTriggers]
  profiles := rfl

theorem idsKept_setTriggersEnabled (ids : List Str) (enabled : Bool) :
    IdsKept library (library.setTriggersEnabled ids enabled) where
  folders := .refl _
  triggers := by rw [triggerIds_setTriggersEnabled]
  profiles := rfl

theorem idsKept_removeFolder (id : Str) : IdsKept library (library.removeFolder id) where
  folders := List.filter_sublist.map _
  triggers := by rw [triggerIds_removeFolder]
  profiles := by
    unfold profileIds removeFolder
    rw [List.map_map]
    rfl

theorem duplicateTrigger_ids (id fresh : Str) :
    library.duplicateTrigger id fresh = library ∨
      (library.duplicateTrigger id fresh).triggerIds = library.triggerIds ++ [fresh] ∧
        ∃ source ∈ library.triggers, ∃ copy : Trigger Rest, copy.folder = source.folder ∧
          library.duplicateTrigger id fresh = { library with triggers := library.triggers ++ [copy] } := by
  unfold duplicateTrigger
  cases hfind : library.triggers.find? fun trigger => trigger.id = id with
  | none => exact .inl rfl
  | some source =>
    refine .inr ⟨?_, source, List.mem_of_find?_eq_some hfind, { source with
      id := fresh, name := source.name ++ " copy".toList, enabled := false, index := source.index + 1 }, rfl, rfl⟩
    unfold triggerIds
    rw [List.map_append]
    rfl

/-! ### One edit -/

theorem Distinct.duplicateTrigger (h : library.Distinct) {id fresh : Str} (hne : fresh ≠ []) (hfresh : fresh ∉ library.ids) :
    (library.duplicateTrigger id fresh).Distinct := by
  rcases @duplicateTrigger_ids Rest library id fresh with hsame | ⟨htriggers, source, -, copy, -, hafter⟩
  · rwa [hsame]
  · have hnew : fresh ∉ library.triggerIds := fun hmem =>
      hfresh (List.mem_append_right _ (List.mem_append_left _ hmem))
    have hfolderIds : (library.duplicateTrigger id fresh).folderIds = library.folderIds := by rw [hafter]; rfl
    have hprofileIds : (library.duplicateTrigger id fresh).profileIds = library.profileIds := by rw [hafter]; rfl
    refine ⟨hfolderIds ▸ h.folders, ?_, hprofileIds ▸ h.profiles, ?_⟩
    · rw [htriggers, List.nodup_append]
      refine ⟨h.triggers, List.nodup_singleton _, ?_⟩
      rintro a ha b hb rfl
      exact hnew (List.mem_singleton.mp hb ▸ ha)
    · have hold := h.nonempty
      simp only [ids, hfolderIds, hprofileIds, htriggers, List.mem_append, List.mem_singleton] at hold ⊢
      rintro (hmem | (hmem | hnil) | hmem)
      · exact hold (.inl hmem)
      · exact hold (.inr (.inl hmem))
      · exact hne hnil.symm
      · exact hold (.inr (.inr hmem))

theorem nodup_ids_duplicateTrigger (h : library.ids.Nodup) {id fresh : Str} (hfresh : fresh ∉ library.ids) :
    (library.duplicateTrigger id fresh).ids.Nodup := by
  rcases @duplicateTrigger_ids Rest library id fresh with hsame | ⟨htriggers, source, -, copy, -, hafter⟩
  · rwa [hsame]
  · have hfolderIds : (library.duplicateTrigger id fresh).folderIds = library.folderIds := by rw [hafter]; rfl
    have hprofileIds : (library.duplicateTrigger id fresh).profileIds = library.profileIds := by rw [hafter]; rfl
    have hperm : (library.duplicateTrigger id fresh).ids.Perm (fresh :: library.ids) := by
      unfold ids
      rw [hfolderIds, hprofileIds, htriggers, List.append_assoc, List.singleton_append]
      exact (List.perm_middle.append_left _).trans List.perm_middle
    exact hperm.nodup_iff.mpr (List.nodup_cons.mpr ⟨hfresh, h⟩)

theorem Distinct.apply (h : library.Distinct) {edit : Edit} (hallowed : library.Allowed edit) :
    (library.apply edit).Distinct := by
  cases edit with
  | removeTriggers ids => exact (idsKept_removeTriggers ids).distinct h
  | duplicateTrigger id fresh => exact h.duplicateTrigger hallowed.1 hallowed.2
  | moveTriggers ids folder => exact (idsKept_moveTriggers ids folder).distinct h
  | setTriggersEnabled ids enabled => exact (idsKept_setTriggersEnabled ids enabled).distinct h
  | removeFolder id => exact (idsKept_removeFolder id).distinct h

theorem nodup_ids_apply (h : library.ids.Nodup) {edit : Edit} (hallowed : library.Allowed edit) :
    (library.apply edit).ids.Nodup := by
  cases edit with
  | removeTriggers ids => exact h.sublist (idsKept_removeTriggers ids).ids
  | duplicateTrigger id fresh => exact nodup_ids_duplicateTrigger h hallowed.2
  | moveTriggers ids folder => exact h.sublist (idsKept_moveTriggers ids folder).ids
  | setTriggersEnabled ids enabled => exact h.sublist (idsKept_setTriggersEnabled ids enabled).ids
  | removeFolder id => exact h.sublist (idsKept_removeFolder id).ids

namespace Resolved

theorem removeTriggers (h : library.Resolved) (ids : List Str) : (library.removeTriggers ids).Resolved where
  home trigger htrigger := h.home trigger (List.mem_of_mem_filter htrigger)
  parent := h.parent
  profileTriggers := by
    intro profile hprofile id hid
    obtain ⟨old, hold, rfl⟩ := List.mem_map.mp hprofile
    obtain ⟨hmem, hkept⟩ := List.mem_filter.mp hid
    obtain ⟨trigger, htrigger, rfl⟩ := List.mem_map.mp (h.profileTriggers old hold hmem)
    exact List.mem_map_of_mem (List.mem_filter.mpr ⟨htrigger, hkept⟩)
  profileFolders := by
    intro profile hprofile
    obtain ⟨old, hold, rfl⟩ := List.mem_map.mp hprofile
    exact h.profileFolders old hold

theorem duplicateTrigger (h : library.Resolved) (id fresh : Str) : (library.duplicateTrigger id fresh).Resolved := by
  rcases @duplicateTrigger_ids Rest library id fresh with hsame | ⟨htriggers, source, hsource, copy, hhome, hafter⟩
  · rwa [hsame]
  · rw [hafter] at htriggers ⊢
    refine ⟨fun trigger htrigger folder hfolder => ?_, h.parent, fun profile hprofile id hid => ?_, h.profileFolders⟩
    · rcases List.mem_append.mp htrigger with hold | hnew
      · exact h.home trigger hold folder hfolder
      · rw [List.mem_singleton.mp hnew, hhome] at hfolder
        exact h.home source hsource folder hfolder
    · rw [htriggers]
      exact List.mem_append_left _ (h.profileTriggers profile hprofile hid)

theorem moveTriggers (h : library.Resolved) (ids : List Str) {folder : Option Str}
    (hfolder : ∀ id, folder = some id → id ∈ library.folderIds) : (library.moveTriggers ids folder).Resolved where
  home := by
    intro trigger htrigger home hhome
    obtain ⟨old, hold, rfl⟩ := List.mem_map.mp htrigger
    split at hhome
    · exact hfolder home hhome
    · exact h.home old hold home hhome
  parent := h.parent
  profileTriggers := by
    rw [triggerIds_moveTriggers]
    exact h.profileTriggers
  profileFolders := h.profileFolders

theorem setTriggersEnabled (h : library.Resolved) (ids : List Str) (enabled : Bool) :
    (library.setTriggersEnabled ids enabled).Resolved where
  home := by
    intro trigger htrigger home hhome
    obtain ⟨old, hold, rfl⟩ := List.mem_map.mp htrigger
    split at hhome <;> exact h.home old hold home hhome
  parent := h.parent
  profileTriggers := by
    rw [triggerIds_setTriggersEnabled]
    exact h.profileTriggers
  profileFolders := h.profileFolders

theorem kept {id folder : Str} (hfolder : folder ∈ library.folderIds) (hout : folder ∉ library.folderSubtree id) :
    folder ∈ (library.removeFolder id).folderIds := by
  obtain ⟨record, hrecord, rfl⟩ := List.mem_map.mp hfolder
  exact List.mem_map_of_mem (List.mem_filter.mpr ⟨hrecord, decide_eq_true hout⟩)

theorem removeFolder (h : library.Resolved) (hnonempty : [] ∉ library.folderIds) (id : Str) :
    (library.removeFolder id).Resolved where
  home := by
    intro trigger htrigger home hhome
    obtain ⟨old, hold, rfl⟩ := List.mem_map.mp htrigger
    unfold uproot at hhome
    split at hhome
    · cases hhome
    · rename_i hstays
      have hmem := h.home old hold home hhome
      refine kept hmem fun hin => hstays ?_
      rw [hhome]
      exact decide_eq_true ⟨fun hnil => hnonempty (hnil ▸ hmem), hin⟩
  parent := by
    intro folder hfolder parent hparent
    obtain ⟨hold, hstays⟩ := List.mem_filter.mp hfolder
    refine kept (h.parent folder hold parent hparent) fun hin => of_decide_eq_true hstays ?_
    -- a folder under one that goes would go too
    exact mem_folderSubtree.mpr ((mem_folderSubtree.mp hin).tail ⟨folder, hold, hparent, rfl⟩)
  profileTriggers := by
    intro profile hprofile
    obtain ⟨old, hold, rfl⟩ := List.mem_map.mp hprofile
    rw [triggerIds_removeFolder]
    exact h.profileTriggers old hold
  profileFolders := by
    intro profile hprofile folder hfolder
    obtain ⟨old, hold, rfl⟩ := List.mem_map.mp hprofile
    obtain ⟨hmem, hstays⟩ := List.mem_filter.mp hfolder
    exact kept (h.profileFolders old hold hmem) (of_decide_eq_true hstays)

theorem apply (h : library.Resolved) (hdistinct : library.Distinct) {edit : Edit} (hallowed : library.Allowed edit) :
    (library.apply edit).Resolved := by
  cases edit with
  | removeTriggers ids => exact h.removeTriggers ids
  | duplicateTrigger id fresh => exact h.duplicateTrigger id fresh
  | moveTriggers ids folder => exact h.moveTriggers ids hallowed
  | setTriggersEnabled ids enabled => exact h.setTriggersEnabled ids enabled
  | removeFolder id => exact h.removeFolder (fun hnil => hdistinct.nonempty (List.mem_append_left _ hnil)) id

end Resolved

theorem forall₂_map_of {R : Trigger Rest → Trigger Rest → Prop} {f : Trigger Rest → Trigger Rest} {l : List (Trigger Rest)}
    (h : ∀ trigger ∈ l, R trigger (f trigger)) : List.Forall₂ R l (l.map f) := by
  rw [List.forall₂_map_right_iff]
  exact List.forall₂_same.mpr h

theorem keeps_removeFolder (h : library.Resolved) (hnonempty : [] ∉ library.folderIds) (id : Str) :
    FolderRemoved library (library.removeFolder id) id where
  kept := List.filter_sublist
  folders folder hfolder := by
    show folder ∈ library.folders.filter _ ↔ _
    rw [List.mem_filter, decide_eq_true_eq, mem_folderSubtree]
    exact and_iff_right hfolder
  triggers := by
    refine forall₂_map_of fun trigger htrigger => ?_
    unfold uproot
    split
    · rename_i hgoes
      obtain ⟨folder, hfolder, hin⟩ := Option.any_eq_true _ _ |>.mp hgoes
      exact .inl ⟨⟨folder, hfolder, mem_folderSubtree.mp (of_decide_eq_true hin).2⟩, rfl⟩
    · rename_i hstays
      refine .inr ⟨fun folder hfolder hunder => hstays ?_, rfl⟩
      have hmem := h.home trigger htrigger folder hfolder
      rw [hfolder]
      exact decide_eq_true ⟨fun hnil => hnonempty (hnil ▸ hmem), mem_folderSubtree.mpr hunder⟩

theorem keeps (h : library.Resolved) (hdistinct : library.Distinct) (edit : Edit) : library.Keeps edit := by
  cases edit with
  | removeTriggers ids => trivial
  | duplicateTrigger id fresh => trivial
  | moveTriggers ids folder => trivial
  | setTriggersEnabled ids enabled =>
    refine forall₂_map_of fun trigger _ => ?_
    split
    · rename_i hset
      refine ⟨rfl, fun hquarantined henabled => absurd ⟨henabled, hquarantined⟩ hset.2⟩
    · exact ⟨rfl, fun _ henabled => henabled⟩
  | removeFolder id => exact keeps_removeFolder h (fun hnil => hdistinct.nonempty (List.mem_append_left _ hnil)) id

/-! ### Runs -/

/-- Over any sequence of edits of a library in which ids are distinct and references resolve, they are and they do; a
removed folder takes exactly what is under it and no trigger; and no quarantined trigger is enabled. -/
theorem edits_keep_references (edits : List Edit) (hdistinct : library.Distinct) (hresolved : library.Resolved)
    (hallowed : Along Allowed apply library edits) :
    (edits.foldl apply library).Distinct ∧ (edits.foldl apply library).Resolved ∧
      (library.ids.Nodup → (edits.foldl apply library).ids.Nodup) ∧ Along Keeps apply library edits := by
  induction edits generalizing library with
  | nil => exact ⟨hdistinct, hresolved, id, trivial⟩
  | cons edit edits ih =>
    obtain ⟨hedit, hrest⟩ := Along.cons_iff.mp hallowed
    obtain ⟨hd, hr, hids, hkeeps⟩ := ih (hdistinct.apply hedit) (hresolved.apply hdistinct hedit) hrest
    exact ⟨hd, hr, fun hnodup => hids (nodup_ids_apply hnodup hedit),
      Along.cons_iff.mpr ⟨keeps hresolved hdistinct edit, hkeeps⟩⟩

end TriggerLibrary

namespace Cycle

/-- Two folders each under the other, and one at the root. -/
def library : TriggerLibrary Unit where
  folders := [⟨['a'], ['A'], some ['b'], 0, true⟩, ⟨['b'], ['B'], some ['a'], 0, true⟩, ⟨['c'], ['C'], none, 1, true⟩]
  triggers := [⟨['t'], ['T'], some ['b'], 0, false, some ⟨['r'], []⟩, ()⟩, ⟨['u'], ['U'], some ['c'], 1, false, none, ()⟩]
  profiles := [⟨['p'], ['P'], true, [['t'], ['u']], [['a'], ['c']]⟩]

/-- Edits of a small library, one of each kind. -/
def edits : List Edit :=
  [.setTriggersEnabled [['t'], ['u']] true, .duplicateTrigger ['t'] ['n'], .moveTriggers [['n']] (some ['c']),
    .removeFolder ['a'], .removeTriggers [['u']]]

theorem distinct : library.Distinct := ⟨by decide, by decide, by decide, by decide⟩

theorem resolved : library.Resolved := by
  constructor <;> simp [library, TriggerLibrary.folderIds, TriggerLibrary.triggerIds]

theorem allowed : Along TriggerLibrary.Allowed TriggerLibrary.apply library edits := by
  refine ⟨trivial, ⟨by decide, by decide⟩, fun id hid => ?_, trivial, trivial, trivial⟩
  obtain rfl := Option.some.inj hid
  decide

end Cycle

theorem TriggerLibrary.cycle_removed : (Cycle.edits.foldl apply Cycle.library).Distinct ∧
    (Cycle.edits.foldl apply Cycle.library).Resolved ∧ Along Keeps apply Cycle.library Cycle.edits ∧
    (Cycle.edits.foldl apply Cycle.library).folderIds = [['c']] ∧
    (Cycle.edits.foldl apply Cycle.library).triggerIds = [['t'], ['n']] := by
  obtain ⟨hdistinct, hresolved, -, hkeeps⟩ := edits_keep_references Cycle.edits Cycle.distinct Cycle.resolved Cycle.allowed
  exact ⟨hdistinct, hresolved, hkeeps, by decide, by decide⟩

end Stonemite.Desktop
