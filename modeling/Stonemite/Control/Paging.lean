import Stonemite.Control.Keymap
import Stonemite.Lib.Lists
import Stonemite.Lib.Pages

/-!
# Pages of mapped actions

The names that every selected client maps are listed in pages, and a client of the control server collects the pages.
-/

open Std

namespace Stonemite.Keymaps

def eqKeymapPageSize : Nat := 64

/-- A selected client, with its loaded profiles. -/
structure Source where
  windowNumber : Nat
  shared : Option KeymapFile
  profiles : List (Option KeymapFile)

/-- A page with the boxes that it holds for. -/
structure KeymapListing where
  page : Page EqMappingName
  windowNumbers : List Nat

/-- The page of names after a cursor. -/
def keymapPage (mappings : MappingNames) (after : Option EqMappingName) : Page EqMappingName :=
  pageOf eqKeymapPageSize (afterCursor EqMappingName.compare mappings.toList after)

/-- The names shared so far that the next client maps as well. -/
def shareSource (shared : Option MappingNames) (source : Source) : Except ResolveError (Option MappingNames) :=
  match mappedActions source.shared source.profiles with
  | .error error => .error error
  | .ok mapped =>
    match shared with
    | some shared => .ok (some (shared.filter fun mapping => mapped.contains mapping))
    | none => .ok (some mapped)

/-- `list_eq_keymap_actions_on_ui` over the selected clients. -/
def listEqKeymapActions (sources : List Source) (after : Option EqMappingName) : Except ResolveError KeymapListing :=
  match sources.foldlM shareSource none with
  | .error error => .error error
  | .ok shared => .ok ⟨keymapPage (shared.getD ∅) after, sortBy compare (sources.map (·.windowNumber))⟩

/-- The pages a client loads before it gives up. -/
def maxKeymapPages : Nat := 256

/-- What a client collects while the selected clients stay the same. -/
def loadKeymapActions (page : Option EqMappingName → Page EqMappingName) : Option (List EqMappingName) :=
  collectPages page maxKeymapPages [] [] none

/-! ### The shared names -/

theorem shareSource_mem {source : Source} {shared next : Option MappingNames}
    (h : shareSource shared source = .ok next) : ∃ mapped names, mappedActions source.shared source.profiles = .ok mapped ∧
      next = some names ∧ ∀ mapping, mapping ∈ names ↔ (∀ before, shared = some before → mapping ∈ before) ∧ mapping ∈ mapped := by
  rw [shareSource] at h
  cases hmapped : mappedActions source.shared source.profiles with
  | error error =>
    rw [hmapped] at h
    cases h
  | ok mapped =>
    rw [hmapped] at h
    cases shared with
    | none =>
      cases h
      exact ⟨mapped, mapped, rfl, rfl, fun mapping => by simp⟩
    | some before =>
      cases h
      refine ⟨mapped, _, rfl, rfl, fun mapping => ?_⟩
      simp [ExtTreeSet.mem_filter, ExtTreeSet.get_eq]

theorem foldlM_shareSource {sources : List Source} {shared result : Option MappingNames}
    (h : sources.foldlM shareSource shared = .ok result) :
    (sources = [] ∧ result = shared) ∨ ∃ names, result = some names ∧ ∀ mapping, mapping ∈ names ↔
      (∀ before, shared = some before → mapping ∈ before) ∧ ∀ source ∈ sources, ∃ mapped,
        mappedActions source.shared source.profiles = .ok mapped ∧ mapping ∈ mapped := by
  induction sources generalizing shared with
  | nil =>
    cases h
    exact .inl ⟨rfl, rfl⟩
  | cons source sources ih =>
    rw [List.foldlM_cons] at h
    cases hstep : shareSource shared source with
    | error error =>
      rw [hstep] at h
      cases h
    | ok next =>
      rw [hstep] at h
      obtain ⟨mapped, names, hmapped, rfl, hmem⟩ := shareSource_mem hstep
      have hsource : ∀ mapping, (∃ mapped, mappedActions source.shared source.profiles = .ok mapped ∧ mapping ∈ mapped) ↔
          mapping ∈ mapped := by
        intro mapping
        rw [hmapped]
        simp
      refine .inr ?_
      rcases ih h with ⟨rfl, rfl⟩ | ⟨final, rfl, hfinal⟩
      · refine ⟨names, rfl, fun mapping => ?_⟩
        rw [hmem, List.forall_mem_singleton, hsource]
      · refine ⟨final, rfl, fun mapping => ?_⟩
        rw [hfinal, List.forall_mem_cons, hsource]
        simp only [Option.some_inj, forall_eq', hmem]
        tauto

/-- What is listed is a page of the names that every selected client maps, of no names where none is selected. -/
theorem listEqKeymapActions_shared (sources : List Source) :
    (∃ error, ∀ after, listEqKeymapActions sources after = .error error) ∨
      ∃ names windowNumbers, (∀ after, listEqKeymapActions sources after = .ok ⟨keymapPage names after, windowNumbers⟩) ∧
        ∀ mapping, mapping ∈ names ↔ sources ≠ [] ∧ ∀ source ∈ sources, ∃ mapped,
          mappedActions source.shared source.profiles = .ok mapped ∧ mapping ∈ mapped := by
  cases hfold : sources.foldlM shareSource none with
  | error error => exact .inl ⟨error, fun after => by rw [listEqKeymapActions, hfold]⟩
  | ok shared =>
    refine .inr ⟨shared.getD ∅, _, fun after => by rw [listEqKeymapActions, hfold], fun mapping => ?_⟩
    rcases foldlM_shareSource hfold with ⟨rfl, rfl⟩ | ⟨names, rfl, hmem⟩
    · simp
    · have hne : sources ≠ [] := by
        rintro rfl
        cases hfold
      rw [Option.getD_some, hmem]
      simp [hne]

/-! ### Following the pages -/

theorem ascending_toList (names : MappingNames) :
    names.toList.Pairwise fun a b => EqMappingName.compare a b = .lt := ExtTreeSet.ordered_toList

/-- A page is the longest run of at most 64 of the names after the cursor, and has a next cursor exactly if names remain.
From the start, the pages hold every name once and in order; there is one page for each 64 names. -/
theorem pages_visit_names (names : MappingNames) :
    (∀ after, ∃ remaining, IsPage EqMappingName.compare eqKeymapPageSize (· ∈ names) after (keymapPage names after) remaining) ∧
    ∃ pages, (∀ budget ≥ pages.length, followPages (keymapPage names) budget none = some pages) ∧
      pages.length = (names.size - 1) / eqKeymapPageSize + 1 ∧ pages.flatMap (·.items) = names.toList ∧
      (pages.flatMap (·.items)).Pairwise (fun a b => EqMappingName.compare a b = .lt) ∧
      ∀ mapping, mapping ∈ pages.flatMap (·.items) ↔ mapping ∈ names := by
  have hascending : ([] ++ names.toList : List EqMappingName).Pairwise fun a b => EqMappingName.compare a b = .lt := ascending_toList names
  have hsize : names.toList.length = names.size := ExtTreeSet.length_toList
  refine ⟨fun after => ?_, ?_⟩
  · have hpage := isPage_pageOf (show 0 < eqKeymapPageSize by decide) (ascending_toList names) after
    exact ⟨_, { hpage with mem_iff := fun a => (hpage.mem_iff a).trans (and_congr_left fun _ => ExtTreeSet.mem_toList) }⟩
  · have hfits : names.toList.length ≤ ((names.size - 1) / eqKeymapPageSize + 1) * eqKeymapPageSize := by
      rw [hsize, eqKeymapPageSize]
      omega
    obtain ⟨pages, hpages, hitems, hcount⟩ :=
      followPages_rest (show 0 < eqKeymapPageSize by decide) hascending (Nat.succ_pos _) hfits
    rw [hsize] at hcount
    refine ⟨pages, fun budget hbudget => followPages_mono hpages (hcount.symm.le.trans hbudget), hcount, hitems, ?_, fun mapping => ?_⟩
    · rw [hitems]
      exact ascending_toList names
    · rw [hitems, ExtTreeSet.mem_toList]

/-- A client collects up to 256 pages of names without meeting a cursor twice. -/
theorem loadKeymapActions_all (names : MappingNames) (h : names.size ≤ maxKeymapPages * eqKeymapPageSize) :
    loadKeymapActions (keymapPage names) = some names.toList := by
  have hascending : ([] ++ names.toList : List EqMappingName).Pairwise fun a b => EqMappingName.compare a b = .lt := ascending_toList names
  have hsize : names.toList.length ≤ maxKeymapPages * eqKeymapPageSize := by rwa [ExtTreeSet.length_toList]
  exact collectPages_rest (by decide) hascending (fun _ h => absurd h List.not_mem_nil) (by decide) hsize

end Stonemite.Keymaps
