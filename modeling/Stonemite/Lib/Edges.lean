import Mathlib.Data.List.Chain
import Mathlib.Logic.Function.Basic

/-!
# Edges of levels

A report says what the level of a key is. The edges of a list of reports are those that change a level. The
edges of one key never repeat a level, and the last of them is the level reported last.
-/

namespace Stonemite

variable {κ β : Type} [DecidableEq κ] {levels : κ → β} {reports : List (κ × β)}

/-- The levels after the reports. -/
def settle (levels : κ → β) (reports : List (κ × β)) : κ → β :=
  reports.foldl (fun levels report => Function.update levels report.1 report.2) levels

/-- The levels that are reported of a key. -/
def levelsOf (key : κ) (reports : List (κ × β)) : List β := (reports.filter fun report => report.1 = key).map (·.2)

theorem settle_append (levels : κ → β) (l l' : List (κ × β)) : settle levels (l ++ l') = settle (settle levels l) l' :=
  List.foldl_append

theorem settle_cons_of_eq {key : κ} {level : β} (h : levels key = level) :
    settle levels ((key, level) :: reports) = settle levels reports := by
  rw [settle, List.foldl_cons, ← h, Function.update_eq_self]
  rfl

theorem levelsOf_cons_self (key : κ) (level : β) (reports : List (κ × β)) :
    levelsOf key ((key, level) :: reports) = level :: levelsOf key reports := by
  simp [levelsOf]

theorem levelsOf_cons_of_ne {key key' : κ} (h : key' ≠ key) (level : β) (reports : List (κ × β)) :
    levelsOf key ((key', level) :: reports) = levelsOf key reports := by
  simp [levelsOf, h]

theorem getLast?_levelsOf (levels : κ → β) (reports : List (κ × β)) (key : κ) :
    (levelsOf key reports).getLast?.getD (levels key) = settle levels reports key := by
  induction reports generalizing levels with
  | nil => rfl
  | cons report reports ih =>
    obtain ⟨key', level⟩ := report
    have ih := ih (Function.update levels key' level)
    rw [settle, List.foldl_cons]
    by_cases hkey : key' = key
    · subst hkey
      rw [Function.update_self] at ih
      rw [levelsOf_cons_self, List.getLast?_cons, Option.getD_some]
      exact ih
    · rw [Function.update_of_ne (Ne.symm hkey)] at ih
      rw [levelsOf_cons_of_ne hkey]
      exact ih

variable [DecidableEq β]

/-- The reports that change the level of their key. -/
def edges (levels : κ → β) : List (κ × β) → List (κ × β)
  | [] => []
  | (key, level) :: reports =>
    if levels key = level then edges levels reports
    else (key, level) :: edges (Function.update levels key level) reports

theorem edges_cons_of_eq {key : κ} {level : β} (h : levels key = level) :
    edges levels ((key, level) :: reports) = edges levels reports := by
  rw [edges, if_pos h]

theorem edges_cons_of_ne {key : κ} {level : β} (h : levels key ≠ level) :
    edges levels ((key, level) :: reports) = (key, level) :: edges (Function.update levels key level) reports := by
  rw [edges, if_neg h]

theorem edges_append (levels : κ → β) (l l' : List (κ × β)) :
    edges levels (l ++ l') = edges levels l ++ edges (settle levels l) l' := by
  induction l generalizing levels with
  | nil => rfl
  | cons report l ih =>
    obtain ⟨key, level⟩ := report
    by_cases h : levels key = level
    · rw [List.cons_append, edges_cons_of_eq h, edges_cons_of_eq h, settle_cons_of_eq h, ih]
    · rw [List.cons_append, edges_cons_of_ne h, edges_cons_of_ne h, ih]
      rfl

theorem settle_edges (levels : κ → β) (reports : List (κ × β)) :
    settle levels (edges levels reports) = settle levels reports := by
  induction reports generalizing levels with
  | nil => rfl
  | cons report reports ih =>
    obtain ⟨key, level⟩ := report
    by_cases h : levels key = level
    · rw [edges_cons_of_eq h, settle_cons_of_eq h, ih]
    · rw [edges_cons_of_ne h]
      exact ih _

theorem isChain_levelsOf_edges (levels : κ → β) (reports : List (κ × β)) (key : κ) :
    (levels key :: levelsOf key (edges levels reports)).IsChain (· ≠ ·) := by
  induction reports generalizing levels with
  | nil => exact List.isChain_singleton _
  | cons report reports ih =>
    obtain ⟨key', level⟩ := report
    by_cases h : levels key' = level
    · rw [edges_cons_of_eq h]
      exact ih levels
    · rw [edges_cons_of_ne h]
      have ih := ih (Function.update levels key' level)
      by_cases hkey : key' = key
      · subst hkey
        rw [Function.update_self] at ih
        rw [levelsOf_cons_self]
        exact List.isChain_cons_cons.mpr ⟨h, ih⟩
      · rw [Function.update_of_ne (Ne.symm hkey)] at ih
        rw [levelsOf_cons_of_ne hkey]
        exact ih

/-- A list of two levels that never repeats one alternates between them. -/
theorem alternates_of_isChain {level : Bool} {l : List Bool} (h : (level :: l).IsChain (· ≠ ·)) :
    l = (List.range l.length).map fun i => if i % 2 = 0 then !level else level := by
  induction l generalizing level with
  | nil => rfl
  | cons next l ih =>
    obtain ⟨hne, hrest⟩ := List.isChain_cons_cons.mp h
    obtain rfl : next = !level := Bool.eq_not.mpr (Ne.symm hne)
    have ih := ih hrest
    rw [List.length_cons, List.range_succ_eq_map, List.map_cons, List.map_map]
    congr 1
    rw [ih, List.length_map, List.length_range]
    refine List.map_congr_left fun i _ => ?_
    rcases Nat.mod_two_eq_zero_or_one i with hi | hi
    · have hnext : (i + 1) % 2 = 1 := by omega
      simp [hi, hnext]
    · have hnext : (i + 1) % 2 = 0 := by omega
      simp [hi, hnext]

end Stonemite
