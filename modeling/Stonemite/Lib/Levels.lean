import Mathlib.Data.List.Basic
import Mathlib.Logic.Function.Basic

/-!
# Levels

Keys that go down and up one after another: what is down in the end.
-/

namespace Stonemite

variable {α : Type} [DecidableEq α]

/-- The keys that are down after some changes. -/
def levels (held : α → Bool) (changes : List (α × Bool)) : α → Bool :=
  changes.foldl (fun held change => Function.update held change.1 change.2) held

theorem levels_append (held : α → Bool) (first second : List (α × Bool)) :
    levels held (first ++ second) = levels (levels held first) second := List.foldl_append

theorem levels_concat (held : α → Bool) (changes : List (α × Bool)) (change : α × Bool) :
    levels held (changes ++ [change]) = Function.update (levels held changes) change.1 change.2 := levels_append _ _ _

theorem levels_of_ne {held : α → Bool} {changes : List (α × Bool)} {a : α} (h : ∀ change ∈ changes, change.1 ≠ a) :
    levels held changes a = held a := by
  induction changes generalizing held with
  | nil => rfl
  | cons change changes ih =>
    obtain ⟨hne, hrest⟩ := List.forall_mem_cons.mp h
    exact (ih hrest).trans (Function.update_of_ne hne.symm ..)

theorem levels_map (held : α → Bool) (keys : List α) (pressed : Bool) (a : α) :
    levels held (keys.map (·, pressed)) a = if a ∈ keys then pressed else held a := by
  induction keys generalizing held with
  | nil => rfl
  | cons key keys ih =>
    show levels (Function.update held key pressed) (keys.map (·, pressed)) a = _
    rw [ih, Function.update_apply]
    by_cases hkey : a = key
    · rw [if_pos hkey, if_pos (List.mem_cons.mpr (.inl hkey)), ite_self]
    · have hmem : a ∈ key :: keys ↔ a ∈ keys := by rw [List.mem_cons, or_iff_right hkey]
      rw [if_neg hkey]
      exact if_congr hmem.symm rfl rfl

/-- Keys that go down and up again are as they were where they were up. -/
theorem levels_press_release (held : α → Bool) {presses releases : List α} (h : presses ⊆ releases) (a : α) :
    levels held (presses.map (·, true) ++ releases.map (·, false)) a = if a ∈ releases then false else held a := by
  rw [levels_append, levels_map, levels_map]
  by_cases hrelease : a ∈ releases
  · rw [if_pos hrelease, if_pos hrelease]
  · rw [if_neg hrelease, if_neg hrelease, if_neg fun hpress => hrelease (h hpress)]

end Stonemite
