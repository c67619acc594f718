import Mathlib.Data.Nat.ModEq
import Mathlib.Data.List.Basic
import Mathlib.Logic.Function.Basic

/-!
# Rings

The places of a ring are written in turn. A ring holds the last entries of the history of what was written, each
at its place; an entry is overwritten once another one went to the same place.
-/

namespace Stonemite

variable {β : Type} {capacity : Nat} [NeZero capacity] {ring : Fin capacity → β} {history : List β}

/-- The ring holds the entries of the history that are no more than its capacity behind. -/
def Holds (ring : Fin capacity → β) (history : List β) : Prop :=
  ∀ i (h : i < history.length), history.length ≤ i + capacity → ring (Fin.ofNat capacity i) = history[i]

/-- An entry from the cursor on shares its place with a later one before the head. -/
def Overwritten (capacity cursor head : Nat) : Prop :=
  ∃ i j, cursor ≤ i ∧ i < j ∧ j < head ∧ i % capacity = j % capacity

omit [NeZero capacity] in
theorem add_le_of_mod_eq {i j : Nat} (hlt : i < j) (heq : i % capacity = j % capacity) : i + capacity ≤ j := by
  have hdvd : capacity ∣ j - i := (Nat.modEq_iff_dvd' hlt.le).mp heq
  have hle := Nat.le_of_dvd (Nat.sub_pos_of_lt hlt) hdvd
  omega

theorem overwritten_iff {cursor head : Nat} : Overwritten capacity cursor head ↔ capacity < head - cursor := by
  constructor
  · rintro ⟨i, j, hi, hij, hj, heq⟩
    have hle := add_le_of_mod_eq hij heq
    omega
  · intro h
    have hpos := Nat.pos_of_ne_zero (NeZero.ne capacity)
    exact ⟨cursor, cursor + capacity, le_rfl, by omega, by omega, (Nat.add_mod_right _ _).symm⟩

namespace Holds

theorem nil (ring : Fin capacity → β) : Holds ring [] := fun i h => absurd h (Nat.not_lt_zero i)

theorem push (h : Holds ring history) (b : β) :
    Holds (Function.update ring (Fin.ofNat capacity history.length) b) (history ++ [b]) := by
  intro i hi hlast
  rw [List.length_append, List.length_singleton] at hi hlast
  rcases Nat.eq_or_lt_of_le (Nat.le_of_lt_succ hi) with rfl | hlt
  · rw [Function.update_self, List.getElem_concat_length rfl]
  · have hne : Fin.ofNat capacity i ≠ Fin.ofNat capacity history.length := by
      intro heq
      have hle := add_le_of_mod_eq hlt (congrArg Fin.val heq)
      omega
    rw [Function.update_of_ne hne, h i hlt (by omega), List.getElem_append_left hlt]

end Holds
end Stonemite
