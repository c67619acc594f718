import Mathlib

/-!
# Rounding to the nearest integer and clamps

Halves are rounded away from zero. A clamp has no value when its bounds are crossed.
-/

namespace Stonemite

/-- The nearest integer, of two the one away from zero. -/
def roundAway (x : ℚ) : Int := if 0 ≤ x then ⌊x + 1 / 2⌋ else ⌈x - 1 / 2⌉

/-- A value between two bounds, which may not cross. -/
def clamp (value lower upper : Int) : Option Int :=
  if lower ≤ upper then some (max lower (min value upper)) else none

section rounding
variable {x y : ℚ}

theorem roundAway_nonneg (h : 0 ≤ x) : 0 ≤ roundAway x := by
  rw [roundAway, if_pos h]
  exact Int.floor_nonneg.mpr (by linarith)

theorem roundAway_nonpos (h : x < 0) : roundAway x ≤ 0 := by
  rw [roundAway, if_neg (not_le.mpr h)]
  refine Int.ceil_le.mpr ?_
  push_cast
  linarith

theorem roundAway_mono (h : x ≤ y) : roundAway x ≤ roundAway y := by
  by_cases hx : 0 ≤ x
  · rw [roundAway, if_pos hx, roundAway, if_pos (hx.trans h)]
    exact Int.floor_mono (by linarith)
  · by_cases hy : 0 ≤ y
    · exact (roundAway_nonpos (not_le.mp hx)).trans (roundAway_nonneg hy)
    · rw [roundAway, if_neg hx, roundAway, if_neg hy]
      exact Int.ceil_mono (by linarith)

theorem lt_roundAway_iff {n : Int} (hn : n < 0) : n < roundAway x ↔ (n : ℚ) + 1 / 2 < x := by
  have hle : (n : ℚ) ≤ -1 := by exact_mod_cast Int.le_sub_one_of_lt hn
  by_cases hx : 0 ≤ x
  · refine iff_of_true (hn.trans_le (roundAway_nonneg hx)) ?_
    linarith
  · rw [roundAway, if_neg hx, Int.lt_ceil]
    constructor <;> intro h <;> linarith

theorem roundAway_nonneg_iff : 0 ≤ roundAway x ↔ -1 / 2 < x := by
  have h := lt_roundAway_iff (x := x) (n := -1) (by decide)
  rw [← Int.add_one_le_iff] at h
  refine h.trans ?_
  push_cast
  constructor <;> intro h <;> linarith

end rounding

section clamping
variable {value lower upper : Int}

theorem clamp_of_le (h : lower ≤ upper) : clamp value lower upper = some (max lower (min value upper)) := if_pos h

end clamping

end Stonemite
