import Stonemite.Combat.Shares

/-!
# Exact rates and shares

`wideMulChecked` is the product with the overflow checks of a debug build: none of them fires. A rate is the
quotient rounded half up.
-/

namespace Stonemite.Combat

/-- `*` of two `u128`, checked for overflow. -/
def checkedMul (w a b : Nat) : Option Nat := if a * b < 2 ^ w then some (a * b) else none

/-- `wide_mul` with every `*` and `+` checked; the shifts drop bits without a check. -/
def wideMulChecked (left right : Nat) : Option (Nat × Nat) := do
  let mask := 2 ^ 64 - 1
  let leftLow := left &&& mask
  let leftHigh := left >>> 64
  let rightLow := right &&& mask
  let rightHigh := right >>> 64
  let lowLow ← checkedMul 128 leftLow rightLow
  let lowHigh ← checkedMul 128 leftLow rightHigh
  let highLow ← checkedMul 128 leftHigh rightLow
  let highHigh ← checkedMul 128 leftHigh rightHigh
  let carry ← checkedAdd 128 (lowLow >>> 64) (lowHigh &&& mask)
  let carry ← checkedAdd 128 carry (highLow &&& mask)
  let low := (lowLow &&& mask) ||| ((carry &&& mask) <<< 64) % 2 ^ 128
  let high ← checkedAdd 128 highHigh (lowHigh >>> 64)
  let high ← checkedAdd 128 high (highLow >>> 64)
  let high ← checkedAdd 128 high (carry >>> 64)
  pure (high, low)

theorem checkedMul_of_lt {w a b : ℕ} (h : a * b < 2 ^ w) : checkedMul w a b = some (wrappingMul w a b) := by
  rw [checkedMul, if_pos h, wrappingMul_of_lt h]

theorem checkedAdd_of_lt {w a b : ℕ} (h : a + b < 2 ^ w) : checkedAdd w a b = some (wrappingAdd w a b) := by
  rw [checkedAdd, if_pos h, wrappingAdd_of_lt h]

theorem wideMulChecked_eq {left right : ℕ} (hl : left < 2 ^ 128) (hr : right < 2 ^ 128) :
    wideMulChecked left right = some (wideMul left right) := by
  have hmask (n : ℕ) : n &&& (2 ^ 64 - 1) < 2 ^ 64 := by
    rw [Nat.and_two_pow_sub_one_eq_mod]
    exact Nat.mod_lt _ (by norm_num)
  have hshift {n : ℕ} (h : n < 2 ^ 128) : n >>> 64 < 2 ^ 64 := by
    rw [Nat.shiftRight_eq_div_pow]
    exact Nat.div_lt_of_lt_mul (by omega)
  -- a product of halves leaves room for two more halves
  have hhigh {n : ℕ} (h : n ≤ (2 ^ 64 - 1) * (2 ^ 64 - 1)) : n >>> 64 ≤ 2 ^ 64 - 2 := by
    rw [Nat.shiftRight_eq_div_pow]
    omega
  have hword {n : ℕ} (h : n ≤ (2 ^ 64 - 1) * (2 ^ 64 - 1)) : n < 2 ^ 128 := lt_of_le_of_lt h (by norm_num)
  have hll := mul_half_lt (hmask left) (hmask right)
  have hlh := mul_half_lt (hmask left) (hshift hr)
  have hhl := mul_half_lt (hshift hl) (hmask right)
  have hhh := mul_half_lt (hshift hl) (hshift hr)
  unfold wideMulChecked wideMul
  dsimp only
  rw [checkedMul_of_lt (hword hll), checkedMul_of_lt (hword hlh), checkedMul_of_lt (hword hhl), checkedMul_of_lt (hword hhh)]
  simp only [Option.bind_eq_bind, Option.bind_some]
  rw [wrappingMul_of_lt (hword hll), wrappingMul_of_lt (hword hlh), wrappingMul_of_lt (hword hhl),
    wrappingMul_of_lt (hword hhh)]
  generalize (left &&& (2 ^ 64 - 1)) * (right &&& (2 ^ 64 - 1)) = ll at *
  generalize (left &&& (2 ^ 64 - 1)) * (right >>> 64) = lh at *
  generalize (left >>> 64) * (right &&& (2 ^ 64 - 1)) = hl at *
  generalize (left >>> 64) * (right >>> 64) = hh at *
  have hc1 := hhigh hll
  have hc2 := hmask lh
  have hc3 := hmask hl
  have hcarry : ll >>> 64 + (lh &&& (2 ^ 64 - 1)) + (hl &&& (2 ^ 64 - 1)) < 2 ^ 66 := by omega
  rw [checkedAdd_of_lt (a := ll >>> 64) (by omega)]
  simp only [Option.bind_some]
  rw [wrappingAdd_of_lt (a := ll >>> 64) (by omega), checkedAdd_of_lt (by omega)]
  simp only [Option.bind_some]
  rw [wrappingAdd_of_lt (by omega)]
  generalize hcarryEq : ll >>> 64 + (lh &&& (2 ^ 64 - 1)) + (hl &&& (2 ^ 64 - 1)) = carry at *
  have hover : carry >>> 64 < 4 := by
    rw [Nat.shiftRight_eq_div_pow]
    omega
  have hd1 := hhigh hlh
  have hd2 := hhigh hhl
  rw [checkedAdd_of_lt (a := hh) (by omega)]
  simp only [Option.bind_some]
  rw [wrappingAdd_of_lt (a := hh) (by omega), checkedAdd_of_lt (a := hh + lh >>> 64) (by omega)]
  simp only [Option.bind_some]
  rw [wrappingAdd_of_lt (a := hh + lh >>> 64) (by omega), checkedAdd_of_lt (by omega)]
  rfl

theorem div_add_half (n : ℕ) {k : ℕ} (hk : 0 < k) :
    n / k + (if (k + 1) / 2 ≤ n % k then 1 else 0) = ⌊(n : ℚ) / k + 1 / 2⌋₊ := by
  have hhalf : (n : ℚ) / k + 1 / 2 = ((2 * n + k : ℕ) : ℚ) / ((2 * k : ℕ) : ℚ) := by
    have hk' : (k : ℚ) ≠ 0 := by exact_mod_cast hk.ne'
    push_cast
    field_simp
  rw [hhalf, Nat.floor_div_eq_div]
  have hsplit := Nat.div_add_mod n k
  have hrest := Nat.mod_lt n hk
  generalize n / k = q at *
  generalize n % k = r at *
  subst hsplit
  have hsum : 2 * (k * q + r) + k = (2 * r + k) + (2 * k) * q := by ring
  rw [hsum, Nat.add_mul_div_left _ _ (by omega)]
  split_ifs with h
  · rw [show (2 * r + k) / (2 * k) = 1 from Nat.div_eq_of_lt_le (by omega) (by omega)]
    omega
  · rw [Nat.div_eq_of_lt (by omega)]
    omega

theorem roundRate_eq (damage seconds : ℕ) : roundRate damage seconds =
    checkedAdd 128 ⌊(damage : ℚ) / (max seconds 1 : ℕ) + 1 / 2⌋₊ 0 := by
  unfold roundRate
  dsimp only
  rw [← div_add_half damage (by omega : 0 < max seconds 1)]
  rfl

/-- For all words: a rate is the quotient rounded half up, absent only beyond a word; a share is the exact floor;
and the two halves of a product are the product, computed without overflow. -/
theorem rates_and_shares_exact (damage part total left right : BitVec 128) (seconds : UInt64) :
    (roundRate damage.toNat seconds.toNat =
      let rate := ⌊(damage.toNat : ℚ) / (max seconds.toNat 1 : ℕ) + 1 / 2⌋₊
      if rate < 2 ^ 128 then some rate else none) ∧
    ratioMillionths part.toNat total.toNat =
      (if total.toNat = 0 then 0 else 1000000 * min part.toNat total.toNat / total.toNat) ∧
    ∃ high low, high < 2 ^ 128 ∧ low < 2 ^ 128 ∧ wideMulChecked left.toNat right.toNat = some (high, low) ∧
      wideMul left.toNat right.toNat = (high, low) ∧ high * 2 ^ 128 + low = left.toNat * right.toNat := by
  refine ⟨?_, ?_, ?_⟩
  · rw [roundRate_eq]
    rfl
  · have htotal := total.isLt
    have hmin : ratioMillionths part.toNat total.toNat = ratioMillionths (min part.toNat total.toNat) total.toNat := by
      unfold ratioMillionths
      rw [Nat.min_eq_left (Nat.min_le_right part.toNat total.toNat)]
    rw [hmin, ratioMillionths_eq (Nat.min_le_right _ _) htotal, Nat.mul_comm]
    split_ifs with hzero
    · rw [hzero, Nat.div_zero]
    · rfl
  · have hvalue := wideMul_value left.isLt right.isLt
    have hchecked := wideMulChecked_eq left.isLt right.isLt
    have hlow : (wideMul left.toNat right.toNat).2 < 2 ^ 128 := by
      unfold wideMul
      exact Nat.or_lt_two_pow (lt_of_le_of_lt Nat.and_le_right (by norm_num)) (Nat.mod_lt _ (by norm_num))
    have hproduct := Nat.mul_lt_mul'' left.isLt right.isLt
    have hhigh : (wideMul left.toNat right.toNat).1 < 2 ^ 128 := by omega
    exact ⟨(wideMul left.toNat right.toNat).1, (wideMul left.toNat right.toNat).2, hhigh, hlow, hchecked, rfl, hvalue⟩

end Stonemite.Combat
