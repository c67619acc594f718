import Stonemite.Combat.Metrics

/-!
# Shares and rates

`ratio_millionths` multiplies in two halves and divides by a binary search. `wideMul_value` says the
product is exact and `ratioMillionths_eq` that the share is the exact floor, so shares never sum to more
than the whole.
-/

namespace Stonemite.Combat

theorem mul_half_lt {a b : ℕ} (ha : a < 2 ^ 64) (hb : b < 2 ^ 64) : a * b ≤ (2 ^ 64 - 1) * (2 ^ 64 - 1) :=
  Nat.mul_le_mul (by omega) (by omega)

theorem or_shift_half {a b : ℕ} (ha : a < 2 ^ 64) (hb : b < 2 ^ 64) : a ||| (b <<< 64) % 2 ^ 128 = b * 2 ^ 64 + a := by
  have hword : b <<< 64 < 2 ^ 128 := by
    rw [Nat.shiftLeft_eq]
    have := Nat.mul_lt_mul_of_pos_right hb (show 0 < 2 ^ 64 by norm_num)
    simpa using this
  rw [Nat.mod_eq_of_lt hword, Nat.or_comm, ← Nat.shiftLeft_add_eq_or_of_lt ha, Nat.shiftLeft_eq]

theorem wideMul_value {left right : ℕ} (hl : left < 2 ^ 128) (hr : right < 2 ^ 128) :
    (wideMul left right).1 * 2 ^ 128 + (wideMul left right).2 = left * right := by
  have hmask (n : ℕ) : n &&& (2 ^ 64 - 1) = n % 2 ^ 64 := Nat.and_two_pow_sub_one_eq_mod n 64
  have hshift (n : ℕ) : n >>> 64 = n / 2 ^ 64 := Nat.shiftRight_eq_div_pow n 64
  -- the four limbs, and the four products of limbs
  have hsplit (n : ℕ) : n / 2 ^ 64 * 2 ^ 64 + n % 2 ^ 64 = n := Nat.div_add_mod' n (2 ^ 64)
  have hlow (n : ℕ) : n % 2 ^ 64 < 2 ^ 64 := Nat.mod_lt _ (by norm_num)
  have hhigh {n : ℕ} (h : n < 2 ^ 128) : n / 2 ^ 64 < 2 ^ 64 := Nat.div_lt_of_lt_mul (by omega)
  unfold wideMul
  simp only [hmask, hshift]
  obtain ⟨a, ha⟩ : ∃ a, a = left % 2 ^ 64 := ⟨_, rfl⟩
  obtain ⟨b, hb⟩ : ∃ b, b = left / 2 ^ 64 := ⟨_, rfl⟩
  obtain ⟨c, hc⟩ : ∃ c, c = right % 2 ^ 64 := ⟨_, rfl⟩
  obtain ⟨d, hd⟩ : ∃ d, d = right / 2 ^ 64 := ⟨_, rfl⟩
  have hleft : left = b * 2 ^ 64 + a := by rw [ha, hb, hsplit]
  have hright : right = d * 2 ^ 64 + c := by rw [hc, hd, hsplit]
  have hac := mul_half_lt (ha ▸ hlow left) (hc ▸ hlow right)
  have had := mul_half_lt (ha ▸ hlow left) (hd ▸ hhigh hr)
  have hbc := mul_half_lt (hb ▸ hhigh hl) (hc ▸ hlow right)
  have hbd := mul_half_lt (hb ▸ hhigh hl) (hd ▸ hhigh hr)
  have hmul {n : ℕ} (h : n ≤ (2 ^ 64 - 1) * (2 ^ 64 - 1)) : n < 2 ^ 128 := lt_of_le_of_lt h (by norm_num)
  rw [← ha, ← hb, ← hc, ← hd, wrappingMul_of_lt (hmul hac), wrappingMul_of_lt (hmul had),
    wrappingMul_of_lt (hmul hbc), wrappingMul_of_lt (hmul hbd)]
  have hproduct : left * right = b * d * (2 ^ 64 * 2 ^ 64) + (a * d + b * c) * 2 ^ 64 + a * c := by
    rw [hleft, hright]
    ring
  rw [hproduct]
  generalize a * c = ac at *
  generalize a * d = ad at *
  generalize b * c = bc at *
  generalize b * d = bd at *
  -- none of the sums wraps
  have hcarry : wrappingAdd 128 (wrappingAdd 128 (ac / 2 ^ 64) (ad % 2 ^ 64)) (bc % 2 ^ 64) =
      ac / 2 ^ 64 + ad % 2 ^ 64 + bc % 2 ^ 64 := by
    rw [wrappingAdd_of_lt (a := ac / 2 ^ 64) (by omega), wrappingAdd_of_lt (by omega)]
  rw [hcarry]
  have hsum : wrappingAdd 128 (wrappingAdd 128 (wrappingAdd 128 bd (ad / 2 ^ 64)) (bc / 2 ^ 64))
      ((ac / 2 ^ 64 + ad % 2 ^ 64 + bc % 2 ^ 64) / 2 ^ 64) =
        bd + ad / 2 ^ 64 + bc / 2 ^ 64 + (ac / 2 ^ 64 + ad % 2 ^ 64 + bc % 2 ^ 64) / 2 ^ 64 := by
    rw [wrappingAdd_of_lt (a := bd) (by omega), wrappingAdd_of_lt (a := bd + ad / 2 ^ 64) (by omega),
      wrappingAdd_of_lt (by omega)]
  rw [hsum, or_shift_half (hlow _) (hlow _)]
  omega

theorem wideLE_wideMul {a b c d : ℕ} (ha : a < 2 ^ 128) (hb : b < 2 ^ 128) (hc : c < 2 ^ 128) (hd : d < 2 ^ 128) :
    wideLE (wideMul a b) (wideMul c d) = true ↔ a * b ≤ c * d := by
  have hab := wideMul_value ha hb
  have hcd := wideMul_value hc hd
  have hlow {l r : ℕ} : (wideMul l r).2 < 2 ^ 128 := by
    unfold wideMul
    exact Nat.or_lt_two_pow (lt_of_le_of_lt Nat.and_le_right (by norm_num)) (Nat.mod_lt _ (by norm_num))
  have h1 : (wideMul a b).2 < 2 ^ 128 := hlow
  have h2 : (wideMul c d).2 < 2 ^ 128 := hlow
  generalize wideMul a b = x at *
  generalize wideMul c d = y at *
  unfold wideLE
  simp only [Bool.or_eq_true, Bool.and_eq_true, decide_eq_true_eq, beq_iff_eq]
  rw [← hab, ← hcd]
  omega

/-- The search ends at the greatest multiplier whose product fits. -/
theorem mulDivSearch_eq {d n m : ℕ} (fuel : ℕ) {low high : ℕ} (hdw : d < 2 ^ 128) (hn : n < 2 ^ 128)
    (hm : m < 2 ^ 128) (hw : high < 2 ^ 128) (hfuel : high - low ≤ fuel) (hle : low ≤ high)
    (hlow : low * d ≤ n * m) (hhigh : n * m < (high + 1) * d) :
    mulDivSearch d (wideMul n m) fuel low high = n * m / d := by
  induction fuel generalizing low high with
  | zero =>
    obtain rfl : low = high := by omega
    exact (Nat.div_eq_of_lt_le hlow hhigh).symm
  | succ fuel ih =>
    unfold mulDivSearch
    dsimp only
    split_ifs with hlt hfit
    · -- the middle fits: the answer is not below it
      have hfit := (wideLE_wideMul (by omega) hdw hn hm).mp hfit
      exact ih hw (by omega) (by omega) hfit hhigh
    · have hfit : n * m < (low + (high - low + 1) / 2) * d := by
        rw [wideLE_wideMul (by omega) hdw hn hm] at hfit
        omega
      refine ih (by omega) (by omega) (by omega) hlow ?_
      rwa [show low + (high - low + 1) / 2 - 1 + 1 = low + (high - low + 1) / 2 by omega]
    · obtain rfl : low = high := by omega
      exact (Nat.div_eq_of_lt_le hlow hhigh).symm

theorem ratioMillionths_eq {value total : ℕ} (h : value ≤ total) (ht : total < 2 ^ 128) :
    ratioMillionths value total = value * 1000000 / total := by
  unfold ratioMillionths
  split_ifs with h0
  · subst h0
    rw [Nat.div_zero]
  · have hpos : 0 < total := Nat.pos_of_ne_zero h0
    have hle : value * 1000000 ≤ total * 1000000 := Nat.mul_le_mul_right _ h
    rw [Nat.min_eq_left h]
    unfold mulDivBounded
    rw [mulDivSearch_eq 1000000 ht (lt_of_le_of_lt h ht) (by norm_num) (by norm_num) (by omega) (by omega)
      (by omega) (by omega)]
    refine Nat.mod_eq_of_lt (lt_of_le_of_lt (Nat.div_le_div_right hle) ?_)
    rw [Nat.mul_div_cancel_left _ hpos]
    norm_num

theorem sum_shares_le (l : List ℕ) (m : ℕ) : (l.map fun n => n * m / l.sum).sum ≤ m := by
  have hsum (t : ℕ) : (l.map fun n => n * m / t).sum ≤ l.sum * m / t := by
    induction l with
    | nil => exact Nat.zero_le _
    | cons n l ih =>
      rw [List.map_cons, List.sum_cons, List.sum_cons, Nat.add_mul]
      exact (Nat.add_le_add_left ih _).trans Nat.div_add_div_le_add_div
  obtain h0 | hpos := Nat.eq_zero_or_pos l.sum
  · refine (hsum l.sum).trans ?_
    rw [h0, Nat.zero_mul, Nat.zero_div]
    exact Nat.zero_le _
  · exact (hsum l.sum).trans (Nat.mul_div_cancel_left m hpos).le

end Stonemite.Combat
