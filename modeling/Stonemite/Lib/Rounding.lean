import Mathlib

/-!
# Natural numbers in floating point

The number of at most `p` significant bits that is nearest to a natural number, the even one of two.
-/

namespace Stonemite

/-- The nearest number of so many binary digits, the even one of two. -/
def roundTo (p n : Nat) : Nat :=
  if n < 2 ^ p then n
  else
    let unit := 2 ^ (n.log2 + 1 - p)
    let up := 2 * (n % unit) > unit ∨ 2 * (n % unit) = unit ∧ n / unit % 2 = 1
    (if up then n / unit + 1 else n / unit) * unit

/-- The sum in floating point, from the left. -/
def roundedSum (p : Nat) (xs : List Nat) : Nat := xs.foldl (fun sum x => roundTo p (sum + roundTo p x)) 0

variable {p n : Nat}

theorem roundTo_of_lt (h : n < 2 ^ p) : roundTo p n = n := if_pos h

theorem roundedSum_of_lt {xs : List Nat} (h : xs.sum < 2 ^ p) : roundedSum p xs = xs.sum := by
  have hfold (xs : List Nat) (sum : Nat) (h : sum + xs.sum < 2 ^ p) :
      xs.foldl (fun sum x => roundTo p (sum + roundTo p x)) sum = sum + xs.sum := by
    induction xs generalizing sum with
    | nil => rfl
    | cons x xs ih =>
      rw [List.sum_cons] at h ⊢
      rw [List.foldl_cons, roundTo_of_lt (by omega : x < 2 ^ p), roundTo_of_lt (by omega : sum + x < 2 ^ p),
        ih _ (by omega)]
      omega
  rw [roundedSum, hfold xs 0 (by omega), Nat.zero_add]

theorem roundTo_mul (hp : 0 < p) {m : Nat} (hlow : 2 ^ (p - 1) ≤ m) (hhigh : m < 2 ^ p) (e : Nat) :
    roundTo p (m * 2 ^ e) = m * 2 ^ e := by
  have hpos : 0 < m := Nat.lt_of_lt_of_le (Nat.two_pow_pos _) hlow
  have hne : m * 2 ^ e ≠ 0 := Nat.mul_ne_zero hpos.ne' (Nat.two_pow_pos e).ne'
  have hlog : (m * 2 ^ e).log2 = p - 1 + e := by
    rw [Nat.log2_eq_iff hne]
    constructor
    · rw [Nat.pow_add]
      exact Nat.mul_le_mul_right _ hlow
    · rw [show p - 1 + e + 1 = p + e by omega, Nat.pow_add]
      exact Nat.mul_lt_mul_of_pos_right hhigh (Nat.two_pow_pos e)
  have hexp : p - 1 + e + 1 - p = e := by omega
  rw [roundTo]
  split_ifs with hlt
  · rfl
  · have hunit := Nat.two_pow_pos e
    dsimp only
    rw [hlog, hexp, Nat.mul_mod_left, Nat.mul_div_cancel _ hunit, if_neg (by omega)]

theorem roundTo_spec (hp : 0 < p) (h : 2 ^ p ≤ n) :
    ∃ m e, roundTo p n = m * 2 ^ e ∧ 2 ^ (p - 1) ≤ m ∧ m ≤ 2 ^ p ∧ m * 2 ^ e ≤ 2 * n := by
  have hne : n ≠ 0 := fun h0 => absurd h (by rw [h0]; exact Nat.not_le.mpr (Nat.two_pow_pos p))
  obtain ⟨e, he⟩ : ∃ e, n.log2 + 1 = p + e := ⟨n.log2 + 1 - p, by have := (Nat.le_log2 hne).mpr h; omega⟩
  have hunit : 0 < 2 ^ e := Nat.two_pow_pos e
  have hlow : 2 ^ (p - 1) ≤ n / 2 ^ e := by
    rw [Nat.le_div_iff_mul_le hunit, ← Nat.pow_add]
    exact (Nat.le_log2 hne).mp (by omega)
  have hhigh : n / 2 ^ e < 2 ^ p := by
    rw [Nat.div_lt_iff_lt_mul hunit, ← Nat.pow_add, ← he]
    exact Nat.lt_log2_self
  have hone : 1 ≤ n / 2 ^ e := Nat.le_trans (Nat.two_pow_pos (p - 1)) hlow
  have hdiv : n / 2 ^ e * 2 ^ e ≤ n := Nat.div_mul_le_self n (2 ^ e)
  have hunfold : roundTo p n = (if 2 * (n % 2 ^ e) > 2 ^ e ∨ 2 * (n % 2 ^ e) = 2 ^ e ∧ n / 2 ^ e % 2 = 1 then
      n / 2 ^ e + 1 else n / 2 ^ e) * 2 ^ e := by
    rw [roundTo, if_neg (Nat.not_lt.mpr h), he, Nat.add_sub_cancel_left]
  rw [hunfold]
  split_ifs
  · refine ⟨n / 2 ^ e + 1, e, rfl, by omega, by omega, ?_⟩
    calc (n / 2 ^ e + 1) * 2 ^ e ≤ (2 * (n / 2 ^ e)) * 2 ^ e := Nat.mul_le_mul_right _ (by omega)
      _ = 2 * (n / 2 ^ e * 2 ^ e) := Nat.mul_assoc _ _ _
      _ ≤ 2 * n := Nat.mul_le_mul_left 2 hdiv
  · exact ⟨n / 2 ^ e, e, rfl, hlow, hhigh.le, by omega⟩

theorem roundTo_roundTo (hp : 0 < p) (n : Nat) : roundTo p (roundTo p n) = roundTo p n := by
  rcases Nat.lt_or_ge n (2 ^ p) with h | h
  · rw [roundTo_of_lt h, roundTo_of_lt h]
  · obtain ⟨m, e, hround, hlow, hhigh, -⟩ := roundTo_spec hp h
    rw [hround]
    rcases Nat.lt_or_eq_of_le hhigh with hlt | rfl
    · exact roundTo_mul hp hlow hlt e
    · -- rounded up to the next power of two
      have hsame : 2 ^ p * 2 ^ e = 2 ^ (p - 1) * 2 ^ (e + 1) := by
        rw [← Nat.pow_add, ← Nat.pow_add]
        congr 1
        omega
      rw [hsame]
      exact roundTo_mul hp le_rfl (Nat.pow_lt_pow_right (by decide) (by omega)) (e + 1)

theorem roundTo_le (hp : 0 < p) (n : Nat) : roundTo p n ≤ 2 * n := by
  rcases Nat.lt_or_ge n (2 ^ p) with h | h
  · rw [roundTo_of_lt h]
    omega
  · obtain ⟨m, e, hround, -, -, hle⟩ := roundTo_spec hp h
    rwa [hround]

theorem roundTo_pos (hp : 0 < p) (h : 0 < n) : 0 < roundTo p n := by
  rcases Nat.lt_or_ge n (2 ^ p) with hlt | hge
  · rwa [roundTo_of_lt hlt]
  · obtain ⟨m, e, hround, hlow, -, -⟩ := roundTo_spec hp hge
    rw [hround]
    exact Nat.mul_pos (Nat.lt_of_lt_of_le (Nat.two_pow_pos _) hlow) (Nat.two_pow_pos e)

theorem roundTo_zero (p : Nat) : roundTo p 0 = 0 := roundTo_of_lt (Nat.two_pow_pos p)

theorem roundTo_add_le (hp : 0 < p) {k sum x : Nat} (hsum : sum ≤ 2 ^ (k + 1)) (hx : x ≤ 2 ^ k) :
    sum + roundTo p x ≤ 2 ^ (k + 2) ∧ roundTo p (sum + roundTo p x) ≤ 2 ^ (k + 3) := by
  have hround := roundTo_le hp x
  have hle := roundTo_le hp (sum + roundTo p x)
  have hpow : 2 ^ (k + 1) = 2 * 2 ^ k ∧ 2 ^ (k + 2) = 4 * 2 ^ k ∧ 2 ^ (k + 3) = 8 * 2 ^ k :=
    ⟨by ring, by ring, by ring⟩
  omega

end Stonemite
