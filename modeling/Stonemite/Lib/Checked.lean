import Mathlib

/-!
# Fixed-width arithmetic on `Nat` and `Int`

The wrapping, checked and saturating operations of Rust's integer types, on the mathematical
integers the values stand for.
-/

namespace Stonemite

/-- `wrapping_add` of a `w`-bit unsigned integer. -/
def wrappingAdd (w a b : Nat) : Nat := (a + b) % 2 ^ w

/-- `wrapping_mul` of a `w`-bit unsigned integer. -/
def wrappingMul (w a b : Nat) : Nat := a * b % 2 ^ w

/-- `checked_add` of a `w`-bit unsigned integer. -/
def checkedAdd (w a b : Nat) : Option Nat := if a + b < 2 ^ w then some (a + b) else none

/-- `saturating_add` of a `w`-bit unsigned integer. -/
def saturatingAdd (w a b : Nat) : Nat := min (a + b) (2 ^ w - 1)

/-- An integer as an `i64`, when it fits. -/
def toI64 (n : Int) : Option Int := if -2 ^ 63 ≤ n ∧ n < 2 ^ 63 then some n else none

/-- The sum of two 64-bit integers, if it is one. -/
def checkedAddI64 (a b : Int) : Option Int := toI64 (a + b)

/-- Their difference, if it is one. -/
def checkedSubI64 (a b : Int) : Option Int := toI64 (a - b)

theorem checkedAdd_eq_some {w a b c : Nat} : checkedAdd w a b = some c ↔ a + b < 2 ^ w ∧ c = a + b := by
  unfold checkedAdd; split <;> simp_all [eq_comm]

theorem toI64_eq_some {n m : Int} : toI64 n = some m ↔ (-2 ^ 63 ≤ n ∧ n < 2 ^ 63) ∧ m = n := by
  unfold toI64; split <;> simp_all [eq_comm]

theorem wrappingAdd_of_lt {w a b : Nat} (h : a + b < 2 ^ w) : wrappingAdd w a b = a + b :=
  Nat.mod_eq_of_lt h

theorem wrappingMul_of_lt {w a b : Nat} (h : a * b < 2 ^ w) : wrappingMul w a b = a * b :=
  Nat.mod_eq_of_lt h

theorem saturatingAdd_of_lt {w a b : Nat} (h : a + b < 2 ^ w) : saturatingAdd w a b = a + b := by
  unfold saturatingAdd; omega

end Stonemite
