import Stonemite.Lib.Checked
import Stonemite.Combat.Event

/-!
# Seconds, rates and shares (`metrics.rs`)
-/

namespace Stonemite.Combat

def inclusiveSeconds (first last : EqSecond) : Nat :=
  let seconds := ((checkedSubI64 last first).bind (checkedAddI64 · 1)).bind fun n =>
    if 0 ≤ n then some n.toNat else none
  max (seconds.getD 1) 1

/-- One step of the range sweep: bridge `next` into the current range or close that range. -/
def unionRangeStep (bridgeSeconds : Int) (acc : Nat × (EqSecond × EqSecond))
    (next : EqSecond × EqSecond) : Nat × (EqSecond × EqSecond) :=
  let (total, current) := acc
  let gap := (checkedSubI64 next.1 current.2).getD (2 ^ 63 - 1)
  if next.1 ≤ current.2 ∨ gap ≤ bridgeSeconds then
    (total, (current.1, if current.2 < next.2 then next.2 else current.2))
  else (saturatingAdd 64 total (inclusiveSeconds current.1 current.2), next)

/-- The order of `sort_by_key(|range| (range.0, range.1))`. -/
def RangeLE (a b : EqSecond × EqSecond) : Prop := a.1 < b.1 ∨ a.1 = b.1 ∧ a.2 ≤ b.2

instance : DecidableRel RangeLE := fun _ _ => inferInstanceAs (Decidable (_ ∨ _))

def unionRangeSeconds (ranges : List (EqSecond × EqSecond)) (bridgeSeconds : Int) : Nat :=
  match ranges.insertionSort RangeLE with
  | [] => 1
  | first :: rest =>
    let (total, current) := rest.foldl (unionRangeStep bridgeSeconds) (0, first)
    max (saturatingAdd 64 total (inclusiveSeconds current.1 current.2)) 1

def roundRate (damage seconds : Nat) : Option Nat :=
  let seconds := max seconds 1
  checkedAdd 128 (damage / seconds) (if (seconds + 1) / 2 ≤ damage % seconds then 1 else 0)

/-- The 256-bit product of two `u128`, as its high and low halves. -/
def wideMul (left right : Nat) : Nat × Nat :=
  let mask := 2 ^ 64 - 1
  let leftLow := left &&& mask
  let leftHigh := left >>> 64
  let rightLow := right &&& mask
  let rightHigh := right >>> 64
  let lowLow := wrappingMul 128 leftLow rightLow
  let lowHigh := wrappingMul 128 leftLow rightHigh
  let highLow := wrappingMul 128 leftHigh rightLow
  let highHigh := wrappingMul 128 leftHigh rightHigh
  let carry := wrappingAdd 128 (wrappingAdd 128 (lowLow >>> 64) (lowHigh &&& mask)) (highLow &&& mask)
  let low := (lowLow &&& mask) ||| ((carry &&& mask) <<< 64) % 2 ^ 128
  let high := wrappingAdd 128 (wrappingAdd 128 (wrappingAdd 128 highHigh (lowHigh >>> 64))
    (highLow >>> 64)) (carry >>> 64)
  (high, low)

/-- The order of the `(u128, u128)` pairs. -/
def wideLE (a b : Nat × Nat) : Bool := a.1 < b.1 || (a.1 == b.1 && a.2 ≤ b.2)

/-- The binary search of `mul_div_bounded`; every round lowers `high - low`, which bounds `fuel`. -/
def mulDivSearch (denominator : Nat) (numerator : Nat × Nat) : Nat → Nat → Nat → Nat
  | 0, low, _ => low
  | fuel + 1, low, high =>
    if low < high then
      let middle := low + (high - low + 1) / 2
      if wideLE (wideMul middle denominator) numerator then
        mulDivSearch denominator numerator fuel middle high
      else mulDivSearch denominator numerator fuel low (middle - 1)
    else low

def mulDivBounded (a multiplier denominator : Nat) : Nat :=
  mulDivSearch denominator (wideMul a multiplier) multiplier 0 multiplier

def ratioMillionths (value total : Nat) : Nat :=
  if total = 0 then 0 else mulDivBounded (min value total) 1000000 total % 2 ^ 32

end Stonemite.Combat
