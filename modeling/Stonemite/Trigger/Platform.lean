import Stonemite.Lib.Text
import Stonemite.Lib.Checked

/-!
# What the trigger engine is built on

The two regular expression crates, the floating-point numbers and the Unicode tables. Nothing is assumed
of them here; a theorem that relies on their behaviour says so.
-/

namespace Stonemite.Triggers

/-- A captured group: its byte span and its text. -/
structure Group where
  start : Nat
  stop : Nat
  text : Str
deriving DecidableEq, Repr

/-- The groups of a match; the first is the whole match. -/
abbrev Captures := List (Option Group)

/-- What the engine uses of the `fancy_regex` crate and of `f64`. -/
structure Platform where
  /-- A compiled `fancy_regex`. -/
  Regex : Type
  /-- `RegexBuilder::new(..).backtrack_limit(..).build()`. -/
  build : Str → Nat → Except Str Regex
  captureNames : Regex → List (Option Str)
  /-- `captures_from_pos`, which fails over the backtrack limit. -/
  capturesFromPos : Regex → Str → Nat → Except Str (Option Captures)
  /-- `captures_iter` of the `regex` crate for a static pattern. -/
  capturesIter : Str → Str → List Captures
  /-- `regex::escape`. -/
  escape : Str → Str
  F64 : Type
  ofNat : Nat → F64
  add : F64 → F64 → F64
  sub : F64 → F64 → F64
  mul : F64 → F64 → F64
  lt : F64 → F64 → Bool
  le : F64 → F64 → Bool
  eq : F64 → F64 → Bool
  abs : F64 → F64
  fract : F64 → F64
  round : F64 → F64
  isFinite : F64 → Bool
  /-- The saturating `as u64`. -/
  toU64 : F64 → Nat
  /-- The saturating `as i64`. -/
  toI64 : F64 → Int
  parse : Str → Option F64
  display : F64 → Str
  toUppercase : Str → Str
  toLowercase : Str → Str
  isAlphabetic : Char → Bool
  isAlphanumeric : Char → Bool

namespace Platform
variable (P : Platform)

def zero : P.F64 := P.ofNat 0

/-- `x > 0.0`. -/
def positive (x : P.F64) : Bool := P.lt P.zero x

/-- `(x * 1000.0) as u64`. -/
def millis (x : P.F64) : Nat := P.toU64 (P.mul x (P.ofNat 1000))

/-- `format_counter` and `format_number`. -/
def formatNumber (x : P.F64) : Str :=
  if P.eq (P.fract x) P.zero && P.lt (P.abs x) (P.ofNat (10 ^ 15)) then Str.decimal (P.toI64 x) else P.display x

end Platform

end Stonemite.Triggers
