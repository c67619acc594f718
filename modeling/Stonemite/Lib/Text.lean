import Mathlib

/-!
# Text as character lists

A Rust `str` is the list of its Unicode scalar values, so that the functions below reduce in the
kernel. `compare` on these lists is the byte order of the UTF-8 text.
-/

namespace Stonemite

/-- Texts are lists of characters. -/
abbrev Str := List Char

namespace Str

instance lawfulBEq : LawfulBEq Str := inferInstance

/-- The text with its ASCII letters in lower case. -/
def toAsciiLowercase (s : Str) : Str := s.map Char.toLower

/-- The texts are the same but for the case of ASCII letters. -/
def eqIgnoreAsciiCase (a b : Str) : Bool := a.toAsciiLowercase == b.toAsciiLowercase

/-- The Unicode `White_Space` property, as `char::is_whitespace`. -/
def isWhitespace (c : Char) : Bool :=
  let n := c.toNat
  (9 ≤ n && n ≤ 13) || n == 0x20 || n == 0x85 || n == 0xA0 || n == 0x1680 ||
    (0x2000 ≤ n && n ≤ 0x200A) || n == 0x2028 || n == 0x2029 || n == 0x202F || n == 0x205F ||
    n == 0x3000

/-- The text without the blanks around it. -/
def trim (s : Str) : Str :=
  ((s.dropWhile isWhitespace).reverse.dropWhile isWhitespace).reverse

/-- The parts around the first `c`. -/
def splitOnce (c : Char) : Str → Option (Str × Str)
  | [] => none
  | a :: s => if a = c then some ([], s) else (splitOnce c s).map fun p => (a :: p.1, p.2)

/-- The part after the last `c`, or the whole text without one. -/
def afterLast (c : Char) (s : Str) : Str :=
  (s.reverse.takeWhile (· ≠ c)).reverse

/-- An `i64` in decimal. -/
def decimal (n : Int) : Str :=
  if n < 0 then '-' :: Nat.toDigits 10 n.natAbs else Nat.toDigits 10 n.natAbs

/-- The UTF-8 bytes of `s`. -/
def bytes (s : Str) : List UInt8 := s.flatMap String.utf8EncodeChar

@[simp] theorem eqIgnoreAsciiCase_self (s : Str) : s.eqIgnoreAsciiCase s = true := by
  simp [eqIgnoreAsciiCase]

theorem eqIgnoreAsciiCase_comm (a b : Str) : a.eqIgnoreAsciiCase b = b.eqIgnoreAsciiCase a := by
  simp only [eqIgnoreAsciiCase, Bool.beq_comm]

theorem eqIgnoreAsciiCase_iff {a b : Str} :
    a.eqIgnoreAsciiCase b = true ↔ a.toAsciiLowercase = b.toAsciiLowercase := by
  simp [eqIgnoreAsciiCase]

end Str
end Stonemite
