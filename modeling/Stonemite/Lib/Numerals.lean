import Stonemite.Lib.Parsing

/-!
# Decimal numerals of Unicode

The decimal digits beyond ASCII are a parameter. A numeral has a value of any size; `parseUnsigned` reads those
of ASCII digits that fit.
-/

namespace Stonemite

/-- The decimal digits of Unicode, each with its value. No other is an ASCII character, blank or a letter. -/
structure Numerals where
  value : Char → Option Nat
  ascii : ∀ c, Str.isAsciiDigit c = true → value c = some (c.toNat - '0'.toNat)
  apart : ∀ c, (value c).isSome = true →
    Str.isAsciiDigit c = true ∨ 128 ≤ c.toNat ∧ Str.isWhitespace c = false ∧ c ≠ 'ſ'

namespace Numerals
variable (N : Numerals)

def digit (c : Char) : Bool := (N.value c).isSome

/-- The number that the digits stand for. -/
def number (s : Str) : Nat := s.foldl (fun n c => 10 * n + (N.value c).getD 0) 0

/-- A decimal numeral. -/
def Decimal (s : Str) : Prop := s ≠ [] ∧ ∀ c ∈ s, N.digit c = true

instance (s : Str) : Decidable (N.Decimal s) :=
  decidable_of_iff (s ≠ [] ∧ s.all N.digit = true) (by rw [List.all_eq_true]; rfl)

/-- Written in ASCII digits, with a value of `w` bits. -/
def Fits (w : Nat) (s : Str) : Prop := (∀ c ∈ s, Str.isAsciiDigit c = true) ∧ N.number s < 2 ^ w

instance (w : Nat) (s : Str) : Decidable (N.Fits w s) :=
  decidable_of_iff (s.all Str.isAsciiDigit = true ∧ N.number s < 2 ^ w) (by rw [List.all_eq_true]; rfl)

variable {N}

theorem digit_of_ascii {c : Char} (h : Str.isAsciiDigit c = true) : N.digit c = true := by
  rw [digit, N.ascii c h]
  rfl

theorem ne_of_digit {c d : Char} (h : N.digit c = true) (hd : Str.isAsciiDigit d = false)
    (hascii : d.toNat < 128 ∨ d = 'ſ') : c ≠ d := by
  rintro rfl
  rcases N.apart c h with hdigit | ⟨hlarge, -, hne⟩
  · rw [hd] at hdigit
    cases hdigit
  · rcases hascii with hsmall | rfl
    · omega
    · exact hne rfl

theorem isWhitespace_of_digit {c : Char} (h : N.digit c = true) : Str.isWhitespace c = false := by
  rcases N.apart c h with hdigit | ⟨-, hblank, -⟩
  · have hrange : 48 ≤ c.toNat ∧ c.toNat ≤ 57 := by
      simpa [Str.isAsciiDigit, Char.le_def, UInt32.le_iff_toNat_le] using hdigit
    simp only [Str.isWhitespace, Bool.or_eq_false_iff, Bool.and_eq_false_iff, decide_eq_false_iff_not, beq_eq_false_iff_ne]
    omega
  · exact hblank

theorem number_of_ascii {s : Str} (h : ∀ c ∈ s, Str.isAsciiDigit c = true) : N.number s = Nat.ofDigitChars 10 s 0 := by
  rw [number, Nat.ofDigitChars_eq_foldl]
  refine List.foldl_ext _ _ _ fun n c hc => ?_
  rw [N.ascii c (h c hc)]
  rfl

/-- A text with a character that is no ASCII digit is no number, a leading plus sign apart. -/
theorem parseUnsigned_eq_none {w : Nat} {s : Str} (hsign : '+' ∉ s) (hbad : ¬ ∀ c ∈ s, Str.isAsciiDigit c = true) :
    Str.parseUnsigned w s = none := by
  have hplain : ∀ rest, s = '+' :: rest → False := fun rest heq => hsign (heq ▸ List.mem_cons_self)
  have hall : (s.isEmpty || !s.all Str.isAsciiDigit) = true := by simpa using .inr (by simpa using hbad)
  rw [Str.parseUnsigned]
  · rw [if_pos hall]
  · exact hplain

theorem parseUnsigned_of_decimal {w : Nat} {s : Str} (h : N.Decimal s) (n : Nat) :
    Str.parseUnsigned w s = some n ↔ N.Fits w s ∧ N.number s = n := by
  obtain ⟨hne, hdigit⟩ := h
  by_cases hascii : ∀ c ∈ s, Str.isAsciiDigit c = true
  · rw [Str.parseUnsigned_digits hne hascii, Fits, number_of_ascii hascii]
    split_ifs with hlt
    · rw [Option.some_inj, and_iff_right ⟨hascii, hlt⟩]
    · exact ⟨fun h => (nomatch h), fun h => absurd h.1.2 hlt⟩
  · have hsign : '+' ∉ s := fun hmem => ne_of_digit (hdigit _ hmem) (by decide) (.inl (by decide)) rfl
    rw [parseUnsigned_eq_none hsign hascii]
    exact ⟨fun h => (nomatch h), fun h => absurd h.1.1 hascii⟩

/-- The digits of ASCII alone. -/
def asciiOnly : Numerals where
  value c := if Str.isAsciiDigit c then some (c.toNat - '0'.toNat) else none
  ascii c h := if_pos h
  apart c h := by
    refine .inl ?_
    by_contra hnot
    rw [if_neg hnot] at h
    cases h

end Numerals

end Stonemite
