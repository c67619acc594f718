import Stonemite.Lib.Lines
import Stonemite.Lib.Text

/-!
# Splitting text and reading numbers

The parts of a text around a character, its lines, and the unsigned numbers of a fixed width that it stands for.
-/

namespace Stonemite.Str

/-- The parts between the separators. -/
def split (c : Char) : Str → List Str
  | [] => [[]]
  | a :: s =>
    match split c s with
    | [] => [[a]]
    | part :: parts => if a = c then [] :: part :: parts else (a :: part) :: parts

def isAsciiDigit (c : Char) : Bool := '0' ≤ c && c ≤ '9'

def isAsciiAlphabetic (c : Char) : Bool := ('a' ≤ c && c ≤ 'z') || ('A' ≤ c && c ≤ 'Z')

/-- `str::parse` of a `w`-bit unsigned integer. -/
def parseUnsigned (w : Nat) (s : Str) : Option Nat :=
  let digits := match s with
    | '+' :: rest => rest
    | _ => s
  if digits.isEmpty || !digits.all isAsciiDigit then none
  else
    let value := digits.foldl (fun n c => 10 * n + (c.toNat - '0'.toNat)) 0
    if value < 2 ^ w then some value else none

/-- The text without such characters at its end. -/
def trimEndMatches (p : Char → Bool) (s : Str) : Str := (s.reverse.dropWhile p).reverse

/-- `str::lines`; a last line keeps its `\r`. -/
def lines (text : Str) : List Str :=
  let rest := unfinished '\n' text
  (completeLines '\n' text).map (fun line => if line.getLast? = some '\r' then line.dropLast else line) ++
    if rest.isEmpty then [] else [rest]

/-- The parts around the last `c`. -/
def rsplitOnce (c : Char) (s : Str) : Option (Str × Str) :=
  (splitOnce c s.reverse).map fun parts => (parts.2.reverse, parts.1.reverse)

/-- The text with its ASCII letters in upper case. -/
def toAsciiUppercase (s : Str) : Str := s.map Char.toUpper

/-- `str::strip_prefix`. -/
def stripPrefix (s pre : Str) : Option Str := if pre.isPrefixOf s then some (s.drop pre.length) else none

/-! ### Parts -/

theorem split_of_notMem {c : Char} {s : Str} (h : c ∉ s) : split c s = [s] := by
  induction s with
  | nil => rfl
  | cons a s ih =>
    rw [List.mem_cons, not_or] at h
    rw [split, ih h.2]
    dsimp only
    rw [if_neg (Ne.symm h.1)]

theorem split_append {c : Char} {p : Str} (h : c ∉ p) (s : Str) : split c (p ++ c :: s) = p :: split c s := by
  have hcons : ∀ s, ∃ part parts, split c s = part :: parts := by
    intro s
    cases s with
    | nil => exact ⟨_, _, rfl⟩
    | cons a s =>
      rw [split]
      cases split c s with
      | nil => exact ⟨_, _, rfl⟩
      | cons part parts =>
        dsimp only
        split_ifs
        · exact ⟨_, _, rfl⟩
        · exact ⟨_, _, rfl⟩
  induction p with
  | nil =>
    obtain ⟨part, parts, hs⟩ := hcons s
    rw [List.nil_append, split, hs]
    dsimp only
    rw [if_pos rfl]
  | cons a p ih =>
    rw [List.mem_cons, not_or] at h
    rw [List.cons_append, split, ih h.2]
    dsimp only
    rw [if_neg (Ne.symm h.1)]

theorem split_intercalate {c : Char} {field : Str} {fields : List Str} (h : ∀ f ∈ field :: fields, c ∉ f) :
    split c (List.intercalate [c] (field :: fields)) = field :: fields := by
  induction fields generalizing field with
  | nil =>
    have hone : List.intercalate [c] [field] = field := by simp [List.intercalate]
    rw [hone]
    exact split_of_notMem (h field List.mem_cons_self)
  | cons next fields ih =>
    have hcons : List.intercalate [c] (field :: next :: fields) = field ++ c :: List.intercalate [c] (next :: fields) := by
      simp [List.intercalate]
    rw [hcons, split_append (h field List.mem_cons_self), ih fun f hf => h f (List.mem_cons_of_mem _ hf)]

theorem splitOnce_eq_some {c : Char} {s a b : Str} (h : splitOnce c s = some (a, b)) : s = a ++ c :: b := by
  induction s generalizing a with
  | nil => cases h
  | cons d s ih =>
    rw [splitOnce] at h
    split_ifs at h with hd
    · cases h
      rw [hd]
      rfl
    · obtain ⟨⟨a', b'⟩, hs, hab⟩ := Option.map_eq_some_iff.mp h
      cases hab
      rw [ih hs]
      rfl

theorem splitOnce_append {c : Char} {a : Str} (b : Str) (h : c ∉ a) : splitOnce c (a ++ c :: b) = some (a, b) := by
  induction a with
  | nil => simp [splitOnce]
  | cons d a ih =>
    rw [List.mem_cons, not_or] at h
    rw [List.cons_append, splitOnce, if_neg (Ne.symm h.1), ih h.2]
    rfl

theorem rsplitOnce_eq_some {c : Char} {s a b : Str} (h : rsplitOnce c s = some (a, b)) : s = a ++ c :: b := by
  obtain ⟨⟨b', a'⟩, hs, hab⟩ := Option.map_eq_some_iff.mp h
  cases hab
  have hreverse := congrArg List.reverse (splitOnce_eq_some hs)
  simpa using hreverse

theorem rsplitOnce_append {c : Char} (a : Str) {b : Str} (h : c ∉ b) : rsplitOnce c (a ++ c :: b) = some (a, b) := by
  have hreverse : (a ++ c :: b).reverse = b.reverse ++ c :: a.reverse := by simp
  rw [rsplitOnce, hreverse, splitOnce_append _ (by simpa using h)]
  simp

theorem stripPrefix_eq_some {s pre t : Str} : stripPrefix s pre = some t ↔ s = pre ++ t := by
  rw [stripPrefix]
  split_ifs with h
  · obtain ⟨r, rfl⟩ := List.isPrefixOf_iff_prefix.mp h
    simp [eq_comm]
  · refine iff_of_false nofun fun heq => h ?_
    rw [heq]
    exact List.isPrefixOf_iff_prefix.mpr (List.prefix_append _ _)

/-! ### Trimming -/

theorem trim_eq (s : Str) : s.trim = (s.dropWhile isWhitespace).rdropWhile isWhitespace := rfl

theorem trim_sublist (s : Str) : s.trim.Sublist s :=
  (List.rdropWhile_prefix _ _).sublist.trans (List.dropWhile_sublist _)

theorem trimEndMatches_sublist (p : Char → Bool) (s : Str) : (trimEndMatches p s).Sublist s :=
  (List.rdropWhile_prefix _ _).sublist

theorem trim_trim (s : Str) : s.trim.trim = s.trim := by
  have hhead : s.trim.dropWhile isWhitespace = s.trim := by
    rw [List.dropWhile_eq_self_iff]
    intro hpos
    have hpre : s.trim <+: s.dropWhile isWhitespace := List.rdropWhile_prefix _ _
    have hdrop := List.dropWhile_get_zero_not isWhitespace s (hpos.trans_le hpre.length_le)
    rw [hpre.getElem]
    exact hdrop
  rw [trim_eq s.trim, hhead, trim_eq, List.rdropWhile_idempotent]

/-- Neither the first nor the last character is white space. -/
def Trimmed (s : Str) : Prop :=
  (∀ c, s.head? = some c → isWhitespace c = false) ∧ ∀ c, s.getLast? = some c → isWhitespace c = false

theorem dropWhile_of_head {p : Char → Bool} {s : Str} (h : ∀ c, s.head? = some c → p c = false) : s.dropWhile p = s := by
  cases s with
  | nil => rfl
  | cons c s => rw [List.dropWhile_cons_of_neg (by simp [h c rfl])]

theorem trimEndMatches_of_getLast {p : Char → Bool} {s : Str} (h : ∀ c, s.getLast? = some c → p c = false) :
    trimEndMatches p s = s := by
  rw [trimEndMatches, dropWhile_of_head (by rwa [List.head?_reverse]), List.reverse_reverse]

theorem trimEndMatches_append_singleton {p : Char → Bool} {c : Char} (h : p c = true) (s : Str) :
    trimEndMatches p (s ++ [c]) = trimEndMatches p s := by
  rw [trimEndMatches, List.reverse_append, List.reverse_singleton, List.singleton_append,
    List.dropWhile_cons_of_pos h]
  rfl

theorem trim_of_trimmed {s : Str} (h : s.Trimmed) : s.trim = s := by
  have hend := trimEndMatches_of_getLast h.2
  rw [trim, dropWhile_of_head h.1]
  exact hend

theorem trimEndMatches_getLast {p : Char → Bool} {s : Str} {c : Char} (h : (trimEndMatches p s).getLast? = some c) :
    p c = false := by
  have hfirst := List.head?_dropWhile_not p s.reverse
  rw [trimEndMatches, List.getLast?_reverse] at h
  rw [h] at hfirst
  exact hfirst

theorem trimmed_trim (s : Str) : s.trim.Trimmed := by
  constructor
  · intro c hc
    have hhead : (s.dropWhile isWhitespace).head? = some c := by
      obtain ⟨rest, hrest⟩ : s.trim <+: s.dropWhile isWhitespace := List.rdropWhile_prefix _ _
      cases htrim : s.trim with
      | nil =>
        rw [htrim] at hc
        cases hc
      | cons d t =>
        rw [htrim] at hc hrest
        rw [← hrest]
        exact hc
    have hfirst := List.head?_dropWhile_not isWhitespace s
    rw [hhead] at hfirst
    exact hfirst
  · intro c hc
    exact trimEndMatches_getLast (s := s.dropWhile isWhitespace) hc

/-! ### Numbers -/

theorem decimal_natCast (n : Nat) : decimal (n : Int) = Nat.toDigits 10 n := by
  rw [decimal, if_neg (by omega)]
  rfl

theorem isAsciiDigit_of_mem_toDigits {n : Nat} {c : Char} (h : c ∈ Nat.toDigits 10 n) : isAsciiDigit c = true := by
  have hdigit := Nat.isDigit_of_mem_toDigits (by decide) (by decide) h
  simpa [Char.isDigit, isAsciiDigit, Char.le_def] using hdigit

/-- A text of digits is read as the number that they are the digits of, if that fits. -/
theorem parseUnsigned_digits {w : Nat} {s : Str} (hne : s ≠ []) (hs : ∀ c ∈ s, isAsciiDigit c = true) :
    parseUnsigned w s = if Nat.ofDigitChars 10 s 0 < 2 ^ w then some (Nat.ofDigitChars 10 s 0) else none := by
  have hsign : ∀ rest, s = '+' :: rest → False := by
    rintro rest rfl
    exact absurd (hs '+' List.mem_cons_self) (by decide)
  have hdigits : ¬ (s.isEmpty || !s.all isAsciiDigit) = true := by simpa [hne] using hs
  rw [parseUnsigned]
  · rw [if_neg hdigits]
    rfl
  · exact hsign

theorem parseUnsigned_decimal (w n : Nat) : parseUnsigned w (decimal n) = if n < 2 ^ w then some n else none := by
  rw [decimal_natCast, parseUnsigned_digits Nat.toDigits_ne_nil fun c hc => isAsciiDigit_of_mem_toDigits hc,
    Nat.ofDigitChars_ten_toDigits]

end Stonemite.Str
