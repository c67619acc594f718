import Stonemite.Lib.Text

/-!
# Patterns and what they match

A pattern at its top level: branches separated by bars, each a sequence of quantified pieces. A piece is
the anchor at the start, a letter, or anything else, whose meaning is a parameter, as is the set of letters
a letter stands for. `plain` letters stand for themselves wherever a piece can begin.
-/

namespace Stonemite.Regex

/-- What one piece of an expression stands for. -/
inductive Atom
  | start
  | literal (c : Char)
  | other (text : Str)
deriving DecidableEq, Repr

/-- The text of a quantifier, empty for none, and how often it lets its atom match. -/
structure Quantifier where
  text : Str
  min : Nat
  max : Option Nat
deriving DecidableEq, Repr

def Quantifier.one : Quantifier := ⟨[], 1, some 1⟩

structure Piece where
  atom : Atom
  quantifier : Quantifier
deriving DecidableEq, Repr

abbrev Branch := List Piece

/-- Branches of which one matches. -/
abbrev Tree := List Branch

/-! ### Concrete syntax -/

namespace Atom

def text : Atom → Str
  | start => ['^']
  | literal c => [c]
  | other text => text

/-- The atom is none of the known ones. -/
def isOther : Atom → Bool
  | other _ => true
  | _ => false

end Atom

def Piece.text (p : Piece) : Str := p.atom.text ++ p.quantifier.text

def Branch.text (b : Branch) : Str := b.flatMap Piece.text

def Tree.text (t : Tree) : Str := List.intercalate ['|'] (t.map Branch.text)

variable (plain : Char → Bool)

/-- The piece is written as pieces are: a plain letter is a literal, a caret the anchor, and a quantifier
does not begin with a plain letter. -/
structure Piece.Spelled (p : Piece) : Prop where
  letter : ∀ c, p.atom.text.head? = some c → plain c = true → p.atom = .literal c
  caret : p.atom.text.head? = some '^' → p.atom = .start
  atom_ne : p.atom.text ≠ []
  unquantified : p.quantifier.text = [] → p.quantifier = .one
  quantified : ∀ c, p.quantifier.text.head? = some c → plain c = false

/-- The pieces of a branch are written so up to the first that is neither anchor nor letter. -/
def Branch.Spelled : Branch → Prop
  | [] => True
  | p :: b => p.Spelled plain ∧ (p.atom.isOther = false → Branch.Spelled b)

/-- The expression has branches, and each is spelled plainly. -/
def Tree.Spelled (t : Tree) : Prop := t ≠ [] ∧ ∀ b ∈ t, b.Spelled plain

/-- The anchors and letters a branch begins with must each match. -/
def Branch.Mandatory (b : Branch) : Prop := ∀ p ∈ b.takeWhile (!·.atom.isOther), 1 ≤ p.quantifier.min

instance (b : Branch) : Decidable b.Mandatory := inferInstanceAs (Decidable (∀ p ∈ _, _))

/-- The letters a branch begins with. -/
def Branch.letters (b : Branch) : Str :=
  (b.takeWhile (!·.atom.isOther)).filterMap fun p => match p.atom with
    | .literal c => some c
    | _ => none

/-! ### Meaning -/

section
variable (same : Char → Char → Prop) (meaning : Str → Str → Str → Str → Prop)

/-- What an atom matches in `line`, from a rest of it to a shorter one. -/
def Atom.Meets (line : Str) : Atom → Str → Str → Prop
  | .start, s, r => s = line ∧ r = s
  | .literal c, s, r => ∃ d, s = d :: r ∧ same c d
  | .other text, s, r => meaning text line s r

/-- The relation so many times in a row. -/
def iterate (R : Str → Str → Prop) : Nat → Str → Str → Prop
  | 0, s, r => s = r
  | n + 1, s, r => ∃ m, R s m ∧ iterate R n m r

/-- The piece leads from one rest of the line to another. -/
def Piece.Meets (line : Str) (p : Piece) (s r : Str) : Prop :=
  ∃ n, p.quantifier.min ≤ n ∧ (∀ m ∈ p.quantifier.max, n ≤ m) ∧ iterate (p.atom.Meets same meaning line) n s r

/-- The pieces lead from one rest of the line to another. -/
def Branch.Meets (line : Str) : Branch → Str → Str → Prop
  | [], s, r => s = r
  | p :: b, s, r => ∃ m, p.Meets same meaning line s m ∧ Branch.Meets line b m r

/-- A branch of the pattern matches somewhere in the line. -/
def Tree.Found (t : Tree) (line : Str) : Prop := ∃ b ∈ t, ∃ s r, s <:+ line ∧ b.Meets same meaning line s r

end

/-! ### The letters a pattern begins with -/

/-- The branch begins with the literals `w`, of which at most the last is quantified. -/
def Branch.Spells : Str → Branch → Prop
  | [], _ => True
  | _ :: _, [] => False
  | c :: w, p :: b => p.atom = .literal c ∧ (w = [] ∨ p.quantifier = .one ∧ Branch.Spells w b)

section
variable {plain} {same : Char → Char → Prop} {meaning : Str → Str → Str → Str → Prop} {line s r rest w : Str}
  {p : Piece} {b : Branch} {t : Tree}

theorem takeWhile_of_head (h : ∀ c, rest.head? = some c → plain c = false) : rest.takeWhile plain = [] := by
  cases rest with
  | nil => rfl
  | cons c rest => rw [List.takeWhile_cons, h c rfl]; rfl

/-- The plain letters at the front of a branch's text are its first literals. -/
theorem Branch.Spelled.spells (h : b.Spelled plain) (hrest : ∀ c, rest.head? = some c → plain c = false) :
    b.Spells ((b.text ++ rest).takeWhile plain) := by
  induction b with
  | nil =>
    rw [Branch.text, List.flatMap_nil, List.nil_append, takeWhile_of_head hrest]
    trivial
  | cons p b ih =>
    obtain ⟨hp, hb⟩ := h
    have htext : Branch.text (p :: b) ++ rest = p.atom.text ++ (p.quantifier.text ++ (Branch.text b ++ rest)) := by
      simp [Branch.text, Piece.text]
    rw [htext]
    obtain ⟨c, tail, hatom⟩ := List.exists_cons_of_ne_nil hp.atom_ne
    by_cases hc : plain c = true
    · have hlit := hp.letter c (by rw [hatom]; rfl) hc
      obtain rfl : tail = [] := by
        rw [hlit] at hatom
        exact (List.cons.inj hatom).2.symm
      rw [hatom, List.singleton_append, List.takeWhile_cons, if_pos hc]
      refine ⟨hlit, ?_⟩
      by_cases hq : p.quantifier.text = []
      · refine .inr ⟨hp.unquantified hq, ?_⟩
        rw [hq, List.nil_append]
        exact ih (hb (by rw [hlit]; rfl))
      · refine .inl (takeWhile_of_head fun d hd => hp.quantified d ?_)
        rwa [List.head?_append_of_ne_nil _ hq] at hd
    · rw [hatom, List.cons_append, List.takeWhile_cons, if_neg hc]
      trivial

theorem iterate_one {R : Str → Str → Prop} {n : Nat} (hn : 1 ≤ n) (h : iterate R n s r) :
    ∃ m, R s m ∧ (n = 1 → m = r) := by
  cases n with
  | zero => omega
  | succ n =>
    obtain ⟨m, hm, hr⟩ := h
    refine ⟨m, hm, fun h1 => ?_⟩
    obtain rfl : n = 0 := by omega
    exact hr

theorem Piece.meets_one (hq : p.quantifier = .one) (h : p.Meets same meaning line s r) :
    p.atom.Meets same meaning line s r := by
  obtain ⟨n, hmin, hmax, hn⟩ := h
  rw [hq] at hmin hmax
  have hle := hmax 1 rfl
  obtain ⟨m, hm, hr⟩ := iterate_one hmin hn
  obtain rfl : m = r := hr (Nat.le_antisymm hle hmin)
  exact hm

/-- What a branch matches begins with the letters it spells, each replaced by a letter it stands for. -/
theorem Branch.Spells.meets (h : b.Spells w) (hmand : b.Mandatory) (hm : b.Meets same meaning line s r) :
    ∃ u rest, s = u ++ rest ∧ List.Forall₂ same w u := by
  induction w generalizing b s with
  | nil => exact ⟨[], s, rfl, .nil⟩
  | cons c w ih =>
    cases b with
    | nil => cases h
    | cons p b =>
      obtain ⟨hlit, hrest⟩ := h
      obtain ⟨m, hp, hb⟩ := hm
      have hlead : (!p.atom.isOther) = true := by rw [hlit]; rfl
      have htake : (p :: b).takeWhile (!·.atom.isOther) = p :: b.takeWhile (!·.atom.isOther) := by
        rw [List.takeWhile_cons, if_pos hlead]
      have hmin : 1 ≤ p.quantifier.min := hmand p (by rw [htake]; exact List.mem_cons_self)
      rcases hrest with rfl | ⟨hq, hspells⟩
      · obtain ⟨n, hn, -, hit⟩ := hp
        obtain ⟨m', hm', -⟩ := iterate_one (hmin.trans hn) hit
        rw [hlit] at hm'
        obtain ⟨d, rfl, hd⟩ := hm'
        exact ⟨[d], m', rfl, .cons hd .nil⟩
      · have hatom := Piece.meets_one hq hp
        rw [hlit] at hatom
        obtain ⟨d, rfl, hd⟩ := hatom
        obtain ⟨u, rest, rfl, hu⟩ := ih hspells (fun q hq => hmand q (by rw [htake]; exact List.mem_cons_of_mem _ hq)) hb
        exact ⟨d :: u, rest, rfl, .cons hd hu⟩

/-- The letters a branch spells are among those it begins with. -/
theorem Branch.Spells.subset (h : b.Spells w) : w ⊆ b.letters := by
  induction w generalizing b with
  | nil => exact List.nil_subset _
  | cons c w ih =>
    cases b with
    | nil => cases h
    | cons p b =>
      obtain ⟨hlit, hrest⟩ := h
      have hlead : (!p.atom.isOther) = true := by rw [hlit]; rfl
      have hletters : Branch.letters (p :: b) = c :: Branch.letters b := by
        rw [Branch.letters, List.takeWhile_cons, if_pos hlead, List.filterMap_cons_some (by rw [hlit])]
        rfl
      rw [hletters]
      rcases hrest with rfl | ⟨-, hspells⟩
      · simp
      · exact List.cons_subset_cons _ (ih hspells)

theorem Branch.Spelled.after_start (h : b.Spelled plain) (hcaret : (b.text ++ rest).head? = some '^')
    (hrest : rest.head? ≠ some '^') : ∃ p b', b = p :: b' ∧ p.atom = .start ∧ p.Spelled plain ∧ Branch.Spelled plain b' := by
  cases b with
  | nil => exact absurd hcaret hrest
  | cons p b =>
    obtain ⟨hp, hb⟩ := h
    obtain ⟨c, tail, hatom⟩ := List.exists_cons_of_ne_nil hp.atom_ne
    have hc : c = '^' := by
      simpa [Branch.text, Piece.text, hatom] using hcaret
    have hstart := hp.caret (by rw [hatom, hc]; rfl)
    exact ⟨p, b, rfl, hstart, hp, hb (by rw [hstart]; rfl)⟩

end

end Stonemite.Regex
