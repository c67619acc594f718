import Stonemite.Lib.Braces
import Stonemite.Lib.Numerals
import Stonemite.Trigger.Pattern

/-!
# The number macros of a pattern

A macro is a group between braces, read from left to right: blanks, a key, a comparison operator, digits. The static
patterns of the source match the groups that can be read so; `\d` is a digit of the numerals. The expansion replaces one
kind of macro after the other, and the constraints it leaves are those of the groups of the pattern as it was written.
`Platform.Macros` is this assumption; `Part` and `Splits` follow the pattern through the replacements, and `Clean` says
what they leave.
-/

namespace Stonemite.Triggers

/-! ### The grammar of a macro -/

namespace Macro

/-- What stands between a brace and the next closing one. -/
def bodies (text : Str) : List Str := Braces.groups '\x7b' '\x7d' none text

def enclosed (body : Str) : Str := '\x7b' :: body ++ ['\x7d']

/-- The text without the blanks before it. -/
def blanks (s : Str) : Str := s.dropWhile Str.isWhitespace

/-- The operators, in the order in which they are tried. -/
def operators : List Str := [['<', '='], ['>', '='], ['>'], ['<'], ['=', '='], ['=']]

/-- What is read, and the rest. -/
def operator (s : Str) : Option (Str × Str) :=
  (operators.find? (·.isPrefixOf s)).map fun op => (op, s.drop op.length)

/-- What is read, or nothing. -/
def optional (read : Str → Option (Str × Str)) (s : Str) : Option Str × Str :=
  match read s with
  | some (a, rest) => (some a, rest)
  | none => (none, s)

variable (N : Numerals)

/-- One of the letters, with a digit if one follows. -/
def key (letters : List Char) : Str → Option (Str × Str)
  | [] => none
  | c :: rest =>
    if c ∉ letters then none
    else match rest with
      | d :: rest => if N.digit d then some ([c, d], rest) else some ([c], d :: rest)
      | [] => some ([c], [])

/-- The digits before the rest, if there are any. -/
def digits (s : Str) : Option (Str × Str) :=
  if s.takeWhile N.digit = [] then none else some (s.takeWhile N.digit, s.dropWhile N.digit)

/-- The key of a string macro. -/
def string (body : Str) : Option Str :=
  (key N ['s', 'S', 'ſ'] body).bind fun (key, rest) => if rest = [] then some key else none

/-- A number macro, perhaps with a comparison. -/
structure Number where
  key : Str
  op : Option Str
  value : Option Str
deriving DecidableEq, Repr

def number (body : Str) : Option Number :=
  (key N ['n', 'N'] (blanks body)).bind fun (key, rest) =>
    let (op, rest) := optional operator (blanks rest)
    let (value, rest) := optional (digits N) (blanks rest)
    if blanks rest = [] then some ⟨key, op, value⟩ else none

/-- A number macro between two bounds. -/
structure Chained where
  left : Str
  leftOp : Str
  key : Str
  rightOp : Str
  right : Str
deriving DecidableEq, Repr

/-- The body of a chained number macro. -/
def chained (body : Str) : Option Chained :=
  (digits N (blanks body)).bind fun (left, rest) =>
    (operator (blanks rest)).bind fun (leftOp, rest) =>
      (key N ['n', 'N'] (blanks rest)).bind fun (key, rest) =>
        (operator (blanks rest)).bind fun (rightOp, rest) =>
          (digits N (blanks rest)).bind fun (right, rest) =>
            if blanks rest = [] then some ⟨left, leftOp, key, rightOp, right⟩ else none

/-- The groups of a text that can be read, with what is read. -/
def read {α : Type} (parse : Str → Option α) (text : Str) : List (Str × α) :=
  (bodies text).filterMap fun body => (parse body).map fun a => (body, a)

end Macro

/-- The texts of the groups of each match. -/
def groupTexts (found : List Captures) : List (List (Option Str)) := found.map (List.map (Option.map Group.text))

/-- The static macro patterns match the groups between braces that their grammar reads, and capture its parts. -/
structure Platform.Macros (P : Platform) (N : Numerals) : Prop where
  string : ∀ text, groupTexts (P.capturesIter stringMacro text) =
    (Macro.read (Macro.string N) text).map fun (body, key) => [some (Macro.enclosed body), some key]
  number : ∀ text, groupTexts (P.capturesIter numberMacro text) =
    (Macro.read (Macro.number N) text).map fun (body, m) => [some (Macro.enclosed body), some m.key, m.op, m.value]
  chained : ∀ text, groupTexts (P.capturesIter chainedNumberMacro text) =
    (Macro.read (Macro.chained N) text).map fun (body, m) =>
      [some (Macro.enclosed body), some m.left, some m.leftOp, some m.key, some m.rightOp, some m.right]

/-- A comparison of the captured number with a bound, as it is written; the bound stands on the right or on the left. -/
structure Comparison where
  key : Str
  op : Str
  bound : Str
  boundLeft : Bool
deriving DecidableEq, Repr

namespace Macro

/-- The comparison of a number macro. -/
def Number.comparisons (m : Number) : List Comparison :=
  match m.op, m.value with
  | some op, some value => [⟨m.key, op, value, false⟩]
  | _, _ => []

/-- The two comparisons of a chained one. -/
def Chained.comparisons (m : Chained) : List Comparison :=
  [⟨m.key, m.leftOp, m.left, true⟩, ⟨m.key, m.rightOp, m.right, false⟩]

/-- The comparisons that a pattern has. -/
def comparisons (N : Numerals) (pattern : Str) : List Comparison :=
  (read (number N) pattern).flatMap (·.2.comparisons) ++ (read (chained N) pattern).flatMap (·.2.comparisons)

end Macro

namespace Comparison

/-- The constraint that a comparison leaves, if its bound can be read. -/
def constraint (w : Comparison) : Option NumberConstraint :=
  match NumberOp.parse w.op, Str.parseUnsigned 32 w.bound with
  | some op, some value => some ⟨w.key, if w.boundLeft then op.flipped else op, value⟩
  | _, _ => none

/-- What the comparison says of a number. -/
def Holds (N : Numerals) (w : Comparison) (n : Nat) : Prop :=
  ∃ op, NumberOp.parse w.op = some op ∧
    (if w.boundLeft then op.check (N.number w.bound) n else op.check n (N.number w.bound)) = true

end Comparison

/-! ### What a group that is read consists of -/

section
variable {N : Numerals} {s rest a body : Str}

namespace Macro

/-- The characters of a macro. -/
def Part (N : Numerals) (c : Char) : Prop :=
  Str.isWhitespace c = true ∨ N.digit c = true ∨ c ∈ ['n', 'N', '<', '=', '>']

/-- What is read and the rest make up the text, and what is read are parts. -/
def Splits (N : Numerals) (s a rest : Str) : Prop := s = a ++ rest ∧ ∀ c ∈ a, Part N c

theorem Part.ne_mark {c : Char} (h : Part N c) : c ≠ '(' ∧ c ≠ '\x7b' ∧ c ≠ '\x7d' := by
  rcases h with h | h | h
  · refine ⟨?_, ?_, ?_⟩ <;> rintro rfl <;> exact absurd h (by decide)
  · refine ⟨?_, ?_, ?_⟩ <;> exact Numerals.ne_of_digit h (by decide) (.inl (by decide))
  · refine ⟨?_, ?_, ?_⟩ <;> rintro rfl <;> exact absurd h (by decide)

theorem part_blanks (hrest : ∀ c ∈ blanks s, Part N c) : ∀ c ∈ s, Part N c := by
  intro c hc
  rw [← List.takeWhile_append_dropWhile (p := Str.isWhitespace) (l := s)] at hc
  rcases List.mem_append.mp hc with hc | hc
  · exact .inl (List.mem_takeWhile_imp hc)
  · exact hrest c hc

theorem Splits.part (h : Splits N s a rest) (hrest : ∀ c ∈ rest, Part N c) : ∀ c ∈ s, Part N c := by
  obtain ⟨rfl, ha⟩ := h
  intro c hc
  exact (List.mem_append.mp hc).elim (ha c) (hrest c)

theorem splits_operator (h : operator s = some (a, rest)) : Splits N s a rest := by
  obtain ⟨op, hop, heq⟩ := Option.map_eq_some_iff.mp h
  obtain ⟨rfl, rfl⟩ := Prod.mk.inj heq
  have hmem := List.mem_of_find?_eq_some hop
  have hprefix : op.isPrefixOf s = true := List.find?_some (p := fun op : Str => op.isPrefixOf s) hop
  obtain ⟨t, rfl⟩ := List.isPrefixOf_iff_prefix.mp hprefix
  refine ⟨by rw [List.drop_left], fun c hc => .inr (.inr ?_)⟩
  have hall : ∀ op ∈ operators, ∀ c ∈ op, c ∈ ['n', 'N', '<', '=', '>'] := by simp [operators]
  exact hall op hmem c hc

theorem splits_digits (h : digits N s = some (a, rest)) : Splits N s a rest := by
  rw [digits] at h
  split_ifs at h
  obtain ⟨rfl, rfl⟩ := Prod.mk.inj (Option.some.inj h)
  exact ⟨List.takeWhile_append_dropWhile.symm, fun c hc => .inr (.inl (List.mem_takeWhile_imp hc))⟩

theorem digits_decimal (h : digits N s = some (a, rest)) : N.Decimal a := by
  rw [digits] at h
  split_ifs at h with hne
  obtain ⟨rfl, rfl⟩ := Prod.mk.inj (Option.some.inj h)
  exact ⟨hne, fun c hc => List.mem_takeWhile_imp hc⟩

theorem key_spec {letters : List Char} (h : key N letters s = some (a, rest)) :
    s = a ++ rest ∧ ∃ c ∈ letters, a = [c] ∨ ∃ d, N.digit d = true ∧ a = [c, d] := by
  cases s with
  | nil => cases h
  | cons c s =>
    unfold key at h
    dsimp only at h
    split_ifs at h with hc
    cases s with
    | nil =>
      obtain ⟨rfl, rfl⟩ := Prod.mk.inj (Option.some.inj h)
      exact ⟨rfl, c, hc, .inl rfl⟩
    | cons d s =>
      dsimp only at h
      split_ifs at h with hd
      · obtain ⟨rfl, rfl⟩ := Prod.mk.inj (Option.some.inj h)
        exact ⟨rfl, c, hc, .inr ⟨d, hd, rfl⟩⟩
      · obtain ⟨rfl, rfl⟩ := Prod.mk.inj (Option.some.inj h)
        exact ⟨rfl, c, hc, .inl rfl⟩

theorem splits_key (h : key N ['n', 'N'] s = some (a, rest)) : Splits N s a rest := by
  obtain ⟨hs, c, hc, ha⟩ := key_spec h
  have hpart : Part N c := .inr (.inr (List.mem_append_left ['<', '=', '>'] hc))
  refine ⟨hs, fun d hd => ?_⟩
  rcases ha with rfl | ⟨e, he, rfl⟩
  · rwa [List.mem_singleton.mp hd]
  · rcases List.mem_cons.mp hd with rfl | hd
    · exact hpart
    · rw [List.mem_singleton.mp hd]
      exact .inr (.inl he)

theorem part_optional {read : Str → Option (Str × Str)}
    (hread : ∀ {s a rest}, read s = some (a, rest) → Splits N s a rest)
    (hrest : ∀ c ∈ (optional read s).2, Part N c) : ∀ c ∈ s, Part N c := by
  unfold optional at hrest
  split at hrest
  · rename_i heq
    exact (hread heq).part hrest
  · exact hrest

theorem read_of_optional {read : Str → Option (Str × Str)} (h : (optional read s).1 = some a) :
    ∃ rest, read s = some (a, rest) := by
  unfold optional at h
  split at h
  · rename_i b rest heq
    obtain rfl := Option.some.inj h
    exact ⟨rest, heq⟩
  · cases h

theorem blanks_eq_nil (h : blanks s = []) : ∀ c ∈ s, Part N c :=
  part_blanks (by rw [h]; exact fun c hc => absurd hc List.not_mem_nil)

theorem part_of_number {m : Number} (h : number N body = some m) : ∀ c ∈ body, Part N c := by
  obtain ⟨⟨a, rest⟩, hkey, h⟩ := Option.bind_eq_some_iff.mp h
  dsimp only at h
  split_ifs at h with hend
  refine part_blanks ((splits_key hkey).part (part_blanks (part_optional splits_operator (part_blanks ?_))))
  exact part_optional splits_digits (blanks_eq_nil hend)

theorem part_of_chained {m : Chained} (h : chained N body = some m) : ∀ c ∈ body, Part N c := by
  obtain ⟨⟨left, s₁⟩, hleft, h⟩ := Option.bind_eq_some_iff.mp h
  obtain ⟨⟨leftOp, s₂⟩, hleftOp, h⟩ := Option.bind_eq_some_iff.mp h
  obtain ⟨⟨a, s₃⟩, hkey, h⟩ := Option.bind_eq_some_iff.mp h
  obtain ⟨⟨rightOp, s₄⟩, hrightOp, h⟩ := Option.bind_eq_some_iff.mp h
  obtain ⟨⟨right, s₅⟩, hright, h⟩ := Option.bind_eq_some_iff.mp h
  dsimp only at h
  split_ifs at h with hend
  refine part_blanks ((splits_digits hleft).part (part_blanks ((splits_operator hleftOp).part (part_blanks ?_))))
  refine (splits_key hkey).part (part_blanks ((splits_operator hrightOp).part (part_blanks ?_)))
  exact (splits_digits hright).part (blanks_eq_nil hend)

theorem not_digit {c : Char} (hc : c ∈ ['n', 'N', 's', 'S', 'ſ']) : N.digit c = false := by
  have hletter : Str.isAsciiDigit c = false ∧ (c.toNat < 128 ∨ c = 'ſ') := by
    simp only [List.mem_cons, List.not_mem_nil, or_false] at hc
    rcases hc with rfl | rfl | rfl | rfl | rfl <;> decide
  by_contra hdigit
  exact Numerals.ne_of_digit (Bool.of_not_eq_false hdigit) hletter.1 hletter.2 rfl

theorem not_chained {c : Char} (hbody : blanks body = c :: rest) (hc : c ∈ ['n', 'N', 's', 'S', 'ſ']) :
    chained N body = none := by
  rw [chained, hbody, digits, if_pos (by rw [List.takeWhile_cons, not_digit hc]; rfl)]
  rfl

theorem not_chained_of_number {m : Number} (h : number N body = some m) : chained N body = none := by
  obtain ⟨⟨a, rest⟩, hkey, -⟩ := Option.bind_eq_some_iff.mp h
  obtain ⟨hs, c, hc, ha⟩ := key_spec hkey
  have hmem : c ∈ ['n', 'N', 's', 'S', 'ſ'] := List.mem_append_left ['s', 'S', 'ſ'] hc
  rcases ha with rfl | ⟨d, -, rfl⟩
  · exact not_chained hs hmem
  · exact not_chained hs hmem

theorem not_number_of_string {k : Str} (h : string N body = some k) :
    number N body = none ∧ chained N body = none := by
  obtain ⟨⟨a, rest⟩, hkey, -⟩ := Option.bind_eq_some_iff.mp h
  obtain ⟨hs, c, hc, ha⟩ := key_spec hkey
  obtain ⟨t, rfl⟩ : ∃ t, body = c :: t := by
    rcases ha with rfl | ⟨d, -, rfl⟩
    · exact ⟨rest, hs⟩
    · exact ⟨d :: rest, hs⟩
  have hplain : ∀ c ∈ ['s', 'S', 'ſ'], Str.isWhitespace c = false ∧ c ∉ ['n', 'N'] := by simp [Str.isWhitespace]
  have hblanks : blanks (c :: t) = c :: t := by rw [blanks, List.dropWhile_cons, (hplain c hc).1]; rfl
  have hmem : c ∈ ['n', 'N', 's', 'S', 'ſ'] := List.mem_append_right ['n', 'N'] hc
  refine ⟨?_, not_chained hblanks hmem⟩
  rw [number, hblanks]
  unfold key
  dsimp only
  rw [if_pos (hplain c hc).2]
  rfl

end Macro
end

/-! ### The expansion -/

theorem replaced_replaceLoop (old new : Str) (hold : old ≠ []) (skip : Nat) (text : Str) :
    Braces.Replaced old new (text.drop skip) (Str.replaceLoop old new skip text) := by
  induction text generalizing skip with
  | nil =>
    rw [List.drop_nil]
    cases skip <;> exact .nil
  | cons c text ih =>
    cases skip with
    | succ skip => exact ih skip
    | zero =>
      rw [Str.replaceLoop, List.drop_zero]
      split_ifs with h
      · obtain ⟨rest, hrest⟩ := List.isPrefixOf_iff_prefix.mp h
        obtain ⟨d, old, rfl⟩ := List.exists_cons_of_ne_nil hold
        rw [List.cons_append, List.cons.injEq] at hrest
        obtain ⟨rfl, rfl⟩ := hrest
        have hloop := ih old.length
        rw [List.drop_left] at hloop
        exact .here hloop
      · exact .keep (fun hprefix => h (List.isPrefixOf_iff_prefix.mpr hprefix)) (ih 0)

theorem replaced_replace {old : Str} (hold : old ≠ []) (new text : Str) :
    Braces.Replaced old new text (text.replace old new) := by
  rw [Str.replace, if_neg hold]
  exact replaced_replaceLoop old new hold 0 text

namespace Macro
section
variable {N : Numerals} {α : Type} {parse : Str → Option α} {s t : Str}

/-- The bodies that no `(` precedes. -/
abbrev unmarked (text : Str) : List Str := Braces.unmarked '\x7b' '\x7d' '(' none text

/-- No group that is read has a parenthesis. -/
def Clean (parse : Str → Option α) : Prop := ∀ body a, parse body = some a → '(' ∉ body

theorem read_eq (hparse : Clean parse) (text : Str) :
    read parse text = (unmarked text).filterMap fun body => (parse body).map fun a => (body, a) := by
  rw [unmarked, Braces.unmarked, List.filterMap_filter]
  refine List.filterMap_congr fun body _ => ?_
  by_cases hmark : '(' ∈ body
  · cases hbody : parse body with
    | none => simp
    | some a => exact absurd hmark (hparse body a hbody)
  · simp [hmark]

theorem read_of_unmarked (hparse : Clean parse) {replaced : List Str} (hreplaced : ∀ body ∈ replaced, parse body = none)
    (h : unmarked t = (unmarked s).filter fun body => decide (body ∉ replaced)) : read parse t = read parse s := by
  rw [read_eq hparse, read_eq hparse, h, List.filterMap_filter]
  refine List.filterMap_congr fun body _ => ?_
  by_cases hmem : body ∈ replaced
  · simp [hmem, hreplaced body hmem]
  · simp [hmem]

theorem mem_read {text body : Str} {a : α} (h : (body, a) ∈ read parse text) : body ∈ bodies text ∧ parse body = some a := by
  obtain ⟨other, hother, hmap⟩ := List.mem_filterMap.mp h
  obtain ⟨b, hb, heq⟩ := Option.map_eq_some_iff.mp hmap
  obtain ⟨rfl, rfl⟩ := Prod.mk.inj heq
  exact ⟨hother, hb⟩

/-- The named group that a macro becomes. -/
def named (key tail : Str) : Str := "(?<".toList ++ key ++ tail

theorem named_marked {key tail : Str} (hkey : Braces.Plain '\x7b' '\x7d' key) (htail : Braces.Plain '\x7b' '\x7d' tail) :
    Braces.Plain '\x7b' '\x7d' (named key tail) ∧ '(' ∈ named key tail := by
  simp [named, Braces.Plain, hkey.1, hkey.2, htail.1, htail.2]

theorem unmarked_expanded (text : Str) {tail : Str} (key : α → Str) (htail : Braces.Plain '\x7b' '\x7d' tail)
    (hkey : ∀ body a, parse body = some a → Braces.Plain '\x7b' '\x7d' (key a)) :
    unmarked ((read parse text).foldl (fun s entry => s.replace (enclosed entry.1) (named (key entry.2) tail)) text) =
      (unmarked text).filter fun body => decide (body ∉ (read parse text).map (·.1)) := by
  refine Braces.unmarked_foldl (by decide) (fun s entry => replaced_replace (List.cons_ne_nil _ _) _ s) _
    (fun entry hentry => ?_) (fun entry hentry => ?_) text
  · exact Braces.plain_of_mem_groups (fun v hv => absurd hv (Option.not_mem_none v)) (mem_read hentry).1
  · exact named_marked (hkey entry.1 entry.2 (mem_read hentry).2) htail

end
end Macro

section
variable {N : Numerals} {P : Platform} {α β γ δ : Type}

theorem foldl_eq_of_map_eq {f : γ → α → γ} {g : γ → β → γ} {u : α → δ} {v : β → δ} {as : List α} {bs : List β}
    (h : as.map u = bs.map v) (hstep : ∀ s a b, u a = v b → f s a = g s b) (s : γ) : as.foldl f s = bs.foldl g s := by
  induction as generalizing bs s with
  | nil =>
    obtain rfl := List.map_eq_nil_iff.mp h.symm
    rfl
  | cons a as ih =>
    cases bs with
    | nil => cases h
    | cons b bs =>
      obtain ⟨hhead, htail⟩ := List.cons.inj h
      rw [List.foldl_cons, List.foldl_cons, hstep s a b hhead, ih htail]

theorem Captures.get_eq (capture : Captures) (slot : Nat) :
    capture.get slot = ((capture.map (Option.map Group.text))[slot]?).join := by
  rw [Captures.get, List.getElem?_map]
  rcases capture[slot]? with - | - | group <;> rfl

theorem Captures.at_eq (capture : Captures) (slot : Nat) :
    capture.at slot = (((capture.map (Option.map Group.text))[slot]?).join).getD [] := by
  rw [Captures.at, Captures.get_eq]

namespace Macro

/-- The step of the expansion for a macro that was read. -/
def step (key : α → Str) (comparisons : α → List Comparison) (expanded : ExpandedPattern) (entry : Str × α) :
    ExpandedPattern :=
  ⟨expanded.pattern.replace (enclosed entry.1) (named (key entry.2) ">\\d+)".toList),
    expanded.constraints ++ (comparisons entry.2).filterMap Comparison.constraint⟩

theorem foldl_step (key : α → Str) (comparisons : α → List Comparison) (entries : List (Str × α)) (e : ExpandedPattern) :
    entries.foldl (step key comparisons) e =
      ⟨entries.foldl (fun s entry => s.replace (enclosed entry.1) (named (key entry.2) ">\\d+)".toList)) e.pattern,
        e.constraints ++ (entries.flatMap fun entry => comparisons entry.2).filterMap Comparison.constraint⟩ := by
  induction entries generalizing e with
  | nil => simp
  | cons entry entries ih =>
    rw [List.foldl_cons, ih, step, List.foldl_cons, List.flatMap_cons, List.filterMap_append, List.append_assoc]

end Macro

open Macro

theorem expandString_eq (h : P.Macros N) (pattern : Str) :
    (P.capturesIter stringMacro pattern).foldl expandString pattern =
      (read (string N) pattern).foldl (fun s entry => s.replace (enclosed entry.1) (named entry.2 ">.+)".toList)) pattern := by
  refine foldl_eq_of_map_eq (h.string pattern) (fun s capture entry hentry => ?_) pattern
  rw [expandString, Captures.at_eq, Captures.at_eq, hentry]
  rfl

theorem expandNumber_eq (h : P.Macros N) (text : Str) (e : ExpandedPattern) :
    (P.capturesIter numberMacro text).foldl expandNumber e =
      (read (number N) text).foldl (step Number.key Number.comparisons) e := by
  refine foldl_eq_of_map_eq (h.number text) (fun e capture entry hentry => ?_) e
  obtain ⟨body, key, op, value⟩ := entry
  unfold expandNumber
  rw [Captures.at_eq, Captures.at_eq, Captures.get_eq, Captures.get_eq, hentry]
  cases op with
  | none => rfl
  | some op =>
    cases value with
    | none => rfl
    | some value =>
      simp only [step, Number.comparisons, Comparison.constraint, List.filterMap_cons, List.filterMap_nil]
      change ExpandedPattern.mk _ (_ ++ match NumberOp.parse op, Str.parseUnsigned 32 value with
        | some op, some value => [⟨key, op, value⟩]
        | _, _ => []) = _
      cases NumberOp.parse op <;> cases Str.parseUnsigned 32 value <;> rfl

theorem chained_constraints (m : Chained) :
    (match Str.parseUnsigned 32 m.left, NumberOp.parse m.leftOp with
      | some left, some op => [NumberConstraint.mk m.key op.flipped left]
      | _, _ => []) ++ (match NumberOp.parse m.rightOp, Str.parseUnsigned 32 m.right with
      | some op, some right => [NumberConstraint.mk m.key op right]
      | _, _ => []) = m.comparisons.filterMap Comparison.constraint := by
  simp only [Chained.comparisons, Comparison.constraint, List.filterMap_cons, List.filterMap_nil]
  cases Str.parseUnsigned 32 m.left <;> cases NumberOp.parse m.leftOp <;> cases NumberOp.parse m.rightOp <;>
    cases Str.parseUnsigned 32 m.right <;> rfl

theorem expandChained_eq (h : P.Macros N) (text : Str) (e : ExpandedPattern) :
    (P.capturesIter chainedNumberMacro text).foldl expandChained e =
      (read (chained N) text).foldl (step Chained.key Chained.comparisons) e := by
  refine foldl_eq_of_map_eq (h.chained text) (fun e capture entry hentry => ?_) e
  obtain ⟨body, left, leftOp, key, rightOp, right⟩ := entry
  unfold expandChained
  rw [Captures.at_eq, Captures.at_eq, Captures.at_eq, Captures.at_eq, Captures.at_eq, Captures.at_eq, hentry]
  refine congrArg₂ ExpandedPattern.mk rfl ((List.append_assoc _ _ _).trans (congrArg _ ?_))
  exact chained_constraints ⟨left, leftOp, key, rightOp, right⟩

theorem clean_number : Clean (number N) := fun _ _ h hmark => (part_of_number h '(' hmark).ne_mark.1 rfl

theorem clean_chained : Clean (chained N) := fun _ _ h hmark => (part_of_chained h '(' hmark).ne_mark.1 rfl

theorem plain_key {letters : List Char} (hletters : Braces.Plain '\x7b' '\x7d' letters) {s a rest : Str}
    (h : key N letters s = some (a, rest)) : Braces.Plain '\x7b' '\x7d' a := by
  obtain ⟨-, c, hc, ha⟩ := key_spec h
  have hopening : '\x7b' ≠ c := fun heq => hletters.1 (heq ▸ hc)
  have hclosing : '\x7d' ≠ c := fun heq => hletters.2 (heq ▸ hc)
  rcases ha with rfl | ⟨d, hd, rfl⟩
  · simp [Braces.Plain, hopening, hclosing]
  · have hleft : '\x7b' ≠ d := (Numerals.ne_of_digit hd (by decide) (.inl (by decide))).symm
    have hright : '\x7d' ≠ d := (Numerals.ne_of_digit hd (by decide) (.inl (by decide))).symm
    simp [Braces.Plain, hopening, hclosing, hleft, hright]

/-- The constraints of a pattern are those of the comparisons it was written with whose bounds can be read. -/
theorem expand_constraints (h : P.Macros N) (pattern : Str) :
    (expand P pattern).constraints = (comparisons N pattern).filterMap Comparison.constraint := by
  have hstring : unmarked ((P.capturesIter stringMacro pattern).foldl expandString pattern) =
      (unmarked pattern).filter fun body => decide (body ∉ (read (string N) pattern).map (·.1)) := by
    rw [expandString_eq h]
    refine unmarked_expanded pattern id (by simp [Braces.Plain]) fun body k hbody => ?_
    obtain ⟨⟨a, rest⟩, hkey, hrest⟩ := Option.bind_eq_some_iff.mp hbody
    dsimp only at hrest
    split_ifs at hrest
    obtain rfl := Option.some.inj hrest
    have hletters : Braces.Plain '\x7b' '\x7d' ['s', 'S', 'ſ'] := by simp [Braces.Plain]
    exact plain_key hletters hkey
  have hnumber (text : Str) : unmarked ((read (number N) text).foldl
        (fun s entry => s.replace (enclosed entry.1) (named entry.2.key ">\\d+)".toList)) text) =
      (unmarked text).filter fun body => decide (body ∉ (read (number N) text).map (·.1)) := by
    refine unmarked_expanded text Number.key (by simp [Braces.Plain]) fun body m hbody => ?_
    obtain ⟨⟨a, rest⟩, hkey, hrest⟩ := Option.bind_eq_some_iff.mp hbody
    dsimp only at hrest
    split_ifs at hrest
    obtain rfl := Option.some.inj hrest
    have hletters : Braces.Plain '\x7b' '\x7d' ['n', 'N'] := by simp [Braces.Plain]
    exact plain_key hletters hkey
  -- the number macros are still the ones of the pattern after the string macros are gone
  have hnot (body : Str) (hmem : body ∈ (read (string N) pattern).map (·.1)) :
      number N body = none ∧ chained N body = none := by
    obtain ⟨⟨other, k⟩, hentry, rfl⟩ := List.mem_map.mp hmem
    exact not_number_of_string (mem_read hentry).2
  have hread := read_of_unmarked clean_number (fun body hmem => (hnot body hmem).1) hstring
  have hchained := read_of_unmarked clean_chained (fun body hmem => (hnot body hmem).2) hstring
  have hafter (text : Str) := read_of_unmarked clean_chained (fun body hmem => by
    obtain ⟨⟨other, m⟩, hentry, rfl⟩ := List.mem_map.mp hmem
    exact not_chained_of_number (mem_read hentry).2) (hnumber text)
  rw [expand]
  dsimp only
  rw [expandNumber_eq h, foldl_step, expandChained_eq h, foldl_step]
  dsimp only
  rw [hafter, hchained, hread, List.nil_append, ← List.filterMap_append]
  rfl

/-- A comparison of a pattern begins with an n in its key, has an operator and a decimal bound. -/
theorem comparison_spec {pattern : Str} {w : Comparison} (h : w ∈ comparisons N pattern) :
    (∃ c ∈ ['n', 'N'], ∃ rest, w.key = c :: rest) ∧ w.op ∈ operators ∧ N.Decimal w.bound := by
  have hkeyed {s a rest : Str} (h : key N ['n', 'N'] s = some (a, rest)) : ∃ c ∈ ['n', 'N'], ∃ rest, a = c :: rest := by
    obtain ⟨-, c, hc, ha⟩ := key_spec h
    rcases ha with rfl | ⟨d, -, rfl⟩
    · exact ⟨c, hc, [], rfl⟩
    · exact ⟨c, hc, [d], rfl⟩
  have hop {s a rest : Str} (h : operator s = some (a, rest)) : a ∈ operators := by
    obtain ⟨op, hfind, heq⟩ := Option.map_eq_some_iff.mp h
    obtain ⟨rfl, -⟩ := Prod.mk.inj heq
    exact List.mem_of_find?_eq_some hfind
  rcases List.mem_append.mp h with h | h
  · obtain ⟨⟨body, m⟩, hentry, hw⟩ := List.mem_flatMap.mp h
    obtain ⟨⟨a, rest⟩, hkey, hread⟩ := Option.bind_eq_some_iff.mp (mem_read hentry).2
    dsimp only at hread
    split_ifs at hread
    obtain rfl := Option.some.inj hread
    unfold Number.comparisons at hw
    dsimp only at hw
    split at hw
    · rename_i op value hopt hvalue
      obtain rfl := List.mem_singleton.mp hw
      obtain ⟨s₁, hop₁⟩ := read_of_optional hopt
      obtain ⟨s₂, hdigits⟩ := read_of_optional hvalue
      exact ⟨hkeyed hkey, hop hop₁, digits_decimal hdigits⟩
    · cases hw
  · obtain ⟨⟨body, m⟩, hentry, hw⟩ := List.mem_flatMap.mp h
    obtain ⟨⟨left, s₁⟩, hleft, hread⟩ := Option.bind_eq_some_iff.mp (mem_read hentry).2
    obtain ⟨⟨leftOp, s₂⟩, hleftOp, hread⟩ := Option.bind_eq_some_iff.mp hread
    obtain ⟨⟨a, s₃⟩, hkey, hread⟩ := Option.bind_eq_some_iff.mp hread
    obtain ⟨⟨rightOp, s₄⟩, hrightOp, hread⟩ := Option.bind_eq_some_iff.mp hread
    obtain ⟨⟨right, s₅⟩, hright, hread⟩ := Option.bind_eq_some_iff.mp hread
    dsimp only at hread
    split_ifs at hread
    obtain rfl := Option.some.inj hread
    rcases List.mem_cons.mp hw with rfl | hw
    · exact ⟨hkeyed hkey, hop hleftOp, digits_decimal hleft⟩
    · obtain rfl := List.mem_singleton.mp hw
      exact ⟨hkeyed hkey, hop hrightOp, digits_decimal hright⟩

end

end Stonemite.Triggers
