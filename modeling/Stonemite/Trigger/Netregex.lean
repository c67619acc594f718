import Stonemite.Trigger.Platform

/-!
# The .NET pattern adapter

Compilation of a user pattern, the snapshot of its matches, and the literal prefilter.
-/

namespace Stonemite

namespace Str

def isAsciiAlphanumeric (c : Char) : Bool :=
  ('a' ≤ c && c ≤ 'z') || ('A' ≤ c && c ≤ 'Z') || ('0' ≤ c && c ≤ '9')

/-- `to_ascii_lowercase` on a byte. -/
def lowerByte (b : UInt8) : UInt8 := if 65 ≤ b && b ≤ 90 then b + 32 else b

/-- `str::len`. -/
def len (s : Str) : Nat := s.bytes.length

end Str

namespace Triggers

def maxPatternLen : Nat := 4096

def backtrackLimit : Nat := 250000

structure RegexCompatError where
  reason : String
  detail : Str
deriving DecidableEq, Repr

/-- A compiled pattern with the names of its groups. -/
structure CompatRegex (P : Platform) where
  regex : P.Regex
  groupNames : List (Option Str)

/-! ### Captures -/

/-- Keys are kept as first written and compared without ASCII case. -/
structure MatchMap where
  entries : List (Str × Str)
deriving DecidableEq, Repr

namespace MatchMap

def new : MatchMap := ⟨[]⟩

/-- The entry of the key is replaced where it stands, or added at the end. -/
def insertLoop (key value : Str) : List (Str × Str) → List (Str × Str)
  | [] => [(key, value)]
  | entry :: entries =>
    if entry.1.eqIgnoreAsciiCase key then (entry.1, value) :: entries else entry :: insertLoop key value entries

/-- `insert`, whatever the case of the key. -/
def insert (map : MatchMap) (key value : Str) : MatchMap := ⟨insertLoop key value map.entries⟩

/-- `get`, whatever the case of the key. -/
def get (map : MatchMap) (key : Str) : Option Str :=
  (map.entries.find? fun entry => entry.1.eqIgnoreAsciiCase key).map (·.2)

end MatchMap

/-- The captures of a match and what they span. -/
structure MatchOutcome where
  captures : MatchMap
  spans : List (Nat × Nat)
deriving DecidableEq, Repr

/-! ### Compilation -/

/-- The error for a construct of .NET. -/
def unsupported (what : String) : RegexCompatError :=
  ⟨"unsupported-construct", "this pattern uses a .NET-only regex feature: ".toList ++ what.toList⟩

/-- What is wrong with a group that opens with `(?` and goes on with `rest`. -/
def unsupportedGroup (rest : Str) : Option RegexCompatError :=
  let balancing := match (if ['<'].isPrefixOf rest then some (rest.drop 1)
      else if ['P', '<'].isPrefixOf rest then some (rest.drop 2) else none) with
    | some inner => inner.contains '>' && (inner.takeWhile (· ≠ '>')).contains '-'
    | none => false
  let flagRun := rest.takeWhile fun c => "imsxn-".toList.contains c
  let after := rest.drop flagRun.length
  if ['('].isPrefixOf rest then some (unsupported "conditional expression ((?(…)…))")
  else if balancing then some (unsupported "balancing group ((?<a-b>…))")
  else if !flagRun.isEmpty && ([':'].isPrefixOf after || [')'].isPrefixOf after) && flagRun.contains 'n' then
    some (unsupported "inline (?n) explicit-capture option")
  else none

/-- The first construct without a faithful translation. -/
def detectUnsupported (inClass : Bool) : Str → Except RegexCompatError Unit
  | [] => .ok ()
  | ['\\'] => .ok ()
  | '\\' :: _ :: rest => detectUnsupported inClass rest
  | c :: rest =>
    if c = '[' ∧ inClass = false then detectUnsupported true rest
    else if c = ']' ∧ inClass = true then detectUnsupported false rest
    else if c = '-' ∧ inClass = true ∧ ['['].isPrefixOf rest then
      .error (unsupported "character-class subtraction ([a-[b]])")
    else if c = '(' ∧ inClass = false ∧ ['?'].isPrefixOf rest then
      match unsupportedGroup (rest.drop 1) with
      | some error => .error error
      | none => detectUnsupported inClass rest
    else if (c = '*' ∨ c = '+' ∨ c = '?' ∨ c = '}') ∧ inClass = false ∧ ['+'].isPrefixOf rest then
      .error (unsupported "possessive quantifier (e.g. *+)")
    else detectUnsupported inClass rest

/-- .NET spellings for `fancy_regex`. -/
def translate : Str → Str
  | '\\' :: 'Z' :: rest => '\\' :: 'z' :: translate rest
  | '\\' :: c :: rest => '\\' :: c :: translate rest
  | c :: rest => c :: translate rest
  | [] => []

section
variable (P : Platform)

def CompatRegex.compile (pattern : Str) : Except RegexCompatError (CompatRegex P) :=
  if pattern.len > maxPatternLen then
    .error ⟨"pattern-too-long", "pattern is ".toList ++ Str.decimal pattern.len ++
      " characters; the limit is ".toList ++ Str.decimal maxPatternLen⟩
  else
    match detectUnsupported false pattern with
    | .error error => .error error
    | .ok () =>
      match P.build ("(?i)".toList ++ translate pattern) backtrackLimit with
      | .error error => .error ⟨"invalid-regex", error⟩
      | .ok regex => .ok ⟨regex, P.captureNames regex⟩

/-- The captures of one match, by group name or number; `slot` numbers the first of `names`. -/
def insertGroups (captures : Captures) : Nat → List (Option Str) → MatchMap → MatchMap
  | _, [], map => map
  | slot, name :: names, map =>
    let map := match captures[slot]? with
      | some (some group) => map.insert (name.getD (Str.decimal slot)) group.text
      | _ => map
    insertGroups captures (slot + 1) names map

/-- At most `scans` more matches from byte `start` on. -/
def snapshotLoop (regex : CompatRegex P) (text : Str) :
    Nat → Nat → Bool → MatchOutcome → Except RegexCompatError (Option MatchOutcome)
  | 0, _, found, outcome => .ok (if found then some outcome else none)
  | scans + 1, start, found, outcome =>
    if start > text.len then .ok (if found then some outcome else none)
    else
      match P.capturesFromPos regex.regex text start with
      | .error error => .error ⟨"match-budget-exceeded", error⟩
      | .ok (some (some whole :: groups)) =>
        let outcome : MatchOutcome :=
          ⟨insertGroups (some whole :: groups) 1 (regex.groupNames.drop 1) outcome.captures,
            outcome.spans ++ [(whole.start, whole.stop)]⟩
        snapshotLoop regex text scans (if whole.stop > whole.start then whole.stop else whole.stop + 1) true outcome
      -- group 0 is always present
      | .ok _ => .ok (if found then some outcome else none)

def CompatRegex.snapshotMatches (regex : CompatRegex P) (text : Str) :
    Except RegexCompatError (Option MatchOutcome) :=
  snapshotLoop P regex text 64 0 false ⟨.new, []⟩

end

/-! ### The prefilter -/

/-- The characters a prefilter is made of. -/
def searchable (c : Char) : Bool := Str.isAsciiAlphanumeric c || c = ' '

/-- The letters, digits and blanks from a place on. -/
def searchablePrefix (pattern : Str) (start : Nat) : Str :=
  (pattern.drop start).takeWhile searchable

/-- The bytes are the same but for the case of ASCII letters. -/
def bytesEqIgnoreAsciiCase (a b : List UInt8) : Bool := a.map Str.lowerByte == b.map Str.lowerByte

/-- `slice::windows`. -/
def windows {α : Type} (n : Nat) (l : List α) : List (List α) :=
  (l.tails.map (·.take n)).filter fun w => w.length = n

/-- `contains_ignore_case`, with the length counted in bytes. -/
def containsIgnoreCase (haystack needle : Str) : Bool :=
  if needle.isEmpty then false
  else if needle.len > haystack.len then false
  else (windows needle.len haystack.bytes).any (bytesEqIgnoreAsciiCase · needle.bytes)

def startsWithIgnoreCase (haystack pre : Str) : Bool :=
  haystack.len ≥ pre.len && bytesEqIgnoreAsciiCase (haystack.bytes.take pre.len) pre.bytes

/-- What a line has to contain for the regex to be tried. -/
inductive Prefilter
  | none
  | startsWith (text : Str)
  | contains (text : Str)
deriving DecidableEq, Repr

namespace Prefilter

def forPattern (pattern : Str) : Prefilter :=
  if pattern.len ≤ 3 then .none
  else match pattern with
    | '^' :: rest =>
      let text := searchablePrefix rest 0
      if text.isEmpty then .none else .startsWith text
    | _ =>
      let text := searchablePrefix pattern 0
      if text.len > 2 then .contains text else .none

def admits (line : Str) : Prefilter → Bool
  | .none => true
  | .startsWith pre => startsWithIgnoreCase line pre
  | .contains needle => containsIgnoreCase line needle

end Prefilter

end Triggers
end Stonemite
