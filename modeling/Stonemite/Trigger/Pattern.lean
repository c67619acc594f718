import Stonemite.Lib.Parsing
import Stonemite.Trigger.Netregex

/-!
# Pattern macros

The GINA macros of a regex pattern, the numeric constraints they leave and the durations they capture.
-/

namespace Stonemite

namespace Str

/-- `str::replace` of a text that is not empty; `skip` characters of a replaced occurrence are left. -/
def replaceLoop (old new : Str) : Nat → Str → Str
  | _, [] => []
  | skip + 1, _ :: rest => replaceLoop old new skip rest
  | 0, c :: rest =>
    if old.isPrefixOf (c :: rest) then new ++ replaceLoop old new (old.length - 1) rest
    else c :: replaceLoop old new 0 rest

def replace (text old new : Str) : Str := if old = [] then text else replaceLoop old new 0 text

end Str

namespace Triggers

/-- The comparisons of a number macro. -/
inductive NumberOp
  | greater
  | greaterEqual
  | less
  | lessEqual
  | equal
deriving DecidableEq, Repr

namespace NumberOp

/-- The comparison of an operator. -/
def parse (op : Str) : Option NumberOp :=
  if op = ['>'] then some greater
  else if op = ['>', '='] then some greaterEqual
  else if op = ['<'] then some less
  else if op = ['<', '='] then some lessEqual
  else if op = ['='] ∨ op = ['=', '='] then some equal
  else none

/-- The comparison with its sides exchanged. -/
def flipped : NumberOp → NumberOp
  | greater => less
  | greaterEqual => lessEqual
  | less => greater
  | lessEqual => greaterEqual
  | equal => equal

def check (left right : Nat) : NumberOp → Bool
  | greater => left > right
  | greaterEqual => left ≥ right
  | less => left < right
  | lessEqual => left ≤ right
  | equal => left == right

end NumberOp

/-- A bound on the number of a capture. -/
structure NumberConstraint where
  key : Str
  op : NumberOp
  value : Nat
deriving DecidableEq, Repr

/-- The regex of a pattern, with the bounds of its macros. -/
structure ExpandedPattern where
  pattern : Str
  constraints : List NumberConstraint
deriving DecidableEq, Repr

def stringMacro : Str := "(?i)\\\x7b(s\\d?)\\\x7d".toList

def numberMacro : Str := "(?i)\\\x7b\\s*(n\\d?)\\s*(<=|>=|>|<|==|=)?\\s*(\\d+)?\\s*\\\x7d".toList

/-- The regex of `chained_number_macro`. -/
def chainedNumberMacro : Str :=
  "(?i)\\\x7b\\s*(\\d+)\\s*(<=|>=|>|<|==|=)\\s*(n\\d?)\\s*(<=|>=|>|<|==|=)\\s*(\\d+)\\s*\\\x7d".toList

def tsMacro : Str := "(?i)\\\x7b(ts)\\\x7d".toList

/-- The text of a group, if it took part in the match. -/
def Captures.get (captures : Captures) (slot : Nat) : Option Str := (captures[slot]?).join.map (·.text)

/-- The text of a group that always takes part. -/
def Captures.at (captures : Captures) (slot : Nat) : Str := (captures.get slot).getD []

/-- A string macro becomes a group. -/
def expandString (result : Str) (capture : Captures) : Str :=
  result.replace (capture.at 0) ("(?<".toList ++ capture.at 1 ++ ">.+)".toList)

/-- A number macro becomes a group with its bound. -/
def expandNumber (expanded : ExpandedPattern) (capture : Captures) : ExpandedPattern :=
  let key := capture.at 1
  let constraints := match capture.get 2, capture.get 3 with
    | some op, some value =>
      match NumberOp.parse op, Str.parseUnsigned 32 value with
      | some op, some value => [⟨key, op, value⟩]
      | _, _ => []
    | _, _ => []
  ⟨expanded.pattern.replace (capture.at 0) ("(?<".toList ++ key ++ ">\\d+)".toList),
    expanded.constraints ++ constraints⟩

/-- A chained number macro becomes a group with both bounds. -/
def expandChained (expanded : ExpandedPattern) (capture : Captures) : ExpandedPattern :=
  let key := capture.at 3
  let left := match Str.parseUnsigned 32 (capture.at 1), NumberOp.parse (capture.at 2) with
    | some left, some op => [⟨key, op.flipped, left⟩]
    | _, _ => []
  let right := match NumberOp.parse (capture.at 4), Str.parseUnsigned 32 (capture.at 5) with
    | some op, some right => [⟨key, op, right⟩]
    | _, _ => []
  ⟨expanded.pattern.replace (capture.at 0) ("(?<".toList ++ key ++ ">\\d+)".toList),
    expanded.constraints ++ left ++ right⟩

/-- A time macro becomes a group. -/
def expandTs (result : Str) (capture : Captures) : Str :=
  result.replace (capture.at 0) ("(?<".toList ++ capture.at 1 ++ ">(?:\\d+[dhms]?:?)\x7b1,4\x7d)".toList)

section
variable (P : Platform)

def expand (pattern : Str) : ExpandedPattern :=
  let result := (P.capturesIter stringMacro pattern).foldl expandString pattern
  let expanded := (P.capturesIter numberMacro result).foldl expandNumber ⟨result, []⟩
  let expanded := (P.capturesIter chainedNumberMacro expanded.pattern).foldl expandChained expanded
  { expanded with pattern := (P.capturesIter tsMacro expanded.pattern).foldl expandTs expanded.pattern }

/-- The value of one segment at its place from the right. -/
def segmentSeconds (labeled : Bool) (position : Nat) (segment : Str) : Option Nat :=
  let segment := segment.trim
  let (digits, unit) := match segment.getLast? with
    | some label => if Str.isAsciiAlphabetic label then (segment.dropLast, some label.toLower) else (segment, none)
    | none => (segment, none)
  match Str.parseUnsigned 64 digits with
  | none => none
  | some value =>
    let multiplier := match unit with
      | some 's' => some 1
      | some 'm' => some 60
      | some 'h' => some 3600
      | some 'd' => some 86400
      | some _ => none
      | none =>
        if labeled then none
        else match position with
          | 0 => some 1
          | 1 => some 60
          | 2 => some 3600
          | 3 => some 86400
          | _ => none
    multiplier.map (wrappingMul 64 value)

/-- The seconds of the segments, from the last one on. -/
def addSegments (labeled : Bool) : Nat → List Str → P.F64 → P.F64
  | _, [], total => total
  | position, segment :: segments, total =>
    match segmentSeconds labeled position segment with
    | none => P.zero
    | some seconds => addSegments labeled (position + 1) segments (P.add total (P.ofNat seconds))

def simpleTimeToSeconds (text : Str) : P.F64 :=
  let segments := ((text.trim).trimEndMatches (· = ':')).split ':'
  if segments.length > 4 then P.zero
  else
    let labeled := segments.any fun segment => match segment.getLast? with
      | some c => "dhmsDHMS".toList.contains c
      | none => false
    addSegments P labeled 0 segments.reverse P.zero

def parseU32 (text : Str) : Option Nat :=
  if text.isEmpty || !text.all Str.isAsciiDigit then none else Str.parseUnsigned 32 text

/-- The constraints on one capture. -/
def constraintsHold (constraints : List NumberConstraint) (name value : Str) : Bool :=
  constraints.all fun constraint =>
    if constraint.key.eqIgnoreAsciiCase name then
      match parseU32 value with
      | none => true
      | some parsed => constraint.op.check parsed constraint.value
    else true

/-- The bounds on the captures, and the duration that one of them is. -/
def checkEntries (constraints : List NumberConstraint) : List (Str × Str) → Option P.F64 → Bool × Option P.F64
  | [], duration => (true, duration)
  | (name, value) :: entries, duration =>
    if name.eqIgnoreAsciiCase ['t', 's'] then
      let seconds := simpleTimeToSeconds P value
      if P.positive seconds then checkEntries constraints entries (some seconds) else (false, none)
    else if constraintsHold constraints name value then checkEntries constraints entries duration
    else (false, none)

def checkConstraints (constraints : List NumberConstraint) (captures : MatchMap) : Bool × Option P.F64 :=
  checkEntries P constraints captures.entries none

end

end Triggers
end Stonemite
