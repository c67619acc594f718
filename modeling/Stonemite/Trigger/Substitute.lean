import Stonemite.Trigger.Pattern

/-!
# Text substitution

Tokens of templates against captures, the raw line and variables, and the built-in codes.
-/

namespace Stonemite

namespace Str

/-- The text from byte `n` on. -/
def dropBytes : Nat → Str → Str
  | _, [] => []
  | n, c :: s => if n = 0 then c :: s else dropBytes (n - (String.utf8EncodeChar c).length) s

/-- The first `n` bytes. -/
def takeBytes : Nat → Str → Str
  | _, [] => []
  | n, c :: s => if n = 0 then [] else c :: takeBytes (n - (String.utf8EncodeChar c).length) s

/-- The bytes from `start` to `stop`. -/
def slice (s : Str) (start stop : Nat) : Str := (s.dropBytes start).takeBytes (stop - start)

end Str

namespace Triggers

/-- The code of the character's name. -/
def characterCode : Str := "\x7bc\x7d".toList

/-- The code of a trigger's count. -/
def counterCode : Str := "\x7bcounter\x7d".toList

def repeatedCode : Str := "\x7brepeated\x7d".toList

def logtimeCode : Str := "\x7blogtime\x7d".toList

/-- The code that stands for nothing. -/
def nullCode : Str := "\x7bnull\x7d".toList

def lineCode : Str := "\x7bl\x7d".toList

/-- The code of the time that is left at a warning. -/
def timerWarnTimeCode : Str := "\x7btimer-warn-time-value\x7d".toList

def tokenRegex : Str :=
  "\\$?\\\x7b(?<name>[a-zA-Z0-9_]+)(?:\\.(?<modifier>[a-zA-Z0-9_]+)(?::(?<arg>[^\x7d]*))?)?\\\x7d".toList

/-- Every occurrence of the code, whatever its case. -/
def replaceCodeLoop (code value : Str) : Nat → Str → Str
  | _, [] => []
  | skip + 1, _ :: rest => replaceCodeLoop code value skip rest
  | 0, c :: rest =>
    if code.toAsciiLowercase.isPrefixOf (Str.toAsciiLowercase (c :: rest)) then
      value ++ replaceCodeLoop code value (code.length - 1) rest
    else c :: replaceCodeLoop code value 0 rest

def replaceCode (text code value : Str) : Str :=
  if text.len < code.len then text else replaceCodeLoop code value 0 text

def replaceLineCode (text line : Str) : Str := replaceCode text lineCode line

def containsCode (text code : Str) : Bool := containsIgnoreCase text code

inductive Pad
  | left
  | right
  | center

def pad (value : Str) (arg : Option Str) (side : Pad) : Str :=
  let width := ((arg.bind fun arg => Str.parseUnsigned 64 arg.trim).getD 0)
  let missing := width - value.length
  if width ≤ value.length then value
  else match side with
    | .left => List.replicate missing ' ' ++ value
    | .right => value ++ List.replicate missing ' '
    | .center => List.replicate (missing / 2) ' ' ++ value ++ List.replicate (missing - missing / 2) ' '

/-- A comma after each third digit; `count` digits of the reversed number came before. -/
def groupDigits : Nat → Str → Str
  | _, [] => []
  | count, digit :: digits =>
    if count > 0 ∧ count % 3 = 0 then ',' :: digit :: groupDigits (count + 1) digits
    else digit :: groupDigits (count + 1) digits

/-- The characters left for speech. -/
def sanitizeTts (text : Str) : Str :=
  text.filter fun c => Str.isAsciiAlphanumeric c || " .,!?;:'\"-()".toList.contains c

section
variable (P : Platform)

/-- The rounded number with its digits in groups of three. -/
def groupThousands (number : P.F64) : Str :=
  let rounded := P.toI64 (P.round number)
  let body := (groupDigits 0 (Nat.toDigits 10 rounded.natAbs).reverse).reverse
  if rounded < 0 then '-' :: body else body

def applyModifier (value : Str) (modifier arg : Option Str) : Str :=
  match modifier with
  | none => value
  | some modifier =>
    match String.ofList modifier.toAsciiLowercase with
    | "capitalize" => match value with
      | first :: rest => P.toUppercase [first] ++ rest
      | [] => []
    | "upper" => P.toUppercase value
    | "lower" => P.toLowercase value
    | "number" => match P.parse value with
      | some number => groupThousands P number
      | none => value
    | "padleft" => pad value arg .left
    | "padright" => pad value arg .right
    | "center" => pad value arg .center
    | _ => value

/-- The text up to and including one token, from byte `last` on. -/
def replaceToken (text : Str) (resolve : Str → Option Str) (acc : Str × Nat) (capture : Captures) : Str × Nat :=
  let (result, last) := acc
  match capture with
  | some whole :: _ =>
    let token := match resolve (capture.at 1) with
      | some value => applyModifier P value (capture.get 2) (capture.get 3)
      | none => whole.text
    (result ++ text.slice last whole.start ++ token, whole.stop)
  | _ => acc

/-- Tokens by `resolve`; those it does not resolve stay. -/
def replaceTokens (text : Str) (resolve : Str → Option Str) : Str :=
  if !text.contains '{' then text
  else
    let (result, last) := (P.capturesIter tokenRegex text).foldl (replaceToken P text resolve) ([], 0)
    result ++ text.dropBytes last

def replaceFromMatches (text : Str) : Option MatchMap → Str
  | some captures => if text.isEmpty then text else replaceTokens P text captures.get
  | none => text

def resolveTemplate (template line : Str) (captures original previous : Option MatchMap) (vars : MatchMap) :
    Option Str :=
  if template.isEmpty || template.eqIgnoreAsciiCase nullCode then none
  else
    let text := replaceFromMatches P template original
    let text := replaceFromMatches P text captures
    let text := replaceFromMatches P text previous
    let text := replaceLineCode text line
    some (replaceTokens P text vars.get)

end

end Triggers
end Stonemite
