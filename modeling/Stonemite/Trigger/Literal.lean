import Stonemite.Trigger.Engine

/-!
# Alternatives of literals

The least platform: its regular expressions are literals of letters, digits and spaces with bars between
them, its numbers are integers.
-/

namespace Stonemite.Triggers.Literal

/-- Alternatives of letters, without any other syntax. -/
def parse (pattern : Str) (_ : Nat) : Except Str (List Str) :=
  let branches := (pattern.drop 4).splitOn '|'
  if branches.all (·.all searchable) then .ok branches else .error "unsupported".toList

/-- The first of the literals that stands at the front of `rest`. -/
def matchAt (branches : List Str) (pre rest : Str) : Option Group :=
  (branches.find? fun text => text.toAsciiLowercase.isPrefixOf rest.toAsciiLowercase).map fun text =>
    ⟨pre.len, pre.len + Str.len (rest.take text.length), rest.take text.length⟩

/-- The first match from byte `start` on. -/
def find (branches : List Str) (start : Nat) (pre : Str) : Str → Option Group
  | [] => if start ≤ pre.len then matchAt branches pre [] else none
  | c :: rest =>
    (if start ≤ pre.len then matchAt branches pre (c :: rest) else none).or (find branches start (pre ++ [c]) rest)

/-- Regexes that are such alternatives. -/
def platform : Platform where
  Regex := List Str
  build := parse
  captureNames _ := [none]
  capturesFromPos branches line start := .ok ((find branches start [] line).map fun group => [some group])
  capturesIter _ _ := []
  escape text := text
  F64 := Int
  ofNat n := n
  add a b := a + b
  sub a b := a - b
  mul a b := a * b
  lt a b := a < b
  le a b := a ≤ b
  eq a b := a = b
  abs a := a.natAbs
  fract _ := 0
  round a := a
  isFinite _ := true
  toU64 a := a.toNat
  toI64 a := a
  parse _ := none
  display := Str.decimal
  toUppercase text := text.map Char.toUpper
  toLowercase text := text.map Char.toLower
  isAlphabetic := Char.isAlpha
  isAlphanumeric := Char.isAlphanum

/-- A trigger that shows its text at every line its pattern matches. -/
def trigger (id : TriggerId) (pattern : Pattern) (displayText : Str) (timer : Option (TimerBehavior platform)) : Trigger platform where
  id := id
  name := pattern.text
  folder := none
  enabled := true
  pattern := pattern
  previousPattern := none
  condition := []
  lockoutSeconds := (0 : Int)
  repeatedResetSeconds := (0 : Int)
  variableActions := []
  displayText := some displayText
  speakText := none
  sound := none
  timer := timer
  priority := 3
  voiceRate := 0
  volume := 4
  textOverlays := []
  timerOverlays := []
  fontColor := none
  activeColor := none
  idleColor := none
  resetColor := none
  target := .source
  quarantined := false

/-- A library of such triggers, active for everybody. -/
def library (triggers : List (Trigger platform)) : TriggerLibrary platform := ⟨[], triggers, []⟩

/-- A countdown of half a minute. -/
def timer (restartMode : TimerRestartMode) : TimerBehavior platform where
  kind := .countdown
  timerName := "pull".toList
  durationSeconds := (30 : Int)
  resetDurationSeconds := (0 : Int)
  timesToLoop := 0
  restartMode := restartMode
  warningSeconds := 0
  warning := {}
  finish := {}
  earlyEnd := {}
  endEarlyPatterns := []
  endEarlyRepeatedCount := 0
  endClearVariables := []

def bilka : CharacterContext := ⟨"pid:1".toList, "Bilka".toList, "teek".toList⟩

end Stonemite.Triggers.Literal
