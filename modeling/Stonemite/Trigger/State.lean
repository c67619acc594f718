import Stonemite.Trigger.Library
import Stonemite.Lib.TreeMap

/-!
# Engine state

The state the engine keeps for a character, its running timers and the actions it emits.
-/

open Std

namespace Stonemite.Triggers

abbrev EngineMillis := Nat

/-- Sum and difference as the release build computes them. -/
def addMillis (a b : EngineMillis) : EngineMillis := wrappingAdd 64 a b

/-- The difference of two clocks, as `u64`. -/
def subMillis (a b : EngineMillis) : EngineMillis := (a + 2 ^ 64 - b) % 2 ^ 64

/-- The character whose log a line is from. -/
structure CharacterContext where
  key : Str
  character : Str
  server : Str
deriving DecidableEq, Repr

inductive ActionPhase
  | initial
  | timerWarning
  | timerEnd
  | timerEndEarly
deriving DecidableEq, Repr

inductive TriggerAction
  | displayText (text : Str) (overlays : List OverlayId) (fontColor : Option Str)
  | playSound (sound : Str) (volume : Int)
  | speak (text : Str) (rate : Option Int) (volume : Int)
deriving DecidableEq, Repr

/-- An action with where it came from. -/
structure ActionEvent where
  character : Str
  triggerId : TriggerId
  triggerName : Str
  phase : ActionPhase
  target : PresentationTarget
  priority : Int
  action : TriggerAction
deriving DecidableEq, Repr

/-- The actions of a line or a tick. -/
structure ActionBatch where
  events : List ActionEvent
  timersChanged : Bool
deriving DecidableEq, Repr

def ActionBatch.empty : ActionBatch := ⟨[], false⟩

def ActionBatch.push (batch : ActionBatch) (event : ActionEvent) : ActionBatch :=
  { batch with events := batch.events ++ [event] }

/-- How often a value was seen, and when last. -/
structure RepeatedData where
  count : Int
  lastMs : EngineMillis
deriving DecidableEq, Repr

/-- The counts of each trigger, by value. -/
abbrev Buckets := ExtTreeMap Nat (ExtTreeMap Str RepeatedData)

/-- The variables of a character. -/
structure VariableStore (P : Platform) where
  values : ExtTreeMap Str Str
  counters : ExtTreeMap Str P.F64
  expiry : ExtTreeMap Str EngineMillis

/-- A pattern that ends a timer early. -/
inductive CompiledEnder (P : Platform)
  | regex (regex : CompatRegex P) (constraints : List NumberConstraint)
  | literal (text : Str)

structure ActiveTimer (P : Platform) where
  triggerIndex : Nat
  triggerId : TriggerId
  kind : TimerKind
  displayName : Str
  displayNameTemplate : Str
  begin : EngineMillis
  finish : EngineMillis
  durationMs : Nat
  resetAt : Option EngineMillis
  warningAt : Option EngineMillis
  warned : Bool
  loopCount : Nat
  earlyEnders : List (CompiledEnder P)
  originalMatches : MatchMap
  previousMatches : MatchMap
  sourceLine : Str
  logTime : Option Str
  counterCount : Int
  repeatedCount : Int

structure CharState (P : Platform) where
  context : CharacterContext
  active : List Nat
  disabled : List Bool
  characterRegexes : AList fun _ : Nat × Bool => Option (CompatRegex P)
  vars : VariableStore P
  counterTimes : Buckets
  repeatedText : Buckets
  repeatedTimer : Buckets
  repeatedSpeak : Buckets
  lockoutUntil : ExtTreeMap Nat EngineMillis
  previousLine : Option Str
  timers : List (ActiveTimer P)

/-- The library and the states of the characters. -/
structure TriggerEngine (P : Platform) where
  compiled : CompiledLibrary P
  characters : ExtTreeMap Str (CharState P)

/-! ### Variables -/

namespace VariableStore
variable {P : Platform}

def empty : VariableStore P := ⟨∅, ∅, ∅⟩

/-- Names are compared in lower case. -/
def key (name : Str) : Str := name.toAsciiLowercase

def get (store : VariableStore P) (name : Str) : Option Str := store.values[key name]?

def set (store : VariableStore P) (name value : Str) (expiresAt : Option EngineMillis) : VariableStore P :=
  { store with
    values := store.values.insert (key name) value
    expiry := match expiresAt with
      | some instant => store.expiry.insert (key name) instant
      | none => store.expiry.erase (key name) }

/-- A variable goes with its counter and its end. -/
def clearKey (store : VariableStore P) (key : Str) : VariableStore P :=
  ⟨store.values.erase key, store.counters.erase key, store.expiry.erase key⟩

def clear (store : VariableStore P) (name : Str) : VariableStore P := store.clearKey (key name)

def expire (store : VariableStore P) (now : EngineMillis) : VariableStore P :=
  ((store.expiry.toList.filter fun entry => now ≥ entry.2).map (·.1)).foldl clearKey store

def asMatchMap (store : VariableStore P) : MatchMap :=
  store.values.toList.foldl (fun map entry => map.insert entry.1 entry.2) .new

end VariableStore

/-! ### Repeated counts -/

/-- Values are compared in lower case. -/
def repeatKey (value : Str) : Str := value.toAsciiLowercase

/-- The value under which a trigger itself is counted. -/
def triggerCount : Str := "trigger-count".toList

/-- The buckets after one more firing of `value`, and its count. -/
def updateRepeated (P : Platform) (buckets : Buckets) (index : Nat) (value : Str) (now : EngineMillis)
    (resetSeconds : P.F64) : Buckets × Int :=
  if value.isEmpty || P.lt resetSeconds P.zero then (buckets, -1)
  else
    let bucket := (buckets[index]?).getD ∅
    let data := (bucket[repeatKey value]?).getD ⟨0, 0⟩
    let count := if data.count = 0 ∨ now - data.lastMs > P.millis resetSeconds then 1 else data.count + 1
    (buckets.insert index (bucket.insert (repeatKey value) ⟨count, now⟩), count)

def getRepeated (buckets : Buckets) (index : Nat) (value : Str) : Int :=
  match (buckets[index]?).bind fun bucket => bucket[repeatKey value]? with
  | some data => data.count
  | none => -1

/-- The count of `value` is forgotten. -/
def removeRepeated (buckets : Buckets) (index : Nat) (value : Str) : Buckets :=
  buckets.modify index fun bucket => bucket.erase (repeatKey value)

/-! ### Timers -/

namespace ActiveTimer
variable {P : Platform}

def isEnded (timer : ActiveTimer P) (now : EngineMillis) : Bool := now ≥ timer.finish

/-- The warning is due and not given. -/
def warningDue (timer : ActiveTimer P) (now : EngineMillis) : Bool :=
  !timer.warned && timer.warningAt.any fun instant => now ≥ instant

end ActiveTimer

/-- The captures of an ender that matches. -/
def CompiledEnder.matches (P : Platform) (line : Str) : CompiledEnder P → Option MatchMap
  | .regex compat constraints =>
    (compat.snapshotMatches P line).toOption.join.bind fun outcome =>
      if (checkConstraints P constraints outcome.captures).1 then some outcome.captures else none
  | .literal text => if !text.isEmpty && containsIgnoreCase line text then some .new else none

end Stonemite.Triggers
