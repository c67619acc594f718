import Stonemite.Trigger.State

/-!
# The trigger engine

Matching of a line, the firing of a trigger, the stages of its timers and the two entry points:
`processLine` for a log line and `advance` for the clock. The evaluation trace is left out: nothing reads
it back. Characters are visited in the order of their keys, where the source leaves the order open.
-/

open Std

namespace Stonemite.Triggers

variable {P : Platform}

/-- What a match of a line gives. -/
structure LineMatch (P : Platform) where
  captures : MatchMap
  spans : List (Nat × Nat)
  dynamicDuration : Option P.F64

/-! ### Matching -/

/-- The regex for the state's character, compiled at its first use. -/
def CharState.characterRegex (state : CharState P) (index : Nat) (isPrevious : Bool) (expandedPattern : Str) :
    CharState P × Option (CompatRegex P) :=
  match state.characterRegexes.lookup (index, isPrevious) with
  | some entry => (state, entry)
  | none =>
    let entry := (CompatRegex.compile P
      (replaceCode expandedPattern characterCode (P.escape state.context.character))).toOption
    ({ state with characterRegexes := state.characterRegexes.insert (index, isPrevious) entry }, entry)

/-- The match of a regex that was admitted; over its budget it disables the trigger. -/
def CharState.matchRegex (state : CharState P) (index : Nat) (line : Str) (constraints : List NumberConstraint)
    (regex : CompatRegex P) : CharState P × Option (LineMatch P) :=
  match regex.snapshotMatches P line with
  | .error _ => ({ state with disabled := state.disabled.set index true }, none)
  | .ok none => (state, none)
  | .ok (some outcome) =>
    let (passed, duration) := checkConstraints P constraints outcome.captures
    (state, if passed then some ⟨outcome.captures, outcome.spans, duration⟩ else none)

/-- A line against a matcher, with the character's regex compiled if it is not there. -/
def CharState.matchLine (state : CharState P) (index : Nat) (line : Str) (isPrevious : Bool) :
    Matcher P → CharState P × Option (LineMatch P)
  | .literal text needsCharacter =>
    let text := if needsCharacter then replaceCode text characterCode state.context.character else text
    (state, if !text.isEmpty && containsIgnoreCase line text then some ⟨.new, [], none⟩ else none)
  | .regex regex constraints prefilter expandedPattern needsCharacter =>
    if !prefilter.admits line then (state, none)
    else if needsCharacter then
      match state.characterRegex index isPrevious expandedPattern with
      | (state, none) => (state, none)
      | (state, some regex) => state.matchRegex index line constraints regex
    else state.matchRegex index line constraints regex

def CharState.checkLine (state : CharState P) (compiled : CompiledTrigger P) (index : Nat) (line : Str)
    (isPrevious : Bool) : CharState P × Option (LineMatch P) :=
  if isPrevious then
    match compiled.previous with
    | none => (state, none)
    | some matcher => state.matchLine index line true matcher
  else state.matchLine index line false compiled.matcher

/-! ### Actions -/

def isSoundFile (text : Str) : Bool :=
  let lower := text.toAsciiLowercase
  ".wav".toList.isSuffixOf lower || ".mp3".toList.isSuffixOf lower

/-- The values a template of a firing or of a timer stage is resolved with. -/
structure Scope where
  line : Str
  captures : Option MatchMap
  original : Option MatchMap
  previous : Option MatchMap
  logTime : Option Str
  counterCount : Int

namespace CompiledTrigger

/-- An action of a trigger with where it came from. -/
def event (compiled : CompiledTrigger P) (state : CharState P) (phase : ActionPhase) (action : TriggerAction) :
    ActionEvent :=
  ⟨state.context.key, compiled.id, compiled.name, phase, compiled.trigger.target, compiled.trigger.priority, action⟩

/-- A text for the trigger's overlays. -/
def displayEvent (compiled : CompiledTrigger P) (state : CharState P) (phase : ActionPhase) (text : Str) :
    ActionEvent :=
  compiled.event state phase (.displayText text compiled.trigger.textOverlays compiled.trigger.fontColor)

end CompiledTrigger

/-- `{repeated}`, `{counter}` and `{logtime}` in the text of a first firing. -/
def CharState.initialSpeech (state : CharState P) (compiled : CompiledTrigger P) (index : Nat) (scope : Scope)
    (now : EngineMillis) (text : Str) : CharState P × Str :=
  let (state, text) :=
    if compiled.speakFlags.repeated then
      let (buckets, count) := updateRepeated P state.repeatedSpeak index text now compiled.trigger.repeatedResetSeconds
      ({ state with repeatedSpeak := buckets }, replaceCode text repeatedCode (Str.decimal count))
    else (state, text)
  let text := if compiled.speakFlags.counter && scope.counterCount > 0 then
      replaceCode text counterCode (Str.decimal scope.counterCount) else text
  let text := match compiled.speakFlags.logtime, scope.logTime with
    | true, some logTime => replaceCode text logtimeCode logTime
    | _, _ => text
  (state, text)

/-- Speech for a stage without a sound file. -/
def CharState.pushSpeech (state : CharState P) (compiled : CompiledTrigger P) (index : Nat) (phase : ActionPhase)
    (speakTemplate : Str) (scope : Scope) (now : EngineMillis) (batch : ActionBatch) : CharState P × ActionBatch :=
  if speakTemplate.isEmpty || speakTemplate.eqIgnoreAsciiCase nullCode then (state, batch)
  else
    match resolveTemplate P speakTemplate scope.line scope.captures scope.original scope.previous
        state.vars.asMatchMap with
    | none => (state, batch)
    | some tts =>
      let tts := replaceCode tts characterCode state.context.character
      let (state, tts) := if phase = .initial then state.initialSpeech compiled index scope now tts else (state, tts)
      let tts := sanitizeTts tts
      if tts.trim.isEmpty then (state, batch)
      else
        let rate := if compiled.trigger.voiceRate > 0 then some (compiled.trigger.voiceRate - 1) else none
        (state, batch.push (compiled.event state phase (.speak tts rate compiled.trigger.volume)))

/-- A sound file goes before speech. -/
def CharState.pushAudio (state : CharState P) (compiled : CompiledTrigger P) (index : Nat) (phase : ActionPhase)
    (sound : Option Str) (speakTemplate : Str) (scope : Scope) (now : EngineMillis) (batch : ActionBatch) :
    CharState P × ActionBatch :=
  match sound.filter isSoundFile with
  | some sound =>
    (state, if sound.eqIgnoreAsciiCase nullCode then batch
      else batch.push (compiled.event state phase (.playSound sound compiled.trigger.volume)))
  | none => state.pushSpeech compiled index phase speakTemplate scope now batch

/-- The first display text. -/
def CharState.pushDisplay (state : CharState P) (compiled : CompiledTrigger P) (index : Nat) (scope : Scope)
    (now : EngineMillis) (batch : ActionBatch) : CharState P × ActionBatch :=
  match resolveTemplate P compiled.displayTemplate scope.line scope.captures scope.original scope.previous
      state.vars.asMatchMap with
  | none => (state, batch)
  | some text =>
    let text := replaceCode text characterCode state.context.character
    let (state, text) :=
      if compiled.displayFlags.repeated then
        let (buckets, count) := updateRepeated P state.repeatedText index text now compiled.trigger.repeatedResetSeconds
        ({ state with repeatedText := buckets }, replaceCode text repeatedCode (Str.decimal count))
      else (state, text)
    let text := if compiled.displayFlags.counter then
        replaceCode text counterCode (Str.decimal scope.counterCount) else text
    let text := match compiled.displayFlags.logtime, scope.logTime with
      | true, some logTime => replaceCode text logtimeCode logTime
      | _, _ => text
    (state, batch.push (compiled.displayEvent state .initial text))

/-! ### Variable actions -/

/-- `apply_variable_actions` for one action. -/
def VariableStore.applyAction (store : VariableStore P) (line : Str) (captures previousMatches : MatchMap)
    (now : EngineMillis) (action : VariableAction P) : VariableStore P :=
  let name := action.name.trim
  if name.isEmpty then store
  else
    let expiresAt := if P.positive action.timeToLiveSeconds then some (addMillis now (P.millis action.timeToLiveSeconds))
      else none
    match action.op with
    | .clear => store.clear name
    | .setCounter =>
      let current := match store.counters[VariableStore.key name]? with
        | some current => current
        | none => ((store.get name).bind P.parse).getD action.initialValue
      let updated := P.add current action.step
      { store with counters := store.counters.insert (VariableStore.key name) updated }.set name
        (P.formatNumber updated) expiresAt
    | .setValue =>
      if action.value.isEmpty then store
      else
        let resolved := replaceFromMatches P action.value (some captures)
        let resolved := replaceFromMatches P resolved (some previousMatches)
        let resolved := replaceLineCode resolved line
        store.set name (replaceTokens P resolved store.asMatchMap.get) expiresAt

/-! ### Timers -/

/-- The enders of a timer that starts. -/
def CompiledTrigger.earlyEnders (compiled : CompiledTrigger P) (character : Str) (captures previousMatches : MatchMap) :
    List (CompiledEnder P) :=
  compiled.enderTemplates.filterMap fun template =>
    let pattern := replaceFromMatches P template.text (some captures)
    let pattern := replaceFromMatches P pattern (some previousMatches)
    let pattern := replaceCode pattern characterCode character
    if template.useRegex then
      let expanded := expand P pattern
      (CompatRegex.compile P expanded.pattern).toOption.map fun regex => .regex regex expanded.constraints
    else some (.literal pattern)

/-- The timers left by the restart mode when a timer named `displayName` is to start, if it is. -/
def TimerRestartMode.admits (mode : TimerRestartMode) (index : Nat) (displayName : Str) (timers : List (ActiveTimer P)) :
    Option (List (ActiveTimer P)) :=
  let ofTrigger (timer : ActiveTimer P) : Bool := timer.triggerIndex == index
  let sameName (timer : ActiveTimer P) : Bool := ofTrigger timer && timer.displayName.eqIgnoreAsciiCase displayName
  match mode with
  | .startNew => some timers
  | .restartAll => some (timers.filter fun timer => !ofTrigger timer)
  | .restartSameName => some (timers.filter fun timer => !sameName timer)
  | .ignoreIfAnyRunning => if timers.any ofTrigger then none else some timers
  | .ignoreIfSameNameRunning => if timers.any sameName then none else some timers

/-- What a firing or a repeat brings to a new timer. -/
structure Firing where
  line : Str
  logTime : Option Str
  captures : MatchMap
  previousMatches : MatchMap
  now : EngineMillis
  loopCount : Nat
  counterCount : Int

/-- The timer that a firing adds. -/
def CompiledTrigger.newTimer (compiled : CompiledTrigger P) (behavior : TimerBehavior P) (state : CharState P)
    (index : Nat) (displayName template : Str) (dynamicDuration : Option P.F64) (f : Firing) : ActiveTimer P :=
  let durationSeconds := dynamicDuration.getD behavior.durationSeconds
  let durationMs := P.toU64 (P.mul durationSeconds (P.ofNat 1000))
  let warns := behavior.warningSeconds > 0 ∧
    P.positive (P.sub durationSeconds (P.ofNat behavior.warningSeconds)) = true
  { triggerIndex := index
    triggerId := compiled.id
    kind := behavior.kind
    displayName := displayName
    displayNameTemplate := template
    begin := f.now
    finish := addMillis f.now durationMs
    durationMs := durationMs
    resetAt := if P.positive behavior.resetDurationSeconds then
      some (addMillis f.now (P.millis behavior.resetDurationSeconds)) else none
    warningAt := if warns then
      some (subMillis (addMillis f.now durationMs) (behavior.warningSeconds * 1000)) else none
    warned := false
    loopCount := f.loopCount
    earlyEnders := compiled.earlyEnders state.context.character f.captures f.previousMatches
    originalMatches := f.captures
    previousMatches := f.previousMatches
    sourceLine := f.line
    logTime := f.logTime
    counterCount := if compiled.timerFlags.counter then f.counterCount else -1
    repeatedCount := if compiled.timerFlags.repeated then getRepeated state.repeatedTimer index template else -1 }

/-- `start_timer`, with what the mode of the trigger does to the running timers. -/
def CharState.startTimer (state : CharState P) (compiled : CompiledTrigger P) (behavior : TimerBehavior P) (index : Nat)
    (displayName template : Str) (dynamicDuration : Option P.F64) (f : Firing) : CharState P :=
  match behavior.restartMode.admits index displayName state.timers with
  | none => state
  | some timers =>
    { state with timers := timers ++ [compiled.newTimer behavior state index displayName template dynamicDuration f] }

/-! ### The firing of a trigger -/

/-- The lockout of a first firing: the state that starts it, or none while it lasts. -/
def CharState.lockout (state : CharState P) (compiled : CompiledTrigger P) (index : Nat) (now : EngineMillis) :
    Option (CharState P) :=
  if P.positive compiled.trigger.lockoutSeconds then
    if (state.lockoutUntil[index]?).any fun until' => now ≤ until' then none
    else some { state with lockoutUntil :=
      state.lockoutUntil.insert index (addMillis now (P.millis compiled.trigger.lockoutSeconds)) }
  else some state

/-- `{counter}` counts firings. -/
def CharState.countFiring (state : CharState P) (compiled : CompiledTrigger P) (index : Nat) (now : EngineMillis) :
    CharState P × Int :=
  if compiled.speakFlags.counter || compiled.displayFlags.counter || compiled.timerFlags.counter then
    let (buckets, count) :=
      updateRepeated P state.counterTimes index triggerCount now compiled.trigger.repeatedResetSeconds
    ({ state with counterTimes := buckets }, count)
  else (state, -1)

/-- The template of the timer's name with what is known at the firing. -/
def CompiledTrigger.timerName (compiled : CompiledTrigger P) (character : Str) (f : Firing) : Str :=
  let name := replaceFromMatches P compiled.timerNameTemplate (some f.captures)
  let name := replaceFromMatches P name (some f.previousMatches)
  let name := replaceLineCode name f.line
  replaceCode name characterCode character

/-- The timer of a firing. -/
def CharState.fireTimer (state : CharState P) (compiled : CompiledTrigger P) (index : Nat)
    (dynamicDuration : Option P.F64) (f : Firing) (batch : ActionBatch) : CharState P × ActionBatch :=
  let timerName := compiled.timerName state.context.character f
  let state := if compiled.timerFlags.repeated then
      { state with repeatedTimer :=
        (updateRepeated P state.repeatedTimer index timerName f.now compiled.trigger.repeatedResetSeconds).1 }
    else state
  match compiled.trigger.timer with
  | none => (state, batch)
  | some behavior =>
    let dynamic := dynamicDuration.filter fun duration =>
      behavior.kind.acceptsDynamicDuration && P.positive duration
    if P.positive behavior.durationSeconds || dynamic.isSome then
      (state.startTimer compiled behavior index (replaceTokens P timerName state.vars.get) timerName dynamic f,
        { batch with timersChanged := true })
    else (state, batch)

/-- A firing that is not locked out. -/
def CharState.fire (state : CharState P) (compiled : CompiledTrigger P) (index : Nat) (dynamicDuration : Option P.F64)
    (f : Firing) (batch : ActionBatch) : CharState P × ActionBatch :=
  let (state, counterCount) := state.countFiring compiled index f.now
  let f := { f with counterCount := counterCount }
  let act (store : VariableStore P) (action : VariableAction P) :=
    store.applyAction f.line f.captures f.previousMatches f.now action
  let state := { state with vars := compiled.trigger.variableActions.foldl act state.vars }
  let (state, batch) := state.fireTimer compiled index dynamicDuration f batch
  let scope : Scope := ⟨f.line, some f.captures, none, some f.previousMatches, f.logTime, counterCount⟩
  let (state, batch) :=
    state.pushAudio compiled index .initial compiled.trigger.sound compiled.speakTemplate scope f.now batch
  state.pushDisplay compiled index scope f.now batch

def CharState.handleTrigger (state : CharState P) (compiled : CompiledTrigger P) (index : Nat)
    (dynamicDuration : Option P.F64) (f : Firing) (batch : ActionBatch) : CharState P × ActionBatch :=
  if f.loopCount = 0 then
    match state.lockout compiled index f.now with
    | none => (state, batch)
    | some state => state.fire compiled index dynamicDuration f batch
  else state.fire compiled index dynamicDuration f batch

/-! ### Timer stages -/

/-- The sound, the speech and the display of a stage; an early end falls back to the normal end. -/
def CompiledTrigger.stage (compiled : CompiledTrigger P) (behavior : TimerBehavior P) :
    ActionPhase → Option Str × Str × Str
  | .timerWarning => (behavior.warning.sound, compiled.warningSpeak, compiled.warningDisplay)
  | .timerEndEarly =>
    let sound := (behavior.earlyEnd.sound.filter fun sound => !sound.isEmpty).or behavior.finish.sound
    (sound, if compiled.earlySpeak.isEmpty && sound.isNone then compiled.endSpeak else compiled.earlySpeak,
      if compiled.earlyDisplay.isEmpty then compiled.endDisplay else compiled.earlyDisplay)
  | _ => (behavior.finish.sound, compiled.endSpeak, compiled.endDisplay)

def CharState.fireTimerStage (state : CharState P) (lib : CompiledLibrary P) (timer : ActiveTimer P)
    (phase : ActionPhase) (earlyMatches : MatchMap) (line : Str) (now : EngineMillis) (batch : ActionBatch) :
    CharState P × ActionBatch :=
  match lib.triggers[timer.triggerIndex]? with
  | none => (state, batch)
  | some compiled =>
    match compiled.trigger.timer with
    | none => (state, batch)
    | some behavior =>
      let (sound, speakTemplate, displayTemplate) := compiled.stage behavior phase
      let (current, original) := if phase = .timerEndEarly then (earlyMatches, some timer.originalMatches)
        else (timer.originalMatches, none)
      let scope : Scope :=
        ⟨line, some current, original, some timer.previousMatches, timer.logTime, timer.counterCount⟩
      let (state, batch) :=
        state.pushAudio compiled timer.triggerIndex phase sound speakTemplate scope now batch
      match resolveTemplate P displayTemplate line (some current) original (some timer.previousMatches)
          state.vars.asMatchMap with
      | none => (state, batch)
      | some text =>
        (state, batch.push (compiled.displayEvent state phase (replaceCode text characterCode state.context.character)))

/-- The variable named by an entry of `end_clear_variables`. -/
def clearedName (entry : Str) : Str :=
  let name := entry.trim
  let name := (name.dropWhile (· = '$')).dropWhile (· = '{')
  (Str.trimEndMatches (· = '}') name).trim

def CharState.clearEndVariables (state : CharState P) (lib : CompiledLibrary P) (index : Nat) : CharState P :=
  match (lib.triggers[index]?).bind (·.trigger.timer) with
  | none => state
  | some behavior =>
    { state with vars := behavior.endClearVariables.foldl (fun store entry =>
      let name := clearedName entry
      if name.isEmpty then store else store.clear name) state.vars }

/-- The variables whose time is up go. -/
def CharState.expireVariables (state : CharState P) (now : EngineMillis) : CharState P :=
  { state with vars := state.vars.expire now }

/-- The warning of the timer at `position`, if it is due. -/
def CharState.warn (lib : CompiledLibrary P) (now : EngineMillis) (s : CharState P × ActionBatch) (position : Nat) :
    CharState P × ActionBatch :=
  let (state, batch) := s
  match state.timers[position]? with
  | none => (state, batch)
  | some timer =>
    if timer.warningDue now then
      let timer := { timer with warned := true }
      let state := { state with timers := state.timers.set position timer }
      (state.expireVariables now).fireTimerStage lib timer .timerWarning .new timer.sourceLine now batch
    else (state, batch)

/-- What follows the natural end of a timer that was taken off the list. -/
def CharState.finishTimer (lib : CompiledLibrary P) (now : EngineMillis) (s : CharState P × ActionBatch)
    (timer : ActiveTimer P) : CharState P × ActionBatch :=
  let (state, batch) := s
  let (state, batch) := (state.expireVariables now).fireTimerStage lib timer .timerEnd .new timer.sourceLine now
    { batch with timersChanged := true }
  let state := state.clearEndVariables lib timer.triggerIndex
  match lib.triggers[timer.triggerIndex]? with
  | none => (state, batch)
  | some compiled =>
    match compiled.trigger.timer with
    | none => (state, batch)
    | some behavior =>
      if behavior.kind = .looping ∧ behavior.timesToLoop > timer.loopCount then
        state.handleTrigger compiled timer.triggerIndex none
          ⟨timer.sourceLine, timer.logTime, timer.originalMatches, timer.previousMatches, now, timer.loopCount + 1, -1⟩
          batch
      else (state, batch)

/-- The clock of one character. -/
def CharState.advance (lib : CompiledLibrary P) (now : EngineMillis) (state : CharState P) (batch : ActionBatch) :
    CharState P × ActionBatch :=
  let (state, batch) := (List.range state.timers.length).foldl (CharState.warn lib now) (state, batch)
  -- the ended timers leave the list before any of them starts another
  let ended := state.timers.filter (·.isEnded now)
  let state := { state with timers := state.timers.filter fun timer => !timer.isEnded now }
  ended.foldl (CharState.finishTimer lib now) (state, batch)

/-- The captures of what ends a timer early at this line, if anything does. -/
def CharState.endedBy (state : CharState P) (lib : CompiledLibrary P) (line : Str) (timer : ActiveTimer P) :
    Option MatchMap :=
  match timer.earlyEnders.findSome? (CompiledEnder.matches P line) with
  | some captures => some captures
  | none =>
    match lib.triggers[timer.triggerIndex]? with
    | none => none
    | some compiled =>
      match compiled.trigger.timer with
      | none => none
      | some behavior =>
        let stop : Int := behavior.endEarlyRepeatedCount
        if behavior.endEarlyRepeatedCount > 0 ∧ (compiled.timerFlags.counter || compiled.timerFlags.repeated) = true ∧
            (getRepeated state.repeatedTimer timer.triggerIndex timer.displayName ≥ stop ∨
              getRepeated state.counterTimes timer.triggerIndex triggerCount ≥ stop) then some .new
        else none

/-- What follows an early end. -/
def CharState.finishEarly (lib : CompiledLibrary P) (line : Str) (now : EngineMillis) (s : CharState P × ActionBatch)
    (entry : ActiveTimer P × MatchMap) : CharState P × ActionBatch :=
  let (state, batch) := s
  let (timer, earlyMatches) := entry
  let state := { state with
    repeatedTimer := removeRepeated state.repeatedTimer timer.triggerIndex timer.displayName
    counterTimes := removeRepeated state.counterTimes timer.triggerIndex triggerCount }
  let (state, batch) := (state.expireVariables now).fireTimerStage lib timer .timerEndEarly earlyMatches line now
    { batch with timersChanged := true }
  (state.clearEndVariables lib timer.triggerIndex, batch)

def CharState.checkTimerEnders (state : CharState P) (lib : CompiledLibrary P) (line : Str) (now : EngineMillis)
    (batch : ActionBatch) : CharState P × ActionBatch :=
  let ended := state.timers.filterMap fun timer => (state.endedBy lib line timer).map fun captures => (timer, captures)
  let kept := { state with timers := state.timers.filter fun timer => (state.endedBy lib line timer).isNone }
  ended.foldl (CharState.finishEarly lib line now) (kept, batch)

/-! ### Lines -/

/-- The state while a line goes through the active triggers; variables expire at the first match. -/
structure Pass (P : Platform) where
  state : CharState P
  batch : ActionBatch
  expired : Bool

/-- The captures of the previous line, if the trigger asks for one; none if that does not match. -/
def CharState.checkPrevious (state : CharState P) (compiled : CompiledTrigger P) (index : Nat) :
    CharState P × Option MatchMap :=
  match compiled.previous with
  | none => (state, some .new)
  | some _ =>
    match state.previousLine with
    | none => (state, none)
    | some previousLine =>
      let (state, previous) := state.checkLine compiled index previousLine true
      (state, previous.map (·.captures))

/-- The value a condition reads: variable, capture, capture of the previous line. -/
def conditionValue (vars : VariableStore P) (captures previous : MatchMap) (name : Str) : Option Str :=
  let set (value : Option Str) := value.filter fun value => !value.isEmpty
  ((set (vars.get name)).or (set (captures.get name))).or (set (previous.get name))

/-- The condition of a matched trigger; one that does not parse never holds. -/
def CompiledTrigger.conditionHolds (compiled : CompiledTrigger P) (vars : VariableStore P)
    (captures previous : MatchMap) : Bool :=
  match compiled.condition with
  | some condition => condition.evaluate P (conditionValue vars captures previous)
  | none => !compiled.conditionInvalid

/-- One trigger of the pass over a line. -/
def Pass.trigger (lib : CompiledLibrary P) (line : Str) (logTime : Option Str) (now : EngineMillis) (pass : Pass P)
    (index : Nat) : Pass P :=
  match lib.triggers[index]? with
  | none => pass
  | some compiled =>
    if pass.state.disabled.getD index false then pass
    else
      match pass.state.checkLine compiled index line false with
      | (state, none) => { pass with state := state }
      | (state, some lineMatch) =>
        match state.checkPrevious compiled index with
        | (state, none) => { pass with state := state }
        | (state, some previousMatches) =>
          let state := if pass.expired then state else state.expireVariables now
          if compiled.conditionHolds state.vars lineMatch.captures previousMatches then
            let (state, batch) := state.handleTrigger compiled index lineMatch.dynamicDuration
              ⟨line, logTime, lineMatch.captures, previousMatches, now, 0, -1⟩ pass.batch
            ⟨state, batch, true⟩
          else ⟨state, pass.batch, true⟩

/-- `process_line` for one character. -/
def CharState.processLine (state : CharState P) (lib : CompiledLibrary P) (line : Str) (logTime : Option Str)
    (now : EngineMillis) : CharState P × ActionBatch :=
  let pass := state.active.foldl (Pass.trigger lib line logTime now) ⟨state, .empty, false⟩
  let (state, batch) := pass.state.checkTimerEnders lib line now pass.batch
  ({ state with previousLine := some line }, batch)

/-! ### The engine -/

namespace TriggerEngine

/-- The engine without a character. -/
def new (compiled : CompiledLibrary P) : TriggerEngine P := ⟨compiled, ∅⟩

def removeCharacter (engine : TriggerEngine P) (key : Str) : TriggerEngine P :=
  { engine with characters := engine.characters.erase key }

/-- The state of a character seen for the first time. -/
def freshState (compiled : CompiledLibrary P) (context : CharacterContext) : CharState P where
  context := context
  active := compiled.activeFor context.character context.server
  disabled := List.replicate compiled.triggers.length false
  characterRegexes := ∅
  vars := .empty
  counterTimes := ∅
  repeatedText := ∅
  repeatedTimer := ∅
  repeatedSpeak := ∅
  lockoutUntil := ∅
  previousLine := none
  timers := []

def stateFor (engine : TriggerEngine P) (context : CharacterContext) : CharState P :=
  (engine.characters[context.key]?).getD (freshState engine.compiled context)

def processLine (engine : TriggerEngine P) (context : CharacterContext) (line : Str) (logTime : Option Str)
    (now : EngineMillis) : TriggerEngine P × ActionBatch :=
  if line.isEmpty then (engine, .empty)
  else
    let (state, batch) := (engine.stateFor context).processLine engine.compiled line logTime now
    ({ engine with characters := engine.characters.insert context.key state }, batch)

def advance (engine : TriggerEngine P) (now : EngineMillis) : TriggerEngine P × ActionBatch :=
  let (characters, batch) := engine.characters.toList.foldl (fun (characters, batch) entry =>
    let (state, batch) := entry.2.advance engine.compiled now batch
    (characters.insert entry.1 state, batch)) (engine.characters, .empty)
  ({ engine with characters := characters }, batch)

def clearVariables (engine : TriggerEngine P) (key : Str) : TriggerEngine P :=
  { engine with characters := engine.characters.modify key fun state => { state with vars := .empty } }

end TriggerEngine

end Stonemite.Triggers
