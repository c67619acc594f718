import Stonemite.Trigger.Lifecycle
import Stonemite.Trigger.Literal

/-!
# The repeated-count ender

A firing counts under the timer's name with its variables still in it, which is also the count that is shown; the ender
looks up and forgets the count of the name with the variables filled in. So a count that has reached its limit ends the
timer and starts over exactly when the two names are one key. `CharState.LimitReached` is the promise, and
`repeated_count_ends_iff` the equivalence after every run and for every next line.
-/

open Std

namespace Stonemite.Triggers

variable {P : Platform}

/-! ### Counts -/

theorem getRepeated_removeRepeated (buckets : Buckets) (i j : Nat) (a b : Str) :
    getRepeated (removeRepeated buckets i a) j b =
      if i = j ∧ repeatKey a = repeatKey b then -1 else getRepeated buckets j b := by
  rw [getRepeated, getRepeated, removeRepeated, ExtTreeMap.getElem?_modify_ite]
  by_cases hij : i = j
  · subst hij
    rw [if_pos rfl]
    cases hbucket : buckets[i]? with
    | none => exact (ite_self (-1)).symm
    | some bucket =>
      rw [Option.map_some, Option.bind_some, Option.bind_some, ExtTreeMap.getElem?_erase_ite]
      by_cases hkey : repeatKey a = repeatKey b
      · rw [if_pos hkey, if_pos ⟨rfl, hkey⟩]
      · rw [if_neg hkey, if_neg fun h => hkey h.2]
  · rw [if_neg hij, if_neg fun h => hij h.1]

theorem getRepeated_removeRepeated_of_forgotten {buckets : Buckets} {j : Nat} {b : Str} (h : getRepeated buckets j b = -1)
    (i : Nat) (a : Str) : getRepeated (removeRepeated buckets i a) j b = -1 := by
  rw [getRepeated_removeRepeated, h, ite_self]

namespace CharState
variable (lib : CompiledLibrary P) (line : Str) (now : EngineMillis)

theorem pushAudio_state (compiled : CompiledTrigger P) (index : Nat) {phase : ActionPhase} (hphase : phase ≠ .initial)
    (sound : Option Str) (speakTemplate : Str) (scope : Scope) (batch : ActionBatch) (state : CharState P) :
    (state.pushAudio compiled index phase sound speakTemplate scope now batch).1 = state := by
  unfold pushAudio
  split
  · rfl
  · unfold pushSpeech
    split
    · rfl
    · split
      · rfl
      · dsimp only
        split <;> rfl

theorem fireTimerStage_state {phase : ActionPhase} (hphase : phase ≠ .initial) (timer : ActiveTimer P) (earlyMatches : MatchMap)
    (batch : ActionBatch) (state : CharState P) :
    (state.fireTimerStage lib timer phase earlyMatches line now batch).1 = state := by
  unfold fireTimerStage
  split
  · rfl
  · split
    · rfl
    · dsimp only
      split <;> exact pushAudio_state now _ _ hphase _ _ _ _ _

theorem clearEndVariables_repeatedTimer (index : Nat) (state : CharState P) :
    (state.clearEndVariables lib index).repeatedTimer = state.repeatedTimer := by
  unfold clearEndVariables
  split <;> rfl

theorem finishEarly_repeatedTimer (s : CharState P × ActionBatch) (entry : ActiveTimer P × MatchMap) :
    (finishEarly lib line now s entry).1.repeatedTimer =
      removeRepeated s.1.repeatedTimer entry.1.triggerIndex entry.1.displayName := by
  have hstage : ActionPhase.timerEndEarly ≠ .initial := nofun
  unfold finishEarly
  dsimp only
  rw [clearEndVariables_repeatedTimer, fireTimerStage_state lib line now hstage]
  rfl

theorem finishesEarly_repeatedTimer (entries : List (ActiveTimer P × MatchMap)) (s : CharState P × ActionBatch) :
    (entries.foldl (finishEarly lib line now) s).1.repeatedTimer = entries.foldl
      (fun buckets entry => removeRepeated buckets entry.1.triggerIndex entry.1.displayName) s.1.repeatedTimer := by
  induction entries generalizing s with
  | nil => rfl
  | cons entry entries ih => rw [List.foldl_cons, List.foldl_cons, ih, finishEarly_repeatedTimer]

theorem finishesEarly_timers (entries : List (ActiveTimer P × MatchMap)) (s : CharState P × ActionBatch) :
    (entries.foldl (finishEarly lib line now) s).1.timers = s.1.timers := by
  induction entries generalizing s with
  | nil => rfl
  | cons entry entries ih => rw [List.foldl_cons, ih, finishEarly_timers]

theorem finishesEarly_forget {entries : List (ActiveTimer P × MatchMap)} {entry : ActiveTimer P × MatchMap}
    (hentry : entry ∈ entries) (s : CharState P × ActionBatch) :
    getRepeated (entries.foldl (finishEarly lib line now) s).1.repeatedTimer entry.1.triggerIndex entry.1.displayName = -1 := by
  rw [finishesEarly_repeatedTimer]
  obtain ⟨before, after, rfl⟩ := List.append_of_mem hentry
  rw [List.foldl_append, List.foldl_cons]
  refine foldl_invariant (I := fun buckets => getRepeated buckets entry.1.triggerIndex entry.1.displayName = -1)
    (fun buckets other h => getRepeated_removeRepeated_of_forgotten h _ _) after ?_
  rw [getRepeated_removeRepeated, if_pos ⟨rfl, rfl⟩]

end CharState

/-! ### The limit at a line -/

/-- The state after the triggers of the line, before the enders are looked at. -/
def CharState.evaluated (state : CharState P) (lib : CompiledLibrary P) (line : Str) (logTime : Option Str) (now : EngineMillis) :
    Pass P :=
  state.active.foldl (Pass.trigger lib line logTime now) ⟨state, .empty, false⟩

/-- The timer is ended early at the line, and its end forgets the count that is shown for it. -/
structure CharState.EndsAndResets (state : CharState P) (lib : CompiledLibrary P) (line : Str) (logTime : Option Str)
    (now : EngineMillis) (timer : ActiveTimer P) : Prop where
  ended : ∃ captures, (state.evaluated lib line logTime now).state.endedBy lib line timer = some captures
  gone : timer ∉ (state.processLine lib line logTime now).1.timers
  resets : ∀ batch captures, getRepeated (finishEarly lib line now ((state.evaluated lib line logTime now).state, batch)
    (timer, captures)).1.repeatedTimer timer.triggerIndex timer.displayNameTemplate = -1
  forgotten : getRepeated (state.processLine lib line logTime now).1.repeatedTimer timer.triggerIndex
    timer.displayNameTemplate = -1

/-- The count of the timer, as it is shown, has reached the limit of its trigger. -/
structure CharState.LimitReached (state : CharState P) (lib : CompiledLibrary P) (timer : ActiveTimer P) : Prop where
  running : timer ∈ state.timers
  reached : ∃ compiled behavior, lib.triggers[timer.triggerIndex]? = some compiled ∧ compiled.trigger.timer = some behavior ∧
    compiled.timerFlags.repeated = true ∧ 0 < behavior.endEarlyRepeatedCount ∧
    behavior.endEarlyRepeatedCount ≤ getRepeated state.repeatedTimer timer.triggerIndex timer.displayNameTemplate

theorem CharState.exists_limitReached (state : CharState P) (lib : CompiledLibrary P) (Q : ActiveTimer P → Bool)
    (h : (state.timers.any fun timer => Q timer && (lib.triggers[timer.triggerIndex]?).any fun compiled =>
      compiled.trigger.timer.any fun behavior => compiled.timerFlags.repeated && decide (0 < behavior.endEarlyRepeatedCount ∧
        behavior.endEarlyRepeatedCount ≤ getRepeated state.repeatedTimer timer.triggerIndex timer.displayNameTemplate)) = true) :
    ∃ timer, state.LimitReached lib timer ∧ Q timer = true := by
  obtain ⟨timer, htimer, hfound⟩ := List.any_eq_true.mp h
  obtain ⟨hQ, hfound⟩ := Bool.and_eq_true_iff.mp hfound
  obtain ⟨compiled, hlib, hfound⟩ := (Option.any_eq_true _ _).mp hfound
  obtain ⟨behavior, hbehavior, hfound⟩ := (Option.any_eq_true _ _).mp hfound
  obtain ⟨hrepeated, hcount⟩ := Bool.and_eq_true_iff.mp hfound
  obtain ⟨hpos, hcount⟩ := of_decide_eq_true hcount
  exact ⟨timer, ⟨htimer, compiled, behavior, hlib, hbehavior, hrepeated, hpos, hcount⟩, hQ⟩

namespace CharState.LimitReached
variable {state : CharState P} {lib : CompiledLibrary P} {line : Str} {logTime : Option Str} {now : EngineMillis}
  {timer : ActiveTimer P}

theorem count_ne (h : state.LimitReached lib timer) :
    getRepeated state.repeatedTimer timer.triggerIndex timer.displayNameTemplate ≠ -1 := by
  obtain ⟨compiled, behavior, -, -, -, hpos, hcount⟩ := h.reached
  omega

/-- Where the names are one key, the count that the ender looks up is the one that is shown. -/
theorem endedBy (line : Str) (h : state.LimitReached lib timer)
    (hkey : repeatKey timer.displayName = repeatKey timer.displayNameTemplate) :
    ∃ captures, state.endedBy lib line timer = some captures := by
  obtain ⟨compiled, behavior, hlib, hbehavior, hrepeated, hpos, hcount⟩ := h.reached
  have hsame : getRepeated state.repeatedTimer timer.triggerIndex timer.displayName =
      getRepeated state.repeatedTimer timer.triggerIndex timer.displayNameTemplate := by
    rw [getRepeated, getRepeated, hkey]
  unfold CharState.endedBy
  cases timer.earlyEnders.findSome? (CompiledEnder.matches P line) with
  | some captures => exact ⟨captures, rfl⟩
  | none =>
    refine ⟨.new, ?_⟩
    rw [hlib]
    dsimp only
    rw [hbehavior]
    dsimp only
    rw [if_pos]
    refine ⟨hpos, ?_, .inl ?_⟩
    · rw [hrepeated, Bool.or_true]
    · rw [hsame]
      exact hcount

/-- Ended at the line and its count forgotten, exactly when the names are one key. -/
theorem endsAndResets_iff (h : (state.evaluated lib line logTime now).state.LimitReached lib timer) :
    state.EndsAndResets lib line logTime now timer ↔ repeatKey timer.displayName = repeatKey timer.displayNameTemplate := by
  constructor
  · intro hends
    have hresets := hends.resets .empty .new
    rw [finishEarly_repeatedTimer, getRepeated_removeRepeated] at hresets
    by_contra hkey
    rw [if_neg fun hboth => hkey hboth.2] at hresets
    exact h.count_ne hresets
  · intro hkey
    obtain ⟨captures, hended⟩ := h.endedBy line hkey
    have hentry : (timer, captures) ∈ (state.evaluated lib line logTime now).state.timers.filterMap fun timer =>
        ((state.evaluated lib line logTime now).state.endedBy lib line timer).map fun captures => (timer, captures) :=
      List.mem_filterMap.mpr ⟨timer, h.running, by rw [hended]; rfl⟩
    refine ⟨⟨captures, hended⟩, ?_, fun batch captures => ?_, ?_⟩
    · show timer ∉ (checkTimerEnders _ lib line now _).1.timers
      unfold checkTimerEnders
      dsimp only
      rw [finishesEarly_timers]
      intro hmem
      have hnone := List.of_mem_filter hmem
      change ((state.evaluated lib line logTime now).state.endedBy lib line timer).isNone = true at hnone
      rw [hended] at hnone
      cases hnone
    · rw [finishEarly_repeatedTimer, getRepeated_removeRepeated, if_pos ⟨rfl, hkey⟩]
    · have hforgotten := finishesEarly_forget lib line now hentry
        ({ (state.evaluated lib line logTime now).state with
          timers := (state.evaluated lib line logTime now).state.timers.filter fun timer =>
            ((state.evaluated lib line logTime now).state.endedBy lib line timer).isNone },
          (state.evaluated lib line logTime now).batch)
      rw [getRepeated, ← hkey, ← getRepeated]
      exact hforgotten

end CharState.LimitReached

/-! ### Over every run -/

/-- The name of a running timer is its template with some values of the variables filled in. -/
theorem EngineRun.timers_named (library : TriggerLibrary P) (calls : List EngineCall) (context : CharacterContext) (line : Str)
    (logTime : Option Str) (now : EngineMillis) :
    let engine := (calls.foldl EngineRun.call (TriggerEngine.new (.compile library), [])).1
    ∀ timer ∈ ((engine.stateFor context).evaluated (.compile library) line logTime now).state.timers,
      ∃ vars : VariableStore P, timer.displayName = replaceTokens P timer.displayNameTemplate vars.get := by
  intro engine
  obtain ⟨L, hrecords, hreads, hcompiled, -⟩ := run_records library calls
  have hstate : (L.rosters context.key).live.map (·.value) = (engine.stateFor context).timers := by
    rw [(hreads context.key).1, TriggerEngine.stateFor]
    cases engine.characters[context.key]? <;> rfl
  obtain ⟨log, r', hfollows, -, -⟩ := @Pass.triggers_follow P (.compile library) line logTime now
    (engine.stateFor context).active ⟨engine.stateFor context, .empty, false⟩ (L.rosters context.key) hstate
  have hnamed := ((hrecords.tells context.key).trans hfollows.tells).steps.values
    (I := fun timer => ∃ vars : VariableStore P, timer.displayName = replaceTokens P timer.displayNameTemplate vars.get)
    (fun timer (h : timer.Started timer.triggerIndex timer.loopCount) => h.named) (fun _ h => h)
    fun _ hempty => absurd hempty List.not_mem_nil
  intro timer htimer
  have hlive : r'.live.map (·.value) =
    ((engine.stateFor context).evaluated (.compile library) line logTime now).state.timers := hfollows.live
  rw [← hlive] at htimer
  obtain ⟨i, hi, rfl⟩ := List.mem_map.mp htimer
  exact hnamed i (List.mem_append_left _ hi)

/-- After every run, a timer whose count has reached the limit at a line is ended early by that line and its count starts
over, exactly when filling in the variables left the key of its name as it was. -/
theorem EngineRun.repeated_count_ends_iff (library : TriggerLibrary P) (calls : List EngineCall) (context : CharacterContext)
    (line : Str) (logTime : Option Str) (now : EngineMillis) (hline : line ≠ []) (timer : ActiveTimer P) :
    let engine := (calls.foldl EngineRun.call (TriggerEngine.new (.compile library), [])).1
    let state := engine.stateFor context
    (engine.processLine context line logTime now).1.stateFor context = (state.processLine (.compile library) line logTime now).1 ∧
      ((state.evaluated (.compile library) line logTime now).state.LimitReached (.compile library) timer →
        (∃ vars : VariableStore P, timer.displayName = replaceTokens P timer.displayNameTemplate vars.get) ∧
        (state.EndsAndResets (.compile library) line logTime now timer ↔
          repeatKey timer.displayName = repeatKey timer.displayNameTemplate)) := by
  intro engine state
  obtain ⟨L, -, -, hcompiled, -⟩ := run_records library calls
  refine ⟨?_, fun h => ⟨timers_named library calls context line logTime now timer h.running, h.endsAndResets_iff⟩⟩
  have hcall : (engine.processLine context line logTime now).1 = { engine with
      characters := engine.characters.insert context.key (state.processLine (.compile library) line logTime now).1 } := by
    rw [TriggerEngine.processLine, if_neg (by rwa [List.isEmpty_iff])]
    dsimp only
    rw [show engine.compiled = .compile library from hcompiled]
  rw [hcall, TriggerEngine.stateFor, ExtTreeMap.getElem?_insert_self]
  rfl

/-! ### Names with and without a variable -/

namespace Literal

/-- The tokens of a text, without dollar signs and modifiers. -/
def tokens : Str → Str → List Captures
  | _, [] => []
  | pre, c :: rest =>
    let name := rest.takeWhile fun c => Str.isAsciiAlphanumeric c || c == '_'
    let closed := (rest.drop name.length).head? = some '\x7d'
    (if c = '\x7b' ∧ name ≠ [] ∧ closed then
      [[some ⟨pre.len, pre.len + Str.len name + 2, '\x7b' :: name ++ ['\x7d']⟩, some ⟨pre.len + 1, pre.len + Str.len name + 1, name⟩,
        none, none]] else []) ++ tokens (pre ++ [c]) rest

/-- The platform of literals, with tokens in its templates. -/
def templated : Platform := { platform with
  capturesIter := fun pattern text => if pattern = tokenRegex then tokens [] text else [] }

/-- A trigger that names its timer, counts it and ends it at the second repeat within a minute. -/
def repeated (timerName : Str) : Trigger templated where
  id := 1
  name := "adds".toList
  folder := none
  enabled := true
  pattern := ⟨"An add spawns".toList, false⟩
  previousPattern := none
  condition := []
  lockoutSeconds := (0 : Int)
  repeatedResetSeconds := (60 : Int)
  variableActions := [⟨.setValue, "mob".toList, "orc".toList, (0 : Int), (0 : Int), (0 : Int)⟩]
  displayText := none
  speakText := none
  sound := none
  timer := some {
    kind := .countdown
    timerName := timerName
    durationSeconds := (30 : Int)
    resetDurationSeconds := (0 : Int)
    timesToLoop := 0
    restartMode := .restartAll
    warningSeconds := 0
    warning := {}
    finish := {}
    earlyEnd := {}
    endEarlyPatterns := []
    endEarlyRepeatedCount := 2
    endClearVariables := [] }
  priority := 3
  voiceRate := 0
  volume := 4
  textOverlays := []
  timerOverlays := []
  fontColor := none
  activeColor := none
  idleColor := none
  resetColor := none
  target := .source
  quarantined := false

def repeatedLibrary (timerName : Str) : TriggerLibrary templated := ⟨[], [repeated timerName], []⟩

/-- The character's state after the first add. -/
def addSpawned (timerName : Str) : CharState templated :=
  ([.processLine bilka "An add spawns".toList none 1000].foldl EngineRun.call
    (TriggerEngine.new (.compile (repeatedLibrary timerName)), [])).1.stateFor bilka

/-- A name with nothing of the line in it. -/
def fixedName : Str := "orc \x7brepeated\x7d".toList

def mobName : Str := "\x7bmob\x7d \x7brepeated\x7d".toList

end Literal

namespace EngineRun
open Literal

/-- A name without a variable: the second repeat ends its timer. -/
theorem repeated_count_ends_orc :
    ∃ timer, (addSpawned fixedName).EndsAndResets (.compile (repeatedLibrary fixedName)) "An add spawns".toList none 2000
      timer := by
  obtain ⟨timer, hlimit, hkey⟩ := CharState.exists_limitReached ((addSpawned fixedName).evaluated
      (.compile (repeatedLibrary fixedName)) "An add spawns".toList none 2000).state
    (.compile (repeatedLibrary fixedName))
    (fun timer => decide (repeatKey timer.displayName = repeatKey timer.displayNameTemplate)) (by decide +kernel)
  have hiff := repeated_count_ends_iff (repeatedLibrary fixedName)
    [.processLine bilka "An add spawns".toList none 1000] bilka "An add spawns".toList none 2000 (by decide +kernel) timer
  exact ⟨timer, (hiff.2 hlimit).2.mpr (of_decide_eq_true hkey)⟩

/-- A name with a variable: the second repeat is counted and shown, and the timer runs on. -/
theorem repeated_count_runs_on :
    ¬ ∀ timer, ((addSpawned mobName).evaluated
        (.compile (repeatedLibrary mobName)) "An add spawns".toList none 2000).state.LimitReached
          (.compile (repeatedLibrary mobName)) timer →
      (addSpawned mobName).EndsAndResets
        (.compile (repeatedLibrary mobName)) "An add spawns".toList none 2000 timer := by
  intro hends
  obtain ⟨timer, hlimit, hrunning⟩ := CharState.exists_limitReached ((addSpawned mobName).evaluated
      (.compile (repeatedLibrary mobName)) "An add spawns".toList none 2000).state
    (.compile (repeatedLibrary mobName))
    (fun timer => (((addSpawned mobName).evaluated
      (.compile (repeatedLibrary mobName)) "An add spawns".toList none 2000).state.endedBy
      (.compile (repeatedLibrary mobName)) "An add spawns".toList timer).isNone)
    (by decide +kernel)
  obtain ⟨captures, hended⟩ := (hends timer hlimit).ended
  rw [hended] at hrunning
  cases hrunning

end EngineRun

end Stonemite.Triggers
