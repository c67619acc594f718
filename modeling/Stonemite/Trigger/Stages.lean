import Stonemite.Lib.Roster
import Stonemite.Trigger.Timers

/-!
# What the stages emit

Each firing and each stage of a timer adds its own actions to the batch, and a firing starts at most one timer. What a
character's engine state does to its timers is a run of steps of a roster, with the actions of each step.
-/

namespace Stonemite.Triggers

variable {P : Platform}

/-! ### The actions of one stage -/

/-- Actions of the phase were added. -/
def ActionBatch.Extends (phase : ActionPhase) (before after : ActionBatch) : Prop :=
  ∃ events, after.events = before.events ++ events ∧ ∀ event ∈ events, event.phase = phase

namespace ActionBatch.Extends
variable {phase : ActionPhase} {before between after : ActionBatch}

theorem of_eq (h : after.events = before.events) : before.Extends phase after :=
  ⟨[], h.trans (List.append_nil _).symm, nofun⟩

theorem refl : before.Extends phase before := of_eq rfl

theorem trans (h : before.Extends phase between) (h' : between.Extends phase after) : before.Extends phase after := by
  obtain ⟨events, hevents, hphase⟩ := h
  obtain ⟨events', hevents', hphase'⟩ := h'
  refine ⟨events ++ events', by rw [hevents', hevents, List.append_assoc], fun event hevent => ?_⟩
  rcases List.mem_append.mp hevent with hevent | hevent
  · exact hphase event hevent
  · exact hphase' event hevent

theorem push {event : ActionEvent} (h : event.phase = phase) : before.Extends phase (before.push event) :=
  ⟨[event], rfl, fun _ hmem => List.mem_singleton.mp hmem ▸ h⟩

end ActionBatch.Extends

namespace CharState
variable (compiled : CompiledTrigger P) (index : Nat) (phase : ActionPhase) (scope : Scope) (now : EngineMillis)
  (batch : ActionBatch) (state : CharState P)

theorem pushSpeech_extends (speakTemplate : Str) :
    batch.Extends phase (state.pushSpeech compiled index phase speakTemplate scope now batch).2 := by
  unfold pushSpeech
  split
  · exact .refl
  · split
    · exact .refl
    · rename_i tts _
      dsimp only
      generalize (if phase = .initial then state.initialSpeech compiled index scope now
        (replaceCode tts characterCode state.context.character)
        else (state, replaceCode tts characterCode state.context.character)) = result
      split
      · exact .refl
      · exact .push rfl

theorem pushAudio_extends (sound : Option Str) (speakTemplate : Str) :
    batch.Extends phase (state.pushAudio compiled index phase sound speakTemplate scope now batch).2 := by
  unfold pushAudio
  split
  · dsimp only
    split
    · exact .refl
    · exact .push rfl
  · exact pushSpeech_extends compiled index phase scope now batch state speakTemplate

theorem pushDisplay_extends : batch.Extends .initial (state.pushDisplay compiled index scope now batch).2 := by
  unfold pushDisplay
  split
  · exact .refl
  · exact .push rfl

theorem fireTimerStage_extends (lib : CompiledLibrary P) (timer : ActiveTimer P) (earlyMatches : MatchMap) (line : Str) :
    batch.Extends phase (state.fireTimerStage lib timer phase earlyMatches line now batch).2 := by
  unfold fireTimerStage
  split
  · exact .refl
  · split
    · exact .refl
    · dsimp only
      split
      · exact pushAudio_extends _ _ _ _ _ _ _ _ _
      · exact (pushAudio_extends _ _ _ _ _ _ _ _ _).trans (.push rfl)

end CharState

/-- The actions are those of a stage of the timer. -/
def StageEmits (lib : CompiledLibrary P) (timer : ActiveTimer P) (phase : ActionPhase) (events : List ActionEvent) : Prop :=
  ∃ (state : CharState P) (earlyMatches : MatchMap) (line : Str) (now : EngineMillis) (batch : ActionBatch),
    (state.fireTimerStage lib timer phase earlyMatches line now batch).2.events = batch.events ++ events

/-! ### The timer of a firing -/

/-- A timer of the trigger as a firing with this loop count starts it: its name is the template with the variables filled in. -/
structure ActiveTimer.Started (index loopCount : Nat) (timer : ActiveTimer P) : Prop where
  triggerIndex : timer.triggerIndex = index
  loopCount : timer.loopCount = loopCount
  warned : timer.warned = false
  named : ∃ vars : VariableStore P, timer.displayName = replaceTokens P timer.displayNameTemplate vars.get

/-- Nothing, or some timers are taken off and one is started. -/
def Launches (index loopCount : Nat) (before after : List (ActiveTimer P)) : Prop :=
  after = before ∨ ∃ keep timer, after = before.filter keep ++ [timer] ∧ timer.Started index loopCount

theorem TimerRestartMode.admits_filter {mode : TimerRestartMode} {index : Nat} {name : Str} {before timers : List (ActiveTimer P)}
    (h : mode.admits index name before = some timers) : ∃ keep, timers = before.filter keep := by
  have hall : before = before.filter fun _ => true := (List.filter_true before).symm
  cases mode with
  | startNew =>
    cases h
    exact ⟨_, hall⟩
  | restartAll | restartSameName =>
    cases h
    exact ⟨_, rfl⟩
  | ignoreIfAnyRunning | ignoreIfSameNameRunning =>
    dsimp only [admits] at h
    split at h
    · cases h
    · cases h
      exact ⟨_, hall⟩

namespace CharState
variable (compiled : CompiledTrigger P) (index : Nat) (state : CharState P) (dynamicDuration : Option P.F64) (f : Firing)
  (batch : ActionBatch)

theorem startTimer_launches {behavior : TimerBehavior P} {displayName template : Str}
    (hname : ∃ vars : VariableStore P, displayName = replaceTokens P template vars.get) :
    Launches index f.loopCount state.timers
      (state.startTimer compiled behavior index displayName template dynamicDuration f).timers := by
  unfold startTimer
  cases hadmits : behavior.restartMode.admits index displayName state.timers with
  | none => exact .inl rfl
  | some timers =>
    obtain ⟨keep, rfl⟩ := TimerRestartMode.admits_filter hadmits
    exact .inr ⟨keep, _, rfl, rfl, rfl, rfl, hname⟩

theorem fireTimer_launches :
    Launches index f.loopCount state.timers (state.fireTimer compiled index dynamicDuration f batch).1.timers ∧
      (state.fireTimer compiled index dynamicDuration f batch).2.events = batch.events := by
  have hrepeated (timerName : Str) : (if compiled.timerFlags.repeated then
      { state with repeatedTimer :=
        (updateRepeated P state.repeatedTimer index timerName f.now compiled.trigger.repeatedResetSeconds).1 }
      else state).timers = state.timers := by
    split <;> rfl
  unfold fireTimer
  dsimp only
  cases compiled.trigger.timer with
  | none => exact ⟨.inl (hrepeated _), rfl⟩
  | some behavior =>
    dsimp only
    have hstart (s : CharState P) (hs : s.timers = state.timers) (template : Str) (vars : VariableStore P)
        (dynamic : Option P.F64) : Launches index f.loopCount state.timers
          (s.startTimer compiled behavior index (replaceTokens P template vars.get) template dynamic f).timers := by
      rw [← hs]
      exact startTimer_launches compiled index s dynamic f ⟨vars, rfl⟩
    split
    · exact ⟨hstart _ (hrepeated _) _ _ _, rfl⟩
    · exact ⟨.inl (hrepeated _), rfl⟩

theorem fire_launches : Launches index f.loopCount state.timers (state.fire compiled index dynamicDuration f batch).1.timers := by
  unfold fire
  dsimp only
  rw [pushDisplay_timers, pushAudio_timers]
  rw [← countFiring_timers compiled index f.now state]
  exact (fireTimer_launches compiled index _ dynamicDuration _ batch).1

theorem fire_extends : batch.Extends .initial (state.fire compiled index dynamicDuration f batch).2 := by
  unfold fire
  dsimp only
  exact ((ActionBatch.Extends.of_eq (fireTimer_launches _ _ _ _ _ _).2).trans (pushAudio_extends _ _ _ _ _ _ _ _ _)).trans
    (pushDisplay_extends _ _ _ _ _ _)

end CharState

end Stonemite.Triggers
