import Stonemite.Trigger.Engine

/-!
# What the firing of triggers does not touch

A trigger that has matched fires the same way whatever regexes are cached and whatever triggers are disabled or active,
and it leaves them as they are (`CharState.reframe`). Of the context it reads the key and the character. `Framed` is the
relation, with one lemma for each step of a firing.
-/

namespace Stonemite.Triggers

variable {P : Platform}

/-- What the matching of lines keeps for itself. -/
structure MatchFrame (P : Platform) where
  context : CharacterContext
  active : List Nat
  disabled : List Bool
  characterRegexes : AList fun _ : Nat × Bool => Option (CompatRegex P)
  previousLine : Option Str

namespace CharState

/-- What the matching of a line reads and changes of a state. -/
def frame (state : CharState P) : MatchFrame P :=
  ⟨state.context, state.active, state.disabled, state.characterRegexes, state.previousLine⟩

/-- The state with this in place. -/
def reframe (state : CharState P) (F : MatchFrame P) : CharState P :=
  { state with
    context := F.context
    active := F.active
    disabled := F.disabled
    characterRegexes := F.characterRegexes
    previousLine := F.previousLine }

/-- The frame is of the same character under the same key. -/
def Fits (state : CharState P) (F : MatchFrame P) : Prop :=
  F.context.key = state.context.key ∧ F.context.character = state.context.character

@[simp] theorem reframe_frame (state : CharState P) : state.reframe state.frame = state := rfl

@[simp] theorem frame_reframe (state : CharState P) (F : MatchFrame P) : (state.reframe F).frame = F := rfl

@[simp] theorem reframe_reframe (state : CharState P) (F G : MatchFrame P) : (state.reframe F).reframe G = state.reframe G := rfl

@[simp] theorem fits_frame (state : CharState P) : state.Fits state.frame := ⟨rfl, rfl⟩

/-- A function of the state that ignores the frame. -/
def Framed {α : Type} (f : CharState P → CharState P × α) : Prop :=
  ∀ state F, state.Fits F → f (state.reframe F) = ((f state).1.reframe F, (f state).2)

namespace Framed
variable {α β : Type} {f : CharState P → CharState P × α}

theorem frame_eq (h : Framed f) (state : CharState P) : (f state).1.frame = state.frame := by
  have hself := h state state.frame (fits_frame state)
  rw [reframe_frame] at hself
  rw [hself]
  rfl

theorem fits (h : Framed f) {state : CharState P} {F : MatchFrame P} (hF : state.Fits F) : (f state).1.Fits F := by
  have hcontext : (f state).1.context = state.context := congrArg MatchFrame.context (h.frame_eq state)
  rwa [Fits, hcontext]

theorem bind {g : α → CharState P → CharState P × β} (hf : Framed f) (hg : ∀ a, Framed (g a)) :
    Framed fun state => g (f state).2 (f state).1 := by
  intro state F hF
  dsimp only
  rw [hf state F hF]
  exact hg _ _ F (hf.fits hF)

theorem pure (a : α) : Framed fun state : CharState P => (state, a) := fun _ _ _ => rfl

end Framed

@[simp] theorem reframe_vars (state : CharState P) (F : MatchFrame P) : (state.reframe F).vars = state.vars := rfl

@[simp] theorem reframe_timers (state : CharState P) (F : MatchFrame P) : (state.reframe F).timers = state.timers := rfl

section
variable {state : CharState P} {F : MatchFrame P}

theorem Fits.character (hF : state.Fits F) : (state.reframe F).context.character = state.context.character := hF.2

theorem event_congr {state state' : CharState P} (h : state'.context.key = state.context.key) (compiled : CompiledTrigger P)
    (phase : ActionPhase) (action : TriggerAction) : compiled.event state' phase action = compiled.event state phase action := by
  rw [CompiledTrigger.event, CompiledTrigger.event, h]

end

/-! ### Actions -/

section
variable (compiled : CompiledTrigger P) (index : Nat) (phase : ActionPhase) (scope : Scope) (now : EngineMillis)

theorem push_framed (batch : ActionBatch) (action : TriggerAction) :
    Framed fun state => (state, batch.push (compiled.event state phase action)) := by
  intro state F hF
  dsimp only
  rw [event_congr hF.1]

theorem initialSpeech_framed (text : Str) : Framed fun state => state.initialSpeech compiled index scope now text := by
  intro state F _
  unfold initialSpeech
  split <;> rfl

theorem pushSpeech_framed (speakTemplate : Str) (batch : ActionBatch) :
    Framed fun state => state.pushSpeech compiled index phase speakTemplate scope now batch := by
  have hspeech (text : Str) : Framed fun state =>
      if phase = .initial then state.initialSpeech compiled index scope now text else (state, text) := by
    split
    · exact initialSpeech_framed compiled index scope now text
    · exact .pure text
  have hpush (text : Str) (rate : Option Int) : Framed fun state => if (sanitizeTts text).trim.isEmpty then (state, batch)
      else (state, batch.push (compiled.event state phase (.speak (sanitizeTts text) rate compiled.trigger.volume))) := by
    split
    · exact .pure batch
    · exact push_framed compiled phase batch _
  intro state F hF
  beta_reduce
  unfold pushSpeech
  rw [reframe_vars]
  split
  · rfl
  · split
    · rfl
    · rw [hF.character]
      exact (hspeech _).bind (fun text => hpush text _) state F hF

theorem pushAudio_framed (sound : Option Str) (speakTemplate : Str) (batch : ActionBatch) :
    Framed fun state => state.pushAudio compiled index phase sound speakTemplate scope now batch := by
  unfold pushAudio
  split
  · split
    · exact .pure batch
    · exact push_framed compiled phase batch _
  · exact pushSpeech_framed compiled index phase scope now speakTemplate batch

theorem pushDisplay_framed (batch : ActionBatch) :
    Framed fun state => state.pushDisplay compiled index scope now batch := by
  intro state F hF
  beta_reduce
  unfold pushDisplay
  rw [reframe_vars]
  split
  · rfl
  · rw [hF.character]
    dsimp only
    by_cases hrepeated : compiled.displayFlags.repeated = true
    · rw [if_pos hrepeated, if_pos hrepeated]
      exact Prod.ext rfl (congrArg batch.push (event_congr hF.1 ..))
    · rw [if_neg hrepeated, if_neg hrepeated]
      exact Prod.ext rfl (congrArg batch.push (event_congr hF.1 ..))

end

/-! ### Timers -/

section
variable (compiled : CompiledTrigger P) (index : Nat) (dynamicDuration : Option P.F64) (f : Firing)

theorem startTimer_reframe (behavior : TimerBehavior P) (displayName template : Str) {state : CharState P}
    {F : MatchFrame P} (hF : state.Fits F) :
    (state.reframe F).startTimer compiled behavior index displayName template dynamicDuration f =
      (state.startTimer compiled behavior index displayName template dynamicDuration f).reframe F := by
  unfold startTimer
  rw [reframe_timers]
  split
  · rfl
  · rw [CompiledTrigger.newTimer, hF.character]
    rfl

theorem fireTimer_framed (batch : ActionBatch) :
    Framed fun state => state.fireTimer compiled index dynamicDuration f batch := by
  have hrepeated (timerName : Str) : Framed fun state : CharState P => (if compiled.timerFlags.repeated then
      { state with repeatedTimer :=
        (updateRepeated P state.repeatedTimer index timerName f.now compiled.trigger.repeatedResetSeconds).1 }
    else state, ()) := by
    split <;> exact fun _ _ _ => rfl
  have hstart (behavior : TimerBehavior P) (timerName : Str) (dynamic : Option P.F64) : Framed fun state =>
      if P.positive behavior.durationSeconds || dynamic.isSome then
        (state.startTimer compiled behavior index (replaceTokens P timerName state.vars.get) timerName dynamic f,
          { batch with timersChanged := true })
      else (state, batch) := by
    intro state F hF
    beta_reduce
    split
    · rw [reframe_vars, startTimer_reframe compiled index dynamic f behavior _ _ hF]
    · rfl
  intro state F hF
  beta_reduce
  unfold fireTimer
  rw [hF.character]
  dsimp only
  split
  · exact (hrepeated _).bind (fun _ => .pure batch) state F hF
  · exact (hrepeated _).bind (fun _ => hstart _ _ _) state F hF

theorem countFiring_framed (now : EngineMillis) : Framed fun state : CharState P => state.countFiring compiled index now := by
  unfold countFiring
  split <;> exact fun _ _ _ => rfl

theorem fire_framed (batch : ActionBatch) : Framed fun state => state.fire compiled index dynamicDuration f batch := by
  let act (store : VariableStore P) (action : VariableAction P) :=
    store.applyAction f.line f.captures f.previousMatches f.now action
  have hact : Framed fun state : CharState P =>
      ({ state with vars := compiled.trigger.variableActions.foldl act state.vars }, ()) := fun _ _ _ => rfl
  let scope (counterCount : Int) : Scope :=
    ⟨f.line, some f.captures, none, some f.previousMatches, f.logTime, counterCount⟩
  have hpush (counterCount : Int) (batch : ActionBatch) :=
    (pushAudio_framed compiled index .initial (scope counterCount) f.now compiled.trigger.sound compiled.speakTemplate
      batch).bind fun batch => pushDisplay_framed compiled index (scope counterCount) f.now batch
  have htimer (counterCount : Int) :=
    (fireTimer_framed compiled index dynamicDuration { f with counterCount := counterCount } batch).bind (hpush counterCount)
  intro state F hF
  beta_reduce
  unfold fire
  exact (countFiring_framed compiled index f.now).bind (fun counterCount => hact.bind fun _ => htimer counterCount) state F hF

theorem lockout_reframe (state : CharState P) (now : EngineMillis) :
    (∀ F, (state.reframe F).lockout compiled index now = none) ∨
      ∃ until', ∀ F, (state.reframe F).lockout compiled index now =
        some ({ state with lockoutUntil := until' }.reframe F) := by
  by_cases hlock : P.positive compiled.trigger.lockoutSeconds = true
  · by_cases huntil : (state.lockoutUntil[index]?).any (fun until' => now ≤ until') = true
    · refine .inl fun F => ?_
      have huntil' : ((state.reframe F).lockoutUntil[index]?).any (fun until' => now ≤ until') = true := huntil
      rw [lockout, if_pos hlock, if_pos huntil']
    · refine .inr ⟨state.lockoutUntil.insert index (addMillis now (P.millis compiled.trigger.lockoutSeconds)), fun F => ?_⟩
      have huntil' : ¬ ((state.reframe F).lockoutUntil[index]?).any (fun until' => now ≤ until') = true := huntil
      rw [lockout, if_pos hlock, if_neg huntil']
      rfl
  · exact .inr ⟨state.lockoutUntil, fun F => by rw [lockout, if_neg hlock]⟩

theorem handleTrigger_framed (batch : ActionBatch) :
    Framed fun state => state.handleTrigger compiled index dynamicDuration f batch := by
  have hfire := fire_framed compiled index dynamicDuration f batch
  unfold handleTrigger
  split
  · intro state F hF
    beta_reduce
    rcases lockout_reframe compiled index state f.now with h | ⟨until', h⟩
    · have hself := h state.frame
      rw [reframe_frame] at hself
      rw [h F, hself]
    · have hself := h state.frame
      rw [h F]
      rw [reframe_frame] at hself
      rw [hself]
      exact hfire { state with lockoutUntil := until' } F hF
  · exact hfire

end

/-! ### Timer stages -/

section
variable (lib : CompiledLibrary P) (line : Str) (now : EngineMillis)

theorem fireTimerStage_framed (timer : ActiveTimer P) (phase : ActionPhase) (earlyMatches : MatchMap) (batch : ActionBatch) :
    Framed fun state => state.fireTimerStage lib timer phase earlyMatches line now batch := by
  intro state F hF
  beta_reduce
  unfold fireTimerStage
  split
  · rfl
  · split
    · rfl
    · rename_i compiled _ _ behavior _
      dsimp only
      generalize hpair : (if phase = .timerEndEarly then (earlyMatches, some timer.originalMatches)
        else (timer.originalMatches, none)) = pair
      have haudio := pushAudio_framed compiled timer.triggerIndex phase
        ⟨line, some pair.1, pair.2, some timer.previousMatches, timer.logTime, timer.counterCount⟩ now
        (compiled.stage behavior phase).1 (compiled.stage behavior phase).2.1 batch
      have heq := haudio state F hF
      have hfit := haudio.fits hF
      dsimp only at heq hfit
      rw [heq]
      generalize state.pushAudio _ _ _ _ _ _ _ _ = result at hfit
      obtain ⟨after, batch⟩ := result
      dsimp only at hfit ⊢
      rw [reframe_vars]
      generalize resolveTemplate P _ line _ _ _ _ = resolved
      cases resolved with
      | none => rfl
      | some text =>
        dsimp only
        rw [hfit.character]
        exact Prod.ext rfl (congrArg (ActionBatch.push _) (event_congr hfit.1 ..))

theorem clearEndVariables_reframe (state : CharState P) (F : MatchFrame P) (index : Nat) :
    (state.reframe F).clearEndVariables lib index = (state.clearEndVariables lib index).reframe F := by
  unfold clearEndVariables
  split <;> rfl

theorem clearEndVariables_fits {state : CharState P} {F : MatchFrame P} (hF : state.Fits F) (index : Nat) :
    (state.clearEndVariables lib index).Fits F := by
  unfold clearEndVariables
  split <;> exact hF

theorem expireVariables_reframe (state : CharState P) (F : MatchFrame P) :
    (state.reframe F).expireVariables now = (state.expireVariables now).reframe F := rfl

theorem finishEarly_framed (batch : ActionBatch) (entry : ActiveTimer P × MatchMap) :
    Framed fun state => finishEarly lib line now (state, batch) entry := by
  obtain ⟨timer, earlyMatches⟩ := entry
  intro state F hF
  have hstage := fireTimerStage_framed lib line now timer .timerEndEarly earlyMatches { batch with timersChanged := true }
    ({ state with
      repeatedTimer := removeRepeated state.repeatedTimer timer.triggerIndex timer.displayName
      counterTimes := removeRepeated state.counterTimes timer.triggerIndex triggerCount }.expireVariables now) F hF
  dsimp only [finishEarly] at hstage ⊢
  rw [← clearEndVariables_reframe]
  exact congrArg (fun s => (s.1.clearEndVariables lib timer.triggerIndex, s.2)) hstage

theorem finishTimer_framed (batch : ActionBatch) (timer : ActiveTimer P) :
    Framed fun state => finishTimer lib now (state, batch) timer := by
  intro state F hF
  have hstage := fireTimerStage_framed lib timer.sourceLine now timer .timerEnd .new { batch with timersChanged := true }
  have heq := hstage (state.expireVariables now) F hF
  have hfit := hstage.fits (show (state.expireVariables now).Fits _ from hF)
  dsimp only [finishTimer] at heq hfit ⊢
  rw [expireVariables_reframe, heq]
  generalize (state.expireVariables now).fireTimerStage _ _ _ _ _ _ _ = result at hfit
  obtain ⟨after, batch⟩ := result
  dsimp only at hfit ⊢
  rw [clearEndVariables_reframe]
  split
  · rfl
  · split
    · rfl
    · split
      · exact handleTrigger_framed _ _ none _ _ _ F (clearEndVariables_fits lib hfit timer.triggerIndex)
      · rfl

theorem warn_framed (batch : ActionBatch) (position : Nat) : Framed fun state => warn lib now (state, batch) position := by
  intro state F hF
  dsimp only [warn]
  rw [reframe_timers]
  split
  · rfl
  · split
    · rename_i timer _ _
      exact fireTimerStage_framed lib timer.sourceLine now { timer with warned := true } .timerWarning .new batch
        ({ state with timers := state.timers.set position { timer with warned := true } }.expireVariables now) F hF
    · rfl

theorem foldl_framed {α : Type} (step : CharState P × ActionBatch → α → CharState P × ActionBatch)
    (hstep : ∀ batch a, Framed fun state => step (state, batch) a) (l : List α) (batch : ActionBatch) :
    Framed fun state => l.foldl step (state, batch) := by
  induction l generalizing batch with
  | nil => exact .pure batch
  | cons a l ih => exact (hstep batch a).bind fun batch => ih batch

theorem checkTimerEnders_framed (batch : ActionBatch) :
    Framed fun state => state.checkTimerEnders lib line now batch := by
  intro state F hF
  exact foldl_framed (finishEarly lib line now) (finishEarly_framed lib line now) _ batch
    { state with timers := state.timers.filter fun timer => (state.endedBy lib line timer).isNone } F hF

theorem advance_framed (batch : ActionBatch) : Framed fun state => state.advance lib now batch := by
  have hended (batch : ActionBatch) : Framed fun state : CharState P =>
      (state.timers.filter (·.isEnded now)).foldl (finishTimer lib now)
        ({ state with timers := state.timers.filter fun timer => !timer.isEnded now }, batch) := by
    intro state F hF
    exact foldl_framed (finishTimer lib now) (finishTimer_framed lib now) _ batch
      { state with timers := state.timers.filter fun timer => !timer.isEnded now } F hF
  intro state F hF
  exact (foldl_framed (warn lib now) (warn_framed lib now) (List.range state.timers.length) batch).bind hended state F hF

end

end CharState

end Stonemite.Triggers
