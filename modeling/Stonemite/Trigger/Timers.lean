import Stonemite.Trigger.Context

/-!
# Running timers and restart modes

What a line or the clock does to the timers of a character is a few moves: some are taken off, one is marked as warned,
one is started by the restart mode of its trigger. Each leaves at most the timers the restart mode allows
(`TimersUnique`). `TimersUnique` is kept by each move, so by each line, each tick and each run (`timers_unique`).
-/

open Std

namespace Stonemite.Triggers

variable {P : Platform}

/-! ### What the actions leave alone -/

namespace CharState
variable (compiled : CompiledTrigger P) (index : Nat) (phase : ActionPhase) (scope : Scope) (now : EngineMillis)
  (batch : ActionBatch) (state : CharState P)

theorem initialSpeech_timers (text : Str) : (state.initialSpeech compiled index scope now text).1.timers = state.timers := by
  unfold initialSpeech
  dsimp only
  by_cases hrepeated : compiled.speakFlags.repeated = true
  · rw [if_pos hrepeated]
  · rw [if_neg hrepeated]

theorem pushSpeech_timers (speakTemplate : Str) :
    (state.pushSpeech compiled index phase speakTemplate scope now batch).1.timers = state.timers := by
  have hspeech (text : Str) : (if phase = .initial then state.initialSpeech compiled index scope now text
      else (state, text)).1.timers = state.timers := by
    split
    · exact initialSpeech_timers compiled index scope now state text
    · rfl
  unfold pushSpeech
  split
  · rfl
  · split
    · rfl
    · rename_i tts _
      have hspeech := hspeech (replaceCode tts characterCode state.context.character)
      dsimp only
      generalize (if phase = .initial then state.initialSpeech compiled index scope now
        (replaceCode tts characterCode state.context.character)
        else (state, replaceCode tts characterCode state.context.character)) = result at hspeech ⊢
      split <;> exact hspeech

theorem pushAudio_timers (sound : Option Str) (speakTemplate : Str) :
    (state.pushAudio compiled index phase sound speakTemplate scope now batch).1.timers = state.timers := by
  unfold pushAudio
  split
  · rfl
  · exact pushSpeech_timers compiled index phase scope now batch state speakTemplate

theorem pushDisplay_timers : (state.pushDisplay compiled index scope now batch).1.timers = state.timers := by
  unfold pushDisplay
  split
  · rfl
  · dsimp only
    by_cases hrepeated : compiled.displayFlags.repeated = true
    · rw [if_pos hrepeated]
    · rw [if_neg hrepeated]

theorem countFiring_timers : (state.countFiring compiled index now).1.timers = state.timers := by
  unfold countFiring
  split <;> rfl

theorem lockout_timers {after : CharState P} (h : state.lockout compiled index now = some after) :
    after.timers = state.timers := by
  unfold lockout at h
  split at h
  · split at h
    · cases h
    · cases h
      rfl
  · cases h
    rfl

theorem fireTimerStage_timers (lib : CompiledLibrary P) (timer : ActiveTimer P) (earlyMatches : MatchMap) (line : Str) :
    (state.fireTimerStage lib timer phase earlyMatches line now batch).1.timers = state.timers := by
  unfold fireTimerStage
  split
  · rfl
  · split
    · rfl
    · dsimp only
      split <;> exact pushAudio_timers _ _ _ _ _ _ _ _ _

theorem clearEndVariables_timers (lib : CompiledLibrary P) : (state.clearEndVariables lib index).timers = state.timers := by
  unfold clearEndVariables
  split <;> rfl

end CharState

/-! ### What firing does to the timers -/

/-- Nothing, or a timer of the trigger is started as its restart mode admits. -/
def CompiledTrigger.Starts (compiled : CompiledTrigger P) (index : Nat) (before after : List (ActiveTimer P)) : Prop :=
  after = before ∨ ∃ behavior timers timer, compiled.trigger.timer = some behavior ∧
    behavior.restartMode.admits index timer.displayName before = some timers ∧ timer.triggerIndex = index ∧
    after = timers ++ [timer]

namespace CharState
variable {compiled : CompiledTrigger P} {index : Nat} {state : CharState P} {dynamicDuration : Option P.F64} {f : Firing}
  {batch : ActionBatch}

theorem startTimer_starts {behavior : TimerBehavior P} (hbehavior : compiled.trigger.timer = some behavior)
    (displayName template : Str) :
    compiled.Starts index state.timers
      (state.startTimer compiled behavior index displayName template dynamicDuration f).timers := by
  unfold startTimer
  cases hadmits : behavior.restartMode.admits index displayName state.timers with
  | none => exact .inl rfl
  | some timers => exact .inr ⟨behavior, timers, _, hbehavior, hadmits, rfl, rfl⟩

theorem fireTimer_starts :
    compiled.Starts index state.timers (state.fireTimer compiled index dynamicDuration f batch).1.timers := by
  have hrepeated (timerName : Str) : (if compiled.timerFlags.repeated then
      { state with repeatedTimer :=
        (updateRepeated P state.repeatedTimer index timerName f.now compiled.trigger.repeatedResetSeconds).1 }
      else state).timers = state.timers := by
    split <;> rfl
  unfold fireTimer
  dsimp only
  cases hbehavior : compiled.trigger.timer with
  | none => exact .inl (hrepeated _)
  | some behavior =>
    dsimp only
    split
    · have hstart := @startTimer_starts P compiled index (if compiled.timerFlags.repeated then
          { state with repeatedTimer := (updateRepeated P state.repeatedTimer index
            (compiled.timerName state.context.character f) f.now compiled.trigger.repeatedResetSeconds).1 }
          else state) (dynamicDuration.filter fun duration =>
        behavior.kind.acceptsDynamicDuration && P.positive duration) f behavior hbehavior
      rw [hrepeated] at hstart
      exact hstart _ _
    · exact .inl (hrepeated _)

theorem fire_starts : compiled.Starts index state.timers (state.fire compiled index dynamicDuration f batch).1.timers := by
  unfold fire
  dsimp only
  rw [pushDisplay_timers, pushAudio_timers]
  rw [← countFiring_timers compiled index f.now state]
  exact fireTimer_starts

theorem handleTrigger_starts :
    compiled.Starts index state.timers (state.handleTrigger compiled index dynamicDuration f batch).1.timers := by
  unfold handleTrigger
  split
  · cases hlockout : state.lockout compiled index f.now with
    | none => exact .inl rfl
    | some after =>
      rw [← lockout_timers compiled index f.now state hlockout]
      exact fire_starts
  · exact fire_starts

end CharState

/-! ### The invariant -/

/-- The mode does not let timers of these names run together. -/
def TimerRestartMode.Conflict (a b : Str) : TimerRestartMode → Prop
  | .startNew => False
  | .restartAll | .ignoreIfAnyRunning => True
  | .restartSameName | .ignoreIfSameNameRunning => a.eqIgnoreAsciiCase b = true

/-- The mode of the trigger's timer. -/
def CompiledLibrary.restartMode (lib : CompiledLibrary P) (index : Nat) : Option TimerRestartMode :=
  (lib.triggers[index]?).bind fun compiled => compiled.trigger.timer.map (·.restartMode)

/-- No two timers of a trigger that its restart mode does not let run together. -/
def TimersUnique (lib : CompiledLibrary P) (timers : List (ActiveTimer P)) : Prop :=
  timers.Pairwise fun a b => a.triggerIndex = b.triggerIndex →
    ∀ mode ∈ lib.restartMode b.triggerIndex, ¬ mode.Conflict a.displayName b.displayName

/-- What the mode admits: some of the timers, none of them in conflict with the one that starts. -/
theorem TimerRestartMode.admits_spec {mode : TimerRestartMode} {index : Nat} {timer : ActiveTimer P}
    {before timers : List (ActiveTimer P)} (h : mode.admits index timer.displayName before = some timers) :
    timers.Sublist before ∧ ∀ a ∈ timers, a.triggerIndex = index → ¬ mode.Conflict a.displayName timer.displayName := by
  cases mode with
  | startNew =>
    cases h
    exact ⟨List.Sublist.refl _, fun _ _ _ => id⟩
  | restartAll =>
    cases h
    refine ⟨List.filter_sublist, fun a ha hindex => ?_⟩
    simp [hindex] at ha
  | restartSameName =>
    cases h
    refine ⟨List.filter_sublist, fun a ha hindex hname => ?_⟩
    have hname : a.displayName.eqIgnoreAsciiCase timer.displayName = true := hname
    simp [hindex, hname] at ha
  | ignoreIfAnyRunning =>
    dsimp only [admits] at h
    split at h
    · cases h
    · rename_i hany
      cases h
      refine ⟨List.Sublist.refl _, fun a ha hindex _ => hany (List.any_eq_true.mpr ⟨a, ha, ?_⟩)⟩
      rw [hindex]
      exact beq_self_eq_true index
  | ignoreIfSameNameRunning =>
    dsimp only [admits] at h
    split at h
    · cases h
    · rename_i hany
      cases h
      refine ⟨List.Sublist.refl _, fun a ha hindex hname => hany (List.any_eq_true.mpr ⟨a, ha, ?_⟩)⟩
      have hname : a.displayName.eqIgnoreAsciiCase timer.displayName = true := hname
      simp [hindex, hname]

namespace TimersUnique
variable {lib : CompiledLibrary P} {before after : List (ActiveTimer P)}

theorem filter (h : TimersUnique lib before) (keep : ActiveTimer P → Bool) : TimersUnique lib (before.filter keep) :=
  h.sublist List.filter_sublist

theorem starts (h : TimersUnique lib before) {index : Nat} {compiled : CompiledTrigger P}
    (hlib : lib.triggers[index]? = some compiled) (hstarts : compiled.Starts index before after) : TimersUnique lib after := by
  rcases hstarts with rfl | ⟨behavior, timers, timer, hbehavior, hadmits, hindex, rfl⟩
  · exact h
  · obtain ⟨hsub, hconflict⟩ := TimerRestartMode.admits_spec hadmits
    refine List.pairwise_append.mpr ⟨h.sublist hsub, List.pairwise_singleton _ _, fun a ha b hb hab mode hmode => ?_⟩
    obtain rfl := List.mem_singleton.mp hb
    have hrestart : lib.restartMode index = some behavior.restartMode := by
      rw [CompiledLibrary.restartMode, hlib, Option.bind_some, hbehavior]
      rfl
    rw [hindex, hrestart] at hmode
    obtain rfl := Option.some.inj hmode
    exact hconflict a ha (hab.trans hindex)

theorem set_warned (h : TimersUnique lib before) {position : Nat} {timer : ActiveTimer P}
    (ht : before[position]? = some timer) : TimersUnique lib (before.set position { timer with warned := true }) := by
  let name (t : ActiveTimer P) : Nat × Str := (t.triggerIndex, t.displayName)
  have hname : (before.set position { timer with warned := true }).map name = before.map name := by
    rw [List.map_set]
    have hget : (before.map name)[position]? = some (name timer) := by rw [List.getElem?_map, ht]; rfl
    obtain ⟨hlt, hget⟩ := List.getElem?_eq_some_iff.mp hget
    rw [← hget]
    exact List.set_getElem_self hlt
  let apart (a b : Nat × Str) : Prop := a.1 = b.1 → ∀ mode ∈ lib.restartMode b.1, ¬ mode.Conflict a.2 b.2
  have happart (l : List (ActiveTimer P)) : TimersUnique lib l ↔ (l.map name).Pairwise apart := by
    rw [List.pairwise_map]
    exact Iff.rfl
  rw [happart, hname, ← happart]
  exact h

end TimersUnique

/-! ### Lines and the clock -/

namespace CharState
variable {lib : CompiledLibrary P} {state : CharState P} {compiled : CompiledTrigger P} {index : Nat} {line : Str}
  {now : EngineMillis} {batch : ActionBatch}

theorem characterRegex_timers (isPrevious : Bool) (expandedPattern : Str) :
    (state.characterRegex index isPrevious expandedPattern).1.timers = state.timers := by
  unfold characterRegex
  split <;> rfl

theorem matchRegex_timers (constraints : List NumberConstraint) (regex : CompatRegex P) :
    (state.matchRegex index line constraints regex).1.timers = state.timers := by
  unfold matchRegex
  split <;> rfl

theorem matchLine_timers (isPrevious : Bool) (matcher : Matcher P) :
    (state.matchLine index line isPrevious matcher).1.timers = state.timers := by
  cases matcher with
  | literal text needsCharacter => rfl
  | regex regex constraints prefilter expandedPattern needsCharacter =>
    unfold matchLine
    dsimp only
    split
    · rfl
    · split
      · have hregex : (state.characterRegex index isPrevious expandedPattern).1.timers = state.timers :=
          characterRegex_timers isPrevious expandedPattern
        generalize state.characterRegex index isPrevious expandedPattern = result at hregex ⊢
        obtain ⟨after, entry⟩ := result
        cases entry with
        | none => exact hregex
        | some regex => exact (matchRegex_timers constraints regex).trans hregex
      · exact matchRegex_timers constraints regex

theorem checkLine_timers (isPrevious : Bool) : (state.checkLine compiled index line isPrevious).1.timers = state.timers := by
  unfold checkLine
  split
  · split
    · rfl
    · exact matchLine_timers true _
  · exact matchLine_timers false _

theorem checkPrevious_timers : (state.checkPrevious compiled index).1.timers = state.timers := by
  unfold checkPrevious
  split
  · rfl
  · split
    · rfl
    · exact checkLine_timers true

theorem warn_unique (h : TimersUnique lib state.timers) (position : Nat) :
    TimersUnique lib (warn lib now (state, batch) position).1.timers := by
  unfold warn
  dsimp only
  split
  · exact h
  · rename_i timer ht
    split
    · rw [fireTimerStage_timers]
      exact h.set_warned ht
    · exact h

theorem finishTimer_unique (h : TimersUnique lib state.timers) (timer : ActiveTimer P) :
    TimersUnique lib (finishTimer lib now (state, batch) timer).1.timers := by
  have hafter (batch : ActionBatch) : (((state.expireVariables now).fireTimerStage lib timer .timerEnd .new timer.sourceLine
      now batch).1.clearEndVariables lib timer.triggerIndex).timers = state.timers := by
    rw [clearEndVariables_timers, fireTimerStage_timers]
    rfl
  unfold finishTimer
  dsimp only
  cases hlib : lib.triggers[timer.triggerIndex]? with
  | none =>
    dsimp only
    rw [hafter]
    exact h
  | some compiled =>
    dsimp only
    split
    · rw [hafter]
      exact h
    · split
      · refine TimersUnique.starts h hlib ?_
        rw [← hafter]
        exact handleTrigger_starts
      · rw [hafter]
        exact h

theorem finishEarly_timers (entry : ActiveTimer P × MatchMap) :
    (finishEarly lib line now (state, batch) entry).1.timers = state.timers := by
  unfold finishEarly
  dsimp only
  rw [clearEndVariables_timers, fireTimerStage_timers]
  rfl

theorem checkTimerEnders_unique (h : TimersUnique lib state.timers) :
    TimersUnique lib (state.checkTimerEnders lib line now batch).1.timers := by
  unfold checkTimerEnders
  refine foldl_invariant (I := fun s : CharState P × ActionBatch => TimersUnique lib s.1.timers) (fun s entry hs => ?_) _ (h.filter _)
  rw [finishEarly_timers]
  exact hs

theorem advance_unique (h : TimersUnique lib state.timers) : TimersUnique lib (state.advance lib now batch).1.timers := by
  have hwarn := foldl_invariant (I := fun s : CharState P × ActionBatch => TimersUnique lib s.1.timers) (f := warn lib now)
    (fun s position hs => warn_unique hs position) (List.range state.timers.length) (s := (state, batch)) h
  unfold advance
  refine foldl_invariant (I := fun s : CharState P × ActionBatch => TimersUnique lib s.1.timers) (fun s timer hs => finishTimer_unique hs timer) _ ?_
  exact hwarn.filter _

end CharState

theorem Pass.trigger_unique {lib : CompiledLibrary P} {pass : Pass P} (h : TimersUnique lib pass.state.timers) (line : Str)
    (logTime : Option Str) (now : EngineMillis) (index : Nat) :
    TimersUnique lib (Pass.trigger lib line logTime now pass index).state.timers := by
  unfold Pass.trigger
  cases hlib : lib.triggers[index]? with
  | none => exact h
  | some compiled =>
    dsimp only
    split
    · exact h
    · have hcheck : (pass.state.checkLine compiled index line false).1.timers = pass.state.timers :=
        CharState.checkLine_timers false
      generalize pass.state.checkLine compiled index line false = result at hcheck ⊢
      obtain ⟨s, lineMatch⟩ := result
      dsimp only at hcheck
      cases lineMatch with
      | none =>
        dsimp only
        rw [hcheck]
        exact h
      | some lineMatch =>
        have hprevious : (s.checkPrevious compiled index).1.timers = s.timers := CharState.checkPrevious_timers
        dsimp only
        generalize s.checkPrevious compiled index = result at hprevious ⊢
        obtain ⟨s', previousMatches⟩ := result
        dsimp only at hprevious
        rw [hcheck] at hprevious
        cases previousMatches with
        | none =>
          dsimp only
          rw [hprevious]
          exact h
        | some previousMatches =>
          have hexpire : (if pass.expired then s' else s'.expireVariables now).timers = pass.state.timers := by
            split <;> exact hprevious
          dsimp only
          generalize (if pass.expired then s' else s'.expireVariables now) = s'' at hexpire ⊢
          split
          · refine TimersUnique.starts (show TimersUnique lib s''.timers from hexpire ▸ h) hlib ?_
            exact CharState.handleTrigger_starts
          · dsimp only
            rw [hexpire]
            exact h

theorem CharState.processLine_unique {lib : CompiledLibrary P} {state : CharState P} (h : TimersUnique lib state.timers)
    (line : Str) (logTime : Option Str) (now : EngineMillis) :
    TimersUnique lib (state.processLine lib line logTime now).1.timers := by
  have hpass := foldl_invariant (I := fun pass : Pass P => TimersUnique lib pass.state.timers)
    (fun pass index hpass => Pass.trigger_unique hpass line logTime now index) state.active (s := ⟨state, .empty, false⟩) h
  unfold CharState.processLine
  exact checkTimerEnders_unique hpass

/-! ### Runs -/

/-- The timers of each character are kept apart. -/
def TriggerEngine.TimersUnique (engine : TriggerEngine P) : Prop :=
  ∀ (key : Str) (state : CharState P), engine.characters[key]? = some state → Triggers.TimersUnique engine.compiled state.timers

namespace TriggerEngine
variable {engine : TriggerEngine P}

theorem insert_unique {compiled : CompiledLibrary P} {characters : ExtTreeMap Str (CharState P)}
    (h : (⟨compiled, characters⟩ : TriggerEngine P).TimersUnique) (key : Str) {state : CharState P}
    (hstate : Triggers.TimersUnique compiled state.timers) :
    (⟨compiled, characters.insert key state⟩ : TriggerEngine P).TimersUnique := by
  intro key' state' hlookup
  have hlookup : (characters.insert key state)[key']? = some state' := hlookup
  rw [ExtTreeMap.getElem?_insert_ite] at hlookup
  split at hlookup
  · cases hlookup
    exact hstate
  · exact h key' state' hlookup

theorem processLine_unique (h : engine.TimersUnique) (context : CharacterContext) (line : Str) (logTime : Option Str)
    (now : EngineMillis) : (engine.processLine context line logTime now).1.TimersUnique := by
  unfold processLine
  split
  · exact h
  · refine insert_unique h context.key (CharState.processLine_unique ?_ line logTime now)
    unfold stateFor
    cases hlookup : engine.characters[context.key]? with
    | none => exact List.Pairwise.nil
    | some state => exact h _ _ hlookup

theorem advance_unique (h : engine.TimersUnique) (now : EngineMillis) : (engine.advance now).1.TimersUnique := by
  have hfold := foldl_invariant_mem
    (I := fun s : ExtTreeMap Str (CharState P) × ActionBatch => (⟨engine.compiled, s.1⟩ : TriggerEngine P).TimersUnique)
    (f := fun s entry => (s.1.insert entry.1 (entry.2.advance engine.compiled now s.2).1,
      (entry.2.advance engine.compiled now s.2).2)) engine.characters.toList
    (fun s entry hentry hs => insert_unique hs entry.1
      (CharState.advance_unique (h _ _ (ExtTreeMap.lookup_of_mem_toList hentry))))
    (s := (engine.characters, .empty)) h
  exact hfold

end TriggerEngine

theorem EngineRun.call_unique {r : EngineRun P} (h : r.1.TimersUnique) (c : EngineCall) : (r.call c).1.TimersUnique := by
  cases c with
  | processLine context line logTime now => exact TriggerEngine.processLine_unique h context line logTime now
  | advance now => exact TriggerEngine.advance_unique h now
  | removeCharacter key =>
    intro key' state hlookup
    have hlookup : (r.1.characters.erase key)[key']? = some state := hlookup
    rw [ExtTreeMap.getElem?_erase_ite] at hlookup
    split at hlookup
    · cases hlookup
    · exact h key' state hlookup
  | clearVariables key =>
    intro key' state hlookup
    have hlookup : (r.1.characters.modify key fun state => { state with vars := .empty })[key']? = some state := hlookup
    rw [ExtTreeMap.getElem?_modify_ite] at hlookup
    split at hlookup
    · obtain ⟨before, hbefore, rfl⟩ := Option.map_eq_some_iff.mp hlookup
      exact h key' before hbefore
    · exact h key' state hlookup

/-- How many timers of the trigger run under a key. -/
def TriggerEngine.running (engine : TriggerEngine P) (key : Str) (index : Nat) (which : ActiveTimer P → Bool) : Nat :=
  (((engine.characters[key]?).elim [] (·.timers)).filter fun timer => timer.triggerIndex == index && which timer).length

theorem TimersUnique.length_le_one {lib : CompiledLibrary P} {timers : List (ActiveTimer P)} (h : TimersUnique lib timers)
    {index : Nat} {mode : TimerRestartMode} (hmode : lib.restartMode index = some mode) {which : ActiveTimer P → Bool}
    (hconflict : ∀ a b, which a = true → which b = true → mode.Conflict a.displayName b.displayName) :
    (timers.filter fun timer => timer.triggerIndex == index && which timer).length ≤ 1 := by
  have hfilter := h.filter fun timer => timer.triggerIndex == index && which timer
  generalize hl : timers.filter (fun timer => timer.triggerIndex == index && which timer) = l at hfilter ⊢
  have hof (t : ActiveTimer P) (ht : t ∈ l) : t.triggerIndex = index ∧ which t = true := by
    rw [← hl] at ht
    simpa using (List.mem_filter.mp ht).2
  match l with
  | [] => exact Nat.zero_le _
  | [_] => exact le_rfl
  | a :: b :: _ =>
    obtain ⟨ha, hwa⟩ := hof a (by simp)
    obtain ⟨hb, hwb⟩ := hof b (by simp)
    have hab := (List.pairwise_cons.mp hfilter).1 b (by simp) (ha.trans hb.symm) mode (by rw [hb, hmode]; rfl)
    exact absurd (hconflict a b hwa hwb) hab

/-- In every state of the engine a character has at most one timer of a trigger whose mode restarts or ignores
any, and at most one of a name, up to ASCII case, of a trigger whose mode restarts or ignores the same name. -/
theorem EngineRun.timers_unique (library : TriggerLibrary P) (calls : List EngineCall) (key : Str) (index : Nat)
    (mode : TimerRestartMode) (hmode : (CompiledLibrary.compile library).restartMode index = some mode) :
    let engine := (calls.foldl EngineRun.call (TriggerEngine.new (.compile library), [])).1
    (mode = .restartAll ∨ mode = .ignoreIfAnyRunning → engine.running key index (fun _ => true) ≤ 1) ∧
      (mode = .restartSameName ∨ mode = .ignoreIfSameNameRunning →
        ∀ name, engine.running key index (fun timer => timer.displayName.eqIgnoreAsciiCase name) ≤ 1) := by
  intro engine
  have hcompiled : engine.compiled = .compile library :=
    foldl_invariant (I := fun r : EngineRun P => r.1.compiled = .compile library) (fun r c hr => by
      cases c with
      | processLine context line logTime now =>
        rw [← hr]
        dsimp only [EngineRun.call, EngineRun.callWith, TriggerEngine.processLine]
        split <;> rfl
      | _ => exact hr) calls rfl
  have hunique : engine.TimersUnique :=
    foldl_invariant (I := fun r : EngineRun P => r.1.TimersUnique) (fun r c hr => EngineRun.call_unique hr c) calls
      (fun key state hlookup => by
        have hlookup : (∅ : ExtTreeMap Str (CharState P))[key]? = some state := hlookup
        rw [ExtTreeMap.getElem?_empty] at hlookup
        cases hlookup)
  have htimers : TimersUnique (.compile library) ((engine.characters[key]?).elim [] (·.timers)) := by
    cases hlookup : engine.characters[key]? with
    | none => exact List.Pairwise.nil
    | some state => exact hcompiled ▸ hunique key state hlookup
  constructor
  · rintro (rfl | rfl) <;> exact htimers.length_le_one hmode fun _ _ _ _ => trivial
  · intro hname name
    refine htimers.length_le_one hmode fun a b ha hb => ?_
    have hab : a.displayName.eqIgnoreAsciiCase b.displayName = true :=
      Str.eqIgnoreAsciiCase_iff.mpr ((Str.eqIgnoreAsciiCase_iff.mp ha).trans (Str.eqIgnoreAsciiCase_iff.mp hb).symm)
    rcases hname with rfl | rfl <;> exact hab

/-- A trigger whose timer is restarted by every pull. -/
def Literal.pullLibrary : TriggerLibrary Literal.platform :=
  Literal.library [Literal.trigger 1 ⟨"pulls".toList, false⟩ "pull".toList (some (Literal.timer .restartAll))]

/-- Two pulls in a row. -/
theorem EngineRun.timers_unique_pulls :
    let calls := [.processLine Literal.bilka "Bilka pulls".toList none 0, .processLine Literal.bilka "Bilka pulls".toList none 5]
    (calls.foldl EngineRun.call (TriggerEngine.new (.compile Literal.pullLibrary), [])).1.running Literal.bilka.key 0
        (fun _ => true) ≤ 1 :=
  (EngineRun.timers_unique Literal.pullLibrary _ Literal.bilka.key 0 .restartAll (by decide +kernel)).1 (.inl rfl)

/-- Another client. -/
def Literal.kafka : CharacterContext := ⟨"pid:2".toList, "Kafka".toList, "teek".toList⟩

/-- Each of two characters has its own timer of the one trigger. -/
theorem EngineRun.timers_of_two_characters :
    (CompiledLibrary.compile Literal.pullLibrary).restartMode 0 = some .restartAll ∧
      let engine := ([.processLine Literal.bilka "Bilka pulls".toList none 0,
        .processLine Literal.kafka "Kafka pulls".toList none 5].foldl EngineRun.call
          (TriggerEngine.new (.compile Literal.pullLibrary), [])).1
      (engine.characters.toList.flatMap (·.2.timers)).map (·.triggerIndex) = [0, 0] := by
  decide +kernel

end Stonemite.Triggers
