import Stonemite.Trigger.Stages

/-!
# The life of a timer

The timers of each character as a roster: every line and every advance of the clock is a run of its steps, each with the
actions it emits (`CharState.processLine_follows`, `CharState.advance_follows`). A step that opens a timer is the firing of a
trigger, with the timers before and after it. `Ledger.Reads` is the invariant: the live instances of a character are its running
timers. `Ledger.Step` says of each call which timers it warns, ends and ends early. So a started timer warns at most once and
ends at most once, early or at its end time, and a match starts it again no more often than its trigger says
(`EngineRun.timer_lifecycle`).
-/

open Std

namespace Stonemite.Triggers

variable {P : Platform}

/-- How often a timer of the trigger starts again. -/
def CompiledLibrary.timesToLoop (lib : CompiledLibrary P) (index : Nat) : Nat :=
  ((lib.triggers[index]?).bind (·.trigger.timer)).elim 0 (·.timesToLoop)

/-- The timers of a character under numbers of their own. -/
abbrev TimerRoster (P : Platform) := Roster (ActiveTimer P)

/-- A warning is given once; a loop counts its rounds up to the limit of its trigger. -/
def timerRules (lib : CompiledLibrary P) : Rules (ActiveTimer P) where
  fresh timer := timer.Started timer.triggerIndex timer.loopCount
  mark timer := { timer with warned := true }
  marked := (·.warned)
  rank := (·.loopCount)
  limit timer := lib.timesToLoop timer.triggerIndex
  marked_fresh _ h := h.warned
  marked_mark _ := rfl
  rank_mark _ := rfl
  limit_mark _ := rfl

/-- A step of a roster with the actions it emits. -/
structure Record where
  note : Note
  events : List ActionEvent

/-- The actions are those of a firing of a trigger, which takes the timers of the one roster to those of the other, or of the
stage of the timer that the note is about. -/
def Record.Told (lib : CompiledLibrary P) (r : TimerRoster P) (e : Record) (r' : TimerRoster P) : Prop :=
  match e.note with
  | .fired again .. => (∀ event ∈ e.events, event.phase = .initial) ∧
    ∃ (state : CharState P) (compiled : CompiledTrigger P) (index : Nat) (dynamicDuration : Option P.F64) (f : Firing)
      (batch : ActionBatch), lib.triggers[index]? = some compiled ∧ (f.loopCount = 0 ↔ again = none) ∧
        r.live.map (·.value) = state.timers ∧
        r'.live.map (·.value) = (state.fire compiled index dynamicDuration f batch).1.timers ∧
        (state.fire compiled index dynamicDuration f batch).2.events = batch.events ++ e.events
  | .marked id => ∃ i ∈ r.live, i.id = id ∧ StageEmits lib { i.value with warned := true } .timerWarning e.events
  | .closed id early => ∃ i ∈ r.due, i.id = id ∧ StageEmits lib i.value (if early then .timerEndEarly else .timerEnd) e.events

/-- Steps of the roster, each with its actions. -/
inductive Tells (lib : CompiledLibrary P) : TimerRoster P → List Record → TimerRoster P → Prop
  | nil (r : TimerRoster P) : Tells lib r [] r
  | step {r r' r'' : TimerRoster P} {log : List Record} (h : Tells lib r log r') (e : Record) (told : e.Told lib r' r'')
    (step : Roster.Step (timerRules lib) r' e.note r'') : Tells lib r (log ++ [e]) r''
  | retire {r r' : TimerRoster P} {log : List Record} (h : Tells lib r log r') (keep : Instance (ActiveTimer P) → Bool) :
    Tells lib r log { r' with live := r'.live.filter keep, due := r'.due ++ r'.live.filter fun i => !keep i }
  | forget {r r' : TimerRoster P} {log : List Record} (h : Tells lib r log r') : Tells lib r log ⟨[], [], none, r'.opened⟩

/-- The instances that ended by themselves. -/
def naturalEnds (log : List Record) : List Nat :=
  log.filterMap fun e => match e.note with
    | .closed id false => some id
    | _ => none

theorem naturalEnds_append (log log' : List Record) : naturalEnds (log ++ log') = naturalEnds log ++ naturalEnds log' :=
  List.filterMap_append

/-- The instance that a note says to have warned. -/
def warnedBy : Note → Option Nat
  | .marked id => some id
  | _ => none

/-- The instances that gave a warning. -/
def warnings (log : List Record) : List Nat := log.filterMap fun e => warnedBy e.note

theorem warnings_eq (log : List Record) : warnings log = (log.map (·.note)).filterMap warnedBy := by
  rw [List.filterMap_map]
  rfl

theorem warnings_append (log log' : List Record) : warnings (log ++ log') = warnings log ++ warnings log' :=
  List.filterMap_append

/-- The note of a match. -/
def matched : Note → Bool
  | .fired none .. => true
  | _ => false

/-- The note of a natural end, or of the round that it starts. -/
def finished : Note → Bool
  | .closed _ false | .fired (some _) .. => true
  | _ => false

/-- The notes that a call may leave: matches and early ends of a line, warnings, ends and later rounds of an advance. -/
def EngineCall.permits : EngineCall → Note → Bool
  | .processLine .., .closed _ true => true
  | .processLine .., note => matched note
  | .advance _, .marked _ => true
  | .advance _, note => finished note
  | _, _ => false

theorem warnings_eq_nil {log : List Record} (h : ∀ e ∈ log, ∀ id, e.note ≠ .marked id) : warnings log = [] := by
  refine List.filterMap_eq_nil_iff.mpr fun e he => ?_
  cases hnote : e.note with
  | marked id => exact absurd hnote (h e he id)
  | fired | closed => rfl

theorem naturalEnds_eq_nil {log : List Record} (h : ∀ e ∈ log, ∀ id, e.note ≠ .closed id false) : naturalEnds log = [] := by
  refine List.filterMap_eq_nil_iff.mpr fun e he => ?_
  have hnot := h e he
  split
  · exact absurd ‹_› (hnot _)
  · rfl

namespace Tells
variable {lib : CompiledLibrary P} {r r' r'' : TimerRoster P} {log log' : List Record}

theorem trans (h : Tells lib r log r') (h' : Tells lib r' log' r'') : Tells lib r (log ++ log') r'' := by
  induction h' with
  | nil => rwa [List.append_nil]
  | step _ e told hstep ih =>
    rw [← List.append_assoc]
    exact ih.step e told hstep
  | retire _ keep ih => exact ih.retire keep
  | forget _ ih => exact ih.forget

theorem steps (h : Tells lib r log r') : Roster.Steps (timerRules lib) r (log.map (·.note)) r' := by
  induction h with
  | nil => exact .nil _
  | step _ e told hstep ih =>
    rw [List.map_append]
    exact ih.note hstep
  | retire _ keep ih => exact ih.retire keep
  | forget _ ih => exact ih.forget

end Tells

/-! ### One character -/

/-- The roster is that of the state after it, and the steps account for the actions. -/
structure Follows (lib : CompiledLibrary P) (r : TimerRoster P) (batch : ActionBatch) (log : List Record) (r' : TimerRoster P)
    (after : CharState P × ActionBatch) : Prop where
  tells : Tells lib r log r'
  live : r'.live.map (·.value) = after.1.timers
  events : after.2.events = batch.events ++ log.flatMap (·.events)

namespace Follows
variable {lib : CompiledLibrary P} {r r' r'' : TimerRoster P} {batch : ActionBatch} {log log' : List Record}
  {between after : CharState P × ActionBatch}

theorem trans (h : Follows lib r batch log r' between) (h' : Follows lib r' between.2 log' r'' after) :
    Follows lib r batch (log ++ log') r'' after where
  tells := h.tells.trans h'.tells
  live := h'.live
  events := by rw [h'.events, h.events, List.append_assoc, List.flatMap_append]

end Follows

namespace CharState
variable (lib : CompiledLibrary P) (line : Str) (now : EngineMillis) (batch : ActionBatch) {r : TimerRoster P}
  {state : CharState P}

theorem map_value_filter (l : List (Instance (ActiveTimer P))) (keep : ActiveTimer P → Bool) :
    (l.filter fun i => keep i.value).map (·.value) = (l.map (·.value)).filter keep := by
  rw [List.filter_map]
  rfl

theorem fire_follows (hlive : r.live.map (·.value) = state.timers) {compiled : CompiledTrigger P} {index : Nat}
    (hcompiled : lib.triggers[index]? = some compiled) (dynamicDuration : Option P.F64) (f : Firing) (root : Nat)
    (again : Option Nat) (hagain : f.loopCount = 0 ↔ again = none)
    (hstep : ∀ (keep : Instance (ActiveTimer P) → Bool) (new : Option (ActiveTimer P)),
      (∀ a ∈ new, a.Started index f.loopCount) →
      Roster.Step (timerRules lib) r (.fired again (r.dropped keep) (new.map fun _ => r.next))
        (r.enter keep (new.map fun a => ⟨r.next, root, a⟩))) :
    ∃ replaced opened events r', Follows lib r batch [⟨.fired again replaced opened, events⟩] r'
      (state.fire compiled index dynamicDuration f batch) ∧ r'.due = r.due := by
  obtain ⟨events, hevents, hphase⟩ := fire_extends compiled index state dynamicDuration f batch
  have htell (keep : Instance (ActiveTimer P) → Bool) (new : Option (ActiveTimer P))
      (hnew : ∀ a ∈ new, a.Started index f.loopCount)
      (hafter : (r.enter keep (new.map fun a => ⟨r.next, root, a⟩)).live.map (·.value) =
        (state.fire compiled index dynamicDuration f batch).1.timers) :
      Tells lib r [⟨.fired again (r.dropped keep) (new.map fun _ => r.next), events⟩]
        (r.enter keep (new.map fun a => ⟨r.next, root, a⟩)) :=
    (Tells.nil r).step ⟨.fired again (r.dropped keep) (new.map fun _ => r.next), events⟩
      ⟨hphase, state, compiled, index, dynamicDuration, f, batch, hcompiled, hagain, hlive, hafter, hevents⟩ (hstep keep new hnew)
  rcases fire_launches compiled index state dynamicDuration f batch with hsame | ⟨keep, timer, htimers, hstarted⟩
  · have hafter : (r.enter (fun _ => true) none).live.map (·.value) =
        (state.fire compiled index dynamicDuration f batch).1.timers := by
      rw [hsame, ← hlive, Roster.enter, List.filter_true, Option.toList_none, List.append_nil]
    have htold := htell (fun _ => true) none (fun a ha => absurd ha (Option.not_mem_none a)) hafter
    exact ⟨_, _, _, _, ⟨htold, hafter, by rw [hevents, List.flatMap_singleton]⟩, rfl⟩
  · have hafter : (r.enter (fun i => keep i.value) ((some timer).map fun a => ⟨r.next, root, a⟩)).live.map (·.value) =
        (state.fire compiled index dynamicDuration f batch).1.timers := by
      rw [htimers, ← hlive, ← map_value_filter, Roster.enter, List.map_append]
      rfl
    refine ⟨_, _, _, _, ⟨htell (fun i => keep i.value) (some timer) (fun a ha => Option.mem_some.mp ha ▸ hstarted) hafter, hafter,
      by rw [hevents, List.flatMap_singleton]⟩, rfl⟩

theorem handleTrigger_follows (hlive : r.live.map (·.value) = state.timers) {compiled : CompiledTrigger P} {index : Nat}
    (hcompiled : lib.triggers[index]? = some compiled) (dynamicDuration : Option P.F64) (f : Firing) (hfirst : f.loopCount = 0) :
    ∃ log r', Follows lib r batch log r' (state.handleTrigger compiled index dynamicDuration f batch) ∧ r'.due = r.due ∧
      ∀ e ∈ log, matched e.note = true := by
  have hstep (keep : Instance (ActiveTimer P) → Bool) (new : Option (ActiveTimer P))
      (hnew : ∀ a ∈ new, a.Started index f.loopCount) :
      Roster.Step (timerRules lib) r (.fired none (r.dropped keep) (new.map fun _ => r.next))
        (r.enter keep (new.map fun a => ⟨r.next, r.next, a⟩)) := by
    refine .fire r keep new fun a ha => ?_
    have h := hnew a ha
    refine ⟨⟨rfl, rfl, h.warned, h.named⟩, h.loopCount.trans hfirst⟩
  unfold handleTrigger
  rw [if_pos hfirst]
  cases hlockout : state.lockout compiled index f.now with
  | none => exact ⟨[], r, ⟨.nil r, hlive, (List.append_nil _).symm⟩, rfl, nofun⟩
  | some after =>
    have hafter := lockout_timers compiled index f.now state hlockout
    obtain ⟨replaced, opened, events, r', hfire, hdue⟩ := fire_follows lib batch (hlive.trans hafter.symm) hcompiled
      dynamicDuration f _ _ (iff_of_true hfirst rfl) hstep
    exact ⟨_, r', hfire, hdue, fun e he => by rw [List.mem_singleton.mp he]; rfl⟩

theorem fireTimerStage_emits (state : CharState P) (timer : ActiveTimer P) (phase : ActionPhase) (earlyMatches : MatchMap) :
    ∃ events, (state.fireTimerStage lib timer phase earlyMatches line now batch).2.events = batch.events ++ events ∧
      StageEmits lib timer phase events := by
  obtain ⟨events, hevents, -⟩ := fireTimerStage_extends phase now batch state lib timer earlyMatches line
  exact ⟨events, hevents, state, earlyMatches, line, now, batch, hevents⟩

/-- The instance at the position, if its warning is due. -/
def warnedAt (r : TimerRoster P) (position : Nat) : Option Nat :=
  (r.live[position]?).bind fun i => if i.value.warningDue now then some i.id else none

theorem warn_follows (hlive : r.live.map (·.value) = state.timers) (position : Nat) :
    ∃ log r', Follows lib r batch log r' (warn lib now (state, batch) position) ∧ r'.due = r.due ∧
      log.map (·.note) = (warnedAt now r position).toList.map .marked ∧
      (∀ other, other ≠ position → r'.live[other]? = r.live[other]?) ∧
      r'.live.map (fun i => (i.id, i.value.finish)) = r.live.map fun i => (i.id, i.value.finish) := by
  have hquiet : Follows lib r batch [] r (state, batch) := ⟨.nil r, hlive, (List.append_nil _).symm⟩
  unfold warn
  dsimp only
  split
  · rename_i htimer
    rw [← hlive, List.getElem?_map, Option.map_eq_none_iff] at htimer
    exact ⟨[], r, hquiet, rfl, by rw [warnedAt, htimer]; rfl, fun _ _ => rfl, rfl⟩
  · rename_i timer htimer
    rw [← hlive, List.getElem?_map] at htimer
    obtain ⟨i, hi, rfl⟩ := Option.map_eq_some_iff.mp htimer
    split
    · rename_i hdue
      obtain ⟨hlt, hget⟩ := List.getElem?_eq_some_iff.mp hi
      have hsplit : r.live = r.live.take position ++ i :: r.live.drop (position + 1) := by
        rw [← hget, ← List.drop_eq_getElem_cons hlt, List.take_append_drop]
      have hwarned : i.value.warned = false := by
        have hdue := hdue
        rw [ActiveTimer.warningDue, Bool.and_eq_true] at hdue
        simpa using hdue.1
      have hset : r.live.take position ++ { i with value := (timerRules lib).mark i.value } :: r.live.drop (position + 1) =
          r.live.set position { i with value := (timerRules lib).mark i.value } := by
        rw [List.set_eq_take_append_cons_drop, if_pos hlt]
      obtain ⟨events, hevents, hemits⟩ := fireTimerStage_emits lib i.value.sourceLine now batch
        (({ state with timers := state.timers.set position { i.value with warned := true } } : CharState P).expireVariables now)
        { i.value with warned := true } .timerWarning .new
      refine ⟨[⟨.marked i.id, events⟩], _, ⟨(Tells.nil r).step ⟨.marked i.id, events⟩
        ⟨i, List.mem_of_getElem? hi, rfl, hemits⟩ (.mark r _ _ i hsplit hwarned), ?_, ?_⟩, rfl, ?_, fun other hother => ?_, ?_⟩
      · rw [fireTimerStage_timers]
        show _ = state.timers.set position _
        have hlt' : position < (r.live.map (·.value)).length := by rwa [List.length_map]
        rw [← hlive, List.set_eq_take_append_cons_drop, if_pos hlt', List.map_append, List.map_cons, List.map_take, List.map_drop]
        rfl
      · rw [hevents, List.flatMap_singleton]
      · rw [warnedAt, hi, Option.bind_some, if_pos hdue]
        rfl
      · dsimp only
        rw [hset]
        exact List.getElem?_set_ne hother.symm
      · conv_rhs => rw [hsplit]
        rw [List.map_append, List.map_append, List.map_cons, List.map_cons]
        rfl
    · rename_i hdue
      exact ⟨[], r, hquiet, rfl, by rw [warnedAt, hi, Option.bind_some, if_neg hdue]; rfl, fun _ _ => rfl, rfl⟩

theorem close_follows {i : Instance (ActiveTimer P)} {rest : List (Instance (ActiveTimer P))} (hdue : r.due = i :: rest)
    (before : CharState P) (hlive : r.live.map (·.value) = before.timers) (early : Bool) (earlyMatches : MatchMap)
    (changed : ActionBatch) (hchanged : changed.events = batch.events) {phase : ActionPhase}
    (hphase : phase = if early then .timerEndEarly else .timerEnd) {after : CharState P} :
    let stage := before.fireTimerStage lib i.value phase earlyMatches line now changed
    after.timers = stage.1.timers → ∃ events, Follows lib r batch [⟨.closed i.id early, events⟩]
      { r with due := rest, last := if early then none else some i } (after, stage.2) := by
  intro stage hafter
  obtain ⟨events, hevents, hemits⟩ := fireTimerStage_emits lib line now changed before i.value phase earlyMatches
  have hmem : i ∈ r.due := hdue ▸ List.mem_cons_self
  refine ⟨events, (Tells.nil r).step ⟨.closed i.id early, events⟩ ⟨i, hmem, rfl, hphase ▸ hemits⟩ (.close r rest i hdue early),
    ?_, ?_⟩
  · rw [hafter, fireTimerStage_timers]
    exact hlive
  · rw [hevents, hchanged, List.flatMap_singleton]

/-- The natural end of a timer, and the start of its next round. -/
theorem finishTimer_follows (hlive : r.live.map (·.value) = state.timers) {i : Instance (ActiveTimer P)}
    {rest : List (Instance (ActiveTimer P))} (hdue : r.due = i :: rest) :
    ∃ log r', Follows lib r batch log r' (finishTimer lib now (state, batch) i.value) ∧ r'.due = rest ∧
      naturalEnds log = [i.id] ∧ ∀ e ∈ log, finished e.note = true := by
  obtain ⟨events, hclose⟩ := close_follows lib i.value.sourceLine now batch hdue (state.expireVariables now) hlive false .new
    { batch with timersChanged := true } rfl rfl (clearEndVariables_timers _ _ lib)
  have hends : naturalEnds [⟨.closed i.id false, events⟩] = [i.id] := rfl
  have hfinished : ∀ e ∈ [(⟨.closed i.id false, events⟩ : Record)], finished e.note = true := fun e he => by
    rw [List.mem_singleton.mp he]
    rfl
  unfold finishTimer
  dsimp only
  cases hlib : lib.triggers[i.value.triggerIndex]? with
  | none => exact ⟨_, _, hclose, rfl, hends, hfinished⟩
  | some compiled =>
    dsimp only
    cases hbehavior : compiled.trigger.timer with
    | none => exact ⟨_, _, hclose, rfl, hends, hfinished⟩
    | some behavior =>
      dsimp only
      split
      · rename_i hloops
        have hlimit : lib.timesToLoop i.value.triggerIndex = behavior.timesToLoop := by
          rw [CompiledLibrary.timesToLoop, hlib, Option.bind_some, hbehavior]
          rfl
        obtain ⟨replaced, opened, events', r', hfire, hdue'⟩ := fire_follows lib _ hclose.live hlib none
          ⟨i.value.sourceLine, i.value.logTime, i.value.originalMatches, i.value.previousMatches, now, i.value.loopCount + 1, -1⟩
          i.root (some i.root) (iff_of_false (Nat.succ_ne_zero _) (Option.some_ne_none _)) fun keep new hnew => by
          refine .again _ keep new i rfl ?_ fun a ha => ?_
          · show i.value.loopCount < lib.timesToLoop i.value.triggerIndex
            rw [hlimit]
            exact hloops.2
          · have h := hnew a ha
            refine ⟨⟨rfl, rfl, h.warned, h.named⟩, h.loopCount, ?_⟩
            show lib.timesToLoop a.triggerIndex = _
            rw [h.triggerIndex]
            rfl
        refine ⟨_, r', hclose.trans hfire, hdue', rfl, fun e he => ?_⟩
        rcases List.mem_append.mp he with he | he
        · exact hfinished e he
        · rw [List.mem_singleton.mp he]
          rfl
      · exact ⟨_, _, hclose, rfl, hends, hfinished⟩

theorem finishEarly_follows (hlive : r.live.map (·.value) = state.timers) {i : Instance (ActiveTimer P)}
    {rest : List (Instance (ActiveTimer P))} (hdue : r.due = i :: rest) (earlyMatches : MatchMap) :
    ∃ log r', Follows lib r batch log r' (finishEarly lib line now (state, batch) (i.value, earlyMatches)) ∧ r'.due = rest ∧
      log.map (·.note) = [.closed i.id true] := by
  obtain ⟨events, hclose⟩ := close_follows lib line now batch hdue
    (({ state with
      repeatedTimer := removeRepeated state.repeatedTimer i.value.triggerIndex i.value.displayName
      counterTimes := removeRepeated state.counterTimes i.value.triggerIndex triggerCount } : CharState P).expireVariables now)
    hlive true earlyMatches { batch with timersChanged := true } rfl rfl (clearEndVariables_timers _ _ lib)
  exact ⟨_, _, hclose, rfl, rfl⟩

theorem warns_follow {positions : List Nat} (hnodup : positions.Nodup) (hlive : r.live.map (·.value) = state.timers) :
    ∃ log r', Follows lib r batch log r' (positions.foldl (warn lib now) (state, batch)) ∧ r'.due = r.due ∧
      log.map (·.note) = (positions.filterMap (warnedAt now r)).map .marked ∧
      r'.live.map (fun i => (i.id, i.value.finish)) = r.live.map fun i => (i.id, i.value.finish) := by
  induction positions generalizing r state batch with
  | nil => exact ⟨[], r, ⟨.nil r, hlive, (List.append_nil _).symm⟩, rfl, rfl, rfl⟩
  | cons position positions ih =>
    obtain ⟨hposition, hnodup⟩ := List.nodup_cons.mp hnodup
    obtain ⟨log, r', hwarn, hdue, hnotes, hothers, hsame⟩ := warn_follows lib now batch hlive position
    obtain ⟨log', r'', hrest, hdue', hnotes', hsame'⟩ := ih _ hnodup hwarn.live
    refine ⟨log ++ log', r'', hwarn.trans hrest, hdue'.trans hdue, ?_, hsame'.trans hsame⟩
    have hlater : positions.filterMap (warnedAt now r') = positions.filterMap (warnedAt now r) :=
      List.filterMap_congr fun other hother => by
        rw [warnedAt, warnedAt, hothers other fun heq => hposition (heq ▸ hother)]
    rw [List.map_append, hnotes, hnotes', hlater, List.filterMap_cons, ← List.map_append]
    cases warnedAt now r position <;> rfl

theorem finishes_follow (hlive : r.live.map (·.value) = state.timers) :
    ∃ log r', Follows lib r batch log r' ((r.due.map (·.value)).foldl (finishTimer lib now) (state, batch)) ∧ r'.due = [] ∧
      naturalEnds log = r.due.map (·.id) ∧ ∀ e ∈ log, finished e.note = true := by
  generalize hdue : r.due = due
  induction due generalizing r state batch with
  | nil => exact ⟨[], r, ⟨.nil r, hlive, (List.append_nil _).symm⟩, hdue, rfl, nofun⟩
  | cons i rest ih =>
    obtain ⟨log, r', hfinish, hdue', hends, hfinished⟩ := finishTimer_follows lib now batch hlive hdue
    obtain ⟨log', r'', hrest, hnone, hends', hfinished'⟩ := ih _ hfinish.live hdue'
    refine ⟨log ++ log', r'', hfinish.trans hrest, hnone, ?_, fun e he => ?_⟩
    · rw [naturalEnds_append, hends, hends']
      rfl
    · rcases List.mem_append.mp he with he | he
      exacts [hfinished e he, hfinished' e he]

theorem filterMap_warnedAt (r : TimerRoster P) :
    (List.range r.live.length).filterMap (warnedAt now r) = (r.live.filter fun i => i.value.warningDue now).map (·.id) := by
  obtain ⟨live, due, last, opened⟩ := r
  dsimp only
  induction live using List.reverseRecOn with
  | nil => rfl
  | append_singleton live i ih =>
    have hbefore : (List.range live.length).filterMap (warnedAt now ⟨live ++ [i], due, last, opened⟩) =
        (List.range live.length).filterMap (warnedAt now ⟨live, due, last, opened⟩) :=
      List.filterMap_congr fun position hposition => by
        rw [warnedAt, warnedAt]
        dsimp only
        rw [List.getElem?_append_left (List.mem_range.mp hposition)]
    rw [List.length_append, List.length_singleton, List.range_succ, List.filterMap_append, hbefore, ih, List.filter_append,
      List.map_append]
    have hlast : warnedAt now ⟨live ++ [i], due, last, opened⟩ live.length =
        if i.value.warningDue now then some i.id else none := by
      rw [warnedAt]
      dsimp only
      rw [List.getElem?_concat_length, Option.bind_some]
    rw [List.filterMap_cons, hlast]
    cases hdue : i.value.warningDue now <;> simp [hdue]

theorem finished_permits {note : Note} (h : finished note = true) : (EngineCall.advance now).permits note = true := by
  cases note with
  | marked => rfl
  | fired again => cases again <;> first | rfl | cases h
  | closed _ early => cases early <;> first | rfl | cases h

/-- The clock warns exactly for the timers whose warning is due and ends exactly those whose end it has reached. -/
theorem advance_follows (hlive : r.live.map (·.value) = state.timers) (hdue : r.due = []) :
    ∃ log r', Follows lib r batch log r' (state.advance lib now batch) ∧ r'.due = [] ∧
      naturalEnds log = (r.live.filter fun i => i.value.isEnded now).map (·.id) ∧
      warnings log = (r.live.filter fun i => i.value.warningDue now).map (·.id) ∧
      ∀ e ∈ log, (EngineCall.advance now).permits e.note = true := by
  obtain ⟨log, warned, hwarn, hdue', hnotes, hsame⟩ := warns_follow lib now batch
    (List.nodup_range (n := state.timers.length)) hlive
  have hmarked : ∀ e ∈ log, ∃ id, e.note = .marked id := fun e he => by
    have hmem : e.note ∈ log.map (·.note) := List.mem_map_of_mem he
    rw [hnotes] at hmem
    obtain ⟨id, -, hid⟩ := List.mem_map.mp hmem
    exact ⟨id, hid.symm⟩
  unfold advance
  generalize hresult : (List.range state.timers.length).foldl (warn lib now) (state, batch) = result at hwarn
  obtain ⟨after, changed⟩ := result
  let retired : TimerRoster P := { warned with
    live := warned.live.filter fun i => !i.value.isEnded now
    due := warned.due ++ warned.live.filter fun i => !!i.value.isEnded now }
  have hretired : retired.due = warned.live.filter fun i => i.value.isEnded now := by
    show warned.due ++ warned.live.filter (fun i => !!i.value.isEnded now) = _
    rw [hdue'.trans hdue, List.nil_append]
    simp only [Bool.not_not]
  have hended : retired.due.map (·.value) = after.timers.filter (·.isEnded now) := by
    rw [hretired, map_value_filter _ fun timer => timer.isEnded now, hwarn.live]
  have hkept : retired.live.map (·.value) = after.timers.filter fun timer => !timer.isEnded now := by
    show (warned.live.filter fun i => !i.value.isEnded now).map (·.value) = _
    rw [map_value_filter _ fun timer => !timer.isEnded now, hwarn.live]
  have hretire : Follows lib r batch log retired ({ after with timers := after.timers.filter fun timer => !timer.isEnded now },
      changed) := ⟨hwarn.tells.retire _, hkept, hwarn.events⟩
  obtain ⟨log', r', hfinish, hnone', hends, hfinished⟩ := finishes_follow lib now changed hretire.live
  rw [hended] at hfinish
  refine ⟨log ++ log', r', hretire.trans hfinish, hnone', ?_, ?_, fun e he => ?_⟩
  · have hids (l : List (Instance (ActiveTimer P))) : (l.filter fun i => i.value.isEnded now).map (·.id) =
        ((l.map fun i => (i.id, i.value.finish)).filter fun entry => decide (now ≥ entry.2)).map (·.1) := by
      rw [List.filter_map, List.map_map]
      rfl
    have hnone : naturalEnds log = [] := naturalEnds_eq_nil fun e he id => by
      obtain ⟨id', hid⟩ := hmarked e he
      rw [hid]
      nofun
    rw [naturalEnds_append, hnone, hends, hretired, hids, hsame, ← hids, List.nil_append]
  · have hnone : warnings log' = [] := warnings_eq_nil fun e he id hid => by
      have hnot := hfinished e he
      rw [hid] at hnot
      cases hnot
    rw [warnings_append, hnone, List.append_nil, warnings_eq, hnotes, List.filterMap_map, ← hlive, List.length_map,
      filterMap_warnedAt]
    exact List.filterMap_some
  · rcases List.mem_append.mp he with he | he
    · obtain ⟨id, hid⟩ := hmarked e he
      rw [hid]
      rfl
    · exact finished_permits now (hfinished e he)

theorem finishesEarly_follow (hlive : r.live.map (·.value) = state.timers) (captures : ActiveTimer P → Option MatchMap)
    (hended : ∀ i ∈ r.due, (captures i.value).isNone = false) :
    ∃ log r', Follows lib r batch log r' (((r.due.map (·.value)).filterMap fun timer =>
      (captures timer).map fun found => (timer, found)).foldl (finishEarly lib line now) (state, batch)) ∧ r'.due = [] ∧
      log.map (·.note) = r.due.map fun i => .closed i.id true := by
  generalize hdue : r.due = due at hended
  induction due generalizing r state batch with
  | nil => exact ⟨[], r, ⟨.nil r, hlive, (List.append_nil _).symm⟩, hdue, rfl⟩
  | cons i rest ih =>
    have hcaptures := hended i List.mem_cons_self
    cases hfound : captures i.value with
    | none =>
      rw [hfound] at hcaptures
      cases hcaptures
    | some found =>
      obtain ⟨log, r', hfinish, hdue', hends⟩ := finishEarly_follows lib line now batch hlive hdue found
      obtain ⟨log', r'', hrest, hnone, hends'⟩ := ih _ hfinish.live hdue' fun j hj => hended j (List.mem_cons_of_mem _ hj)
      have hfirst : (captures i.value).map (fun found => (i.value, found)) = some (i.value, found) := by rw [hfound]; rfl
      have hcons : ((i.value :: rest.map (·.value)).filterMap fun timer => (captures timer).map fun found => (timer, found)) =
          (i.value, found) :: (rest.map (·.value)).filterMap fun timer => (captures timer).map fun found => (timer, found) :=
        List.filterMap_cons_some hfirst
      rw [List.map_cons, hcons, List.foldl_cons]
      refine ⟨log ++ log', r'', hfinish.trans hrest, hnone, ?_⟩
      rw [List.map_append, hends, hends']
      rfl

theorem checkTimerEnders_follows (hlive : r.live.map (·.value) = state.timers) (hdue : r.due = []) :
    ∃ log r', Follows lib r batch log r' (state.checkTimerEnders lib line now batch) ∧ r'.due = [] ∧
      log.map (·.note) = (r.live.filter fun i => (state.endedBy lib line i.value).isSome).map fun i => .closed i.id true := by
  let retired : TimerRoster P := { r with
    live := r.live.filter fun i => (state.endedBy lib line i.value).isNone
    due := r.due ++ r.live.filter fun i => !(state.endedBy lib line i.value).isNone }
  have hretired : retired.due = r.live.filter fun i => !(state.endedBy lib line i.value).isNone := by
    show r.due ++ _ = _
    rw [hdue, List.nil_append]
  let kept : CharState P := { state with timers := state.timers.filter fun timer => (state.endedBy lib line timer).isNone }
  have hkept : retired.live.map (·.value) = kept.timers := by
    show (r.live.filter fun i => (state.endedBy lib line i.value).isNone).map (·.value) = _
    rw [map_value_filter _ fun timer => (state.endedBy lib line timer).isNone, hlive]
  have hended : (retired.due.map (·.value)).filterMap (fun timer =>
      (state.endedBy lib line timer).map fun captures => (timer, captures)) =
      state.timers.filterMap fun timer => (state.endedBy lib line timer).map fun captures => (timer, captures) := by
    rw [hretired, map_value_filter _ fun timer => !(state.endedBy lib line timer).isNone, hlive]
    induction state.timers with
    | nil => rfl
    | cons timer timers ih =>
      cases hfound : state.endedBy lib line timer with
      | none =>
        rw [List.filter_cons_of_neg (by rw [hfound]; exact Bool.false_ne_true),
          List.filterMap_cons_none (by rw [hfound]; rfl)]
        exact ih
      | some captures =>
        rw [List.filter_cons_of_pos (by rw [hfound]; rfl),
          List.filterMap_cons_some (b := (timer, captures)) (by rw [hfound]; rfl),
          List.filterMap_cons_some (b := (timer, captures)) (by rw [hfound]; rfl), ih]
  obtain ⟨log, r', hfinish, hnone, hends⟩ := finishesEarly_follow lib line now batch (r := retired) hkept
    (state.endedBy lib line) fun i hi => by
      rw [hretired] at hi
      simpa using List.of_mem_filter hi
  rw [hended] at hfinish
  refine ⟨log, r', ⟨((Tells.nil r).retire _).trans hfinish.tells, hfinish.live, hfinish.events⟩, hnone, ?_⟩
  have hsome : (fun i : Instance (ActiveTimer P) => !(state.endedBy lib line i.value).isNone) =
      fun i => (state.endedBy lib line i.value).isSome := funext fun i => Option.not_isNone _
  rw [hends, hretired, hsome]

end CharState

theorem Pass.trigger_follows {lib : CompiledLibrary P} {pass : Pass P} {r : TimerRoster P}
    (hlive : r.live.map (·.value) = pass.state.timers) (line : Str) (logTime : Option Str) (now : EngineMillis) (index : Nat) :
    ∃ log r', Follows lib r pass.batch log r' ((Pass.trigger lib line logTime now pass index).state,
      (Pass.trigger lib line logTime now pass index).batch) ∧ r'.due = r.due ∧ ∀ e ∈ log, matched e.note = true := by
  have hquiet {after : CharState P} (hafter : after.timers = pass.state.timers) :
      ∃ log r', Follows lib r pass.batch log r' (after, pass.batch) ∧ r'.due = r.due ∧ ∀ e ∈ log, matched e.note = true :=
    ⟨[], r, ⟨.nil r, hlive.trans hafter.symm, (List.append_nil _).symm⟩, rfl, nofun⟩
  unfold Pass.trigger
  cases hlib : lib.triggers[index]? with
  | none => exact hquiet rfl
  | some compiled =>
    dsimp only
    split
    · exact hquiet rfl
    · have hcheck : (pass.state.checkLine compiled index line false).1.timers = pass.state.timers :=
        CharState.checkLine_timers false
      generalize pass.state.checkLine compiled index line false = result at hcheck ⊢
      obtain ⟨s, lineMatch⟩ := result
      cases lineMatch with
      | none => exact hquiet hcheck
      | some lineMatch =>
        have hprevious : (s.checkPrevious compiled index).1.timers = s.timers := CharState.checkPrevious_timers
        dsimp only
        generalize s.checkPrevious compiled index = result at hprevious ⊢
        obtain ⟨s', previousMatches⟩ := result
        have hafter : s'.timers = pass.state.timers := hprevious.trans hcheck
        cases previousMatches with
        | none => exact hquiet hafter
        | some previousMatches =>
          have hexpire : (if pass.expired then s' else s'.expireVariables now).timers = pass.state.timers := by
            split <;> exact hafter
          dsimp only
          generalize (if pass.expired then s' else s'.expireVariables now) = s'' at hexpire ⊢
          split
          · exact CharState.handleTrigger_follows lib pass.batch (hlive.trans hexpire.symm) hlib _
              ⟨line, logTime, lineMatch.captures, previousMatches, now, 0, -1⟩ rfl
          · exact hquiet hexpire

theorem Pass.triggers_follow {lib : CompiledLibrary P} (line : Str) (logTime : Option Str) (now : EngineMillis)
    (indices : List Nat) (pass : Pass P) {r : TimerRoster P} (hlive : r.live.map (·.value) = pass.state.timers) :
    ∃ log r', Follows lib r pass.batch log r' ((indices.foldl (Pass.trigger lib line logTime now) pass).state,
      (indices.foldl (Pass.trigger lib line logTime now) pass).batch) ∧ r'.due = r.due ∧ ∀ e ∈ log, matched e.note = true := by
  induction indices generalizing pass r with
  | nil => exact ⟨[], r, ⟨.nil r, hlive, (List.append_nil _).symm⟩, rfl, nofun⟩
  | cons index indices ih =>
    obtain ⟨log, r', htrigger, hdue, hmatched⟩ := Pass.trigger_follows hlive line logTime now index
    obtain ⟨log', r'', hrest, hdue', hmatched'⟩ := ih _ htrigger.live
    refine ⟨log ++ log', r'', htrigger.trans hrest, hdue'.trans hdue, fun e he => ?_⟩
    rcases List.mem_append.mp he with he | he
    exacts [hmatched e he, hmatched' e he]

/-- A line goes through the triggers and then ends exactly the timers, the new ones included, that one of their enders matches. -/
def EndsEarly (lib : CompiledLibrary P) (r : TimerRoster P) (state : CharState P) (line : Str) (logTime : Option Str)
    (now : EngineMillis) (log : List Record) : Prop :=
  let passed := (state.active.foldl (Pass.trigger lib line logTime now) ⟨state, .empty, false⟩).state
  ∃ matches' between, Tells lib r matches' between ∧ (∀ e ∈ matches', matched e.note = true) ∧
    between.live.map (·.value) = passed.timers ∧ log.map (·.note) = matches'.map (·.note) ++
      (between.live.filter fun i => (passed.endedBy lib line i.value).isSome).map fun i => .closed i.id true

theorem CharState.processLine_follows (lib : CompiledLibrary P) {state : CharState P} {r : TimerRoster P}
    (hlive : r.live.map (·.value) = state.timers) (hdue : r.due = []) (line : Str) (logTime : Option Str) (now : EngineMillis) :
    ∃ log r', Follows lib r .empty log r' (state.processLine lib line logTime now) ∧ r'.due = [] ∧
      EndsEarly lib r state line logTime now log := by
  obtain ⟨log, r', htriggers, hdue', hmatched⟩ := Pass.triggers_follow line logTime now state.active
    ⟨state, .empty, false⟩ hlive
  obtain ⟨log', r'', henders, hdue'', hends⟩ := CharState.checkTimerEnders_follows lib line now _
    htriggers.live (hdue'.trans hdue)
  refine ⟨log ++ log', r'', htriggers.trans ⟨henders.tells, henders.live, henders.events⟩, hdue'', log, r', htriggers.tells,
    hmatched, htriggers.live, ?_⟩
  rw [List.map_append, hends]

theorem EndsEarly.permits {lib : CompiledLibrary P} {r : TimerRoster P} {state : CharState P} {line : Str} {logTime : Option Str}
    {now : EngineMillis} {log : List Record} (h : EndsEarly lib r state line logTime now log) (context : CharacterContext) :
    ∀ e ∈ log, (EngineCall.processLine context line logTime now).permits e.note = true := by
  obtain ⟨matches', between, -, hmatched, -, hnotes⟩ := h
  intro e he
  have hmem : e.note ∈ log.map (·.note) := List.mem_map_of_mem he
  rw [hnotes] at hmem
  rcases List.mem_append.mp hmem with hmem | hmem
  · obtain ⟨e', he', hnote⟩ := List.mem_map.mp hmem
    have hmatch := hmatched e' he'
    rw [hnote] at hmatch
    cases hcase : e.note with
    | fired again =>
      rw [hcase] at hmatch
      exact hmatch
    | marked | closed =>
      rw [hcase] at hmatch
      cases hmatch
  · obtain ⟨i, -, hnote⟩ := List.mem_map.mp hmem
    rw [← hnote]
    rfl

/-! ### The engine -/

/-- The rosters of all characters, and every step of theirs. -/
structure Ledger (P : Platform) where
  rosters : Str → TimerRoster P
  records : List (Str × Record)

/-- The records of one character. -/
def recordsOf (key : Str) (records : List (Str × Record)) : List Record :=
  (records.filter fun entry => entry.1 = key).map (·.2)

theorem recordsOf_append (key : Str) (records records' : List (Str × Record)) :
    recordsOf key (records ++ records') = recordsOf key records ++ recordsOf key records' := by
  rw [recordsOf, List.filter_append, List.map_append]
  rfl

theorem recordsOf_self (key : Str) (log : List Record) : recordsOf key (log.map fun e => (key, e)) = log := by
  rw [recordsOf, List.filter_map, List.map_map]
  have hall : (log.filter ((fun entry : Str × Record => decide (entry.1 = key)) ∘ fun e => (key, e))) = log :=
    List.filter_eq_self.mpr fun e _ => decide_eq_true rfl
  rw [hall]
  exact List.map_id' log

theorem recordsOf_other {key key' : Str} (h : key' ≠ key) (log : List Record) :
    recordsOf key (log.map fun e => (key', e)) = [] := by
  rw [recordsOf, List.filter_map, List.map_map, List.map_eq_nil_iff, List.filter_eq_nil_iff]
  exact fun e _ => by simpa using h

theorem flatMap_events (key : Str) (log : List Record) :
    (log.map fun e => (key, e)).flatMap (·.2.events) = log.flatMap (·.events) := by
  rw [List.flatMap_map]

namespace Ledger

def new : Ledger P := ⟨fun _ => .empty, []⟩

/-- The live instances are the timers that run. -/
def Reads (L : Ledger P) (engine : TriggerEngine P) : Prop :=
  ∀ key, (L.rosters key).live.map (·.value) = (engine.characters[key]?).elim [] (·.timers) ∧ (L.rosters key).due = []

/-- What one call adds: steps of the rosters, all the actions it emits, at an advance of the clock the warnings of exactly the
timers whose warning is due and the ends of exactly those whose end time it has reached, and at a line the ends of exactly those
that it matches. -/
structure Step (lib : CompiledLibrary P) (L : Ledger P) (r : EngineRun P) (c : EngineCall) (added : List (Str × Record))
    (L' : Ledger P) : Prop where
  records : L'.records = L.records ++ added
  tells : ∀ key, Tells lib (L.rosters key) (recordsOf key added) (L'.rosters key)
  reads : L'.Reads (r.call c).1
  events : (r.call c).2.flatMap (·.events) = r.2.flatMap (·.events) ++ added.flatMap (·.2.events)
  permits : ∀ entry ∈ added, c.permits entry.2.note = true
  ends : ∀ key, naturalEnds (recordsOf key added) = match c with
    | .advance now => ((L.rosters key).live.filter fun i => i.value.isEnded now).map (·.id)
    | _ => []
  warns : ∀ key, warnings (recordsOf key added) = match c with
    | .advance now => ((L.rosters key).live.filter fun i => i.value.warningDue now).map (·.id)
    | _ => []
  line : ∀ context line logTime now, c = .processLine context line logTime now → (∀ entry ∈ added, entry.1 = context.key) ∧
    if line.isEmpty then added = []
    else EndsEarly lib (L.rosters context.key) (r.1.stateFor context) line logTime now (recordsOf context.key added)

/-- The ledger of a run of calls. -/
inductive Records (lib : CompiledLibrary P) : List EngineCall → EngineRun P → Ledger P → Prop
  | nil : Records lib [] (TriggerEngine.new lib, []) new
  | call {calls : List EngineCall} {r : EngineRun P} {L L' : Ledger P} {added : List (Str × Record)} (h : Records lib calls r L)
    (c : EngineCall) (step : Step lib L r c added L') : Records lib (calls ++ [c]) (r.call c) L'

end Ledger

namespace TriggerEngine
variable {lib : CompiledLibrary P} {L : Ledger P} {r : EngineRun P}

theorem quiet_step (hreads : L.Reads r.1) {c : EngineCall} (hc : ∀ now, c ≠ .advance now)
    (hline : ∀ context line logTime now, c = .processLine context line logTime now → line.isEmpty = true)
    (htimers : ∀ key : Str, ((r.call c).1.characters[key]?).elim [] (·.timers) = (r.1.characters[key]?).elim [] (·.timers))
    (hevents : (r.call c).2.flatMap (·.events) = r.2.flatMap (·.events)) : L.Step lib r c [] L where
  records := (List.append_nil _).symm
  tells key := .nil _
  reads key := ⟨(hreads key).1.trans (htimers key).symm, (hreads key).2⟩
  events := hevents.trans (List.append_nil _).symm
  permits := nofun
  ends key := by
    cases c with
    | advance now => exact absurd rfl (hc now)
    | _ => rfl
  warns key := by
    cases c with
    | advance now => exact absurd rfl (hc now)
    | _ => rfl
  line context line logTime now heq := ⟨nofun, by rw [if_pos (hline context line logTime now heq)]⟩

theorem processLine_step (hcompiled : r.1.compiled = lib) (hreads : L.Reads r.1) (context : CharacterContext) (line : Str)
    (logTime : Option Str) (now : EngineMillis) :
    ∃ added L', L.Step lib r (.processLine context line logTime now) added L' := by
  by_cases hline : line.isEmpty = true
  · have hsame : r.1.processLine context line logTime now = (r.1, .empty) := by rw [processLine, if_pos hline]
    refine ⟨[], L, quiet_step hreads (fun _ => nofun) (fun _ _ _ _ heq => by cases heq; exact hline) (fun key => ?_) ?_⟩
    · dsimp only [EngineRun.call, EngineRun.callWith]
      rw [hsame]
    · dsimp only [EngineRun.call, EngineRun.callWith]
      rw [hsame, List.flatMap_append, List.flatMap_singleton]
      exact List.append_nil _
  · have hstate : (L.rosters context.key).live.map (·.value) = (r.1.stateFor context).timers := by
      rw [(hreads context.key).1, stateFor]
      cases r.1.characters[context.key]? <;> rfl
    obtain ⟨log, after, hfollows, hdue, hends⟩ := CharState.processLine_follows lib hstate (hreads context.key).2 line
      logTime now
    have hcall : r.1.processLine context line logTime now =
        (⟨r.1.compiled, r.1.characters.insert context.key ((r.1.stateFor context).processLine lib line logTime now).1⟩,
          ((r.1.stateFor context).processLine lib line logTime now).2) := by
      rw [processLine, if_neg hline, hcompiled]
    refine ⟨log.map fun e => (context.key, e), ⟨Function.update L.rosters context.key after,
      L.records ++ log.map fun e => (context.key, e)⟩, rfl, fun key => ?_, fun key => ?_, ?_, fun entry hentry => ?_, fun key => ?_,
      fun key => ?_, fun context' line' logTime' now' heq => ?_⟩
    · by_cases hkey : context.key = key
      · subst hkey
        rw [recordsOf_self]
        show Tells lib _ log (Function.update L.rosters context.key after context.key)
        rw [Function.update_self]
        exact hfollows.tells
      · rw [recordsOf_other hkey]
        show Tells lib _ [] (Function.update L.rosters context.key after key)
        rw [Function.update_of_ne (Ne.symm hkey)]
        exact .nil _
    · dsimp only [EngineRun.call, EngineRun.callWith]
      rw [hcall]
      show (Function.update L.rosters context.key after key).live.map (·.value) =
        ((r.1.characters.insert context.key _)[key]?).elim [] (·.timers) ∧ (Function.update L.rosters context.key after key).due = []
      by_cases hkey : context.key = key
      · subst hkey
        rw [Function.update_self, ExtTreeMap.getElem?_insert_self]
        exact ⟨hfollows.live, hdue⟩
      · rw [Function.update_of_ne (Ne.symm hkey), ExtTreeMap.getElem?_insert_of_ne hkey]
        exact hreads key
    · dsimp only [EngineRun.call, EngineRun.callWith]
      rw [hcall, List.flatMap_append, List.flatMap_singleton, flatMap_events, hfollows.events]
      rfl
    · obtain ⟨e, he, rfl⟩ := List.mem_map.mp hentry
      exact hends.permits context e he
    · by_cases hkey : context.key = key
      · rw [← hkey, recordsOf_self]
        refine naturalEnds_eq_nil fun e he id hnote => ?_
        have hpermits := hends.permits context e he
        rw [hnote] at hpermits
        cases hpermits
      · rw [recordsOf_other hkey]
        rfl
    · by_cases hkey : context.key = key
      · rw [← hkey, recordsOf_self]
        refine warnings_eq_nil fun e he id hnote => ?_
        have hpermits := hends.permits context e he
        rw [hnote] at hpermits
        cases hpermits
      · rw [recordsOf_other hkey]
        rfl
    · cases heq
      rw [if_neg hline, recordsOf_self]
      refine ⟨fun entry hentry => ?_, hends⟩
      obtain ⟨e, -, rfl⟩ := List.mem_map.mp hentry
      rfl

theorem advance_fold (lib : CompiledLibrary P) (now : EngineMillis) (rosters : Str → TimerRoster P)
    (entries : List (Str × CharState P)) (hnodup : (entries.map (·.1)).Nodup)
    (hrosters : ∀ e ∈ entries, (rosters e.1).live.map (·.value) = e.2.timers ∧ (rosters e.1).due = [])
    (characters : ExtTreeMap Str (CharState P)) (batch : ActionBatch) :
    ∃ (added : List (Str × Record)) (rosters' : Str → TimerRoster P) (result : ExtTreeMap Str (CharState P) × ActionBatch),
      entries.foldl (fun s entry => (s.1.insert entry.1 (entry.2.advance lib now s.2).1, (entry.2.advance lib now s.2).2))
        (characters, batch) = result ∧
      result.2.events = batch.events ++ added.flatMap (·.2.events) ∧
      (∀ entry ∈ added, (EngineCall.advance now).permits entry.2.note = true) ∧
      (∀ key ∉ entries.map (·.1), rosters' key = rosters key ∧ recordsOf key added = [] ∧ result.1[key]? = characters[key]?) ∧
      ∀ e ∈ entries, Tells lib (rosters e.1) (recordsOf e.1 added) (rosters' e.1) ∧
        (rosters' e.1).live.map (·.value) = (result.1[e.1]?).elim [] (fun state : CharState P => state.timers) ∧ (rosters' e.1).due = [] ∧
        naturalEnds (recordsOf e.1 added) = ((rosters e.1).live.filter fun i => i.value.isEnded now).map (·.id) ∧
        warnings (recordsOf e.1 added) = ((rosters e.1).live.filter fun i => i.value.warningDue now).map (·.id) := by
  induction entries generalizing characters batch with
  | nil => exact ⟨[], rosters, _, rfl, (List.append_nil _).symm, nofun, fun key _ => ⟨rfl, rfl, rfl⟩, nofun⟩
  | cons e entries ih =>
    rw [List.map_cons, List.nodup_cons] at hnodup
    obtain ⟨hlive, hdue⟩ := hrosters e List.mem_cons_self
    obtain ⟨log, after, hfollows, hnone, hends, hwarns, hpermits⟩ := CharState.advance_follows lib now batch hlive hdue
    obtain ⟨added, rosters', result, hresult, hevents, hpermits', hothers, hentries⟩ := ih hnodup.2
      (fun e' he' => hrosters e' (List.mem_cons_of_mem _ he')) (characters.insert e.1 (e.2.advance lib now batch).1)
      (e.2.advance lib now batch).2
    obtain ⟨-, hquiet, hstate⟩ := hothers e.1 hnodup.1
    have hself : recordsOf e.1 ((log.map fun entry => (e.1, entry)) ++ added) = log := by
      rw [recordsOf_append, recordsOf_self, hquiet, List.append_nil]
    have hne {key : Str} (hkey : key ≠ e.1) : recordsOf key ((log.map fun entry => (e.1, entry)) ++ added) = recordsOf key added := by
      rw [recordsOf_append, recordsOf_other hkey.symm, List.nil_append]
    refine ⟨(log.map fun entry => (e.1, entry)) ++ added, Function.update rosters' e.1 after, result, hresult, ?_,
      fun entry hentry => ?_, fun key hkey => ?_, fun e' he' => ?_⟩
    · rw [hevents, hfollows.events, List.flatMap_append, flatMap_events, List.append_assoc]
    · rcases List.mem_append.mp hentry with hentry | hentry
      · obtain ⟨r, hr, rfl⟩ := List.mem_map.mp hentry
        exact hpermits r hr
      · exact hpermits' entry hentry
    · rw [List.map_cons, List.mem_cons, not_or] at hkey
      obtain ⟨hsame, hempty, hcharacters⟩ := hothers key hkey.2
      rw [Function.update_of_ne hkey.1, hne hkey.1, hcharacters, ExtTreeMap.getElem?_insert_of_ne (Ne.symm hkey.1)]
      exact ⟨hsame, hempty, rfl⟩
    · rcases List.mem_cons.mp he' with rfl | he'
      · rw [hself, Function.update_self, hstate, ExtTreeMap.getElem?_insert_self]
        exact ⟨hfollows.tells, hfollows.live, hnone, hends, hwarns⟩
      · have hkey : e'.1 ≠ e.1 := fun heq => hnodup.1 (heq ▸ List.mem_map_of_mem he')
        rw [hne hkey, Function.update_of_ne hkey]
        exact hentries e' he'

theorem advance_step (hcompiled : r.1.compiled = lib) (hreads : L.Reads r.1) (now : EngineMillis) :
    ∃ added L', L.Step lib r (.advance now) added L' := by
  have hlookup (e : Str × CharState P) (he : e ∈ r.1.characters.toList) :
      (L.rosters e.1).live.map (·.value) = e.2.timers ∧ (L.rosters e.1).due = [] := by
    obtain ⟨hlive, hdue⟩ := hreads e.1
    rw [ExtTreeMap.lookup_of_mem_toList he] at hlive
    exact ⟨hlive, hdue⟩
  obtain ⟨added, rosters', result, hresult, hevents, hpermits, hothers, hentries⟩ := advance_fold lib now L.rosters r.1.characters.toList
    ExtTreeMap.nodup_keys_toList hlookup r.1.characters .empty
  have hcall : r.1.advance now = ({ r.1 with characters := result.1 }, result.2) := by
    rw [← hresult, ← hcompiled]
    rfl
  have hnone {key : Str} (hkey : key ∉ r.1.characters.toList.map (·.1)) : r.1.characters[key]? = none := by
    by_contra hsome
    obtain ⟨state, hstate⟩ := Option.ne_none_iff_exists'.mp hsome
    exact hkey (List.mem_map.mpr ⟨_, ExtTreeMap.mem_toList_of_lookup hstate, rfl⟩)
  refine ⟨added, ⟨rosters', L.records ++ added⟩, rfl, fun key => ?_, fun key => ?_, ?_, hpermits, fun key => ?_, fun key => ?_,
    nofun⟩
  · by_cases hkey : key ∈ r.1.characters.toList.map (·.1)
    · obtain ⟨e, he, rfl⟩ := List.mem_map.mp hkey
      exact (hentries e he).1
    · obtain ⟨hsame, hempty, -⟩ := hothers key hkey
      show Tells lib _ _ (rosters' key)
      rw [hempty, hsame]
      exact .nil _
  · dsimp only [EngineRun.call, EngineRun.callWith]
    rw [hcall]
    by_cases hkey : key ∈ r.1.characters.toList.map (·.1)
    · obtain ⟨e, he, rfl⟩ := List.mem_map.mp hkey
      obtain ⟨-, hlive, hdue, -⟩ := hentries e he
      exact ⟨hlive, hdue⟩
    · obtain ⟨hsame, -, hcharacters⟩ := hothers key hkey
      show (rosters' key).live.map (·.value) = (result.1[key]?).elim [] (·.timers) ∧ (rosters' key).due = []
      rw [hsame, hcharacters]
      exact hreads key
  · dsimp only [EngineRun.call, EngineRun.callWith]
    rw [hcall, List.flatMap_append, List.flatMap_singleton, hevents]
    rfl
  · by_cases hkey : key ∈ r.1.characters.toList.map (·.1)
    · obtain ⟨e, he, rfl⟩ := List.mem_map.mp hkey
      exact (hentries e he).2.2.2.1
    · obtain ⟨-, hempty, -⟩ := hothers key hkey
      have hlive := (hreads key).1
      rw [hnone hkey, Option.elim_none, List.map_eq_nil_iff] at hlive
      rw [hempty, hlive]
      rfl
  · by_cases hkey : key ∈ r.1.characters.toList.map (·.1)
    · obtain ⟨e, he, rfl⟩ := List.mem_map.mp hkey
      exact (hentries e he).2.2.2.2
    · obtain ⟨-, hempty, -⟩ := hothers key hkey
      have hlive := (hreads key).1
      rw [hnone hkey, Option.elim_none, List.map_eq_nil_iff] at hlive
      rw [hempty, hlive]
      rfl

end TriggerEngine

theorem EngineRun.call_step {lib : CompiledLibrary P} {L : Ledger P} {r : EngineRun P} (hcompiled : r.1.compiled = lib)
    (hreads : L.Reads r.1) (c : EngineCall) : ∃ added L', L.Step lib r c added L' ∧ (r.call c).1.compiled = lib := by
  cases c with
  | processLine context line logTime now =>
    obtain ⟨added, L', hstep⟩ := TriggerEngine.processLine_step hcompiled hreads context line logTime now
    refine ⟨added, L', hstep, ?_⟩
    rw [← hcompiled]
    dsimp only [EngineRun.call, EngineRun.callWith, TriggerEngine.processLine]
    split <;> rfl
  | advance now =>
    obtain ⟨added, L', hstep⟩ := TriggerEngine.advance_step hcompiled hreads now
    exact ⟨added, L', hstep, hcompiled⟩
  | clearVariables key =>
    refine ⟨[], L, TriggerEngine.quiet_step hreads (fun _ => nofun) nofun (fun key' => ?_) rfl, hcompiled⟩
    show ((r.1.characters.modify key _)[key']?).elim [] (·.timers) = _
    rw [ExtTreeMap.getElem?_modify_ite]
    split
    · cases r.1.characters[key']? <;> rfl
    · rfl
  | removeCharacter key =>
    -- the timers of a removed character are forgotten
    let forgotten : TimerRoster P := ⟨[], [], none, (L.rosters key).opened⟩
    refine ⟨[], ⟨Function.update L.rosters key forgotten, L.records⟩, ⟨(List.append_nil _).symm, fun key' => ?_, fun key' => ?_,
      (List.append_nil _).symm, nofun, fun _ => rfl, fun _ => rfl, nofun⟩, hcompiled⟩
    · show Tells lib _ [] (Function.update L.rosters key forgotten key')
      by_cases hkey : key' = key
      · subst hkey
        rw [Function.update_self]
        exact (Tells.nil _).forget
      · rw [Function.update_of_ne hkey]
        exact .nil _
    · show (Function.update L.rosters key forgotten key').live.map (·.value) =
        ((r.1.characters.erase key)[key']?).elim [] (·.timers) ∧ (Function.update L.rosters key forgotten key').due = []
      rw [ExtTreeMap.getElem?_erase_ite]
      by_cases hkey : key' = key
      · subst hkey
        rw [Function.update_self, if_pos rfl]
        exact ⟨rfl, rfl⟩
      · rw [Function.update_of_ne hkey, if_neg (Ne.symm hkey)]
        exact hreads key'

namespace Ledger
variable {lib : CompiledLibrary P} {L : Ledger P} {calls : List EngineCall} {r : EngineRun P}

theorem Records.tells (h : Records lib calls r L) (key : Str) : Tells lib .empty (recordsOf key L.records) (L.rosters key) := by
  induction h with
  | nil => exact .nil _
  | call _ c hstep ih =>
    rw [hstep.records, recordsOf_append]
    exact ih.trans (hstep.tells key)

/-- Each timer is started, warns at most once and ends at most once, and emits nothing after that. -/
theorem Records.lifecycle (h : Records lib calls r L) (key : Str) (id : Nat) :
    Lifecycle (life id ((recordsOf key L.records).map (·.note))) :=
  ((Roster.Lifespans.empty (R := timerRules lib)).steps (h.tells key).steps).lifecycle id

/-- The rounds that a match of a trigger leads to are no more than the trigger says. -/
theorem Records.rounds (h : Records lib calls r L) (key : Str) : ∀ i ∈ (L.rosters key).opened,
    continued i.root ((recordsOf key L.records).map (·.note)) ≤ lib.timesToLoop i.value.triggerIndex :=
  ((Roster.Lineages.empty (R := timerRules lib)).steps (h.tells key).steps).limit

end Ledger

theorem EngineRun.run_records (library : TriggerLibrary P) (calls : List EngineCall) :
    ∃ L : Ledger P, let r := calls.foldl EngineRun.call (TriggerEngine.new (.compile library), [])
      L.Records (.compile library) calls r ∧ L.Reads r.1 ∧ r.1.compiled = .compile library ∧
        r.2.flatMap (·.events) = L.records.flatMap (·.2.events) := by
  induction calls using List.reverseRecOn with
  | nil =>
    refine ⟨.new, .nil, fun key => ⟨?_, rfl⟩, rfl, rfl⟩
    show [] = ((∅ : ExtTreeMap Str (CharState P))[key]?).elim [] (fun state : CharState P => state.timers)
    rw [ExtTreeMap.getElem?_empty]
    rfl
  | append_singleton calls c ih =>
    obtain ⟨L, hrecords, hreads, hcompiled, hevents⟩ := ih
    obtain ⟨added, L', hstep, hcompiled'⟩ := EngineRun.call_step hcompiled hreads c
    rw [List.foldl_append, List.foldl_cons, List.foldl_nil]
    refine ⟨L', hrecords.call c hstep, hstep.reads, hcompiled', ?_⟩
    rw [hstep.events, hevents, hstep.records, List.flatMap_append]

/-- Over every order of lines and advances of the clock (and of removals and clears) there is a ledger of the timers of each
character: it accounts for every emitted action, each timer in it warns at most once and ends at most once, by itself exactly
at the first advance that reaches its end, with nothing after its end or replacement, and each match leads to no more
rounds than its trigger says. -/
theorem EngineRun.timer_lifecycle (library : TriggerLibrary P) (calls : List EngineCall) :
    ∃ L : Ledger P, L.Records (.compile library) calls (calls.foldl EngineRun.call (TriggerEngine.new (.compile library), [])) ∧
      (calls.foldl EngineRun.call (TriggerEngine.new (.compile library), [])).2.flatMap (·.events) =
        L.records.flatMap (·.2.events) ∧
      ∀ key, (∀ id, Lifecycle (life id ((recordsOf key L.records).map (·.note)))) ∧
        ∀ i ∈ (L.rosters key).opened, continued i.root ((recordsOf key L.records).map (·.note)) ≤
          (CompiledLibrary.compile library).timesToLoop i.value.triggerIndex := by
  obtain ⟨L, hrecords, -, -, hevents⟩ := run_records library calls
  exact ⟨L, hrecords, hevents, fun key => ⟨hrecords.lifecycle key, hrecords.rounds key⟩⟩

end Stonemite.Triggers
