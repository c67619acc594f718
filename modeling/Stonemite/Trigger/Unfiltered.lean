import Stonemite.Trigger.Prefiltered
import Stonemite.Trigger.Frame
import Stonemite.Lib.Run

/-!
# Evaluation without prefilters

A line fires the same triggers with prefilters as without, as long as what the prefilters look for is in every line the
patterns match. Without a prefilter a regex may run over its budget on a line it does not match; that disables the
trigger for later lines, so the two are compared line by line. `CharState.Ahead` and `Pass.Ahead` relate the engine to
the one without prefilters inside of a line; `prefilter_sound` is the result.
-/

namespace Stonemite.Triggers

open Regex (Tree)

variable {P : Platform}

/-! ### Matching -/

namespace Matcher

/-- The same matcher without its prefilter. -/
def unfiltered : Matcher P → Matcher P
  | .regex compat constraints _ expandedPattern needsCharacter =>
    .regex compat constraints .none expandedPattern needsCharacter
  | matcher => matcher

/-- The prefilter admits the line wherever the regex matches in it. -/
def Admits (line : Str) : Matcher P → Prop
  | .regex compat _ prefilter _ _ => ∀ start captures,
    P.capturesFromPos compat.regex line start = .ok (some captures) → prefilter.admits line = true
  | .literal _ _ => True

/-- What the prefilter looks for is in every line the pattern matches, if it looks for anything. -/
def Required (parse : P.Regex → Tree) (same : Char → Char → Prop) (line : Str) : Matcher P → Prop
  | .regex compat _ _ expandedPattern needsCharacter =>
    needsCharacter = true ∨ NoPrefix expandedPattern ∨ PrefixRequired same (parse compat.regex) line
  | .literal _ _ => True

end Matcher

theorem build_of_compile {pattern : Str} {regex : CompatRegex P} (h : CompatRegex.compile P pattern = .ok regex) :
    P.build ("(?i)".toList ++ translate pattern) backtrackLimit = .ok regex.regex := by
  unfold CompatRegex.compile at h
  split at h
  · cases h
  · split at h
    · cases h
    · split at h
      · cases h
      · rename_i hbuild
        cases h
        exact hbuild

/-- The compiled regexes: without prefilter for a pattern with `{c}`, else with that of the expanded pattern. -/
theorem compileMatcher_regex {pattern : Pattern} {regex : CompatRegex P} {constraints : List NumberConstraint}
    {prefilter : Prefilter} {expandedPattern : Str} {needsCharacter : Bool}
    (h : compileMatcher P pattern = .ok (.regex regex constraints prefilter expandedPattern needsCharacter)) :
    needsCharacter = true ∧ prefilter = .none ∨
      needsCharacter = false ∧ prefilter = .forPattern expandedPattern ∧
        CompatRegex.compile P expandedPattern = .ok regex := by
  unfold compileMatcher at h
  simp only at h
  split at h
  · cases h
  · split at h
    · split at h
      · cases h
      · cases h
        exact .inl ⟨rfl, rfl⟩
    · split at h
      · cases h
      · rename_i hcompile
        cases h
        exact .inr ⟨rfl, rfl, hcompile⟩

theorem snapshotMatches_of_notFound {regex : CompatRegex P} {line : Str}
    (h : ∀ start captures, P.capturesFromPos regex.regex line start ≠ .ok (some captures)) (outcome : MatchOutcome) :
    regex.snapshotMatches P line ≠ .ok (some outcome) := by
  intro hsome
  unfold CompatRegex.snapshotMatches snapshotLoop at hsome
  rw [if_neg (by omega)] at hsome
  cases hc : P.capturesFromPos regex.regex line 0 with
  | error error =>
    rw [hc] at hsome
    cases hsome
  | ok captures =>
    cases captures with
    | none =>
      rw [hc] at hsome
      cases hsome
    | some captures => exact h 0 captures hc

/-- The prefilter of a compiled pattern admits every line its regex matches, if what it looks for is required. -/
theorem Matcher.admits_of_required {parse : P.Regex → Tree} {same : Char → Char → Prop}
    {meaning : Str → Str → Str → Str → Prop} (hstd : Standard P parse same meaning) {pattern : Pattern}
    {matcher : Matcher P} (hcompile : compileMatcher P pattern = .ok matcher) {line : Str}
    (hreq : matcher.Required parse same line) : matcher.Admits line := by
  cases matcher with
  | literal text needsCharacter => trivial
  | regex regex constraints prefilter expandedPattern needsCharacter =>
    rcases compileMatcher_regex hcompile with ⟨rfl, rfl⟩ | ⟨rfl, rfl, hregex⟩
    · exact fun _ _ _ => rfl
    · have hbuild := build_of_compile hregex
      have hreq := hreq.resolve_left (by decide)
      exact fun start captures hfound =>
        prefilter_admits (hstd.spelled _ _ _ hbuild) (hstd.text _ _ _ hbuild) hreq (hstd.found _ _ _ _ hfound)

/-- A pattern with the character in it has no prefilter. -/
def Matcher.Plain : Matcher P → Prop
  | .regex _ _ prefilter _ needsCharacter => needsCharacter = true → prefilter = .none
  | .literal _ _ => True

theorem Matcher.plain_of_compile {pattern : Pattern} {matcher : Matcher P}
    (hcompile : compileMatcher P pattern = .ok matcher) : matcher.Plain := by
  cases matcher with
  | literal text needsCharacter => trivial
  | regex regex constraints prefilter expandedPattern needsCharacter =>
    intro hneeds
    rcases compileMatcher_regex hcompile with ⟨-, h⟩ | ⟨h, -, -⟩
    · exact h
    · rw [h] at hneeds
      cases hneeds

/-! ### The states -/

/-- The second state differs from the first in what is disabled, and not for the triggers still to come. -/
structure CharState.Ahead (coming : List Nat) (previousLine : Option Str) (s u : CharState P) : Prop where
  body : u = s.reframe { s.frame with disabled := u.disabled }
  previousLine : s.previousLine = previousLine
  disabled : ∀ index ∈ coming, u.disabled.getD index false = s.disabled.getD index false

namespace CharState
variable {coming : List Nat} {previousLine : Option Str} {s u : CharState P} {index : Nat} {line : Str} {isPrevious : Bool}

theorem Ahead.framed {α : Type} {f : CharState P → CharState P × α} (h : s.Ahead coming previousLine u) (hf : Framed f) :
    (f s).1.Ahead coming previousLine (f u).1 ∧ (f s).2 = (f u).2 := by
  have hframe := hf.frame_eq s
  have hu : f u = ((f s).1.reframe { s.frame with disabled := u.disabled }, (f s).2) := by
    have heq := hf s { s.frame with disabled := u.disabled } ⟨rfl, rfl⟩
    rwa [← h.body] at heq
  rw [hu]
  have hprevious : (f s).1.previousLine = s.previousLine := congrArg MatchFrame.previousLine hframe
  refine ⟨⟨?_, hprevious.trans h.previousLine, fun index hindex => ?_⟩, rfl⟩
  · rw [hframe]
    rfl
  · have hdisabled : (f s).1.disabled = s.disabled := congrArg MatchFrame.disabled hframe
    rw [hdisabled]
    exact h.disabled index hindex

theorem Ahead.disable (h : s.Ahead coming previousLine u) (hindex : index ∉ coming) :
    s.Ahead coming previousLine { u with disabled := u.disabled.set index true } := by
  refine ⟨?_, h.previousLine, fun other hother => ?_⟩
  · rw [h.body]
    rfl
  · have hne : index ≠ other := fun heq => hindex (heq ▸ hother)
    rw [List.getD_eq_getElem?_getD, List.getElem?_set_ne hne, ← List.getD_eq_getElem?_getD]
    exact h.disabled other hother

theorem Ahead.disable_both (h : s.Ahead coming previousLine u) (hindex : index ∉ coming) :
    ({ s with disabled := s.disabled.set index true } : CharState P).Ahead coming previousLine
      { u with disabled := u.disabled.set index true } := by
  refine ⟨?_, h.previousLine, fun other hother => ?_⟩
  · rw [h.body]
    rfl
  · have hne : index ≠ other := fun heq => hindex (heq ▸ hother)
    have hdisabled := (h.disable hindex).disabled other hother
    rw [hdisabled, List.getD_eq_getElem?_getD, List.getD_eq_getElem?_getD, List.getElem?_set_ne hne]

theorem Ahead.matchRegex (h : s.Ahead coming previousLine u) (hindex : index ∉ coming) (constraints : List NumberConstraint)
    (regex : CompatRegex P) :
    (s.matchRegex index line constraints regex).1.Ahead coming previousLine (u.matchRegex index line constraints regex).1 ∧
      (s.matchRegex index line constraints regex).2 = (u.matchRegex index line constraints regex).2 := by
  unfold CharState.matchRegex
  split
  · exact ⟨h.disable_both hindex, rfl⟩
  · exact ⟨h, rfl⟩
  · exact ⟨h, rfl⟩

theorem Ahead.matchRegex_of_notFound (h : s.Ahead coming previousLine u) (hindex : index ∉ coming)
    {constraints : List NumberConstraint} {regex : CompatRegex P}
    (hnone : ∀ outcome, regex.snapshotMatches P line ≠ .ok (some outcome)) :
    s.Ahead coming previousLine (u.matchRegex index line constraints regex).1 ∧ none = (u.matchRegex index line constraints regex).2 := by
  unfold CharState.matchRegex
  split
  · exact ⟨h.disable hindex, rfl⟩
  · exact ⟨h, rfl⟩
  · rename_i outcome hsome
    exact absurd hsome (hnone outcome)

theorem Ahead.characterRegex (h : s.Ahead coming previousLine u) (expandedPattern : Str) :
    (s.characterRegex index isPrevious expandedPattern).1.Ahead coming previousLine (u.characterRegex index isPrevious expandedPattern).1 ∧
      (s.characterRegex index isPrevious expandedPattern).2 = (u.characterRegex index isPrevious expandedPattern).2 := by
  have hdisabled := h.disabled
  have hprevious := h.previousLine
  rw [h.body] at hdisabled ⊢
  generalize u.disabled = disabled at hdisabled ⊢
  unfold CharState.characterRegex
  have hregexes : (s.reframe { s.frame with disabled := disabled }).characterRegexes = s.characterRegexes := rfl
  rw [hregexes]
  split
  · exact ⟨⟨rfl, hprevious, hdisabled⟩, rfl⟩
  · exact ⟨⟨rfl, hprevious, hdisabled⟩, rfl⟩

theorem matchLine_regex (s : CharState P) (index : Nat) (line : Str) (isPrevious : Bool) (regex : CompatRegex P)
    (constraints : List NumberConstraint) (prefilter : Prefilter) (expandedPattern : Str) (needsCharacter : Bool) :
    s.matchLine index line isPrevious (.regex regex constraints prefilter expandedPattern needsCharacter) =
      if !prefilter.admits line then (s, none)
      else if needsCharacter then
        match s.characterRegex index isPrevious expandedPattern with
        | (state, none) => (state, none)
        | (state, some regex) => state.matchRegex index line constraints regex
      else s.matchRegex index line constraints regex := rfl

variable (isPrevious) in
theorem Ahead.matchLine (h : s.Ahead coming previousLine u) (hindex : index ∉ coming) {matcher : Matcher P} (hplain : matcher.Plain)
    (hadmits : matcher.Admits line) :
    (s.matchLine index line isPrevious matcher).1.Ahead coming previousLine (u.matchLine index line isPrevious matcher.unfiltered).1 ∧
      (s.matchLine index line isPrevious matcher).2 = (u.matchLine index line isPrevious matcher.unfiltered).2 := by
  cases matcher with
  | literal text needsCharacter =>
    have hcharacter : u.context.character = s.context.character := by
      rw [h.body]
      rfl
    unfold Matcher.unfiltered CharState.matchLine
    rw [hcharacter]
    exact ⟨h, rfl⟩
  | regex regex constraints prefilter expandedPattern needsCharacter =>
    rw [Matcher.unfiltered, matchLine_regex, matchLine_regex]
    cases needsCharacter with
    | true =>
      obtain rfl := hplain rfl
      obtain ⟨hstate, hregex⟩ : (s.characterRegex index isPrevious expandedPattern).1.Ahead coming previousLine
          (u.characterRegex index isPrevious expandedPattern).1 ∧
          (s.characterRegex index isPrevious expandedPattern).2 =
            (u.characterRegex index isPrevious expandedPattern).2 := h.characterRegex expandedPattern
      generalize s.characterRegex index isPrevious expandedPattern = a at hstate hregex
      generalize u.characterRegex index isPrevious expandedPattern = b at hstate hregex
      obtain ⟨s, regex⟩ := a
      obtain ⟨u, _⟩ := b
      obtain rfl := hregex
      cases regex with
      | none => exact ⟨hstate, rfl⟩
      | some regex => exact Ahead.matchRegex hstate hindex constraints regex
    | false =>
      by_cases had : prefilter.admits line = true
      · rw [had]
        exact h.matchRegex hindex constraints regex
      · have hnone : ∀ start captures, P.capturesFromPos regex.regex line start ≠ .ok (some captures) :=
          fun start captures hfound => had (hadmits start captures hfound)
        rw [Bool.not_eq_true] at had
        rw [had]
        exact h.matchRegex_of_notFound hindex (snapshotMatches_of_notFound hnone)

end CharState

/-! ### Triggers -/

namespace CompiledTrigger

/-- The trigger with the regex tried on every line. -/
def unfiltered (compiled : CompiledTrigger P) : CompiledTrigger P :=
  { compiled with matcher := compiled.matcher.unfiltered, previous := compiled.previous.map Matcher.unfiltered }

/-- The prefilters look for what the patterns require, in the line and in the one before it. -/
def Required (parse : P.Regex → Tree) (same : Char → Char → Prop) (line : Str) (previousLine : Option Str)
    (compiled : CompiledTrigger P) : Prop :=
  compiled.matcher.Required parse same line ∧
    ∀ matcher ∈ compiled.previous, ∀ previous ∈ previousLine, matcher.Required parse same previous

/-- The matchers come from patterns. -/
def FromPatterns (compiled : CompiledTrigger P) : Prop :=
  (∃ pattern, compileMatcher P pattern = .ok compiled.matcher) ∧
    ∀ matcher ∈ compiled.previous, ∃ pattern, compileMatcher P pattern = .ok matcher

end CompiledTrigger

theorem fromPatterns_of_compile {trigger : Trigger P} {compiled : CompiledTrigger P}
    (h : compileTrigger trigger = .ok compiled) : compiled.FromPatterns := by
  unfold compileTrigger at h
  split at h
  · cases h
  · cases h
  · rename_i matcher hmatcher _
    cases h
    refine ⟨⟨_, hmatcher⟩, fun m hm => ?_⟩
    obtain ⟨result, hresult, hok⟩ := Option.bind_eq_some_iff.mp hm
    obtain ⟨pattern, -, hpattern⟩ := Option.map_eq_some_iff.mp hresult
    refine ⟨pattern, ?_⟩
    cases result with
    | error error => cases hok
    | ok matcher' =>
      cases hok
      exact hpattern

theorem fromPatterns_of_mem {library : TriggerLibrary P} {compiled : CompiledTrigger P}
    (h : compiled ∈ (CompiledLibrary.compile library).triggers) : compiled.FromPatterns := by
  have hall : ∀ t ∈ (CompiledLibrary.compileTriggers library.triggers).1, t.FromPatterns := by
    unfold CompiledLibrary.compileTriggers
    refine List.foldlRecOn (motive := fun s : List (CompiledTrigger P) × _ => ∀ t ∈ s.1, t.FromPatterns) library.triggers _
      (fun t ht => absurd ht List.not_mem_nil) (fun s hs trigger _ => ?_)
    obtain ⟨triggers, errors⟩ := s
    dsimp only at hs ⊢
    split
    · exact hs
    · split
      · rename_i compiled hcompiled
        intro t ht
        rcases List.mem_append.mp ht with ht | ht
        · exact hs t ht
        · obtain rfl := List.mem_singleton.mp ht
          exact fromPatterns_of_compile hcompiled
      · exact hs
  exact hall compiled h

/-- The library with all regexes tried on every line. -/
def CompiledLibrary.unfiltered (lib : CompiledLibrary P) : CompiledLibrary P :=
  { lib with triggers := lib.triggers.map CompiledTrigger.unfiltered }

theorem CompiledLibrary.unfiltered_getElem? (lib : CompiledLibrary P) (index : Nat) :
    lib.unfiltered.triggers[index]? = (lib.triggers[index]?).map CompiledTrigger.unfiltered := List.getElem?_map

namespace CharState
variable {lib : CompiledLibrary P} {line : Str} {now : EngineMillis}

theorem handleTrigger_unfiltered (state : CharState P) (compiled : CompiledTrigger P) (index : Nat)
    (dynamicDuration : Option P.F64) (f : Firing) (batch : ActionBatch) :
    state.handleTrigger compiled.unfiltered index dynamicDuration f batch =
      state.handleTrigger compiled index dynamicDuration f batch := rfl

theorem fireTimerStage_unfiltered (state : CharState P) (timer : ActiveTimer P) (phase : ActionPhase)
    (earlyMatches : MatchMap) (batch : ActionBatch) :
    state.fireTimerStage lib.unfiltered timer phase earlyMatches line now batch =
      state.fireTimerStage lib timer phase earlyMatches line now batch := by
  unfold fireTimerStage
  rw [CompiledLibrary.unfiltered_getElem?]
  cases lib.triggers[timer.triggerIndex]? <;> rfl

theorem clearEndVariables_unfiltered (state : CharState P) (index : Nat) :
    state.clearEndVariables lib.unfiltered index = state.clearEndVariables lib index := by
  unfold clearEndVariables
  rw [CompiledLibrary.unfiltered_getElem?]
  cases lib.triggers[index]? <;> rfl

theorem endedBy_unfiltered (state : CharState P) (timer : ActiveTimer P) :
    state.endedBy lib.unfiltered line timer = state.endedBy lib line timer := by
  unfold endedBy
  rw [CompiledLibrary.unfiltered_getElem?]
  cases lib.triggers[timer.triggerIndex]? <;> rfl

theorem checkTimerEnders_unfiltered (state : CharState P) (batch : ActionBatch) :
    state.checkTimerEnders lib.unfiltered line now batch = state.checkTimerEnders lib line now batch := by
  have hfinish : finishEarly lib.unfiltered line now = finishEarly lib line now := by
    funext s entry
    unfold finishEarly
    simp only [fireTimerStage_unfiltered, clearEndVariables_unfiltered]
  unfold checkTimerEnders
  simp only [endedBy_unfiltered, hfinish]

end CharState

/-! ### A line -/

theorem CharState.checkPrevious_some {state : CharState P} {compiled : CompiledTrigger P} {matcher : Matcher P}
    {previous : Str} (hmatcher : compiled.previous = some matcher) (hline : state.previousLine = some previous) (index : Nat) :
    state.checkPrevious compiled index =
      ((state.matchLine index previous true matcher).1,
        (state.matchLine index previous true matcher).2.map (·.captures)) := by
  have hcheck : state.checkLine compiled index previous true = state.matchLine index previous true matcher := by
    simp only [CharState.checkLine, hmatcher, if_true]
  simp only [CharState.checkPrevious, hmatcher, hline, hcheck]

/-- The two evaluations of a line in front of the triggers that are still to come. -/
structure Pass.Ahead (coming : List Nat) (previousLine : Option Str) (p q : Pass P) : Prop where
  state : p.state.Ahead coming previousLine q.state
  batch : q.batch = p.batch
  expired : q.expired = p.expired

section
variable {lib : CompiledLibrary P} {line : Str} {previousLine : Option Str} {coming : List Nat} {index : Nat}
  (hplain : ∀ compiled ∈ lib.triggers, compiled.matcher.Plain ∧ ∀ matcher ∈ compiled.previous, matcher.Plain)
  (hadmits : ∀ compiled ∈ lib.triggers, compiled.matcher.Admits line ∧
    ∀ matcher ∈ compiled.previous, ∀ previous ∈ previousLine, matcher.Admits previous)

include hplain hadmits

theorem CharState.Ahead.checkPrevious {s u : CharState P} (h : s.Ahead coming previousLine u) (hindex : index ∉ coming)
    {compiled : CompiledTrigger P} (hmem : compiled ∈ lib.triggers) :
    (s.checkPrevious compiled index).1.Ahead coming previousLine (u.checkPrevious compiled.unfiltered index).1 ∧
      (s.checkPrevious compiled index).2 = (u.checkPrevious compiled.unfiltered index).2 := by
  have hu : u.previousLine = previousLine := by
    rw [h.body]
    exact h.previousLine
  cases hmatcher : compiled.previous with
  | none =>
    have hmatcher' : compiled.unfiltered.previous = none := congrArg (Option.map Matcher.unfiltered) hmatcher
    unfold CharState.checkPrevious
    rw [hmatcher, hmatcher']
    exact ⟨h, rfl⟩
  | some matcher =>
    have hmatcher' : compiled.unfiltered.previous = some matcher.unfiltered :=
      congrArg (Option.map Matcher.unfiltered) hmatcher
    cases previousLine with
    | none =>
      unfold CharState.checkPrevious
      rw [hmatcher, hmatcher', h.previousLine, hu]
      exact ⟨h, rfl⟩
    | some previous =>
      rw [CharState.checkPrevious_some hmatcher h.previousLine,
        CharState.checkPrevious_some hmatcher' hu]
      have hmatch := h.matchLine true hindex ((hplain compiled hmem).2 matcher hmatcher)
        ((hadmits compiled hmem).2 matcher hmatcher previous rfl)
      exact ⟨hmatch.1, congrArg (Option.map _) hmatch.2⟩

theorem Pass.Ahead.trigger {p q : Pass P} (h : p.Ahead (index :: coming) previousLine q) (hindex : index ∉ coming)
    (logTime : Option Str) (now : EngineMillis) :
    (Pass.trigger lib line logTime now p index).Ahead coming previousLine
      (Pass.trigger lib.unfiltered line logTime now q index) := by
  have hstate : p.state.Ahead coming previousLine q.state :=
    ⟨h.state.body, h.state.previousLine, fun other hother => h.state.disabled other (List.mem_cons_of_mem _ hother)⟩
  unfold Pass.trigger
  rw [CompiledLibrary.unfiltered_getElem?]
  cases hlib : lib.triggers[index]? with
  | none => exact ⟨hstate, h.batch, h.expired⟩
  | some compiled =>
    have hmem := List.mem_of_getElem? hlib
    dsimp only [Option.map_some]
    rw [h.state.disabled index List.mem_cons_self]
    split
    · exact ⟨hstate, h.batch, h.expired⟩
    · have hcheck : (p.state.checkLine compiled index line false).1.Ahead coming previousLine
          (q.state.checkLine compiled.unfiltered index line false).1 ∧
            (p.state.checkLine compiled index line false).2 = (q.state.checkLine compiled.unfiltered index line false).2 :=
        hstate.matchLine false hindex (hplain compiled hmem).1 (hadmits compiled hmem).1
      obtain ⟨hcheck, hmatch⟩ := hcheck
      generalize p.state.checkLine compiled index line false = a at hcheck hmatch
      generalize q.state.checkLine compiled.unfiltered index line false = b at hcheck hmatch
      obtain ⟨s, lineMatch⟩ := a
      obtain ⟨u, _⟩ := b
      obtain rfl := hmatch
      cases lineMatch with
      | none => exact ⟨hcheck, h.batch, h.expired⟩
      | some lineMatch =>
        obtain ⟨hcheck, hmatch⟩ := CharState.Ahead.checkPrevious hplain hadmits hcheck hindex hmem
        dsimp only at hcheck hmatch ⊢
        generalize s.checkPrevious compiled index = a at hcheck hmatch
        generalize u.checkPrevious compiled.unfiltered index = b at hcheck hmatch
        obtain ⟨s, previousMatches⟩ := a
        obtain ⟨u, _⟩ := b
        obtain rfl := hmatch
        cases previousMatches with
        | none => exact ⟨hcheck, h.batch, h.expired⟩
        | some previousMatches =>
          have hexpire : CharState.Framed fun state : CharState P =>
              (if p.expired then state else state.expireVariables now, ()) := by
            split <;> exact fun _ _ _ => rfl
          have hahead := (hcheck.framed hexpire).1
          dsimp only at hahead ⊢
          rw [h.expired, h.batch]
          generalize (if p.expired then s else s.expireVariables now) = s at hahead ⊢
          generalize (if p.expired then u else u.expireVariables now) = u at hahead ⊢
          have hvars : u.vars = s.vars := by
            rw [hahead.body]
            rfl
          have hcondition : compiled.unfiltered.conditionHolds u.vars lineMatch.captures previousMatches =
              compiled.conditionHolds s.vars lineMatch.captures previousMatches := by
            rw [hvars]
            rfl
          rw [hcondition]
          split
          · have hhandle := hahead.framed (CharState.handleTrigger_framed compiled index lineMatch.dynamicDuration
              ⟨line, logTime, lineMatch.captures, previousMatches, now, 0, -1⟩ p.batch)
            rw [CharState.handleTrigger_unfiltered]
            exact ⟨hhandle.1, hhandle.2.symm, rfl⟩
          · exact ⟨hahead, rfl, rfl⟩

theorem Pass.Ahead.foldl {p q : Pass P} {active : List Nat} (h : p.Ahead active previousLine q) (hactive : active.Nodup)
    (logTime : Option Str) (now : EngineMillis) :
    (active.foldl (Pass.trigger lib line logTime now) p).Ahead [] previousLine
      (active.foldl (Pass.trigger lib.unfiltered line logTime now) q) := by
  induction active generalizing p q with
  | nil => exact h
  | cons index active ih =>
    obtain ⟨hindex, hactive⟩ := List.nodup_cons.mp hactive
    exact ih (h.trigger hplain hadmits hindex logTime now) hactive

theorem CharState.processLine_unfiltered {state : CharState P} (hprevious : state.previousLine = previousLine)
    (hactive : state.active.Nodup) (logTime : Option Str) (now : EngineMillis) :
    (state.processLine lib.unfiltered line logTime now).2 = (state.processLine lib line logTime now).2 := by
  have hpass : Pass.Ahead state.active previousLine ⟨state, .empty, false⟩ ⟨state, .empty, false⟩ :=
    ⟨⟨rfl, hprevious, fun _ _ => rfl⟩, rfl, rfl⟩
  have hpass := hpass.foldl hplain hadmits hactive logTime now
  have henders := hpass.state.framed (checkTimerEnders_framed lib line now
    (state.active.foldl (Pass.trigger lib line logTime now) ⟨state, .empty, false⟩).batch)
  unfold CharState.processLine
  dsimp only at henders ⊢
  rw [checkTimerEnders_unfiltered, hpass.batch]
  exact henders.2.symm

end

theorem CompiledLibrary.activeFor_nodup (lib : CompiledLibrary P) (character server : Str) :
    (lib.activeFor character server).Nodup := by
  unfold CompiledLibrary.activeFor
  split
  · exact List.nodup_range
  · exact List.nodup_dedup _

/-- The prefilter of a compiled pattern admits every line its regex matches, and a line fires the same triggers
with prefilters as without, as long as what the prefilters look for is required. -/
theorem prefilter_sound {parse : P.Regex → Tree} {same : Char → Char → Prop} {meaning : Str → Str → Str → Str → Prop}
    (hstd : Standard P parse same meaning) (line : Str) :
    (∀ pattern matcher, compileMatcher P pattern = .ok matcher → matcher.Required parse same line → matcher.Admits line) ∧
      ∀ (library : TriggerLibrary P) (state : CharState P) (character server : Str) (logTime : Option Str)
        (now : EngineMillis),
        state.active = (CompiledLibrary.compile library).activeFor character server →
        (∀ compiled ∈ (CompiledLibrary.compile library).triggers, compiled.Required parse same line state.previousLine) →
        (state.processLine (CompiledLibrary.compile library).unfiltered line logTime now).2 =
          (state.processLine (CompiledLibrary.compile library) line logTime now).2 := by
  refine ⟨fun pattern matcher hcompile hreq => Matcher.admits_of_required hstd hcompile hreq,
    fun library state character server logTime now hactive hreq => ?_⟩
  refine CharState.processLine_unfiltered (fun compiled hmem => ?_) (fun compiled hmem => ?_) rfl
    (hactive ▸ CompiledLibrary.activeFor_nodup _ _ _) logTime now
  · obtain ⟨⟨pattern, hmatcher⟩, hprevious⟩ := fromPatterns_of_mem hmem
    refine ⟨Matcher.plain_of_compile hmatcher, fun matcher hm => ?_⟩
    obtain ⟨pattern, hmatcher⟩ := hprevious matcher hm
    exact Matcher.plain_of_compile hmatcher
  · obtain ⟨⟨pattern, hmatcher⟩, hprevious⟩ := fromPatterns_of_mem hmem
    refine ⟨Matcher.admits_of_required hstd hmatcher (hreq compiled hmem).1, fun matcher hm previous hline => ?_⟩
    obtain ⟨pattern, hmatcher⟩ := hprevious matcher hm
    exact Matcher.admits_of_required hstd hmatcher ((hreq compiled hmem).2 matcher hm previous hline)

/-- One trigger with a regular expression. -/
def Literal.speech (pattern : String) : CompiledLibrary Literal.platform :=
  .compile (Literal.library [Literal.trigger 1 ⟨pattern.toList, true⟩ "speech".toList none])

theorem Literal.required_of_letters {pattern line : Str} {compiled : CompiledTrigger Literal.platform}
    {constraints : List NumberConstraint} {prefilter : Prefilter}
    (hmatcher : compiled.matcher = .regex ⟨[pattern], [none]⟩ constraints prefilter pattern false)
    (hprevious : compiled.previous = none) (previousLine : Option Str) :
    compiled.Required Literal.tree Literal.same line previousLine := by
  refine ⟨?_, fun matcher hm => ?_⟩
  · rw [hmatcher]
    exact .inr (.inr (Literal.prefixRequired pattern line))
  · rw [hprevious] at hm
    cases hm

/-- A trigger whose pattern is the letters "You say". -/
theorem prefilter_sound_literal : ((TriggerEngine.freshState (Literal.speech "You say") Literal.bilka).processLine
      (Literal.speech "You say").unfiltered "you say, 'hi'".toList none 0).2 =
    ((TriggerEngine.freshState (Literal.speech "You say") Literal.bilka).processLine
      (Literal.speech "You say") "you say, 'hi'".toList none 0).2 := by
  refine (prefilter_sound Literal.standard "you say, 'hi'".toList).2 _ _ "Bilka".toList "teek".toList none 0 rfl fun compiled hmem => ?_
  have hsingle : (Literal.speech "You say").triggers =
      [(Literal.speech "You say").triggers.head (by decide)] := by rfl
  obtain rfl := List.mem_singleton.mp (hsingle ▸ hmem)
  exact @Literal.required_of_letters "You say".toList _ _ _ _ rfl rfl _

/-- The pattern "Hello|foo" matches the line "foo", which its prefilter does not admit. -/
theorem prefilter_rejects_alternative :
    Standard Literal.platform Literal.tree Literal.same Literal.meaning ∧
      (∃ matcher, compileMatcher Literal.platform ⟨"Hello|foo".toList, true⟩ = .ok matcher ∧
        ¬ matcher.Admits "foo".toList) ∧
      ((TriggerEngine.freshState (Literal.speech "Hello|foo") Literal.bilka).processLine
        (Literal.speech "Hello|foo") "foo".toList none 0).2.events = [] ∧
      ((TriggerEngine.freshState (Literal.speech "Hello|foo") Literal.bilka).processLine
        (Literal.speech "Hello|foo").unfiltered "foo".toList none 0).2.events ≠ [] := by
  refine ⟨Literal.standard, ⟨_, rfl, fun hadmits => ?_⟩, by decide +kernel, by decide +kernel⟩
  have hfound : Literal.platform.capturesFromPos ["Hello".toList, "foo".toList] "foo".toList 0 =
      .ok (some [some ⟨0, 3, "foo".toList⟩]) := by rfl
  exact absurd (hadmits 0 _ hfound) (by decide)

end Stonemite.Triggers
