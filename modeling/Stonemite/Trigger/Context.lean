import Stonemite.Trigger.Frame
import Stonemite.Trigger.Literal
import Stonemite.Lib.Run

/-!
# Lines and the context they come with

The engine keeps, for a key, the context of the first line under it: the triggers active for it and the regexes compiled
for its character. `processLineFresh` takes all of that from the context passed with the line. The two engines emit the
same as long as no line comes under a key that belongs to another character. `EngineRun.Same` is the invariant between
the two, with `CharState.Same` for one character and `Pass.Same` inside of a line; `lines_use_context` is the result over
runs.
-/

open Std

namespace Stonemite.Triggers

variable {P : Platform}

/-! ### The cached regexes -/

/-- The matcher for this line, or for the line before. -/
def CompiledTrigger.matcherFor (compiled : CompiledTrigger P) (isPrevious : Bool) : Option (Matcher P) :=
  if isPrevious then compiled.previous else some compiled.matcher

/-- The regex of a pattern for the character of a context. -/
def regexFor (P : Platform) (expandedPattern : Str) (context : CharacterContext) : Option (CompatRegex P) :=
  (CompatRegex.compile P (replaceCode expandedPattern characterCode (P.escape context.character))).toOption

/-- What is cached is compiled for the character of the context. -/
def MatchFrame.Compiled (lib : CompiledLibrary P) (F : MatchFrame P) : Prop :=
  ∀ index isPrevious entry, F.characterRegexes.lookup (index, isPrevious) = some entry →
    ∃ compiled regex constraints prefilter expandedPattern needsCharacter, lib.triggers[index]? = some compiled ∧
      compiled.matcherFor isPrevious = some (.regex regex constraints prefilter expandedPattern needsCharacter) ∧
      entry = regexFor P expandedPattern F.context

/-- Two states of one character that differ in the context they were made for and in what is cached; `C` is
the context of the first. -/
structure CharState.Same (lib : CompiledLibrary P) (C : CharacterContext) (s u : CharState P) : Prop where
  body : u = s.reframe u.frame
  fits : s.Fits u.frame
  context : s.context = C
  activeFor : s.active = lib.activeFor C.character C.server
  active : u.active = s.active
  disabled : u.disabled = s.disabled
  previousLine : u.previousLine = s.previousLine
  left : s.frame.Compiled lib
  right : u.frame.Compiled lib

namespace CharState
variable {lib : CompiledLibrary P} {C : CharacterContext} {s u : CharState P} {compiled : CompiledTrigger P} {index : Nat} {isPrevious : Bool}
  {line : Str}

theorem Same.framed {α : Type} {f : CharState P → CharState P × α} (h : s.Same lib C u) (hf : Framed f) :
    (f s).1.Same lib C (f u).1 ∧ (f s).2 = (f u).2 := by
  have hs := hf.frame_eq s
  have hu : f u = ((f s).1.reframe u.frame, (f s).2) := by
    have heq := hf s u.frame h.fits
    rwa [← h.body] at heq
  have hcontext : (f s).1.context = s.context := congrArg MatchFrame.context hs
  have hactive : (f s).1.active = s.active := congrArg MatchFrame.active hs
  have hdisabled : (f s).1.disabled = s.disabled := congrArg MatchFrame.disabled hs
  have hprevious : (f s).1.previousLine = s.previousLine := congrArg MatchFrame.previousLine hs
  rw [hu]
  refine ⟨⟨rfl, hf.fits h.fits, hcontext.trans h.context, hactive.trans h.activeFor, h.active.trans hactive.symm,
    h.disabled.trans hdisabled.symm, h.previousLine.trans hprevious.symm, ?_, h.right⟩, rfl⟩
  rw [hs]
  exact h.left

theorem Same.character (h : s.Same lib C u) : u.context.character = s.context.character := h.fits.2

theorem characterRegex_spec {regex : CompatRegex P} {constraints : List NumberConstraint} {prefilter : Prefilter}
    {expandedPattern : Str} {needsCharacter : Bool} (hs : s.frame.Compiled lib)
    (hlib : lib.triggers[index]? = some compiled)
    (hmatcher : compiled.matcherFor isPrevious = some (.regex regex constraints prefilter expandedPattern needsCharacter)) :
    ∃ regexes, s.characterRegex index isPrevious expandedPattern =
        ({ s with characterRegexes := regexes }, regexFor P expandedPattern s.context) ∧
      ({ s with characterRegexes := regexes } : CharState P).frame.Compiled lib := by
  unfold characterRegex
  split
  · rename_i entry hentry
    obtain ⟨compiled', _, _, _, pattern', _, hlib', hmatcher', rfl⟩ := hs index isPrevious entry hentry
    obtain rfl : compiled = compiled' := Option.some.inj (hlib.symm.trans hlib')
    rw [hmatcher] at hmatcher'
    cases hmatcher'
    exact ⟨s.characterRegexes, rfl, hs⟩
  · refine ⟨_, rfl, fun index' isPrevious' entry' hentry' => ?_⟩
    by_cases hkey : (index', isPrevious') = (index, isPrevious)
    · obtain ⟨rfl, rfl⟩ := Prod.mk.inj hkey
      have hentry' : (s.characterRegexes.insert (index', isPrevious') _).lookup (index', isPrevious') = some entry' := hentry'
      rw [AList.lookup_insert] at hentry'
      cases hentry'
      exact ⟨compiled, regex, constraints, prefilter, expandedPattern, needsCharacter, hlib, hmatcher, rfl⟩
    · have hentry' : (s.characterRegexes.insert (index, isPrevious) _).lookup (index', isPrevious') = some entry' := hentry'
      rw [AList.lookup_insert_ne hkey] at hentry'
      exact hs index' isPrevious' entry' hentry'

theorem Same.matchRegex (h : s.Same lib C u) (constraints : List NumberConstraint) (regex : CompatRegex P) :
    (s.matchRegex index line constraints regex).1.Same lib C (u.matchRegex index line constraints regex).1 ∧
      (s.matchRegex index line constraints regex).2 = (u.matchRegex index line constraints regex).2 := by
  unfold CharState.matchRegex
  split
  · refine ⟨⟨?_, h.fits, h.context, h.activeFor, h.active, congrArg (·.set index true) h.disabled,
      h.previousLine, h.left, h.right⟩, rfl⟩
    rw [h.body]
    rfl
  · exact ⟨h, rfl⟩
  · exact ⟨h, rfl⟩

theorem Same.withRegexes (h : s.Same lib C u) {r r' : AList fun _ : Nat × Bool => Option (CompatRegex P)}
    (hr : ({ s with characterRegexes := r } : CharState P).frame.Compiled lib)
    (hr' : ({ u with characterRegexes := r' } : CharState P).frame.Compiled lib) :
    ({ s with characterRegexes := r } : CharState P).Same lib C { u with characterRegexes := r' } := by
  refine ⟨?_, h.fits, h.context, h.activeFor, h.active, h.disabled, h.previousLine, hr, hr'⟩
  rw [h.body]
  rfl

theorem Same.matchLine (h : s.Same lib C u) (hlib : lib.triggers[index]? = some compiled) {matcher : Matcher P}
    (hmatcher : compiled.matcherFor isPrevious = some matcher) :
    (s.matchLine index line isPrevious matcher).1.Same lib C (u.matchLine index line isPrevious matcher).1 ∧
      (s.matchLine index line isPrevious matcher).2 = (u.matchLine index line isPrevious matcher).2 := by
  cases matcher with
  | literal text needsCharacter =>
    unfold CharState.matchLine
    rw [h.character]
    exact ⟨h, rfl⟩
  | regex regex constraints prefilter expandedPattern needsCharacter =>
    unfold CharState.matchLine
    dsimp only
    split
    · exact ⟨h, rfl⟩
    · split
      · obtain ⟨r, hs, hr⟩ := characterRegex_spec h.left hlib hmatcher
        obtain ⟨r', hu, hr'⟩ := characterRegex_spec h.right hlib hmatcher
        have hregex : regexFor P expandedPattern u.context = regexFor P expandedPattern s.context := by
          rw [regexFor, regexFor, h.character]
        have hsame := h.withRegexes hr hr'
        rw [hs, hu, hregex]
        cases regexFor P expandedPattern s.context with
        | none => exact ⟨hsame, rfl⟩
        | some regex => exact hsame.matchRegex constraints regex
      · exact h.matchRegex constraints regex

theorem Same.checkLine (h : s.Same lib C u) (hlib : lib.triggers[index]? = some compiled) (line : Str)
    (isPrevious : Bool) :
    (s.checkLine compiled index line isPrevious).1.Same lib C (u.checkLine compiled index line isPrevious).1 ∧
      (s.checkLine compiled index line isPrevious).2 = (u.checkLine compiled index line isPrevious).2 := by
  unfold CharState.checkLine
  split
  · rename_i hprevious
    split
    · exact ⟨h, rfl⟩
    · rename_i matcher hmatcher
      exact h.matchLine hlib (show compiled.matcherFor true = some _ from hmatcher)
  · exact h.matchLine hlib (show compiled.matcherFor false = some _ from rfl)

theorem Same.withPreviousLine (h : s.Same lib C u) (previousLine : Option Str) :
    ({ s with previousLine := previousLine } : CharState P).Same lib C { u with previousLine := previousLine } := by
  refine ⟨?_, h.fits, h.context, h.activeFor, h.active, h.disabled, rfl, h.left, h.right⟩
  rw [h.body]
  rfl

theorem Same.vars (h : s.Same lib C u) : u.vars = s.vars := by
  rw [h.body]
  rfl

theorem Same.checkPrevious (h : s.Same lib C u) (hlib : lib.triggers[index]? = some compiled) :
    (s.checkPrevious compiled index).1.Same lib C (u.checkPrevious compiled index).1 ∧
      (s.checkPrevious compiled index).2 = (u.checkPrevious compiled index).2 := by
  unfold CharState.checkPrevious
  rw [h.previousLine]
  split
  · exact ⟨h, rfl⟩
  · split
    · exact ⟨h, rfl⟩
    · rename_i previousLine _
      have hcheck := h.checkLine hlib previousLine true
      exact ⟨hcheck.1, congrArg (Option.map _) hcheck.2⟩

end CharState

/-! ### A line -/

/-- Two passes show the same of the triggers with this character's library. -/
structure Pass.Same (lib : CompiledLibrary P) (C : CharacterContext) (p q : Pass P) : Prop where
  state : p.state.Same lib C q.state
  batch : p.batch = q.batch
  expired : p.expired = q.expired

theorem Pass.Same.trigger {lib : CompiledLibrary P} {C : CharacterContext} {p q : Pass P} (h : p.Same lib C q) (line : Str) (logTime : Option Str)
    (now : EngineMillis) (index : Nat) :
    (Pass.trigger lib line logTime now p index).Same lib C (Pass.trigger lib line logTime now q index) := by
  unfold Pass.trigger
  cases hlib : lib.triggers[index]? with
  | none => exact h
  | some compiled =>
    dsimp only
    rw [h.state.disabled]
    split
    · exact h
    · obtain ⟨hcheck, hmatch⟩ := h.state.checkLine hlib line false
      generalize p.state.checkLine compiled index line false = a at hcheck hmatch
      generalize q.state.checkLine compiled index line false = b at hcheck hmatch
      obtain ⟨s, lineMatch⟩ := a
      obtain ⟨u, _⟩ := b
      obtain rfl := hmatch
      cases lineMatch with
      | none => exact ⟨hcheck, h.batch, h.expired⟩
      | some lineMatch =>
        obtain ⟨hcheck, hmatch⟩ := CharState.Same.checkPrevious hcheck hlib
        dsimp only at hcheck hmatch ⊢
        generalize s.checkPrevious compiled index = a at hcheck hmatch
        generalize u.checkPrevious compiled index = b at hcheck hmatch
        obtain ⟨s, previousMatches⟩ := a
        obtain ⟨u, _⟩ := b
        obtain rfl := hmatch
        cases previousMatches with
        | none => exact ⟨hcheck, h.batch, h.expired⟩
        | some previousMatches =>
          have hexpire : CharState.Framed fun state : CharState P =>
              (if p.expired then state else state.expireVariables now, ()) := by
            split <;> exact fun _ _ _ => rfl
          have hsame := (hcheck.framed hexpire).1
          dsimp only at hsame ⊢
          rw [← h.expired, ← h.batch]
          generalize (if p.expired then s else s.expireVariables now) = s at hsame ⊢
          generalize (if p.expired then u else u.expireVariables now) = u at hsame ⊢
          rw [hsame.vars]
          split
          · have hhandle := hsame.framed (CharState.handleTrigger_framed compiled index lineMatch.dynamicDuration
              ⟨line, logTime, lineMatch.captures, previousMatches, now, 0, -1⟩ p.batch)
            exact ⟨hhandle.1, hhandle.2, rfl⟩
          · exact ⟨hsame, rfl, rfl⟩

theorem Pass.Same.foldl {lib : CompiledLibrary P} {C : CharacterContext} {p q : Pass P} (h : p.Same lib C q) (line : Str) (logTime : Option Str)
    (now : EngineMillis) (active : List Nat) :
    (active.foldl (Pass.trigger lib line logTime now) p).Same lib C (active.foldl (Pass.trigger lib line logTime now) q) := by
  induction active generalizing p q with
  | nil => exact h
  | cons index active ih => exact ih (h.trigger line logTime now index)

/-- The line is evaluated the same, and the states stay the same. -/
theorem CharState.Same.processLine {lib : CompiledLibrary P} {C : CharacterContext} {s u : CharState P} (h : s.Same lib C u) (line : Str)
    (logTime : Option Str) (now : EngineMillis) :
    (s.processLine lib line logTime now).1.Same lib C (u.processLine lib line logTime now).1 ∧
      (s.processLine lib line logTime now).2 = (u.processLine lib line logTime now).2 := by
  have hpass : Pass.Same lib C ⟨s, .empty, false⟩ ⟨u, .empty, false⟩ := ⟨h, rfl, rfl⟩
  have hpass := hpass.foldl line logTime now s.active
  have henders := hpass.state.framed (checkTimerEnders_framed lib line now
    (s.active.foldl (Pass.trigger lib line logTime now) ⟨s, .empty, false⟩).batch)
  have hdone := henders.1.withPreviousLine (some line)
  unfold CharState.processLine
  rw [h.active]
  dsimp only at hdone henders ⊢
  rw [← hpass.batch]
  exact ⟨hdone, henders.2⟩

/-! ### The engines -/

/-- The state made for the context: the triggers active for it, and no regex compiled yet. -/
def CharState.refresh (lib : CompiledLibrary P) (state : CharState P) (context : CharacterContext) : CharState P :=
  { state with
    context := context
    active := lib.activeFor context.character context.server
    characterRegexes := ∅ }

/-- `processLine` with all that depends on the context taken from the context passed with the line. -/
def TriggerEngine.processLineFresh (engine : TriggerEngine P) (context : CharacterContext) (line : Str)
    (logTime : Option Str) (now : EngineMillis) : TriggerEngine P × ActionBatch :=
  if line.isEmpty then (engine, .empty)
  else
    let (state, batch) :=
      ((engine.stateFor context).refresh engine.compiled context).processLine engine.compiled line logTime now
    ({ engine with characters := engine.characters.insert context.key state }, batch)

/-- What the owner of an engine does with it. -/
inductive EngineCall
  | processLine (context : CharacterContext) (line : Str) (logTime : Option Str) (now : EngineMillis)
  | advance (now : EngineMillis)
  | removeCharacter (key : Str)
  | clearVariables (key : Str)

/-- The engine with what it has emitted. -/
abbrev EngineRun (P : Platform) := TriggerEngine P × List ActionBatch

section
variable (processLine : TriggerEngine P → CharacterContext → Str → Option Str → EngineMillis → TriggerEngine P × ActionBatch)

/-- A call, with `processLine` for the lines. -/
def EngineRun.callWith (r : EngineRun P) : EngineCall → EngineRun P
  | .processLine context line logTime now =>
    let (engine, batch) := processLine r.1 context line logTime now
    (engine, r.2 ++ [batch])
  | .advance now =>
    let (engine, batch) := r.1.advance now
    (engine, r.2 ++ [batch])
  | .removeCharacter key => (r.1.removeCharacter key, r.2)
  | .clearVariables key => (r.1.clearVariables key, r.2)

end

def EngineRun.call : EngineRun P → EngineCall → EngineRun P := EngineRun.callWith TriggerEngine.processLine

/-- One call on the engine that compiles anew for every line. -/
def EngineRun.callFresh : EngineRun P → EngineCall → EngineRun P := EngineRun.callWith TriggerEngine.processLineFresh

/-- The line comes under a new key, or with the character of the line that made its state and the same active triggers. -/
def EngineRun.Carries (r : EngineRun P) : EngineCall → Prop
  | .processLine context line _ _ => line.isEmpty = true ∨ ∀ state, r.1.characters[context.key]? = some state →
    state.context.character = context.character ∧
      r.1.compiled.activeFor state.context.character state.context.server =
        r.1.compiled.activeFor context.character context.server
  | _ => True

instance (r : EngineRun P) : (c : EngineCall) → Decidable (r.Carries c)
  | .processLine context line _ _ => decidable_of_iff
      (line.isEmpty = true ∨ (r.1.characters[context.key]?).all (fun state =>
        decide (state.context.character = context.character ∧
          r.1.compiled.activeFor state.context.character state.context.server =
            r.1.compiled.activeFor context.character context.server)) = true)
      (by simp [EngineRun.Carries, Option.all_eq_true])
  | .advance _ | .removeCharacter _ | .clearVariables _ => .isTrue trivial

namespace CharState
variable {lib : CompiledLibrary P} {C : CharacterContext} {s u : CharState P}

theorem compiled_empty (F : MatchFrame P) (h : F.characterRegexes = ∅) : F.Compiled lib := by
  intro index isPrevious entry hentry
  rw [h, AList.lookup_empty] at hentry
  cases hentry

theorem same_freshState (context : CharacterContext) :
    (TriggerEngine.freshState lib context).Same lib context (TriggerEngine.freshState lib context) :=
  ⟨rfl, ⟨rfl, rfl⟩, rfl, rfl, rfl, rfl, rfl, compiled_empty _ rfl, compiled_empty _ rfl⟩

theorem Same.refresh (h : s.Same lib C u) {context : CharacterContext} (hkey : C.key = context.key)
    (hcharacter : C.character = context.character)
    (hactive : lib.activeFor C.character C.server = lib.activeFor context.character context.server) :
    s.Same lib C (u.refresh lib context) := by
  have hbody : u.refresh lib context = s.reframe (u.refresh lib context).frame := by
    rw [h.body]
    rfl
  refine ⟨hbody, ?_, h.context, h.activeFor, ?_, h.disabled, h.previousLine, h.left, compiled_empty _ rfl⟩
  · rw [Fits, h.context]
    exact ⟨hkey.symm, hcharacter.symm⟩
  · exact (h.activeFor.trans hactive).symm

end CharState

/-- The states of the engines under a key are the same. -/
def SameUnder (lib : CompiledLibrary P) (key : Str) (s u : CharState P) : Prop :=
  ∃ C : CharacterContext, C.key = key ∧ s.Same lib C u

/-- The characters of the two maps are the same but for what was compiled. -/
def SameCharacters (lib : CompiledLibrary P) (m n : ExtTreeMap Str (CharState P)) : Prop :=
  ∀ key, Option.Rel (SameUnder lib key) m[key]? n[key]?

namespace SameCharacters
variable {lib : CompiledLibrary P} {m n : ExtTreeMap Str (CharState P)}

theorem insert (h : SameCharacters lib m n) {C : CharacterContext} {s u : CharState P} (hsame : s.Same lib C u) :
    SameCharacters lib (m.insert C.key s) (n.insert C.key u) := by
  intro key
  rw [ExtTreeMap.getElem?_insert_ite, ExtTreeMap.getElem?_insert_ite]
  split
  · rename_i hkey
    exact .some ⟨C, hkey, hsame⟩
  · exact h key

theorem advance {step : ExtTreeMap Str (CharState P) × ActionBatch → Str × CharState P →
      ExtTreeMap Str (CharState P) × ActionBatch} (now : EngineMillis)
    (hstep : ∀ s e, step s e = (s.1.insert e.1 (e.2.advance lib now s.2).1, (e.2.advance lib now s.2).2))
    (h : SameCharacters lib m n) (batch : ActionBatch) :
    SameCharacters lib (m.toList.foldl step (m, batch)).1 (n.toList.foldl step (n, batch)).1 ∧
      (m.toList.foldl step (m, batch)).2 = (n.toList.foldl step (n, batch)).2 := by
  have hlists := ExtTreeMap.forall₂_toList (R := SameUnder lib) h
  generalize m.toList = l at hlists
  generalize n.toList = l' at hlists
  induction hlists generalizing m n batch with
  | nil => exact ⟨h, rfl⟩
  | @cons e e' l l' he _ ih =>
    obtain ⟨hkey, C, hC, hsame⟩ := he
    obtain ⟨hafter, hbatch⟩ := hsame.framed (CharState.advance_framed lib now batch)
    rw [List.foldl_cons, List.foldl_cons, hstep, hstep, ← hkey, ← hC]
    dsimp only at hbatch ⊢
    rw [← hbatch]
    exact ih (h.insert hafter) _

end SameCharacters

/-- Engines that have emitted the same and go on alike. -/
structure EngineRun.Same (r q : EngineRun P) : Prop where
  compiled : q.1.compiled = r.1.compiled
  characters : SameCharacters r.1.compiled r.1.characters q.1.characters
  outputs : q.2 = r.2

theorem EngineRun.Same.processLine {r q : EngineRun P} (h : r.Same q) {context : CharacterContext} {line : Str}
    (logTime : Option Str) (now : EngineMillis) (hcarries : r.Carries (.processLine context line logTime now)) :
    (r.call (.processLine context line logTime now)).Same (q.callFresh (.processLine context line logTime now)) := by
  by_cases hline : line.isEmpty = true
  · have hleft : r.1.processLine context line logTime now = (r.1, .empty) := if_pos hline
    have hright : q.1.processLineFresh context line logTime now = (q.1, .empty) := if_pos hline
    dsimp only [EngineRun.call, EngineRun.callFresh, EngineRun.callWith]
    rw [hleft, hright, h.outputs]
    exact ⟨h.compiled, h.characters, rfl⟩
  · have hcarries := hcarries.resolve_left hline
    have hstate : ∃ C : CharacterContext, C.key = context.key ∧
        (r.1.stateFor context).Same r.1.compiled C ((q.1.stateFor context).refresh r.1.compiled context) := by
      have hrel := h.characters context.key
      rw [TriggerEngine.stateFor, TriggerEngine.stateFor, h.compiled]
      cases hr : r.1.characters[context.key]? with
      | none =>
        rw [hr] at hrel
        cases hq : q.1.characters[context.key]? with
        | none => exact ⟨context, rfl, CharState.same_freshState context⟩
        | some u => rw [hq] at hrel; cases hrel
      | some s =>
        rw [hr] at hrel
        cases hq : q.1.characters[context.key]? with
        | none => rw [hq] at hrel; cases hrel
        | some u =>
          rw [hq] at hrel
          cases hrel with
          | some hsame =>
            obtain ⟨C, hC, hsame⟩ := hsame
            obtain ⟨hcharacter, hactive⟩ := hcarries s hr
            rw [hsame.context] at hcharacter hactive
            exact ⟨C, hC, hsame.refresh hC hcharacter hactive⟩
    obtain ⟨C, hC, hsame⟩ := hstate
    obtain ⟨hafter, hbatch⟩ := hsame.processLine line logTime now
    have hleft : r.1.processLine context line logTime now =
        (⟨r.1.compiled, r.1.characters.insert C.key
            ((r.1.stateFor context).processLine r.1.compiled line logTime now).1⟩,
          ((r.1.stateFor context).processLine r.1.compiled line logTime now).2) := by
      rw [hC]
      exact if_neg hline
    have hright : q.1.processLineFresh context line logTime now =
        (⟨q.1.compiled, q.1.characters.insert C.key
            (((q.1.stateFor context).refresh r.1.compiled context).processLine r.1.compiled line logTime now).1⟩,
          ((r.1.stateFor context).processLine r.1.compiled line logTime now).2) := by
      rw [hC, hbatch, ← h.compiled]
      exact if_neg hline
    dsimp only [EngineRun.call, EngineRun.callFresh, EngineRun.callWith]
    rw [hleft, hright, h.outputs]
    exact ⟨h.compiled, h.characters.insert hafter, rfl⟩

/-- A call that carries the character of its key does the same to both engines. -/
theorem EngineRun.Same.call {r q : EngineRun P} (h : r.Same q) {c : EngineCall} (hcarries : r.Carries c) :
    (r.call c).Same (q.callFresh c) := by
  cases c with
  | processLine context line logTime now => exact h.processLine logTime now hcarries
  | advance now =>
    obtain ⟨hcompiled, hcharacters, houtputs⟩ := h
    obtain ⟨⟨lib, characters⟩, outputs⟩ := r
    obtain ⟨⟨lib', characters'⟩, outputs'⟩ := q
    dsimp only at hcompiled hcharacters houtputs
    subst hcompiled houtputs
    obtain ⟨hafter, hbatch⟩ := hcharacters.advance now (fun _ _ => rfl) .empty
    exact ⟨rfl, hafter, congrArg (fun batch => outputs' ++ [batch]) hbatch.symm⟩
  | removeCharacter key =>
    refine ⟨h.compiled, fun key' => ?_, h.outputs⟩
    dsimp only [EngineRun.call, EngineRun.callFresh, EngineRun.callWith, TriggerEngine.removeCharacter]
    rw [ExtTreeMap.getElem?_erase_ite, ExtTreeMap.getElem?_erase_ite]
    split
    · exact .none
    · exact h.characters key'
  | clearVariables key =>
    refine ⟨h.compiled, fun key' => ?_, h.outputs⟩
    dsimp only [EngineRun.call, EngineRun.callFresh, EngineRun.callWith, TriggerEngine.clearVariables]
    rw [ExtTreeMap.getElem?_modify_ite, ExtTreeMap.getElem?_modify_ite]
    have hclear : CharState.Framed fun state : CharState P => ({ state with vars := .empty }, ()) := fun _ _ _ => rfl
    have hrel := h.characters key'
    split
    · generalize r.1.characters[key']? = x at hrel ⊢
      generalize q.1.characters[key']? = y at hrel ⊢
      cases hrel with
      | none => exact .none
      | some hsame =>
        obtain ⟨C, hC, hsame⟩ := hsame
        exact .some ⟨C, hC, (hsame.framed hclear).1⟩
    · exact hrel

/-- Lines that come with the character of their key are evaluated in the context they come with: what
the engine emits is what it would emit without keeping anything of the contexts. -/
theorem EngineRun.lines_use_context (library : TriggerLibrary P) (calls : List EngineCall)
    (h : Along EngineRun.Carries EngineRun.call (TriggerEngine.new (.compile library), []) calls) :
    (calls.foldl EngineRun.call (TriggerEngine.new (.compile library), [])).2 =
      (calls.foldl EngineRun.callFresh (TriggerEngine.new (.compile library), [])).2 := by
  have hrun : ∀ r q : EngineRun P, r.Same q → Along EngineRun.Carries EngineRun.call r calls →
      (calls.foldl EngineRun.call r).Same (calls.foldl EngineRun.callFresh q) := by
    clear h
    induction calls with
    | nil => exact fun r q hsame _ => hsame
    | cons c calls ih => exact fun r q hsame hcalls => ih _ _ (hsame.call hcalls.1) hcalls.2
  have hempty : SameCharacters (CompiledLibrary.compile library) ∅ ∅ := fun key => by
    rw [ExtTreeMap.getElem?_empty]
    exact .none
  exact (hrun _ _ ⟨rfl, hempty, rfl⟩ h).outputs.symm

/-- A trigger that looks for the name of the character. -/
def Literal.nameLibrary : TriggerLibrary Literal.platform :=
  Literal.library [Literal.trigger 1 ⟨"{c}".toList, false⟩ "that is me".toList none]

/-- Two lines of one character. -/
theorem EngineRun.lines_use_context_name :
    ([.processLine Literal.bilka "Bilka waves".toList none 0, .advance 5,
      .processLine Literal.bilka "Bilka bows".toList none 10].foldl EngineRun.call
        (TriggerEngine.new (.compile Literal.nameLibrary), [])).2 =
    ([.processLine Literal.bilka "Bilka waves".toList none 0, .advance 5,
      .processLine Literal.bilka "Bilka bows".toList none 10].foldl EngineRun.callFresh
        (TriggerEngine.new (.compile Literal.nameLibrary), [])).2 :=
  EngineRun.lines_use_context Literal.nameLibrary _ (by decide +kernel)

/-- The client process of one character goes on with another. -/
def Literal.saabra : CharacterContext := ⟨"pid:1".toList, "Saabra".toList, "teek".toList⟩

/-- The second character's line is evaluated with the first one's name. -/
theorem EngineRun.line_of_switched_character :
    ([.processLine Literal.bilka "x".toList none 0, .processLine Literal.saabra "Saabra waves".toList none 5].foldl
        EngineRun.call (TriggerEngine.new (.compile Literal.nameLibrary), [])).2.map (·.events.length) = [0, 0] ∧
      ([.processLine Literal.bilka "x".toList none 0, .processLine Literal.saabra "Saabra waves".toList none 5].foldl
        EngineRun.callFresh (TriggerEngine.new (.compile Literal.nameLibrary), [])).2.map (·.events.length) = [0, 1] := by
  decide +kernel

end Stonemite.Triggers
