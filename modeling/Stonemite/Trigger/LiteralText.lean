import Stonemite.Trigger.SinglePass
import Stonemite.Trigger.Stages

/-!
# Text in expressions

A trigger pattern is expanded and then given the name of the character, escaped. An ender is given the captured texts and
the name as they are, and expanded after that: the texts stand for themselves where no character of them has a meaning in
an expression or in a macro. `EnderPlain` is the condition on the texts; under it `enderPattern_eq` turns each pass into
the literal one, and `substituted_text_literal` is the result for patterns and enders.
-/

open Std

namespace Stonemite.Triggers

/-! ### Trigger patterns -/

/-- The expression of a pattern for a character: its macros are expanded, and each code for the name is the escaped name. -/
def characterExpression (P : Platform) (pattern : Pattern) (character : Str) : Str :=
  (codeMarks characterCode 0 (expand P pattern.text).pattern).flatMap (unmarkCode (P.escape character))

/-- What a pattern matches for a character. -/
def literalRegex (P : Platform) (pattern : Pattern) (character : Str) : Option (CompatRegex P) :=
  (CompatRegex.compile P (if containsCode pattern.text characterCode then characterExpression P pattern character
    else (expand P pattern.text).pattern)).toOption

/-- The regex that a state matches lines with. -/
def CharState.regexOf {P : Platform} (state : CharState P) (index : Nat) (isPrevious : Bool) :
    Matcher P → Option (CompatRegex P)
  | .literal _ _ => none
  | .regex regex _ _ expandedPattern needsCharacter =>
    if needsCharacter then (state.characterRegex index isPrevious expandedPattern).2 else some regex

section
variable {P : Platform}

theorem CharState.matchLine_regexOf (state : CharState P) (index : Nat) (line : Str) (isPrevious : Bool)
    {regex : CompatRegex P} {constraints : List NumberConstraint} {prefilter : Prefilter} {expandedPattern : Str}
    {needsCharacter : Bool} (hadmits : prefilter.admits line = true) :
    (state.matchLine index line isPrevious (.regex regex constraints prefilter expandedPattern needsCharacter)).2 =
      (state.regexOf index isPrevious (.regex regex constraints prefilter expandedPattern needsCharacter)).bind
        fun regex => (state.matchRegex index line constraints regex).2 := by
  have hmatch : ∀ s : CharState P, ∀ r, (s.matchRegex index line constraints r).2 =
      (state.matchRegex index line constraints r).2 := by
    intro s r
    unfold matchRegex
    split <;> rfl
  unfold matchLine regexOf
  cases needsCharacter with
  | false => simp [hadmits]
  | true =>
    simp only [hadmits, Bool.not_true, Bool.false_eq_true, if_false, if_true]
    generalize state.characterRegex index isPrevious expandedPattern = found
    obtain ⟨s, _ | r⟩ := found
    · rfl
    · exact hmatch s r

theorem regexFor_eq (pattern : Pattern) (context : CharacterContext) :
    regexFor P (expand P pattern.text).pattern context =
      (CompatRegex.compile P (characterExpression P pattern context.character)).toOption := by
  rw [regexFor, replaceCode_eq (by decide), characterExpression]

/-- In a state that keeps the regexes of its character a pattern is matched with its literal regex. -/
theorem CharState.regexOf_eq {lib : CompiledLibrary P} {state : CharState P} (hstate : state.frame.Compiled lib)
    {compiled : CompiledTrigger P} {index : Nat} {isPrevious : Bool} {matcher : Matcher P} {pattern : Pattern}
    (hlib : lib.triggers[index]? = some compiled) (hmatcher : compiled.matcherFor isPrevious = some matcher)
    (hpattern : compileMatcher P pattern = .ok matcher) (hregex : pattern.useRegex = true) :
    state.regexOf index isPrevious matcher = literalRegex P pattern state.context.character := by
  unfold compileMatcher at hpattern
  dsimp only at hpattern
  rw [if_neg (by simp [hregex])] at hpattern
  unfold literalRegex
  split at hpattern
  · rename_i hneeds
    split at hpattern
    · cases hpattern
    · cases hpattern
      obtain ⟨regexes, hlookup, -⟩ := characterRegex_spec hstate hlib hmatcher
      rw [if_pos hneeds, ← regexFor_eq, regexOf, if_pos rfl, hlookup]
  · rename_i hneeds
    split at hpattern
    · cases hpattern
    · rename_i regex hcompile
      cases hpattern
      rw [if_neg hneeds, hcompile]
      rfl

/-! ### States of a run -/

theorem SameCharacters.call {r : EngineRun P} (h : SameCharacters r.1.compiled r.1.characters r.1.characters)
    (c : EngineCall) :
    (r.call c).1.compiled = r.1.compiled ∧
      SameCharacters r.1.compiled (r.call c).1.characters (r.call c).1.characters := by
  cases c with
  | processLine context line logTime now =>
    by_cases hline : line.isEmpty = true
    · have hsame : r.1.processLine context line logTime now = (r.1, .empty) := if_pos hline
      dsimp only [EngineRun.call, EngineRun.callWith]
      rw [hsame]
      exact ⟨rfl, h⟩
    · have hstate : ∃ C : CharacterContext, C.key = context.key ∧
          (r.1.stateFor context).Same r.1.compiled C (r.1.stateFor context) := by
        have hrel := h context.key
        rw [TriggerEngine.stateFor]
        cases hr : r.1.characters[context.key]? with
        | none => exact ⟨context, rfl, CharState.same_freshState context⟩
        | some s =>
          rw [hr] at hrel
          cases hrel with
          | some hsame => exact hsame
      obtain ⟨C, hC, hsame⟩ := hstate
      obtain ⟨hafter, -⟩ := hsame.processLine line logTime now
      have hdone : r.1.processLine context line logTime now =
          (⟨r.1.compiled, r.1.characters.insert C.key
              ((r.1.stateFor context).processLine r.1.compiled line logTime now).1⟩,
            ((r.1.stateFor context).processLine r.1.compiled line logTime now).2) := by
        rw [hC]
        exact if_neg hline
      dsimp only [EngineRun.call, EngineRun.callWith]
      rw [hdone]
      exact ⟨rfl, h.insert hafter⟩
  | advance now => exact ⟨rfl, (h.advance now (fun _ _ => rfl) .empty).1⟩
  | removeCharacter key =>
    refine ⟨rfl, fun key' => ?_⟩
    dsimp only [EngineRun.call, EngineRun.callWith, TriggerEngine.removeCharacter]
    rw [ExtTreeMap.getElem?_erase_ite]
    split
    · exact .none
    · exact h key'
  | clearVariables key =>
    refine ⟨rfl, fun key' => ?_⟩
    dsimp only [EngineRun.call, EngineRun.callWith, TriggerEngine.clearVariables]
    rw [ExtTreeMap.getElem?_modify_ite]
    have hclear : CharState.Framed fun state : CharState P => ({ state with vars := .empty }, ()) := fun _ _ _ => rfl
    have hrel := h key'
    split
    · generalize r.1.characters[key']? = x at hrel ⊢
      cases hrel with
      | none => exact .none
      | some hsame =>
        obtain ⟨C, hC, hsame⟩ := hsame
        exact .some ⟨C, hC, (hsame.framed hclear).1⟩
    · exact hrel

/-- In every run the states keep regexes compiled for their characters. -/
theorem compiled_of_run (library : TriggerLibrary P) (calls : List EngineCall) {key : Str} {state : CharState P}
    (h : (calls.foldl EngineRun.call (TriggerEngine.new (.compile library), [])).1.characters[key]? = some state) :
    state.frame.Compiled (.compile library) := by
  have hrun : ∀ r : EngineRun P, r.1.compiled = .compile library →
      SameCharacters (.compile library) r.1.characters r.1.characters →
      SameCharacters (.compile library) (calls.foldl EngineRun.call r).1.characters
        (calls.foldl EngineRun.call r).1.characters := by
    clear h
    induction calls with
    | nil => exact fun r _ hsame => hsame
    | cons c calls ih =>
      intro r hcompiled hsame
      rw [← hcompiled] at hsame
      obtain ⟨hcompiled', hsame'⟩ := hsame.call c
      rw [hcompiled] at hsame' hcompiled'
      exact ih _ hcompiled' hsame'
  have hempty : SameCharacters (CompiledLibrary.compile library) ∅ ∅ := fun key => by
    rw [ExtTreeMap.getElem?_empty]
    exact .none
  have hrel := hrun (TriggerEngine.new (.compile library), []) rfl hempty key
  rw [h] at hrel
  cases hrel with
  | some hsame =>
    obtain ⟨C, -, hsame⟩ := hsame
    exact hsame.left

end

/-! ### Enders -/

/-- The characters that an expression or a macro reads as something else than themselves. Where a text lands inside a class
the `-`, behind `(?x)` the blanks, and before a quantifier the last character mean more than this; none of it is covered. -/
def isMeta (c : Char) : Bool := "\\.+*?()|[]\x7b\x7d^$".toList.contains c

def hexEscape (c : Char) : Str := '\\' :: 'x' :: Nat.toDigits 16 c.toNat

/-- An expression for the very text. It has no braces, so the macros leave it as it is. -/
def quote (text : Str) : Str := text.flatMap fun c => if isMeta c then hexEscape c else [c]

theorem quote_of_all {text : Str} (h : text.all (!isMeta ·) = true) : quote text = text := by
  induction text with
  | nil => rfl
  | cons c text ih =>
    rw [List.all_cons, Bool.and_eq_true, Bool.not_eq_true'] at h
    rw [quote, List.flatMap_cons, if_neg (by simp [h.1])]
    exact congrArg (c :: ·) (ih h.2)

/-- What an ender is resolved against. -/
structure EnderSources where
  captures : MatchMap
  previous : MatchMap
  character : Str

/-- What the enders of a firing are resolved against. -/
def Firing.sources (f : Firing) (character : Str) : EnderSources := ⟨f.captures, f.previousMatches, character⟩

namespace EnderSources
variable (sources : EnderSources)

def isCharacter (name : Str) : Bool := name.eqIgnoreAsciiCase ['c']

/-- The name of the character, for that name. -/
def characterValue (name : Str) : Option Str := if isCharacter name then some sources.character else none

/-- The value of the first source that has the name. -/
def value (name : Str) : Option Str :=
  (sources.captures.get name).or ((sources.previous.get name).or (sources.characterValue name))

end EnderSources

section
variable {P : Platform}

variable (P) in
/-- The expression of an ender with each token as the very text its first source has for it. -/
def literalPattern (sources : EnderSources) (template : Str) : Str :=
  fill (fun t => (resolveName P sources.value t).map quote) (scan template)

variable (P) in
/-- The ender with a pattern for its text. -/
def enderOf (useRegex : Bool) (pattern : Str) : Option (CompiledEnder P) :=
  if useRegex then
    let expanded := expand P pattern
    (CompatRegex.compile P expanded.pattern).toOption.map fun regex => .regex regex expanded.constraints
  else some (.literal pattern)

variable (P) in
/-- The text of an ender when its timer starts. -/
def enderPattern (sources : EnderSources) (template : Str) : Str :=
  replaceCode (replaceFromMatches P (replaceFromMatches P template (some sources.captures)) (some sources.previous))
    characterCode sources.character

theorem CompiledTrigger.earlyEnders_eq (compiled : CompiledTrigger P) (sources : EnderSources) :
    compiled.earlyEnders sources.character sources.captures sources.previous =
      compiled.enderTemplates.filterMap fun template =>
        enderOf P template.useRegex (enderPattern P sources template.text) := rfl

/-- The enders of a timer with the texts in their expressions taken literally. -/
def CompiledTrigger.literalEnders (compiled : CompiledTrigger P) (sources : EnderSources) : List (CompiledEnder P) :=
  compiled.enderTemplates.filterMap fun template =>
    enderOf P template.useRegex
      (if template.useRegex then literalPattern P sources template.text else enderPattern P sources template.text)

section
variable (P) (sources : EnderSources) (template : Str)

/-- The template with the captures in it. -/
def withCaptures : List Part := ((scan template).map Piece.part).map (Part.step (resolveName P sources.captures.get))

/-- And with those of the line before. -/
def withPrevious : List Part :=
  (withCaptures P sources template).map (Part.step (resolveName P sources.previous.get))

end

/-- The text of a token has no character with a meaning in an expression. -/
def Piece.Plain (resolve : TemplateToken → Option Str) : Piece → Prop
  | char _ => True
  | token t => ∀ value ∈ resolve t, value.all (!isMeta ·) = true

instance (resolve : TemplateToken → Option Str) : DecidablePred (Piece.Plain resolve)
  | .char _ => inferInstanceAs (Decidable True)
  | .token t => inferInstanceAs (Decidable (∀ value ∈ resolve t, value.all (!isMeta ·) = true))

variable (P) in
/-- The later passes find the tokens of the template, and all that is filled in is plain. -/
structure EnderPlain (sources : EnderSources) (template : Str) : Prop where
  previous : Reads (resolveName P sources.previous.get) (withCaptures P sources template)
  character : ReadsCode characterCode EnderSources.isCharacter (withPrevious P sources template)
  plain : ∀ piece ∈ scan template, piece.Plain (resolveName P sources.value)

theorem literalEnders_length {compiled : CompiledTrigger P} {sources : EnderSources}
    (h : ∀ template ∈ compiled.enderTemplates, template.useRegex = true →
      (enderOf P true (literalPattern P sources template.text)).isSome) :
    (compiled.literalEnders sources).length = compiled.enderTemplates.length := by
  refine List.filterMap_length_eq_length.mpr fun template htemplate => ?_
  cases hregex : template.useRegex with
  | false => rfl
  | true =>
    rw [if_pos rfl]
    exact h template htemplate hregex

theorem fill_quote {resolve : TemplateToken → Option Str} {pieces : List Piece}
    (h : ∀ piece ∈ pieces, piece.Plain resolve) : fill (fun t => (resolve t).map quote) pieces = fill resolve pieces := by
  unfold fill
  refine List.flatMap_congr fun piece hpiece => ?_
  have hplain := h piece hpiece
  cases piece with
  | char c => rfl
  | token t =>
    dsimp only
    cases hvalue : resolve t with
    | none => rfl
    | some value => exact quote_of_all (hplain value hvalue)

theorem enderPattern_eq (htokens : P.Tokens) {sources : EnderSources} {template : Str}
    (h : EnderPlain P sources template) : enderPattern P sources template = literalPattern P sources template := by
  have hcaptures : replaceFromMatches P template (some sources.captures) = flatten (withCaptures P sources template) :=
    (replaceFromMatches_eq htokens template (some sources.captures)).trans (fill_eq _ _)
  have hprevious : replaceFromMatches P (flatten (withCaptures P sources template)) (some sources.previous) =
      flatten (withPrevious P sources template) :=
    (replaceFromMatches_eq htokens _ (some sources.previous)).trans (fill_of_reads h.previous)
  rw [enderPattern, hcaptures, hprevious, replaceCode_of_reads (P := P) (by decide) h.character, literalPattern,
    fill_quote h.plain, fill_eq]
  refine congrArg flatten ?_
  simp only [withPrevious, withCaptures, List.map_map]
  refine List.map_congr_left fun piece _ => ?_
  simp only [Function.comp_apply, step_step]
  congr 1
  funext t
  unfold EnderSources.value EnderSources.characterValue
  simp only [resolveName_or, Option.or_assoc]

end

theorem CharState.mem_startTimer {P : Platform} {state : CharState P} {compiled : CompiledTrigger P}
    {behavior : TimerBehavior P} {index : Nat} {displayName template : Str} {dynamicDuration : Option P.F64} {f : Firing}
    {timer : ActiveTimer P}
    (h : timer ∈ (state.startTimer compiled behavior index displayName template dynamicDuration f).timers) :
    timer ∈ state.timers ∨ timer = compiled.newTimer behavior state index displayName template dynamicDuration f := by
  unfold startTimer at h
  split at h
  · exact .inl h
  · rename_i timers hadmits
    obtain ⟨keep, rfl⟩ := TimerRestartMode.admits_filter hadmits
    rcases List.mem_append.mp h with hkept | hnew
    · exact .inl (List.mem_of_mem_filter hkept)
    · exact .inr (List.mem_singleton.mp hnew)

/-- The patterns of a character are compiled with its escaped name; the enders of a timer that starts take the texts they are
given literally if the texts are plain and no pass reads what an earlier one filled in. -/
theorem substituted_text_literal {P : Platform} (htokens : P.Tokens) (library : TriggerLibrary P) :
    (∀ (calls : List EngineCall) (key : Str) (state : CharState P),
      (calls.foldl EngineRun.call (TriggerEngine.new (.compile library), [])).1.characters[key]? = some state →
      ∀ (index : Nat) (compiled : CompiledTrigger P) (isPrevious : Bool) (matcher : Matcher P) (pattern : Pattern),
        (CompiledLibrary.compile library).triggers[index]? = some compiled →
        compiled.matcherFor isPrevious = some matcher → compileMatcher P pattern = .ok matcher →
        pattern.useRegex = true →
        state.regexOf index isPrevious matcher = literalRegex P pattern state.context.character) ∧
    ∀ compiled ∈ (CompiledLibrary.compile library).triggers, ∀ sources : EnderSources,
      (∀ template ∈ compiled.enderTemplates, template.useRegex = true → EnderPlain P sources template.text) →
      compiled.earlyEnders sources.character sources.captures sources.previous = compiled.literalEnders sources ∧
        ((∀ template ∈ compiled.enderTemplates, template.useRegex = true →
            (enderOf P true (literalPattern P sources template.text)).isSome) →
          (compiled.earlyEnders sources.character sources.captures sources.previous).length =
            compiled.enderTemplates.length) ∧
        ∀ (state : CharState P) (f : Firing), f.sources state.context.character = sources →
          ∀ (behavior : TimerBehavior P) (index : Nat) (displayName template : Str) (dynamicDuration : Option P.F64),
            ∀ timer ∈ (state.startTimer compiled behavior index displayName template dynamicDuration f).timers,
              timer ∈ state.timers ∨ timer.earlyEnders = compiled.literalEnders sources := by
  constructor
  · intro calls key state hstate index compiled isPrevious matcher pattern hlib hmatcher hpattern hregex
    exact CharState.regexOf_eq (compiled_of_run library calls hstate) hlib hmatcher hpattern hregex
  · intro compiled _ sources hplain
    have henders : compiled.earlyEnders sources.character sources.captures sources.previous =
        compiled.literalEnders sources := by
      rw [CompiledTrigger.earlyEnders_eq, CompiledTrigger.literalEnders]
      refine List.filterMap_congr fun template htemplate => ?_
      cases hregex : template.useRegex with
      | false => rfl
      | true => rw [enderPattern_eq htokens (hplain template htemplate hregex), if_pos rfl]
    refine ⟨henders, fun hcompiled => ?_, ?_⟩
    · rw [henders]
      exact literalEnders_length hcompiled
    · rintro state f rfl behavior index displayName template dynamicDuration timer htimer
      rcases CharState.mem_startTimer htimer with hkept | rfl
      · exact .inl hkept
      · exact .inr henders

namespace Literal

/-- The value of a hexadecimal digit. -/
def hexValue (c : Char) : Nat := if Str.isAsciiDigit c then c.toNat - '0'.toNat else c.toNat - 'a'.toNat + 10

/-- An expression of letters, digits, spaces and characters by their codes. -/
def parseQuoted : Str → Option Str
  | [] => some []
  | '\\' :: 'x' :: a :: b :: rest => (parseQuoted rest).map (Char.ofNat (16 * hexValue a + hexValue b) :: ·)
  | c :: rest => if searchable c then (parseQuoted rest).map (c :: ·) else none

/-- The least platform with quoted texts. -/
def quotedPlatform : Platform :=
  { tokenPlatform with
    build := fun pattern _ => match parseQuoted (pattern.drop 4) with
      | some text => .ok [text]
      | none => .error "unsupported".toList }

theorem quotedPlatform_tokens : quotedPlatform.Tokens := tokenPlatform_tokens

/-- A timer for a mezmerized creature. It ends when the creature dies. -/
def mezTimer : TimerBehavior quotedPlatform where
  kind := .countdown
  timerName := "mez".toList
  durationSeconds := (30 : Int)
  resetDurationSeconds := (0 : Int)
  timesToLoop := 0
  restartMode := .startNew
  warningSeconds := 0
  warning := {}
  finish := {}
  earlyEnd := {}
  endEarlyPatterns := [⟨"\x7bs1\x7d dies".toList, true⟩]
  endEarlyRepeatedCount := 0
  endClearVariables := []

/-- A trigger whose timer ends with a line that names its target. -/
def mez : Trigger quotedPlatform where
  id := 1
  name := "mez".toList
  folder := none
  enabled := true
  pattern := ⟨"\x7bc\x7d mezmerizes".toList, true⟩
  previousPattern := none
  condition := []
  lockoutSeconds := (0 : Int)
  repeatedResetSeconds := (0 : Int)
  variableActions := []
  displayText := none
  speakText := none
  sound := none
  timer := some mezTimer
  priority := 3
  voiceRate := 0
  volume := 4
  textOverlays := []
  timerOverlays := []
  fontColor := none
  activeColor := none
  idleColor := none
  resetColor := none
  target := .source
  quarantined := false

def mezLibrary : TriggerLibrary quotedPlatform := ⟨[], [mez], []⟩

/-- The sources after the line has named the target. -/
def mezSources (target : Str) : EnderSources := ⟨⟨[("s1".toList, target)]⟩, .new, "Bilka".toList⟩

/-- The state before the first line. -/
def mezBefore : CharState quotedPlatform := TriggerEngine.freshState (.compile mezLibrary) bilka

/-- The trigger fires for a target. -/
def mezFiring : Firing := ⟨"Bilka mezmerizes".toList, none, (mezSources "Fippy".toList).captures, .new, 0, 0, -1⟩

end Literal

/-- The first line makes a state; an ender is made for a name of letters. -/
theorem Literal.mez_literal :
    (∃ compiled, (CompiledLibrary.compile mezLibrary).triggers[0]? = some compiled ∧
      compiled.earlyEnders "Bilka".toList (mezSources "Fippy".toList).captures .new =
        compiled.literalEnders (mezSources "Fippy".toList) ∧
      (compiled.earlyEnders "Bilka".toList (mezSources "Fippy".toList).captures .new).length =
        compiled.enderTemplates.length ∧
      ∀ timer ∈ (mezBefore.startTimer compiled mezTimer 0 "mez".toList "mez".toList none mezFiring).timers,
        timer.earlyEnders = compiled.literalEnders (mezSources "Fippy".toList)) ∧
    ∃ (state : CharState quotedPlatform) (matcher : Matcher quotedPlatform),
      ([.processLine bilka "Bilka mezmerizes".toList none 0].foldl EngineRun.call
        (TriggerEngine.new (.compile mezLibrary), [])).1.characters["pid:1".toList]? = some state ∧
      state.regexOf 0 false matcher = literalRegex quotedPlatform mez.pattern state.context.character := by
  obtain ⟨hpatterns, henders⟩ := substituted_text_literal quotedPlatform_tokens mezLibrary
  obtain ⟨compiled, hcompiled, htemplates, hmatcher⟩ : ∃ compiled,
      (CompiledLibrary.compile mezLibrary).triggers[0]? = some compiled ∧
      compiled.enderTemplates = [⟨"\x7bs1\x7d dies".toList, true⟩] ∧
      compileMatcher quotedPlatform mez.pattern = .ok compiled.matcher := ⟨_, rfl, rfl, rfl⟩
  have hplain : EnderPlain quotedPlatform (mezSources "Fippy".toList) "\x7bs1\x7d dies".toList :=
    ⟨by decide +kernel, ⟨by decide +kernel, by decide +kernel⟩, by decide +kernel⟩
  have hcompiles : (enderOf quotedPlatform true
      (literalPattern quotedPlatform (mezSources "Fippy".toList) "\x7bs1\x7d dies".toList)).isSome = true := by
    decide +kernel
  obtain ⟨hequal, hlength, hstarts⟩ := henders compiled (List.mem_of_getElem? hcompiled) (mezSources "Fippy".toList) (by
    intro template htemplate _
    rw [htemplates, List.mem_singleton] at htemplate
    exact htemplate ▸ hplain)
  have hlength := hlength (by
    intro template htemplate _
    rw [htemplates, List.mem_singleton] at htemplate
    exact htemplate ▸ hcompiles)
  obtain ⟨state, hstate⟩ := Option.isSome_iff_exists.mp (show
    (([.processLine bilka "Bilka mezmerizes".toList none 0].foldl EngineRun.call
      (TriggerEngine.new (.compile mezLibrary), [])).1.characters["pid:1".toList]?).isSome = true by decide +kernel)
  have hstarted (timer) (htimer : timer ∈ (mezBefore.startTimer compiled mezTimer 0 "mez".toList "mez".toList none
      mezFiring).timers) : timer.earlyEnders = compiled.literalEnders (mezSources "Fippy".toList) :=
    (hstarts mezBefore mezFiring rfl mezTimer 0 "mez".toList "mez".toList none timer
      htimer).resolve_left (List.not_mem_nil)
  exact ⟨⟨compiled, hcompiled, hequal, hlength, hstarted⟩, state, compiled.matcher, hstate,
    hpatterns _ _ state hstate 0 compiled false compiled.matcher mez.pattern hcompiled rfl hmatcher rfl⟩

/-- A name with an opening parenthesis: the ender is dropped, where the literal one finds the line. -/
theorem Literal.mez_dropped :
    ((CompiledLibrary.compile mezLibrary).triggers.map fun compiled =>
      ((compiled.earlyEnders "Bilka".toList (mezSources "Fippy (pet".toList).captures .new).length,
        (compiled.literalEnders (mezSources "Fippy (pet".toList)).any fun ender =>
          (ender.matches quotedPlatform "Fippy (pet dies".toList).isSome)) = [(0, true)] := by
  decide +kernel

end Stonemite.Triggers
