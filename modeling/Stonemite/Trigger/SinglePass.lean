import Stonemite.Trigger.Literal
import Stonemite.Trigger.Tokens

/-!
# A template read once

A template is filled in by one source after another, each reading the text that the earlier ones left. That is the
template with each token as its first source has it, where no pass reads what an earlier one inserted. `ReadsOnce` is the
condition, pass by pass; `resolveTemplate_eq_singlePass` follows by `flatten_map_step`.
-/

namespace Stonemite.Triggers

/-- What a template is resolved against. -/
structure TemplateSources where
  original : Option MatchMap
  current : Option MatchMap
  previous : Option MatchMap
  line : Str
  vars : MatchMap

namespace TemplateSources
variable (sources : TemplateSources)

/-- The capture of the first match. -/
def originalValue (name : Str) : Option Str := sources.original.bind (·.get name)

def currentValue (name : Str) : Option Str := sources.current.bind (·.get name)

/-- The capture of the line before. -/
def previousValue (name : Str) : Option Str := sources.previous.bind (·.get name)

def isLine (name : Str) : Bool := name.eqIgnoreAsciiCase ['l']

def lineValue (name : Str) : Option Str := if isLine name then some sources.line else none

/-- The value of the first source that has the name. -/
def value (name : Str) : Option Str :=
  (sources.originalValue name).or ((sources.currentValue name).or ((sources.previousValue name).or
    ((sources.lineValue name).or (sources.vars.get name))))

end TemplateSources

/-- The template with each token as its first source has it; the others stay. -/
def singlePass (P : Platform) (sources : TemplateSources) (template : Str) : Str :=
  fill (resolveName P sources.value) (scan template)

/-! ### Partly filled templates -/

/-- A part of a template that is being filled in; `inserted` is the text of a source. -/
inductive Part
  | char (c : Char)
  | token (t : TemplateToken)
  | inserted (text : Str)
deriving DecidableEq, Repr

def Part.text : Part → Str
  | char c => [c]
  | token t => t.text
  | inserted text => text

def Piece.part : Piece → Part
  | char c => .char c
  | token t => .token t

def flatten (parts : List Part) : Str := parts.flatMap Part.text

/-- One source fills in its tokens. -/
def Part.step (resolve : TemplateToken → Option Str) : Part → Part
  | token t => match resolve t with
    | some text => inserted text
    | none => token t
  | part => part

/-- A part with its tokens to resolve marked. -/
def Part.marks (resolve : TemplateToken → Option Str) : Part → List (Char ⊕ TemplateToken)
  | char c => [.inl c]
  | token t => if (resolve t).isSome then [.inr t] else t.text.map .inl
  | inserted text => text.map .inl

/-- In the text of the parts a pass finds the tokens among them that it resolves, and no others. -/
def Reads (resolve : TemplateToken → Option Str) (parts : List Part) : Prop :=
  ((scan (flatten parts)).map Piece.part).flatMap (Part.marks resolve) = parts.flatMap (Part.marks resolve)

instance (resolve : TemplateToken → Option Str) (parts : List Part) : Decidable (Reads resolve parts) :=
  inferInstanceAs (Decidable (_ = _))

/-- The occurrences of a code in a text. -/
def codeMarks (code : Str) : Nat → Str → List (Char ⊕ Unit)
  | _, [] => []
  | skip + 1, _ :: rest => codeMarks code skip rest
  | 0, c :: rest =>
    if code.toAsciiLowercase.isPrefixOf (Str.toAsciiLowercase (c :: rest)) then
      .inr () :: codeMarks code (code.length - 1) rest
    else .inl c :: codeMarks code 0 rest

/-- A part with the tokens of a name marked. -/
def Part.nameMarks (isName : Str → Bool) : Part → List (Char ⊕ Unit)
  | char c => [.inl c]
  | token t => if isName t.name then [.inr ()] else t.text.map .inl
  | inserted text => text.map .inl

/-- A token of the name is written as a code is. -/
def Part.Bare (isName : Str → Bool) : Part → Prop
  | token t => isName t.name = true → t.dollar = false ∧ t.modifier = none
  | _ => True

instance (isName : Str → Bool) : DecidablePred (Part.Bare isName)
  | .token t => inferInstanceAs (Decidable (isName t.name = true → t.dollar = false ∧ t.modifier = none))
  | .char _ => inferInstanceAs (Decidable True)
  | .inserted _ => inferInstanceAs (Decidable True)

/-- The pass for a code finds the tokens of its name and nothing else. -/
structure ReadsCode (code : Str) (isName : Str → Bool) (parts : List Part) : Prop where
  marks : codeMarks code 0 (flatten parts) = parts.flatMap (Part.nameMarks isName)
  bare : ∀ part ∈ parts, part.Bare isName

section
variable (P : Platform) (sources : TemplateSources) (template : Str)

/-- The template with the captures of the first match in it. -/
def afterOriginal : List Part :=
  ((scan template).map Piece.part).map (Part.step (resolveName P sources.originalValue))

/-- And with those of this match. -/
def afterCurrent : List Part :=
  (afterOriginal P sources template).map (Part.step (resolveName P sources.currentValue))

/-- And with those of the line before. -/
def afterPrevious : List Part :=
  (afterCurrent P sources template).map (Part.step (resolveName P sources.previousValue))

def afterLine : List Part :=
  (afterPrevious P sources template).map (Part.step (resolveName P sources.lineValue))

/-- In the template with the tokens of the earlier sources filled in, each later source finds the tokens of the template
that are its own, and no token that an inserted text has or completes. -/
structure ReadsOnce : Prop where
  current : Reads (resolveName P sources.currentValue) (afterOriginal P sources template)
  previous : Reads (resolveName P sources.previousValue) (afterCurrent P sources template)
  line : ReadsCode lineCode TemplateSources.isLine (afterPrevious P sources template)
  vars : Reads (resolveName P sources.vars.get) (afterLine P sources template)

end

/-! ### A pass that reads rightly -/

section
variable {P : Platform} {resolve : TemplateToken → Option Str} {parts : List Part} {code : Str} {isName : Str → Bool}

/-- A token becomes its value, where it has one. -/
def unmark (resolve : TemplateToken → Option Str) : Char ⊕ TemplateToken → Str
  | .inl c => [c]
  | .inr t => (resolve t).getD t.text

theorem flatMap_unmark_chars (resolve : TemplateToken → Option Str) (s : Str) : (s.map .inl).flatMap (unmark resolve) = s := by
  induction s with
  | nil => rfl
  | cons c s ih => exact congrArg (c :: ·) ih

theorem unmark_marks (resolve : TemplateToken → Option Str) (part : Part) :
    (part.marks resolve).flatMap (unmark resolve) = (part.step resolve).text := by
  cases part with
  | char c => rfl
  | inserted text => exact flatMap_unmark_chars resolve text
  | token t =>
    cases h : resolve t with
    | none =>
      simp only [Part.marks, Part.step, h, Option.isSome_none, Bool.false_eq_true, if_false]
      exact flatMap_unmark_chars resolve t.text
    | some text => simp [Part.marks, Part.step, unmark, h, Part.text]

theorem flatten_map_step (resolve : TemplateToken → Option Str) (parts : List Part) :
    flatten (parts.map (Part.step resolve)) = (parts.flatMap (Part.marks resolve)).flatMap (unmark resolve) := by
  rw [flatten, List.flatMap_map, List.flatMap_assoc]
  exact congrArg (List.flatMap · parts) (funext fun part => (unmark_marks resolve part).symm)

theorem fill_eq (resolve : TemplateToken → Option Str) (pieces : List Piece) :
    fill resolve pieces = flatten ((pieces.map Piece.part).map (Part.step resolve)) := by
  unfold fill flatten
  rw [List.flatMap_map, List.flatMap_map]
  congr 1
  funext piece
  cases piece with
  | char c => rfl
  | token t =>
    simp only [Piece.part, Part.step]
    cases resolve t <;> rfl

theorem fill_of_reads (h : Reads resolve parts) :
    fill resolve (scan (flatten parts)) = flatten (parts.map (Part.step resolve)) := by
  rw [fill_eq, flatten_map_step, flatten_map_step, h]

def unmarkCode (value : Str) : Char ⊕ Unit → Str
  | .inl c => [c]
  | .inr () => value

theorem replaceCodeLoop_eq (code value : Str) (skip : Nat) (text : Str) :
    replaceCodeLoop code value skip text = (codeMarks code skip text).flatMap (unmarkCode value) := by
  induction text generalizing skip with
  | nil => cases skip <;> rfl
  | cons c rest ih =>
    cases skip with
    | succ skip => exact ih skip
    | zero =>
      rw [replaceCodeLoop, codeMarks]
      split
      · rw [ih]; rfl
      · rw [ih]; rfl

theorem codeMarks_of_short {text : Str} (h : text.length < code.length) : codeMarks code 0 text = text.map .inl := by
  induction text with
  | nil => rfl
  | cons c rest ih =>
    have hnot : ¬code.toAsciiLowercase.isPrefixOf (Str.toAsciiLowercase (c :: rest)) = true := by
      intro hpre
      have hle := (List.isPrefixOf_iff_prefix.mp hpre).length_le
      simp only [Str.toAsciiLowercase, List.length_map] at hle
      omega
    rw [codeMarks, if_neg hnot, ih (by rw [List.length_cons] at h; omega)]
    rfl

theorem length_le_len (s : Str) : s.length ≤ Str.len s := by
  induction s with
  | nil => exact Nat.zero_le _
  | cons c s ih =>
    have := Str.utf8EncodeChar_length_pos c
    rw [Str.len_cons, List.length_cons]
    omega

theorem flatMap_unmarkCode_chars (value s : Str) : (s.map .inl).flatMap (unmarkCode value) = s := by
  induction s with
  | nil => rfl
  | cons c s ih => exact congrArg (c :: ·) ih

theorem replaceCode_eq (hcode : Str.len code = code.length) (text value : Str) :
    replaceCode text code value = (codeMarks code 0 text).flatMap (unmarkCode value) := by
  unfold replaceCode
  split
  · rename_i hshort
    have hle := length_le_len text
    rw [codeMarks_of_short (by omega), flatMap_unmarkCode_chars]
  · exact replaceCodeLoop_eq code value 0 text

theorem replaceCode_of_reads (hcode : Str.len code = code.length) (h : ReadsCode code isName parts) (value : Str) :
    replaceCode (flatten parts) code value =
      flatten (parts.map (Part.step (resolveName P fun name => if isName name then some value else none))) := by
  rw [replaceCode_eq hcode, h.marks, List.flatMap_assoc, flatten, List.flatMap_map]
  refine List.flatMap_congr fun part hpart => ?_
  cases part with
  | char c => rfl
  | inserted text => exact flatMap_unmarkCode_chars value text
  | token t =>
    by_cases hname : isName t.name = true
    · obtain ⟨-, hmodifier⟩ := h.bare (.token t) hpart hname
      simp [Part.nameMarks, Part.step, resolveName, hname, hmodifier, unmarkCode, Part.text, applyModifier]
    · simp only [Part.nameMarks, Part.step, resolveName, hname, Bool.false_eq_true, if_false, Option.map_none]
      exact flatMap_unmarkCode_chars value t.text

theorem resolveName_or (a b : Str → Option Str) (t : TemplateToken) :
    resolveName P (fun name => (a name).or (b name)) t = (resolveName P a t).or (resolveName P b t) := by
  cases h : a t.name <;> simp [resolveName, h]

theorem step_step (resolve resolve' : TemplateToken → Option Str) (part : Part) :
    (part.step resolve).step resolve' = part.step fun t => (resolve t).or (resolve' t) := by
  cases part with
  | char c => rfl
  | inserted text => rfl
  | token t =>
    cases h : resolve t <;> simp [Part.step, h]

end

/-- A template is resolved as if it were read once, where no pass reads what an earlier one inserted. -/
theorem resolveTemplate_eq_singlePass {P : Platform} (htokens : P.Tokens) (sources : TemplateSources) (template : Str)
    (hreads : ReadsOnce P sources template) :
    resolveTemplate P template sources.line sources.current sources.original sources.previous sources.vars =
      if template.isEmpty || template.eqIgnoreAsciiCase nullCode then none else some (singlePass P sources template) := by
  rw [resolveTemplate]
  split
  · rfl
  · have horiginal : replaceFromMatches P template sources.original = flatten (afterOriginal P sources template) :=
      (replaceFromMatches_eq htokens template sources.original).trans (fill_eq _ _)
    have hcurrent : replaceFromMatches P (flatten (afterOriginal P sources template)) sources.current =
        flatten (afterCurrent P sources template) :=
      (replaceFromMatches_eq htokens _ sources.current).trans (fill_of_reads hreads.current)
    have hprevious : replaceFromMatches P (flatten (afterCurrent P sources template)) sources.previous =
        flatten (afterPrevious P sources template) :=
      (replaceFromMatches_eq htokens _ sources.previous).trans (fill_of_reads hreads.previous)
    have hline : replaceLineCode (flatten (afterPrevious P sources template)) sources.line =
        flatten (afterLine P sources template) :=
      replaceCode_of_reads (by decide) hreads.line sources.line
    have hvars : replaceTokens P (flatten (afterLine P sources template)) sources.vars.get =
        flatten ((afterLine P sources template).map (Part.step (resolveName P sources.vars.get))) :=
      (replaceTokens_eq htokens _ _).trans (fill_of_reads hreads.vars)
    dsimp only
    rw [horiginal, hcurrent, hprevious, hline, hvars, singlePass, fill_eq]
    refine congrArg (fun parts => some (flatten parts)) ?_
    simp only [afterLine, afterPrevious, afterCurrent, afterOriginal, List.map_map]
    refine List.map_congr_left fun piece _ => ?_
    simp only [Function.comp_apply, step_step]
    congr 1
    funext t
    unfold TemplateSources.value
    simp only [resolveName_or, Option.or_assoc]

namespace Literal

/-- The least platform with the token pattern. -/
def tokenPlatform : Platform :=
  { platform with capturesIter := fun pattern text => if pattern = tokenRegex then tokenCaptures 0 (scan text) else [] }

theorem tokenPlatform_tokens : tokenPlatform.Tokens := by
  intro text
  simp [tokenPlatform]

/-- A line with braces that a player typed. -/
def bracedLine : TemplateSources where
  original := none
  current := none
  previous := none
  line := "a \x7bx\x7d".toList
  vars := ⟨[("x".toList, "boom".toList)]⟩

/-- A capture and the line it is of. -/
def said : TemplateSources where
  original := some ⟨[("s1".toList, "Fippy".toList)]⟩
  current := none
  previous := none
  line := "Fippy barks".toList
  vars := ⟨[("hp".toList, "90".toList)]⟩

end Literal

open Literal in
/-- The variable is read in the line that the code for the line left. -/
theorem bracedLine_resolved :
    resolveTemplate tokenPlatform lineCode bracedLine.line bracedLine.current bracedLine.original bracedLine.previous
        bracedLine.vars = some "a boom".toList ∧
      some "a boom".toList ≠ some (singlePass tokenPlatform bracedLine lineCode) := by
  decide +kernel

open Literal in
theorem said_resolved :
    resolveTemplate tokenPlatform "\x7bs1\x7d: \x7bl\x7d at \x7bhp\x7d".toList said.line said.current said.original
        said.previous said.vars =
      if "\x7bs1\x7d: \x7bl\x7d at \x7bhp\x7d".toList.isEmpty ||
          Str.eqIgnoreAsciiCase "\x7bs1\x7d: \x7bl\x7d at \x7bhp\x7d".toList nullCode then none
      else some (singlePass tokenPlatform said "\x7bs1\x7d: \x7bl\x7d at \x7bhp\x7d".toList) :=
  resolveTemplate_eq_singlePass tokenPlatform_tokens said _
    ⟨by decide +kernel, by decide +kernel, ⟨by decide +kernel, by decide +kernel⟩, by decide +kernel⟩

end Stonemite.Triggers
