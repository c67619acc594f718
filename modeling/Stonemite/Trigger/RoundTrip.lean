import Stonemite.Trigger.Exported

/-!
# Export and import again

A trigger that the EQLP format can hold is read back from the data it is exported to as it was, but for the list of the
variables that its timer clears: a name is cleaned whenever it is read. `NativeTrigger.Representable` is what JSON can
hold of a trigger. Each group of fields is read back by a lemma of its own, and `round_trip` is the equivalence.
-/

open Std

namespace Stonemite

namespace Str

theorem splitAny_ne_nil (p : Char → Bool) (s : Str) : splitAny p s ≠ [] := by
  cases s with
  | nil => exact List.cons_ne_nil _ _
  | cons a s =>
    rw [splitAny]
    split
    · exact List.cons_ne_nil _ _
    · split <;> exact List.cons_ne_nil _ _

theorem splitAny_of_all {p : Char → Bool} {s : Str} (h : ∀ c ∈ s, p c = false) : splitAny p s = [s] := by
  induction s with
  | nil => rfl
  | cons a s ih =>
    rw [splitAny, ih fun c hc => h c (List.mem_cons_of_mem _ hc)]
    simp [h a List.mem_cons_self]

theorem splitAny_append {p : Char → Bool} {s : Str} (h : ∀ c ∈ s, p c = false) {c : Char} (hc : p c = true) (t : Str) :
    splitAny p (s ++ c :: t) = s :: splitAny p t := by
  induction s with
  | nil =>
    rw [List.nil_append, splitAny]
    cases hsplit : splitAny p t with
    | nil => exact absurd hsplit (splitAny_ne_nil p t)
    | cons part parts => simp [hc]
  | cons a s ih =>
    rw [List.cons_append, splitAny, ih fun c hc => h c (List.mem_cons_of_mem _ hc)]
    simp [h a List.mem_cons_self]

end Str

namespace Triggers

/-! ### Lists of variables -/

theorem cleanName_trim (piece : Str) : (cleanName piece).trim = cleanName piece := Str.trim_trim _

theorem cleanName_sublist (piece : Str) : (cleanName piece).Sublist piece :=
  (Str.trim_sublist _).trans <| (Str.trimEndMatches_sublist _ _).trans <| (List.dropWhile_sublist _).trans <|
    (List.dropWhile_sublist _).trans (Str.trim_sublist _)

theorem cleanName_eq_self_iff {name : Str} (htrim : name.trim = name) : cleanName name = name ↔
    name.head? ≠ some '$' ∧ name.head? ≠ some '\x7b' ∧ name.getLast? ≠ some '\x7d' := by
  have hdrop (c : Char) : name.dropWhile (· = c) = name ↔ name.head? ≠ some c := by
    cases name with
    | nil => simp
    | cons a name => simp [List.dropWhile_eq_self_iff]
  have hend (c : Char) : Str.trimEndMatches (· = c) name = name ↔ name.getLast? ≠ some c := by
    show name.rdropWhile (· = c) = name ↔ _
    rw [List.rdropWhile_eq_self_iff]
    cases name.eq_nil_or_concat with
    | inl h => simp [h]
    | inr h =>
      obtain ⟨rest, a, rfl⟩ := h
      simp
  rw [← hdrop, ← hdrop, ← hend]
  constructor
  · intro hname
    -- Each step only takes characters away, so none does.
    have hdollar : name.dropWhile (· = '$') = name := by
      refine (List.dropWhile_sublist _).antisymm ?_
      rw [cleanName, htrim] at hname
      conv_lhs => rw [← hname]
      exact (Str.trim_sublist _).trans ((Str.trimEndMatches_sublist _ _).trans (List.dropWhile_sublist _))
    have hopen : name.dropWhile (· = '\x7b') = name := by
      refine (List.dropWhile_sublist _).antisymm ?_
      rw [cleanName, htrim, hdollar] at hname
      conv_lhs => rw [← hname]
      exact (Str.trim_sublist _).trans (Str.trimEndMatches_sublist _ _)
    have hclose : Str.trimEndMatches (· = '\x7d') name = name := by
      refine (Str.trimEndMatches_sublist _ _).antisymm ?_
      rw [cleanName, htrim, hdollar, hopen] at hname
      conv_lhs => rw [← hname]
      exact Str.trim_sublist _
    exact ⟨hdollar, hopen, hclose⟩
  · rintro ⟨hdollar, hopen, hclose⟩
    rw [cleanName, htrim, hdollar, hopen, hclose, htrim]

theorem splitVariableList_of_all {name : Str} (h : ∀ c ∈ name, isListSeparator c = false) :
    splitVariableList name = [cleanName name].filter fun name => !name.isEmpty := by
  rw [splitVariableList, Str.splitAny_of_all h]
  rfl

theorem splitVariableList_join {names : List Str} (h : ∀ name ∈ names, ∀ c ∈ name, isListSeparator c = false) :
    splitVariableList (Str.join ", ".toList names) = (names.map cleanName).filter fun name => !name.isEmpty := by
  induction names with
  | nil => decide
  | cons name names ih =>
    cases names with
    | nil =>
      have hjoin : Str.join ", ".toList [name] = name := by simp [Str.join, List.intercalate]
      rw [hjoin, splitVariableList_of_all (h name List.mem_cons_self)]
      rfl
    | cons next names =>
      have ih := ih fun name hname => h name (List.mem_cons_of_mem _ hname)
      have hjoin : Str.join ", ".toList (name :: next :: names) =
          name ++ ',' :: ([] ++ ' ' :: Str.join ", ".toList (next :: names)) := by
        simp [Str.join, List.intercalate]
      rw [hjoin, splitVariableList, Str.splitAny_append (h name List.mem_cons_self) (by decide),
        Str.splitAny_append (fun _ hc => (List.not_mem_nil hc).elim) (by decide), List.map_cons, List.map_cons,
        List.map_cons, List.filter_cons, List.filter_cons]
      rw [splitVariableList] at ih
      rw [ih, List.filter_cons]
      rfl

/-! ### What the format can hold -/

/-- A name that some entry of a list stands for. -/
def Listed (name : Str) : Prop := name ≠ [] ∧ ∃ entry, (∀ c ∈ entry, isListSeparator c = false) ∧ cleanName entry = name

variable {P : Platform}

def TimerStageActions.texts (stage : TimerStageActions) : List (Option Str) :=
  [stage.displayText, stage.speakText, stage.sound]

/-- A timer that the format can hold: a text that is there is not empty, a number is one of JSON, and at most three
patterns end the timer. -/
structure TimerBehavior.Representable (timer : TimerBehavior P) : Prop where
  duration : P.isFinite timer.durationSeconds = true
  resetDuration : P.isFinite timer.resetDurationSeconds = true
  timesToLoop : timer.timesToLoop < 2 ^ 32
  warningSeconds : timer.warningSeconds < 2 ^ 32
  endEarlyRepeatedCount : timer.endEarlyRepeatedCount < 2 ^ 32
  texts : ∀ text ∈ timer.warning.texts ++ timer.finish.texts ++ timer.earlyEnd.texts, text ≠ some []
  patterns : timer.endEarlyPatterns.length ≤ 3
  patternTexts : ∀ pattern ∈ timer.endEarlyPatterns, pattern.text ≠ []
  names : ∀ name ∈ timer.endClearVariables, Listed name

/-- JSON has the numbers and the names of the action. -/
structure VariableAction.Representable (action : VariableAction P) : Prop where
  step : P.isFinite action.step = true
  initialValue : P.isFinite action.initialValue = true
  timeToLive : P.isFinite action.timeToLiveSeconds = true

/-- JSON has what the trigger holds. -/
structure NativeTrigger.Representable (trigger : NativeTrigger P) : Prop where
  texts : ∀ text ∈ [trigger.displayText, trigger.speakText, trigger.sound, trigger.fontColor, trigger.activeColor,
    trigger.idleColor, trigger.resetColor], text ≠ some []
  previous : ∀ pattern ∈ trigger.previousPattern, pattern.text ≠ []
  lockout : P.isFinite trigger.lockoutSeconds = true
  repeatedReset : P.isFinite trigger.repeatedResetSeconds = true
  priority : -2 ^ 63 ≤ trigger.priority ∧ trigger.priority < 2 ^ 63
  voiceRate : -2 ^ 31 ≤ trigger.voiceRate ∧ trigger.voiceRate < 2 ^ 31
  volume : -2 ^ 31 ≤ trigger.volume ∧ trigger.volume < 2 ^ 31
  actions : ∀ action ∈ trigger.variableActions, action.Representable
  timer : ∀ timer ∈ trigger.timer, timer.Representable
  /-- A field that is mapped is not kept besides. -/
  passthrough : ∀ key : Str, isMapped key = true → trigger.passthrough[key]? = none

/-! ### Fields that are read back -/

section
variable {data : Fields P} {key : String}

theorem stringField_of_get {text : Str} (h : data.get key = some (.string text)) : data.stringField key = some text := by
  rw [Fields.stringField, h]
  rfl

theorem stringField_of_option {text : Option Str} (h : data.get key = some (.ofOption text)) :
    data.stringField key = text := by
  rw [Fields.stringField, h]
  exact Json.asStr_ofOption text

theorem nonEmpty_eq {text : Option Str} (h : text ≠ some []) : nonEmpty text = text := by
  cases text with
  | none => rfl
  | some text =>
    cases text with
    | nil => exact absurd rfl h
    | cons c text => rfl

theorem boolField_of_get {b : Bool} (h : data.get key = some (.bool b)) : data.boolField key = b := by
  rw [Fields.boolField, h]
  rfl

theorem i64Field_of_get {n : Int} (h : data.get key = some (ofInt n)) (hn : n < 2 ^ 63) :
    data.i64Field key = some n := by
  have hnumber : (Number.int n : Number P).asI64 = some n := by rw [Number.asI64, if_pos hn]
  rw [Fields.i64Field, h]
  show some ((Number.int n : Number P).asI64.getD _) = some n
  rw [hnumber, Option.getD_some]

theorem f64Field_of_get {x : P.F64} (h : data.get key = some (ofF64 x)) (hx : P.isFinite x = true) :
    data.f64Field key = some x := by
  rw [Fields.f64Field, h, ofF64, if_pos hx]
  rfl

theorem toI32_eq {n : Int} (h : -2 ^ 31 ≤ n ∧ n < 2 ^ 31) : toI32 n = n := by
  rw [toI32, Int.bmod_def]
  omega

theorem toU32_eq {n : Nat} (h : n < 2 ^ 32) : toU32 n = n := by
  rw [toU32, Int.toNat_natCast, Nat.mod_eq_of_lt h]

end

theorem get_lookup_cons (name key : String) (value : Value P) (fields : List (Str × Value P)) :
    Fields.get (Json.lookup ((name.toList, value) :: fields)) key =
      if name = key then some value else Fields.get (Json.lookup fields) key := by
  rw [Fields.get, Json.lookup_cons, if_congr String.toList_inj rfl rfl]
  rfl

theorem exportAction_fields (action : VariableAction P) : ∃ fields, (exportAction action).asObject = some fields ∧
    let data : Fields P := Json.lookup fields
    data.get "ActionType" = some (ofInt (if action.op = .clear then 1 else 0)) ∧
    data.get "DataType" = some (ofInt (if action.op = .setCounter then 1 else 0)) ∧
    data.get "VariableName" = some (.string action.name) ∧ data.get "Value" = some (.string action.value) ∧
    data.get "Step" = some (ofF64 action.step) ∧ data.get "InitialValue" = some (ofF64 action.initialValue) ∧
    data.get "TimeToLiveSeconds" = some (ofF64 action.timeToLiveSeconds) := by
  refine ⟨_, rfl, ?_, ?_, ?_, ?_, ?_, ?_, ?_⟩
  all_goals simp only [get_lookup_cons, String.reduceEq, if_false, if_true]

theorem importAction_exportAction {action : VariableAction P} (h : action.Representable) :
    (exportAction action).asObject.map (fun fields => importAction (Json.lookup fields)) = some action := by
  obtain ⟨fields, hfields, hactionType, hdataType, hname, hvalue, hstep, hinitialValue, httl⟩ :=
    exportAction_fields action
  have hop : (if (Fields.i64Field (Json.lookup fields) "ActionType").getD 0 = 1 then VariableOp.clear
      else if (Fields.i64Field (Json.lookup fields) "DataType").getD 0 = 1 then .setCounter else .setValue) =
      action.op := by
    rw [i64Field_of_get hactionType (by split <;> omega), i64Field_of_get hdataType (by split <;> omega)]
    cases action.op <;> rfl
  rw [hfields, Option.map_some, importAction, hop, stringField_of_get hname, stringField_of_get hvalue,
    f64Field_of_get hstep h.step, f64Field_of_get hinitialValue h.initialValue, f64Field_of_get httl h.timeToLive]
  rfl

theorem importActions_export {data : Fields P} {actions : List (VariableAction P)}
    (h : data.get "VariableActions" = some (.array (actions.map exportAction)))
    (hactions : ∀ action ∈ actions, action.Representable) : importActions data = actions := by
  rw [importActions, h]
  show ((actions.map exportAction).filterMap Json.asObject).map (fun fields => importAction (Json.lookup fields)) = actions
  rw [List.map_filterMap, List.filterMap_map]
  calc _ = actions.filterMap some := List.filterMap_congr fun action hmem => importAction_exportAction (hactions action hmem)
    _ = actions := List.filterMap_some

/-! ### Timers -/

theorem fromEqlpCode_eqlpCode (kind : TimerKind) : TimerKind.fromEqlpCode kind.eqlpCode = some kind := by
  cases kind <;> rfl

theorem restartMode_fromEqlpCode_eqlpCode (mode : TimerRestartMode) :
    TimerRestartMode.fromEqlpCode mode.eqlpCode = some mode := by
  cases mode <;> rfl

section
variable {data : Fields P} {timer : TimerBehavior P}
  (hget : ∀ {key : String} {value : Value P}, (key, value) ∈ exportTimer timer → data.get key = some value)
include hget

theorem endEarly_export (htexts : ∀ pattern ∈ timer.endEarlyPatterns, pattern.text ≠ []) {patternKey regexKey : String}
    {index : Nat} (hplace : ((patternKey, regexKey), index) ∈ endEarlyFields.zipIdx) :
    importPattern data patternKey regexKey = timer.endEarlyPatterns[index]? := by
  have hmem {key : String} {value : Value P}
      (h : (key, value) ∈ exportEndEarly patternKey regexKey timer.endEarlyPatterns[index]?) :
      data.get key = some value :=
    hget (List.mem_append_left _ (List.mem_append_right _ (List.mem_flatMap.mpr ⟨_, hplace, h⟩)))
  cases hpattern : timer.endEarlyPatterns[index]? with
  | none =>
    rw [hpattern] at hmem
    have htext : data.stringField patternKey = none := stringField_of_option (hmem List.mem_cons_self)
    rw [importPattern, htext]
    rfl
  | some pattern =>
    rw [hpattern] at hmem
    have htext := stringField_of_get (hmem List.mem_cons_self)
    have hregex := boolField_of_get (hmem (List.mem_cons_of_mem _ List.mem_cons_self))
    have hnonempty : some pattern.text ≠ some [] :=
      fun h => htexts pattern (List.mem_of_getElem? hpattern) (Option.some.inj h)
    rw [importPattern, htext, hregex, nonEmpty_eq hnonempty]
    rfl

theorem importEndEarlyPatterns_export (h : timer.Representable) : importEndEarlyPatterns data = timer.endEarlyPatterns := by
  have hfirst : importPattern data "EndEarlyPattern" "EndUseRegex" = timer.endEarlyPatterns[0]? :=
    endEarly_export hget h.patternTexts (by simp [endEarlyFields])
  have hsecond : importPattern data "EndEarlyPattern2" "EndUseRegex2" = timer.endEarlyPatterns[1]? :=
    endEarly_export hget h.patternTexts (by simp [endEarlyFields])
  have hthird : importPattern data "EndEarlyPattern3" "EndUseRegex3" = timer.endEarlyPatterns[2]? :=
    endEarly_export hget h.patternTexts (by simp [endEarlyFields])
  have hlength := h.patterns
  simp only [importEndEarlyPatterns, endEarlyFields, List.filterMap_cons, List.filterMap_nil, hfirst, hsecond, hthird]
  generalize timer.endEarlyPatterns = patterns at hlength
  obtain _ | ⟨first, _ | ⟨second, _ | ⟨third, _ | ⟨fourth, rest⟩⟩⟩⟩ := patterns
  case cons.cons.cons.cons =>
    simp only [List.length_cons] at hlength
    omega
  all_goals rfl

theorem importTimerKind_export : importTimerKind data = some timer.kind := by
  have hcode : timer.kind.eqlpCode < 2 ^ 63 ∧ timer.kind.eqlpCode ≠ 0 := by
    cases timer.kind <;> decide
  have htype : (data.i64Field "TimerType") = some timer.kind.eqlpCode :=
    i64Field_of_get (hget (List.mem_append_left _ (List.mem_append_left _ (by simp)))) hcode.1
  rw [importTimerKind, importTimerType, htype]
  show TimerKind.fromEqlpCode (if (decide (timer.kind.eqlpCode = 0) && data.boolField "EnableTimer") = true then 1
    else timer.kind.eqlpCode) = some timer.kind
  rw [decide_eq_false hcode.2, Bool.false_and, if_neg Bool.false_ne_true, fromEqlpCode_eqlpCode]

omit hget in
theorem importStage_export {stage : TimerStageActions} {display speak sound : String}
    (htexts : ∀ text ∈ stage.texts, text ≠ some []) (hdisplay : data.get display = some (.ofOption stage.displayText))
    (hspeak : data.get speak = some (.ofOption stage.speakText)) (hsound : data.get sound = some (.ofOption stage.sound)) :
    importStage data display speak sound = stage := by
  obtain ⟨hdisplayText, hspeakText, hsoundText⟩ : stage.displayText ≠ some [] ∧ stage.speakText ≠ some [] ∧
      stage.sound ≠ some [] := by
    simpa [TimerStageActions.texts] using htexts
  rw [importStage, stringField_of_option hdisplay, stringField_of_option hspeak, stringField_of_option hsound,
    nonEmpty_eq hdisplayText, nonEmpty_eq hspeakText, nonEmpty_eq hsoundText]

/-- A timer is read back as it was, but for the names of the variables it clears. -/
theorem importTimer_export (h : timer.Representable) : importTimer data =
    some { timer with endClearVariables := (timer.endClearVariables.map cleanName).filter fun name => !name.isEmpty } := by
  have hfront {key : String} {value : Value P} (hmem : (key, value) ∈ (exportTimer timer).take 17) :
      data.get key = some value := hget (List.mem_of_mem_take hmem)
  have hback {key : String} {value : Value P} (hmem : (key, value) ∈ [
      ("EndEarlyRepeatedCount", ofInt timer.endEarlyRepeatedCount),
      ("EndTimerClearVariables", .string (Str.join ", ".toList timer.endClearVariables))]) :
      data.get key = some value := hget (List.mem_append_right _ hmem)
  have hname : data.stringField "AltTimerName" = some timer.timerName :=
    stringField_of_get (hfront (by simp [exportTimer]))
  have hduration : data.f64Field "DurationSeconds" = some timer.durationSeconds :=
    f64Field_of_get (hfront (by simp [exportTimer])) h.duration
  have hreset : data.f64Field "ResetDurationSeconds" = some timer.resetDurationSeconds :=
    f64Field_of_get (hfront (by simp [exportTimer])) h.resetDuration
  have hloop : data.i64Field "TimesToLoop" = some (timer.timesToLoop : Int) :=
    i64Field_of_get (hfront (by simp [exportTimer])) (by have := h.timesToLoop; omega)
  have hmode : data.i64Field "TriggerAgainOption" = some timer.restartMode.eqlpCode :=
    i64Field_of_get (hfront (by simp [exportTimer])) (by cases timer.restartMode <;> decide)
  have hwarningSeconds : data.i64Field "WarningSeconds" = some (timer.warningSeconds : Int) :=
    i64Field_of_get (hfront (by simp [exportTimer])) (by have := h.warningSeconds; omega)
  have hcount : data.i64Field "EndEarlyRepeatedCount" = some (timer.endEarlyRepeatedCount : Int) :=
    i64Field_of_get (hback List.mem_cons_self) (by have := h.endEarlyRepeatedCount; omega)
  have hnames : data.stringField "EndTimerClearVariables" = some (Str.join ", ".toList timer.endClearVariables) :=
    stringField_of_get (hback (List.mem_cons_of_mem _ List.mem_cons_self))
  have hwarning : importStage data "WarningTextToDisplay" "WarningTextToSpeak" "WarningSoundToPlay" = timer.warning :=
    importStage_export (fun text hmem => h.texts text (List.mem_append_left _ (List.mem_append_left _ hmem)))
      (hfront (by simp [exportTimer])) (hfront (by simp [exportTimer])) (hfront (by simp [exportTimer]))
  have hfinish : importStage data "EndTextToDisplay" "EndTextToSpeak" "EndSoundToPlay" = timer.finish :=
    importStage_export (fun text hmem => h.texts text (List.mem_append_left _ (List.mem_append_right _ hmem)))
      (hfront (by simp [exportTimer])) (hfront (by simp [exportTimer])) (hfront (by simp [exportTimer]))
  have hearlyEnd : importStage data "EndEarlyTextToDisplay" "EndEarlyTextToSpeak" "EndEarlySoundToPlay" =
      timer.earlyEnd :=
    importStage_export (fun text hmem => h.texts text (List.mem_append_right _ hmem))
      (hfront (by simp [exportTimer])) (hfront (by simp [exportTimer])) (hfront (by simp [exportTimer]))
  have hseparators (name : Str) (hmem : name ∈ timer.endClearVariables) (c : Char) (hc : c ∈ name) :
      isListSeparator c = false := by
    obtain ⟨-, entry, hentry, rfl⟩ := h.names name hmem
    exact hentry c ((cleanName_sublist entry).subset hc)
  rw [importTimer, importTimerKind_export hget, Option.map_some, hname, hduration, hreset, hloop, hmode,
    hwarningSeconds, hcount, hnames, importEndEarlyPatterns_export hget h, hwarning, hfinish, hearlyEnd]
  simp only [Option.getD_some, toU32_eq h.timesToLoop, toU32_eq h.warningSeconds, toU32_eq h.endEarlyRepeatedCount,
    restartMode_fromEqlpCode_eqlpCode, splitVariableList_join hseparators]

end

/-! ### Triggers -/

/-- What the references to the trigger's overlays are. -/
def NativeTrigger.references (library : OverlayLibrary P) (trigger : NativeTrigger P) : List Str :=
  ((trigger.textOverlays ++ trigger.timerOverlays).filterMap library.reference).filter fun id => !id.isEmpty

/-- The trigger as it comes back if nothing is lost: it is new, disabled and at the front of its folder, its overlays
are looked up and its patterns checked. -/
def NativeTrigger.reimported (library : OverlayLibrary P) (overlayIds : OverlayIds) (id : TriggerId)
    (trigger : NativeTrigger P) : NativeTrigger P :=
  { trigger with
    id := id
    index := 0
    enabled := false
    target := .source
    textOverlays := importOverlays overlayIds true (trigger.references library)
    timerOverlays := importOverlays overlayIds false (trigger.references library)
    quarantined := (quarantineOf trigger.toTrigger).isSome
    quarantine := quarantineOf trigger.toTrigger }

/-- The names as they are read back. -/
def TimerBehavior.reread (timer : TimerBehavior P) : TimerBehavior P :=
  { timer with endClearVariables := (timer.endClearVariables.map cleanName).filter fun name => !name.isEmpty }

theorem passthrough_export {trigger : NativeTrigger P} (h : trigger.Representable) (library : OverlayLibrary P) :
    (exportTriggerData library trigger).filter (fun key _ => !isMapped key) = trigger.passthrough := by
  refine ExtTreeMap.ext_getElem? fun key => ?_
  rw [ExtTreeMap.getElem?_filter']
  cases hmapped : isMapped key with
  | true =>
    rw [h.passthrough key hmapped]
    cases (exportTriggerData library trigger)[key]? <;> rfl
  | false =>
    rw [exportTriggerData_of_not_mapped hmapped]
    cases trigger.passthrough[key]? <;> rfl

theorem importTimer_exportTriggerData {trigger : NativeTrigger P} (h : trigger.Representable)
    (library : OverlayLibrary P) : importTimer (fun key => (exportTriggerData library trigger)[key]?) =
      trigger.timer.map TimerBehavior.reread := by
  cases htimer : trigger.timer with
  | some timer =>
    refine importTimer_export (fun hmem => exportTriggerData_of_mem ?_) (h.timer timer htimer)
    rw [exportFields, htimer]
    exact List.mem_append_right _ hmem
  | none =>
    have htype : (exportTriggerData library trigger)["TimerType".toList]? = some (ofInt 0) := exported_timerType htimer
    have henable : (exportTriggerData library trigger)["EnableTimer".toList]? = some (.bool false) := by
      refine exportTriggerData_of_mem ?_
      rw [exportFields, htimer]
      exact List.mem_append_right _ List.mem_cons_self
    obtain ⟨data, hdata⟩ : ∃ data : Fields P, data = fun key => (exportTriggerData library trigger)[key]? := ⟨_, rfl⟩
    have htypeField : data.i64Field "TimerType" = some 0 := i64Field_of_get (hdata ▸ htype) (by decide)
    have henableField : data.boolField "EnableTimer" = false := boolField_of_get (hdata ▸ henable)
    rw [← hdata, importTimer, importTimerKind, importTimerType, htypeField, henableField]
    rfl

theorem importFields_export {trigger : NativeTrigger P} (h : trigger.Representable) (library : OverlayLibrary P)
    (overlayIds : OverlayIds) (id : TriggerId) :
    importFields (fun key => (exportTriggerData library trigger)[key]?) trigger.name trigger.folder overlayIds id =
      { trigger.toTrigger with
        id := id
        enabled := false
        target := .source
        timer := trigger.timer.map TimerBehavior.reread
        textOverlays := importOverlays overlayIds true (trigger.references library)
        timerOverlays := importOverlays overlayIds false (trigger.references library)
        quarantined := false } := by
  have htimer := importTimer_exportTriggerData h library
  have hmem {key : String} {value : Value P} (hmem : (key, value) ∈ (exportFields library trigger).take 20) :
      (exportTriggerData library trigger)[key.toList]? = some value :=
    exportTriggerData_of_mem (List.mem_of_mem_take hmem)
  obtain ⟨data, hdata⟩ : ∃ data : Fields P, data = fun key => (exportTriggerData library trigger)[key]? := ⟨_, rfl⟩
  rw [← hdata] at htimer ⊢
  have hget {key : String} {value : Value P} (hfield : (key, value) ∈ (exportFields library trigger).take 20) :
      data.get key = some value := hdata ▸ hmem hfield
  have hpattern : data.stringField "Pattern" = some trigger.pattern.text :=
    stringField_of_get (hget (by simp [exportFields]))
  have hregex : data.boolField "UseRegex" = trigger.pattern.useRegex :=
    boolField_of_get (hget (by simp [exportFields]))
  have hprevious : importPattern data "PreviousPattern" "PreviousUseRegex" = trigger.previousPattern := by
    have htext : data.stringField "PreviousPattern" = trigger.previousPattern.map (·.text) :=
      stringField_of_option (hget (by simp [exportFields]))
    have hregex : data.boolField "PreviousUseRegex" = trigger.previousPattern.any (·.useRegex) :=
      boolField_of_get (hget (by simp [exportFields]))
    rw [importPattern, htext, hregex]
    cases hprevious : trigger.previousPattern with
    | none => rfl
    | some previous =>
      rw [Option.map_some, nonEmpty_eq fun heq => h.previous previous hprevious (Option.some.inj heq)]
      rfl
  have hcondition : data.stringField "MatchVariableCondition" = some trigger.condition :=
    stringField_of_get (hget (by simp [exportFields]))
  have hlockout : data.f64Field "LockoutTime" = some trigger.lockoutSeconds :=
    f64Field_of_get (hget (by simp [exportFields])) h.lockout
  have hrepeated : data.f64Field "RepeatedResetTime" = some trigger.repeatedResetSeconds :=
    f64Field_of_get (hget (by simp [exportFields])) h.repeatedReset
  have hpriority : data.i64Field "Priority" = some trigger.priority :=
    i64Field_of_get (hget (by simp [exportFields])) h.priority.2
  have hvoiceRate : data.i64Field "VoiceRate" = some trigger.voiceRate :=
    i64Field_of_get (hget (by simp [exportFields])) (by have := h.voiceRate; omega)
  have hvolume : data.i64Field "Volume" = some trigger.volume :=
    i64Field_of_get (hget (by simp [exportFields])) (by have := h.volume; omega)
  have hactions : importActions data = trigger.variableActions :=
    importActions_export (hget (by simp [exportFields])) h.actions
  have hselected : selectedOverlays data = trigger.references library := by
    have hfield : data.get "SelectedOverlays" = some (.array
        (((trigger.textOverlays ++ trigger.timerOverlays).filterMap library.reference).map Json.string)) :=
      hget (by simp [exportFields])
    rw [selectedOverlays, hfield]
    show ((List.map Json.string _).filterMap Json.asStr).filter _ = _
    rw [List.filterMap_map]
    exact congrArg _ List.filterMap_some
  have htext {key : String} {text : Option Str} (hfield : data.get key = some (.ofOption text))
      (hne : text ≠ some []) : nonEmpty (data.stringField key) = text := by
    rw [stringField_of_option hfield, nonEmpty_eq hne]
  have hdisplay : nonEmpty (data.stringField "TextToDisplay") = trigger.displayText :=
    htext (hget (by simp [exportFields])) (h.texts _ (by simp))
  have hspeak : nonEmpty (data.stringField "TextToSpeak") = trigger.speakText :=
    htext (hget (by simp [exportFields])) (h.texts _ (by simp))
  have hsound : nonEmpty (data.stringField "SoundToPlay") = trigger.sound :=
    htext (hget (by simp [exportFields])) (h.texts _ (by simp))
  have hfont : nonEmpty (data.stringField "FontColor") = trigger.fontColor :=
    htext (hget (by simp [exportFields])) (h.texts _ (by simp))
  have hactive : nonEmpty (data.stringField "ActiveColor") = trigger.activeColor :=
    htext (hget (by simp [exportFields])) (h.texts _ (by simp))
  have hidle : nonEmpty (data.stringField "IdleColor") = trigger.idleColor :=
    htext (hget (by simp [exportFields])) (h.texts _ (by simp))
  have hresetColor : nonEmpty (data.stringField "ResetColor") = trigger.resetColor :=
    htext (hget (by simp [exportFields])) (h.texts _ (by simp))
  rw [importFields, hpattern, hregex, hprevious, hcondition, hlockout, hrepeated, hpriority, hvoiceRate, hvolume,
    hactions, hselected, hdisplay, hspeak, hsound, hfont, hactive, hidle, hresetColor, htimer]
  simp only [Option.getD_some, toI32_eq h.voiceRate, toI32_eq h.volume]

/-- A trigger is read back as it was, but for the names of the variables that its timer clears. -/
theorem importTrigger_export {trigger : NativeTrigger P} (h : trigger.Representable) (library : OverlayLibrary P)
    (overlayIds : OverlayIds) (id : TriggerId) :
    (importTrigger (exportTriggerData library trigger) trigger.name trigger.folder overlayIds id).1 =
      ({ trigger with timer := trigger.timer.map TimerBehavior.reread } : NativeTrigger P).reimported
        library overlayIds id := by
  have hcomments : Fields.stringField (fun key => (exportTriggerData library trigger)[key]?) "Comments" =
      some trigger.comments := stringField_of_get (exportTriggerData_of_mem List.mem_cons_self)
  rw [importTrigger, importFields_export h, hcomments, passthrough_export h]
  rfl

/-- A name that is read as it is. -/
def Bare (name : Str) : Prop := name.head? ≠ some '$' ∧ name.head? ≠ some '\x7b' ∧ name.getLast? ≠ some '\x7d'

theorem reread_eq_self_iff {timer : TimerBehavior P} (h : timer.Representable) :
    timer.reread = timer ↔ ∀ name ∈ timer.endClearVariables, Bare name := by
  have hclean (name : Str) (hmem : name ∈ timer.endClearVariables) : cleanName name = name ↔ Bare name := by
    obtain ⟨-, entry, -, rfl⟩ := h.names name hmem
    exact cleanName_eq_self_iff (cleanName_trim entry)
  have hnames : timer.reread = timer ↔
      ((timer.endClearVariables.map cleanName).filter fun name => !name.isEmpty) = timer.endClearVariables :=
    ⟨fun heq => congrArg TimerBehavior.endClearVariables heq, fun heq => by rw [TimerBehavior.reread, heq]⟩
  rw [hnames]
  constructor
  · intro heq name hmem
    -- No name has been left out, so each comes back as it was.
    have hsublist : timer.endClearVariables.Sublist (timer.endClearVariables.map cleanName) := by
      conv_lhs => rw [← heq]
      exact List.filter_sublist
    have hsame : timer.endClearVariables = timer.endClearVariables.map cleanName :=
      hsublist.eq_of_length (List.length_map _).symm
    have hsame : timer.endClearVariables.map id = timer.endClearVariables.map cleanName := by rwa [List.map_id]
    exact (hclean name hmem).mp (List.map_inj_left.mp hsame name hmem).symm
  · intro hbare
    have hmap : timer.endClearVariables.map cleanName = timer.endClearVariables := by
      refine (List.map_congr_left fun name hmem => (hclean name hmem).mpr (hbare name hmem)).trans ?_
      exact List.map_id _
    rw [hmap, List.filter_eq_self]
    intro name hmem
    rw [Bool.not_eq_true', List.isEmpty_eq_false_iff]
    exact (h.names name hmem).1

/-- The overlay is in the library, and its reference is known to the import. -/
def Known (library : OverlayLibrary P) (overlayIds : OverlayIds) (isText : Bool) (overlay : OverlayId) : Prop :=
  ∃ id : Str, library.reference overlay = some id ∧ id ≠ [] ∧ resolveOverlay overlayIds id = some (overlay, isText)

theorem resolve_references {library : OverlayLibrary P} {overlayIds : OverlayIds} {isText : Bool}
    {overlays : List OverlayId} (h : ∀ overlay ∈ overlays, Known library overlayIds isText overlay) :
    ((overlays.filterMap library.reference).filter fun id => !id.isEmpty).filterMap (resolveOverlay overlayIds) =
      overlays.map fun overlay => (overlay, isText) := by
  induction overlays with
  | nil => rfl
  | cons overlay overlays ih =>
    obtain ⟨id, hreference, hne, hresolve⟩ := h overlay List.mem_cons_self
    have hnonempty : (!id.isEmpty) = true := by rwa [Bool.not_eq_true', List.isEmpty_eq_false_iff]
    rw [List.filterMap_cons_some hreference, List.filter_cons, if_pos hnonempty, List.filterMap_cons_some hresolve,
      ih fun overlay hmem => h overlay (List.mem_cons_of_mem _ hmem), List.map_cons]

theorem importOverlays_references {library : OverlayLibrary P} {overlayIds : OverlayIds} {trigger : NativeTrigger P}
    (htext : ∀ overlay ∈ trigger.textOverlays, Known library overlayIds true overlay)
    (htimer : ∀ overlay ∈ trigger.timerOverlays, Known library overlayIds false overlay) :
    importOverlays overlayIds true (trigger.references library) = trigger.textOverlays ∧
      importOverlays overlayIds false (trigger.references library) = trigger.timerOverlays := by
  have hfind (isText b : Bool) (overlays : List OverlayId) :
      ((overlays.map fun overlay => (overlay, isText)).filter fun overlay => overlay.2 = b).map (·.1) =
        if isText = b then overlays else [] := by
    rw [List.filter_map, List.map_map]
    by_cases h : isText = b
    · simp [h, Function.comp_def]
    · simp [h, Function.comp_def]
  rw [importOverlays, importOverlays, NativeTrigger.references, List.filterMap_append, List.filter_append,
    List.filterMap_append, resolve_references htext, resolve_references htimer, List.filter_append, List.filter_append,
    List.map_append, List.map_append, hfind, hfind, hfind, hfind]
  exact ⟨List.append_nil _, rfl⟩

/-- A trigger that the format can hold comes back from the data it is exported to if and only if no name of the
variables its timer clears begins with `$` or an opening brace or ends with a closing one. Its overlays are found again
where they are known. -/
theorem round_trip {trigger : NativeTrigger P} (h : trigger.Representable) (library : OverlayLibrary P)
    (overlayIds : OverlayIds) (id : TriggerId) :
    ((importTrigger (exportTriggerData library trigger) trigger.name trigger.folder overlayIds id).1 =
      trigger.reimported library overlayIds id ↔
        ∀ timer ∈ trigger.timer, ∀ name ∈ timer.endClearVariables, Bare name) ∧
    ((∀ overlay ∈ trigger.textOverlays, Known library overlayIds true overlay) →
      (∀ overlay ∈ trigger.timerOverlays, Known library overlayIds false overlay) →
      (trigger.reimported library overlayIds id).textOverlays = trigger.textOverlays ∧
      (trigger.reimported library overlayIds id).timerOverlays = trigger.timerOverlays) := by
  refine ⟨?_, fun htext htimer => importOverlays_references htext htimer⟩
  rw [importTrigger_export h]
  constructor
  · intro heq timer htimer
    have hmap : trigger.timer.map TimerBehavior.reread = trigger.timer := congrArg (·.timer) heq
    rw [htimer] at hmap
    exact (reread_eq_self_iff (h.timer timer htimer)).mp (Option.some.inj hmap)
  · intro hbare
    have hmap : trigger.timer.map TimerBehavior.reread = trigger.timer := by
      cases htimer : trigger.timer with
      | none => rfl
      | some timer =>
        rw [Option.map_some, (reread_eq_self_iff (h.timer timer htimer)).mpr (hbare timer htimer)]
    rw [hmap]

/-- A trigger whose timer clears the variable of an entry. -/
def clearing (entry : Str) : NativeTrigger Literal.platform :=
  { Literal.trigger 1 ⟨"pull".toList, false⟩ "Pull".toList
      (some { Literal.timer .startNew with endClearVariables := [cleanName entry] }) with
    index := 0
    comments := []
    quarantine := none
    passthrough := ∅ }

theorem clearing_representable {entry : Str} (hentry : ∀ c ∈ entry, isListSeparator c = false)
    (hne : cleanName entry ≠ []) : (clearing entry).Representable := by
  have hplain : (Literal.timer .startNew).Representable :=
    ⟨rfl, rfl, by decide, by decide, by decide, by decide, by decide, nofun, nofun⟩
  have htimer : TimerBehavior.Representable
      ({ Literal.timer .startNew with endClearVariables := [cleanName entry] } : TimerBehavior Literal.platform) :=
    ⟨rfl, rfl, hplain.timesToLoop, hplain.warningSeconds, hplain.endEarlyRepeatedCount, hplain.texts, hplain.patterns,
      hplain.patternTexts, List.forall_mem_singleton.mpr ⟨hne, entry, hentry, rfl⟩⟩
  refine ⟨by simp [clearing, Literal.trigger], nofun, rfl, rfl, by simp [clearing, Literal.trigger],
    by simp [clearing, Literal.trigger], by simp [clearing, Literal.trigger], nofun, ?_, ?_⟩
  · rintro timer ⟨⟩
    exact htimer
  · exact fun key _ => ExtTreeMap.getElem?_empty

/-- The variable `x` is cleared before and after. -/
theorem round_trip_x : (importTrigger (exportTriggerData ⟨[], []⟩ (clearing ['$', 'x'])) "pull".toList none [] 2).1 =
    (clearing ['$', 'x']).reimported ⟨[], []⟩ [] 2 := by
  have hrepresentable : (clearing ['$', 'x']).Representable :=
    clearing_representable (by simp [isListSeparator]) (List.cons_ne_nil 'x' [])
  refine (round_trip hrepresentable ⟨[], []⟩ [] 2).1.mpr ?_
  rintro timer ⟨⟩ name hmem
  obtain rfl := List.mem_singleton.mp hmem
  exact ⟨by decide, by decide, by decide⟩

/-- The entry `{$x}` stands for the variable `$x`, which comes back as `x`. -/
theorem dollar_lost : ¬ ∀ trigger : NativeTrigger Literal.platform, trigger.Representable →
    ∀ (library : OverlayLibrary Literal.platform) (overlayIds : OverlayIds) (id : TriggerId),
      (importTrigger (exportTriggerData library trigger) trigger.name trigger.folder overlayIds id).1 =
        trigger.reimported library overlayIds id := by
  intro hall
  have hrepresentable : (clearing ['\x7b', '$', 'x', '\x7d']).Representable :=
    clearing_representable (by simp [isListSeparator]) (List.cons_ne_nil '$' ['x'])
  have heq := hall _ hrepresentable ⟨[], []⟩ [] 2
  rw [importTrigger_export hrepresentable] at heq
  have htimer : (clearing ['\x7b', '$', 'x', '\x7d']).timer.map TimerBehavior.reread =
      (clearing ['\x7b', '$', 'x', '\x7d']).timer := congrArg (·.timer) heq
  have hnames : [['x']] = [['$', 'x']] := congrArg TimerBehavior.endClearVariables (Option.some.inj htimer)
  revert hnames
  decide

end Triggers

end Stonemite
