import Stonemite.Trigger.Eqlp
import Stonemite.Trigger.Literal

/-!
# What is kept of an imported trigger

The data a trigger is exported to has the fields that are written, and the passthrough for the rest. The passthrough of
an imported trigger holds the fields that are not mapped; a field that is mapped but that the import does not execute is
lost. `importTrigger_kept` says which fields an import keeps, and `unexecuted_kept` for which data these are all that are
not executed.
-/

open Std

namespace Stonemite.Triggers

variable {P : Platform} {library : OverlayLibrary P} {trigger : NativeTrigger P} {key : String} {value : Value P}

/-! ### The fields of exported data -/

theorem mappedTriggerFields_nodup : mappedTriggerFields.Nodup := by simp [mappedTriggerFields, timerSettings]

theorem isMapped_toList : isMapped key.toList = true ↔ key ∈ mappedTriggerFields := by
  simp only [isMapped, List.any_eq_true, decide_eq_true_eq]
  constructor
  · rintro ⟨field, hmem, hfield⟩
    rwa [← String.toList_inj.mp hfield]
  · exact fun hmem => ⟨key, hmem, rfl⟩

theorem exportTimer_keys (timer : TimerBehavior P) :
    (exportTimer timer).map (·.1) = "EnableTimer" :: "TimerType" :: timerSettings := by
  have hpattern (pattern : Option Pattern) (patternKey regexKey : String) :
      (exportEndEarly patternKey regexKey pattern : List (String × Value P)).map (·.1) = [patternKey, regexKey] := by
    cases pattern <;> rfl
  simp only [exportTimer, endEarlyFields, List.zipIdx_cons, List.zipIdx_nil, List.flatMap_cons, List.flatMap_nil,
    List.map_append, hpattern]
  rfl

theorem exportFields_keys (library : OverlayLibrary P) (trigger : NativeTrigger P) :
    ((exportFields library trigger).map (·.1)).Sublist mappedTriggerFields := by
  cases htimer : trigger.timer with
  | some timer =>
    rw [exportFields, htimer, List.map_append, exportTimer_keys]
    exact List.Sublist.refl _
  | none =>
    rw [exportFields, htimer, List.map_append]
    simp [mappedTriggerFields, timerSettings]

theorem exportTriggerData_eq (library : OverlayLibrary P) (trigger : NativeTrigger P) :
    exportTriggerData library trigger = ((exportFields library trigger).map fun field => (field.1.toList, field.2)).foldl
      (fun data field => data.insert field.1 field.2) trigger.passthrough := by
  rw [exportTriggerData, List.foldl_map]

theorem exportTriggerData_of_mem (h : (key, value) ∈ exportFields library trigger) :
    (exportTriggerData library trigger)[key.toList]? = some value := by
  have hnodup := (exportFields_keys library trigger).nodup mappedTriggerFields_nodup
  have hdistinct : ((exportFields library trigger).map fun field => (field.1.toList, field.2)).Pairwise
      fun a b => a.1 ≠ b.1 := by
    rw [List.pairwise_map]
    exact (List.pairwise_map.mp hnodup).imp fun hne heq => hne (String.toList_inj.mp heq)
  rw [exportTriggerData_eq]
  exact ExtTreeMap.getElem?_foldl_update (fun data => data) (f := fun value _ => value) (fun _ _ => rfl) hdistinct
    (List.mem_map.mpr ⟨_, h, rfl⟩)

theorem exportTriggerData_of_not_mem {key : Str} (h : ∀ field ∈ exportFields library trigger, field.1.toList ≠ key) :
    (exportTriggerData library trigger)[key]? = trigger.passthrough[key]? := by
  rw [exportTriggerData_eq]
  refine ExtTreeMap.getElem?_foldl_update_of_ne (fun data => data) (f := fun value _ => value) (fun _ _ => rfl) ?_
  intro field hfield
  obtain ⟨field', hmem, rfl⟩ := List.mem_map.mp hfield
  exact h field' hmem

theorem exportTriggerData_of_not_mapped {key : Str} (h : isMapped key = false) :
    (exportTriggerData library trigger)[key]? = trigger.passthrough[key]? := by
  refine exportTriggerData_of_not_mem fun field hfield heq => ?_
  have hmem := (exportFields_keys library trigger).subset (List.mem_map_of_mem hfield)
  rw [← heq, isMapped_toList.mpr hmem] at h
  cases h

/-! ### Fields that are not executed -/

/-- The import acts on a field of the data. Without a timer the fields of a timer say nothing, but for a timer type of 0
that there is none. -/
def executes (data : Fields P) (key : Str) : Bool :=
  isMapped key && ((importTimerKind data).isSome ||
    (!timerSettings.any (fun field => field.toList = key) &&
      ((key ≠ "EnableTimer".toList && key ≠ "TimerType".toList) || importTimerType data = 0)))

variable {data : ExtTreeMap Str (Value P)} {name : Str} {parent : Option FolderId} {overlayIds : OverlayIds}
  {id : TriggerId}

theorem importTrigger_passthrough (key : Str) :
    (importTrigger data name parent overlayIds id).1.passthrough[key]? =
      if isMapped key then none else data[key]? := by
  show (data.filter fun key _ => !isMapped key)[key]? = _
  rw [ExtTreeMap.getElem?_filter']
  cases isMapped key <;> cases data[key]? <;> rfl

theorem importTrigger_timer :
    (importTrigger data name parent overlayIds id).1.timer = importTimer fun key => data[key]? := rfl

theorem importTrigger_kept {key : Str} (h : isMapped key = false) :
    (exportTriggerData library (importTrigger data name parent overlayIds id).1)[key]? = data[key]? := by
  rw [exportTriggerData_of_not_mapped h, importTrigger_passthrough, h]
  rfl

theorem timerSettings_lost (htimer : trigger.timer = none) (hpassthrough : trigger.passthrough[key.toList]? = none)
    (hkey : key ∈ timerSettings) : (exportTriggerData library trigger)[key.toList]? = none := by
  rw [exportTriggerData_of_not_mem, hpassthrough]
  intro field hfield heq
  have hmem : field.1 ∈ (exportFields library trigger).map (·.1) := List.mem_map_of_mem hfield
  rw [String.toList_inj.mp heq, exportFields, htimer, List.map_append] at hmem
  have hdisjoint : ∀ field ∈ timerSettings, field ∉ mappedTriggerFields.take 22 := by decide +kernel
  exact hdisjoint key hkey hmem

theorem exported_timerType (htimer : trigger.timer = none) :
    (exportTriggerData library trigger)["TimerType".toList]? = some (ofInt 0) := by
  refine exportTriggerData_of_mem ?_
  rw [exportFields, htimer]
  exact List.mem_append_right _ (by simp)

theorem executes_of_timerSettings {fields : Fields P} (hkind : importTimerKind fields = none)
    (hkey : key ∈ timerSettings) : executes fields key.toList = false := by
  have hany : timerSettings.any (fun field => field.toList = key.toList) = true :=
    List.any_eq_true.mpr ⟨key, hkey, decide_eq_true rfl⟩
  rw [executes, hkind, hany, Option.isSome_none, Bool.not_true, Bool.false_and, Bool.or_self, Bool.and_false]

theorem timerType_of_unsupported {fields : Fields P} (hkind : importTimerKind fields = none)
    (htype : importTimerType fields ≠ 0) : ∃ value, fields "TimerType".toList = some value ∧ value ≠ ofInt 0 := by
  have hnonzero : (fields.i64Field "TimerType").getD 0 ≠ 0 := by
    intro hzero
    rw [importTimerKind, importTimerType, hzero] at hkind
    rw [importTimerType, hzero] at htype
    cases henable : fields.boolField "EnableTimer" with
    | true =>
      rw [henable] at hkind
      cases hkind
    | false =>
      rw [henable] at htype
      exact htype rfl
  rw [Fields.i64Field, Fields.get] at hnonzero
  cases hvalue : fields "TimerType".toList with
  | none =>
    rw [hvalue] at hnonzero
    exact absurd rfl hnonzero
  | some value =>
    refine ⟨value, rfl, ?_⟩
    rintro rfl
    rw [hvalue] at hnonzero
    exact hnonzero rfl

/-- Every field that is not executed comes back as it was if and only if a timer is imported, or there is no timer and
nothing is set for one. -/
theorem unexecuted_kept (library : OverlayLibrary P) (data : ExtTreeMap Str (Value P)) (name : Str)
    (parent : Option FolderId) (overlayIds : OverlayIds) (id : TriggerId) :
    (∀ (key : Str) (value : Value P), data[key]? = some value → executes (fun key => data[key]?) key = false →
      (exportTriggerData library (importTrigger data name parent overlayIds id).1)[key]? = some value) ↔
    (importTimerKind fun key => data[key]?).isSome ∨
      (importTimerType (fun key => data[key]?) = 0 ∧ ∀ field ∈ timerSettings, data[field.toList]? = none) := by
  generalize hfields : (fun key => data[key]? : Fields P) = fields
  have hfield (key : Str) : fields key = data[key]? := by rw [← hfields]
  have htimer : (importTrigger data name parent overlayIds id).1.timer = importTimer fields := by
    rw [importTrigger_timer, hfields]
  constructor
  · intro hkept
    cases hkind : importTimerKind fields with
    | some kind => exact .inl rfl
    | none =>
      rw [importTimer, hkind] at htimer
      refine .inr ⟨?_, fun field hmem => ?_⟩
      · by_contra htype
        obtain ⟨value, hvalue, hne⟩ := timerType_of_unsupported hkind htype
        have hexecutes : executes fields "TimerType".toList = false := by
          rw [executes, hkind]
          simp [htype]
        have hsame := hkept _ value (hfield _ ▸ hvalue) hexecutes
        rw [exported_timerType htimer] at hsame
        exact hne (Option.some.inj hsame).symm
      · cases hvalue : data[field.toList]? with
        | none => rfl
        | some value =>
          have hsame := hkept _ value hvalue (executes_of_timerSettings hkind hmem)
          have hmapped : isMapped field.toList = true := isMapped_toList.mpr (List.mem_append_right _ hmem)
          rw [timerSettings_lost htimer (by rw [importTrigger_passthrough, hmapped]; rfl) hmem] at hsame
          exact hsame.symm
  · intro hor key value hvalue hexecutes
    cases hmapped : isMapped key with
    | false => rw [importTrigger_kept hmapped, hvalue]
    | true =>
      rw [executes, hmapped, Bool.true_and, Bool.or_eq_false_iff] at hexecutes
      obtain ⟨hkind, hrest⟩ := hexecutes
      rcases hor with hsome | ⟨htype, hnone⟩
      · rw [hkind] at hsome
        cases hsome
      · rw [htype, decide_eq_true rfl, Bool.or_true, Bool.and_true, Bool.not_eq_false'] at hrest
        obtain ⟨field, hmem, hfield⟩ := List.any_eq_true.mp hrest
        rw [← of_decide_eq_true hfield, hnone field hmem] at hvalue
        cases hvalue

/-- A stopwatch that lasts ten seconds: the timer type is not supported. -/
def stopwatch : ExtTreeMap Str (Value Literal.platform) :=
  ((∅ : ExtTreeMap Str (Value Literal.platform)).insert "TimerType".toList (ofInt 5)).insert
    "DurationSeconds".toList (ofInt 10)

/-- The stopwatch comes back without its duration. -/
theorem stopwatch_lost : ¬ ∀ (key : Str) (value : Value Literal.platform), stopwatch[key]? = some value →
    executes (fun key => stopwatch[key]?) key = false →
    (exportTriggerData ⟨[], []⟩ (importTrigger stopwatch "Stun".toList none [] 1).1)[key]? = some value := by
  intro hkept
  have hfields : (fun key => stopwatch[key]? : Fields Literal.platform) = fun key =>
      if "DurationSeconds".toList = key then some (ofInt 10)
      else if "TimerType".toList = key then some (ofInt 5) else none := by
    funext key
    rw [stopwatch, ExtTreeMap.getElem?_insert_ite, ExtTreeMap.getElem?_insert_ite, ExtTreeMap.getElem?_empty]
  have hduration : stopwatch["DurationSeconds".toList]? = some (ofInt 10) := by
    rw [stopwatch, ExtTreeMap.getElem?_insert_ite, if_pos rfl]
  have hkind : importTimerKind (fun key => stopwatch[key]? : Fields Literal.platform) = none := by
    rw [hfields]
    decide
  have htimer : (importTrigger stopwatch "Stun".toList none [] 1).1.timer = none := by
    rw [importTrigger_timer, importTimer, hkind]
    rfl
  have hmem : "DurationSeconds" ∈ timerSettings := by decide
  have hsame := hkept _ _ hduration (executes_of_timerSettings hkind hmem)
  have hmapped : isMapped "DurationSeconds".toList = true := isMapped_toList.mpr (List.mem_append_right _ hmem)
  rw [timerSettings_lost htimer (by rw [importTrigger_passthrough, hmapped]; rfl) hmem] at hsame
  cases hsame

end Stonemite.Triggers
