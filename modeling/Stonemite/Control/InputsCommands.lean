import Stonemite.Control.InputsStart

/-!
# The commands that send input

What each command begins, and that a command that waits for a reply is refused or served. A refused command leaves the
engine as it was. The results are stated with `AllOrNone`, which the beginning of input sequences proves.
-/

namespace Stonemite.Control
open Std Trushar Keymaps

section commands
variable {state : UiState} {commands : Nat} {out : Outside}

/-! ### One sequence -/

theorem startTimer_spec (a : Answers) (out : Outside) (htimer : ∀ pid input, state.inputs pid = some input → out.timer = true) :
    out.startTimer a state = (false, out) ∨ out.startTimer a state = (true, { out with timer := true }) := by
  unfold Outside.startTimer
  by_cases hempty : state.activeInputs.isEmpty = true
  · rw [if_pos hempty]
    split_ifs
    · exact .inr rfl
    · exact .inl rfl
  · rw [if_neg hempty]
    have hlist : state.activeInputs.toList ≠ [] := by
      rw [← List.isEmpty_eq_false_iff, ExtTreeMap.isEmpty_toList]
      exact Bool.eq_false_iff.mpr hempty
    obtain ⟨entry, hentry⟩ := List.exists_mem_of_ne_nil _ hlist
    have hset := htimer entry.1 entry.2 (ExtTreeMap.lookup_of_mem_toList hentry)
    refine .inr (congrArg (Prod.mk true) ?_)
    obtain ⟨engine, closed, sent, trace, toasts, timer⟩ := out
    obtain rfl : timer = true := hset
    rfl

theorem heldOf_none {pid : UInt32} (trace : List InputEvent) (hidle : state.inputs pid = none) :
    heldOf state.inputs trace pid = none := by
  unfold heldOf
  rw [hidle]
  rfl

/-- A sequence of a process that has none begins, or nothing is left of it. -/
theorem launch_spec (h : Running state commands out) (a : Answers) (input : ActiveInput) (hcommand : input.command = commands)
    (hstart : input.index = 0 ∧ input.phase = .press) (hnext : input.nextStep = a.now + inputActivationDelay)
    (hidle : state.inputs input.pid = none)
    (hcompletion : input.completion = .single commands ∨ ∃ message, input.completion = .toast message) :
    (∃ error engine, launch a input state out = (some error, state, { out with engine }) ∧
      Broadcast.Engine.Sequences (heldOf state.inputs out.trace) engine) ∨
    ∃ state' out', launch a input state out = (none, state', out') ∧ Goes a.now false state commands out state' (commands + 1) out' ∧
      state'.inputs input.pid = some input ∧ ∀ pid strokes outcome, .began commands pid strokes outcome ∈ out'.trace ↔
        outcome = outcomeOf input ∧ input.pid = pid ∧ input.strokes = strokes := by
  have hnone := heldOf_none out.trace hidle
  unfold launch Outside.beginTargetedInput
  obtain ⟨error, herror⟩ | ⟨engine, hok, hengine⟩ := Broadcast.Engine.beginTargetedInput_spec h.ok.sequences a.engine input.pid
  · rw [herror]
    exact .inl ⟨mapTargetedInputError error, out.engine, rfl, h.ok.sequences⟩
  · rw [hok]
    dsimp only
    obtain htimer | htimer := startTimer_spec a { out with engine } h.ok.timer
    · rw [htimer]
      refine .inl ⟨timerFailed, engine.finishTargetedInput input.pid, rfl, (hengine.finish input.pid).congr fun pid => ?_⟩
      by_cases hpid : pid = input.pid
      · rw [hpid, Function.update_self]
        exact hnone
      · rw [Function.update_of_ne hpid, Function.update_of_ne hpid]
    · rw [htimer]
      have hjoined : Joined state.inputs [input]
          ({ state with activeInputs := state.activeInputs.insert input.pid input } : UiState).inputs := by
        refine ⟨fun other hother => ?_, fun pid hpid => ?_⟩
        · rw [List.mem_singleton.mp hother]
          exact ExtTreeMap.getElem?_insert_self
        · have hne : input.pid ≠ pid := fun heq => hpid (heq ▸ List.mem_cons_self)
          unfold UiState.inputs
          rw [ExtTreeMap.getElem?_insert_ite, if_neg hne]
      have hfresh : Fresh state.inputs commands a.now [input] :=
        ⟨fun _ hother => List.mem_singleton.mp hother ▸ hcommand, fun _ hother => List.mem_singleton.mp hother ▸ hidle,
          fun _ hother => List.mem_singleton.mp hother ▸ hstart, fun _ hother => List.mem_singleton.mp hother ▸ hnext⟩
      have halone : Alone (out.trace ++ [beganOf (outcomeOf input) input]) commands input.pid := by
        intro pid strokes outcome hmem
        obtain hbefore | hnew := mem_concat.mp hmem
        · exact absurd hbefore (h.fresh pid strokes outcome)
        · exact (InputEvent.began.inj hnew).2.1
      have hserves (other : ActiveInput) (hother : other ∈ [input]) : Serves state.inputBatches
          (out.trace ++ [input].map (beganOf (outcomeOf input))) other.pid other (outcomeOf input) := by
        rw [List.mem_singleton.mp hother]
        unfold Serves
        obtain hsingle | ⟨message, htoast⟩ := hcompletion
        · rw [hsingle, hcommand]
          exact ⟨rfl, rfl, halone⟩
        · rw [htoast, hcommand]
          exact halone
      have hbegun : Broadcast.Engine.Sequences
          (begun (heldOf state.inputs out.trace) ([input].map (·.pid))) engine := hengine.congr fun pid => by
        unfold begun
        by_cases hpid : pid = input.pid
        · rw [hpid, Function.update_self, List.map_singleton, if_pos List.mem_cons_self]
        · rw [Function.update_of_ne hpid, List.map_singleton, if_neg (hpid ∘ List.mem_singleton.mp)]
      obtain ⟨hgoes, hbegan⟩ := h.enter hfresh hjoined
        ⟨Nat.le_refl _, fun _ _ hbatch => hbatch, fun _ _ hbatch => .inl hbatch⟩ (Nat.le_succ_of_le h.batchIds) hbegun
        hserves
      refine .inr ⟨_, _, rfl, hgoes, hjoined.new input List.mem_cons_self, fun pid strokes outcome => ?_⟩
      refine (hbegan pid strokes outcome).trans (and_congr_right fun _ => ?_)
      simp only [List.mem_singleton, exists_eq_left]

/-- What a command is told that was asked for this and has played these strokes. -/
def ActiveInputKind.outcome (kind : ActiveInputKind) (strokes : List ResolvedStroke) : CommandOutcome :=
  match kind with
  | .input kind => .inputDelivered kind strokes.length
  | .eqAction action => .eqActionDelivered action

/-- What a command for one client asks for. -/
def RequestedOf (state : UiState) (clientId : ClientId) (kind : ActiveInputKind) (requested : List ResolvedStroke)
    (pid : UInt32) (strokes : List ResolvedStroke) (outcome : CommandOutcome) : Prop :=
  ∃ source, lookupInputSource state clientId = .ok source ∧ pidOf source = pid ∧ strokes = requested ∧
    outcome = kind.outcome requested

theorem Takes.congr {a : Answers} {state' : UiState} {out' : Outside} {P Q : UInt32 → List ResolvedStroke → CommandOutcome → Prop}
    (h : Takes a.now state commands out P state' out') (hiff : ∀ pid strokes outcome, P pid strokes outcome ↔ Q pid strokes outcome) :
    Takes a.now state commands out Q state' out' where
  goes := h.goes
  began := h.began.imp_right fun hbegan pid strokes outcome => (hbegan pid strokes outcome).trans (hiff pid strokes outcome)
  answered := h.answered

theorem startResolvedInput_spec (h : Running state commands out) (a : Answers) (clientId : ClientId)
    (kind : ActiveInputKind) {strokes : List ResolvedStroke} (hstrokes : strokes ≠ []) :
    (∃ error engine, startResolvedInput a clientId kind strokes hstrokes commands state out =
        (some error, state, { out with engine }) ∧
      Broadcast.Engine.Sequences (heldOf state.inputs out.trace) engine) ∨
    ∃ state' out', startResolvedInput a clientId kind strokes hstrokes commands state out = (none, state', out') ∧
      Takes a.now state commands out (RequestedOf state clientId kind strokes) state' out' := by
  unfold startResolvedInput
  by_cases hclosed : out.closed.contains commands = true
  · rw [if_pos hclosed]
    exact .inr ⟨state, out, rfl, h.idle h.ok.sequences a.now, .inl h.fresh, .inr (.inl (List.contains_iff_mem.mp hclosed))⟩
  rw [if_neg hclosed]
  cases hpid : resolveInputPid a state out clientId with
  | error error => exact .inl ⟨error, out.engine, rfl, h.ok.sequences⟩
  | ok pid =>
    dsimp only
    by_cases hbusy : state.activeInputs.contains pid = true
    · rw [if_pos hbusy]
      exact .inl ⟨_, out.engine, rfl, h.ok.sequences⟩
    rw [if_neg hbusy]
    have hidle : state.inputs pid = none := ExtTreeMap.contains_eq_false_iff.mp (Bool.eq_false_iff.mpr hbusy)
    obtain ⟨source, hsource, hsourcePid⟩ : ∃ source, lookupInputSource state clientId = .ok source ∧ pidOf source = pid := by
      unfold resolveInputPid at hpid
      cases hsource : lookupInputSource state clientId with
      | error error =>
        rw [hsource] at hpid
        cases hpid
      | ok source =>
        rw [hsource] at hpid
        dsimp only at hpid
        cases hready : ensureInputSourceReady a out source with
        | error error =>
          rw [hready] at hpid
          cases hpid
        | ok _ =>
          rw [hready] at hpid
          exact ⟨source, rfl, Except.ok.inj hpid⟩
    obtain hrefused | ⟨state', out', hlaunched, hgoes, hinput, hbegan⟩ := launch_spec h a
      ⟨pid, kind, strokes, 0, .press, a.now + inputActivationDelay, .single commands, commands,
        List.length_pos_iff.mpr hstrokes⟩ rfl ⟨rfl, rfl⟩ rfl hidle (.inl rfl)
    · exact .inl hrefused
    · refine .inr ⟨state', out', hlaunched, hgoes, .inr fun p strokes' outcome => (hbegan p strokes' outcome).trans ?_,
        .inr (.inr ⟨pid, _, hinput, rfl, fun message heq => by cases heq⟩)⟩
      constructor
      · rintro ⟨rfl, rfl, rfl⟩
        exact ⟨source, hsource, hsourcePid, rfl, rfl⟩
      · rintro ⟨source', hsource', rfl, rfl, rfl⟩
        obtain rfl := Except.ok.inj (hsource.symm.trans hsource')
        exact ⟨rfl, hsourcePid.symm, rfl⟩

theorem orReply_spec (h : Running state commands out) {a : Answers} {P : UInt32 → List ResolvedStroke → CommandOutcome → Prop}
    {started : Option ControlError × UiState × Outside}
    (hstarted : (∃ error engine, started = (some error, state, { out with engine }) ∧
        Broadcast.Engine.Sequences (heldOf state.inputs out.trace) engine) ∨
      ∃ state' out', started = (none, state', out') ∧ Takes a.now state commands out P state' out') :
    Takes a.now state commands out P (orReply commands started).1 (orReply commands started).2 := by
  obtain ⟨error, engine, rfl, hengine⟩ | ⟨state', out', rfl, htakes⟩ := hstarted
  · exact h.refuse hengine error
  · exact htakes

theorem startResolved_spec (h : Running state commands out) (a : Answers) (clientId : ClientId) (kind : ActiveInputKind)
    (resolved : Except ControlError (List ResolvedStroke)) (hresolved : ∀ strokes, resolved = .ok strokes → strokes ≠ []) :
    Takes a.now state commands out
      (fun pid strokes outcome => ∃ requested, resolved = .ok requested ∧
        RequestedOf state clientId kind requested pid strokes outcome)
      (startResolved a clientId kind resolved hresolved commands state out).1
      (startResolved a clientId kind resolved hresolved commands state out).2 := by
  cases resolved with
  | error error => exact h.refuse h.ok.sequences error
  | ok strokes =>
    refine Takes.congr (orReply_spec h (startResolvedInput_spec h a clientId kind (hresolved strokes rfl)))
      fun pid strokes' outcome => ⟨fun hrequested => ⟨strokes, rfl, hrequested⟩, ?_⟩
    rintro ⟨requested, heq, hrequested⟩
    obtain rfl := Except.ok.inj heq
    exact hrequested

/-! ### Actions -/

theorem SameInputs.refl (state : UiState) : SameInputs state state := ⟨rfl, rfl, rfl⟩

theorem SameInputs.noteEqActionStarted (state : UiState) (a : Answers) (pid : UInt32) (action : EqAction) :
    SameInputs state (state.noteEqActionStarted a pid action) := by
  unfold UiState.noteEqActionStarted
  split_ifs
  · exact .refl state
  · exact ⟨rfl, rfl, rfl⟩

theorem Takes.of_same {a : Answers} {state₀ state' : UiState} {out' : Outside}
    {P : UInt32 → List ResolvedStroke → CommandOutcome → Prop} (h : Takes a.now state commands out P state' out')
    (hsame : SameInputs state₀ state) : Takes a.now state₀ commands out P state' out' where
  goes := h.goes.of_same hsame
  began := h.began
  answered := h.answered

theorem Takes.same {a : Answers} {state' state'' : UiState} {out' : Outside}
    {P : UInt32 → List ResolvedStroke → CommandOutcome → Prop} (h : Takes a.now state commands out P state' out')
    (hsame : SameInputs state' state'') : Takes a.now state commands out P state'' out' where
  goes := h.goes.same hsame
  began := h.began
  answered := hsame.inputs ▸ h.answered

/-- What an action for one client asks for. -/
def RequestedAction (a : Answers) (state : UiState) (clientId : ClientId) (action : EqAction) (pid : UInt32)
    (strokes : List ResolvedStroke) (outcome : CommandOutcome) : Prop :=
  ∃ source binding, lookupInputSource state clientId = .ok source ∧ resolveActionForSource a source action = .ok binding ∧
    RequestedOf state clientId (.eqAction action) [bindingStroke binding] pid strokes outcome

theorem startEqAction_spec (h : Running state commands out) (a : Answers) (clientId : ClientId) (action : EqAction) :
    Takes a.now state commands out (RequestedAction a state clientId action)
      (startEqAction a clientId action commands state out).1 (startEqAction a clientId action commands state out).2 := by
  unfold startEqAction
  cases action.validate with
  | error error => exact h.refuse h.ok.sequences error
  | ok _ =>
    dsimp only
    cases hsource : lookupInputSource state clientId with
    | error error => exact h.refuse h.ok.sequences error
    | ok source =>
      dsimp only
      have hnoted : SameInputs state (if (xtargetSlotFromMapping action.mappingName).isSome then
            state.noteXtargetRotation a (pidOf source) else state) ∧
          lookupInputSource (if (xtargetSlotFromMapping action.mappingName).isSome then
            state.noteXtargetRotation a (pidOf source) else state) clientId = lookupInputSource state clientId := by
        split_ifs
        · exact ⟨⟨rfl, rfl, rfl⟩, rfl⟩
        · exact ⟨.refl state, rfl⟩
      generalize (if (xtargetSlotFromMapping action.mappingName).isSome then
        state.noteXtargetRotation a (pidOf source) else state) = noted at hnoted ⊢
      obtain ⟨hnoted, hlookup⟩ := hnoted
      have hrunning := h.same hnoted
      split
      next error _ => exact (hrunning.refuse hrunning.ok.sequences error).of_same hnoted
      next strokes hstrokes =>
        obtain ⟨binding, hbinding, rfl⟩ := resolveReadyAction_spec hstrokes
        obtain ⟨error, engine, hrefused, hengine⟩ | ⟨state', out', hstarted, htakes⟩ :=
          startResolvedInput_spec hrunning a clientId (.eqAction action) (List.cons_ne_nil (bindingStroke binding) [])
        · rw [hrefused]
          exact (hrunning.refuse hengine error).of_same hnoted
        · rw [hstarted]
          refine (htakes.of_same hnoted).same (.noteEqActionStarted state' a _ action) |>.congr
            fun pid strokes outcome => ?_
          unfold RequestedOf RequestedAction
          rw [hlookup]
          constructor
          · exact fun hrequested => ⟨source, binding, hsource, hbinding, hrequested⟩
          · rintro ⟨source', binding', hsource', hbinding', hrequested⟩
            obtain rfl := Except.ok.inj (hsource.symm.trans hsource')
            obtain rfl := Except.ok.inj (hbinding.symm.trans hbinding')
            exact hrequested

theorem sendInviteFollow_spec (h : Running state commands out) (a : Answers) (pid : UInt32) :
    Goes a.now false state commands out (sendInviteFollow a pid commands state out).2.1 (commands + 1)
      (sendInviteFollow a pid commands state out).2.2 := by
  unfold sendInviteFollow
  cases hstroke : resolveLocalEqAction a state out pid .inviteFollow with
  | error error => exact h.idle h.ok.sequences a.now
  | ok stroke =>
    have hidle : state.inputs pid = none := by
      unfold resolveLocalEqAction at hstroke
      dsimp only [EqAction.validate] at hstroke
      split_ifs at hstroke with _ _ hbusy
      exact ExtTreeMap.contains_eq_false_iff.mp (Bool.eq_false_iff.mpr hbusy)
    obtain ⟨error, engine, hrefused, hengine⟩ | ⟨state', out', hlaunched, hgoes, -⟩ := launch_spec h a
      ⟨pid, .eqAction .inviteFollow, [stroke], 0, .press, a.now + inputActivationDelay,
        .toast "Could not accept the group invitation", commands, Nat.zero_lt_one⟩ rfl ⟨rfl, rfl⟩ rfl hidle (.inr ⟨_, rfl⟩)
    · dsimp only
      rw [hrefused]
      exact h.idle hengine a.now
    · dsimp only
      rw [hlaunched]
      exact hgoes

/-! ### Batches -/

/-- A batch has a target: the commands that name none are refused. -/
theorem selectSources_ne_nil {sources selected : List SourceClient} {targets : EqActionTargets}
    (hvalid : targets.validate = .ok ()) (h : selectSourcesForTargets sources targets true = .ok selected) :
    selected ≠ [] := by
  unfold selectSourcesForTargets at h
  cases hmatching : matchingSources sources targets with
  | error error =>
    rw [hmatching] at h
    cases h
  | ok matching =>
    rw [hmatching] at h
    dsimp only at h
    have hrequire : ¬ (!true) = true := Bool.false_ne_true
    rw [if_neg hrequire] at h
    cases targets with
    | allLoaded =>
      dsimp only at h
      split_ifs at h with hempty
      obtain rfl := Except.ok.inj h
      exact fun heq => hempty (List.isEmpty_iff.mpr heq)
    | backgroundLoaded =>
      dsimp only at h
      split_ifs at h with hempty
      obtain rfl := Except.ok.inj h
      exact fun heq => hempty (List.isEmpty_iff.mpr heq)
    | windowNumbers numbers =>
      dsimp only at h
      split_ifs at h with hlength
      obtain rfl := Except.ok.inj h
      intro heq
      rw [heq, List.length_nil] at hlength
      obtain rfl : numbers = [] := List.length_eq_zero_iff.mp (not_not.mp hlength).symm
      cases hvalid
    | active =>
      obtain rfl := Except.ok.inj h
      unfold matchingSources activeKey at hmatching
      cases hactive : sources.find? (·.active) with
      | none =>
        rw [hactive] at hmatching
        cases hmatching
      | some source =>
        rw [hactive] at hmatching
        obtain rfl := Except.ok.inj hmatching
        refine List.ne_nil_of_mem (a := source) (mem_sortBy.mpr (List.mem_filter.mpr ⟨?_, decide_eq_true rfl⟩))
        exact List.mem_of_find?_eq_some hactive

/-- What is prepared for a source. -/
structure PreparedFor (a : Answers) (state : UiState) (action : EqAction) (source : SourceClient)
    (prepared : PreparedBatchInput) : Prop where
  pid : prepared.pid = pidOf source
  windowNumber : prepared.windowNumber = source.windowNumber
  idle : state.inputs prepared.pid = none
  binding : ∃ binding, resolveActionForSource a source action = .ok binding ∧ prepared.stroke = bindingStroke binding

theorem prepareSource_spec {a : Answers} {action : EqAction} {source : SourceClient} {prepared : PreparedBatchInput}
    (h : prepareSource a state out action source = .ok prepared) : PreparedFor a state action source prepared := by
  unfold prepareSource at h
  dsimp only at h
  split_ifs at h with _ hbusy
  cases hbinding : resolveActionForSource a source action with
  | error error =>
    rw [hbinding] at h
    cases h
  | ok binding =>
    rw [hbinding] at h
    obtain rfl := Except.ok.inj h
    exact ⟨rfl, rfl, ExtTreeMap.contains_eq_false_iff.mp (Bool.eq_false_iff.mpr hbusy), binding, hbinding, rfl⟩

theorem prepareEqActionBatch_spec {a : Answers} {targets : EqActionTargets} {action : EqAction}
    {prepared : List PreparedBatchInput} (h : prepareEqActionBatch a state out targets action = .ok prepared) :
    prepared ≠ [] ∧ ∃ sources, selectSourcesForTargets state.latestSources targets true = .ok sources ∧
      List.Forall₂ (PreparedFor a state action) sources prepared := by
  unfold prepareEqActionBatch at h
  cases hvalid : targets.validate with
  | error error =>
    rw [hvalid] at h
    cases h
  | ok _ =>
    rw [hvalid] at h
    dsimp only at h
    cases haction : action.validate with
    | error error =>
      rw [haction] at h
      cases h
    | ok _ =>
      rw [haction] at h
      dsimp only at h
      split_ifs at h
      cases hsources : selectSourcesForTargets state.latestSources targets true with
      | error error =>
        rw [hsources] at h
        cases h
      | ok sources =>
        rw [hsources] at h
        have hprepared := (forall₂_of_mapM_ok h).imp fun source prepared hsource => prepareSource_spec hsource
        refine ⟨fun hnil => ?_, sources, rfl, hprepared⟩
        rw [hnil] at hprepared
        exact selectSources_ne_nil hvalid hsources (List.forall₂_nil_right_iff.mp hprepared)

theorem foldl_joinInput (outcome : CommandOutcome) (fresh : List ActiveInput) (s : UiState × Outside)
    (hnodup : (fresh.map (·.pid)).Nodup) :
    ∃ inputs, fresh.foldl (joinInput outcome) s =
        ({ s.1 with activeInputs := inputs }, { s.2 with trace := s.2.trace ++ fresh.map (beganOf outcome) }) ∧
      Joined s.1.inputs fresh fun pid => inputs[pid]? := by
  induction fresh generalizing s with
  | nil =>
    refine ⟨s.1.activeInputs, ?_, fun _ hinput => absurd hinput List.not_mem_nil, fun _ _ => rfl⟩
    rw [List.map_nil, List.append_nil]
    rfl
  | cons input fresh ih =>
    obtain ⟨hnotMem, hnodup⟩ := List.nodup_cons.mp hnodup
    obtain ⟨inputs, hfold, hjoined⟩ := ih (joinInput outcome s input) hnodup
    refine ⟨inputs, ?_, fun other hother => ?_, fun pid hpid => ?_⟩
    · rw [List.foldl_cons, hfold]
      unfold joinInput beganOf
      rw [List.map_cons, List.append_assoc]
      rfl
    · obtain rfl | hother := List.mem_cons.mp hother
      · refine (hjoined.old other.pid hnotMem).trans ?_
        exact ExtTreeMap.getElem?_insert_self
      · exact hjoined.new other hother
    · obtain ⟨hne, hpid⟩ := not_or.mp (hpid ∘ List.mem_cons.mpr)
      refine (hjoined.old pid hpid).trans ?_
      unfold UiState.inputs joinInput
      rw [ExtTreeMap.getElem?_insert_ite, if_neg (Ne.symm hne)]

/-- What a batch asks for. -/
def RequestedBatch (a : Answers) (state : UiState) (targets : EqActionTargets) (action : EqAction) (pid : UInt32)
    (strokes : List ResolvedStroke) (outcome : CommandOutcome) : Prop :=
  ∃ sources, selectSourcesForTargets state.latestSources targets true = .ok sources ∧
    (∃ source ∈ sources, ∃ binding, pidOf source = pid ∧ resolveActionForSource a source action = .ok binding ∧
      strokes = [bindingStroke binding]) ∧
    outcome = .eqActionBatchDelivered action (sortBy compare (sources.map (·.windowNumber)))

theorem joinInput_batch (a : Answers) (trace : List InputEvent) (outcome : CommandOutcome) {fresh : List ActiveInput} {id : Nat} {batch : PendingBatch}
    {batches : ExtTreeMap Nat PendingBatch} {nextBatchId : Nat} (hfresh : Fresh state.inputs commands a.now fresh)
    (hne : fresh ≠ []) (hcompletion : ∀ input ∈ fresh, input.completion = .batch id) (hlt : nextBatchId < id)
    (hid : ∀ (other : Nat) batch, batches[other]? = some batch → other ≤ nextBatchId) (hreply : batch.reply = commands)
    (hremaining : batch.remaining = (fresh.map (·.pid)).toFinset) (hdelivered : batch.delivered = outcome) :
    Batched batches nextBatchId commands fresh outcome (batches.insert id batch) id ∧
      ∀ input ∈ fresh, Serves (batches.insert id batch) (trace ++ fresh.map (beganOf outcome)) input.pid input outcome := by
  refine ⟨⟨hlt.le, fun other batch' hbatch' => ?_, fun other batch' hbatch' => ?_⟩, fun input hinput => ?_⟩
  · rw [ExtTreeMap.getElem?_insert_ite, if_neg]
    · exact hbatch'
    · rintro rfl
      exact absurd (hid id batch' hbatch') (Nat.not_le.mpr hlt)
  · rw [ExtTreeMap.getElem?_insert_ite] at hbatch'
    split_ifs at hbatch' with hsame
    · subst hsame
      obtain rfl := Option.some.inj hbatch'
      exact .inr ⟨hreply, Nat.le_refl _, hremaining, hne, hdelivered, hcompletion⟩
    · exact .inl hbatch'
  · unfold Serves
    rw [hcompletion input hinput]
    refine ⟨batch, ExtTreeMap.getElem?_insert_self, ?_, hreply.trans (hfresh.command input hinput).symm⟩
    rw [hremaining]
    exact List.mem_toFinset.mpr (List.mem_map_of_mem hinput)

theorem enterBatch_spec (h : Running state commands out) {a : Answers} {targets : EqActionTargets} {action : EqAction}
    {prepared : List PreparedBatchInput} (hprepared : prepareEqActionBatch a state out targets action = .ok prepared)
    (hnodup : (prepared.map (·.pid)).Nodup) (hcommands : commands < 2 ^ 64 - 1) {engine' : Broadcast.Engine}
    (hengine : Broadcast.Engine.Sequences (begun (heldOf state.inputs out.trace) (prepared.map (·.pid))) engine') :
    Takes a.now state commands out (RequestedBatch a state targets action)
      (enterBatch a action prepared commands state { out with engine := engine', timer := true }).1
      (enterBatch a action prepared commands state { out with engine := engine', timer := true }).2 := by
  obtain ⟨hne, sources, hsources, hall⟩ := prepareEqActionBatch_spec hprepared
  unfold enterBatch
  have hid : min (state.nextBatchId + 1) (2 ^ 64 - 1) = state.nextBatchId + 1 :=
    Nat.min_eq_left (Nat.succ_le_of_lt (h.batchIds.trans_lt hcommands))
  rw [hid]
  dsimp only
  generalize hfresh : prepared.map (batchInput a action (state.nextBatchId + 1) commands) = fresh
  have hmem (input : ActiveInput) : input ∈ fresh ↔
      ∃ p ∈ prepared, batchInput a action (state.nextBatchId + 1) commands p = input := by rw [← hfresh, List.mem_map]
  have hpids : fresh.map (·.pid) = prepared.map (·.pid) := by
    rw [← hfresh, List.map_map]
    rfl
  have hidle (p : PreparedBatchInput) (hp : p ∈ prepared) : state.inputs p.pid = none := by
    obtain ⟨source, -, hsource⟩ := mem_of_forall₂ hall p hp
    exact hsource.idle
  have hfreshOk : Fresh state.inputs commands a.now fresh := by
    refine ⟨fun input hinput => ?_, fun input hinput => ?_, fun input hinput => ?_, fun input hinput => ?_⟩
    all_goals obtain ⟨p, hp, rfl⟩ := (hmem input).mp hinput
    · rfl
    · exact hidle p hp
    · exact ⟨rfl, rfl⟩
    · rfl
  have hcompletion (input : ActiveInput) (hinput : input ∈ fresh) : input.completion = .batch (state.nextBatchId + 1) := by
    obtain ⟨p, -, rfl⟩ := (hmem input).mp hinput
    rfl
  have hfreshNe : fresh ≠ [] := by
    rw [← hfresh]
    exact fun heq => hne (List.map_eq_nil_iff.mp heq)
  have hnumbers : prepared.map (·.windowNumber) = sources.map (·.windowNumber) :=
    map_eq_of_forall₂ hall fun _ _ hsource => hsource.windowNumber
  generalize hbatch : (⟨action, sortBy compare (prepared.map (·.windowNumber)), (prepared.map (·.pid)).toFinset, none,
    commands⟩ : PendingBatch) = batch
  have hdelivered : batch.delivered = .eqActionBatchDelivered action (sortBy compare (sources.map (·.windowNumber))) := by
    rw [← hbatch, ← hnumbers]
    rfl
  obtain ⟨hbatched, hserves⟩ := joinInput_batch a out.trace batch.delivered hfreshOk hfreshNe hcompletion
    (Nat.lt_succ_self state.nextBatchId) (fun id other hother => (h.ok.batch id other hother).id_le)
    (hbatch ▸ rfl) (by rw [hpids, ← hbatch]) rfl
  obtain ⟨inputs, hfold, hjoined⟩ := foldl_joinInput batch.delivered fresh
    ({ state with
        nextBatchId := state.nextBatchId + 1
        inputBatches := state.inputBatches.insert (state.nextBatchId + 1) batch },
      { out with engine := engine', timer := true }) (hpids ▸ hnodup)
  rw [hfold]
  have hentered : Joined state.inputs fresh ({ state with
      activeInputs := inputs
      nextBatchId := state.nextBatchId + 1
      inputBatches := state.inputBatches.insert (state.nextBatchId + 1) batch } : UiState).inputs := hjoined
  obtain ⟨hgoes, hbegan⟩ := h.enter hfreshOk hentered hbatched (Nat.succ_le_succ h.batchIds) (hpids ▸ hengine) hserves
  refine ⟨hgoes, .inr fun pid strokes outcome => (hbegan pid strokes outcome).trans ?_, ?_⟩
  · rw [hdelivered]
    constructor
    · rintro ⟨rfl, input, hinput, rfl, rfl⟩
      obtain ⟨p, hp, rfl⟩ := (hmem input).mp hinput
      obtain ⟨source, hsource, hprepared⟩ := mem_of_forall₂ hall p hp
      obtain ⟨binding, hbinding, hstroke⟩ := hprepared.binding
      exact ⟨sources, hsources, ⟨source, hsource, binding, hprepared.pid.symm, hbinding, congrArg (fun s => [s]) hstroke⟩,
        rfl⟩
    · rintro ⟨sources', hsources', ⟨source, hsource, binding, rfl, hbinding, rfl⟩, rfl⟩
      obtain rfl := Except.ok.inj (hsources.symm.trans hsources')
      obtain ⟨p, hp, hprepared⟩ := mem_of_forall₂ (R := fun p source => PreparedFor a state action source p) hall.flip
        source hsource
      obtain ⟨binding', hbinding', hstroke⟩ := hprepared.binding
      obtain rfl := Except.ok.inj (hbinding.symm.trans hbinding')
      exact ⟨rfl, _, (hmem _).mpr ⟨p, hp, rfl⟩, hprepared.pid, congrArg (fun s => [s]) hstroke⟩
  · obtain ⟨input, hinput⟩ := List.exists_mem_of_ne_nil fresh hfreshNe
    refine .inr (.inr ⟨input.pid, input, hjoined.new input hinput, hfreshOk.command input hinput, fun message heq => ?_⟩)
    rw [hcompletion input hinput] at heq
    cases heq

theorem startEqActionBatch_spec (h : Running state commands out) (a : Answers) (targets : EqActionTargets)
    (action : EqAction) (hcommands : commands < 2 ^ 64 - 1) :
    Takes a.now state commands out (RequestedBatch a state targets action)
      (startEqActionBatch a targets action commands state out).1
      (startEqActionBatch a targets action commands state out).2 := by
  unfold startEqActionBatch
  by_cases hclosed : out.closed.contains commands = true
  · rw [if_pos hclosed]
    exact ⟨h.idle h.ok.sequences a.now, .inl h.fresh, .inr (.inl (List.contains_iff_mem.mp hclosed))⟩
  rw [if_neg hclosed]
  cases hprepared : prepareEqActionBatch a state out targets action with
  | error error => exact h.refuse h.ok.sequences error
  | ok prepared =>
    dsimp only
    obtain ⟨-, sources, -, hall⟩ := prepareEqActionBatch_spec hprepared
    have hidle (pid : UInt32) (hpid : pid ∈ prepared.map (·.pid)) : heldOf state.inputs out.trace pid = none := by
      obtain ⟨p, hp, rfl⟩ := List.mem_map.mp hpid
      obtain ⟨source, -, hsource⟩ := mem_of_forall₂ hall p hp
      exact heldOf_none out.trace hsource.idle
    have hnone : Broadcast.Engine.Sequences (begun (heldOf state.inputs out.trace) []) out.engine :=
      h.ok.sequences.congr fun pid => if_neg List.not_mem_nil
    obtain ⟨error, engine, hrefused, hengine⟩ | ⟨engine, hacquired, hnodup, hengine⟩ :=
      acquire_spec a out (prepared.map PreparedBatchInput.pid) hnone hidle (fun _ hpid => absurd hpid List.not_mem_nil) List.nodup_nil
    · rw [hrefused]
      exact h.refuse hengine _
    · rw [hacquired]
      rw [List.nil_append] at hnodup hengine
      dsimp only
      obtain htimer | htimer := startTimer_spec a { out with engine } h.ok.timer
      · rw [htimer]
        obtain ⟨engine', hfinished, hheld⟩ := foldl_finishTargetedInput { out with engine } (prepared.map (·.pid)) hengine
          (fun pid => by unfold begun; split_ifs with hpid <;> [exact .inr hpid; exact .inl rfl]) hidle
        dsimp only
        rw [hfinished]
        exact h.refuse hheld timerFailed
      · rw [htimer]
        exact enterBatch_spec h hprepared hnodup hcommands hengine

end commands

end Stonemite.Control
