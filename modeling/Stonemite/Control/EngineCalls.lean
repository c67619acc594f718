import Stonemite.Control.InputsRun
import Stonemite.Trusik.ClutchSessions

/-!
# The engine under the control thread

The control thread reaches the engine only through the calls of targeted input. So the engine after any calls to the
control thread is the engine after some calls of its own, among which those of others stand in their order, and what
holds of every run of the engine holds there. `Reaches` is the relation between the controllers before and after a step
of the control thread (`reaches_step`); `engine_step` adds the calls of others and `engine_run` is the run.
-/

namespace Stonemite.Control
open Std Trushar
open Broadcast (MouseClutchOwner)

/-- Calls of targeted input have been made to the engine, and no one has stopped to wait for a reply. -/
structure Reaches (out out' : Outside) : Prop where
  engine : ∃ calls : List (Broadcast.Call × Broadcast.Surroundings),
    (∀ call ∈ calls, call.1.servesTargeted = true) ∧ out'.engine = calls.foldl Broadcast.Engine.step out.engine
  closed : out'.closed = out.closed

namespace Reaches
variable {out out' out'' : Outside}

theorem same (hengine : out'.engine = out.engine) (hclosed : out'.closed = out.closed) : Reaches out out' :=
  ⟨⟨[], List.forall_mem_nil _, hengine⟩, hclosed⟩

theorem refl (out : Outside) : Reaches out out := .same rfl rfl

theorem trans (h : Reaches out out') (h' : Reaches out' out'') : Reaches out out'' := by
  obtain ⟨calls, hcalls, hengine⟩ := h.engine
  obtain ⟨calls', hcalls', hengine'⟩ := h'.engine
  refine ⟨⟨calls ++ calls', fun call hcall => ?_, ?_⟩, h'.closed.trans h.closed⟩
  · rcases List.mem_append.mp hcall with hcall | hcall
    · exact hcalls call hcall
    · exact hcalls' call hcall
  · rw [hengine', hengine, List.foldl_append]

theorem call (call : Broadcast.Call) (hcall : call.servesTargeted = true) (e : Broadcast.Surroundings)
    (hengine : out'.engine = out.engine.step (call, e)) (hclosed : out'.closed = out.closed) : Reaches out out' :=
  ⟨⟨[(call, e)], List.forall_mem_singleton.mpr hcall, hengine⟩, hclosed⟩

theorem foldl {α β : Type} {f : β → α → β} (g : β → Outside) (hf : ∀ b a, Reaches (g b) (g (f b a))) (l : List α)
    (b : β) : Reaches (g b) (g (l.foldl f b)) := by
  induction l generalizing b with
  | nil => exact .refl _
  | cons a l ih => exact (hf b a).trans (ih (f b a))

end Reaches

/-! ### What the control thread does -/

section outside
variable (out : Outside) (a : Answers)

theorem reaches_send (reply : Nat) (result : Except ControlError CommandOutcome) : Reaches out (out.send reply result) := by
  unfold Outside.send
  split_ifs
  · exact .refl out
  · exact .same rfl rfl

theorem reaches_beginTargetedInput (pid : UInt32) : Reaches out (out.beginTargetedInput a pid).2 := by
  refine .call (.beginTargetedInput pid) rfl a.engine ?_ rfl
  show (out.engine.beginTargetedInput a.engine pid).2 = _
  cases out.engine <;> rfl

theorem reaches_finishTargetedInput (pid : UInt32) : Reaches out (out.finishTargetedInput pid) := by
  refine .call (.finishTargetedInput pid) rfl (Broadcast.Engine.playing 1) ?_ rfl
  show out.engine.finishTargetedInput pid = _
  cases out.engine <;> rfl

theorem setTargetedKey_step (engine : Broadcast.Engine) (pid : UInt32) (scan : UInt8) (pressed : Bool) :
    (engine.setTargetedKey pid scan pressed).2 =
      engine.step (.setTargetedKey pid scan pressed, Broadcast.Engine.playing 1) := by
  cases engine with
  | none =>
    unfold Broadcast.Engine.setTargetedKey
    dsimp only
    split_ifs <;> rfl
  | some s => rfl

theorem reaches_changeKeys (command : Nat) (pid : UInt32) (pressed : Bool) (scans : List UInt8) :
    Reaches out (Outside.changeKeys command pid pressed scans out).2 := by
  induction scans generalizing out with
  | nil => exact .refl _
  | cons scan scans ih =>
    have hkey := setTargetedKey_step out.engine pid scan pressed
    rw [Outside.changeKeys]
    generalize out.engine.setTargetedKey pid scan pressed = changed at hkey ⊢
    obtain ⟨message | _, engine⟩ := changed
    · exact .call (.setTargetedKey pid scan pressed) rfl _ hkey rfl
    · have hchanged : Reaches out { out with engine, trace := out.trace ++ [.changed command pid scan pressed] } :=
        .call (.setTargetedKey pid scan pressed) rfl _ hkey rfl
      exact hchanged.trans (ih _)

theorem reaches_startTimer (state : UiState) : Reaches out (out.startTimer a state).2 := by
  unfold Outside.startTimer
  split_ifs
  · exact .same rfl rfl
  · exact .refl out
  · exact .refl out

end outside

section commands
variable (a : Answers) (state : UiState) (out : Outside)

theorem reaches_finishAll (pids : List UInt32) : Reaches out (pids.foldl Outside.finishTargetedInput out) :=
  .foldl id reaches_finishTargetedInput pids out

theorem reaches_launch (input : ActiveInput) : Reaches out (launch a input state out).2.2 := by
  have hbegin := reaches_beginTargetedInput out a input.pid
  unfold launch
  generalize out.beginTargetedInput a input.pid = begun at hbegin ⊢
  obtain ⟨error | _, out'⟩ := begun
  · exact hbegin
  · have htimer := hbegin.trans (reaches_startTimer out' a state)
    dsimp only at htimer ⊢
    generalize out'.startTimer a state = timed at htimer ⊢
    obtain ⟨started, out''⟩ := timed
    cases started with
    | false => exact htimer.trans (reaches_finishTargetedInput out'' input.pid)
    | true => exact htimer.trans (.same rfl rfl)

theorem reaches_startResolvedInput (clientId : ClientId) (kind : ActiveInputKind) (strokes : List ResolvedStroke)
    (hstrokes : strokes ≠ []) (reply : Nat) :
    Reaches out (startResolvedInput a clientId kind strokes hstrokes reply state out).2.2 := by
  unfold startResolvedInput
  split
  · exact .refl _
  · split
    · exact .refl _
    · split
      · exact .refl _
      · exact reaches_launch a state out _

theorem reaches_startResolved (clientId : ClientId) (kind : ActiveInputKind)
    (resolved : Except ControlError (List ResolvedStroke)) (hresolved : ∀ strokes, resolved = .ok strokes → strokes ≠ [])
    (reply : Nat) : Reaches out (startResolved a clientId kind resolved hresolved reply state out).2 := by
  cases resolved with
  | error error =>
    exact reaches_send out reply (.error error)
  | ok strokes =>
    have hstart := reaches_startResolvedInput a state out clientId kind strokes (hresolved strokes rfl) reply
    unfold startResolved
    dsimp only
    generalize startResolvedInput a clientId kind strokes (hresolved strokes rfl) reply state out = begun at hstart ⊢
    obtain ⟨_ | error, state', out'⟩ := begun
    · exact hstart
    · exact hstart.trans (reaches_send out' reply (.error error))

theorem reaches_startEqAction (clientId : ClientId) (action : EqAction) (reply : Nat) :
    Reaches out (startEqAction a clientId action reply state out).2 := by
  have hsend (error : ControlError) : Reaches out (out.send reply (.error error)) := reaches_send out reply (.error error)
  unfold startEqAction
  cases action.validate with
  | error error => exact hsend error
  | ok _ =>
    dsimp only
    cases lookupInputSource state clientId with
    | error error => exact hsend error
    | ok source =>
      dsimp only
      generalize (if (xtargetSlotFromMapping action.mappingName).isSome then
        state.noteXtargetRotation a (pidOf source) else state) = noted
      split
      next error _ => exact hsend error
      next strokes hstrokes =>
        obtain ⟨binding, -, rfl⟩ := resolveReadyAction_spec hstrokes
        have hstart := reaches_startResolvedInput a noted out clientId (.eqAction action) [bindingStroke binding]
          (List.cons_ne_nil _ _) reply
        generalize startResolvedInput a clientId (.eqAction action) [bindingStroke binding] _ reply noted out = begun
          at hstart ⊢
        obtain ⟨_ | error, state', out'⟩ := begun
        · exact hstart
        · exact hstart.trans (reaches_send out' reply (.error error))

theorem reaches_acquire (acquired pids : List UInt32) : Reaches out (acquire a acquired pids out).2 := by
  induction pids generalizing acquired out with
  | nil => exact .refl _
  | cons pid pids ih =>
    have hbegin := reaches_beginTargetedInput out a pid
    rw [acquire]
    generalize out.beginTargetedInput a pid = begun at hbegin ⊢
    obtain ⟨error | _, out'⟩ := begun
    · exact hbegin.trans (reaches_finishAll out' acquired)
    · exact hbegin.trans (ih out' _)

theorem reaches_enterBatch (action : EqAction) (prepared : List PreparedBatchInput) (reply : Nat) :
    Reaches out (enterBatch a action prepared reply state out).2 := by
  unfold enterBatch
  dsimp only
  generalize prepared.map (batchInput a action _ reply) = inputs
  generalize ({ state with nextBatchId := _, inputBatches := _ } : UiState) = state'
  exact .foldl (f := joinInput _) (fun s : UiState × Outside => s.2) (fun _ _ => .same rfl rfl) inputs (state', out)

theorem reaches_startEqActionBatch (targets : EqActionTargets) (action : EqAction) (reply : Nat) :
    Reaches out (startEqActionBatch a targets action reply state out).2 := by
  unfold startEqActionBatch
  split
  · exact .refl _
  · split
    · exact reaches_send out reply _
    · rename_i prepared _
      have hacquire := reaches_acquire a out [] (prepared.map (·.pid))
      dsimp only
      generalize acquire a [] (prepared.map (·.pid)) out = acquired at hacquire ⊢
      obtain ⟨error | _, out'⟩ := acquired
      · exact hacquire.trans (reaches_send out' reply _)
      · have htimer := hacquire.trans (reaches_startTimer out' a state)
        dsimp only at htimer ⊢
        generalize out'.startTimer a state = timed at htimer ⊢
        obtain ⟨started, out''⟩ := timed
        cases started with
        | false => exact (htimer.trans (reaches_finishAll out'' _)).trans (reaches_send _ reply _)
        | true => exact htimer.trans (reaches_enterBatch a state out'' action prepared reply)

theorem reaches_finishInput (input : ActiveInput) (result : Option (Except ControlError CommandOutcome)) :
    Reaches out (finishInput state out input result).2 := by
  have hfinish (trace : List InputEvent) : Reaches out { out.finishTargetedInput input.pid with trace } :=
    (reaches_finishTargetedInput out input.pid).trans (.same rfl rfl)
  unfold finishInput
  dsimp only
  split
  · split
    · exact (hfinish _).trans (reaches_send _ _ _)
    · exact hfinish _
  · split
    · exact hfinish _
    · split
      · exact (hfinish _).trans (reaches_send _ _ _)
      · exact hfinish _
  · split
    · exact (hfinish (out.trace ++ [.finished input.command input.pid])).trans (.same rfl rfl)
    · exact hfinish _

theorem reaches_advanceOneInput (s : UiState × Outside) (input : ActiveInput) :
    Reaches s.2 (advanceOneInput a s input).2 := by
  obtain ⟨state, out⟩ := s
  unfold advanceOneInput
  dsimp only
  split
  · exact reaches_finishInput state out input _
  · split
    · exact reaches_finishInput state out input _
    · split
      · exact .refl _
      · split
        · exact reaches_finishInput (noteDelivered a state input) out input _
        · have hkeys := reaches_changeKeys out input.command input.pid input.phase.pressed
            (phaseScans input.stroke input.phase)
          generalize Outside.changeKeys input.command input.pid input.phase.pressed
            (phaseScans input.stroke input.phase) out = changed at hkeys ⊢
          obtain ⟨_ | message, out'⟩ := changed
          · exact hkeys
          · exact hkeys.trans (reaches_finishInput state out' input _)

theorem reaches_advanceInput : Reaches out (advanceInput a state out).2 := by
  have hticks := Reaches.foldl (fun s : UiState × Outside => s.2) (reaches_advanceOneInput a)
    (state.activeInputs.toList.map (·.2)) ({ state with activeInputs := ∅ }, out)
  unfold advanceInput
  dsimp only at hticks ⊢
  split_ifs
  · exact hticks.trans (.same rfl rfl)
  · exact hticks

theorem reaches_stop : Reaches out (stop state out) := by
  have hended := reaches_finishAll out (state.activeInputs.toList.map (·.2.pid))
  unfold stop
  dsimp only
  split_ifs
  · exact hended
  · exact hended.trans (.same rfl rfl)

end commands

/-! ### Runs -/

/-- A call to the engine that is not for targeted input. -/
def UiCall.foreign : UiCall → Option Broadcast.Call
  | .engine call _ => some call
  | _ => none

/-- The call of another to the engine, with what Windows answers. -/
def foreignCall (call : UiCall × Answers) : Option (Broadcast.Call × Broadcast.Surroundings) :=
  call.1.foreign.map (·, call.2.engine)

namespace System
variable (s : System) (a : Answers)

theorem reaches_take {command : Nat → UiState → Outside → UiState × Outside}
    (h : ∀ reply state out, Reaches out (command reply state out).2) :
    Reaches s.out (s.take command).out := by
  unfold take
  split
  · exact .refl _
  · exact h s.commands _ s.out

theorem reaches_onUi {call : UiState → Outside → UiState × Outside}
    (h : ∀ state out, Reaches out (call state out).2) : Reaches s.out (s.onUi call).out := by
  unfold onUi
  split
  · exact .refl _
  · exact h _ s.out

theorem reaches_sendInviteFollow (pid : UInt32) (command : Nat) (state : UiState) (out : Outside) :
    Reaches out (sendInviteFollow a pid command state out).2.2 := by
  unfold sendInviteFollow
  split
  · exact .refl _
  · exact reaches_launch a state out _

/-- A call to the control thread makes calls of targeted input. -/
theorem reaches_step (call : UiCall) (hforeign : call.foreign = none) (hclose : ∀ reply, call ≠ .closeReply reply) :
    Reaches s.out (s.step (call, a)).out := by
  cases call with
  | sendText clientId text submit =>
    exact s.reaches_take fun reply state out => reaches_startResolved a state out clientId _ _ _ reply
  | sendKeys clientId strokes =>
    exact s.reaches_take fun reply state out => reaches_startResolved a state out clientId _ _ _ reply
  | sendEqAction clientId action =>
    exact s.reaches_take fun reply state out => reaches_startEqAction a state out clientId action reply
  | sendEqActionBatch targets action =>
    exact s.reaches_take fun reply state out => reaches_startEqActionBatch a state out targets action reply
  | sendInviteFollow pid => exact s.reaches_take fun command state out => reaches_sendInviteFollow a pid command state out
  | advanceInput => exact s.reaches_onUi fun state out => reaches_advanceInput a state out
  | publish sources broadcast mouseClutch => exact s.reaches_onUi fun state out => .refl _
  | recordConsider pid consider observedAt => exact s.reaches_onUi fun state out => .refl _
  | stop =>
    unfold System.step
    dsimp only
    split
    · exact .refl _
    · exact reaches_stop _ s.out
  | closeReply reply => exact absurd rfl (hclose reply)
  | engine call foreign => cases hforeign

/-- A call to the control thread is a call of another to the engine, or calls of targeted input. -/
theorem engine_step (call : UiCall) : match call.foreign with
    | some foreign => (s.step (call, a)).out.engine = s.out.engine.step (foreign, a.engine)
    | none => ∃ targeted : List (Broadcast.Call × Broadcast.Surroundings), (∀ call ∈ targeted, call.1.servesTargeted = true) ∧
        (s.step (call, a)).out.engine = targeted.foldl Broadcast.Engine.step s.out.engine := by
  cases call with
  | closeReply reply => exact ⟨[], List.forall_mem_nil _, rfl⟩
  | engine call foreign => rfl
  | _ => exact (reaches_step s a _ rfl fun _ => UiCall.noConfusion).engine

theorem run_concat (hub : StateHub) (calls : List (UiCall × Answers)) (call : UiCall × Answers) :
    run hub (calls ++ [call]) = (run hub calls).step call := by
  unfold run
  rw [List.foldl_append]
  rfl

/-- The engine has had calls of its own, those of others among them in their order. -/
theorem engine_run (hub : StateHub) (calls : List (UiCall × Answers)) :
    ∃ engineCalls, (run hub calls).out.engine = Broadcast.Engine.run engineCalls ∧
      engineCalls.filter (fun call => !call.1.servesTargeted) = calls.filterMap foreignCall := by
  induction calls using List.reverseRecOn with
  | nil => exact ⟨[], rfl, rfl⟩
  | append_singleton calls call ih =>
    obtain ⟨call, a⟩ := call
    obtain ⟨engineCalls, hengine, hforeign⟩ := ih
    have hstep := (run hub calls).engine_step a call
    rw [run_concat]
    cases hcall : call.foreign with
    | some foreign =>
      rw [hcall] at hstep
      have hserves : foreign.servesTargeted = false := by
        cases call with
        | engine call notServed =>
          obtain rfl := Option.some.inj hcall
          exact notServed
        | _ => cases hcall
      refine ⟨engineCalls ++ [(foreign, a.engine)], ?_, ?_⟩
      · rw [hstep, hengine]
        unfold Broadcast.Engine.run
        rw [List.foldl_append]
        rfl
      · rw [List.filter_append, List.filterMap_append, hforeign]
        simp [foreignCall, hcall, hserves]
    | none =>
      rw [hcall] at hstep
      obtain ⟨targeted, htargeted, hreached⟩ := hstep
      refine ⟨engineCalls ++ targeted, ?_, ?_⟩
      · rw [hreached, hengine]
        unfold Broadcast.Engine.run
        rw [List.foldl_append]
      · have hnone : targeted.filter (fun call => !call.1.servesTargeted) = [] :=
          List.filter_eq_nil_iff.mpr fun call hmem => by simp [htargeted call hmem]
        rw [List.filter_append, List.filterMap_append, hforeign, hnone]
        simp [foreignCall, hcall]

end System

end Stonemite.Control
