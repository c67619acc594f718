import Stonemite.Control.InputsCommands

/-!
# Runs of the control thread

Any calls in any order: commands as they are taken from the queue, ticks of the timer, snapshots, considers, the end of
the control thread, the calls that others make to the engine, and replies that no one waits for any more. `System.Ok` is
the invariant of a run (`Ok.step`, `run_ok`), and `System.Steps` what two states of a run have in common.
-/

namespace Stonemite.Control
open Std Trushar Keymaps

/-! ### The calls -/

/-- What may happen to the control thread, around it in the engine, and to the callers that wait. -/
inductive UiCall
  | sendText (clientId : ClientId) (text : Str) (submit : Bool)
  | sendKeys (clientId : ClientId) (strokes : List KeyStroke)
  | sendEqAction (clientId : ClientId) (action : EqAction)
  | sendEqActionBatch (targets : EqActionTargets) (action : EqAction)
  | sendInviteFollow (pid : UInt32)
  | advanceInput
  | publish (sources : List SourceClient) (broadcast : Trushar.BroadcastState) (mouseClutch : MouseClutchState)
  | recordConsider (pid : UInt32) (consider : ConsiderResult) (observedAt : Nat)
  | stop
  | closeReply (reply : Nat)
  | engine (call : Broadcast.Call) (foreign : call.servesTargeted = false)

/-- The control thread, while it runs, what is outside it, and how many commands have been taken. -/
structure System where
  ui : Option UiState
  out : Outside
  commands : Nat

namespace System

/-- `start`, before the engine is. -/
def started (hub : StateHub) : System :=
  ⟨some ⟨.default, [], hub, ∅, ∅, 0, .empty⟩, ⟨none, [], [], [], [], false⟩, 0⟩

/-- A command is taken from the queue, with its own number. -/
def take (s : System) (command : Nat → UiState → Outside → UiState × Outside) : System :=
  match s.ui with
  | none => s
  | some state => ⟨some (command s.commands state s.out).1, (command s.commands state s.out).2, s.commands + 1⟩

/-- A call that needs the control thread. -/
def onUi (s : System) (call : UiState → Outside → UiState × Outside) : System :=
  match s.ui with
  | none => s
  | some state => { s with ui := some (call state s.out).1, out := (call state s.out).2 }

def step (s : System) : UiCall × Answers → System
  | (.sendText clientId text submit, a) => s.take (startTextInput a clientId text submit)
  | (.sendKeys clientId strokes, a) => s.take (startKeyInput a clientId strokes)
  | (.sendEqAction clientId action, a) => s.take (startEqAction a clientId action)
  | (.sendEqActionBatch targets action, a) => s.take (startEqActionBatch a targets action)
  | (.sendInviteFollow pid, a) => s.take fun command state out => (sendInviteFollow a pid command state out).2
  | (.advanceInput, a) => s.onUi (advanceInput a)
  | (.publish sources broadcast mouseClutch, a) =>
    s.onUi fun state out => (state.publish a out.engine.isAvailable sources broadcast mouseClutch, out)
  | (.recordConsider pid consider observedAt, a) =>
    s.onUi fun state out => (state.recordConsider a pid consider observedAt, out)
  | (.stop, _) =>
    match s.ui with
    | none => s
    | some state => { s with ui := none, out := Control.stop state s.out }
  | (.closeReply reply, _) => { s with out := { s.out with closed := reply :: s.out.closed } }
  | (.engine call _, a) => { s with out := { s.out with engine := s.out.engine.step (call, a.engine) } }

def run (hub : StateHub) (calls : List (UiCall × Answers)) : System := calls.foldl step (started hub)

/-- The sequences under way, by process. -/
def inputs (s : System) (pid : UInt32) : Option ActiveInput := s.ui.bind fun state => state.inputs pid

end System

/-- What a call asks for that waits for a reply. -/
def UiCall.Requests (call : UiCall) (a : Answers) (state : UiState) (pid : UInt32) (strokes : List ResolvedStroke)
    (outcome : CommandOutcome) : Prop :=
  match call with
  | .sendText clientId text submit => ∃ requested, resolveText a.layout text submit = .ok requested ∧
      RequestedOf state clientId (.input .text) requested pid strokes outcome
  | .sendKeys clientId keys => ∃ requested, resolveKeys keys = .ok requested ∧
      RequestedOf state clientId (.input .keys) requested pid strokes outcome
  | .sendEqAction clientId action => RequestedAction a state clientId action pid strokes outcome
  | .sendEqActionBatch targets action => RequestedBatch a state targets action pid strokes outcome
  | _ => False

/-- The calls that wait for a reply. -/
def UiCall.replies : UiCall → Bool
  | .sendText .. | .sendKeys .. | .sendEqAction .. | .sendEqActionBatch .. => true
  | _ => false

def UiCall.ticks : UiCall → Bool
  | .advanceInput => true
  | _ => false

/-! ### Each call -/

section calls
variable {state : UiState} {commands : Nat} {out : Outside}

theorem Running.advanceInput (h : Running state commands out) (a : Answers) :
    Goes a.now true state commands out (Control.advanceInput a state out).1 commands
      (Control.advanceInput a state out).2 := by
  have hpid (entry : UInt32 × ActiveInput) (hentry : entry ∈ state.activeInputs.toList) : entry.2.pid = entry.1 :=
    (h.ok.input entry.1 entry.2 (ExtTreeMap.lookup_of_mem_toList hentry)).pid_eq
  have hpids : (state.activeInputs.toList.map (·.2)).map (·.pid) = state.activeInputs.toList.map (·.1) := by
    rw [List.map_map]
    exact List.map_congr_left hpid
  have hrest (input : ActiveInput) (hinput : input ∈ state.activeInputs.toList.map (·.2)) :
      state.inputs input.pid = some input ∧
        ({ state with activeInputs := ∅ } : UiState).activeInputs[input.pid]? = none := by
    obtain ⟨entry, hentry, rfl⟩ := List.mem_map.mp hinput
    rw [hpid entry hentry]
    exact ⟨ExtTreeMap.lookup_of_mem_toList hentry, ExtTreeMap.getElem?_empty⟩
  have hothers (pid : UInt32) (hpid : pid ∉ (state.activeInputs.toList.map (·.2)).map (·.pid)) :
      state.inputs pid = ({ state with activeInputs := ∅ } : UiState).activeInputs[pid]? := by
    rw [hpids] at hpid
    refine Eq.trans ?_ ExtTreeMap.getElem?_empty.symm
    cases hinput : state.inputs pid with
    | none => rfl
    | some input => exact absurd (List.mem_map.mpr ⟨_, ExtTreeMap.mem_toList_of_lookup hinput, rfl⟩) hpid
  unfold Control.advanceInput
  dsimp only
  generalize hs' : (state.activeInputs.toList.map (·.2)).foldl (advanceOneInput a) ({ state with activeInputs := ∅ }, out) = s'
  have hcleared : InputsOk state.inputs ({ state with activeInputs := ∅ } : UiState).inputBatches
      ({ state with activeInputs := ∅ } : UiState).nextBatchId commands out := h.ok
  obtain ⟨hok, htracked, hbatchId, hgrows, hawaited, hticked⟩ := InputsOk.foldl_advanceOneInput a
    (state.activeInputs.toList.map (·.2)) hcleared h.tracked hrest (hpids ▸ ExtTreeMap.nodup_keys_toList) hothers hs'.symm
  obtain ⟨state', out'⟩ := s'
  have hmoved (pid : UInt32) (after : ActiveInput) (hafter : state'.inputs pid = some after) :
      Moved state.inputs commands a.now true pid after := by
    obtain hbefore | ⟨input, hinput, rfl, hticked⟩ := hticked pid after hafter
    · exact absurd (hbefore.symm.trans ExtTreeMap.getElem?_empty) (Option.some_ne_none after)
    · exact .ticked rfl (hrest input hinput).1 hticked
  dsimp only
  by_cases hempty : state'.activeInputs.isEmpty = true
  · rw [if_pos hempty]
    have hidle (pid : UInt32) : state'.inputs pid = none := by
      unfold UiState.inputs
      rw [ExtTreeMap.isEmpty_iff.mp hempty]
      exact ExtTreeMap.getElem?_empty
    have hstopped : InputsOk state'.inputs state'.inputBatches state'.nextBatchId commands { out' with timer := false } :=
      hok.outside rfl (fun _ hmem => hmem) rfl hok.sequences fun pid input hinput =>
        absurd ((hidle pid).symm.trans hinput) (Option.some_ne_none input).symm
    exact ⟨⟨hstopped, htracked, hbatchId.trans_le h.batchIds⟩, hmoved,
      ⟨hgrows.sent, hgrows.closed, hgrows.trace, hgrows.began⟩, hawaited⟩
  · rw [if_neg hempty]
    exact ⟨⟨hok, htracked, hbatchId.trans_le h.batchIds⟩, hmoved, hgrows, hawaited⟩

theorem Running.stop (h : Running state commands out) :
    InputsOk (fun _ => none) ∅ 0 commands (Control.stop state out) ∧ Grows commands out (Control.stop state out) := by
  have hended (pid : UInt32) : heldOf state.inputs out.trace pid = none ∨ pid ∈ state.activeInputs.toList.map (·.2.pid) := by
    unfold heldOf
    cases hinput : state.inputs pid with
    | none => exact .inl rfl
    | some input =>
      exact .inr (List.mem_map.mpr ⟨(pid, input), ExtTreeMap.mem_toList_of_lookup hinput, (h.ok.input pid input hinput).pid_eq⟩)
  obtain ⟨engine, hfinished, hengine⟩ := foldl_finishTargetedInput out (state.activeInputs.toList.map (·.2.pid)) h.ok.sequences
    hended fun _ _ => rfl
  have hout : ∃ timer, Control.stop state out = { out with engine, timer } := by
    unfold Control.stop
    rw [hfinished]
    dsimp only
    split_ifs
    · exact ⟨out.timer, rfl⟩
    · exact ⟨false, rfl⟩
  obtain ⟨timer, hout⟩ := hout
  rw [hout]
  refine ⟨⟨hengine.congr fun _ => rfl, fun pid input hinput => ?_, fun id batch hbatch => ?_, fun id _ batch _ hbatch => ?_,
    h.ok.event, h.ok.began, h.ok.sent, h.ok.once, h.ok.success, fun pid input hinput => ?_⟩,
    ⟨fun _ hmem => hmem, fun _ hmem => hmem, fun _ hmem => hmem, fun _ _ _ _ hmem => .inl hmem⟩⟩
  · exact absurd hinput (Option.some_ne_none input).symm
  · exact absurd (hbatch.symm.trans ExtTreeMap.getElem?_empty) (Option.some_ne_none batch)
  · exact absurd (hbatch.symm.trans ExtTreeMap.getElem?_empty) (Option.some_ne_none batch)
  · exact absurd hinput (Option.some_ne_none input).symm

end calls

/-! ### Every run -/

/-- What holds after any calls. -/
def System.Ok (s : System) : Prop :=
  match s.ui with
  | some state => Running state s.commands s.out
  | none => InputsOk (fun _ => none) ∅ 0 s.commands s.out

/-- A command has its reply, or no one waits for it, or a sequence serves it that will reply, or the control thread has
ended and dropped it. -/
def System.Awaited (s : System) (command : Nat) : Prop := s.ui = none ∨ Control.Awaited s.inputs s.out command

/-- What a call leaves. -/
structure System.Steps (now : Nat) (tick : Bool) (s s' : System) : Prop where
  ok : s'.Ok
  moved : ∀ pid input, s'.inputs pid = some input → Moved s.inputs s.commands now tick pid input
  commands : s.commands ≤ s'.commands ∧ s'.commands ≤ s.commands + 1
  grows : Grows s.commands s.out s'.out
  awaited : ∀ command, s.Awaited command → s'.Awaited command

theorem System.Awaited.of_ui {s : System} {state : UiState} (hui : s.ui = some state) {command : Nat}
    (h : s.Awaited command) : Control.Awaited state.inputs s.out command := by
  obtain hnone | hawaited := h
  · exact absurd (hui.symm.trans hnone) (Option.some_ne_none state)
  · unfold System.inputs at hawaited
    rw [hui] at hawaited
    exact hawaited

section steps
variable {now : Nat} {tick : Bool}

theorem Goes.steps {s : System} {state state' : UiState} {commands' : Nat} {out' : Outside} (hui : s.ui = some state)
    (h : Goes now tick state s.commands s.out state' commands' out')
    (hle : s.commands ≤ commands' ∧ commands' ≤ s.commands + 1) : System.Steps now tick s ⟨some state', out', commands'⟩ where
  ok := h.running
  moved pid input hinput := by
    unfold System.inputs
    rw [hui]
    exact h.moved pid input hinput
  commands := hle
  grows := h.grows
  awaited command hawaited := .inr (h.awaited command (hawaited.of_ui hui))

theorem System.Steps.stopped {s : System} (h : s.Ok) (hui : s.ui = none) : System.Steps now tick s s := by
  refine ⟨h, fun pid input hinput => ?_, ⟨Nat.le_refl _, Nat.le_succ _⟩, .refl s.commands s.out, fun _ hawaited => hawaited⟩
  unfold System.inputs at hinput
  rw [hui] at hinput
  cases hinput

namespace System
variable {s : System}

theorem Ok.take (h : s.Ok) {command : Nat → UiState → Outside → UiState × Outside}
    (hcommand : ∀ state, Running state s.commands s.out → Goes now tick state s.commands s.out
      (command s.commands state s.out).1 (s.commands + 1) (command s.commands state s.out).2) :
    Steps now tick s (s.take command) := by
  unfold System.take
  cases hui : s.ui with
  | none => exact .stopped h hui
  | some state =>
    unfold Ok at h
    rw [hui] at h
    exact (hcommand state h).steps hui ⟨Nat.le_succ _, Nat.le_refl _⟩

theorem Ok.onUi (h : s.Ok) {call : UiState → Outside → UiState × Outside}
    (hcall : ∀ state, Running state s.commands s.out → Goes now tick state s.commands s.out
      (call state s.out).1 s.commands (call state s.out).2) : Steps now tick s (s.onUi call) := by
  unfold System.onUi
  cases hui : s.ui with
  | none => exact .stopped h hui
  | some state =>
    unfold Ok at h
    rw [hui] at h
    exact (hcall state h).steps hui ⟨Nat.le_refl _, Nat.le_succ _⟩

/-- What is outside changes, but for what the sequences have done. -/
theorem Ok.outside (h : s.Ok) {out' : Outside} (hsent : out'.sent = s.out.sent)
    (hclosed : ∀ reply ∈ s.out.closed, reply ∈ out'.closed) (htrace : out'.trace = s.out.trace)
    (hengine : ∀ held, Broadcast.Engine.Sequences held s.out.engine → Broadcast.Engine.Sequences held out'.engine)
    (htimer : out'.timer = s.out.timer) : Steps now false s { s with out := out' } := by
  have hgrows : Grows s.commands s.out out' :=
    ⟨hsent ▸ fun _ hmem => hmem, hclosed, htrace ▸ fun _ hmem => hmem, htrace ▸ fun _ _ _ _ hmem => .inl hmem⟩
  refine ⟨?_, fun _ _ hinput => .kept rfl hinput, ⟨Nat.le_refl _, Nat.le_succ _⟩, hgrows, fun command => .imp_right fun hawaited => hawaited.grows hgrows⟩
  unfold Ok at h ⊢
  cases hui : s.ui with
  | none =>
    rw [hui] at h
    exact h.outside hsent hclosed htrace (hengine _ h.sequences) fun pid input hinput =>
      absurd hinput (Option.some_ne_none input).symm
  | some state =>
    rw [hui] at h
    exact ⟨h.ok.outside hsent hclosed htrace (hengine _ h.ok.sequences) fun pid input hinput =>
      htimer.trans (h.ok.timer pid input hinput), htrace ▸ h.tracked, h.batchIds⟩

theorem Ok.step (h : s.Ok) (hcommands : s.commands < 2 ^ 64 - 1) (call : UiCall) (a : Answers) :
    Steps a.now call.ticks s (s.step (call, a)) := by
  have hsame {state state' : UiState} (hrunning : Running state s.commands s.out) (hsame : SameInputs state state') :
      Goes a.now false state s.commands s.out state' s.commands s.out :=
    Goes.same ⟨hrunning, fun _ _ hinput => .kept rfl hinput, .refl s.commands s.out, fun _ hawaited => hawaited⟩ hsame
  cases call with
  | sendText clientId text submit =>
    exact h.take fun state hrunning => (startResolved_spec hrunning a clientId _ _ _).goes
  | sendKeys clientId strokes =>
    exact h.take fun state hrunning => (startResolved_spec hrunning a clientId _ _ _).goes
  | sendEqAction clientId action => exact h.take fun state hrunning => (startEqAction_spec hrunning a clientId action).goes
  | sendEqActionBatch targets action =>
    exact h.take fun state hrunning => (startEqActionBatch_spec hrunning a targets action hcommands).goes
  | sendInviteFollow pid =>
    show Steps a.now false s (s.take fun command state out => (sendInviteFollow a pid command state out).2)
    exact h.take fun state hrunning => sendInviteFollow_spec hrunning a pid
  | advanceInput => exact h.onUi fun state hrunning => hrunning.advanceInput a
  | publish sources broadcast mouseClutch => exact h.onUi fun state hrunning => hsame hrunning ⟨rfl, rfl, rfl⟩
  | recordConsider pid consider observedAt =>
    refine h.onUi fun state hrunning => hsame hrunning ?_
    unfold UiState.recordConsider
    split_ifs
    · exact ⟨rfl, rfl, rfl⟩
    · exact .refl state
  | stop =>
    unfold System.step
    dsimp only
    cases hui : s.ui with
    | none => exact .stopped h hui
    | some state =>
      unfold Ok at h
      rw [hui] at h
      obtain ⟨hok, hgrows⟩ := h.stop
      exact ⟨hok, fun _ input hinput => absurd hinput (Option.some_ne_none input).symm, ⟨Nat.le_refl _, Nat.le_succ _⟩, hgrows, fun _ _ => .inl rfl⟩
  | closeReply reply =>
    exact h.outside rfl (fun _ hmem => List.mem_cons_of_mem reply hmem) rfl (fun _ hengine => hengine) rfl
  | engine call foreign =>
    exact h.outside rfl (fun _ hmem => hmem) rfl (fun _ hengine => hengine.step foreign) rfl

theorem started_ok (hub : StateHub) : (started hub).Ok := by
  have hnone (pid : UInt32) : (∅ : ExtTreeMap UInt32 ActiveInput)[pid]? = none := ExtTreeMap.getElem?_empty
  have hbatches (id : Nat) : (∅ : ExtTreeMap Nat PendingBatch)[id]? = none := ExtTreeMap.getElem?_empty
  refine ⟨⟨Broadcast.Engine.sequences_none _, fun pid input hinput => ?_, fun id batch hbatch => ?_,
    fun id _ batch _ hbatch => ?_, fun event hevent => ?_, fun _ _ _ _ _ _ hmem => ?_, fun _ _ hsent => ?_, List.nodup_nil,
    fun _ _ hsent => ?_, fun pid input hinput => ?_⟩, fun pid input hinput => ?_, Nat.le_refl 0⟩
  · exact absurd ((hnone pid).symm.trans hinput) (Option.some_ne_none input).symm
  · exact absurd ((hbatches id).symm.trans hbatch) (Option.some_ne_none batch).symm
  · exact absurd ((hbatches id).symm.trans hbatch) (Option.some_ne_none batch).symm
  · exact absurd hevent List.not_mem_nil
  · exact absurd hmem List.not_mem_nil
  · exact absurd hsent List.not_mem_nil
  · exact absurd hsent List.not_mem_nil
  · exact absurd ((hnone pid).symm.trans hinput) (Option.some_ne_none input).symm
  · exact absurd ((hnone pid).symm.trans hinput) (Option.some_ne_none input).symm

theorem Ok.foldl (h : s.Ok) (calls : List (UiCall × Answers)) (hcommands : s.commands + calls.length < 2 ^ 64) :
    (calls.foldl System.step s).Ok ∧ (calls.foldl System.step s).commands ≤ s.commands + calls.length ∧
      s.commands ≤ (calls.foldl System.step s).commands ∧ Grows s.commands s.out (calls.foldl System.step s).out ∧
      ∀ command, s.Awaited command → (calls.foldl System.step s).Awaited command := by
  induction calls generalizing s with
  | nil => exact ⟨h, Nat.le_refl _, Nat.le_refl _, .refl s.commands s.out, fun _ hawaited => hawaited⟩
  | cons call calls ih =>
    rw [List.length_cons] at hcommands ⊢
    obtain ⟨call, a⟩ := call
    have hstep := h.step (by omega) call a
    have hbounds := hstep.commands
    obtain ⟨hok, hle, hge, hgrows, hawaited⟩ := ih hstep.ok (by omega)
    refine ⟨hok, by rw [List.foldl_cons]; omega, hbounds.1.trans hge, hstep.grows.trans hgrows hbounds.1,
      fun command hcommand => hawaited command (hstep.awaited command hcommand)⟩

theorem run_ok (hub : StateHub) (calls : List (UiCall × Answers)) (hlength : calls.length < 2 ^ 64) :
    (run hub calls).Ok ∧ (run hub calls).commands ≤ calls.length := by
  obtain ⟨hok, hle, -⟩ := (started_ok hub).foldl calls (by rw [started, Nat.zero_add]; exact hlength)
  exact ⟨hok, hle.trans (Nat.zero_add _).le⟩

end System

end steps

end Stonemite.Control
