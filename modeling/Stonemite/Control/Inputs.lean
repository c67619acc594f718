import Stonemite.Control.Consider
import Stonemite.Trusik.Sequences

/-!
# Input sequences

The control thread of the controller answers the commands that send input to game clients. A command resolves what is to be
sent, lets the engine begin a sequence for each of its processes and leaves the rest to a timer: at every tick each sequence
that is due does its next phase. It ends with its last phase, when the engine refuses a key, when its process is gone, or
when no one waits for the reply any more. A batch replies when the last of its sequences has ended.
-/

namespace Stonemite.Control
open Std Trushar Keymaps

/-- How long the game is given to take targeted input up. -/
def inputActivationDelay : Nat := millis 200

/-- How long modifiers are down before and after the keys of a chord. -/
def inputModifierDelay : Nat := millis 30

/-- How long the last keys are up before the sequence ends. -/
def inputReleaseDelay : Nat := millis 100

/-! ### The state -/

/-- What a sequence was asked for. -/
inductive ActiveInputKind
  | input (kind : InputKind)
  | eqAction (action : EqAction)
deriving DecidableEq

/-- Who is told when a sequence has ended: who waits for a reply, a batch, or the user. -/
inductive InputCompletion
  | single (reply : Nat)
  | batch (id : Nat)
  | toast (failureMessage : String)
deriving DecidableEq

/-- A sequence under way. `command` is the number of the command that it serves; it is for the trace only. -/
structure ActiveInput where
  pid : UInt32
  kind : ActiveInputKind
  strokes : List ResolvedStroke
  index : Nat
  phase : InputPhase
  nextStep : Nat
  completion : InputCompletion
  command : Nat
  inBounds : index < strokes.length

/-- The stroke that is being played. -/
def ActiveInput.stroke (input : ActiveInput) : ResolvedStroke := input.strokes.get ⟨input.index, input.inBounds⟩

/-- What a command is told whose sequence has been played. -/
def outcomeOf (input : ActiveInput) : CommandOutcome :=
  match input.kind with
  | .input kind => .inputDelivered kind input.strokes.length
  | .eqAction action => .eqActionDelivered action

/-- A batch command: its action, the boxes, those still at it, and the first error. -/
structure PendingBatch where
  action : EqAction
  windowNumbers : List Nat
  remaining : Finset UInt32
  error : Option ControlError
  reply : Nat

/-- The state of the control thread. -/
structure UiState where
  mapper : SnapshotMapper
  latestSources : List SourceClient
  hub : StateHub
  activeInputs : ExtTreeMap UInt32 ActiveInput
  inputBatches : ExtTreeMap Nat PendingBatch
  nextBatchId : Nat
  transient : Transient

/-- What is done to the engine in turn, by the number of the command that it serves; a sequence begins with what it is to
send and how its command is answered if all goes well. -/
inductive InputEvent
  | began (command : Nat) (pid : UInt32) (strokes : List ResolvedStroke) (outcome : CommandOutcome)
  | changed (command : Nat) (pid : UInt32) (scan : UInt8) (pressed : Bool)
  | finished (command : Nat) (pid : UInt32)

/-- What is outside the controller: the engine, the replies for which no one waits any more and those that have been sent,
the trace, the toasts and whether the timer is set. -/
structure Outside where
  engine : Broadcast.Engine
  closed : List Nat
  sent : List (Nat × Except ControlError CommandOutcome)
  trace : List InputEvent
  toasts : List String
  timer : Bool

/-- What is found out during a call; the clock is read once. -/
structure Answers where
  now : Nat
  engine : Broadcast.Surroundings
  timerStarts : Bool
  layout : Layout
  /-- The keymap files of a client, or why they cannot be read. -/
  keymaps : SourceClient → Except Str (Option KeymapFile × List (Option KeymapFile))
  /-- The extended targets of a client, none where they cannot be read. -/
  xtargets : SourceClient → List XTargets.XTargetSlot

namespace Outside
variable (out : Outside) (a : Answers)

/-- A reply for which no one waits any more is lost. -/
def send (reply : Nat) (result : Except ControlError CommandOutcome) : Outside :=
  if out.closed.contains reply then out else { out with sent := out.sent ++ [(reply, result)] }

/-- The engine begins targeted input at the process. -/
def beginTargetedInput (pid : UInt32) : Except Broadcast.BroadcastState.TargetedInputError Unit × Outside :=
  ((out.engine.beginTargetedInput a.engine pid).1,
    { out with engine := (out.engine.beginTargetedInput a.engine pid).2 })

/-- The engine ends targeted input at the process. -/
def finishTargetedInput (pid : UInt32) : Outside := { out with engine := out.engine.finishTargetedInput pid }

/-- The loop over the keys of a phase, up to the first that the engine refuses. -/
def changeKeys (command : Nat) (pid : UInt32) (pressed : Bool) : List UInt8 → Outside → Option String × Outside
  | [], out => (none, out)
  | scan :: scans, out =>
    match out.engine.setTargetedKey pid scan pressed with
    | (.error message, engine) => (some message, { out with engine })
    | (.ok _, engine) =>
      changeKeys command pid pressed scans { out with engine, trace := out.trace ++ [.changed command pid scan pressed] }

/-- The timer is set when the first sequence begins. -/
def startTimer (state : UiState) : Bool × Outside :=
  if state.activeInputs.isEmpty then
    if a.timerStarts then (true, { out with timer := true }) else (false, out)
  else (true, out)

end Outside

/-! ### The target of a command -/

/-- The error of a command that comes after the end. -/
def stopped : ControlError := ⟨.internalError, "control dispatcher is stopped"⟩

/-- The engine's error as the client is told it. -/
def mapTargetedInputError : Broadcast.BroadcastState.TargetedInputError → ControlError
  | .unavailable message => ⟨.inputUnavailable, message⟩
  | .operationFailed message => ⟨.inputOperationFailed, message⟩

/-- An unresolved action as the client is told it. -/
def mapEqActionError : ResolveError → ControlError
  | .unbound => ⟨.eqActionUnbound, "the selected EQ action has no primary or alternate key binding"⟩
  | .malformed message => ⟨.inputOperationFailed, String.ofList message⟩

/-- The error of a command whose timer did not start. -/
def timerFailed : ControlError := ⟨.inputOperationFailed, "failed to start the targeted input timer"⟩

/-- The client among those last published. -/
def lookupInputSource (state : UiState) (clientId : ClientId) : Except ControlError SourceClient :=
  match state.latestSources.find? fun source => state.mapper.ids[source.privateKey]? = some clientId with
  | some source => .ok source
  | none =>
    .error ⟨if state.mapper.retiredIds.contains clientId then .targetDisappeared else .clientNotFound,
      "the target client is not loaded"⟩

/-- The client is one that targeted input can reach now. -/
def ensureInputSourceReady (a : Answers) (out : Outside) (source : SourceClient) : Except ControlError Unit :=
  if ¬ out.engine.isAvailable then
    .error ⟨.inputUnavailable, "targeted input is unavailable because trusik is disabled"⟩
  else if ¬ out.engine.isTargetReady a.engine (pidOf source) then
    .error ⟨.inputUnavailable,
      "targeted input is unavailable because the selected client's trusik proxy is not ready"⟩
  else .ok ()

/-- The process of a client that targeted input can reach. -/
def resolveInputPid (a : Answers) (state : UiState) (out : Outside) (clientId : ClientId) : Except ControlError UInt32 :=
  match lookupInputSource state clientId with
  | .error error => .error error
  | .ok source =>
    match ensureInputSourceReady a out source with
    | .error error => .error error
    | .ok _ => .ok (pidOf source)

/-- The binding of an action in the files of a client. -/
def resolveActionForSource (a : Answers) (source : SourceClient) (action : EqAction) :
    Except ControlError ResolvedBinding :=
  match action.validate with
  | .error error => .error ⟨.inputOperationFailed, error.message⟩
  | .ok _ =>
    match a.keymaps source with
    | .error message => .error ⟨.inputOperationFailed, String.ofList message⟩
    | .ok (shared, profiles) => (resolveMapping action.mappingName shared profiles).mapError mapEqActionError

/-! ### One sequence -/

/-- A sequence is begun for a process that has none; what stays is an error. -/
def launch (a : Answers) (input : ActiveInput) (state : UiState) (out : Outside) :
    Option ControlError × UiState × Outside :=
  match out.beginTargetedInput a input.pid with
  | (.error error, out) => (some (mapTargetedInputError error), state, out)
  | (.ok _, out) =>
    match out.startTimer a state with
    | (false, out) => (some timerFailed, state, out.finishTargetedInput input.pid)
    | (true, out) =>
      (none, { state with activeInputs := state.activeInputs.insert input.pid input },
        { out with trace := out.trace ++ [.began input.command input.pid input.strokes (outcomeOf input)] })

/-- A command for one client, whose strokes are known, begins, unless no one waits for it or the client is busy. -/
def startResolvedInput (a : Answers) (clientId : ClientId) (kind : ActiveInputKind) (strokes : List ResolvedStroke)
    (hstrokes : strokes ≠ []) (reply : Nat) (state : UiState) (out : Outside) :
    Option ControlError × UiState × Outside :=
  if out.closed.contains reply then (none, state, out)
  else
    match resolveInputPid a state out clientId with
    | .error error => (some error, state, out)
    | .ok pid =>
      if state.activeInputs.contains pid then
        (some ⟨.inputOperationFailed, "the selected target already has an input sequence in progress"⟩, state, out)
      else
        launch a ⟨pid, kind, strokes, 0, .press, a.now + inputActivationDelay, .single reply, reply,
          List.length_pos_iff.mpr hstrokes⟩ state out

/-- An error is the reply. -/
def orReply (reply : Nat) : Option ControlError × UiState × Outside → UiState × Outside
  | (none, state, out) => (state, out)
  | (some error, state, out) => (state, out.send reply (.error error))

/-- The strokes of a text, if it is accepted. -/
def resolveText (layout : Layout) (text : Str) (submit : Bool) : Except ControlError (List ResolvedStroke) :=
  match validateTextInput text with
  | .error error => .error error
  | .ok _ => resolveTextStrokes layout text submit

/-- The strokes of keys, if they are accepted. -/
def resolveKeys (strokes : List KeyStroke) : Except ControlError (List ResolvedStroke) :=
  match validateKeyStrokes strokes with
  | .error error => .error error
  | .ok _ => resolveKeyStrokes strokes

theorem resolveText_spec {layout : Layout} {text : Str} {submit : Bool} {strokes : List ResolvedStroke}
    (h : resolveText layout text submit = .ok strokes) :
    strokes.length = text.length + submit.toNat ∧ strokes ≠ [] ∧ ∀ stroke ∈ strokes, Playable stroke := by
  unfold resolveText validateTextInput at h
  by_cases hvalid : (text.isEmpty || maxTextBytes < text.bytes.length || maxTextChars < text.length ||
      text.any isControl) = true
  · rw [if_pos hvalid] at h
    cases h
  · rw [if_neg hvalid] at h
    obtain ⟨hlength, hplayable⟩ := resolveTextStrokes_playable h
    refine ⟨hlength, ?_, hplayable⟩
    rintro rfl
    have hempty : text.length = 0 := by
      rw [List.length_nil] at hlength
      omega
    rw [List.length_eq_zero_iff.mp hempty] at hvalid
    exact hvalid rfl

theorem resolveKeys_spec {strokes : List KeyStroke} {resolved : List ResolvedStroke}
    (h : resolveKeys strokes = .ok resolved) :
    resolved.length = strokes.length ∧ resolved ≠ [] ∧ ∀ stroke ∈ resolved, Playable stroke := by
  unfold resolveKeys validateKeyStrokes at h
  by_cases hcount : (strokes.isEmpty || maxKeyStrokes < strokes.length) = true
  · rw [if_pos hcount] at h
    cases h
  · rw [if_neg hcount] at h
    split_ifs at h
    obtain ⟨hlength, hplayable⟩ := resolveKeyStrokes_playable h
    refine ⟨hlength, ?_, hplayable⟩
    rintro rfl
    rw [List.length_eq_zero_iff.mp hlength.symm] at hcount
    exact hcount rfl

/-- What is sent once it is resolved. -/
def startResolved (a : Answers) (clientId : ClientId) (kind : ActiveInputKind)
    (resolved : Except ControlError (List ResolvedStroke)) (hresolved : ∀ strokes, resolved = .ok strokes → strokes ≠ [])
    (reply : Nat) (state : UiState) (out : Outside) : UiState × Outside :=
  match resolved, hresolved with
  | .error error, _ => (state, out.send reply (.error error))
  | .ok strokes, hresolved =>
    orReply reply (startResolvedInput a clientId kind strokes (hresolved strokes rfl) reply state out)

def startTextInput (a : Answers) (clientId : ClientId) (text : Str) (submit : Bool) (reply : Nat) (state : UiState)
    (out : Outside) : UiState × Outside :=
  startResolved a clientId (.input .text) (resolveText a.layout text submit) (fun _ h => (resolveText_spec h).2.1) reply
    state out

def startKeyInput (a : Answers) (clientId : ClientId) (strokes : List KeyStroke) (reply : Nat) (state : UiState)
    (out : Outside) : UiState × Outside :=
  startResolved a clientId (.input .keys) (resolveKeys strokes) (fun _ h => (resolveKeys_spec h).2.1) reply state out

/-! ### Actions -/

namespace UiState
variable (state : UiState)

/-- `publish_transient_snapshot`. -/
def publishTransientSnapshot (a : Answers) : UiState :=
  let transient := state.transient.prune a.now
  let data := state.hub.current.data
  let clients := applyTransient transient state.mapper state.latestSources data.clients
  { state with transient, hub := (state.hub.publish { data with clients }).replace }

/-- The target of the process changes. -/
def noteXtargetRotation (a : Answers) (pid : UInt32) : UiState :=
  { state with transient := state.transient.noteXtargetRotation pid }.publishTransientSnapshot a

/-- A consider is waited for from the moment it is asked for. -/
def noteEqActionStarted (a : Answers) (pid : UInt32) (action : EqAction) : UiState :=
  if action.mappingName.text ≠ "CONSIDER".toList then state
  else { state with transient := state.transient.noteConsiderStarted pid a.now }.publishTransientSnapshot a

/-- An extended target is selected once its key has been sent. -/
def noteEqActionDelivered (a : Answers) (pid : UInt32) (action : EqAction) : UiState :=
  match xtargetSlotFromMapping action.mappingName with
  | none => state
  | some slot => { state with transient := state.transient.noteXtargetDelivered pid slot }.publishTransientSnapshot a

/-- `record_consider` for the process of a log source. -/
def recordConsider (a : Answers) (pid : UInt32) (consider : ConsiderResult) (observedAt : Nat) : UiState :=
  if state.transient.pendingConsiders[pid]?.any fun expiresAt => observedAt ≤ expiresAt then
    { state with transient := state.transient.recordConsider pid consider observedAt }.publishTransientSnapshot a
  else state

/-- What the keymap files and the targets of a client say. -/
def clientFiles (a : Answers) (source : SourceClient) : ClientFiles where
  mapped :=
    match a.keymaps source with
    | .error _ => ∅
    | .ok (shared, profiles) => (mappedActions shared profiles).toOption.getD ∅
  slots := a.xtargets source

/-- `publish` of the sources, with whether the engine is available. -/
def publish (a : Answers) (available : Bool) (sources : List SourceClient) (broadcast : Trushar.BroadcastState)
    (mouseClutch : MouseClutchState) : UiState :=
  let (mapper, data) := state.mapper.map sources broadcast
  let (transient, clients) := enrich state.transient mapper (clientFiles a) sources data.clients
  let transient := transient.prune a.now
  let data := { data with
    clients := applyTransient transient mapper sources clients
    mouseClutch
    capabilities.setMouseClutch := available }
  { state with mapper, latestSources := sources, transient, hub := (state.hub.publish data).replace }

end UiState

/-- The stroke that is sent for an action, if the source is ready for it. -/
def resolveReadyAction (a : Answers) (out : Outside) (source : SourceClient) (action : EqAction) :
    Except ControlError (List ResolvedStroke) :=
  match ensureInputSourceReady a out source with
  | .error error => .error error
  | .ok _ => (resolveActionForSource a source action).map fun binding => [bindingStroke binding]

theorem resolveReadyAction_spec {a : Answers} {out : Outside} {source : SourceClient} {action : EqAction}
    {strokes : List ResolvedStroke} (h : resolveReadyAction a out source action = .ok strokes) :
    ∃ binding, resolveActionForSource a source action = .ok binding ∧ strokes = [bindingStroke binding] := by
  unfold resolveReadyAction at h
  cases hready : ensureInputSourceReady a out source with
  | error error =>
    rw [hready] at h
    cases h
  | ok _ =>
    rw [hready] at h
    cases hbinding : resolveActionForSource a source action with
    | error error =>
      rw [hbinding] at h
      cases h
    | ok binding =>
      rw [hbinding] at h
      exact ⟨binding, rfl, (Except.ok.inj h).symm⟩

/-- `start_eq_action`. That a Consider has been started is noted also where no one waits for its reply any more. -/
def startEqAction (a : Answers) (clientId : ClientId) (action : EqAction) (reply : Nat) (state : UiState) (out : Outside) :
    UiState × Outside :=
  match action.validate with
  | .error error => (state, out.send reply (.error error))
  | .ok _ =>
    match lookupInputSource state clientId with
    | .error error => (state, out.send reply (.error error))
    | .ok source =>
      let pid := pidOf source
      let state := if (xtargetSlotFromMapping action.mappingName).isSome then state.noteXtargetRotation a pid else state
      match hstrokes : resolveReadyAction a out source action with
      | .error error => (state, out.send reply (.error error))
      | .ok strokes =>
        have hnonempty : strokes ≠ [] := by
          obtain ⟨binding, -, rfl⟩ := resolveReadyAction_spec hstrokes
          exact List.cons_ne_nil _ _
        match startResolvedInput a clientId (.eqAction action) strokes hnonempty reply state out with
        | (none, state, out) => (state.noteEqActionStarted a pid action, out)
        | (some error, state, out) => (state, out.send reply (.error error))

/-- `resolve_local_eq_action` of a running controller. -/
def resolveLocalEqAction (a : Answers) (state : UiState) (out : Outside) (pid : UInt32) (action : EqAction) :
    Except ControlError ResolvedStroke :=
  match action.validate with
  | .error error => .error error
  | .ok _ =>
    if ¬ out.engine.isAvailable then
      .error ⟨.inputUnavailable, "targeted input is unavailable because trusik is disabled"⟩
    else if ¬ out.engine.isTargetReady a.engine pid then
      .error ⟨.inputUnavailable, "targeted input is unavailable for this EQ client"⟩
    else if state.activeInputs.contains pid then
      .error ⟨.inputOperationFailed, "the selected target already has an input sequence in progress"⟩
    else
      match state.latestSources.find? fun source => pidOf source = pid with
      | none => .error ⟨.clientNotFound, "the target is not loaded"⟩
      | some source => (resolveActionForSource a source action).map bindingStroke

/-- `send_invite_follow`; the error is for the caller. -/
def sendInviteFollow (a : Answers) (pid : UInt32) (command : Nat) (state : UiState) (out : Outside) :
    Option ControlError × UiState × Outside :=
  match resolveLocalEqAction a state out pid .inviteFollow with
  | .error error => (some error, state, out)
  | .ok stroke =>
    launch a ⟨pid, .eqAction .inviteFollow, [stroke], 0, .press, a.now + inputActivationDelay,
      .toast "Could not accept the group invitation", command, Nat.zero_lt_one⟩ state out

/-! ### Batches -/

def activeKey (latestSources : List SourceClient) : Except ControlError Nat :=
  match latestSources.find? (·.active) with
  | some source => .ok source.privateKey
  | none => .error ⟨.clientNotFound, "no active client is available for the dynamic EQ action target"⟩

/-- The sources that the targets name, before it is checked that they are all there. -/
def matchingSources (latestSources : List SourceClient) : EqActionTargets → Except ControlError (List SourceClient)
  | .allLoaded => .ok latestSources
  | .active => (activeKey latestSources).map fun key => latestSources.filter (·.privateKey = key)
  | .backgroundLoaded => (activeKey latestSources).map fun key => latestSources.filter (·.privateKey ≠ key)
  | .windowNumbers numbers => .ok (latestSources.filter fun source => numbers.contains source.windowNumber)

/-- The clients that a batch names. -/
def selectSourcesForTargets (latestSources : List SourceClient) (targets : EqActionTargets) (requireAll : Bool) :
    Except ControlError (List SourceClient) :=
  match matchingSources latestSources targets with
  | .error error => .error error
  | .ok sources =>
    let sources := sortBy (fun a b => compare a.windowNumber b.windowNumber) sources
    if !requireAll then .ok sources
    else
      match targets with
      | .allLoaded =>
        if sources.isEmpty then .error ⟨.clientNotFound, "no loaded clients match the all-boxes target"⟩ else .ok sources
      | .backgroundLoaded =>
        if sources.isEmpty then .error ⟨.clientNotFound, "no loaded clients match the background-boxes target"⟩
        else .ok sources
      | .windowNumbers numbers =>
        if sources.length ≠ numbers.length then
          let missing := (numbers.find? fun number => !sources.any (·.windowNumber = number)).getD 0
          .error ⟨.clientNotFound, s!"Stonemite box {missing} is not loaded"⟩
        else .ok sources
      | .active => .ok sources

/-- A box of a batch with the stroke that it gets. -/
structure PreparedBatchInput where
  pid : UInt32
  windowNumber : Nat
  stroke : ResolvedStroke

/-- The loop body of `prepare_eq_action_batch`. -/
def prepareSource (a : Answers) (state : UiState) (out : Outside) (action : EqAction) (source : SourceClient) :
    Except ControlError PreparedBatchInput :=
  let pid := pidOf source
  if ¬ out.engine.isTargetReady a.engine pid then
    .error ⟨.inputUnavailable,
      s!"targeted input is unavailable because Stonemite box {source.windowNumber} is not ready"⟩
  else if state.activeInputs.contains pid then
    .error ⟨.inputOperationFailed,
      s!"Stonemite box {source.windowNumber} already has an input sequence in progress"⟩
  else
    match resolveActionForSource a source action with
    | .error error =>
      .error (if error.code = .eqActionUnbound then
        ⟨.eqActionUnbound,
          s!"the selected EQ action is not mapped for Stonemite box {source.windowNumber}"⟩
        else error)
    | .ok binding => .ok ⟨pid, source.windowNumber, bindingStroke binding⟩

/-- The boxes of a batch, if each of them is ready and has a key for the action. -/
def prepareEqActionBatch (a : Answers) (state : UiState) (out : Outside) (targets : EqActionTargets) (action : EqAction) :
    Except ControlError (List PreparedBatchInput) :=
  match targets.validate with
  | .error error => .error error
  | .ok _ =>
    match action.validate with
    | .error error => .error error
    | .ok _ =>
      if ¬ out.engine.isAvailable then
        .error ⟨.inputUnavailable, "targeted input is unavailable because trusik is disabled"⟩
      else
        match selectSourcesForTargets state.latestSources targets true with
        | .error error => .error error
        | .ok sources => sources.mapM (prepareSource a state out action)

/-- The sequences of a batch are begun one after another; if one is refused, those before it are ended. -/
def acquire (a : Answers) : List UInt32 → List UInt32 → Outside →
    Except Broadcast.BroadcastState.TargetedInputError Unit × Outside
  | _, [], out => (.ok (), out)
  | acquired, pid :: pids, out =>
    match out.beginTargetedInput a pid with
    | (.error error, out) => (.error error, acquired.foldl Outside.finishTargetedInput out)
    | (.ok _, out) => acquire a (acquired ++ [pid]) pids out

/-- The sequence of a box of a batch. -/
def batchInput (a : Answers) (action : EqAction) (id reply : Nat) (prepared : PreparedBatchInput) : ActiveInput :=
  ⟨prepared.pid, .eqAction action, [prepared.stroke], 0, .press, a.now + inputActivationDelay, .batch id, reply,
    Nat.zero_lt_one⟩

/-- A sequence of a batch joins those under way. -/
def joinInput (outcome : CommandOutcome) (s : UiState × Outside) (input : ActiveInput) : UiState × Outside :=
  ({ s.1 with activeInputs := s.1.activeInputs.insert input.pid input },
    { s.2 with trace := s.2.trace ++ [.began input.command input.pid input.strokes outcome] })

/-- What a batch is told that has reached every box. -/
def PendingBatch.delivered (batch : PendingBatch) : CommandOutcome :=
  .eqActionBatchDelivered batch.action batch.windowNumbers

/-- A batch gets its number, and its sequences begin together. -/
def enterBatch (a : Answers) (action : EqAction) (prepared : List PreparedBatchInput) (reply : Nat) (state : UiState)
    (out : Outside) : UiState × Outside :=
  let id := min (state.nextBatchId + 1) (2 ^ 64 - 1)
  let batch : PendingBatch :=
    { action, windowNumbers := sortBy compare (prepared.map (·.windowNumber))
      remaining := (prepared.map (·.pid)).toFinset, error := none, reply }
  let state := { state with nextBatchId := id, inputBatches := state.inputBatches.insert id batch }
  (prepared.map (batchInput a action id reply)).foldl (joinInput batch.delivered) (state, out)

/-- A batch command: every box of it begins, or none. -/
def startEqActionBatch (a : Answers) (targets : EqActionTargets) (action : EqAction) (reply : Nat) (state : UiState)
    (out : Outside) : UiState × Outside :=
  if out.closed.contains reply then (state, out)
  else
    match prepareEqActionBatch a state out targets action with
    | .error error => (state, out.send reply (.error error))
    | .ok prepared =>
      let pids := prepared.map (·.pid)
      match acquire a [] pids out with
      | (.error error, out) => (state, out.send reply (.error (mapTargetedInputError error)))
      | (.ok _, out) =>
        match out.startTimer a state with
        | (false, out) => (state, (pids.foldl Outside.finishTargetedInput out).send reply (.error timerFailed))
        | (true, out) => enterBatch a action prepared reply state out

/-! ### The timer -/

/-- No one waits for the reply of the sequence any more. -/
def inputCompletionIsClosed (state : UiState) (out : Outside) : InputCompletion → Bool
  | .single reply => out.closed.contains reply
  | .batch id => state.inputBatches[id]?.all fun batch => out.closed.contains batch.reply
  | .toast _ => false

/-- What the sequence of a process adds to its batch. -/
def PendingBatch.finish (batch : PendingBatch) (pid : UInt32) (result : Option (Except ControlError CommandOutcome)) :
    PendingBatch :=
  let error : Option ControlError :=
    match result with
    | some (.error error) => some { error with message := s!"{error.message}; one or more targets may have received the action" }
    | _ => none
  { batch with remaining := batch.remaining.erase pid, error := batch.error <|> error }

/-- The reply of a batch that is done. -/
def PendingBatch.outcome (batch : PendingBatch) : Except ControlError CommandOutcome :=
  match batch.error with
  | some error => .error error
  | none => .ok batch.delivered

/-- A sequence ends; its command gets the reply, or its batch counts it off. -/
def finishInput (state : UiState) (out : Outside) (input : ActiveInput)
    (result : Option (Except ControlError CommandOutcome)) : UiState × Outside :=
  let out := { out.finishTargetedInput input.pid with trace := out.trace ++ [.finished input.command input.pid] }
  match input.completion with
  | .single reply =>
    match result with
    | some result => (state, out.send reply result)
    | none => (state, out)
  | .batch id =>
    match state.inputBatches[id]? with
    | none => (state, out)
    | some batch =>
      let batch := batch.finish input.pid result
      if batch.remaining = ∅ then
        ({ state with inputBatches := state.inputBatches.erase id }, out.send batch.reply batch.outcome)
      else ({ state with inputBatches := state.inputBatches.insert id batch }, out)
  | .toast failureMessage =>
    match result with
    | some (.error error) => (state, { out with toasts := out.toasts ++ [s!"{failureMessage}: {error.message}"] })
    | _ => (state, out)

/-- The next stroke, or the end of the sequence. -/
def completeStroke (input : ActiveInput) (now : Nat) : ActiveInput :=
  if hnext : input.index + 1 < input.strokes.length then
    { input with index := input.index + 1, phase := .press, nextStep := now + input.stroke.pause, inBounds := hnext }
  else { input with phase := .finish, nextStep := now + inputReleaseDelay }

/-- The sequence after the keys of its phase have been changed. -/
def nextPhase (input : ActiveInput) (now : Nat) : ActiveInput :=
  let modifierChord := hasModifierChord input.stroke
  match input.phase with
  | .press =>
    if modifierChord then { input with phase := .pressChord, nextStep := now + inputModifierDelay }
    else { input with phase := .release, nextStep := now + input.stroke.hold }
  | .pressChord => { input with phase := .release, nextStep := now + input.stroke.hold }
  | .release =>
    if modifierChord then { input with phase := .releaseModifiers, nextStep := now + inputModifierDelay }
    else completeStroke input now
  | .releaseModifiers => completeStroke input now
  | .finish => input

def keepInput (state : UiState) (input : ActiveInput) : UiState :=
  { state with activeInputs := state.activeInputs.insert input.pid input }

def noteDelivered (a : Answers) (state : UiState) (input : ActiveInput) : UiState :=
  match input.kind with
  | .eqAction action => state.noteEqActionDelivered a input.pid action
  | .input _ => state

/-- A tick for one sequence: it ends, waits, or plays its phase. -/
def advanceOneInput (a : Answers) (s : UiState × Outside) (input : ActiveInput) : UiState × Outside :=
  let (state, out) := s
  if inputCompletionIsClosed state out input.completion then finishInput state out input none
  else if ¬ state.latestSources.any fun source => pidOf source = input.pid then
    finishInput state out input
      (some (.error ⟨.targetDisappeared, "the target disappeared during input delivery"⟩))
  else if a.now < input.nextStep then (keepInput state input, out)
  else if input.phase = .finish then
    finishInput (noteDelivered a state input) out input (some (.ok (outcomeOf input)))
  else
    match Outside.changeKeys input.command input.pid input.phase.pressed (phaseScans input.stroke input.phase) out with
    | (some message, out) => finishInput state out input (some (.error ⟨.inputOperationFailed, message⟩))
    | (none, out) => (keepInput state (nextPhase input a.now), out)

/-- `advance_input`: the sequences are taken in the order of their processes, where the source leaves the order open. -/
def advanceInput (a : Answers) (state : UiState) (out : Outside) : UiState × Outside :=
  let inputs := state.activeInputs.toList.map (·.2)
  let (state, out) := inputs.foldl (advanceOneInput a) ({ state with activeInputs := ∅ }, out)
  (state, if state.activeInputs.isEmpty then { out with timer := false } else out)

/-- `stop`: the replies that are still open are dropped with the state. -/
def stop (state : UiState) (out : Outside) : Outside :=
  let out' := (state.activeInputs.toList.map (·.2.pid)).foldl Outside.finishTargetedInput out
  if state.activeInputs.isEmpty then out' else { out' with timer := false }

end Stonemite.Control
