import Stonemite.Trusik.MouseClutch

/-!
# The broadcast engine

The engine runs on one thread: the poll of the overlay, the commands and the two low-level hooks call it one after
another. What Windows answers during a call is part of the call.
-/

namespace Stonemite.Broadcast
open Std Trusik

/-! ### Targets -/

/-- The shared memory of a process, with what the controller has last written for each purpose. -/
structure ProcessShm where
  words : ControllerWords
  broadcastKeys : Fin keyCount → Bool
  targetedKeys : Fin keyCount → Bool
  targetedActive : Bool
  mouseSelected : Bool

/-- A key is down for the process if broadcasting or targeted input holds it. -/
def combinedKeyValue (broadcast targeted : Bool) : UInt8 := if broadcast || targeted then 0x80 else 0

/-- The key of a scan code. -/
def keyOf (scan : UInt8) : Fin keyCount := ⟨scan.toNat, scan.toNat_lt⟩

/-- The scan codes of the loops `for scan in 0..255`. -/
def scans : List (Fin keyCount) := (List.finRange keyCount).dropLast

namespace ProcessShm
variable (shm : ProcessShm)

/-- A source of keys is marked as active or not in the word that the hook reads. -/
def setKeyboardSource (source : UInt32) (active : Bool) : ProcessShm :=
  { shm with words.keyboardActive :=
      if active then shm.words.keyboardActive ||| source else shm.words.keyboardActive &&& ~~~source }

/-- The key word after either source has changed. -/
def writeCombinedKey (scan : Fin keyCount) : ProcessShm :=
  { shm with words.keys :=
      shm.words.keys.setControllerKey scan (combinedKeyValue (shm.broadcastKeys scan) (shm.targetedKeys scan)) }

/-- A key of broadcasting changes. -/
def setBroadcastKey (scan : Fin keyCount) (pressed : Bool) : ProcessShm :=
  { shm with broadcastKeys := Function.update shm.broadcastKeys scan pressed }.writeCombinedKey scan

/-- A key of targeted input changes. -/
def setTargetedKey (scan : Fin keyCount) (pressed : Bool) : ProcessShm :=
  { shm with targetedKeys := Function.update shm.targetedKeys scan pressed }.writeCombinedKey scan

/-- Broadcasting lets go of these keys. -/
def releaseBroadcastKeys : ProcessShm := scans.foldl (fun shm scan => shm.setBroadcastKey scan false) shm

/-- The loop body of `finish_targeted_input`. -/
def releaseTargetedKey (scan : Fin keyCount) : ProcessShm :=
  if shm.targetedKeys scan then shm.setTargetedKey scan false else shm

/-- The process joins or leaves the group that the mouse drives. -/
def selectMouse (selected : Bool) : ProcessShm :=
  { shm with mouseSelected := selected, words.mouseActive := if selected then 1 else 0 }

/-- The process ignores its own keyboard or not. -/
def suppress (suppressed : Bool) : ProcessShm := { shm with words.suppress := if suppressed then 1 else 0 }

/-- The heartbeat by which the process knows that the controller lives. -/
def refreshControllerHeartbeat (nowMs : Nat) : ProcessShm :=
  { shm with words.heartbeat := shm.words.heartbeat.refreshControllerHeartbeat (clockWord nowMs) }

end ProcessShm

/-! ### What Windows answers during a call -/

/-- What `create_shm` finds under a process's name. -/
inductive FileMapping
  | failed
  | created
  | existing (compatible : Bool) (words : ControllerWords)

/-- The answers to one `reconcile_hooks`, and the buttons that it samples. -/
structure HookAnswers where
  installKeyboard : Except String Unit
  installMouse : Except String Unit
  removeMouse : Except String Unit
  removeKeyboard : Except String Unit
  buttons : UInt8

/-- What Windows answers during a call: the clock, the window in front, the mouse buttons and keys, the hooks and
mappings. -/
structure Surroundings where
  nowMs : Nat
  foregroundPid : Option UInt32
  buttons : UInt8
  keyIsDown : UInt32 → Bool
  /-- Whether a process has acknowledged the shared memory. -/
  proxyIsReady : UInt32 → Bool
  processAlive : UInt32 → Bool
  createMapping : UInt32 → FileMapping
  /-- The answers to each `reconcile_hooks` of the call. -/
  hooks : Nat → HookAnswers

/-- `create_shm`, where the process could be mapped. -/
def createShm (e : Surroundings) (pid : UInt32) : Option ProcessShm :=
  let mapped (words : ControllerWords) : ProcessShm :=
    ProcessShm.refreshControllerHeartbeat ⟨words, fun _ => false, fun _ => false, false, false⟩ e.nowMs
  match e.createMapping pid with
  | .failed => none
  | .created => some (mapped .unpublished)
  | .existing compatible words => if compatible then some (mapped words.retireController) else none

/-! ### The settings -/

/-- Whether the listed keys are kept back or are the only ones sent. -/
inductive FilterMode
  | blacklist
  | whitelist
deriving DecidableEq, Repr

/-- What the engine takes from the configuration: the scan codes that Windows maps the known key names to, and
the answer of `mouse_clutch_vk`. -/
structure Settings where
  broadcastFilterMode : String
  broadcastFilterScans : List UInt32
  mouseClutchVk : Except String (Option UInt32)

def loadFilter (cfg : Settings) : FilterMode × List UInt8 :=
  (if cfg.broadcastFilterMode = "whitelist" then .whitelist else .blacklist,
    cfg.broadcastFilterScans.filterMap fun scan => if 0 < scan ∧ scan < 256 then some scan.toUInt8 else none)

/-! ### The state -/

/-- The engine: its targets, hooks, filter, the Mouse Clutch and the remote holds on it. -/
structure BroadcastState where
  targets : ExtTreeMap UInt32 ProcessShm
  activePid : Option UInt32
  keyboardHook : Bool
  mouseHook : Bool
  broadcasting : Bool
  clutchBindingVk : Option UInt32
  pendingClutchBinding : Option (Option UInt32)
  clutchKeyIsDown : Bool
  clutch : MouseClutch
  remoteMouseHolds : ExtTreeMap MouseClutchOwner RemoteMouseHold
  remoteMouseSequences : ExtTreeMap MouseClutchOwner Nat
  closedRemoteSessions : ExtTreeMap UInt64 Nat
  closedRemoteSessionOrder : List UInt64
  clutchStatusDirty : Bool
  clutchError : Option String
  eqPids : List UInt32
  mouseEligiblePids : List UInt32
  eqWasForeground : Bool
  filterMode : FilterMode
  filterScancodes : List UInt8

namespace BroadcastState
variable (s : BroadcastState) (e : Surroundings)

/-- A key that is sent to the targets. -/
def passesFilter (scan : UInt8) : Bool :=
  match s.filterMode with
  | .blacklist => !s.filterScancodes.contains scan
  | .whitelist => s.filterScancodes.contains scan

def keyboardHookNeeded : Bool :=
  s.broadcasting || s.clutchBindingVk.isSome || s.pendingClutchBinding.isSome || s.clutch.swallowedVk.isSome

/-- Something waits for mouse buttons. -/
def mouseHookNeeded : Bool :=
  s.clutchBindingVk.isSome || s.pendingClutchBinding.isSome || !s.remoteMouseHolds.isEmpty ||
    s.clutch.phase != .inactive

/-- The keyboard hook is installed where it is needed and missing. -/
def installKeyboardHook (answers : HookAnswers) : Except String Unit × BroadcastState :=
  if s.keyboardHookNeeded ∧ ¬ s.keyboardHook then
    match answers.installKeyboard with
    | .ok _ => (.ok (), { s with keyboardHook := true })
    | .error error => (.error ("failed to install keyboard hook: " ++ error), s)
  else (.ok (), s)

/-- The mouse hook is installed where it is needed and missing. -/
def installMouseHook (answers : HookAnswers) : Except String Unit × BroadcastState :=
  if s.mouseHookNeeded ∧ ¬ s.mouseHook then
    match answers.installMouse with
    | .ok _ => (.ok (), { s with mouseHook := true, clutch.buttons := answers.buttons })
    | .error error => (.error ("failed to install mouse hook: " ++ error), s)
  else (.ok (), s)

/-- The mouse hook is removed where it is not needed any more. -/
def removeMouseHook (answers : HookAnswers) : Except String Unit × BroadcastState :=
  if ¬ s.mouseHookNeeded ∧ s.mouseHook then
    match answers.removeMouse with
    | .ok _ => (.ok (), { s with mouseHook := false })
    | .error error => (.error ("failed to remove mouse hook: " ++ error), s)
  else (.ok (), s)

/-- The keyboard hook is removed where it is not needed any more. -/
def removeKeyboardHook (answers : HookAnswers) : Except String Unit × BroadcastState :=
  if ¬ s.keyboardHookNeeded ∧ s.keyboardHook then
    match answers.removeKeyboard with
    | .ok _ => (.ok (), { s with keyboardHook := false })
    | .error error => (.error ("failed to remove keyboard hook: " ++ error), s)
  else (.ok (), s)

/-- `reconcile_hooks`: a hook that could not be removed does not keep the other. -/
def reconcileHooks (answers : HookAnswers) : Except String Unit × BroadcastState :=
  match s.installKeyboardHook answers with
  | (.error error, s) => (.error error, s)
  | (.ok _, s) =>
    match s.installMouseHook answers with
    | (.error error, s) => (.error error, s)
    | (.ok _, s) =>
      let (mouseRemoval, s) := s.removeMouseHook answers
      match s.removeKeyboardHook answers with
      | (.error error, s) => (.error error, s)
      | (.ok _, s) => (mouseRemoval, s)

/-- No target is driven by the mouse. -/
def deactivateMouseTargets : BroadcastState :=
  { s with targets := s.targets.map fun _ target => if target.mouseSelected then target.selectMouse false else target }

/-- Whether a target is ready for the mouse of a source. -/
def mouseReady (sourcePid pid : UInt32) : Bool :=
  pid != sourcePid && s.mouseEligiblePids.contains pid && e.proxyIsReady pid

/-- The clutch of the source would drive some target. -/
def hasReadyMouseTargets (sourcePid : UInt32) : Bool :=
  s.mouseEligiblePids.contains sourcePid && s.targets.toList.any fun target => s.mouseReady e sourcePid target.1

/-- The clutch loses its own key and all remote holds, and drains within its bound. -/
def cancelAllClutchOwners (nowMs : Nat) : BroadcastState :=
  { s with remoteMouseHolds := ∅, clutch := s.clutch.cancelBounded nowMs, clutchStatusDirty := true }

/-- The targets that are ready for the clutch of the source are selected. -/
def selectReadyTargets (sourcePid : UInt32) : BroadcastState :=
  { s with
    targets := s.targets.map fun pid target => if s.mouseReady e sourcePid pid then target.selectMouse true else target }

/-- The selected targets that are not ready any more are let go. -/
def retireOtherTargets (sourcePid : UInt32) : BroadcastState :=
  { s with
    targets := s.targets.map fun pid target =>
      if target.mouseSelected && !s.mouseReady e sourcePid pid then target.selectMouse false else target }

/-- `activate_mouse_targets`: the ready ones are selected before the others are retired. -/
def activateMouseTargets (sourcePid : UInt32) : Bool × BroadcastState :=
  if s.hasReadyMouseTargets e sourcePid then
    (true, (s.selectReadyTargets e sourcePid).retireOtherTargets e sourcePid)
  else (false, s)

/-- Whether the clutch could be held now, and why not. -/
def mouseClutchAvailabilityFor : MouseClutchAvailability :=
  match e.foregroundPid.filter fun pid => s.activePid == some pid && s.eqPids.contains pid with
  | none => .noActiveClient
  | some sourcePid => if s.hasReadyMouseTargets e sourcePid then .ready else .noCompatibleTargets

/-! ### Broadcasting -/

/-- `set_active`: the error of the hooks is returned before any target is touched. -/
def setActive (active : Bool) : Except String Unit × BroadcastState :=
  if s.broadcasting = active then (.ok (), s)
  else
    match { s with broadcasting := active }.reconcileHooks (e.hooks 0), active with
    | (.error error, s), true => (.error error, ({ s with broadcasting := false }.reconcileHooks (e.hooks 1)).2)
    | (hookResult, s), _ =>
      let targets := if active then s.targets else s.targets.map fun _ shm => shm.releaseBroadcastKeys
      (hookResult, { s with targets := targets.map fun _ shm => shm.setKeyboardSource keyboardBroadcast active })

/-- The suppress flags for an active process. -/
def suppressBackground (activePid : Option UInt32) : BroadcastState :=
  { s with targets := s.targets.map fun pid shm => shm.suppress (some pid != activePid) }

/-- The body of the loop over the new processes. -/
def addTarget (s : BroadcastState) (pid : UInt32) : BroadcastState :=
  if s.targets.contains pid then s
  else
    match createShm e pid with
    | none => s
    | some shm =>
      let shm := if s.broadcasting then shm.setKeyboardSource keyboardBroadcast true else shm
      { s with targets := s.targets.insert pid shm }

/-- The clutch is canceled when its source or a selected target has gone. -/
def cancelGone (pids : List UInt32) : BroadcastState :=
  let sourceDisappeared := s.clutch.sourcePid.any fun pid => !pids.contains pid
  let selectedTargetDisappeared := s.targets.toList.any fun target => target.2.mouseSelected && !pids.contains target.1
  if sourceDisappeared || selectedTargetDisappeared then s.cancelAllClutchOwners e.nowMs else s

/-- The targets whose processes have gone are dropped. -/
def retainTargets (pids : List UInt32) : BroadcastState :=
  { s with eqPids := pids, targets := s.targets.filter fun pid _ => pids.contains pid }

/-- The targets follow the processes that the overlay has found. -/
def updateTargets (pids : List UInt32) (activePid : Option UInt32) : BroadcastState :=
  let s := pids.foldl (addTarget e) ((s.cancelGone e pids).retainTargets pids)
  { s with activePid }.suppressBackground activePid

/-- The windows that the mouse may drive together; a selected one that leaves them ends the clutch. -/
def updateMouseEligiblePids (pids : List UInt32) : BroadcastState :=
  let ineligible := s.targets.toList.any fun target => target.2.mouseSelected && !pids.contains target.1
  let s := { s with mouseEligiblePids := pids }
  if ineligible then s.cancelAllClutchOwners e.nowMs else s

/-- The process in front changes, which ends a clutch of another one. -/
def setActivePid (pid : UInt32) : BroadcastState :=
  let s := if s.clutch.sourcePid.any (· != pid) then s.cancelAllClutchOwners e.nowMs else s
  { s with activePid := some pid }.suppressBackground (some pid)

/-! ### Targeted input -/

/-- Why a sequence of targeted input was not begun. -/
inductive TargetedInputError
  | unavailable (message : String)
  | operationFailed (message : String)
deriving DecidableEq, Repr

/-- Targeted input for one process begins, without any broadcasting. -/
def beginTargetedInput (pid : UInt32) : Except TargetedInputError Unit × BroadcastState :=
  match s.targets[pid]? with
  | none => (.error (.unavailable "target process has no trusik shared-memory target"), s)
  | some shm =>
    if ¬ e.proxyIsReady pid then
      (.error (.unavailable "target process has not acknowledged a compatible trusik proxy"), s)
    else if shm.targetedActive then
      (.error (.operationFailed "target process already has an input sequence in progress"), s)
    else
      let shm := { shm with targetedActive := true }.setKeyboardSource keyboardTargeted true
      (.ok (), { s with targets := s.targets.insert pid shm })

/-- A key of targeted input goes down or up at its process. -/
def setTargetedKey (pid : UInt32) (scan : UInt8) (pressed : Bool) : Except String Unit × BroadcastState :=
  if scan = 0 ∨ scan = 255 then (.error "invalid DirectInput scan code", s)
  else
    match s.targets[pid]? with
    | none => (.error "target process disappeared during input delivery", s)
    | some shm =>
      if ¬ shm.targetedActive then (.error "targeted input sequence is not active", s)
      else (.ok (), { s with targets := s.targets.insert pid (shm.setTargetedKey (keyOf scan) pressed) })

/-- Targeted input for one process ends with every key up. -/
def finishTargetedInput (pid : UInt32) : BroadcastState :=
  match s.targets[pid]? with
  | none => s
  | some shm =>
    let shm := scans.foldl ProcessShm.releaseTargetedKey shm
    { s with targets :=
        s.targets.insert pid ({ shm with targetedActive := false }.setKeyboardSource keyboardTargeted false) }

/-! ### The clutch -/

/-- `apply_pending_clutch_binding`, from the given number of its first `reconcile_hooks`. -/
def applyPendingClutchBinding (reconciled : Nat) : BroadcastState :=
  if s.clutch.phase ≠ .inactive ∨ s.clutch.swallowedVk.isSome then s
  else
    match s.pendingClutchBinding with
    | none => s
    | some binding =>
      let s := { s with
        pendingClutchBinding := none
        clutchBindingVk := binding
        clutchKeyIsDown := binding.any e.keyIsDown }
      match s.reconcileHooks (e.hooks reconciled) with
      | (.ok _, s) => s
      | (.error error, s) =>
        let s := { s with clutchBindingVk := none, clutchError := some error }.deactivateMouseTargets
        ({ s with clutch := s.clutch.forceInactive }.reconcileHooks (e.hooks (reconciled + 1))).2

/-- `refresh_controller_heartbeat`. -/
def refreshControllerHeartbeat (nowMs : Nat) : BroadcastState :=
  { s with targets := s.targets.map fun _ (target : ProcessShm) => target.refreshControllerHeartbeat nowMs }

/-- The holds whose lease is over are dropped. -/
def expireHolds : BroadcastState :=
  let holds := s.remoteMouseHolds.filter fun _ (hold : RemoteMouseHold) => decide (e.nowMs < hold.deadlineMs)
  if holds.size ≠ s.remoteMouseHolds.size then
    { s with
      remoteMouseHolds := holds
      clutch := s.clutch.releaseIfUnowned e.nowMs !holds.isEmpty
      clutchStatusDirty := true }
  else s

/-- An engaged clutch is canceled when its source is not in the foreground or a selected target has gone. -/
def validateClutch : BroadcastState :=
  if s.clutch.phase ≠ .inactive then
    let sourceIsForeground := s.clutch.sourcePid.isSome && s.clutch.sourcePid == e.foregroundPid &&
      s.clutch.sourcePid.any s.eqPids.contains
    let selected := s.targets.toList.filter (·.2.mouseSelected)
    let selectedTargetsReady := selected.all fun target => e.proxyIsReady target.1 && e.processAlive target.1
    if !sourceIsForeground || !selectedTargetsReady || selected.isEmpty then s.cancelAllClutchOwners e.nowMs else s
  else s

/-- A clutch whose drain is over lets go of its targets. -/
def finishDrain : BroadcastState :=
  let (drained, clutch) := s.clutch.finishDrainIfDue e.nowMs
  let s := { s with clutch }
  if drained then s.deactivateMouseTargets else s

/-- The hooks are reconciled and their error is kept. -/
def reportHooks (answers : HookAnswers) : BroadcastState :=
  match s.reconcileHooks answers with
  | (.ok _, s) => s
  | (.error error, s) => { s with clutchError := some error }

/-- The heartbeat, the end of stale holds and of the drain; whether the status of the clutch has changed. -/
def tick : Bool × BroadcastState :=
  let before := s.clutch.status
  let s := (((s.refreshControllerHeartbeat e.nowMs).expireHolds e).validateClutch e).finishDrain e
  let s := (s.applyPendingClutchBinding e 0).reportHooks (e.hooks 2)
  (s.clutchStatusDirty || before != s.clutch.status, { s with clutchStatusDirty := false })

/-- The filter and the key of the clutch as the settings have them; a clutch that is held drains first. -/
def onSettingsChanged (cfg : Settings) : BroadcastState :=
  let (filterMode, filterScancodes) := loadFilter cfg
  let (clutchError, newBinding) :=
    match cfg.mouseClutchVk with
    | .ok binding => (none, binding)
    | .error error => (some error, none)
  let s := { s with filterMode, filterScancodes, clutchError, pendingClutchBinding := some newBinding }
  (s.cancelAllClutchOwners e.nowMs).applyPendingClutchBinding e 0

/-- The hold of an owner is dropped and the hooks are reconciled. -/
def dropHold (owner : MouseClutchOwner) (answers : HookAnswers) : BroadcastState :=
  ({ s with remoteMouseHolds := s.remoteMouseHolds.erase owner }.reconcileHooks answers).2

/-- The clutch is engaged for a hold whose source is not active yet. -/
def engageHold (owner : MouseClutchOwner) (sourcePid : UInt32) : Except MouseClutchControlError Bool × BroadcastState :=
  let (activated, clutch) := { s.clutch with buttons := e.buttons }.activate sourcePid true
  let s := { s with clutch }
  if activated then
    match s.activateMouseTargets e sourcePid with
    | (true, s) => (.ok true, { s with clutchStatusDirty := true })
    | (false, s) =>
      (.error (.notReady "Mouse Clutch has no compatible input-ready background target"),
        { s with clutch := s.clutch.releaseIfUnowned e.nowMs false }.dropHold owner (e.hooks 1))
  else (.error (.notReady "release every mouse button before engaging Mouse Clutch"), s.dropHold owner (e.hooks 1))

/-- The `Begin` of an owner without a hold, from a source that is ready. -/
def beginHold (owner : MouseClutchOwner) (sourcePid : UInt32) : Except MouseClutchControlError Bool × BroadcastState :=
  let resumingActiveSource := s.clutch.phase = .active ∧ s.clutch.sourcePid = some sourcePid
  let hold : RemoteMouseHold := ⟨sourcePid, saturatingAdd 64 e.nowMs remoteMouseClutchLeaseMs⟩
  match { s with remoteMouseHolds := s.remoteMouseHolds.insert owner hold }.reconcileHooks (e.hooks 0) with
  | (.error error, s) => (.error (.operationFailed error), s.dropHold owner (e.hooks 1))
  | (.ok _, s) =>
    if resumingActiveSource then (.ok true, { s with clutchStatusDirty := true }) else s.engageHold e owner sourcePid

/-- The clutch is released when a hold has gone. -/
def heldReleased : BroadcastState :=
  ({ s with
    clutch := s.clutch.releaseIfUnowned e.nowMs !s.remoteMouseHolds.isEmpty
    clutchStatusDirty := true }.reconcileHooks (e.hooks 0)).2

/-- `update_remote_mouse_clutch_hold` once the sequence number has been accepted. -/
def operateHold (owner : MouseClutchOwner) (operation : MouseClutchOperation) :
    Except MouseClutchControlError Bool × BroadcastState :=
  let deadlineMs := saturatingAdd 64 e.nowMs remoteMouseClutchLeaseMs
  match operation with
  | .begin =>
    match s.remoteMouseHolds[owner]? with
    | some hold => (.ok true, { s with remoteMouseHolds := s.remoteMouseHolds.insert owner { hold with deadlineMs } })
    | none =>
      match s.mouseClutchAvailabilityFor e, e.foregroundPid with
      | .ready, some sourcePid => s.beginHold e owner sourcePid
      | .noCompatibleTargets, _ =>
        (.error (.notReady "Mouse Clutch needs a compatible input-ready background client"), s)
      | .inputUnavailable, _ =>
        (.error (.unavailable "Mouse Clutch is unavailable because trusik is disabled"), s)
      | _, _ => (.error (.notReady "Mouse Clutch needs a foreground EverQuest client"), s)
  | .renew =>
    match s.remoteMouseHolds[owner]? with
    | none => (.error (.holdExpired "the Mouse Clutch hold is no longer active"), s)
    | some hold =>
      if s.clutch.phase ≠ .active ∨ s.clutch.sourcePid ≠ some hold.sourcePid then
        (.error (.holdExpired "the Mouse Clutch hold was canceled"),
          { s with remoteMouseHolds := s.remoteMouseHolds.erase owner })
      else (.ok true, { s with remoteMouseHolds := s.remoteMouseHolds.insert owner { hold with deadlineMs } })
  | .ended =>
    if s.remoteMouseHolds.contains owner then
      (.ok false, { s with remoteMouseHolds := s.remoteMouseHolds.erase owner }.heldReleased e)
    else (.ok false, s)

/-- A remote owner begins, renews or ends its hold, unless its message is late. -/
def updateRemoteMouseClutchHold (owner : MouseClutchOwner) (operation : MouseClutchOperation) (sequence : Nat) :
    Except MouseClutchControlError Bool × BroadcastState :=
  if s.closedRemoteSessions.contains owner.sessionId then
    (.error (.holdExpired "the Mouse Clutch connection is no longer active"), s)
  else if sequence ≤ (s.remoteMouseSequences[owner]?).getD 0 then (.ok (s.remoteMouseHolds.contains owner), s)
  else
    { s with remoteMouseSequences := s.remoteMouseSequences.insert owner sequence }.operateHold e owner operation

/-- A session is closed; the `while` loop lets the oldest of more than 256 closed ones go. -/
def closeSession (sessionId : UInt64) (sequence : Nat) : BroadcastState :=
  let order := s.closedRemoteSessionOrder
  let order := if s.closedRemoteSessions.contains sessionId then order else order ++ [sessionId]
  let expired := order.take (order.length - 256)
  { s with
    closedRemoteSessionOrder := order.drop expired.length
    closedRemoteSessions := expired.foldl (·.erase ·) (s.closedRemoteSessions.insert sessionId sequence)
    remoteMouseHolds := s.remoteMouseHolds.filter fun owner _ => owner.sessionId != sessionId
    remoteMouseSequences := s.remoteMouseSequences.filter fun owner _ => owner.sessionId != sessionId }

/-- The holds of a session end with it, and its late messages are refused. -/
def endRemoteMouseClutchSession (sessionId : UInt64) (sequence : Nat) : BroadcastState :=
  let closed := s.closeSession sessionId sequence
  if closed.remoteMouseHolds.size ≠ s.remoteMouseHolds.size then closed.heldReleased e else closed

/-! ### The hooks -/

/-- The messages of the mouse hook that are about buttons. -/
inductive MouseMessage
  | left (pressed : Bool)
  | right (pressed : Bool)
  | middle (pressed : Bool)
  | extra (pressed : Bool) (mouseData : UInt32)
  | other
deriving DecidableEq, Repr

/-- The button of a message, and whether it goes down. -/
def mouseButtonMessage : MouseMessage → Option (UInt8 × Bool)
  | .left pressed => some (mouseLeft, pressed)
  | .right pressed => some (mouseRight, pressed)
  | .middle pressed => some (mouseMiddle, pressed)
  | .extra pressed mouseData =>
    if (mouseData >>> 16) &&& 0xffff = 1 then some (mouseX1, pressed)
    else if (mouseData >>> 16) &&& 0xffff = 2 then some (mouseX2, pressed)
    else none
  | .other => none

/-- What the mouse hook does with a message. -/
def mouseProc (message : MouseMessage) : BroadcastState :=
  match mouseButtonMessage message with
  | none => s
  | some (button, pressed) =>
    let clutch := s.clutch.setButton button pressed e.nowMs
    { s with clutch, clutchStatusDirty := s.clutchStatusDirty || s.clutch.status != clutch.status }

/-- The messages of the keyboard hook, as far as it tells them apart. -/
inductive KeyMessage
  | down
  | up
  | other
deriving DecidableEq, Repr

/-- A key event as the keyboard hook gets it. -/
structure KeyEvent where
  message : KeyMessage
  vkCode : UInt32
  scanCode : UInt32
  extended : Bool
deriving DecidableEq, Repr

/-- The key of DirectInput: an extended scan code has the high bit. -/
def directInputScanCode (scanCode : UInt32) (extended : Bool) : Option UInt8 :=
  if scanCode < 256 then
    let scan := if extended then scanCode.toUInt8 ||| 0x80 else scanCode.toUInt8
    if 1 ≤ scan ∧ scan ≤ 254 then some scan else none
  else none

/-- What follows in `ll_keyboard_proc` once the clutch has let the key pass. -/
def broadcastKey (kb : KeyEvent) : BroadcastState :=
  if ¬ e.foregroundPid.any s.eqPids.contains then
    if s.eqWasForeground then
      { s with
        eqWasForeground := false
        targets := s.targets.map fun pid shm => if some pid = s.activePid then shm else shm.releaseBroadcastKeys }
    else s
  else
    let s := { s with eqWasForeground := true }
    if s.broadcasting then
      match (directInputScanCode kb.scanCode kb.extended).filter s.passesFilter with
      | none => s
      | some scan =>
        { s with targets := s.targets.map fun pid shm =>
            if some pid = e.foregroundPid then shm else shm.setBroadcastKey (keyOf scan) (kb.message == .down) }
    else s

/-- The bound key goes down while a client is in the foreground. -/
def clutchKeyDown (vk sourcePid : UInt32) : BroadcastState :=
  let before := s.clutch.status
  let (effect, clutch) := s.clutch.onKeyDown vk sourcePid (s.hasReadyMouseTargets e sourcePid)
  let s := { s with clutch }
  let s := if effect = .activate then (s.activateMouseTargets e sourcePid).2 else s
  { s with clutchStatusDirty := s.clutchStatusDirty || before != s.clutch.status }

/-- A bound key that goes up is no longer down. -/
def releaseBinding (kb : KeyEvent) : BroadcastState :=
  if kb.message = .up ∧ s.clutchBindingVk = some kb.vkCode then { s with clutchKeyIsDown := false } else s

/-- A key that is not swallowed already: the binding comes before the broadcast. -/
def freshKey (kb : KeyEvent) : Bool × BroadcastState :=
  if kb.message = .down ∧ s.pendingClutchBinding = none ∧ s.clutchBindingVk = some kb.vkCode then
    if s.clutchKeyIsDown then (false, s)
    else
      match e.foregroundPid.filter s.eqPids.contains with
      | some sourcePid => (true, { s with clutchKeyIsDown := true }.clutchKeyDown e kb.vkCode sourcePid)
      | none => (false, { s with clutchKeyIsDown := true }.broadcastKey e kb)
  else (false, s.broadcastKey e kb)

/-- `ll_keyboard_proc`, with whether the event is swallowed. -/
def keyboardProc (kb : KeyEvent) : Bool × BroadcastState :=
  if kb.message = .down ∧ s.clutch.swallowedVk = some kb.vkCode then (true, s)
  else if kb.message = .up ∧ s.clutch.swallowedVk = some kb.vkCode then
    let clutch := (s.clutch.onKeyUp kb.vkCode e.nowMs !s.remoteMouseHolds.isEmpty).2
    (true, { s with
      clutch
      clutchKeyIsDown := false
      clutchStatusDirty := s.clutchStatusDirty || s.clutch.status != clutch.status })
  else (s.releaseBinding kb).freshKey e kb

/-! ### Start and end -/

/-- The state that `init` puts into the cell. -/
def starting (cfg : Settings) : BroadcastState :=
  let (filterMode, filterScancodes) := loadFilter cfg
  let (clutchBindingVk, clutchError) :=
    match cfg.mouseClutchVk with
    | .ok binding => (binding, none)
    | .error error => (none, some error)
  { targets := ∅, activePid := none, keyboardHook := false, mouseHook := false, broadcasting := false,
    clutchBindingVk, pendingClutchBinding := none, clutchKeyIsDown := clutchBindingVk.any e.keyIsDown,
    clutch := .new e.buttons, remoteMouseHolds := ∅, remoteMouseSequences := ∅, closedRemoteSessions := ∅,
    closedRemoteSessionOrder := [], clutchStatusDirty := false, clutchError, eqPids := [], mouseEligiblePids := [],
    eqWasForeground := false, filterMode, filterScancodes }

/-- The engine, if the hooks that it needs can be installed. -/
def init (cfg : Settings) : BroadcastState :=
  match (starting e cfg).reconcileHooks (e.hooks 0) with
  | (.ok _, s) => s
  | (.error error, s) =>
    ({ s with clutchBindingVk := none, clutchError := some error }.reconcileHooks (e.hooks 1)).2

end BroadcastState

/-! ### The engine -/

/-- The cell of the module: nothing before `init` and after `cleanup`. -/
abbrev Engine := Option BroadcastState

namespace Engine

/-- Broadcasting is switched on or off. -/
def setActive (engine : Engine) (active : Bool) (e : Surroundings) : Except String Unit × Engine :=
  match engine with
  | none => (.error "broadcast engine is unavailable", none)
  | some s => ((s.setActive e active).1, some (s.setActive e active).2)

def isAvailable (engine : Engine) : Bool := engine.isSome

def isActive (engine : Engine) : Bool := engine.any (·.broadcasting)

/-- Broadcasting is switched over. -/
def toggle (engine : Engine) (e : Surroundings) : Except String Bool × Engine :=
  let (answer, engine') := engine.setActive (!engine.isActive) e
  (answer.map fun _ => !engine.isActive, engine')

end Engine

/-- The errors that a client is told. -/
inductive ErrorCode
  | broadcastUnavailable
  | broadcastOperationFailed
deriving DecidableEq, Repr

/-- `set_broadcast_on_ui`: the outcome carries what broadcasting has been set to. -/
def setBroadcastOnUi (engine : Engine) (enabled : Bool) (e : Surroundings) :
    Except (ErrorCode × String) Bool × Engine :=
  if ¬ engine.isAvailable then
    (.error (.broadcastUnavailable, "broadcasting is unavailable because trusik is disabled"), engine)
  else
    match engine.setActive enabled e with
    | (.ok _, engine) => (.ok enabled, engine)
    | (.error message, engine) => (.error (.broadcastOperationFailed, message), engine)

/-- The calls of the engine's owner. `cleanup` leaves nothing of the state it first puts in order. -/
inductive Call
  | init (cfg : Settings)
  | cleanup
  | setActive (active : Bool)
  | toggle
  | updateTargets (pids : List UInt32) (activePid : Option UInt32)
  | updateMouseEligiblePids (pids : List UInt32)
  | setActivePid (pid : UInt32)
  | tick
  | onSettingsChanged (cfg : Settings)
  | beginTargetedInput (pid : UInt32)
  | setTargetedKey (pid : UInt32) (scan : UInt8) (pressed : Bool)
  | finishTargetedInput (pid : UInt32)
  | updateRemoteMouseClutchHold (owner : MouseClutchOwner) (operation : MouseClutchOperation) (sequence : Nat)
  | endRemoteMouseClutchSession (sessionId : UInt64) (sequence : Nat)
  | mouseProc (message : BroadcastState.MouseMessage)
  | keyboardProc (kb : BroadcastState.KeyEvent)

/-- A call of an engine that is there. -/
def BroadcastState.call (s : BroadcastState) (e : Surroundings) : Call → Engine
  | .init cfg => some (init e cfg)
  | .cleanup => none
  | .setActive active => some (s.setActive e active).2
  | .toggle => some (s.setActive e !s.broadcasting).2
  | .updateTargets pids activePid => some (s.updateTargets e pids activePid)
  | .updateMouseEligiblePids pids => some (s.updateMouseEligiblePids e pids)
  | .setActivePid pid => some (s.setActivePid e pid)
  | .tick => some (s.tick e).2
  | .onSettingsChanged cfg => some (s.onSettingsChanged e cfg)
  | .beginTargetedInput pid => some (s.beginTargetedInput e pid).2
  | .setTargetedKey pid scan pressed => some (s.setTargetedKey pid scan pressed).2
  | .finishTargetedInput pid => some (s.finishTargetedInput pid)
  | .updateRemoteMouseClutchHold owner operation sequence =>
    some (s.updateRemoteMouseClutchHold e owner operation sequence).2
  | .endRemoteMouseClutchSession sessionId sequence => some (s.endRemoteMouseClutchSession e sessionId sequence)
  | .mouseProc message => some (s.mouseProc e message)
  | .keyboardProc kb => some (s.keyboardProc e kb).2

namespace Engine

/-- One call to the engine, which is there from its start to its end. -/
def step (engine : Engine) (call : Call × Surroundings) : Engine :=
  match engine, call with
  | some s, (call, e) => s.call e call
  | none, (.init cfg, e) => some (.init e cfg)
  | none, _ => none

/-- The engine after a run of calls, from the start of the program. -/
def run (calls : List (Call × Surroundings)) : Engine := calls.foldl step none

end Engine

end Stonemite.Broadcast
