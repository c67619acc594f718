import Stonemite.Trushar.Commands
import Stonemite.Trusik.MouseClutch

/-!
# Requests

What a client of the control server may ask, how a request is checked, and what the controller is asked in its turn. A value
that has the same parts before and after its check has one type.
-/

namespace Stonemite.Trushar
open Keymaps KeyCodes
open Broadcast (MouseClutchOwner MouseClutchOperation)

def protocolVersion : Nat := 1

def maxTextMessageSize : Nat := 16 * 1024

def maxRequestIdSize : Nat := 128

/-! ### Names -/

/-- A text of 1 to 128 bytes. -/
def isShortName (value : Str) : Bool := !value.isEmpty && decide (value.bytes.length ≤ maxRequestIdSize)

def ClientId.new (value : Str) : Except ControlError ClientId :=
  if isShortName value then .ok value else .error (invalidArgument "client id must contain 1 to 128 bytes")

/-- `KeyCode::new`, which takes the names of the key table. -/
def KeyCode.new (value : Str) : Except ControlError KeyCode :=
  if h : isSupportedKeyName value = true then .ok ⟨value, h⟩
  else .error (invalidArgument "key is not a supported semantic key name")

/-- `EqMappingName::new`. -/
def mappingNameOf (value : Str) : Except ControlError EqMappingName :=
  match EqMappingName.new value with
  | some name => .ok name
  | none =>
    .error (invalidArgument "EQ mapping names must contain 1 to 128 ASCII letters, numbers, or underscores")

/-- `MouseClutchOwner::new`. -/
def mouseClutchOwner (sessionId : UInt64) (holdId : Str) : Except ControlError MouseClutchOwner :=
  if isShortName holdId then .ok ⟨sessionId, String.ofList holdId⟩
  else .error (invalidArgument "hold_id must contain 1 to 128 bytes")

/-! ### Targets -/

/-- `Target`, and `ClientTarget` once it is checked. -/
inductive Target
  | clientId (id : ClientId)
  | windowNumber (number : Nat)
  | identity (character : Str) (server : Option Str)
deriving DecidableEq, Repr

/-- A text that says something in at most 128 bytes. -/
def isIdentityPart (value : Str) : Bool := !value.trim.isEmpty && decide (value.bytes.length ≤ 128)

/-- A client id is a short name, and a window number is not zero. -/
def Target.validate : Target → Except ControlError Unit
  | .clientId id => (ClientId.new id).map fun _ => ()
  | .windowNumber number =>
    if number = 0 then .error (invalidArgument "window_number is one-based and must be greater than zero") else .ok ()
  | .identity character server =>
    if !isIdentityPart character then .error (invalidArgument "character must contain 1 to 128 bytes")
    else if server.any fun value => !isIdentityPart value then
      .error (invalidArgument "server must contain 1 to 128 bytes when supplied")
    else .ok ()

/-- `ClientTarget::try_from`. -/
def Target.checked (target : Target) : Except ControlError Target := target.validate.map fun _ => target

/-! ### Keys and actions -/

/-- A stroke as the message has it. -/
structure WireKeyStroke where
  keys : List Str
  holdMs : Nat := defaultKeyHoldMs
  pauseMs : Nat := defaultKeyPauseMs

/-- The checks that make a stroke of the message's. -/
def KeyStroke.ofWire (value : WireKeyStroke) : Except ControlError KeyStroke :=
  match value.keys.mapM KeyCode.new with
  | .error error => .error error
  | .ok keys => KeyStroke.new keys value.holdMs value.pauseMs

/-- An action as the message has it. -/
inductive WireEqAction
  | useCenterScreen
  | inviteFollow
  | hotbar (bar button : UInt8)
  | spellGem (gem : UInt8)
  | keymap (mapping : Str)

/-- The checks that make an action of the message's. -/
def EqAction.ofWire : WireEqAction → Except ControlError EqAction
  | .useCenterScreen => .ok .useCenterScreen
  | .inviteFollow => .ok .inviteFollow
  | .hotbar bar button => (EqAction.hotbar bar button).validate.map fun _ => .hotbar bar button
  | .spellGem gem => (EqAction.spellGem gem).validate.map fun _ => .spellGem gem
  | .keymap mapping => (mappingNameOf mapping).map .keymap

/-- `EqActionTargets::try_from`. -/
def EqActionTargets.checked (targets : EqActionTargets) : Except ControlError EqActionTargets :=
  targets.validate.map fun _ => targets

/-! ### Requests -/

/-- The requests, as `ClientRequest` has them. -/
inductive Request
  | getState
  | activate (target : Target)
  | swapWindowNumbers (target : Target)
  | setBroadcast (enabled : Bool)
  | beginMouseClutch (holdId : Str)
  | renewMouseClutch (holdId : Str)
  | endMouseClutch (holdId : Str)
  | sendText (clientId text : Str) (submit : Bool)
  | sendKeys (clientId : Str) (strokes : List WireKeyStroke)
  | sendEqAction (clientId : Str) (action : WireEqAction)
  | listEqKeymapActions (targets : EqActionTargets) (after : Option Str)
  | sendEqActionBatch (targets : EqActionTargets) (action : WireEqAction)

/-- A request with its version and its id, which every message has. -/
structure ClientMessage where
  version : Nat
  requestId : Str
  request : Request

def validateHoldId (holdId : Str) : Except ControlError Unit :=
  if isShortName holdId then .ok () else .error (invalidArgument "hold_id must contain 1 to 128 bytes")

/-- What is checked of each kind of request. -/
def Request.validate : Request → Except ControlError Unit
  | .getState | .setBroadcast _ => .ok ()
  | .activate target | .swapWindowNumbers target => target.validate
  | .beginMouseClutch holdId | .renewMouseClutch holdId | .endMouseClutch holdId => validateHoldId holdId
  | .sendText clientId text _ =>
    match ClientId.new clientId with
    | .error error => .error error
    | .ok _ => validateTextInput text
  | .sendKeys clientId strokes =>
    match ClientId.new clientId with
    | .error error => .error error
    | .ok _ =>
      match strokes.mapM KeyStroke.ofWire with
      | .error error => .error error
      | .ok strokes => validateKeyStrokes strokes
  | .sendEqAction clientId action =>
    match ClientId.new clientId with
    | .error error => .error error
    | .ok _ => (EqAction.ofWire action).map fun _ => ()
  | .listEqKeymapActions targets after =>
    match targets.checked with
    | .error error => .error error
    | .ok _ =>
      match after with
      | none => .ok ()
      | some after => (mappingNameOf after).map fun _ => ()
  | .sendEqActionBatch targets action =>
    match targets.checked with
    | .error error => .error error
    | .ok _ => (EqAction.ofWire action).map fun _ => ()

/-- The error for another version of the protocol. -/
def unsupportedVersion (version : Nat) : ControlError :=
  ⟨.unsupportedProtocolVersion, s!"protocol version {version} is unsupported; expected {protocolVersion}"⟩

/-- `ClientMessage::validate`: the version, the request id and the request's own checks. -/
def ClientMessage.validate (message : ClientMessage) : Except ControlError Unit :=
  if message.version ≠ protocolVersion then .error (unsupportedVersion message.version)
  else if !isShortName message.requestId then .error (invalidArgument "request_id must contain 1 to 128 bytes")
  else message.request.validate

/-! ### What the controller is asked -/

/-- The calls of the controller that a connection makes. -/
inductive ControllerCall
  | activate (target : Target)
  | swapWindowNumbers (target : Target)
  | setBroadcastEnabled (enabled : Bool)
  | updateMouseClutchHold (owner : MouseClutchOwner) (operation : MouseClutchOperation) (sequence : Nat)
  | endMouseClutchSession (sessionId : UInt64) (sequence : Nat)
  | sendText (clientId : ClientId) (text : Str) (submit : Bool)
  | sendKeys (clientId : ClientId) (strokes : List KeyStroke)
  | sendEqAction (clientId : ClientId) (action : EqAction)
  | listEqKeymapActions (targets : EqActionTargets) (after : Option EqMappingName)
  | sendEqActionBatch (targets : EqActionTargets) (action : EqAction)

/-- `after.map(EqMappingName::new).transpose()`. -/
def afterName : Option Str → Except ControlError (Option EqMappingName)
  | none => .ok none
  | some after => (mappingNameOf after).map some

section call
variable (sessionId : UInt64) (sequence : Nat)

/-- The call for a hold of the Mouse Clutch, whose owner is the session and the hold id. -/
def clutchCall (holdId : Str) (operation : MouseClutchOperation) : Except ControlError ControllerCall :=
  (mouseClutchOwner sessionId holdId).map fun owner => .updateMouseClutchHold owner operation sequence

/-- What `handle_frame` asks the controller for a request; `get_state` it answers by itself. A hold of the Mouse Clutch is
changed under the next sequence number. -/
def Request.call : Request → Option (Except ControlError ControllerCall)
  | .getState => none
  | .activate target => some (target.checked.map .activate)
  | .swapWindowNumbers target => some (target.checked.map .swapWindowNumbers)
  | .setBroadcast enabled => some (.ok (.setBroadcastEnabled enabled))
  | .beginMouseClutch holdId => some (clutchCall sessionId sequence holdId .begin)
  | .renewMouseClutch holdId => some (clutchCall sessionId sequence holdId .renew)
  | .endMouseClutch holdId => some (clutchCall sessionId sequence holdId .ended)
  | .sendText clientId text submit => some ((ClientId.new clientId).map fun id => .sendText id text submit)
  | .sendKeys clientId strokes => some <|
    match ClientId.new clientId with
    | .error error => .error error
    | .ok id => (strokes.mapM KeyStroke.ofWire).map (.sendKeys id)
  | .sendEqAction clientId action => some <|
    match ClientId.new clientId with
    | .error error => .error error
    | .ok id => (EqAction.ofWire action).map (.sendEqAction id)
  | .listEqKeymapActions targets after => some <|
    match targets.checked with
    | .error error => .error error
    | .ok targets => (afterName after).map (.listEqKeymapActions targets)
  | .sendEqActionBatch targets action => some <|
    match targets.checked with
    | .error error => .error error
    | .ok targets => (EqAction.ofWire action).map (.sendEqActionBatch targets)

end call

def ControllerCall.isClutch : ControllerCall → Bool
  | .updateMouseClutchHold .. => true
  | _ => false

/-! ### A request that is checked can be asked -/

/-- What the controller may rely on when a request of a session is passed to it. -/
def ControllerCall.Checked (sessionId : UInt64) (sequence : Nat) : ControllerCall → Prop
  | .activate target | .swapWindowNumbers target => target.validate = .ok ()
  | .setBroadcastEnabled _ => True
  | .endMouseClutchSession .. => False
  | .updateMouseClutchHold owner _ number =>
    isShortName owner.holdId.toList = true ∧ owner.sessionId = sessionId ∧ number = sequence
  | .sendText clientId text _ => isShortName clientId = true ∧ validateTextInput text = .ok ()
  | .sendKeys clientId strokes => isShortName clientId = true ∧ validateKeyStrokes strokes = .ok ()
  | .sendEqAction clientId action => isShortName clientId = true ∧ action.validate = .ok ()
  | .listEqKeymapActions targets _ => targets.validate = .ok ()
  | .sendEqActionBatch targets action => targets.validate = .ok () ∧ action.validate = .ok ()

theorem map_unit_ok {α ε : Type} {x : Except ε α} (h : (x.map fun _ => ()) = .ok ()) : ∃ a, x = .ok a := by
  cases x with
  | error error => cases h
  | ok a => exact ⟨a, rfl⟩

theorem ClientId.new_ok {value id : Str} (h : ClientId.new value = .ok id) : id = value ∧ isShortName id = true := by
  unfold ClientId.new at h
  split at h
  · rename_i hshort
    cases h
    exact ⟨rfl, hshort⟩
  · cases h

theorem map_checked {α : Type} {x : Except ControlError Unit} {a b : α} (h : (x.map fun _ => a) = .ok b) :
    x = .ok () ∧ b = a := by
  cases x with
  | error error => cases h
  | ok u =>
    cases h
    exact ⟨rfl, rfl⟩

theorem EqAction.ofWire_ok {wire : WireEqAction} {action : EqAction} (h : EqAction.ofWire wire = .ok action) :
    action.validate = .ok () := by
  cases wire with
  | useCenterScreen | inviteFollow =>
    cases h
    rfl
  | hotbar bar button =>
    obtain ⟨hvalid, rfl⟩ := map_checked h
    exact hvalid
  | spellGem gem =>
    obtain ⟨hvalid, rfl⟩ := map_checked h
    exact hvalid
  | keymap mapping =>
    rw [EqAction.ofWire] at h
    cases hname : mappingNameOf mapping with
    | error error =>
      rw [hname] at h
      cases h
    | ok name =>
      rw [hname] at h
      cases h
      rfl

section checked
variable {sessionId : UInt64} {sequence : Nat}

theorem Target.checked_of_validate {target : Target} (h : target.validate = .ok ()) : target.checked = .ok target := by
  rw [Target.checked, h]
  rfl

theorem clutchCall_of_validate {holdId : Str} (h : validateHoldId holdId = .ok ()) (operation : MouseClutchOperation) :
    ∃ call, clutchCall sessionId sequence holdId operation = .ok call ∧ call.Checked sessionId sequence := by
  unfold validateHoldId at h
  split at h
  · rename_i hshort
    refine ⟨.updateMouseClutchHold ⟨sessionId, String.ofList holdId⟩ operation sequence, ?_, ?_⟩
    · rw [clutchCall, mouseClutchOwner, if_pos hshort]
      rfl
    · refine ⟨?_, rfl, rfl⟩
      rw [String.toList_ofList]
      exact hshort
  · cases h

/-- A request that is checked is answered by the server or passed to the controller, which is asked only what is checked. -/
theorem Request.call_of_validate {request : Request} (h : request.validate = .ok ()) :
    request = .getState ∨
      ∃ call, request.call sessionId sequence = some (.ok call) ∧ call.Checked sessionId sequence := by
  cases request with
  | getState => exact .inl rfl
  | activate target =>
    refine .inr ⟨.activate target, ?_, h⟩
    rw [Request.call, Target.checked_of_validate h]
    rfl
  | swapWindowNumbers target =>
    refine .inr ⟨.swapWindowNumbers target, ?_, h⟩
    rw [Request.call, Target.checked_of_validate h]
    rfl
  | setBroadcast enabled => exact .inr ⟨_, rfl, trivial⟩
  | beginMouseClutch holdId =>
    obtain ⟨call, hcall, hchecked⟩ := clutchCall_of_validate h .begin
    exact .inr ⟨call, congrArg some hcall, hchecked⟩
  | renewMouseClutch holdId =>
    obtain ⟨call, hcall, hchecked⟩ := clutchCall_of_validate h .renew
    exact .inr ⟨call, congrArg some hcall, hchecked⟩
  | endMouseClutch holdId =>
    obtain ⟨call, hcall, hchecked⟩ := clutchCall_of_validate h .ended
    exact .inr ⟨call, congrArg some hcall, hchecked⟩
  | sendText clientId text submit =>
    rw [Request.validate] at h
    cases hid : ClientId.new clientId with
    | error error =>
      rw [hid] at h
      cases h
    | ok id =>
      rw [hid] at h
      refine .inr ⟨.sendText id text submit, ?_, (ClientId.new_ok hid).2, h⟩
      rw [Request.call, hid]
      rfl
  | sendKeys clientId strokes =>
    rw [Request.validate] at h
    cases hid : ClientId.new clientId with
    | error error =>
      rw [hid] at h
      cases h
    | ok id =>
      rw [hid] at h
      cases hstrokes : strokes.mapM KeyStroke.ofWire with
      | error error =>
        rw [hstrokes] at h
        cases h
      | ok checked =>
        rw [hstrokes] at h
        refine .inr ⟨.sendKeys id checked, ?_, (ClientId.new_ok hid).2, h⟩
        rw [Request.call, hid, hstrokes]
        rfl
  | sendEqAction clientId wire =>
    rw [Request.validate] at h
    cases hid : ClientId.new clientId with
    | error error =>
      rw [hid] at h
      cases h
    | ok id =>
      rw [hid] at h
      obtain ⟨action, haction⟩ := map_unit_ok h
      refine .inr ⟨.sendEqAction id action, ?_, (ClientId.new_ok hid).2, EqAction.ofWire_ok haction⟩
      rw [Request.call, hid, haction]
      rfl
  | listEqKeymapActions targets after =>
    unfold Request.validate at h
    dsimp only at h
    cases htargets : targets.checked with
    | error error =>
      rw [htargets] at h
      cases h
    | ok checked =>
      rw [htargets] at h
      obtain ⟨hvalid, rfl⟩ := map_checked htargets
      cases after with
      | none =>
        refine .inr ⟨.listEqKeymapActions checked none, ?_, hvalid⟩
        rw [Request.call, htargets]
        rfl
      | some after =>
        obtain ⟨name, hname⟩ := map_unit_ok h
        refine .inr ⟨.listEqKeymapActions checked (some name), ?_, hvalid⟩
        rw [Request.call, htargets, afterName, hname]
        rfl
  | sendEqActionBatch targets wire =>
    rw [Request.validate] at h
    cases htargets : targets.checked with
    | error error =>
      rw [htargets] at h
      cases h
    | ok checked =>
      rw [htargets] at h
      obtain ⟨hvalid, rfl⟩ := map_checked htargets
      obtain ⟨action, haction⟩ := map_unit_ok h
      refine .inr ⟨.sendEqActionBatch checked action, ?_, hvalid, EqAction.ofWire_ok haction⟩
      rw [Request.call, htargets, haction]
      rfl

end checked

end Stonemite.Trushar
