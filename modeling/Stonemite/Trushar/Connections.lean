import Stonemite.Lib.Json
import Stonemite.Trushar.Requests

/-!
# Connections of the control server

The task that serves one connection: it sends the states that are published, reads requests and passes them to the
controller, and replies when the controller does. Its turns come in any order; the source's preference among several that
are ready only leaves some orders out.
-/

namespace Stonemite.Trushar
open Keymaps

/-! ### Messages of the server -/

/-- Whether the client was in front already. -/
inductive ActivationStatus
  | activated
  | alreadyActive
deriving DecidableEq, Repr

/-- Every outcome of a command. -/
inductive ControlOutcome
  | activated (status : ActivationStatus) (foregroundConfirmed : Bool)
  | windowNumbersSwapped (activePreviousNumber selectedPreviousNumber : Nat)
  | broadcastSet (enabled : Bool)
  | mouseClutchHoldUpdated (held : Bool)
  | input (outcome : CommandOutcome)
  | eqKeymapActionsListed (mappings : List EqMappingName) (windowNumbers : List Nat) (nextAfter : Option EqMappingName)
deriving DecidableEq

/-- The answer to a request that did not fail. -/
inductive Success
  | state
  | done (outcome : ControlOutcome)

inductive ServerMessage
  | state (state : StateSnapshot)
  | result (requestId : Str) (result : Success) (state : StateSnapshot)
  | error (requestId : Option Str) (error : ControlError)
  | paired (authToken : Str)

namespace ServerMessage

/-- The id of the request that a message answers, if it answers one at all. -/
def answers : ServerMessage → Option (Option Str)
  | state _ | paired _ => none
  | result requestId _ _ => some (some requestId)
  | error requestId _ => some requestId

/-- The reply to a command of the controller. -/
def reply (requestId : Str) (snapshot : StateSnapshot) : Except ControlError ControlOutcome → ServerMessage
  | .ok outcome => result requestId (.done outcome) snapshot
  | .error e => error (some requestId) e

theorem answers_reply (requestId : Str) (snapshot : StateSnapshot) (result : Except ControlError ControlOutcome) :
    (reply requestId snapshot result).answers = some (some requestId) := by
  cases result <;> rfl

end ServerMessage

/-! ### Reading a request -/

/-- How the server reads JSON, and a request from it. -/
structure Reader (N : Type) where
  parse : Str → Option (Json N)
  message : Json N → Option ClientMessage

/-- What could not be decoded, with the request id where there was one. -/
structure DecodeError where
  requestId : Option Str
  error : ControlError

/-- The request id of a message that does not decode otherwise. -/
def requestIdOf {N : Type} (value : Json N) : Option Str :=
  value.asObject.bind fun fields => (Json.lookup fields "request_id".toList).bind Json.asStr

/-- `decode_client_message`: the size, the JSON, and then the message's own checks. -/
def decodeClientMessage {N : Type} (r : Reader N) (text : Str) : Except DecodeError ClientMessage :=
  if maxTextMessageSize < text.bytes.length then
    .error ⟨none, .malformedRequest, "text message exceeds the 16384-byte limit"⟩
  else
    match r.parse text with
    | none => .error ⟨none, .malformedRequest, "request is not valid JSON"⟩
    | some value =>
      match r.message value with
      | none => .error ⟨requestIdOf value, .malformedRequest, "request has an unknown type or invalid fields"⟩
      | some message =>
        match message.validate with
        | .error error => .error ⟨requestIdOf value, error⟩
        | .ok _ => .ok message

theorem decode_checked {N : Type} {r : Reader N} {text : Str} {message : ClientMessage}
    (h : decodeClientMessage r text = .ok message) : message.request.validate = .ok () := by
  unfold decodeClientMessage at h
  split at h
  · cases h
  · split at h
    · cases h
    · split at h
      · cases h
      · split at h
        · cases h
        · rename_i hvalid
          cases h
          unfold ClientMessage.validate at hvalid
          split at hvalid
          · cases hvalid
          · split at hvalid
            · cases hvalid
            · exact hvalid

namespace Server

/-! ### The connection -/

def maxInFlightCommands : Nat := 16

/-- The error for a command over the bound. -/
def tooManyCommands : ControlError := invalidArgument "too many commands are already in flight"

/-- The error for a binary frame. -/
def binaryRejected : ControlError :=
  ⟨.malformedRequest, "binary messages are not supported; send UTF-8 JSON text"⟩

/-- `saturating_add(1)` of a `u64`. -/
def next (n : Nat) : Nat := min (n + 1) (2 ^ 64 - 1)

/-- What is read from the connection. -/
inductive Incoming
  | text (text : Str)
  | binary
  | ping
  | pong
  | close
  | tooLarge
  | failed

/-- The branches of the connection's `select!`. -/
inductive Event
  | shutdown
  /-- The controller has replied to a command. -/
  | completed (command : Nat) (result : Except ControlError ControlOutcome)
  | stateClosed
  | stateChanged
  | incoming (message : Incoming)

/-- An event, the state that is then published, and whether what is written reaches the client. -/
structure Turn where
  event : Event
  snapshot : StateSnapshot
  written : Bool

/-- Commands in flight are known by their number and keep the id of their request. -/
structure Connection where
  sessionId : UInt64
  mouseClutchSequence : Nat
  lastStateRevision : Nat
  commands : List (Nat × Str)
  issued : Nat
  frames : List ServerMessage
  closed : Bool

namespace Connection

/-- The loop has ended. No command in flight is replied to any more, and the holds of the session are to end. -/
def finish (c : Connection) : Connection × Option ControllerCall :=
  ({ c with commands := [], mouseClutchSequence := next c.mouseClutchSequence, closed := true },
    some (.endMouseClutchSession c.sessionId (next c.mouseClutchSequence)))

/-- A message is written, or the connection closes with the end of its session. -/
def send (c : Connection) (message : ServerMessage) (written : Bool) : Connection × Option ControllerCall :=
  if written then ({ c with frames := c.frames ++ [message] }, none) else c.finish

/-- The loop begins. -/
def opened (sessionId : UInt64) (snapshot : StateSnapshot) (written : Bool) : Connection × Option ControllerCall :=
  (⟨sessionId, 0, snapshot.revision, [], 0, [], false⟩ : Connection).send (.state snapshot) written

/-- A command is passed to the controller. -/
def push (c : Connection) (requestId : Str) (call : ControllerCall) : Connection :=
  { c with
    mouseClutchSequence := if call.isClutch then next c.mouseClutchSequence else c.mouseClutchSequence
    commands := c.commands ++ [(c.issued, requestId)]
    issued := c.issued + 1 }

section frames
variable {N : Type} (r : Reader N) (c : Connection) (snapshot : StateSnapshot) (written : Bool)

/-- A decoded message makes a call, is answered at once, or is refused. -/
def handleMessage (message : ClientMessage) : Connection × Option ControllerCall :=
  match message.request.call c.sessionId (next c.mouseClutchSequence) with
  | none => c.send (.result message.requestId .state snapshot) written
  | some call =>
    if maxInFlightCommands ≤ c.commands.length then c.send (.error (some message.requestId) tooManyCommands) written
    else
      match call with
      | .error error => c.send (.error (some message.requestId) error) written
      | .ok call => (c.push message.requestId call, some call)

/-- A frame is decoded and handled, or closes the connection. -/
def handleFrame : Incoming → Connection × Option ControllerCall
  | .text text =>
    match decodeClientMessage r text with
    | .ok message => c.handleMessage snapshot written message
    | .error error => c.send (.error error.requestId error.error) written
  | .binary => c.send (.error none binaryRejected) written
  | .ping => if written then (c, none) else c.finish
  | .pong => (c, none)
  | .close | .tooLarge | .failed => c.finish

end frames

/-- A turn of the loop. -/
def step {N : Type} (r : Reader N) (c : Connection) (turn : Turn) : Connection × Option ControllerCall :=
  if c.closed then (c, none)
  else
    match turn.event with
    | .shutdown | .stateClosed => c.finish
    | .completed command result =>
      match c.commands.find? fun entry => entry.1 = command with
      | none => (c, none)
      | some entry =>
        ({ c with commands := c.commands.erase entry } : Connection).send (.reply entry.2 turn.snapshot result) turn.written
    | .stateChanged =>
      if c.lastStateRevision < turn.snapshot.revision then
        ({ c with lastStateRevision := turn.snapshot.revision } : Connection).send (.state turn.snapshot) turn.written
      else (c, none)
    | .incoming message => c.handleFrame r turn.snapshot turn.written message

end Connection

/-! ### What a turn does -/

section turns
variable {N : Type} {r : Reader N} {c : Connection} {turn : Turn}

/-- The frames that ask for an answer. -/
def Incoming.asks : Incoming → Bool
  | .text _ | .binary => true
  | _ => false

/-- The frame that needs an answer, if the event brings one. -/
def Event.asks : Event → Option Incoming
  | .incoming message => if message.asks then some message else none
  | _ => none

/-- The id under which a frame is answered. -/
def Incoming.requestId (r : Reader N) : Incoming → Option Str
  | .text body =>
    match decodeClientMessage r body with
    | .ok message => some message.requestId
    | .error error => error.requestId
  | _ => none

/-- A frame asks for a call of the controller. -/
structure Incoming.Calls (r : Reader N) (sessionId : UInt64) (sequence : Nat) (frame : Incoming) (requestId : Str)
    (call : ControllerCall) : Prop where
  asked : ∃ text message, frame = .text text ∧ decodeClientMessage r text = .ok message ∧ message.requestId = requestId ∧
    message.request.call sessionId sequence = some (.ok call)
  checked : call.Checked sessionId sequence

/-- What an open connection comes to in a turn. -/
inductive Turned (r : Reader N) (c : Connection) (turn : Turn) : Connection × Option ControllerCall → Prop
  | finished (revision : Nat) : Turned r c turn ({ c with lastStateRevision := revision } : Connection).finish
  | idle (hasks : turn.event.asks = none) : Turned r c turn (c, none)
  | told (hasks : turn.event.asks = none) (hlater : c.lastStateRevision < turn.snapshot.revision) :
    Turned r c turn ({ c with
      lastStateRevision := turn.snapshot.revision, frames := c.frames ++ [.state turn.snapshot] }, none)
  | answered (frame : Incoming) (message : ServerMessage) (hasks : turn.event.asks = some frame)
      (hanswers : message.answers = some (frame.requestId r))
      (hdone : ∀ requestId outcome snapshot, message ≠ .result requestId (.done outcome) snapshot) :
    Turned r c turn ({ c with frames := c.frames ++ [message] }, none)
  | completed (entry : Nat × Str) (result : Except ControlError ControlOutcome) (hentry : entry ∈ c.commands)
      (hevent : turn.event = .completed entry.1 result) :
    Turned r c turn ({ c with
      commands := c.commands.erase entry, frames := c.frames ++ [.reply entry.2 turn.snapshot result] }, none)
  | accepted (frame : Incoming) (requestId : Str) (call : ControllerCall) (hasks : turn.event.asks = some frame)
      (hid : frame.requestId r = some requestId) (hroom : c.commands.length < maxInFlightCommands)
      (hcalls : frame.Calls r c.sessionId (next c.mouseClutchSequence) requestId call) :
    Turned r c turn (c.push requestId call, some call)

theorem Turned.send (c' : Connection) (message : ServerMessage)
    (h : Turned r c turn ({ c' with frames := c'.frames ++ [message] }, none)) {revision : Nat}
    (hfinish : c'.finish = ({ c with lastStateRevision := revision } : Connection).finish) (written : Bool) :
    Turned r c turn (c'.send message written) := by
  unfold Connection.send
  split
  · exact h
  · rw [hfinish]
    exact .finished revision

theorem turned_handleMessage {frame : Incoming} {text : Str} {message : ClientMessage} (hframe : frame = .text text)
    (hasks : turn.event.asks = some frame) (hdecode : decodeClientMessage r text = .ok message) :
    Turned r c turn (c.handleMessage turn.snapshot turn.written message) := by
  have hid : frame.requestId r = some message.requestId := by
    rw [hframe, Incoming.requestId, hdecode]
  have hanswers (result : ServerMessage) (h : result.answers = some (some message.requestId)) :
      result.answers = some (frame.requestId r) := by rw [h, hid]
  unfold Connection.handleMessage
  have hasked : _ ∨ ∃ call, message.request.call c.sessionId (next c.mouseClutchSequence) = some (.ok call) ∧ _ :=
    Request.call_of_validate (decode_checked hdecode)
  obtain hstate | ⟨call, hcall, hchecked⟩ := hasked
  · rw [hstate]
    exact .send c _ (.answered frame _ hasks (hanswers _ rfl) (by rintro _ _ _ ⟨⟩)) rfl turn.written
  · rw [hcall]
    dsimp only
    split
    · exact .send c _ (.answered frame _ hasks (hanswers _ rfl) (by rintro _ _ _ ⟨⟩)) rfl turn.written
    · rename_i hroom
      exact .accepted frame message.requestId call hasks hid (Nat.lt_of_not_le hroom)
        ⟨⟨text, message, hframe, hdecode, rfl, hcall⟩, hchecked⟩

theorem turned_handleFrame {frame : Incoming} (hevent : turn.event = .incoming frame) :
    Turned r c turn (c.handleFrame r turn.snapshot turn.written frame) := by
  have hasks : turn.event.asks = if frame.asks then some frame else none := by rw [hevent, Event.asks]
  cases frame with
  | text text =>
    rw [Connection.handleFrame]
    cases hdecode : decodeClientMessage r text with
    | ok message => exact turned_handleMessage rfl hasks hdecode
    | error error =>
      have hid : (Incoming.text text).requestId r = error.requestId := by rw [Incoming.requestId, hdecode]
      exact .send c (.error error.requestId error.error)
        (.answered (.text text) _ hasks (congrArg some hid.symm) (by rintro _ _ _ ⟨⟩)) rfl turn.written
  | binary => exact .send c _ (.answered .binary _ hasks rfl (by rintro _ _ _ ⟨⟩)) rfl turn.written
  | ping =>
    rw [Connection.handleFrame]
    split
    · exact .idle hasks
    · exact .finished c.lastStateRevision
  | pong => exact .idle hasks
  | close | tooLarge | failed => exact .finished c.lastStateRevision

theorem turned (hopen : c.closed = false) : Turned r c turn (c.step r turn) := by
  unfold Connection.step
  rw [if_neg (by rw [hopen]; exact Bool.false_ne_true)]
  cases hevent : turn.event with
  | shutdown | stateClosed => exact .finished c.lastStateRevision
  | completed command result =>
    dsimp only
    cases hfind : c.commands.find? fun entry => entry.1 = command with
    | none => exact .idle (by rw [hevent]; rfl)
    | some entry =>
      obtain rfl : entry.1 = command := by simpa using List.find?_some hfind
      have hreply : Turned r c turn _ := .completed entry result (List.mem_of_find?_eq_some hfind) hevent
      exact .send { c with commands := c.commands.erase entry } _ hreply rfl turn.written
  | stateChanged =>
    dsimp only
    split
    · rename_i hlater
      have htold : Turned r c turn _ := .told (by rw [hevent]; rfl) hlater
      exact .send { c with lastStateRevision := turn.snapshot.revision } _ htold rfl turn.written
    · exact .idle (by rw [hevent]; rfl)
  | incoming message => exact turned_handleFrame hevent

end turns

end Server

end Stonemite.Trushar
