import Stonemite.Streamdeck.Types
import Stonemite.Lib.TreeMap

/-!
# The connection of the plugin (`trushar/client.ts`)

`TrusharClient` with its sockets, timers and request promises. Each event of the run is one turn of the
JavaScript event loop: a call of the plugin, an event of a socket or the firing of a timer. What the `ws`
package and the platform do beside is the order of the events; delays are left out, a timer that is set may
fire at any later turn. The callbacks are taken to return and not to call the client.
-/

open Std

namespace Stonemite.Streamdeck

/-- The error of a command, with its code and text. -/
structure CommandError where
  code : Str
  message : Str
deriving DecidableEq, Repr

/-- What a pairing ends with: a `CommandError`, or the `ProtocolError` with its message. -/
inductive PairingError
  | command (error : CommandError)
  | protocol (message : Str)
deriving DecidableEq, Repr

/-- The parts of a `URL` that `normalizeAddress` reads. -/
structure Url where
  protocol : Str
  username : Str
  password : Str
  search : Str
  hash : Str
  pathname : Str
  hostname : Str
  port : Str
  host : Str

/-- The address and the token to connect with. -/
structure ConnectionConfig where
  address : Str
  authToken : Option Str
deriving DecidableEq, Repr

/-- What the client takes from JavaScript and from `ws`. -/
structure Platform where
  trim : Str → Str
  toLowerCase : Str → Str
  /-- `new URL`, unless it throws. -/
  parseUrl : Str → Option Url
  /-- `new WebSocket` returns for the configuration: it throws for a credential that is no header value. -/
  connects : ConnectionConfig → Bool

def includes (s part : Str) : Bool := s.tails.any part.isPrefixOf

/-- `normalizeAddress`. -/
def normalizeAddress (platform : Platform) (input : Str) : Except CommandError Str :=
  let trimmed := platform.trim input
  if trimmed = [] then .error ⟨"invalid_address".toList, "Enter the address shown by Stonemite.".toList⟩
  else
    match platform.parseUrl (if includes trimmed "://".toList then trimmed else "ws://".toList ++ trimmed) with
    | none => .error ⟨"invalid_address".toList, "The Stonemite address is not valid.".toList⟩
    | some url =>
      if url.protocol ≠ "ws:".toList ∨ url.username ≠ [] ∨ url.password ≠ [] ∨ url.search ≠ [] ∨ url.hash ≠ [] ∨
          (url.pathname ≠ "/".toList ∧ url.pathname ≠ []) then
        .error ⟨"invalid_address".toList, "Use a host and port only, such as stonemite-pc.local:19720.".toList⟩
      else if url.hostname = [] ∨ url.port = [] then
        .error ⟨"invalid_address".toList, "Include the Stonemite host and port.".toList⟩
      else .ok (platform.toLowerCase url.host)

/-- The configuration `configure` compares and keeps: an empty credential counts as none. -/
def ConnectionConfig.next (platform : Platform) (credentials : ConnectionConfig) :
    Except CommandError ConnectionConfig :=
  (normalizeAddress platform credentials.address).map fun address =>
    { address, authToken := credentials.authToken.filter (· ≠ []) }

/-- What the plugin shows of the connection. -/
inductive ConnectionPhase
  | idle
  | pairing
  | connecting
  | connected
  | reconnecting
  | error
deriving DecidableEq, Repr

/-- The phase with its title and detail. -/
structure ConnectionStatus where
  state : ConnectionPhase
  title : String
  detail : Str
deriving DecidableEq, Repr

/-- The requests of the plugin; a listing of key mappings makes one for each page. -/
inductive Command
  | activate
  | sendEqAction
  | swapWindowNumbers
  | setBroadcast
  | beginMouseClutch
  | renewMouseClutch
  | endMouseClutch
  | listEqKeymapActions
  | sendEqActionBatch
deriving DecidableEq, Repr

namespace Command

/-- The word of the command in its request ids. -/
def kind : Command → String
  | activate => "activate"
  | sendEqAction => "eq-action"
  | swapWindowNumbers => "swap-numbers"
  | setBroadcast => "broadcast"
  | beginMouseClutch => "clutch-begin"
  | renewMouseClutch => "clutch-renew"
  | endMouseClutch => "clutch-end"
  | listEqKeymapActions => "eq-keymaps"
  | sendEqActionBatch => "eq-action-batch"

/-- The result that the server gives to the command. -/
def expected : Command → SuccessType
  | activate => .activated
  | sendEqAction => .eqActionDelivered
  | swapWindowNumbers => .windowNumbersSwapped
  | setBroadcast => .broadcastSet
  | beginMouseClutch | renewMouseClutch | endMouseClutch => .mouseClutchHoldUpdated
  | listEqKeymapActions => .eqKeymapActionsListed
  | sendEqActionBatch => .eqActionBatchDelivered

end Command

def digit36 (d : Nat) : Char := Char.ofNat (if d < 10 then 48 + d else 87 + d)

/-- `toString(36)`. -/
def base36 (n : Nat) : Str := if n = 0 then ['0'] else ((Nat.digits 36 n).map digit36).reverse

inductive ReadyState
  | connecting
  | open
  | closing
  | closed
deriving DecidableEq, Repr

/-- What the listeners of a socket hold: those of `#connect` or those of `pair`. -/
inductive SocketKind
  | control (credentials : ConnectionConfig) (terminalFailure : Bool)
  | pairing (address : Str) (settled : Bool)
deriving DecidableEq, Repr

/-- A WebSocket with what the closures of its listeners hold. -/
structure Socket where
  kind : SocketKind
  /-- The generation its listeners were made in. -/
  generation : Nat
  ready : ReadyState
  listening : Bool
deriving DecidableEq, Repr

namespace Socket

/-- `close()` and `terminate()`: the close event follows in a later turn. -/
def close (socket : Socket) : Socket :=
  match socket.ready with
  | .closed => socket
  | _ => { socket with ready := .closing }

/-- `removeAllListeners()`, then `close()` or `terminate()` unless the socket is closing already. -/
def abandon (socket : Socket) : Socket := { socket.close with listening := false }

/-- The listener of a control socket remembers a failure after which nothing is tried again. -/
def fail (socket : Socket) (failure : Bool) : Socket :=
  match socket.kind with
  | .control credentials _ => { socket with kind := .control credentials failure }
  | .pairing .. => socket

end Socket

/-- A command that waits for its result, with its timer. -/
structure PendingCommand where
  expected : SuccessType
  timer : Nat
deriving DecidableEq, Repr

/-- A command timer that is set, with what its callback holds. -/
structure CommandTimer where
  handle : Nat
  requestId : Str
  socket : Nat
deriving DecidableEq, Repr

/-- A call of `resolve` or `reject`. -/
inductive Outcome
  | resolved (result : Success) (state : TrusharState)
  | rejected (error : CommandError)
deriving DecidableEq, Repr

/-- The client, with the timers and sockets that the runtime holds for it. -/
structure TrusharClient where
  /-- Every socket that was made, by number. -/
  sockets : ExtTreeMap Nat Socket := ∅
  nextSocket : Nat := 0
  socket : Option Nat := none
  /-- The socket of the pairing in progress, which its `cancel` finishes. -/
  pairing : Option Nat := none
  credentials : Option ConnectionConfig := none
  generation : Nat := 0
  requestSequence : Nat := 0
  reconnectAttempt : Nat := 0
  /-- The generation that the callback of the timer connects for. -/
  reconnectTimer : Option Nat := none
  /-- The socket and the generation of the callback, as for `pongTimer`. -/
  heartbeatTimer : Option (Nat × Nat) := none
  pongTimer : Option (Nat × Nat) := none
  /-- The map of pending requests, in insertion order. -/
  pending : List (Str × PendingCommand) := []
  timers : List CommandTimer := []
  nextTimer : Nat := 0
  /-- The ids of the requests whose promise was handed out. -/
  promises : List Str := []
  /-- The calls of `resolve` and `reject`, oldest first. -/
  settlements : List (Str × Outcome) := []
  /-- The last argument of `onState` and of `onStatus`. -/
  state : Option TrusharState := none
  status : ConnectionStatus := ⟨.connecting, "Connecting", "Looking for Stonemite on this PC.".toList⟩

namespace TrusharClient
variable (platform : Platform) (c : TrusharClient)

def updSocket (id : Nat) (f : Socket → Socket) : TrusharClient := { c with sockets := c.sockets.modify id f }

/-- The status that the plugin shows. -/
def setStatus (state : ConnectionPhase) (title : String) (detail : Str) : TrusharClient :=
  { c with status := ⟨state, title, detail⟩ }

/-! ### Requests -/

/-- `#pending.get`. -/
def pendingOf (id : Str) : Option PendingCommand := (c.pending.find? fun entry => entry.1 = id).map (·.2)

/-- `clearTimeout`, `#pending.delete` and one call of `resolve` or `reject`. -/
def settle (id : Str) (command : PendingCommand) (outcome : Outcome) : TrusharClient :=
  { c with
    timers := c.timers.filter (·.handle ≠ command.timer)
    pending := c.pending.filter (·.1 ≠ id)
    settlements := c.settlements ++ [(id, outcome)] }

/-- `#rejectPending`. -/
def rejectPending (error : CommandError) : TrusharClient :=
  { c with
    timers := c.timers.filter fun timer => (c.pending.map (·.2.timer)).all (timer.handle ≠ ·)
    pending := []
    settlements := c.settlements ++ c.pending.map fun entry => (entry.1, .rejected error) }

/-- `#nextRequestId`; `now` is `Date.now()`. -/
def requestId (kind : String) (now : Nat) : Str :=
  "streamdeck-".toList ++ kind.toList ++ '-' :: (base36 now ++ '-' :: base36 (c.requestSequence + 1))

/-- `#pending.set`. -/
def setPending (id : Str) (command : PendingCommand) : TrusharClient :=
  { c with pending :=
      if (c.pendingOf id).isSome then
        c.pending.map fun entry => if entry.1 = id then (id, command) else entry
      else c.pending ++ [(id, command)] }

/-- The current socket, if it is open. -/
def openSocket : Option Nat :=
  c.socket.filter fun id => (c.sockets[id]?).any (·.ready = .open)

/-- A command of the plugin: `#nextRequestId`, then `#request`. -/
def request (command : Command) (now : Nat) : TrusharClient :=
  let id := c.requestId command.kind now
  let c := { c with requestSequence := c.requestSequence + 1, promises := c.promises ++ [id] }
  match c.openSocket with
  | none =>
    { c with settlements := c.settlements ++
        [(id, .rejected ⟨"not_connected".toList, "Stonemite is not connected.".toList⟩)] }
  | some socket =>
    let timer : CommandTimer := { handle := c.nextTimer, requestId := id, socket }
    ({ c with timers := c.timers ++ [timer], nextTimer := c.nextTimer + 1 }).setPending id
      { expected := command.expected, timer := timer.handle }

/-- The callback of `send`, with an error. -/
def sendFailed (id : Str) : TrusharClient :=
  match c.pendingOf id with
  | none => c
  | some command =>
    c.settle id command (.rejected ⟨"send_failed".toList, "The command could not be sent.".toList⟩)

/-- A command timer fires. -/
def commandTimeout (handle : Nat) : TrusharClient :=
  match c.timers.find? (·.handle = handle) with
  | none => c
  | some timer =>
    let c := { c with
      timers := c.timers.filter (·.handle ≠ handle)
      pending := c.pending.filter (·.1 ≠ timer.requestId)
      settlements := c.settlements ++ [(timer.requestId, .rejected
        ⟨"command_timeout".toList, "Stonemite did not answer before the command timed out.".toList⟩)] }
    if c.socket = some timer.socket then
      (c.setStatus .reconnecting "Connection stalled"
        "Stonemite stopped responding. Retrying automatically.".toList).updSocket timer.socket Socket.close
    else c

/-- `#handleMessage`, and whether it returned. -/
def handleMessage (message : ServerMessage) : TrusharClient × Bool :=
  match message with
  | .state state => ({ c with state := some state }, true)
  | .result id result state =>
    match c.pendingOf id with
    | none => (c, true)
    | some command =>
      if result.type ≠ command.expected then
        (c.settle id command (.rejected ⟨"protocol_error".toList,
          s!"Expected {command.expected.name} but received {result.type.name}.".toList⟩), false)
      else (({ c with state := some state }).settle id command (.resolved result state), true)
  | .error none _ => (c, false)
  | .error (some id) error =>
    if id = [] then (c, false)
    else match c.pendingOf id with
      | none => (c, true)
      | some command => (c.settle id command (.rejected ⟨error.code, error.message⟩), true)
  | .paired _ => (c, false)

/-! ### Heartbeat and reconnection -/

/-- The timer of the next ping is set. -/
def scheduleHeartbeat (socket generation : Nat) : TrusharClient :=
  { c with heartbeatTimer := some (socket, generation) }

/-- Both timers of the heartbeat are cleared. -/
def stopHeartbeat : TrusharClient := { c with heartbeatTimer := none, pongTimer := none }

/-- The callback of the heartbeat timer. -/
def heartbeat : TrusharClient :=
  match c.heartbeatTimer with
  | none => c
  | some (socket, generation) =>
    let c := { c with heartbeatTimer := none }
    if c.openSocket ≠ some socket ∨ generation ≠ c.generation then c
    else { c with pongTimer := some (socket, generation) }

/-- The callback of the pong timer. -/
def pongTimeout : TrusharClient :=
  match c.pongTimer with
  | none => c
  | some (socket, generation) =>
    let c := { c with pongTimer := none }
    if c.socket ≠ some socket ∨ generation ≠ c.generation then c
    else
      (c.setStatus .reconnecting "Connection stalled"
        "The Stonemite connection stopped responding. Retrying.".toList).updSocket socket Socket.close

/-- The timer of the next attempt is cleared. -/
def cancelReconnect : TrusharClient := { c with reconnectTimer := none }

/-- The timer of the next attempt is set, with a longer wait each time. -/
def scheduleReconnect (generation : Nat) : TrusharClient :=
  ({ c.cancelReconnect with
    reconnectAttempt := c.reconnectAttempt + 1
    reconnectTimer := some generation }).setStatus .reconnecting "Reconnecting"
      "Stonemite is unavailable. Retrying automatically.".toList

/-! ### Sockets -/

/-- A new socket. -/
def newSocket (kind : SocketKind) (generation : Nat) : TrusharClient :=
  { c with
    sockets := c.sockets.insert c.nextSocket { kind, generation, ready := .connecting, listening := true }
    nextSocket := c.nextSocket + 1 }

/-- `#connect`. Where the constructor throws, nothing follows in the callers. -/
def connect (generation : Nat) (reconnecting : Bool) : TrusharClient :=
  match c.credentials with
  | none => c
  | some credentials =>
    if generation ≠ c.generation then c
    else
      let c := c.setStatus (if reconnecting then .reconnecting else .connecting)
        (if reconnecting then "Reconnecting" else "Connecting")
        (if credentials.authToken.isNone then "Looking for Stonemite on this PC.".toList
          else "Contacting ".toList ++ credentials.address ++ ['.'])
      if platform.connects credentials then
        { c.newSocket (.control credentials false) generation with socket := some c.nextSocket }
      else c

/-- `#closeSocket`. -/
def closeSocket : TrusharClient :=
  match c.socket with
  | none => c
  | some id => ({ c with socket := none }).updSocket id Socket.abandon

/-- `finish` of a pairing: how its promise ends, unless it ended before. -/
def finish (id : Nat) (result : Except PairingError Str) : TrusharClient × Option (Except PairingError Str) :=
  match c.sockets[id]? with
  | some ⟨.pairing address false, generation, ready, listening⟩ =>
    let socket : Socket := ⟨.pairing address true, generation, ready, listening⟩
    let pairing := if c.pairing = some id then none else c.pairing
    let result := match result with
      | .ok [] => .error (.command ⟨"pairing_failed".toList, "Pairing failed.".toList⟩)
      | result => result
    (({ c with pairing }).updSocket id fun _ => socket.abandon, some result)
  | _ => (c, none)

/-- The error of a pairing that was taken back. -/
def pairingCancelled : PairingError :=
  .command ⟨"pairing_cancelled".toList, "Pairing was cancelled.".toList⟩

/-- `#cancelPairing`. -/
def cancelPairing : TrusharClient :=
  match c.pairing with
  | none => c
  | some id => (({ c with pairing := none }).finish id (.error pairingCancelled)).1

/-- `#cancelReconnect`, `#stopHeartbeat`, `#closeSocket` and `#rejectPending`, as every teardown has them. -/
def tearDown (error : CommandError) : TrusharClient :=
  ((c.cancelReconnect.stopHeartbeat).closeSocket).rejectPending error

/-- The error of the commands that a closed connection leaves. -/
def connectionClosed (message : String) : CommandError := ⟨"connection_closed".toList, message.toList⟩

/-- The status after `disconnect`. -/
def disconnected : TrusharClient :=
  c.setStatus .idle "Disconnected" "The Stonemite connection is stopped.".toList

/-- `configure` from the comparison on: `next` is what it keeps. -/
def adopt (next : Option ConnectionConfig) : TrusharClient :=
  if c.credentials = next then c
  else
    let c := c.cancelPairing
    let c := { c with generation := c.generation + 1, credentials := next }
    let c := c.tearDown (connectionClosed "Stonemite connection changed.")
    let c := { c with reconnectAttempt := 0 }
    if next.isNone then c.disconnected else c.connect platform c.generation false

/-- `configure`. -/
def configure (credentials : Option ConnectionConfig) : TrusharClient :=
  match credentials.mapM (ConnectionConfig.next platform) with
  | .error _ => c
  | .ok next => c.adopt platform next

/-- `reconnect`. -/
def reconnect : TrusharClient :=
  let c := c.cancelPairing
  if c.credentials.isNone then c.disconnected
  else
    let c := { c with generation := c.generation + 1 }
    let c := c.tearDown (connectionClosed "Stonemite reconnect interrupted the command.")
    let c := { c with reconnectAttempt := 0 }
    c.connect platform c.generation false

/-- `disconnect`. -/
def disconnect : TrusharClient := c.cancelPairing.configure platform none

/-- A pairing code has six digits. -/
def isCode (code : Str) : Bool := code.length == 6 && code.all Char.isDigit

/-- `pair` up to its promise; an invalid code or address is refused before anything changes. -/
def pair (addressInput code : Str) : TrusharClient :=
  if !isCode code then c
  else match normalizeAddress platform addressInput with
  | .error _ => c
  | .ok address =>
    let c := c.cancelPairing
    let c := { c with generation := c.generation + 1 }
    let c := c.tearDown (connectionClosed "Pairing started.")
    let c := c.setStatus .pairing "Pairing" ("Contacting ".toList ++ address ++ ['.'])
    { c.newSocket (.pairing address false) c.generation with pairing := some c.nextSocket }

/-! ### Events of the sockets -/

/-- An event of a socket that may happen in its ready state: the state changes, then the listener runs. -/
def emit (id : Nat) (may : ReadyState → Bool) (f : Socket → Socket)
    (listener : TrusharClient → Socket → TrusharClient) : TrusharClient :=
  match c.sockets[id]? with
  | none => c
  | some socket =>
    if may socket.ready then
      let c := c.updSocket id f
      if socket.listening then listener c socket else c
    else c

/-- The end of `pair` and, after a success, the controller's `configure` with the returned credentials. -/
def endPairing (id : Nat) (socket : Socket) (result : Except PairingError Str) : TrusharClient :=
  match c.finish id result, socket.kind with
  | (c, some (.ok token)), .pairing address _ =>
    if socket.generation ≠ c.generation then c
    else c.configure platform (some { address, authToken := some token })
  | (c, _), _ => c

/-- The `open` event of a socket. -/
def socketOpened (id : Nat) : TrusharClient :=
  c.emit id (· = .connecting) ({ · with ready := .open }) fun c socket =>
    match socket.kind with
    | .control credentials _ =>
      if socket.generation ≠ c.generation then c.updSocket id Socket.close
      else
        (({ c with reconnectAttempt := 0 }).setStatus .connected "Connected" credentials.address).scheduleHeartbeat
          id socket.generation
    | .pairing .. =>
      if socket.generation ≠ c.generation then c.endPairing platform id socket (.error pairingCancelled) else c

/-- The `pong` event of a socket. -/
def pong (id : Nat) : TrusharClient :=
  c.emit id (fun ready => ready = .open ∨ ready = .closing) (fun socket => socket) fun c socket =>
    match socket.kind with
    | .control .. =>
      if socket.generation ≠ c.generation ∨ c.socket ≠ some id then c
      else ({ c with pongTimer := none }).scheduleHeartbeat id socket.generation
    | .pairing .. => c

/-- What the message listener of `#connect` does when the message is malformed or `#handleMessage` throws. -/
def protocolError (id : Nat) : TrusharClient :=
  let c := c.updSocket id (·.fail true)
  let c := c.stopHeartbeat.rejectPending
    ⟨"protocol_error".toList, "Stonemite sent an incompatible response.".toList⟩
  (c.setStatus .error "Protocol error"
    "Stonemite sent an incompatible response. Restart or update it.".toList).updSocket id Socket.close

/-- A message as `decodeFrame` returns it, or the text of the error it throws. -/
def message (id : Nat) (frame : Except Str ServerMessage) : TrusharClient :=
  c.emit id (fun ready => ready = .open ∨ ready = .closing) (fun socket => socket) fun c socket =>
    match socket.kind with
    | .control .. =>
      if socket.generation ≠ c.generation then c
      else match frame.map c.handleMessage with
        | .ok (c, true) => c
        | .ok (c, false) => c.protocolError id
        | .error _ => c.protocolError id
    | .pairing .. =>
      c.endPairing platform id socket <| match frame with
        | .ok (.paired token) => .ok token
        | .ok (.error _ error) => .error (.command ⟨error.code, error.message⟩)
        | .ok _ => .error (.protocol "Pairing endpoint returned an unexpected message.".toList)
        | .error text => .error (.protocol text)

/-- The upgrade was answered with an HTTP status. -/
def unexpectedResponse (id status : Nat) : TrusharClient :=
  c.emit id (· = .connecting) (fun socket => socket) fun c socket =>
    match socket.kind with
    | .control credentials _ =>
      if socket.generation ≠ c.generation then c
      else
        let failure := status = 401 ∨ status = 403
        let detail : Str :=
          if failure then
            if credentials.authToken.isSome then "Pair again to refresh this device credential.".toList
            else "Check the integration access setting in Stonemite.".toList
          else "Stonemite returned HTTP ".toList ++ Nat.toDigits 10 status ++ ". Retrying.".toList
        ((c.updSocket id (·.fail failure)).setStatus .error "Connection rejected" detail).updSocket id Socket.close
    | .pairing .. =>
      c.endPairing platform id socket (.error (.command ⟨"pairing_unavailable".toList,
        "Pairing was rejected with HTTP ".toList ++ Nat.toDigits 10 status ++ ['.']⟩))

/-- The error event; on the control socket the close event owns the retry. -/
def socketError (id : Nat) : TrusharClient :=
  c.emit id (· ≠ .closed) (fun socket => socket) fun c socket =>
    match socket.kind with
    | .control .. => c
    | .pairing address _ =>
      c.endPairing platform id socket (.error (.command ⟨"connection_failed".toList,
        "Could not reach ".toList ++ address ++ ['.']⟩))

/-- The `close` event of a socket. -/
def socketClosed (id : Nat) : TrusharClient :=
  c.emit id (· ≠ .closed) ({ · with ready := .closed }) fun c socket =>
    match socket.kind with
    | .control _ terminalFailure =>
      let c := c.stopHeartbeat
      let c := if c.socket = some id then { c with socket := none } else c
      let c := c.rejectPending (connectionClosed "Stonemite disconnected before the command completed.")
      if socket.generation ≠ c.generation ∨ c.credentials.isNone ∨ terminalFailure then c
      else c.scheduleReconnect socket.generation
    | .pairing .. =>
      c.endPairing platform id socket (.error (.command ⟨"pairing_closed".toList,
        "Pairing closed before it completed.".toList⟩))

/-- The pairing timer fires; it is cleared when the pairing ends. -/
def pairTimeout (id : Nat) : TrusharClient :=
  (c.finish id (.error (.command ⟨"pairing_timeout".toList,
    "Pairing timed out. Start a new code and try again.".toList⟩))).1

/-- The callback of the reconnect timer. -/
def reconnectFires : TrusharClient :=
  match c.reconnectTimer with
  | none => c
  | some generation => ({ c with reconnectTimer := none }).connect platform generation true

end TrusharClient

/-- One turn. -/
inductive Event
  | configure (credentials : Option ConnectionConfig)
  | reconnect
  | disconnect
  | pair (address code : Str)
  | request (command : Command) (now : Nat)
  | socketOpened (socket : Nat)
  | message (socket : Nat) (frame : Except Str ServerMessage)
  | pong (socket : Nat)
  | unexpectedResponse (socket status : Nat)
  | socketError (socket : Nat)
  | socketClosed (socket : Nat)
  | sendFailed (requestId : Str)
  | commandTimeout (timer : Nat)
  | heartbeat
  | pongTimeout
  | reconnectFires
  | pairTimeout (socket : Nat)
deriving DecidableEq, Repr

namespace TrusharClient

/-- One event of the runtime or the plugin. -/
def step (platform : Platform) (c : TrusharClient) : Event → TrusharClient
  | .configure credentials => c.configure platform credentials
  | .reconnect => c.reconnect platform
  | .disconnect => c.disconnect platform
  | .pair address code => c.pair platform address code
  | .request command now => c.request command now
  | .socketOpened id => c.socketOpened platform id
  | .message id frame => c.message platform id frame
  | .pong id => c.pong id
  | .unexpectedResponse id status => c.unexpectedResponse platform id status
  | .socketError id => c.socketError platform id
  | .socketClosed id => c.socketClosed platform id
  | .sendFailed id => c.sendFailed id
  | .commandTimeout handle => c.commandTimeout handle
  | .heartbeat => c.heartbeat
  | .pongTimeout => c.pongTimeout
  | .reconnectFires => c.reconnectFires platform
  | .pairTimeout id => c.pairTimeout id

/-- The client after the events. -/
def run (platform : Platform) (events : List Event) : TrusharClient := events.foldl (step platform) {}

end TrusharClient
end Stonemite.Streamdeck
