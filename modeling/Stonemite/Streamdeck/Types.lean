import Stonemite.Trushar.State

/-!
# What the plugin knows of the server (`types/trushar.ts`)

The messages of the control server as the Stream Deck plugin keeps them. Values with the same parts on both
sides, the XTarget slots among them, share a type with the server.
-/

namespace Stonemite.Streamdeck

open Trushar (XTargetSlot ConsiderResult BroadcastState MouseClutchPhase Capabilities)

structure XTargetState where
  supported : Bool
  slots : List XTargetSlot
  selectedSlot : Option Nat := none
  considerBound : Bool
  considerPending : Bool
  consider : Option ConsiderResult := none
deriving DecidableEq, Repr

/-- `TrusharClient` of `types/trushar.ts`, which the actions import under this name. -/
structure TrusharClientState where
  id : Str
  character : Option Str
  server : Option Str
  classCode : Option Str
  windowNumber : Nat
  active : Bool
  activatable : Bool
  inputReady : Bool
  xtarget : XTargetState
deriving DecidableEq, Repr

inductive MouseClutchAvailability
  | ready
  | noActiveClient
  | noCompatibleTargets
  | inputUnavailable
  | unsupported
deriving DecidableEq, Repr

structure MouseClutch where
  phase : MouseClutchPhase
  availability : MouseClutchAvailability
deriving DecidableEq, Repr

structure TrusharState where
  revision : Nat
  clients : List TrusharClientState
  activeClientId : Option Str
  broadcast : BroadcastState
  mouseClutch : MouseClutch
  capabilities : Capabilities
deriving DecidableEq, Repr

inductive EqAction
  | useCenterScreen
  | inviteFollow
  | hotbar (bar button : Nat)
  | spellGem (gem : Nat)
  | keymap (mapping : Str)
deriving DecidableEq, Repr

/-- Whether the client was in front already. -/
inductive ActivationStatus
  | activated
  | alreadyActive
deriving DecidableEq, Repr

/-- What kind of input a command sent. -/
inductive InputKind
  | text
  | keys
deriving DecidableEq, Repr

inductive Success
  | state
  | activated (status : ActivationStatus) (foregroundConfirmed : Bool)
  | windowNumbersSwapped (activePreviousNumber selectedPreviousNumber : Nat)
  | broadcastSet (enabled : Bool)
  | mouseClutchHoldUpdated (held : Bool)
  | inputDelivered (input : InputKind) (strokes : Nat)
  | eqActionDelivered (action : EqAction)
  | eqKeymapActionsListed (mappings : List Str) (windowNumbers : List Nat) (nextAfter : Option Str)
  | eqActionBatchDelivered (action : EqAction) (windowNumbers : List Nat)
deriving DecidableEq, Repr

/-- The `type` field of a `Success`. -/
inductive SuccessType
  | state
  | activated
  | windowNumbersSwapped
  | broadcastSet
  | mouseClutchHoldUpdated
  | inputDelivered
  | eqActionDelivered
  | eqKeymapActionsListed
  | eqActionBatchDelivered
deriving DecidableEq, Repr

/-- The `type` of a result on the wire. -/
def SuccessType.name : SuccessType → String
  | state => "state"
  | activated => "activated"
  | windowNumbersSwapped => "window_numbers_swapped"
  | broadcastSet => "broadcast_set"
  | mouseClutchHoldUpdated => "mouse_clutch_hold_updated"
  | inputDelivered => "input_delivered"
  | eqActionDelivered => "eq_action_delivered"
  | eqKeymapActionsListed => "eq_keymap_actions_listed"
  | eqActionBatchDelivered => "eq_action_batch_delivered"

def Success.type : Success → SuccessType
  | .state => .state
  | .activated .. => .activated
  | .windowNumbersSwapped .. => .windowNumbersSwapped
  | .broadcastSet .. => .broadcastSet
  | .mouseClutchHoldUpdated .. => .mouseClutchHoldUpdated
  | .inputDelivered .. => .inputDelivered
  | .eqActionDelivered .. => .eqActionDelivered
  | .eqKeymapActionsListed .. => .eqKeymapActionsListed
  | .eqActionBatchDelivered .. => .eqActionBatchDelivered

structure WireError where
  code : Str
  message : Str
deriving DecidableEq, Repr

inductive ServerMessage
  | state (state : TrusharState)
  | result (requestId : Str) (result : Success) (state : TrusharState)
  | error (requestId : Option Str) (error : WireError)
  | paired (authToken : Str)
deriving DecidableEq, Repr

end Stonemite.Streamdeck
