import Stonemite.Lib.Checked
import Stonemite.Lib.TreeMap
import Stonemite.Trusik.Controller
import Stonemite.Trusik.Heartbeat

/-!
# The controller's words and the Mouse Clutch

The words of the shared key state that the broadcast engine writes, and the clutch that lets the physical mouse
reach the background clients while a local key or a remote hold owns it.
-/

namespace Stonemite.Broadcast
open Trusik

def keyboardBroadcast : UInt32 := 1
def keyboardTargeted : UInt32 := 2

/-- The controller's part of `SharedKeyState`. -/
structure ControllerWords where
  suppress : UInt32
  keyboardActive : UInt32
  mouseActive : UInt32
  heartbeat : ControllerHeartbeat
  keys : ControllerKeys

namespace ControllerWords

/-- The words before the controller has written any. -/
def unpublished : ControllerWords := ⟨0, 0, 0, ⟨0⟩, .unpublished⟩

/-- `retire_controller`: the ring of events stays as it is. -/
def retireController (m : ControllerWords) : ControllerWords :=
  { m with
    suppress := 0
    keyboardActive := 0
    mouseActive := 0
    heartbeat := ⟨0⟩
    keys := { m.keys with sequence := 2, keys := noKeys } }

end ControllerWords

/-! ### The clutch -/

def mouseLeft : UInt8 := 1
def mouseRight : UInt8 := 2
def mouseMiddle : UInt8 := 4
def mouseX1 : UInt8 := 8
def mouseX2 : UInt8 := 16

/-- How long a released clutch still drives its targets, so that the button is seen to go up. -/
def mouseDrainMs : Nat := 90

/-- How long a remote hold lasts without being renewed. -/
def remoteMouseClutchLeaseMs : Nat := 2000

/-- A clutch is held, waits for the mouse buttons to be up, or drains. -/
inductive ClutchPhase
  | inactive
  | active
  | releasing
  | draining
deriving DecidableEq, Repr

/-- The phase as it is shown: a draining clutch is releasing. -/
inductive MouseClutchStatus
  | inactive
  | active
  | releasing
deriving DecidableEq, Repr

/-- What becomes of a key event that the clutch has seen. -/
inductive ClutchKeyEffect
  | pass
  | swallow
  | activate
deriving DecidableEq, Repr

/-- The state machine of the clutch. -/
structure MouseClutch where
  phase : ClutchPhase
  buttons : UInt8
  swallowedVk : Option UInt32
  localOwnerActive : Bool
  sourcePid : Option UInt32
  drainDeadlineMs : Nat
deriving DecidableEq, Repr

namespace MouseClutch
variable (c : MouseClutch)

/-- A clutch that is not held, with the buttons that are down. -/
def new (buttons : UInt8) : MouseClutch := ⟨.inactive, buttons, none, false, none, 0⟩

def status : MouseClutchStatus :=
  match c.phase with
  | .inactive => .inactive
  | .active => .active
  | .releasing | .draining => .releasing

/-- The clutch is held for the source if it has targets; whether it is held now. -/
def activate (sourcePid : UInt32) (hasTargets : Bool) : Bool × MouseClutch :=
  if c.phase = .active then (c.sourcePid == some sourcePid, c)
  else if c.buttons ≠ 0 ∨ ¬ hasTargets then (false, c)
  else (true, { c with phase := .active, sourcePid := some sourcePid, drainDeadlineMs := 0 })

/-- The key of the clutch goes down. -/
def onKeyDown (vk sourcePid : UInt32) (hasTargets : Bool) : ClutchKeyEffect × MouseClutch :=
  if c.swallowedVk = some vk then (.swallow, c)
  else
    match { c with swallowedVk := some vk }.activate sourcePid hasTargets with
    | (false, c) => (.swallow, c)
    | (true, c) => (.activate, { c with localOwnerActive := true })

/-- The drain begins and has its deadline. -/
def beginDrain (nowMs : Nat) : MouseClutch :=
  { c with phase := .draining, drainDeadlineMs := saturatingAdd 64 nowMs mouseDrainMs }

/-- A clutch without an owner drains, or waits for the buttons to be up. -/
def releaseIfUnowned (nowMs : Nat) (remoteOwnerActive : Bool) : MouseClutch :=
  if c.localOwnerActive ∨ remoteOwnerActive ∨ c.phase ≠ .active then c
  else if c.buttons = 0 then c.beginDrain nowMs
  else { c with phase := .releasing }

/-- The key of the clutch goes up. -/
def onKeyUp (vk : UInt32) (nowMs : Nat) (remoteOwnerActive : Bool) : ClutchKeyEffect × MouseClutch :=
  if c.swallowedVk ≠ some vk then (.pass, c)
  else (.swallow, { c with swallowedVk := none, localOwnerActive := false }.releaseIfUnowned nowMs remoteOwnerActive)

/-- A mouse button changes; the last one up lets a waiting clutch drain. -/
def setButton (button : UInt8) (pressed : Bool) (nowMs : Nat) : MouseClutch :=
  let c := { c with buttons := if pressed then c.buttons ||| button else c.buttons &&& ~~~button }
  if c.phase = .releasing ∧ c.buttons = 0 then c.beginDrain nowMs else c

/-- The clutch drains at once, whatever buttons are down. -/
def cancelBounded (nowMs : Nat) : MouseClutch :=
  let c := { c with localOwnerActive := false }
  match c.phase with
  | .active | .releasing => c.beginDrain nowMs
  | .inactive | .draining => c

def forceInactive : MouseClutch :=
  { c with phase := .inactive, localOwnerActive := false, sourcePid := none, drainDeadlineMs := 0 }

/-- The drain is over once its deadline has passed. -/
def finishDrainIfDue (nowMs : Nat) : Bool × MouseClutch :=
  if c.phase = .draining ∧ c.drainDeadlineMs ≤ nowMs then (true, c.forceInactive) else (false, c)

end MouseClutch

/-! ### Remote holds -/

/-- A hold is named by its session and its own id. -/
structure MouseClutchOwner where
  sessionId : UInt64
  holdId : String
deriving DecidableEq, Repr

instance : Ord MouseClutchOwner := ⟨compareLex (compareOn (·.sessionId)) (compareOn (·.holdId))⟩

instance : Std.TransOrd MouseClutchOwner :=
  inferInstanceAs (Std.TransCmp (compareLex (compareOn MouseClutchOwner.sessionId) (compareOn (·.holdId))))

/-- A hold of a control session, with the source it was taken for and its deadline. -/
structure RemoteMouseHold where
  sourcePid : UInt32
  deadlineMs : Nat
deriving DecidableEq, Repr

/-- The operations on a remote hold. -/
inductive MouseClutchOperation
  | begin
  | renew
  | ended
deriving DecidableEq, Repr

/-- Whether the clutch could be held, and why not. -/
inductive MouseClutchAvailability
  | ready
  | noActiveClient
  | noCompatibleTargets
  | inputUnavailable
deriving DecidableEq, Repr

/-- Why an operation on a hold has failed. -/
inductive MouseClutchControlError
  | unavailable (message : String)
  | notReady (message : String)
  | holdExpired (message : String)
  | operationFailed (message : String)
deriving DecidableEq, Repr

end Stonemite.Broadcast
