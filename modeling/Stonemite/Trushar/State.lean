import Stonemite.Lib.Text

/-!
# The published state

What the control server tells its clients: the loaded game clients, the broadcast and Mouse Clutch states
and what can be done.
-/

namespace Stonemite.Trushar

/-- The opaque id of a client, as clients of the protocol see it. -/
abbrev ClientId := Str

/-- A slot of the extended target window. -/
structure XTargetSlot where
  slot : Nat
  label : Str
  bound : Bool
deriving DecidableEq, Repr

/-- The difficulty that `/consider` tells by its text. -/
inductive ConsiderDifficulty
  | green
  | lightBlue
  | blue
  | white
  | yellow
  | red
  | unknown
deriving DecidableEq, Repr

/-- What the last consider found. -/
inductive ConsiderResult
  | target (target : Str) (difficulty : ConsiderDifficulty) (level : Option Nat)
  | noTarget
deriving DecidableEq, Repr

/-- The extended targets of a client. -/
structure XTargetState where
  slots : List XTargetSlot := []
  selectedSlot : Option Nat := none
  considerBound : Bool := false
  considerPending : Bool := false
  consider : Option ConsiderResult := none
deriving DecidableEq, Repr

structure ClientState where
  id : ClientId
  character : Option Str
  server : Option Str
  classCode : Option Str
  windowNumber : Nat
  active : Bool
  activatable : Bool
  inputReady : Bool
  xtarget : XTargetState
deriving DecidableEq, Repr

/-- Whether broadcasting is there, and on. -/
structure BroadcastState where
  available : Bool
  enabled : Bool
deriving DecidableEq, Repr

def BroadcastState.unavailable : BroadcastState := ⟨false, false⟩

/-- The phases of the Mouse Clutch. -/
inductive MouseClutchPhase
  | inactive
  | active
  | releasing
deriving DecidableEq, Repr

/-- Whether the Mouse Clutch can be held, and why not. -/
inductive MouseClutchAvailability
  | ready
  | noActiveClient
  | noCompatibleTargets
  | inputUnavailable
deriving DecidableEq, Repr

/-- The Mouse Clutch as clients of the protocol see it. -/
structure MouseClutchState where
  phase : MouseClutchPhase
  availability : MouseClutchAvailability
deriving DecidableEq, Repr

/-- The Mouse Clutch without a tray. -/
def MouseClutchState.unavailable : MouseClutchState := ⟨.inactive, .inputUnavailable⟩

def maxHotbars : Nat := 11

def maxHotbarButtons : Nat := 12

def maxSpellGems : Nat := 14

/-- The actions of EverQuest that may be asked for. -/
structure EqActionCapabilities where
  useCenterScreen : Bool
  inviteFollow : Bool
  hotbars : Nat
  hotbarButtons : Nat
  spellGems : Nat
  keymapActions : Bool
deriving DecidableEq, Repr

def EqActionCapabilities.available (available : Bool) : EqActionCapabilities where
  useCenterScreen := available
  inviteFollow := available
  hotbars := if available then maxHotbars else 0
  hotbarButtons := if available then maxHotbarButtons else 0
  spellGems := if available then maxSpellGems else 0
  keymapActions := true

/-- The requests that the server takes. -/
structure Capabilities where
  activate : Bool
  swapWindowNumbers : Bool
  setBroadcast : Bool
  setMouseClutch : Bool
  sendText : Bool
  sendKeys : Bool
  eqActions : EqActionCapabilities
deriving DecidableEq, Repr

structure StateData where
  clients : List ClientState
  broadcast : BroadcastState
  mouseClutch : MouseClutchState
  capabilities : Capabilities
deriving DecidableEq, Repr

/-- A published state under its revision. -/
structure StateSnapshot where
  revision : Nat
  data : StateData
deriving DecidableEq, Repr

end Stonemite.Trushar
