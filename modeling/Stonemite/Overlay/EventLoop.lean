import Stonemite.Overlay.Clients

/-!
# What changes the client registry

The poll (`overlay/event_loop.rs`), the commands of `overlay/client_controller.rs`, the menu and the drag of a
PiP. Each runs to its end on the owner thread. What Windows, the settings file and the trusik mapping answer is
part of the event.
-/

open Std

namespace Stonemite.Overlay

/-- The order in which a `HashSet` of process ids is visited. -/
structure HashOrder where
  visit : Finset Nat → List Nat
  mem_visit : ∀ s a, a ∈ visit s ↔ a ∈ s
  nodup_visit : ∀ s, (visit s).Nodup

/-- What one poll finds. -/
structure Poll where
  /-- `find_eq_windows`. -/
  windows : List EqWindow
  foreground : Nat
  /-- `target_has_keyboard_focus` of the foreground window. -/
  focused : Bool
  /-- `trusik_shm::read_character`; without trusik there are none. -/
  identities : Nat → Option (Str × Str)
  /-- `auto_order` as the poll reads it, and as the identity poll does. -/
  autoOrder : Bool
  identityAutoOrder : Bool
  order : HashOrder

/-- How the request to bring a window to the front ended. -/
inductive ForegroundRequest
  | confirmed
  | targetDisappeared
  | targetUnresponsive
  | foregroundDenied
  | focusDenied
deriving DecidableEq, Repr

/-- The codes that the commands of the overlay answer with. -/
inductive ErrorCode
  | targetDisappeared
  | activationFailed
  | windowNumberSwapFailed
  | internalError
deriving DecidableEq, Repr

/-- An error as a client sees it. -/
structure ControlError where
  code : ErrorCode
  message : String
deriving DecidableEq, Repr

/-- Whether the window was active already. -/
inductive ActivationStatus
  | activated
  | alreadyActive
deriving DecidableEq, Repr

inductive CommandOutcome
  | activated (status : ActivationStatus) (foregroundConfirmed : Bool)
  | windowNumbersSwapped (activePreviousNumber selectedPreviousNumber : Nat)
deriving DecidableEq, Repr

/-- `activation::request_error`. -/
def requestError : ForegroundRequest → ControlError
  | .targetDisappeared => ⟨.targetDisappeared, "the target EQ window is no longer loaded"⟩
  | .targetUnresponsive => ⟨.activationFailed, "the target EQ window is not responding"⟩
  | .foregroundDenied =>
    ⟨.activationFailed, "Windows did not bring the target EQ window to the foreground"⟩
  | .focusDenied =>
    ⟨.activationFailed, "Windows foregrounded the target EQ window but did not give it keyboard focus"⟩
  | .confirmed => ⟨.activationFailed, "the target EQ window activation failed"⟩

/-- `TelemetryState::poll_characters`. -/
def pollCharacters (identities : Nat → Option (Str × Str)) :
    List EqWindow → ExtTreeMap Nat (Str × Str) → List EqWindow × ExtTreeMap Nat (Str × Str) × Bool
  | [], observed => ([], observed, false)
  | window :: rest, observed =>
    let (observed, window, changed) :=
      match identities window.pid with
      | some (character, server) => reconcileIdentity observed window character server
      | none => (observed, window, false)
    let (rest, observed, changedRest) := pollCharacters identities rest observed
    (window :: rest, observed, changed || changedRest)

namespace ClientRegistry
variable (c : ClientRegistry)

/-- The processes of the registry's windows. -/
def pids : Finset Nat := (c.windows.map (·.pid)).toFinset

/-- `if auto_order` around `apply_auto_order`. -/
def autoOrdered (autoOrder : Bool) : ClientRegistry := if autoOrder then c.applyAutoOrder else c

/-- `promote`, and the auto order after it. -/
def focus (targetPid : Nat) (autoOrder : Bool) : ClientRegistry :=
  let (c, changed) := c.promote targetPid maxPips
  c.autoOrdered (changed && autoOrder)

/-- `if let Some(pid)` around `focus`. -/
def focusOn (focused : Option Nat) (autoOrder : Bool) : ClientRegistry :=
  match focused with
  | some pid => c.focus pid autoOrder
  | none => c

/-- `apply_preferred_box_order` on the windows, and whether one changed. -/
def preferOrder : ClientRegistry × Bool :=
  let (windows, changed) := applyPreferredBoxOrder c.windows c.preferredOrder
  ({ c with windows }, changed)

/-- The loop that takes over the window handles. -/
def updateHandles (found : List EqWindow) : ClientRegistry :=
  found.foldl (fun c window =>
    { c with windows := updFirst c.windows (·.pid = window.pid) ({ · with hwnd := window.hwnd }) }) c

/-- `trusik_poll_characters`. -/
def trusikPollCharacters (identities : Nat → Option (Str × Str)) (autoOrder : Bool) : ClientRegistry :=
  let (windows, observedIdentities, changed) := pollCharacters identities c.windows c.observedIdentities
  let c := { c with windows, observedIdentities }
  if changed then
    let (c, reordered) := c.preferOrder
    c.autoOrdered (reordered && autoOrder)
  else c

/-- One added client in `poll_inner`. -/
def addFound (found : List EqWindow) (focused : Option Nat) (c : ClientRegistry) (pid : Nat) : ClientRegistry :=
  match found.find? (·.pid = pid) with
  | none => c
  | some window =>
    let preferActive := c.activePid.isNone && (focused = some pid || focused.isNone)
    c.add { hwnd := window.hwnd, pid, number := nextAvailableNumber c.windows } preferActive

/-- `poll_inner`. -/
def poll (p : Poll) : ClientRegistry :=
  let found := (p.windows.map (·.pid)).toFinset
  if c.pids = found then
    let c := c.updateHandles p.windows
    let c := c.focusOn (focusedForegroundPid c.windows p.foreground p.focused) p.autoOrder
    c.trusikPollCharacters p.identities p.identityAutoOrder
  else
    let added := p.order.visit (found \ c.pids)
    let removed := p.order.visit (c.pids \ found)
    let c := removed.foldl ClientRegistry.remove c
    let focused := focusedForegroundPid p.windows p.foreground p.focused
    let c := added.foldl (addFound p.windows focused) c
    let c := c.ensureActive
    let c := c.focusOn focused p.autoOrder
    let c := c.truncatePips maxPips
    let c := c.updateHandles p.windows
    let c := c.trusikPollCharacters p.identities p.identityAutoOrder
    c.preferOrder.1.autoOrdered p.autoOrder

/-- `handle_foreground_change`. -/
def handleForegroundChange (foreground : Nat) (focused autoOrder : Bool) : ClientRegistry :=
  c.focusOn (focusedForegroundPid c.windows foreground focused) autoOrder

/-- `swap_to_inner`; the two requests are what Windows answers before and after the exchange. -/
def swapTo (pipIndex : Nat) (request finalRequest : ForegroundRequest) (autoOrder : Bool) :
    ClientRegistry × Except ControlError CommandOutcome :=
  match c.pipOrder[pipIndex]? with
  | none => (c, .error ⟨.targetDisappeared, "the target disappeared before activation"⟩)
  | some newActivePid =>
    if c.activePid.isNone then (c, .error ⟨.activationFailed, "there is no active EQ client to exchange"⟩)
    else if !c.windows.any (·.pid = newActivePid) then
      (c, .error ⟨.targetDisappeared, "the target disappeared before activation"⟩)
    else if request ≠ .confirmed then (c, .error (requestError request))
    else
      let previousPartition := c.snapshotPartition
      match c.promote newActivePid maxPips with
      | (c, false) =>
        (c, .error ⟨.internalError, "the active/PiP partition changed during activation"⟩)
      | (c, true) =>
        if finalRequest ≠ .confirmed then (c.restorePartition previousPartition, .error (requestError finalRequest))
        else (c.autoOrdered autoOrder, .ok (.activated .activated true))

/-- `activate_pid_inner`. -/
def activatePid (targetPid : Nat) (request finalRequest : ForegroundRequest) (autoOrder : Bool) :
    ClientRegistry × Except ControlError CommandOutcome :=
  if !c.windows.any (·.pid = targetPid) then (c, .error ⟨.targetDisappeared, "the target is no longer loaded"⟩)
  else if c.activePid = some targetPid then
    (c, if request ≠ .confirmed then .error (requestError request) else .ok (.activated .alreadyActive true))
  else match c.pipOrder.idxOf? targetPid with
  | none => (c, .error ⟨.activationFailed, "the loaded client is outside the supported activation set"⟩)
  | some pipIndex => c.swapTo pipIndex request finalRequest autoOrder

/-- `swap_active_window_numbers_inner`. -/
def swapActiveWindowNumbers (targetPid : Nat) (autoOrder : Bool) :
    ClientRegistry × Except ControlError CommandOutcome :=
  match c.activePid with
  | none =>
    (c, .error ⟨.windowNumberSwapFailed, "there is no active EQ client whose window number can be swapped"⟩)
  | some activePid =>
    if !c.windows.any (·.pid = targetPid) then
      (c, .error ⟨.targetDisappeared, "the selected EQ window is no longer loaded"⟩)
    else match exchangeWindowNumbers c.windows activePid targetPid with
    | none => (c, .error ⟨.windowNumberSwapFailed, "the active EQ window is no longer loaded"⟩)
    | some (windows, activeNumber, selectedNumber) =>
      (({ c with windows }).autoOrdered (activePid ≠ targetPid && autoOrder),
        .ok (.windowNumbersSwapped activeNumber selectedNumber))

/-- With auto order the numbers of two PiPs are swapped too, so that the sort keeps the arrangement. -/
def exchangePipNumbers (fromPid toPid : Nat) (autoOrder : Bool) : ClientRegistry :=
  match autoOrder, exchangeWindowNumbers c.windows fromPid toPid with
  | true, some (windows, _) => { c with windows }
  | _, _ => c

/-- The drop of a dragged PiP on another one. -/
def reorderPips (fromPid toPid : Nat) (autoOrder : Bool) : ClientRegistry :=
  if fromPid = toPid then c
  else match c.pipOrder.idxOf? fromPid, c.pipOrder.idxOf? toPid with
  | some fromIndex, some toIndex =>
    let c := c.exchangePipNumbers fromPid toPid autoOrder
    (c.swapPips fromIndex toIndex).getD c
  | _, _ => c

/-- `handle_char_assign`. -/
def assignCharacter (targetPid : Nat) (character server : Str) (autoOrder : Bool) : ClientRegistry :=
  if !c.windows.any (·.pid = targetPid) then c
  else
    let windows := updFirst c.windows (·.pid = targetPid)
      ({ · with character := some character, server := some server })
    let (c, reordered) := ({ c with windows } : ClientRegistry).preferOrder
    c.autoOrdered (reordered && autoOrder)

/-- The loop of `handle_number_assign` for a target without a number. -/
def freeNumberFrom (numbers : List Nat) (newNumber : Nat) : Nat → Nat → Nat
  | 0, n => n
  | fuel + 1, n => if n ∈ numbers ∨ n = newNumber then freeNumberFrom numbers newNumber fuel (n + 1) else n

/-- `handle_number_assign` for an entry of the number menu, which counts from 1. -/
def assignNumber (targetPid entry : Nat) : ClientRegistry :=
  let newNumber := entry + 1
  match c.windows.find? (·.pid = targetPid) with
  | none => c
  | some window =>
    let replacement :=
      if window.number > 0 then window.number
      else freeNumberFrom (c.windows.map (·.number)) newNumber (c.windows.length + 1) 1
    let windows := updFirst c.windows (fun w => w.number = newNumber && w.pid ≠ targetPid)
      ({ · with number := replacement })
    { c with windows := updFirst windows (·.pid = targetPid) ({ · with number := newNumber }) }

/-- `force_rebuild` after the settings changed. -/
def forceRebuild (boxOrder : List BoxIdentity) (autoOrder : Bool) : ClientRegistry :=
  ({ c with preferredOrder := boxOrder } : ClientRegistry).preferOrder.1.autoOrdered autoOrder

end ClientRegistry

/-- What happens on the owner thread. -/
inductive Event
  | poll (poll : Poll)
  | foregroundChange (foreground : Nat) (focused autoOrder : Bool)
  | activatePid (targetPid : Nat) (request finalRequest : ForegroundRequest) (autoOrder : Bool)
  | swapActiveWindowNumbers (targetPid : Nat) (autoOrder : Bool)
  | reorderPips (fromPid toPid : Nat) (autoOrder : Bool)
  | assignCharacter (targetPid : Nat) (character server : Str) (autoOrder : Bool)
  | assignNumber (targetPid entry : Nat)
  | forceRebuild (boxOrder : List BoxIdentity) (autoOrder : Bool)

namespace ClientRegistry

/-- The registry after one event of the loop. -/
def step (c : ClientRegistry) : Event → ClientRegistry
  | .poll poll => c.poll poll
  | .foregroundChange foreground focused autoOrder => c.handleForegroundChange foreground focused autoOrder
  | .activatePid targetPid request finalRequest autoOrder =>
    (c.activatePid targetPid request finalRequest autoOrder).1
  | .swapActiveWindowNumbers targetPid autoOrder => (c.swapActiveWindowNumbers targetPid autoOrder).1
  | .reorderPips fromPid toPid autoOrder => c.reorderPips fromPid toPid autoOrder
  | .assignCharacter targetPid character server autoOrder => c.assignCharacter targetPid character server autoOrder
  | .assignNumber targetPid entry => c.assignNumber targetPid entry
  | .forceRebuild boxOrder autoOrder => c.forceRebuild boxOrder autoOrder

/-- The registry of an overlay that starts with the box order of its settings, after the events. -/
def run (boxOrder : List BoxIdentity) (events : List Event) : ClientRegistry :=
  events.foldl step { preferredOrder := boxOrder }

end ClientRegistry
end Stonemite.Overlay
