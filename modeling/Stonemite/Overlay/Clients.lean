import Stonemite.Lib.Lists
import Stonemite.Lib.Text
import Stonemite.Lib.TreeMap

/-!
# The client registry (`overlay/clients.rs`)

The loaded EverQuest windows with their numbers, the active client and the list of picture-in-picture clients.
-/

open Std

namespace Stonemite.Overlay

def maxPips : Nat := 5

/-- `config::BoxIdentity`. -/
structure BoxIdentity where
  server : Str
  character : Str
deriving DecidableEq, Repr

/-- The identity is that of the server and character, whatever their case. -/
def BoxIdentity.matches (identity : BoxIdentity) (server character : Str) : Bool :=
  identity.server.eqIgnoreAsciiCase server && identity.character.eqIgnoreAsciiCase character

/-- A window of the game with the character that plays in it. -/
structure EqWindow where
  hwnd : Nat
  pid : Nat
  number : Nat
  character : Option Str := none
  server : Option Str := none
deriving DecidableEq, Repr

/-- `iter_mut().find(..)` and a change of what it finds. -/
def updFirst (windows : List EqWindow) (p : EqWindow → Bool) (f : EqWindow → EqWindow) : List EqWindow :=
  match windows with
  | [] => []
  | window :: rest => if p window then f window :: rest else window :: updFirst rest p f

/-- The registry: the windows, which of them is active, and the order of the others. -/
structure ClientRegistry where
  windows : List EqWindow := []
  pipOrder : List Nat := []
  preferredOrder : List BoxIdentity := []
  activePid : Option Nat := none
  observedIdentities : ExtTreeMap Nat (Str × Str) := ∅

/-- `ClientPartition`. -/
structure ClientPartition where
  activePid : Option Nat
  pipOrder : List Nat
deriving DecidableEq, Repr

/-! ### Window numbers -/

/-- The loop of `next_available_number`, from `n` on. -/
def nextAvailableFrom (numbers : List Nat) : Nat → Nat → Nat
  | 0, n => n
  | fuel + 1, n => if n ∈ numbers then nextAvailableFrom numbers fuel (n + 1) else n

/-- `next_available_number`; among that many numbers and one more there is a free one. -/
def nextAvailableNumber (windows : List EqWindow) : Nat :=
  nextAvailableFrom (windows.map (·.number)) windows.length 1

/-- The rank of a window in the preferred order. -/
def EqWindow.rank (preferred : List BoxIdentity) (window : EqWindow) : Option Nat :=
  match window.server, window.character with
  | some server, some character => preferred.findIdx? (·.matches server character)
  | _, _ => none

/-- An entry of `ordered` in `apply_preferred_box_order`. -/
structure Ranked where
  pid : Nat
  number : Nat
  rank : Option Nat
deriving DecidableEq, Repr

/-- The comparison of the sort keys: listed windows by rank, the others by number. -/
def Ranked.cmp : Ranked → Ranked → Ordering :=
  compareLex (compareOn fun entry => if entry.rank.isNone then 1 else 0)
    (compareLex (compareOn fun entry => entry.rank.getD entry.number)
      (compareLex (compareOn fun entry => entry.number) (compareOn fun entry => entry.pid)))

/-- The pids in the order of the preferred identities, then of their numbers. -/
def ranked (preferred : List BoxIdentity) (windows : List EqWindow) : List Ranked :=
  sortBy Ranked.cmp (windows.map fun window => ⟨window.pid, window.number, window.rank preferred⟩)

/-- The loop over the sorted entries: the windows that follow, and whether one changed. -/
def renumber : List Ranked → Nat → List EqWindow × Bool → List EqWindow × Bool
  | [], _, result => result
  | entry :: rest, index, (windows, changed) =>
    let desired := index + 1
    let result :=
      match windows.find? (·.pid = entry.pid) with
      | some window =>
        if window.number ≠ desired then
          (updFirst windows (·.pid = entry.pid) ({ · with number := desired }), true)
        else (windows, changed)
      | none => (windows, changed)
    renumber rest (index + 1) result

/-- `apply_preferred_box_order`. -/
def applyPreferredBoxOrder (windows : List EqWindow) (preferred : List BoxIdentity) : List EqWindow × Bool :=
  if preferred = [] ∨ windows = [] then (windows, false)
  else renumber (ranked preferred windows) 0 (windows, false)

/-- `exchange_window_numbers`: the windows that follow and the numbers before. -/
def exchangeWindowNumbers (windows : List EqWindow) (firstPid secondPid : Nat) :
    Option (List EqWindow × Nat × Nat) :=
  match windows.find? (·.pid = firstPid), windows.find? (·.pid = secondPid) with
  | some first, some second =>
    if firstPid = secondPid then some (windows, first.number, second.number)
    else
      let windows := updFirst windows (·.pid = firstPid) ({ · with number := second.number })
      let windows := updFirst windows (·.pid = secondPid) ({ · with number := first.number })
      some (windows, first.number, second.number)
  | _, _ => none

/-! ### The active client and the PiP list -/

/-- `exchange_active_with_pip`, unless it returns false. -/
def exchangeActiveWithPip (activePid : Option Nat) (pipOrder : List Nat) (targetPid : Nat) :
    Option (Option Nat × List Nat) :=
  if activePid = some targetPid then none
  else match pipOrder.idxOf? targetPid with
  | none => none
  | some position =>
    match activePid with
    | some oldActive => some (some targetPid, pipOrder.set position oldActive)
    | none => some (some targetPid, pipOrder.eraseIdx position)

/-- `focused_foreground_pid`; `focused` is what `has_keyboard_focus` returns for the foreground window. -/
def focusedForegroundPid (windows : List EqWindow) (foreground : Nat) (focused : Bool) : Option Nat :=
  (windows.find? fun window => window.hwnd = foreground && focused).map (·.pid)

namespace ClientRegistry
variable (c : ClientRegistry)

/-- The active window and the order of the others, to go back to. -/
def snapshotPartition : ClientPartition := ⟨c.activePid, c.pipOrder⟩

/-- The registry goes back to a partition taken before. -/
def restorePartition (partition : ClientPartition) : ClientRegistry :=
  { c with activePid := partition.activePid, pipOrder := partition.pipOrder }

/-- A window has closed; the first of the others takes its place where it was active. -/
def remove (pid : Nat) : ClientRegistry :=
  let pipOrder := c.pipOrder.filter (· ≠ pid)
  let c := { c with
    windows := c.windows.filter (·.pid ≠ pid)
    observedIdentities := c.observedIdentities.erase pid
    pipOrder }
  if c.activePid = some pid then
    match pipOrder.head? with
    | some promoted => { c with activePid := some promoted, pipOrder := pipOrder.filter (· ≠ promoted) }
    | none => { c with activePid := none }
  else c

/-- A window has opened: it becomes active where it is preferred or nothing is, else the last of the others. -/
def add (window : EqWindow) (preferActive : Bool) : ClientRegistry :=
  let c := { c with windows := c.windows ++ [window] }
  if c.activePid.isNone && preferActive then { c with activePid := some window.pid }
  else { c with pipOrder := c.pipOrder ++ [window.pid] }

/-- The first of the others becomes active where nothing is. -/
def ensureActive : ClientRegistry :=
  match c.activePid, c.pipOrder.head? with
  | none, some first => { c with activePid := some first, pipOrder := c.pipOrder.filter (· ≠ first) }
  | _, _ => c

/-- Only so many of the others stay. -/
def truncatePips (maximum : Nat) : ClientRegistry := { c with pipOrder := c.pipOrder.take maximum }

/-- `swap_pips`, unless it returns false. -/
def swapPips (first second : Nat) : Option ClientRegistry :=
  match c.pipOrder[first]?, c.pipOrder[second]? with
  | some a, some b => some { c with pipOrder := (c.pipOrder.set first b).set second a }
  | _, _ => none

/-- `promote`, and whether it changed the partition. -/
def promote (targetPid maxPips : Nat) : ClientRegistry × Bool :=
  match exchangeActiveWithPip c.activePid c.pipOrder targetPid with
  | some (activePid, pipOrder) => ({ c with activePid, pipOrder }, true)
  | none =>
    if c.activePid = some targetPid || !c.windows.any (·.pid = targetPid) then (c, false)
    else
      let pipOrder :=
        match c.activePid with
        | none => c.pipOrder
        | some previousActive =>
          if c.pipOrder.length < maxPips then c.pipOrder ++ [previousActive]
          else if maxPips > 0 then (c.pipOrder.set (maxPips - 1) previousActive).take maxPips
          else c.pipOrder
      ({ c with activePid := some targetPid, pipOrder }, true)

/-- The sort key of `apply_auto_order`; `usize::MAX` for a client without a window. -/
def autoKey (pid : Nat) : Nat :=
  match c.windows.find? (·.pid = pid) with
  | some window => window.number
  | none => 2 ^ 64 - 1

/-- The others stand in their automatic order. -/
def applyAutoOrder : ClientRegistry :=
  { c with pipOrder := sortBy (compareOn c.autoKey) c.pipOrder }

end ClientRegistry

/-- `reconcile_identity`: the observations and the window that follow, and whether the identity is new. -/
def reconcileIdentity (observed : ExtTreeMap Nat (Str × Str)) (window : EqWindow) (character server : Str) :
    ExtTreeMap Nat (Str × Str) × EqWindow × Bool :=
  let unchanged := (observed[window.pid]?).any fun old =>
    old.1.eqIgnoreAsciiCase character && old.2.eqIgnoreAsciiCase server
  if unchanged then (observed, window, false)
  else (observed.insert window.pid (character, server),
    { window with character := some character, server := some server }, true)

end Stonemite.Overlay
