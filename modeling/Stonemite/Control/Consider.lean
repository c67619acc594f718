import Stonemite.Control.Strokes
import Stonemite.Control.XTarget
import Stonemite.Trushar.Hub

/-!
# Extended targets and considers

The controller remembers which extended target a client has selected, and what its last Consider action told. The answer is
in the log of the client: it is taken only while the action waits for it, and shown for a while.
-/

namespace Stonemite.Control
open Std Trushar Keymaps XTargets

/-- How long a requested consider is waited for. -/
def considerRequestTtl : Nat := millis 3000

/-- How long the result of a consider is shown. -/
def considerResultTtl : Nat := millis 5000

/-- The result of a consider with the time it is shown until. -/
structure TimedConsider where
  result : ConsiderResult
  expiresAt : Nat

/-- The part of the state that is about extended targets, by process. -/
structure Transient where
  selectedXtargets : ExtTreeMap UInt32 Nat
  pendingConsiders : ExtTreeMap UInt32 Nat
  considerResults : ExtTreeMap UInt32 TimedConsider

def pidOf (source : SourceClient) : UInt32 := .ofNat source.privateKey

/-- The slot that a mapping of the game selects, if it is one of the extended targets. -/
def xtargetSlotFromMapping (mapping : EqMappingName) : Option Nat :=
  ((mapping.text.stripPrefix "TARGET_XTARGET_".toList).bind (Str.parseUnsigned 8)).filter fun slot =>
    1 ≤ slot && slot ≤ maxXTargetSlots

/-- The mapping of an extended target; every slot has a name that is accepted. -/
def xtargetMapping (slot : Nat) : Option EqMappingName := EqMappingName.new ("TARGET_XTARGET_".toList ++ Str.decimal slot)

def considerMapping : EqMappingName := ⟨"CONSIDER".toList, by decide, by decide⟩

namespace Transient

/-- Nothing is selected, waited for or shown. -/
def empty : Transient := ⟨∅, ∅, ∅⟩

/-- What has expired is forgotten. -/
def prune (t : Transient) (now : Nat) : Transient :=
  { t with
    pendingConsiders := t.pendingConsiders.filter fun _ expiresAt => now < expiresAt
    considerResults := t.considerResults.filter fun _ timed => now < timed.expiresAt }

/-- The target changes, so what was found out of the old one goes. -/
def noteXtargetRotation (t : Transient) (pid : UInt32) : Transient :=
  { t with pendingConsiders := t.pendingConsiders.erase pid, considerResults := t.considerResults.erase pid }

/-- A consider is asked for, and its result is waited for. -/
def noteConsiderStarted (t : Transient) (pid : UInt32) (now : Nat) : Transient :=
  { t with
    pendingConsiders := t.pendingConsiders.insert pid (now + considerRequestTtl)
    considerResults := t.considerResults.erase pid }

def noteXtargetDelivered (t : Transient) (pid : UInt32) (slot : Nat) : Transient :=
  { t with selectedXtargets := t.selectedXtargets.insert pid slot }

/-- `record_consider` of a process, once its result is accepted. -/
def recordConsider (t : Transient) (pid : UInt32) (result : ConsiderResult) (observedAt : Nat) : Transient :=
  { t with
    pendingConsiders := t.pendingConsiders.erase pid
    considerResults := t.considerResults.insert pid ⟨result, observedAt + considerResultTtl⟩ }

/-- Processes that are gone are forgotten. -/
def retainLive (t : Transient) (sources : List SourceClient) : Transient :=
  let live (pid : UInt32) := (sources.map pidOf).contains pid
  { selectedXtargets := t.selectedXtargets.filter fun pid _ => live pid
    pendingConsiders := t.pendingConsiders.filter fun pid _ => live pid
    considerResults := t.considerResults.filter fun pid _ => live pid }

/-- A selection that is no slot of the client is replaced by the first one. -/
def reselect (t : Transient) (pid : UInt32) (slots : List Trushar.XTargetSlot) : Transient :=
  match slots with
  | [] => { t with selectedXtargets := t.selectedXtargets.erase pid }
  | first :: _ =>
    if t.selectedXtargets[pid]?.any fun selected => slots.any (·.slot = selected) then t
    else { t with selectedXtargets := t.selectedXtargets.insert pid first.slot }

end Transient

/-! ### Snapshots -/

/-- An update of the first client with an id. -/
def updateClient (id : ClientId) (f : ClientState → ClientState) : List ClientState → List ClientState
  | [] => []
  | client :: rest => if client.id = id then f client :: rest else client :: updateClient id f rest

/-- What is selected, waited for and shown becomes part of the client. -/
def showTransient (t : Transient) (pid : UInt32) (client : ClientState) : ClientState :=
  { client with
    xtarget.selectedSlot := t.selectedXtargets[pid]?
    xtarget.considerPending := t.pendingConsiders.contains pid
    xtarget.consider := t.considerResults[pid]?.map (·.result) }

/-- The loop of `apply_transient_xtarget_state`. -/
def applyTransient (t : Transient) (mapper : SnapshotMapper) (sources : List SourceClient) (clients : List ClientState) :
    List ClientState :=
  sources.foldl (fun clients source =>
    match mapper.ids[source.privateKey]? with
    | none => clients
    | some id => updateClient id (showTransient t (pidOf source)) clients) clients

/-- What the files of a client say: its mapped actions and its extended targets, none where they cannot be read. -/
structure ClientFiles where
  mapped : MappingNames
  slots : List XTargets.XTargetSlot

/-- The slots of a client, each with whether a key selects it. -/
def boundSlots (files : ClientFiles) : List Trushar.XTargetSlot :=
  files.slots.map fun slot =>
    ⟨slot.slot, slot.label, (xtargetMapping slot.slot).any fun mapping => files.mapped.contains mapping⟩

/-- The loop body of `enrich_xtarget_state`. -/
def enrichSource (mapper : SnapshotMapper) (files : SourceClient → ClientFiles)
    (s : Transient × List ClientState) (source : SourceClient) : Transient × List ClientState :=
  match mapper.ids[source.privateKey]? with
  | none => s
  | some id =>
    let slots := boundSlots (files source)
    let considerBound := (files source).mapped.contains considerMapping
    (s.1.reselect (pidOf source) slots,
      updateClient id (fun client => { client with xtarget.slots := slots, xtarget.considerBound := considerBound }) s.2)

/-- `enrich_xtarget_state` up to its call of `apply_transient_xtarget_state`. -/
def enrich (t : Transient) (mapper : SnapshotMapper) (files : SourceClient → ClientFiles) (sources : List SourceClient)
    (clients : List ClientState) : Transient × List ClientState :=
  sources.foldl (enrichSource mapper files) (t.retainLive sources, clients)

end Stonemite.Control
