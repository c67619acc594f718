import Stonemite.Trusik.Protocol

/-!
# The buffered keyboard

What the proxy hands to the game when it asks for buffered keyboard data. The proxy reads the shared key
state while its owners write it, so each read is given by what its loads return.
-/

namespace Stonemite.Trusik

/-! ### Reads of the shared key state -/

def controllerEventCapacity : UInt32 := 1024

/-- The state of every key, with the high bit for a key that is down. -/
abbrev Keys := Fin keyCount → UInt8

def noKeys : Keys := fun _ => 0

/-- The keys of the game with those of the controller put over them. -/
def mergeKeys (output keys : Keys) : Keys := fun scan => output scan ||| (keys scan &&& 0x80)

/-- What the loads of an auto-type owner's words return. -/
structure AutoTypeLoads where
  lease : UInt64
  keys : Fin keyCount → UInt64
  leaseAfter : UInt64

namespace AutoTypeLoads

/-- The generation of the lease that was loaded. -/
def generation (loads : AutoTypeLoads) : UInt32 := leaseGeneration loads.lease

/-- The lease that was loaded is held and fresh. -/
def active (loads : AutoTypeLoads) (nowMs : UInt32) : Bool :=
  loads.generation != 0 && heartbeatIsFresh (leaseHeartbeat loads.lease) nowMs

end AutoTypeLoads

/-- `read_auto_type_keys`. -/
def readAutoTypeKeys (loads : AutoTypeLoads) (nowMs : UInt32) : Keys :=
  if loads.active nowMs && leaseGeneration loads.leaseAfter == loads.generation then
    fun scan => if autoKeyIsPressed (loads.keys scan) loads.generation then 0x80 else 0
  else noKeys

/-- What the loads of `read_effective_keys` return. -/
structure EffectiveLoads where
  controllerActive : Bool
  controllerKeys : Keys
  autoType : AutoTypeLoads
  /-- The controller's keys when they are read once more. -/
  controllerKeysAgain : Keys

/-- `read_effective_keys`. -/
def readEffectiveKeys (loads : EffectiveLoads) (nowMs : UInt32) : Keys :=
  let output := if loads.controllerActive then mergeKeys noKeys loads.controllerKeys else noKeys
  if loads.autoType.active nowMs then
    if leaseGeneration loads.autoType.leaseAfter ≠ loads.autoType.generation then
      -- a newer owner has started
      if loads.controllerActive then mergeKeys noKeys loads.controllerKeysAgain else noKeys
    else fun scan =>
      if autoKeyIsPressed (loads.autoType.keys scan) loads.autoType.generation then output scan ||| 0x80
      else output scan
  else output

/-- The head of the controller's event ring, and the records the loads return. -/
structure RingLoads where
  head : UInt32
  record : UInt32 → UInt64

/-- The record of a place in the ring, if it is still there. -/
def controllerEvent (loads : RingLoads) (next : UInt32) : Option (Fin keyCount × Bool) :=
  let record := loads.record next
  if (record >>> 32).toUInt32 ≠ next then none
  else some (⟨record.toUInt8.toNat, record.toUInt8.toNat_lt⟩, record &&& 256 != 0)

/-- `drain_controller_events`: the cursor, the events and whether some have been overwritten. -/
def drainControllerEvents (loads : RingLoads) (cursor : Option UInt32) :
    Option UInt32 × List (Fin keyCount × Bool) × Bool :=
  match cursor with
  | none => (some loads.head, [], false)
  | some next =>
    let overflowed := loads.head - next > controllerEventCapacity
    let next := if overflowed then loads.head - controllerEventCapacity else next
    let records := (List.range (loads.head - next).toNat).map fun i => controllerEvent loads (next + .ofNat i)
    (some loads.head, records.filterMap id, overflowed || records.any (·.isNone))

/-! ### The buffer -/

/-- A record of buffered keyboard data. -/
structure SyntheticEvent where
  dwOfs : UInt32
  dwData : UInt32
  dwTimeStamp : UInt32
  dwSequence : UInt32
  uAppData : UInt64
deriving DecidableEq, Repr

/-- What has been told of the keys: their last states, the place in the ring, and the records that wait to be delivered.
-/
structure BufferedKeyboardState where
  observedKeys : Keys
  controllerEventCursor : Option UInt32
  pending : List SyntheticEvent
  nextSequence : UInt32

namespace BufferedKeyboardState

/-- A state from which the ring is read from the given place on. -/
def newWithCursor (controllerEventCursor : Option UInt32) : BufferedKeyboardState :=
  ⟨noKeys, controllerEventCursor, [], 0x80000000⟩

/-- A change becomes a record with the next sequence number; the oldest record goes if there are too many. -/
def pushTransition (b : BufferedKeyboardState) (scan : Fin keyCount) (pressed : Bool) (timestamp : UInt32) :
    BufferedKeyboardState :=
  { b with
    pending := b.pending ++ [⟨.ofNat scan, if pressed then 0x80 else 0, timestamp, b.nextSequence, 0⟩]
    nextSequence := b.nextSequence + 1 }

/-- A change of the controller, as it shows beside the keys of auto-type. -/
def observeControllerEvent (autoTypeKeys : Keys) (timestamp : UInt32) (b : BufferedKeyboardState)
    (event : Fin keyCount × Bool) : BufferedKeyboardState :=
  let effectivePressed := event.2 || autoTypeKeys event.1 != 0
  if (b.observedKeys event.1 != 0) = effectivePressed then b
  else
    let b := b.pushTransition event.1 effectivePressed timestamp
    { b with observedKeys := Function.update b.observedKeys event.1 (if effectivePressed then 0x80 else 0) }

/-- The changes of the ring in their order. -/
def observeControllerEvents (b : BufferedKeyboardState) (events : List (Fin keyCount × Bool)) (autoTypeKeys : Keys)
    (timestamp : UInt32) : BufferedKeyboardState :=
  events.foldl (observeControllerEvent autoTypeKeys timestamp) b

/-- A key whose state differs from the one last told. -/
def observeKey (keys : Keys) (timestamp : UInt32) (b : BufferedKeyboardState) (scan : Fin keyCount) :
    BufferedKeyboardState :=
  if b.observedKeys scan = keys scan then b
  else
    let b := b.pushTransition scan (keys scan != 0) timestamp
    { b with observedKeys := Function.update b.observedKeys scan (keys scan) }

/-- All keys are compared with what was last told. -/
def observe (b : BufferedKeyboardState) (keys : Keys) (timestamp : UInt32) : BufferedKeyboardState :=
  (List.finRange keyCount).foldl (observeKey keys timestamp) b

/-- `copy_to`, with the events it copies. -/
def copyTo (b : BufferedKeyboardState) (capacity : Nat) (peek : Bool) : BufferedKeyboardState × List SyntheticEvent :=
  let count := min capacity b.pending.length
  (if peek then b else { b with pending := b.pending.drop count }, b.pending.take count)

end BufferedKeyboardState

/-! ### GetDeviceData -/

/-- The result of a call to DirectInput. -/
abbrev HResult := UInt32

/-- A result with the high bit is a failure. -/
def HResult.isErr (hr : HResult) : Bool := hr ≥ 0x80000000

def dierrInputLost : HResult := 0x8007001E

def dierrNotAcquired : HResult := 0x8007000C

def dierrNotBuffered : HResult := 0x80040207

def eOutOfMemory : HResult := 0x8007000E

/-- The failures of the device that the records of the controller may stand in for. -/
def syntheticDataCanReplace (error : HResult) : Bool :=
  error = dierrInputLost ∨ error = dierrNotAcquired ∨ error = dierrNotBuffered

/-- The number of records that the device has filled in, as far as it can be trusted. -/
def realEventCount (hr : HResult) (reported capacity : UInt32) (countQuery : Bool) : UInt32 :=
  if hr.isErr then 0 else if countQuery then reported else min reported capacity

def dx3ObjectDataSize : UInt32 := 16

/-- The size of an event in a build for 64 bits. -/
def nativeStride : UInt32 := 24

def digddPeek : UInt32 := 1

/-- What the game asks for. -/
structure DataRequest where
  stride : UInt32
  /-- `rgdod` is null: only the count is asked for. -/
  countQuery : Bool
  /-- `*pdwinout`, if there is one. -/
  capacity : Option UInt32
  flags : UInt32

/-- What the real device answers. -/
structure RealData where
  hr : HResult
  reported : UInt32
  events : List SyntheticEvent

/-- What the proxy reads for a call. -/
structure DataLoads where
  /-- The allocation of the translated events succeeds. -/
  reserved : Bool
  suppress : Bool
  timestamp : UInt32
  nowMs : UInt32
  /-- If there is a mapping. -/
  ring : Option RingLoads
  autoType : AutoTypeLoads
  controllerActive : Bool
  keys : EffectiveLoads

/-- A call to `GetDeviceData`: what is asked for, what the device answers, and what the words say. -/
structure DataCall where
  request : DataRequest
  real : RealData
  loads : DataLoads

/-- What the caller of `GetDeviceData` gets. -/
structure DataResult where
  hr : HResult
  count : Option UInt32
  real : List SyntheticEvent
  synthetic : List SyntheticEvent

namespace DataCall

/-- The call leaves the records where they are. -/
def peek (call : DataCall) : Bool := call.request.flags &&& digddPeek != 0

/-- The capacity of a call that gets to the buffer. -/
def buffered? (call : DataCall) : Option UInt32 :=
  match call.request.capacity with
  | none => none
  | some capacity =>
    if call.request.stride ≠ dx3ObjectDataSize ∧ call.request.stride ≠ nativeStride then none
    else if call.request.stride = dx3ObjectDataSize ∧ call.request.countQuery = false ∧ capacity ≠ 0 ∧
        call.loads.reserved = false then none
    else some capacity

/-- The records of the device that the caller sees. -/
def realCount (call : DataCall) (capacity : UInt32) : UInt32 :=
  if call.loads.suppress then 0
  else realEventCount call.real.hr call.real.reported capacity call.request.countQuery

/-- The result of a call that does not get to the buffer. -/
def unbuffered (call : DataCall) : DataResult :=
  match call.request.capacity with
  | none => ⟨call.real.hr, none, call.real.events, []⟩
  | some _ =>
    if call.request.stride ≠ dx3ObjectDataSize ∧ call.request.stride ≠ nativeStride then
      ⟨call.real.hr, some call.real.reported, call.real.events, []⟩
    else ⟨eOutOfMemory, some 0, [], []⟩

end DataCall

namespace BufferedKeyboardState

/-- The cursor and the controller events that are read for a call. -/
def drain (b : BufferedKeyboardState) (loads : DataLoads) : Option UInt32 × List (Fin keyCount × Bool) :=
  match loads.ring with
  | none => (b.controllerEventCursor, [])
  | some ring =>
    let (cursor, events, _) := drainControllerEvents ring b.controllerEventCursor
    (cursor, events)

/-- The events and the levels that are read for a call. -/
def observeShared (b : BufferedKeyboardState) (loads : DataLoads) : BufferedKeyboardState :=
  let (cursor, events) := b.drain loads
  let b := { b with controllerEventCursor := cursor }
  let b :=
    if loads.controllerActive then
      b.observeControllerEvents events (readAutoTypeKeys loads.autoType loads.nowMs) loads.timestamp
    else b
  b.observe (readEffectiveKeys loads.keys loads.nowMs) loads.timestamp

/-- `dev_get_device_data` of a keyboard. -/
def getDeviceData (b : BufferedKeyboardState) (call : DataCall) : BufferedKeyboardState × DataResult :=
  match call.buffered? with
  | none => (b, call.unbuffered)
  | some capacity =>
    let b := b.observeShared call.loads
    let realCount := call.realCount capacity
    if call.request.countQuery then
      let pending := UInt32.ofNat (min b.pending.length (2 ^ 32 - 1))
      let count := UInt32.ofNat (min (realCount.toNat + pending.toNat) (2 ^ 32 - 1))
      (b, {
        hr := if syntheticDataCanReplace call.real.hr && !b.pending.isEmpty then 0 else call.real.hr
        count := some count
        real := []
        synthetic := [] })
    else
      let (b, synthetic) := b.copyTo (capacity.toNat - realCount.toNat) call.peek
      (b, {
        hr := if syntheticDataCanReplace call.real.hr && !synthetic.isEmpty then 0 else call.real.hr
        count := some (realCount + .ofNat synthetic.length)
        real := call.real.events.take realCount.toNat
        synthetic := synthetic })

end BufferedKeyboardState

end Stonemite.Trusik
