import Stonemite.Trusik.Protocol
import Stonemite.Lib.Run

/-!
# Auto-type owners, one atomic access at a time

Each operation of an owner is a small program whose steps access one shared word. A run interleaves the
steps of any number of owners; a weak exchange may fail although it finds the value it expects.
-/

namespace Stonemite.Trusik

/-- `compare_exchange_weak`: the new word, or `none` when the exchange fails. -/
def compareExchangeWeak (word current replacement : UInt64) (spurious : Bool) : Option UInt64 :=
  if word = current ∧ spurious = false then some replacement else none

/-- The operations of an owner on the lease. -/
inductive Call where
  | beginAutoType (nowMs : UInt32)
  | setAutoTypeKey (generation : UInt32) (scan : Nat) (value : UInt8)
  | refreshAutoTypeLease (generation nowMs : UInt32)
  | retireAutoType (generation : UInt32)
  deriving DecidableEq, Repr

inductive Outcome where
  | begun (generation : UInt32)
  | accepted (done : Bool)
  | retired
  deriving DecidableEq, Repr

/-- The program point of an owner, with the locals it needs from there on. -/
inductive Owner where
  | idle
  | beginFetch (nowMs : UInt32)
  | beginLoad (generation nowMs : UInt32)
  | beginLoop (generation nowMs : UInt32) (current : UInt64)
  | setLoad (generation : UInt32) (scan : Fin keyCount) (value : UInt8)
  | setCheck (generation : UInt32) (scan : Fin keyCount) (value : UInt8) (current : UInt64)
  | setExchange (generation : UInt32) (scan : Fin keyCount) (value : UInt8) (current : UInt64)
  | setConfirm (generation : UInt32)
  | refreshLoad (generation nowMs : UInt32)
  | refreshLoop (generation nowMs : UInt32) (lease : UInt64)
  | retireLoad (generation : UInt32)
  | retireLoop (generation : UInt32) (lease : UInt64)
  | returned (outcome : Outcome)
  | panicked
  deriving DecidableEq, Repr

namespace Owner

/-- An owner that can take a call. -/
def ready : Owner → Bool
  | idle => true
  | returned _ => true
  | _ => false

/-- The first step of an operation. -/
def call : Call → Owner
  | .beginAutoType nowMs => beginFetch nowMs
  | .setAutoTypeKey generation scan value =>
    if h : scan < keyCount then setLoad generation ⟨scan, h⟩ value else returned (.accepted false)
  | .refreshAutoTypeLease generation nowMs => refreshLoad generation nowMs
  | .retireAutoType generation => retireLoad generation

/-- One atomic access of the owner's program. -/
def step (spurious : Bool) (m : SharedKeyState) : Owner → SharedKeyState × Owner
  | idle => (m, idle)
  | beginFetch nowMs =>
    let generation := m.autoTypeGeneration + 1
    ({ m with autoTypeGeneration := generation },
      -- the assertion that the generations are not exhausted
      if generation = 0 then panicked else beginLoad generation nowMs)
  | beginLoad generation nowMs => (m, beginLoop generation nowMs m.autoTypeLease)
  | beginLoop generation nowMs current =>
    if leaseGeneration current ≥ generation then (m, returned (.begun generation))
    else
      match compareExchangeWeak m.autoTypeLease current (encodeLease generation nowMs) spurious with
      | some lease => ({ m with autoTypeLease := lease }, returned (.begun generation))
      | none => (m, beginLoop generation nowMs m.autoTypeLease)
  | setLoad generation scan value => (m, setCheck generation scan value (m.autoTypeKeys scan))
  | setCheck generation scan value current =>
    if leaseGeneration m.autoTypeLease ≠ generation ∨ autoKeyGeneration current > generation then
      (m, returned (.accepted false))
    else (m, setExchange generation scan value current)
  | setExchange generation scan value current =>
    match compareExchangeWeak (m.autoTypeKeys scan) current (encodeAutoKey generation (value != 0)) spurious with
    | some key => ({ m with autoTypeKeys := Function.update m.autoTypeKeys scan key }, setConfirm generation)
    | none => (m, setCheck generation scan value (m.autoTypeKeys scan))
  | setConfirm generation => (m, returned (.accepted (leaseGeneration m.autoTypeLease == generation)))
  | refreshLoad generation nowMs => (m, refreshLoop generation nowMs m.autoTypeLease)
  | refreshLoop generation nowMs lease =>
    if leaseGeneration lease ≠ generation then (m, returned (.accepted false))
    else
      match compareExchangeWeak m.autoTypeLease lease (encodeLease generation nowMs) spurious with
      | some lease => ({ m with autoTypeLease := lease }, returned (.accepted true))
      | none => (m, refreshLoop generation nowMs m.autoTypeLease)
  | retireLoad generation => (m, retireLoop generation m.autoTypeLease)
  | retireLoop generation lease =>
    if leaseGeneration lease ≠ generation then (m, returned .retired)
    else
      match compareExchangeWeak m.autoTypeLease lease 0 spurious with
      | some lease => ({ m with autoTypeLease := lease }, returned .retired)
      | none => (m, retireLoop generation m.autoTypeLease)
  | returned outcome => (m, returned outcome)
  | panicked => (m, panicked)

/-- The generation an operation in progress was called with. -/
def carries : Owner → Option UInt32
  | setLoad generation .. => some generation
  | setCheck generation .. => some generation
  | setExchange generation .. => some generation
  | setConfirm generation => some generation
  | refreshLoad generation _ => some generation
  | refreshLoop generation .. => some generation
  | retireLoad generation => some generation
  | retireLoop generation _ => some generation
  | _ => none

/-- The generation an owner has allocated and not yet taken the lease with. -/
def allocated : Owner → Option UInt32
  | beginLoad generation _ => some generation
  | beginLoop generation .. => some generation
  | _ => none

end Owner

/-- The shared words and the owners, by name. -/
structure System (ι : Type) where
  memory : SharedKeyState
  owner : ι → Owner

/-- An owner calls an operation, or makes the next step of the one it is in. -/
inductive Act (ι : Type) where
  | call (i : ι) (c : Call)
  | step (i : ι) (spurious : Bool)

namespace System

variable {ι : Type} [DecidableEq ι]

/-- Nothing has been written and no owner has called. -/
def init : System ι := ⟨.unpublished, fun _ => .idle⟩

def next (s : System ι) : Act ι → System ι
  | .call i c => if (s.owner i).ready then { s with owner := Function.update s.owner i (.call c) } else s
  | .step i spurious =>
    let moved := (s.owner i).step spurious s.memory
    ⟨moved.1, Function.update s.owner i moved.2⟩

def run (s : System ι) (acts : List (Act ι)) : System ι := acts.foldl next s

/-- The generation of the lease, `0` when it is retired. -/
def generation (s : System ι) : UInt32 := leaseGeneration s.memory.autoTypeLease

/-- No owner has run into the exhaustion of the generations. -/
def Unexhausted (s : System ι) : Prop := ∀ i, s.owner i ≠ .panicked

/-- The act is the exchange by which an owner takes the lease. -/
def TakesLease (s : System ι) : Act ι → Prop
  | .call .. => False
  | .step i spurious =>
    ∃ generation nowMs current, s.owner i = .beginLoop generation nowMs current ∧
      leaseGeneration current < generation ∧ s.memory.autoTypeLease = current ∧ spurious = false

/-- The act is the exchange by which an owner of the current generation retires the lease. -/
def RetiresLease (s : System ι) : Act ι → Prop
  | .call .. => False
  | .step i spurious =>
    ∃ lease, s.owner i = .retireLoop s.generation lease ∧ s.memory.autoTypeLease = lease ∧ spurious = false

end System

end Stonemite.Trusik
