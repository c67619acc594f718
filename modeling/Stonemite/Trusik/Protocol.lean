import Mathlib

/-!
# The auto-type words of the shared key state

The lease word packs a generation and a heartbeat, each key word a generation and a pressed bit. A key
is effective when the lease is fresh and the key was written under the generation of the lease.
-/

namespace Stonemite.Trusik

def heartbeatTimeoutMs : UInt32 := 500

abbrev keyCount : Nat := 256

/-- A lease is its generation over its heartbeat, which is never zero. -/
def encodeLease (generation heartbeatMs : UInt32) : UInt64 :=
  (generation.toUInt64 <<< 32) ||| (max heartbeatMs 1).toUInt64

def leaseGeneration (lease : UInt64) : UInt32 := (lease >>> 32).toUInt32

def leaseHeartbeat (lease : UInt64) : UInt32 := lease.toUInt32

/-- A key word is its generation over the bit for a key that is down. -/
def encodeAutoKey (generation : UInt32) (pressed : Bool) : UInt64 :=
  (generation.toUInt64 <<< 1) ||| pressed.toUInt64

/-- The generation of a key word. -/
def autoKeyGeneration (key : UInt64) : UInt32 := (key >>> 1).toUInt32

/-- The key is down in a word of this generation. -/
def autoKeyIsPressed (key : UInt64) (generation : UInt32) : Bool :=
  autoKeyGeneration key == generation && key &&& 1 != 0

/-- The heartbeat is within the time-out, on a clock that comes round. -/
def heartbeatIsFresh (heartbeatMs nowMs : UInt32) : Bool :=
  heartbeatMs != 0 && decide (nowMs - heartbeatMs ≤ heartbeatTimeoutMs)

/-- The words of `SharedKeyState` that auto-type owners share. -/
structure SharedKeyState where
  autoTypeGeneration : UInt32
  autoTypeLease : UInt64
  autoTypeKeys : Fin keyCount → UInt64

namespace SharedKeyState

/-- The words before any owner has begun. -/
def unpublished : SharedKeyState := ⟨0, 0, fun _ => 0⟩

/-- The generation of the lease, if the lease is fresh. -/
def activeAutoTypeGeneration (m : SharedKeyState) (nowMs : UInt32) : Option UInt32 :=
  let generation := leaseGeneration m.autoTypeLease
  if generation != 0 && heartbeatIsFresh (leaseHeartbeat m.autoTypeLease) nowMs then some generation else none

/-- The auto-type half of `key_is_pressed`. -/
def autoTypeKeyIsPressed (m : SharedKeyState) (scan : Fin keyCount) (nowMs : UInt32) : Bool :=
  let generation := leaseGeneration m.autoTypeLease
  generation != 0 && heartbeatIsFresh (leaseHeartbeat m.autoTypeLease) nowMs &&
    autoKeyIsPressed (m.autoTypeKeys scan) generation

end SharedKeyState

theorem toNat_or_shiftLeft {a b : UInt64} {k : UInt64} (hk : k < 64) (hb : b.toNat < 2 ^ k.toNat)
    (ha : a.toNat * 2 ^ k.toNat < 2 ^ 64) : ((a <<< k) ||| b).toNat = a.toNat * 2 ^ k.toNat + b.toNat := by
  have hk' : k.toNat < 64 := hk
  have shifted : a.toNat <<< (k.toNat % 64) % 2 ^ 64 = a.toNat <<< k.toNat := by
    rw [Nat.mod_eq_of_lt hk', Nat.shiftLeft_eq, Nat.mod_eq_of_lt ha]
  rw [UInt64.toNat_or, UInt64.toNat_shiftLeft, shifted, ← Nat.shiftLeft_add_eq_or_of_lt hb, Nat.shiftLeft_eq]

@[simp] theorem leaseGeneration_encodeLease (g h : UInt32) : leaseGeneration (encodeLease g h) = g := by
  have hg := g.toNat_lt
  have hh := (max h 1).toNat_lt
  have word := toNat_or_shiftLeft (a := g.toUInt64) (b := (max h 1).toUInt64) (k := 32) (by decide)
    (by simpa using hh) (by simp; omega)
  apply UInt32.toNat_inj.mp
  unfold leaseGeneration encodeLease
  simp only [UInt64.toNat_toUInt32, UInt64.toNat_shiftRight, word, Nat.shiftRight_eq_div_pow]
  simp
  omega

@[simp] theorem leaseHeartbeat_encodeLease (g h : UInt32) : leaseHeartbeat (encodeLease g h) = max h 1 := by
  have hg := g.toNat_lt
  have hh := (max h 1).toNat_lt
  have word := toNat_or_shiftLeft (a := g.toUInt64) (b := (max h 1).toUInt64) (k := 32) (by decide)
    (by simpa using hh) (by simp; omega)
  apply UInt32.toNat_inj.mp
  unfold leaseHeartbeat encodeLease
  simp only [UInt64.toNat_toUInt32, word]
  simp

@[simp] theorem autoKeyGeneration_encodeAutoKey (g : UInt32) (b : Bool) :
    autoKeyGeneration (encodeAutoKey g b) = g := by
  have hg := g.toNat_lt
  have hb : b.toUInt64.toNat < 2 ^ (1 : UInt64).toNat := by cases b <;> decide
  have word := toNat_or_shiftLeft (a := g.toUInt64) (b := b.toUInt64) (k := 1) (by decide) hb (by simp; omega)
  apply UInt32.toNat_inj.mp
  unfold autoKeyGeneration encodeAutoKey
  simp only [UInt64.toNat_toUInt32, UInt64.toNat_shiftRight, word, Nat.shiftRight_eq_div_pow]
  simp at hb ⊢
  omega

@[simp] theorem leaseGeneration_zero : leaseGeneration 0 = 0 := by decide

@[simp] theorem autoKeyGeneration_zero : autoKeyGeneration 0 = 0 := by decide

theorem autoKeyIsPressed_of_ne {key : UInt64} {generation : UInt32} (h : autoKeyGeneration key ≠ generation) :
    autoKeyIsPressed key generation = false := by
  simp [autoKeyIsPressed, h]

namespace SharedKeyState

theorem not_pressed_of_retired {m : SharedKeyState} (h : leaseGeneration m.autoTypeLease = 0)
    (scan : Fin keyCount) (now : UInt32) : m.autoTypeKeyIsPressed scan now = false := by
  simp [autoTypeKeyIsPressed, h]

end SharedKeyState

end Stonemite.Trusik
