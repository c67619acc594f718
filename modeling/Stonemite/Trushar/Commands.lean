import Stonemite.Control.KeyCodes
import Stonemite.Control.Keymap
import Stonemite.Trushar.Mapper

/-!
# Commands

What a client of the control server may ask a game client to be sent, and how it is answered.
-/

namespace Stonemite.Trushar
open Keymaps KeyCodes

/-! ### Answers -/

/-- The codes of the errors on the wire. -/
inductive ErrorCode
  | malformedRequest
  | unsupportedProtocolVersion
  | unauthorized
  | invalidArgument
  | clientNotFound
  | ambiguousTarget
  | targetDisappeared
  | broadcastUnavailable
  | activationFailed
  | windowNumberSwapFailed
  | broadcastOperationFailed
  | mouseClutchUnavailable
  | mouseClutchNotReady
  | mouseClutchHoldExpired
  | mouseClutchOperationFailed
  | inputUnavailable
  | inputOperationFailed
  | eqActionUnbound
  | commandTimeout
  | internalError
deriving DecidableEq, Repr

/-- An error as a client sees it. -/
structure ControlError where
  code : ErrorCode
  message : String
deriving DecidableEq, Repr

/-- The error for an argument out of its range. -/
def invalidArgument (message : String) : ControlError := ⟨.invalidArgument, message⟩

/-! ### Keys and texts -/

def maxTextChars : Nat := 256

def maxTextBytes : Nat := 1024

def maxKeyStrokes : Nat := 64

def maxEqTargetWindows : Nat := 6

def maxKeysPerStroke : Nat := 8

/-- `MAX_INPUT_DURATION_MS`, for all strokes of one command together. -/
def maxInputDurationMs : Nat := 15000

def defaultKeyHoldMs : Nat := 75

def defaultKeyPauseMs : Nat := 75

/-- A name that `KeyCode::new` accepts. -/
abbrev KeyCode := { value : Str // isSupportedKeyName value = true }

/-- A stroke that `KeyStroke::new` accepts. -/
structure KeyStroke where
  keys : List KeyCode
  holdMs : Nat
  pauseMs : Nat
  counted : keys ≠ [] ∧ keys.length ≤ maxKeysPerStroke
  timed : 0 < holdMs ∧ holdMs ≤ 1000 ∧ pauseMs ≤ 1000
  nodup : keys.Nodup

/-- `KeyStroke::new`, which checks the number of keys and that no key is there twice. -/
def KeyStroke.new (keys : List KeyCode) (holdMs pauseMs : Nat) : Except ControlError KeyStroke :=
  if hcounted : keys ≠ [] ∧ keys.length ≤ maxKeysPerStroke then
    if htimed : 0 < holdMs ∧ holdMs ≤ 1000 ∧ pauseMs ≤ 1000 then
      if hnodup : keys.Nodup then .ok ⟨keys, holdMs, pauseMs, hcounted, htimed, hnodup⟩
      else .error (invalidArgument "a key stroke cannot contain duplicate keys")
    else .error (invalidArgument "hold_ms must be 1 to 1000 and pause_ms must be at most 1000")
  else .error (invalidArgument "each key stroke must contain 1 to 8 keys")

/-- `char::is_control`. -/
def isControl (c : Char) : Bool := c.toNat < 0x20 || (0x7F ≤ c.toNat && c.toNat < 0xA0)

/-- A text is not empty, within both bounds, and without control characters. -/
def validateTextInput (text : Str) : Except ControlError Unit :=
  if text.isEmpty || maxTextBytes < text.bytes.length || maxTextChars < text.length || text.any isControl then
    .error (invalidArgument "text must contain 1 to 256 printable characters and at most 1024 bytes")
  else .ok ()

/-- The strokes are not none, not too many, and end within the longest input. -/
def validateKeyStrokes (strokes : List KeyStroke) : Except ControlError Unit :=
  if strokes.isEmpty || maxKeyStrokes < strokes.length then
    .error (invalidArgument "send_keys must contain 1 to 64 key strokes")
  else if maxInputDurationMs < (strokes.map fun stroke => stroke.holdMs + stroke.pauseMs).sum then
    .error (invalidArgument "the key sequence duration must not exceed 15 seconds")
  else .ok ()

/-! ### Actions and their targets -/

/-- The windows that an action goes to. -/
inductive EqActionTargets
  | allLoaded
  | active
  | backgroundLoaded
  | windowNumbers (numbers : List Nat)
deriving DecidableEq, Repr

/-- Window numbers are not none, not too many, not zero and not there twice. -/
def EqActionTargets.validate : EqActionTargets → Except ControlError Unit
  | .windowNumbers numbers =>
    if numbers.isEmpty || maxEqTargetWindows < numbers.length || !decide numbers.Nodup ||
        numbers.any fun number => number < 1 || maxEqTargetWindows < number then
      .error (invalidArgument "EQ action targets require 1 to 6 unique Stonemite window numbers from 1 to 6")
    else .ok ()
  | _ => .ok ()

/-- The actions of EverQuest that a client may ask for. -/
inductive EqAction
  | useCenterScreen
  | inviteFollow
  | hotbar (bar button : UInt8)
  | spellGem (gem : UInt8)
  | keymap (mapping : EqMappingName)
deriving DecidableEq

/-- What a number adds to a mapping name. -/
structure NamePart (text : Str) : Prop where
  chars : text.all isNameChar = true
  upper : text.toAsciiUppercase = text

theorem NamePart.append {s t : Str} (hs : NamePart s) (ht : NamePart t) : NamePart (s ++ t) where
  chars := by rw [List.all_append, hs.chars, ht.chars, Bool.and_self]
  upper := by
    rw [Str.toAsciiUppercase, List.map_append]
    exact congrArg₂ (· ++ ·) hs.upper ht.upper

theorem decimal_byte : ∀ n : Fin 256, (Str.decimal (n.val : Int)).all isNameChar = true ∧
    (Str.decimal (n.val : Int)).toAsciiUppercase = Str.decimal (n.val : Int) ∧
    (Str.decimal (n.val : Int)).bytes.length ≤ 3 := by decide +kernel

theorem namePart_decimal (n : UInt8) : NamePart (Str.decimal (n.toNat : Int)) :=
  ⟨(decimal_byte ⟨n.toNat, n.toNat_lt⟩).1, (decimal_byte ⟨n.toNat, n.toNat_lt⟩).2.1⟩

theorem bytes_decimal (n : UInt8) : (Str.decimal (n.toNat : Int)).bytes.length ≤ 3 :=
  (decimal_byte ⟨n.toNat, n.toNat_lt⟩).2.2

theorem NamePart.valid {text : Str} (h : NamePart text) (hne : text ≠ []) (hbytes : text.bytes.length ≤ 128) :
    isMappingName text = true := by
  unfold isMappingName maxMappingNameBytes
  rw [h.chars, Bool.and_true, decide_eq_true hbytes, Bool.and_true, List.isEmpty_eq_false_iff.mpr hne]
  rfl

theorem length_bytes_append (s t : Str) : (s ++ t).bytes.length = s.bytes.length + t.bytes.length := by
  unfold Str.bytes
  rw [List.flatMap_append, List.length_append]

/-- The name of a hotbar button in the key map of EverQuest. -/
def hotbarName (bar button : UInt8) : EqMappingName :=
  have hpart : NamePart ("HOT".toList ++ Str.decimal (bar.toNat : Int) ++ ("_".toList ++ Str.decimal (button.toNat : Int))) :=
    (NamePart.append ⟨by decide, by decide⟩ (namePart_decimal bar)).append
      (.append ⟨by decide, by decide⟩ (namePart_decimal button))
  ⟨_, hpart.valid (by simp) (by
    have hbar := bytes_decimal bar
    have hbutton := bytes_decimal button
    have hhot : (Str.bytes "HOT".toList).length = 3 := by decide
    have hline : (Str.bytes "_".toList).length = 1 := by decide
    rw [length_bytes_append, length_bytes_append, length_bytes_append, hhot, hline]
    omega), hpart.upper⟩

/-- The name of a spell gem in the key map of EverQuest. -/
def spellGemName (gem : UInt8) : EqMappingName :=
  have hpart : NamePart ("CAST".toList ++ Str.decimal (gem.toNat : Int)) :=
    NamePart.append ⟨by decide, by decide⟩ (namePart_decimal gem)
  ⟨_, hpart.valid (by simp) (by
    have hgem := bytes_decimal gem
    have hcast : (Str.bytes "CAST".toList).length = 4 := by decide
    rw [length_bytes_append, hcast]
    omega), hpart.upper⟩

namespace EqAction

/-- The name under which the client binds the action. -/
def mappingName : EqAction → EqMappingName
  | useCenterScreen => ⟨"USE".toList, rfl, rfl⟩
  | inviteFollow => ⟨"INVITE_FOLLOW".toList, rfl, rfl⟩
  | hotbar bar button => hotbarName bar button
  | spellGem gem => spellGemName gem
  | keymap mapping => mapping

/-- The numbers of a bar, a button or a gem are within the client's. -/
def validate : EqAction → Except ControlError Unit
  | hotbar bar button =>
    if 1 ≤ bar.toNat && bar.toNat ≤ maxHotbars && 1 ≤ button.toNat && button.toNat ≤ maxHotbarButtons then .ok ()
    else
      .error (invalidArgument
        s!"hotbar actions require bar 1 to {maxHotbars} and button 1 to {maxHotbarButtons}")
  | spellGem gem =>
    if 1 ≤ gem.toNat && gem.toNat ≤ maxSpellGems then .ok ()
    else .error (invalidArgument s!"spell gem actions require gem 1 to {maxSpellGems}")
  | _ => .ok ()

end EqAction

/-- What kind of input a command sent. -/
inductive InputKind
  | text
  | keys
deriving DecidableEq, Repr

/-- The outcomes of the commands that send input. -/
inductive CommandOutcome
  | inputDelivered (kind : InputKind) (strokes : Nat)
  | eqActionDelivered (action : EqAction)
  | eqActionBatchDelivered (action : EqAction) (windowNumbers : List Nat)
deriving DecidableEq

end Stonemite.Trushar
