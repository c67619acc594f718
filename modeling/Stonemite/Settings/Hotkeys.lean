import Stonemite.Lib.Parsing
import Stonemite.Overlay.Clients

/-!
# Hotkeys (`config.rs`)

The chords of the configured hotkeys, and the checks that no two of them collide. `str::to_uppercase` is a parameter.
-/

namespace Stonemite.Settings

open Overlay (BoxIdentity)

/-- `config::BoxCycle`. -/
structure BoxCycle where
  name : Str
  nextHotkey : Str
  previousHotkey : Str
  members : List BoxIdentity
deriving DecidableEq, Repr

/-- The virtual-key codes of the key names. -/
def vkNames : List (String × Nat) :=
  [("F1", 0x70), ("F2", 0x71), ("F3", 0x72), ("F4", 0x73), ("F5", 0x74), ("F6", 0x75), ("F7", 0x76), ("F8", 0x77),
    ("F9", 0x78), ("F10", 0x79), ("F11", 0x7A), ("F12", 0x7B), ("F13", 0x7C), ("F14", 0x7D), ("F15", 0x7E),
    ("F16", 0x7F), ("F17", 0x80), ("F18", 0x81), ("F19", 0x82), ("F20", 0x83), ("F21", 0x84), ("F22", 0x85),
    ("F23", 0x86), ("F24", 0x87), ("INSERT", 0x2D), ("DELETE", 0x2E), ("HOME", 0x24), ("END", 0x23), ("PAGEUP", 0x21),
    ("PAGE_UP", 0x21), ("PAGEDOWN", 0x22), ("PAGE_DOWN", 0x22), ("PAUSE", 0x13), ("SCROLLLOCK", 0x91),
    ("SCROLL_LOCK", 0x91), ("A", 0x41), ("B", 0x42), ("C", 0x43), ("D", 0x44), ("E", 0x45), ("F", 0x46), ("G", 0x47),
    ("H", 0x48), ("I", 0x49), ("J", 0x4A), ("K", 0x4B), ("L", 0x4C), ("M", 0x4D), ("N", 0x4E), ("O", 0x4F), ("P", 0x50),
    ("Q", 0x51), ("R", 0x52), ("S", 0x53), ("T", 0x54), ("U", 0x55), ("V", 0x56), ("W", 0x57), ("X", 0x58), ("Y", 0x59),
    ("Z", 0x5A), ("0", 0x30), ("1", 0x31), ("2", 0x32), ("3", 0x33), ("4", 0x34), ("5", 0x35), ("6", 0x36), ("7", 0x37),
    ("8", 0x38), ("9", 0x39), ("SPACE", 0x20), ("TAB", 0x09), ("MINUS", 0xBD), ("PLUS", 0xBB), ("EQUALS", 0xBB),
    ("BACKTICK", 0xC0), ("OPENBRACKET", 0xDB), ("CLOSEBRACKET", 0xDD), ("BACKSLASH", 0xDC), ("SEMICOLON", 0xBA),
    ("QUOTE", 0xDE), ("COMMA", 0xBC), ("PERIOD", 0xBE), ("SLASH", 0xBF)]

section
variable (toUppercase : Str → Str)

def parseVkName (name : Str) : Option Nat :=
  (vkNames.find? fun entry => entry.1.toList = toUppercase name.trim).map (·.2)

/-- Takes one part of a combo: a modifier, or the key. -/
def comboPart (state : Nat × Option Str) (part : Str) : Nat × Option Str :=
  let (mods, keyPart) := state
  let name := toUppercase part.trim
  if name = "CTRL".toList ∨ name = "CONTROL".toList then (mods ||| 2, keyPart)
  else if name = "ALT".toList then (mods ||| 1, keyPart)
  else if name = "SHIFT".toList then (mods ||| 4, keyPart)
  else (mods, some part.trim)

/-- The modifiers and the key code. -/
def parseHotkeyCombo (combo : Str) : Option (Nat × Nat) :=
  let (mods, keyPart) := (Str.split '+' combo).foldl (comboPart toUppercase) (0, none)
  (parseVkName toUppercase (keyPart.getD [])).map fun vk => (mods, vk)

/-- The hotkeys with their labels. -/
def configuredGlobalHotkeys (hideHotkey broadcastHotkey : Str) (swapHotkeys : List Str) (boxCycles : List BoxCycle) :
    List (Str × Str) :=
  ("Hide overlay".toList, hideHotkey) :: ("Broadcast toggle".toList, broadcastHotkey) ::
    (swapHotkeys.zipIdx.map (fun (hotkey, index) => ("Window ".toList ++ Nat.toDigits 10 (index + 1), hotkey)) ++
      boxCycles.flatMap fun cycle =>
        [(cycle.name ++ " next".toList, cycle.nextHotkey), (cycle.name ++ " previous".toList, cycle.previousHotkey)])

/-- Checks the bindings one after another; `seen` are the chords so far. -/
def validateBindings (seen : List ((Nat × Nat) × Str × Str)) : List (Str × Str) → Except Str Unit
  | [] => .ok ()
  | (label, binding) :: bindings =>
    let binding := binding.trim
    if binding.isEmpty then validateBindings seen bindings
    else match parseHotkeyCombo toUppercase binding with
      | none => .error (label ++ " hotkey '".toList ++ binding ++ "' is not supported".toList)
      | some chord =>
        match seen.lookup chord with
        | some (existingLabel, existingBinding) =>
          .error (label ++ " hotkey (".toList ++ binding ++ ") conflicts with ".toList ++ existingLabel ++
            " (".toList ++ existingBinding ++ ")".toList)
        | none => validateBindings ((chord, label, binding) :: seen) bindings

/-- Every binding is a hotkey, and none is there twice. -/
def validateGlobalHotkeyBindings (hideHotkey broadcastHotkey : Str) (swapHotkeys : List Str)
    (boxCycles : List BoxCycle) : Except Str Unit :=
  validateBindings toUppercase [] (configuredGlobalHotkeys hideHotkey broadcastHotkey swapHotkeys boxCycles)

/-- The Mouse Clutch has one key without modifiers, which no hotkey uses. -/
def validateMouseClutchBinding (binding hideHotkey broadcastHotkey : Str) (swapHotkeys : List Str)
    (boxCycles : List BoxCycle) : Except Str (Option Nat) :=
  let binding := binding.trim
  if binding.isEmpty then .ok none
  else if '+' ∈ binding then .error "Mouse Clutch uses one key without modifiers".toList
  else match parseVkName toUppercase binding with
    | none => .error ("Mouse Clutch key '".toList ++ binding ++ "' is not supported".toList)
    | some vk =>
      match (configuredGlobalHotkeys hideHotkey broadcastHotkey swapHotkeys boxCycles).find? fun (_, hotkey) =>
          (parseHotkeyCombo toUppercase hotkey).any fun chord => chord.2 = vk with
      | some (label, hotkey) =>
        .error ("Mouse Clutch conflicts with ".toList ++ label ++ " (".toList ++ hotkey ++ ")".toList)
      | none => .ok (some vk)

/-! ### Chords -/

/-- The bindings that are set. -/
def setBindings (bindings : List (Str × Str)) : List Str :=
  (bindings.map (·.2.trim)).filter fun binding => !binding.isEmpty

theorem validateBindings_ok {bindings : List (Str × Str)} {seen : List ((Nat × Nat) × Str × Str)}
    (h : validateBindings toUppercase seen bindings = .ok ()) :
    ∃ chords : List (Nat × Nat), (setBindings bindings).map (parseHotkeyCombo toUppercase) = chords.map some ∧
      chords.Nodup ∧ ∀ chord ∈ chords, seen.lookup chord = none := by
  induction bindings generalizing seen with
  | nil => exact ⟨[], rfl, List.nodup_nil, fun _ h => nomatch h⟩
  | cons entry bindings ih =>
    obtain ⟨label, binding⟩ := entry
    rw [validateBindings] at h
    have hset : setBindings ((label, binding) :: bindings) =
        if binding.trim.isEmpty then setBindings bindings else binding.trim :: setBindings bindings := by
      unfold setBindings
      rw [List.map_cons, List.filter_cons]
      cases hempty : binding.trim.isEmpty <;> rfl
    rw [hset]
    split_ifs at h ⊢ with hempty
    · exact ih h
    · cases hparse : parseHotkeyCombo toUppercase binding.trim with
      | none =>
        rw [hparse] at h
        cases h
      | some chord =>
        rw [hparse] at h
        dsimp only at h
        cases hseen : seen.lookup chord with
        | some existing =>
          rw [hseen] at h
          cases h
        | none =>
          rw [hseen] at h
          obtain ⟨chords, hchords, hnodup, hfree⟩ := ih h
          have hother : ∀ other ∈ chords, other ≠ chord ∧ seen.lookup other = none := by
            intro other hmem
            have hlookup := hfree other hmem
            rw [List.lookup_cons] at hlookup
            split at hlookup
            · cases hlookup
            · rename_i hne
              exact ⟨by simpa using hne, hlookup⟩
          refine ⟨chord :: chords, by rw [List.map_cons, hparse, hchords]; rfl, ?_, ?_⟩
          · exact List.nodup_cons.mpr ⟨fun hmem => (hother chord hmem).1 rfl, hnodup⟩
          · exact List.forall_mem_cons.mpr ⟨hseen, fun other hmem => (hother other hmem).2⟩

/-- Bindings that pass are chords, and no two of them are the same. -/
theorem chords_nodup {hideHotkey broadcastHotkey : Str} {swapHotkeys : List Str} {boxCycles : List BoxCycle}
    (h : validateGlobalHotkeyBindings toUppercase hideHotkey broadcastHotkey swapHotkeys boxCycles = .ok ()) :
    ∃ chords : List (Nat × Nat), chords.Nodup ∧
      (setBindings (configuredGlobalHotkeys hideHotkey broadcastHotkey swapHotkeys boxCycles)).map
        (parseHotkeyCombo toUppercase) = chords.map some := by
  obtain ⟨chords, hchords, hnodup, -⟩ := validateBindings_ok toUppercase h
  exact ⟨chords, hnodup, hchords⟩

end

end Stonemite.Settings
