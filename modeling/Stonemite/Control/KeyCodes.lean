import Stonemite.Lib.Parsing

/-!
# Semantic key names and scan codes

The control protocol accepts a key name by rules (`is_supported_key_name`), the controller looks its scan code
up in a table (`semantic_scan_code`). The numbers of the function and keypad keys are parsed by the one and
spelled out by the other, so they agree on the numbers that are written plainly.
-/

namespace Stonemite.KeyCodes

/-- The single-byte names. -/
def isCharacterName (value : Str) : Bool :=
  match value with
  | [c] => ('a' ≤ c && c ≤ 'z') || ('0' ≤ c && c ≤ '9')
  | _ => false

/-- The number of a function key. -/
def functionNumber (value : Str) : Option Nat :=
  ((value.stripPrefix "f".toList).bind (Str.parseUnsigned 8)).filter fun number => 1 ≤ number && number ≤ 12

/-- The digit of a keypad key. -/
def numpadNumber (value : Str) : Option Nat :=
  ((value.stripPrefix "numpad_".toList).bind (Str.parseUnsigned 8)).filter (· ≤ 9)

/-- The names of keys that are no single character. -/
def namedKeys : List Str :=
  ["escape", "minus", "equals", "backspace", "tab", "left_bracket", "right_bracket", "enter", "left_control",
    "semicolon", "apostrophe", "grave", "left_shift", "backslash", "comma", "period", "slash", "right_shift",
    "numpad_multiply", "left_alt", "space", "caps_lock", "num_lock", "scroll_lock", "numpad_subtract", "numpad_add",
    "numpad_decimal", "numpad_divide", "numpad_enter", "right_control", "right_alt", "home", "arrow_up", "page_up",
    "arrow_left", "arrow_right", "end", "arrow_down", "page_down", "insert", "delete", "pause"].map String.toList

def isSupportedKeyName (value : Str) : Bool :=
  isCharacterName value || (functionNumber value).isSome || (numpadNumber value).isSome || namedKeys.contains value

/-- `KeyCode::new`. -/
def KeyCode.new (value : Str) : Except String Str :=
  if isSupportedKeyName value then .ok value else .error "key is not a supported semantic key name"

/-- The table of `semantic_scan_code`; the high bit marks an extended key. -/
def scanCodes : List (Str × UInt8) :=
  [("escape", 0x01), ("1", 0x02), ("2", 0x03), ("3", 0x04), ("4", 0x05), ("5", 0x06), ("6", 0x07), ("7", 0x08),
    ("8", 0x09), ("9", 0x0a), ("0", 0x0b), ("minus", 0x0c), ("equals", 0x0d), ("backspace", 0x0e), ("tab", 0x0f),
    ("q", 0x10), ("w", 0x11), ("e", 0x12), ("r", 0x13), ("t", 0x14), ("y", 0x15), ("u", 0x16), ("i", 0x17),
    ("o", 0x18), ("p", 0x19), ("left_bracket", 0x1a), ("right_bracket", 0x1b), ("enter", 0x1c),
    ("left_control", 0x1d), ("a", 0x1e), ("s", 0x1f), ("d", 0x20), ("f", 0x21), ("g", 0x22), ("h", 0x23),
    ("j", 0x24), ("k", 0x25), ("l", 0x26), ("semicolon", 0x27), ("apostrophe", 0x28), ("grave", 0x29),
    ("left_shift", 0x2a), ("backslash", 0x2b), ("z", 0x2c), ("x", 0x2d), ("c", 0x2e), ("v", 0x2f), ("b", 0x30),
    ("n", 0x31), ("m", 0x32), ("comma", 0x33), ("period", 0x34), ("slash", 0x35), ("right_shift", 0x36),
    ("numpad_multiply", 0x37), ("left_alt", 0x38), ("space", 0x39), ("caps_lock", 0x3a), ("f1", 0x3b), ("f2", 0x3c),
    ("f3", 0x3d), ("f4", 0x3e), ("f5", 0x3f), ("f6", 0x40), ("f7", 0x41), ("f8", 0x42), ("f9", 0x43), ("f10", 0x44),
    ("num_lock", 0x45), ("scroll_lock", 0x46), ("numpad_7", 0x47), ("numpad_8", 0x48), ("numpad_9", 0x49),
    ("numpad_subtract", 0x4a), ("numpad_4", 0x4b), ("numpad_5", 0x4c), ("numpad_6", 0x4d), ("numpad_add", 0x4e),
    ("numpad_1", 0x4f), ("numpad_2", 0x50), ("numpad_3", 0x51), ("numpad_0", 0x52), ("numpad_decimal", 0x53),
    ("f11", 0x57), ("f12", 0x58), ("numpad_enter", 0x9c), ("right_control", 0x9d), ("numpad_divide", 0xb5),
    ("right_alt", 0xb8), ("pause", 0xc5), ("home", 0xc7), ("arrow_up", 0xc8), ("page_up", 0xc9), ("arrow_left", 0xcb),
    ("arrow_right", 0xcd), ("end", 0xcf), ("arrow_down", 0xd0), ("page_down", 0xd1), ("insert", 0xd2),
    ("delete", 0xd3)].map fun entry => (entry.1.toList, entry.2)

/-- The code of a key by its name. -/
def semanticScanCode (key : Str) : Option UInt8 := scanCodes.lookup key

/-! ### The key that a name stands for -/

/-- A key, by its number where it has one. -/
inductive Key
  | function (number : Nat)
  | numpad (number : Nat)
  | named (name : Str)
deriving DecidableEq, Repr

/-- The key of an accepted name, whichever way its number is spelled. -/
def Key.ofName (value : Str) : Key :=
  match functionNumber value with
  | some number => .function number
  | none =>
    match numpadNumber value with
    | some number => .numpad number
    | none => .named value

/-- The plain spelling of a key. -/
def Key.name : Key → Str
  | function number => "f".toList ++ Nat.toDigits 10 number
  | numpad number => "numpad_".toList ++ Nat.toDigits 10 number
  | named name => name

/-- The number of the name, if it has one, is written without a sign and without leading zeros. -/
def Plain (value : Str) : Prop := value = (Key.ofName value).name

instance : DecidablePred Plain := fun value => inferInstanceAs (Decidable (value = _))

/-! ### The names of the table -/

theorem plain_of_mem_scanCodes : ∀ entry ∈ scanCodes, Plain entry.1 := by decide +kernel

theorem lookup_isSome_named : ∀ name ∈ namedKeys, (semanticScanCode name).isSome = true := by decide +kernel

theorem lookup_isSome_function : ∀ number ∈ List.range 12,
    (semanticScanCode (Key.function (number + 1)).name).isSome = true := by decide +kernel

theorem lookup_isSome_numpad : ∀ number ∈ List.range 10, (semanticScanCode (Key.numpad number).name).isSome = true := by
  decide +kernel

theorem lookup_isSome_character : ∀ n ∈ List.range 128, isCharacterName [Char.ofNat n] = true →
    (semanticScanCode [Char.ofNat n]).isSome = true := by decide +kernel

variable {s t : Str}

theorem plain_of_lookup (h : (semanticScanCode s).isSome = true) : Plain s := by
  obtain ⟨code, hcode⟩ := Option.isSome_iff_exists.mp h
  obtain ⟨before, after, htable, -⟩ := List.lookup_eq_some_iff.mp hcode
  exact plain_of_mem_scanCodes (s, code) (htable.symm ▸ List.mem_append_right before List.mem_cons_self)

/-- A supported name is a character, or one of the named keys, or stands for a number within its bounds. -/
theorem lookup_of_plain (hs : isSupportedKeyName s = true) (h : Plain s) : (semanticScanCode s).isSome = true := by
  unfold Plain Key.ofName at h
  cases hfunction : functionNumber s with
  | some number =>
    rw [hfunction] at h
    rw [h]
    obtain ⟨-, hbounds⟩ := Option.filter_eq_some_iff.mp hfunction
    simp only [Bool.and_eq_true, decide_eq_true_eq] at hbounds
    have hnumber := lookup_isSome_function (number - 1) (List.mem_range.mpr (by omega))
    rwa [Nat.sub_add_cancel hbounds.1] at hnumber
  | none =>
    cases hnumpad : numpadNumber s with
    | some number =>
      rw [hfunction, hnumpad] at h
      rw [h]
      obtain ⟨-, hbounds⟩ := Option.filter_eq_some_iff.mp hnumpad
      exact lookup_isSome_numpad number (List.mem_range.mpr (by simpa [Nat.lt_succ_iff] using hbounds))
    | none =>
      rw [isSupportedKeyName, hfunction, hnumpad] at hs
      simp only [Option.isSome_none, Bool.or_false, Bool.or_eq_true, List.contains_iff_mem] at hs
      rcases hs with hs | hs
      · obtain ⟨c, rfl⟩ : ∃ c, s = [c] := by
          unfold isCharacterName at hs
          split at hs
          · exact ⟨_, rfl⟩
          · cases hs
        have hlt : c.toNat < 128 := by
          simp only [isCharacterName, Bool.or_eq_true, Bool.and_eq_true, decide_eq_true_eq, Char.le_def,
            UInt32.le_iff_toNat_le] at hs
          have hz : ('z' : Char).val.toNat = 122 := rfl
          have h9 : ('9' : Char).val.toNat = 57 := rfl
          show c.val.toNat < 128
          omega
        have hchar := lookup_isSome_character c.toNat (List.mem_range.mpr hlt)
        rw [Char.ofNat_toNat] at hchar
        exact hchar hs
      · exact lookup_isSome_named s hs

/-- Both names can be delivered, and as one code when they are of one key. -/
structure Delivered (s t : Str) : Prop where
  first : isSupportedKeyName s = true → (semanticScanCode s).isSome = true
  second : isSupportedKeyName t = true → (semanticScanCode t).isSome = true
  same : isSupportedKeyName s = true → isSupportedKeyName t = true → Key.ofName s = Key.ofName t →
    semanticScanCode s = semanticScanCode t

/-- Names that the protocol accepts are delivered exactly when their numbers are written plainly. -/
theorem delivered_iff (s t : Str) :
    Delivered s t ↔ (isSupportedKeyName s = true → Plain s) ∧ (isSupportedKeyName t = true → Plain t) := by
  constructor
  · intro h
    exact ⟨fun hs => plain_of_lookup (h.first hs), fun ht => plain_of_lookup (h.second ht)⟩
  · rintro ⟨hs, ht⟩
    refine ⟨fun h => lookup_of_plain h (hs h), fun h => lookup_of_plain h (ht h), fun h h' hkey => ?_⟩
    -- plain names of one key are one name
    have hname : s = t := by
      rw [hs h, ht h', hkey]
    rw [hname]

/-- `f01` is accepted as the key `f1`, and has no scan code. -/
theorem padded_function_key_undelivered : ¬ ∀ s t, Delivered s t := by
  intro h
  have hsome := (h "f01".toList "f1".toList).first (by decide +kernel)
  exact absurd hsome (by decide +kernel)

end Stonemite.KeyCodes
