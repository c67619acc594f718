import Stonemite.Settings.Config

/-!
# Values in `config.toml`

How the values of the configuration are read from TOML and written to it. What is written is read back.
-/

namespace Stonemite.Settings

open Overlay (BoxIdentity)

/-- A value of a document; an `f64` is taken as an `f32` is. -/
inductive TomlValue
  | string (s : Str)
  | integer (i : Int)
  | float (x : F32)
  | boolean (b : Bool)
  | datetime (text : Str)
  | array (items : List TomlValue)
  | table (entries : List (String × TomlValue))

/-- A table with its entries in order. -/
abbrev TomlTable := List (String × TomlValue)

/-- What is visited as a map; a date is one of a private key. -/
def TomlValue.entries : TomlValue → Option TomlTable
  | table entries => some entries
  | datetime text => some [("$__toml_private_datetime", .string text)]
  | _ => none

/-! ### Codecs -/

/-- How a type is read and written; a number that the type or TOML does not have is not written. -/
structure ValueCodec (α : Type) where
  decode : TomlValue → Option α
  encode : α → Option TomlValue
  decode_encode : ∀ x v, encode x = some v → decode v = some x

/-- How a field of a document is read and written; `some none` leaves it out. -/
structure FieldCodec (α : Type) where
  decode : TomlValue → Option α
  encode : α → Option (Option TomlValue)
  omitted : Option α
  decode_encode : ∀ x v, encode x = some (some v) → decode v = some x
  encode_omitted : ∀ x, encode x = some none → omitted = some x

namespace ValueCodec

def text : ValueCodec Str where
  decode
    | .string s => some s
    | _ => none
  encode s := some (.string s)
  decode_encode := by rintro x _ ⟨⟩; rfl

def flag : ValueCodec Bool where
  decode
    | .boolean b => some b
    | _ => none
  encode b := some (.boolean b)
  decode_encode := by rintro x _ ⟨⟩; rfl

/-- An unsigned integer of so many bits. -/
def unsigned (bits : Nat) : ValueCodec Nat where
  decode
    | .integer i => if 0 ≤ i ∧ i < 2 ^ bits then some i.toNat else none
    | _ => none
  encode n := if n < 2 ^ bits then some (.integer n) else none
  decode_encode := by
    intro n v h
    split at h
    · rename_i hlt
      obtain rfl := Option.some.inj h
      have hcast : (n : Int) < 2 ^ bits := by exact_mod_cast hlt
      exact if_pos ⟨Int.natCast_nonneg n, hcast⟩
    · cases h

/-- An `i32`. -/
def signed : ValueCodec Int where
  decode
    | .integer i => if -2 ^ 31 ≤ i ∧ i < 2 ^ 31 then some i else none
    | _ => none
  encode i := if -2 ^ 31 ≤ i ∧ i < 2 ^ 31 then some (.integer i) else none
  decode_encode := by
    intro i v h
    split at h
    · rename_i hrange
      obtain rfl := Option.some.inj h
      exact if_pos hrange
    · cases h

/-- A float, or an integer in its place. -/
def float : ValueCodec F32 where
  decode
    | .float x => some x
    | .integer i => some (.finite i)
    | _ => none
  encode x := some (.float x)
  decode_encode := by rintro x _ ⟨⟩; rfl

/-- `[f32; 2]`. -/
def point : ValueCodec (F32 × F32) where
  decode
    | .array [x, y] => (float.decode x).bind fun x => (float.decode y).map fun y => (x, y)
    | _ => none
  encode p := some (.array [.float p.1, .float p.2])
  decode_encode := by rintro x _ ⟨⟩; rfl

theorem mapM_decode_encode {α : Type} (c : ValueCodec α) {xs : List α} {vs : List TomlValue}
    (h : xs.mapM c.encode = some vs) : vs.mapM c.decode = some xs := by
  induction xs generalizing vs with
  | nil =>
    obtain rfl := Option.some.inj h
    rfl
  | cons x xs ih =>
    rw [List.mapM_cons] at h
    obtain ⟨v, hv, h⟩ := Option.bind_eq_some_iff.mp h
    obtain ⟨vs', hvs, h⟩ := Option.bind_eq_some_iff.mp h
    obtain rfl := Option.some.inj h
    rw [List.mapM_cons, c.decode_encode x v hv, ih hvs]
    rfl

def list {α : Type} (c : ValueCodec α) : ValueCodec (List α) where
  decode
    | .array items => items.mapM c.decode
    | _ => none
  encode xs := (xs.mapM c.encode).map .array
  decode_encode := by
    intro xs v h
    obtain ⟨vs, hvs, rfl⟩ := Option.map_eq_some_iff.mp h
    exact mapM_decode_encode c hvs

/-- A field of a struct. -/
def required {α : Type} (c : ValueCodec α) (key : String) (entries : TomlTable) : Option α :=
  (entries.lookup key).bind c.decode

/-- A field of a struct with a default. -/
def defaulted {α : Type} (c : ValueCodec α) (key : String) (value : α) (entries : TomlTable) : Option α :=
  match entries.lookup key with
  | none => some value
  | some v => c.decode v

def pipEdge : ValueCodec PipEdge where
  decode
    | .string s => match String.ofList s with
      | "right" => some .right
      | "left" => some .left
      | "top" => some .top
      | "bottom" => some .bottom
      | _ => none
    | _ => none
  encode
    | .right => some (.string "right".toList)
    | .left => some (.string "left".toList)
    | .top => some (.string "top".toList)
    | .bottom => some (.string "bottom".toList)
  decode_encode := by rintro (_ | _ | _ | _) _ ⟨⟩ <;> simp

/-- Any value is a weight. -/
def readWeight : TomlValue → LabelFontWeight
  | .string s =>
    if s.eqIgnoreAsciiCase "regular".toList then .regular
    else if s.eqIgnoreAsciiCase "semibold".toList then .semibold
    else if s.eqIgnoreAsciiCase "heavy".toList then .heavy
    else .bold
  | .integer i => if i = 400 then .regular else if i = 600 then .semibold else if i = 900 then .heavy else .bold
  | _ => .bold

/-- A weight by its name, or by what `read_weight` takes for one. -/
def labelFontWeight : ValueCodec LabelFontWeight where
  decode v := some (readWeight v)
  encode
    | .regular => some (.string "regular".toList)
    | .semibold => some (.string "semibold".toList)
    | .bold => some (.string "bold".toList)
    | .heavy => some (.string "heavy".toList)
  decode_encode := by rintro (_ | _ | _ | _) _ ⟨⟩ <;> rfl

/-- `slot` is a `usize`, of which TOML has those of 63 bits. -/
def pipPosition : ValueCodec PipPosition where
  decode v := do
    let entries ← v.entries
    let slot ← required (unsigned 63) "slot" entries
    let x ← required signed "x" entries
    let y ← required signed "y" entries
    let width ← required (unsigned 32) "width" entries
    let height ← required (unsigned 32) "height" entries
    return ⟨slot, x, y, width, height⟩
  encode p := do
    let slot ← (unsigned 63).encode p.slot
    let x ← signed.encode p.x
    let y ← signed.encode p.y
    let width ← (unsigned 32).encode p.width
    let height ← (unsigned 32).encode p.height
    return .table [("slot", slot), ("x", x), ("y", y), ("width", width), ("height", height)]
  decode_encode := by
    intro p v h
    obtain ⟨slot, hslot, h⟩ := Option.bind_eq_some_iff.mp h
    obtain ⟨x, hx, h⟩ := Option.bind_eq_some_iff.mp h
    obtain ⟨y, hy, h⟩ := Option.bind_eq_some_iff.mp h
    obtain ⟨width, hwidth, h⟩ := Option.bind_eq_some_iff.mp h
    obtain ⟨height, hheight, h⟩ := Option.bind_eq_some_iff.mp h
    obtain rfl := Option.some.inj h
    simp [TomlValue.entries, required, List.lookup, decode_encode _ _ _ hslot, decode_encode _ _ _ hx,
      decode_encode _ _ _ hy, decode_encode _ _ _ hwidth, decode_encode _ _ _ hheight]

def dpsOverlayPlacement : ValueCodec DpsOverlayPlacement where
  decode v := do
    let entries ← v.entries
    let xDip ← required signed "x_dip" entries
    let yDip ← required signed "y_dip" entries
    let widthDip ← required (unsigned 32) "width_dip" entries
    return ⟨xDip, yDip, widthDip⟩
  encode p := do
    let xDip ← signed.encode p.xDip
    let yDip ← signed.encode p.yDip
    let widthDip ← (unsigned 32).encode p.widthDip
    return .table [("x_dip", xDip), ("y_dip", yDip), ("width_dip", widthDip)]
  decode_encode := by
    intro p v h
    obtain ⟨x, hx, h⟩ := Option.bind_eq_some_iff.mp h
    obtain ⟨y, hy, h⟩ := Option.bind_eq_some_iff.mp h
    obtain ⟨width, hwidth, h⟩ := Option.bind_eq_some_iff.mp h
    obtain rfl := Option.some.inj h
    simp [TomlValue.entries, required, List.lookup, decode_encode _ _ _ hx, decode_encode _ _ _ hy,
      decode_encode _ _ _ hwidth]

def account : ValueCodec Account where
  decode v := do
    let entries ← v.entries
    let username ← required text "username" entries
    let password ← required text "password" entries
    return ⟨username, password⟩
  encode a := some (.table [("username", .string a.username), ("password", .string a.password)])
  decode_encode := by
    rintro a _ ⟨⟩
    simp [TomlValue.entries, required, List.lookup, text]

def boxIdentity : ValueCodec BoxIdentity where
  decode v := do
    let entries ← v.entries
    let server ← required text "server" entries
    let character ← required text "character" entries
    return ⟨server, character⟩
  encode b := some (.table [("server", .string b.server), ("character", .string b.character)])
  decode_encode := by
    rintro b _ ⟨⟩
    simp [TomlValue.entries, required, List.lookup, text]

def boxCycle : ValueCodec BoxCycle where
  decode v := do
    let entries ← v.entries
    let name ← required text "name" entries
    let nextHotkey ← defaulted text "next_hotkey" [] entries
    let previousHotkey ← defaulted text "previous_hotkey" [] entries
    let members ← defaulted (list boxIdentity) "members" [] entries
    return ⟨name, nextHotkey, previousHotkey, members⟩
  encode c := do
    let members ← (list boxIdentity).encode c.members
    return .table [("name", .string c.name), ("next_hotkey", .string c.nextHotkey),
      ("previous_hotkey", .string c.previousHotkey), ("members", members)]
  decode_encode := by
    intro c v h
    obtain ⟨members, hmembers, h⟩ := Option.bind_eq_some_iff.mp h
    obtain rfl := Option.some.inj h
    simp only [TomlValue.entries, required, text, defaulted, Option.pure_def, Option.bind_eq_bind, Option.bind_some,
      List.lookup, String.reduceBEq, decode_encode _ _ _ hmembers]

/-- The settings of the control API. -/
def trusharConfig : ValueCodec TrusharConfig where
  decode v := do
    let entries ← v.entries
    let enabled ← defaulted flag "enabled" true entries
    let bind ← defaulted text "bind" "127.0.0.1:19720".toList entries
    let authToken ← match entries.lookup "auth_token" with
      | none => some none
      | some v => (text.decode v).map some
    return ⟨enabled, bind, authToken⟩
  encode t := some (.table ([("enabled", .boolean t.enabled), ("bind", .string t.bind)] ++
    (t.authToken.map fun token => ("auth_token", .string token)).toList))
  decode_encode := by
    rintro ⟨enabled, bind, authToken⟩ _ ⟨⟩
    cases authToken <;> simp [TomlValue.entries, defaulted, List.lookup, text, flag]

end ValueCodec

namespace FieldCodec

variable {α : Type}

/-- A field that is always written. -/
def value (c : ValueCodec α) : FieldCodec α where
  decode := c.decode
  encode x := (c.encode x).map some
  omitted := none
  decode_encode := by
    intro x v h
    obtain ⟨v', hv, hvalue⟩ := Option.map_eq_some_iff.mp h
    obtain rfl := Option.some.inj hvalue
    exact c.decode_encode x v' hv
  encode_omitted := by
    intro x h
    obtain ⟨v, -, hvalue⟩ := Option.map_eq_some_iff.mp h
    cases hvalue

/-- A missing value is left out; `decode` reads what is there. -/
def optionalWith (c : ValueCodec α) (decode : TomlValue → Option (Option α))
    (h : ∀ x v, c.encode x = some v → decode v = some (some x)) : FieldCodec (Option α) where
  decode := decode
  encode
    | none => some none
    | some x => (c.encode x).map some
  omitted := some none
  decode_encode := by
    intro x v hx
    cases x with
    | none => cases hx
    | some x =>
      obtain ⟨v', hv, hvalue⟩ := Option.map_eq_some_iff.mp hx
      obtain rfl := Option.some.inj hvalue
      exact h x v' hv
  encode_omitted := by
    intro x hx
    cases x with
    | none => rfl
    | some x =>
      obtain ⟨v, -, hvalue⟩ := Option.map_eq_some_iff.mp hx
      cases hvalue

/-- A field that is left out where it has no value. -/
def optional (c : ValueCodec α) : FieldCodec (Option α) :=
  optionalWith c (fun v => (c.decode v).map some) fun x v h => by rw [c.decode_encode x v h]; rfl

/-- `deserialize_optional_string`. -/
def readOptionalString : TomlValue → Option Str
  | .string s => some s
  | _ => none

/-- `deserialize_optional_u32`. -/
def readOptionalU32 : TomlValue → Option Nat
  | .integer i => if 0 ≤ i ∧ i < 2 ^ 32 then some i.toNat else none
  | .string s => Str.parseUnsigned 32 s
  | _ => none

/-- An optional string, of which other values are no error. -/
def optionalString : FieldCodec (Option Str) :=
  optionalWith .text (fun v => some (readOptionalString v)) (by rintro x _ ⟨⟩; rfl)

/-- An optional number, of which other values are no error. -/
def optionalU32 : FieldCodec (Option Nat) :=
  optionalWith (.unsigned 32) (fun v => some (readOptionalU32 v)) (by
    intro n v h
    have hdecode := (ValueCodec.unsigned 32).decode_encode n v h
    cases v with
    | integer i => exact congrArg some hdecode
    | _ => cases hdecode)

end FieldCodec

end Stonemite.Settings
