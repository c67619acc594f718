import Stonemite.Lib.Text

/-!
# JSON values

JSON values over a type of numbers. An object lists its fields in order; a field is the first one of its name.
-/

namespace Stonemite

/-- JSON values over a type of numbers. Objects keep the order of their members. -/
inductive Json (N : Type)
  | null
  | bool (b : Bool)
  | number (n : N)
  | string (s : Str)
  | array (values : List (Json N))
  | object (fields : List (Str × Json N))

namespace Json
variable {N : Type}

def asBool : Json N → Option Bool
  | bool b => some b
  | _ => none

def asNumber : Json N → Option N
  | number n => some n
  | _ => none

def asStr : Json N → Option Str
  | string s => some s
  | _ => none

def asArray : Json N → Option (List (Json N))
  | array values => some values
  | _ => none

def asObject : Json N → Option (List (Str × Json N))
  | object fields => some fields
  | _ => none

/-- A field of an object. -/
def lookup (fields : List (Str × Json N)) (key : Str) : Option (Json N) :=
  (fields.find? fun field => field.1 = key).map (·.2)

theorem lookup_cons (name key : Str) (value : Json N) (fields : List (Str × Json N)) :
    lookup ((name, value) :: fields) key = if name = key then some value else lookup fields key := by
  unfold lookup
  by_cases h : name = key
  · rw [List.find?_cons_of_pos (by simpa using h), if_pos h]
    rfl
  · rw [List.find?_cons_of_neg (by simpa using h), if_neg h]

/-- A text, or null. -/
def ofOption : Option Str → Json N
  | some s => string s
  | none => null

@[simp] theorem asStr_ofOption (s : Option Str) : (ofOption s : Json N).asStr = s := by
  cases s <;> rfl

end Json

end Stonemite
