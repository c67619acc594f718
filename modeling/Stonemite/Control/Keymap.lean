import Stonemite.Lib.Parsing

/-!
# EverQuest key mappings

The `[KeyMaps]` of the loaded profiles, the binding a mapping name resolves to, and the names that are listed as mapped.
The files are read elsewhere; a profile that is missing or has no such section is `none`.
-/

open Std

namespace Stonemite

namespace Keymaps

/-! ### Mapping names -/

def maxMappingNameBytes : Nat := 128

/-- The characters of a mapping's name. -/
def isNameChar (c : Char) : Bool := Str.isAsciiAlphabetic c || Str.isAsciiDigit c || c = '_'

/-- A name that a mapping may have. -/
def isMappingName (name : Str) : Bool :=
  !name.isEmpty && decide (name.bytes.length ≤ maxMappingNameBytes) && name.all isNameChar

/-- A name in upper case that the control protocol accepts. -/
structure EqMappingName where
  text : Str
  valid : isMappingName text = true
  upper : text.toAsciiUppercase = text

/-- Names in the order of their texts. -/
def EqMappingName.compare (a b : EqMappingName) : Ordering := Ord.compare a.text b.text

theorem EqMappingName.ext_text {a b : EqMappingName} (h : a.text = b.text) : a = b := by
  cases a
  cases b
  cases h
  rfl

instance : DecidableEq EqMappingName := fun a b =>
  decidable_of_iff (a.text = b.text) ⟨EqMappingName.ext_text, fun h => h ▸ rfl⟩

instance : Std.TransCmp EqMappingName.compare where
  eq_swap {a b} := @Std.OrientedCmp.eq_swap Str Ord.compare _ a.text b.text
  isLE_trans {a b c} := @Std.TransCmp.isLE_trans Str Ord.compare _ a.text b.text c.text

instance : Std.LawfulEqCmp EqMappingName.compare where
  compare_self {a} := @Std.ReflCmp.compare_self Str Ord.compare _ a.text
  eq_of_compare h := EqMappingName.ext_text (Std.LawfulEqCmp.eq_of_compare h)

abbrev MappingNames := ExtTreeSet EqMappingName EqMappingName.compare

theorem toUpper_toUpper (c : Char) : c.toUpper.toUpper = c.toUpper :=
  Char.toUpper_eq_of_not_isLower (by simp)

theorem toAsciiUppercase_idem (s : Str) : s.toAsciiUppercase.toAsciiUppercase = s.toAsciiUppercase := by
  rw [Str.toAsciiUppercase, Str.toAsciiUppercase, List.map_map]
  exact List.map_congr_left fun c _ => toUpper_toUpper c

/-- A name in capitals, if it is one. -/
def EqMappingName.new (value : Str) : Option EqMappingName :=
  if h : isMappingName value.toAsciiUppercase = true then
    some ⟨value.toAsciiUppercase, h, toAsciiUppercase_idem value⟩
  else none

/-! ### Profiles -/

/-- The entries of the section, whose keys are in upper case. -/
structure KeymapFile where
  values : ExtTreeMap Str Str
  upper : ∀ key ∈ values, key.toAsciiUppercase = key

namespace KeymapFile

def empty : KeymapFile := ⟨∅, fun _ h => absurd h ExtTreeMap.not_mem_empty⟩

def insert (file : KeymapFile) (key value : Str) : KeymapFile :=
  ⟨file.values.insert key.toAsciiUppercase value, fun k hk => by
    rcases ExtTreeMap.mem_insert.mp hk with h | h
    · rw [← Std.LawfulEqCmp.eq_of_compare h]
      exact toAsciiUppercase_idem key
    · exact file.upper k h⟩

/-- `HashMap::extend`. -/
def extend (file profile : KeymapFile) : KeymapFile :=
  ⟨file.values ∪ profile.values, fun k hk => by
    rcases ExtTreeMap.mem_union_iff.mp hk with h | h
    · exact file.upper k h
    · exact profile.upper k h⟩

end KeymapFile

/-- The keys of a mapping, modifiers first. -/
structure ResolvedBinding where
  scans : List Nat
deriving DecidableEq, Repr

inductive ResolveError
  | unbound
  | malformed (message : Str)
deriving DecidableEq, Repr

/-- The entries so far, and whether the section is open and has been found. -/
structure ParseState where
  inKeymaps : Bool
  found : Bool
  file : KeymapFile

/-- A line begins a section or gives a key its value. -/
def parseLine (state : ParseState) (rawLine : Str) : ParseState :=
  let line : Str := rawLine.trim.dropWhile (· = '\ufeff')
  if line.head? = some '[' && line.getLast? = some ']' then
    let inKeymaps := Str.eqIgnoreAsciiCase (line.drop 1).dropLast "KeyMaps".toList
    { state with inKeymaps := inKeymaps, found := state.found || inKeymaps }
  else if !state.inKeymaps || line.isEmpty || line.head? = some ';' || line.head? = some '#' then state
  else
    match line.splitOnce '=' with
    | none => state
    | some (key, value) => { state with file := state.file.insert key.trim value.trim }

/-- The keymaps section of a file, if it has one. -/
def parseKeymaps (contents : Str) : Option KeymapFile :=
  let state := contents.lines.foldl parseLine ⟨false, false, .empty⟩
  if state.found then some state.file else none

/-- A profile over the ones before it. -/
def overlay (effective : Option KeymapFile) (profile : Option KeymapFile) : Option KeymapFile :=
  match profile with
  | none => effective
  | some profile =>
    match effective with
    | some effective => some (effective.extend profile)
    | none => some profile

/-- The effective map of the shared file and the client's own profiles, the most specific one first. -/
def effectiveKeymaps (shared : Option KeymapFile) (profiles : List (Option KeymapFile)) : Option KeymapFile :=
  profiles.reverse.foldl overlay shared

/-! ### Resolution -/

def altFlag : Nat := 0x10000000

def controlFlag : Nat := 0x20000000

def shiftFlag : Nat := 0x40000000

/-- The bits of a mapping that mean something. -/
def knownMappingMask : Nat := altFlag ||| controlFlag ||| shiftFlag ||| 0xffff

def parseMapping (value name : Str) : Except ResolveError Nat :=
  match Str.parseUnsigned 32 value with
  | some encoded => .ok encoded
  | none => .error (.malformed (name ++ " is not a valid 32-bit key mapping".toList))

/-- The keys of the number: its modifiers and a plain key. -/
def decodeMapping (encoded : Nat) (name : Str) : Except ResolveError ResolvedBinding :=
  let scan := encoded &&& 0xffff
  if encoded &&& (0xffffffff ^^^ knownMappingMask) ≠ 0 then
    .error (.malformed (name ++ " contains unsupported modifier flags".toList))
  else if scan < 1 || 254 < scan then
    .error (.malformed (name ++ " contains an invalid DirectInput scan code".toList))
  else
    let modifiers := (if encoded &&& controlFlag ≠ 0 then [0x1d] else []) ++
      (if encoded &&& shiftFlag ≠ 0 then [0x2a] else []) ++ if encoded &&& altFlag ≠ 0 then [0x38] else []
    .ok ⟨if modifiers.contains scan then modifiers else modifiers ++ [scan]⟩

/-- The code of a key of the number row. -/
def numberRowScan (position : Nat) : Option Nat :=
  if 1 ≤ position && position ≤ 9 then some (position + 1)
  else if position = 10 then some 0x0b
  else if position = 11 then some 0x0c
  else if position = 12 then some 0x0d
  else none

/-- What the game maps without a file. -/
def defaultMapping (mapping : EqMappingName) (binding : Nat) : Option Nat :=
  if binding ≠ 1 then none
  else if mapping.text = "USE".toList then some 0x16
  else if mapping.text = "INVITE_FOLLOW".toList then some (controlFlag ||| 0x17)
  else if "HOT1_".toList.isPrefixOf mapping.text then
    ((mapping.text.stripPrefix "HOT1_".toList).bind (Str.parseUnsigned 8)).bind numberRowScan
  else if "CAST".toList.isPrefixOf mapping.text then
    match (mapping.text.stripPrefix "CAST".toList).bind (Str.parseUnsigned 8) with
    | some gem =>
      if 1 ≤ gem && gem ≤ 12 then (numberRowScan gem).map (altFlag ||| ·)
      else if gem = 13 then some (altFlag ||| 0x16)
      else if gem = 14 then some (altFlag ||| 0x17)
      else none
    | none => none
  else none

/-- The key under which a file has a mapping. -/
def keymappingKey (mapping : EqMappingName) (binding : Nat) : Str :=
  "KEYMAPPING_".toList ++ mapping.text ++ ['_'] ++ Str.decimal binding

/-- What a slot is bound to: the entry of the map, or the default. -/
def slotValue (mapping : EqMappingName) (keymaps : Option KeymapFile) (binding : Nat) : Except ResolveError Nat :=
  match keymaps.bind fun keymaps => keymaps.values[keymappingKey mapping binding]? with
  | some value => parseMapping value (keymappingKey mapping binding)
  | none => .ok ((defaultMapping mapping binding).getD 0)

/-- The first of the slots that is not zero. -/
def resolveSlots (mapping : EqMappingName) (keymaps : Option KeymapFile) : List Nat → Except ResolveError ResolvedBinding
  | [] => .error .unbound
  | binding :: rest =>
    match slotValue mapping keymaps binding with
    | .error error => .error error
    | .ok encoded =>
      if encoded ≠ 0 then decodeMapping encoded (keymappingKey mapping binding) else resolveSlots mapping keymaps rest

/-- The keys of a mapping from the slots of the file or the defaults. -/
def resolveFromKeymaps (mapping : EqMappingName) (keymaps : Option KeymapFile) : Except ResolveError ResolvedBinding :=
  resolveSlots mapping keymaps [1, 2]

/-- `resolve_mapping` over the loaded profiles. -/
def resolveMapping (mapping : EqMappingName) (shared : Option KeymapFile) (profiles : List (Option KeymapFile)) :
    Except ResolveError ResolvedBinding :=
  resolveFromKeymaps mapping (effectiveKeymaps shared profiles)

/-! ### Listing -/

/-- The mapping that a key of a file is for. -/
def mappingNameFromKey (key : Str) : Option EqMappingName :=
  (key.stripPrefix "KEYMAPPING_".toList).bind fun rest => (rest.rsplitOnce '_').bind fun (mapping, binding) =>
    if binding = ['1'] || binding = ['2'] then EqMappingName.new mapping else none

/-- The mappings that the game has without a file. -/
def knownDefaultMappingNames : List EqMappingName :=
  (["USE".toList, "INVITE_FOLLOW".toList] ++
    (List.range 12).map (fun index => "HOT1_".toList ++ Str.decimal ((index : Int) + 1)) ++
    (List.range 14).map fun index => "CAST".toList ++ Str.decimal ((index : Int) + 1)).filterMap EqMappingName.new

/-- The mappings that the file or the defaults may have. -/
def candidates (keymaps : Option KeymapFile) : MappingNames :=
  (knownDefaultMappingNames ++ ((keymaps.map fun keymaps => keymaps.values.keys).getD []).filterMap mappingNameFromKey).foldl
    (fun names name => names.insert name) ∅

/-- A candidate that resolves is mapped; one that is malformed fails the listing. -/
def listCandidate (keymaps : Option KeymapFile) (mapped : MappingNames) (mapping : EqMappingName) :
    Except ResolveError MappingNames :=
  match resolveFromKeymaps mapping keymaps with
  | .ok _ => .ok (mapped.insert mapping)
  | .error .unbound => .ok mapped
  | .error error => .error error

/-- `mapped_actions` over the loaded profiles. -/
def mappedActions (shared : Option KeymapFile) (profiles : List (Option KeymapFile)) :
    Except ResolveError MappingNames :=
  let keymaps := effectiveKeymaps shared profiles
  (candidates keymaps).toList.foldlM (listCandidate keymaps) ∅

end Keymaps

end Stonemite
