import Stonemite.Lib.Lists
import Stonemite.Lib.Parsing
import Stonemite.Lib.TreeMap

/-!
# The spell catalog

The spells of `spells_us.txt` by their name, with the landing messages of `spells_us_str.txt`, and the definition that a
name resolves to. A duration is a number of nanoseconds.
-/

open Std

namespace Stonemite

namespace Str

def trimStartMatches (p : Char → Bool) (s : Str) : Str := s.dropWhile p

end Str

namespace Casting

def classCount : Nat := 16

def legacyClassOffset : Nat := 36

def currentClassOffset : Nat := 38

/-- `Duration::from_millis`, in nanoseconds. -/
def fromMillis (millis : Nat) : Nat := millis * 1000000

/-- What is known of a spell that was resolved. -/
structure SpellDefinition where
  id : Nat
  name : Str
  baseCastTime : Nat
  uniqueClass : Option Str
  castOnYou : Option Str
  castOnOther : Option Str
deriving DecidableEq, Repr

/-- A spell of the client's files. -/
structure SpellRecord where
  id : Nat
  name : Str
  baseCastTime : Nat
  classLevels : List Nat
  castOnYou : Option Str
  castOnOther : Option Str
deriving DecidableEq, Repr

def classCodes : List Str :=
  ["WAR", "CLR", "PAL", "RNG", "SHK", "DRU", "MNK", "BRD", "ROG", "SHM", "NEC", "WIZ", "MAG", "ENC", "BST",
    "BER"].map String.toList

def classCode (index : Nat) : Str := classCodes.getD index []

/-- The index of a class code in any case; a shadow knight has two. -/
def classIndex (code : Str) : Option Nat :=
  if code.toAsciiUppercase = "SHD".toList then some 4 else classCodes.idxOf? code.toAsciiUppercase

/-- A level at which a class has a spell. -/
def isPlayerLevel (level : Nat) : Bool := 1 ≤ level && level ≤ 253

namespace SpellRecord

/-- Some class can cast the spell. -/
def isPlayerSpell (record : SpellRecord) : Bool := record.classLevels.any isPlayerLevel

/-- The class can cast the spell. -/
def matchesClass (record : SpellRecord) (code : Str) : Bool :=
  ((classIndex code).bind fun index => record.classLevels[index]?).any isPlayerLevel

/-- The only class that can cast the spell. -/
def uniqueClass (record : SpellRecord) : Option Str :=
  match record.classLevels.zipIdx.filter fun level => isPlayerLevel level.1 with
  | [level] => some (classCode level.2)
  | _ => none

/-- What is known of the spell of a record. -/
def definition (record : SpellRecord) : SpellDefinition where
  id := record.id
  name := record.name
  baseCastTime := record.baseCastTime
  uniqueClass := record.uniqueClass
  castOnYou := record.castOnYou
  castOnOther := record.castOnOther

end SpellRecord

/-- The messages of the spells, by id. -/
abbrev SpellStrings := ExtTreeMap Nat (Option Str × Option Str)

structure SpellCatalog where
  byName : ExtTreeMap Str (List SpellRecord)

/-- Names are compared in lower case without blanks around them. -/
def normalize (value : Str) : Str := value.trim.toAsciiLowercase

def nonempty (value : Option Str) : Option Str :=
  value.bind fun value => if value.trim.isEmpty then none else some value.trim

def lineFields (line : Str) : List Str := Str.split '^' (line.trimEndMatches (· = '\r'))

/-- The id of a line, which may follow a byte order mark. -/
def parseId (fields : List Str) : Option Nat :=
  fields.head?.bind fun value => Str.parseUnsigned 32 (value.trimStartMatches (· = '\ufeff'))

def parseString (line : Str) : Option (Nat × Option Str × Option Str) :=
  let fields := lineFields line
  (parseId fields).map fun id => (id, nonempty fields[3]?, nonempty fields[4]?)

/-- The landing messages by spell; a later line of a spell replaces an earlier one. -/
def parseSpellStrings (text : Str) : SpellStrings := ExtTreeMap.ofList (text.lines.filterMap parseString)

/-- The record of a line, unless it has no id, no name or no cast time. -/
def parseRecord (strings : SpellStrings) (line : Str) : Option SpellRecord :=
  let fields := lineFields line
  (parseId fields).bind fun id =>
    ((fields[1]?.map Str.trim).filter fun name => !name.isEmpty).bind fun name =>
      (fields[8]?.bind (Str.parseUnsigned 64)).map fun castMs =>
        let classOffset := if 168 ≤ fields.length then currentClassOffset else legacyClassOffset
        let messages := (strings[id]?).getD (none, none)
        { id := id
          name := name
          baseCastTime := fromMillis castMs
          classLevels := (List.range classCount).map fun index =>
            (fields[classOffset + index]?.bind (Str.parseUnsigned 8)).getD 255
          castOnYou := messages.1
          castOnOther := messages.2 }

namespace SpellCatalog

def push (byName : ExtTreeMap Str (List SpellRecord)) (record : SpellRecord) : ExtTreeMap Str (List SpellRecord) :=
  byName.insert (normalize record.name) ((byName[normalize record.name]?).getD [] ++ [record])

/-- Records are ordered by their ids. -/
def compareId (a b : SpellRecord) : Ordering := compare a.id b.id

def fromText (spellText stringText : Str) : SpellCatalog :=
  let records := spellText.lines.filterMap (parseRecord (parseSpellStrings stringText))
  ⟨(records.foldl push ∅).map fun _ records => sortBy compareId records⟩

/-- The fields that candidates are compared by. -/
def agree (first candidate : SpellRecord) : Bool :=
  candidate.baseCastTime = first.baseCastTime && candidate.castOnYou = first.castOnYou &&
    candidate.castOnOther = first.castOnOther

/-- The first candidate, if the others agree with it. -/
def uniqueCandidate : List SpellRecord → Option SpellRecord
  | [] => none
  | first :: candidates => if candidates.all (agree first) then some first else none

def resolve (catalog : SpellCatalog) (spellName : Str) (code : Option Str) : Option SpellDefinition :=
  match catalog.byName[normalize spellName]? with
  | none => none
  | some candidates =>
    match code.bind fun code => candidates.find? fun record => record.matchesClass code with
    | some record => some record.definition
    | none =>
      match uniqueCandidate (candidates.filter SpellRecord.isPlayerSpell) with
      | some record => some record.definition
      | none => (uniqueCandidate candidates).map SpellRecord.definition

end SpellCatalog

end Casting

end Stonemite
