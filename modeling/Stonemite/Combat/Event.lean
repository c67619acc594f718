import Stonemite.Lib.Text

/-!
# Log events (`eqlog`)

The typed observations the log parsers emit, as far as the combat reducer reads them. Events of the
other domains reach the reducer and are ignored by it; they are the one constructor `other`.
-/

namespace Stonemite.Combat

/-- Stable identity of one log source. -/
abbrev LogSourceId := Str

/-- A civil second of an EverQuest log, an `i64`. -/
abbrev EqSecond := Int

/-- The log of a character, under an id of its own. -/
structure LogSource where
  id : LogSourceId
  character : Str
  server : Str
deriving DecidableEq, Repr

/-- Identity of one complete record: sequence zero is the first record of a generation. -/
structure SourceRecordId where
  source : LogSourceId
  generation : Nat
  sequence : Nat
deriving DecidableEq, Repr

/-- How a line names a combatant. -/
inductive Perspective
  | named
  | you
  | your
  | yourself
deriving DecidableEq, Repr

/-- A combatant as a line names it. -/
structure ObservedCombatant where
  name : Str
  perspective : Perspective
deriving DecidableEq, Repr

def ObservedCombatant.ofName (name : Str) : ObservedCombatant := ⟨name, .named⟩

inductive DamageKind
  | melee
  | directSpell
  | damageOverTime
  | proc
  | damageShield
  | bane
  | pet
  | otherIncluded
deriving DecidableEq, Repr

inductive DamageOutcome
  | hit
  | miss
  | dodge
  | parry
  | block
  | riposte
  | invulnerable
  | absorbed
  | rejected
deriving DecidableEq, Repr

/-- What a line says of a hit in parentheses. -/
structure DamageModifiers where
  critical : Bool := false
  lucky : Bool := false
  strikethrough : Bool := false
  wildRampage : Bool := false
  twincast : Bool := false
deriving DecidableEq, Repr

inductive ParserProvenance
  | melee
  | directSpell
  | periodicSpell
  | nonMelee
  | combatAttempt
  | slain
deriving DecidableEq, Repr

structure DamageObservation where
  attacker : ObservedCombatant
  explicitOwner : Option ObservedCombatant
  defender : ObservedCombatant
  amount : Nat
  kind : DamageKind
  ability : Option Str
  outcome : DamageOutcome
  modifiers : DamageModifiers
  provenance : ParserProvenance
deriving DecidableEq, Repr

/-- An attempt that a line tells of. -/
structure CombatAttempt where
  attacker : ObservedCombatant
  defender : ObservedCombatant
  outcome : DamageOutcome
  kind : DamageKind
  ability : Option Str
  provenance : ParserProvenance
deriving DecidableEq, Repr

/-- A death that a line tells of. -/
structure TargetSlainObservation where
  target : ObservedCombatant
  killer : Option ObservedCombatant
deriving DecidableEq, Repr

/-- The owner of a pet that a line tells of. -/
structure PetOwnershipObservation where
  pet : ObservedCombatant
  owner : ObservedCombatant
deriving DecidableEq, Repr

/-- What a line tells of a fight. -/
inductive CombatEvent
  | damage (damage : DamageObservation)
  | attempt (attempt : CombatAttempt)
  | targetSlain (slain : TargetSlainObservation)
  | petOwnership (ownership : PetOwnershipObservation)
  | playerEvidence (player : ObservedCombatant)
  | zoneChanged (zone : Str)
  | weaponDamageDealt
  | damageTaken
  | attackBlocked
deriving DecidableEq, Repr

/-- What a line tells, as far as the engine reads it. -/
inductive LogEvent
  /-- `Identity(WhoResult)`, of which only the character is read. -/
  | whoResult (character : Str)
  /-- `Pet(OwnershipClaimed)`. -/
  | ownershipClaimed (pet owner : Str)
  | combat (event : CombatEvent)
  | other
deriving DecidableEq, Repr

/-- The events that become ledger facts: damage, attempts and slain observations. -/
def LogEvent.isFact : LogEvent → Bool
  | .combat (.damage _) => true
  | .combat (.attempt _) => true
  | .combat (.targetSlain _) => true
  | _ => false

end Stonemite.Combat
