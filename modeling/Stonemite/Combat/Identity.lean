import Stonemite.Lib.Lists
import Stonemite.Combat.State

/-!
# Names, owners and encounter identity

How the reducer reads a combatant off a log line: the perspective pronouns of a source stand for its
character, a dotted name carries its own server, and a pet is attributed to its owner.
-/

open Std

namespace Stonemite.Combat

/-- `participant_from_name`. -/
def participantFromName (defaultServer display : Str) : ParticipantId :=
  let trimmed := display.trim
  match trimmed.splitOnce '.' with
  | some (server, character) =>
    if server ≠ [] ∧ character ≠ [] ∧ '.' ∉ character then .ofName server character
    else .ofName defaultServer trimmed
  | none => .ofName defaultServer trimmed

/-- `possible_player_name`. -/
def possiblePlayerName (display : Str) : Bool :=
  match Str.afterLast '.' display with
  | [] => false
  | first :: rest =>
    !(first :: rest).any Str.isWhitespace && first.isUpper &&
      (first :: rest).all fun c => c.isAlphanum || c ∈ ['-', '_', '`', '\'']

/-- `resolve_observed`: the display name and the participant a combatant stands for. -/
def resolveObserved (source : LogSource) (observed : ObservedCombatant) : Str × ParticipantId :=
  let display := if observed.perspective = .named then observed.name else source.character
  (display, participantFromName source.server display)

/-- The participant a source writes its own log as. -/
def LogSource.participant (source : LogSource) : ParticipantId := .ofName source.server source.character

/-- Latest claim first decided by second, then by the smaller source. -/
def OwnershipClaim.cmp (left right : OwnershipClaim) : Ordering :=
  (compare left.validFrom right.validFrom).then (compare right.source left.source)

/-- The sort key of `add_ownership`. -/
def OwnershipClaim.sortCmp (left right : OwnershipClaim) : Ordering :=
  (compare left.server right.server).then <| (compare left.pet right.pet).then <|
    (compare left.validFrom right.validFrom).then (compare left.source right.source)

namespace CombatEngine
variable (e : CombatEngine)

/-- The owner claimed for a pet no later than `deadline`. -/
def ownerBy (source : LogSource) (petDisplay : Str) (deadline : EqSecond) : Option ParticipantId :=
  let server := source.server.toAsciiLowercase
  let pet := petDisplay.toAsciiLowercase
  (maxBy? OwnershipClaim.cmp <| e.ownership.filter fun claim =>
    claim.server == server && claim.pet == pet && claim.validFrom ≤ deadline).map (·.owner)

/-- `claimed_owner`. -/
def claimedOwner (source : LogSource) (petDisplay : Str) (eqTime : EqSecond) : Option ParticipantId :=
  e.ownerBy source petDisplay eqTime

/-- `claimed_owner_in_encounter`: evidence up to thirty seconds after the end still counts. -/
def claimedOwnerInEncounter (source : LogSource) (petDisplay : Str) (encounter : EncounterState) :
    Option ParticipantId :=
  e.ownerBy source petDisplay ((checkedAddI64 encounter.endEq 30).getD (2 ^ 63 - 1))

/-- `display_for_participant`. -/
def displayForParticipant (participant : ParticipantId) : Option Str :=
  ((e.sources.toList.find? fun s => s.2.source.participant == participant).map
      (·.2.source.character)).or
    ((e.ownership.reverse.find? fun claim => claim.owner == participant).map (·.ownerDisplay))

/-- `is_managed`. -/
def isManaged (participant : ParticipantId) : Bool :=
  e.sources.toList.any fun s => s.2.source.participant == participant

/-- `managed_identities`. -/
def managedIdentities (server : Str) : Finset ParticipantId :=
  ((e.sources.toList.filter fun s => s.2.present && s.2.source.server.eqIgnoreAsciiCase server).map
    (·.2.source.participant)).toFinset

end CombatEngine

/-- `encounter_id`: the identity an encounter takes from the fact that opens it. -/
def encounterId (fact : LedgerFact) (target : CanonicalTargetId) (participant : ParticipantId) :
    EncounterId :=
  fact.source.server.toAsciiLowercase ++ ':' :: Str.decimal fact.eqTime ++ ':' :: target ++
    ':' :: participant.canonicalName

/-- What `process_damage` reads off a damage fact before it looks at any encounter. -/
structure DamageView where
  attackerDisplay : Str
  attacker : ParticipantId
  defenderDisplay : Str
  defender : ParticipantId
  /-- The owner when there is one, else the attacker. -/
  participant : ParticipantId
  attackerVerified : Bool
  targetId : CanonicalTargetId
  defenderIsPlayer : Bool
  selfAttack : Bool
  positive : Bool
  fingerprint : Fingerprint

namespace DamageView

/-- The damage begins an encounter. -/
def startQualified (v : DamageView) : Bool :=
  v.positive && v.attackerVerified && !v.defenderIsPlayer && !v.selfAttack

end DamageView

/-- `amount > 0` and the outcome is a hit. -/
def DamageObservation.positive (damage : DamageObservation) : Bool :=
  0 < damage.amount && damage.outcome == .hit

/-- Who hits whom, as far as the engine knows them. -/
def CombatEngine.viewDamage (e : CombatEngine) (fact : LedgerFact) (damage : DamageObservation) :
    DamageView :=
  let (attackerDisplay, attacker) := resolveObserved fact.source damage.attacker
  let (defenderDisplay, defender) := resolveObserved fact.source damage.defender
  let owner := (damage.explicitOwner.map fun o => (resolveObserved fact.source o).2).or
    (e.claimedOwner fact.source attackerDisplay fact.eqTime)
  let participant := owner.getD attacker
  let targetId := canonicalTargetId defenderDisplay
  { attackerDisplay, attacker, defenderDisplay, defender, participant
    attackerVerified := owner.isSome || decide (attacker ∈ e.verifiedPlayers) ||
      damage.attacker.perspective != .named
    targetId
    defenderIsPlayer := decide (defender ∈ e.verifiedPlayers)
    selfAttack := participant == defender
    positive := damage.positive
    fingerprint :=
      { eqTime := fact.eqTime
        attacker := attacker.canonicalName
        defender := targetId
        amount := damage.amount
        kind := damage.kind
        ability := damage.ability.map Str.toAsciiLowercase } }

end Stonemite.Combat
