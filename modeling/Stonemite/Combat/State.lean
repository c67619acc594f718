import Stonemite.Combat.Model

/-!
# State of the combat reducer (`engine.rs`)

The private structures of `CombatEngine`. Ordered maps and sets are `Std.ExtTreeMap` and
`Std.ExtTreeSet`, which iterate in key order and are equal when they hold the same entries.
-/

open Std

namespace Stonemite.Combat

/-- A source and what has come from it. -/
structure SourceState where
  source : LogSource
  generation : Nat
  present : Bool
  registeredAt : MonoTime
  continuity : Nat
  observed : Option EqSecond
  closedThrough : Option EqSecond
  historyFloor : Option EqSecond
  lastProgressAt : MonoTime
  lastSequence : Option Nat
  eofSecond : Option EqSecond
  eofFirstAt : Option MonoTime
  eofPasses : Nat
  zone : Option Str

structure OwnershipClaim where
  server : Str
  pet : Str
  owner : ParticipantId
  ownerDisplay : Str
  validFrom : EqSecond
  source : LogSourceId
deriving DecidableEq

/-- The events that the ledger keeps. -/
inductive FactEvent
  | damage (damage : DamageObservation)
  | attempt (attempt : CombatAttempt)
  | slain (slain : TargetSlainObservation)
deriving DecidableEq

/-- An event of the ledger with where it came from. -/
structure LedgerFact where
  record : SourceRecordId
  source : LogSource
  eqTime : EqSecond
  receipt : MonoTime
  event : FactEvent
deriving DecidableEq

/-- What a hit looks like in every log that shows it. -/
structure Fingerprint where
  eqTime : EqSecond
  attacker : Str
  defender : Str
  amount : Nat
  kind : DamageKind
  ability : Option Str
deriving DecidableEq

structure TargetState where
  display : Str
  terminal : Bool
  firstDamage : EqSecond
  lastDamage : EqSecond
  terminalAt : Option EqSecond
deriving DecidableEq

/-- The phases with what they remember. -/
inductive PhaseState
  | active
  | ending (reason : EndReason) (enteredAt : MonoTime) (cutoff : EqSecond)
      (closureSources : ExtTreeSet LogSourceId)
  | held (reason : EndReason) (til : MonoTime)

namespace PhaseState

def isHeld : PhaseState → Bool
  | .held .. => true
  | _ => false

/-- The phase a snapshot shows. -/
def shown : PhaseState → EncounterPhase
  | .active => .active
  | .ending .. => .endingGrace
  | .held .. => .held

end PhaseState

structure EncounterState where
  id : EncounterId
  server : Str
  phase : PhaseState
  sources : ExtTreeSet LogSourceId
  sourceContinuity : ExtTreeMap LogSourceId Nat
  partialSources : ExtTreeSet LogSourceId
  managed : Finset ParticipantId
  targets : ExtTreeMap CanonicalTargetId TargetState
  facts : List Nat
  fingerprints : Finset Fingerprint
  startEq : EqSecond
  endEq : EqSecond
  lastSustainEq : EqSecond
  startReceipt : MonoTime
  lastSustainReceipt : MonoTime
  revision : UInt64
  lastSnapshot : Option EncounterSnapshot
  frozen : Option EncounterSnapshot

/-- Key of the occurrence counters: source, generation, second and content. The content is the Debug
text of the event, which separates distinct events, so the event itself is the key. -/
structure Occurrence where
  source : LogSourceId
  generation : Nat
  second : EqSecond
  content : LogEvent
deriving DecidableEq

structure CombatEngine where
  policy : CombatPolicy
  sources : ExtTreeMap LogSourceId SourceState
  accepted : Finset SourceRecordId
  /-- Oldest id first. -/
  acceptedOrder : List SourceRecordId
  occurrences : AList fun _ : Occurrence => Nat
  ledger : List LedgerFact
  assignments : ExtTreeMap Nat EncounterId
  encounters : ExtTreeMap EncounterId EncounterState
  sourceActive : ExtTreeMap LogSourceId EncounterId
  verifiedPlayers : Finset ParticipantId
  ownership : List OwnershipClaim
  currentBook : EncounterBookSnapshot
  now : MonoTime
  /-- Oldest message first. -/
  diagnostics : List String

namespace CombatEngine

/-- The engine `CombatEngine::new` builds once the policy is valid. -/
def init (policy : CombatPolicy) : CombatEngine where
  policy := policy
  sources := ∅
  accepted := ∅
  acceptedOrder := []
  occurrences := ∅
  ledger := []
  assignments := ∅
  encounters := ∅
  sourceActive := ∅
  verifiedPlayers := ∅
  ownership := []
  currentBook := {}
  now := 0
  diagnostics := []

/-- `CombatEngine::new`. -/
def new (policy : CombatPolicy) : Option CombatEngine :=
  if policy.valid then some (init policy) else none

/-- One more diagnostic, within the bound. -/
def diagnose (e : CombatEngine) (message : String) : CombatEngine :=
  let kept := if e.policy.maxDiagnostics ≤ e.diagnostics.length then e.diagnostics.tail
    else e.diagnostics
  { e with diagnostics := kept ++ [message] }

/-- Update the encounter at `id`, if there is one. -/
def updEncounter (e : CombatEngine) (id : EncounterId) (f : EncounterState → EncounterState) :
    CombatEngine :=
  { e with encounters := e.encounters.modify id f }

/-- Update the source state at `id`, if there is one. -/
def updSource (e : CombatEngine) (id : LogSourceId) (f : SourceState → SourceState) : CombatEngine :=
  { e with sources := e.sources.modify id f }

end CombatEngine
end Stonemite.Combat
