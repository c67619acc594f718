import Stonemite.Combat.Metrics

/-!
# Policy, inputs and snapshots (`model.rs`)
-/

namespace Stonemite.Combat

/-- Monotonic milliseconds, a `u64`. -/
abbrev MonoTime := Nat

namespace MonoTime

/-- The clock so many milliseconds later, within 64 bits. -/
def add (t : MonoTime) (millis : Nat) : MonoTime := saturatingAdd 64 t millis

/-- `saturating_duration_since`. -/
def since (now earlier : MonoTime) : Nat := now - earlier

end MonoTime

/-- The times and bounds of the engine. -/
structure CombatPolicy where
  version : Nat
  inactivityMs : Nat
  endingGraceMs : Nat
  heldMs : Nat
  stableEofMs : Nat
  lagEqSeconds : Int
  lagReceiptMs : Nat
  activeRangeBridgeSeconds : Int
  maxEncounters : Nat
  maxLedgerFacts : Nat
  maxRecordIds : Nat
  maxDiagnostics : Nat
deriving DecidableEq, Repr

namespace CombatPolicy

def mvpV1 : CombatPolicy where
  version := 1
  inactivityMs := 30000
  endingGraceMs := 2000
  heldMs := 8000
  stableEofMs := 2000
  lagEqSeconds := 2
  lagReceiptMs := 2000
  activeRangeBridgeSeconds := 6
  maxEncounters := 16
  maxLedgerFacts := 100000
  maxRecordIds := 200000
  maxDiagnostics := 256

/-- `validate` succeeds. -/
def valid (p : CombatPolicy) : Bool :=
  !(p.version == 0 || p.inactivityMs == 0 || p.endingGraceMs == 0 || p.heldMs == 0 ||
    p.stableEofMs == 0 || decide (p.lagEqSeconds ≤ 0) || decide (p.activeRangeBridgeSeconds < 0) ||
    p.maxEncounters == 0 || p.maxLedgerFacts == 0 || p.maxRecordIds == 0 || p.maxDiagnostics == 0)

end CombatPolicy

/-- Why lines of a source were lost. -/
inductive GapReason
  | fileRecreated
  | fileTruncated
  | boundaryChanged
  | oversizedRecord
  | discardUntilNewline
  | sourceReassociated
  | calendarRegression
  | outOfOrderClosedSecond
  | generationChanged
deriving DecidableEq, Repr

/-- The Debug text of a gap reason. -/
def GapReason.debug : GapReason → String
  | .fileRecreated => "FileRecreated"
  | .fileTruncated => "FileTruncated"
  | .boundaryChanged => "BoundaryChanged"
  | .oversizedRecord => "OversizedRecord"
  | .discardUntilNewline => "DiscardUntilNewline"
  | .sourceReassociated => "SourceReassociated"
  | .calendarRegression => "CalendarRegression"
  | .outOfOrderClosedSecond => "OutOfOrderClosedSecond"
  | .generationChanged => "GenerationChanged"

/-- A line with the events that were parsed from it. -/
structure CombatRecord where
  id : SourceRecordId
  source : LogSource
  eqTime : Option EqSecond
  events : List LogEvent
deriving DecidableEq, Repr

inductive EngineInput
  | sourceRegistered (source : LogSource) (generation : Nat)
  | sourceRemoved (source : LogSourceId)
  | sourceGap (source : LogSourceId) (generation : Nat) (reason : GapReason)
  | sourceStableEof (source : LogSourceId) (generation : Nat)
  | record (record : CombatRecord)
deriving DecidableEq, Repr

inductive PublishUrgency
  | none
  | coalescible
  | immediate
deriving DecidableEq, Repr

abbrev EncounterId := Str

/-- A server and a character name, both in ASCII lower case when built by `ofName`. -/
structure ParticipantId where
  server : Str
  canonicalName : Str
deriving DecidableEq, Repr

namespace ParticipantId

/-- `ParticipantId::new`. -/
def ofName (server name : Str) : ParticipantId := ⟨server.toAsciiLowercase, name.toAsciiLowercase⟩

/-- The derived order: by server, then by name. -/
instance : LinearOrder ParticipantId :=
  LinearOrder.lift' (fun p => toLex (p.server, p.canonicalName)) fun a b h => by
    cases a; cases b; simpa using h

instance : Std.TransOrd ParticipantId := inferInstance

instance : Std.LawfulEqOrd ParticipantId := ⟨fun h => compare_eq_iff_eq.mp h⟩

end ParticipantId

abbrev CanonicalTargetId := Str

/-- `CanonicalTargetId::new`. -/
def canonicalTargetId (name : Str) : CanonicalTargetId := name.toAsciiLowercase

/-- The phases as they are shown. -/
inductive EncounterPhase
  | active
  | endingGrace
  | held
deriving DecidableEq, Repr

inductive EndReason
  | allTargetsTerminal
  | inactivity
deriving DecidableEq, Repr

/-- How far a row is to be trusted. -/
inductive SourceQuality
  | authoritativePersonal
  | completeObserver
  | bestPartialObserver
  | incompletePersonal
  | provisionalPet
deriving DecidableEq, Repr

structure DpsRowSnapshot where
  rank : Nat
  participant : ParticipantId
  displayName : Str
  managed : Bool
  hasPetDamage : Bool
  provisionalPet : Bool
  damage : Nat
  activeSeconds : Nat
  dps : Nat
  sdps : Nat
  contributionMillionths : Nat
  sourceQuality : SourceQuality
  electedSource : LogSourceId
deriving DecidableEq, Repr

structure EncounterSnapshot where
  id : EncounterId
  revision : UInt64
  phase : EncounterPhase
  endReason : Option EndReason
  title : Str
  primaryTarget : CanonicalTargetId
  additionalTargetNames : Nat
  encounterSeconds : Nat
  raidDamage : Nat
  rows : List DpsRowSnapshot
  sourceMembers : List LogSourceId
  lastSustainedAt : EqSecond
  heldUntil : Option MonoTime
deriving DecidableEq, Repr

/-- The encounters as they are shown. -/
structure EncounterBookSnapshot where
  revision : UInt64 := 0
  encounters : List EncounterSnapshot := []
deriving DecidableEq, Repr

structure EngineUpdate where
  snapshot : Option EncounterBookSnapshot
  urgency : PublishUrgency
  nextDeadline : Option MonoTime
deriving DecidableEq, Repr

end Stonemite.Combat
