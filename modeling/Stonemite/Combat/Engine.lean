import Stonemite.Combat.Lifecycle

/-!
# The reducer: inputs, records and runs

`apply` and `tick` of `CombatEngine`, and the runs a driver makes of them.
-/

open Std

namespace Stonemite.Combat

namespace SourceState

/-- A source seen for the first time. -/
def fresh (source : LogSource) (generation : Nat) (now : MonoTime) : SourceState where
  source := source
  generation := generation
  present := true
  registeredAt := now
  continuity := 0
  observed := none
  closedThrough := none
  historyFloor := none
  lastProgressAt := now
  lastSequence := none
  eofSecond := none
  eofFirstAt := none
  eofPasses := 0
  zone := none

/-- A registration with another generation or descriptor, or of a source that was removed. -/
def discontinuity (existing : SourceState) (source : LogSource) (generation : Nat) : Bool :=
  existing.generation != generation || existing.source != source || !existing.present

/-- The state of a known source after `register_source`. -/
def register (existing : SourceState) (source : LogSource) (generation : Nat) (now : MonoTime) :
    SourceState :=
  if existing.discontinuity source generation then
    { existing with
      historyFloor := max existing.historyFloor existing.closedThrough
      continuity := wrappingAdd 64 existing.continuity 1
      generation
      lastSequence := none
      observed := none
      closedThrough := none
      eofSecond := none
      eofFirstAt := none
      eofPasses := 0
      registeredAt := now
      lastProgressAt := now
      source
      present := true }
  else { existing with source, present := true }

/-- The state of a source after `mark_gap`. -/
def gap (state : SourceState) (generation : Nat) (reason : GapReason) : SourceState :=
  let restarts := match reason with
    | .fileRecreated | .fileTruncated | .boundaryChanged | .sourceReassociated
    | .generationChanged => true
    | _ => false
  { state with
    historyFloor := max state.historyFloor state.closedThrough
    continuity := wrappingAdd 64 state.continuity 1
    generation
    lastSequence := none
    eofSecond := none
    eofFirstAt := none
    eofPasses := 0
    observed := if restarts then none else state.observed
    closedThrough := if restarts then none else state.closedThrough }

/-- The state of a source after `note_stable_eof`. -/
def stableEof (state : SourceState) (generation : Nat) (now : MonoTime) : SourceState :=
  if state.generation ≠ generation then state
  else match state.observed with
  | none => state
  | some observed =>
    if state.eofSecond = some observed then { state with eofPasses := saturatingAdd 8 state.eofPasses 1 }
    else { state with eofSecond := some observed, eofFirstAt := some now, eofPasses := 1 }

/-- The state of a source after it delivered an accepted record. -/
def advance (state : SourceState) (record : CombatRecord) (now : MonoTime) : SourceState :=
  let state := { state with
    generation := record.id.generation, lastSequence := some record.id.sequence, present := true }
  match record.eqTime with
  | none => state
  | some eqTime =>
    let progressed :=
      if state.observed.all (· < eqTime) then
        { state with
          closedThrough := match state.observed with
            | none => state.closedThrough
            | some previous =>
              let close := (checkedAddI64 eqTime (-1)).getD previous
              some (state.closedThrough.elim close (max · close))
          observed := some eqTime
          lastProgressAt := now }
      else state
    { progressed with eofSecond := none, eofFirstAt := none, eofPasses := 0 }

end SourceState

namespace CombatEngine
variable (e : CombatEngine)

/-- `register_source`. -/
def registerSource (source : LogSource) (generation : Nat) (now : MonoTime) : CombatEngine :=
  let managed := source.participant
  { e with
    verifiedPlayers := insert managed e.verifiedPlayers
    sources := e.sources.insert source.id <|
      (e.sources[source.id]?).elim (.fresh source generation now) (·.register source generation now)
    encounters := e.encounters.map fun _ encounter =>
      if !encounter.phase.isHeld && encounter.server.eqIgnoreAsciiCase managed.server then
        { encounter with managed := insert managed encounter.managed }
      else encounter }

/-- The live encounters of a source count it as partial. -/
def markPartial (source : LogSourceId) : CombatEngine :=
  { e with encounters := e.encounters.map fun _ encounter =>
      if encounter.sources.contains source && !encounter.phase.isHeld then
        { encounter with partialSources := encounter.partialSources.insert source }
      else encounter }

/-- `mark_gap`. -/
def markGap (source : LogSourceId) (generation : Nat) (reason : GapReason) : CombatEngine :=
  ((e.updSource source (·.gap generation reason)).markPartial source).diagnose
    s!"source {String.ofList source} became partial: {reason.debug}"

/-- The `SourceRemoved` input. -/
def removeSource (source : LogSourceId) : CombatEngine :=
  (e.updSource source fun state => { state with present := false }).markPartial source

/-- `note_stable_eof`. -/
def noteStableEof (source : LogSourceId) (generation : Nat) (now : MonoTime) : CombatEngine :=
  e.updSource source (·.stableEof generation now)

/-- `add_ownership`. -/
def addOwnership (source : LogSource) (pet : Str) (owner : ObservedCombatant) (eqTime : EqSecond) :
    CombatEngine :=
  let (ownerDisplay, owner) := resolveObserved source owner
  let claim : OwnershipClaim :=
    { server := source.server.toAsciiLowercase
      pet := pet.toAsciiLowercase
      owner, ownerDisplay
      validFrom := eqTime
      source := source.id }
  { e with
    verifiedPlayers := insert owner e.verifiedPlayers
    ownership := sortBy OwnershipClaim.sortCmp (e.ownership ++ [claim]) }

/-! ### Records -/

/-- The gap an admissible record reports about its source, by generation and second. -/
def recordGap (state : SourceState) (record : CombatRecord) : Option GapReason :=
  let generationGap := if state.generation < record.id.generation then some .generationChanged else none
  match record.eqTime with
  | none => generationGap
  | some eqTime =>
    if state.observed.any (eqTime < ·) then some .calendarRegression
    else if state.closedThrough.any (eqTime ≤ ·) then some .outOfOrderClosedSecond
    else generationGap

/-- The record repeats a sequence of the current generation. -/
def replayedSequence (state : SourceState) (record : CombatRecord) : Bool :=
  record.id.generation == state.generation && state.lastSequence.any (record.id.sequence ≤ ·)

/-- Remember an accepted id, forgetting the oldest ones beyond the bound. -/
def remember (id : SourceRecordId) : CombatEngine :=
  let order := e.acceptedOrder ++ [id]
  let excess := order.length - e.policy.maxRecordIds
  { e with
    accepted := (order.take excess).foldl (fun set expired => set.erase expired) (insert id e.accepted)
    acceptedOrder := order.drop excess }

/-- A record of an unknown source registers it. -/
def ensureRegistered (record : CombatRecord) (now : MonoTime) : CombatEngine :=
  if e.sources.contains record.source.id then e
  else e.registerSource record.source record.id.generation now

/-- The first half of `apply_record`: the engine, and whether the record is accepted. -/
def accept (record : CombatRecord) (now : MonoTime) : CombatEngine × Bool :=
  if record.id.source ≠ record.source.id then
    (e.diagnose "rejected record whose source ID disagreed with its descriptor", false)
  else if record.id ∈ e.accepted then
    (e.diagnose s!"ignored duplicate record {String.ofList record.id.source}:{record.id.generation}:{record.id.sequence}",
      false)
  else
    let e := e.ensureRegistered record now
    match e.sources[record.source.id]? with
    | none => (e, false)
    | some state =>
      if record.id.generation < state.generation then
        (e.diagnose "ignored a record from an obsolete source generation", false)
      else if replayedSequence state record then
        (e.diagnose "ignored replayed or out-of-order source sequence", false)
      else
        let e := (recordGap state record).elim e fun reason =>
          e.markGap record.source.id record.id.generation reason
        let e := e.remember record.id
        (e.updSource record.source.id (·.advance record now), true)

/-- The second half of `apply_record` up to the event loop: the second of the events that are
reduced, unless the record has none or is history. -/
def datable (record : CombatRecord) : CombatEngine × Option EqSecond :=
  match record.eqTime with
  | none =>
    let damage := record.events.any fun
      | .combat (.damage _) => true
      | _ => false
    (if damage then
        e.diagnose "timestamp-free damage was retained diagnostically and excluded"
      else e, none)
  | some eqTime =>
    if ((e.sources[record.source.id]?).bind (·.historyFloor)).any (eqTime ≤ ·) then
      (e.diagnose "ignored replay history at or before the prior closed-through second", none)
    else (e, some eqTime)

/-- The bound check before the event loop: a full ledger withdraws every encounter. -/
def reserve (record : CombatRecord) : CombatEngine :=
  if e.policy.maxLedgerFacts < e.ledger.length + record.events.countP LogEvent.isFact then
    { e.diagnose "combat ledger bound reached; withdrew live encounters fail-closed" with
      encounters := ∅, sourceActive := ∅, ledger := [], assignments := ∅ }
  else e

/-- The greatest count of the content in an earlier generation of the source. -/
def priorMax (occurrences : AList fun _ : Occurrence => Nat) (key : Occurrence) : Nat :=
  (((occurrences.entries.filter fun entry =>
    entry.1.source == key.source && decide (entry.1.generation < key.generation) &&
      entry.1.second == key.second && entry.1.content == key.content).map (·.2)).max?).getD 0

/-- `is_replayed_occurrence`: count the event and say whether an earlier generation covers it. -/
def noteOccurrence (key : Occurrence) : CombatEngine × Bool :=
  let occurrences :=
    if e.policy.maxRecordIds ≤ e.occurrences.keys.length ∧ key ∉ e.occurrences then ∅
    else e.occurrences
  let occurrence := saturatingAdd 64 ((occurrences.lookup key).getD 0) 1
  let occurrences := occurrences.insert key occurrence
  ({ e with occurrences }, decide (occurrence ≤ priorMax occurrences key))

/-- Append a fact to the ledger; its index is the former length. -/
def pushLedger (fact : LedgerFact) : CombatEngine := { e with ledger := e.ledger ++ [fact] }

/-- The `match event` of the event loop. -/
def reduceEvent (record : CombatRecord) (eqTime : EqSecond) (now : MonoTime) (event : LogEvent) :
    CombatEngine :=
  let index := e.ledger.length
  let fact (event : FactEvent) : LedgerFact :=
    { record := record.id, source := record.source, eqTime, receipt := now, event }
  match event with
  | .whoResult character =>
    { e with verifiedPlayers := insert (.ofName record.source.server character) e.verifiedPlayers }
  | .ownershipClaimed pet owner => e.addOwnership record.source pet (.ofName owner) eqTime
  | .combat (.petOwnership ownership) =>
    e.addOwnership record.source ownership.pet.name ownership.owner eqTime
  | .combat (.playerEvidence player) =>
    { e with verifiedPlayers := insert (resolveObserved record.source player).2 e.verifiedPlayers }
  | .combat (.zoneChanged zone) => e.updSource record.source.id fun s => { s with zone := some zone }
  | .combat (.damage damage) =>
    (e.pushLedger (fact (.damage damage))).processDamage index (fact (.damage damage)) damage
  | .combat (.attempt attempt) =>
    (e.pushLedger (fact (.attempt attempt))).processAttempt index (fact (.attempt attempt)) attempt
  | .combat (.targetSlain slain) =>
    (e.pushLedger (fact (.slain slain))).processSlain index (fact (.slain slain)) slain
  | _ => e

/-- One round of the event loop: facts an earlier generation already presented are skipped. -/
def processEvent (record : CombatRecord) (eqTime : EqSecond) (now : MonoTime) (event : LogEvent) :
    CombatEngine :=
  if event.isFact then
    match e.noteOccurrence ⟨record.id.source, record.id.generation, eqTime, event⟩ with
    | (e, true) => e
    | (e, false) => e.reduceEvent record eqTime now event
  else e.reduceEvent record eqTime now event

/-- `apply_record`. -/
def applyRecord (record : CombatRecord) (now : MonoTime) : CombatEngine × Bool :=
  match e.accept record now with
  | (e, false) => (e, false)
  | (e, true) =>
    match e.datable record with
    | (e, none) => (e, true)
    | (e, some eqTime) =>
      (record.events.foldl (fun e event => e.processEvent record eqTime now event) (e.reserve record),
        true)

/-! ### Inputs and runs -/

/-- The `match input` of `apply`, with its urgency. -/
def handle (now : MonoTime) (input : EngineInput) : CombatEngine × PublishUrgency :=
  match input with
  | .sourceRegistered source generation => (e.registerSource source generation now, .immediate)
  | .sourceRemoved source => (e.removeSource source, .immediate)
  | .sourceGap source generation reason => (e.markGap source generation reason, .immediate)
  | .sourceStableEof source generation => (e.noteStableEof source generation now, .coalescible)
  | .record record =>
    match e.applyRecord record now with
    | (e, true) => (e, .coalescible)
    | (e, false) => (e, .none)

/-- The clock never runs back. -/
def clock (now : MonoTime) : CombatEngine := { e with now := max e.now now }

/-- `apply`. -/
def apply (now : MonoTime) (input : EngineInput) : CombatEngine × EngineUpdate :=
  let e := e.clock now
  let before := e.lifecycleSignature
  let (e, urgency) := e.handle now input
  let (e, urgency) := e.advanceTime e.now urgency
  let urgency := if e.lifecycleSignature = before then urgency else .immediate
  let (e, snapshot) := e.rebuildBook
  let urgency := if snapshot.isNone then .none else urgency
  (e, { snapshot, urgency, nextDeadline := e.nextDeadline })

/-- `tick`. -/
def tick (now : MonoTime) : CombatEngine × EngineUpdate :=
  let e := e.clock now
  let (e, urgency) := e.advanceTime e.now .none
  let (e, snapshot) := e.rebuildBook
  let urgency := if snapshot.isSome && urgency == .none then .coalescible else urgency
  (e, { snapshot, urgency, nextDeadline := e.nextDeadline })

/-- `has_ending_grace`. -/
def hasEndingGrace : Bool :=
  e.encounters.toList.any fun entry => entry.2.phase.shown == .endingGrace

end CombatEngine

/-- A call of the driver. -/
inductive Call
  | apply (now : MonoTime) (input : EngineInput)
  | tick (now : MonoTime)
deriving DecidableEq, Repr

namespace CombatEngine

/-- The engine after one call. -/
def step (e : CombatEngine) : Call → CombatEngine
  | .apply now input => (e.apply now input).1
  | .tick now => (e.tick now).1

/-- The engine after a sequence of calls. -/
def run (e : CombatEngine) (calls : List Call) : CombatEngine := calls.foldl step e

end CombatEngine
end Stonemite.Combat
