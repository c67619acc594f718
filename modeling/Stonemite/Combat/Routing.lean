import Stonemite.Combat.Elect

/-!
# Routing facts to encounters

`process_damage`, `process_attempt` and `process_slain`: how a fact of the ledger finds, opens,
joins, merges, resumes or closes an encounter.
-/

open Std

namespace Stonemite.Combat

/-- One `and_modify` / `or_insert` of the target loop in `merge_encounters`. -/
def TargetState.merge (target current : TargetState) : TargetState :=
  { current with
    firstDamage := min current.firstDamage target.firstDamage
    lastDamage := max current.lastDamage target.lastDamage
    terminal := current.terminal && target.terminal
    terminalAt := max current.terminalAt target.terminalAt }

/-- The targets of two encounters as those of one. -/
def mergeTargets (chosen other : ExtTreeMap CanonicalTargetId TargetState) :
    ExtTreeMap CanonicalTargetId TargetState :=
  other.toList.foldl (fun targets entry =>
    targets.insert entry.1 ((targets[entry.1]?).elim entry.2 entry.2.merge)) chosen

/-- The encounter `merge_encounters` leaves under the chosen id. -/
def EncounterState.absorb (chosen other : EncounterState) : EncounterState :=
  { chosen with
    sources := chosen.sources ∪ other.sources
    sourceContinuity := chosen.sourceContinuity ∪ other.sourceContinuity
    partialSources := chosen.partialSources ∪ other.partialSources
    managed := chosen.managed ∪ other.managed
    targets := mergeTargets chosen.targets other.targets
    facts := ((chosen.facts ++ other.facts).insertionSort (· ≤ ·)).dedup
    fingerprints := chosen.fingerprints ∪ other.fingerprints
    startEq := min chosen.startEq other.startEq
    endEq := max chosen.endEq other.endEq
    lastSustainEq := max chosen.lastSustainEq other.lastSustainEq
    startReceipt := min chosen.startReceipt other.startReceipt
    lastSustainReceipt := max chosen.lastSustainReceipt other.lastSustainReceipt
    phase := .active
    frozen := none
    lastSnapshot := none }

/-- The encounter `process_damage` opens for a fact. -/
def EncounterState.opened (id : EncounterId) (fact : LedgerFact) (continuity : Nat)
    (managed : Finset ParticipantId) : EncounterState where
  id := id
  server := fact.source.server
  phase := .active
  sources := (∅ : ExtTreeSet LogSourceId).insert fact.source.id
  sourceContinuity := (∅ : ExtTreeMap LogSourceId Nat).insert fact.source.id continuity
  partialSources := ∅
  managed := managed
  targets := ∅
  facts := []
  fingerprints := ∅
  startEq := fact.eqTime
  endEq := fact.eqTime
  lastSustainEq := fact.eqTime
  startReceipt := fact.receipt
  lastSustainReceipt := fact.receipt
  revision := 0
  lastSnapshot := none
  frozen := none

/-- What a contributing fact changes in its encounter. -/
def EncounterState.contribute (encounter : EncounterState) (fact : LedgerFact) (v : DamageView) :
    EncounterState :=
  let target := (encounter.targets[v.targetId]?).getD
    { display := v.defenderDisplay, terminal := false, firstDamage := fact.eqTime
      lastDamage := fact.eqTime, terminalAt := none }
  let target := { target with lastDamage := max target.lastDamage fact.eqTime }
  let target := if target.terminal then { target with terminal := false, terminalAt := none }
    else target
  { encounter with
    targets := encounter.targets.insert v.targetId target
    fingerprints := insert v.fingerprint encounter.fingerprints
    startEq := min encounter.startEq fact.eqTime
    startReceipt := min encounter.startReceipt fact.receipt
    endEq := max encounter.endEq fact.eqTime }

/-- What a sustaining fact changes in its encounter. -/
def EncounterState.sustain (encounter : EncounterState) (fact : LedgerFact) : EncounterState :=
  { encounter with
    lastSustainEq := max encounter.lastSustainEq fact.eqTime
    lastSustainReceipt := max encounter.lastSustainReceipt fact.receipt }

/-- List one more fact. -/
def EncounterState.pushFact (encounter : EncounterState) (index : Nat) : EncounterState :=
  { encounter with facts := encounter.facts ++ [index] }

/-- `encounter.phase` after a fact resumes it, with the target open again. -/
def EncounterState.resume (encounter : EncounterState) (targetId : CanonicalTargetId) :
    EncounterState :=
  { encounter with
    phase := .active
    targets := encounter.targets.modify targetId fun t => { t with terminal := false, terminalAt := none } }

/-- The target is terminal, the encounter lasts at least until `eqTime`. -/
def EncounterState.slay (encounter : EncounterState) (targetId : CanonicalTargetId)
    (eqTime : EqSecond) : EncounterState :=
  { encounter with
    targets := encounter.targets.modify targetId fun t =>
      { t with terminal := true, terminalAt := some eqTime }
    endEq := max encounter.endEq eqTime }

def EncounterState.allTerminal (encounter : EncounterState) : Bool :=
  !encounter.targets.isEmpty && encounter.targets.toList.all fun t => t.2.terminal

/-- `encounter.phase` of `enter_ending`, which only an active encounter takes. -/
def EncounterState.enterEnding (encounter : EncounterState) (reason : EndReason) (now : MonoTime)
    (cutoff : EqSecond) : EncounterState :=
  match encounter.phase with
  | .active => { encounter with phase := .ending reason now cutoff encounter.sources }
  | _ => encounter

/-- What `promote_prior_facts` does for one fact. -/
def EncounterState.promote (encounter : EncounterState) (index : Nat) (fact : LedgerFact) :
    EncounterState :=
  { encounter.pushFact index with
    startEq := min encounter.startEq fact.eqTime
    startReceipt := min encounter.startReceipt fact.receipt
    endEq := max encounter.endEq fact.eqTime }

/-- A new member of the encounter. -/
def EncounterState.addSource (encounter : EncounterState) (source : LogSource)
    (state : Option SourceState) : EncounterState :=
  if encounter.sources.contains source.id then encounter
  else
    { encounter with
      sources := encounter.sources.insert source.id
      sourceContinuity := encounter.sourceContinuity.insert source.id (state.elim 0 (·.continuity))
      partialSources :=
        if state.all fun s => encounter.startReceipt < s.registeredAt then
          encounter.partialSources.insert source.id
        else encounter.partialSources
      managed := insert source.participant encounter.managed }

/-- What an attempt changes in the encounter it sustains. -/
def EncounterState.attempt (encounter : EncounterState) (index : Nat) (fact : LedgerFact) :
    EncounterState :=
  ({ encounter with
    phase := match encounter.phase with
      | .ending .inactivity .. => .active
      | phase => phase }.sustain fact).pushFact index

namespace CombatEngine
variable (e : CombatEngine)

/-- `add_source_member`. -/
def addSourceMember (encounterId : EncounterId) (source : LogSource) : CombatEngine :=
  e.updEncounter encounterId fun encounter => encounter.addSource source e.sources[source.id]?

/-- `enter_ending`. -/
def enterEnding (id : EncounterId) (reason : EndReason) (now : MonoTime) (cutoff : EqSecond) :
    CombatEngine :=
  e.updEncounter id fun encounter => encounter.enterEnding reason now cutoff

/-- The fact belongs to the encounter. -/
def assign (index : Nat) (id : EncounterId) : CombatEngine :=
  { e with assignments := e.assignments.insert index id }

/-- `merge_encounters` once both encounters are found: the chosen id keeps everything. -/
def absorb (chosenId otherId : EncounterId) (chosen other : EncounterState) : CombatEngine :=
  let repoint (id : EncounterId) : EncounterId := if id = otherId then chosenId else id
  { e with
    encounters := (e.encounters.erase otherId).insert chosenId (chosen.absorb other)
    assignments := e.assignments.map fun _ id => repoint id
    sourceActive := e.sourceActive.map fun _ id => repoint id }

/-- `merge_encounters`: the smaller id absorbs the other encounter. -/
def mergeEncounters (left right : EncounterId) : CombatEngine × EncounterId :=
  if left = right then (e, left)
  else
    let chosenId := if left ≤ right then left else right
    let otherId := if chosenId = left then right else left
    match e.encounters[chosenId]?, e.encounters[otherId]? with
    | none, _ => (e, otherId)
    | some _, none => (e, chosenId)
    | some chosen, some other => (e.absorb chosenId otherId chosen other, chosenId)

/-- The first live encounter of the server that has seen the fingerprint. -/
def correlated (server : Str) (fingerprint : Fingerprint) : Option EncounterId :=
  (e.encounters.toList.find? fun entry =>
    !entry.2.phase.isHeld && entry.2.server.eqIgnoreAsciiCase server &&
      decide (fingerprint ∈ entry.2.fingerprints)).map (·.1)

/-- The encounter a damage fact is routed to: the one its source is in, merged with the one that
already has the fingerprint. -/
def routeDamage (fact : LedgerFact) (v : DamageView) : CombatEngine × Option EncounterId :=
  match e.sourceActive[fact.source.id]?, e.correlated fact.source.server v.fingerprint with
  | some current, some correlated =>
    if current ≠ correlated then
      let (e, id) := e.mergeEncounters current correlated
      (e, some id)
    else (e, some current)
  | some current, none => (e, some current)
  | none, some correlated => (e, some correlated)
  | none, none => (e, none)

/-- Outcome of the `Ending` test of `process_damage`. -/
inductive ClosureRule
  /-- The routed encounter, if any, takes the fact. -/
  | keep
  /-- The fact reopens the encounter. -/
  | resumes
  /-- A fact of the closed interval from a source outside the closure set. -/
  | excluded
  /-- The fact belongs to later combat. -/
  | detached
deriving DecidableEq, Repr

/-- The `Ending` test of `process_damage` on the routed encounter. -/
def closureRule (fact : LedgerFact) (v : DamageView) (id : Option EncounterId) : ClosureRule :=
  match id.bind (e.encounters[·]?) with
  | none => .keep
  | some encounter =>
    match encounter.phase with
    | .ending reason _ cutoff closureSources =>
      let closureSource := closureSources.contains fact.source.id
      let resumes := closureSource && match reason with
        | .inactivity => true
        | .allTargetsTerminal => encounter.targets.contains v.targetId && cutoff < fact.eqTime
      if resumes then .resumes
      else if !closureSource || cutoff < fact.eqTime then
        if !closureSource && fact.eqTime ≤ cutoff then .excluded else .detached
      else .keep
    | _ => .keep

/-- Combat at or before the end of a held encounter its source took part in. -/
def lateAfterClosure (fact : LedgerFact) : Bool :=
  e.encounters.toList.any fun entry =>
    entry.2.phase.isHeld && entry.2.sources.contains fact.source.id &&
      entry.2.server.eqIgnoreAsciiCase fact.source.server && fact.eqTime ≤ entry.2.endEq

/-- Open an encounter for a start-qualified fact, or take the one that already has the derived id;
`none` at the encounter bound. -/
def openEncounter (fact : LedgerFact) (v : DamageView) : Option (CombatEngine × EncounterId) :=
  let id := encounterId fact v.targetId v.participant
  if e.encounters.contains id then some (e, id)
  else if e.policy.maxEncounters ≤ e.encounters.size then none
  else
    let continuity := (e.sources[fact.source.id]?).elim 0 (·.continuity)
    let opened := EncounterState.opened id fact continuity (e.managedIdentities fact.source.server)
    some ({ e with encounters := e.encounters.insert id opened }, id)

/-- Everything `process_damage` decides before it records the fact. -/
def placeDamage (fact : LedgerFact) (v : DamageView) : CombatEngine × Option EncounterId :=
  let (e, routed) := e.routeDamage fact v
  match e.closureRule fact v routed with
  | .excluded => (e, none)
  | .resumes => ((routed.elim e fun id => e.updEncounter id (·.resume v.targetId)), routed)
  | rule =>
    match if rule = .keep then routed else none with
    | some id => (e, some id)
    | none =>
      if e.lateAfterClosure fact then
        (e.diagnose "ignored LateAfterClosure combat for an immutable held encounter", none)
      else if v.startQualified then
        match e.openEncounter fact v with
        | some (e, id) => (e, some id)
        | none => (e.diagnose "combat encounter bound reached; ignored a new unrelated encounter", none)
      else (e, none)

/-- The damage facts of `source` on `target` in the thirty seconds before `anchor` that no encounter
has yet. -/
def promotable (source : LogSourceId) (target : CanonicalTargetId) (anchor : EqSecond) : List Nat :=
  let earliest := (checkedAddI64 anchor (-30)).getD (-2 ^ 63)
  (e.ledger.zipIdx.filter fun entry =>
    let fact := entry.1
    !e.assignments.contains entry.2 && fact.source.id == source && earliest ≤ fact.eqTime &&
      fact.eqTime ≤ anchor &&
      match fact.event with
      | .damage damage =>
        canonicalTargetId (resolveObserved fact.source damage.defender).1 == target &&
          possiblePlayerName (resolveObserved fact.source damage.attacker).1
      | _ => false).map (·.2)

/-- One round of the loop in `promote_prior_facts`. -/
def promoteFact (encounterId : EncounterId) (index : Nat) : CombatEngine :=
  match e.ledger[index]? with
  | none => e
  | some fact => (e.updEncounter encounterId (·.promote index fact)).assign index encounterId

/-- `promote_prior_facts`. -/
def promotePriorFacts (encounterId : EncounterId) (source : LogSourceId)
    (target : CanonicalTargetId) (anchor : EqSecond) : CombatEngine :=
  (e.promotable source target anchor).foldl (fun e index => e.promoteFact encounterId index) e

/-- The encounter already knows the target of the fact. -/
def knownTarget (id : EncounterId) (target : CanonicalTargetId) : Bool :=
  (e.encounters[id]?).any (·.targets.contains target)

/-- The fact counts towards the encounter: it is start-qualified, or a possible player hits a known
target. -/
def contributes (id : EncounterId) (v : DamageView) : Bool :=
  let possibleParticipant := v.attackerVerified || decide (v.participant ∈ e.verifiedPlayers) ||
    possiblePlayerName v.attackerDisplay
  v.positive && !v.defenderIsPlayer && !v.selfAttack &&
    (v.startQualified || (e.knownTarget id v.targetId && possibleParticipant))

/-- What `process_damage` writes to the encounter it placed the fact in. -/
def listDamage (index : Nat) (fact : LedgerFact) (v : DamageView) (id : EncounterId) : CombatEngine :=
  let contributes := e.contributes id v
  let e := e.addSourceMember id fact.source
  let e := e.updEncounter id fun encounter =>
    ((if contributes then encounter.contribute fact v else encounter).sustain fact).pushFact index
  let e := e.assign index id
  { e with sourceActive := e.sourceActive.insert fact.source.id id }

/-- The end of `process_damage`: the fact is dropped unless it contributes or its target is known. -/
def recordDamage (index : Nat) (fact : LedgerFact) (v : DamageView) (id : EncounterId) :
    CombatEngine :=
  if !e.contributes id v && !e.knownTarget id v.targetId then e
  else
    let e := e.listDamage index fact v id
    if v.startQualified then e.promotePriorFacts id fact.source.id v.targetId fact.eqTime else e

/-- `process_damage`. -/
def processDamage (index : Nat) (fact : LedgerFact) (damage : DamageObservation) : CombatEngine :=
  let v := e.viewDamage fact damage
  match e.placeDamage fact v with
  | (e, none) => e
  | (e, some id) => e.recordDamage index fact v id

/-- The encounter an attempt sustains. -/
def attemptTarget (fact : LedgerFact) (attempt : CombatAttempt) : Option EncounterId :=
  let target := canonicalTargetId (resolveObserved fact.source attempt.defender).1
  let incomingTarget := canonicalTargetId (resolveObserved fact.source attempt.attacker).1
  (e.sourceActive[fact.source.id]?).filter fun id =>
    e.knownTarget id target || e.knownTarget id incomingTarget

/-- `process_attempt`. -/
def processAttempt (index : Nat) (fact : LedgerFact) (attempt : CombatAttempt) : CombatEngine :=
  match e.attemptTarget fact attempt with
  | none => e
  | some id => (e.updEncounter id (EncounterState.attempt · index fact)).assign index id

/-- The encounter a slain observation is about: the one of its source, else the first live one of the
server that knows the target. -/
def slainTarget (fact : LedgerFact) (targetId : CanonicalTargetId) : Option EncounterId :=
  ((e.sourceActive[fact.source.id]?).filter fun id => e.knownTarget id targetId).or <|
    (e.encounters.toList.find? fun entry =>
      !entry.2.phase.isHeld && entry.2.server.eqIgnoreAsciiCase fact.source.server &&
        entry.2.targets.contains targetId).map (·.1)

/-- `process_slain`. -/
def processSlain (index : Nat) (fact : LedgerFact) (slain : TargetSlainObservation) : CombatEngine :=
  let targetId := canonicalTargetId (resolveObserved fact.source slain.target).1
  match e.slainTarget fact targetId with
  | none => e
  | some id =>
    let e := e.addSourceMember id fact.source
    let e := e.updEncounter id fun encounter => (encounter.slay targetId fact.eqTime).pushFact index
    let e := e.assign index id
    if (e.encounters[id]?).any (·.allTerminal) then
      e.enterEnding id .allTargetsTerminal fact.receipt fact.eqTime
    else e

end CombatEngine
end Stonemite.Combat
