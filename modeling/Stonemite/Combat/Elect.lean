import Stonemite.Combat.Identity

/-!
# Source election and the snapshot of an encounter

`elect` builds one candidate for every participant and source from the facts of an encounter and
lets one source win the whole participant; `compute_snapshot` ranks the winners.
-/

open Std

namespace Stonemite.Combat

/-- What one source has seen of a participant. -/
structure Candidate where
  participant : ParticipantId
  display : Str
  source : LogSourceId
  complete : Bool
  personal : Bool
  provisionalPet : Bool
  hasPet : Bool := false
  directDamage : Nat := 0
  petDamage : Nat := 0
  damage : Nat := 0
  events : Nat := 0
  ranges : ExtTreeMap CanonicalTargetId (EqSecond × EqSecond) := ∅
  targetDamage : ExtTreeMap CanonicalTargetId Nat := ∅
  targetFirst : ExtTreeMap CanonicalTargetId EqSecond := ∅
  activeSeconds : Nat := 1

/-- The source that counts for a participant, and those that do not. -/
structure Election where
  winner : Candidate
  quality : SourceQuality
  losers : List (LogSourceId × Nat)

/-- What `elect` reads off a fact that counts. -/
structure Counted where
  participant : ParticipantId
  source : LogSourceId
  display : Str
  complete : Bool
  personal : Bool
  provisionalPet : Bool
  /-- The attacker has an owner. -/
  owned : Bool
  target : CanonicalTargetId
  amount : Nat
  eqTime : EqSecond
deriving DecidableEq

/-- Candidates are kept by participant, then by source. -/
abbrev CandidateKey := ParticipantId ×ₗ LogSourceId

instance CandidateKey.transOrd : TransOrd CandidateKey := inferInstance

/-- The participant and the source of a fact. -/
def Counted.key (c : Counted) : CandidateKey := toLex (c.participant, c.source)

/-- The candidate `or_insert_with` starts from. -/
def Counted.start (c : Counted) : Candidate where
  participant := c.participant
  display := c.display
  source := c.source
  complete := c.complete
  personal := c.personal
  provisionalPet := c.provisionalPet

/-- Add a counted fact to a candidate; `none` when a total overflows. -/
def Candidate.add (candidate : Candidate) (c : Counted) : Option Candidate := do
  let damage ← checkedAdd 128 candidate.damage c.amount
  let pet := c.owned || c.provisionalPet
  let petDamage ← if pet then checkedAdd 128 candidate.petDamage c.amount else some candidate.petDamage
  let directDamage ←
    if pet then some candidate.directDamage else checkedAdd 128 candidate.directDamage c.amount
  let events ← checkedAdd 64 candidate.events 1
  let total ← checkedAdd 128 (candidate.targetDamage.getD c.target 0) c.amount
  let first := (candidate.targetFirst[c.target]?).elim c.eqTime (min · c.eqTime)
  let range := (candidate.ranges[c.target]?).elim (c.eqTime, c.eqTime) fun r =>
    (min r.1 c.eqTime, max r.2 c.eqTime)
  some { candidate with
    damage, petDamage, directDamage, events
    hasPet := if pet then c.owned else candidate.hasPet
    targetDamage := candidate.targetDamage.insert c.target total
    targetFirst := candidate.targetFirst.insert c.target first
    ranges := candidate.ranges.insert c.target range }

/-- `candidate_cmp`. -/
def Candidate.cmp (left right : Candidate) : Ordering :=
  (compare left.complete right.complete).then <| (compare left.damage right.damage).then <|
    (compare left.events right.events).then <|
    (compare left.targetDamage.size right.targetDamage.size).then <|
    (compare left.activeSeconds right.activeSeconds).then (compare right.source left.source)

/-- The first best candidate of `options` by `candidate_cmp`. -/
def bestIndex (options : List Candidate) : Nat :=
  (List.range' 1 (options.length - 1)).foldl (fun best index =>
    match options[index]?, options[best]? with
    | some candidate, some current => if candidate.cmp current = .gt then index else best
    | _, _ => best) 0

/-- How far the winner is to be trusted. -/
def Candidate.quality (winner : Candidate) : SourceQuality :=
  if winner.provisionalPet then .provisionalPet
  else if winner.personal && winner.complete then .authoritativePersonal
  else if winner.complete then .completeObserver
  else if winner.personal then .incompletePersonal
  else .bestPartialObserver

/-- The election of one participant; `options` is never empty there. -/
def electOne (options : List Candidate) : Option Election :=
  let options := sortBy (fun left right => compare left.source right.source) options
  let authoritative := options.findIdx? fun candidate => candidate.personal && candidate.complete
  let winnerIndex := authoritative.getD (bestIndex options)
  options[winnerIndex]?.map fun winner =>
    { winner
      quality := winner.quality
      losers := (options.eraseIdx winnerIndex).map fun c => (c.source, c.damage) }

/-- The candidates by their participants. -/
def groupCandidates (candidates : List Candidate) : ExtTreeMap ParticipantId (List Candidate) :=
  candidates.foldl (fun grouped candidate =>
    grouped.insert candidate.participant (grouped.getD candidate.participant [] ++ [candidate])) ∅

/-- The candidate with the seconds it was active. -/
def Candidate.withActiveSeconds (bridgeSeconds : Int) (candidate : Candidate) : Candidate :=
  { candidate with
    activeSeconds := unionRangeSeconds (candidate.ranges.toList.map (·.2)) bridgeSeconds }

/-- The source covered the encounter from its start without a discontinuity. -/
def EncounterState.coveredBy (encounter : EncounterState) (id : LogSourceId) (state : SourceState) :
    Bool :=
  encounter.sourceContinuity[id]? == some state.continuity && !encounter.partialSources.contains id &&
    state.registeredAt ≤ encounter.startReceipt

/-- Elected damage and earliest second of every target. -/
def targetTotals (encounter : EncounterState) (elections : List Election) :
    Option (ExtTreeMap CanonicalTargetId (Nat × EqSecond)) :=
  elections.foldlM (fun totals election =>
    election.winner.targetDamage.toList.foldlM (fun totals entry =>
      let first := (election.winner.targetFirst[entry.1]?).getD encounter.startEq
      let current := totals.getD entry.1 (0, first)
      (checkedAdd 128 current.1 entry.2).map fun total =>
        totals.insert entry.1 (total, min current.2 first)) totals) ∅

/-- More damage is less, then the earlier target. -/
def primaryCmp (left right : CanonicalTargetId × (Nat × EqSecond)) : Ordering :=
  (compare left.2.1 right.2.1).then <| (compare right.2.2 left.2.2).then (compare right.1 left.1)

/-- Ranking order: damage, then DPS, both descending, then participant. -/
def rowCmp (left right : DpsRowSnapshot) : Ordering :=
  (compare right.damage left.damage).then <| (compare right.dps left.dps).then
    (compare left.participant right.participant)

/-- The rows in their order, under their ranks. -/
def rankRows (rows : List DpsRowSnapshot) : List DpsRowSnapshot :=
  (sortBy rowCmp rows).mapIdx fun index row => { row with rank := index + 1 }

namespace CombatEngine
variable (e : CombatEngine)

/-- `comparison_watermark`. -/
def comparisonWatermark (encounter : EncounterState) : Option EqSecond :=
  if encounter.phase.isHeld then some encounter.endEq
  else
    let states := encounter.sources.toList.filterMap fun id => (e.sources[id]?).map fun s => (id, s)
    let maxObserved := (states.filterMap fun s => s.2.observed).max?
    let lagging (state : SourceState) : Bool :=
      match maxObserved, state.observed with
      | some leader, some observed =>
        (checkedSubI64 leader observed).any fun gap => e.policy.lagEqSeconds ≤ gap &&
          e.policy.lagReceiptMs ≤ e.now.since state.lastProgressAt
      | _, _ => false
    let complete := states.filter fun s => encounter.coveredBy s.1 s.2 && !lagging s.2
    let comparison := (if complete.isEmpty then states else complete).map (·.2)
    match comparison with
    | [] => none
    | [only] => only.closedThrough.or only.observed
    | many =>
      if many.all (·.closedThrough.isSome) then (many.filterMap (·.closedThrough)).min?
      else some ((checkedAddI64 encounter.startEq (-1)).getD (-2 ^ 63))

/-- The checks of `elect` on one fact; `none` when the fact does not count. -/
def classify (encounter : EncounterState) (watermark : Option EqSecond) (fact : LedgerFact) :
    Option Counted :=
  if watermark.any (· < fact.eqTime) then none
  else match fact.event with
  | .damage damage =>
    if !damage.positive then none
    else
      let (attackerDisplay, attacker) := resolveObserved fact.source damage.attacker
      let (defenderDisplay, defender) := resolveObserved fact.source damage.defender
      let target := canonicalTargetId defenderDisplay
      if !encounter.targets.contains target || defender ∈ e.verifiedPlayers then none
      else
        let explicitOwner := damage.explicitOwner.map (resolveObserved fact.source)
        let owner := (explicitOwner.map (·.2)).or
          (e.claimedOwnerInEncounter fact.source attackerDisplay encounter)
        let provisionalPet := owner.isNone && damage.kind == .pet
        let participant := owner.getD attacker
        if participant = defender then none
        else if !(owner.isSome || provisionalPet || decide (attacker ∈ e.verifiedPlayers) ||
            damage.attacker.perspective != .named || possiblePlayerName attackerDisplay) then none
        else some
          { participant
            source := fact.source.id
            display := ((explicitOwner.map (·.1)).or (owner.bind e.displayForParticipant)).getD
              attackerDisplay
            complete := (e.sources[fact.source.id]?).any (encounter.coveredBy fact.source.id)
            personal := participant == fact.source.participant
            provisionalPet
            owned := owner.isSome
            target
            amount := damage.amount
            eqTime := fact.eqTime }
  | _ => none

/-- One round of the fact loop; `none` when the fact is missing or a total overflows. -/
def electStep (encounter : EncounterState) (watermark : Option EqSecond)
    (candidates : ExtTreeMap CandidateKey Candidate) (index : Nat) :
    Option (ExtTreeMap CandidateKey Candidate) :=
  (e.ledger[index]?).bind fun fact =>
    match e.classify encounter watermark fact with
    | none => some candidates
    | some c => ((candidates.getD c.key c.start).add c).map (candidates.insert c.key)

/-- The candidates of an encounter, before active time. -/
def candidates (encounter : EncounterState) : Option (ExtTreeMap CandidateKey Candidate) :=
  encounter.facts.foldlM (e.electStep encounter (e.comparisonWatermark encounter)) ∅

/-- `elect`. -/
def elect (encounter : EncounterState) : Option (ExtTreeMap ParticipantId Election) :=
  (e.candidates encounter).map fun candidates =>
    let timed := candidates.toList.map fun c =>
      Candidate.withActiveSeconds e.policy.activeRangeBridgeSeconds c.2
    (groupCandidates (timed.filter (0 < ·.damage))).filterMap fun _ options => electOne options

def electionRow (encounter : EncounterState) (encounterSeconds raidDamage : Nat)
    (election : Election) : Option DpsRowSnapshot := do
  let winner := election.winner
  let activeSeconds := max winner.activeSeconds 1
  let dps ← roundRate winner.damage activeSeconds
  let sdps ← roundRate winner.damage encounterSeconds
  some
    { rank := 0
      participant := winner.participant
      displayName := winner.display
      managed := decide (winner.participant ∈ encounter.managed) || e.isManaged winner.participant
      hasPetDamage := winner.hasPet
      provisionalPet := winner.provisionalPet
      damage := winner.damage
      activeSeconds, dps, sdps
      contributionMillionths := ratioMillionths winner.damage raidDamage
      sourceQuality := election.quality
      electedSource := winner.source }

/-- `compute_snapshot` once the raid damage is known. -/
def snapshotOf (encounter : EncounterState) (revision : UInt64) (winners : List Election) (raidDamage : Nat) :
    Option EncounterSnapshot := do
  let encounterSeconds := inclusiveSeconds encounter.startEq encounter.endEq
  let totals ← targetTotals encounter winners
  let primary ← maxBy? primaryCmp totals.toList
  let additional := totals.size - 1
  let primaryDisplay := ((encounter.targets[primary.1]?).map (·.display)).getD primary.1
  let title := if additional = 0 then primaryDisplay
    else primaryDisplay ++ " +".toList ++ Str.decimal additional ++ " mobs".toList
  let rows ← (winners.filter (0 < ·.winner.damage)).mapM
    (e.electionRow encounter encounterSeconds raidDamage)
  some
    { id := encounter.id
      revision
      phase := encounter.phase.shown
      endReason := match encounter.phase with
        | .active => none
        | .ending reason .. => some reason
        | .held reason _ => some reason
      title
      primaryTarget := primary.1
      additionalTargetNames := additional
      encounterSeconds
      raidDamage
      rows := rankRows rows
      sourceMembers := encounter.sources.toList
      lastSustainedAt := encounter.lastSustainEq
      heldUntil := match encounter.phase with
        | .held _ til => some til
        | _ => none }

/-- `compute_snapshot`. -/
def computeSnapshot (encounter : EncounterState) (revision : UInt64) : Option EncounterSnapshot :=
  (e.elect encounter).bind fun elections =>
    let winners := elections.toList.map (·.2)
    if winners.isEmpty then none
    else (winners.foldlM (fun total election => checkedAdd 128 total election.winner.damage) 0).bind
      fun raidDamage =>
        if raidDamage = 0 then none else e.snapshotOf encounter revision winners raidDamage

end CombatEngine

/-! ### Revisions -/

/-- `hash_bytes`: FNV-1a over the bytes and one closing mark. -/
def hashBytes (hash : UInt64) (bytes : List UInt8) : UInt64 :=
  ((bytes.foldl (fun h b => (h ^^^ b.toUInt64) * 0x100000001b3) hash) ^^^ 0xff) * 0x100000001b3

def leBytes (width n : Nat) : List UInt8 := (List.range width).map fun i => UInt8.ofNat (n >>> (8 * i))

def hashU64 (hash : UInt64) (value : Nat) : UInt64 := hashBytes hash (leBytes 8 value)

def hashStr (hash : UInt64) (s : Str) : UInt64 := hashBytes hash s.bytes

def EncounterPhase.toNat : EncounterPhase → Nat
  | .active => 0
  | .endingGrace => 1
  | .held => 2

def EndReason.toNat : EndReason → Nat
  | .allTargetsTerminal => 0
  | .inactivity => 1

def SourceQuality.toNat : SourceQuality → Nat
  | .authoritativePersonal => 0
  | .completeObserver => 1
  | .bestPartialObserver => 2
  | .incompletePersonal => 3
  | .provisionalPet => 4

def hashRow (hash : UInt64) (row : DpsRowSnapshot) : UInt64 :=
  let hash := hashU64 hash row.rank
  let hash := hashStr hash row.participant.server
  let hash := hashStr hash row.participant.canonicalName
  let hash := hashStr hash row.displayName
  let hash := hashU64 hash row.managed.toNat
  let hash := hashU64 hash row.hasPetDamage.toNat
  let hash := hashU64 hash row.provisionalPet.toNat
  let hash := hashBytes hash (leBytes 16 row.damage)
  let hash := hashU64 hash row.activeSeconds
  let hash := hashBytes hash (leBytes 16 row.dps)
  let hash := hashBytes hash (leBytes 16 row.sdps)
  let hash := hashU64 hash row.contributionMillionths
  let hash := hashU64 hash row.sourceQuality.toNat
  hashStr hash row.electedSource

/-- `encounter_revision`. -/
def encounterRevision (snapshot : EncounterSnapshot) : UInt64 :=
  let hash := hashStr 0xcbf29ce484222325 snapshot.id
  let hash := hashStr hash snapshot.title
  let hash := hashU64 hash snapshot.phase.toNat
  let hash := hashU64 hash (snapshot.endReason.elim (2 ^ 64 - 1) EndReason.toNat)
  let hash := hashU64 hash snapshot.additionalTargetNames
  let hash := hashU64 hash snapshot.encounterSeconds
  let hash := hashBytes hash (leBytes 8 (snapshot.lastSustainedAt % 2 ^ 64).toNat)
  let hash := hashBytes hash (leBytes 16 snapshot.raidDamage)
  let hash := hashStr hash snapshot.primaryTarget
  let hash := hashU64 hash (snapshot.heldUntil.getD (2 ^ 64 - 1))
  let hash := snapshot.sourceMembers.foldl hashStr hash
  max (snapshot.rows.foldl hashRow hash) 1

/-- `book_revision`. -/
def bookRevision (snapshots : List EncounterSnapshot) : UInt64 :=
  max (snapshots.foldl (fun hash s => hashU64 (hashStr hash s.id) s.revision.toNat)
    0xcbf29ce484222325) 1

end Stonemite.Combat
