import Stonemite.Combat.Routing

/-!
# Time and publication

`advance_time` closes sources, ends, finalizes and expires encounters; `rebuild_book` publishes the
book.
-/

open Std

namespace Stonemite.Combat

/-- `rebuild_book` takes the frozen snapshot of an encounter, else its last live one. -/
def EncounterState.published (encounter : EncounterState) : Option EncounterSnapshot :=
  encounter.frozen.or encounter.lastSnapshot

/-- An encounter of `ending` that `advance_time` finalizes. -/
structure EndingDue where
  id : EncounterId
  reason : EndReason
  cutoff : EqSecond
  closureSources : List LogSourceId
  allClosed : Bool

namespace CombatEngine
variable (e : CombatEngine)

/-- The first loop of `advance_time`: a source at a stable end of file is closed through its last
second. -/
def closeStableSources (now : MonoTime) : CombatEngine :=
  { e with sources := e.sources.map fun _ source =>
      if 2 ≤ source.eofPasses && source.eofFirstAt.any fun first =>
          e.policy.stableEofMs ≤ now.since first then
        match source.observed with
        | some observed =>
          { source with closedThrough := some (source.closedThrough.elim observed (max · observed)) }
        | none => source
      else source }

/-- The encounters without sustaining combat for the inactivity time, with their cutoffs. -/
def inactive (now : MonoTime) : List (EncounterId × EqSecond) :=
  (e.encounters.toList.filter fun entry =>
    (match entry.2.phase with
      | .active => true
      | _ => false) && e.policy.inactivityMs ≤ now.since entry.2.lastSustainReceipt).map
    fun entry => (entry.1, entry.2.lastSustainEq)

/-- The encounters that have been idle enter their grace. -/
def endInactive (now : MonoTime) : CombatEngine :=
  (e.inactive now).foldl (fun e entry => e.enterEnding entry.1 .inactivity now entry.2) e

/-- The source is closed through the cutoff. -/
def closedThroughCutoff (source : LogSourceId) (cutoff : EqSecond) : Bool :=
  ((e.sources[source]?).bind (·.closedThrough)).any (cutoff ≤ ·)

/-- The encounters in their ending grace whose sources are all closed or whose grace is over. -/
def endingDue (now : MonoTime) : List EndingDue :=
  e.encounters.toList.filterMap fun entry =>
    match entry.2.phase with
    | .ending reason enteredAt cutoff closureSources =>
      let allClosed := closureSources.toList.all fun source => e.closedThroughCutoff source cutoff
      if allClosed || e.policy.endingGraceMs ≤ now.since enteredAt then
        some { id := entry.1, reason, cutoff, closureSources := closureSources.toList, allClosed }
      else none
    | _ => none

/-- The sources that have not reached the cutoff become partial. -/
def notePartial (due : EndingDue) : CombatEngine :=
  if due.allClosed then e
  else e.updEncounter due.id fun encounter =>
    let lagging := due.closureSources.filter fun source => !e.closedThroughCutoff source due.cutoff
    { encounter with
      partialSources := lagging.foldl (fun set source => set.insert source) encounter.partialSources }

/-- The first write of `finalize`: the phase is `Held`. -/
def markHeld (id : EncounterId) (reason : EndReason) (now : MonoTime) : CombatEngine :=
  e.updEncounter id fun encounter =>
    { encounter with phase := .held reason (MonoTime.add now e.policy.heldMs) }

/-- The snapshot `finalize` freezes: the projection of the held encounter. -/
def frozenSnapshot (encounter : EncounterState) (reason : EndReason) (til : MonoTime) :
    Option EncounterSnapshot :=
  (e.computeSnapshot encounter 0).map fun snapshot =>
    let snapshot := { snapshot with phase := .held, endReason := some reason, heldUntil := some til }
    { snapshot with revision := encounterRevision snapshot }

/-- The second write of `finalize`. -/
def freeze (id : EncounterId) (reason : EndReason) (now : MonoTime) : CombatEngine :=
  match (e.encounters[id]?).bind fun encounter =>
      e.frozenSnapshot encounter reason (MonoTime.add now e.policy.heldMs) with
  | some snapshot => e.updEncounter id fun encounter =>
      { encounter with
        revision := snapshot.revision, lastSnapshot := some snapshot, frozen := some snapshot }
  | none => e

/-- `finalize`. -/
def finalize (id : EncounterId) (reason : EndReason) (now : MonoTime) : CombatEngine :=
  let e := (e.markHeld id reason now).freeze id reason now
  { e with sourceActive := e.sourceActive.filter fun _ encounter => encounter ≠ id }

/-- One round of the finalizing loop. -/
def finalizeDue (now : MonoTime) (due : EndingDue) : CombatEngine :=
  (e.notePartial due).finalize due.id due.reason now

/-- The encounters whose grace is over are held. -/
def finalizeEnding (now : MonoTime) : CombatEngine :=
  (e.endingDue now).foldl (fun e due => e.finalizeDue now due) e

/-- The held encounters whose hold is over. -/
def expired (now : MonoTime) : List EncounterId :=
  (e.encounters.toList.filter fun entry =>
    match entry.2.phase with
    | .held _ til => til ≤ now
    | _ => false).map (·.1)

/-- The last part of `advance_time`; the ledger goes with the last encounter. -/
def expireHeld (now : MonoTime) : CombatEngine :=
  let expired := e.expired now
  let e := { e with encounters := expired.foldl (fun map id => map.erase id) e.encounters }
  if !expired.isEmpty && e.encounters.isEmpty && !e.ledger.isEmpty then
    { e with ledger := [], assignments := ∅ }
  else e

/-- `advance_time`, with its urgency: immediate when anything ended, was finalized or expired. -/
def advanceTime (now : MonoTime) (urgency : PublishUrgency) : CombatEngine × PublishUrgency :=
  let closed := e.closeStableSources now
  let ended := closed.endInactive now
  let finalized := ended.finalizeEnding now
  let quiet := (closed.inactive now).isEmpty && (ended.endingDue now).isEmpty &&
    (finalized.expired now).isEmpty
  (finalized.expireHeld now, if quiet then urgency else .immediate)

/-- The live part of `rebuild_book` for one encounter: a changed projection replaces the last one. -/
def refresh (encounter : EncounterState) : EncounterState :=
  if encounter.phase.isHeld then encounter
  else match e.computeSnapshot encounter 0 with
  | none => encounter
  | some candidate =>
    if encounter.lastSnapshot.any fun previous => { previous with revision := 0 } = candidate then
      encounter
    else
      let revision := encounterRevision candidate
      { encounter with revision, lastSnapshot := some { candidate with revision } }

/-- The encounters after the refresh loop; a projection reads no cached snapshot, so the rounds of
the loop are independent. -/
def refreshAll : CombatEngine := { e with encounters := e.encounters.map fun _ => e.refresh }

/-- The entries of the book, by encounter id. -/
def bookEntries : List EncounterSnapshot :=
  sortBy (fun left right => compare left.id right.id)
    (e.encounters.toList.filterMap fun entry => entry.2.published)

/-- `rebuild_book`. -/
def rebuildBook : CombatEngine × Option EncounterBookSnapshot :=
  let e := e.refreshAll
  let snapshots := e.bookEntries
  if e.currentBook.encounters = snapshots then (e, none)
  else
    let book : EncounterBookSnapshot := { revision := bookRevision snapshots, encounters := snapshots }
    ({ e with currentBook := book }, some book)

/-- `next_deadline`. -/
def nextDeadline : Option MonoTime :=
  let encounterDeadlines := e.encounters.toList.map fun entry =>
    match entry.2.phase with
    | .active => MonoTime.add entry.2.lastSustainReceipt e.policy.inactivityMs
    | .ending _ enteredAt .. => MonoTime.add enteredAt e.policy.endingGraceMs
    | .held _ til => til
  let eofDeadlines := e.sources.toList.filterMap fun s =>
    if 2 ≤ s.2.eofPasses then s.2.eofFirstAt.map fun at' => MonoTime.add at' e.policy.stableEofMs
    else none
  (encounterDeadlines ++ eofDeadlines).min?

/-- `lifecycle_signature`. -/
def lifecycleSignature : List (EncounterId × EncounterPhase) :=
  e.encounters.toList.map fun entry => (entry.2.id, entry.2.phase.shown)

end CombatEngine
end Stonemite.Combat
