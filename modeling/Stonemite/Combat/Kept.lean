import Stonemite.Combat.Effects
import Stonemite.Combat.Projection

/-!
# Invariants of the reducer, packaged once

A call reduces the events of an admitted record one by one, finalizes the encounters that are due,
expires held ones and publishes the book. `Kept` lists what an invariant of the routing state has to
survive; `Kept.step` and `Kept.run` turn that into an invariant of calls and of runs. Conditions on a
run are stated on the reductions and finalizations of its calls.
-/

open Std

namespace Stonemite.Combat

/-- The reduction of one event of a record, with the engine it meets. -/
structure Reduction where
  engine : CombatEngine
  record : CombatRecord
  eqTime : EqSecond
  now : MonoTime
  event : LogEvent

namespace Reduction
variable (r : Reduction)

/-- The engine after the reduction. -/
def result : CombatEngine := r.engine.reduceEvent r.record r.eqTime r.now r.event

/-- The event presents the fact. -/
def Presents (event : FactEvent) : Prop :=
  r.event = .combat (match event with
    | .damage damage => .damage damage
    | .attempt attempt => .attempt attempt
    | .slain slain => .targetSlain slain)

/-- The ledger fact of the event, and the index it gets. -/
def fact (event : FactEvent) : LedgerFact :=
  { record := r.record.id, source := r.record.source, eqTime := r.eqTime, receipt := r.now, event }

/-- The place of the fact in the ledger. -/
def index : Nat := r.engine.ledger.length

/-- The engine that routes the fact. -/
def pushed (event : FactEvent) : CombatEngine := r.engine.pushLedger (r.fact event)

/-- What the engine reads off the damage of the event. -/
def view (damage : DamageObservation) : DamageView :=
  (r.pushed (.damage damage)).viewDamage (r.fact (.damage damage)) damage

/-- Where the event opens or takes an encounter by its derived id, and that id. -/
def opening : Option (CombatEngine × EncounterId) :=
  match r.event with
  | .combat (.damage damage) =>
    let fact := r.fact (.damage damage)
    if (r.pushed (.damage damage)).opens fact (r.view damage) then
      some (((r.pushed (.damage damage)).routeDamage fact (r.view damage)).1,
        CombatEngine.openId fact (r.view damage))
    else none
  | _ => none

variable {r}

theorem opening_eq {damage : DamageObservation} (hr : r.event = .combat (.damage damage)) {e' : CombatEngine}
    (h : CombatEngine.Opens (r.pushed (.damage damage)) (r.fact (.damage damage)) (r.view damage) e') :
    r.opening = some (e', CombatEngine.openId (r.fact (.damage damage)) (r.view damage)) := by
  unfold opening
  rw [hr]
  dsimp only
  rw [if_pos h.opens, h.unplaced.engine]

theorem damage_spec {damage : DamageObservation} (h : r.event = .combat (.damage damage)) :
    CombatEngine.DamageSpec (r.pushed (.damage damage)) r.index (r.fact (.damage damage)) (r.view damage) r.result := by
  have hr : r.result = (r.pushed (.damage damage)).processDamage r.index (r.fact (.damage damage)) damage := by
    unfold result; rw [h]; rfl
  rw [hr]
  exact CombatEngine.processDamage_spec _ _ _ _

variable (r)

/-- The encounter at `id`, of the source, lists the attempt. -/
structure Attempted (attempt : CombatAttempt) (id : EncounterId) (encounter : EncounterState) : Prop where
  target : (r.pushed (.attempt attempt)).attemptTarget (r.fact (.attempt attempt)) attempt = some id
  active : r.engine.sourceActive[r.record.source.id]? = some id
  found : r.engine.encounters[id]? = some encounter
  result : r.result = { r.pushed (.attempt attempt) with
    encounters := r.engine.encounters.modify id (EncounterState.attempt · r.index (r.fact (.attempt attempt)))
    assignments := r.engine.assignments.insert r.index id }

/-- The encounter at `id` knows the slain target and lists the observation. -/
structure Slew (slain : TargetSlainObservation) (id : EncounterId) (encounter : EncounterState)
    (targetId : CanonicalTargetId) : Prop where
  target : targetId = canonicalTargetId (resolveObserved r.record.source slain.target).1
  about : (r.pushed (.slain slain)).slainTarget (r.fact (.slain slain)) targetId = some id
  found : r.engine.encounters[id]? = some encounter
  known : targetId ∈ encounter.targets
  live : r.engine.sourceActive[r.record.source.id]? = some id ∨ encounter.phase.isHeld = false
  result : r.result = { r.pushed (.slain slain) with
    encounters := r.engine.encounters.modify id
      (·.slaying (r.fact (.slain slain)) r.engine.sources[r.record.source.id]? r.index targetId)
    assignments := r.engine.assignments.insert r.index id }

variable {r}

theorem attempt_spec {attempt : CombatAttempt} (h : r.event = .combat (.attempt attempt)) :
    r.result = r.pushed (.attempt attempt) ∨ ∃ id encounter, r.Attempted attempt id encounter := by
  have hr : r.result = (r.pushed (.attempt attempt)).processAttempt r.index (r.fact (.attempt attempt)) attempt := by
    unfold result; rw [h]; rfl
  obtain hd | ⟨id, encounter, ht, hs, hn, hd⟩ :=
    CombatEngine.processAttempt_spec (r.pushed (.attempt attempt)) r.index (r.fact (.attempt attempt)) attempt
  · exact .inl (hr.trans hd)
  · exact .inr ⟨id, encounter, ht, hs, hn, hr.trans hd⟩

theorem slain_spec {slain : TargetSlainObservation} (h : r.event = .combat (.targetSlain slain)) :
    r.result = r.pushed (.slain slain) ∨ ∃ id encounter targetId, r.Slew slain id encounter targetId := by
  have hr : r.result = (r.pushed (.slain slain)).processSlain r.index (r.fact (.slain slain)) slain := by
    unfold result; rw [h]; rfl
  obtain hd | ⟨id, encounter, targetId, htarget, hslain, hn, ht, hl, hd⟩ :=
    CombatEngine.processSlain_spec (r.pushed (.slain slain)) r.index (r.fact (.slain slain)) slain
  · exact .inl (hr.trans hd)
  · exact .inr ⟨id, encounter, targetId, htarget, hslain, hn, ht, hl, hr.trans hd⟩

end Reduction

/-- The finalization of one encounter that is due, with the engine it meets. -/
structure Finalizing where
  engine : CombatEngine
  now : MonoTime
  due : EndingDue

/-- The engine after the encounter was held. -/
def Finalizing.result (f : Finalizing) : CombatEngine := f.engine.finalizeDue f.now f.due

/-- The encounter to finalize is still in its ending grace. -/
def Finalizing.Due (f : Finalizing) : Prop := f.engine.DueAt f.due

namespace CombatEngine

/-- The reductions of a list of events: the facts an earlier generation covers are not reduced. -/
def reductionsFrom (record : CombatRecord) (eqTime : EqSecond) (now : MonoTime) :
    CombatEngine → List LogEvent → List Reduction
  | _, [] => []
  | e, event :: rest =>
    (if event.isFact then
      match e.noteOccurrence ⟨record.id.source, record.id.generation, eqTime, event⟩ with
      | (_, true) => []
      | (e, false) => [⟨e, record, eqTime, now, event⟩]
    else [⟨e, record, eqTime, now, event⟩]) ++
      reductionsFrom record eqTime now (e.processEvent record eqTime now event) rest

def recordReductions (e : CombatEngine) (record : CombatRecord) (now : MonoTime) : List Reduction :=
  match e.accept record now with
  | (_, false) => []
  | (e, true) =>
    match e.datable record with
    | (_, none) => []
    | (e, some eqTime) => reductionsFrom record eqTime now (e.reserve record) record.events

/-- The engine whose full ledger a record withdraws, if it does. -/
def recordWithdrawals (e : CombatEngine) (record : CombatRecord) (now : MonoTime) : List CombatEngine :=
  match e.accept record now with
  | (_, false) => []
  | (e, true) =>
    match e.datable record with
    | (_, none) => []
    | (e, some _) =>
      if e.policy.maxLedgerFacts < e.ledger.length + record.events.countP LogEvent.isFact then [e] else []

/-- The withdrawals of a call. -/
def withdrawals (e : CombatEngine) : Call → List CombatEngine
  | .apply now (.record record) => (e.clock now).recordWithdrawals record now
  | _ => []

/-- The reductions of a call. -/
def reductions (e : CombatEngine) : Call → List Reduction
  | .apply now (.record record) => (e.clock now).recordReductions record now
  | _ => []

/-- The engine after the input of a call, before time advances. -/
def handled (e : CombatEngine) : Call → CombatEngine
  | .apply now input => ((e.clock now).handle now input).1
  | .tick now => e.clock now

/-- The encounters that are held one after the other. -/
def finalizingsFrom (now : MonoTime) : CombatEngine → List EndingDue → List Finalizing
  | _, [] => []
  | e, due :: rest => ⟨e, now, due⟩ :: finalizingsFrom now (e.finalizeDue now due) rest

/-- The engine of a call before its encounters are finalized. -/
def ended (e : CombatEngine) (call : Call) : CombatEngine :=
  let e := e.handled call
  (e.closeStableSources e.now).endInactive e.now

/-- The finalizations of a call. -/
def finalizings (e : CombatEngine) (call : Call) : List Finalizing :=
  finalizingsFrom (e.handled call).now (e.ended call) ((e.ended call).endingDue (e.handled call).now)

/-- The engine of a call when it publishes the book. -/
def settled (e : CombatEngine) (call : Call) : CombatEngine :=
  ((e.ended call).finalizeEnding (e.handled call).now).expireHeld (e.handled call).now

/-- The projections a rebuild may cache: those of the live encounters. -/
def projections (e : CombatEngine) : List EncounterSnapshot :=
  e.encounters.toList.filterMap fun entry =>
    if entry.2.phase.isHeld then none
    else (e.computeSnapshot entry.2 0).map fun candidate => { candidate with revision := encounterRevision candidate }

theorem mem_reductionsFrom {record : CombatRecord} {eqTime : EqSecond} {now : MonoTime} {events : List LogEvent}
    {e : CombatEngine} {r : Reduction} (h : r ∈ reductionsFrom record eqTime now e events) : r.record = record ∧ r.event ∈ events := by
  induction events generalizing e with
  | nil => exact absurd h List.not_mem_nil
  | cons event rest ih =>
    rcases List.mem_append.mp h with h | h
    · split_ifs at h
      · generalize e.noteOccurrence ⟨record.id.source, record.id.generation, eqTime, event⟩ = noted at h
        obtain ⟨e', replayed⟩ := noted
        cases replayed
        · rw [List.mem_singleton.mp h]
          exact ⟨rfl, List.mem_cons_self⟩
        · exact absurd h List.not_mem_nil
      · rw [List.mem_singleton.mp h]
        exact ⟨rfl, List.mem_cons_self⟩
    · exact (ih h).imp_right (List.mem_cons_of_mem _)

theorem tick_fst (e : CombatEngine) (now : MonoTime) :
    (e.tick now).1 = ((e.clock now).advanceTime (e.clock now).now .none).1.rebuildBook.1 := by
  unfold tick
  dsimp only

theorem apply_fst (e : CombatEngine) (now : MonoTime) (input : EngineInput) :
    (e.apply now input).1 = (((e.clock now).handle now input).1.advanceTime
      ((e.clock now).handle now input).1.now ((e.clock now).handle now input).2).1.rebuildBook.1 := by
  unfold apply
  dsimp only

theorem step_eq (e : CombatEngine) (call : Call) : e.step call = (e.settled call).rebuildBook.1 := by
  unfold settled ended
  cases call with
  | apply now input =>
    dsimp only [step, handled]
    rw [apply_fst, advanceTime]
  | tick now =>
    dsimp only [step, handled]
    rw [tick_fst, advanceTime]

end CombatEngine

/-- Everything about an encounter but its bookkeeping for elections and publication. -/
structure SameFacts (a b : EncounterState) : Prop where
  id : b.id = a.id
  server : b.server = a.server
  phase : b.phase = a.phase
  sources : b.sources = a.sources
  targets : b.targets = a.targets
  facts : b.facts = a.facts
  fingerprints : b.fingerprints = a.fingerprints
  startEq : b.startEq = a.startEq
  endEq : b.endEq = a.endEq
  frozen : b.frozen = a.frozen
  snapshot : b.lastSnapshot = a.lastSnapshot ∨
    a.phase.isHeld = false ∧ ∀ s, b.lastSnapshot = some s → s.id = a.id

namespace SameFacts
variable {a b c : EncounterState}

theorem refl (a : EncounterState) : SameFacts a a :=
  ⟨rfl, rfl, rfl, rfl, rfl, rfl, rfl, rfl, rfl, rfl, .inl rfl⟩

theorem trans (h : SameFacts a b) (h' : SameFacts b c) : SameFacts a c where
  id := h'.id.trans h.id
  server := h'.server.trans h.server
  phase := h'.phase.trans h.phase
  sources := h'.sources.trans h.sources
  targets := h'.targets.trans h.targets
  facts := h'.facts.trans h.facts
  fingerprints := h'.fingerprints.trans h.fingerprints
  startEq := h'.startEq.trans h.startEq
  endEq := h'.endEq.trans h.endEq
  frozen := h'.frozen.trans h.frozen
  snapshot := by
    obtain hb | ⟨hl, hb⟩ := h'.snapshot
    · rw [hb]
      exact h.snapshot
    · exact .inr ⟨h.phase ▸ hl, fun s hs => (hb s hs).trans h.id⟩

theorem heldSnapshot (h : SameFacts a b) (hp : a.phase.isHeld = true) : b.lastSnapshot = a.lastSnapshot :=
  h.snapshot.resolve_right fun h => by rw [hp] at h; cases h.1

end SameFacts

theorem sameFacts_refresh (e : CombatEngine) (a : EncounterState) : SameFacts a (e.refresh a) := by
  unfold CombatEngine.refresh
  split_ifs with hp
  · exact SameFacts.refl a
  · cases hs : e.computeSnapshot a 0 with
    | none => exact SameFacts.refl a
    | some candidate =>
      dsimp only
      split_ifs
      · exact SameFacts.refl a
      · refine ⟨rfl, rfl, rfl, rfl, rfl, rfl, rfl, rfl, rfl, rfl, .inr ⟨by simpa using hp, ?_⟩⟩
        rintro s ⟨⟩
        exact (CombatEngine.computeSnapshot_spec hs).id

theorem refresh_cached {e : CombatEngine} {id : EncounterId} {a : EncounterState} (ha : e.encounters[id]? = some a)
    {s : EncounterSnapshot} (h : (e.refresh a).lastSnapshot = some s) :
    a.lastSnapshot = some s ∨ s ∈ e.projections := by
  unfold CombatEngine.refresh at h
  cases hp : a.phase.isHeld with
  | true =>
    rw [hp, if_pos rfl] at h
    exact .inl h
  | false =>
    rw [hp, if_neg Bool.false_ne_true] at h
    cases hc : e.computeSnapshot a 0 with
    | none =>
      rw [hc] at h
      exact .inl h
    | some candidate =>
      rw [hc] at h
      dsimp only at h
      split_ifs at h
      · exact .inl h
      · obtain rfl := Option.some.inj h
        refine .inr (List.mem_filterMap.mpr ⟨(id, a), ExtTreeMap.mem_toList_of_lookup ha, ?_⟩)
        rw [hp, if_neg Bool.false_ne_true, hc]
        rfl

/-- The parts of the engine that routing reads and writes agree; players are only added. -/
structure SameRouting (e e' : CombatEngine) : Prop where
  policy : e'.policy = e.policy
  encounters : e'.encounters = e.encounters
  sourceActive : e'.sourceActive = e.sourceActive
  ledger : e'.ledger = e.ledger
  assignments : e'.assignments = e.assignments
  verified : e.verifiedPlayers ⊆ e'.verifiedPlayers

namespace SameRouting
variable {e e' e'' : CombatEngine}

theorem of_eq (hp : e'.policy = e.policy) (he : e'.encounters = e.encounters)
    (hs : e'.sourceActive = e.sourceActive) (hl : e'.ledger = e.ledger)
    (ha : e'.assignments = e.assignments) (hv : e'.verifiedPlayers = e.verifiedPlayers) :
    SameRouting e e' :=
  ⟨hp, he, hs, hl, ha, by rw [hv]⟩

theorem refl (e : CombatEngine) : SameRouting e e := of_eq rfl rfl rfl rfl rfl rfl

theorem trans (h : SameRouting e e') (h' : SameRouting e' e'') : SameRouting e e'' :=
  ⟨h'.policy.trans h.policy, h'.encounters.trans h.encounters, h'.sourceActive.trans h.sourceActive,
    h'.ledger.trans h.ledger, h'.assignments.trans h.assignments, h.verified.trans h'.verified⟩

theorem diagnose (e : CombatEngine) (message : String) : SameRouting e (e.diagnose message) :=
  of_eq rfl rfl rfl rfl rfl rfl

theorem updSource (e : CombatEngine) (id : LogSourceId) (f : SourceState → SourceState) :
    SameRouting e (e.updSource id f) :=
  of_eq rfl rfl rfl rfl rfl rfl

theorem remember (e : CombatEngine) (id : SourceRecordId) : SameRouting e (e.remember id) :=
  of_eq rfl rfl rfl rfl rfl rfl

theorem clock (e : CombatEngine) (now : MonoTime) : SameRouting e (e.clock now) :=
  of_eq rfl rfl rfl rfl rfl rfl

theorem noteOccurrence (e : CombatEngine) (key : Occurrence) : SameRouting e (e.noteOccurrence key).1 :=
  of_eq rfl rfl rfl rfl rfl rfl

theorem closeStableSources (e : CombatEngine) (now : MonoTime) : SameRouting e (e.closeStableSources now) :=
  of_eq rfl rfl rfl rfl rfl rfl

theorem verify (e : CombatEngine) (p : ParticipantId) :
    SameRouting e { e with verifiedPlayers := insert p e.verifiedPlayers } :=
  ⟨rfl, rfl, rfl, rfl, rfl, Finset.subset_insert _ _⟩

theorem addOwnership (e : CombatEngine) (source : LogSource) (pet : Str) (owner : ObservedCombatant)
    (eqTime : EqSecond) : SameRouting e (e.addOwnership source pet owner eqTime) :=
  ⟨rfl, rfl, rfl, rfl, rfl, Finset.subset_insert _ _⟩

theorem datable (e : CombatEngine) (record : CombatRecord) : SameRouting e (e.datable record).1 := by
  unfold CombatEngine.datable
  cases record.eqTime with
  | none => dsimp only; split_ifs; exacts [diagnose e _, refl e]
  | some t => dsimp only; split_ifs; exacts [diagnose e _, refl e]

theorem reduceEvent (e : CombatEngine) (record : CombatRecord) (eqTime : EqSecond) (now : MonoTime)
    {event : LogEvent} (h : event.isFact = false) :
    SameRouting e (e.reduceEvent record eqTime now event) := by
  cases event with
  | whoResult character => exact verify e _
  | ownershipClaimed pet owner => exact addOwnership e _ _ _ _
  | other => exact refl e
  | combat event =>
    cases event with
    | damage | attempt | targetSlain => simp [LogEvent.isFact] at h
    | petOwnership ownership => exact addOwnership e _ _ _ _
    | playerEvidence player => exact verify e _
    | zoneChanged zone => exact updSource e _ _
    | weaponDamageDealt | damageTaken | attackBlocked => exact refl e

end SameRouting

/-- Conditions on what the calls of a run do. -/
structure Conditions where
  reduction : Reduction → Prop := fun _ => True
  finalizing : Finalizing → Prop := fun _ => True
  /-- On the engine whose encounters are withdrawn. -/
  withdrawing : CombatEngine → Prop := fun _ => True
  /-- On the engine that expires its held encounters, and the time. -/
  expiring : CombatEngine → MonoTime → Prop := fun _ _ => True
  /-- On the projections that a rebuild may cache. -/
  caching : EncounterSnapshot → Prop := fun _ => True

/-- What an invariant has to survive under the conditions. -/
structure Kept (I : CombatEngine → Prop) (C : Conditions) : Prop where
  same : ∀ e e', SameRouting e e' → I e → I e'
  /-- Bookkeeping of the encounters: managed, partial, cached snapshots. -/
  retouch : ∀ e (f : EncounterId → EncounterState → EncounterState), (∀ id a, SameFacts a (f id a)) →
    (∀ (id : EncounterId) (a : EncounterState) s, e.encounters[id]? = some a → (f id a).lastSnapshot = some s →
      a.lastSnapshot = some s ∨ C.caching s) → I e → I { e with encounters := e.encounters.map f }
  withdraw : ∀ e message, C.withdrawing e → I e → I { e.diagnose message with encounters := ∅, sourceActive := ∅, ledger := [], assignments := ∅ }
  push : ∀ (r : Reduction) event, C.reduction r → r.Presents event → I r.engine → I (r.pushed event)
  damage : ∀ (r : Reduction) damage, C.reduction r → r.event = .combat (.damage damage) → I r.engine →
    CombatEngine.DamageSpec (r.pushed (.damage damage)) r.index (r.fact (.damage damage)) (r.view damage) r.result →
    I r.result
  attempt : ∀ (r : Reduction) attempt id encounter, C.reduction r → r.event = .combat (.attempt attempt) →
    I r.engine → r.Attempted attempt id encounter → I r.result
  slain : ∀ (r : Reduction) slain id encounter targetId, C.reduction r → r.event = .combat (.targetSlain slain) →
    I r.engine → r.Slew slain id encounter targetId → I r.result
  endInactive : ∀ e id now cutoff, I e → I (e.enterEnding id .inactivity now cutoff)
  finalize : ∀ f : Finalizing, C.finalizing f → f.Due → I f.engine → I f.result
  expire : ∀ e now, C.expiring e now → I e → I (e.expireHeld now)

namespace Kept
open CombatEngine
variable {I : CombatEngine → Prop} {C : Conditions} {e : CombatEngine}

theorem registerSource (k : Kept I C) (source : LogSource) (generation : Nat) (now : MonoTime)
    (h : I e) : I (e.registerSource source generation now) := by
  have h1 := k.same e { e with
    verifiedPlayers := insert source.participant e.verifiedPlayers
    sources := e.sources.insert source.id <|
      (e.sources[source.id]?).elim (.fresh source generation now) (·.register source generation now) }
    ⟨rfl, rfl, rfl, rfl, rfl, Finset.subset_insert _ _⟩ h
  refine k.retouch _ _ (fun id a => ?_) (fun id a s _ hs => .inl ?_) h1
  · split_ifs
    · exact ⟨rfl, rfl, rfl, rfl, rfl, rfl, rfl, rfl, rfl, rfl, .inl rfl⟩
    · exact SameFacts.refl a
  · split_ifs at hs <;> exact hs

theorem markPartial (k : Kept I C) (source : LogSourceId) (h : I e) : I (e.markPartial source) := by
  refine k.retouch e _ (fun id a => ?_) (fun id a s _ hs => .inl ?_) h
  · split_ifs
    · exact ⟨rfl, rfl, rfl, rfl, rfl, rfl, rfl, rfl, rfl, rfl, .inl rfl⟩
    · exact SameFacts.refl a
  · split_ifs at hs <;> exact hs

theorem markGap (k : Kept I C) (source : LogSourceId) (generation : Nat) (reason : GapReason)
    (h : I e) : I (e.markGap source generation reason) :=
  k.same _ _ (.diagnose _ _) (k.markPartial source (k.same _ _ (.updSource e _ _) h))

theorem accept (k : Kept I C) (record : CombatRecord) (now : MonoTime) (h : I e) :
    I (e.accept record now).1 := by
  have diag (e : CombatEngine) (m : String) (h : I e) : I (e.diagnose m) := k.same _ _ (.diagnose e m) h
  have hr : I (e.ensureRegistered record now) := by
    unfold CombatEngine.ensureRegistered
    split_ifs
    exacts [h, k.registerSource _ _ _ h]
  unfold CombatEngine.accept
  generalize e.ensureRegistered record now = e' at hr
  split_ifs with h1 h2
  · exact diag _ _ h
  · exact diag _ _ h
  · dsimp only
    cases e'.sources[record.source.id]? with
    | none => exact hr
    | some state =>
      dsimp only
      split_ifs
      · exact diag _ _ hr
      · exact diag _ _ hr
      · refine k.same _ _ (.updSource _ _ _) (k.same _ _ (.remember _ _) ?_)
        cases recordGap state record with
        | none => exact hr
        | some reason => exact k.markGap _ _ _ hr

theorem reserve (k : Kept I C) (record : CombatRecord)
    (hw : e.policy.maxLedgerFacts < e.ledger.length + record.events.countP LogEvent.isFact → C.withdrawing e)
    (h : I e) : I (e.reserve record) := by
  unfold CombatEngine.reserve
  split_ifs with hb
  · exact k.withdraw _ _ (hw hb) h
  · exact h

theorem factReduction (k : Kept I C) {r : Reduction} (hok : C.reduction r) (hf : r.event.isFact = true)
    (h : I r.engine) : I r.result := by
  cases he : r.event with
  | whoResult | ownershipClaimed | other => simp [he, LogEvent.isFact] at hf
  | combat event =>
    cases event with
    | petOwnership | playerEvidence | zoneChanged | weaponDamageDealt | damageTaken | attackBlocked =>
      simp [he, LogEvent.isFact] at hf
    | damage damage =>
      exact k.damage r damage hok he h (Reduction.damage_spec he)
    | attempt attempt =>
      obtain hd | ⟨id, encounter, hd⟩ := Reduction.attempt_spec he
      · exact hd ▸ k.push r _ hok he h
      · exact k.attempt r attempt id encounter hok he h hd
    | targetSlain slain =>
      obtain hd | ⟨id, encounter, targetId, hd⟩ := Reduction.slain_spec he
      · exact hd ▸ k.push r _ hok he h
      · exact k.slain r slain id encounter targetId hok he h hd

theorem reduction (k : Kept I C) {r : Reduction} (hok : C.reduction r) (h : I r.engine) : I r.result := by
  cases hf : r.event.isFact with
  | false => exact k.same _ _ (.reduceEvent _ _ _ _ hf) h
  | true => exact k.factReduction hok hf h

/-- The invariant holds at every reduction of the events and after them. -/
theorem events (k : Kept I C) (record : CombatRecord) (eqTime : EqSecond) (now : MonoTime)
    (events : List LogEvent) (hok : ∀ r ∈ reductionsFrom record eqTime now e events, C.reduction r) (h : I e) :
    (∀ r ∈ reductionsFrom record eqTime now e events, I r.engine) ∧
      I (events.foldl (fun e event => e.processEvent record eqTime now event) e) := by
  induction events generalizing e with
  | nil => exact ⟨by simp [reductionsFrom], h⟩
  | cons event rest ih =>
    simp only [reductionsFrom, List.mem_append] at hok ⊢
    -- the head: the event is skipped or reduced
    have head : (∀ r, (r ∈ if event.isFact then
          match e.noteOccurrence ⟨record.id.source, record.id.generation, eqTime, event⟩ with
          | (_, true) => []
          | (e, false) => [(⟨e, record, eqTime, now, event⟩ : Reduction)]
        else [(⟨e, record, eqTime, now, event⟩ : Reduction)]) → I r.engine) ∧
        I (e.processEvent record eqTime now event) := by
      have hhere := fun r hr => hok r (.inl hr)
      unfold CombatEngine.processEvent
      cases hf : event.isFact with
      | false =>
        simp only [hf, Bool.false_eq_true, ↓reduceIte, List.mem_singleton, forall_eq] at hhere ⊢
        exact ⟨h, k.reduction (r := ⟨e, record, eqTime, now, event⟩) hhere h⟩
      | true =>
        have hn := k.same _ _ (.noteOccurrence e ⟨record.id.source, record.id.generation, eqTime, event⟩) h
        simp only [hf, ↓reduceIte] at hhere ⊢
        revert hhere hn
        generalize e.noteOccurrence ⟨record.id.source, record.id.generation, eqTime, event⟩ = noted
        obtain ⟨e', replayed⟩ := noted
        intro hn hhere
        cases replayed with
        | true => exact ⟨by simp, hn⟩
        | false =>
          simp only [List.mem_singleton, forall_eq] at hhere ⊢
          exact ⟨hn, k.reduction (r := ⟨e', record, eqTime, now, event⟩) hhere hn⟩
    obtain ⟨hi, hend⟩ := ih (fun r hr => hok r (.inr hr)) head.2
    exact ⟨fun r hr => hr.elim (head.1 r) (hi r), hend⟩

theorem record (k : Kept I C) (record : CombatRecord) (now : MonoTime)
    (hok : ∀ r ∈ e.recordReductions record now, C.reduction r)
    (hw : ∀ w ∈ e.recordWithdrawals record now, C.withdrawing w) (h : I e) :
    (∀ r ∈ e.recordReductions record now, I r.engine) ∧ I (e.applyRecord record now).1 := by
  have ha := k.accept record now h
  unfold recordReductions applyRecord recordWithdrawals at *
  revert hok hw ha
  generalize e.accept record now = admitted
  obtain ⟨e1, accepted⟩ := admitted
  cases accepted with
  | false => exact fun _ _ ha => ⟨by simp, ha⟩
  | true =>
    intro hok hw ha
    have hd := k.same _ _ (.datable e1 record) ha
    dsimp only at hok hw ⊢
    revert hok hw hd
    generalize e1.datable record = dated
    obtain ⟨e2, eqTime⟩ := dated
    cases eqTime with
    | none => exact fun _ _ hd => ⟨by simp, hd⟩
    | some eqTime =>
      exact fun hok hw hd => k.events record eqTime now record.events hok
        (k.reserve record (fun hb => hw e2 (by simp [hb])) hd)

theorem handled (k : Kept I C) (call : Call) (hok : ∀ r ∈ e.reductions call, C.reduction r)
    (hw : ∀ w ∈ e.withdrawals call, C.withdrawing w) (h : I e) :
    (∀ r ∈ e.reductions call, I r.engine) ∧ I (e.handled call) := by
  cases call with
  | tick now => exact ⟨by simp [reductions], k.same _ _ (.clock e now) h⟩
  | apply now input =>
    have hc := k.same _ _ (.clock e now) h
    cases input with
    | sourceRegistered source generation => exact ⟨by simp [reductions], k.registerSource _ _ _ hc⟩
    | sourceRemoved source =>
      exact ⟨by simp [reductions], k.markPartial _ (k.same _ _ (.updSource _ _ _) hc)⟩
    | sourceGap source generation reason => exact ⟨by simp [reductions], k.markGap _ _ _ hc⟩
    | sourceStableEof source generation =>
      exact ⟨by simp [reductions], k.same _ _ (.updSource _ _ _) hc⟩
    | record record =>
      obtain ⟨hr, ha⟩ := k.record record now hok hw hc
      refine ⟨hr, ?_⟩
      show I ((e.clock now).handle now (.record record)).1
      unfold CombatEngine.handle
      dsimp only
      revert ha
      generalize (e.clock now).applyRecord record now = applied
      obtain ⟨e', accepted⟩ := applied
      cases accepted <;> exact id

theorem endInactiveAll (k : Kept I C) (now : MonoTime) (h : I e) : I (e.endInactive now) :=
  foldl_invariant (fun e entry h => k.endInactive e entry.1 now entry.2 h) _ h

theorem ended (k : Kept I C) (call : Call) (h : I (e.handled call)) : I (e.ended call) :=
  k.endInactiveAll _ (k.same _ _ (.closeStableSources _ _) h)

theorem finalizing (k : Kept I C) (now : MonoTime) (due : List EndingDue)
    (hnd : (due.map (·.id)).Nodup) (hdue : ∀ d ∈ due, e.DueAt d)
    (hfin : ∀ f ∈ finalizingsFrom now e due, C.finalizing f) (h : I e) :
    (∀ f ∈ finalizingsFrom now e due, f.Due ∧ I f.engine) ∧
      I (due.foldl (fun e due => e.finalizeDue now due) e) := by
  induction due generalizing e with
  | nil => exact ⟨by simp [finalizingsFrom], h⟩
  | cons d rest ih =>
    simp only [finalizingsFrom, List.forall_mem_cons, List.map_cons, List.nodup_cons, List.mem_map,
      not_exists, not_and] at hnd hdue hfin ⊢
    -- the others are still due after the first
    have hrest : ∀ d' ∈ rest, (e.finalizeDue now d).DueAt d' := fun d' hd' => by
      obtain ⟨encounter, enteredAt, closure, he, hp, hc⟩ := hdue.2 d' hd'
      refine ⟨encounter, enteredAt, closure, ?_, hp, hc⟩
      rw [finalizeDue_eq]
      exact (ExtTreeMap.getElem?_modify_of_ne (fun h => hnd.1 d' hd' h.symm) _).trans he
    obtain ⟨hi, hend⟩ := ih hnd.2 hrest hfin.2 (k.finalize ⟨e, now, d⟩ hfin.1 hdue.1 h)
    exact ⟨⟨⟨hdue.1, h⟩, hi⟩, hend⟩

theorem finalized (k : Kept I C) (call : Call) (hfin : ∀ f ∈ e.finalizings call, C.finalizing f)
    (h : I (e.handled call)) : (∀ f ∈ e.finalizings call, f.Due ∧ I f.engine) ∧
      I ((e.ended call).finalizeEnding (e.handled call).now) :=
  k.finalizing _ _ ((e.ended call).nodup_endingDue _) (fun _ hd => dueAt_of_mem_endingDue hd) hfin (k.ended call h)

/-- The conditions on a call. -/
def CallOk (C : Conditions) (e : CombatEngine) (call : Call) : Prop :=
  (∀ r ∈ e.reductions call, C.reduction r) ∧ (∀ f ∈ e.finalizings call, C.finalizing f) ∧
    (∀ w ∈ e.withdrawals call, C.withdrawing w) ∧
    C.expiring ((e.ended call).finalizeEnding (e.handled call).now) (e.handled call).now ∧
    ∀ s ∈ (e.settled call).projections, C.caching s

instance [DecidablePred C.reduction] [DecidablePred C.finalizing] [DecidablePred C.withdrawing]
    [∀ e now, Decidable (C.expiring e now)] [DecidablePred C.caching] (e : CombatEngine) (call : Call) :
    Decidable (CallOk C e call) :=
  inferInstanceAs (Decidable (_ ∧ _ ∧ _ ∧ _ ∧ _))

theorem settled (k : Kept I C) (call : Call) (hc : CallOk C e call) (h : I e) :
    (∀ f ∈ e.finalizings call, f.Due ∧ I f.engine) ∧ I (e.settled call) := by
  obtain ⟨hok, hfin, hw, hx, -⟩ := hc
  obtain ⟨hf, hs⟩ := k.finalized call hfin (k.handled call hok hw h).2
  exact ⟨hf, k.expire _ _ hx hs⟩

theorem rebuildBook (k : Kept I C) (hc : ∀ s ∈ e.projections, C.caching s) (h : I e) : I e.rebuildBook.1 := by
  have hr : I e.refreshAll := k.retouch e _ (fun _ => sameFacts_refresh e)
    (fun _ _ s ha hs => (refresh_cached ha hs).imp_right (hc s)) h
  unfold CombatEngine.rebuildBook
  generalize e.refreshAll = e' at hr
  dsimp only
  split_ifs
  · exact hr
  · exact k.same e' _ (.of_eq rfl rfl rfl rfl rfl rfl) hr

theorem step (k : Kept I C) (call : Call) (hc : CallOk C e call) (h : I e) : I (e.step call) := by
  rw [step_eq]
  exact k.rebuildBook hc.2.2.2.2 (k.settled call hc h).2

theorem run (k : Kept I C) {calls : List Call} (h : Along (CallOk C) CombatEngine.step e calls)
    (h0 : I e) : I (e.run calls) :=
  Along.invariant (fun e call hI hok => k.step (e := e) call hok hI) h h0

/-- Inside a run: the invariant before a call, at its reductions and at its finalizations, and when it
publishes. -/
theorem at_call (k : Kept I C) {pre post : List Call} {call : Call}
    (h : Along (CallOk C) CombatEngine.step e (pre ++ call :: post)) (h0 : I e) :
    I (e.run pre) ∧ (∀ r ∈ (e.run pre).reductions call, C.reduction r ∧ I r.engine) ∧
      (∀ f ∈ (e.run pre).finalizings call, C.finalizing f ∧ f.Due ∧ I f.engine) ∧
      I ((e.run pre).settled call) := by
  have hpre := k.run h.prefix_of_append h0
  have hc : CallOk C (e.run pre) call := h.at_step
  obtain ⟨hf, hs⟩ := k.settled call hc hpre
  exact ⟨hpre, fun r hr => ⟨hc.1 r hr, (k.handled call hc.1 hc.2.2.1 hpre).1 r hr⟩,
    fun f hm => ⟨hc.2.1 f hm, hf f hm⟩, hs⟩

theorem callOk_trivial (e : CombatEngine) (call : Call) : CallOk {} e call :=
  ⟨fun _ _ => trivial, fun _ _ => trivial, fun _ _ => trivial, trivial, fun _ _ => trivial⟩

theorem run_of_forall (k : Kept I {}) (calls : List Call) (h0 : I e) : I (e.run calls) :=
  k.run (Along.trivial_along callOk_trivial) h0

end Kept

/-! ### Sample inputs -/

namespace Sample

/-- A log of the server `x` whose id is the character in lower case. -/
def log (character : Char) : LogSource := ⟨[character.toLower], [character], ['x']⟩

/-- The character whose log it is. -/
def you : ObservedCombatant := ⟨['Y', 'o', 'u'], .you⟩

def named (name : String) : ObservedCombatant := .ofName name.toList

def hit (attacker : ObservedCombatant) (target : String) (amount : Nat) : LogEvent :=
  .combat (.damage ⟨attacker, none, named target, amount, .melee, none, .hit, {}, .melee⟩)

def slain (target : String) : LogEvent := .combat (.targetSlain ⟨named target, none⟩)

/-- The logs of the characters, registered at time zero. -/
def register (characters : List Char) : List Call :=
  characters.map fun c => .apply 0 (.sourceRegistered (log c) 0)

/-- A line of generation zero. -/
def line (character : Char) (sequence : Nat) (second : EqSecond) (now : MonoTime) (event : LogEvent) : Call :=
  .apply now (.record ⟨⟨(log character).id, 0, sequence⟩, log character, some second, [event]⟩)

end Sample
end Stonemite.Combat
