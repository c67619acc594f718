import Stonemite.Combat.Steps

/-!
# What a fact writes

The encounter a fact is placed in is updated in one go (`listing`, `promote`, `attempt`, `slaying`);
`DamageSpec`, `processAttempt_spec` and `processSlain_spec` say which encounter that is. Invariants
are proved against these.
-/

open Std

namespace Stonemite.Combat

namespace EncounterState
variable (encounter : EncounterState) (fact : LedgerFact) (v : DamageView) (source : LogSource)
  (state : Option SourceState) (index : Nat)

/-- The encounter after it lists a damage fact. -/
def listing (contributes : Bool) : EncounterState :=
  let encounter := encounter.addSource fact.source state
  ((if contributes then encounter.contribute fact v else encounter).sustain fact).pushFact index

/-- The encounter after it lists a slain observation, in its ending grace once all targets are
terminal. -/
def slaying (targetId : CanonicalTargetId) : EncounterState :=
  let encounter := ((encounter.addSource fact.source state).slay targetId fact.eqTime).pushFact index
  if encounter.allTerminal then encounter.enterEnding .allTargetsTerminal fact.receipt fact.eqTime
  else encounter

/-! ### What the updates leave alone -/

/-- The fields of an encounter that no fact of a record writes. -/
structure SameSnapshots (a b : EncounterState) : Prop where
  id : b.id = a.id
  server : b.server = a.server
  lastSnapshot : b.lastSnapshot = a.lastSnapshot
  frozen : b.frozen = a.frozen

theorem addSource_snapshots : encounter.SameSnapshots (encounter.addSource source state) := by
  unfold addSource; split_ifs <;> exact ⟨rfl, rfl, rfl, rfl⟩

@[simp] theorem addSource_phase : (encounter.addSource source state).phase = encounter.phase := by
  unfold addSource; split_ifs <;> rfl

@[simp] theorem addSource_facts : (encounter.addSource source state).facts = encounter.facts := by
  unfold addSource; split_ifs <;> rfl

@[simp] theorem addSource_targets : (encounter.addSource source state).targets = encounter.targets := by
  unfold addSource; split_ifs <;> rfl

@[simp] theorem addSource_fingerprints :
    (encounter.addSource source state).fingerprints = encounter.fingerprints := by
  unfold addSource; split_ifs <;> rfl

@[simp] theorem addSource_startEq : (encounter.addSource source state).startEq = encounter.startEq := by
  unfold addSource; split_ifs <;> rfl

@[simp] theorem addSource_endEq : (encounter.addSource source state).endEq = encounter.endEq := by
  unfold addSource; split_ifs <;> rfl

theorem mem_addSource {id : LogSourceId} :
    id ∈ (encounter.addSource source state).sources ↔ id = source.id ∨ id ∈ encounter.sources := by
  unfold addSource
  by_cases h : encounter.sources.contains source.id
  · rw [if_pos h]
    exact ⟨.inr, fun h' => h'.elim (fun h' => h' ▸ h) fun h' => h'⟩
  · rw [if_neg h]
    show id ∈ encounter.sources.insert source.id ↔ _
    rw [ExtTreeSet.mem_insert_iff, eq_comm]

theorem listing_snapshots (contributes : Bool) :
    encounter.SameSnapshots (encounter.listing fact v state index contributes) := by
  obtain ⟨h1, h2, h3, h4⟩ := encounter.addSource_snapshots fact.source state
  cases contributes <;> exact ⟨h1, h2, h3, h4⟩

@[simp] theorem listing_phase (contributes : Bool) :
    (encounter.listing fact v state index contributes).phase = encounter.phase := by
  cases contributes <;> exact encounter.addSource_phase _ _

@[simp] theorem listing_facts (contributes : Bool) :
    (encounter.listing fact v state index contributes).facts = encounter.facts ++ [index] := by
  cases contributes <;> simp [listing, contribute, sustain, pushFact]

theorem mem_listing_sources (contributes : Bool) {id : LogSourceId} :
    id ∈ (encounter.listing fact v state index contributes).sources ↔
      id = fact.source.id ∨ id ∈ encounter.sources := by
  cases contributes <;> exact encounter.mem_addSource _ _

@[simp] theorem listing_startEq (contributes : Bool) :
    (encounter.listing fact v state index contributes).startEq =
      if contributes then min encounter.startEq fact.eqTime else encounter.startEq := by
  cases contributes <;> simp [listing, contribute, sustain, pushFact]

@[simp] theorem listing_endEq (contributes : Bool) :
    (encounter.listing fact v state index contributes).endEq =
      if contributes then max encounter.endEq fact.eqTime else encounter.endEq := by
  cases contributes <;> simp [listing, contribute, sustain, pushFact]

theorem enterEnding_eq (reason : EndReason) (now : MonoTime) (cutoff : EqSecond) :
    encounter.enterEnding reason now cutoff = { encounter with
      phase := (encounter.enterEnding reason now cutoff).phase } := by
  unfold enterEnding; split <;> rfl

theorem slaying_eq (targetId : CanonicalTargetId) :
    encounter.slaying fact state index targetId =
      { ((encounter.addSource fact.source state).slay targetId fact.eqTime).pushFact index with
        phase := (encounter.slaying fact state index targetId).phase } := by
  unfold slaying
  dsimp only
  split_ifs
  · exact enterEnding_eq _ _ _ _
  · rfl

theorem slaying_snapshots (targetId : CanonicalTargetId) :
    encounter.SameSnapshots (encounter.slaying fact state index targetId) := by
  rw [slaying_eq]
  obtain ⟨h1, h2, h3, h4⟩ := encounter.addSource_snapshots fact.source state
  exact ⟨h1, h2, h3, h4⟩

@[simp] theorem slaying_facts (targetId : CanonicalTargetId) :
    (encounter.slaying fact state index targetId).facts = encounter.facts ++ [index] := by
  rw [slaying_eq]; simp [slay, pushFact]

@[simp] theorem slaying_startEq (targetId : CanonicalTargetId) :
    (encounter.slaying fact state index targetId).startEq = encounter.startEq := by
  rw [slaying_eq]; simp [slay, pushFact]

@[simp] theorem slaying_endEq (targetId : CanonicalTargetId) :
    (encounter.slaying fact state index targetId).endEq = max encounter.endEq fact.eqTime := by
  rw [slaying_eq]; simp [slay, pushFact]

theorem mem_slaying_sources (targetId : CanonicalTargetId) {id : LogSourceId} :
    id ∈ (encounter.slaying fact state index targetId).sources ↔
      id = fact.source.id ∨ id ∈ encounter.sources := by
  rw [slaying_eq]
  exact encounter.mem_addSource _ _

theorem slaying_phase (targetId : CanonicalTargetId) :
    (encounter.slaying fact state index targetId).phase = encounter.phase ∨
      encounter.phase = .active ∧ (encounter.slaying fact state index targetId).phase =
        .ending .allTargetsTerminal fact.receipt fact.eqTime
          (encounter.addSource fact.source state).sources := by
  unfold slaying
  dsimp only
  split_ifs with h
  · cases hp : encounter.phase <;> simp [enterEnding, slay, pushFact, hp]
  · exact .inl (by simp [slay, pushFact])

theorem attempt_phase :
    (encounter.attempt index fact).phase = encounter.phase ∨
      (∃ enteredAt cutoff closure, encounter.phase = .ending .inactivity enteredAt cutoff closure) ∧
        (encounter.attempt index fact).phase = .active := by
  cases hp : encounter.phase with
  | active => exact .inl (by simp [attempt, sustain, pushFact, hp])
  | held reason til => exact .inl (by simp [attempt, sustain, pushFact, hp])
  | ending reason enteredAt cutoff closure =>
    cases reason with
    | allTargetsTerminal => exact .inl (by simp [attempt, sustain, pushFact, hp])
    | inactivity => exact .inr ⟨⟨_, _, _, rfl⟩, by simp [attempt, sustain, pushFact, hp]⟩

end EncounterState

namespace CombatEngine
variable (e : CombatEngine) (index : Nat) (fact : LedgerFact) (v : DamageView)

theorem modify_modify (m : ExtTreeMap EncounterId EncounterState) (id : EncounterId)
    (f g : EncounterState → EncounterState) : (m.modify id f).modify id g = m.modify id (g ∘ f) := by
  ext k enc
  simp only [ExtTreeMap.getElem?_modify_ite]
  split_ifs <;> simp

theorem listDamage_eq (id : EncounterId) :
    e.listDamage index fact v id = { e with
      encounters := e.encounters.modify id
        (·.listing fact v e.sources[fact.source.id]? index (e.contributes id v))
      assignments := e.assignments.insert index id
      sourceActive := e.sourceActive.insert fact.source.id id } := by
  unfold listDamage addSourceMember updEncounter assign
  simp only [modify_modify]
  rfl

theorem knownTarget_iff {e : CombatEngine} {id : EncounterId} {target : CanonicalTargetId} :
    e.knownTarget id target = true ↔
      ∃ encounter, e.encounters[id]? = some encounter ∧ target ∈ encounter.targets := by
  unfold knownTarget
  rw [Option.any_eq_true]
  rfl

theorem promoteFact_eq {e : CombatEngine} {id : EncounterId} {index : Nat} {fact : LedgerFact}
    (h : e.ledger[index]? = some fact) :
    e.promoteFact id index = { e with
      encounters := e.encounters.modify id (·.promote index fact)
      assignments := e.assignments.insert index id } := by
  unfold promoteFact
  rw [h]
  rfl

theorem promoteFact_ledger (id : EncounterId) : (e.promoteFact id index).ledger = e.ledger := by
  unfold promoteFact; split <;> rfl

theorem promotePriorFacts_keeps {e : CombatEngine} {J : CombatEngine → Prop} {id : EncounterId}
    {source : LogSourceId} {target : CanonicalTargetId} {anchor : EqSecond}
    (promote : ∀ {e' index}, index ∈ e.promotable source target anchor → J e' → J (e'.promoteFact id index))
    (h : J e) : J (e.promotePriorFacts id source target anchor) :=
  foldl_invariant_mem _ (fun _ _ hi h => promote hi h) h

/-- What `processDamage` can do with a fact: drop it, or list it and promote earlier facts. -/
inductive DamageSpec : CombatEngine → Prop
  | dropped {e' : CombatEngine} (hp : PlaceSpec e fact v e' none) : DamageSpec e'
  | ignored {e' : CombatEngine} {id : EncounterId} (hp : PlaceSpec e fact v e' (some id))
      (hk : e'.knownTarget id v.targetId = false) (hc : e'.contributes id v = false) : DamageSpec e'
  | listed {e' : CombatEngine} {id : EncounterId} (hp : PlaceSpec e fact v e' (some id))
      (hq : v.startQualified = false)
      (hk : e'.knownTarget id v.targetId = true ∨ e'.contributes id v = true) :
      DamageSpec (e'.listDamage index fact v id)
  | promoted {e' : CombatEngine} {id : EncounterId} (hp : PlaceSpec e fact v e' (some id))
      (hq : v.startQualified = true)
      (hk : e'.knownTarget id v.targetId = true ∨ e'.contributes id v = true) :
      DamageSpec ((e'.listDamage index fact v id).promotePriorFacts id fact.source.id v.targetId fact.eqTime)

theorem processDamage_spec (damage : DamageObservation) :
    DamageSpec e index fact (e.viewDamage fact damage) (e.processDamage index fact damage) := by
  have hplace := placeDamage_spec e fact (e.viewDamage fact damage)
  unfold processDamage
  dsimp only
  generalize e.viewDamage fact damage = v at hplace ⊢
  generalize e.placeDamage fact v = placed at hplace ⊢
  obtain ⟨e', id⟩ := placed
  cases id with
  | none => exact .dropped hplace
  | some id =>
    show DamageSpec e index fact v (e'.recordDamage index fact v id)
    unfold recordDamage
    split_ifs with hd hq
    · simp only [Bool.and_eq_true, Bool.not_eq_true'] at hd
      exact .ignored hplace hd.2 hd.1
    · exact .promoted hplace hq (by revert hd; cases e'.contributes id v <;> simp)
    · exact .listed hplace (by simpa using hq) (by revert hd; cases e'.contributes id v <;> simp)

theorem contributes_of_startQualified {v : DamageView} (h : v.startQualified = true) (id : EncounterId) :
    e.contributes id v = true := by
  have := h
  unfold DamageView.startQualified at this
  simp only [Bool.and_eq_true] at this
  unfold contributes
  rw [h, this.1.1.1, this.1.2, this.2]
  simp

/-- The encounter at `id` is live, has the source and lists the fact, which is assigned to it. -/
def ListedLive (index : Nat) (source : LogSourceId) : Prop :=
  ∃ (id : EncounterId) (a : EncounterState), e.assignments[index]? = some id ∧ e.encounters[id]? = some a ∧
    a.phase.isHeld = false ∧ source ∈ a.sources ∧ index ∈ a.facts

/-- An attempt is dropped, or it is listed by the encounter of its source, which knows a target. -/
theorem processAttempt_spec (attempt : CombatAttempt) :
    e.processAttempt index fact attempt = e ∨
      ∃ id encounter, e.attemptTarget fact attempt = some id ∧ e.sourceActive[fact.source.id]? = some id ∧
        e.encounters[id]? = some encounter ∧ e.processAttempt index fact attempt = { e with
          encounters := e.encounters.modify id (EncounterState.attempt · index fact)
          assignments := e.assignments.insert index id } := by
  unfold processAttempt
  cases ht : e.attemptTarget fact attempt with
  | none => exact .inl rfl
  | some id =>
    obtain ⟨hs, hk⟩ := Option.filter_eq_some_iff.mp ht
    simp only [Bool.or_eq_true, knownTarget_iff] at hk
    obtain ⟨encounter, he, -⟩ | ⟨encounter, he, -⟩ := hk
    · exact .inr ⟨id, encounter, rfl, hs, he, rfl⟩
    · exact .inr ⟨id, encounter, rfl, hs, he, rfl⟩

/-- The encounter of a slain observation: the one of the source, or a live one; it knows the target. -/
theorem slainTarget_spec {e : CombatEngine} {fact : LedgerFact} {targetId : CanonicalTargetId} {id : EncounterId}
    (h : e.slainTarget fact targetId = some id) :
    ∃ encounter, e.encounters[id]? = some encounter ∧ targetId ∈ encounter.targets ∧
      (e.sourceActive[fact.source.id]? = some id ∨ encounter.phase.isHeld = false) := by
  unfold slainTarget at h
  rcases Option.or_eq_some_iff.mp h with h | ⟨-, h⟩
  · obtain ⟨hs, hk⟩ := Option.filter_eq_some_iff.mp h
    obtain ⟨encounter, he, ht⟩ := knownTarget_iff.mp hk
    exact ⟨encounter, he, ht, .inl hs⟩
  · obtain ⟨encounter, he, hp⟩ := ExtTreeMap.find?_toList_spec h
    simp only [Bool.and_eq_true, Bool.not_eq_true'] at hp
    exact ⟨encounter, he, hp.2, .inr hp.1.1⟩

/-- A slain observation is dropped, or it is listed by the encounter it is about. -/
theorem processSlain_spec (slain : TargetSlainObservation) :
    e.processSlain index fact slain = e ∨
      ∃ id encounter targetId, targetId = canonicalTargetId (resolveObserved fact.source slain.target).1 ∧
        e.slainTarget fact targetId = some id ∧ e.encounters[id]? = some encounter ∧ targetId ∈ encounter.targets ∧
        (e.sourceActive[fact.source.id]? = some id ∨ encounter.phase.isHeld = false) ∧
        e.processSlain index fact slain = { e with
          encounters := e.encounters.modify id
            (·.slaying fact e.sources[fact.source.id]? index targetId)
          assignments := e.assignments.insert index id } := by
  unfold processSlain
  dsimp only
  cases ht : e.slainTarget fact (canonicalTargetId (resolveObserved fact.source slain.target).1) with
  | none => exact .inl rfl
  | some id =>
    obtain ⟨encounter, he, hk, hl⟩ := slainTarget_spec ht
    refine .inr ⟨id, encounter, _, rfl, ht, he, hk, hl, ?_⟩
    unfold addSourceMember updEncounter assign
    simp only [modify_modify, ExtTreeMap.getElem?_modify_ite, ↓reduceIte, he, Option.map_some,
      Option.any_some, Function.comp_apply]
    split_ifs with hall
    · unfold enterEnding updEncounter
      simp only [modify_modify]
      congr 1
      ext k a
      simp only [ExtTreeMap.getElem?_modify_ite]
      split_ifs with hk
      · subst hk
        simp [he, EncounterState.slaying, hall]
      · rfl
    · congr 1
      ext k a
      simp only [ExtTreeMap.getElem?_modify_ite]
      split_ifs with hk
      · subst hk
        simp [he, EncounterState.slaying, hall]
      · rfl

/-! ### Merging -/

variable {e} in
theorem absorb_lookup {chosenId otherId id : EncounterId} {chosen other a : EncounterState}
    (h : (e.absorb chosenId otherId chosen other).encounters[id]? = some a) :
    id = chosenId ∧ a = chosen.absorb other ∨
      id ≠ chosenId ∧ id ≠ otherId ∧ e.encounters[id]? = some a := by
  have : ((e.encounters.erase otherId).insert chosenId (chosen.absorb other))[id]? = some a := h
  rw [ExtTreeMap.getElem?_insert_ite] at this
  split_ifs at this with hc
  · exact .inl ⟨hc.symm, (Option.some.inj this).symm⟩
  · rw [ExtTreeMap.getElem?_erase_ite] at this
    split_ifs at this with ho
    exact .inr ⟨Ne.symm hc, Ne.symm ho, this⟩

theorem absorb_lookup_chosen {e : CombatEngine} {chosenId otherId : EncounterId} {chosen other : EncounterState} :
    (e.absorb chosenId otherId chosen other).encounters[chosenId]? = some (chosen.absorb other) :=
  ExtTreeMap.getElem?_insert_self

theorem absorb_lookup_of_ne {e : CombatEngine} {chosenId otherId id : EncounterId} {chosen other : EncounterState}
    (hc : chosenId ≠ id) (ho : otherId ≠ id) :
    (e.absorb chosenId otherId chosen other).encounters[id]? = e.encounters[id]? := by
  show ((e.encounters.erase otherId).insert chosenId (chosen.absorb other))[id]? = _
  rw [ExtTreeMap.getElem?_insert_of_ne hc, ExtTreeMap.getElem?_erase_ite, if_neg ho]

theorem mem_absorb_facts {chosen other : EncounterState} {f : Nat} :
    f ∈ (chosen.absorb other).facts ↔ f ∈ chosen.facts ∨ f ∈ other.facts := by
  show f ∈ ((chosen.facts ++ other.facts).insertionSort (· ≤ ·)).dedup ↔ _
  rw [List.mem_dedup, List.mem_insertionSort, List.mem_append]

/-! ### Finalizing and expiring -/

/-- The encounter as `finalize` projects it: held, with its lagging sources partial. -/
def markClosed (now : MonoTime) (due : EndingDue) (encounter : EncounterState) : EncounterState :=
  let lagging := due.closureSources.filter fun source => !e.closedThroughCutoff source due.cutoff
  { encounter with
    partialSources := if due.allClosed then encounter.partialSources
      else lagging.foldl (fun set source => set.insert source) encounter.partialSources
    phase := .held due.reason (MonoTime.add now e.policy.heldMs) }

/-- The encounter after its finalization. -/
def closing (now : MonoTime) (due : EndingDue) (encounter : EncounterState) : EncounterState :=
  let encounter := e.markClosed now due encounter
  match e.frozenSnapshot encounter due.reason (MonoTime.add now e.policy.heldMs) with
  | some snapshot =>
    { encounter with
      revision := snapshot.revision, lastSnapshot := some snapshot, frozen := some snapshot }
  | none => encounter

theorem frozenSnapshot_encounters (m : ExtTreeMap EncounterId EncounterState) (encounter : EncounterState)
    (reason : EndReason) (til : MonoTime) :
    CombatEngine.frozenSnapshot { e with encounters := m } encounter reason til =
      e.frozenSnapshot encounter reason til := rfl

theorem markHeld_notePartial (now : MonoTime) (due : EndingDue) :
    (e.notePartial due).markHeld due.id due.reason now =
      { e with encounters := e.encounters.modify due.id (e.markClosed now due) } := by
  unfold notePartial markHeld updEncounter markClosed
  cases due.allClosed
  · simp only [Bool.false_eq_true, ↓reduceIte, modify_modify]
    rfl
  · simp only [↓reduceIte]

theorem finalizeDue_eq (now : MonoTime) (due : EndingDue) :
    e.finalizeDue now due = { e with
      encounters := e.encounters.modify due.id (e.closing now due)
      sourceActive := e.sourceActive.filter fun _ encounter => encounter ≠ due.id } := by
  -- freezing updates the same encounter once more
  have freeze : (CombatEngine.freeze { e with encounters := e.encounters.modify due.id (e.markClosed now due) }
      due.id due.reason now) = { e with encounters := e.encounters.modify due.id (e.closing now due) } := by
    have only (f g : EncounterState → EncounterState)
        (h : ∀ encounter, e.encounters[due.id]? = some encounter → f encounter = g encounter) :
        e.encounters.modify due.id f = e.encounters.modify due.id g := by
      ext k a
      simp only [ExtTreeMap.getElem?_modify_ite]
      split_ifs with hk
      · rw [← hk]
        cases he : e.encounters[due.id]? with
        | none => rfl
        | some encounter => rw [Option.map_some, Option.map_some, h encounter he]
      · rfl
    unfold CombatEngine.freeze updEncounter
    simp only [ExtTreeMap.getElem?_modify_ite, ↓reduceIte, frozenSnapshot_encounters, modify_modify]
    cases he : e.encounters[due.id]? with
    | none =>
      simp only [Option.map_none, Option.bind_none]
      rw [only (e.markClosed now due) (e.closing now due) fun encounter h => absurd (he.symm.trans h) nofun]
    | some encounter =>
      simp only [Option.map_some, Option.bind_some]
      cases hs : e.frozenSnapshot (e.markClosed now due encounter) due.reason
          (MonoTime.add now e.policy.heldMs) with
      | none =>
        dsimp only
        rw [only (e.markClosed now due) (e.closing now due)]
        intro a ha
        obtain rfl := Option.some.inj (he.symm.trans ha)
        unfold closing
        simp only [hs]
      | some snapshot =>
        dsimp only
        rw [only _ (e.closing now due)]
        intro a ha
        obtain rfl := Option.some.inj (he.symm.trans ha)
        unfold closing
        simp only [hs, Function.comp_apply]
  unfold finalizeDue finalize
  rw [markHeld_notePartial, freeze]

/-- The fields a finalization keeps; the encounter is held, and its snapshot changes only to the
frozen one. -/
theorem closing_spec (now : MonoTime) (due : EndingDue) (encounter : EncounterState) :
    let snapshot := e.frozenSnapshot (e.markClosed now due encounter) due.reason
      (MonoTime.add now e.policy.heldMs)
    e.closing now due encounter = { e.markClosed now due encounter with
      revision := (e.closing now due encounter).revision
      lastSnapshot := snapshot.or encounter.lastSnapshot
      frozen := snapshot.or encounter.frozen } := by
  unfold closing
  dsimp only
  cases e.frozenSnapshot (e.markClosed now due encounter) due.reason (MonoTime.add now e.policy.heldMs) <;> rfl

@[simp] theorem closing_facts (now : MonoTime) (due : EndingDue) (encounter : EncounterState) :
    (e.closing now due encounter).facts = encounter.facts := by
  rw [closing_spec]; rfl

@[simp] theorem closing_phase (now : MonoTime) (due : EndingDue) (encounter : EncounterState) :
    (e.closing now due encounter).phase = .held due.reason (MonoTime.add now e.policy.heldMs) := by
  rw [closing_spec]; rfl

@[simp] theorem closing_id (now : MonoTime) (due : EndingDue) (encounter : EncounterState) :
    (e.closing now due encounter).id = encounter.id := by
  rw [closing_spec]; rfl

theorem mem_expired {e : CombatEngine} {now : MonoTime} {id : EncounterId} :
    id ∈ e.expired now ↔
      ∃ encounter reason til, e.encounters[id]? = some encounter ∧ encounter.phase = .held reason til ∧
        til ≤ now := by
  unfold expired
  simp only [List.mem_map, List.mem_filter, Prod.exists, exists_and_right, exists_eq_right,
    ExtTreeMap.mem_toList_iff_getElem?_eq_some]
  constructor
  · rintro ⟨encounter, he, hp⟩
    cases hph : encounter.phase with
    | active => simp [hph] at hp
    | ending => simp [hph] at hp
    | held reason til => exact ⟨encounter, reason, til, he, hph, by simpa [hph] using hp⟩
  · rintro ⟨encounter, reason, til, he, hp, hle⟩
    exact ⟨encounter, he, by simpa [hp] using hle⟩

/-- Expiring removes the held encounters whose hold is over; the facts go with the last of them. -/
theorem expireHeld_spec (now : MonoTime) :
    (∀ id, (e.expireHeld now).encounters[id]? = if id ∈ e.expired now then none else e.encounters[id]?) ∧
      (e.expireHeld now).sourceActive = e.sourceActive ∧
      ((e.expireHeld now).ledger = e.ledger ∧ (e.expireHeld now).assignments = e.assignments ∨
        (e.expireHeld now).ledger = [] ∧ (e.expireHeld now).assignments = ∅ ∧
          (e.expireHeld now).encounters = ∅) := by
  unfold expireHeld
  dsimp only
  split_ifs with h
  · simp only [Bool.and_eq_true] at h
    exact ⟨fun id => by rw [ExtTreeMap.getElem?_foldl_erase]; congr, rfl,
      .inr ⟨rfl, rfl, ExtTreeMap.isEmpty_iff.mp h.1.2⟩⟩
  · exact ⟨fun id => by rw [ExtTreeMap.getElem?_foldl_erase]; congr, rfl, .inl ⟨rfl, rfl⟩⟩

/-- An encounter that is finalized is in its ending grace. -/
def DueAt (due : EndingDue) : Prop :=
  ∃ encounter enteredAt closure, e.encounters[due.id]? = some encounter ∧
    encounter.phase = .ending due.reason enteredAt due.cutoff closure ∧
    due.closureSources = closure.toList

theorem dueAt_of_mem_endingDue {e : CombatEngine} {now : MonoTime} {due : EndingDue}
    (h : due ∈ e.endingDue now) : e.DueAt due := by
  unfold endingDue at h
  obtain ⟨⟨id, encounter⟩, hm, h⟩ := List.mem_filterMap.mp h
  cases hp : encounter.phase with
  | active => simp [hp] at h
  | held => simp [hp] at h
  | ending reason enteredAt cutoff closure =>
    simp only [hp] at h
    split_ifs at h
    obtain rfl := Option.some.inj h
    exact ⟨encounter, enteredAt, closure, ExtTreeMap.lookup_of_mem_toList hm, hp, rfl⟩

theorem nodup_endingDue (now : MonoTime) : ((e.endingDue now).map (·.id)).Nodup := by
  refine e.encounters.nodup_keys_toList.sublist (filterMap_map_sublist ?_)
  rintro ⟨id, encounter⟩ due h
  dsimp only at h
  split at h
  · split_ifs at h
    rw [← Option.some.inj h]
  · cases h

end CombatEngine
end Stonemite.Combat
