import Stonemite.Combat.Kept

/-!
# Facts and assignments

An encounter lists the indices of its facts and the engine maps every consumed index to the encounter
that took it. `LedgerOk` says that the lists are duplicate-free, lie within the ledger and agree with
the map, so that no fact is in two encounters. The map may hold more: the facts of an expired encounter
stay consumed, also under an id that is opened again: they stay `Assigned` and `Unlisted` until the ledger is
cleared (`kept_unlisted`). `Exact` excludes such ids.
-/

open Std

namespace Stonemite.Combat
namespace CombatEngine

/-- Every listed fact is in the ledger and assigned to the encounter that lists it, once. -/
structure LedgerOk (e : CombatEngine) : Prop where
  nodup : ∀ (id : EncounterId) (encounter : EncounterState), e.encounters[id]? = some encounter → encounter.facts.Nodup
  assigned : ∀ (id : EncounterId) (encounter : EncounterState), e.encounters[id]? = some encounter → ∀ f ∈ encounter.facts,
    e.assignments[f]? = some id
  inRange : ∀ (f : Nat) (id : EncounterId), e.assignments[f]? = some id → f < e.ledger.length

/-- Every fact assigned to an encounter is listed by it. -/
def Exact (e : CombatEngine) : Prop :=
  ∀ (id : EncounterId) (encounter : EncounterState), e.encounters[id]? = some encounter → ∀ f : Nat, e.assignments[f]? = some id →
    f ∈ encounter.facts

/-- Some encounter has taken the fact, perhaps one that is gone. -/
def Assigned (e : CombatEngine) (f : Nat) : Prop := (e.assignments[f]?).isSome = true

/-- No encounter lists the fact. -/
def Unlisted (e : CombatEngine) (f : Nat) : Prop :=
  ∀ (id : EncounterId) (a : EncounterState), e.encounters[id]? = some a → f ∉ a.facts

/-- The fact at `index` is in the ledger and no encounter has it. -/
def Pending (e : CombatEngine) (index : Nat) : Prop :=
  index < e.ledger.length ∧ e.assignments[index]? = none

section
variable {e e' : CombatEngine} {index : Nat} {fact : LedgerFact} {v : DamageView}

theorem LedgerOk.disjoint (h : e.LedgerOk) {id id' : EncounterId} {a b : EncounterState}
    (ha : e.encounters[id]? = some a) (hb : e.encounters[id']? = some b) (hne : id ≠ id') :
    a.facts.Disjoint b.facts := fun f hf hf' =>
  hne (Option.some.inj ((h.assigned id a ha f hf).symm.trans (h.assigned id' b hb f hf')))

theorem LedgerOk.found (h : e.LedgerOk) {id : EncounterId} {encounter : EncounterState}
    (he : e.encounters[id]? = some encounter) {f : Nat} (hf : f ∈ encounter.facts) :
    ∃ fact, e.ledger[f]? = some fact :=
  ⟨_, List.getElem?_eq_getElem (h.inRange f id (h.assigned id encounter he f hf))⟩

theorem LedgerOk.not_listed (h : e.LedgerOk) (hp : e.Pending index) {id : EncounterId}
    {encounter : EncounterState} (he : e.encounters[id]? = some encounter) : index ∉ encounter.facts :=
  fun hf => by simpa [hp.2] using h.assigned id encounter he index hf

/-- The encounters of `e'` list the facts they list in `e`. -/
def SameLists (e e' : CombatEngine) : Prop :=
  ∀ (id : EncounterId) (a' : EncounterState), e'.encounters[id]? = some a' →
    ∃ a : EncounterState, e.encounters[id]? = some a ∧ a'.facts = a.facts

theorem LedgerOk.of_lists (h : e.LedgerOk) (hf : SameLists e e') (ha : e'.assignments = e.assignments)
    (hl : e'.ledger = e.ledger) : e'.LedgerOk := by
  refine ⟨fun id a' ha' => ?_, fun id a' ha' f hm => ?_, by rw [ha, hl]; exact h.inRange⟩
  · obtain ⟨a, he, hfa⟩ := hf id a' ha'
    exact hfa ▸ h.nodup id a he
  · obtain ⟨a, he, hfa⟩ := hf id a' ha'
    rw [ha]
    exact h.assigned id a he f (hfa ▸ hm)

theorem Exact.of_lists (h : e.Exact) (hf : SameLists e e') (ha : e'.assignments = e.assignments) :
    e'.Exact := fun id a' ha' f hm => by
  obtain ⟨a, he, hfa⟩ := hf id a' ha'
  exact hfa ▸ h id a he f (ha ▸ hm)

theorem sameLists_of_eq (h : e'.encounters = e.encounters) : SameLists e e' :=
  fun _ a ha => ⟨a, h ▸ ha, rfl⟩

theorem sameLists_map {m : ExtTreeMap EncounterId EncounterState} {f : EncounterId → EncounterState → EncounterState}
    (hm : e'.encounters = m.map f) (he : e.encounters = m) (hf : ∀ id a, (f id a).facts = a.facts) :
    SameLists e e' := fun id a' ha' => by
  rw [hm, ExtTreeMap.getElem?_map] at ha'
  obtain ⟨a, ha, rfl⟩ := Option.map_eq_some_iff.mp ha'
  exact ⟨a, he ▸ ha, hf id a⟩

theorem sameLists_modify {id : EncounterId} {f : EncounterState → EncounterState}
    (hm : e'.encounters = e.encounters.modify id f) (hf : ∀ a, (f a).facts = a.facts) :
    SameLists e e' := fun k a' ha' => by
  rw [hm, ExtTreeMap.getElem?_modify_ite] at ha'
  split_ifs at ha' with hk
  · obtain ⟨a, ha, rfl⟩ := Option.map_eq_some_iff.mp ha'
    exact ⟨a, ha, hf a⟩
  · exact ⟨a', ha', rfl⟩

theorem Unlisted.of_lists (h : e.Unlisted index) (hf : SameLists e e') : e'.Unlisted index := fun id a' ha' => by
  obtain ⟨a, he, hfa⟩ := hf id a' ha'
  exact hfa ▸ h id a he

theorem Assigned.ne (h : e.Assigned index) {other : Nat} (hp : e.Pending other) : index ≠ other := by
  rintro rfl
  unfold Assigned at h
  rw [hp.2] at h
  cases h

theorem Assigned.insert (h : e.Assigned index) {other : Nat} {id : EncounterId}
    (ha : e'.assignments = e.assignments.insert other id) : e'.Assigned index := by
  unfold Assigned at h ⊢
  rw [ha, ExtTreeMap.getElem?_insert_ite]
  split_ifs
  · rfl
  · exact h

/-! ### Merging -/

theorem absorb_assignments {chosenId otherId : EncounterId} {chosen other : EncounterState} (f : Nat) :
    (e.absorb chosenId otherId chosen other).assignments[f]? =
      e.assignments[f]?.map fun id => if id = otherId then chosenId else id :=
  ExtTreeMap.getElem?_map

theorem LedgerOk.absorb (h : e.LedgerOk) {chosenId otherId : EncounterId} {chosen other : EncounterState}
    (hne : chosenId ≠ otherId) (hc : e.encounters[chosenId]? = some chosen)
    (ho : e.encounters[otherId]? = some other) : (e.absorb chosenId otherId chosen other).LedgerOk := by
  refine ⟨fun id a ha => ?_, fun id a ha f hf => ?_, fun f id hf => ?_⟩
  · obtain ⟨-, rfl⟩ | ⟨-, -, ha⟩ := absorb_lookup ha
    · exact List.nodup_dedup _
    · exact h.nodup id a ha
  · rw [absorb_assignments]
    obtain ⟨rfl, rfl⟩ | ⟨-, ho', ha⟩ := absorb_lookup ha
    · obtain hf | hf := mem_absorb_facts.mp hf
      · rw [h.assigned _ chosen hc f hf, Option.map_some, if_neg hne]
      · rw [h.assigned otherId other ho f hf, Option.map_some, if_pos rfl]
    · rw [h.assigned id a ha f hf, Option.map_some, if_neg ho']
  · rw [absorb_assignments] at hf
    obtain ⟨id', hf, -⟩ := Option.map_eq_some_iff.mp hf
    exact h.inRange f id' hf

theorem Exact.absorb (h : e.Exact) {chosenId otherId : EncounterId} {chosen other : EncounterState}
    (hc : e.encounters[chosenId]? = some chosen) (ho : e.encounters[otherId]? = some other) :
    (e.absorb chosenId otherId chosen other).Exact := fun id a ha f hf => by
  rw [absorb_assignments] at hf
  obtain ⟨k, hk, hid⟩ := Option.map_eq_some_iff.mp hf
  obtain ⟨rfl, rfl⟩ | ⟨hc', ho', ha⟩ := absorb_lookup ha
  · rw [mem_absorb_facts]
    by_cases hko : k = otherId
    · subst hko
      exact .inr (h k other ho f hk)
    · rw [if_neg hko] at hid
      subst hid
      exact .inl (h k chosen hc f hk)
  · by_cases hko : k = otherId
    · rw [if_pos hko] at hid
      exact absurd hid.symm hc'
    · rw [if_neg hko] at hid
      subst hid
      exact h k a ha f hk

theorem Assigned.absorb (h : e.Assigned index) {chosenId otherId : EncounterId} {chosen other : EncounterState} :
    (e.absorb chosenId otherId chosen other).Assigned index := by
  unfold Assigned at h ⊢
  rw [absorb_assignments, Option.isSome_map]
  exact h

theorem Unlisted.absorb (h : e.Unlisted index) {chosenId otherId : EncounterId} {chosen other : EncounterState}
    (hc : e.encounters[chosenId]? = some chosen) (ho : e.encounters[otherId]? = some other) :
    (e.absorb chosenId otherId chosen other).Unlisted index := fun id a ha => by
  obtain ⟨-, rfl⟩ | ⟨-, -, ha⟩ := absorb_lookup ha
  · rw [mem_absorb_facts]
    exact not_or.mpr ⟨h _ chosen hc, h _ other ho⟩
  · exact h id a ha

theorem Pending.absorb (h : e.Pending index) {chosenId otherId : EncounterId} {chosen other : EncounterState} :
    (e.absorb chosenId otherId chosen other).Pending index :=
  ⟨h.1, by rw [absorb_assignments, h.2]; rfl⟩

/-! ### Opening -/

theorem LedgerOk.opened (h : e.LedgerOk) {id : EncounterId} {fact : LedgerFact} {continuity : Nat}
    {managed : Finset ParticipantId} :
    LedgerOk { e with encounters := e.encounters.insert id (.opened id fact continuity managed) } := by
  refine ⟨fun k a ha => ?_, fun k a ha f hf => ?_, h.inRange⟩
  · rw [ExtTreeMap.getElem?_insert_ite] at ha
    split_ifs at ha
    · exact Option.some.inj ha ▸ List.nodup_nil
    · exact h.nodup k a ha
  · rw [ExtTreeMap.getElem?_insert_ite] at ha
    split_ifs at ha
    · rw [← Option.some.inj ha] at hf
      exact absurd hf List.not_mem_nil
    · exact h.assigned k a ha f hf

theorem Exact.opened (h : e.Exact) {id : EncounterId} (hid : ∀ f : Nat, e.assignments[f]? ≠ some id)
    {fact : LedgerFact} {continuity : Nat} {managed : Finset ParticipantId} :
    Exact { e with encounters := e.encounters.insert id (.opened id fact continuity managed) } := by
  intro k a ha f hf
  rw [ExtTreeMap.getElem?_insert_ite] at ha
  split_ifs at ha with hk
  · exact absurd (hk ▸ hf) (hid f)
  · exact h k a ha f hf

theorem Unlisted.opened (h : e.Unlisted index) {id : EncounterId} {fact : LedgerFact} {continuity : Nat}
    {managed : Finset ParticipantId} :
    Unlisted { e with encounters := e.encounters.insert id (.opened id fact continuity managed) } index := fun k a ha => by
  rw [ExtTreeMap.getElem?_insert_ite] at ha
  split_ifs at ha
  · rw [← Option.some.inj ha]
    exact List.not_mem_nil
  · exact h k a ha

/-! ### Listing -/

/-- An encounter lists a pending fact, which is assigned to it. -/
theorem LedgerOk.list (h : e.LedgerOk) (hp : e.Pending index) {id : EncounterId}
    {f : EncounterState → EncounterState} (hf : ∀ a, (f a).facts = a.facts ++ [index])
    (hm : e'.encounters = e.encounters.modify id f) (ha : e'.assignments = e.assignments.insert index id)
    (hl : e'.ledger = e.ledger) : e'.LedgerOk := by
  have hlookup : ∀ (k : EncounterId) (a' : EncounterState), e'.encounters[k]? = some a' →
      ∃ a : EncounterState, e.encounters[k]? = some a ∧ (a'.facts = a.facts ∨ k = id ∧ a'.facts = a.facts ++ [index]) := by
    intro k a' ha'
    rw [hm, ExtTreeMap.getElem?_modify_ite] at ha'
    split_ifs at ha' with hk
    · obtain ⟨a, ha, rfl⟩ := Option.map_eq_some_iff.mp ha'
      exact ⟨a, ha, .inr ⟨hk.symm, hf a⟩⟩
    · exact ⟨a', ha', .inl rfl⟩
  refine ⟨fun k a' ha' => ?_, fun k a' ha' i hi => ?_, fun i k hi => ?_⟩
  · obtain ⟨a, he, hfa | ⟨-, hfa⟩⟩ := hlookup k a' ha'
    · exact hfa ▸ h.nodup k a he
    · rw [hfa]
      exact (h.nodup k a he).append (List.nodup_singleton _)
        (List.disjoint_singleton.mpr (h.not_listed hp he))
  · obtain ⟨a, he, hfa⟩ := hlookup k a' ha'
    have hold : i ∈ a.facts → e'.assignments[i]? = some k := fun hi => by
      rw [ha, ExtTreeMap.getElem?_insert_of_ne, h.assigned k a he i hi]
      rintro rfl
      exact h.not_listed hp he hi
    obtain hfa | ⟨rfl, hfa⟩ := hfa
    · exact hold (hfa ▸ hi)
    · rw [hfa, List.mem_append, List.mem_singleton] at hi
      obtain hi | rfl := hi
      · exact hold hi
      · rw [ha, ExtTreeMap.getElem?_insert_self]
  · rw [ha, ExtTreeMap.getElem?_insert_ite] at hi
    rw [hl]
    split_ifs at hi with hk
    · exact hk ▸ hp.1
    · exact h.inRange i k hi

theorem Exact.list (h : e.Exact) {id : EncounterId}
    {f : EncounterState → EncounterState} (hf : ∀ a, (f a).facts = a.facts ++ [index])
    (hm : e'.encounters = e.encounters.modify id f) (ha : e'.assignments = e.assignments.insert index id) :
    e'.Exact := fun k a' ha' i hi => by
  rw [hm, ExtTreeMap.getElem?_modify_ite] at ha'
  rw [ha, ExtTreeMap.getElem?_insert_ite] at hi
  split_ifs at ha' with hk
  · obtain ⟨a, he, rfl⟩ := Option.map_eq_some_iff.mp ha'
    rw [hf, List.mem_append, List.mem_singleton]
    split_ifs at hi with hn
    · exact .inr hn.symm
    · exact .inl (h k a he i hi)
  · split_ifs at hi with hn
    · exact absurd (Option.some.inj hi) hk
    · exact h k a' ha' i hi

theorem Unlisted.list (h : e.Unlisted index) {other : Nat} (hne : index ≠ other) {id : EncounterId}
    {f : EncounterState → EncounterState} (hf : ∀ a, (f a).facts = a.facts ++ [other])
    (hm : e'.encounters = e.encounters.modify id f) : e'.Unlisted index := fun k a' ha' => by
  rw [hm, ExtTreeMap.getElem?_modify_ite] at ha'
  split_ifs at ha'
  · obtain ⟨a, he, rfl⟩ := Option.map_eq_some_iff.mp ha'
    rw [hf, List.mem_append, List.mem_singleton]
    exact not_or.mpr ⟨h k a he, hne⟩
  · exact h k a' ha'

theorem Pending.list (h : e.Pending index) {other : Nat} {id : EncounterId} (hne : other ≠ index)
    (ha : e'.assignments = e.assignments.insert other id) (hl : e'.ledger = e.ledger) : e'.Pending index :=
  ⟨hl ▸ h.1, by rw [ha, ExtTreeMap.getElem?_insert_of_ne hne, h.2]⟩

/-! ### Promoting -/

theorem nodup_promotable (source : LogSourceId) (target : CanonicalTargetId) (anchor : EqSecond) :
    (e.promotable source target anchor).Nodup := by
  have h : (e.ledger.zipIdx.map (·.2)).Nodup := by
    rw [List.zipIdx_map_snd]
    exact List.nodup_range'
  exact h.sublist (List.filter_sublist.map _)

theorem pending_of_mem_promotable {source : LogSourceId} {target : CanonicalTargetId} {anchor : EqSecond}
    (h : index ∈ e.promotable source target anchor) : e.Pending index := by
  unfold promotable at h
  simp only [List.mem_map, List.mem_filter, Bool.and_eq_true, Bool.not_eq_true',
    ExtTreeMap.contains_eq_false_iff] at h
  obtain ⟨⟨fact, i⟩, ⟨hm, hp⟩, rfl⟩ := h
  exact ⟨(List.getElem?_eq_some_iff.mp (List.mem_zipIdx_iff_getElem?.mp hm)).1, hp.1.1.1.1⟩

theorem LedgerOk.promotePriorFacts (h : e.LedgerOk) (id : EncounterId) (source : LogSourceId)
    (target : CanonicalTargetId) (anchor : EqSecond) :
    (e.promotePriorFacts id source target anchor).LedgerOk := by
  have hpend := fun i (hi : i ∈ e.promotable source target anchor) => pending_of_mem_promotable hi
  have hnd := e.nodup_promotable source target anchor
  unfold CombatEngine.promotePriorFacts
  generalize e.promotable source target anchor = indices at hpend hnd
  induction indices generalizing e with
  | nil => exact h
  | cons i rest ih =>
    obtain ⟨hi, hnd⟩ := List.nodup_cons.mp hnd
    have hp := hpend i (by simp)
    obtain ⟨fact, hf⟩ : ∃ fact, e.ledger[i]? = some fact := ⟨_, List.getElem?_eq_getElem hp.1⟩
    rw [List.foldl_cons, promoteFact_eq hf]
    refine ih (h.list hp (f := (·.promote i fact)) (fun _ => rfl) rfl rfl rfl) (fun j hj => ?_) hnd
    have hne : i ≠ j := fun he => hi (by rw [he]; exact hj)
    exact (hpend j (List.mem_cons_of_mem _ hj)).list hne rfl rfl

theorem Exact.promoteFact (h : e.Exact) (id : EncounterId) (index : Nat) : (e.promoteFact id index).Exact := by
  cases hf : e.ledger[index]? with
  | none => simpa [CombatEngine.promoteFact, hf] using h
  | some fact =>
    rw [promoteFact_eq hf]
    exact h.list (f := (·.promote index fact)) (fun _ => rfl) rfl rfl

theorem Assigned.promoteFact (h : e.Assigned index) (id : EncounterId) (other : Nat) :
    (e.promoteFact id other).Assigned index := by
  cases hf : e.ledger[other]? with
  | none => simpa [CombatEngine.promoteFact, hf] using h
  | some fact =>
    rw [promoteFact_eq hf]
    exact h.insert rfl

theorem Unlisted.promoteFact (h : e.Unlisted index) {other : Nat} (hne : index ≠ other) (id : EncounterId) :
    (e.promoteFact id other).Unlisted index := by
  cases hf : e.ledger[other]? with
  | none => simpa [CombatEngine.promoteFact, hf] using h
  | some fact =>
    rw [promoteFact_eq hf]
    exact h.list hne (f := (·.promote other fact)) (fun _ => rfl) rfl

/-! ### Placing and finalizing -/

theorem LedgerOk.place (h : e.LedgerOk) (hi : e.Pending index) {id : Option EncounterId}
    (hp : PlaceSpec e fact v e' id) : e'.LedgerOk ∧ e'.Pending index := by
  refine hp.keeps (J := fun e => e.LedgerOk ∧ e.Pending index) ?_ ?_ ?_ ?_
  · exact fun hr => hr.keeps (J := fun e => e.LedgerOk ∧ e.Pending index)
      (fun hne hc ho => ⟨h.absorb hne hc ho, hi.absorb⟩) ⟨h, hi⟩
  · exact fun _ _ h => ⟨h.1.of_lists (sameLists_modify rfl fun _ => rfl) rfl rfl, h.2⟩
  · exact fun _ h => ⟨h.1.of_lists (sameLists_of_eq rfl) rfl rfl, h.2⟩
  · exact fun _ _ h => ⟨h.1.opened, h.2⟩

theorem Exact.place (h : e.Exact) {id : Option EncounterId} (hp : PlaceSpec e fact v e' id)
    (hfresh : ∀ e', Opens e fact v e' → e'.encounters[openId fact v]? = none →
      ∀ f : Nat, e'.assignments[f]? ≠ some (openId fact v)) : e'.Exact := by
  refine hp.keeps ?_ ?_ ?_ ?_
  · exact fun hr => hr.keeps (fun _ hc ho => h.absorb hc ho) h
  · exact fun _ _ h => h.of_lists (sameLists_modify rfl fun _ => rfl) rfl
  · exact fun _ h => h.of_lists (sameLists_of_eq rfl) rfl
  · exact fun ho hn h => h.opened (hfresh _ ho hn)

theorem Assigned.place (h : e.Assigned index) {id : Option EncounterId} (hp : PlaceSpec e fact v e' id) :
    e'.Assigned index := by
  refine hp.keeps (J := fun e => e.Assigned index) ?_ (fun _ _ h => h) (fun _ h => h) (fun _ _ h => h)
  exact fun hr => hr.keeps (J := fun e => e.Assigned index) (fun _ _ _ => h.absorb) h

theorem Unlisted.place (h : e.Unlisted index) {id : Option EncounterId} (hp : PlaceSpec e fact v e' id) :
    e'.Unlisted index := by
  refine hp.keeps (J := fun e => e.Unlisted index) ?_ ?_ ?_ ?_
  · exact fun hr => hr.keeps (J := fun e => e.Unlisted index) (fun _ hc ho => h.absorb hc ho) h
  · exact fun _ _ h => h.of_lists (sameLists_modify rfl fun _ => rfl)
  · exact fun _ h => h.of_lists (sameLists_of_eq rfl)
  · exact fun _ _ h => h.opened

theorem sameLists_expireHeld (now : MonoTime) : SameLists e (e.expireHeld now) := fun id a ha => by
  rw [(e.expireHeld_spec now).1] at ha
  split_ifs at ha
  exact ⟨a, ha, rfl⟩

theorem LedgerOk.expireHeld (h : e.LedgerOk) (now : MonoTime) : (e.expireHeld now).LedgerOk := by
  obtain ⟨-, -, ⟨hl, ha⟩ | ⟨hl, ha, he⟩⟩ := e.expireHeld_spec now
  · exact h.of_lists (sameLists_expireHeld now) ha hl
  · refine ⟨fun id a h => ?_, fun id a h => ?_, fun f id h => ?_⟩
    · simp [he] at h
    · simp [he] at h
    · simp [ha] at h

theorem Exact.expireHeld (h : e.Exact) (now : MonoTime) : (e.expireHeld now).Exact := by
  obtain ⟨-, -, ⟨-, ha⟩ | ⟨-, -, he⟩⟩ := e.expireHeld_spec now
  · exact h.of_lists (sameLists_expireHeld now) ha
  · intro id a h
    simp [he] at h

end

/-! ### Runs -/

end CombatEngine

open CombatEngine

/-- The event opens no encounter under an id that a fact of the ledger is still assigned to. -/
def Reduction.OpensFresh (r : Reduction) : Prop :=
  ∀ o ∈ r.opening, o.1.encounters.contains o.2 ∨ ∀ a ∈ o.1.assignments.toList, a.2 ≠ o.2

instance : DecidablePred Reduction.OpensFresh := fun _ =>
  inferInstanceAs (Decidable (∀ o ∈ _, _))

theorem Reduction.OpensFresh.unassigned {r : Reduction} (h : r.OpensFresh) {damage : DamageObservation}
    (hr : r.event = .combat (.damage damage)) {e' : CombatEngine}
    (ho : Opens (r.pushed (.damage damage)) (r.fact (.damage damage)) (r.view damage) e')
    (hn : e'.encounters[openId (r.fact (.damage damage)) (r.view damage)]? = none) (f : Nat) :
    e'.assignments[f]? ≠ some (openId (r.fact (.damage damage)) (r.view damage)) := by
  obtain hc | ha := h _ (Reduction.opening_eq hr ho)
  · rw [ExtTreeMap.contains_eq_false_iff.mpr hn] at hc
    cases hc
  · exact fun hf => ha _ (ExtTreeMap.mem_toList_of_lookup hf) rfl

theorem CombatEngine.LedgerOk.pushed {r : Reduction} (h : r.engine.LedgerOk) (event : FactEvent) :
    (r.pushed event).LedgerOk ∧ (r.pushed event).Pending r.index := by
  have hlen : (r.pushed event).ledger.length = r.engine.ledger.length + 1 := List.length_append
  refine ⟨⟨h.nodup, h.assigned, fun f id hf => ?_⟩, ?_, ?_⟩
  · exact hlen ▸ Nat.lt_succ_of_lt (h.inRange f id hf)
  · exact hlen ▸ Nat.lt_succ_self _
  · exact Option.eq_none_iff_forall_ne_some.mpr fun id hf => absurd (h.inRange _ id hf) (Nat.lt_irrefl _)

theorem CombatEngine.LedgerOk.damage {e e' : CombatEngine} {index : Nat} {fact : LedgerFact} {v : DamageView}
    (h : e.LedgerOk) (hi : e.Pending index) (hd : DamageSpec e index fact v e') : e'.LedgerOk := by
  cases hd with
  | dropped hp => exact (h.place hi hp).1
  | ignored hp => exact (h.place hi hp).1
  | listed hp =>
    obtain ⟨h, hi⟩ := h.place hi hp
    rw [listDamage_eq]
    exact h.list hi (fun a => a.listing_facts _ _ _ _ _) rfl rfl rfl
  | promoted hp =>
    obtain ⟨h, hi⟩ := h.place hi hp
    refine LedgerOk.promotePriorFacts ?_ _ _ _ _
    rw [listDamage_eq]
    exact h.list hi (fun a => a.listing_facts _ _ _ _ _) rfl rfl rfl

theorem CombatEngine.Exact.damage {e e' : CombatEngine} {index : Nat} {fact : LedgerFact} {v : DamageView}
    (h : e.Exact) (hfresh : ∀ e', Opens e fact v e' → e'.encounters[openId fact v]? = none →
      ∀ f : Nat, e'.assignments[f]? ≠ some (openId fact v))
    (hd : DamageSpec e index fact v e') : e'.Exact := by
  cases hd with
  | dropped hp => exact h.place hp hfresh
  | ignored hp => exact h.place hp hfresh
  | listed hp =>
    rw [listDamage_eq]
    exact (h.place hp hfresh).list (fun a => a.listing_facts _ _ _ _ _) rfl rfl
  | promoted hp =>
    refine promotePriorFacts_keeps (fun _ h => h.promoteFact _ _) ?_
    rw [listDamage_eq]
    exact (h.place hp hfresh).list (fun a => a.listing_facts _ _ _ _ _) rfl rfl

theorem CombatEngine.Assigned.damage {e e' : CombatEngine} {f index : Nat} {fact : LedgerFact} {v : DamageView}
    (h : e.Assigned f) (hd : DamageSpec e index fact v e') : e'.Assigned f := by
  cases hd with
  | dropped hp => exact h.place hp
  | ignored hp => exact h.place hp
  | listed hp =>
    rw [listDamage_eq]
    exact (h.place hp).insert rfl
  | promoted hp =>
    refine promotePriorFacts_keeps (J := fun e => e.Assigned f) (fun _ h => h.promoteFact _ _) ?_
    rw [listDamage_eq]
    exact (h.place hp).insert rfl

/-- The new fact and those that are promoted are pending, so an assigned one is not among them. -/
theorem CombatEngine.Unlisted.damage {e e' : CombatEngine} {f index : Nat} {fact : LedgerFact} {v : DamageView}
    (h : e.Unlisted f) (ha : e.Assigned f) (hok : e.LedgerOk) (hi : e.Pending index) (hd : DamageSpec e index fact v e') :
    e'.Unlisted f := by
  have listed {e₁ : CombatEngine} {id : EncounterId} (hp : PlaceSpec e fact v e₁ (some id)) :
      (e₁.listDamage index fact v id).Unlisted f := by
    rw [listDamage_eq]
    exact (h.place hp).list ((ha.place hp).ne (hok.place hi hp).2) (fun a => a.listing_facts _ _ _ _ _) rfl
  cases hd with
  | dropped hp => exact h.place hp
  | ignored hp => exact h.place hp
  | listed hp => exact listed hp
  | @promoted e₁ id hp =>
    have hassigned : (e₁.listDamage index fact v id).Assigned f := by
      rw [listDamage_eq]
      exact (ha.place hp).insert rfl
    exact promotePriorFacts_keeps (J := fun e => e.Unlisted f)
      (fun hm h => h.promoteFact (hassigned.ne (pending_of_mem_promotable hm)) _) (listed hp)

/-- A call that clears no fact from the ledger: it neither withdraws it nor expires the last encounter. -/
abbrev keepsLedger : Conditions where
  withdrawing _ := False
  expiring e now := (e.expireHeld now).ledger = e.ledger

/-- Every fact of the ledger satisfies `P`. -/
def CombatEngine.EachFact (P : LedgerFact → Prop) (e : CombatEngine) : Prop := ∀ fact ∈ e.ledger, P fact

theorem CombatEngine.DamageSpec.ledger {e e' : CombatEngine} {index : Nat} {fact : LedgerFact} {v : DamageView}
    (h : DamageSpec e index fact v e') : e'.ledger = e.ledger := by
  have place {e₁ : CombatEngine} {o : Option EncounterId} (hp : PlaceSpec e fact v e₁ o) : e₁.ledger = e.ledger :=
    hp.keeps (J := fun e' => e'.ledger = e.ledger)
      (fun hr => hr.keeps (J := fun e' => e'.ledger = e.ledger) (fun _ _ _ => rfl) rfl)
      (fun _ _ h => h) (fun _ h => h) (fun _ _ h => h)
  cases h with
  | dropped hp => exact place hp
  | ignored hp => exact place hp
  | listed hp =>
    rw [listDamage_eq]
    exact (place hp :)
  | promoted hp =>
    refine promotePriorFacts_keeps (J := fun e' => e'.ledger = e.ledger)
      (fun _ h => (promoteFact_ledger _ _ _).trans h) ?_
    rw [listDamage_eq]
    exact (place hp :)

theorem kept_eachFact (P : LedgerFact → Prop) :
    Kept (EachFact P) { reduction := fun r => ∀ event, r.Presents event → P (r.fact event) } := by
  have pushed (r : Reduction) (event : FactEvent) (hr : P (r.fact event)) (h : r.engine.EachFact P) :
      (r.pushed event).EachFact P := fun fact hm => by
    rcases List.mem_append.mp hm with hm | hm
    · exact h fact hm
    · rw [List.mem_singleton.mp hm]
      exact hr
  exact
    { same := fun e e' hs h => by
        unfold EachFact
        rw [hs.ledger]
        exact h
      retouch := fun _ _ _ _ h => h
      withdraw := fun _ _ _ _ _ hm => absurd hm List.not_mem_nil
      push := fun r event hr he h => pushed r event (hr event he) h
      damage := fun r damage hr he h hd => by
        unfold EachFact
        rw [hd.ledger]
        exact pushed r _ (hr (.damage damage) he) h
      attempt := fun r attempt k encounter hr he h hd => by
        rw [hd.result]
        exact pushed r _ (hr (.attempt attempt) he) h
      slain := fun r slain k encounter targetId hr he h hd => by
        rw [hd.result]
        exact pushed r _ (hr (.slain slain) he) h
      endInactive := fun _ _ _ _ h => h
      finalize := fun f _ _ h => by
        unfold Finalizing.result
        rw [finalizeDue_eq]
        exact h
      expire := fun e now _ h => by
        unfold EachFact
        obtain ⟨-, -, ⟨hl, -⟩ | ⟨hl, -⟩⟩ := e.expireHeld_spec now
        · rw [hl]
          exact h
        · rw [hl]
          exact fun _ hm => absurd hm List.not_mem_nil }

theorem kept_ledgerOk : Kept LedgerOk {} where
  same e e' hs h := h.of_lists (sameLists_of_eq hs.encounters) hs.assignments hs.ledger
  retouch e f hf _ h := h.of_lists (sameLists_map rfl rfl fun id a => (hf id a).facts) rfl rfl
  withdraw e message _ h := ⟨by simp, by simp, by simp⟩
  push r event _ _ h := (h.pushed event).1
  damage r damage _ _ h hd := (h.pushed _).1.damage (h.pushed _).2 hd
  attempt r attempt id encounter _ _ h hd := by
    rw [hd.result]
    exact (h.pushed _).1.list (h.pushed (.attempt attempt)).2 (fun _ => rfl) rfl rfl rfl
  slain r slain id encounter targetId _ _ h hd := by
    rw [hd.result]
    exact (h.pushed _).1.list (h.pushed (.slain slain)).2 (fun a => a.slaying_facts _ _ _ _) rfl rfl rfl
  endInactive e id now cutoff h :=
    h.of_lists (sameLists_modify rfl fun a => by rw [a.enterEnding_eq]) rfl rfl
  finalize f _ _ h := by
    unfold Finalizing.result
    rw [finalizeDue_eq]
    exact h.of_lists (sameLists_modify rfl fun a => closing_facts _ _ _ a) rfl rfl
  expire e now _ h := h.expireHeld now

theorem kept_exact : Kept Exact { reduction := Reduction.OpensFresh } where
  same e e' hs h := h.of_lists (sameLists_of_eq hs.encounters) hs.assignments
  retouch e f hf _ h := h.of_lists (sameLists_map rfl rfl fun id a => (hf id a).facts) rfl
  withdraw e message _ h := by simp [Exact]
  push r event _ _ h := h
  damage r damage hok he h hd := Exact.damage (e := r.pushed _) h (fun _ ho hn => hok.unassigned he ho hn) hd
  attempt r attempt id encounter _ _ h hd := by
    rw [hd.result]
    exact h.list (fun _ => rfl) rfl rfl
  slain r slain id encounter targetId _ _ h hd := by
    rw [hd.result]
    exact h.list (fun a => a.slaying_facts _ _ _ _) rfl rfl
  endInactive e id now cutoff h := h.of_lists (sameLists_modify rfl fun a => by rw [a.enterEnding_eq]) rfl
  finalize f _ _ h := by
    unfold Finalizing.result
    rw [finalizeDue_eq]
    exact h.of_lists (sameLists_modify rfl fun a => closing_facts _ _ _ a) rfl
  expire e now _ h := h.expireHeld now

/-- An assigned fact stays assigned until the ledger is cleared. -/
theorem kept_assigned (f : Nat) : Kept (fun e => e.LedgerOk ∧ e.Assigned f) keepsLedger where
  same e e' hs h := ⟨kept_ledgerOk.same e e' hs h.1, by unfold Assigned; rw [hs.assignments]; exact h.2⟩
  retouch e g hg _ h := ⟨kept_ledgerOk.retouch e g hg (fun _ _ _ _ _ => .inr trivial) h.1, h.2⟩
  withdraw e message hw := hw.elim
  push r event _ _ h := ⟨(h.1.pushed event).1, h.2⟩
  damage r damage _ he h hd := ⟨kept_ledgerOk.damage r damage trivial he h.1 hd, Assigned.damage (e := r.pushed _) h.2 hd⟩
  attempt r attempt id encounter _ he h hd := by
    refine ⟨kept_ledgerOk.attempt r attempt id encounter trivial he h.1 hd, ?_⟩
    rw [hd.result]
    exact h.2.insert rfl
  slain r slain id encounter targetId _ he h hd := by
    refine ⟨kept_ledgerOk.slain r slain id encounter targetId trivial he h.1 hd, ?_⟩
    rw [hd.result]
    exact h.2.insert rfl
  endInactive e id now cutoff h := ⟨kept_ledgerOk.endInactive e id now cutoff h.1, h.2⟩
  finalize r _ hdue h := by
    refine ⟨kept_ledgerOk.finalize r trivial hdue h.1, ?_⟩
    unfold Finalizing.result
    rw [finalizeDue_eq]
    exact h.2
  expire e now hx h := by
    refine ⟨h.1.expireHeld now, ?_⟩
    obtain ⟨-, -, ⟨-, ha⟩ | ⟨hl, -, -⟩⟩ := e.expireHeld_spec now
    · unfold Assigned
      rw [ha]
      exact h.2
    · -- an assigned fact is in the ledger, which is kept
      obtain ⟨id, hid⟩ := Option.isSome_iff_exists.mp h.2
      have hin := h.1.inRange f id hid
      rw [← show (e.expireHeld now).ledger = e.ledger from hx, hl] at hin
      exact absurd hin (Nat.not_lt_zero _)

/-- An assigned fact that no encounter lists is listed by none until the ledger is cleared. -/
theorem kept_unlisted (f : Nat) : Kept (fun e => (e.LedgerOk ∧ e.Assigned f) ∧ e.Unlisted f) keepsLedger where
  same e e' hs h := ⟨(kept_assigned f).same e e' hs h.1, h.2.of_lists (sameLists_of_eq hs.encounters)⟩
  retouch e g hg hl h := ⟨(kept_assigned f).retouch e g hg hl h.1,
    h.2.of_lists (sameLists_map rfl rfl fun id a => (hg id a).facts)⟩
  withdraw e message hw := hw.elim
  push r event hok he h := ⟨(kept_assigned f).push r event hok he h.1, h.2⟩
  damage r damage hok he h hd := ⟨(kept_assigned f).damage r damage hok he h.1 hd,
    Unlisted.damage (e := r.pushed _) h.2 h.1.2 (h.1.1.pushed _).1 (h.1.1.pushed _).2 hd⟩
  attempt r attempt id encounter hok he h hd := by
    refine ⟨(kept_assigned f).attempt r attempt id encounter hok he h.1 hd, ?_⟩
    rw [hd.result]
    exact h.2.list (Assigned.ne (e := r.pushed (.attempt attempt)) h.1.2 (h.1.1.pushed _).2) (fun _ => rfl) rfl
  slain r slain id encounter targetId hok he h hd := by
    refine ⟨(kept_assigned f).slain r slain id encounter targetId hok he h.1 hd, ?_⟩
    rw [hd.result]
    exact h.2.list (Assigned.ne (e := r.pushed (.slain slain)) h.1.2 (h.1.1.pushed _).2)
      (fun a => a.slaying_facts _ _ _ _) rfl
  endInactive e id now cutoff h := ⟨(kept_assigned f).endInactive e id now cutoff h.1,
    h.2.of_lists (sameLists_modify rfl fun a => by rw [a.enterEnding_eq])⟩
  finalize r hfin hdue h := by
    refine ⟨(kept_assigned f).finalize r hfin hdue h.1, ?_⟩
    unfold Finalizing.result
    rw [finalizeDue_eq]
    exact h.2.of_lists (sameLists_modify rfl fun a => closing_facts _ _ _ a)
  expire e now hx h := ⟨(kept_assigned f).expire e now hx h.1, h.2.of_lists (sameLists_expireHeld now)⟩

theorem ledgerOk_run (policy : CombatPolicy) (calls : List Call) : ((init policy).run calls).LedgerOk :=
  kept_ledgerOk.run_of_forall calls ⟨by simp [init], by simp [init], by simp [init]⟩

/-- While the ledger is not cleared, what is assigned stays assigned, and of that what no encounter lists stays so. -/
theorem assigned_run {policy : CombatPolicy} {pre mid : List Call}
    (h : Along (Kept.CallOk keepsLedger) step ((init policy).run pre) mid) {f : Nat}
    (hf : ((init policy).run pre).Assigned f) :
    (((init policy).run pre).run mid).Assigned f ∧
      (((init policy).run pre).Unlisted f → (((init policy).run pre).run mid).Unlisted f) :=
  ⟨((kept_assigned f).run h ⟨ledgerOk_run policy pre, hf⟩).2,
    fun hu => ((kept_unlisted f).run h ⟨⟨ledgerOk_run policy pre, hf⟩, hu⟩).2⟩

theorem exact_run {policy : CombatPolicy} {calls : List Call}
    (h : Along (Kept.CallOk { reduction := Reduction.OpensFresh }) step (init policy) calls) :
    ((init policy).run calls).Exact :=
  kept_exact.run h (by simp [Exact, init])

/-- A hit of `A` and, 25 seconds later, one of `C`. -/
def twoHits : List Call :=
  Sample.register ['A', 'C', 'D'] ++
    [Sample.line 'A' 0 500 0 (Sample.hit Sample.you "r" 10),
      Sample.line 'C' 0 520 25000 (Sample.hit Sample.you "t" 5)]

/-- The encounter of `A` expires while the one of `C` lasts. -/
def expiry : List Call := [.tick 30000, .tick 32000, .tick 40000]

/-- A line of `D` opens the id of the encounter that has expired again. -/
def reopened : List Call :=
  twoHits ++ expiry ++ [Sample.line 'D' 0 500 41000 (Sample.hit (Sample.named "A") "r" 7)]

end Stonemite.Combat
