import Stonemite.Combat.BookInv
import Stonemite.Combat.RoutingInv

/-!
# Damage that counts for no encounter

A damage fact that neither contributes to nor sustains an encounter leaves every phase and deadline as it is, unless the
encounter of its source is in its ending grace for inactivity: there the fact resumes it. Every fingerprint of an
encounter is of one of its targets, so that such a fact merges no encounters. `kept_seenKnown` keeps the invariant of the
fingerprints, `kept_phased` that of one phase. `SameLifecycle` compares the engines around a reduction; the finalization
of an encounter is `undisturbed_ending`.
-/

open Std

namespace Stonemite.Combat

/-! ### Fingerprints and targets -/

/-- The encounter knows the target of each damage line it has seen. -/
def EncounterState.KnowsSeen (a : EncounterState) : Prop :=
  ∀ fingerprint ∈ a.fingerprints, fingerprint.defender ∈ a.targets

namespace EncounterState
variable {a b : EncounterState}

theorem KnowsSeen.of_eq (h : a.KnowsSeen) (hf : b.fingerprints = a.fingerprints)
    (ht : ∀ target ∈ a.targets, target ∈ b.targets) : b.KnowsSeen :=
  fun fingerprint hin => ht _ (h fingerprint (hf ▸ hin))

theorem KnowsSeen.listing (h : a.KnowsSeen) (fact : LedgerFact) {v : DamageView} (hv : v.fingerprint.defender = v.targetId)
    (state : Option SourceState) (index : Nat) (contributes : Bool) :
    (a.listing fact v state index contributes).KnowsSeen := by
  unfold EncounterState.listing
  cases contributes with
  | false => exact h.of_eq (a.addSource_fingerprints _ _) fun target ht => (a.addSource_targets _ _).symm ▸ ht
  | true =>
    intro fingerprint hin
    have hin : fingerprint ∈ insert v.fingerprint (a.addSource fact.source state).fingerprints := hin
    rw [addSource_fingerprints] at hin
    show _ ∈ ExtTreeMap.insert (a.addSource fact.source state).targets v.targetId _
    rw [addSource_targets, ExtTreeMap.mem_insert]
    rcases Finset.mem_insert.mp hin with rfl | hin
    · exact .inl (by rw [hv]; exact ReflCmp.compare_self)
    · exact .inr (h fingerprint hin)

theorem mem_foldl_merge (l : List (CanonicalTargetId × TargetState))
    {chosen : ExtTreeMap CanonicalTargetId TargetState} {target : CanonicalTargetId} :
    target ∈ l.foldl (fun targets entry => targets.insert entry.1 ((targets[entry.1]?).elim entry.2 entry.2.merge)) chosen ↔
      target ∈ chosen ∨ target ∈ l.map (·.1) := by
  induction l generalizing chosen with
  | nil => simp
  | cons entry l ih =>
    rw [List.foldl_cons, ih, ExtTreeMap.mem_insert, List.map_cons, List.mem_cons, Std.compare_eq_iff_eq, eq_comm, or_assoc]
    exact or_left_comm

theorem mem_mergeTargets {chosen other : ExtTreeMap CanonicalTargetId TargetState} {target : CanonicalTargetId} :
    target ∈ mergeTargets chosen other ↔ target ∈ chosen ∨ target ∈ other := by
  refine (mem_foldl_merge _).trans (or_congr_right ?_)
  rw [ExtTreeMap.map_fst_toList_eq_keys, ExtTreeMap.mem_keys]

theorem KnowsSeen.absorb (h : a.KnowsSeen) (h' : b.KnowsSeen) : (a.absorb b).KnowsSeen := by
  intro fingerprint hin
  refine mem_mergeTargets.mpr ?_
  rcases Finset.mem_union.mp hin with hin | hin
  · exact .inl (h fingerprint hin)
  · exact .inr (h' fingerprint hin)

end EncounterState

namespace CombatEngine
open KeptEach (modify of_eq)
variable {e e' : CombatEngine} {index : Nat} {fact : LedgerFact} {v : DamageView} {id : EncounterId}

/-- Every encounter knows the targets of what it has seen. -/
def SeenKnown (e : CombatEngine) : Prop := e.Each fun _ a => a.KnowsSeen

theorem SeenKnown.route (h : e.SeenKnown) {o : Option EncounterId} (hr : RouteSpec e fact v e' o) : e'.SeenKnown := by
  refine hr.keeps (fun {chosenId otherId chosen other} hne hc ho => ?_) h
  intro id a ha
  have ha : ((e.encounters.erase otherId).insert chosenId (chosen.absorb other))[id]? = some a := ha
  rw [ExtTreeMap.getElem?_insert_ite, ExtTreeMap.getElem?_erase_ite] at ha
  split_ifs at ha with hk ho'
  · obtain rfl := Option.some.inj ha
    exact (h _ _ hc).absorb (h _ _ ho)
  · exact h id a ha

theorem mem_modify {targets : ExtTreeMap CanonicalTargetId TargetState} {k target : CanonicalTargetId}
    {f : TargetState → TargetState} : target ∈ targets.modify k f ↔ target ∈ targets := ExtTreeMap.mem_modify

theorem SeenKnown.place (h : e.SeenKnown) {o : Option EncounterId} (hp : PlaceSpec e fact v e' o) : e'.SeenKnown := by
  refine hp.keeps h.route ?_ (fun _ h => of_eq h rfl) ?_
  · intro e' id _ _ h
    exact modify h rfl fun a _ ha => ha.of_eq rfl fun target ht => mem_modify.mpr ht
  · intro e' _ _ h id a ha
    have ha : (e'.encounters.insert (openId fact v) (e'.openedState fact v))[id]? = some a := ha
    rw [ExtTreeMap.getElem?_insert_ite] at ha
    split_ifs at ha with hk
    · obtain rfl := Option.some.inj ha
      exact fun fingerprint hin => absurd hin (Finset.notMem_empty _)
    · exact h id a ha

theorem SeenKnown.promoteFact (h : e.SeenKnown) : (e.promoteFact id index).SeenKnown := by
  cases hf : e.ledger[index]? with
  | none => simpa [CombatEngine.promoteFact, hf] using h
  | some fact =>
    rw [promoteFact_eq hf]
    exact modify h rfl fun a _ ha => ha.of_eq rfl fun _ ht => ht

theorem SeenKnown.damage (h : e.SeenKnown) (hv : v.fingerprint.defender = v.targetId)
    (hd : DamageSpec e index fact v e') : e'.SeenKnown := by
  have list {e' : CombatEngine} {id : EncounterId} (h : e'.SeenKnown) : (e'.listDamage index fact v id).SeenKnown := by
    rw [listDamage_eq]
    exact modify h rfl fun a _ ha => ha.listing fact hv _ _ _
  cases hd with
  | dropped hp => exact h.place hp
  | ignored hp => exact h.place hp
  | listed hp => exact list (h.place hp)
  | promoted hp => exact promotePriorFacts_keeps (fun _ h => h.promoteFact) (list (h.place hp))

theorem kept_seenKnown : Kept SeenKnown {} where
  same e e' hs h := of_eq h hs.encounters
  retouch e f hf _ h := fun id b hb => by
    rw [ExtTreeMap.getElem?_map] at hb
    obtain ⟨a, ha, rfl⟩ := Option.map_eq_some_iff.mp hb
    exact (h id a ha).of_eq (hf id a).fingerprints fun target ht => (hf id a).targets.symm ▸ ht
  withdraw e message _ h := by simp [SeenKnown, Each]
  push r event _ _ h := h
  damage r damage _ _ h hd := h.damage (e := r.pushed _) rfl hd
  attempt r attempt id encounter _ _ h hd := by
    rw [hd.result]
    exact modify h rfl fun a _ ha => ha.of_eq rfl fun _ ht => ht
  slain r slain id encounter targetId _ _ h hd := by
    rw [hd.result]
    refine modify h rfl fun a _ ha => ?_
    rw [a.slaying_eq]
    exact ha.of_eq (a.addSource_fingerprints _ _) fun target ht =>
      mem_modify.mpr ((a.addSource_targets _ _).symm ▸ ht)
  endInactive e id now cutoff h := modify h rfl fun a _ ha => by
    rw [a.enterEnding_eq]
    exact ha.of_eq rfl fun _ ht => ht
  finalize f _ _ h := by
    unfold Finalizing.result
    rw [finalizeDue_eq]
    refine modify h rfl fun a _ ha => ?_
    rw [closing_spec]
    exact ha.of_eq rfl fun _ ht => ht
  expire e now _ h := fun id a ha => by
    rw [(e.expireHeld_spec now).1] at ha
    split_ifs at ha
    exact h id a ha

end CombatEngine

/-! ### Facts that count for no encounter -/

/-- The phase of an encounter and when it is due, as `next_deadline` has it. -/
def EncounterState.lifecycle (policy : CombatPolicy) (a : EncounterState) : PhaseState × MonoTime :=
  (a.phase, match a.phase with
    | .active => MonoTime.add a.lastSustainReceipt policy.inactivityMs
    | .ending _ enteredAt .. => MonoTime.add enteredAt policy.endingGraceMs
    | .held _ til => til)

namespace CombatEngine

/-- Every encounter has the phase and the deadline it had. -/
structure SameLifecycle (e e' : CombatEngine) : Prop where
  policy : e'.policy = e.policy
  lifecycle : ∀ id : EncounterId,
    (e'.encounters[id]?).map (·.lifecycle e'.policy) = (e.encounters[id]?).map (·.lifecycle e.policy)

/-- The damage neither contributes to nor sustains an encounter. -/
def idle (e : CombatEngine) (fact : LedgerFact) (v : DamageView) : Bool :=
  match e.placeDamage fact v with
  | (_, none) => true
  | (e, some id) => !e.contributes id v && !e.knownTarget id v.targetId

/-- The encounter that the source is in is in its ending grace for inactivity, and the source is in the closure
set. -/
def EndsFor (e : CombatEngine) (source : LogSourceId) : Prop :=
  ∃ (id : EncounterId) (a : EncounterState) (enteredAt : MonoTime) (cutoff : EqSecond) (closure : ExtTreeSet LogSourceId),
    e.sourceActive[source]? = some id ∧ e.encounters[id]? = some a ∧
      a.phase = .ending .inactivity enteredAt cutoff closure ∧ source ∈ closure

section
variable {e e' : CombatEngine} {index : Nat} {fact : LedgerFact} {v : DamageView} {id : EncounterId}

theorem SameLifecycle.of_eq (hp : e'.policy = e.policy) (he : e'.encounters = e.encounters) : SameLifecycle e e' :=
  ⟨hp, fun id => by rw [hp, he]⟩

theorem processDamage_idle {damage : DamageObservation} (h : e.idle fact (e.viewDamage fact damage) = true) :
    e.processDamage index fact damage = (e.placeDamage fact (e.viewDamage fact damage)).1 := by
  unfold idle at h
  unfold processDamage
  dsimp only
  generalize e.placeDamage fact (e.viewDamage fact damage) = placed at h
  obtain ⟨e', o⟩ := placed
  cases o with
  | none => rfl
  | some id =>
    show e'.recordDamage index fact _ id = e'
    unfold recordDamage
    exact if_pos h

theorem idle_place {id : EncounterId} (h : e.idle fact v = true) (hp : e.placeDamage fact v = (e', some id)) :
    e'.contributes id v = false ∧ e'.knownTarget id v.targetId = false := by
  unfold idle at h
  rw [hp] at h
  simpa using h

theorem SeenKnown.correlated (h : e.SeenKnown) (hv : v.fingerprint.defender = v.targetId) {server : Str}
    (hc : e.correlated server v.fingerprint = some id) : e.knownTarget id v.targetId = true := by
  obtain ⟨a, ha, hp⟩ := ExtTreeMap.find?_toList_spec hc
  rw [Bool.and_eq_true, decide_eq_true_eq] at hp
  exact knownTarget_iff.mpr ⟨a, ha, hv ▸ h id a ha _ hp.2⟩

/-- Routing leaves the engine as it is, or merges two encounters into an active one that knows the target. -/
theorem route_cases (h : e.SeenKnown) (hv : v.fingerprint.defender = v.targetId) {o : Option EncounterId}
    (hr : RouteSpec e fact v e' o) :
    (e' = e ∧ (∀ id, o = some id → e.sourceActive[fact.source.id]? = some id ∨ e.knownTarget id v.targetId = true) ∧
        ∀ (id : EncounterId) (a : EncounterState), e.sourceActive[fact.source.id]? = some id →
          e.encounters[id]? = some a → o = some id) ∨
      ∃ (id : EncounterId) (a : EncounterState), o = some id ∧ e'.encounters[id]? = some a ∧ a.phase = .active ∧
        e'.knownTarget id v.targetId = true := by
  have hseen := h.route hr
  cases hr with
  | fresh hs => exact .inl ⟨rfl, nofun, fun id _ hid => absurd (hs.symm.trans hid) nofun⟩
  | joined hs hc =>
    refine .inl ⟨rfl, fun id hid => .inr ?_, fun id _ hid => absurd (hs.symm.trans hid) nofun⟩
    obtain rfl := Option.some.inj hid
    exact h.correlated hv hc
  | current hs hc =>
    refine .inl ⟨rfl, fun id hid => .inl ?_, fun id _ hid _ => hs.symm.trans hid⟩
    obtain rfl := Option.some.inj hid
    exact hs
  | @merged left right hs hc hne =>
    have hknown := h.correlated hv hc
    obtain ⟨b, hb, ht⟩ := knownTarget_iff.mp hknown
    have hm := mergeEncounters_spec e hne
    generalize e.mergeEncounters left right = merged at hm
    obtain ⟨e', id⟩ := merged
    dsimp only at hm ⊢
    cases hm with
    | alone hid hn =>
      obtain rfl : right = id := hn right b (.inr rfl) hb
      refine .inl ⟨rfl, fun id hid => .inr ?_, fun id a hid ha => ?_⟩
      · obtain rfl := Option.some.inj hid
        exact hknown
      · obtain rfl : left = id := Option.some.inj (hs.symm.trans hid)
        exact absurd (hn left a (.inl rfl) ha) hne
    | @absorbed _ otherId chosen other hids _ hchosen hother =>
      refine .inr ⟨id, chosen.absorb other, rfl, absorb_lookup_chosen, rfl, ?_⟩
      refine knownTarget_iff.mpr ⟨_, absorb_lookup_chosen, EncounterState.mem_mergeTargets.mpr ?_⟩
      rcases hids with ⟨rfl, rfl⟩ | ⟨rfl, rfl⟩
      · obtain rfl := Option.some.inj (hb.symm.trans hother)
        exact .inr ht
      · obtain rfl := Option.some.inj (hb.symm.trans hchosen)
        exact .inl ht

/-- The rule of a routed encounter that resumes it decides the place. -/
theorem placeDamage_resumes (hr : e.routeDamage fact v = (e', some id)) (hc : e'.closureRule fact v (some id) = .resumes) :
    e.placeDamage fact v = (e'.updEncounter id (·.resume v.targetId), some id) := by
  unfold placeDamage
  rw [hr]
  dsimp only
  rw [hc]
  rfl

theorem placeDamage_keep (hr : e.routeDamage fact v = (e', some id)) (hc : e'.closureRule fact v (some id) = .keep) :
    e.placeDamage fact v = (e', some id) := by
  unfold placeDamage
  rw [hr]
  dsimp only
  rw [hc]
  rfl

theorem knownTarget_resume (k : EncounterId) : (e.updEncounter id (·.resume v.targetId)).knownTarget k v.targetId =
    e.knownTarget k v.targetId := by
  rw [Bool.eq_iff_iff, knownTarget_iff, knownTarget_iff]
  show (∃ a, (e.encounters.modify id _)[k]? = some a ∧ _) ↔ _
  rw [ExtTreeMap.getElem?_modify_ite]
  split_ifs with hk
  · subst hk
    constructor
    · rintro ⟨a, ha, ht⟩
      obtain ⟨b, hb, rfl⟩ := Option.map_eq_some_iff.mp ha
      exact ⟨b, hb, mem_modify.mp ht⟩
    · rintro ⟨b, hb, ht⟩
      exact ⟨_, by rw [hb]; rfl, mem_modify.mpr ht⟩
  · rfl

/-- The fact that resumes an encounter of its source in its ending grace for inactivity. -/
theorem closureRule_endsFor {a : EncounterState} {enteredAt : MonoTime} {cutoff : EqSecond}
    {closure : ExtTreeSet LogSourceId} (ha : e.encounters[id]? = some a)
    (hp : a.phase = .ending .inactivity enteredAt cutoff closure) (hin : fact.source.id ∈ closure) :
    e.closureRule fact v (some id) = .resumes := by
  have hin : closure.contains fact.source.id = true := hin
  unfold closureRule
  simp [ha, hp, hin]

/-- An idle fact of a source whose encounter ends for inactivity resumes it. -/
theorem idle_resumes (h : e.SeenKnown) (hv : v.fingerprint.defender = v.targetId) (hidle : e.idle fact v = true)
    (he : e.EndsFor fact.source.id) :
    ∃ (id : EncounterId) (a : EncounterState) (reason : EndReason) (enteredAt : MonoTime) (cutoff : EqSecond)
      (closure : ExtTreeSet LogSourceId), e.encounters[id]? = some a ∧ a.phase = .ending reason enteredAt cutoff closure ∧
        e.placeDamage fact v = (e.updEncounter id (·.resume v.targetId), some id) := by
  obtain ⟨id, a, enteredAt, cutoff, closure, hs, ha, hp, hin⟩ := he
  have hroute := routeDamage_spec e fact v
  generalize hr : e.routeDamage fact v = routed at hroute
  obtain ⟨e', o⟩ := routed
  dsimp only at hroute
  rcases route_cases h hv hroute with ⟨rfl, -, ho⟩ | ⟨k, b, rfl, hb, hactive, hknown⟩
  · obtain rfl := ho id a hs ha
    exact ⟨id, a, _, enteredAt, cutoff, closure, ha, hp, placeDamage_resumes hr (closureRule_endsFor ha hp hin)⟩
  · have hkeep : e'.closureRule fact v (some k) = .keep := by
      unfold closureRule
      simp [hb, hactive]
    have hnot := (idle_place hidle (placeDamage_keep hr hkeep)).2
    rw [hknown] at hnot
    cases hnot

theorem idle_untouched (h : e.SeenKnown) (hv : v.fingerprint.defender = v.targetId) (hidle : e.idle fact v = true)
    (he : ¬ e.EndsFor fact.source.id) :
    (e.placeDamage fact v).1.encounters = e.encounters ∧ (e.placeDamage fact v).1.policy = e.policy := by
  have hroute := routeDamage_spec e fact v
  have hcases := route_cases h hv hroute
  have hplace := placeDamage_spec e fact v
  -- an idle fact is not placed where its target is known
  have hmerged (hm : ∃ (id : EncounterId) (a : EncounterState), (e.routeDamage fact v).2 = some id ∧
      (e.routeDamage fact v).1.encounters[id]? = some a ∧ a.phase = .active ∧
        (e.routeDamage fact v).1.knownTarget id v.targetId = true) : False := by
    obtain ⟨k, b, ho, hb, hactive, hknown⟩ := hm
    have hkeep : (e.routeDamage fact v).1.closureRule fact v (some k) = .keep := by
      unfold closureRule
      simp [hb, hactive]
    have hnot := (idle_place hidle (placeDamage_keep (by rw [← ho]) hkeep)).2
    rw [hknown] at hnot
    cases hnot
  obtain ⟨hsame, hrouted, -⟩ := hcases.resolve_right hmerged
  have hengine {e' : CombatEngine} {o : Option EncounterId} (hr : e.routeDamage fact v = (e', o)) : e' = e := by
    rw [hr] at hsame
    exact hsame
  have hunplaced {e' : CombatEngine} (hu : Unplaced e fact v e') : e' = e := hengine hu.route.choose_spec
  -- a fact that starts combat contributes
  have hopens {e' e'' : CombatEngine} {k : EncounterId} (ho : Opens e fact v e')
      (hp : e.placeDamage fact v = (e'', some k)) : False := by
    have hnot := (idle_place hidle hp).1
    rw [contributes_of_startQualified _ ho.qualified] at hnot
    cases hnot
  generalize hp : e.placeDamage fact v = placed at hplace
  obtain ⟨e', o⟩ := placed
  dsimp only at hplace ⊢
  cases hplace with
  | excluded hr hc => rw [hengine hr]; exact ⟨rfl, rfl⟩
  | kept hr hc => rw [hengine hr]; exact ⟨rfl, rfl⟩
  | late hu hl message => rw [hunplaced hu]; exact ⟨rfl, rfl⟩
  | unqualified hu hq => rw [hunplaced hu]; exact ⟨rfl, rfl⟩
  | full ho hn hb message => rw [hunplaced ho.unplaced]; exact ⟨rfl, rfl⟩
  | taken ho he => exact (hopens ho hp).elim
  | opened ho hn hb => exact (hopens ho hp).elim
  | @resumed e' id hr hc =>
    obtain rfl := hengine hr
    exfalso
    have hnot := (idle_place hidle hp).2
    rw [knownTarget_resume] at hnot
    rw [hr] at hrouted
    rcases hrouted id rfl with hs | hknown
    · obtain ⟨a, reason, enteredAt, cutoff, closure, ha, hph, hin, -⟩ := closureRule_resumes hc
      cases reason with
      | inactivity => exact he ⟨id, a, enteredAt, cutoff, closure, hs, ha, hph, hin⟩
      | allTargetsTerminal =>
        have hnone : a.targets.contains v.targetId = false := by
          rw [knownTarget, ha] at hnot
          exact hnot
        have hin : closure.contains fact.source.id = true := hin
        unfold closureRule at hc
        rw [Option.bind_some, ha] at hc
        simp [hph, hin, hnone] at hc
        split_ifs at hc
    · rw [hknown] at hnot
      cases hnot

/-- An idle damage fact leaves the lifecycle of every encounter as it is, unless the encounter of its source ends
for inactivity. -/
theorem idle_lifecycle_iff {damage : DamageObservation} (h : e.SeenKnown)
    (hidle : e.idle fact (e.viewDamage fact damage) = true) :
    SameLifecycle e (e.processDamage index fact damage) ↔ ¬ e.EndsFor fact.source.id := by
  rw [processDamage_idle hidle]
  constructor
  · intro hsame he
    obtain ⟨id, a, reason, enteredAt, cutoff, closure, ha, hp, hplace⟩ := idle_resumes h rfl hidle he
    have hid := hsame.lifecycle id
    rw [hplace] at hid
    have hmodify : ((e.updEncounter id (·.resume (e.viewDamage fact damage).targetId)).encounters[id]?) =
        some (a.resume (e.viewDamage fact damage).targetId) := by
      show (e.encounters.modify id _)[id]? = _
      rw [ExtTreeMap.getElem?_modify_ite, if_pos rfl, ha]
      rfl
    rw [hmodify, ha, Option.map_some, Option.map_some, Option.some_inj] at hid
    have hphase : PhaseState.active = a.phase := congrArg Prod.fst hid
    rw [hp] at hphase
    cases hphase
  · intro he
    obtain ⟨hencounters, hpolicy⟩ := idle_untouched h rfl hidle he
    exact .of_eq hpolicy hencounters

end
end CombatEngine

/-! ### Calls -/

/-- The event is a damage line that neither contributes to nor sustains an encounter. -/
def Reduction.idle (r : Reduction) : Bool :=
  match r.event with
  | .combat (.damage damage) => (r.pushed (.damage damage)).idle (r.fact (.damage damage)) (r.view damage)
  | _ => false

def Reduction.Idle (r : Reduction) : Prop := r.idle = true

theorem Reduction.Idle.damage {r : Reduction} (h : r.Idle) : ∃ damage, r.event = .combat (.damage damage) ∧
    (r.pushed (.damage damage)).idle (r.fact (.damage damage)) (r.view damage) = true := by
  unfold Idle idle at h
  split at h
  · exact ⟨_, by assumption, h⟩
  · cases h

theorem Reduction.Idle.lifecycle_iff {r : Reduction} (h : r.Idle) (hs : r.engine.SeenKnown) :
    CombatEngine.SameLifecycle r.engine r.result ↔ ¬ r.engine.EndsFor r.record.source.id := by
  obtain ⟨damage, he, hidle⟩ := h.damage
  have hr : r.result = (r.pushed (.damage damage)).processDamage r.index (r.fact (.damage damage)) damage := by
    unfold result
    rw [he]
    rfl
  rw [hr]
  have hpushed : (r.pushed (.damage damage)).SeenKnown := hs
  have hiff : CombatEngine.SameLifecycle _ ((r.pushed (.damage damage)).processDamage r.index _ damage) ↔ _ :=
    CombatEngine.idle_lifecycle_iff hpushed hidle
  exact ⟨fun h => hiff.mp ⟨h.policy, h.lifecycle⟩, fun he => ⟨(hiff.mpr he).policy, (hiff.mpr he).lifecycle⟩⟩

namespace CombatEngine

/-- The call reduces no fact but idle damage of sources whose encounter does not end for inactivity, and withdraws
nothing. -/
structure Undisturbed (e : CombatEngine) (call : Call) : Prop where
  reductions : ∀ r ∈ e.reductions call, r.event.isFact = true → r.Idle ∧ ¬ r.engine.EndsFor r.record.source.id
  withdrawals : e.withdrawals call = []

/-- The encounter at `id` has the phase. -/
structure Phased (policy : CombatPolicy) (id : EncounterId) (phase : PhaseState) (e : CombatEngine) : Prop where
  seen : e.SeenKnown
  policy : e.policy = policy
  found : ∃ b : EncounterState, e.encounters[id]? = some b ∧ b.phase = phase

/-- Every fact is idle damage from a source that ends nothing, the encounter is not held, and nothing is withdrawn. -/
def undisturbedBy (id : EncounterId) : Conditions where
  reduction r := r.event.isFact = true → r.Idle ∧ ¬ r.engine.EndsFor r.record.source.id
  finalizing f := f.due.id ≠ id
  withdrawing _ := False

section
variable {e e' : CombatEngine} {policy : CombatPolicy} {call : Call} {id : EncounterId} {phase : PhaseState}

theorem Phased.modify (h : Phased policy id phase e) {k : EncounterId} {f : EncounterState → EncounterState}
    (hs : e'.SeenKnown) (hp : e'.policy = e.policy) (hm : e'.encounters = e.encounters.modify k f)
    (hf : k = id → ∀ b : EncounterState, b.phase = phase → (f b).phase = phase) : Phased policy id phase e' := by
  obtain ⟨b, hb, hph⟩ := h.found
  refine ⟨hs, hp.trans h.policy, ?_⟩
  rw [hm, ExtTreeMap.getElem?_modify_ite, hb]
  split_ifs with hk
  · exact ⟨f b, rfl, hf hk b hph⟩
  · exact ⟨b, rfl, hph⟩

theorem kept_phased {enteredAt : MonoTime} {cutoff : EqSecond} {closure : ExtTreeSet LogSourceId}
    (hphase : phase = .ending .inactivity enteredAt cutoff closure) : Kept (Phased policy id phase) (undisturbedBy id) where
  same e e' hs h := ⟨kept_seenKnown.same e e' hs h.seen, hs.policy.trans h.policy, by rw [hs.encounters]; exact h.found⟩
  retouch e f hf hl h := by
    refine ⟨kept_seenKnown.retouch e f hf (fun id a s ha hs => (hl id a s ha hs).imp_right fun _ => trivial) h.seen,
      h.policy, ?_⟩
    obtain ⟨b, hb, hph⟩ := h.found
    exact ⟨f id b, by rw [ExtTreeMap.getElem?_map, hb]; rfl, (hf id b).phase.trans hph⟩
  withdraw e message hw _ := hw.elim
  push r event _ _ h := ⟨h.seen, h.policy, h.found⟩
  damage r damage hok he h hd := by
    obtain ⟨hidle, hends⟩ := hok (by rw [he]; rfl)
    have hsame := (hidle.lifecycle_iff h.seen).mpr hends
    obtain ⟨b, hb, hph⟩ := h.found
    have hid := hsame.lifecycle id
    rw [hb, Option.map_some, Option.map_eq_some_iff] at hid
    obtain ⟨c, hc, hlife⟩ := hid
    exact ⟨kept_seenKnown.damage r damage trivial he h.seen hd, hsame.policy.trans h.policy, c, hc,
      (congrArg Prod.fst hlife).trans hph⟩
  attempt r attempt k encounter hok he h hd := by
    obtain ⟨damage, hdamage, -⟩ := (hok (by rw [he]; rfl)).1.damage
    rw [he] at hdamage
    cases hdamage
  slain r slain k encounter targetId hok he h hd := by
    obtain ⟨damage, hdamage, -⟩ := (hok (by rw [he]; rfl)).1.damage
    rw [he] at hdamage
    cases hdamage
  endInactive e k now cutoff' h := by
    refine h.modify (kept_seenKnown.endInactive e k now cutoff' h.seen) rfl rfl fun _ b hb => ?_
    -- only an active encounter enters its ending grace
    unfold EncounterState.enterEnding
    rw [hb, hphase]
    exact hb.trans hphase
  finalize f hf hdue h := by
    refine h.modify (kept_seenKnown.finalize f trivial hdue h.seen) (k := f.due.id) (f := f.engine.closing f.now f.due) ?_ ?_
      fun hk => absurd hk hf
    · unfold Finalizing.result
      rw [finalizeDue_eq]
    · unfold Finalizing.result
      rw [finalizeDue_eq]
  expire e now _ h := by
    obtain ⟨b, hb, hph⟩ := h.found
    refine ⟨kept_seenKnown.expire e now trivial h.seen, ?_, b, ?_, hph⟩
    · refine Eq.trans ?_ h.policy
      unfold expireHeld
      dsimp only
      split_ifs <;> rfl
    · rw [(e.expireHeld_spec now).1, if_neg, hb]
      intro hx
      obtain ⟨c, reason', til, hc, hpc, -⟩ := mem_expired.mp hx
      obtain rfl := Option.some.inj (hb.symm.trans hc)
      rw [hph, hphase] at hpc
      cases hpc

theorem finalizingsFrom_due (now : MonoTime) (due : List EndingDue) :
    (finalizingsFrom now e due).map (·.due) = due := by
  induction due generalizing e with
  | nil => rfl
  | cons d rest ih => exact congrArg (d :: ·) ih

/-- An encounter in its ending grace is due when the grace is over or its sources are all closed. -/
theorem mem_endingDue_iff {a : EncounterState} {reason : EndReason} {enteredAt : MonoTime} {cutoff : EqSecond}
    {closure : ExtTreeSet LogSourceId} (ha : e.encounters[id]? = some a)
    (hp : a.phase = .ending reason enteredAt cutoff closure) (now : MonoTime) :
    (∃ due ∈ e.endingDue now, due.id = id) ↔
      e.policy.endingGraceMs ≤ now.since enteredAt ∨ ∀ source ∈ closure, e.closedThroughCutoff source cutoff = true := by
  have hall : (closure.toList.all fun source => e.closedThroughCutoff source cutoff) = true ↔
      ∀ source ∈ closure, e.closedThroughCutoff source cutoff = true := by
    simp only [List.all_eq_true, ExtTreeSet.mem_toList]
  have hdue : (closure.toList.all (fun source => e.closedThroughCutoff source cutoff) ||
      decide (e.policy.endingGraceMs ≤ now.since enteredAt)) = true ↔
        e.policy.endingGraceMs ≤ now.since enteredAt ∨ ∀ source ∈ closure, e.closedThroughCutoff source cutoff = true := by
    rw [Bool.or_eq_true, decide_eq_true_eq, hall, or_comm]
  rw [← hdue]
  unfold endingDue
  constructor
  · rintro ⟨due, hmem, hid⟩
    obtain ⟨⟨k, b⟩, hentry, hsome⟩ := List.mem_filterMap.mp hmem
    have hb : e.encounters[k]? = some b := ExtTreeMap.lookup_of_mem_toList hentry
    dsimp only at hsome
    split at hsome
    · rename_i reason' enteredAt' cutoff' closure' hpb
      split_ifs at hsome with hcond
      obtain rfl := Option.some.inj hsome
      obtain rfl : k = id := hid
      obtain rfl := Option.some.inj (ha.symm.trans hb)
      rw [hp] at hpb
      cases hpb
      exact hcond
    · cases hsome
  · intro hcond
    let due : EndingDue := { id, reason, cutoff, closureSources := closure.toList,
                             allClosed := closure.toList.all fun source => e.closedThroughCutoff source cutoff }
    refine ⟨due, List.mem_filterMap.mpr ⟨(id, a), ExtTreeMap.mem_toList_of_lookup ha, ?_⟩, rfl⟩
    simp only [hp]
    exact if_pos hcond

theorem held_of_mem_finalizings {f : Finalizing} (hf : f ∈ e.finalizings call) {b : EncounterState}
    (hb : (e.step call).encounters[f.due.id]? = some b) :
    b.phase = .held f.due.reason (MonoTime.add (e.handled call).now (e.ended call).policy.heldMs) := by
  have hdue : f.due ∈ (e.ended call).endingDue (e.handled call).now := by
    rw [← @finalizingsFrom_due (e.ended call) (e.handled call).now ((e.ended call).endingDue (e.handled call).now)]
    exact List.mem_map_of_mem hf
  rw [step_eq, (rebuildBook_spec _).1, ExtTreeMap.getElem?_map] at hb
  obtain ⟨c, hc, rfl⟩ := Option.map_eq_some_iff.mp hb
  unfold settled at hc
  rw [(expireHeld_spec _ _).1] at hc
  split_ifs at hc
  have hclosing : ((e.ended call).encounters[f.due.id]?).map ((e.ended call).closing (e.handled call).now f.due) = some c :=
    (foldl_finalizeDue_closing ((e.ended call).nodup_endingDue _) hdue).symm.trans hc
  obtain ⟨a, -, rfl⟩ := Option.map_eq_some_iff.mp hclosing
  rw [(sameFacts_refresh _ _).phase, closing_phase]

/-- What an undisturbed call does with an encounter that ends for inactivity. -/
theorem undisturbed_ending (hs : e.SeenKnown) (hcall : e.Undisturbed call) {a : EncounterState} {enteredAt : MonoTime}
    {cutoff : EqSecond} {closure : ExtTreeSet LogSourceId} (ha : e.encounters[id]? = some a)
    (hp : a.phase = .ending .inactivity enteredAt cutoff closure) :
    ((∃ f ∈ e.finalizings call, f.due.id = id) ↔
      e.policy.endingGraceMs ≤ (e.handled call).now.since enteredAt ∨
        ∀ source ∈ closure, (e.ended call).closedThroughCutoff source cutoff = true) ∧
    ((∃ f ∈ e.finalizings call, f.due.id = id) → ∀ b : EncounterState, (e.step call).encounters[id]? = some b →
      b.phase = .held .inactivity (MonoTime.add (e.handled call).now e.policy.heldMs)) ∧
    ((∀ f ∈ e.finalizings call, f.due.id ≠ id) →
      ∃ b : EncounterState, (e.step call).encounters[id]? = some b ∧ b.phase = a.phase) := by
  have k : Kept (Phased e.policy id a.phase) (undisturbedBy id) := kept_phased hp
  have h0 : Phased e.policy id a.phase e := ⟨hs, rfl, a, ha, rfl⟩
  have hw : ∀ w ∈ e.withdrawals call, (undisturbedBy id).withdrawing w := by
    rw [hcall.withdrawals]
    exact nofun
  have hended := k.ended call (k.handled call hcall.reductions hw h0).2
  obtain ⟨b, hb, hph⟩ := hended.found
  have hdue := @finalizingsFrom_due (e.ended call) (e.handled call).now ((e.ended call).endingDue (e.handled call).now)
  refine ⟨?_, ?_, ?_⟩
  · rw [← hended.policy, ← mem_endingDue_iff hb (hph.trans hp)]
    unfold finalizings
    constructor
    · rintro ⟨f, hf, hid⟩
      exact ⟨f.due, hdue ▸ List.mem_map_of_mem hf, hid⟩
    · rintro ⟨due, hmem, hid⟩
      rw [← hdue] at hmem
      obtain ⟨f, hf, rfl⟩ := List.mem_map.mp hmem
      exact ⟨f, hf, hid⟩
  · rintro ⟨f, hf, rfl⟩ b' hb'
    -- the finalized encounter is the one that ends for inactivity
    have hmem : f.due ∈ (e.ended call).endingDue (e.handled call).now := hdue ▸ List.mem_map_of_mem hf
    obtain ⟨b'', _, _, hb'', hp'', -⟩ := dueAt_of_mem_endingDue hmem
    obtain rfl := Option.some.inj (hb.symm.trans hb'')
    have hreason : f.due.reason = .inactivity := by
      have hsame := hp''.symm.trans (hph.trans hp)
      injection hsame
    rw [held_of_mem_finalizings hf hb', hended.policy, hreason]
  · intro hfin
    exact (k.step call ⟨hcall.reductions, hfin, hw, trivial, fun _ _ => trivial⟩ h0).found

end

/-- In every run: damage that neither contributes to nor sustains an encounter leaves every phase and deadline as it
is exactly when the encounter of its source does not end for inactivity with the source in its closure set; and
while nothing but such damage comes, an encounter that ends for inactivity is finalized at the first call at which
its grace is over or its sources are closed. It is held from then on, or gone. -/
theorem idle_damage_untouched (policy : CombatPolicy) (pre : List Call) (call : Call) :
    let e := (init policy).run pre
    (∀ r ∈ e.reductions call, r.Idle →
      (SameLifecycle r.engine r.result ↔ ¬ r.engine.EndsFor r.record.source.id)) ∧
    (e.Undisturbed call → ∀ (id : EncounterId) (a : EncounterState) (enteredAt : MonoTime) (cutoff : EqSecond)
      (closure : ExtTreeSet LogSourceId), e.encounters[id]? = some a →
      a.phase = .ending .inactivity enteredAt cutoff closure →
      ((∃ f ∈ e.finalizings call, f.due.id = id) ↔
        e.policy.endingGraceMs ≤ (e.handled call).now.since enteredAt ∨
          ∀ source ∈ closure, (e.ended call).closedThroughCutoff source cutoff = true) ∧
      ((∃ f ∈ e.finalizings call, f.due.id = id) → ∀ b : EncounterState, (e.step call).encounters[id]? = some b →
        b.phase = .held .inactivity (MonoTime.add (e.handled call).now e.policy.heldMs)) ∧
      ((∀ f ∈ e.finalizings call, f.due.id ≠ id) →
        ∃ b : EncounterState, (e.step call).encounters[id]? = some b ∧ b.phase = a.phase)) := by
  intro e
  have hinit : (init policy).SeenKnown := by simp [SeenKnown, Each, init]
  have hseen : e.SeenKnown := kept_seenKnown.run_of_forall pre hinit
  refine ⟨fun r hr hidle => hidle.lifecycle_iff ?_, fun hcall id a enteredAt cutoff closure ha hp =>
    undisturbed_ending hseen hcall ha hp⟩
  exact (kept_seenKnown.handled call (fun _ _ => trivial) (fun _ _ => trivial) hseen).1 r hr

/-- `A` has hit `r`, and nothing came for as long as the inactivity time. -/
def quietCalls : List Call :=
  Sample.register ['A', 'C'] ++ [Sample.line 'A' 0 500 0 (Sample.hit Sample.you "r" 10), .tick 30000]

/-- `A` hits the player `C`, and the encounter of `A` that was in its ending grace is active again. -/
theorem duel_resumes :
    ∃ r ∈ ((init .mvpV1).run quietCalls).reductions (Sample.line 'A' 1 530 31000 (Sample.hit Sample.you "C" 5)),
      r.Idle ∧ ¬ SameLifecycle r.engine r.result := by
  have h : (((init .mvpV1).run quietCalls).reductions (Sample.line 'A' 1 530 31000 (Sample.hit Sample.you "C" 5))).any
      (fun r => r.idle && (r.engine.encounters["x:500:r:a".toList]?).any (fun a => a.phase.shown == .endingGrace) &&
        (r.result.encounters["x:500:r:a".toList]?).any fun b => b.phase.shown == .active) = true := by decide +kernel
  obtain ⟨r, hr, h⟩ := List.any_eq_true.mp h
  simp only [Bool.and_eq_true, Option.any_eq_true, beq_iff_eq] at h
  obtain ⟨⟨hidle, a, ha, hpa⟩, b, hb, hpb⟩ := h
  refine ⟨r, hr, hidle, fun hsame => ?_⟩
  have hid := hsame.lifecycle "x:500:r:a".toList
  rw [ha, hb, Option.map_some, Option.map_some, Option.some_inj] at hid
  have hphase : b.phase = a.phase := congrArg Prod.fst hid
  rw [hphase, hpa] at hpb
  cases hpb

end CombatEngine
end Stonemite.Combat
