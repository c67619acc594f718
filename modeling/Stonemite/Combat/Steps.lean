import Stonemite.Lib.Run
import Stonemite.Lib.TreeMap
import Stonemite.Combat.Engine

/-!
# What one step does

Inversion lemmas for the routing of a damage fact, and the states inside a call in which an event is
reduced or an encounter finalized. Invariants are proved against these, never against the bodies.
-/

open Std

namespace Stonemite.Combat
namespace CombatEngine

/-! ### Routing -/

/-- What `routeDamage` can do. -/
inductive RouteSpec (e : CombatEngine) (fact : LedgerFact) (v : DamageView) :
    CombatEngine → Option EncounterId → Prop
  | fresh (hs : e.sourceActive[fact.source.id]? = none)
      (hc : e.correlated fact.source.server v.fingerprint = none) : RouteSpec e fact v e none
  | joined {id : EncounterId} (hs : e.sourceActive[fact.source.id]? = none)
      (hc : e.correlated fact.source.server v.fingerprint = some id) : RouteSpec e fact v e (some id)
  | current {id : EncounterId} (hs : e.sourceActive[fact.source.id]? = some id)
      (hc : ∀ k, e.correlated fact.source.server v.fingerprint = some k → k = id) :
      RouteSpec e fact v e (some id)
  | merged {left right : EncounterId} (hs : e.sourceActive[fact.source.id]? = some left)
      (hc : e.correlated fact.source.server v.fingerprint = some right) (hne : left ≠ right) :
      RouteSpec e fact v (e.mergeEncounters left right).1 (some (e.mergeEncounters left right).2)

theorem routeDamage_spec (e : CombatEngine) (fact : LedgerFact) (v : DamageView) :
    RouteSpec e fact v (e.routeDamage fact v).1 (e.routeDamage fact v).2 := by
  unfold routeDamage
  cases hs : e.sourceActive[fact.source.id]? with
  | none =>
    cases hc : e.correlated fact.source.server v.fingerprint with
    | none => exact .fresh hs hc
    | some k => exact .joined hs hc
  | some id =>
    cases hc : e.correlated fact.source.server v.fingerprint with
    | none => exact .current hs (by simp [hc])
    | some k =>
      by_cases hne : id = k
      · subst hne
        simp only [ne_eq, not_true_eq_false, ↓reduceIte]
        exact .current hs (by simp [hc])
      · simp only [ne_eq, hne, not_false_eq_true, ↓reduceIte]
        exact .merged hs hc hne

theorem route_spec {e e' : CombatEngine} {fact : LedgerFact} {v : DamageView} {id : Option EncounterId}
    (h : e.routeDamage fact v = (e', id)) : RouteSpec e fact v e' id := by
  have hs := routeDamage_spec e fact v
  rwa [h] at hs

/-- The fact was routed nowhere, or to an ending encounter it does not belong to. -/
def unplaced (e : CombatEngine) (fact : LedgerFact) (v : DamageView) : Bool :=
  match (e.routeDamage fact v).1.closureRule fact v (e.routeDamage fact v).2 with
  | .keep => (e.routeDamage fact v).2.isNone
  | .detached => true
  | _ => false

/-- An unplaced fact is not late and starts combat: it opens an encounter by its derived id. -/
def opens (e : CombatEngine) (fact : LedgerFact) (v : DamageView) : Bool :=
  e.unplaced fact v && !(e.routeDamage fact v).1.lateAfterClosure fact && v.startQualified

/-- The fact is unplaced, and `e'` is the engine after routing it. -/
structure Unplaced (e : CombatEngine) (fact : LedgerFact) (v : DamageView) (e' : CombatEngine) : Prop where
  route : (∃ id, e.routeDamage fact v = (e', id))
  unplaced : e.unplaced fact v = true

theorem Unplaced.engine {e e' : CombatEngine} {fact : LedgerFact} {v : DamageView}
    (h : Unplaced e fact v e') : (e.routeDamage fact v).1 = e' := by
  obtain ⟨id, hr⟩ := h.route
  rw [hr]

/-- The fact opens an encounter, and `e'` is the engine it is opened in. -/
structure Opens (e : CombatEngine) (fact : LedgerFact) (v : DamageView) (e' : CombatEngine) : Prop where
  unplaced : Unplaced e fact v e'
  notLate : e'.lateAfterClosure fact = false
  qualified : v.startQualified = true

theorem Opens.opens {e e' : CombatEngine} {fact : LedgerFact} {v : DamageView} (h : Opens e fact v e') :
    e.opens fact v = true := by
  unfold CombatEngine.opens
  rw [h.unplaced.unplaced, h.unplaced.engine, h.notLate, h.qualified]
  rfl

/-- The id a fact derives for the encounter it opens. -/
def openId (fact : LedgerFact) (v : DamageView) : EncounterId := encounterId fact v.targetId v.participant

/-- The encounter a fact opens, before it holds any fact. -/
def openedState (e : CombatEngine) (fact : LedgerFact) (v : DamageView) : EncounterState :=
  .opened (openId fact v) fact ((e.sources[fact.source.id]?).elim 0 (·.continuity))
    (e.managedIdentities fact.source.server)

/-- What `placeDamage` can do. -/
inductive PlaceSpec (e : CombatEngine) (fact : LedgerFact) (v : DamageView) :
    CombatEngine → Option EncounterId → Prop
  | excluded {e' : CombatEngine} {id : EncounterId} (hr : e.routeDamage fact v = (e', some id))
      (hc : e'.closureRule fact v (some id) = .excluded) : PlaceSpec e fact v e' none
  | resumed {e' : CombatEngine} {id : EncounterId} (hr : e.routeDamage fact v = (e', some id))
      (hc : e'.closureRule fact v (some id) = .resumes) :
      PlaceSpec e fact v (e'.updEncounter id (·.resume v.targetId)) (some id)
  | kept {e' : CombatEngine} {id : EncounterId} (hr : e.routeDamage fact v = (e', some id))
      (hc : e'.closureRule fact v (some id) = .keep) : PlaceSpec e fact v e' (some id)
  | late {e' : CombatEngine} (hu : Unplaced e fact v e') (hl : e'.lateAfterClosure fact = true)
      (message : String) : PlaceSpec e fact v (e'.diagnose message) none
  | unqualified {e' : CombatEngine} (hu : Unplaced e fact v e')
      (hq : v.startQualified = false) : PlaceSpec e fact v e' none
  | taken {e' : CombatEngine} {encounter : EncounterState} (ho : Opens e fact v e')
      (he : e'.encounters[openId fact v]? = some encounter) :
      PlaceSpec e fact v e' (some (openId fact v))
  | opened {e' : CombatEngine} (ho : Opens e fact v e') (hn : e'.encounters[openId fact v]? = none)
      (hb : e'.encounters.size < e'.policy.maxEncounters) :
      PlaceSpec e fact v
        { e' with encounters := e'.encounters.insert (openId fact v) (e'.openedState fact v) }
        (some (openId fact v))
  | full {e' : CombatEngine} (ho : Opens e fact v e') (hn : e'.encounters[openId fact v]? = none)
      (hb : e'.policy.maxEncounters ≤ e'.encounters.size) (message : String) :
      PlaceSpec e fact v (e'.diagnose message) none

/-- The tail of the function for a fact that was placed nowhere. -/
theorem Unplaced.place {e e' : CombatEngine} {fact : LedgerFact} {v : DamageView} (hu : Unplaced e fact v e') :
    let placed :=
      if e'.lateAfterClosure fact then
        (e'.diagnose "ignored LateAfterClosure combat for an immutable held encounter", none)
      else if v.startQualified then
        match e'.openEncounter fact v with
        | some (e, id) => (e, some id)
        | none =>
          (e'.diagnose "combat encounter bound reached; ignored a new unrelated encounter", none)
      else (e', none)
    PlaceSpec e fact v placed.1 placed.2 := by
  dsimp only
  cases hl : e'.lateAfterClosure fact with
  | true => exact .late hu hl _
  | false =>
    cases hq : v.startQualified with
    | false => exact .unqualified hu hq
    | true =>
      have ho : Opens e fact v e' := ⟨hu, hl, hq⟩
      simp only [Bool.false_eq_true, ↓reduceIte, openEncounter]
      cases hc : e'.encounters.contains (encounterId fact v.targetId v.participant) with
      | true =>
        obtain ⟨encounter, he⟩ := ExtTreeMap.contains_iff.mp hc
        exact .taken ho he
      | false =>
        have hn := ExtTreeMap.contains_eq_false_iff.mp hc
        simp only [Bool.false_eq_true, ↓reduceIte]
        split_ifs with hb
        · exact .full ho hn hb _
        · exact .opened ho hn (by omega)

theorem placeDamage_spec (e : CombatEngine) (fact : LedgerFact) (v : DamageView) :
    PlaceSpec e fact v (e.placeDamage fact v).1 (e.placeDamage fact v).2 := by
  unfold placeDamage
  generalize hr : e.routeDamage fact v = routed
  obtain ⟨e', id⟩ := routed
  cases id with
  | none => exact Unplaced.place ⟨⟨none, hr⟩, by unfold unplaced; rw [hr]; rfl⟩
  | some id =>
    dsimp only
    cases hc : e'.closureRule fact v (some id) with
    | keep => exact .kept hr hc
    | resumes => exact .resumed hr hc
    | excluded => exact .excluded hr hc
    | detached => exact Unplaced.place ⟨⟨some id, hr⟩, by unfold unplaced; rw [hr]; dsimp only; rw [hc]⟩

/-- The fact is of the closed interval of an ending encounter, and its source is not in the closure set. -/
def excludes (e : CombatEngine) (fact : LedgerFact) (v : DamageView) : Bool :=
  decide ((e.routeDamage fact v).1.closureRule fact v (e.routeDamage fact v).2 = .excluded)

/-- The fact is unplaced and of the interval of a held encounter of its source. -/
def late (e : CombatEngine) (fact : LedgerFact) (v : DamageView) : Bool :=
  e.unplaced fact v && (e.routeDamage fact v).1.lateAfterClosure fact

/-- The fact would open one encounter too many. -/
def overflows (e : CombatEngine) (fact : LedgerFact) (v : DamageView) : Bool :=
  e.opens fact v && !(e.routeDamage fact v).1.encounters.contains (openId fact v) &&
    decide ((e.routeDamage fact v).1.policy.maxEncounters ≤ (e.routeDamage fact v).1.encounters.size)

theorem PlaceSpec.dropped {e e' : CombatEngine} {fact : LedgerFact} {v : DamageView}
    (hp : PlaceSpec e fact v e' none) (hq : v.startQualified = true) :
    e.excludes fact v = true ∨ e.late fact v = true ∨ e.overflows fact v = true := by
  cases hp with
  | excluded hr hc => exact .inl (by unfold excludes; rw [hr]; exact decide_eq_true hc)
  | late hu hl message => exact .inr (.inl (by unfold CombatEngine.late; rw [hu.unplaced, hu.engine, hl]; rfl))
  | unqualified hu hn => rw [hn] at hq; cases hq
  | full ho hn hb message =>
    refine .inr (.inr ?_)
    unfold overflows
    rw [ho.opens, ho.unplaced.engine, ExtTreeMap.contains_eq_false_iff.mpr hn]
    exact decide_eq_true hb

theorem closureRule_resumes {e : CombatEngine} {fact : LedgerFact} {v : DamageView} {id : EncounterId}
    (h : e.closureRule fact v (some id) = .resumes) :
    ∃ encounter reason enteredAt cutoff closure, e.encounters[id]? = some encounter ∧
      encounter.phase = .ending reason enteredAt cutoff closure ∧ fact.source.id ∈ closure ∧
      (reason = .allTargetsTerminal → cutoff < fact.eqTime) := by
  unfold closureRule at h
  simp only [Option.bind_some] at h
  cases he : e.encounters[id]? with
  | none => simp [he] at h
  | some encounter =>
    simp only [he] at h
    cases hp : encounter.phase with
    | active => simp [hp] at h
    | held => simp [hp] at h
    | ending reason enteredAt cutoff closure =>
      simp only [hp] at h
      refine ⟨encounter, reason, enteredAt, cutoff, closure, rfl, hp, ?_, ?_⟩
      · by_contra hm
        have : closure.contains fact.source.id = false := Bool.eq_false_iff.mpr hm
        simp [this] at h
        split at h <;> cases h
      · rintro rfl
        split_ifs at h with h1
        simp only [Bool.and_eq_true, decide_eq_true_eq] at h1
        exact h1.2.2

/-- What `mergeEncounters` can do with two encounters: one of them is gone and the other is taken, or
one absorbs the other. -/
inductive MergeSpec (e : CombatEngine) (left right : EncounterId) : CombatEngine → EncounterId → Prop
  | alone {id : EncounterId} (hid : id = left ∨ id = right)
      (hn : ∀ k encounter, k = left ∨ k = right → e.encounters[k]? = some encounter → k = id) :
      MergeSpec e left right e id
  | absorbed {chosenId otherId : EncounterId} {chosen other : EncounterState}
      (hids : (chosenId = left ∧ otherId = right) ∨ (chosenId = right ∧ otherId = left))
      (hne : chosenId ≠ otherId) (hc : e.encounters[chosenId]? = some chosen)
      (ho : e.encounters[otherId]? = some other) :
      MergeSpec e left right (e.absorb chosenId otherId chosen other) chosenId

theorem mergeInto_spec (e : CombatEngine) {left right : EncounterId} (hne : left ≠ right) (chosenId otherId : EncounterId)
    (hids : (chosenId = left ∧ otherId = right) ∨ (chosenId = right ∧ otherId = left)) :
    let r := match e.encounters[chosenId]?, e.encounters[otherId]? with
      | none, _ => (e, otherId)
      | some _, none => (e, chosenId)
      | some chosen, some other => (e.absorb chosenId otherId chosen other, chosenId)
    MergeSpec e left right r.1 r.2 := by
  cases hc : e.encounters[chosenId]? with
  | none =>
    refine .alone (by tauto) fun k encounter hk hke => ?_
    rcases hids with ⟨rfl, rfl⟩ | ⟨rfl, rfl⟩ <;> rcases hk with rfl | rfl <;> simp_all
  | some chosen =>
    cases ho : e.encounters[otherId]? with
    | none =>
      refine .alone (by tauto) fun k encounter hk hke => ?_
      rcases hids with ⟨rfl, rfl⟩ | ⟨rfl, rfl⟩ <;> rcases hk with rfl | rfl <;> simp_all
    | some other =>
      exact .absorbed hids (by rcases hids with ⟨rfl, rfl⟩ | ⟨rfl, rfl⟩; exacts [hne, hne.symm]) hc ho

theorem mergeEncounters_spec (e : CombatEngine) {left right : EncounterId} (hne : left ≠ right) :
    MergeSpec e left right (e.mergeEncounters left right).1 (e.mergeEncounters left right).2 := by
  unfold mergeEncounters
  rw [if_neg hne]
  by_cases hle : left ≤ right
  · simp only [hle, ↓reduceIte]
    exact mergeInto_spec e hne left right (.inl ⟨rfl, rfl⟩)
  · simp only [hle, ↓reduceIte, hne.symm]
    exact mergeInto_spec e hne right left (.inr ⟨rfl, rfl⟩)

section keeps
variable {e e' : CombatEngine} {fact : LedgerFact} {v : DamageView} {id : Option EncounterId}

theorem RouteSpec.keeps {J : CombatEngine → Prop} (hr : RouteSpec e fact v e' id)
    (absorb : ∀ {chosenId otherId chosen other}, chosenId ≠ otherId → e.encounters[chosenId]? = some chosen →
      e.encounters[otherId]? = some other → J (e.absorb chosenId otherId chosen other))
    (h : J e) : J e' := by
  cases hr with
  | fresh | joined | current => exact h
  | merged hs hc hne =>
    have hm := mergeEncounters_spec e hne
    generalize e.mergeEncounters _ _ = merged at hm ⊢
    obtain ⟨e', id⟩ := merged
    dsimp only at hm ⊢
    cases hm with
    | alone => exact h
    | absorbed hids hne hc ho => exact absorb hne hc ho

/-- Placing a fact keeps what routing, resuming, diagnosing and opening keep. -/
theorem PlaceSpec.keeps {J : CombatEngine → Prop} (hp : PlaceSpec e fact v e' id)
    (route : ∀ {e' id}, RouteSpec e fact v e' id → J e')
    (resume : ∀ {e' id}, RouteSpec e fact v e' (some id) → e'.closureRule fact v (some id) = .resumes → J e' →
      J (e'.updEncounter id (·.resume v.targetId)))
    (diagnose : ∀ {e'} message, J e' → J (e'.diagnose message))
    (opened : ∀ {e'}, Opens e fact v e' → e'.encounters[openId fact v]? = none → J e' →
      J { e' with encounters := e'.encounters.insert (openId fact v) (e'.openedState fact v) }) : J e' := by
  have unplaced {e'} (hu : Unplaced e fact v e') : J e' := by
    obtain ⟨id, hr⟩ := hu.route
    exact route (route_spec hr)
  cases hp with
  | excluded hr => exact route (route_spec hr)
  | resumed hr hc => exact resume (route_spec hr) hc (route (route_spec hr))
  | kept hr => exact route (route_spec hr)
  | late hu hl message => exact diagnose message (unplaced hu)
  | unqualified hu => exact unplaced hu
  | taken ho => exact unplaced ho.unplaced
  | opened ho hn hb => exact opened ho hn (unplaced ho.unplaced)
  | full ho hn hb message => exact diagnose message (unplaced ho.unplaced)

end keeps

end CombatEngine
end Stonemite.Combat
