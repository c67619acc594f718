import Stonemite.Combat.Kept

/-!
# Ending grace

An encounter in its ending grace takes facts of its closure sources up to the cutoff, and may be resumed by one of them.
`Reduction.SparesEnding` is the condition under which the routing of damage, attempts and slain observations respects
that; `Outcome` says what a reduction then does to the encounter. `Graced` is the invariant of an encounter in its grace
(`kept_graced`), and `ending_isolated` the result over runs.
-/

open Std

namespace Stonemite.Combat

/-! ### The condition -/

namespace EncounterState

/-- The encounter is in its ending grace and the source is not in the closure set. -/
def foreign (a : EncounterState) (source : LogSourceId) : Bool :=
  match a.phase with
  | .ending _ _ _ closure => !closure.contains source
  | _ => false

/-- The encounter is in its ending grace and the source is not in the closure set or the second is after
the cutoff. -/
def closedTo (a : EncounterState) (source : LogSourceId) (eqTime : EqSecond) : Bool :=
  match a.phase with
  | .ending _ _ cutoff closure => !closure.contains source || decide (cutoff < eqTime)
  | _ => false

/-- The same for an attempt, which resumes an encounter that ends for inactivity. -/
def closedToAttempt (a : EncounterState) (source : LogSourceId) (eqTime : EqSecond) : Bool :=
  match a.phase with
  | .ending .allTargetsTerminal .. => a.closedTo source eqTime
  | _ => a.foreign source

end EncounterState

/-- No fact of a source outside the closure set, or after the cutoff, reaches an encounter in its ending
grace: by a merge, by the derived id, as an attempt or as a slain observation. -/
def Reduction.sparesEnding (r : Reduction) : Bool :=
  let s := r.record.source.id
  match r.event with
  | .combat (.damage damage) =>
    let e := r.pushed (.damage damage)
    ((e.sourceActive[s]?).all fun left =>
        (e.correlated r.record.source.server (r.view damage).fingerprint).all fun right =>
          left == right || !((e.encounters[left]?).any (·.foreign s) || (e.encounters[right]?).any (·.foreign s))) &&
      r.opening.all fun o => !(o.1.encounters[o.2]?).any (·.closedTo s r.eqTime)
  | .combat (.attempt attempt) =>
    ((r.pushed (.attempt attempt)).attemptTarget (r.fact (.attempt attempt)) attempt).all fun id =>
      !(r.engine.encounters[id]?).any (·.closedToAttempt s r.eqTime)
  | .combat (.targetSlain slain) =>
    ((r.pushed (.slain slain)).slainTarget (r.fact (.slain slain))
        (canonicalTargetId (resolveObserved r.record.source slain.target).1)).all fun id =>
      !(r.engine.encounters[id]?).any (·.closedTo s r.eqTime)
  | _ => true

/-- `sparesEnding` as a proposition. -/
def Reduction.SparesEnding (r : Reduction) : Prop := r.sparesEnding = true

instance : DecidablePred Reduction.SparesEnding := fun _ => inferInstanceAs (Decidable (_ = true))

/-! ### The outcome of a fact -/

/-- The parts of an encounter that its ending grace protects. -/
structure SameInterval (a b : EncounterState) : Prop where
  facts : b.facts = a.facts
  sources : b.sources = a.sources
  targets : b.targets = a.targets
  startEq : b.startEq = a.startEq
  endEq : b.endEq = a.endEq

theorem SameInterval.refl (a : EncounterState) : SameInterval a a := ⟨rfl, rfl, rfl, rfl, rfl⟩

theorem SameInterval.trans {a b c : EncounterState} (h : SameInterval a b) (h' : SameInterval b c) :
    SameInterval a c :=
  ⟨h'.facts.trans h.facts, h'.sources.trans h.sources, h'.targets.trans h.targets,
    h'.startEq.trans h.startEq, h'.endEq.trans h.endEq⟩

namespace CombatEngine

/-- What a fact of `source` at `eqTime`, placed in `placed`, has done to the encounter `a` in its ending
grace at `id`. -/
inductive Outcome (source : LogSourceId) (eqTime : EqSecond) (id : EncounterId) (a : EncounterState)
    (placed : Option EncounterId) (e : CombatEngine) : Prop
  | untouched {b : EncounterState} (hb : e.encounters[id]? = some b) (hp : b.phase = a.phase)
      (hs : SameInterval a b) (hne : placed ≠ some id)
  | accepted {b : EncounterState} (hb : e.encounters[id]? = some b) (hp : b.phase = a.phase)
      (hf : ∀ f ∈ a.facts, f ∈ b.facts) (hin : a.closedTo source eqTime = false)
  | resumed {k : EncounterId} {b : EncounterState} (hb : e.encounters[k]? = some b) (hp : b.phase = .active)
      (hf : ∀ f ∈ a.facts, f ∈ b.facts) (hin : a.foreign source = false)

section
variable {e e' : CombatEngine} {index : Nat} {fact : LedgerFact} {v : DamageView} {id k : EncounterId}
  {a b : EncounterState} {s : LogSourceId} {t : EqSecond} {placed : Option EncounterId}

theorem foreign_congr (h : b.phase = a.phase) : b.foreign s = a.foreign s := by
  unfold EncounterState.foreign
  rw [h]

theorem closedTo_congr (h : b.phase = a.phase) : b.closedTo s t = a.closedTo s t := by
  unfold EncounterState.closedTo
  rw [h]

theorem Outcome.weaken (h : Outcome s t id a placed e) : Outcome s t id a none e := by
  cases h with
  | untouched hb hp hs => exact .untouched hb hp hs nofun
  | accepted hb hp hf hin => exact .accepted hb hp hf hin
  | resumed hb hp hf hin => exact .resumed hb hp hf hin

theorem Outcome.of_eq (h : Outcome s t id a placed e) (he : e'.encounters = e.encounters) :
    Outcome s t id a placed e' := by
  cases h with
  | untouched hb hp hs hne => exact .untouched (he ▸ hb) hp hs hne
  | accepted hb hp hf hin => exact .accepted (he ▸ hb) hp hf hin
  | resumed hb hp hf hin => exact .resumed (he ▸ hb) hp hf hin

theorem Outcome.modify (h : Outcome s t id a (some k) e) {f : EncounterState → EncounterState}
    (hm : e'.encounters = e.encounters.modify k f) (hphase : ∀ b, (f b).phase = b.phase)
    (hfacts : ∀ b : EncounterState, ∀ i ∈ b.facts, i ∈ (f b).facts) : Outcome s t id a (some k) e' := by
  have hlook (j : EncounterId) (b : EncounterState) (hb : e.encounters[j]? = some b) :
      e'.encounters[j]? = some (if k = j then f b else b) := by
    rw [hm, ExtTreeMap.getElem?_modify_ite, hb]
    split_ifs <;> rfl
  cases h with
  | untouched hb hp hs hne =>
    have hk : k ≠ id := fun h => hne (by rw [h])
    exact .untouched (by rw [hlook id _ hb, if_neg hk]) hp hs hne
  | @accepted b hb hp hf hin =>
    refine .accepted (hlook id _ hb) ?_ (fun i hi => ?_) hin
    · split_ifs
      exacts [(hphase b).trans hp, hp]
    · split_ifs
      exacts [hfacts b i (hf i hi), hf i hi]
  | @resumed j b hb hp hf hin =>
    refine .resumed (hlook j _ hb) ?_ (fun i hi => ?_) hin
    · split_ifs
      exacts [(hphase b).trans hp, hp]
    · split_ifs
      exacts [hfacts b i (hf i hi), hf i hi]

/-! ### Damage -/

/-- The fact does not merge an ending encounter its source is foreign to. -/
def MergesOwn (e : CombatEngine) (fact : LedgerFact) (v : DamageView) : Prop :=
  ∀ left right, e.sourceActive[fact.source.id]? = some left →
    e.correlated fact.source.server v.fingerprint = some right → left ≠ right →
    ∀ (id : EncounterId) (a : EncounterState), id = left ∨ id = right → e.encounters[id]? = some a →
      a.foreign fact.source.id = false

/-- The fact takes no ending encounter it is foreign or late to by its derived id. -/
def OpensOwn (e : CombatEngine) (fact : LedgerFact) (v : DamageView) : Prop :=
  ∀ e', Opens e fact v e' → ∀ a : EncounterState, e'.encounters[openId fact v]? = some a →
    a.closedTo fact.source.id fact.eqTime = false

theorem Outcome.route (ha : e.encounters[id]? = some a) (hm : MergesOwn e fact v)
    (hr : RouteSpec e fact v e' placed) : Outcome fact.source.id fact.eqTime id a none e' := by
  have same : Outcome fact.source.id fact.eqTime id a none e := .untouched ha rfl (.refl a) nofun
  cases hr with
  | fresh | joined | current => exact same
  | @merged left right hs hc hne =>
    have hown := hm left right hs hc hne
    have hspec := mergeEncounters_spec e hne
    generalize e.mergeEncounters left right = merged at hspec ⊢
    obtain ⟨e', k⟩ := merged
    dsimp only at hspec ⊢
    cases hspec with
    | alone => exact same
    | @absorbed _ otherId chosen other hids hne' hcho hoth =>
      by_cases hic : k = id
      · -- the encounter absorbs another one
        subst hic
        obtain rfl := Option.some.inj (ha.symm.trans hcho)
        exact .resumed absorb_lookup_chosen rfl (fun f hf => mem_absorb_facts.mpr (.inl hf))
          (hown _ _ (by tauto) ha)
      · by_cases hio : otherId = id
        · subst hio
          obtain rfl := Option.some.inj (ha.symm.trans hoth)
          exact .resumed absorb_lookup_chosen rfl (fun f hf => mem_absorb_facts.mpr (.inr hf))
            (hown _ _ (by tauto) ha)
        · exact .untouched ((absorb_lookup_of_ne hic hio).trans ha) rfl (.refl a) nofun

theorem closureRule_keep (h : e.closureRule fact v (some id) = .keep) (ha : e.encounters[id]? = some a) :
    a.closedTo fact.source.id fact.eqTime = false := by
  unfold closureRule at h
  unfold EncounterState.closedTo
  simp only [Option.bind_some, ha] at h
  cases hp : a.phase with
  | active | held => rfl
  | ending reason enteredAt cutoff closure =>
    simp only [hp] at h ⊢
    split_ifs at h with h1 h2
    exact Bool.eq_false_iff.mpr h2

theorem Outcome.place (ha : e.encounters[id]? = some a) (hm : MergesOwn e fact v) (ho : OpensOwn e fact v)
    (hp : PlaceSpec e fact v e' placed) : Outcome fact.source.id fact.eqTime id a placed e' := by
  have hroute {e' placed} (hr : e.routeDamage fact v = (e', placed)) := Outcome.route ha hm (route_spec hr)
  have hun {e'} (hu : Unplaced e fact v e') : Outcome fact.source.id fact.eqTime id a none e' := by
    obtain ⟨placed, hr⟩ := hu.route
    exact hroute hr
  -- a fact that is kept by an encounter it is of the interval of
  have hkept {e' k} (h : Outcome fact.source.id fact.eqTime id a none e')
      (hown : ∀ b : EncounterState, e'.encounters[k]? = some b → b.closedTo fact.source.id fact.eqTime = false) :
      Outcome fact.source.id fact.eqTime id a (some k) e' := by
    cases h with
    | @untouched b hb hph hs _ =>
      by_cases hk : k = id
      · subst hk
        exact .accepted hb hph (fun f hf => hs.facts ▸ hf) (closedTo_congr hph ▸ hown b hb)
      · exact .untouched hb hph hs (fun h => hk (Option.some.inj h))
    | accepted hb hph hf hin => exact .accepted hb hph hf hin
    | resumed hb hph hf hin => exact .resumed hb hph hf hin
  cases hp with
  | excluded hr => exact hroute hr
  | late hu hl message => exact (hun hu).of_eq rfl
  | unqualified hu => exact hun hu
  | full ho hn hb message => exact (hun ho.unplaced).of_eq rfl
  | kept hr hc => exact hkept (hroute hr) fun b hb => closureRule_keep hc hb
  | taken hop he =>
    refine hkept (hun hop.unplaced) fun b hb => ho _ hop b hb
  | @opened e' hop hn hb =>
    have hlook (j : EncounterId) (b : EncounterState) (hj : e'.encounters[j]? = some b) :
        (e'.encounters.insert (openId fact v) (e'.openedState fact v))[j]? = some b := by
      rw [ExtTreeMap.getElem?_insert_of_ne, hj]
      rintro rfl
      rw [hn] at hj
      cases hj
    cases hun hop.unplaced with
    | untouched hb hph hs _ =>
      refine .untouched (hlook _ _ hb) hph hs fun h => ?_
      rw [Option.some.inj h, hb] at hn
      cases hn
    | accepted hb hph hf hin => exact .accepted (hlook _ _ hb) hph hf hin
    | resumed hb hph hf hin => exact .resumed (hlook _ _ hb) hph hf hin
  | @resumed e' k hr hc =>
    obtain ⟨c, reason, enteredAt, cutoff, closure, hce, hcp, hmem, -⟩ := closureRule_resumes hc
    have hown : c.foreign fact.source.id = false := by
      unfold EncounterState.foreign
      rw [hcp]
      show (!closure.contains fact.source.id) = false
      rw [show closure.contains fact.source.id = true from hmem]
      rfl
    have hlook (j : EncounterId) (b : EncounterState) (hj : e'.encounters[j]? = some b) :
        (e'.encounters.modify k (·.resume v.targetId))[j]? = some (if k = j then b.resume v.targetId else b) := by
      rw [ExtTreeMap.getElem?_modify_ite, hj]
      split_ifs <;> rfl
    have hout := hroute hr
    -- the encounter itself is resumed, or another one
    have hself (b : EncounterState) (hb : e'.encounters[id]? = some b) (hph : b.phase = a.phase)
        (hf : ∀ f ∈ a.facts, f ∈ b.facts) (hk : k = id) :
        Outcome fact.source.id fact.eqTime id a (some k) (e'.updEncounter k (·.resume v.targetId)) := by
      subst hk
      obtain rfl := Option.some.inj (hb.symm.trans hce)
      exact .resumed (b := b.resume v.targetId) ((hlook _ _ hb).trans (by rw [if_pos rfl])) rfl hf
        (foreign_congr hph ▸ hown)
    cases hout with
    | @untouched b hb hph hs _ =>
      by_cases hk : k = id
      · exact hself b hb hph (fun f hf => hs.facts ▸ hf) hk
      · exact .untouched ((hlook _ _ hb).trans (by rw [if_neg hk])) hph hs fun h => hk (Option.some.inj h)
    | @accepted b hb hph hf hin =>
      by_cases hk : k = id
      · exact hself b hb hph hf hk
      · exact .accepted ((hlook _ _ hb).trans (by rw [if_neg hk])) hph hf hin
    | @resumed j b hb hph hf hin =>
      have hk : k ≠ j := by
        rintro rfl
        obtain rfl := Option.some.inj (hb.symm.trans hce)
        rw [hph] at hcp
        cases hcp
      exact .resumed ((hlook _ _ hb).trans (by rw [if_neg hk])) hph hf hin

theorem Outcome.promoteFact (h : Outcome s t id a (some k) e) : Outcome s t id a (some k) (e.promoteFact k index) := by
  cases hf : e.ledger[index]? with
  | none => simpa [CombatEngine.promoteFact, hf] using h
  | some fact =>
    rw [promoteFact_eq hf]
    exact h.modify rfl (fun _ => rfl) fun b i hi => List.mem_append_left _ hi

theorem Outcome.list (h : Outcome s t id a (some k) e) :
    Outcome s t id a (some k) (e.listDamage index fact v k) := by
  rw [listDamage_eq]
  exact h.modify rfl (fun b => b.listing_phase _ _ _ _ _) fun b i hi => by
    rw [b.listing_facts]
    exact List.mem_append_left _ hi

theorem Outcome.damage (ha : e.encounters[id]? = some a) (hm : MergesOwn e fact v) (ho : OpensOwn e fact v)
    (hd : DamageSpec e index fact v e') : Outcome fact.source.id fact.eqTime id a none e' := by
  cases hd with
  | dropped hp => exact Outcome.place ha hm ho hp
  | ignored hp => exact (Outcome.place ha hm ho hp).weaken
  | listed hp => exact (Outcome.place ha hm ho hp).list.weaken
  | promoted hp =>
    refine Outcome.weaken (promotePriorFacts_keeps (fun _ h => h.promoteFact) (Outcome.place ha hm ho hp).list)

/-! ### Attempts and slain observations -/

theorem Outcome.elsewhere (ha : e.encounters[id]? = some a) (hk : k ≠ id) {f : EncounterState → EncounterState}
    (hm : e'.encounters = e.encounters.modify k f) : Outcome s t id a none e' :=
  .untouched (by rw [hm, ExtTreeMap.getElem?_modify_of_ne hk, ha]) rfl (.refl a) nofun

theorem Outcome.here (ha : e.encounters[id]? = some a) {f : EncounterState → EncounterState}
    (hm : e'.encounters = e.encounters.modify id f) (hf : ∀ i ∈ a.facts, i ∈ (f a).facts)
    (hp : (f a).phase = a.phase ∧ a.closedTo s t = false ∨ (f a).phase = .active ∧ a.foreign s = false) :
    Outcome s t id a none e' := by
  have hb : e'.encounters[id]? = some (f a) := by
    rw [hm, ExtTreeMap.getElem?_modify_ite, if_pos rfl, ha]
    rfl
  obtain ⟨hp, hin⟩ | ⟨hp, hin⟩ := hp
  exacts [.accepted hb hp hf hin, .resumed hb hp hf hin]

theorem Outcome.attempt (ha : e.encounters[id]? = some a) (hph : ∀ reason til, a.phase ≠ .held reason til)
    (hna : a.phase ≠ .active) (hin : k = id → a.closedToAttempt fact.source.id fact.eqTime = false)
    (hm : e'.encounters = e.encounters.modify k (EncounterState.attempt · index fact)) :
    Outcome fact.source.id fact.eqTime id a none e' := by
  by_cases hk : k = id
  · subst hk
    refine Outcome.here ha hm (fun i hi => List.mem_append_left _ hi) ?_
    have hin := hin rfl
    unfold EncounterState.closedToAttempt at hin
    cases hp : a.phase with
    | active => exact absurd hp hna
    | held reason til => exact absurd hp (hph reason til)
    | ending reason enteredAt cutoff closure =>
      rw [hp] at hin
      cases reason with
      | allTargetsTerminal => exact .inl ⟨by simp [EncounterState.attempt, EncounterState.sustain,
          EncounterState.pushFact, hp], hin⟩
      | inactivity => exact .inr ⟨by simp [EncounterState.attempt, EncounterState.sustain,
          EncounterState.pushFact, hp], hin⟩
  · exact Outcome.elsewhere ha hk hm

theorem Outcome.slain (ha : e.encounters[id]? = some a) (hna : a.phase ≠ .active)
    (hin : k = id → a.closedTo fact.source.id fact.eqTime = false) {state : Option SourceState}
    {target : CanonicalTargetId} (hm : e'.encounters = e.encounters.modify k (·.slaying fact state index target)) :
    Outcome fact.source.id fact.eqTime id a none e' := by
  by_cases hk : k = id
  · subst hk
    refine Outcome.here ha hm (fun i hi => ?_) (.inl ⟨?_, hin rfl⟩)
    · rw [a.slaying_facts]
      exact List.mem_append_left _ hi
    · obtain h | ⟨h, -⟩ := a.slaying_phase fact state index target
      exacts [h, absurd h hna]
  · exact Outcome.elsewhere ha hk hm

end
end CombatEngine

open CombatEngine

namespace Reduction.SparesEnding
variable {r : Reduction}

theorem damage (h : r.SparesEnding) {damage : DamageObservation} (he : r.event = .combat (.damage damage)) :
    MergesOwn (r.pushed (.damage damage)) (r.fact (.damage damage)) (r.view damage) ∧
      OpensOwn (r.pushed (.damage damage)) (r.fact (.damage damage)) (r.view damage) := by
  unfold SparesEnding sparesEnding at h
  rw [he] at h
  simp only [Bool.and_eq_true, Option.all_eq_true, Bool.or_eq_true, beq_iff_eq, Bool.not_eq_true',
    Bool.or_eq_false_iff, Option.any_eq_false] at h
  refine ⟨fun left right hl hr hne id a hid ha => ?_, fun e' ho a ha => ?_⟩
  · obtain ⟨h1, h2⟩ := (h.1 left hl right hr).resolve_left hne
    obtain rfl | rfl := hid
    · exact h1 a ha
    · exact h2 a ha
  · exact h.2 _ (Reduction.opening_eq he ho) a ha

theorem attempt (h : r.SparesEnding) {attempt : CombatAttempt} (he : r.event = .combat (.attempt attempt))
    {id : EncounterId}
    (ht : (r.pushed (.attempt attempt)).attemptTarget (r.fact (.attempt attempt)) attempt = some id)
    {a : EncounterState} (ha : r.engine.encounters[id]? = some a) :
    a.closedToAttempt r.record.source.id r.eqTime = false := by
  unfold SparesEnding sparesEnding at h
  rw [he] at h
  simp only [Option.all_eq_true, Bool.not_eq_true', Option.any_eq_false] at h
  exact h id ht a ha

theorem slain (h : r.SparesEnding) {slain : TargetSlainObservation} (he : r.event = .combat (.targetSlain slain))
    {id : EncounterId} (ht : (r.pushed (.slain slain)).slainTarget (r.fact (.slain slain))
      (canonicalTargetId (resolveObserved r.record.source slain.target).1) = some id)
    {a : EncounterState} (ha : r.engine.encounters[id]? = some a) :
    a.closedTo r.record.source.id r.eqTime = false := by
  unfold SparesEnding sparesEnding at h
  rw [he] at h
  simp only [Option.all_eq_true, Bool.not_eq_true', Option.any_eq_false] at h
  exact h id ht a ha

end Reduction.SparesEnding

/-! ### Calls -/

/-- The event makes the encounter at `id`, in its ending grace before, part of an active one. -/
def Reduction.Resumes (r : Reduction) (id : EncounterId) (phase : PhaseState) : Prop :=
  ∃ b : EncounterState, r.engine.encounters[id]? = some b ∧ b.phase = phase ∧
    ∃ (k : EncounterId) (c : EncounterState), r.result.encounters[k]? = some c ∧ c.phase = .active ∧
      ∀ f ∈ b.facts, f ∈ c.facts

namespace CombatEngine

/-- What a call has done so far to the encounter `a` in its ending grace at `id`: a fact of the closure
set resumed it, the ledger was withdrawn, it was finalized, or it is still there; the last two with its
interval unchanged but for facts of the closure set up to the cutoff. -/
inductive Graced (e : CombatEngine) (call : Call) (id : EncounterId) (a : EncounterState) (e' : CombatEngine) : Prop
  | resumed {r : Reduction} (hr : r ∈ e.reductions call) (hin : a.foreign r.record.source.id = false)
      (h : r.Resumes id a.phase)
  | withdrawn (h : e.withdrawals call ≠ [])
  | finalized {f : Finalizing} {b : EncounterState} (hf : f ∈ e.finalizings call) (hid : f.due.id = id)
      (hb : f.engine.encounters[id]? = some b) (hp : b.phase = a.phase)
      (hs : SameInterval a b ∨ ∃ r ∈ e.reductions call, a.closedTo r.record.source.id r.eqTime = false)
  | stays {b : EncounterState} (hb : e'.encounters[id]? = some b) (hp : b.phase = a.phase)
      (hs : SameInterval a b ∨ ∃ r ∈ e.reductions call, a.closedTo r.record.source.id r.eqTime = false)

/-- The conditions that tie a run of `Graced` to its call. -/
def gracedBy (e : CombatEngine) (call : Call) : Conditions where
  reduction r := r ∈ e.reductions call ∧ r.SparesEnding
  finalizing f := f ∈ e.finalizings call
  withdrawing _ := e.withdrawals call ≠ []

section
variable {e e' e'' : CombatEngine} {call : Call} {id : EncounterId} {a : EncounterState}

theorem Graced.keep (h : Graced e call id a e')
    (hk : ∀ b : EncounterState, e'.encounters[id]? = some b → b.phase = a.phase →
      ∃ c : EncounterState, e''.encounters[id]? = some c ∧ c.phase = b.phase ∧ SameInterval b c) :
    Graced e call id a e'' := by
  cases h with
  | resumed hr hin h => exact .resumed hr hin h
  | withdrawn h => exact .withdrawn h
  | finalized hf hid hb hp hs => exact .finalized hf hid hb hp hs
  | stays hb hp hs =>
    obtain ⟨c, hc, hpc, hsc⟩ := hk _ hb hp
    exact .stays hc (hpc.trans hp) (hs.imp (·.trans hsc) fun h => h)

theorem Graced.reduce {r : Reduction} (hr : r ∈ e.reductions call) (h : Graced e call id a r.engine)
    (hres : r.result = e')
    (ho : ∀ b : EncounterState, r.engine.encounters[id]? = some b → b.phase = a.phase →
      Outcome r.record.source.id r.eqTime id b none e') : Graced e call id a e' := by
  cases h with
  | resumed hr hin h => exact .resumed hr hin h
  | withdrawn h => exact .withdrawn h
  | finalized hf hid hb hp hs => exact .finalized hf hid hb hp hs
  | @stays b hb hp hs =>
    cases ho b hb hp with
    | untouched hc hpc hsc => exact .stays hc (hpc.trans hp) (hs.imp (·.trans hsc) fun h => h)
    | accepted hc hpc hf hin => exact .stays hc (hpc.trans hp) (.inr ⟨r, hr, closedTo_congr hp ▸ hin⟩)
    | resumed hc hpc hf hin =>
      exact .resumed hr (foreign_congr hp ▸ hin) ⟨b, hb, hp, _, _, hres ▸ hc, hpc, hf⟩

/-- A call keeps `Graced`, given that the encounter is in its ending grace. -/
theorem kept_graced {reason : EndReason} {enteredAt : MonoTime} {cutoff : EqSecond}
    {closure : ExtTreeSet LogSourceId} (hp : a.phase = .ending reason enteredAt cutoff closure) :
    Kept (Graced e call id a) (gracedBy e call) where
  same e' e'' hs h := h.keep fun b hb _ => ⟨b, hs.encounters ▸ hb, rfl, .refl b⟩
  retouch e' f hf _ h := h.keep fun b hb _ => by
    have hsame := hf id b
    exact ⟨f id b, by rw [ExtTreeMap.getElem?_map, hb]; rfl, hsame.phase,
      hsame.facts, hsame.sources, hsame.targets, hsame.startEq, hsame.endEq⟩
  withdraw e' message hw _ := .withdrawn hw
  push r event _ _ h := h.keep fun b hb _ => ⟨b, hb, rfl, .refl b⟩
  damage r damage hok he h hd := h.reduce hok.1 rfl fun b hb _ => by
    obtain ⟨hm, ho⟩ := hok.2.damage he
    exact Outcome.damage (e := r.pushed (.damage damage)) hb hm ho hd
  attempt r attempt k encounter hok he h hd := h.reduce hok.1 rfl fun b hb hpb => by
    refine @Outcome.attempt _ _ r.index (r.fact (.attempt attempt)) _ k _ hb ?_ ?_ ?_ ?_
    · intro reason til hph
      rw [hpb, hp] at hph
      cases hph
    · intro hph
      rw [hpb, hp] at hph
      cases hph
    · rintro rfl
      exact hok.2.attempt he hd.target hb
    · rw [hd.result]
  slain r slain k encounter targetId hok he h hd := h.reduce hok.1 rfl fun b hb hpb => by
    refine @Outcome.slain _ _ r.index (r.fact (.slain slain)) _ k _ hb ?_ ?_
      r.engine.sources[r.record.source.id]? targetId ?_
    · intro hph
      rw [hpb, hp] at hph
      cases hph
    · rintro rfl
      exact hok.2.slain he (hd.target ▸ hd.about) hb
    · rw [hd.result]
  endInactive e' k now cutoff' h := h.keep fun b hb hpb => by
    refine ⟨b, ?_, rfl, .refl b⟩
    show (e'.encounters.modify k fun encounter => encounter.enterEnding .inactivity now cutoff')[id]? = some b
    rw [ExtTreeMap.getElem?_modify_ite, hb]
    split_ifs
    · -- only an active encounter enters its ending grace
      unfold EncounterState.enterEnding
      rw [Option.map_some, hpb, hp]
    · rfl
  finalize f hf hdue h := by
    by_cases hid : f.due.id = id
    · cases h with
      | resumed hr hin h => exact .resumed hr hin h
      | withdrawn h => exact .withdrawn h
      | finalized hf hid hb hp hs => exact .finalized hf hid hb hp hs
      | stays hb hpb hs => exact .finalized hf hid hb hpb hs
    · refine h.keep fun b hb _ => ⟨b, ?_, rfl, .refl b⟩
      unfold Finalizing.result
      rw [finalizeDue_eq]
      exact (ExtTreeMap.getElem?_modify_of_ne hid _).trans hb
  expire e' now _ h := h.keep fun b hb hpb => by
    refine ⟨b, ?_, rfl, .refl b⟩
    rw [(e'.expireHeld_spec now).1, if_neg, hb]
    intro hx
    obtain ⟨c, reason', til, hc, hpc, -⟩ := mem_expired.mp hx
    obtain rfl := Option.some.inj (hb.symm.trans hc)
    rw [hpb, hp] at hpc
    cases hpc

end

theorem closedTo_eq_false {a : EncounterState} {reason : EndReason} {enteredAt : MonoTime} {cutoff : EqSecond}
    {closure : ExtTreeSet LogSourceId} (hp : a.phase = .ending reason enteredAt cutoff closure)
    {s : LogSourceId} {t : EqSecond} (h : a.closedTo s t = false) : s ∈ closure ∧ t ≤ cutoff := by
  unfold EncounterState.closedTo at h
  rw [hp] at h
  simp only [Bool.or_eq_false_iff, Bool.not_eq_false', decide_eq_false_iff_not, Int.not_lt] at h
  exact h

theorem foreign_eq_false {a : EncounterState} {reason : EndReason} {enteredAt : MonoTime} {cutoff : EqSecond}
    {closure : ExtTreeSet LogSourceId} (hp : a.phase = .ending reason enteredAt cutoff closure)
    {s : LogSourceId} (h : a.foreign s = false) : s ∈ closure := by
  unfold EncounterState.foreign at h
  rw [hp] at h
  simpa using h

/-- In a run whose facts spare ending encounters, each call leaves the closure set and the cutoff of an
encounter in its ending grace as they are until a fact of the closure set resumes it, it is finalized or
the ledger is withdrawn, and its facts, sources, targets, start and end change only by a fact of the
closure set up to the cutoff. -/
theorem ending_isolated (policy : CombatPolicy) (calls : List Call)
    (h : Along (Kept.CallOk { reduction := Reduction.SparesEnding }) step (init policy) calls)
    (pre post : List Call) (call : Call) (hcalls : calls = pre ++ call :: post) {id : EncounterId}
    {a : EncounterState} {reason : EndReason} {enteredAt : MonoTime} {cutoff : EqSecond}
    {closure : ExtTreeSet LogSourceId} (ha : ((init policy).run pre).encounters[id]? = some a)
    (hp : a.phase = .ending reason enteredAt cutoff closure) :
    let e := (init policy).run pre
    (∃ r ∈ e.reductions call, r.record.source.id ∈ closure ∧ r.Resumes id a.phase) ∨ e.withdrawals call ≠ [] ∨
      ∃ b : EncounterState, ((e.step call).encounters[id]? = some b ∨
          ∃ f ∈ e.finalizings call, f.due.id = id ∧ f.engine.encounters[id]? = some b) ∧
        b.phase = a.phase ∧ (SameInterval a b ∨
          ∃ r ∈ e.reductions call, r.record.source.id ∈ closure ∧ r.eqTime ≤ cutoff) := by
  subst hcalls
  have hc : Kept.CallOk { reduction := Reduction.SparesEnding } ((init policy).run pre) call := h.at_step
  have hgraced : Graced ((init policy).run pre) call id a ((init policy).run pre) :=
    .stays ha rfl (.inl (.refl a))
  have hok : Kept.CallOk (gracedBy ((init policy).run pre) call) ((init policy).run pre) call :=
    ⟨fun r hr => ⟨hr, hc.1 r hr⟩, fun f hf => hf, fun w hw => List.ne_nil_of_mem hw, trivial, fun _ _ => trivial⟩
  have htouch : (∃ r ∈ ((init policy).run pre).reductions call, a.closedTo r.record.source.id r.eqTime = false) →
      ∃ r ∈ ((init policy).run pre).reductions call, r.record.source.id ∈ closure ∧ r.eqTime ≤ cutoff := by
    rintro ⟨r, hr, hin⟩
    exact ⟨r, hr, closedTo_eq_false hp hin⟩
  cases (kept_graced hp).step call hok hgraced with
  | resumed hr hin hres => exact .inl ⟨_, hr, foreign_eq_false hp hin, hres⟩
  | withdrawn hw => exact .inr (.inl hw)
  | finalized hf hid hb hpb hs => exact .inr (.inr ⟨_, .inr ⟨_, hf, hid, hb⟩, hpb, hs.imp_right htouch⟩)
  | stays hb hpb hs => exact .inr (.inr ⟨_, .inl hb, hpb, hs.imp_right htouch⟩)

/-- The encounter of `A` is in its ending grace from 10 on, with cutoff 501. -/
def endingCalls : List Call :=
  Sample.register ['A', 'C'] ++
    [Sample.line 'A' 0 500 0 (Sample.hit Sample.you "r" 10), Sample.line 'A' 1 501 10 (Sample.slain "r")]

/-- `C` pulls another target of that name. -/
def freshPull : Call := Sample.line 'C' 0 505 20 (Sample.hit Sample.you "r" 7)

theorem ending_isolated_fresh_pull :
    ∃ (a : EncounterState) (reason : EndReason) (enteredAt : MonoTime) (closure : ExtTreeSet LogSourceId),
      ((init .mvpV1).run endingCalls).encounters["x:500:r:a".toList]? = some a ∧
      a.phase = .ending reason enteredAt 501 closure ∧
      ((∃ r ∈ ((init .mvpV1).run endingCalls).reductions freshPull,
          r.record.source.id ∈ closure ∧ r.Resumes "x:500:r:a".toList a.phase) ∨
        ((init .mvpV1).run endingCalls).withdrawals freshPull ≠ [] ∨
        ∃ b : EncounterState,
          ((((init .mvpV1).run endingCalls).step freshPull).encounters["x:500:r:a".toList]? = some b ∨
            ∃ f ∈ ((init .mvpV1).run endingCalls).finalizings freshPull, f.due.id = "x:500:r:a".toList ∧
              f.engine.encounters["x:500:r:a".toList]? = some b) ∧
          b.phase = a.phase ∧ (SameInterval a b ∨
            ∃ r ∈ ((init .mvpV1).run endingCalls).reductions freshPull,
              r.record.source.id ∈ closure ∧ r.eqTime ≤ 501)) := by
  have hphase : (((init .mvpV1).run endingCalls).encounters["x:500:r:a".toList]?).any (fun a =>
      match a.phase with
      | .ending _ _ cutoff _ => cutoff == 501
      | _ => false) = true := by decide +kernel
  obtain ⟨a, ha, hp⟩ := (Option.any_eq_true _ _).mp hphase
  split at hp
  · next reason enteredAt cutoff closure hph =>
    obtain rfl := beq_iff_eq.mp hp
    exact ⟨a, reason, enteredAt, closure, ha, hph, ending_isolated .mvpV1 (endingCalls ++ [freshPull])
      (by decide +kernel) endingCalls [] freshPull rfl ha hph⟩
  · cases hp

/-- A slain line of `C`, after the cutoff, is listed by the ending encounter of `A` and moves its end. -/
theorem ending_not_isolated :
    ∃ a b : EncounterState, ((init .mvpV1).run endingCalls).encounters["x:500:r:a".toList]? = some a ∧
      ((init .mvpV1).run (endingCalls ++ [Sample.line 'C' 0 505 20 (Sample.slain "r")])).encounters["x:500:r:a".toList]?
        = some b ∧
      a.closedTo (Sample.log 'C').id 505 = true ∧ b.phase.shown = .endingGrace ∧
      a.facts = [0, 1] ∧ b.facts = [0, 1, 2] ∧ a.endEq = 501 ∧ b.endEq = 505 ∧
      (Sample.log 'C').id ∉ a.sources ∧ (Sample.log 'C').id ∈ b.sources := by
  have h : (((init .mvpV1).run endingCalls).encounters["x:500:r:a".toList]?).any (fun a =>
      (((init .mvpV1).run (endingCalls ++ [Sample.line 'C' 0 505 20 (Sample.slain "r")])).encounters["x:500:r:a".toList]?).any
        fun b => a.closedTo (Sample.log 'C').id 505 && decide (b.phase.shown = .endingGrace) &&
          decide (a.facts = [0, 1] ∧ b.facts = [0, 1, 2] ∧ a.endEq = 501 ∧ b.endEq = 505) &&
          decide ((Sample.log 'C').id ∉ a.sources ∧ (Sample.log 'C').id ∈ b.sources)) = true := by decide +kernel
  obtain ⟨a, ha, h⟩ := (Option.any_eq_true _ _).mp h
  obtain ⟨b, hb, h⟩ := (Option.any_eq_true _ _).mp h
  simp only [Bool.and_eq_true, decide_eq_true_eq] at h
  obtain ⟨⟨⟨h1, h2⟩, h3, h4, h5, h6⟩, h7, h8⟩ := h
  exact ⟨a, b, ha, hb, h1, h2, h3, h4, h5, h6, h7, h8⟩

end CombatEngine
end Stonemite.Combat
