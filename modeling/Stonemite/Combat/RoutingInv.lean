import Stonemite.Combat.Kept

/-!
# The active-source routing invariant

`Routed`: every entry of `source_active` names a live encounter that has the source. It is kept by
every reduction that does not take a held encounter by its derived id (`SparesHeld`), and it makes the
encounter a damage fact is placed in a live one.
-/

open Std

namespace Stonemite.Combat

/-- The event takes no held encounter by its derived id. -/
def Reduction.SparesHeld (r : Reduction) : Prop :=
  ∀ o ∈ r.opening, (o.1.encounters[o.2]?).any (·.phase.isHeld) = false

instance : DecidablePred Reduction.SparesHeld := fun _ => inferInstanceAs (Decidable (∀ o ∈ _, _))

namespace CombatEngine

/-- There is a live encounter at `id`. -/
def LiveAt (e : CombatEngine) (id : EncounterId) : Prop :=
  ∃ a : EncounterState, e.encounters[id]? = some a ∧ a.phase.isHeld = false

/-- The active encounter of a source is there, is not held, and lists the source. -/
def Routed (e : CombatEngine) : Prop :=
  ∀ (s : LogSourceId) (id : EncounterId), e.sourceActive[s]? = some id →
    ∃ a : EncounterState, e.encounters[id]? = some a ∧ a.phase.isHeld = false ∧ s ∈ a.sources

section
variable {e e' : CombatEngine} {index : Nat} {fact : LedgerFact} {v : DamageView} {id : EncounterId}

theorem Routed.live (h : e.Routed) {s : LogSourceId} (hs : e.sourceActive[s]? = some id) : e.LiveAt id :=
  let ⟨a, he, hl, _⟩ := h s id hs
  ⟨a, he, hl⟩

theorem correlated_live {server : Str} {fingerprint : Fingerprint}
    (h : e.correlated server fingerprint = some id) : e.LiveAt id := by
  obtain ⟨a, he, hp⟩ := ExtTreeMap.find?_toList_spec h
  simp only [Bool.and_eq_true, Bool.not_eq_true'] at hp
  exact ⟨a, he, hp.1.1⟩

theorem Routed.mono (h : e.Routed) (hs : e'.sourceActive = e.sourceActive)
    (hm : ∀ (k : EncounterId) (a : EncounterState), e.encounters[k]? = some a → a.phase.isHeld = false →
      ∃ a' : EncounterState, e'.encounters[k]? = some a' ∧ a'.phase.isHeld = false ∧
        ∀ s ∈ a.sources, s ∈ a'.sources) : e'.Routed := fun s k hk => by
  obtain ⟨a, he, hl, hsa⟩ := h s k (hs ▸ hk)
  obtain ⟨a', he', hl', hsub⟩ := hm k a he hl
  exact ⟨a', he', hl', hsub s hsa⟩

theorem modify_live {f : EncounterState → EncounterState} {m : ExtTreeMap EncounterId EncounterState}
    (hf : ∀ a : EncounterState, m[id]? = some a → a.phase.isHeld = false →
      (f a).phase.isHeld = false ∧ ∀ s ∈ a.sources, s ∈ (f a).sources) (k : EncounterId) (a : EncounterState)
    (ha : m[k]? = some a) (hl : a.phase.isHeld = false) :
    ∃ a' : EncounterState, (m.modify id f)[k]? = some a' ∧ a'.phase.isHeld = false ∧
      ∀ s ∈ a.sources, s ∈ a'.sources := by
  rw [ExtTreeMap.getElem?_modify_ite]
  split_ifs with hk
  · subst hk
    obtain ⟨hl', hs⟩ := hf a ha hl
    exact ⟨f a, by rw [ha]; rfl, hl', hs⟩
  · exact ⟨a, ha, hl, fun _ h => h⟩

theorem Routed.of_eq (h : e.Routed) (hs : e'.sourceActive = e.sourceActive)
    (he : e'.encounters = e.encounters) : e'.Routed :=
  h.mono hs fun _ a ha hl => ⟨a, he ▸ ha, hl, fun _ h => h⟩

theorem Routed.modify (h : e.Routed) {f : EncounterState → EncounterState}
    (hs : e'.sourceActive = e.sourceActive) (hm : e'.encounters = e.encounters.modify id f)
    (hf : ∀ a : EncounterState, e.encounters[id]? = some a → a.phase.isHeld = false →
      (f a).phase.isHeld = false ∧ ∀ s ∈ a.sources, s ∈ (f a).sources) : e'.Routed :=
  h.mono hs (hm ▸ modify_live hf)

/-! ### Placing -/

theorem Routed.absorb (h : e.Routed) {chosenId otherId : EncounterId} {chosen other : EncounterState}
    (hne : chosenId ≠ otherId) (hc : e.encounters[chosenId]? = some chosen)
    (ho : e.encounters[otherId]? = some other) : (e.absorb chosenId otherId chosen other).Routed := by
  intro s k hk
  have hlook : ∀ k : EncounterId, (e.absorb chosenId otherId chosen other).encounters[k]? =
      if chosenId = k then some (chosen.absorb other) else if otherId = k then none else e.encounters[k]? :=
    fun k => (ExtTreeMap.getElem?_insert_ite _ _ _).trans (by rw [ExtTreeMap.getElem?_erase_ite])
  have hs : e.sourceActive[s]?.map (fun id => if id = otherId then chosenId else id) = some k :=
    ExtTreeMap.getElem?_map.symm.trans hk
  obtain ⟨id, hid, rfl⟩ := Option.map_eq_some_iff.mp hs
  obtain ⟨a, ha, hl, hsa⟩ := h s id hid
  -- the source was in the encounter that goes, in the one that stays, or elsewhere
  by_cases hio : id = otherId
  · subst hio
    obtain rfl := Option.some.inj (ha.symm.trans ho)
    exact ⟨_, by rw [hlook, if_pos rfl, if_pos rfl], rfl, ExtTreeSet.mem_union_of_right hsa⟩
  · rw [if_neg hio, hlook]
    by_cases hic : chosenId = id
    · subst hic
      obtain rfl := Option.some.inj (ha.symm.trans hc)
      exact ⟨_, if_pos rfl, rfl, ExtTreeSet.mem_union_of_left hsa⟩
    · exact ⟨a, by rw [if_neg hic, if_neg (Ne.symm hio), ha], hl, hsa⟩

theorem RouteSpec.live (h : e.Routed) (hr : RouteSpec e fact v e' (some id)) : e'.LiveAt id := by
  generalize hi : some id = o at hr
  cases hr with
  | fresh => cases hi
  | joined hs hc => exact Option.some.inj hi ▸ correlated_live hc
  | current hs hc => exact Option.some.inj hi ▸ h.live hs
  | @merged left right hs hc hne =>
    have hm := mergeEncounters_spec e hne
    generalize e.mergeEncounters left right = merged at hm hi ⊢
    obtain ⟨e', k⟩ := merged
    obtain rfl := Option.some.inj hi
    dsimp only at hm ⊢
    cases hm with
    | alone hid hn =>
      obtain ⟨a, ha, -⟩ := h.live hs
      obtain ⟨b, hb, -⟩ := correlated_live hc
      exact absurd ((hn left a (.inl rfl) ha).trans (hn right b (.inr rfl) hb).symm) hne
    | @absorbed chosenId otherId chosen other hids hne' hc' ho' =>
      exact ⟨chosen.absorb other, ExtTreeMap.getElem?_insert_self, rfl⟩

theorem Routed.route (h : e.Routed) {o : Option EncounterId} (hr : RouteSpec e fact v e' o) : e'.Routed :=
  hr.keeps (fun hne hc ho => h.absorb hne hc ho) h

/-- The fact takes no held encounter by its derived id. -/
def OpensLive (e : CombatEngine) (fact : LedgerFact) (v : DamageView) : Prop :=
  ∀ e', Opens e fact v e' → ∀ a : EncounterState, e'.encounters[openId fact v]? = some a → a.phase.isHeld = false

theorem Routed.place (h : e.Routed) {o : Option EncounterId} (hp : PlaceSpec e fact v e' o) : e'.Routed := by
  refine hp.keeps (fun hr => h.route hr) ?_ ?_ ?_
  · exact fun _ _ h => h.modify rfl rfl fun _ _ _ => ⟨rfl, fun _ h => h⟩
  · exact fun _ h => h.of_eq rfl rfl
  · intro e' ho hn h
    refine h.mono rfl fun k a ha hl => ⟨a, ?_, hl, fun _ h => h⟩
    refine (ExtTreeMap.getElem?_insert_of_ne (fun hk => ?_) _).trans ha
    rw [hk, ha] at hn
    cases hn

theorem PlaceSpec.live (h : e.Routed) (hl : OpensLive e fact v) (hp : PlaceSpec e fact v e' (some id)) :
    e'.LiveAt id := by
  generalize hi : some id = o at hp
  cases hp with
  | excluded | late | unqualified | full => cases hi
  | kept hr hc => exact Option.some.inj hi ▸ (route_spec hr).live h
  | @resumed e' k hr hc =>
    obtain rfl := Option.some.inj hi
    obtain ⟨a, ha, -⟩ := (route_spec hr).live h
    exact ⟨a.resume v.targetId, by
      show (e'.encounters.modify id _)[id]? = _
      rw [ExtTreeMap.getElem?_modify_ite, if_pos rfl, ha]; rfl, rfl⟩
  | taken ho he => exact Option.some.inj hi ▸ ⟨_, he, hl _ ho _ he⟩
  | opened => exact Option.some.inj hi ▸ ⟨_, ExtTreeMap.getElem?_insert_self, rfl⟩

/-! ### Listing -/

theorem Routed.list (h : e.Routed) (hl : e.LiveAt id) : (e.listDamage index fact v id).Routed := by
  rw [listDamage_eq]
  intro s k hk
  have hk : (e.sourceActive.insert fact.source.id id)[s]? = some k := hk
  rw [ExtTreeMap.getElem?_insert_ite] at hk
  split_ifs at hk with hs
  · obtain rfl := Option.some.inj hk
    obtain ⟨a, ha, hl⟩ := hl
    exact ⟨_, (ExtTreeMap.getElem?_modify_ite _ _ _).trans (by rw [if_pos rfl, ha]; rfl),
      by rw [a.listing_phase]; exact hl, (a.mem_listing_sources _ _ _ _ _).mpr (.inl hs.symm)⟩
  · obtain ⟨a, ha, hl, hsa⟩ := h s k hk
    obtain ⟨a', ha', hl', hsub⟩ := modify_live (f := (·.listing fact v e.sources[fact.source.id]? index
      (e.contributes id v))) (fun b _ hb => ⟨by rw [b.listing_phase]; exact hb,
        fun t ht => (b.mem_listing_sources _ _ _ _ _).mpr (.inr ht)⟩) k a ha hl
    exact ⟨a', ha', hl', hsub s hsa⟩

theorem Routed.promoteFact (h : e.Routed) : (e.promoteFact id index).Routed := by
  cases hf : e.ledger[index]? with
  | none => simpa [CombatEngine.promoteFact, hf] using h
  | some fact =>
    rw [promoteFact_eq hf]
    exact h.modify rfl rfl fun a _ hl => ⟨hl, fun _ h => h⟩

theorem Routed.damage (h : e.Routed) (hl : OpensLive e fact v) (hd : DamageSpec e index fact v e') :
    e'.Routed := by
  cases hd with
  | dropped hp => exact h.place hp
  | ignored hp => exact h.place hp
  | listed hp => exact (h.place hp).list (hp.live h hl)
  | promoted hp =>
    exact promotePriorFacts_keeps (fun _ h => h.promoteFact) ((h.place hp).list (hp.live h hl))

/-- A fact that could start combat is listed by a live encounter, unless it is dropped. -/
theorem Routed.listed (h : e.Routed) (hl : OpensLive e fact v) (hq : v.startQualified = true)
    (hd : DamageSpec e index fact v e') :
    e.excludes fact v = true ∨ e.late fact v = true ∨ e.overflows fact v = true ∨
      e'.ListedLive index fact.source.id := by
  cases hd with
  | dropped hp =>
    obtain h | h | h := hp.dropped hq
    exacts [.inl h, .inr (.inl h), .inr (.inr (.inl h))]
  | ignored hp hk hc => rw [contributes_of_startQualified _ hq] at hc; cases hc
  | listed hp hn => rw [hn] at hq; cases hq
  | @promoted e' id hp =>
    obtain ⟨a, ha, hla⟩ := hp.live h hl
    let Listed (e : CombatEngine) : Prop := ∃ a : EncounterState, e.assignments[index]? = some id ∧
      e.encounters[id]? = some a ∧ a.phase.isHeld = false ∧ fact.source.id ∈ a.sources ∧ index ∈ a.facts
    have hlist : Listed (e'.listDamage index fact v id) := by
      rw [listDamage_eq]
      refine ⟨a.listing fact v e'.sources[fact.source.id]? index (e'.contributes id v),
        ExtTreeMap.getElem?_insert_self, ?_, by rw [a.listing_phase]; exact hla,
        (a.mem_listing_sources _ _ _ _ _).mpr (.inl rfl), by simp⟩
      exact (ExtTreeMap.getElem?_modify_ite _ _ _).trans (by rw [if_pos rfl, ha]; rfl)
    have hpromote {e : CombatEngine} {j : Nat} (h : Listed e) : Listed (e.promoteFact id j) := by
      cases hf : e.ledger[j]? with
      | none => simpa [CombatEngine.promoteFact, hf] using h
      | some promoted =>
        obtain ⟨a, hi, ha, hla, hs, hm⟩ := h
        rw [promoteFact_eq hf]
        refine ⟨a.promote j promoted, ?_, ?_, hla, hs, List.mem_append_left _ hm⟩
        · refine (ExtTreeMap.getElem?_insert_ite _ _ _).trans ?_
          split_ifs
          exacts [rfl, hi]
        · exact (ExtTreeMap.getElem?_modify_ite _ _ _).trans (by rw [if_pos rfl, ha]; rfl)
    have hend : Listed ((e'.listDamage index fact v id).promotePriorFacts id fact.source.id v.targetId fact.eqTime) :=
      promotePriorFacts_keeps (fun _ h => hpromote h) hlist
    obtain ⟨a, h⟩ := hend
    exact .inr (.inr (.inr ⟨id, a, h⟩))

end
end CombatEngine

open CombatEngine

theorem Reduction.SparesHeld.opensLive {r : Reduction} (h : r.SparesHeld) {damage : DamageObservation}
    (hr : r.event = .combat (.damage damage)) :
    OpensLive (r.pushed (.damage damage)) (r.fact (.damage damage)) (r.view damage) := fun e' ho a ha => by
  have := h _ (Reduction.opening_eq hr ho)
  rw [ha] at this
  exact this

theorem kept_routed : Kept Routed { reduction := Reduction.SparesHeld } where
  same e e' hs h := h.of_eq hs.sourceActive hs.encounters
  retouch e f hf _ h := h.mono rfl fun k a ha hl =>
    ⟨f k a, by rw [ExtTreeMap.getElem?_map, ha]; rfl, by rw [(hf k a).phase]; exact hl,
      fun s hs => by rw [(hf k a).sources]; exact hs⟩
  withdraw e message _ h := fun s id hs => by simp at hs
  push r event _ _ h := h
  damage r damage hok he h hd := Routed.damage (e := r.pushed _) h (hok.opensLive he) hd
  attempt r attempt id encounter _ _ h hd := by
    rw [hd.result]
    refine h.modify rfl rfl fun a _ hl => ⟨?_, fun _ h => h⟩
    obtain ha | ⟨-, ha⟩ := a.attempt_phase (r.fact (.attempt attempt)) r.index <;> rw [ha]
    exacts [hl, rfl]
  slain r slain id encounter targetId _ _ h hd := by
    rw [hd.result]
    refine h.modify rfl rfl fun a _ hl => ⟨?_, fun s hs => (a.mem_slaying_sources _ _ _ _).mpr (.inr hs)⟩
    obtain ha | ⟨-, ha⟩ := a.slaying_phase (r.fact (.slain slain))
      r.engine.sources[r.record.source.id]? r.index targetId <;> rw [ha]
    exacts [hl, rfl]
  endInactive e id now cutoff h := h.modify rfl rfl fun a _ hl => by
    rw [a.enterEnding_eq]
    unfold EncounterState.enterEnding
    refine ⟨?_, fun _ h => h⟩
    split
    exacts [rfl, hl]
  finalize f _ _ h := by
    unfold Finalizing.result
    rw [finalizeDue_eq]
    intro s k hk
    have hk : (f.engine.sourceActive.filter fun _ encounter => encounter ≠ f.due.id)[s]? = some k := hk
    rw [ExtTreeMap.getElem?_filter'] at hk
    obtain ⟨hk, hne⟩ := Option.filter_eq_some_iff.mp hk
    obtain ⟨a, ha, hl, hs⟩ := h s k hk
    exact ⟨a, (ExtTreeMap.getElem?_modify_of_ne (Ne.symm (by simpa using hne)) _).trans ha, hl, hs⟩
  expire e now _ h := by
    obtain ⟨he, hs, -⟩ := e.expireHeld_spec now
    refine h.mono hs fun k a ha hl => ⟨a, ?_, hl, fun _ h => h⟩
    rw [he, if_neg, ha]
    intro hx
    obtain ⟨b, reason, til, hb, hp, -⟩ := mem_expired.mp hx
    obtain rfl := Option.some.inj (ha.symm.trans hb)
    rw [hp] at hl
    cases hl

/-- While no fact takes a held encounter by its derived id, every active source is in a live encounter
that has it, and every fact that could start combat is listed by a live encounter of its source unless
it is late, excluded by a closure set or beyond the bound. -/
theorem active_source_routing (policy : CombatPolicy) (calls : List Call)
    (h : Along (Kept.CallOk { reduction := Reduction.SparesHeld }) step (init policy) calls) :
    ((init policy).run calls).Routed ∧
      ∀ pre call post, calls = pre ++ call :: post → ∀ r ∈ ((init policy).run pre).reductions call,
        r.engine.Routed ∧ ∀ damage, r.event = .combat (.damage damage) →
          (r.view damage).startQualified = true →
          let e := r.pushed (.damage damage)
          let fact := r.fact (.damage damage)
          e.excludes fact (r.view damage) = true ∨ e.late fact (r.view damage) = true ∨
            e.overflows fact (r.view damage) = true ∨ r.result.ListedLive r.index r.record.source.id := by
  have h0 : (init policy).Routed := fun s id hs => by simp [init] at hs
  refine ⟨kept_routed.run h h0, ?_⟩
  rintro pre call post rfl r hr
  obtain ⟨-, hin, -⟩ := kept_routed.at_call h h0
  obtain ⟨hok, hrouted⟩ := hin r hr
  exact ⟨hrouted, fun damage he hq =>
    Routed.listed (e := r.pushed _) hrouted (hok.opensLive he) hq (Reduction.damage_spec he)⟩

/-- `A` has slain its target, and the encounter is held. -/
def heldBefore : List Call :=
  Sample.register ['A', 'D'] ++
    [Sample.line 'A' 0 500 0 (Sample.hit Sample.you "r" 10), Sample.line 'A' 1 501 10 (Sample.slain "r"), .tick 2010]

/-- `D` hits another target. -/
def openedBeside : Call := Sample.line 'D' 0 505 3010 (Sample.hit Sample.you "s" 5)

/-- The fact of a reduction could start combat, and is not excluded, late or over the bound. -/
def placedStart (r : Reduction) : Bool :=
  match r.event with
  | .combat (.damage damage) => (r.view damage).startQualified &&
    !(r.pushed (.damage damage)).excludes (r.fact (.damage damage)) (r.view damage) &&
    !(r.pushed (.damage damage)).late (r.fact (.damage damage)) (r.view damage) &&
    !(r.pushed (.damage damage)).overflows (r.fact (.damage damage)) (r.view damage)
  | _ => false

/-- The fact of `D` is listed by a live encounter of its own while that of `A` is held. -/
theorem active_source_routing_beside_held :
    (((init .mvpV1).run heldBefore).encounters["x:500:r:a".toList]?).any (·.phase.isHeld) = true ∧
      ((init .mvpV1).run (heldBefore ++ [openedBeside])).Routed ∧
      ∃ r ∈ ((init .mvpV1).run heldBefore).reductions openedBeside, r.result.ListedLive r.index r.record.source.id := by
  obtain ⟨hrouted, hlisted⟩ := active_source_routing .mvpV1 (heldBefore ++ [openedBeside]) (by decide +kernel)
  have hstart : (((init .mvpV1).run heldBefore).reductions openedBeside).any placedStart = true := by decide +kernel
  obtain ⟨r, hr, hplaced⟩ := List.any_eq_true.mp hstart
  refine ⟨by decide +kernel, hrouted, r, hr, ?_⟩
  unfold placedStart at hplaced
  split at hplaced
  · rename_i damage he
    simp only [Bool.and_eq_true, Bool.not_eq_true'] at hplaced
    obtain ⟨⟨⟨hq, hexcludes⟩, hlate⟩, hover⟩ := hplaced
    obtain h | h | h | h := (hlisted heldBefore openedBeside [] rfl r hr).2 damage he hq
    · exact absurd (hexcludes.symm.trans h) Bool.false_ne_true
    · exact absurd (hlate.symm.trans h) Bool.false_ne_true
    · exact absurd (hover.symm.trans h) Bool.false_ne_true
    · exact h
  · cases hplaced

/-- `C` reports a hit of `A` whose derived id is that of the held encounter of `A`. -/
def heldTaken : List Call :=
  Sample.register ['A', 'C'] ++
    [Sample.line 'A' 0 500 0 (Sample.hit Sample.you "r" 10), Sample.line 'A' 1 501 10 (Sample.slain "r"),
      .tick 2010, Sample.line 'C' 0 500 3000 (Sample.hit (Sample.named "A") "r" 7)]

/-- `A` ends its encounter before `C` reports the first hit. -/
def closedBefore : List Call :=
  Sample.register ['A', 'C'] ++
    [Sample.line 'A' 0 500 0 (Sample.hit Sample.you "r" 10), Sample.line 'A' 1 501 10 (Sample.slain "r")]

/-- Another source tells of a hit on the same target. -/
def reportedAfter : Call := Sample.line 'C' 0 500 20 (Sample.hit (Sample.named "A") "r" 10)

/-- The fact of a reduction could start combat, is neither late nor over the bound, and is assigned to no encounter. -/
def unassignedStart (r : Reduction) : Bool :=
  match r.event with
  | .combat (.damage damage) => (r.view damage).startQualified &&
    !(r.pushed (.damage damage)).late (r.fact (.damage damage)) (r.view damage) &&
    !(r.pushed (.damage damage)).overflows (r.fact (.damage damage)) (r.view damage) &&
    r.result.assignments[r.index]? == none
  | _ => false

/-- An active source in a held encounter, and a fact that could start combat, is not late and within
the bound, but is assigned to no encounter. -/
theorem active_source_not_routed :
    ¬ ((init .mvpV1).run heldTaken).Routed ∧
      ∃ r ∈ ((init .mvpV1).run closedBefore).reductions reportedAfter, ∃ damage,
        r.event = .combat (.damage damage) ∧ (r.view damage).startQualified = true ∧
          (r.pushed (.damage damage)).late (r.fact (.damage damage)) (r.view damage) = false ∧
          (r.pushed (.damage damage)).overflows (r.fact (.damage damage)) (r.view damage) = false ∧
          r.result.assignments[r.index]? = none := by
  constructor
  · have hs : ((init .mvpV1).run heldTaken).sourceActive["c".toList]? = some "x:500:r:a".toList := by
      decide +kernel
    have hh : (((init .mvpV1).run heldTaken).encounters["x:500:r:a".toList]?).any (·.phase.isHeld) = true := by
      decide +kernel
    intro h
    obtain ⟨a, ha, hl, -⟩ := h _ _ hs
    rw [ha, Option.any_some, hl] at hh
    cases hh
  · have hany : (((init .mvpV1).run closedBefore).reductions reportedAfter).any unassignedStart = true := by
      decide +kernel
    obtain ⟨r, hr, h⟩ := List.any_eq_true.mp hany
    refine ⟨r, hr, ?_⟩
    unfold unassignedStart at h
    split at h
    · rename_i damage he
      simp only [Bool.and_eq_true, Bool.not_eq_true', beq_iff_eq] at h
      exact ⟨damage, he, h.1.1.1, h.1.1.2, h.1.2, h.2⟩
    · cases h

end Stonemite.Combat
