import Stonemite.Combat.Kept

/-!
# Intake of records

What decides whether a record is reduced: the generation and last sequence of every source, and the
occurrence counters. Registrations, gaps and accepted records write the first, the event loop the
second; everything else leaves both alone (`SameIntake`).
-/

open Std

namespace Stonemite.Combat

/-- Where a source stands: its generation and the last sequence of it. -/
abbrev Mark := Nat × Option Nat

/-- The generation and the last sequence number of a source. -/
def SourceState.mark (state : SourceState) : Mark := (state.generation, state.lastSequence)

namespace CombatEngine

def mark (e : CombatEngine) (s : LogSourceId) : Option Mark := (e.sources[s]?).map SourceState.mark

/-- The parts of the engine that decide about records agree. -/
structure SameIntake (e e' : CombatEngine) : Prop where
  policy : e'.policy = e.policy
  occurrences : e'.occurrences = e.occurrences
  mark : ∀ s, e'.mark s = e.mark s

namespace SameIntake
variable {e e' e'' : CombatEngine}

theorem of_eq (hp : e'.policy = e.policy) (ho : e'.occurrences = e.occurrences)
    (hs : e'.sources = e.sources) : SameIntake e e' :=
  ⟨hp, ho, fun s => by unfold CombatEngine.mark; rw [hs]⟩

theorem refl (e : CombatEngine) : SameIntake e e := of_eq rfl rfl rfl

theorem trans (h : SameIntake e e') (h' : SameIntake e' e'') : SameIntake e e'' :=
  ⟨h'.policy.trans h.policy, h'.occurrences.trans h.occurrences, fun s => (h'.mark s).trans (h.mark s)⟩

theorem foldl {α : Type} {f : CombatEngine → α → CombatEngine} (hf : ∀ e a, SameIntake e (f e a)) (l : List α)
    (e : CombatEngine) : SameIntake e (l.foldl f e) :=
  foldl_invariant (I := SameIntake e) (fun e a h => h.trans (hf e a)) l (refl e)

theorem diagnose (e : CombatEngine) (message : String) : SameIntake e (e.diagnose message) :=
  of_eq rfl rfl rfl

theorem updEncounter (e : CombatEngine) (id : EncounterId) (f : EncounterState → EncounterState) :
    SameIntake e (e.updEncounter id f) :=
  of_eq rfl rfl rfl

theorem clock (e : CombatEngine) (now : MonoTime) : SameIntake e (e.clock now) := of_eq rfl rfl rfl

theorem markPartial (e : CombatEngine) (s : LogSourceId) : SameIntake e (e.markPartial s) := of_eq rfl rfl rfl

theorem addOwnership (e : CombatEngine) (source : LogSource) (pet : Str) (owner : ObservedCombatant)
    (eqTime : EqSecond) : SameIntake e (e.addOwnership source pet owner eqTime) :=
  of_eq rfl rfl rfl

theorem pushLedger (e : CombatEngine) (fact : LedgerFact) : SameIntake e (e.pushLedger fact) := of_eq rfl rfl rfl

theorem updSource (e : CombatEngine) (id : LogSourceId) {f : SourceState → SourceState}
    (hf : ∀ state, (f state).mark = state.mark) : SameIntake e (e.updSource id f) := by
  refine ⟨rfl, rfl, fun s => ?_⟩
  show ((e.sources.modify id f)[s]?).map SourceState.mark = (e.sources[s]?).map SourceState.mark
  rw [ExtTreeMap.getElem?_modify_ite]
  split_ifs
  · rw [Option.map_map]
    exact congrArg (fun g => (e.sources[s]?).map g) (funext hf)
  · rfl

/-! ### Facts -/

theorem damage {index : Nat} {fact : LedgerFact} {v : DamageView} (h : DamageSpec e index fact v e') :
    SameIntake e e' := by
  have place {e' id} (hp : PlaceSpec e fact v e' id) : SameIntake e e' :=
    hp.keeps (fun hr => hr.keeps (fun _ _ _ => of_eq rfl rfl rfl) (refl e))
      (fun _ _ h => h.trans (updEncounter _ _ _)) (fun message h => h.trans (diagnose _ message))
      (fun _ _ h => h.trans (of_eq rfl rfl rfl))
  have list (e' : CombatEngine) (id : EncounterId) : SameIntake e' (e'.listDamage index fact v id) := by
    rw [listDamage_eq]
    exact of_eq rfl rfl rfl
  have promote (e' : CombatEngine) (id : EncounterId) (i : Nat) : SameIntake e' (e'.promoteFact id i) := by
    unfold CombatEngine.promoteFact
    split
    exacts [refl _, of_eq rfl rfl rfl]
  cases h with
  | dropped hp => exact place hp
  | ignored hp => exact place hp
  | listed hp => exact (place hp).trans (list _ _)
  | promoted hp =>
    exact promotePriorFacts_keeps (fun _ h => h.trans (promote _ _ _)) ((place hp).trans (list _ _))

theorem reduction (r : Reduction) : SameIntake r.engine r.result := by
  cases he : r.event with
  | whoResult | ownershipClaimed | other =>
    unfold Reduction.result
    rw [he]
    exact of_eq rfl rfl rfl
  | combat event =>
    cases event with
    | damage damage => exact (pushLedger r.engine _).trans (.damage (Reduction.damage_spec he))
    | attempt attempt =>
      obtain h | ⟨id, encounter, h⟩ := Reduction.attempt_spec he
      · exact h ▸ pushLedger r.engine _
      · exact h.result ▸ of_eq rfl rfl rfl
    | targetSlain slain =>
      obtain h | ⟨id, encounter, targetId, h⟩ := Reduction.slain_spec he
      · exact h ▸ pushLedger r.engine _
      · exact h.result ▸ of_eq rfl rfl rfl
    | zoneChanged zone =>
      unfold Reduction.result
      rw [he]
      exact updSource r.engine _ fun _ => rfl
    | petOwnership | playerEvidence | weaponDamageDealt | damageTaken | attackBlocked =>
      unfold Reduction.result
      rw [he]
      exact of_eq rfl rfl rfl

/-! ### Time -/

theorem closeStableSources (e : CombatEngine) (now : MonoTime) : SameIntake e (e.closeStableSources now) := by
  refine ⟨rfl, rfl, fun s => ?_⟩
  unfold CombatEngine.mark CombatEngine.closeStableSources
  rw [ExtTreeMap.getElem?_map]
  cases e.sources[s]? with
  | none => rfl
  | some state =>
    simp only [Option.map_some]
    split_ifs
    · split <;> rfl
    · rfl

theorem finalizeDue (e : CombatEngine) (now : MonoTime) (due : EndingDue) : SameIntake e (e.finalizeDue now due) := by
  rw [finalizeDue_eq]
  exact of_eq rfl rfl rfl

theorem expireHeld (e : CombatEngine) (now : MonoTime) : SameIntake e (e.expireHeld now) := by
  unfold CombatEngine.expireHeld
  dsimp only
  split_ifs
  exacts [of_eq rfl rfl rfl, of_eq rfl rfl rfl]

theorem rebuildBook (e : CombatEngine) : SameIntake e e.rebuildBook.1 := by
  unfold CombatEngine.rebuildBook
  dsimp only
  split_ifs
  exacts [of_eq rfl rfl rfl, of_eq rfl rfl rfl]

theorem step (e : CombatEngine) (call : Call) : SameIntake (e.handled call) (e.step call) := by
  rw [step_eq]
  have hended : SameIntake (e.handled call) (e.ended call) :=
    (closeStableSources _ _).trans (foldl (fun e entry => updEncounter e _ _) _ _)
  have hfinal : SameIntake (e.ended call) ((e.ended call).finalizeEnding (e.handled call).now) :=
    foldl (fun e due => finalizeDue e _ due) _ _
  exact ((hended.trans hfinal).trans (expireHeld _ _)).trans (rebuildBook _)

/-! ### Records -/

theorem datable (e : CombatEngine) (record : CombatRecord) : SameIntake e (e.datable record).1 := by
  unfold CombatEngine.datable
  cases record.eqTime with
  | none => dsimp only; split_ifs; exacts [diagnose e _, refl e]
  | some t => dsimp only; split_ifs; exacts [diagnose e _, refl e]

theorem reserve (e : CombatEngine) (record : CombatRecord) : SameIntake e (e.reserve record) := by
  unfold CombatEngine.reserve
  split_ifs
  exacts [of_eq rfl rfl rfl, refl e]

end SameIntake

/-! ### Marks -/

section
variable {e e' : CombatEngine} {record : CombatRecord} {now : MonoTime} {eqTime : EqSecond}

theorem noteOccurrence_mark (key : Occurrence) (s : LogSourceId) : (e.noteOccurrence key).1.mark s = e.mark s := rfl

theorem processEvent_mark (event : LogEvent) (s : LogSourceId) :
    (e.processEvent record eqTime now event).mark s = e.mark s := by
  have hreduce (e : CombatEngine) : (e.reduceEvent record eqTime now event).mark s = e.mark s :=
    (SameIntake.reduction ⟨e, record, eqTime, now, event⟩).mark s
  unfold CombatEngine.processEvent
  split_ifs with hf
  · have hn := noteOccurrence_mark (e := e) ⟨record.id.source, record.id.generation, eqTime, event⟩ s
    generalize e.noteOccurrence ⟨record.id.source, record.id.generation, eqTime, event⟩ = noted at hn ⊢
    obtain ⟨e', replayed⟩ := noted
    cases replayed
    exacts [(hreduce e').trans hn, hn]
  · exact hreduce e

theorem events_mark (events : List LogEvent) (s : LogSourceId) :
    (events.foldl (fun e event => e.processEvent record eqTime now event) e).mark s = e.mark s :=
  foldl_invariant (I := fun e' : CombatEngine => e'.mark s = e.mark s) (fun _ event h => (processEvent_mark event s).trans h)
    events rfl

/-- The rest of a record leaves the marks as `accept` wrote them. -/
theorem applyRecord_mark (s : LogSourceId) :
    (e.applyRecord record now).1.mark s = (e.accept record now).1.mark s := by
  unfold applyRecord
  generalize e.accept record now = accepted
  obtain ⟨e', ok⟩ := accepted
  cases ok with
  | false => rfl
  | true =>
    have hd := (SameIntake.datable e' record).mark s
    dsimp only
    generalize e'.datable record = dated at hd ⊢
    obtain ⟨e'', t⟩ := dated
    cases t with
    | none => exact hd
    | some t => exact (events_mark record.events s).trans (((SameIntake.reserve e'' record).mark s).trans hd)

/-- A registration sets the source to the start of its generation, unless it continues it. -/
theorem registerSource_mark (source : LogSource) (generation : Nat) (s : LogSourceId) :
    (e.registerSource source generation now).mark s =
      if source.id = s then
        some ((e.sources[source.id]?).elim (generation, none) fun state =>
          if state.discontinuity source generation then (generation, none) else state.mark)
      else e.mark s := by
  show ((e.sources.insert source.id _)[s]?).map SourceState.mark = _
  rw [ExtTreeMap.getElem?_insert_ite]
  split_ifs with h
  · cases e.sources[source.id]? with
    | none => rfl
    | some state =>
      show some (state.register source generation now).mark = some (if _ then _ else _)
      unfold SourceState.register
      split_ifs <;> rfl
  · rfl

theorem markGap_mark (source : LogSourceId) (generation : Nat) (reason : GapReason) (s : LogSourceId) :
    (e.markGap source generation reason).mark s =
      if source = s then (e.mark s).map fun _ => (generation, none) else e.mark s := by
  show ((e.sources.modify source (·.gap generation reason))[s]?).map SourceState.mark = _
  rw [ExtTreeMap.getElem?_modify_ite]
  split_ifs with h
  · unfold mark
    cases e.sources[s]? <;> rfl
  · rfl

/-- Records up to the mark are covered by it. -/
def covers (m : Mark) (id : SourceRecordId) : Bool :=
  decide (id.generation < m.1) || id.generation == m.1 && m.2.any (id.sequence ≤ ·)

/-- The record of the id would be refused as obsolete or replayed. -/
def covered (e : CombatEngine) (id : SourceRecordId) : Bool := (e.mark id.source).any (covers · id)

theorem mark_ensureRegistered (s : LogSourceId) :
    (e.ensureRegistered record now).mark s =
      if record.source.id = s then some ((e.mark s).getD (record.id.generation, none)) else e.mark s := by
  unfold ensureRegistered
  cases hc : e.sources.contains record.source.id with
  | true =>
    obtain ⟨state, hs⟩ := ExtTreeMap.contains_iff.mp hc
    rw [if_pos rfl]
    split_ifs with h
    · subst h
      unfold mark
      rw [hs]
      rfl
    · rfl
  | false =>
    have hn := ExtTreeMap.contains_eq_false_iff.mp hc
    rw [if_neg Bool.false_ne_true, registerSource_mark, hn]
    split_ifs with h
    · subst h
      unfold mark
      rw [hn]
      rfl
    · rfl

theorem mark_of_source {s : LogSourceId} {state : SourceState} (h : e.sources[s]? = some state) :
    e.mark s = some state.mark := by
  unfold mark
  rw [h]
  rfl

theorem covered_ensureRegistered (hid : record.id.source = record.source.id) {state : SourceState}
    (h : (e.ensureRegistered record now).sources[record.source.id]? = some state) :
    e.covered record.id = covers state.mark record.id := by
  have hm : (e.ensureRegistered record now).mark record.source.id = _ := mark_ensureRegistered record.source.id
  rw [if_pos rfl, mark_of_source h] at hm
  have hm : state.mark = _ := Option.some.inj hm
  unfold covered
  rw [hid, hm]
  cases e.mark record.source.id with
  | none => simp [covers]
  | some m => rfl

theorem sameIntake_ensureRegistered (hid : record.id.source = record.source.id)
    (h : e.covered record.id = true) : SameIntake e (e.ensureRegistered record now) := by
  unfold covered at h
  obtain ⟨m, hm, -⟩ := (Option.any_eq_true _ _).mp h
  have hc : e.sources.contains record.source.id = true := by
    rw [hid] at hm
    obtain ⟨state, hs, -⟩ := Option.map_eq_some_iff.mp hm
    exact ExtTreeMap.contains_iff.mpr ⟨state, hs⟩
  unfold ensureRegistered
  rw [if_pos hc]
  exact .refl e

theorem mark_take {state : SourceState} (h : e.sources[record.source.id]? = some state) (s : LogSourceId) :
    ((((recordGap state record).elim e fun reason =>
        e.markGap record.source.id record.id.generation reason).remember record.id).updSource record.source.id
          (·.advance record now)).mark s =
      if record.source.id = s then some (record.id.generation, some record.id.sequence) else e.mark s := by
  -- a gap leaves the other sources, and the source known
  have hgap : ∃ e' : CombatEngine, (recordGap state record).elim e (fun reason =>
      e.markGap record.source.id record.id.generation reason) = e' ∧
        (∃ state', e'.sources[record.source.id]? = some state') ∧ ∀ s, record.source.id ≠ s → e'.mark s = e.mark s := by
    cases recordGap state record with
    | none => exact ⟨e, rfl, ⟨state, h⟩, fun s _ => rfl⟩
    | some reason =>
      refine ⟨_, rfl, ⟨state.gap record.id.generation reason, ?_⟩, fun s hs => (markGap_mark ..).trans (if_neg hs)⟩
      show (e.sources.modify record.source.id _)[record.source.id]? = _
      rw [ExtTreeMap.getElem?_modify_ite, if_pos rfl, h]
      rfl
  obtain ⟨e', he', ⟨state', hstate⟩, hother⟩ := hgap
  rw [he']
  show ((e'.sources.modify record.source.id (·.advance record now))[s]?).map SourceState.mark = _
  rw [ExtTreeMap.getElem?_modify_ite]
  split_ifs with hs
  · subst hs
    rw [hstate]
    show some (state'.advance record now).mark = _
    unfold SourceState.advance SourceState.mark
    cases record.eqTime with
    | none => rfl
    | some t => dsimp only; split_ifs <;> rfl
  · exact hother s hs

/-- What `accept` can do: refuse a record that is mismatched, still in the window or covered, or take it and
move the mark of its source to it. -/
inductive AcceptSpec (e : CombatEngine) (record : CombatRecord) : CombatEngine × Bool → Prop
  | refused {e' : CombatEngine} (hs : SameIntake e e')
      (hwhy : record.id.source = record.source.id → record.id ∉ e.accepted → e.covered record.id = true) :
      AcceptSpec e record (e', false)
  | taken {e' : CombatEngine} (hid : record.id.source = record.source.id) (hw : record.id ∉ e.accepted)
      (hc : e.covered record.id = false) (hp : e'.policy = e.policy) (ho : e'.occurrences = e.occurrences)
      (hm : ∀ s, e'.mark s = if record.id.source = s then some (record.id.generation, some record.id.sequence)
        else e.mark s) : AcceptSpec e record (e', true)

theorem accept_spec (e : CombatEngine) (record : CombatRecord) (now : MonoTime) :
    AcceptSpec e record (e.accept record now) := by
  unfold CombatEngine.accept
  split_ifs with hid hw
  · exact .refused (.diagnose _ _) fun h => absurd h hid
  · exact .refused (.diagnose _ _) fun _ h => absurd hw h
  · have hid : record.id.source = record.source.id := not_not.mp hid
    dsimp only
    cases hst : (e.ensureRegistered record now).sources[record.source.id]? with
    | none =>
      have h : (e.ensureRegistered record now).mark record.source.id = _ := mark_ensureRegistered record.source.id
      unfold mark at h
      rw [hst, if_pos rfl] at h
      cases h
    | some state =>
      have hcov := covered_ensureRegistered hid hst
      have hrefuse (hk : covers state.mark record.id = true) (message : String) :
          AcceptSpec e record ((e.ensureRegistered record now).diagnose message, false) :=
        .refused ((sameIntake_ensureRegistered hid (hcov.trans hk)).trans (.diagnose _ _)) fun _ _ => hcov.trans hk
      dsimp only
      split_ifs with hgen hseq
      · exact hrefuse (by simp [covers, SourceState.mark, hgen]) _
      · refine hrefuse ?_ _
        unfold replayedSequence at hseq
        simp only [covers, SourceState.mark, hseq, Bool.or_true]
      · have hk : covers state.mark record.id = false := by
          unfold replayedSequence at hseq
          simp only [covers, SourceState.mark, Bool.or_eq_false_iff]
          exact ⟨decide_eq_false hgen, Bool.eq_false_iff.mpr hseq⟩
        have hpol : (e.ensureRegistered record now).policy = e.policy ∧
            (e.ensureRegistered record now).occurrences = e.occurrences := by
          unfold ensureRegistered
          split_ifs <;> exact ⟨rfl, rfl⟩
        refine .taken hid hw (hcov.trans hk) ?_ ?_ fun s => ?_
        · cases recordGap state record <;> exact hpol.1
        · cases recordGap state record <;> exact hpol.2
        · rw [mark_take hst, hid, mark_ensureRegistered]
          split_ifs <;> rfl

end
end CombatEngine

/-- The default policy with room for a single id. -/
def Sample.oneId : CombatPolicy := { CombatPolicy.mvpV1 with maxRecordIds := 1 }

end Stonemite.Combat
