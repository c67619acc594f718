import Stonemite.Combat.Kept

/-!
# The bounds of the reducer

The policy bounds five tables: the encounters by refusal, the diagnostics and the accepted ids by
eviction, the occurrences by a reset and the ledger by withdrawing everything. `Bounded` is the
invariant; `Steady` is what every step does that writes none of the last three.
-/

open Std

namespace Stonemite.Combat
namespace CombatEngine

/-- Under the accepted policy no table exceeds its bound, and the accepted ids and their eviction order
hold the same elements. -/
structure Bounded (policy : CombatPolicy) (e : CombatEngine) : Prop where
  valid : policy.valid = true
  under : e.policy = policy
  encounters : e.encounters.size ≤ policy.maxEncounters
  diagnostics : e.diagnostics.length ≤ policy.maxDiagnostics
  accepted : e.accepted = e.acceptedOrder.toFinset
  distinct : e.acceptedOrder.Nodup
  order : e.acceptedOrder.length ≤ policy.maxRecordIds
  occurrences : e.occurrences.keys.length ≤ policy.maxRecordIds
  ledger : e.ledger.length ≤ policy.maxLedgerFacts

/-- The step leaves the ids, the occurrences and the ledger alone, and encounters and diagnostics in
their bounds. -/
structure Steady (e e' : CombatEngine) : Prop where
  policy : e'.policy = e.policy
  accepted : e'.accepted = e.accepted
  order : e'.acceptedOrder = e.acceptedOrder
  occurrences : e'.occurrences = e.occurrences
  ledger : e'.ledger.length ≤ e.ledger.length
  diagnostics : 0 < e.policy.maxDiagnostics → e.diagnostics.length ≤ e.policy.maxDiagnostics →
    e'.diagnostics.length ≤ e.policy.maxDiagnostics
  encounters : e.encounters.size ≤ e.policy.maxEncounters → e'.encounters.size ≤ e.policy.maxEncounters

namespace Steady
variable {e e' e'' : CombatEngine}

theorem of_encounters {m : ExtTreeMap EncounterId EncounterState} (hp : e'.policy = e.policy)
    (ha : e'.accepted = e.accepted) (ho : e'.acceptedOrder = e.acceptedOrder)
    (hc : e'.occurrences = e.occurrences) (hl : e'.ledger = e.ledger) (hd : e'.diagnostics = e.diagnostics)
    (he : e'.encounters = m) (hm : m.size ≤ e.encounters.size) : Steady e e' where
  policy := hp
  accepted := ha
  order := ho
  occurrences := hc
  ledger := by rw [hl]
  diagnostics _ h := by rw [hd]; exact h
  encounters h := by rw [he]; exact hm.trans h

theorem refl (e : CombatEngine) : Steady e e := of_encounters rfl rfl rfl rfl rfl rfl rfl le_rfl

theorem trans (h : Steady e e') (h' : Steady e' e'') : Steady e e'' where
  policy := h'.policy.trans h.policy
  accepted := h'.accepted.trans h.accepted
  order := h'.order.trans h.order
  occurrences := h'.occurrences.trans h.occurrences
  ledger := h'.ledger.trans h.ledger
  diagnostics hpos hd := by
    have := h'.diagnostics
    rw [h.policy] at this
    exact this hpos (h.diagnostics hpos hd)
  encounters he := by
    have := h'.encounters
    rw [h.policy] at this
    exact this (h.encounters he)

theorem diagnose (e : CombatEngine) (message : String) : Steady e (e.diagnose message) where
  policy := rfl
  accepted := rfl
  order := rfl
  occurrences := rfl
  ledger := le_rfl
  diagnostics hpos hd := by
    show ((if e.policy.maxDiagnostics ≤ e.diagnostics.length then e.diagnostics.tail else e.diagnostics) ++
      [message]).length ≤ _
    rw [List.length_append, List.length_singleton]
    split_ifs with h
    · rw [List.length_tail]
      omega
    · omega
  encounters h := h

theorem updEncounter (e : CombatEngine) (id : EncounterId) (f : EncounterState → EncounterState) :
    Steady e (e.updEncounter id f) :=
  of_encounters rfl rfl rfl rfl rfl rfl rfl (ExtTreeMap.size_modify).le

theorem updSource (e : CombatEngine) (id : LogSourceId) (f : SourceState → SourceState) :
    Steady e (e.updSource id f) :=
  of_encounters rfl rfl rfl rfl rfl rfl rfl le_rfl

theorem clock (e : CombatEngine) (now : MonoTime) : Steady e (e.clock now) :=
  of_encounters rfl rfl rfl rfl rfl rfl rfl le_rfl

theorem verify (e : CombatEngine) (p : ParticipantId) :
    Steady e { e with verifiedPlayers := insert p e.verifiedPlayers } :=
  of_encounters rfl rfl rfl rfl rfl rfl rfl le_rfl

theorem addOwnership (e : CombatEngine) (source : LogSource) (pet : Str) (owner : ObservedCombatant)
    (eqTime : EqSecond) : Steady e (e.addOwnership source pet owner eqTime) :=
  of_encounters rfl rfl rfl rfl rfl rfl rfl le_rfl

theorem registerSource (e : CombatEngine) (source : LogSource) (generation : Nat) (now : MonoTime) :
    Steady e (e.registerSource source generation now) :=
  of_encounters rfl rfl rfl rfl rfl rfl rfl (ExtTreeMap.size_map).le

theorem markPartial (e : CombatEngine) (source : LogSourceId) : Steady e (e.markPartial source) :=
  of_encounters rfl rfl rfl rfl rfl rfl rfl (ExtTreeMap.size_map).le

theorem markGap (e : CombatEngine) (source : LogSourceId) (generation : Nat) (reason : GapReason) :
    Steady e (e.markGap source generation reason) :=
  ((updSource e _ _).trans (markPartial _ _)).trans (diagnose _ _)

theorem removeSource (e : CombatEngine) (source : LogSourceId) : Steady e (e.removeSource source) :=
  (updSource e _ _).trans (markPartial _ _)

/-! ### Routing -/

theorem absorb {chosenId otherId : EncounterId} {chosen : EncounterState} (other : EncounterState)
    (hne : chosenId ≠ otherId) (hc : e.encounters[chosenId]? = some chosen) :
    Steady e (e.absorb chosenId otherId chosen other) := by
  refine of_encounters rfl rfl rfl rfl rfl rfl rfl ?_
  have hmem : chosenId ∈ e.encounters.erase otherId := by
    rw [← ExtTreeMap.isSome_getElem?_iff_mem, ExtTreeMap.getElem?_erase_ite, if_neg hne.symm, hc]
    rfl
  show ((e.encounters.erase otherId).insert chosenId (chosen.absorb other)).size ≤ e.encounters.size
  rw [ExtTreeMap.size_insert, if_pos (ExtTreeMap.contains_iff_mem.mpr hmem)]
  exact ExtTreeMap.size_erase_le

theorem route {fact : LedgerFact} {v : DamageView} {id : Option EncounterId} (h : RouteSpec e fact v e' id) :
    Steady e e' :=
  h.keeps (J := Steady e) (fun hne hc _ => absorb _ hne hc) (refl e)

theorem place {fact : LedgerFact} {v : DamageView} {id : Option EncounterId} (h : PlaceSpec e fact v e' id) :
    Steady e e' := by
  have unplaced {e'} (hu : Unplaced e fact v e') : Steady e e' := by
    obtain ⟨id, hr⟩ := hu.route
    exact route (route_spec hr)
  cases h with
  | excluded hr => exact route (route_spec hr)
  | resumed hr hc => exact (route (route_spec hr)).trans (updEncounter _ _ _)
  | kept hr => exact route (route_spec hr)
  | late hu hl message => exact (unplaced hu).trans (diagnose _ _)
  | unqualified hu => exact unplaced hu
  | taken ho => exact unplaced ho.unplaced
  | full ho hn hb message => exact (unplaced ho.unplaced).trans (diagnose _ _)
  | opened ho hn hb =>
    have hs := unplaced ho.unplaced
    refine { hs with encounters := fun _ => ?_ }
    rw [hs.policy] at hb
    exact ExtTreeMap.size_insert_le.trans hb

theorem listDamage (e : CombatEngine) (index : Nat) (fact : LedgerFact) (v : DamageView) (id : EncounterId) :
    Steady e (e.listDamage index fact v id) := by
  rw [listDamage_eq]
  exact of_encounters rfl rfl rfl rfl rfl rfl rfl (ExtTreeMap.size_modify).le

theorem promoteFact (e : CombatEngine) (id : EncounterId) (index : Nat) : Steady e (e.promoteFact id index) := by
  unfold CombatEngine.promoteFact
  cases e.ledger[index]? with
  | none => exact refl e
  | some fact => exact of_encounters rfl rfl rfl rfl rfl rfl rfl (ExtTreeMap.size_modify).le

theorem damage {index : Nat} {fact : LedgerFact} {v : DamageView} (h : DamageSpec e index fact v e') :
    Steady e e' := by
  cases h with
  | dropped hp => exact place hp
  | ignored hp => exact place hp
  | listed hp => exact (place hp).trans (listDamage _ _ _ _ _)
  | promoted hp =>
    refine promotePriorFacts_keeps (fun _ h => h.trans (promoteFact _ _ _)) ?_
    exact (place hp).trans (listDamage _ _ _ _ _)

/-- A reduction adds one fact to the ledger if its event is one. -/
theorem reduction (r : Reduction) :
    ∃ ledger : List LedgerFact, ledger.length = r.engine.ledger.length + (if r.event.isFact then 1 else 0) ∧
      Steady { r.engine with ledger } r.result := by
  have pushed (event : FactEvent) : (r.pushed event).ledger.length = r.engine.ledger.length + 1 :=
    List.length_append
  cases hf : r.event with
  | whoResult character => exact ⟨_, rfl, by unfold Reduction.result; rw [hf]; exact verify _ _⟩
  | ownershipClaimed pet owner =>
    exact ⟨_, rfl, by unfold Reduction.result; rw [hf]; exact addOwnership _ _ _ _ _⟩
  | other => exact ⟨_, rfl, by unfold Reduction.result; rw [hf]; exact refl _⟩
  | combat event =>
    cases event with
    | petOwnership ownership =>
      exact ⟨_, rfl, by unfold Reduction.result; rw [hf]; exact addOwnership _ _ _ _ _⟩
    | playerEvidence player => exact ⟨_, rfl, by unfold Reduction.result; rw [hf]; exact verify _ _⟩
    | zoneChanged zone => exact ⟨_, rfl, by unfold Reduction.result; rw [hf]; exact updSource _ _ _⟩
    | weaponDamageDealt | damageTaken | attackBlocked =>
      exact ⟨_, rfl, by unfold Reduction.result; rw [hf]; exact refl _⟩
    | damage damage => exact ⟨_, pushed (.damage damage), Steady.damage (Reduction.damage_spec hf)⟩
    | attempt attempt =>
      refine ⟨_, pushed (.attempt attempt), ?_⟩
      obtain hd | ⟨id, encounter, hd⟩ := Reduction.attempt_spec hf
      · rw [hd]
        exact refl _
      · rw [hd.result]
        exact of_encounters rfl rfl rfl rfl rfl rfl rfl (ExtTreeMap.size_modify).le
    | targetSlain slain =>
      refine ⟨_, pushed (.slain slain), ?_⟩
      obtain hd | ⟨id, encounter, targetId, hd⟩ := Reduction.slain_spec hf
      · rw [hd]
        exact refl _
      · rw [hd.result]
        exact of_encounters rfl rfl rfl rfl rfl rfl rfl (ExtTreeMap.size_modify).le

/-! ### Time and publication -/

theorem size_foldl_erase (l : List EncounterId) (m : ExtTreeMap EncounterId EncounterState) :
    (l.foldl (fun map id => map.erase id) m).size ≤ m.size :=
  foldl_invariant (I := fun map : ExtTreeMap EncounterId EncounterState => map.size ≤ m.size) (fun _ _ h => ExtTreeMap.size_erase_le.trans h) l le_rfl

theorem expireHeld (e : CombatEngine) (now : MonoTime) : Steady e (e.expireHeld now) := by
  have hsize := size_foldl_erase (e.expired now) e.encounters
  unfold CombatEngine.expireHeld
  dsimp only
  split_ifs
  · exact ⟨rfl, rfl, rfl, rfl, Nat.zero_le _, fun _ h => h, fun h => hsize.trans h⟩
  · exact of_encounters rfl rfl rfl rfl rfl rfl rfl hsize

theorem finalizeDue (e : CombatEngine) (now : MonoTime) (due : EndingDue) : Steady e (e.finalizeDue now due) := by
  rw [finalizeDue_eq]
  exact of_encounters rfl rfl rfl rfl rfl rfl rfl (ExtTreeMap.size_modify).le

theorem ended (e : CombatEngine) (call : Call) : Steady (e.handled call) (e.ended call) := by
  have hclosed : Steady (e.handled call) ((e.handled call).closeStableSources (e.handled call).now) :=
    of_encounters rfl rfl rfl rfl rfl rfl rfl le_rfl
  exact foldl_invariant (I := Steady (e.handled call)) (fun _ _ h => h.trans (updEncounter _ _ _)) _ hclosed

theorem settled (e : CombatEngine) (call : Call) : Steady (e.handled call) (e.settled call) := by
  have hfinal : Steady (e.handled call) ((e.ended call).finalizeEnding (e.handled call).now) :=
    foldl_invariant (I := Steady (e.handled call)) (fun _ _ h => h.trans (finalizeDue _ _ _)) _ (ended e call)
  exact hfinal.trans (expireHeld _ _)

theorem rebuildBook (e : CombatEngine) : Steady e e.rebuildBook.1 := by
  unfold CombatEngine.rebuildBook
  dsimp only
  split_ifs
  · exact of_encounters rfl rfl rfl rfl rfl rfl rfl (ExtTreeMap.size_map).le
  · exact of_encounters rfl rfl rfl rfl rfl rfl rfl (ExtTreeMap.size_map).le

end Steady

namespace Bounded
variable {policy : CombatPolicy} {e e' : CombatEngine}

theorem positive (h : Bounded policy e) : 0 < policy.maxDiagnostics ∧ 0 < policy.maxRecordIds := by
  have hp := h.valid
  unfold CombatPolicy.valid at hp
  simp only [Bool.not_eq_true', Bool.or_eq_false_iff, beq_eq_false_iff_ne] at hp
  omega

theorem steady (h : Bounded policy e) (hs : Steady e e') : Bounded policy e' := by
  obtain ⟨hvalid, rfl, hencounters, hdiagnostics, haccepted, hdistinct, horder, hoccurrences, hledger⟩ := h
  have hpos := (positive ⟨hvalid, rfl, hencounters, hdiagnostics, haccepted, hdistinct, horder, hoccurrences, hledger⟩).1
  constructor
  case valid => exact hvalid
  case under => exact hs.policy
  case encounters => exact hs.encounters hencounters
  case diagnostics => exact hs.diagnostics hpos hdiagnostics
  case accepted => rw [hs.accepted, hs.order]; exact haccepted
  case distinct => rw [hs.order]; exact hdistinct
  case order => rw [hs.order]; exact horder
  case occurrences => rw [hs.occurrences]; exact hoccurrences
  case ledger => exact hs.ledger.trans hledger

theorem foldl_erase_take (order : List SourceRecordId) (h : order.Nodup) (n : Nat) :
    (order.take n).foldl (fun set expired => set.erase expired) order.toFinset = (order.drop n).toFinset := by
  induction order generalizing n with
  | nil => simp
  | cons id order ih =>
    cases n with
    | zero => simp
    | succ n =>
      obtain ⟨hid, horder⟩ := List.nodup_cons.mp h
      have herase : (id :: order).toFinset.erase id = order.toFinset := by
        rw [List.toFinset_cons, Finset.erase_insert (by simpa using hid)]
      rw [List.take_succ_cons, List.foldl_cons, herase, List.drop_succ_cons]
      exact ih horder n

/-- A new id joins the order, and the oldest ones leave both the order and the set. -/
theorem remember (h : Bounded policy e) {id : SourceRecordId} (hid : id ∉ e.accepted) :
    Bounded policy (e.remember id) := by
  have hmem : id ∉ e.acceptedOrder := by
    rw [h.accepted, List.mem_toFinset] at hid
    exact hid
  have hnodup : (e.acceptedOrder ++ [id]).Nodup := by
    rw [← List.concat_eq_append]
    exact h.distinct.concat hmem
  have hset : insert id e.accepted = (e.acceptedOrder ++ [id]).toFinset := by
    rw [h.accepted, List.toFinset_append, Finset.union_comm]
    rfl
  refine { h with accepted := ?_, distinct := hnodup.sublist (List.drop_sublist _ _), order := ?_ }
  · show List.foldl _ (insert id e.accepted) _ = _
    rw [hset]
    exact foldl_erase_take _ hnodup _
  · show ((e.acceptedOrder ++ [id]).drop ((e.acceptedOrder ++ [id]).length - e.policy.maxRecordIds)).length ≤ _
    rw [List.length_drop, h.under]
    omega

theorem accept (h : Bounded policy e) (record : CombatRecord) (now : MonoTime) :
    Bounded policy (e.accept record now).1 := by
  unfold CombatEngine.accept
  split_ifs with hsource hid
  · exact h.steady (.diagnose _ _)
  · exact h.steady (.diagnose _ _)
  · have hr : Steady e (e.ensureRegistered record now) := by
      unfold CombatEngine.ensureRegistered
      split_ifs
      exacts [.refl e, .registerSource _ _ _ _]
    dsimp only
    cases (e.ensureRegistered record now).sources[record.source.id]? with
    | none => exact h.steady hr
    | some state =>
      dsimp only
      split_ifs
      · exact h.steady (hr.trans (.diagnose _ _))
      · exact h.steady (hr.trans (.diagnose _ _))
      · have hgap : Steady e ((recordGap state record).elim (e.ensureRegistered record now) fun reason =>
            (e.ensureRegistered record now).markGap record.source.id record.id.generation reason) := by
          cases recordGap state record with
          | none => exact hr
          | some reason => exact hr.trans (.markGap _ _ _ _)
        refine steady (remember (h.steady hgap) ?_) (.updSource _ _ _)
        rw [hgap.accepted]
        exact hid

theorem datable (h : Bounded policy e) (record : CombatRecord) : Bounded policy (e.datable record).1 := by
  unfold CombatEngine.datable
  cases record.eqTime with
  | none => dsimp only; split_ifs; exacts [h.steady (.diagnose _ _), h]
  | some t => dsimp only; split_ifs; exacts [h.steady (.diagnose _ _), h]

theorem reserve (h : Bounded policy e) {record : CombatRecord}
    (hfacts : record.events.countP LogEvent.isFact ≤ policy.maxLedgerFacts) :
    Bounded policy (e.reserve record) ∧
      (e.reserve record).ledger.length + record.events.countP LogEvent.isFact ≤ policy.maxLedgerFacts := by
  unfold CombatEngine.reserve
  rw [h.under]
  split_ifs with hfull
  · refine ⟨h.steady ⟨rfl, rfl, rfl, rfl, Nat.zero_le _, (Steady.diagnose e _).diagnostics, fun _ => ?_⟩, ?_⟩
    · show (∅ : ExtTreeMap EncounterId EncounterState).size ≤ _
      rw [ExtTreeMap.size_empty]
      exact Nat.zero_le _
    · show 0 + _ ≤ _
      omega
  · exact ⟨h, by omega⟩

theorem noteOccurrence (h : Bounded policy e) (key : Occurrence) : Bounded policy (e.noteOccurrence key).1 := by
  refine { h with occurrences := ?_ }
  have hpos := h.positive.2
  have hbound := h.occurrences
  show ((if e.policy.maxRecordIds ≤ e.occurrences.keys.length ∧ key ∉ e.occurrences then ∅ else e.occurrences :
    AList fun _ : Occurrence => Nat).insert key _).keys.length ≤ policy.maxRecordIds
  rw [AList.keys_insert, List.length_cons, h.under]
  split_ifs with hfull
  · rw [AList.keys_empty, List.erase_nil, List.length_nil]
    exact hpos
  · by_cases hkey : key ∈ e.occurrences
    · have hmem : key ∈ e.occurrences.keys := AList.mem_keys.mp hkey
      have := List.length_pos_of_mem hmem
      rw [List.length_erase_of_mem hmem]
      omega
    · rw [List.erase_of_not_mem fun hm => hkey (AList.mem_keys.mpr hm)]
      by_contra hlt
      exact hfull ⟨by omega, hkey⟩

/-- A reduction keeps the bounds if its fact still fits into the ledger. -/
theorem reduction (r : Reduction) (h : Bounded policy r.engine)
    (hfits : r.engine.ledger.length + (if r.event.isFact then 1 else 0) ≤ policy.maxLedgerFacts) :
    Bounded policy r.result ∧
      r.result.ledger.length ≤ r.engine.ledger.length + (if r.event.isFact then 1 else 0) := by
  obtain ⟨ledger, hlen, hs⟩ := Steady.reduction r
  have hbounded : Bounded policy { r.engine with ledger } := { h with ledger := by rw [hlen]; exact hfits }
  exact ⟨hbounded.steady hs, hlen ▸ hs.ledger⟩

theorem processEvent (h : Bounded policy e) (record : CombatRecord) (eqTime : EqSecond) (now : MonoTime)
    (event : LogEvent) (hfits : e.ledger.length + (if event.isFact then 1 else 0) ≤ policy.maxLedgerFacts) :
    Bounded policy (e.processEvent record eqTime now event) ∧
      (e.processEvent record eqTime now event).ledger.length ≤
        e.ledger.length + (if event.isFact then 1 else 0) := by
  unfold CombatEngine.processEvent
  by_cases hf : event.isFact
  · rw [if_pos hf]
    have hnoted := h.noteOccurrence ⟨record.id.source, record.id.generation, eqTime, event⟩
    obtain ⟨e', replayed, hn⟩ : ∃ e' replayed,
        e.noteOccurrence ⟨record.id.source, record.id.generation, eqTime, event⟩ = (e', replayed) := ⟨_, _, rfl⟩
    have hledger : e'.ledger = e.ledger := (congrArg (·.1.ledger) hn).symm
    rw [hn] at hnoted ⊢
    cases replayed with
    | true => exact ⟨hnoted, by rw [hledger]; exact Nat.le_add_right _ _⟩
    | false =>
      have hr := reduction ⟨e', record, eqTime, now, event⟩ hnoted (by rw [hledger]; exact hfits)
      rw [hledger] at hr
      exact hr
  · rw [if_neg hf]
    exact reduction ⟨e, record, eqTime, now, event⟩ h hfits

/-- The event loop keeps the bounds while the facts that are left fit into the ledger. -/
theorem events (h : Bounded policy e) (record : CombatRecord) (eqTime : EqSecond) (now : MonoTime)
    (events : List LogEvent) (hfits : e.ledger.length + events.countP LogEvent.isFact ≤ policy.maxLedgerFacts) :
    Bounded policy (events.foldl (fun e event => e.processEvent record eqTime now event) e) := by
  induction events generalizing e with
  | nil => exact h
  | cons event events ih =>
    rw [List.countP_cons] at hfits
    obtain ⟨hb, hl⟩ := h.processEvent record eqTime now event (by omega)
    rw [List.foldl_cons]
    exact ih hb (by omega)

theorem applyRecord (h : Bounded policy e) (record : CombatRecord) (now : MonoTime)
    (hfacts : record.events.countP LogEvent.isFact ≤ policy.maxLedgerFacts) :
    Bounded policy (e.applyRecord record now).1 := by
  have haccept := h.accept record now
  unfold CombatEngine.applyRecord
  obtain ⟨e₁, accepted, h₁⟩ : ∃ e₁ accepted, e.accept record now = (e₁, accepted) := ⟨_, _, rfl⟩
  rw [h₁] at haccept ⊢
  cases accepted with
  | false => exact haccept
  | true =>
    have hdatable := haccept.datable record
    obtain ⟨e₂, eqTime, h₂⟩ : ∃ e₂ eqTime, e₁.datable record = (e₂, eqTime) := ⟨_, _, rfl⟩
    dsimp only at haccept hdatable ⊢
    rw [h₂] at hdatable ⊢
    cases eqTime with
    | none => exact hdatable
    | some eqTime =>
      obtain ⟨hreserved, hfits⟩ := hdatable.reserve hfacts
      exact hreserved.events record eqTime now record.events hfits

/-- A call keeps the bounds if its record has no more facts than the ledger holds. -/
theorem step (h : Bounded policy e) (call : Call)
    (hfacts : ∀ now record, call = .apply now (.record record) →
      record.events.countP LogEvent.isFact ≤ policy.maxLedgerFacts) : Bounded policy (e.step call) := by
  have hhandled : Bounded policy (e.handled call) := by
    cases call with
    | tick now => exact h.steady (.clock _ now)
    | apply now input =>
      have hc := h.steady (.clock _ now)
      unfold handled
      cases input with
      | sourceRegistered source generation => exact hc.steady (.registerSource _ _ _ _)
      | sourceRemoved source => exact hc.steady (.removeSource _ _)
      | sourceGap source generation reason => exact hc.steady (.markGap _ _ _ _)
      | sourceStableEof source generation => exact hc.steady (.updSource _ _ _)
      | record record =>
        have hr := hc.applyRecord record now (hfacts now record rfl)
        obtain ⟨e', accepted, ha⟩ : ∃ e' accepted, (e.clock now).applyRecord record now = (e', accepted) :=
          ⟨_, _, rfl⟩
        unfold handle
        dsimp only
        rw [ha] at hr ⊢
        cases accepted <;> exact hr
  rw [step_eq]
  exact (hhandled.steady (.settled e call)).steady (.rebuildBook _)

end Bounded

/-- Under every accepted policy, and as long as no record carries more facts than the ledger holds, every
reachable state keeps its tables in their bounds. -/
theorem tables_bounded {policy : CombatPolicy} {start : CombatEngine} (hnew : new policy = some start)
    (calls : List Call) (hfacts : ∀ now record, Call.apply now (.record record) ∈ calls →
      record.events.countP LogEvent.isFact ≤ policy.maxLedgerFacts) :
    let e := start.run calls
    e.encounters.size ≤ policy.maxEncounters ∧ e.diagnostics.length ≤ policy.maxDiagnostics ∧
      (∀ id, id ∈ e.accepted ↔ id ∈ e.acceptedOrder) ∧ e.accepted.card ≤ policy.maxRecordIds ∧
      e.acceptedOrder.length ≤ policy.maxRecordIds ∧ e.occurrences.keys.length ≤ policy.maxRecordIds ∧
      e.ledger.length ≤ policy.maxLedgerFacts := by
  unfold new at hnew
  split_ifs at hnew with hvalid
  obtain rfl := Option.some.inj hnew
  have hinit : Bounded policy (init policy) := by
    constructor <;> simp [init, hvalid]
  have h : Bounded policy ((init policy).run calls) :=
    foldl_invariant_mem calls (fun e call hcall h =>
      h.step call fun now record hr => hfacts now record (hr ▸ hcall)) hinit
  refine ⟨h.encounters, h.diagnostics, fun id => ?_, ?_, h.order, h.occurrences, h.ledger⟩
  · rw [h.accepted, List.mem_toFinset]
  · rw [h.accepted]
    exact (List.toFinset_card_le _).trans h.order

/-! ### The ledger under any policy -/

/-- The ledger has room for what the policy allows, and keeps to it. -/
structure Within (room : Nat) (e : CombatEngine) : Prop where
  policy : e.policy.maxLedgerFacts ≤ room
  ledger : e.ledger.length ≤ room

namespace Within
variable {room : Nat} {e e' : CombatEngine} {record : CombatRecord} {eqTime : EqSecond} {now : MonoTime}

theorem steady (h : Within room e) (hs : Steady e e') : Within room e' :=
  ⟨hs.policy ▸ h.policy, hs.ledger.trans h.ledger⟩

theorem accept (h : Within room e) : Within room (e.accept record now).1 := by
  unfold CombatEngine.accept
  split_ifs with hsource hid
  · exact h.steady (.diagnose _ _)
  · exact h.steady (.diagnose _ _)
  · have hr : Within room (e.ensureRegistered record now) := by
      unfold CombatEngine.ensureRegistered
      split_ifs
      exacts [h, h.steady (.registerSource _ _ _ _)]
    dsimp only
    cases (e.ensureRegistered record now).sources[record.source.id]? with
    | none => exact hr
    | some state =>
      dsimp only
      split_ifs
      · exact hr.steady (.diagnose _ _)
      · exact hr.steady (.diagnose _ _)
      · cases recordGap state record with
        | none => exact ⟨hr.policy, hr.ledger⟩
        | some reason =>
          have hgap := hr.steady (.markGap _ record.source.id record.id.generation reason)
          exact ⟨hgap.policy, hgap.ledger⟩

theorem processEvent (h : e.policy.maxLedgerFacts ≤ room) (event : LogEvent) :
    (e.processEvent record eqTime now event).policy.maxLedgerFacts ≤ room ∧
      (e.processEvent record eqTime now event).ledger.length ≤ e.ledger.length + if event.isFact then 1 else 0 := by
  have hreduce (e' : CombatEngine) (hp : e'.policy = e.policy) (hl : e'.ledger = e.ledger) :
      (e'.reduceEvent record eqTime now event).policy.maxLedgerFacts ≤ room ∧
        (e'.reduceEvent record eqTime now event).ledger.length ≤ e.ledger.length + if event.isFact then 1 else 0 := by
    obtain ⟨ledger, hlen, hs⟩ := Steady.reduction ⟨e', record, eqTime, now, event⟩
    have hpolicy : (e'.reduceEvent record eqTime now event).policy = e'.policy := hs.policy
    have hledger : (e'.reduceEvent record eqTime now event).ledger.length ≤ ledger.length := hs.ledger
    rw [hpolicy, hp, ← hl, ← hlen]
    exact ⟨h, hledger⟩
  unfold CombatEngine.processEvent
  by_cases hf : event.isFact
  · have hn : (e.noteOccurrence ⟨record.id.source, record.id.generation, eqTime, event⟩).1.policy = e.policy ∧
        (e.noteOccurrence ⟨record.id.source, record.id.generation, eqTime, event⟩).1.ledger = e.ledger := ⟨rfl, rfl⟩
    rw [if_pos hf]
    generalize e.noteOccurrence ⟨record.id.source, record.id.generation, eqTime, event⟩ = noted at hn ⊢
    obtain ⟨e', replayed⟩ := noted
    cases replayed with
    | true => exact ⟨hn.1 ▸ h, by rw [hn.2]; exact Nat.le_add_right _ _⟩
    | false => exact hreduce e' hn.1 hn.2
  · rw [if_neg hf]
    exact hreduce e rfl rfl

theorem events (events : List LogEvent) (h : e.policy.maxLedgerFacts ≤ room)
    (hfits : e.ledger.length + events.countP LogEvent.isFact ≤ room) :
    Within room (events.foldl (fun e event => e.processEvent record eqTime now event) e) := by
  induction events generalizing e with
  | nil => exact ⟨h, hfits⟩
  | cons event events ih =>
    rw [List.countP_cons] at hfits
    obtain ⟨hpolicy, hledger⟩ := @processEvent room e record eqTime now h event
    rw [List.foldl_cons]
    exact ih hpolicy (by omega)

theorem applyRecord (h : Within room e) (hfacts : record.events.countP LogEvent.isFact ≤ room) :
    Within room (e.applyRecord record now).1 := by
  have haccept : Within room (e.accept record now).1 := h.accept
  unfold CombatEngine.applyRecord
  generalize e.accept record now = accepted at haccept ⊢
  obtain ⟨e₁, accepted⟩ := accepted
  cases accepted with
  | false => exact haccept
  | true =>
    have hdatable : Within room (e₁.datable record).1 := by
      unfold CombatEngine.datable
      cases record.eqTime with
      | none => dsimp only; split_ifs; exacts [haccept.steady (.diagnose _ _), haccept]
      | some t => dsimp only; split_ifs; exacts [haccept.steady (.diagnose _ _), haccept]
    dsimp only
    generalize e₁.datable record = dated at hdatable ⊢
    obtain ⟨e₂, second⟩ := dated
    cases second with
    | none => exact hdatable
    | some second =>
      have hpolicy := hdatable.policy
      refine events record.events ?_ ?_
      · unfold CombatEngine.reserve
        split_ifs <;> exact hpolicy
      · unfold CombatEngine.reserve
        split_ifs with hfull
        · exact (Nat.zero_add _).trans_le hfacts
        · exact (Nat.not_lt.mp hfull).trans hpolicy

/-- A call whose record has no more facts than there is room for keeps to the room. -/
theorem handled (h : Within room e) (call : Call) (hfacts : ∀ now record, call = .apply now (.record record) →
    record.events.countP LogEvent.isFact ≤ room) : Within room (e.handled call) := by
  cases call with
  | tick now => exact h.steady (.clock _ now)
  | apply now input =>
    have hc := h.steady (.clock _ now)
    unfold CombatEngine.handled
    cases input with
    | sourceRegistered source generation => exact hc.steady (.registerSource _ _ _ _)
    | sourceRemoved source => exact hc.steady (.removeSource _ _)
    | sourceGap source generation reason => exact hc.steady (.markGap _ _ _ _)
    | sourceStableEof source generation => exact hc.steady (.updSource _ _ _)
    | record record =>
      have hr : Within room ((e.clock now).applyRecord record now).1 := hc.applyRecord (hfacts now record rfl)
      unfold handle
      dsimp only
      generalize (e.clock now).applyRecord record now = applied at hr ⊢
      obtain ⟨e', accepted⟩ := applied
      cases accepted <;> exact hr

end Within

/-- Room for one of everything. -/
def narrow : CombatPolicy :=
  { CombatPolicy.mvpV1 with maxEncounters := 1, maxLedgerFacts := 1, maxRecordIds := 1, maxDiagnostics := 1 }

theorem tables_bounded_two_hits :
    let e := (init narrow).run [Sample.line 'A' 0 500 0 (Sample.hit Sample.you "r" 10),
      Sample.line 'A' 1 501 0 (Sample.hit Sample.you "s" 10)]
    e.encounters.size ≤ 1 ∧ e.diagnostics.length ≤ 1 ∧ (∀ id, id ∈ e.accepted ↔ id ∈ e.acceptedOrder) ∧
      e.accepted.card ≤ 1 ∧ e.acceptedOrder.length ≤ 1 ∧ e.occurrences.keys.length ≤ 1 ∧ e.ledger.length ≤ 1 := by
  have hnew : new narrow = some (init narrow) := if_pos (by decide)
  refine tables_bounded hnew _ fun now record h => ?_
  simp only [List.mem_cons, List.not_mem_nil, or_false, Sample.line, Call.apply.injEq, EngineInput.record.injEq] at h
  rcases h with ⟨-, rfl⟩ | ⟨-, rfl⟩ <;> decide

end CombatEngine
end Stonemite.Combat
