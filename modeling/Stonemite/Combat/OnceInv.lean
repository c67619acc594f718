import Stonemite.Combat.Intake

/-!
# Records are reduced once

A record that was taken stays in the window of accepted ids for a while, and the mark of its source covers it. A gap or a
discontinuous registration sets the mark back; `History` follows which reduced records are forgotten that way, and a
record is reduced twice exactly when a forgotten one comes again after it left the window. `Moves` is what a call can do
to the mark of a source; `HistoryOk` is kept by `HistoryOk.step`, and `nodup_run` is the direction over runs.
-/

open Std

namespace Stonemite.Combat

/-- The record `id` is of the source of `id'` and not after it. -/
def SourceRecordId.upTo (id id' : SourceRecordId) : Bool :=
  id.source == id'.source && (decide (id.generation < id'.generation) ||
    id.generation == id'.generation && decide (id.sequence ≤ id'.sequence))

namespace CombatEngine

/-- The id of the record a call delivers, if it is taken. -/
def takenId (e : CombatEngine) : Call → Option SourceRecordId
  | .apply now (.record record) => if ((e.clock now).accept record now).2 then some record.id else none
  | _ => none

/-- The id of the record whose events a call reduces. -/
def reducedId (e : CombatEngine) : Call → Option SourceRecordId
  | .apply now (.record record) =>
    match (e.clock now).accept record now with
    | (_, false) => none
    | (e, true) => (e.datable record).2.map fun _ => record.id
  | _ => none

/-- The known source that a gap or a discontinuous registration restarts, and the generation of the
restart. -/
def setBack (e : CombatEngine) : Call → Option (LogSourceId × Nat)
  | .apply _ (.sourceGap source generation _) =>
    if e.sources.contains source then some (source, generation) else none
  | .apply _ (.sourceRegistered source generation) =>
    (e.sources[source.id]?).bind fun state =>
      if state.discontinuity source generation then some (source.id, generation) else none
  | _ => none

/-- The record has no second, or one the source has closed before. -/
def historical (e : CombatEngine) (record : CombatRecord) : Bool :=
  record.eqTime.all fun t => (e.sources[record.source.id]?).any fun state =>
    (max state.historyFloor state.closedThrough).any (t ≤ ·)

end CombatEngine

/-- A run with the ids it has reduced, and those of them whose source was set back to their generation or
before and has not passed them since. -/
structure History where
  engine : CombatEngine
  reduced : List SourceRecordId
  forgotten : List SourceRecordId

namespace History

def init (policy : CombatPolicy) : History := ⟨.init policy, [], []⟩

/-- The engine after a call, with what was reduced and forgotten. -/
def step (h : History) (call : Call) : History where
  engine := h.engine.step call
  reduced := h.reduced ++ (h.engine.reducedId call).toList
  forgotten :=
    match h.engine.setBack call with
    | some (source, generation) =>
      h.forgotten.filter (·.source ≠ source) ++
        h.reduced.filter fun id => id.source = source ∧ generation ≤ id.generation
    | none =>
      match h.engine.takenId call with
      | some taken => h.forgotten.filter fun id => id.upTo taken = false
      | none => h.forgotten

def run (policy : CombatPolicy) (calls : List Call) : History := calls.foldl step (init policy)

/-- A forgotten record is delivered only while it is in the window, or as history. -/
def Remembers (h : History) : Call → Prop
  | .apply _ (.record record) => record.id.source = record.source.id → record.id ∈ h.forgotten →
      record.id ∈ h.engine.accepted ∨ h.engine.historical record = true
  | _ => True

instance (h : History) : DecidablePred h.Remembers := fun call => by
  unfold Remembers
  split <;> infer_instance

end History

namespace CombatEngine
variable {e : CombatEngine} {call : Call} {id : SourceRecordId} {record : CombatRecord} {now : MonoTime}

/-! ### How the marks move -/

theorem covers_upTo {id id' : SourceRecordId} (h : id.source = id'.source) :
    covers (id'.generation, some id'.sequence) id = id.upTo id' := by
  unfold covers SourceRecordId.upTo
  rw [h]
  simp

theorem covers_restart {generation : Nat} : covers (generation, none) id = decide (id.generation < generation) := by
  unfold covers
  simp

theorem covered_of_mark {m : Mark} (h : e.mark id.source = some m) : e.covered id = covers m id := by
  unfold covered
  rw [h]
  rfl

/-- A call restarts a known source, or its record is taken, or every known source stays where it is. -/
inductive Moves (e : CombatEngine) (call : Call) (mark : LogSourceId → Option Mark) : Prop
  | restart {source : LogSourceId} {generation : Nat} (hb : e.setBack call = some (source, generation))
      (ht : e.takenId call = none) (hk : (e.mark source).isSome)
      (hm : ∀ s, mark s = if source = s then some (generation, none) else e.mark s)
  | taken {id : SourceRecordId} (hb : e.setBack call = none) (ht : e.takenId call = some id)
      (hc : e.covered id = false) (hw : id ∉ e.accepted)
      (hm : ∀ s, mark s = if id.source = s then some (id.generation, some id.sequence) else e.mark s)
  | quiet (hb : e.setBack call = none) (ht : e.takenId call = none)
      (hm : ∀ s m, e.mark s = some m → mark s = some m)

theorem handled_record_mark (e : CombatEngine) (record : CombatRecord) (now : MonoTime) (s : LogSourceId) :
    (e.handled (.apply now (.record record))).mark s = ((e.clock now).accept record now).1.mark s := by
  rw [← applyRecord_mark]
  show (((e.clock now).handle now (.record record)).1).mark s = _
  unfold CombatEngine.handle
  dsimp only
  generalize (e.clock now).applyRecord record now = applied
  obtain ⟨e', ok⟩ := applied
  cases ok <;> rfl

theorem moves_handled (e : CombatEngine) (call : Call) : Moves e call (e.handled call).mark := by
  cases call with
  | tick now => exact .quiet rfl rfl fun s m h => h
  | apply now input =>
    cases input with
    | sourceStableEof source generation =>
      refine .quiet rfl rfl fun s m h => ?_
      refine ((SameIntake.updSource (e.clock now) source fun state => ?_).mark s).trans h
      unfold SourceState.stableEof
      split_ifs
      · rfl
      · split
        · rfl
        · split_ifs <;> rfl
    | sourceRemoved source =>
      exact .quiet rfl rfl fun s m h =>
        ((SameIntake.updSource (e.clock now) source (f := fun state => { state with present := false })
          fun _ => rfl).mark s).trans h
    | sourceGap source generation reason =>
      have hm (s : LogSourceId) : (e.handled (.apply now (.sourceGap source generation reason))).mark s =
          if source = s then (e.mark s).map fun _ => (generation, none) else e.mark s :=
        markGap_mark (e := e.clock now) source generation reason s
      cases hs : e.sources[source]? with
      | none =>
        refine .quiet (if_neg ?_) rfl fun s m h => ?_
        · rw [ExtTreeMap.contains_eq_false_iff.mpr hs]
          exact Bool.false_ne_true
        · rw [hm, if_neg, h]
          rintro rfl
          unfold mark at h
          rw [hs] at h
          cases h
      | some state =>
        have hmark := mark_of_source hs
        refine .restart (if_pos (ExtTreeMap.contains_iff.mpr ⟨state, hs⟩)) rfl (by rw [hmark]; rfl) fun s => ?_
        rw [hm]
        split_ifs with h
        · subst h
          rw [hmark]
          rfl
        · rfl
    | sourceRegistered source generation =>
      have hm (s : LogSourceId) : ((e.clock now).registerSource source generation now).mark s = _ :=
        registerSource_mark source generation s
      cases hs : e.sources[source.id]? with
      | none =>
        have hb : e.setBack (.apply now (.sourceRegistered source generation)) = none := by
          show (e.sources[source.id]?).bind _ = none
          rw [hs]
          rfl
        refine .quiet hb rfl fun s m h => ?_
        refine (hm s).trans ?_
        rw [if_neg]
        · exact h
        · rintro rfl
          unfold mark at h
          rw [hs] at h
          cases h
      | some state =>
        have hs' : (e.clock now).sources[source.id]? = some state := hs
        have hb : e.setBack (.apply now (.sourceRegistered source generation)) =
            if state.discontinuity source generation then some (source.id, generation) else none := by
          show (e.sources[source.id]?).bind _ = _
          rw [hs]
          rfl
        cases hd : state.discontinuity source generation with
        | true =>
          rw [hd, if_pos rfl] at hb
          refine .restart hb rfl (by rw [mark_of_source hs]; rfl) fun s => (hm s).trans ?_
          rw [hs', Option.elim_some, if_pos hd]
          rfl
        | false =>
          rw [hd, if_neg Bool.false_ne_true] at hb
          refine .quiet hb rfl fun s m h => (hm s).trans ?_
          split_ifs with hid
          · subst hid
            rw [hs', Option.elim_some, if_neg (by rw [hd]; exact Bool.false_ne_true), ← h, mark_of_source hs]
          · exact h
    | record record =>
      have hmark := handled_record_mark e record now
      have hspec := accept_spec (e.clock now) record now
      have htaken : e.takenId (.apply now (.record record)) =
          if ((e.clock now).accept record now).2 then some record.id else none := rfl
      generalize (e.clock now).accept record now = accepted at hmark hspec htaken
      cases hspec with
      | refused hs => exact .quiet rfl htaken fun s m h => (hmark s).trans ((hs.mark s).trans h)
      | taken hid hw hc hp ho hm => exact .taken rfl htaken hc hw fun s => (hmark s).trans (hm s)

theorem moves_step (e : CombatEngine) (call : Call) : Moves e call (e.step call).mark := by
  have h : (e.step call).mark = (e.handled call).mark := funext (SameIntake.step e call).mark
  rw [h]
  exact moves_handled e call

/-! ### Taken and reduced records -/

theorem takenId_of_reducedId (h : e.reducedId call = some id) : e.takenId call = some id := by
  unfold reducedId at h
  unfold takenId
  split at h
  · next now record =>
    generalize (e.clock now).accept record now = accepted at h ⊢
    obtain ⟨e', ok⟩ := accepted
    cases ok with
    | false => cases h
    | true =>
      obtain ⟨t, -, rfl⟩ := Option.map_eq_some_iff.mp h
      rfl
  · cases h

theorem reducedId_of_reduction {r : Reduction} (h : r ∈ e.reductions call) :
    e.reducedId call = some r.record.id := by
  cases call with
  | tick now => exact absurd h List.not_mem_nil
  | apply now input =>
    cases input with
    | record record =>
      unfold reductions recordReductions at h
      unfold reducedId
      dsimp only at h ⊢
      generalize (e.clock now).accept record now = accepted at h ⊢
      obtain ⟨e', ok⟩ := accepted
      cases ok with
      | false => exact absurd h List.not_mem_nil
      | true =>
        dsimp only at h ⊢
        generalize e'.datable record = dated at h ⊢
        obtain ⟨e'', t⟩ := dated
        cases t with
        | none => exact absurd h List.not_mem_nil
        | some t => rw [(mem_reductionsFrom h).1]; rfl
    | sourceRegistered | sourceRemoved | sourceGap | sourceStableEof => exact absurd h List.not_mem_nil

/-- A gap raises the history floor of a known source to its closed second, and nothing else moves it. -/
theorem accept_floor {state : SourceState} (hs : e.sources[record.source.id]? = some state)
    (h : (e.accept record now).2 = true) :
    ((e.accept record now).1.sources[record.source.id]?).bind (·.historyFloor) =
      (recordGap state record).elim state.historyFloor fun _ => max state.historyFloor state.closedThrough := by
  have hadvance (state : SourceState) : (state.advance record now).historyFloor = state.historyFloor := by
    unfold SourceState.advance
    cases record.eqTime with
    | none => rfl
    | some t => dsimp only; split_ifs <;> rfl
  have hreg : e.ensureRegistered record now = e := by
    unfold ensureRegistered
    exact if_pos (ExtTreeMap.contains_iff.mpr ⟨state, hs⟩)
  unfold CombatEngine.accept at h ⊢
  rw [hreg] at h ⊢
  dsimp only at h ⊢
  rw [hs] at h ⊢
  dsimp only at h ⊢
  split_ifs at h ⊢
  cases recordGap state record with
  | none =>
    show ((e.sources.modify record.source.id _)[record.source.id]?).bind _ = _
    rw [ExtTreeMap.getElem?_modify_ite, if_pos rfl, hs]
    exact hadvance state
  | some reason =>
    show (((e.sources.modify record.source.id _).modify record.source.id _)[record.source.id]?).bind _ = _
    rw [ExtTreeMap.getElem?_modify_ite, if_pos rfl, ExtTreeMap.getElem?_modify_ite, if_pos rfl, hs]
    exact hadvance _

/-- A taken record of a known source is reduced unless it is history. -/
theorem reducedId_of_takenId {state : SourceState} (hs : e.sources[record.source.id]? = some state)
    (h : e.takenId (.apply now (.record record)) = some id) :
    e.reducedId (.apply now (.record record)) = if e.historical record then none else some id := by
  have hok : ((e.clock now).accept record now).2 = true ∧ id = record.id := by
    unfold takenId at h
    dsimp only at h
    split_ifs at h with hok
    exact ⟨hok, (Option.some.inj h).symm⟩
  obtain ⟨hok, rfl⟩ := hok
  have hfloor := accept_floor (e := e.clock now) hs hok
  unfold reducedId historical
  dsimp only
  rw [hs]
  generalize (e.clock now).accept record now = accepted at hok hfloor
  obtain ⟨e', ok⟩ := accepted
  obtain rfl : ok = true := hok
  dsimp only at hfloor ⊢
  unfold CombatEngine.datable
  cases ht : record.eqTime with
  | none => rfl
  | some t =>
    dsimp only
    rw [hfloor, Option.all_some, Option.any_some]
    -- without a gap the record is after the closed second
    have hsame : ((recordGap state record).elim state.historyFloor fun _ =>
        max state.historyFloor state.closedThrough).any (t ≤ ·) =
          (max state.historyFloor state.closedThrough).any (t ≤ ·) := by
      cases hg : recordGap state record with
      | some reason => rfl
      | none =>
        unfold recordGap at hg
        rw [ht] at hg
        dsimp only at hg
        split_ifs at hg with h1 h2
        have hclosed : state.closedThrough.any (t ≤ ·) = false := Bool.eq_false_iff.mpr h2
        rw [Option.elim_none]
        cases hf : state.historyFloor with
        | none =>
          cases hc : state.closedThrough with
          | none => rfl
          | some c => rw [hc] at hclosed; exact hclosed.symm
        | some f =>
          cases hc : state.closedThrough with
          | none => rfl
          | some c =>
            rw [hc] at hclosed
            have hlt : ¬ t ≤ c := of_decide_eq_false hclosed
            show decide (t ≤ f) = decide (t ≤ max f c)
            exact decide_eq_decide.mpr ⟨fun h => le_max_of_le_left h, fun h => (le_max_iff.mp h).resolve_right hlt⟩
    rw [hsame]
    split_ifs <;> rfl

end CombatEngine

/-! ### Runs -/

open CombatEngine

/-- Every reduced record is covered by the mark of its source, unless it is forgotten; the source of a
forgotten one is before it. -/
structure HistoryOk (h : History) : Prop where
  covered : ∀ id ∈ h.reduced, id ∉ h.forgotten → h.engine.covered id = true
  lost : ∀ id ∈ h.forgotten, id ∈ h.reduced ∧ ∃ m, h.engine.mark id.source = some m ∧ covers m id = false

namespace HistoryOk
variable {h : History} {call : Call}

theorem known (ok : HistoryOk h) {id : SourceRecordId} (hid : id ∈ h.reduced) :
    ∃ m, h.engine.mark id.source = some m := by
  by_cases hf : id ∈ h.forgotten
  · obtain ⟨-, m, hm, -⟩ := ok.lost id hf
    exact ⟨m, hm⟩
  · obtain ⟨m, hm, -⟩ := (Option.any_eq_true _ _).mp (ok.covered id hid hf)
    exact ⟨m, hm⟩

theorem upTo_of_covered {e : CombatEngine} {id taken : SourceRecordId} (hs : id.source = taken.source)
    (hid : e.covered id = true) (ht : e.covered taken = false) : id.upTo taken = true := by
  unfold CombatEngine.covered at hid ht
  rw [hs] at hid
  obtain ⟨⟨g, q⟩, hm, hid⟩ := (Option.any_eq_true _ _).mp hid
  rw [hm, Option.any_some] at ht
  unfold covers at hid ht
  unfold SourceRecordId.upTo
  rw [hs]
  simp only [Bool.or_eq_true, decide_eq_true_eq, Bool.and_eq_true, beq_iff_eq, Bool.or_eq_false_iff,
    decide_eq_false_iff_not, Bool.and_eq_false_iff, beq_eq_false_iff_ne, true_and] at hid ht ⊢
  obtain hid | ⟨hg, hq⟩ := hid
  · left
    omega
  · obtain ⟨q', rfl, hq'⟩ := (Option.any_eq_true _ _).mp hq
    have hq' : id.sequence ≤ q' := of_decide_eq_true hq'
    obtain hne | hlt := ht.2
    · left
      omega
    · have hlt : ¬ taken.sequence ≤ q' := of_decide_eq_false hlt
      by_cases hgt : id.generation = taken.generation
      · exact .inr ⟨hgt, by omega⟩
      · left
        omega

theorem step (ok : HistoryOk h) : HistoryOk (h.step call) := by
  have hred : ∀ id ∈ (h.step call).reduced, id ∈ h.reduced ∨ h.engine.takenId call = some id := by
    intro id hid
    rcases List.mem_append.mp hid with hid | hid
    · exact .inl hid
    · exact .inr (takenId_of_reducedId (Option.mem_toList.mp hid))
  have hkeep : ∀ id ∈ h.reduced, id ∈ (h.step call).reduced := fun id hid => List.mem_append_left _ hid
  cases moves_step h.engine call with
  | @restart source generation hb ht hk hm =>
    have hforgotten : (h.step call).forgotten = h.forgotten.filter (·.source ≠ source) ++
        h.reduced.filter fun id => id.source = source ∧ generation ≤ id.generation := by
      unfold History.step
      dsimp only
      rw [hb]
    refine ⟨fun id hid hnot => ?_, fun id hid => ?_⟩
    · have hid := (hred id hid).resolve_right (by rw [ht]; exact nofun)
      rw [hforgotten, List.mem_append, not_or, List.mem_filter, List.mem_filter] at hnot
      have hmark := hm id.source
      split_ifs at hmark with hs
      · subst hs
        have hlt : id.generation < generation := by
          by_contra hle
          exact hnot.2 ⟨hid, decide_eq_true ⟨rfl, by omega⟩⟩
        exact (covered_of_mark hmark).trans (covers_restart.trans (decide_eq_true hlt))
      · have hold := ok.covered id hid fun hf => hnot.1 ⟨hf, decide_eq_true (Ne.symm hs)⟩
        unfold CombatEngine.covered at hold ⊢
        rw [show (h.step call).engine.mark id.source = h.engine.mark id.source from hmark]
        exact hold
    · rw [hforgotten, List.mem_append, List.mem_filter, List.mem_filter] at hid
      obtain ⟨hid, hs⟩ | ⟨hid, hs⟩ := hid
      · obtain ⟨hr, m, hmm, hc⟩ := ok.lost id hid
        have hs : id.source ≠ source := of_decide_eq_true hs
        exact ⟨hkeep id hr, m, (hm id.source).trans ((if_neg (Ne.symm hs)).trans hmm), hc⟩
      · obtain ⟨hs, hle⟩ := of_decide_eq_true hs
        refine ⟨hkeep id hid, (generation, none), (hm id.source).trans (if_pos hs.symm), ?_⟩
        exact covers_restart.trans (decide_eq_false (by omega))
  | @taken taken hb ht hc hw hm =>
    have hforgotten : (h.step call).forgotten = h.forgotten.filter fun id => id.upTo taken = false := by
      unfold History.step
      dsimp only
      rw [hb, ht]
    refine ⟨fun id hid hnot => ?_, fun id hid => ?_⟩
    · have hmark := hm id.source
      rw [hforgotten, List.mem_filter] at hnot
      have hupTo : id.upTo taken = true → (h.step call).engine.covered id = true := by
        intro hu
        have hs : taken.source = id.source := by
          unfold SourceRecordId.upTo at hu
          simp only [Bool.and_eq_true, beq_iff_eq] at hu
          exact hu.1.symm
        rw [if_pos hs] at hmark
        exact (covered_of_mark hmark).trans ((covers_upTo hs.symm).trans hu)
      obtain hid | hid := hred id hid
      · by_cases hf : id ∈ h.forgotten
        · refine hupTo ?_
          by_contra hu
          exact hnot ⟨hf, decide_eq_true (Bool.eq_false_iff.mpr hu)⟩
        · have hold := ok.covered id hid hf
          by_cases hs : taken.source = id.source
          · exact hupTo (upTo_of_covered hs.symm hold hc)
          · rw [if_neg hs] at hmark
            unfold CombatEngine.covered at hold ⊢
            rw [show (h.step call).engine.mark id.source = h.engine.mark id.source from hmark]
            exact hold
      · rw [ht] at hid
        obtain rfl := Option.some.inj hid
        refine hupTo ?_
        unfold SourceRecordId.upTo
        simp
    · rw [hforgotten, List.mem_filter] at hid
      obtain ⟨hr, m, hmm, hcm⟩ := ok.lost id hid.1
      have hu : id.upTo taken = false := of_decide_eq_true hid.2
      have hmark := hm id.source
      split_ifs at hmark with hs
      · exact ⟨hkeep id hr, _, hmark, (covers_upTo hs.symm).trans hu⟩
      · exact ⟨hkeep id hr, m, hmark.trans hmm, hcm⟩
  | quiet hb ht hm =>
    have hforgotten : (h.step call).forgotten = h.forgotten := by
      unfold History.step
      dsimp only
      rw [hb, ht]
    refine ⟨fun id hid hnot => ?_, fun id hid => ?_⟩
    · have hid := (hred id hid).resolve_right (by rw [ht]; exact nofun)
      rw [hforgotten] at hnot
      obtain ⟨m, hmm, hc⟩ := (Option.any_eq_true _ _).mp (ok.covered id hid hnot)
      exact (covered_of_mark (hm id.source m hmm)).trans hc
    · rw [hforgotten] at hid
      obtain ⟨hr, m, hmm, hc⟩ := ok.lost id hid
      exact ⟨hkeep id hr, m, hm id.source m hmm, hc⟩

/-- A taken record that was reduced before is forgotten, out of the window, and reduced again unless it is
history. -/
theorem retaken (ok : HistoryOk h) {record : CombatRecord} {now : MonoTime} (hr : record.id ∈ h.reduced)
    (ht : h.engine.takenId (.apply now (.record record)) = some record.id) :
    record.id.source = record.source.id ∧ record.id ∈ h.forgotten ∧ record.id ∉ h.engine.accepted ∧
      (h.engine.reducedId (.apply now (.record record)) = none ↔ h.engine.historical record = true) := by
  have hspec := accept_spec (h.engine.clock now) record now
  have htaken : h.engine.takenId (.apply now (.record record)) =
      if ((h.engine.clock now).accept record now).2 then some record.id else none := rfl
  rw [htaken] at ht
  obtain ⟨m, hm⟩ := ok.known hr
  obtain ⟨state, hs, -⟩ := Option.map_eq_some_iff.mp hm
  have hred : ((h.engine.clock now).accept record now).2 = true → record.id.source = record.source.id →
      h.engine.reducedId (.apply now (.record record)) = if h.engine.historical record then none else some record.id :=
    fun hok hid => reducedId_of_takenId (hid ▸ hs) (by rw [htaken, if_pos hok])
  generalize (h.engine.clock now).accept record now = accepted at hspec ht hred
  cases hspec with
  | refused => cases ht
  | taken hid hw hc =>
    refine ⟨hid, ?_, hw, ?_⟩
    · by_contra hf
      have hcov : h.engine.covered record.id = false := hc
      rw [ok.covered _ hr hf] at hcov
      cases hcov
    · rw [hred rfl hid]
      split_ifs with hh
      · exact ⟨fun _ => hh, fun _ => rfl⟩
      · exact ⟨nofun, fun h => absurd h hh⟩

theorem nodup_step (ok : HistoryOk h) (hnd : h.reduced.Nodup) : (h.step call).reduced.Nodup ↔ h.Remembers call := by
  show (h.reduced ++ (h.engine.reducedId call).toList).Nodup ↔ _
  cases hred : h.engine.reducedId call with
  | none =>
    refine ⟨fun _ => ?_, fun _ => by simpa using hnd⟩
    unfold History.Remembers
    split
    · next now record =>
      -- a forgotten record outside the window is taken
      intro hid hf
      by_contra hout
      rw [not_or] at hout
      obtain ⟨hr, m, hm, hc⟩ := ok.lost _ hf
      have hspec := accept_spec (h.engine.clock now) record now
      have htaken : h.engine.takenId (.apply now (.record record)) =
          if ((h.engine.clock now).accept record now).2 then some record.id else none := rfl
      generalize (h.engine.clock now).accept record now = accepted at hspec htaken
      cases hspec with
      | refused hs hwhy =>
        have hcov : h.engine.covered record.id = true := hwhy hid hout.1
        rw [covered_of_mark hm, hc] at hcov
        cases hcov
      | taken => exact hout.2 ((ok.retaken hr htaken).2.2.2.mp hred)
    · trivial
  | some id =>
    have ht := takenId_of_reducedId hred
    rw [Option.toList_some, List.nodup_append]
    constructor
    · rintro ⟨-, -, hdisj⟩
      unfold History.Remembers
      split
      · next now record =>
        intro hid hf
        have hrid : id = record.id := by
          unfold takenId at ht
          dsimp only at ht
          split_ifs at ht
          exact (Option.some.inj ht).symm
        exact absurd hrid.symm (hdisj _ (ok.lost _ hf).1 id (List.mem_singleton_self _))
      · trivial
    · intro hrem
      refine ⟨hnd, List.nodup_singleton _, fun id' hid' b hb => ?_⟩
      rw [List.mem_singleton] at hb
      subst hb
      rintro rfl
      unfold History.Remembers at hrem
      split at hrem
      · next now record =>
        obtain rfl : id' = record.id := by
          unfold takenId at ht
          dsimp only at ht
          split_ifs at ht
          exact (Option.some.inj ht).symm
        obtain ⟨hid, hf, hw, hhist⟩ := ok.retaken hid' ht
        rw [hhist.mpr ((hrem hid hf).resolve_left hw)] at hred
        cases hred
      · next hno =>
        unfold takenId at ht
        split at ht
        · next now record => exact hno now record rfl
        · cases ht

theorem nodup_run (ok : HistoryOk h) (hnd : h.reduced.Nodup) (calls : List Call) :
    (calls.foldl History.step h).reduced.Nodup ↔ Along History.Remembers History.step h calls := by
  induction calls generalizing h with
  | nil => exact ⟨fun _ => trivial, fun _ => hnd⟩
  | cons call rest ih =>
    rw [List.foldl_cons, Along.cons_iff, ← ok.nodup_step hnd]
    -- the reduced ids of the first call are among those of the run
    have hgrow : (h.step call).reduced <+: (rest.foldl History.step (h.step call)).reduced :=
      foldl_invariant (I := fun h' : History => (h.step call).reduced <+: h'.reduced)
        (fun h' _ hp => hp.trans (List.prefix_append _ _)) rest (List.prefix_refl _)
    constructor
    · intro hrun
      have hstep := hrun.sublist hgrow.sublist
      exact ⟨hstep, (ih ok.step hstep).mp hrun⟩
    · rintro ⟨hstep, hrest⟩
      exact (ih ok.step hstep).mpr hrest

end HistoryOk

theorem History.run_engine (policy : CombatPolicy) (calls : List Call) :
    (History.run policy calls).engine = (CombatEngine.init policy).run calls := by
  induction calls using List.reverseRecOn with
  | nil => rfl
  | append_singleton calls call ih =>
    unfold History.run CombatEngine.run at *
    rw [List.foldl_append, List.foldl_append]
    show ((calls.foldl History.step (History.init policy)).engine).step call = _
    rw [ih]
    rfl

/-- A run reduces no record twice if and only if it delivers forgotten records only while they are in the
window, or as history; every fact it reduces is of the record its call reduces. -/
theorem records_reduced_once (policy : CombatPolicy) (calls : List Call) :
    ((History.run policy calls).reduced.Nodup ↔ Along History.Remembers History.step (.init policy) calls) ∧
      ∀ pre call post, calls = pre ++ call :: post → ∀ r ∈ (History.run policy pre).engine.reductions call,
        (History.run policy pre).engine.reducedId call = some r.record.id :=
  ⟨HistoryOk.nodup_run ⟨fun _ h => absurd h List.not_mem_nil, fun _ h => absurd h List.not_mem_nil⟩
    List.nodup_nil calls, fun _ _ _ _ _ hr => reducedId_of_reduction hr⟩

/-- With a window of one id, a gap within generation zero makes the first record of `A` reduce twice. -/
def gapCalls : List Call :=
  let first := Sample.line 'A' 0 500 0 (Sample.hit Sample.you "r" 10)
  Sample.register ['A'] ++ [first, Sample.line 'A' 1 500 10 (Sample.hit Sample.you "r" 5),
    .apply 20 (.sourceGap (Sample.log 'A').id 0 .oversizedRecord), first]

theorem record_reduced_twice :
    Sample.oneId.valid = true ∧ ¬ (History.run Sample.oneId gapCalls).reduced.Nodup ∧
      (((CombatEngine.init Sample.oneId).run gapCalls).ledger.filter
        fun fact => fact.record = ⟨(Sample.log 'A').id, 0, 0⟩).length = 2 := by
  decide +kernel

end Stonemite.Combat
