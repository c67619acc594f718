import Stonemite.Combat.Intake
import Stonemite.Lib.Replay

/-!
# Replayed events

The occurrence counters of the engine decide which facts of a record are reduced. While they are not cleared they count
the presented lines (`Counts`), and the accepted ones are those of `Replay.accepted`. `Counts` is kept by every call that
clears nothing, and `run_accepted` is the run; `replay_deduplicated` reads off which presentations are reduced.
-/

open Std

namespace Stonemite.Combat

/-- What a line says, in whatever generation of its source. -/
def Occurrence.line (o : Occurrence) : LogSourceId × EqSecond × LogEvent := (o.source, o.second, o.content)

theorem Occurrence.eq_of_line {a b : Occurrence} (h : a.line = b.line) (hg : a.generation = b.generation) : a = b := by
  obtain ⟨s, g, t, c⟩ := a
  obtain ⟨s', g', t', c'⟩ := b
  obtain ⟨rfl, rfl, rfl⟩ : s = s' ∧ t = t' ∧ c = c' := by simpa [Occurrence.line] using h
  obtain rfl : g = g' := hg
  rfl

/-- The line of a fact that is reduced. -/
def Reduction.line (r : Reduction) : Option Occurrence :=
  if r.event.isFact then some ⟨r.record.id.source, r.record.id.generation, r.eqTime, r.event⟩ else none

/-- The lines of the facts of a record. -/
def CombatRecord.lines (record : CombatRecord) (eqTime : EqSecond) : List Occurrence :=
  (record.events.filter LogEvent.isFact).map fun event => ⟨record.id.source, record.id.generation, eqTime, event⟩

namespace CombatEngine

/-- The lines a call presents to the replay check. -/
def presented (e : CombatEngine) : Call → List Occurrence
  | .apply now (.record record) =>
    match (e.clock now).accept record now with
    | (_, false) => []
    | (e, true) => (e.datable record).2.elim [] record.lines
  | _ => []

/-- The lines of the facts a call reduces. -/
def reducedLines (e : CombatEngine) (call : Call) : List Occurrence := (e.reductions call).filterMap Reduction.line

/-- What the calls of a run yield, one after the other. -/
def gather {α : Type} (f : CombatEngine → Call → List α) : CombatEngine → List Call → List α
  | _, [] => []
  | e, call :: calls => f e call ++ gather f (e.step call) calls

/-! ### The counters -/

/-- The counters hold how often each line was presented. -/
def Counts (occurrences : AList fun _ : Occurrence => Nat) (l : List Occurrence) : Prop :=
  ∀ o, occurrences.lookup o = if o ∈ l then some (l.count o) else none

namespace Counts
variable {occurrences : AList fun _ : Occurrence => Nat} {l : List Occurrence}

theorem mem_iff (h : Counts occurrences l) {o : Occurrence} : o ∈ occurrences ↔ o ∈ l := by
  rw [← AList.lookup_isSome, h o]
  split_ifs with ho
  · exact ⟨fun _ => ho, fun _ => rfl⟩
  · exact ⟨nofun, fun h => absurd h ho⟩

theorem length_keys (h : Counts occurrences l) : occurrences.keys.length = l.toFinset.card := by
  have hkeys : occurrences.keys.toFinset = l.toFinset := by
    ext o
    rw [List.mem_toFinset, List.mem_toFinset, ← AList.mem_keys]
    exact h.mem_iff
  rw [← hkeys, List.toFinset_card_of_nodup occurrences.keys_nodup]

theorem count_eq (h : Counts occurrences l) (o : Occurrence) : (occurrences.lookup o).getD 0 = l.count o := by
  rw [h o]
  split_ifs with ho
  · rfl
  · exact (List.count_eq_zero_of_not_mem ho).symm

theorem insert (h : Counts occurrences l) (o : Occurrence) :
    Counts (occurrences.insert o (l.count o + 1)) (l ++ [o]) := by
  intro o'
  by_cases ho : o' = o
  · subst ho
    rw [AList.lookup_insert, if_pos (List.mem_append_right _ (List.mem_singleton_self _)), List.count_append,
      List.count_singleton_self]
  · have hmem : o' ∈ l ++ [o] ↔ o' ∈ l := by simp [ho]
    have hcount : (l ++ [o]).count o' = l.count o' := by
      rw [List.count_append, List.count_eq_zero_of_not_mem (l := [o]), Nat.add_zero]
      rwa [List.mem_singleton]
    rw [AList.lookup_insert_ne ho, h o', hcount]
    simp only [hmem]

end Counts

theorem getD_max?_le_iff {l : List Nat} {n : Nat} : l.max?.getD 0 ≤ n ↔ ∀ m ∈ l, m ≤ n := by
  cases h : l.max? with
  | none =>
    rw [List.max?_eq_none_iff] at h
    subst h
    simp
  | some m => exact List.max?_le_iff h

/-- The engine compares with the greatest count of an earlier generation. -/
theorem priorMax_eq {occurrences : AList fun _ : Occurrence => Nat} {l : List Occurrence}
    (h : Counts occurrences l) (o : Occurrence) :
    priorMax occurrences o = Replay.priorMax Occurrence.generation Occurrence.line l o := by
  refine eq_of_forall_ge_iff fun n => ?_
  unfold priorMax
  rw [getD_max?_le_iff]
  unfold Replay.priorMax
  rw [Finset.sup_le_iff]
  constructor
  · intro hle b hb
    obtain ⟨hb, hline, hgen⟩ := Finset.mem_filter.mp hb
    have hb := List.mem_toFinset.mp hb
    refine hle _ (List.mem_map.mpr ⟨⟨b, l.count b⟩, List.mem_filter.mpr ⟨?_, ?_⟩, rfl⟩)
    · exact AList.mem_lookup_iff.mp (by rw [h b, if_pos hb]; rfl)
    · have hs : b.source = o.source ∧ b.second = o.second ∧ b.content = o.content := by
        simpa [Occurrence.line] using hline
      simp [hs.1, hs.2.1, hs.2.2, hgen]
  · intro hle m hm
    obtain ⟨⟨b, m'⟩, hb, rfl⟩ := List.mem_map.mp hm
    obtain ⟨hb, htest⟩ := List.mem_filter.mp hb
    have hlook := AList.mem_lookup_iff.mpr hb
    rw [h b] at hlook
    simp only [Bool.and_eq_true, beq_iff_eq, decide_eq_true_eq] at htest
    split_ifs at hlook with hbl
    · obtain rfl := Option.some.inj hlook
      refine hle b (Finset.mem_filter.mpr ⟨List.mem_toFinset.mpr hbl, ?_, htest.1.1.2⟩)
      unfold Occurrence.line
      rw [htest.1.1.1, htest.1.2, htest.2]
    · cases hlook

section
variable {e : CombatEngine} {pre : List Occurrence}

/-- Within the bound the check counts the line and says whether it is fresh. -/
theorem noteOccurrence_spec (h : Counts e.occurrences pre) {o : Occurrence}
    (hsize : (pre ++ [o]).toFinset.card ≤ e.policy.maxRecordIds) (hlen : (pre ++ [o]).length < 2 ^ 64) :
    Counts (e.noteOccurrence o).1.occurrences (pre ++ [o]) ∧
      (e.noteOccurrence o).2 = !Replay.fresh Occurrence.generation Occurrence.line pre o := by
  -- the counters are not full when the line is new
  have hroom : ¬ (e.policy.maxRecordIds ≤ e.occurrences.keys.length ∧ o ∉ e.occurrences) := by
    rintro ⟨hfull, hnew⟩
    have hnew : o ∉ pre.toFinset := fun ho => hnew (h.mem_iff.mpr (List.mem_toFinset.mp ho))
    have hcard : (pre ++ [o]).toFinset.card = pre.toFinset.card + 1 := by
      rw [List.toFinset_append, List.toFinset_cons, List.toFinset_nil, insert_empty_eq, Finset.union_comm,
        ← Finset.insert_eq, Finset.card_insert_of_notMem hnew]
    rw [h.length_keys] at hfull
    omega
  have hcount : saturatingAdd 64 ((e.occurrences.lookup o).getD 0) 1 = pre.count o + 1 := by
    have hle : pre.count o ≤ pre.length := List.count_le_length
    rw [List.length_append, List.length_singleton] at hlen
    rw [h.count_eq, saturatingAdd_of_lt (by omega)]
  have hafter := h.insert o
  unfold noteOccurrence
  rw [if_neg hroom]
  dsimp only
  rw [hcount]
  refine ⟨hafter, ?_⟩
  rw [priorMax_eq hafter, Replay.priorMax_append]
  unfold Replay.fresh
  rw [← decide_not]
  exact decide_eq_decide.mpr (by omega)

theorem reductionsFrom_cons (record : CombatRecord) (eqTime : EqSecond) (now : MonoTime) (event : LogEvent)
    (rest : List LogEvent) :
    reductionsFrom record eqTime now e (event :: rest) = reductionsFrom record eqTime now e [event] ++
      reductionsFrom record eqTime now (e.processEvent record eqTime now event) rest := by
  show _ ++ _ = (_ ++ []) ++ _
  rw [List.append_nil]

theorem event_accepted {record : CombatRecord} {eqTime : EqSecond} (now : MonoTime) {event : LogEvent} {o : Occurrence}
    (ho : o = ⟨record.id.source, record.id.generation, eqTime, event⟩) (hf : event.isFact = true)
    (h : Counts e.occurrences pre) (hsize : (pre ++ [o]).toFinset.card ≤ e.policy.maxRecordIds)
    (hlen : (pre ++ [o]).length < 2 ^ 64) :
    (reductionsFrom record eqTime now e [event]).filterMap Reduction.line =
        (if Replay.fresh Occurrence.generation Occurrence.line pre o then [o] else []) ∧
      Counts (e.processEvent record eqTime now event).occurrences (pre ++ [o]) ∧
      (e.processEvent record eqTime now event).policy = e.policy := by
  obtain ⟨hcounts, hflag⟩ := noteOccurrence_spec h hsize hlen
  have hpol : (e.noteOccurrence o).1.policy = e.policy := rfl
  unfold reductionsFrom processEvent
  rw [if_pos hf, if_pos hf, ← ho]
  generalize e.noteOccurrence o = noted at hcounts hflag hpol
  obtain ⟨e', replayed⟩ := noted
  cases replayed with
  | true =>
    have hfresh : Replay.fresh Occurrence.generation Occurrence.line pre o = false := by
      rw [← Bool.not_eq_true', ← hflag]
    rw [hfresh]
    exact ⟨rfl, hcounts, hpol⟩
  | false =>
    have hfresh : Replay.fresh Occurrence.generation Occurrence.line pre o = true := by
      rw [← Bool.not_eq_false', ← hflag]
    have hsame : SameIntake e' (e'.reduceEvent record eqTime now event) :=
      SameIntake.reduction ⟨e', record, eqTime, now, event⟩
    have hline : Reduction.line ⟨e', record, eqTime, now, event⟩ = some o := by
      unfold Reduction.line
      rw [if_pos hf, ho]
    rw [hfresh]
    refine ⟨?_, hsame.occurrences ▸ hcounts, hsame.policy.trans hpol⟩
    show [(⟨e', record, eqTime, now, event⟩ : Reduction)].filterMap Reduction.line = [o]
    rw [List.filterMap_cons_some hline]
    rfl

theorem events_accepted (record : CombatRecord) (eqTime : EqSecond) (now : MonoTime) (events : List LogEvent)
    (h : Counts e.occurrences pre) {lines : List Occurrence} (hlines : lines = (events.filter LogEvent.isFact).map
      fun event => ⟨record.id.source, record.id.generation, eqTime, event⟩)
    (hsize : (pre ++ lines).toFinset.card ≤ e.policy.maxRecordIds) (hlen : (pre ++ lines).length < 2 ^ 64) :
    let after := events.foldl (fun e event => e.processEvent record eqTime now event) e
    (reductionsFrom record eqTime now e events).filterMap Reduction.line =
        Replay.accepted Occurrence.generation Occurrence.line pre lines ∧
      Counts after.occurrences (pre ++ lines) ∧ after.policy = e.policy := by
  induction events generalizing e pre lines with
  | nil =>
    subst hlines
    rw [List.filter_nil, List.map_nil, List.append_nil]
    exact ⟨rfl, h, rfl⟩
  | cons event rest ih =>
    dsimp only
    rw [List.foldl_cons, reductionsFrom_cons, List.filterMap_append]
    cases hf : event.isFact with
    | false =>
      -- an event that is no fact presents nothing
      have hnot : ¬ event.isFact = true := by rw [hf]; exact Bool.false_ne_true
      rw [List.filter_cons_of_neg hnot] at hlines
      have hsame : SameIntake e (e.processEvent record eqTime now event) := by
        unfold processEvent
        rw [if_neg hnot]
        exact SameIntake.reduction ⟨e, record, eqTime, now, event⟩
      have hhead : (reductionsFrom record eqTime now e [event]).filterMap Reduction.line = [] := by
        unfold reductionsFrom
        rw [if_neg hnot]
        refine List.filterMap_cons_none ?_
        exact if_neg hnot
      obtain ⟨hred, hcounts, hpol⟩ := ih (hsame.occurrences ▸ h) hlines (hsame.policy ▸ hsize) hlen
      rw [hhead, hred]
      exact ⟨rfl, hcounts, hpol.trans hsame.policy⟩
    | true =>
      rw [List.filter_cons_of_pos hf, List.map_cons] at hlines
      generalize ho : (⟨record.id.source, record.id.generation, eqTime, event⟩ : Occurrence) = o at hlines
      obtain ⟨l, rfl⟩ : ∃ l, lines = o :: l := ⟨_, hlines⟩
      have hsplit : pre ++ o :: l = (pre ++ [o]) ++ l := by simp
      rw [hsplit] at hsize hlen ⊢
      have hsub : (pre ++ [o]).toFinset ⊆ ((pre ++ [o]) ++ l).toFinset := by
        rw [List.toFinset_append (l := pre ++ [o])]
        exact Finset.subset_union_left
      have hlen' : (pre ++ [o]).length < 2 ^ 64 := by
        rw [List.length_append] at hlen
        omega
      obtain ⟨hhead, hcounts, hpol⟩ := event_accepted now ho.symm hf h
        ((Finset.card_le_card hsub).trans hsize) hlen'
      obtain ⟨hred, hc, hp⟩ := ih hcounts (List.cons.inj hlines).2 (hpol ▸ hsize) hlen
      rw [hhead, hred]
      exact ⟨rfl, hc, hp.trans hpol⟩

theorem call_accepted (call : Call) (h : Counts e.occurrences pre)
    (hsize : (pre ++ e.presented call).toFinset.card ≤ e.policy.maxRecordIds)
    (hlen : (pre ++ e.presented call).length < 2 ^ 64) :
    e.reducedLines call = Replay.accepted Occurrence.generation Occurrence.line pre (e.presented call) ∧
      Counts (e.step call).occurrences (pre ++ e.presented call) ∧ (e.step call).policy = e.policy := by
  have hstep := SameIntake.step e call
  rw [hstep.occurrences, hstep.policy]
  have hquiet (hp : e.presented call = []) (hr : e.reductions call = []) (ho : (e.handled call).occurrences = e.occurrences)
      (hpol : (e.handled call).policy = e.policy) :
      e.reducedLines call = Replay.accepted Occurrence.generation Occurrence.line pre (e.presented call) ∧
        Counts (e.handled call).occurrences (pre ++ e.presented call) ∧ (e.handled call).policy = e.policy := by
    unfold reducedLines
    rw [hp, hr, ho, List.append_nil]
    exact ⟨rfl, h, hpol⟩
  cases call with
  | tick now => exact hquiet rfl rfl rfl rfl
  | apply now input =>
    cases input with
    | sourceRegistered | sourceRemoved | sourceGap | sourceStableEof => exact hquiet rfl rfl rfl rfl
    | record record =>
      have hhandled : e.handled (.apply now (.record record)) = ((e.clock now).applyRecord record now).1 := by
        show ((e.clock now).handle now (.record record)).1 = _
        unfold CombatEngine.handle
        dsimp only
        generalize (e.clock now).applyRecord record now = applied
        obtain ⟨e', ok⟩ := applied
        cases ok <;> rfl
      rw [hhandled] at hquiet ⊢
      have hspec := accept_spec (e.clock now) record now
      unfold presented reducedLines reductions recordReductions applyRecord at *
      dsimp only at *
      generalize (e.clock now).accept record now = accepted at *
      cases hspec with
      | refused hs => exact hquiet rfl rfl hs.occurrences hs.policy
      | @taken e' hid hw hc hp ho hm =>
        have hdat := SameIntake.datable e' record
        dsimp only at *
        generalize e'.datable record = dated at *
        obtain ⟨e'', t⟩ := dated
        cases t with
        | none => exact hquiet rfl rfl (hdat.occurrences.trans ho) (hdat.policy.trans hp)
        | some t =>
          have hres := (hdat.trans (SameIntake.reserve e'' record))
          have hpol : (e''.reserve record).policy = e.policy := hres.policy.trans hp
          have hocc : (e''.reserve record).occurrences = e.occurrences := hres.occurrences.trans ho
          obtain ⟨hred, hcounts, hafter⟩ := events_accepted (e := e''.reserve record) record t now
            record.events (hocc ▸ h) rfl (hpol ▸ hsize) hlen
          exact ⟨hred, hcounts, hafter.trans hpol⟩

theorem run_accepted (calls : List Call) (h : Counts e.occurrences pre)
    (hsize : (pre ++ e.gather presented calls).toFinset.card ≤ e.policy.maxRecordIds)
    (hlen : (pre ++ e.gather presented calls).length < 2 ^ 64) :
    e.gather reducedLines calls =
      Replay.accepted Occurrence.generation Occurrence.line pre (e.gather presented calls) := by
  induction calls generalizing e pre with
  | nil => rfl
  | cons call rest ih =>
    have hsplit : pre ++ e.gather presented (call :: rest) =
        (pre ++ e.presented call) ++ (e.step call).gather presented rest := (List.append_assoc _ _ _).symm
    rw [hsplit] at hsize hlen
    have hsub : (pre ++ e.presented call).toFinset ⊆
        ((pre ++ e.presented call) ++ (e.step call).gather presented rest).toFinset := by
      rw [List.toFinset_append (l := pre ++ e.presented call)]
      exact Finset.subset_union_left
    have hlen' : (pre ++ e.presented call).length < 2 ^ 64 := by
      rw [List.length_append] at hlen
      omega
    obtain ⟨hred, hcounts, hpol⟩ := call_accepted call h ((Finset.card_le_card hsub).trans hsize) hlen'
    show e.reducedLines call ++ (e.step call).gather reducedLines rest =
      Replay.accepted _ _ pre (e.presented call ++ (e.step call).gather presented rest)
    rw [Replay.accepted_append, ← hred, ih hcounts (hpol ▸ hsize) hlen]

end

/-- The peak of a line, over the generations that presented it. -/
theorem peak_line (l : List Occurrence) (k : LogSourceId × EqSecond × LogEvent) :
    Replay.peak Occurrence.line l k =
      (l.map (·.generation)).toFinset.sup fun g => l.countP fun o => o.line = k ∧ o.generation = g := by
  have hcount (o : Occurrence) (h : o.line = k) :
      l.count o = l.countP fun o' => o'.line = k ∧ o'.generation = o.generation := by
    refine List.countP_congr fun o' _ => ?_
    rw [beq_iff_eq, decide_eq_true_eq]
    constructor
    · rintro rfl
      exact ⟨h, rfl⟩
    · rintro ⟨h', hg⟩
      exact Occurrence.eq_of_line (h'.trans h.symm) hg
  apply Nat.le_antisymm
  · refine Replay.peak_le fun o ho hk => ?_
    rw [hcount o hk]
    exact Finset.le_sup (f := fun g => l.countP fun o' => o'.line = k ∧ o'.generation = g)
      (List.mem_toFinset.mpr (List.mem_map_of_mem ho))
  · refine Finset.sup_le fun g _ => ?_
    by_cases hany : ∃ o ∈ l, o.line = k ∧ o.generation = g
    · obtain ⟨o, -, hk, rfl⟩ := hany
      rw [← hcount o hk]
      exact Replay.le_peak hk
    · have hzero : (l.countP fun o => o.line = k ∧ o.generation = g) = 0 := by
        rw [List.countP_eq_zero]
        intro o ho htest
        exact hany ⟨o, ho, of_decide_eq_true htest⟩
      rw [hzero]
      exact Nat.zero_le _

end CombatEngine

open CombatEngine

/-- In a run that presents no more distinct lines, over all sources and generations, than the counters
hold, and no line of an earlier generation of its source after one of a later, every content of a source
is reduced as often as the generation that presented it most often presented it. -/
theorem replay_deduplicated (policy : CombatPolicy) (calls : List Call)
    (hsize : ((init policy).gather presented calls).toFinset.card ≤ policy.maxRecordIds)
    (hlen : ((init policy).gather presented calls).length < 2 ^ 64)
    (hgen : ((init policy).gather presented calls).Pairwise fun a b => a.source = b.source → a.generation ≤ b.generation)
    (k : LogSourceId × EqSecond × LogEvent) :
    let presented := (init policy).gather presented calls
    ((init policy).gather reducedLines calls).countP (·.line = k) =
      (presented.map (·.generation)).toFinset.sup fun g => presented.countP fun o => o.line = k ∧ o.generation = g := by
  have hcounts : Counts (init policy).occurrences [] := fun o => rfl
  dsimp only
  rw [run_accepted calls hcounts hsize hlen, Replay.countP_accepted (fun a b => Occurrence.eq_of_line)
    (hgen.imp fun h hline => h (congrArg Prod.fst hline)), peak_line]

/-- The line `A hits r for 10` at second 500, in a generation of the log of `A`. -/
def rereadLine (generation sequence : Nat) : Call :=
  .apply 0 (.record ⟨⟨(Sample.log 'A').id, generation, sequence⟩, Sample.log 'A', some 500,
    [Sample.hit Sample.you "r" 10]⟩)

/-- Generation 1 repeats both lines of generation 0 and adds a third. -/
def rereadCalls : List Call :=
  Sample.register ['A'] ++ [rereadLine 0 0, rereadLine 0 1, rereadLine 1 0, rereadLine 1 1, rereadLine 1 2]

theorem presented_reread : (init .mvpV1).gather presented rereadCalls =
    [0, 0, 1, 1, 1].map fun generation =>
      ⟨(Sample.log 'A').id, generation, 500, Sample.hit Sample.you "r" 10⟩ := by decide +kernel

theorem replay_deduplicated_reread :
    ((init .mvpV1).gather reducedLines rereadCalls).countP
        (·.line = ((Sample.log 'A').id, 500, Sample.hit Sample.you "r" 10)) =
      (((init .mvpV1).gather presented rereadCalls).map (·.generation)).toFinset.sup fun g =>
        ((init .mvpV1).gather presented rereadCalls).countP fun o =>
          o.line = ((Sample.log 'A').id, 500, Sample.hit Sample.you "r" 10) ∧ o.generation = g :=
  replay_deduplicated .mvpV1 rereadCalls (by rw [presented_reread]; decide +kernel)
    (by rw [presented_reread]; decide +kernel) (by rw [presented_reread]; decide +kernel) _

/-- With room for one id a single content, presented once by each of two generations, is reduced twice. -/
theorem replay_not_deduplicated :
    let presented := (init Sample.oneId).gather presented (Sample.register ['A'] ++ [rereadLine 0 0, rereadLine 1 0])
    let reduced := (init Sample.oneId).gather reducedLines (Sample.register ['A'] ++ [rereadLine 0 0, rereadLine 1 0])
    let k := ((Sample.log 'A').id, (500 : EqSecond), Sample.hit Sample.you "r" 10)
    Sample.oneId.valid = true ∧ (presented.map Occurrence.line).toFinset.card ≤ Sample.oneId.maxRecordIds ∧
      (presented.Pairwise fun a b => a.source = b.source → a.generation ≤ b.generation) ∧
      ((presented.map (·.generation)).toFinset.sup fun g => presented.countP fun o => o.line = k ∧ o.generation = g) = 1 ∧
      reduced.countP (·.line = k) = 2 := by
  decide +kernel

end Stonemite.Combat
