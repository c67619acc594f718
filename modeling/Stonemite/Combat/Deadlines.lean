import Stonemite.Combat.BoundsInv
import Stonemite.Combat.BookInv
import Stonemite.Combat.IdleInv

/-!
# Deadlines

After every call nothing of the engine is due at its clock (`AtRest`). The next deadline is later than the clock, and
nothing changes before it, if no source has outstayed its end of file and no source is about to lag. `atRest_step` is
what one call leaves and `atRest_run` a whole run; from it `deadline_sound` follows for the state a run ends in.
-/

open Std

namespace Stonemite.Combat.CombatEngine

/-! ### What is due -/

/-- The deadlines that `next_deadline` takes the least of. -/
def deadlines (e : CombatEngine) : List MonoTime :=
  (e.encounters.toList.map fun entry =>
    match entry.2.phase with
    | .active => MonoTime.add entry.2.lastSustainReceipt e.policy.inactivityMs
    | .ending _ enteredAt .. => MonoTime.add enteredAt e.policy.endingGraceMs
    | .held _ til => til) ++
  e.sources.toList.filterMap fun s =>
    if 2 ≤ s.2.eofPasses then s.2.eofFirstAt.map fun at' => MonoTime.add at' e.policy.stableEofMs
    else none

/-- The encounter is not due at the clock. -/
def Waits (e : CombatEngine) (a : EncounterState) : Prop :=
  match a.phase with
  | .active => e.now.since a.lastSustainReceipt < e.policy.inactivityMs
  | .ending _ enteredAt cutoff closure => e.now.since enteredAt < e.policy.endingGraceMs ∧
      ¬ ∀ source ∈ closure, e.closedThroughCutoff source cutoff = true
  | .held _ til => e.now < til

/-- No encounter is due, and what is shown of them is up to date. -/
structure AtRest (e : CombatEngine) : Prop where
  waits : ∀ (id : EncounterId) (a : EncounterState), e.encounters[id]? = some a → e.Waits a
  refreshed : ∀ (id : EncounterId) (a : EncounterState), e.encounters[id]? = some a → e.refresh a = a
  book : e.currentBook.encounters = e.bookEntries

/-- No source is at an end of file that has been stable for the whole of its time. -/
def EofFresh (e : CombatEngine) : Prop :=
  ∀ (id : LogSourceId) (s : SourceState), e.sources[id]? = some s → 2 ≤ s.eofPasses →
    ∀ first, s.eofFirstAt = some first → e.now < first + e.policy.stableEofMs

/-- Every encounter is held, and no source is at a stable end of file. -/
def OnlyHeld (e : CombatEngine) : Prop :=
  (∀ (id : EncounterId) (a : EncounterState), e.encounters[id]? = some a → a.phase.isHeld = true) ∧
    ∀ (id : LogSourceId) (s : SourceState), e.sources[id]? = some s → 2 ≤ s.eofPasses → s.eofFirstAt = none

/-- Every deadline is ahead of the clock. -/
def Ahead (e : CombatEngine) : Prop := e.OnlyHeld ∨ e.now < 2 ^ 64 - 1 ∧ e.EofFresh

/-- The sources of an encounter with their states. -/
def states (e : CombatEngine) (a : EncounterState) : List (LogSourceId × SourceState) :=
  a.sources.toList.filterMap fun id => (e.sources[id]?).map fun s => (id, s)

/-- The source is so many seconds behind the first of an encounter that it may lag. -/
def behind (e : CombatEngine) (a : EncounterState) (state : SourceState) : Bool :=
  match ((e.states a).filterMap fun s => s.2.observed).max?, state.observed with
  | some leader, some observed => (checkedSubI64 leader observed).any fun gap => decide (e.policy.lagEqSeconds ≤ gap)
  | _, _ => false

/-- A source that covers a live encounter and is behind in it lags already, or something else is due by the time it does. -/
def LagAnnounced (e : CombatEngine) : Prop :=
  ∀ (id : EncounterId) (a : EncounterState), e.encounters[id]? = some a → a.phase.isHeld = false →
    ∀ source ∈ a.sources, ∀ s : SourceState, e.sources[source]? = some s → a.coveredBy source s = true →
      e.behind a s = true → e.policy.lagReceiptMs ≤ e.now.since s.lastProgressAt ∨
        ∃ d ∈ e.deadlines, d ≤ s.lastProgressAt + e.policy.lagReceiptMs

/-- The next deadline is ahead, and a tick before it changes nothing but the clock. -/
structure DeadlineSound (e : CombatEngine) : Prop where
  later : ∀ d, e.nextDeadline = some d → e.now < d
  quiet : ∀ t, (∀ d, e.nextDeadline = some d → t < d) → (e.tick t).1 = e.clock t

variable {e : CombatEngine} {id : EncounterId} {a : EncounterState} {now : MonoTime}

/-! ### The engine after time has advanced -/

section
variable {l : List (EncounterId × EqSecond)} {due : List EndingDue}

theorem foldl_enterEnding_active (reason : EndReason)
    (h : (l.foldl (fun e entry => e.enterEnding entry.1 reason now entry.2) e).encounters[id]? = some a)
    (hp : a.phase = .active) :
    e.encounters[id]? = some a ∧ ∀ entry ∈ l, entry.1 ≠ id := by
  induction l generalizing e with
  | nil => exact ⟨h, nofun⟩
  | cons entry l ih =>
    rw [List.foldl_cons] at h
    obtain ⟨ha, hl⟩ := ih h
    rw [enterEnding, updEncounter, ExtTreeMap.getElem?_modify_ite] at ha
    split_ifs at ha with hid
    · obtain ⟨b, -, rfl⟩ := Option.map_eq_some_iff.mp ha
      unfold EncounterState.enterEnding at hp
      cases hb : b.phase with
      | active =>
        rw [hb] at hp
        cases hp
      | ending | held =>
        rw [hb] at hp
        dsimp only at hp
        rw [hb] at hp
        cases hp
    · refine ⟨ha, fun entry' hentry => ?_⟩
      rcases List.mem_cons.mp hentry with rfl | hentry
      · exact hid
      · exact hl entry' hentry

theorem foldl_finalizeDue_live (h : (due.foldl (fun e due => e.finalizeDue now due) e).encounters[id]? = some a)
    (hp : a.phase.isHeld = false) : e.encounters[id]? = some a ∧ ∀ d ∈ due, d.id ≠ id := by
  induction due generalizing e with
  | nil => exact ⟨h, nofun⟩
  | cons d due ih =>
    rw [List.foldl_cons] at h
    obtain ⟨ha, hl⟩ := ih h
    rw [finalizeDue_eq, ExtTreeMap.getElem?_modify_ite] at ha
    split_ifs at ha with hid
    · obtain ⟨b, -, rfl⟩ := Option.map_eq_some_iff.mp ha
      rw [closing_phase] at hp
      cases hp
    · refine ⟨ha, fun d' hd => ?_⟩
      rcases List.mem_cons.mp hd with rfl | hd
      · exact hid
      · exact hl d' hd

end

/-- What advancing the time leaves alone. -/
structure SameClock (e e' : CombatEngine) : Prop where
  now : e'.now = e.now
  policy : e'.policy = e.policy
  sources : e'.sources = e.sources

namespace SameClock

theorem refl (e : CombatEngine) : SameClock e e := ⟨rfl, rfl, rfl⟩

theorem trans {e e' e'' : CombatEngine} (h : SameClock e e') (h' : SameClock e' e'') : SameClock e e'' :=
  ⟨h'.now.trans h.now, h'.policy.trans h.policy, h'.sources.trans h.sources⟩

theorem foldl {α : Type} {f : CombatEngine → α → CombatEngine} (hf : ∀ e x, SameClock e (f e x)) (l : List α)
    (e : CombatEngine) : SameClock e (l.foldl f e) := by
  induction l generalizing e with
  | nil => exact .refl e
  | cons x l ih => exact (hf e x).trans (ih (f e x))

theorem endInactive (e : CombatEngine) (now : MonoTime) : SameClock e (e.endInactive now) :=
  foldl (f := fun e (entry : EncounterId × EqSecond) => e.enterEnding entry.1 .inactivity now entry.2)
    (fun _ _ => ⟨rfl, rfl, rfl⟩) _ e

theorem finalizeEnding (e : CombatEngine) (now : MonoTime) : SameClock e (e.finalizeEnding now) :=
  foldl (fun e due => by rw [finalizeDue_eq]; exact ⟨rfl, rfl, rfl⟩) _ e

theorem expireHeld (e : CombatEngine) (now : MonoTime) : SameClock e (e.expireHeld now) := by
  unfold CombatEngine.expireHeld
  dsimp only
  split_ifs <;> exact ⟨rfl, rfl, rfl⟩

theorem rebuildBook (e : CombatEngine) : SameClock e e.rebuildBook.1 := by
  unfold CombatEngine.rebuildBook
  dsimp only
  split_ifs <;> exact ⟨rfl, rfl, rfl⟩

end SameClock

theorem closedThroughCutoff_congr {e' : CombatEngine} (h : SameClock e e') (source : LogSourceId) (cutoff : EqSecond) :
    e'.closedThroughCutoff source cutoff = e.closedThroughCutoff source cutoff := by
  rw [closedThroughCutoff, closedThroughCutoff, h.sources]

/-- No encounter is due once the time has advanced to the clock. -/
theorem waits_settled (e : CombatEngine) (call : Call) (h : (e.settled call).encounters[id]? = some a) :
    (e.settled call).Waits a := by
  have hended : SameClock (e.ended call) (e.settled call) := (SameClock.finalizeEnding _ _).trans (SameClock.expireHeld _ _)
  have hclosed : SameClock ((e.handled call).closeStableSources (e.handled call).now) (e.ended call) :=
    SameClock.endInactive _ _
  have hnow : (e.settled call).now = (e.handled call).now := hended.now.trans hclosed.now
  have hpolicy : (e.settled call).policy = (e.ended call).policy := hended.policy
  have hexpire := (expireHeld_spec ((e.ended call).finalizeEnding (e.handled call).now) (e.handled call).now).1 id
  have hlookup : (e.settled call).encounters[id]? = _ := hexpire
  rw [h] at hlookup
  split_ifs at hlookup with hexpired
  have hlive (hp : a.phase.isHeld = false) := foldl_finalizeDue_live hlookup.symm hp
  unfold Waits
  rw [hnow]
  cases hp : a.phase with
  | active =>
    dsimp only
    obtain ⟨ha, -⟩ := hlive (by rw [hp]; rfl)
    obtain ⟨ha, hall⟩ := foldl_enterEnding_active .inactivity ha hp
    by_contra hle
    refine hall (id, a.lastSustainEq) ?_ rfl
    refine List.mem_map.mpr ⟨(id, a), List.mem_filter.mpr ⟨ExtTreeMap.mem_toList_of_lookup ha, ?_⟩, rfl⟩
    rw [hp, Bool.true_and, decide_eq_true_eq]
    rw [hpolicy, hclosed.policy] at hle
    exact Nat.not_lt.mp hle
  | ending reason enteredAt cutoff closure =>
    dsimp only
    obtain ⟨ha, hall⟩ := hlive (by rw [hp]; rfl)
    have hdue : ¬ ∃ due ∈ (e.ended call).endingDue (e.handled call).now, due.id = id := by
      rintro ⟨due, hmem, hid⟩
      exact hall due hmem hid
    have ha' : (e.ended call).encounters[id]? = some a := ha
    rw [mem_endingDue_iff ha' hp] at hdue
    rw [hpolicy]
    simp only [closedThroughCutoff_congr hended]
    refine ⟨?_, fun hclosed => hdue (.inr hclosed)⟩
    by_contra hle
    exact hdue (.inl (Nat.not_lt.mp hle))
  | held reason til =>
    dsimp only
    by_contra hle
    exact hexpired (mem_expired.mpr ⟨a, reason, til, hlookup.symm, hp, Nat.not_lt.mp hle⟩)

theorem waits_refresh {e' : CombatEngine} (h : SameClock e e') (ha : e.Waits a) : e'.Waits (e.refresh a) := by
  have hclosed (source : LogSourceId) (cutoff : EqSecond) := closedThroughCutoff_congr h source cutoff
  have hsustain : (e.refresh a).lastSustainReceipt = a.lastSustainReceipt := by
    unfold refresh
    split_ifs
    · rfl
    · cases e.computeSnapshot a 0 with
      | none => rfl
      | some candidate =>
        dsimp only
        split_ifs <;> rfl
  unfold Waits at ha ⊢
  rw [(sameFacts_refresh e a).phase, h.now, h.policy, hsustain]
  simp only [hclosed]
  exact ha

theorem bookEntries_congr {e' : CombatEngine} (h : e'.encounters = e.encounters) : e'.bookEntries = e.bookEntries := by
  rw [bookEntries, bookEntries, h]

theorem refresh_congr {e' : CombatEngine} (h : a.phase.isHeld = false → e'.computeSnapshot a 0 = e.computeSnapshot a 0) :
    e'.refresh a = e.refresh a := by
  rw [refresh, refresh]
  cases hp : a.phase.isHeld with
  | true => rw [if_pos rfl, if_pos rfl]
  | false => rw [h hp]

theorem refresh_refresh (e : CombatEngine) (a : EncounterState) : e.refresh (e.refresh a) = e.refresh a := by
  cases hp : a.phase.isHeld with
  | true => rw [refresh_held hp, refresh_held hp]
  | false =>
    rcases @refresh_snapshot e a hp with ⟨s, hs, hcompute⟩ | ⟨-, hsame⟩
    · have hp' : (e.refresh a).phase.isHeld = false := by rw [(sameFacts_refresh e a).phase, hp]
      rw [refresh, hp', if_neg Bool.false_ne_true, computeSnapshot_refresh, hcompute]
      dsimp only
      rw [if_pos]
      rw [hs]
      exact decide_eq_true rfl
    · rw [hsame, hsame]

theorem atRest_step (e : CombatEngine) (call : Call) : (e.step call).AtRest := by
  rw [step_eq]
  obtain ⟨henc, hbook, hcompute⟩ := rebuildBook_spec (e.settled call)
  have hlookup (id : EncounterId) : (e.settled call).rebuildBook.1.encounters[id]? =
      ((e.settled call).encounters[id]?).map (e.settled call).refresh := by rw [henc, ExtTreeMap.getElem?_map]
  refine ⟨fun id a ha => ?_, fun id a ha => ?_, ?_⟩
  · rw [hlookup] at ha
    obtain ⟨b, hb, rfl⟩ := Option.map_eq_some_iff.mp ha
    exact waits_refresh (SameClock.rebuildBook _) (waits_settled e call hb)
  · rw [hlookup] at ha
    obtain ⟨b, hb, rfl⟩ := Option.map_eq_some_iff.mp ha
    exact (refresh_congr fun _ => hcompute _ 0).trans (refresh_refresh _ b)
  · rw [hbook]
    exact (bookEntries_congr henc).symm

theorem atRest_run (policy : CombatPolicy) (calls : List Call) : ((init policy).run calls).AtRest := by
  induction calls using List.reverseRecOn with
  | nil => exact ⟨fun id a ha => by simp [run, init] at ha, fun id a ha => by simp [run, init] at ha, rfl⟩
  | append_singleton calls call _ =>
    rw [run, List.foldl_append]
    exact atRest_step _ call

/-! ### The next deadline -/

theorem lt_nextDeadline_iff {t : MonoTime} : (∀ d, e.nextDeadline = some d → t < d) ↔ ∀ d ∈ e.deadlines, t < d := by
  have hmin : e.nextDeadline = e.deadlines.min? := rfl
  rw [hmin]
  constructor
  · intro h d hd
    cases hleast : e.deadlines.min? with
    | none =>
      rw [List.min?_eq_none_iff.mp hleast] at hd
      cases hd
    | some least => exact (h least hleast).trans_le ((List.min?_eq_some_iff.mp hleast).2 d hd)
  · exact fun h d hd => h d (List.min?_eq_some_iff.mp hd).1

theorem lt_deadlines_iff {t : MonoTime} : (∀ d ∈ e.deadlines, t < d) ↔
    (∀ (id : EncounterId) (a : EncounterState), e.encounters[id]? = some a → t < (a.lifecycle e.policy).2) ∧
      ∀ (id : LogSourceId) (s : SourceState), e.sources[id]? = some s → 2 ≤ s.eofPasses →
        ∀ first, s.eofFirstAt = some first → t < MonoTime.add first e.policy.stableEofMs := by
  rw [deadlines]
  simp only [List.mem_append, or_imp, forall_and]
  refine and_congr ⟨fun h id a ha => ?_, fun h d hd => ?_⟩ ⟨fun h id s hs hpasses first hfirst => ?_, fun h d hd => ?_⟩
  · exact h _ (List.mem_map.mpr ⟨(id, a), ExtTreeMap.mem_toList_of_lookup ha, rfl⟩)
  · obtain ⟨entry, hm, rfl⟩ := List.mem_map.mp hd
    exact h entry.1 entry.2 (ExtTreeMap.lookup_of_mem_toList hm)
  · refine h _ (List.mem_filterMap.mpr ⟨(id, s), ExtTreeMap.mem_toList_of_lookup hs, ?_⟩)
    rw [if_pos hpasses, hfirst]
    rfl
  · obtain ⟨entry, hm, hsome⟩ := List.mem_filterMap.mp hd
    split_ifs at hsome with hpasses
    obtain ⟨first, hfirst, rfl⟩ := Option.map_eq_some_iff.mp hsome
    exact h entry.1 entry.2 (ExtTreeMap.lookup_of_mem_toList hm) hpasses first hfirst

theorem lt_add_iff {t first : MonoTime} {millis : Nat} :
    t < MonoTime.add first millis ↔ t < 2 ^ 64 - 1 ∧ t < first + millis := by
  rw [MonoTime.add, saturatingAdd, Nat.lt_min, and_comm]

/-- The deadline of an encounter that is not due is ahead, if the clock can reach it. -/
theorem lt_lifecycle_iff (h : e.Waits a) :
    e.now < (a.lifecycle e.policy).2 ↔ e.now < 2 ^ 64 - 1 ∨ a.phase.isHeld = true := by
  rw [EncounterState.lifecycle]
  unfold Waits at h
  cases hp : a.phase with
  | active =>
    rw [hp] at h
    dsimp only
    rw [lt_add_iff, and_iff_left (lt_add_of_tsub_lt_left h), or_iff_left (by decide)]
  | ending reason enteredAt cutoff closure =>
    rw [hp] at h
    dsimp only
    rw [lt_add_iff, and_iff_left (lt_add_of_tsub_lt_left h.1), or_iff_left nofun]
  | held reason til =>
    rw [hp] at h
    exact iff_of_true h (.inr rfl)

/-- The next deadline is ahead of the clock exactly if every deadline can be. -/
theorem later_iff (h : e.AtRest) : (∀ d, e.nextDeadline = some d → e.now < d) ↔ e.Ahead := by
  rw [lt_nextDeadline_iff, lt_deadlines_iff]
  by_cases hnow : e.now < 2 ^ 64 - 1
  · constructor
    · intro hall
      exact .inr ⟨hnow, fun id s hs hpasses first hfirst => (lt_add_iff.mp (hall.2 id s hs hpasses first hfirst)).2⟩
    · refine fun hahead => ⟨fun id a ha => (lt_lifecycle_iff (h.waits id a ha)).mpr (.inl hnow),
        fun id s hs hpasses first hfirst => lt_add_iff.mpr ⟨hnow, ?_⟩⟩
      rcases hahead with ⟨-, hnone⟩ | ⟨-, hfresh⟩
      · rw [hnone id s hs hpasses] at hfirst
        cases hfirst
      · exact hfresh id s hs hpasses first hfirst
  · have honly : e.Ahead ↔ e.OnlyHeld := or_iff_left fun hahead => hnow hahead.1
    rw [honly]
    refine and_congr ⟨fun hall id a ha => ?_, fun hall id a ha => ?_⟩ ⟨fun hall id s hs hpasses => ?_,
      fun hall id s hs hpasses first hfirst => ?_⟩
    · exact ((lt_lifecycle_iff (h.waits id a ha)).mp (hall id a ha)).resolve_left hnow
    · exact (lt_lifecycle_iff (h.waits id a ha)).mpr (.inr (hall id a ha))
    · rw [Option.eq_none_iff_forall_ne_some]
      exact fun first hfirst => hnow (lt_add_iff.mp (hall id s hs hpasses first hfirst)).1
    · rw [hall id s hs hpasses] at hfirst
      cases hfirst

/-! ### Ticks before the deadline -/

theorem since_lt {first millis : Nat} (hpos : 0 < millis) (h : now < first + millis) : now.since first < millis := by
  rcases le_total first now with hle | hle
  · exact (tsub_lt_iff_left hle).mpr h
  · exact (tsub_eq_zero_of_le hle).trans_lt hpos

section
variable {t : MonoTime} (h : ∀ d ∈ e.deadlines, max e.now t < d)
include h

theorem closeStableSources_clock (hpos : 0 < e.policy.stableEofMs) :
    (e.clock t).closeStableSources (max e.now t) = e.clock t := by
  have hsource (id : LogSourceId) (s : SourceState) (hs : e.sources[id]? = some s) :
      ¬ (decide (2 ≤ s.eofPasses) && s.eofFirstAt.any fun first =>
        decide (e.policy.stableEofMs ≤ (max e.now t).since first)) = true := by
    rw [Bool.and_eq_true, decide_eq_true_eq, Option.any_eq_true]
    rintro ⟨hpasses, first, hfirst, hle⟩
    have hlt := (lt_add_iff.mp ((lt_deadlines_iff.mp h).2 id s hs hpasses first hfirst)).2
    exact (of_decide_eq_true hle).not_gt (since_lt hpos hlt)
  have hmap (f : LogSourceId → SourceState → SourceState)
      (hf : ∀ (id : LogSourceId) (s : SourceState), e.sources[id]? = some s → f id s = s) : e.sources.map f = e.sources := by
    refine ExtTreeMap.ext_getElem? fun id => ?_
    rw [ExtTreeMap.getElem?_map]
    cases hs : e.sources[id]? with
    | none => rfl
    | some s => exact congrArg some (hf id s hs)
  unfold closeStableSources
  refine congrArg (fun sources => { e.clock t with sources }) (hmap _ fun id s hs => ?_)
  exact if_neg (hsource id s hs)

theorem inactive_clock (hwaits : ∀ (id : EncounterId) (a : EncounterState), e.encounters[id]? = some a → e.Waits a) :
    (e.clock t).inactive (max e.now t) = [] := by
  refine List.map_eq_nil_iff.mpr (List.filter_eq_nil_iff.mpr fun entry hentry => ?_)
  have ha : e.encounters[entry.1]? = some entry.2 := ExtTreeMap.lookup_of_mem_toList hentry
  have hlt := (lt_deadlines_iff.mp h).1 entry.1 entry.2 ha
  have hw := hwaits entry.1 entry.2 ha
  unfold Waits at hw
  rw [EncounterState.lifecycle] at hlt
  cases hp : entry.2.phase with
  | active =>
    rw [hp] at hlt hw
    dsimp only at hlt hw ⊢
    rw [Bool.true_and, decide_eq_true_eq, Nat.not_le]
    exact since_lt ((Nat.zero_le _).trans_lt hw) (lt_add_iff.mp hlt).2
  | ending | held => exact Bool.false_ne_true

theorem endingDue_clock (hwaits : ∀ (id : EncounterId) (a : EncounterState), e.encounters[id]? = some a → e.Waits a) :
    (e.clock t).endingDue (max e.now t) = [] := by
  rw [List.eq_nil_iff_forall_not_mem]
  intro due hdue
  obtain ⟨⟨id, a⟩, hentry, hsome⟩ := List.mem_filterMap.mp hdue
  have ha : e.encounters[id]? = some a := ExtTreeMap.lookup_of_mem_toList hentry
  have hlt := (lt_deadlines_iff.mp h).1 id a ha
  have hw := hwaits id a ha
  unfold Waits at hw
  rw [EncounterState.lifecycle] at hlt
  dsimp only at hsome
  cases hp : a.phase with
  | active | held =>
    rw [hp] at hsome
    cases hsome
  | ending reason enteredAt cutoff closure =>
    rw [hp] at hlt hw hsome
    dsimp only at hlt hw hsome
    have hnot : ¬ ((closure.toList.all fun source => (e.clock t).closedThroughCutoff source cutoff) ||
        decide ((e.clock t).policy.endingGraceMs ≤ (max e.now t).since enteredAt)) = true := by
      rw [Bool.or_eq_true, List.all_eq_true, decide_eq_true_eq]
      rintro (hall | hle)
      · exact hw.2 fun source hsource => hall source (ExtTreeSet.mem_toList.mpr hsource)
      · have hle' : e.policy.endingGraceMs ≤ (max e.now t).since enteredAt := hle
        exact hle'.not_gt (since_lt ((Nat.zero_le _).trans_lt hw.1) (lt_add_iff.mp hlt).2)
    rw [if_neg hnot] at hsome
    cases hsome

theorem expired_clock : (e.clock t).expired (max e.now t) = [] := by
  rw [List.eq_nil_iff_forall_not_mem]
  intro id hid
  obtain ⟨a, reason, til, ha, hp, hle⟩ := mem_expired.mp hid
  have hlt := (lt_deadlines_iff.mp h).1 id a ha
  rw [EncounterState.lifecycle, hp] at hlt
  exact hle.not_gt hlt

end

/-! ### The sources that lag -/

/-- The source counts as lagging at the clock. -/
def lags (e : CombatEngine) (a : EncounterState) (state : SourceState) : Bool :=
  e.behind a state && decide (e.policy.lagReceiptMs ≤ e.now.since state.lastProgressAt)

/-- How far an encounter is compared, from its sources and those of them that are complete. -/
def watermarkOf (a : EncounterState) (states complete : List (LogSourceId × SourceState)) : Option EqSecond :=
  match (if complete.isEmpty then states else complete).map (·.2) with
  | [] => none
  | [only] => only.closedThrough.or only.observed
  | many =>
    if many.all (·.closedThrough.isSome) then (many.filterMap (·.closedThrough)).min?
    else some ((checkedAddI64 a.startEq (-1)).getD (-2 ^ 63))

theorem lags_eq (state : SourceState) : e.lags a state =
    match ((e.states a).filterMap fun s => s.2.observed).max?, state.observed with
    | some leader, some observed =>
      (checkedSubI64 leader observed).any fun gap => decide (e.policy.lagEqSeconds ≤ gap) &&
        decide (e.policy.lagReceiptMs ≤ e.now.since state.lastProgressAt)
    | _, _ => false := by
  rw [lags, behind]
  cases ((e.states a).filterMap fun s => s.2.observed).max? with
  | none => rfl
  | some leader =>
    cases state.observed with
    | none => rfl
    | some observed =>
      dsimp only
      cases checkedSubI64 leader observed <;> rfl

theorem comparisonWatermark_live (h : a.phase.isHeld = false) : e.comparisonWatermark a =
    watermarkOf a (e.states a) ((e.states a).filter fun s => a.coveredBy s.1 s.2 && !e.lags a s.2) := by
  rw [comparisonWatermark, if_neg (by rw [h]; exact Bool.false_ne_true)]
  simp only [lags_eq]
  rfl

section
variable {t : MonoTime} (h : ∀ d ∈ e.deadlines, max e.now t < d)
include h

/-- No source that covers a live encounter starts to lag before the deadline. -/
theorem comparisonWatermark_clock (hlag : e.LagAnnounced) (ha : e.encounters[id]? = some a) (hp : a.phase.isHeld = false) :
    (e.clock t).comparisonWatermark a = e.comparisonWatermark a := by
  rw [comparisonWatermark_live hp, comparisonWatermark_live hp]
  refine congrArg (watermarkOf a (e.states a)) (List.filter_congr fun entry hentry => ?_)
  obtain ⟨source, hsource, hsome⟩ := List.mem_filterMap.mp hentry
  obtain ⟨s, hs, rfl⟩ := Option.map_eq_some_iff.mp hsome
  cases hcovered : a.coveredBy source s with
  | false => rfl
  | true =>
    cases hbehind : e.behind a s with
    | false =>
      have hbehind' : (e.clock t).behind a s = false := hbehind
      rw [lags, lags, hbehind, hbehind']
      rfl
    | true =>
      have hbehind' : (e.clock t).behind a s = true := hbehind
      have hsame : e.policy.lagReceiptMs ≤ (max e.now t).since s.lastProgressAt ↔
          e.policy.lagReceiptMs ≤ e.now.since s.lastProgressAt := by
        refine ⟨fun hlags => ?_, fun hlags => hlags.trans (tsub_le_tsub_right (le_max_left _ _) _)⟩
        rcases hlag id a ha hp source (ExtTreeSet.mem_toList.mp hsource) s hs hcovered hbehind with hlags' | ⟨d, hd, hle⟩
        · exact hlags'
        · by_contra hnot
          have hpos : 0 < e.policy.lagReceiptMs := (Nat.zero_le _).trans_lt (Nat.not_le.mp hnot)
          exact hlags.not_gt (since_lt hpos ((h d hd).trans_le hle))
      rw [lags, lags, hbehind, hbehind']
      dsimp only
      exact congrArg (fun b => !b) (decide_eq_decide.mpr hsame)

theorem tick_clock (hrest : e.AtRest) (hlag : e.LagAnnounced) (hpos : 0 < e.policy.stableEofMs) :
    (e.tick t).1 = e.clock t := by
  have hended : e.ended (.tick t) = e.clock t := by
    have hclosed : e.ended (.tick t) = ((e.clock t).closeStableSources (max e.now t)).endInactive (max e.now t) := rfl
    rw [hclosed, closeStableSources_clock h hpos, endInactive, inactive_clock h hrest.waits]
    rfl
  have hfinal : (e.clock t).finalizeEnding (max e.now t) = e.clock t := by
    rw [finalizeEnding, endingDue_clock h hrest.waits]
    rfl
  have hexpire : (e.clock t).expireHeld (max e.now t) = e.clock t := by
    rw [expireHeld, expired_clock h]
    rfl
  have hsettled : e.settled (.tick t) = e.clock t := by
    have hsettled' : e.settled (.tick t) = ((e.ended (.tick t)).finalizeEnding (max e.now t)).expireHeld (max e.now t) := rfl
    rw [hsettled', hended, hfinal, hexpire]
  have hrefresh (id : EncounterId) (a : EncounterState) (ha : e.encounters[id]? = some a) : (e.clock t).refresh a = a := by
    refine (refresh_congr fun hp => ?_).trans (hrest.refreshed id a ha)
    have hwatermark := comparisonWatermark_clock h hlag ha hp
    have hcandidates : (e.clock t).candidates a = e.candidates a := by
      rw [candidates, hwatermark]
      rfl
    rw [computeSnapshot, computeSnapshot, elect, elect, hcandidates]
    rfl
  have hall : (e.clock t).refreshAll = e.clock t := by
    have hmap : e.encounters.map (fun _ => (e.clock t).refresh) = e.encounters := by
      refine ExtTreeMap.ext_getElem? fun id => ?_
      rw [ExtTreeMap.getElem?_map]
      cases ha : e.encounters[id]? with
      | none => rfl
      | some a => exact congrArg some (hrefresh id a ha)
    exact congrArg (fun encounters => { e.clock t with encounters }) hmap
  have hbook : (e.clock t).currentBook.encounters = (e.clock t).bookEntries := hrest.book
  have hstep : (e.tick t).1 = (e.settled (.tick t)).rebuildBook.1 := step_eq e (.tick t)
  rw [hstep, hsettled, rebuildBook, hall]
  dsimp only
  rw [if_pos hbook]

end

/-! ### Runs -/

theorem kept_policy (policy : CombatPolicy) : Kept (fun e => e.policy = policy) {} where
  same e e' hs h := hs.policy.trans h
  retouch e f _ _ h := h
  withdraw e message _ h := h
  push r event _ _ h := h
  damage r damage _ _ h hd := (Steady.damage hd).policy.trans h
  attempt r attempt id encounter _ _ h hd := by
    rw [hd.result]
    exact h
  slain r slain id encounter targetId _ _ h hd := by
    rw [hd.result]
    exact h
  endInactive e id now cutoff h := h
  finalize f _ _ h := (Steady.finalizeDue f.engine f.now f.due).policy.trans h
  expire e now _ h := (Steady.expireHeld e now).policy.trans h

/-- Under every accepted policy and after all calls, the next deadline is later than the clock exactly if every deadline can
be ahead; and if it is and every source that is about to lag has been announced, no tick before it changes anything. -/
theorem deadline_sound {policy : CombatPolicy} {start : CombatEngine} (hnew : new policy = some start) (calls : List Call) :
    let e := start.run calls
    ((∀ d, e.nextDeadline = some d → e.now < d) ↔ e.Ahead) ∧ (e.Ahead → e.LagAnnounced → e.DeadlineSound) := by
  unfold new at hnew
  split_ifs at hnew with hvalid
  obtain rfl := Option.some.inj hnew
  intro e
  have hrest : e.AtRest := atRest_run policy calls
  have hpolicy : e.policy = policy := (kept_policy policy).run_of_forall calls rfl
  have hpos : 0 < e.policy.stableEofMs := by
    rw [hpolicy]
    unfold CombatPolicy.valid at hvalid
    simp at hvalid
    omega
  have hlater := later_iff hrest
  refine ⟨hlater, fun hahead hlag => ⟨hlater.mpr hahead, fun t ht => ?_⟩⟩
  refine tick_clock (fun d hd => max_lt ?_ ?_) hrest hlag hpos
  · exact lt_nextDeadline_iff.mp (hlater.mpr hahead) d hd
  · exact lt_nextDeadline_iff.mp ht d hd

/-- One line of `A`, two passes at its end, and a tick long after the second is closed. -/
def idleLogCalls : List Call :=
  Sample.register ['A'] ++ [Sample.line 'A' 0 500 0 .other, .apply 100 (.sourceStableEof (Sample.log 'A').id 0),
    .apply 200 (.sourceStableEof (Sample.log 'A').id 0), .tick 5000]

/-- `A` and `B` hit `r`; the log of `A` is two seconds ahead. -/
def lagCalls : List Call :=
  Sample.register ['A', 'B'] ++ [Sample.line 'A' 0 500 0 (Sample.hit Sample.you "r" 10),
    Sample.line 'B' 0 500 0 (Sample.hit (Sample.named "A") "r" 10), Sample.line 'A' 1 501 10 (Sample.hit Sample.you "r" 10),
    Sample.line 'A' 2 502 10 .other]

/-- The sources that are behind in a live encounter they cover lag already. -/
def behindLag (e : CombatEngine) : Bool :=
  e.encounters.toList.all fun entry => entry.2.phase.isHeld || entry.2.sources.toList.all fun source =>
    (e.sources[source]?).all fun s => !entry.2.coveredBy source s || !e.behind entry.2 s ||
      e.policy.lagReceiptMs ≤ e.now.since s.lastProgressAt

theorem lagAnnounced_of_behindLag (h : e.behindLag = true) : e.LagAnnounced := by
  intro id a ha hlive source hsource s hs hcovered hbehind
  have hentry := List.all_eq_true.mp h _ (ExtTreeMap.mem_toList_iff_getElem?_eq_some.mpr ha)
  simp only [hlive, Bool.false_or] at hentry
  have hsources := List.all_eq_true.mp hentry source (ExtTreeSet.mem_toList.mpr hsource)
  simp only [hs, Option.all_some, hcovered, hbehind, Bool.not_true, Bool.false_or, decide_eq_true_eq] at hsources
  exact .inl hsources

/-- The log of `B` lags once the time for it has passed, and until the next deadline nothing is due. -/
theorem deadline_sound_two_logs :
    let e := (init .mvpV1).run (lagCalls ++ [.tick 2500])
    e.nextDeadline = some 30010 ∧ e.DeadlineSound := by
  intro e
  obtain ⟨-, hsound⟩ := @deadline_sound .mvpV1 _ rfl (lagCalls ++ [.tick 2500])
  have hpasses : (e.sources.toList.all fun entry => decide (entry.2.eofPasses < 2)) = true := by decide +kernel
  have hfresh : e.EofFresh := fun id s hs h2 => absurd h2
    (Nat.not_le.mpr (of_decide_eq_true
      (List.all_eq_true.mp hpasses _ (ExtTreeMap.mem_toList_iff_getElem?_eq_some.mpr hs))))
  exact ⟨by decide +kernel, hsound (.inr ⟨by decide +kernel, hfresh⟩) (lagAnnounced_of_behindLag (by decide +kernel))⟩

/-- The deadline of a closed source stays, and the log of `B` starts to lag before any deadline. -/
theorem deadline_stale :
    ¬ ((init .mvpV1).run idleLogCalls).DeadlineSound ∧ ¬ ((init .mvpV1).run lagCalls).DeadlineSound := by
  constructor
  · intro hsound
    have hnext : ((init .mvpV1).run idleLogCalls).nextDeadline = some 2100 := by decide +kernel
    have hnow : ((init .mvpV1).run idleLogCalls).now = 5000 := by decide +kernel
    have hlater := hsound.later 2100 hnext
    rw [hnow] at hlater
    exact absurd hlater (by decide)
  · intro hsound
    have hnext : ((init .mvpV1).run lagCalls).nextDeadline = some 30010 := by decide +kernel
    have hquiet := hsound.quiet 2500 fun d hd => by
      obtain rfl := Option.some.inj (hnext.symm.trans hd)
      decide
    have hraid := congrArg (fun e : CombatEngine => e.currentBook.encounters.map (·.raidDamage)) hquiet
    revert hraid
    decide +kernel

end Stonemite.Combat.CombatEngine
