import Stonemite.Combat.BoundsInv
import Stonemite.Combat.Counting
import Stonemite.Combat.LedgerInv

/-!
# The published book

`BookSound` ties the snapshots of an encounter to the encounter: they carry its id, and only a held
encounter has a frozen one, which shows the hold. With it the book is faithful after a call exactly if
no encounter whose projection is empty has a cached snapshot when the book is rebuilt (`faithful_step`), and
so exactly if the facts of every live encounter with a cached snapshot count when the input of the call has been
taken in (`uncached_settled_iff`). `Publishable` is the invariant of the runs.
-/

open Std

namespace Stonemite.Combat

/-- The snapshots of the encounter at `id` are its own, and a frozen one shows the hold. -/
structure EncounterState.SnapshotsOf (a : EncounterState) (id : EncounterId) : Prop where
  ownId : a.id = id
  snapshot : ∀ s, a.lastSnapshot = some s → s.id = id
  frozen : ∀ s, a.frozen = some s → a.lastSnapshot = some s ∧
    ∃ reason til, a.phase = .held reason til ∧ s.phase = .held ∧ s.endReason = some reason ∧
      s.heldUntil = some til

namespace EncounterState.SnapshotsOf
variable {a b : EncounterState} {id : EncounterId}

theorem of_sameFacts (h : a.SnapshotsOf id) (hs : SameFacts a b) : b.SnapshotsOf id where
  ownId := hs.id.trans h.ownId
  snapshot s hb := by
    obtain he | ⟨-, hid⟩ := hs.snapshot
    · exact h.snapshot s (he ▸ hb)
    · exact (hid s hb).trans h.ownId
  frozen s hb := by
    obtain ⟨hl, reason, til, hp, hshow⟩ := h.frozen s (hs.frozen ▸ hb)
    refine ⟨?_, reason, til, hs.phase.trans hp, hshow⟩
    rw [hs.heldSnapshot (by rw [hp]; rfl), hl]

/-- A fact writes no snapshot, and keeps the phase of a held encounter. -/
theorem of_sameSnapshots (h : a.SnapshotsOf id) (hs : a.SameSnapshots b)
    (hp : a.phase.isHeld = true → b.phase = a.phase) : b.SnapshotsOf id where
  ownId := hs.id.trans h.ownId
  snapshot s hb := h.snapshot s (hs.lastSnapshot ▸ hb)
  frozen s hb := by
    obtain ⟨hl, reason, til, ha, hshow⟩ := h.frozen s (hs.frozen ▸ hb)
    exact ⟨hs.lastSnapshot ▸ hl, reason, til, (hp (by rw [ha]; rfl)).trans ha, hshow⟩

theorem frozen_none (h : a.SnapshotsOf id) (hp : a.phase.isHeld = false) : a.frozen = none := by
  cases hf : a.frozen with
  | none => rfl
  | some s =>
    obtain ⟨-, reason, til, ha, -⟩ := h.frozen s hf
    rw [ha] at hp
    cases hp

end EncounterState.SnapshotsOf

/-! ### Invariants of the snapshots of each encounter -/

namespace CombatEngine

/-- Every encounter satisfies `P` at its id. -/
def Each (P : EncounterId → EncounterState → Prop) (e : CombatEngine) : Prop :=
  ∀ (id : EncounterId) (a : EncounterState), e.encounters[id]? = some a → P id a

end CombatEngine

open CombatEngine

/-- What a property of the snapshots and the phase of an encounter has to survive. -/
structure KeptEach (P : EncounterId → EncounterState → Prop) (C : Conditions) : Prop where
  same : ∀ id a b, SameFacts a b → (∀ s, b.lastSnapshot = some s → a.lastSnapshot = some s ∨ C.caching s) → P id a →
    P id b
  /-- A fact writes no snapshot, and keeps the phase of a held encounter. -/
  update : ∀ id a b, a.SameSnapshots b → (a.phase.isHeld = true → b.phase = a.phase) →
    (b.phase.isHeld = true → b.phase = a.phase) → P id a → P id b
  opened : ∀ e fact v, P (openId fact v) (openedState e fact v)
  absorb : ∀ id chosen other, P id chosen → P id (chosen.absorb other)
  close : ∀ (f : Finalizing) a, C.finalizing f → f.engine.encounters[f.due.id]? = some a →
    a.phase.isHeld = false → P f.due.id a → P f.due.id (f.engine.closing f.now f.due a)

namespace KeptEach
variable {P : EncounterId → EncounterState → Prop} {C : Conditions} {e e' : CombatEngine} {index : Nat}
  {fact : LedgerFact} {v : DamageView} {id : EncounterId}

theorem modify (h : e.Each P) {f : EncounterState → EncounterState} (hm : e'.encounters = e.encounters.modify id f)
    (hf : ∀ a : EncounterState, e.encounters[id]? = some a → P id a → P id (f a)) : e'.Each P :=
  fun k a' ha' => by
    rw [hm, ExtTreeMap.getElem?_modify_ite] at ha'
    split_ifs at ha' with hk
    · subst hk
      obtain ⟨a, ha, rfl⟩ := Option.map_eq_some_iff.mp ha'
      exact hf a ha (h id a ha)
    · exact h k a' ha'

theorem of_eq (h : e.Each P) (he : e'.encounters = e.encounters) : e'.Each P :=
  fun id a ha => h id a (he ▸ ha)

theorem absorbed (k : KeptEach P C) (h : e.Each P) {chosenId otherId : EncounterId} {chosen other : EncounterState}
    (hc : e.encounters[chosenId]? = some chosen) : (e.absorb chosenId otherId chosen other).Each P := by
  intro id a ha
  have ha : ((e.encounters.erase otherId).insert chosenId (chosen.absorb other))[id]? = some a := ha
  rw [ExtTreeMap.getElem?_insert_ite, ExtTreeMap.getElem?_erase_ite] at ha
  split_ifs at ha with hk ho
  · obtain rfl := Option.some.inj ha
    exact hk ▸ k.absorb _ _ _ (h chosenId chosen hc)
  · exact h id a ha

theorem place (k : KeptEach P C) (h : e.Each P) {o : Option EncounterId} (hp : PlaceSpec e fact v e' o) :
    e'.Each P := by
  refine hp.keeps ?_ ?_ (fun _ h => of_eq h rfl) ?_
  · exact fun hr => hr.keeps (fun _ hc _ => k.absorbed h hc) h
  · intro e' id _ hc h
    obtain ⟨a, reason, enteredAt, cutoff, closure, ha, hph, -⟩ := closureRule_resumes hc
    refine modify h rfl fun b hb hs => k.update _ b _ ⟨rfl, rfl, rfl, rfl⟩ (fun hheld => ?_) nofun hs
    obtain rfl := Option.some.inj (hb.symm.trans ha)
    rw [hph] at hheld
    cases hheld
  · intro e' ho hn h id a ha
    have ha : (e'.encounters.insert (openId fact v) (e'.openedState fact v))[id]? = some a := ha
    rw [ExtTreeMap.getElem?_insert_ite] at ha
    split_ifs at ha with hk
    · obtain rfl := Option.some.inj ha
      exact hk ▸ k.opened _ _ _
    · exact h id a ha

theorem list (k : KeptEach P C) (h : e.Each P) : (e.listDamage index fact v id).Each P := by
  rw [listDamage_eq]
  exact modify h rfl fun a _ hs => k.update _ _ _ (a.listing_snapshots _ _ _ _ _)
    (fun _ => a.listing_phase _ _ _ _ _) (fun _ => a.listing_phase _ _ _ _ _) hs

theorem promoteFact (k : KeptEach P C) (h : e.Each P) : (e.promoteFact id index).Each P := by
  cases hf : e.ledger[index]? with
  | none => simpa [CombatEngine.promoteFact, hf] using h
  | some fact =>
    rw [promoteFact_eq hf]
    exact modify h rfl fun a _ hs => k.update _ a _ ⟨rfl, rfl, rfl, rfl⟩ (fun _ => rfl) (fun _ => rfl) hs

theorem damage (k : KeptEach P C) (h : e.Each P) (hd : DamageSpec e index fact v e') : e'.Each P := by
  cases hd with
  | dropped hp => exact k.place h hp
  | ignored hp => exact k.place h hp
  | listed hp => exact k.list (k.place h hp)
  | promoted hp => exact promotePriorFacts_keeps (fun _ h => k.promoteFact h) (k.list (k.place h hp))

theorem kept (k : KeptEach P C) : Kept (Each P) C where
  same e e' hs h := of_eq h hs.encounters
  retouch e f hf hl h := fun id b hb => by
    rw [ExtTreeMap.getElem?_map] at hb
    obtain ⟨a, ha, rfl⟩ := Option.map_eq_some_iff.mp hb
    exact k.same id a _ (hf id a) (fun s => hl id a s ha) (h id a ha)
  withdraw e message _ h := by simp [Each]
  push r event _ _ h := h
  damage r damage _ _ h hd := k.damage (e := r.pushed _) h hd
  attempt r attempt id encounter _ _ h hd := by
    rw [hd.result]
    refine modify h rfl fun a _ hs => k.update _ a _ ⟨rfl, rfl, rfl, rfl⟩ (fun hp => ?_) (fun hp => ?_) hs
    · obtain ha | ⟨⟨_, _, _, ha⟩, -⟩ := a.attempt_phase (r.fact (.attempt attempt)) r.index
      · exact ha
      · rw [ha] at hp
        cases hp
    · obtain ha | ⟨-, ha⟩ := a.attempt_phase (r.fact (.attempt attempt)) r.index
      · exact ha
      · rw [ha] at hp
        cases hp
  slain r slain id encounter targetId _ _ h hd := by
    rw [hd.result]
    refine modify h rfl fun a _ hs => k.update _ _ _ (a.slaying_snapshots _ _ _ _) (fun hp => ?_) (fun hp => ?_) hs
    · obtain ha | ⟨ha, -⟩ := a.slaying_phase (r.fact (.slain slain)) r.engine.sources[r.record.source.id]? r.index targetId
      · exact ha
      · rw [ha] at hp
        cases hp
    · obtain ha | ⟨-, ha⟩ := a.slaying_phase (r.fact (.slain slain)) r.engine.sources[r.record.source.id]? r.index targetId
      · exact ha
      · rw [ha] at hp
        cases hp
  endInactive e id now cutoff h := modify h rfl fun a _ hs => by
    refine k.update _ a _ (by rw [a.enterEnding_eq]; exact ⟨rfl, rfl, rfl, rfl⟩) (fun hp => ?_) (fun hp => ?_) hs
    all_goals
      unfold EncounterState.enterEnding at hp ⊢
      cases ha : a.phase <;> simp [ha, PhaseState.isHeld] at hp ⊢
  finalize f hf hdue h := by
    unfold Finalizing.result
    rw [finalizeDue_eq]
    obtain ⟨a, enteredAt, closure, ha, hp, -⟩ := hdue
    refine modify h rfl fun b hb hs => k.close f b hf hb ?_ hs
    obtain rfl := Option.some.inj (hb.symm.trans ha)
    rw [hp]
    rfl
  expire e now _ h := fun id a ha => by
    rw [(e.expireHeld_spec now).1] at ha
    split_ifs at ha
    exact h id a ha

theorem run (k : KeptEach P C) {policy : CombatPolicy} {calls : List Call}
    (h : Along (Kept.CallOk C) step (init policy) calls) : ((init policy).run calls).Each P :=
  k.kept.run h (by simp [Each, init])

end KeptEach

namespace CombatEngine

/-- Every snapshot of the cache is one of its encounter. -/
def BookSound (e : CombatEngine) : Prop := e.Each fun id a => a.SnapshotsOf id

theorem frozenSnapshot_spec {e : CombatEngine} {a : EncounterState} {reason : EndReason} {til : MonoTime}
    {s : EncounterSnapshot} (h : e.frozenSnapshot a reason til = some s) :
    s.id = a.id ∧ s.phase = .held ∧ s.endReason = some reason ∧ s.heldUntil = some til := by
  unfold frozenSnapshot at h
  obtain ⟨snapshot, hs, rfl⟩ := Option.map_eq_some_iff.mp h
  exact ⟨(computeSnapshot_spec hs).id, rfl, rfl, rfl⟩

end CombatEngine

theorem keptEach_snapshotsOf : KeptEach (fun id a => a.SnapshotsOf id) {} where
  same _ _ _ hs _ h := h.of_sameFacts hs
  update _ _ _ hs hp _ h := h.of_sameSnapshots hs hp
  opened _ _ _ := ⟨rfl, nofun, nofun⟩
  absorb _ _ _ h := ⟨h.ownId, nofun, nofun⟩
  close f a _ _ hp h := by
    rw [closing_spec]
    dsimp only
    cases hs : f.engine.frozenSnapshot (f.engine.markClosed f.now f.due a) f.due.reason
        (MonoTime.add f.now f.engine.policy.heldMs) with
    | none => exact ⟨h.ownId, h.snapshot, fun s hf => by simp [h.frozen_none hp] at hf⟩
    | some snapshot =>
      obtain ⟨hid, hshow⟩ := frozenSnapshot_spec hs
      refine ⟨h.ownId, ?_, ?_⟩
      · rintro s ⟨⟩
        exact hid.trans h.ownId
      · rintro s ⟨⟩
        exact ⟨rfl, _, _, rfl, hshow⟩

theorem kept_bookSound : Kept BookSound {} := keptEach_snapshotsOf.kept

theorem bookSound_run (policy : CombatPolicy) (calls : List Call) : ((init policy).run calls).BookSound :=
  keptEach_snapshotsOf.run (Along.trivial_along Kept.callOk_trivial)

/-- A cached snapshot of the encounter is its frozen one. -/
def EncounterState.Clean (a : EncounterState) : Prop := a.frozen = none → a.lastSnapshot = none

/-- The encounter has a projection when it is finalized, or no cached snapshot. -/
def Finalizing.Projects (f : Finalizing) : Prop :=
  ∀ a ∈ f.engine.encounters[f.due.id]?,
    a.lastSnapshot = none ∨ (f.engine.computeSnapshot (f.engine.markClosed f.now f.due a) 0).isSome

instance : DecidablePred Finalizing.Projects := fun _ => inferInstanceAs (Decidable (∀ a ∈ _, _))

open CombatEngine

/-- Finalized with a projection, a held encounter has no cached snapshot but its frozen one. -/
theorem keptEach_clean :
    KeptEach (fun _ a => a.phase.isHeld = true → a.Clean) { finalizing := Finalizing.Projects } where
  same _ a b hs _ h hp := by
    unfold EncounterState.Clean
    rw [hs.frozen, hs.heldSnapshot (hs.phase ▸ hp)]
    exact h (hs.phase ▸ hp)
  update _ a b hs _ hb h hp := by
    unfold EncounterState.Clean
    rw [hs.frozen, hs.lastSnapshot]
    exact h (hb hp ▸ hp)
  opened _ _ _ := nofun
  absorb _ _ _ _ := nofun
  close f a hf ha _ _ _ := by
    rw [closing_spec]
    unfold EncounterState.Clean
    dsimp only
    obtain hn | hc := hf a ha
    · rw [hn]
      cases f.engine.frozenSnapshot (f.engine.markClosed f.now f.due a) f.due.reason
        (MonoTime.add f.now f.engine.policy.heldMs) <;> simp
    · obtain ⟨s, hs⟩ := Option.isSome_iff_exists.mp hc
      unfold frozenSnapshot
      rw [hs]
      simp

/-! ### Publishing -/

namespace CombatEngine

/-- Every entry of the book is the projection of an encounter of the map, with its phase: the frozen one
of a held encounter, else the one computed from the present facts and identities. -/
def Faithful (e : CombatEngine) : Prop :=
  ∀ s ∈ e.currentBook.encounters, ∃ a : EncounterState, e.encounters[s.id]? = some a ∧ s.phase = a.phase.shown ∧
    if a.phase.isHeld then a.frozen = some s else e.computeSnapshot a 0 = some { s with revision := 0 }

/-- The encounter has no cached snapshot, or it has a projection: the frozen one when it is held. -/
def Projects (e : CombatEngine) (a : EncounterState) : Bool :=
  a.lastSnapshot.isNone || if a.phase.isHeld then a.frozen.isSome else (e.computeSnapshot a 0).isSome

/-- No encounter whose projection is empty has a cached snapshot. -/
def Uncached (e : CombatEngine) : Prop := ∀ entry ∈ e.encounters.toList, e.Projects entry.2 = true

instance (e : CombatEngine) : Decidable e.Uncached := inferInstanceAs (Decidable (∀ _ ∈ _, _))

variable {e : CombatEngine}

theorem mem_bookEntries {s : EncounterSnapshot} :
    s ∈ e.bookEntries ↔ ∃ (id : EncounterId) (a : EncounterState), e.encounters[id]? = some a ∧ a.published = some s := by
  unfold bookEntries
  simp only [mem_sortBy, List.mem_filterMap, Prod.exists, ExtTreeMap.mem_toList_iff_getElem?_eq_some]

theorem rebuildBook_spec (e : CombatEngine) :
    e.rebuildBook.1.encounters = e.encounters.map (fun _ => e.refresh) ∧
      e.rebuildBook.1.currentBook.encounters = e.refreshAll.bookEntries ∧
      ∀ (a : EncounterState) (revision : UInt64),
        e.rebuildBook.1.computeSnapshot a revision = e.computeSnapshot a revision := by
  unfold rebuildBook
  dsimp only
  split_ifs with h
  · exact ⟨rfl, h, fun _ _ => rfl⟩
  · exact ⟨rfl, rfl, fun _ _ => rfl⟩

theorem mem_rebuildBook {s : EncounterSnapshot} :
    s ∈ e.rebuildBook.1.currentBook.encounters ↔
      ∃ (id : EncounterId) (a : EncounterState), e.encounters[id]? = some a ∧ (e.refresh a).published = some s := by
  rw [(rebuildBook_spec e).2.1, mem_bookEntries]
  unfold refreshAll
  simp only [ExtTreeMap.getElem?_map, Option.map_eq_some_iff]
  constructor
  · rintro ⟨id, _, ⟨a, ha, rfl⟩, hs⟩
    exact ⟨id, a, ha, hs⟩
  · rintro ⟨id, a, ha, hs⟩
    exact ⟨id, _, ⟨a, ha, rfl⟩, hs⟩

/-- A refresh caches the projection of a live encounter, when there is one. -/
theorem refresh_snapshot {a : EncounterState} (hp : a.phase.isHeld = false) :
    (∃ s, (e.refresh a).lastSnapshot = some s ∧ e.computeSnapshot a 0 = some { s with revision := 0 }) ∨
      e.computeSnapshot a 0 = none ∧ e.refresh a = a := by
  unfold refresh
  rw [hp]
  cases hc : e.computeSnapshot a 0 with
  | none => exact .inr ⟨rfl, rfl⟩
  | some candidate =>
    refine .inl ?_
    simp only [Bool.false_eq_true, ↓reduceIte]
    split_ifs with hsame
    · obtain ⟨s, hs, h⟩ := (Option.any_eq_true _ _).mp hsame
      exact ⟨s, hs, congrArg some (of_decide_eq_true h).symm⟩
    · refine ⟨_, rfl, ?_⟩
      have hr := (computeSnapshot_spec hc).revision
      rw [← hr]

theorem computeSnapshot_refresh (a : EncounterState) : e.computeSnapshot (e.refresh a) 0 = e.computeSnapshot a 0 := by
  unfold refresh
  split_ifs
  · rfl
  · split
    · rfl
    · split_ifs <;> rfl

theorem refresh_held {a : EncounterState} (hp : a.phase.isHeld = true) : e.refresh a = a := by
  unfold refresh
  rw [if_pos hp]

/-- The book is faithful after a rebuild exactly if no encounter with an empty projection has a cached
snapshot. -/
theorem faithful_rebuildBook (h : e.BookSound) : e.rebuildBook.1.Faithful ↔ e.Uncached := by
  obtain ⟨henc, -, hcompute⟩ := rebuildBook_spec e
  have hlookup (id : EncounterId) : e.rebuildBook.1.encounters[id]? = e.encounters[id]?.map e.refresh := by
    rw [henc, ExtTreeMap.getElem?_map]
  constructor
  · intro hf ⟨id, a⟩ hm
    have ha := ExtTreeMap.lookup_of_mem_toList hm
    unfold Projects
    cases hl : a.lastSnapshot with
    | none => rfl
    | some cached =>
      -- the encounter publishes something, which is then its projection
      have publishes : ∃ s, (e.refresh a).published = some s := by
        unfold EncounterState.published
        obtain hp | hp := Bool.eq_false_or_eq_true a.phase.isHeld
        · rw [refresh_held hp, hl]
          cases a.frozen <;> exact ⟨_, rfl⟩
        · rw [(sameFacts_refresh e a).frozen, (h id a ha).frozen_none hp]
          obtain ⟨s, hs, -⟩ | ⟨-, hr⟩ := refresh_snapshot (e := e) hp
          · exact ⟨s, by rw [hs]; rfl⟩
          · exact ⟨cached, by rw [hr, hl]; rfl⟩
      obtain ⟨s, hs⟩ := publishes
      have hid : s.id = id := by
        have hsound := (h id a ha).of_sameFacts (sameFacts_refresh e a)
        unfold EncounterState.published at hs
        cases hfr : (e.refresh a).frozen with
        | none => exact hsound.snapshot s (by simpa [hfr] using hs)
        | some frozen =>
          obtain rfl : frozen = s := by simpa [hfr] using hs
          exact hsound.snapshot _ (hsound.frozen _ hfr).1
      obtain ⟨b, hb, -, hproj⟩ := hf s (mem_rebuildBook.mpr ⟨id, a, ha, hs⟩)
      rw [hid, hlookup, ha] at hb
      obtain rfl := Option.some.inj hb
      rw [(sameFacts_refresh e a).phase, hcompute, computeSnapshot_refresh,
        (sameFacts_refresh e a).frozen] at hproj
      dsimp only
      split_ifs at hproj ⊢ <;> simp [hproj]
  · intro hu s hs
    obtain ⟨id, a, ha, hs⟩ := mem_rebuildBook.mp hs
    have hproj := hu _ (ExtTreeMap.mem_toList_of_lookup ha)
    have hsound := (h id a ha).of_sameFacts (sameFacts_refresh e a)
    have hphase := (sameFacts_refresh e a).phase
    obtain hp | hp := Bool.eq_false_or_eq_true a.phase.isHeld
    · -- held: the frozen snapshot
      rw [refresh_held hp] at hs hsound
      unfold Projects at hproj
      unfold EncounterState.published at hs
      rw [hp] at hproj
      cases hfr : a.frozen with
      | none =>
        rw [hfr] at hs hproj
        have hl : a.lastSnapshot = some s := hs
        rw [hl] at hproj
        cases hproj
      | some frozen =>
        obtain rfl : frozen = s := by simpa [hfr] using hs
        obtain ⟨hl, reason, til, hph, hshow, -⟩ := hsound.frozen _ hfr
        refine ⟨a, ?_, ?_, ?_⟩
        · rw [hlookup, hsound.snapshot _ hl, ha, Option.map_some, refresh_held hp]
        · rw [hshow, hph]
          rfl
        · rw [if_pos hp, hfr]
    · -- live: the cached snapshot, which the refresh brought up to date
      have hfr : (e.refresh a).frozen = none := hsound.frozen_none (by rw [hphase, hp])
      have hl : (e.refresh a).lastSnapshot = some s := by
        unfold EncounterState.published at hs
        simpa [hfr] using hs
      have hc : e.computeSnapshot a 0 = some { s with revision := 0 } := by
        obtain ⟨s', hs', hc⟩ | ⟨hc, hr⟩ := refresh_snapshot (e := e) hp
        · obtain rfl := Option.some.inj (hl.symm.trans hs')
          exact hc
        · unfold Projects at hproj
          rw [hr] at hl
          rw [hl, hp, hc] at hproj
          cases hproj
      refine ⟨e.refresh a, ?_, ?_, ?_⟩
      · rw [hlookup, hsound.snapshot s hl, ha, Option.map_some]
      · rw [hphase]
        exact (computeSnapshot_spec hc).phase
      · rw [hphase, hp, hcompute, computeSnapshot_refresh]
        exact hc

/-- The book shows the snapshots of the encounters. -/
def BookShows (e : CombatEngine) : Prop :=
  ∀ s, s ∈ e.currentBook.encounters ↔
    ∃ (id : EncounterId) (a : EncounterState), e.encounters[id]? = some a ∧ a.published = some s

theorem bookShows_step (e : CombatEngine) (call : Call) : (e.step call).BookShows := fun s => by
  obtain ⟨henc, hbook, -⟩ := rebuildBook_spec (e.settled call)
  rw [step_eq, hbook, mem_bookEntries, henc]
  rfl

theorem bookShows_run (policy : CombatPolicy) (calls : List Call) : ((init policy).run calls).BookShows :=
  foldl_invariant (fun e call _ => bookShows_step e call) calls fun s => by simp [init]

theorem faithful_step (h : e.BookSound) (call : Call) : (e.step call).Faithful ↔ (e.settled call).Uncached := by
  rw [step_eq]
  exact faithful_rebuildBook (kept_bookSound.settled call (Kept.callOk_trivial e call) h).2

/-! ### What a call projects -/

/-- The ledger holds no more facts, and its facts no more damage, than words do. -/
structure Measured (e : CombatEngine) : Prop where
  facts : e.ledger.length < 2 ^ 64
  amounts : e.EachFact fun fact => ∀ damage, fact.event = .damage damage → damage.amount < 2 ^ 64

theorem counted_amount {a : EncounterState} (h : e.Measured) {c : Counted} (hc : c ∈ e.counted a) : c.amount < 2 ^ 64 := by
  obtain ⟨i, -, hc⟩ := List.mem_filterMap.mp hc
  obtain ⟨fact, hfact, hc⟩ := Option.bind_eq_some_iff.mp hc
  unfold classify at hc
  split_ifs at hc
  cases hevent : fact.event with
  | attempt | slain =>
    rw [hevent] at hc
    cases hc
  | damage damage =>
    rw [hevent] at hc
    dsimp only at hc
    split_ifs at hc
    obtain rfl := Option.some.inj hc
    exact h.amounts fact (List.mem_of_getElem? hfact) damage hevent

/-- The facts that an encounter lists are in the ledger, and their damage fits. -/
theorem Measured.fits (h : e.Measured) (hok : e.LedgerOk) {id : EncounterId} {a b : EncounterState}
    (ha : e.encounters[id]? = some a) (hb : b.facts = a.facts) : e.FactsKnown b ∧ Fits (e.counted b) := by
  have hknown : ∀ i ∈ b.facts, i < e.ledger.length := fun i hi =>
    hok.inRange i id (hok.assigned id a ha i (hb ▸ hi))
  have hlength : (e.counted b).length < 2 ^ 64 := by
    have hrange : b.facts.length ≤ (List.range e.ledger.length).length :=
      (List.subperm_of_subset (hb ▸ hok.nodup id a ha) fun i hi => List.mem_range.mpr (hknown i hi)).length_le
    rw [List.length_range] at hrange
    exact ((List.length_filterMap_le _ _).trans hrange).trans_lt h.facts
  refine ⟨hknown, ?_, hlength⟩
  have hsum := List.sum_le_card_nsmul ((e.counted b).map (·.amount)) (2 ^ 64 - 1) fun x hx => by
    obtain ⟨c, hc, rfl⟩ := List.mem_map.mp hx
    exact Nat.le_sub_one_of_lt (counted_amount h hc)
  rw [List.length_map, smul_eq_mul] at hsum
  have hmul : (e.counted b).length * (2 ^ 64 - 1) ≤ (2 ^ 64 - 1) * (2 ^ 64 - 1) := Nat.mul_le_mul_right _ (by omega)
  exact (hsum.trans hmul).trans_lt (by norm_num)

/-- Every encounter that is not held but has a cached snapshot lists a fact that counts: up to its end if it is finalized
and its hold outlasts the call, else up to the comparison watermark. -/
def Counting (e : CombatEngine) (now : MonoTime) : Prop :=
  ∀ (id : EncounterId) (a : EncounterState), e.encounters[id]? = some a → a.phase.isHeld = false → a.lastSnapshot ≠ none →
    if id ∈ (e.endingDue now).map (·.id) then now < MonoTime.add now e.policy.heldMs → e.CountsSome a (some a.endEq)
    else e.CountsSome a (e.comparisonWatermark a)

/-- A held encounter has no cached snapshot but its frozen one. -/
def HeldClean (e : CombatEngine) : Prop := e.Each fun _ a => a.phase.isHeld = true → a.Clean

section
variable {now : MonoTime} {due : List EndingDue} {id : EncounterId} {a : EncounterState}

theorem foldl_finalizeDue_other (h : id ∉ due.map (·.id)) :
    (due.foldl (fun e due => e.finalizeDue now due) e).encounters[id]? = e.encounters[id]? := by
  induction due generalizing e with
  | nil => rfl
  | cons d due ih =>
    obtain ⟨hd, hdue⟩ := not_or.mp (mt List.mem_cons.mpr h)
    rw [List.foldl_cons, ih hdue, finalizeDue_eq]
    exact ExtTreeMap.getElem?_modify_of_ne (Ne.symm hd) _

theorem foldl_finalizeDue_closing (hnodup : (due.map (·.id)).Nodup) {d : EndingDue} (hd : d ∈ due) :
    (due.foldl (fun e due => e.finalizeDue now due) e).encounters[d.id]? = (e.encounters[d.id]?).map (e.closing now d) := by
  induction due generalizing e with
  | nil => cases hd
  | cons first due ih =>
    rw [List.map_cons] at hnodup
    obtain ⟨hfirst, hnodup⟩ := List.nodup_cons.mp hnodup
    rw [List.foldl_cons]
    rcases List.mem_cons.mp hd with rfl | hd
    · rw [foldl_finalizeDue_other hfirst, finalizeDue_eq]
      exact (ExtTreeMap.getElem?_modify_ite ..).trans (if_pos rfl)
    · have hne : first.id ≠ d.id := fun heq => hfirst (heq ▸ List.mem_map_of_mem hd)
      have hclosing : (e.finalizeDue now first).closing now d = e.closing now d := by
        rw [finalizeDue_eq]
        rfl
      rw [ih hnodup hd, hclosing, finalizeDue_eq]
      exact congrArg _ (ExtTreeMap.getElem?_modify_of_ne hne _)

/-- Finalizing and expiring change no projection, as long as there is an encounter. -/
theorem computeSnapshot_settled {call : Call} (h : (e.settled call).encounters[id]? = some a) (b : EncounterState)
    (revision : UInt64) : (e.settled call).computeSnapshot b revision = (e.ended call).computeSnapshot b revision := by
  have hfinal : ((e.ended call).finalizeEnding (e.handled call).now).computeSnapshot b revision =
      (e.ended call).computeSnapshot b revision :=
    foldl_invariant (I := fun e' : CombatEngine => e'.computeSnapshot b revision = (e.ended call).computeSnapshot b revision)
      (fun e' d h => by rw [finalizeDue_eq]; exact h) _ rfl
  rw [← hfinal]
  unfold settled expireHeld at h ⊢
  dsimp only at h ⊢
  split_ifs at h ⊢ with hempty
  · simp only [Bool.and_eq_true] at hempty
    rw [ExtTreeMap.isEmpty_iff.mp hempty.1.2] at h
    simp at h
  · rfl

theorem countsSome_markClosed {d : EndingDue} {cut : Option EqSecond} :
    e.CountsSome (e.markClosed now d a) cut ↔ e.CountsSome a cut := by
  refine exists_congr fun i => and_congr_right fun _ => exists_congr fun fact => and_congr_right fun _ =>
    exists_congr fun damage => ⟨fun h => ?_, fun h => ?_⟩
  · exact ⟨h.event, h.inTime, h.positive, h.target, h.defender, h.other, h.attributable⟩
  · exact ⟨h.event, h.inTime, h.positive, h.target, h.defender, h.other, h.attributable⟩

/-- A finalized encounter that had a cached snapshot has a projection exactly if a fact counts up to its end. -/
theorem projects_closing (hm : e.Measured) (hok : e.LedgerOk) (d : EndingDue) (now : MonoTime)
    (ha : e.encounters[id]? = some a) (hsound : a.SnapshotsOf id) (hp : a.phase.isHeld = false) (e' : CombatEngine) :
    e'.Projects (e.closing now d a) = true ↔ (a.lastSnapshot ≠ none → e.CountsSome a (some a.endEq)) := by
  obtain ⟨hknown, hfit⟩ := hm.fits hok ha (b := e.markClosed now d a) rfl
  have hmark : e.CountsSome (e.markClosed now d a) (some a.endEq) ↔ e.CountsSome a (some a.endEq) := countsSome_markClosed
  have hcounts := (computeSnapshot_isSome_iff hknown hfit 0).trans hmark
  rw [← hcounts]
  unfold Projects
  rw [closing_phase, closing_spec, hsound.frozen_none hp, Option.or_none, frozenSnapshot]
  cases e.computeSnapshot (e.markClosed now d a) 0 with
  | none => cases a.lastSnapshot <;> simp [PhaseState.isHeld]
  | some snapshot => simp [PhaseState.isHeld]

/-! ### What a call makes of an encounter -/

variable {call : Call}

theorem settled_lookup (e : CombatEngine) (call : Call) (id : EncounterId) : (e.settled call).encounters[id]? =
    if id ∈ ((e.ended call).finalizeEnding (e.handled call).now).expired (e.handled call).now then none
    else ((e.ended call).finalizeEnding (e.handled call).now).encounters[id]? :=
  (((e.ended call).finalizeEnding (e.handled call).now).expireHeld_spec (e.handled call).now).1 id

/-- An encounter that is due is finalized, and there is nothing left of it where its hold is over at once. -/
theorem settled_closing {d : EndingDue} (hd : d ∈ (e.ended call).endingDue (e.handled call).now)
    (ha : (e.ended call).encounters[d.id]? = some a) : (e.settled call).encounters[d.id]? =
      if (e.handled call).now < MonoTime.add (e.handled call).now (e.ended call).policy.heldMs then
        some ((e.ended call).closing (e.handled call).now d a)
      else none := by
  have hfinal : ((e.ended call).finalizeEnding (e.handled call).now).encounters[d.id]? =
      some ((e.ended call).closing (e.handled call).now d a) := by
    refine (foldl_finalizeDue_closing ((e.ended call).nodup_endingDue _) hd).trans ?_
    rw [ha]
    rfl
  rw [settled_lookup]
  split_ifs with hx hlasts hlasts
  · obtain ⟨b, reason, til, hb, hph, hle⟩ := mem_expired.mp hx
    obtain rfl := Option.some.inj (hfinal.symm.trans hb)
    rw [closing_phase] at hph
    cases hph
    exact absurd hlasts (Nat.not_lt_of_le hle)
  · rfl
  · exact hfinal
  · exact absurd (mem_expired.mpr ⟨_, d.reason, _, hfinal, closing_phase .., Nat.le_of_not_lt hlasts⟩) hx

theorem settled_untouched (hdue : id ∉ ((e.ended call).endingDue (e.handled call).now).map (·.id))
    (h : (e.settled call).encounters[id]? = some a) : (e.ended call).encounters[id]? = some a := by
  rw [settled_lookup] at h
  split_ifs at h with hx
  rw [← h]
  exact (foldl_finalizeDue_other hdue).symm

theorem settled_live (hdue : id ∉ ((e.ended call).endingDue (e.handled call).now).map (·.id))
    (ha : (e.ended call).encounters[id]? = some a) (hp : a.phase.isHeld = false) :
    (e.settled call).encounters[id]? = some a := by
  have hfinal : ((e.ended call).finalizeEnding (e.handled call).now).encounters[id]? = some a :=
    (foldl_finalizeDue_other hdue).trans ha
  rw [settled_lookup, if_neg, hfinal]
  intro hx
  obtain ⟨b, reason, til, hb, hph, -⟩ := mem_expired.mp hx
  obtain rfl := Option.some.inj (hfinal.symm.trans hb)
  rw [hph] at hp
  cases hp

theorem projects_live (hm : (e.ended call).Measured) (hok : (e.ended call).LedgerOk)
    (ha : (e.ended call).encounters[id]? = some a) (hp : a.phase.isHeld = false)
    (hkept : (e.settled call).encounters[id]? = some a) : (e.settled call).Projects a = true ↔
      (a.lastSnapshot ≠ none → (e.ended call).CountsSome a ((e.ended call).comparisonWatermark a)) := by
  obtain ⟨hknown, hfit⟩ := hm.fits hok ha rfl
  rw [← computeSnapshot_isSome_iff hknown hfit 0]
  unfold Projects
  rw [hp, computeSnapshot_settled hkept]
  cases a.lastSnapshot with
  | none => simp
  | some cached => simp

theorem projects_held (hp : a.phase.isHeld = true) (hclean : a.Clean) : e.Projects a = true := by
  unfold Projects
  cases hf : a.frozen with
  | none => rw [hclean hf]; rfl
  | some frozen => simp [hp]

end

/-- The book of a call is faithful exactly if, before anything is finalized, the facts of every live encounter with a cached
snapshot count. -/
theorem uncached_settled_iff {call : Call} (hsound : (e.ended call).BookSound) (hok : (e.ended call).LedgerOk)
    (hm : (e.ended call).Measured) (hclean : (e.ended call).HeldClean) :
    (e.settled call).Uncached ↔ (e.ended call).Counting (e.handled call).now := by
  constructor
  · intro hu id a ha hp hcached
    split_ifs with hdue
    · intro hlasts
      obtain ⟨d, hd, rfl⟩ := List.mem_map.mp hdue
      have hkept := (settled_closing hd ha).trans (if_pos hlasts)
      have hproj := hu _ (ExtTreeMap.mem_toList_of_lookup hkept)
      exact (projects_closing hm hok d _ ha (hsound d.id a ha) hp _).mp hproj hcached
    · have hkept := settled_live hdue ha hp
      have hproj := hu _ (ExtTreeMap.mem_toList_of_lookup hkept)
      exact (projects_live hm hok ha hp hkept).mp hproj hcached
  · rintro hcounting ⟨id, b⟩ hentry
    have hb := ExtTreeMap.lookup_of_mem_toList hentry
    by_cases hdue : id ∈ ((e.ended call).endingDue (e.handled call).now).map (·.id)
    · obtain ⟨d, hd, rfl⟩ := List.mem_map.mp hdue
      obtain ⟨a, enteredAt, closure, ha, hphase, -⟩ := dueAt_of_mem_endingDue hd
      have hp : a.phase.isHeld = false := by rw [hphase]; rfl
      have hkept := settled_closing hd ha
      rw [hb] at hkept
      split_ifs at hkept with hlasts
      obtain rfl := Option.some.inj hkept
      refine (projects_closing hm hok d _ ha (hsound d.id a ha) hp _).mpr fun hcached => ?_
      have hcounts := hcounting d.id a ha hp hcached
      rw [if_pos hdue] at hcounts
      exact hcounts hlasts
    · have ha := settled_untouched hdue hb
      cases hp : b.phase.isHeld with
      | true => exact projects_held hp (hclean id b ha hp)
      | false =>
        refine (projects_live hm hok ha hp hb).mpr fun hcached => ?_
        have hcounts := hcounting id b ha hp hcached
        rw [if_neg hdue] at hcounts
        exact hcounts

/-! ### Runs -/

/-- The damage of an event is a word. -/
def sizedEvent : LogEvent → Bool
  | .combat (.damage damage) => damage.amount < 2 ^ 64
  | _ => true

/-- The record of a call has no more facts, and its facts no more damage, than words do. -/
def sizedCall : Call → Bool
  | .apply _ (.record record) => record.events.countP LogEvent.isFact < 2 ^ 64 && record.events.all sizedEvent
  | _ => true

theorem sizedCall_record {now : MonoTime} {record : CombatRecord} (h : sizedCall (.apply now (.record record)) = true) :
    record.events.countP LogEvent.isFact < 2 ^ 64 ∧ ∀ event ∈ record.events, sizedEvent event = true := by
  obtain ⟨hfacts, hevents⟩ := Bool.and_eq_true_iff.mp h
  exact ⟨of_decide_eq_true hfacts, List.all_eq_true.mp hevents⟩

/-- What the book of the next call rests on. -/
structure Publishable (e : CombatEngine) : Prop where
  sound : e.BookSound
  ledger : e.LedgerOk
  within : Within (2 ^ 64 - 1) e
  amounts : e.EachFact fun fact => ∀ damage, fact.event = .damage damage → damage.amount < 2 ^ 64
  clean : e.HeldClean

namespace Publishable
variable {call : Call}

theorem sized_reductions (hc : sizedCall call = true) : ∀ r ∈ e.reductions call, ∀ event, r.Presents event →
    ∀ damage, (r.fact event).event = .damage damage → damage.amount < 2 ^ 64 := by
  intro r hr event hevent damage hdamage
  cases call with
  | tick now => exact absurd hr List.not_mem_nil
  | apply now input =>
    cases input with
    | sourceRegistered | sourceRemoved | sourceGap | sourceStableEof => exact absurd hr List.not_mem_nil
    | record record =>
      have hdamage : event = .damage damage := hdamage
      subst hdamage
      have hsized (hm : r.event ∈ record.events) : damage.amount < 2 ^ 64 := by
        have hevent := hevent ▸ (sizedCall_record hc).2 r.event hm
        exact of_decide_eq_true hevent
      refine hsized ?_
      unfold reductions recordReductions at hr
      dsimp only at hr
      generalize (e.clock now).accept record now = admitted at hr
      obtain ⟨e1, accepted⟩ := admitted
      cases accepted with
      | false => exact absurd hr List.not_mem_nil
      | true =>
        dsimp only at hr
        generalize e1.datable record = dated at hr
        obtain ⟨e2, second⟩ := dated
        cases second with
        | none => exact absurd hr List.not_mem_nil
        | some second => exact (mem_reductionsFrom hr).2

theorem faithful_iff (h : Publishable e) (hc : sizedCall call = true) :
    (e.step call).Faithful ↔ (e.ended call).Counting (e.handled call).now := by
  have hhandled := (kept_eachFact _).handled call (sized_reductions hc) (fun _ _ => trivial) h.amounts
  have hwithin : Within (2 ^ 64 - 1) (e.handled call) := h.within.handled call fun now record hcall => by
    subst hcall
    exact Nat.le_sub_one_of_lt (sizedCall_record hc).1
  have hm : (e.ended call).Measured :=
    ⟨Nat.lt_of_le_sub_one (by decide) (hwithin.steady (.ended e call)).ledger, (kept_eachFact _).ended call hhandled.2⟩
  have hended {P : CombatEngine → Prop} {C : Conditions} (k : Kept P C) (hr : ∀ r, C.reduction r) (hw : ∀ e, C.withdrawing e)
      (h0 : P e) : P (e.ended call) :=
    k.ended call (k.handled call (fun r _ => hr r) (fun w _ => hw w) h0).2
  rw [faithful_step h.sound call]
  exact uncached_settled_iff (hended kept_bookSound (fun _ => trivial) (fun _ => trivial) h.sound)
    (hended kept_ledgerOk (fun _ => trivial) (fun _ => trivial) h.ledger) hm
    (hended keptEach_clean.kept (fun _ => trivial) (fun _ => trivial) h.clean)

theorem step (h : Publishable e) (hc : sizedCall call = true) (hf : (e.step call).Faithful) : Publishable (e.step call) where
  sound := kept_bookSound.step call (Kept.callOk_trivial e call) h.sound
  ledger := kept_ledgerOk.step call (Kept.callOk_trivial e call) h.ledger
  within := by
    have hwithin : Within (2 ^ 64 - 1) (e.handled call) := h.within.handled call fun now record hcall => by
      subst hcall
      exact Nat.le_sub_one_of_lt (sizedCall_record hc).1
    rw [step_eq]
    exact (hwithin.steady (.settled e call)).steady (.rebuildBook _)
  amounts := (kept_eachFact _).step call
    ⟨sized_reductions hc, fun _ _ => trivial, fun _ _ => trivial, trivial, fun _ _ => trivial⟩ h.amounts
  clean := by
    have hu := (faithful_step h.sound call).mp hf
    intro id a ha hp hnone
    rw [step_eq, (rebuildBook_spec _).1, ExtTreeMap.getElem?_map] at ha
    obtain ⟨b, hb, rfl⟩ := Option.map_eq_some_iff.mp ha
    have hpb : b.phase.isHeld = true := (sameFacts_refresh _ b).phase ▸ hp
    rw [refresh_held hpb] at hnone ⊢
    have hproj := hu _ (ExtTreeMap.mem_toList_of_lookup hb)
    unfold Projects at hproj
    rw [hpb, hnone] at hproj
    simpa using hproj

end Publishable

theorem along_faithful (policy : CombatPolicy) (calls : List Call) :
    (∀ pre call post, calls = pre ++ call :: post → ((init policy).run (pre ++ [call])).Faithful) ↔
      Along (fun e call => (e.step call).Faithful) step (init policy) calls := by
  rw [Along.iff_forall]
  have hstep (pre : List Call) (call : Call) : (init policy).run (pre ++ [call]) = ((init policy).run pre).step call :=
    List.foldl_concat ..
  simp only [hstep]
  rfl

/-- The book is faithful after every call of a run exactly if in every call, before anything is finalized or published, the
facts of every live encounter with a cached snapshot count. -/
theorem book_faithful (policy : CombatPolicy) (hpolicy : policy.maxLedgerFacts < 2 ^ 64) (calls : List Call)
    (hcalls : ∀ call ∈ calls, sizedCall call = true) :
    (∀ pre call post, calls = pre ++ call :: post → ((init policy).run (pre ++ [call])).Faithful) ↔
      Along (fun e call => (e.ended call).Counting (e.handled call).now) step (init policy) calls := by
  rw [along_faithful]
  refine Along.congr_of_invariant (I := Publishable) (fun e call hm h => h.faithful_iff (hcalls call hm))
    (fun e call hm h hf => h.step (hcalls call hm) hf) ?_
  exact ⟨bookSound_run policy [], ledgerOk_run policy [], ⟨Nat.le_sub_one_of_lt hpolicy, Nat.zero_le _⟩,
    fun _ hm => absurd hm List.not_mem_nil, fun id a ha => by simp [init] at ha⟩

/-- Two hits count up to the end of their encounter, which is then frozen and expires. -/
theorem book_faithful_expiry :
    Along (fun e call => (e.ended call).Counting (e.handled call).now) step (init .mvpV1) (twoHits ++ expiry) := by
  have hu : Along (fun e call => (e.settled call).Uncached) step (init .mvpV1) (twoHits ++ expiry) := by decide +kernel
  refine (book_faithful .mvpV1 (by decide) (twoHits ++ expiry) (by decide)).mp ((along_faithful _ _).mpr ?_)
  refine Along.iff_forall.mpr fun pre call post hl => ?_
  exact (faithful_step (bookSound_run .mvpV1 pre) call).mpr (Along.iff_forall.mp hu pre call post hl)

/-- `A` hits `P`, who then turns out to be a player. -/
def defenderVerified : List Call :=
  Sample.register ['A'] ++ [Sample.line 'A' 0 500 0 (Sample.hit Sample.you "P" 10)]

/-- The rows of the first hit stay in the book although no fact counts any more. -/
theorem stale_book_unfaithful :
    ¬ ((init .mvpV1).run (defenderVerified ++ [Sample.line 'A' 1 501 10 (.whoResult "P".toList)])).Faithful := by
  have hu : ¬ (((init .mvpV1).run defenderVerified).settled
      (Sample.line 'A' 1 501 10 (.whoResult "P".toList))).Uncached := by decide +kernel
  intro h
  refine hu ((faithful_step (bookSound_run _ _) _).mp ?_)
  rwa [run, List.foldl_append] at h

end CombatEngine

end Stonemite.Combat
