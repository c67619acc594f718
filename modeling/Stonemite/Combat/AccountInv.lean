import Stonemite.Combat.BookInv
import Stonemite.Combat.Accounting

/-!
# Accounting of the book

A cached snapshot is the projection of a live encounter that some call published, or the frozen one of an encounter that
some call finalized. So every entry of the book accounts for the facts its encounter had then. `Cached` is the invariant,
kept by `keptEach_cached`; with the accounting of a projection it gives `book_accounted`.
-/

open Std

namespace Stonemite.Combat
namespace CombatEngine

/-- The snapshots of the encounter satisfy `G`. -/
def Cached (G : EncounterSnapshot → Prop) (a : EncounterState) : Prop :=
  (∀ s, a.lastSnapshot = some s → G s) ∧ ∀ s, a.frozen = some s → G s

/-- The conditions under which cached snapshots satisfy `G`: new projections and frozen ones do. -/
def cachesOnly (G : EncounterSnapshot → Prop) : Conditions where
  finalizing f := ∀ (a : EncounterState) s, f.engine.encounters[f.due.id]? = some a →
    f.engine.frozenSnapshot (f.engine.markClosed f.now f.due a) f.due.reason
      (MonoTime.add f.now f.engine.policy.heldMs) = some s → G s
  caching := G

theorem keptEach_cached (G : EncounterSnapshot → Prop) : KeptEach (fun _ a => Cached G a) (cachesOnly G) where
  same _ a b hs hl h := by
    refine ⟨fun s hb => ?_, fun s hb => h.2 s (hs.frozen ▸ hb)⟩
    rcases hl s hb with ha | hs
    · exact h.1 s ha
    · exact hs
  update _ a b hs _ _ h := ⟨fun s hb => h.1 s (hs.lastSnapshot ▸ hb), fun s hb => h.2 s (hs.frozen ▸ hb)⟩
  opened _ _ _ := ⟨nofun, nofun⟩
  absorb _ _ _ _ := ⟨nofun, nofun⟩
  close f a hf ha _ h := by
    rw [closing_spec]
    have hnew := fun s => hf a s ha
    generalize f.engine.frozenSnapshot (f.engine.markClosed f.now f.due a) f.due.reason
      (MonoTime.add f.now f.engine.policy.heldMs) = snapshot at hnew ⊢
    dsimp only
    cases snapshot with
    | none => exact h
    | some s =>
      constructor
      · rintro s' ⟨⟩
        exact hnew s rfl
      · rintro s' ⟨⟩
        exact hnew s rfl

/-- Where a snapshot of a run comes from: `a` is the encounter it projects, in the engine `e` of a call. -/
inductive Origin (policy : CombatPolicy) (calls : List Call) (s : EncounterSnapshot) :
    CombatEngine → EncounterState → Prop
  | published {pre post : List Call} {call : Call} (hcalls : calls = pre ++ call :: post) {id : EncounterId}
      {a : EncounterState} (ha : (((init policy).run pre).settled call).encounters[id]? = some a)
      (hp : a.phase.isHeld = false)
      (hs : (((init policy).run pre).settled call).computeSnapshot a 0 = some { s with revision := 0 }) :
      Origin policy calls s (((init policy).run pre).settled call) a
  | frozen {pre post : List Call} {call : Call} (hcalls : calls = pre ++ call :: post) {f : Finalizing}
      (hf : f ∈ ((init policy).run pre).finalizings call) {a : EncounterState}
      (ha : f.engine.encounters[f.due.id]? = some a)
      (hs : f.engine.frozenSnapshot (f.engine.markClosed f.now f.due a) f.due.reason
        (MonoTime.add f.now f.engine.policy.heldMs) = some s) :
      Origin policy calls s f.engine (f.engine.markClosed f.now f.due a)

theorem origin_of_mem_book {policy : CombatPolicy} {calls : List Call} {s : EncounterSnapshot}
    (hs : s ∈ ((init policy).run calls).currentBook.encounters) :
    ∃ (e : CombatEngine) (a : EncounterState), Origin policy calls s e a := by
  have hok : Along (Kept.CallOk (cachesOnly fun s => ∃ (e : CombatEngine) (a : EncounterState),
      Origin policy calls s e a)) step (init policy) calls := by
    rw [Along.iff_forall]
    intro pre call post hcalls
    refine ⟨fun _ _ => trivial, fun f hf a s ha hs => ?_, fun _ _ => trivial, trivial, fun s hs => ?_⟩
    · exact ⟨_, _, .frozen hcalls hf ha hs⟩
    · obtain ⟨⟨id, a⟩, hm, hc⟩ := List.mem_filterMap.mp hs
      dsimp only at hc
      split_ifs at hc with hp
      obtain ⟨c, hcompute, rfl⟩ := Option.map_eq_some_iff.mp hc
      refine ⟨_, _, .published hcalls (ExtTreeMap.lookup_of_mem_toList hm) (Bool.eq_false_iff.mpr hp)
        (hcompute.trans ?_)⟩
      have hrevision := (computeSnapshot_spec hcompute).revision
      rw [← hrevision]
  obtain ⟨id, a, ha, hpub⟩ := (bookShows_run policy calls s).mp hs
  obtain ⟨hlast, hfrozen⟩ := (keptEach_cached _).run hok id a ha
  unfold EncounterState.published at hpub
  rcases Option.or_eq_some_iff.mp hpub with hf | ⟨-, hl⟩
  · exact hfrozen s hf
  · exact hlast s hl

/-- A snapshot accounts for the facts of the encounter it projects. -/
theorem Origin.accounted {policy : CombatPolicy} {calls : List Call} {s : EncounterSnapshot} {e : CombatEngine}
    {a : EncounterState} (h : Origin policy calls s e a) : s.id = a.id ∧ e.Accounted a s := by
  -- the two kinds of snapshot change neither rows nor raid damage of the projection
  have hsame {e : CombatEngine} {a : EncounterState} {c : EncounterSnapshot} (hc : e.computeSnapshot a 0 = some c)
      (hrows : s.rows = c.rows) (hraid : s.raidDamage = c.raidDamage) (hid : s.id = c.id) :
      s.id = a.id ∧ e.Accounted a s := by
    obtain ⟨h1, h2, h3, h4, h5, h6, h7, h8, h9⟩ := computeSnapshot_accounted hc
    refine ⟨hid.trans (computeSnapshot_spec hc).id, ?_⟩
    constructor <;> rw [hrows] <;> try rw [hraid]
    all_goals assumption
  cases h with
  | published hcalls ha hp hs => exact hsame hs rfl rfl rfl
  | frozen hcalls hf ha hs =>
    obtain ⟨c, hc, rfl⟩ := Option.map_eq_some_iff.mp hs
    exact hsame hc rfl rfl rfl

/-- Every published snapshot accounts for the facts of its encounter: as the call that cached it last
published or finalized the encounter. -/
theorem book_accounted (policy : CombatPolicy) (calls : List Call) (s : EncounterSnapshot)
    (hs : s ∈ ((init policy).run calls).currentBook.encounters) :
    ∃ (e : CombatEngine) (a : EncounterState), Origin policy calls s e a ∧ s.id = a.id ∧ e.Accounted a s := by
  obtain ⟨e, a, h⟩ := origin_of_mem_book hs
  exact ⟨e, a, h, h.accounted⟩

/-- `A` hits `r` twice. -/
def twoHits : List Call :=
  Sample.register ['A'] ++ [Sample.line 'A' 0 500 0 (Sample.hit Sample.you "r" 10),
    Sample.line 'A' 1 501 10 (Sample.hit Sample.you "r" 5)]

theorem book_accounted_two_hits :
    ∃ s ∈ ((init .mvpV1).run twoHits).currentBook.encounters, ∃ (e : CombatEngine) (a : EncounterState),
      Origin .mvpV1 twoHits s e a ∧ s.id = a.id ∧ e.Accounted a s := by
  have h : ((init .mvpV1).run twoHits).currentBook.encounters ≠ [] := by decide +kernel
  obtain ⟨s, hs⟩ := List.exists_mem_of_ne_nil _ h
  exact ⟨s, hs, book_accounted .mvpV1 twoHits s hs⟩

end CombatEngine
end Stonemite.Combat
