import Stonemite.Casting.Center
import Stonemite.Casting.Resolve
import Stonemite.Lib.Run

/-!
# Casts and the classes of their clients

An active cast has the class that only its spell has, before the class of its client. Where the two are the same, the
cast stays as long as the client is loaded and keeps its class. What one call does with the recorded class is
`recorded_step`; while class and recorded class agree (`Agreed`), `agreed_run` carries the casts over a run.
`casts_kept_iff` puts the two directions together.
-/

open Std

namespace Stonemite.Casting

variable {F : Floats} {casts : Casts F} {center : CastingCenter F} {pid : Nat} {cast : ActiveCast}

def CastingCenter.new (catalog : SpellCatalog) (estimates : EstimateKey → Option (Estimate F))
    (legacyEstimates : LegacyEstimateKey → Option (Estimate F)) (animationsEnabled : Bool) : CastingCenter F :=
  ⟨catalog, estimates, legacyEstimates, ∅, animationsEnabled, false⟩

def Casts.new (center : CastingCenter F) : Casts F := ⟨{ center with entries := ∅ }, [], fun _ => none⟩

/-- The client casts. -/
def Casts.Active (casts : Casts F) (pid : Nat) (cast : ActiveCast) : Prop :=
  casts.center.entries[pid]? = some (.active cast)

/-- Whatever the loaded clients are, an active cast stays exactly if its client is loaded, with the class that it had when
the cast started. -/
def Casts.Kept (casts : Casts F) : Prop :=
  ∀ pid cast, casts.Active pid cast → ∀ windows,
    (casts.center.reconcileClients windows).entries[pid]? = some (.active cast) ↔
      ∃ window, windows.find? (fun window => window.pid = pid) = some window ∧ window.code = casts.startedCode pid

/-- The spell of an active cast is not that of one class only, or of the class that the client had. -/
def Casts.Agreed (casts : Casts F) : Prop :=
  ∀ pid cast, casts.Active pid cast → cast.spell.uniqueClass = none ∨ cast.spell.uniqueClass = casts.startedCode pid

/-- What starts is a spell that is not of one class only, or of the class of the client. -/
def StartAgrees (casts : Casts F) : CastEvent → Prop
  | .started pid _ _ spell _ => ∀ definition,
    casts.center.catalog.resolve spell (clientCode casts.windows pid) = some definition →
      definition.uniqueClass = none ∨ definition.uniqueClass = clientCode casts.windows pid
  | _ => True

/-! ### What a step does to the active casts -/

theorem active_erase {other : Nat} (h : (center.entries.erase other)[pid]? = some (.active cast)) :
    center.entries[pid]? = some (.active cast) := by
  rw [ExtTreeMap.getElem?_erase_ite] at h
  split_ifs at h
  exact h

theorem active_filter {p : Nat → CastEntry F → Bool} (h : (center.entries.filter p)[pid]? = some (.active cast)) :
    center.entries[pid]? = some (.active cast) := by
  rw [ExtTreeMap.getElem?_filter'] at h
  exact (Option.filter_eq_some_iff.mp h).1

theorem entries_migrate {server character : Str} {key : Option EstimateKey} {code : Option Str} {spell : SpellDefinition} :
    (center.migrate server character key code spell).entries = center.entries := by
  unfold CastingCenter.migrate
  split
  · split_ifs
    · rfl
    · dsimp only
      split
      · rfl
      · rfl
  · rfl

theorem entries_trainEstimate {train : Bool} {elapsed : Nat} :
    (center.trainEstimate cast train elapsed).entries = center.entries := by
  unfold CastingCenter.trainEstimate
  split
  · split_ifs
    · rfl
    · rfl
  · rfl

/-- A cast that is active after a start was active before, or it is the one of the spell that the name resolves to. -/
theorem active_start {other : Nat} {server character spell : Str} {code : Option Str} {observedAt : Nat}
    (h : (center.start other server character code spell observedAt).1.entries[pid]? = some (.active cast)) :
    (pid ≠ other ∧ center.entries[pid]? = some (.active cast)) ∨
      pid = other ∧ center.catalog.resolve spell code = some cast.spell ∧ cast.code = cast.spell.uniqueClass.or code := by
  rw [CastingCenter.start] at h
  cases hresolve : center.catalog.resolve spell code with
  | none =>
    rw [hresolve] at h
    dsimp only at h
    rw [ExtTreeMap.getElem?_erase_ite] at h
    split_ifs at h with heq
    exact .inl ⟨Ne.symm heq, h⟩
  | some definition =>
    rw [hresolve] at h
    dsimp only at h
    split at h
    · rw [ExtTreeMap.getElem?_insert_ite] at h
      split_ifs at h with heq
      · cases h
      · exact .inl ⟨Ne.symm heq, h⟩
    · rw [entries_migrate, ExtTreeMap.getElem?_insert_ite] at h
      by_cases heq : other = pid
      · rw [if_pos heq] at h
        cases h
        exact .inr ⟨heq.symm, rfl, rfl⟩
      · rw [if_neg heq] at h
        exact .inl ⟨Ne.symm heq, h⟩

theorem baseDuration_ne_zero {spell : SpellDefinition} (bard : Bool) (h : spell.baseCastTime ≠ 0) :
    CastingCenter.baseDuration bard spell ≠ 0 := by
  rw [CastingCenter.baseDuration]
  split_ifs
  · decide
  · exact h

theorem start_active (center : CastingCenter F) (pid : Nat) (server character : Str) (observedAt : Nat) {name : Str}
    {code : Option Str} {spell : SpellDefinition}
    (hresolve : center.catalog.resolve name code = some spell) (htime : spell.baseCastTime ≠ 0) :
    ∃ cast, (center.start pid server character code name observedAt).1.entries[pid]? = some (.active cast) ∧
      cast.spell = spell ∧ cast.code = spell.uniqueClass.or code := by
  rw [CastingCenter.start, hresolve]
  dsimp only
  rw [if_neg (baseDuration_ne_zero _ htime)]
  exact ⟨_, ExtTreeMap.getElem?_insert_self, rfl, rfl⟩

theorem active_terminal {other : Nat} {spell : Option Str} {outcome : CastingOutcome} {observedAt : Nat} {train : Bool}
    (h : (center.terminal other spell outcome observedAt train).1.entries[pid]? = some (.active cast)) :
    center.entries[pid]? = some (.active cast) := by
  unfold CastingCenter.terminal at h
  split at h
  · split_ifs at h
    · exact h
    · dsimp only at h
      rw [entries_trainEstimate, ExtTreeMap.getElem?_insert_ite] at h
      split_ifs at h
      · cases h
      · exact h
  · exact h

/-- A cast that is active after a step was active before and started with the same class, or the step started it. -/
theorem active_step {event : CastEvent} (h : (casts.step event).Active pid cast) :
    (casts.Active pid cast ∧ (casts.step event).startedCode pid = casts.startedCode pid) ∨
      (∃ server character spell observedAt, event = .started pid server character spell observedAt ∧
        casts.center.catalog.resolve spell (clientCode casts.windows pid) = some cast.spell) ∧
      (casts.step event).startedCode pid = clientCode casts.windows pid ∧
      cast.code = cast.spell.uniqueClass.or (clientCode casts.windows pid) := by
  cases event with
  | roster windows => exact .inl ⟨h, rfl⟩
  | started other server character spell observedAt =>
    rw [Casts.step] at h ⊢
    split_ifs at h ⊢
    · rcases active_start h with ⟨hne, hactive⟩ | ⟨rfl, hresolve, hcode⟩
      · exact .inl ⟨hactive, Function.update_of_ne hne _ _⟩
      · exact .inr ⟨⟨server, character, spell, observedAt, rfl, hresolve⟩, Function.update_self _ _ _, hcode⟩
    · exact .inl ⟨h, rfl⟩
  | ended other spell outcome observedAt train => exact .inl ⟨active_terminal h, rfl⟩
  | removed other => exact .inl ⟨active_erase h, rfl⟩
  | reconciled => exact .inl ⟨active_filter h, rfl⟩
  | pruned now => exact .inl ⟨active_filter h, rfl⟩
  | configured catalog animationsEnabled =>
    have hnone : (casts.step (.configured catalog animationsEnabled)).center.entries[pid]? = none :=
      ExtTreeMap.getElem?_empty
    rw [Casts.Active, hnone] at h
    cases h

/-! ### Runs -/

/-- An active cast has the class that only its spell has, or else the class of its client. -/
def Casts.Recorded (casts : Casts F) : Prop :=
  ∀ pid cast, casts.Active pid cast → cast.code = cast.spell.uniqueClass.or (casts.startedCode pid)

theorem recorded_step {event : CastEvent} (h : casts.Recorded) : (casts.step event).Recorded := by
  intro pid cast hactive
  rcases active_step hactive with ⟨hbefore, hsame⟩ | ⟨-, hstarted, hcode⟩
  · rw [hsame]
    exact h pid cast hbefore
  · rw [hstarted]
    exact hcode

theorem agreed_step {event : CastEvent} (h : casts.Agreed) (hstart : StartAgrees casts event) :
    (casts.step event).Agreed := by
  intro pid cast hactive
  rcases active_step hactive with ⟨hbefore, hsame⟩ | ⟨⟨server, character, spell, observedAt, rfl, hresolve⟩, hstarted, -⟩
  · rw [hsame]
    exact h pid cast hbefore
  · rw [hstarted]
    exact hstart _ hresolve

theorem not_active_new (center : CastingCenter F) : ¬ (Casts.new center).Active pid cast := by
  intro h
  have hnone : (Casts.new center).center.entries[pid]? = none := ExtTreeMap.getElem?_empty
  rw [Casts.Active, hnone] at h
  cases h

theorem recorded_run (center : CastingCenter F) (events : List CastEvent) :
    (events.foldl Casts.step (Casts.new center)).Recorded := by
  induction events using List.reverseRecOn with
  | nil => exact fun pid cast h => absurd h (not_active_new center)
  | append_singleton events event ih =>
    rw [List.foldl_append]
    exact recorded_step ih

theorem agreed_run {center : CastingCenter F} {events : List CastEvent}
    (h : Along StartAgrees Casts.step (Casts.new center) events) : (events.foldl Casts.step (Casts.new center)).Agreed := by
  induction events using List.reverseRecOn with
  | nil => exact fun pid cast h => absurd h (not_active_new center)
  | append_singleton events event ih =>
    obtain ⟨hbefore, hlast, -⟩ := Along.append_iff.mp h
    rw [List.foldl_append]
    exact agreed_step (ih hbefore) hlast

/-! ### Reconciliation -/

/-- An active cast is kept exactly for a loaded client with the class of the cast. -/
theorem reconcileClients_active (h : center.entries[pid]? = some (.active cast)) (windows : List Client) :
    (center.reconcileClients windows).entries[pid]? = some (.active cast) ↔
      ∃ window, windows.find? (fun window => window.pid = pid) = some window ∧ window.code = cast.code := by
  rw [CastingCenter.reconcileClients, ExtTreeMap.getElem?_filter', h, Option.filter_some, CastingCenter.keepsEntry]
  cases windows.find? fun window => window.pid = pid with
  | none => simp
  | some window =>
    by_cases hcode : cast.code = window.code
    · simp [hcode]
    · simp [hcode, Ne.symm hcode]

theorem kept_iff_agreed (h : casts.Recorded) : casts.Kept ↔ casts.Agreed := by
  constructor
  · intro hkept pid cast hactive
    have hcode := h pid cast hactive
    have hwindow := (hkept pid cast hactive [⟨pid, casts.startedCode pid⟩]).mpr ⟨⟨pid, casts.startedCode pid⟩, by simp, rfl⟩
    obtain ⟨window, hfind, hsame⟩ := (reconcileClients_active hactive _).mp hwindow
    have hfirst : window = ⟨pid, casts.startedCode pid⟩ := by simpa using hfind.symm
    rw [hfirst] at hsame
    rw [← hsame] at hcode
    cases hunique : cast.spell.uniqueClass with
    | none => exact .inl rfl
    | some code =>
      rw [hunique, Option.some_or] at hcode
      exact .inr hcode.symm
  · intro hagreed pid cast hactive windows
    have hcode : cast.code = casts.startedCode pid := by
      rw [h pid cast hactive]
      rcases hagreed pid cast hactive with hnone | hsame
      · rw [hnone, Option.none_or]
      · rw [hsame, Option.or_self]
    rw [reconcileClients_active hactive, hcode]

/-- In every state of a run, active casts are kept exactly if the class that only their spell has is that of their client
at the start; so they are in every state of a run in which what starts agrees with the class of its client. -/
theorem casts_kept_iff (center : CastingCenter F) (events : List CastEvent) :
    ((events.foldl Casts.step (Casts.new center)).Kept ↔ (events.foldl Casts.step (Casts.new center)).Agreed) ∧
      (Along StartAgrees Casts.step (Casts.new center) events → (events.foldl Casts.step (Casts.new center)).Kept) := by
  have hiff := kept_iff_agreed (recorded_run center events)
  exact ⟨hiff, fun h => hiff.mpr (agreed_run h)⟩

/-! ### A cast that is withdrawn -/

/-- Floats that are natural numbers. -/
def countedFloats : Floats where
  F64 := Nat
  F32 := Nat
  one := 1
  ofMillis millis := millis
  toDuration millis := max (fromMillis millis) 1000
  blend elapsed _ := elapsed / 1000000
  ratio elapsed duration := min (elapsed / max duration 1000000) 1

/-- A spell that only clerics have. -/
def clericGate : CatalogText where
  spells := spellLine ['1'] "Gate".toList "5000".toList 1
  strings := []
  distinct := by decide

/-- A center that knows one spell of the clerics. -/
def clericCenter : CastingCenter countedFloats :=
  .new clericGate.catalog (fun _ => none) (fun _ => none) true

/-- A client that is taken for a wizard. -/
def wizard : Client := ⟨7, some "WIZ".toList⟩

/-- It starts the spell of clerics. -/
def wizardCasts : Casts countedFloats :=
  [CastEvent.roster [wizard], .started 7 "Teek".toList "Bilka".toList "Gate".toList 0].foldl Casts.step
    (Casts.new clericCenter)

theorem wizardCasts_active : ∃ cast, wizardCasts.Active 7 cast ∧ cast.code = some "CLR".toList := by
  have hresolve : clericCenter.catalog.resolve "Gate".toList wizard.code =
      some ⟨1, "Gate".toList, fromMillis 5000, some "CLR".toList, none, none⟩ := by
    refine (resolve_eq clericGate _ _).trans ?_
    decide
  obtain ⟨cast, hactive, -, hcode⟩ := start_active { clericCenter with entries := ∅ } 7 "Teek".toList
    "Bilka".toList 0 hresolve (by decide)
  exact ⟨cast, hactive, hcode⟩

/-- The cast is withdrawn although its client is loaded and has the class that it had. -/
theorem wizard_cast_withdrawn :
    (∃ cast, wizardCasts.Active 7 cast ∧
      (wizardCasts.center.reconcileClients wizardCasts.windows).entries[7]? ≠ some (.active cast)) ∧
      wizardCasts.windows = [wizard] ∧ wizardCasts.startedCode 7 = wizard.code ∧ ¬ wizardCasts.Kept := by
  have hwindows : wizardCasts.windows = [wizard] := rfl
  have hstarted : wizardCasts.startedCode 7 = wizard.code := rfl
  obtain ⟨cast, hactive, hcode⟩ := wizardCasts_active
  have hwithdrawn : (wizardCasts.center.reconcileClients wizardCasts.windows).entries[7]? ≠ some (.active cast) := by
    intro h
    obtain ⟨window, hfind, hsame⟩ := (reconcileClients_active hactive _).mp h
    rw [hwindows] at hfind
    cases hfind
    rw [hcode] at hsame
    exact absurd hsame (by decide)
  refine ⟨⟨cast, hactive, hwithdrawn⟩, hwindows, hstarted, fun hkept => hwithdrawn ?_⟩
  refine (hkept 7 cast hactive wizardCasts.windows).mpr ⟨wizard, ?_, hstarted.symm⟩
  rw [hwindows]
  rfl

end Stonemite.Casting
