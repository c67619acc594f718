import Stonemite.Combat.Reordered
import Stonemite.Combat.Kept

/-!
# Order independence of the election

The facts of an encounter may be permuted without a change of its election exactly if they cannot be summed, or the facts
of every source that has to win a participant are alike. `Settled` is the condition on the facts; `elect_order_free`
connects it to the elections of the reordered encounter.
-/

open Std

namespace Stonemite.Combat

variable {bridge : Int} {cs cs' : List Counted} {p : ParticipantId} {s : LogSourceId}

/-! ### Lists of counted facts -/

theorem electCounted_none (h : ¬ AllFit cs) : electCounted bridge cs = none := by
  rw [electCounted, foldlM_addCounted_none h]
  rfl

/-- The order does not matter where the facts of every rightful source are alike. -/
theorem electCounted_perm (hread : Readings cs) (h : cs.Perm cs')
    (halike : AllFit cs → ∀ p s, Rightful bridge cs p s → Alike (factsFor cs (toLex (p, s)))) :
    electCounted bridge cs' = electCounted bridge cs := by
  by_cases hfit : AllFit cs
  swap
  · rw [electCounted_none hfit, electCounted_none fun hfit' => hfit (hfit'.perm h.symm)]
  obtain ⟨candidates, elections, hholds, helect, hlookup⟩ := @electCounted_spec bridge cs hread hfit
  obtain ⟨candidates', elections', hholds', helect', hlookup'⟩ := @electCounted_spec bridge cs' (hread.perm h) (hfit.perm h)
  rw [helect, helect', Option.some_inj]
  refine ExtTreeMap.ext_getElem? fun p => ?_
  rw [hlookup, hlookup']
  have hrel : List.Forall₂ (fun o o' : Candidate => o.source = o'.source ∧ o.damage = o'.damage)
      (optionsFor bridge candidates p) (optionsFor bridge candidates' p) := options_perm h hholds hholds' p
  by_cases hne : optionsFor bridge candidates p = []
  · rw [hne] at hrel ⊢
    rw [List.forall₂_nil_left_iff.mp hrel]
  obtain ⟨s, hright⟩ := exists_rightful hread hholds hne
  have hfacts := halike hfit p s hright
  have hown {cs : List Counted} (hfacts : Alike (factsFor cs (toLex (p, s)))) (first : Counted)
      (hfirst : (factsFor cs (toLex (p, s))).head? = some first) (hclaims : Claims cs (toLex (p, s))) : first.personal = true := by
    obtain ⟨c, hc, -, hpersonal⟩ := hclaims
    rw [(hfacts first (List.mem_of_head? hfirst) c hc).2.1]
    exact hpersonal
  obtain ⟨i, hi, first, hopt, hwin⟩ := electOne_rightful hread hholds hright (hown hfacts)
  obtain ⟨i', hi', first', hopt', hwin'⟩ := electOne_rightful (hread.perm h) hholds' (hright.perm h)
    (hown (hfacts.perm (factsFor_perm h _)))
  have hsame := option_perm h hread hfacts hopt hopt'
  -- both winners stand at the place of their source
  have hindex : i' = i := by
    by_contra hne'
    have hi'' : i < (optionsFor bridge candidates' p).length := hrel.length_eq ▸ hi
    have hsources : (optionsFor bridge candidates p)[i].source = (optionsFor bridge candidates' p)[i].source :=
      (List.Forall₂.get hrel hi hi'').1
    rw [hopt.source, ← hopt'.source] at hsources
    exact sources_ne hholds'.sorted_optionsFor hi'' hi' hne' hsources
  subst hindex
  have hlosers : ((optionsFor bridge candidates' p).eraseIdx i').map (fun c => (c.source, c.damage)) =
      ((optionsFor bridge candidates p).eraseIdx i').map fun c => (c.source, c.damage) := by
    have hpairs : (optionsFor bridge candidates' p).map (fun c => (c.source, c.damage)) =
        (optionsFor bridge candidates p).map fun c => (c.source, c.damage) :=
      map_eq_of_forall₂ hrel fun _ _ ho => Prod.ext ho.1.symm ho.2.symm
    rw [← List.eraseIdx_map, ← List.eraseIdx_map, hpairs]
  rw [hwin, hwin', hlosers, hsame]

theorem head_of_cons_erase {c : Counted} (hc : c ∈ factsFor cs (toLex (p, s))) :
    (factsFor (c :: cs.erase c) (toLex (p, s))).head? = some c := by
  have hkey := (List.mem_filter.mp hc).2
  rw [factsFor, List.filter_cons, if_pos hkey]
  rfl

/-- The facts of a rightful source are alike where the order does not matter. -/
theorem alike_of_electCounted (hread : Readings cs) (hfit : AllFit cs)
    (hfree : ∀ cs' : List Counted, cs'.Perm cs → electCounted bridge cs' = electCounted bridge cs)
    (hright : Rightful bridge cs p s) : Alike (factsFor cs (toLex (p, s))) := by
  -- a fact that lets the source win if it comes first
  obtain ⟨c₀, hc₀, hown⟩ : ∃ c₀ ∈ factsFor cs (toLex (p, s)), Claims cs (toLex (p, s)) → c₀.personal = true := by
    by_cases hclaims : Claims cs (toLex (p, s))
    · obtain ⟨c, hc, -, hpersonal⟩ := hclaims
      exact ⟨c, hc, fun _ => hpersonal⟩
    · obtain ⟨c, hc⟩ := List.exists_mem_of_ne_nil _ hright.1
      exact ⟨c, hc, fun h => absurd h hclaims⟩
  have hperm {c : Counted} (hc : c ∈ factsFor cs (toLex (p, s))) : (c :: cs.erase c).Perm cs :=
    (List.perm_cons_erase (List.mem_filter.mp hc).1).symm
  obtain ⟨candidates, elections, hholds, helect, hlookup⟩ :=
    @electCounted_spec bridge _ (hread.perm (hperm hc₀).symm) (hfit.perm (hperm hc₀).symm)
  obtain ⟨i, hi, first, hopt, hwin⟩ := electOne_rightful (hread.perm (hperm hc₀).symm) hholds (hright.perm (hperm hc₀).symm)
    fun first hfirst hclaims => by
      rw [head_of_cons_erase hc₀, Option.some_inj] at hfirst
      rw [← hfirst]
      exact hown ((claims_perm (hperm hc₀)).mp hclaims)
  -- the flags of the winner are those of the fact that comes first
  have hflags {c : Counted} (hc : c ∈ factsFor cs (toLex (p, s))) : c.display = c₀.display ∧ c.personal = c₀.personal ∧
      c.provisionalPet = c₀.provisionalPet := by
    obtain ⟨candidates', elections', hholds', helect', hlookup'⟩ :=
      @electCounted_spec bridge _ (hread.perm (hperm hc).symm) (hfit.perm (hperm hc).symm)
    have hsame : elections' = elections := by
      rw [← Option.some_inj, ← helect, ← helect', hfree _ (hperm hc), hfree _ (hperm hc₀)]
    have hwin' : electOne (optionsFor bridge candidates' p) = electOne (optionsFor bridge candidates p) := by
      rw [← hlookup', hsame, hlookup]
    rw [hwin] at hwin'
    obtain ⟨s', first', hopt'⟩ := hholds'.mem_optionsFor.mp (electOne_mem hwin')
    have hsource : s' = s := by rw [← hopt'.source, ← hopt.source]
    subst hsource
    have hfirst := hopt.head
    have hfirst' := hopt'.head
    rw [head_of_cons_erase hc₀, Option.some_inj] at hfirst
    rw [head_of_cons_erase hc, Option.some_inj] at hfirst'
    have heq := hopt.eq.symm.trans hopt'.eq
    rw [hfirst, hfirst']
    exact ⟨(congrArg Candidate.display heq).symm, (congrArg Candidate.personal heq).symm,
      (congrArg Candidate.provisionalPet heq).symm⟩
  intro c hc c' hc'
  obtain ⟨h1, h2, h3⟩ := hflags hc
  obtain ⟨h1', h2', h3'⟩ := hflags hc'
  exact ⟨h1.trans h1'.symm, h2.trans h2'.symm, h3.trans h3'.symm⟩

/-! ### Encounters -/

/-- A permutation of what a list is mapped to comes from one of the list. -/
theorem exists_perm_of_filterMap {α β : Type} {f : α → Option β} {l : List α} {r r' : List β} (h : r.Perm r')
    (hl : l.filterMap f = r) : ∃ l' : List α, l'.Perm l ∧ l'.filterMap f = r' := by
  induction h generalizing l with
  | nil => exact ⟨l, .refl l, hl⟩
  | cons b _ ih =>
    obtain ⟨pre, a, suf, rfl, hpre, ha, hsuf⟩ := List.filterMap_eq_cons_iff.mp hl
    obtain ⟨l', hperm, hl'⟩ := ih hsuf
    refine ⟨pre ++ a :: l', (hperm.cons a).append_left pre, ?_⟩
    exact List.filterMap_eq_cons_iff.mpr ⟨pre, a, l', rfl, hpre, ha, hl'⟩
  | swap b c r =>
    obtain ⟨pre, a, suf, rfl, hpre, ha, hsuf⟩ := List.filterMap_eq_cons_iff.mp hl
    obtain ⟨pre', a', suf', rfl, hpre', ha', hsuf'⟩ := List.filterMap_eq_cons_iff.mp hsuf
    refine ⟨a' :: a :: (pre ++ pre' ++ suf'), ?_, ?_⟩
    · have hmove : (pre ++ a :: (pre' ++ a' :: suf')).Perm (a :: a' :: (pre ++ pre' ++ suf')) := by
        refine List.perm_middle.trans (.cons a ?_)
        rw [← List.append_assoc]
        exact List.perm_middle
      exact (hmove.trans (.swap a' a _)).symm
    · rw [List.filterMap_cons_some ha', List.filterMap_cons_some ha, List.filterMap_append, List.filterMap_append,
        List.filterMap_eq_nil_iff.mpr hpre, List.filterMap_eq_nil_iff.mpr hpre', hsuf']
      rfl
  | trans _ _ ih ih' =>
    obtain ⟨l', hperm, hl'⟩ := ih hl
    obtain ⟨l'', hperm', hl''⟩ := ih' hl'
    exact ⟨l'', hperm'.trans hperm, hl''⟩

namespace CombatEngine
variable {e : CombatEngine} {a : EncounterState}

/-- Every fact of the encounter is in the ledger. -/
def FactsKnown (e : CombatEngine) (a : EncounterState) : Prop := ∀ i ∈ a.facts, i < e.ledger.length

theorem elect_eq (h : e.FactsKnown a) : e.elect a = electCounted e.policy.activeRangeBridgeSeconds (e.counted a) := by
  have hloop (l : List Nat) (start : ExtTreeMap CandidateKey Candidate) (hl : ∀ i ∈ l, i < e.ledger.length) :
      l.foldlM (e.electStep a (e.comparisonWatermark a)) start =
        (l.filterMap fun i => (e.ledger[i]?).bind (e.classify a (e.comparisonWatermark a))).foldlM addCounted start := by
    induction l generalizing start with
    | nil => rfl
    | cons i l ih =>
      have hi := hl i List.mem_cons_self
      have hfact := List.getElem?_eq_getElem hi
      rw [List.foldlM_cons, electStep, hfact, Option.bind_eq_bind, Option.bind_some]
      cases hc : e.classify a (e.comparisonWatermark a) e.ledger[i] with
      | none =>
        rw [List.filterMap_cons_none (by rw [hfact]; exact hc)]
        exact ih start fun j hj => hl j (List.mem_cons_of_mem _ hj)
      | some c =>
        rw [List.filterMap_cons_some (b := c) (by rw [hfact]; exact hc), List.foldlM_cons]
        exact bind_congr fun next => ih next fun j hj => hl j (List.mem_cons_of_mem _ hj)
  rw [elect, candidates, hloop _ _ h]
  rfl

theorem elect_none (h : ¬ e.FactsKnown a) : e.elect a = none := by
  have hloop (l : List Nat) (start : ExtTreeMap CandidateKey Candidate) (hl : ∃ i ∈ l, ¬ i < e.ledger.length) :
      l.foldlM (e.electStep a (e.comparisonWatermark a)) start = none := by
    induction l generalizing start with
    | nil =>
      obtain ⟨i, hi, -⟩ := hl
      cases hi
    | cons j l ih =>
      rw [List.foldlM_cons]
      by_cases hj : j < e.ledger.length
      · cases hnext : e.electStep a (e.comparisonWatermark a) start j with
        | none => rfl
        | some next =>
          obtain ⟨i, hi, hlt⟩ := hl
          rcases List.mem_cons.mp hi with rfl | hi
          · exact absurd hj hlt
          · exact ih next ⟨i, hi, hlt⟩
      · have hfact : e.ledger[j]? = none := List.getElem?_eq_none (by omega)
        rw [electStep, hfact]
        rfl
  obtain ⟨i, hi⟩ := not_forall.mp h
  rw [elect, candidates, hloop _ _ ⟨i, Classical.not_imp.mp hi⟩]
  rfl

theorem classify_readings {watermark : Option EqSecond} {fact : LedgerFact} {c : Counted}
    (h : e.classify a watermark fact = some c) :
    c.complete = (e.sources[c.source]?).any (a.coveredBy c.source) ∧ (c.owned = true → c.provisionalPet = false) := by
  unfold classify at h
  split_ifs at h
  cases hevent : fact.event with
  | attempt | slain =>
    rw [hevent] at h
    cases h
  | damage damage =>
    rw [hevent] at h
    dsimp only at h
    split_ifs at h
    obtain rfl := Option.some.inj h
    refine ⟨rfl, fun howned => ?_⟩
    dsimp only at howned ⊢
    rw [Option.isNone_eq_false_iff.mpr howned]
    rfl

theorem readings_counted : Readings (e.counted a) := by
  have hread {c : Counted} (hc : c ∈ e.counted a) : c.complete = (e.sources[c.source]?).any (a.coveredBy c.source) ∧
      (c.owned = true → c.provisionalPet = false) := by
    obtain ⟨i, -, hi⟩ := List.mem_filterMap.mp hc
    obtain ⟨fact, -, hfact⟩ := Option.bind_eq_some_iff.mp hi
    exact classify_readings hfact
  refine ⟨fun c hc c' hc' hsource => ?_, fun c hc => counted_pos hc, fun c hc => (hread hc).2⟩
  rw [(hread hc).1, (hread hc').1, hsource]

/-- The facts of the encounter may come in any order. -/
def OrderFree (e : CombatEngine) (a : EncounterState) : Prop :=
  ∀ facts : List Nat, facts.Perm a.facts → e.elect { a with facts := facts } = e.elect a

/-- The facts of every source that has to win a participant are alike. -/
def Settled (e : CombatEngine) (a : EncounterState) : Prop :=
  ∀ p s, Rightful e.policy.activeRangeBridgeSeconds (e.counted a) p s → Alike (factsFor (e.counted a) (toLex (p, s)))

theorem factsKnown_perm {facts : List Nat} (h : facts.Perm a.facts) : e.FactsKnown { a with facts := facts } ↔ e.FactsKnown a := by
  constructor
  · exact fun hknown i hi => hknown i (h.mem_iff.mpr hi)
  · exact fun hknown i hi => hknown i (h.mem_iff.mp hi)

/-- The order of the facts does not matter exactly if they cannot be summed or the facts of every rightful source are
alike. -/
theorem elect_order_free (e : CombatEngine) (a : EncounterState) :
    e.OrderFree a ↔ (e.FactsKnown a → AllFit (e.counted a) → e.Settled a) := by
  have hcounted (facts : List Nat) : e.counted { a with facts := facts } =
      facts.filterMap fun i => (e.ledger[i]?).bind (e.classify a (e.comparisonWatermark a)) := rfl
  constructor
  · intro hfree hknown hfit p s hright
    refine alike_of_electCounted readings_counted hfit (fun cs' hperm => ?_) hright
    obtain ⟨facts, hfacts, hcs'⟩ := exists_perm_of_filterMap hperm.symm rfl
    have hsame := hfree facts hfacts
    rw [elect_eq ((factsKnown_perm hfacts).mpr hknown), elect_eq hknown, hcounted, hcs'] at hsame
    exact hsame
  · intro hsettled facts hfacts
    by_cases hknown : e.FactsKnown a
    · rw [elect_eq ((factsKnown_perm hfacts).mpr hknown), elect_eq hknown, hcounted]
      exact electCounted_perm readings_counted (hfacts.symm.filterMap _) (hsettled hknown)
    · rw [elect_none hknown, elect_none fun hknown' => hknown ((factsKnown_perm hfacts).mp hknown')]

/-- A pet without a known owner. -/
def strayPet : LogEvent := .combat (.damage ⟨Sample.named "Fluffy", none, Sample.named "r", 7, .pet, none, .hit, {}, .melee⟩)

/-- `A` hits `r`, and so does `Fluffy`, first as a pet. -/
def strayCalls : List Call :=
  Sample.register ['A'] ++ [Sample.line 'A' 0 500 0 (Sample.hit Sample.you "r" 10), Sample.line 'A' 1 501 10 strayPet,
    Sample.line 'A' 2 502 20 (Sample.hit (Sample.named "Fluffy") "r" 5), Sample.line 'A' 3 503 30 .other]

/-- Which winners are provisional pets. -/
def provisionalWinners (elections : Option (ExtTreeMap ParticipantId Election)) : List Bool :=
  (elections.map fun elections => elections.toList.map fun election => election.2.winner.provisionalPet).getD []

/-- `Fluffy` is a provisional pet in one order of its facts only. -/
theorem stray_pet_ordered : ∃ a ∈ ((init .mvpV1).run strayCalls).encounters["x:500:r:a".toList]?, [0, 2, 1].Perm a.facts ∧
    ((init .mvpV1).run strayCalls).elect { a with facts := [0, 2, 1] } ≠ ((init .mvpV1).run strayCalls).elect a := by
  have h : (((init .mvpV1).run strayCalls).encounters["x:500:r:a".toList]?).any (fun a =>
      decide ([0, 2, 1].Perm a.facts) && provisionalWinners (((init .mvpV1).run strayCalls).elect a) == [false, true] &&
        provisionalWinners (((init .mvpV1).run strayCalls).elect { a with facts := [0, 2, 1] }) == [false, false]) = true := by
    decide +kernel
  simp only [Bool.and_eq_true, Option.any_eq_true, beq_iff_eq, decide_eq_true_iff] at h
  obtain ⟨a, ha, ⟨hperm, hfirst⟩, hsecond⟩ := h
  refine ⟨a, ha, hperm, fun hsame => ?_⟩
  rw [hsame, hfirst] at hsecond
  cases hsecond

end CombatEngine

end Stonemite.Combat
