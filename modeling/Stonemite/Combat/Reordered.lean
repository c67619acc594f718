import Stonemite.Combat.Standing

/-!
# Elections of reordered facts

The facts of an encounter come in any order, and an election takes its flags from one of the facts of a source. Which
source has to win a participant (`Rightful`) does not depend on the order, and the election does not exactly if the facts
of that source are alike. `Sorted` says which candidate a sorted group begins with, `Wins` which source takes the
participant.
-/

open Std

namespace Stonemite.Combat

/-- What `candidate_cmp` compares, summed over the facts of a key. -/
structure Standing where
  complete : Bool
  damage : Nat
  events : Nat
  targets : Nat
  seconds : Nat
  source : LogSourceId

/-- What decides between the sources of a participant. -/
def standing (bridgeSeconds : Int) (cs : List Counted) (key : CandidateKey) : Standing where
  complete := (factsFor cs key).any (·.complete)
  damage := totalDamage (factsFor cs key)
  events := (factsFor cs key).length
  targets := (targetDamageOf (factsFor cs key)).size
  seconds := unionRangeSeconds ((rangesOf (factsFor cs key)).toList.map (·.2)) bridgeSeconds
  source := (ofLex key).2

def Standing.cmp (left right : Standing) : Ordering :=
  (compare left.complete right.complete).then <| (compare left.damage right.damage).then <|
    (compare left.events right.events).then <| (compare left.targets right.targets).then <|
    (compare left.seconds right.seconds).then (compare right.source left.source)

/-- A complete source has a fact of its own character under the key. -/
def Claims (cs : List Counted) (key : CandidateKey) : Prop := ∃ c ∈ factsFor cs key, c.complete = true ∧ c.personal = true

/-- The source that has to win a participant: the least complete one of its own, else the one that stands above the others. -/
def Rightful (bridgeSeconds : Int) (cs : List Counted) (p : ParticipantId) (s : LogSourceId) : Prop :=
  factsFor cs (toLex (p, s)) ≠ [] ∧
    (Claims cs (toLex (p, s)) ∧ (∀ s', Claims cs (toLex (p, s')) → compare s s' ≠ .gt) ∨
      (∀ s', ¬ Claims cs (toLex (p, s'))) ∧ ∀ s', s' ≠ s → factsFor cs (toLex (p, s')) ≠ [] →
        (standing bridgeSeconds cs (toLex (p, s))).cmp (standing bridgeSeconds cs (toLex (p, s'))) = .gt)

/-- The facts agree on what a candidate takes from one of them. -/
def Alike (cs : List Counted) : Prop :=
  ∀ c ∈ cs, ∀ c' ∈ cs, c.display = c'.display ∧ c.personal = c'.personal ∧ c.provisionalPet = c'.provisionalPet

/-- What holds of the facts that an election counts. -/
structure Readings (cs : List Counted) : Prop where
  complete : ∀ c ∈ cs, ∀ c' ∈ cs, c.source = c'.source → c.complete = c'.complete
  positive : ∀ c ∈ cs, 0 < c.amount
  owned : ∀ c ∈ cs, c.owned = true → c.provisionalPet = false

/-- The election of counted facts. -/
def electCounted (bridgeSeconds : Int) (cs : List Counted) : Option (ExtTreeMap ParticipantId Election) :=
  (cs.foldlM addCounted ∅).map fun candidates =>
    let timed := candidates.toList.map fun c => Candidate.withActiveSeconds bridgeSeconds c.2
    (groupCandidates (timed.filter (0 < ·.damage))).filterMap fun _ options => electOne options

/-- The candidates for a participant. -/
def optionsFor (bridgeSeconds : Int) (candidates : ExtTreeMap CandidateKey Candidate) (p : ParticipantId) : List Candidate :=
  (candidates.toList.map fun c => Candidate.withActiveSeconds bridgeSeconds c.2).filter (·.participant = p)

variable {bridge : Int} {cs cs' : List Counted} {candidates : ExtTreeMap CandidateKey Candidate} {p : ParticipantId}
  {s : LogSourceId} {c first : Counted} {key : CandidateKey} {o : Candidate} {options : List Candidate}

/-! ### Winners -/

/-- The source is the participant's own and complete. -/
def Candidate.authoritative (o : Candidate) : Bool := o.personal && o.complete

theorem Candidate.cmp_swap (a b : Candidate) : a.cmp b = (b.cmp a).swap := by
  have hn (m n : Nat) : compare m n = (compare n m).swap := OrientedCmp.eq_swap
  have hb (m n : Bool) : compare m n = (compare n m).swap := OrientedCmp.eq_swap
  have hs (m n : LogSourceId) : compare m n = (compare n m).swap := OrientedCmp.eq_swap
  simp only [Candidate.cmp, Ordering.swap_then]
  rw [hb a.complete, hn a.damage, hn a.events, hn a.targetDamage.size, hn a.activeSeconds, hs b.source]

instance : TransCmp Candidate.cmp :=
  inferInstanceAs (TransCmp (compareLex (compareOn (·.complete)) (compareLex (compareOn (·.damage))
    (compareLex (compareOn (·.events)) (compareLex (compareOn (·.targetDamage.size))
      (compareLex (compareOn (·.activeSeconds)) fun l r : Candidate => compareOn (·.source) r l))))))

theorem Candidate.cmp_self (a : Candidate) : a.cmp a ≠ .gt := by
  have hself : a.cmp a = .eq := ReflCmp.compare_self
  rw [hself]
  decide

/-- After `m` rounds no candidate seen so far beats the one the loop is at. -/
theorem bestIndex_loop (m : Nat) (hm : m < options.length) : ∃ b, ∃ hb : b < options.length, b ≤ m ∧
    (List.range' 1 m).foldl (fun best index =>
      match options[index]?, options[best]? with
      | some candidate, some current => if candidate.cmp current = .gt then index else best
      | _, _ => best) 0 = b ∧ ∀ j (hj : j < options.length), j ≤ m → options[j].cmp options[b] ≠ .gt := by
  induction m with
  | zero =>
    refine ⟨0, hm, le_rfl, rfl, fun j hj hle => ?_⟩
    obtain rfl : j = 0 := by omega
    exact Candidate.cmp_self _
  | succ m ih =>
    obtain ⟨b, hb, hle, hfold, hbest⟩ := ih (by omega)
    rw [List.range'_1_concat, List.foldl_append, hfold, List.foldl_cons, List.foldl_nil, Nat.add_comm 1 m,
      List.getElem?_eq_getElem hm, List.getElem?_eq_getElem hb]
    dsimp only
    by_cases hgt : options[m + 1].cmp options[b] = .gt
    · refine ⟨m + 1, hm, le_rfl, if_pos hgt, fun j hj hjm => ?_⟩
      rcases Nat.lt_or_eq_of_le hjm with hjm | rfl
      · rw [Ne, ← Ordering.isLE_iff_ne_gt]
        refine TransCmp.isLE_trans (Ordering.isLE_iff_ne_gt.mpr (hbest j hj (by omega))) ?_
        rw [Candidate.cmp_swap, hgt]
        rfl
      · exact Candidate.cmp_self _
    · refine ⟨b, hb, by omega, if_neg hgt, fun j hj hjm => ?_⟩
      rcases Nat.lt_or_eq_of_le hjm with hjm | rfl
      · exact hbest j hj (by omega)
      · exact hgt

theorem bestIndex_spec (hne : options ≠ []) : ∃ hi : bestIndex options < options.length,
    ∀ j (hj : j < options.length), options[j].cmp options[bestIndex options] ≠ .gt := by
  have hpos : 0 < options.length := List.length_pos_iff.mpr hne
  have hlast : options.length - 1 < options.length := by omega
  obtain ⟨b, hb, -, hfold, hbest⟩ := bestIndex_loop _ hlast
  have hindex : bestIndex options = b := hfold
  refine ⟨hindex ▸ hb, fun j hj => ?_⟩
  simp only [hindex]
  exact hbest j hj (by omega)

theorem bestIndex_eq {i : Nat} (hi : i < options.length)
    (h : ∀ j (hj : j < options.length), j ≠ i → options[i].cmp options[j] = .gt) : bestIndex options = i := by
  obtain ⟨hb, hbest⟩ := bestIndex_spec (List.ne_nil_of_length_pos (by omega : 0 < options.length))
  by_contra hne
  exact hbest i hi (h _ hb hne)

/-- Candidates in the order of their sources. -/
def Sorted (options : List Candidate) : Prop := options.Pairwise fun a b => compare a.source b.source = .lt

theorem Sorted.sortBy_eq (h : Sorted options) : sortBy (fun left right : Candidate => compare left.source right.source) options = options := by
  refine List.Pairwise.insertionSort_eq (h.imp fun hlt => ?_)
  dsimp only
  rw [hlt]
  decide

/-- The candidate that has to win. -/
def Wins (options : List Candidate) (i : Nat) (hi : i < options.length) : Prop :=
  options[i].authoritative = true ∧ (∀ j (hj : j < i), options[j].authoritative = false) ∨
    (∀ o ∈ options, o.authoritative = false) ∧
      ∀ j (hj : j < options.length), j ≠ i → options[i].cmp options[j] = .gt

theorem electOne_of_wins (hsorted : Sorted options) {i : Nat} {hi : i < options.length} (h : Wins options i hi) :
    electOne options = some ⟨options[i], options[i].quality, (options.eraseIdx i).map fun c => (c.source, c.damage)⟩ := by
  have hindex : (options.findIdx? fun candidate => candidate.personal && candidate.complete).getD (bestIndex options) = i := by
    rcases h with ⟨hauth, hbefore⟩ | ⟨hnone, hbest⟩
    · have hsome : options.findIdx? (fun candidate => candidate.personal && candidate.complete) = some i := by
        rw [List.findIdx?_eq_some_iff_getElem]
        refine ⟨hi, hauth, fun j hj => ?_⟩
        have hfalse := hbefore j hj
        rw [Candidate.authoritative] at hfalse
        rw [hfalse]
        decide
      rw [hsome, Option.getD_some]
    · have hnone' : options.findIdx? (fun candidate => candidate.personal && candidate.complete) = none :=
        List.findIdx?_eq_none_iff.mpr hnone
      rw [hnone', Option.getD_none]
      exact bestIndex_eq hi hbest
  rw [electOne, hsorted.sortBy_eq, hindex, List.getElem?_eq_getElem hi]
  rfl

/-! ### The options of a participant -/

/-- Every candidate is what the facts of its key sum to. -/
def Holds (candidates : ExtTreeMap CandidateKey Candidate) (cs : List Counted) : Prop :=
  ∀ key : CandidateKey, candidates[key]? = tallyOf (factsFor cs key)

/-- The candidate of a participant and a source. -/
structure OptionOf (bridge : Int) (cs : List Counted) (p : ParticipantId) (s : LogSourceId) (first : Counted) (o : Candidate) :
    Prop where
  head : (factsFor cs (toLex (p, s))).head? = some first
  eq : o = (first.tally (factsFor cs (toLex (p, s)))).withActiveSeconds bridge

namespace OptionOf

theorem mem (h : OptionOf bridge cs p s first o) : first ∈ factsFor cs (toLex (p, s)) := List.mem_of_head? h.head

theorem key_eq (h : OptionOf bridge cs p s first o) : first.participant = p ∧ first.source = s := by
  have hkey : first.key = toLex (p, s) := of_decide_eq_true (List.mem_filter.mp h.mem).2
  exact ⟨congrArg (fun key : CandidateKey => (ofLex key).1) hkey, congrArg (fun key : CandidateKey => (ofLex key).2) hkey⟩

theorem participant (h : OptionOf bridge cs p s first o) : o.participant = p := by
  rw [h.eq]
  exact h.key_eq.1

theorem source (h : OptionOf bridge cs p s first o) : o.source = s := by
  rw [h.eq]
  exact h.key_eq.2

theorem nonempty (h : OptionOf bridge cs p s first o) : factsFor cs (toLex (p, s)) ≠ [] := List.ne_nil_of_mem h.mem

end OptionOf

theorem exists_optionOf (h : factsFor cs (toLex (p, s)) ≠ []) : ∃ first o, OptionOf bridge cs p s first o := by
  cases hfacts : factsFor cs (toLex (p, s)) with
  | nil => exact absurd hfacts h
  | cons first facts => exact ⟨first, _, by rw [hfacts]; rfl, rfl⟩

theorem tallyOf_eq_some {candidate : Candidate} :
    tallyOf cs = some candidate ↔ ∃ first, cs.head? = some first ∧ candidate = first.tally cs := by
  cases cs with
  | nil => simp [tallyOf]
  | cons first cs => simp [tallyOf, eq_comm]

namespace Holds
variable (h : Holds candidates cs)
include h

theorem of_mem {entry : CandidateKey × Candidate} (hm : entry ∈ candidates.toList) : ∃ first, OptionOf bridge cs
    (ofLex entry.1).1 (ofLex entry.1).2 first (entry.2.withActiveSeconds bridge) := by
  have hlookup := ExtTreeMap.lookup_of_mem_toList hm
  rw [h] at hlookup
  obtain ⟨first, hfirst, heq⟩ := tallyOf_eq_some.mp hlookup
  exact ⟨first, hfirst, congrArg _ heq⟩

theorem mem_optionsFor : o ∈ optionsFor bridge candidates p ↔ ∃ s first, OptionOf bridge cs p s first o := by
  rw [optionsFor, List.mem_filter, List.mem_map]
  constructor
  · rintro ⟨⟨entry, hm, rfl⟩, hp⟩
    obtain ⟨first, hopt⟩ : ∃ first, OptionOf bridge cs _ _ first _ := h.of_mem hm
    have hp := of_decide_eq_true hp
    rw [hopt.participant] at hp
    rw [hp] at hopt
    exact ⟨_, first, hopt⟩
  · rintro ⟨s, first, hopt⟩
    refine ⟨⟨(toLex (p, s), first.tally (factsFor cs (toLex (p, s)))), ?_, hopt.eq.symm⟩, decide_eq_true hopt.participant⟩
    refine ExtTreeMap.mem_toList_of_lookup ?_
    rw [h]
    exact tallyOf_eq_some.mpr ⟨first, hopt.head, rfl⟩

theorem sorted_optionsFor : Sorted (optionsFor bridge candidates p) := by
  have hkeys : candidates.toList.Pairwise fun a b => compare a.1 b.1 = .lt := ExtTreeMap.ordered_keys_toList
  have hkeys' := hkeys.imp_of_mem (S := fun a b => a.2.participant = p → b.2.participant = p →
      compare (a.2.withActiveSeconds bridge).source (b.2.withActiveSeconds bridge).source = .lt) fun {a b} ha hb hlt hpa hpb => by
    obtain ⟨first, hopt⟩ : ∃ first, OptionOf bridge cs _ _ first _ := h.of_mem ha
    obtain ⟨first', hopt'⟩ : ∃ first, OptionOf bridge cs _ _ first _ := h.of_mem hb
    have hlt : (compare (ofLex a.1).1 (ofLex b.1).1).then (compare (ofLex a.1).2 (ofLex b.1).2) = .lt := hlt
    rw [← hopt.participant, ← hopt'.participant] at hlt
    rw [hopt.source, hopt'.source]
    have hself : compare (a.2.withActiveSeconds bridge).participant (b.2.withActiveSeconds bridge).participant = .eq := by
      have heq : (a.2.withActiveSeconds bridge).participant = (b.2.withActiveSeconds bridge).participant := hpa.trans hpb.symm
      rw [heq]
      exact ReflCmp.compare_self
    rw [hself] at hlt
    exact hlt
  rw [Sorted, optionsFor, List.pairwise_filter, List.pairwise_map]
  exact hkeys'.imp fun hlt hpa hpb => hlt (of_decide_eq_true hpa) (of_decide_eq_true hpb)

theorem option_at {i : Nat} (hi : i < (optionsFor bridge candidates p).length) :
    ∃ s first, OptionOf bridge cs p s first (optionsFor bridge candidates p)[i] :=
  h.mem_optionsFor.mp (List.getElem_mem hi)

end Holds

theorem electOne_nil : electOne [] = none := by
  rw [electOne]
  rfl

/-- The election of every participant is held among its candidates. -/
theorem electCounted_spec (hread : Readings cs) (hfit : AllFit cs) : ∃ candidates elections, Holds candidates cs ∧
    electCounted bridge cs = some elections ∧ ∀ p : ParticipantId, elections[p]? = electOne (optionsFor bridge candidates p) := by
  obtain ⟨candidates, hfold, hlookup⟩ := foldlM_addCounted hfit
  have hholds : Holds candidates cs := hlookup
  have hall : (candidates.toList.map fun c => Candidate.withActiveSeconds bridge c.2).filter (0 < ·.damage) =
      candidates.toList.map fun c => Candidate.withActiveSeconds bridge c.2 := by
    refine List.filter_eq_self.mpr fun o ho => decide_eq_true ?_
    obtain ⟨entry, hm, rfl⟩ := List.mem_map.mp ho
    obtain ⟨first, hopt⟩ : ∃ first, OptionOf bridge cs _ _ first _ := hholds.of_mem hm
    rw [hopt.eq]
    have hle : first.amount ≤ totalDamage (factsFor cs (toLex ((ofLex entry.1).1, (ofLex entry.1).2))) :=
      le_sum_of_mem Counted.amount hopt.mem
    exact (hread.positive first (List.mem_filter.mp hopt.mem).1).trans_le hle
  refine ⟨candidates, _, hholds, by rw [electCounted, hfold]; rfl, fun p => ?_⟩
  dsimp only
  rw [hall]
  refine ExtTreeMap.getElem?_filterMap'.trans ?_
  cases hgroup : (groupCandidates (candidates.toList.map fun c => Candidate.withActiveSeconds bridge c.2))[p]? with
  | some options =>
    rw [groupCandidates_some hgroup]
    rfl
  | none =>
    have hspec := (groupCandidates_spec (candidates.toList.map fun c => Candidate.withActiveSeconds bridge c.2) p).1
    rw [ExtTreeMap.getD_eq_getD_getElem?, hgroup] at hspec
    have hnil : optionsFor bridge candidates p = [] := hspec.symm
    rw [hnil, electOne_nil]
    rfl

/-! ### The source that has to win -/

theorem compare_source_self (s : LogSourceId) : compare s s = .eq := ReflCmp.compare_self

theorem sources_ne (h : Sorted options) {i j : Nat} (hi : i < options.length) (hj : j < options.length) (hne : j ≠ i) :
    options[j].source ≠ options[i].source := by
  intro heq
  rcases Nat.lt_or_gt_of_ne hne with hlt | hlt
  · have hcmp := List.pairwise_iff_getElem.mp h j i hj hi hlt
    rw [heq, compare_source_self] at hcmp
    cases hcmp
  · have hcmp := List.pairwise_iff_getElem.mp h i j hi hj hlt
    rw [heq, compare_source_self] at hcmp
    cases hcmp

theorem claims_of_authoritative (h : OptionOf bridge cs p s first o) (ho : o.authoritative = true) : Claims cs (toLex (p, s)) := by
  rw [h.eq] at ho
  obtain ⟨hpersonal, hcomplete⟩ := Bool.and_eq_true_iff.mp ho
  exact ⟨first, h.mem, hcomplete, hpersonal⟩

section
variable (hread : Readings cs)
include hread

theorem complete_of_option (h : OptionOf bridge cs p s first o) (hc : c ∈ factsFor cs (toLex (p, s))) :
    c.complete = first.complete := by
  have hkey : c.key = toLex (p, s) := of_decide_eq_true (List.mem_filter.mp hc).2
  have hsource : c.source = s := congrArg (fun key : CandidateKey => (ofLex key).2) hkey
  exact hread.complete c (List.mem_filter.mp hc).1 first (List.mem_filter.mp h.mem).1 (hsource.trans h.key_eq.2.symm)

theorem standing_complete (h : OptionOf bridge cs p s first o) :
    (standing bridge cs (toLex (p, s))).complete = first.complete := by
  show (factsFor cs (toLex (p, s))).any (·.complete) = first.complete
  cases hfirst : first.complete with
  | true => exact List.any_eq_true.mpr ⟨first, h.mem, hfirst⟩
  | false =>
    rw [List.any_eq_false]
    intro c hc
    rw [complete_of_option hread h hc, hfirst]
    decide

theorem cmp_options {s' : LogSourceId} {first' : Counted} {o' : Candidate} (h : OptionOf bridge cs p s first o)
    (h' : OptionOf bridge cs p s' first' o') :
    o.cmp o' = (standing bridge cs (toLex (p, s))).cmp (standing bridge cs (toLex (p, s'))) := by
  have hsource : o.source = s := h.source
  have hsource' : o'.source = s' := h'.source
  rw [Candidate.cmp, Standing.cmp, hsource, hsource', standing_complete hread h, standing_complete hread h', h.eq, h'.eq]
  rfl

/-- The rightful source wins if its first fact is of its own character where one of its facts is. -/
theorem electOne_rightful (hholds : Holds candidates cs) (h : Rightful bridge cs p s)
    (hown : ∀ first, (factsFor cs (toLex (p, s))).head? = some first → Claims cs (toLex (p, s)) → first.personal = true) :
    ∃ i, ∃ hi : i < (optionsFor bridge candidates p).length, ∃ first,
      OptionOf bridge cs p s first (optionsFor bridge candidates p)[i] ∧
      electOne (optionsFor bridge candidates p) = some ⟨(optionsFor bridge candidates p)[i],
        (optionsFor bridge candidates p)[i].quality,
        ((optionsFor bridge candidates p).eraseIdx i).map fun c => (c.source, c.damage)⟩ := by
  have hsorted : Sorted (optionsFor bridge candidates p) := hholds.sorted_optionsFor
  obtain ⟨first, o, hopt⟩ := @exists_optionOf bridge _ _ _ h.1
  obtain ⟨i, hi, hat⟩ := List.getElem_of_mem (hholds.mem_optionsFor.mpr ⟨s, first, hopt⟩)
  rw [← hat] at hopt
  refine ⟨i, hi, first, hopt, electOne_of_wins hsorted ?_⟩
  rcases h.2 with ⟨hclaims, hleast⟩ | ⟨hnone, hbest⟩
  · refine .inl ⟨?_, fun j hj => ?_⟩
    · have hpersonal := hown first hopt.head hclaims
      obtain ⟨c, hc, hcomplete, -⟩ := hclaims
      rw [complete_of_option hread hopt hc] at hcomplete
      rw [hopt.eq]
      exact Bool.and_eq_true_iff.mpr ⟨hpersonal, hcomplete⟩
    · by_contra hauth
      rw [Bool.not_eq_false] at hauth
      obtain ⟨s', first', hopt'⟩ := @Holds.option_at bridge cs candidates p hholds j (by omega)
      have hle := hleast s' (claims_of_authoritative hopt' hauth)
      have hlt := List.pairwise_iff_getElem.mp hsorted j i (by omega) hi hj
      rw [hopt'.source, hopt.source] at hlt
      have hswap : compare s s' = (compare s' s).swap := OrientedCmp.eq_swap
      rw [hswap, hlt] at hle
      exact hle rfl
  · refine .inr ⟨fun o' ho' => ?_, fun j hj hne => ?_⟩
    · by_contra hauth
      rw [Bool.not_eq_false] at hauth
      obtain ⟨s', first', hopt'⟩ := hholds.mem_optionsFor.mp ho'
      exact hnone s' (claims_of_authoritative hopt' hauth)
    · obtain ⟨s', first', hopt'⟩ := @Holds.option_at bridge cs candidates p hholds j hj
      have hsource := sources_ne hsorted hi hj hne
      rw [hopt'.source, hopt.source] at hsource
      rw [cmp_options hread hopt hopt']
      exact hbest s' hsource hopt'.nonempty

theorem exists_rightful (hholds : Holds candidates cs) (hne : optionsFor bridge candidates p ≠ []) : ∃ s, Rightful bridge cs p s := by
  classical
  have hsorted : Sorted (optionsFor bridge candidates p) := hholds.sorted_optionsFor
  have hat (s : LogSourceId) (hs : factsFor cs (toLex (p, s)) ≠ []) : ∃ i, ∃ hi : i < (optionsFor bridge candidates p).length,
      (optionsFor bridge candidates p)[i].source = s := by
    obtain ⟨first, o, hopt⟩ := @exists_optionOf bridge _ _ _ hs
    obtain ⟨i, hi, hi'⟩ := List.getElem_of_mem (hholds.mem_optionsFor.mpr ⟨s, first, hopt⟩)
    exact ⟨i, hi, by rw [hi', hopt.source]⟩
  by_cases hclaims : ∃ i, ∃ hi : i < (optionsFor bridge candidates p).length,
      Claims cs (toLex (p, (optionsFor bridge candidates p)[i].source))
  · -- the first option whose source claims the participant
    obtain ⟨hi, hclaim⟩ := Nat.find_spec hclaims
    obtain ⟨s, first, hopt⟩ := @Holds.option_at bridge cs candidates p hholds _ hi
    rw [hopt.source] at hclaim
    refine ⟨s, hopt.nonempty, .inl ⟨hclaim, fun s' hclaim' hgt => ?_⟩⟩
    obtain ⟨c', hc', -⟩ := id hclaim'
    obtain ⟨j, hj, hsource⟩ := hat s' (List.ne_nil_of_mem hc')
    have hle := Nat.find_min' hclaims ⟨hj, by rwa [hsource]⟩
    rcases Nat.lt_or_eq_of_le hle with hlt | heq
    · have hcmp := List.pairwise_iff_getElem.mp hsorted _ j hi hj hlt
      rw [hopt.source, hsource, hgt] at hcmp
      cases hcmp
    · have hsame : s = s' := by
        rw [← hsource, ← hopt.source]
        congr 1
        exact getElem_congr_idx heq
      rw [hsame, compare_source_self] at hgt
      cases hgt
  · obtain ⟨hi, hbest⟩ := bestIndex_spec hne
    obtain ⟨s, first, hopt⟩ := @Holds.option_at bridge cs candidates p hholds _ hi
    refine ⟨s, hopt.nonempty, .inr ⟨fun s' hclaim => ?_, fun s' hsource hs' => ?_⟩⟩
    · obtain ⟨c', hc', -⟩ := id hclaim
      obtain ⟨j, hj, hsource⟩ := hat s' (List.ne_nil_of_mem hc')
      exact hclaims ⟨j, hj, by rwa [hsource]⟩
    · obtain ⟨j, hj, hat'⟩ := hat s' hs'
      obtain ⟨s'', first', hopt'⟩ := @Holds.option_at bridge cs candidates p hholds _ hj
      obtain rfl : s'' = s' := by rw [← hat', hopt'.source]
      have hcmp := hbest j hj
      rw [cmp_options hread hopt' hopt] at hcmp
      rw [← cmp_options hread hopt hopt', Candidate.cmp_swap, cmp_options hread hopt' hopt]
      cases hresult : (standing bridge cs (toLex (p, s''))).cmp (standing bridge cs (toLex (p, s))) with
      | lt => rfl
      | gt => exact absurd hresult hcmp
      | eq =>
        -- candidates that compare equal have the same source
        have hthen := (Ordering.then_eq_eq.mp hresult).2
        have hthen := (Ordering.then_eq_eq.mp hthen).2
        have hthen := (Ordering.then_eq_eq.mp hthen).2
        have hthen := (Ordering.then_eq_eq.mp hthen).2
        have hthen := (Ordering.then_eq_eq.mp hthen).2
        exact absurd (LawfulEqOrd.eq_of_compare hthen).symm hsource

end

/-! ### Other orders -/

theorem Readings.perm (h : cs.Perm cs') (hread : Readings cs) : Readings cs' :=
  ⟨fun c hc c' hc' => hread.complete c (h.mem_iff.mpr hc) c' (h.mem_iff.mpr hc'),
    fun c hc => hread.positive c (h.mem_iff.mpr hc), fun c hc => hread.owned c (h.mem_iff.mpr hc)⟩

theorem Alike.perm (h : cs.Perm cs') (halike : Alike cs) : Alike cs' := fun c hc c' hc' =>
  halike c (h.mem_iff.mpr hc) c' (h.mem_iff.mpr hc')

theorem claims_perm (h : cs.Perm cs') : Claims cs key ↔ Claims cs' key := by
  have hmem (c : Counted) : c ∈ factsFor cs key ↔ c ∈ factsFor cs' key := (factsFor_perm h key).mem_iff
  simp only [Claims, hmem]

theorem standing_perm (h : cs.Perm cs') : standing bridge cs key = standing bridge cs' key := by
  have hfacts := factsFor_perm h key
  have hany : (factsFor cs key).any (·.complete) = (factsFor cs' key).any (·.complete) := by
    rw [Bool.eq_iff_iff, List.any_eq_true, List.any_eq_true]
    simp only [hfacts.mem_iff]
  rw [standing, standing, hany, totalDamage_perm hfacts, hfacts.length_eq, targetDamageOf_perm hfacts, rangesOf_perm hfacts]

theorem Rightful.perm (h : cs.Perm cs') (hright : Rightful bridge cs p s) : Rightful bridge cs' p s := by
  have hnil (key : CandidateKey) : factsFor cs key ≠ [] ↔ factsFor cs' key ≠ [] := by
    rw [Ne, Ne, ← List.length_eq_zero_iff, (factsFor_perm h key).length_eq, List.length_eq_zero_iff]
  have hclaims (key : CandidateKey) : Claims cs key ↔ Claims cs' key := claims_perm h
  have hstanding (key : CandidateKey) : standing bridge cs key = standing bridge cs' key := standing_perm h
  simpa only [Rightful, hnil, hclaims, hstanding] using hright

/-- Where the facts are alike, some fact has an owner if the last pet has. -/
theorem lastPetOwned_alike (hread : Readings cs) (h : Alike cs) : lastPetOwned cs = cs.any (·.owned) := by
  induction cs using List.reverseRecOn with
  | nil => rfl
  | append_singleton cs c ih =>
    have hsub : ∀ c' ∈ cs, c' ∈ cs ++ [c] := fun c' hc' => List.mem_append_left _ hc'
    have hlast : c ∈ cs ++ [c] := List.mem_append_right _ (List.mem_singleton_self c)
    have hcs := ih ⟨fun a ha b hb => hread.complete a (hsub a ha) b (hsub b hb), fun a ha => hread.positive a (hsub a ha),
      fun a ha => hread.owned a (hsub a ha)⟩ fun a ha b hb => h a (hsub a ha) b (hsub b hb)
    have hstep : lastPetOwned (cs ++ [c]) = if c.pet then c.owned else lastPetOwned cs := by
      rw [lastPetOwned, List.foldl_append]
      rfl
    rw [hstep, hcs, List.any_append, List.any_cons, List.any_nil, Bool.or_false]
    cases howned : c.owned with
    | true => simp [Counted.pet, howned]
    | false =>
      cases hprovisional : c.provisionalPet with
      | false => simp [Counted.pet, howned, hprovisional]
      | true =>
        -- all facts are provisional, so none has an owner
        have hnone : cs.any (·.owned) = false := by
          rw [List.any_eq_false]
          intro c' hc' howned'
          have hp := (h c' (hsub c' hc') c hlast).2.2
          rw [hprovisional, hread.owned c' (hsub c' hc') howned'] at hp
          cases hp
        simp [hnone]

/-- The option of a source whose facts are alike does not depend on their order. -/
theorem option_perm {first' : Counted} {o' : Candidate} (h : cs.Perm cs') (hread : Readings cs)
    (halike : Alike (factsFor cs (toLex (p, s)))) (hopt : OptionOf bridge cs p s first o)
    (hopt' : OptionOf bridge cs' p s first' o') : o = o' := by
  have hfacts := factsFor_perm h (toLex (p, s))
  have hmem : first' ∈ factsFor cs (toLex (p, s)) := hfacts.mem_iff.mpr hopt'.mem
  obtain ⟨hdisplay, hpersonal, hprovisional⟩ := halike first hopt.mem first' hmem
  have hstart : first.start = first'.start := by
    rw [Counted.start, Counted.start, hdisplay, hpersonal, hprovisional, hopt.key_eq.1, hopt.key_eq.2, hopt'.key_eq.1,
      hopt'.key_eq.2, complete_of_option hread hopt hmem]
  have hsub : Readings (factsFor cs (toLex (p, s))) :=
    ⟨fun a ha b hb => hread.complete a (List.mem_filter.mp ha).1 b (List.mem_filter.mp hb).1,
      fun a ha => hread.positive a (List.mem_filter.mp ha).1, fun a ha => hread.owned a (List.mem_filter.mp ha).1⟩
  have hpet : lastPetOwned (factsFor cs (toLex (p, s))) = lastPetOwned (factsFor cs' (toLex (p, s))) := by
    rw [lastPetOwned_alike hsub halike, lastPetOwned_alike (hsub.perm hfacts) (halike.perm hfacts), Bool.eq_iff_iff,
      List.any_eq_true, List.any_eq_true]
    simp only [hfacts.mem_iff]
  rw [hopt.eq, hopt'.eq, tally_perm hfacts hstart hpet]

/-- Options of two orders are of the same sources, with the same damage. -/
theorem options_perm {candidates' : ExtTreeMap CandidateKey Candidate} (h : cs.Perm cs') (hholds : Holds candidates cs)
    (hholds' : Holds candidates' cs') (p : ParticipantId) :
    List.Forall₂ (fun o o' : Candidate => o.source = o'.source ∧ o.damage = o'.damage) (optionsFor bridge candidates p)
      (optionsFor bridge candidates' p) := by
  have hrel : List.Forall₂ (fun entry entry' : CandidateKey × Candidate => entry.1 = entry'.1 ∧
      entry.2.participant = entry'.2.participant ∧ entry.2.source = entry'.2.source ∧ entry.2.damage = entry'.2.damage)
        candidates.toList candidates'.toList := by
    refine @ExtTreeMap.forall₂_toList CandidateKey Candidate Candidate _ _ _ candidates candidates'
      (fun _ o o' => o.participant = o'.participant ∧ o.source = o'.source ∧ o.damage = o'.damage) fun key => ?_
    rw [hholds, hholds']
    have hfacts := factsFor_perm h key
    have hdamage := totalDamage_perm hfacts
    have hlength := hfacts.length_eq
    have hmem {c : Counted} (hc : c ∈ factsFor cs key) : c.key = key := of_decide_eq_true (List.mem_filter.mp hc).2
    have hmem' {c : Counted} (hc : c ∈ factsFor cs' key) : c.key = key := of_decide_eq_true (List.mem_filter.mp hc).2
    cases hcs : factsFor cs key with
    | nil =>
      cases hcs' : factsFor cs' key with
      | nil => exact .none
      | cons first' facts' =>
        rw [hcs, hcs'] at hlength
        cases hlength
    | cons first facts =>
      cases hcs' : factsFor cs' key with
      | nil =>
        rw [hcs, hcs'] at hlength
        cases hlength
      | cons first' facts' =>
        have hkey := (hmem (c := first) (by rw [hcs]; exact List.mem_cons_self)).trans
          (hmem' (c := first') (by rw [hcs']; exact List.mem_cons_self)).symm
        rw [hcs, hcs'] at hdamage
        exact .some ⟨congrArg (fun key : CandidateKey => (ofLex key).1) hkey,
          congrArg (fun key : CandidateKey => (ofLex key).2) hkey, hdamage⟩
  have hmap : List.Forall₂ (fun o o' : Candidate => o.participant = o'.participant ∧ o.source = o'.source ∧ o.damage = o'.damage)
      (candidates.toList.map fun c => Candidate.withActiveSeconds bridge c.2)
      (candidates'.toList.map fun c => Candidate.withActiveSeconds bridge c.2) := by
    rw [List.forall₂_map_left_iff, List.forall₂_map_right_iff]
    exact hrel.imp fun _ _ hentry => hentry.2
  refine (List.rel_filter (fun o o' ho => ?_) hmap).imp fun _ _ ho => ho.2
  dsimp only
  rw [decide_eq_true_iff, decide_eq_true_iff, ho.1]

end Stonemite.Combat
