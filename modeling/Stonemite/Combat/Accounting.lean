import Stonemite.Lib.Run
import Stonemite.Lib.TreeMap
import Stonemite.Combat.Projection
import Stonemite.Combat.Shares

/-!
# Accounting of a projection

The candidates of an encounter hold the counted facts of their participant and source (`Tallies`), the election keeps one
candidate for each participant, and the rows of the snapshot are the elected ones. `Accounted` is what follows for a
snapshot: no counted fact is lost or shown twice. `Candidate.Tallies` is kept by each added fact (`Candidate.Added`), the
table of the candidates is `Tabulated`, and `RowOf` says which election a row shows.
-/

open Std

namespace Stonemite.Combat

def Counted.pet (c : Counted) : Bool := c.owned || c.provisionalPet

/-- The damage of a list of counted facts. -/
def totalDamage (cs : List Counted) : ℕ := (cs.map (·.amount)).sum

namespace CombatEngine

/-- The facts of the encounter that its election counts. -/
def counted (e : CombatEngine) (a : EncounterState) : List Counted :=
  a.facts.filterMap fun i => (e.ledger[i]?).bind (e.classify a (e.comparisonWatermark a))

end CombatEngine

/-! ### Candidates -/

/-- The candidate of a key holds the counted facts `cs`. -/
structure Candidate.Tallies (candidate : Candidate) (key : CandidateKey) (cs : List Counted) : Prop where
  participant : candidate.participant = (ofLex key).1
  source : candidate.source = (ofLex key).2
  damage : candidate.damage = totalDamage cs
  direct : candidate.directDamage = totalDamage (cs.filter fun c => !c.pet)
  pet : candidate.petDamage = totalDamage (cs.filter Counted.pet)
  ranges : ∀ (t : CanonicalTargetId) (r : EqSecond × EqSecond), candidate.ranges[t]? = some r →
    r.1 ≤ r.2 ∧ (∃ c ∈ cs, c.eqTime = r.1) ∧ ∃ c ∈ cs, c.eqTime = r.2

theorem totalDamage_append (cs : List Counted) (c : Counted) : totalDamage (cs ++ [c]) = totalDamage cs + c.amount := by
  simp [totalDamage]

theorem Candidate.tallies_start (c : Counted) : c.start.Tallies c.key [] :=
  ⟨rfl, rfl, rfl, rfl, rfl, fun t r h => by simp [Counted.start] at h⟩

/-- What adding a counted fact writes. -/
structure Candidate.Added (candidate : Candidate) (c : Counted) (candidate' : Candidate) : Prop where
  participant : candidate'.participant = candidate.participant
  source : candidate'.source = candidate.source
  damage : candidate'.damage = candidate.damage + c.amount
  direct : candidate'.directDamage = candidate.directDamage + if c.pet then 0 else c.amount
  pet : candidate'.petDamage = candidate.petDamage + if c.pet then c.amount else 0
  ranges : candidate'.ranges = candidate.ranges.insert c.target
    ((candidate.ranges[c.target]?).elim (c.eqTime, c.eqTime) fun r => (min r.1 c.eqTime, max r.2 c.eqTime))

theorem Candidate.added {candidate candidate' : Candidate} {c : Counted} (h : candidate.add c = some candidate') :
    candidate.Added c candidate' := by
  have hp : (c.owned || c.provisionalPet) = c.pet := rfl
  unfold Candidate.add at h
  simp only [hp] at h
  obtain ⟨damage, hdamage, h⟩ := Option.bind_eq_some_iff.mp h
  obtain ⟨-, rfl⟩ := checkedAdd_eq_some.mp hdamage
  cases hc : c.pet with
  | true =>
    simp only [hc, ↓reduceIte] at h
    obtain ⟨pet, hpet, h⟩ := Option.bind_eq_some_iff.mp h
    obtain ⟨-, rfl⟩ := checkedAdd_eq_some.mp hpet
    obtain ⟨direct, hdirect, h⟩ := Option.bind_eq_some_iff.mp h
    obtain rfl := Option.some.inj hdirect
    obtain ⟨events, -, h⟩ := Option.bind_eq_some_iff.mp h
    obtain ⟨total, -, h⟩ := Option.bind_eq_some_iff.mp h
    obtain rfl := Option.some.inj h
    exact ⟨rfl, rfl, rfl, by rw [hc]; rfl, by rw [hc]; rfl, rfl⟩
  | false =>
    simp only [hc, Bool.false_eq_true, ↓reduceIte] at h
    obtain ⟨pet, hpet, h⟩ := Option.bind_eq_some_iff.mp h
    obtain rfl := Option.some.inj hpet
    obtain ⟨direct, hdirect, h⟩ := Option.bind_eq_some_iff.mp h
    obtain ⟨-, rfl⟩ := checkedAdd_eq_some.mp hdirect
    obtain ⟨events, -, h⟩ := Option.bind_eq_some_iff.mp h
    obtain ⟨total, -, h⟩ := Option.bind_eq_some_iff.mp h
    obtain rfl := Option.some.inj h
    exact ⟨rfl, rfl, rfl, by rw [hc]; rfl, by rw [hc]; rfl, rfl⟩

theorem Candidate.Tallies.add {candidate candidate' : Candidate} {key : CandidateKey} {cs : List Counted}
    {c : Counted} (h : candidate.Tallies key cs) (hadd : candidate.add c = some candidate') :
    candidate'.Tallies key (cs ++ [c]) := by
  have ha := Candidate.added hadd
  refine ⟨ha.participant.trans h.participant, ha.source.trans h.source, ?_, ?_, ?_, ?_⟩
  · rw [ha.damage, totalDamage_append, h.damage]
  · rw [ha.direct, List.filter_append, h.direct]
    cases hc : c.pet with
    | true => simp [hc]
    | false => rw [List.filter_cons_of_pos (by rw [hc]; rfl), List.filter_nil, totalDamage_append]; rfl
  · rw [ha.pet, List.filter_append, h.pet]
    cases hc : c.pet with
    | true => rw [List.filter_cons_of_pos hc, List.filter_nil, totalDamage_append]; rfl
    | false => simp [hc]
  · intro t r hr
    have hnew : c ∈ cs ++ [c] := List.mem_append_right _ (List.mem_singleton_self c)
    have hold {x : EqSecond} (hx : ∃ c ∈ cs, c.eqTime = x) : ∃ c' ∈ cs ++ [c], c'.eqTime = x := by
      obtain ⟨c', hc', hx⟩ := hx
      exact ⟨c', List.mem_append_left _ hc', hx⟩
    rw [ha.ranges, ExtTreeMap.getElem?_insert_ite] at hr
    split_ifs at hr with ht
    · -- the range of the target takes the second in
      obtain rfl := Option.some.inj hr
      cases hrange : candidate.ranges[c.target]? with
      | none => exact ⟨le_rfl, ⟨c, hnew, rfl⟩, ⟨c, hnew, rfl⟩⟩
      | some range =>
        obtain ⟨hle, hfirst, hlast⟩ := h.ranges _ _ hrange
        refine ⟨(min_le_right _ _).trans (le_max_right _ _), ?_, ?_⟩
        · rcases min_choice range.1 c.eqTime with hm | hm
          · show ∃ c' ∈ cs ++ [c], c'.eqTime = min range.1 c.eqTime
            rw [hm]
            exact hold hfirst
          · exact ⟨c, hnew, hm.symm⟩
        · rcases max_choice range.2 c.eqTime with hm | hm
          · show ∃ c' ∈ cs ++ [c], c'.eqTime = max range.2 c.eqTime
            rw [hm]
            exact hold hlast
          · exact ⟨c, hnew, hm.symm⟩
    · obtain ⟨hle, hfirst, hlast⟩ := h.ranges t r hr
      exact ⟨hle, hold hfirst, hold hlast⟩

instance : LawfulEqOrd CandidateKey := ⟨fun {a b} h => by
  have h : (compare (ofLex a).1 (ofLex b).1).then (compare (ofLex a).2 (ofLex b).2) = .eq := h
  obtain ⟨h1, h2⟩ := Ordering.then_eq_eq.mp h
  exact Prod.ext (LawfulEqOrd.eq_of_compare h1) (LawfulEqOrd.eq_of_compare h2)⟩

/-- Every candidate holds the counted facts of its key, and every key that counts has one. -/
def Tabulated (candidates : ExtTreeMap CandidateKey Candidate) (cs : List Counted) : Prop :=
  (∀ (key : CandidateKey) (candidate : Candidate), candidates[key]? = some candidate →
      candidate.Tallies key (cs.filter (·.key = key))) ∧
    ∀ c ∈ cs, ∃ candidate : Candidate, candidates[c.key]? = some candidate

namespace Tabulated
variable {candidates candidates' : ExtTreeMap CandidateKey Candidate} {cs : List Counted}

theorem empty : Tabulated ∅ [] := ⟨fun _ _ h => by simp at h, fun _ h => absurd h List.not_mem_nil⟩

theorem add (h : Tabulated candidates cs) {c : Counted} {candidate : Candidate}
    (hadd : (candidates.getD c.key c.start).add c = some candidate) :
    Tabulated (candidates.insert c.key candidate) (cs ++ [c]) := by
  refine ⟨fun key candidate' hk => ?_, fun c' hc' => ?_⟩
  · rw [List.filter_append]
    rw [ExtTreeMap.getElem?_insert_ite] at hk
    split_ifs at hk with hkey
    · subst hkey
      obtain rfl := Option.some.inj hk
      have hself : [c].filter (·.key = c.key) = [c] := List.filter_cons_of_pos (decide_eq_true rfl)
      rw [hself]
      refine Candidate.Tallies.add ?_ hadd
      rw [ExtTreeMap.getD_eq_getD_getElem?]
      cases hold : candidates[c.key]? with
      | some old => exact h.1 _ _ hold
      | none =>
        have hnone : cs.filter (·.key = c.key) = [] := by
          refine List.filter_eq_nil_iff.mpr fun c' hc' hk' => ?_
          obtain ⟨old, hold'⟩ := h.2 c' hc'
          rw [of_decide_eq_true hk', hold] at hold'
          cases hold'
        rw [hnone]
        exact Candidate.tallies_start c
    · rw [List.filter_cons_of_neg (by simpa using hkey), List.filter_nil, List.append_nil]
      exact h.1 key candidate' hk
  · rw [ExtTreeMap.getElem?_insert_ite]
    split_ifs with hkey
    · exact ⟨candidate, rfl⟩
    · rcases List.mem_append.mp hc' with hc' | hc'
      · exact h.2 c' hc'
      · rw [List.mem_singleton] at hc'
        exact absurd (by rw [hc']) hkey

end Tabulated

namespace CombatEngine
variable {e : CombatEngine} {a : EncounterState}

theorem candidates_spec {candidates : ExtTreeMap CandidateKey Candidate} (h : e.candidates a = some candidates) :
    Tabulated candidates (e.counted a) := by
  have hloop (l : List ℕ) (start : ExtTreeMap CandidateKey Candidate) (cs : List Counted) (hstart : Tabulated start cs)
      (hl : l.foldlM (e.electStep a (e.comparisonWatermark a)) start = some candidates) :
      Tabulated candidates
        (cs ++ l.filterMap fun i => (e.ledger[i]?).bind (e.classify a (e.comparisonWatermark a))) := by
    induction l generalizing start cs with
    | nil =>
      obtain rfl := Option.some.inj hl
      simpa using hstart
    | cons i l ih =>
      rw [List.foldlM_cons] at hl
      obtain ⟨next, hnext, hl⟩ := Option.bind_eq_some_iff.mp hl
      unfold electStep at hnext
      obtain ⟨fact, hfact, hnext⟩ := Option.bind_eq_some_iff.mp hnext
      cases hc : e.classify a (e.comparisonWatermark a) fact with
      | none =>
        rw [hc] at hnext
        obtain rfl := Option.some.inj hnext
        rw [List.filterMap_cons_none (by rw [hfact]; exact hc)]
        exact ih start cs hstart hl
      | some c =>
        rw [hc] at hnext
        obtain ⟨candidate, hadd, rfl⟩ := Option.map_eq_some_iff.mp hnext
        rw [List.filterMap_cons_some (b := c) (by rw [hfact]; exact hc), List.append_cons]
        exact ih _ _ (hstart.add hadd) hl
  exact hloop a.facts ∅ [] .empty h

end CombatEngine

/-! ### Elections -/

/-- Grouping keeps the candidates of each participant together, in order. -/
theorem groupCandidates_spec (l : List Candidate) (p : ParticipantId) :
    (groupCandidates l).getD p [] = l.filter (·.participant = p) ∧
      ∀ options, (groupCandidates l)[p]? = some options → options ≠ [] := by
  induction l using List.reverseRecOn with
  | nil => exact ⟨by simp [groupCandidates], fun options h => by simp [groupCandidates] at h⟩
  | append_singleton l candidate ih =>
    have hstep : groupCandidates (l ++ [candidate]) = (groupCandidates l).insert candidate.participant
        ((groupCandidates l).getD candidate.participant [] ++ [candidate]) := by
      unfold groupCandidates
      rw [List.foldl_append]
      rfl
    rw [hstep]
    by_cases hp : candidate.participant = p
    · subst hp
      refine ⟨?_, fun options h => ?_⟩
      · have hself : [candidate].filter (·.participant = candidate.participant) = [candidate] :=
          List.filter_cons_of_pos (decide_eq_true rfl)
        rw [ExtTreeMap.getD_insert_self, ih.1, List.filter_append, hself]
      · rw [ExtTreeMap.getElem?_insert_self] at h
        obtain rfl := Option.some.inj h
        exact List.append_ne_nil_of_right_ne_nil _ (List.cons_ne_nil _ _)
    · refine ⟨?_, fun options h => ?_⟩
      · rw [ExtTreeMap.getD_eq_getD_getElem?, ExtTreeMap.getElem?_insert_of_ne hp, ← ExtTreeMap.getD_eq_getD_getElem?,
          ih.1, List.filter_append, List.filter_cons_of_neg (by simpa using hp), List.filter_nil, List.append_nil]
      · rw [ExtTreeMap.getElem?_insert_of_ne hp] at h
        exact ih.2 options h

theorem groupCandidates_some {l : List Candidate} {p : ParticipantId} {options : List Candidate}
    (h : (groupCandidates l)[p]? = some options) : options = l.filter (·.participant = p) := by
  rw [← (groupCandidates_spec l p).1, ExtTreeMap.getD_eq_getD_getElem?, h]
  rfl

theorem groupCandidates_mem {l : List Candidate} {candidate : Candidate} (h : candidate ∈ l) :
    ∃ options, (groupCandidates l)[candidate.participant]? = some options := by
  cases hg : (groupCandidates l)[candidate.participant]? with
  | some options => exact ⟨options, rfl⟩
  | none =>
    have hspec := (groupCandidates_spec l candidate.participant).1
    rw [ExtTreeMap.getD_eq_getD_getElem?, hg] at hspec
    have hmem : candidate ∈ l.filter (·.participant = candidate.participant) :=
      List.mem_filter.mpr ⟨h, decide_eq_true rfl⟩
    rw [← hspec] at hmem
    exact absurd hmem List.not_mem_nil

theorem electOne_mem {options : List Candidate} {election : Election} (h : electOne options = some election) :
    election.winner ∈ options := by
  unfold electOne at h
  obtain ⟨winner, hw, rfl⟩ := Option.map_eq_some_iff.mp h
  exact mem_sortBy.mp (List.mem_of_getElem? hw)

theorem bestIndex_lt {options : List Candidate} (h : options ≠ []) : bestIndex options < options.length := by
  have hpos : 0 < options.length := List.length_pos_iff.mpr h
  refine foldl_invariant_mem (I := fun best => best < options.length) _ (fun best index hi hb => ?_) hpos
  have hi := List.mem_range'_1.mp hi
  split
  · split_ifs
    · omega
    · exact hb
  · exact hb

theorem electOne_some {options : List Candidate} (h : options ≠ []) : ∃ election, electOne options = some election := by
  unfold electOne
  dsimp only
  generalize hs : sortBy (fun left right : Candidate => compare left.source right.source) options = sorted
  have hne : sorted ≠ [] := by
    rw [← List.length_pos_iff, ← hs, length_sortBy]
    exact List.length_pos_iff.mpr h
  have hlt : (sorted.findIdx? fun candidate => candidate.personal && candidate.complete).getD (bestIndex sorted) <
      sorted.length := by
    cases hf : sorted.findIdx? fun candidate => candidate.personal && candidate.complete with
    | none => exact bestIndex_lt hne
    | some i => exact (List.findIdx?_eq_some_iff_findIdx_eq.mp hf).1
  rw [List.getElem?_eq_getElem hlt]
  exact ⟨_, rfl⟩

namespace CombatEngine
variable {e : CombatEngine} {a : EncounterState}

/-- The election of a participant: the candidate of one of its sources, with its active time. -/
structure Elected (e : CombatEngine) (a : EncounterState) (p : ParticipantId) (election : Election)
    (candidate : Candidate) : Prop where
  winner : election.winner = candidate.withActiveSeconds e.policy.activeRangeBridgeSeconds
  positive : 0 < candidate.damage
  tallies : candidate.Tallies (toLex (p, election.winner.source))
    ((e.counted a).filter fun c => c.participant = p ∧ c.source = election.winner.source)

/-- Every participant with counted damage has one election, and nobody else has. -/
theorem elect_spec {elections : ExtTreeMap ParticipantId Election} (h : e.elect a = some elections) :
    (∀ (p : ParticipantId) (election : Election), elections[p]? = some election →
      ∃ candidate, e.Elected a p election candidate) ∧
    ∀ c ∈ e.counted a, 0 < c.amount → ∃ election, elections[c.participant]? = some election := by
  unfold elect at h
  obtain ⟨candidates, hc, h⟩ := Option.map_eq_some_iff.mp h
  obtain ⟨htally, hall⟩ := candidates_spec hc
  dsimp only at h
  generalize hopts : ((candidates.toList.map fun c =>
    Candidate.withActiveSeconds e.policy.activeRangeBridgeSeconds c.2).filter (0 < ·.damage)) = options at h
  -- the options are the candidates with damage
  have hmem (o : Candidate) : o ∈ options ↔ ∃ (key : CandidateKey) (candidate : Candidate),
      candidates[key]? = some candidate ∧ o = candidate.withActiveSeconds e.policy.activeRangeBridgeSeconds ∧
        0 < candidate.damage := by
    rw [← hopts, List.mem_filter, List.mem_map]
    constructor
    · rintro ⟨⟨⟨key, candidate⟩, hm, rfl⟩, hpos⟩
      exact ⟨key, candidate, ExtTreeMap.lookup_of_mem_toList hm, rfl, of_decide_eq_true hpos⟩
    · rintro ⟨key, candidate, hk, rfl, hpos⟩
      exact ⟨⟨(key, candidate), ExtTreeMap.mem_toList_of_lookup hk, rfl⟩, decide_eq_true hpos⟩
  have hlookup (p : ParticipantId) : elections[p]? = ((groupCandidates options)[p]?).bind electOne := by
    rw [← h]
    exact ExtTreeMap.getElem?_filterMap'
  refine ⟨fun p election he => ?_, fun c hcount hpos => ?_⟩
  · rw [hlookup] at he
    obtain ⟨group, hg, he⟩ := Option.bind_eq_some_iff.mp he
    have hw := electOne_mem he
    rw [groupCandidates_some hg] at hw
    obtain ⟨hw, hp⟩ := List.mem_filter.mp hw
    obtain ⟨key, candidate, hk, heq, hdam⟩ := (hmem _).mp hw
    have ht := htally key candidate hk
    have hkey : key = toLex (p, election.winner.source) := by
      have h1 : (ofLex key).1 = p := by
        rw [← ht.participant, ← of_decide_eq_true hp, heq]
        rfl
      have h2 : (ofLex key).2 = election.winner.source := by
        rw [← ht.source, heq]
        rfl
      rw [← h1, ← h2]
      rfl
    subst hkey
    refine ⟨candidate, heq, hdam, ?_⟩
    have hfilter : ((e.counted a).filter fun c => c.participant = p ∧ c.source = election.winner.source) =
        (e.counted a).filter (·.key = toLex (p, election.winner.source)) := by
      refine List.filter_congr fun c _ => decide_eq_decide.mpr ?_
      unfold Counted.key
      rw [toLex_inj, Prod.mk.injEq]
    rw [hfilter]
    exact ht
  · obtain ⟨candidate, hk⟩ := hall c hcount
    have ht := htally c.key candidate hk
    have hdam : 0 < candidate.damage := by
      rw [ht.damage]
      have hle : c.amount ≤ totalDamage ((e.counted a).filter (·.key = c.key)) :=
        le_sum_of_mem Counted.amount (List.mem_filter.mpr ⟨hcount, decide_eq_true rfl⟩)
      omega
    have ho := (hmem _).mpr ⟨c.key, candidate, hk, rfl, hdam⟩
    obtain ⟨group, hg⟩ := groupCandidates_mem ho
    have hparticipant : (candidate.withActiveSeconds e.policy.activeRangeBridgeSeconds).participant = c.participant :=
      ht.participant
    rw [hparticipant] at hg
    rw [hlookup, hg]
    exact electOne_some ((groupCandidates_spec options c.participant).2 group hg)

theorem counted_pos {c : Counted} (h : c ∈ e.counted a) : 0 < c.amount := by
  obtain ⟨i, -, hc⟩ := List.mem_filterMap.mp h
  obtain ⟨fact, -, hc⟩ := Option.bind_eq_some_iff.mp hc
  unfold classify at hc
  split_ifs at hc
  cases he : fact.event with
  | attempt | slain =>
    rw [he] at hc
    cases hc
  | damage damage =>
    rw [he] at hc
    dsimp only at hc
    split_ifs at hc with hpos
    obtain rfl := Option.some.inj hc
    unfold DamageObservation.positive at hpos
    simp only [Bool.not_eq_true', Bool.not_eq_false, Bool.and_eq_true, decide_eq_true_eq] at hpos
    exact hpos.1

end CombatEngine

/-! ### Rows -/

instance : TransCmp rowCmp :=
  inferInstanceAs (TransCmp (compareLex (fun l r : DpsRowSnapshot => compareOn (·.damage) r l)
    (compareLex (fun l r => compareOn (·.dps) r l) (compareOn (·.participant)))))

theorem participant_of_rowCmp {l r : DpsRowSnapshot} (h : rowCmp l r = .eq) : l.participant = r.participant := by
  unfold rowCmp at h
  exact LawfulEqOrd.eq_of_compare (Ordering.then_eq_eq.mp (Ordering.then_eq_eq.mp h).2).2

theorem getElem_rankRows {rows : List DpsRowSnapshot} {i : ℕ} (h : i < (rankRows rows).length)
    (h' : i < (sortBy rowCmp rows).length) : (rankRows rows)[i] = { (sortBy rowCmp rows)[i] with rank := i + 1 } :=
  List.getElem_mapIdx ..

theorem length_rankRows (rows : List DpsRowSnapshot) : (rankRows rows).length = (sortBy rowCmp rows).length :=
  List.length_mapIdx

theorem map_rankRows {β : Type} (f : DpsRowSnapshot → β) (hf : ∀ (row : DpsRowSnapshot) (n : ℕ), f { row with rank := n } = f row)
    (rows : List DpsRowSnapshot) : (rankRows rows).map f = (sortBy rowCmp rows).map f := by
  refine List.ext_getElem (by rw [List.length_map, List.length_map, length_rankRows]) fun i h h' => ?_
  rw [List.length_map] at h h'
  rw [List.getElem_map, List.getElem_map, getElem_rankRows h h', hf]

theorem rank_rankRows (rows : List DpsRowSnapshot) :
    (rankRows rows).map (·.rank) = List.range' 1 (rankRows rows).length := by
  refine List.ext_getElem (by rw [List.length_map, List.length_range']) fun i h h' => ?_
  rw [List.length_map] at h
  rw [List.getElem_map, List.getElem_range', getElem_rankRows h (by rwa [length_rankRows] at h), Nat.one_mul,
    Nat.add_comm]

theorem mem_rankRows {rows : List DpsRowSnapshot} {row : DpsRowSnapshot} (h : row ∈ rankRows rows) :
    ∃ row' ∈ rows, ∃ n, row = { row' with rank := n } := by
  obtain ⟨i, hi, rfl⟩ := List.getElem_of_mem h
  have hi' : i < (sortBy rowCmp rows).length := by rwa [length_rankRows] at hi
  exact ⟨_, mem_sortBy.mp (List.getElem_mem hi'), _, getElem_rankRows hi hi'⟩

theorem pairwise_rankRows {rows : List DpsRowSnapshot} (h : (rows.map (·.participant)).Nodup) :
    (rankRows rows).Pairwise fun l r => rowCmp l r = .lt := by
  have hnodup : ((sortBy rowCmp rows).map (·.participant)).Nodup := ((sortBy_perm rows).map _).nodup_iff.mpr h
  have hsorted : (sortBy rowCmp rows).Pairwise _ := sortBy_pairwise rows
  have hboth := hsorted.and (List.pairwise_map.mp hnodup)
  rw [List.pairwise_iff_getElem] at hboth ⊢
  intro i j hi hj hij
  have hi' : i < (sortBy rowCmp rows).length := by rwa [length_rankRows] at hi
  have hj' : j < (sortBy rowCmp rows).length := by rwa [length_rankRows] at hj
  obtain ⟨hle, hne⟩ := hboth i j hi' hj' hij
  rw [getElem_rankRows hi hi', getElem_rankRows hj hj']
  show rowCmp (sortBy rowCmp rows)[i] (sortBy rowCmp rows)[j] = .lt
  cases hc : rowCmp (sortBy rowCmp rows)[i] (sortBy rowCmp rows)[j] with
  | lt => rfl
  | gt => exact absurd hc hle
  | eq => exact absurd (participant_of_rowCmp hc) hne

theorem foldlM_checkedAdd {α : Type} {f : α → ℕ} {l : List α} {start total : ℕ}
    (h : l.foldlM (fun total x => checkedAdd 128 total (f x)) start = some total) :
    total = start + (l.map f).sum ∧ (start < 2 ^ 128 → total < 2 ^ 128) := by
  induction l generalizing start with
  | nil =>
    obtain rfl := Option.some.inj h
    exact ⟨by simp, fun h => h⟩
  | cons x l ih =>
    rw [List.foldlM_cons] at h
    obtain ⟨next, hnext, h⟩ := Option.bind_eq_some_iff.mp h
    obtain ⟨hlt, rfl⟩ := checkedAdd_eq_some.mp hnext
    obtain ⟨hsum, hbound⟩ := ih h
    refine ⟨?_, fun _ => hbound hlt⟩
    rw [hsum, List.map_cons, List.sum_cons]
    omega

namespace CombatEngine
variable {e : CombatEngine} {a : EncounterState} {s : EncounterSnapshot}

/-- What the row of an election takes from it. -/
structure RowOf (election : Election) (encounterSeconds raidDamage : ℕ) (row : DpsRowSnapshot) : Prop where
  participant : row.participant = election.winner.participant
  source : row.electedSource = election.winner.source
  damage : row.damage = election.winner.damage
  active : row.activeSeconds = max election.winner.activeSeconds 1
  share : row.contributionMillionths = ratioMillionths election.winner.damage raidDamage

theorem rowOf_electionRow {election : Election} {encounterSeconds raidDamage : ℕ} {row : DpsRowSnapshot}
    (h : e.electionRow a encounterSeconds raidDamage election = some row) :
    RowOf election encounterSeconds raidDamage row := by
  unfold electionRow at h
  obtain ⟨dps, -, h⟩ := Option.bind_eq_some_iff.mp h
  obtain ⟨sdps, -, h⟩ := Option.bind_eq_some_iff.mp h
  obtain rfl := Option.some.inj h
  exact ⟨rfl, rfl, rfl, rfl, rfl⟩

/-- The elections behind the rows of a projection: one row for each, and one election for each
participant. -/
theorem Projected.rows_spec {revision : UInt64} (h : e.Projected a revision s) :
    ∃ (elections : ExtTreeMap ParticipantId Election) (rows : List DpsRowSnapshot), e.elect a = some elections ∧
      List.Forall₂ (fun election row => RowOf election s.encounterSeconds s.raidDamage row)
        (elections.toList.map (·.2)) rows ∧
      s.rows = rankRows rows ∧ s.raidDamage = (rows.map (·.damage)).sum ∧ s.raidDamage < 2 ^ 128 ∧
      (rows.map (·.participant)).Nodup := by
  obtain ⟨elections, rows, he, hraid, -, hrows, hs⟩ := h.elected
  obtain ⟨hspec, -⟩ := elect_spec he
  have hparticipant : ∀ entry ∈ elections.toList, entry.2.winner.participant = entry.1 := by
    rintro ⟨p, election⟩ hm
    obtain ⟨candidate, hel⟩ := hspec p election (ExtTreeMap.lookup_of_mem_toList hm)
    show election.winner.participant = p
    rw [hel.winner]
    exact hel.tallies.participant
  have hall : (elections.toList.map (·.2)).filter (0 < ·.winner.damage) = elections.toList.map (·.2) := by
    refine List.filter_eq_self.mpr fun election hm => decide_eq_true ?_
    obtain ⟨entry, hentry, rfl⟩ := List.mem_map.mp hm
    obtain ⟨candidate, hel⟩ := hspec entry.1 entry.2 (ExtTreeMap.lookup_of_mem_toList hentry)
    show 0 < entry.2.winner.damage
    rw [hel.winner]
    exact hel.positive
  rw [hall] at hrows
  have hforall : List.Forall₂ (fun election row => RowOf election s.encounterSeconds s.raidDamage row)
      (elections.toList.map (·.2)) rows := (forall₂_of_mapM hrows).imp fun _ _ h => rowOf_electionRow h
  obtain ⟨hsum, hbound⟩ := foldlM_checkedAdd hraid
  refine ⟨elections, rows, he, hforall, hs, ?_, hbound (by norm_num), ?_⟩
  · rw [hsum, map_eq_of_forall₂ hforall fun _ _ h => h.damage, Nat.zero_add]
  · rw [map_eq_of_forall₂ hforall fun _ _ h => h.participant, List.map_map]
    have hkeys : elections.toList.map ((fun election => election.winner.participant) ∘ (·.2)) =
        elections.toList.map (·.1) := List.map_congr_left hparticipant
    rw [hkeys]
    exact elections.nodup_keys_toList

/-- The counted facts of the participant of a row from its elected source. -/
def rowFacts (e : CombatEngine) (a : EncounterState) (row : DpsRowSnapshot) : List Counted :=
  (e.counted a).filter fun c => c.participant = row.participant ∧ c.source = row.electedSource

/-- The snapshot accounts for the counted facts of the encounter. -/
structure Accounted (e : CombatEngine) (a : EncounterState) (s : EncounterSnapshot) : Prop where
  participants : (s.rows.map (·.participant)).Nodup
  ranks : s.rows.map (·.rank) = List.range' 1 s.rows.length
  sorted : s.rows.Pairwise fun l r => rowCmp l r = .lt
  damage : ∀ row ∈ s.rows, row.damage = totalDamage (e.rowFacts a row)
  /-- Direct plus pet damage. -/
  parts : ∀ row ∈ s.rows, row.damage = totalDamage ((e.rowFacts a row).filter fun c => !c.pet) +
    totalDamage ((e.rowFacts a row).filter Counted.pet)
  /-- Every counted participant has a row. -/
  complete : ∀ c ∈ e.counted a, ∃ row ∈ s.rows, row.participant = c.participant
  raid : s.raidDamage = (s.rows.map (·.damage)).sum
  share : ∀ row ∈ s.rows, row.contributionMillionths = row.damage * 1000000 / s.raidDamage ∧
    row.contributionMillionths ≤ 1000000
  shares : (s.rows.map (·.contributionMillionths)).sum ≤ 1000000

theorem totalDamage_parts (cs : List Counted) :
    totalDamage cs = totalDamage (cs.filter fun c => !c.pet) + totalDamage (cs.filter Counted.pet) := by
  induction cs with
  | nil => rfl
  | cons c cs ih =>
    have hcons (l : List Counted) : totalDamage (c :: l) = c.amount + totalDamage l := by simp [totalDamage]
    cases hc : c.pet with
    | true =>
      rw [List.filter_cons_of_neg (by simp [hc]), List.filter_cons_of_pos hc, hcons, hcons, ih]
      omega
    | false =>
      rw [List.filter_cons_of_pos (by simp [hc]), List.filter_cons_of_neg (by simp [hc]), hcons, hcons, ih]
      omega

theorem computeSnapshot_accounted {revision : UInt64} (h : e.computeSnapshot a revision = some s) : e.Accounted a s := by
  obtain ⟨elections, rows, he, hforall, hs, hraid, hbound, hnodup⟩ := (computeSnapshot_spec h).rows_spec
  obtain ⟨hspec, hcomplete⟩ := elect_spec he
  -- a row stands for the election of its participant
  have hrow : ∀ row ∈ s.rows, ∃ (p : ParticipantId) (election : Election) (row' : DpsRowSnapshot) (n : ℕ),
      elections[p]? = some election ∧ RowOf election s.encounterSeconds s.raidDamage row' ∧ row' ∈ rows ∧
        row = { row' with rank := n } := by
    intro row hr
    rw [hs] at hr
    obtain ⟨row', hr', n, rfl⟩ := mem_rankRows hr
    obtain ⟨i, hi, rfl⟩ := List.getElem_of_mem hr'
    have hi' : i < (elections.toList.map (·.2)).length := by rwa [hforall.length_eq]
    have hof := List.Forall₂.get hforall hi' hi
    obtain ⟨entry, hm, hel⟩ := List.mem_map.mp (List.getElem_mem hi')
    refine ⟨entry.1, entry.2, _, n, ExtTreeMap.lookup_of_mem_toList hm, ?_, List.getElem_mem hi, rfl⟩
    rw [hel]
    exact hof
  have hdamage : ∀ row ∈ s.rows, row.damage = totalDamage (e.rowFacts a row) := by
    intro row hr
    obtain ⟨p, election, row', n, hp, hof, -, rfl⟩ := hrow row hr
    obtain ⟨candidate, hel⟩ := hspec p election hp
    have hparticipant : row'.participant = p := by
      rw [hof.participant, hel.winner]
      exact hel.tallies.participant
    show row'.damage = totalDamage ((e.counted a).filter fun c => c.participant = row'.participant ∧ c.source = row'.electedSource)
    rw [hof.damage, hof.source, hparticipant, hel.winner]
    exact hel.tallies.damage.trans (by rw [hel.winner])
  have hsum {f : DpsRowSnapshot → ℕ} (hf : ∀ (row : DpsRowSnapshot) (n : ℕ), f { row with rank := n } = f row) :
      (s.rows.map f).sum = (rows.map f).sum := by
    rw [hs, map_rankRows f hf]
    exact ((sortBy_perm rows).map f).sum_eq
  have hraid' : s.raidDamage = (s.rows.map (·.damage)).sum := hraid.trans (hsum fun _ _ => rfl).symm
  have hshare : ∀ row ∈ s.rows, row.contributionMillionths = row.damage * 1000000 / s.raidDamage := by
    intro row hr
    have hle : row.damage ≤ s.raidDamage := by
      rw [hraid']
      exact le_sum_of_mem DpsRowSnapshot.damage hr
    obtain ⟨p, election, row', n, -, hof, -, rfl⟩ := hrow row hr
    have hle : row'.damage ≤ s.raidDamage := hle
    show row'.contributionMillionths = row'.damage * 1000000 / s.raidDamage
    rw [hof.share, ← hof.damage, ratioMillionths_eq hle hbound]
  have hshares : (s.rows.map (·.contributionMillionths)).sum ≤ 1000000 := by
    have hfloor : s.rows.map (·.contributionMillionths) =
        (s.rows.map (·.damage)).map fun n => n * 1000000 / (s.rows.map (·.damage)).sum := by
      rw [List.map_map]
      refine List.map_congr_left fun row hr => ?_
      rw [hshare row hr, hraid']
      rfl
    rw [hfloor]
    exact sum_shares_le _ _
  refine ⟨?_, ?_, ?_, hdamage, ?_, ?_, hraid', fun row hr => ⟨hshare row hr, ?_⟩, hshares⟩
  · rw [hs, map_rankRows _ fun _ _ => rfl]
    exact ((sortBy_perm rows).map _).nodup_iff.mpr hnodup
  · rw [hs]
    exact rank_rankRows rows
  · rw [hs]
    exact pairwise_rankRows hnodup
  · exact fun row hr => (hdamage row hr).trans (totalDamage_parts _)
  · intro c hc
    obtain ⟨election, hp⟩ := hcomplete c hc (counted_pos hc)
    obtain ⟨candidate, hel⟩ := hspec _ election hp
    -- the row of the election
    have hparticipants : s.rows.map (·.participant) = (sortBy rowCmp rows).map (·.participant) := by
      rw [hs, map_rankRows _ fun _ _ => rfl]
    have hmem : c.participant ∈ s.rows.map (·.participant) := by
      rw [hparticipants, ((sortBy_perm rows).map _).mem_iff, map_eq_of_forall₂ hforall fun _ _ h => h.participant]
      refine List.mem_map.mpr ⟨election, List.mem_map.mpr ⟨(c.participant, election),
        ExtTreeMap.mem_toList_of_lookup hp, rfl⟩, ?_⟩
      rw [hel.winner]
      exact hel.tallies.participant
    obtain ⟨row, hr, hp⟩ := List.mem_map.mp hmem
    exact ⟨row, hr, hp⟩
  · exact (le_sum_of_mem DpsRowSnapshot.contributionMillionths hr).trans hshares

end CombatEngine
end Stonemite.Combat
