import Stonemite.Combat.OrderFree

/-!
# When an encounter has a projection

`CountsFact` says on the facts, the sources and the identities alone which facts an election counts. Where their damage fits
(`Fits`), an encounter has a projection exactly if one of its facts counts (`computeSnapshot_isSome_iff`): the elected damage
is at most the counted one (`sum_winners_le`), so no total on the way overflows (`targetTotals_some`).
-/

open Std

namespace Stonemite.Combat
namespace CombatEngine

/-- The owner of the attacker of a fact: the one it names, else the one claimed. -/
def ownerOf (e : CombatEngine) (a : EncounterState) (fact : LedgerFact) (damage : DamageObservation) : Option ParticipantId :=
  (damage.explicitOwner.map fun owner => (resolveObserved fact.source owner).2).or
    (e.claimedOwnerInEncounter fact.source (resolveObserved fact.source damage.attacker).1 a)

/-- A damage fact counts for an encounter that is compared up to the second `cut`: it is in time and positive, its target is
one of the encounter's and no player, and its attacker is attributable and somebody else. -/
structure CountsFact (e : CombatEngine) (a : EncounterState) (cut : Option EqSecond) (fact : LedgerFact)
    (damage : DamageObservation) : Prop where
  event : fact.event = .damage damage
  inTime : ∀ second ∈ cut, fact.eqTime ≤ second
  positive : damage.positive = true
  target : a.targets.contains (canonicalTargetId (resolveObserved fact.source damage.defender).1) = true
  defender : (resolveObserved fact.source damage.defender).2 ∉ e.verifiedPlayers
  other : (e.ownerOf a fact damage).getD (resolveObserved fact.source damage.attacker).2 ≠
    (resolveObserved fact.source damage.defender).2
  attributable : (e.ownerOf a fact damage).isSome = true ∨ damage.kind = .pet ∨
    (resolveObserved fact.source damage.attacker).2 ∈ e.verifiedPlayers ∨ damage.attacker.perspective ≠ .named ∨
    possiblePlayerName (resolveObserved fact.source damage.attacker).1 = true

theorem classify_isSome {e : CombatEngine} {a : EncounterState} {cut : Option EqSecond} {fact : LedgerFact} :
    (e.classify a cut fact).isSome = true ↔ ∃ damage, e.CountsFact a cut fact damage := by
  have hcut : cut.any (· < fact.eqTime) = false ↔ ∀ second ∈ cut, fact.eqTime ≤ second := by
    cases cut with
    | none => simp
    | some second => simp
  unfold classify
  cases hevent : fact.event with
  | attempt | slain =>
    constructor
    · intro h
      split_ifs at h <;> cases h
    · rintro ⟨damage, hcounts⟩
      cases hevent.symm.trans hcounts.event
  | damage damage =>
    have howner : ((damage.explicitOwner.map (resolveObserved fact.source)).map (·.2)).or
        (e.claimedOwnerInEncounter fact.source (resolveObserved fact.source damage.attacker).1 a) =
          e.ownerOf a fact damage := by
      rw [ownerOf, Option.map_map]
      rfl
    dsimp only
    rw [howner]
    constructor
    · intro h
      split_ifs at h with hlate hpositive htarget hself hunknown
      all_goals try cases h
      simp only [Bool.or_eq_true, Bool.not_eq_true', decide_eq_true_eq, not_or, Bool.not_eq_false, Bool.and_eq_true,
        bne_iff_ne, beq_iff_eq] at hpositive htarget hunknown
      refine ⟨damage, hevent, hcut.mp (Bool.eq_false_iff.mpr hlate), hpositive, htarget.1, htarget.2, hself, ?_⟩
      rcases hunknown with (((h | ⟨-, h⟩) | h) | h) | h
      · exact .inl h
      · exact .inr (.inl h)
      · exact .inr (.inr (.inl h))
      · exact .inr (.inr (.inr (.inl h)))
      · exact .inr (.inr (.inr (.inr h)))
    · rintro ⟨damage', hcounts⟩
      obtain rfl : damage = damage' := FactEvent.damage.inj (hevent.symm.trans hcounts.event)
      -- a pet has an owner or is provisional
      have hpet (hkind : damage.kind = .pet) : (e.ownerOf a fact damage).isSome = true ∨
          ((e.ownerOf a fact damage).isNone && damage.kind == .pet) = true := by
        rw [hkind]
        cases e.ownerOf a fact damage with
        | none => exact .inr rfl
        | some owner => exact .inl rfl
      rw [if_neg (Bool.eq_false_iff.mp (hcut.mpr hcounts.inTime)), if_neg (by simp [hcounts.positive]),
        if_neg (by simp [hcounts.target, hcounts.defender]), if_neg hcounts.other, if_neg]
      · rfl
      · simp only [Bool.not_eq_true', Bool.not_eq_false, Bool.or_eq_true, decide_eq_true_eq, bne_iff_ne]
        rcases hcounts.attributable with h | h | h | h | h
        · exact .inl (.inl (.inl (.inl h)))
        · exact .inl (.inl (.inl (hpet h)))
        · exact .inl (.inl (.inr h))
        · exact .inl (.inr h)
        · exact .inr h

end CombatEngine

/-! ### The damage of the winners -/

variable {bridge : Int} {cs : List Counted} {p : ParticipantId}

theorem totalDamage_filter_add (q : Counted → Bool) (cs : List Counted) :
    totalDamage (cs.filter q) + totalDamage (cs.filter fun c => !q c) = totalDamage cs := by
  rw [totalDamage, totalDamage, ← List.sum_append, ← List.map_append]
  exact totalDamage_perm (List.filter_append_perm q cs)

theorem sum_participants_le {ps : List ParticipantId} (h : ps.Nodup) (cs : List Counted) :
    (ps.map fun p => totalDamage (cs.filter (·.participant = p))).sum ≤ totalDamage cs := by
  induction ps generalizing cs with
  | nil => exact Nat.zero_le _
  | cons p ps ih =>
    obtain ⟨hp, hps⟩ := List.nodup_cons.mp h
    have hrest : (ps.map fun p' => totalDamage (cs.filter (·.participant = p'))) =
        ps.map fun p' => totalDamage ((cs.filter fun c => !decide (c.participant = p)).filter (·.participant = p')) := by
      refine List.map_congr_left fun p' hp' => ?_
      rw [List.filter_filter]
      refine congrArg totalDamage (List.filter_congr fun c _ => ?_)
      by_cases hc : c.participant = p'
      · have hne : c.participant ≠ p := fun heq => hp (heq ▸ hc ▸ hp')
        rw [decide_eq_false hne, Bool.not_false, Bool.and_true]
      · rw [decide_eq_false hc, Bool.false_and]
    rw [List.map_cons, List.sum_cons, hrest, ← totalDamage_filter_add (fun c => decide (c.participant = p)) cs]
    exact Nat.add_le_add_left (ih hps _) _

theorem winner_spec {candidates : ExtTreeMap CandidateKey Candidate} (hholds : Holds candidates cs) {election : Election}
    (h : electOne (optionsFor bridge candidates p) = some election) : ∃ facts : List Counted, facts ≠ [] ∧
      facts.Sublist (cs.filter (·.participant = p)) ∧ election.winner.damage = totalDamage facts ∧
        election.winner.targetDamage = targetDamageOf facts := by
  obtain ⟨s, first, hopt⟩ := hholds.mem_optionsFor.mp (electOne_mem h)
  refine ⟨factsFor cs (toLex (p, s)), hopt.nonempty, ?_, by rw [hopt.eq]; rfl, by rw [hopt.eq]; rfl⟩
  refine List.monotone_filter_right cs fun c hc => ?_
  have hkey : c.key = toLex (p, s) := of_decide_eq_true hc
  exact decide_eq_true (congrArg (fun key : CandidateKey => (ofLex key).1) hkey)

theorem sum_winners_le {candidates : ExtTreeMap CandidateKey Candidate} {elections : ExtTreeMap ParticipantId Election}
    (hholds : Holds candidates cs) (hlookup : ∀ p : ParticipantId, elections[p]? = electOne (optionsFor bridge candidates p)) :
    ((elections.toList.map (·.2)).map (·.winner.damage)).sum ≤ totalDamage cs := by
  have hparticipants := sum_participants_le elections.nodup_keys_toList cs
  rw [List.map_map] at hparticipants ⊢
  refine (List.sum_le_sum fun entry hm => ?_).trans hparticipants
  obtain ⟨facts, -, hsub, hdamage, -⟩ :=
    winner_spec hholds ((hlookup entry.1).symm.trans (ExtTreeMap.lookup_of_mem_toList hm))
  exact hdamage.trans_le ((hsub.map _).sum_le_sum fun _ _ => Nat.zero_le _)

/-! ### The damage of the targets -/

theorem foldlM_checkedAdd_of_lt {α : Type} {f : α → ℕ} {l : List α} {start : ℕ} (h : start + (l.map f).sum < 2 ^ 128) :
    l.foldlM (fun total x => checkedAdd 128 total (f x)) start = some (start + (l.map f).sum) := by
  induction l generalizing start with
  | nil => rfl
  | cons x l ih =>
    rw [List.map_cons, List.sum_cons, ← Nat.add_assoc] at h ⊢
    rw [List.foldlM_cons, checkedAdd_eq_add (by omega)]
    exact ih h

/-- The damage of the targets of one election can be added where it is at most `b` each. -/
theorem foldlM_target_some (first : CanonicalTargetId → EqSecond) {l : List (CanonicalTargetId × ℕ)}
    {totals : ExtTreeMap CanonicalTargetId (ℕ × EqSecond)} {n b : ℕ} (hnodup : (l.map (·.1)).Nodup)
    (hle : ∀ entry ∈ l, entry.2 ≤ b) (hlt : n + b < 2 ^ 128)
    (hbound : ∀ (t : CanonicalTargetId) (x : ℕ × EqSecond), totals[t]? = some x → x.1 ≤ n + b ∧ (t ∈ l.map (·.1) → x.1 ≤ n)) :
    ∃ totals', l.foldlM (fun totals entry =>
        (checkedAdd 128 (totals.getD entry.1 (0, first entry.1)).1 entry.2).map fun total =>
          totals.insert entry.1 (total, min (totals.getD entry.1 (0, first entry.1)).2 (first entry.1))) totals = some totals' ∧
      (∀ (t : CanonicalTargetId) (x : ℕ × EqSecond), totals'[t]? = some x → x.1 ≤ n + b) ∧
        (totals ≠ ∅ ∨ l ≠ [] → totals' ≠ ∅) := by
  induction l generalizing totals with
  | nil => exact ⟨totals, rfl, fun t x hx => (hbound t x hx).1, fun h => h.resolve_right fun hne => hne rfl⟩
  | cons entry l ih =>
    rw [List.map_cons] at hnodup hbound
    obtain ⟨hnew, hnodup⟩ := List.nodup_cons.mp hnodup
    obtain ⟨hentry, hle⟩ := List.forall_mem_cons.mp hle
    have hcurrent : (totals.getD entry.1 (0, first entry.1)).1 ≤ n := by
      rw [ExtTreeMap.getD_eq_getD_getElem?]
      cases hx : totals[entry.1]? with
      | none => exact Nat.zero_le n
      | some x => exact (hbound entry.1 x hx).2 List.mem_cons_self
    have hnext (t : CanonicalTargetId) (x : ℕ × EqSecond)
        (hx : (totals.insert entry.1 ((totals.getD entry.1 (0, first entry.1)).1 + entry.2,
          min (totals.getD entry.1 (0, first entry.1)).2 (first entry.1)))[t]? = some x) :
        x.1 ≤ n + b ∧ (t ∈ l.map (·.1) → x.1 ≤ n) := by
      rw [ExtTreeMap.getElem?_insert_ite] at hx
      split_ifs at hx with ht
      · obtain rfl := Option.some.inj hx
        exact ⟨Nat.add_le_add hcurrent hentry, fun hmem => absurd (ht ▸ hmem) hnew⟩
      · exact ⟨(hbound t x hx).1, fun hmem => (hbound t x hx).2 (List.mem_cons_of_mem _ hmem)⟩
    obtain ⟨totals', hfold, hunder, hsome⟩ := ih hnodup hle hnext
    refine ⟨totals', ?_, hunder, fun _ => hsome (.inl ExtTreeMap.insert_ne_empty)⟩
    rw [List.foldlM_cons, checkedAdd_eq_add (by omega)]
    exact hfold

theorem targetDamageOf_spec {facts : List Counted} (hpos : ∀ c ∈ facts, 0 < c.amount) (hne : facts ≠ []) :
    (targetDamageOf facts).toList ≠ [] ∧ ∀ entry ∈ (targetDamageOf facts).toList, entry.2 ≤ totalDamage facts := by
  constructor
  · obtain ⟨c, hc⟩ := List.exists_mem_of_ne_nil _ hne
    have htotal : (targetDamageOf facts).getD c.target 0 = totalDamage (facts.filter fun c' => c'.target = c.target) :=
      targetDamageOf_getD c.target
    have hle : c.amount ≤ totalDamage (facts.filter fun c' => c'.target = c.target) :=
      le_sum_of_mem Counted.amount (List.mem_filter.mpr ⟨hc, decide_eq_true rfl⟩)
    have hamount := hpos c hc
    cases hx : (targetDamageOf facts)[c.target]? with
    | none =>
      rw [ExtTreeMap.getD_eq_getD_getElem?, hx, Option.getD_none] at htotal
      omega
    | some x => exact List.ne_nil_of_mem (ExtTreeMap.mem_toList_of_lookup hx)
  · rintro ⟨t, x⟩ hm
    have htotal : (targetDamageOf facts).getD t 0 = totalDamage (facts.filter fun c => c.target = t) := targetDamageOf_getD t
    rw [ExtTreeMap.getD_eq_getD_getElem?, ExtTreeMap.lookup_of_mem_toList hm, Option.getD_some] at htotal
    rw [htotal]
    exact totalDamage_filter_le _ facts

/-- What a winner brings: damage that is dealt to targets, to none of them more than the whole. -/
structure Brings (winner : Candidate) : Prop where
  positive : 0 < winner.damage
  nonempty : winner.targetDamage.toList ≠ []
  le : ∀ entry ∈ winner.targetDamage.toList, entry.2 ≤ winner.damage

theorem brings_winner {candidates : ExtTreeMap CandidateKey Candidate} {elections : ExtTreeMap ParticipantId Election}
    (hholds : Holds candidates cs) (hlookup : ∀ p : ParticipantId, elections[p]? = electOne (optionsFor bridge candidates p))
    (hpos : ∀ c ∈ cs, 0 < c.amount) {election : Election} (hm : election ∈ elections.toList.map (·.2)) :
    Brings election.winner := by
  obtain ⟨entry, hentry, rfl⟩ := List.mem_map.mp hm
  obtain ⟨facts, hne, hsub, hdamage, htarget⟩ :=
    winner_spec hholds ((hlookup entry.1).symm.trans (ExtTreeMap.lookup_of_mem_toList hentry))
  have hpositive : ∀ c ∈ facts, 0 < c.amount := fun c hc => hpos c (List.mem_filter.mp (hsub.subset hc)).1
  obtain ⟨htargets, hle⟩ := targetDamageOf_spec hpositive hne
  obtain ⟨c, hc⟩ := List.exists_mem_of_ne_nil _ hne
  refine ⟨?_, by rw [htarget]; exact htargets, by rw [htarget, hdamage]; exact hle⟩
  rw [hdamage]
  exact (hpositive c hc).trans_le (le_sum_of_mem Counted.amount hc)

/-- The damage of all targets can be held where that of the winners can. -/
theorem targetTotals_some {a : EncounterState} {elections : List Election}
    (htargets : ∀ election ∈ elections, Brings election.winner)
    (hlt : (elections.map (·.winner.damage)).sum < 2 ^ 128) :
    ∃ totals, targetTotals a elections = some totals ∧ (elections ≠ [] → totals ≠ ∅) := by
  have hloop (start : ExtTreeMap CanonicalTargetId (ℕ × EqSecond)) (n : ℕ)
      (hn : n + (elections.map (·.winner.damage)).sum < 2 ^ 128)
      (hstart : ∀ (t : CanonicalTargetId) (x : ℕ × EqSecond), start[t]? = some x → x.1 ≤ n) :
      ∃ totals, elections.foldlM (fun totals election => election.winner.targetDamage.toList.foldlM (fun totals entry =>
          (checkedAdd 128 (totals.getD entry.1 (0, (election.winner.targetFirst[entry.1]?).getD a.startEq)).1 entry.2).map
            fun total => totals.insert entry.1
              (total, min (totals.getD entry.1 (0, (election.winner.targetFirst[entry.1]?).getD a.startEq)).2
                ((election.winner.targetFirst[entry.1]?).getD a.startEq))) totals) start = some totals ∧
        (start ≠ ∅ ∨ elections ≠ [] → totals ≠ ∅) := by
    induction elections generalizing start n with
    | nil => exact ⟨start, rfl, fun h => h.resolve_right fun hne => hne rfl⟩
    | cons election elections ih =>
      obtain ⟨hbrings, htargets⟩ := List.forall_mem_cons.mp htargets
      rw [List.map_cons, List.sum_cons] at hlt hn
      obtain ⟨next, hfold, hunder, hsome⟩ := foldlM_target_some
        (fun t => (election.winner.targetFirst[t]?).getD a.startEq)
        election.winner.targetDamage.nodup_keys_toList hbrings.le (n := n) (by omega) fun t x hx =>
          ⟨(hstart t x hx).trans (Nat.le_add_right _ _), fun _ => hstart t x hx⟩
      obtain ⟨totals, hrest, hall⟩ := ih htargets (by omega) next (n + election.winner.damage) (by omega) hunder
      refine ⟨totals, ?_, fun _ => hall (.inl (hsome (.inr hbrings.nonempty)))⟩
      rw [List.foldlM_cons, hfold]
      exact hrest
  obtain ⟨totals, hfold, hall⟩ := hloop ∅ 0 (by omega) fun t x hx => by simp at hx
  exact ⟨totals, hfold, fun hne => hall (.inr hne)⟩

theorem roundRate_some {damage : ℕ} (h : damage < 2 ^ 128) (seconds : ℕ) : ∃ rate, roundRate damage seconds = some rate := by
  unfold roundRate
  dsimp only
  refine ⟨_, checkedAdd_eq_add ?_⟩
  have hdiv := Nat.div_le_self damage (max seconds 1)
  split_ifs with hhalf
  · -- a quotient that is rounded up is by two at least
    have hseconds : 2 ≤ max seconds 1 := by
      by_contra hone
      rw [show max seconds 1 = 1 by omega, Nat.mod_one] at hhalf
      cases hhalf
    have hhalves := Nat.div_le_div_left hseconds (by decide : 0 < 2) (a := damage)
    omega
  · omega

/-! ### Projections -/

namespace CombatEngine
variable {e : CombatEngine} {a : EncounterState}

theorem computeSnapshot_some (hknown : e.FactsKnown a) (hfit : Fits (e.counted a)) (hne : e.counted a ≠ []) (revision : UInt64) :
    ∃ s, e.computeSnapshot a revision = some s := by
  have hall : AllFit (e.counted a) := fun key =>
    ⟨(totalDamage_filter_le _ _).trans_lt hfit.1, (List.length_filter_le _ _).trans_lt hfit.2⟩
  obtain ⟨candidates, elections, hholds, helect, hlookup⟩ :=
    @electCounted_spec e.policy.activeRangeBridgeSeconds _ (readings_counted (e := e) (a := a)) hall
  rw [← elect_eq hknown] at helect
  have hsum := (sum_winners_le hholds hlookup).trans_lt hfit.1
  have hbrings (election : Election) (hm : election ∈ elections.toList.map (·.2)) : Brings election.winner :=
    brings_winner hholds hlookup (fun c hc => counted_pos hc) hm
  have hsome : elections.toList.map (·.2) ≠ [] := by
    obtain ⟨c, hc⟩ := List.exists_mem_of_ne_nil _ hne
    obtain ⟨election, hel⟩ := (elect_spec helect).2 c hc (counted_pos hc)
    exact List.ne_nil_of_mem (List.mem_map_of_mem (ExtTreeMap.mem_toList_of_lookup hel))
  rw [computeSnapshot, helect, Option.bind_some]
  dsimp only
  generalize elections.toList.map (·.2) = winners at hsum hsome hbrings
  obtain ⟨winner, hmem⟩ := List.exists_mem_of_ne_nil _ hsome
  have hwon {election : Election} (hm : election ∈ winners) :
      election.winner.damage ≤ (winners.map (·.winner.damage)).sum :=
    le_sum_of_mem (fun election => election.winner.damage) hm
  have hraid : 0 < (winners.map (·.winner.damage)).sum := (hbrings winner hmem).positive.trans_le (hwon hmem)
  rw [if_neg (by simpa using hsome), foldlM_checkedAdd_of_lt (by omega), Option.bind_some, Nat.zero_add, if_neg hraid.ne']
  obtain ⟨totals, htotals, hnonempty⟩ := targetTotals_some (a := a) hbrings hsum
  obtain ⟨primary, hprimary⟩ : ∃ primary, maxBy? primaryCmp totals.toList = some primary := by
    refine Option.ne_none_iff_exists'.mp fun hnone => hnonempty hsome ?_
    exact ExtTreeMap.toList_eq_nil_iff.mp (maxBy?_eq_none.mp hnone)
  obtain ⟨rows, hrows⟩ : ∃ rows, (winners.filter (0 < ·.winner.damage)).mapM (e.electionRow a
      (inclusiveSeconds a.startEq a.endEq) (winners.map (·.winner.damage)).sum) = some rows := by
    refine exists_mapM fun election hm => ?_
    have hle := hwon (List.mem_filter.mp hm).1
    obtain ⟨dps, hdps⟩ := roundRate_some (hle.trans_lt hsum) (max election.winner.activeSeconds 1)
    obtain ⟨sdps, hsdps⟩ := roundRate_some (hle.trans_lt hsum) (inclusiveSeconds a.startEq a.endEq)
    rw [electionRow, hdps, hsdps]
    exact ⟨_, rfl⟩
  rw [snapshotOf]
  dsimp only
  rw [htotals, Option.bind_eq_bind, Option.bind_some, hprimary, Option.bind_eq_bind, Option.bind_some, hrows]
  exact ⟨_, rfl⟩

theorem counted_of_computeSnapshot {revision : UInt64} {s : EncounterSnapshot} (h : e.computeSnapshot a revision = some s) :
    e.counted a ≠ [] := by
  obtain ⟨elections, rows, helect, hraid, hne, -⟩ := (computeSnapshot_spec h).elected
  intro hnil
  have hempty : elections.toList.map (·.2) = [] := by
    refine List.eq_nil_iff_forall_not_mem.mpr fun election hm => ?_
    obtain ⟨entry, hentry, rfl⟩ := List.mem_map.mp hm
    obtain ⟨candidate, hel⟩ := (elect_spec helect).1 entry.1 entry.2 (ExtTreeMap.lookup_of_mem_toList hentry)
    have hpos := hel.positive
    rw [hel.tallies.damage, hnil] at hpos
    cases hpos
  rw [hempty] at hraid
  exact hne (Option.some.inj hraid).symm

/-- Some fact of the encounter counts up to the second `cut`. -/
def CountsSome (e : CombatEngine) (a : EncounterState) (cut : Option EqSecond) : Prop :=
  ∃ i ∈ a.facts, ∃ fact ∈ e.ledger[i]?, ∃ damage, e.CountsFact a cut fact damage

theorem counted_ne_nil : e.counted a ≠ [] ↔ e.CountsSome a (e.comparisonWatermark a) := by
  constructor
  · intro hne
    obtain ⟨c, hc⟩ := List.exists_mem_of_ne_nil _ hne
    obtain ⟨i, hi, hc⟩ := List.mem_filterMap.mp hc
    obtain ⟨fact, hfact, hc⟩ := Option.bind_eq_some_iff.mp hc
    exact ⟨i, hi, fact, hfact, classify_isSome.mp (by rw [hc]; rfl)⟩
  · rintro ⟨i, hi, fact, hfact, hcounts⟩
    obtain ⟨c, hc⟩ := Option.isSome_iff_exists.mp (classify_isSome.mpr hcounts)
    exact List.ne_nil_of_mem (List.mem_filterMap.mpr ⟨i, hi, Option.bind_eq_some_iff.mpr ⟨fact, hfact, hc⟩⟩)

/-- Where its facts fit, an encounter has a projection exactly if one of them counts. -/
theorem computeSnapshot_isSome_iff (hknown : e.FactsKnown a) (hfit : Fits (e.counted a)) (revision : UInt64) :
    (e.computeSnapshot a revision).isSome = true ↔ e.CountsSome a (e.comparisonWatermark a) := by
  rw [← counted_ne_nil]
  constructor
  · intro h
    obtain ⟨s, hs⟩ := Option.isSome_iff_exists.mp h
    exact counted_of_computeSnapshot hs
  · intro hne
    obtain ⟨s, hs⟩ := computeSnapshot_some hknown hfit hne revision
    rw [hs]
    rfl

end CombatEngine
end Stonemite.Combat
