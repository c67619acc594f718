import Stonemite.Lib.Gather
import Stonemite.Combat.Accounting

/-!
# What a source brings to an election

The candidate of a participant and a source is what their counted facts sum to (`Counted.tally`). All of it but the flags that
are taken from one of the facts is the same in any order of them.
-/

open Std

namespace Stonemite.Combat

/-- The range with one more fact in it. -/
def rangeWith (range : Option (EqSecond × EqSecond)) (c : Counted) : EqSecond × EqSecond :=
  range.elim (c.eqTime, c.eqTime) fun r => (min r.1 c.eqTime, max r.2 c.eqTime)

/-- The first and the last second of every target. -/
def rangesOf (cs : List Counted) : ExtTreeMap CanonicalTargetId (EqSecond × EqSecond) :=
  cs.foldl (ExtTreeMap.gatherInto Counted.target rangeWith) ∅

def targetDamageOf (cs : List Counted) : ExtTreeMap CanonicalTargetId Nat :=
  cs.foldl (ExtTreeMap.gatherInto Counted.target fun total c => total.getD 0 + c.amount) ∅

/-- When each target was first hit. -/
def targetFirstOf (cs : List Counted) : ExtTreeMap CanonicalTargetId EqSecond :=
  cs.foldl (ExtTreeMap.gatherInto Counted.target fun first c => first.elim c.eqTime (min · c.eqTime)) ∅

/-- The last pet of the facts has an owner. -/
def lastPetOwned (cs : List Counted) : Bool := cs.foldl (fun owned c => if c.pet then c.owned else owned) false

/-- The candidate that starts with `first` and holds the facts `cs`. -/
def Counted.tally (first : Counted) (cs : List Counted) : Candidate :=
  { first.start with
    hasPet := lastPetOwned cs
    directDamage := totalDamage (cs.filter fun c => !c.pet)
    petDamage := totalDamage (cs.filter Counted.pet)
    damage := totalDamage cs
    events := cs.length
    ranges := rangesOf cs
    targetDamage := targetDamageOf cs
    targetFirst := targetFirstOf cs }

/-- The facts sum to a damage and a number of events that can be held. -/
def Fits (cs : List Counted) : Prop := totalDamage cs < 2 ^ 128 ∧ cs.length < 2 ^ 64

variable {cs cs' : List Counted} {first c : Counted}

theorem totalDamage_perm (h : cs.Perm cs') : totalDamage cs = totalDamage cs' := (h.map _).sum_eq

theorem totalDamage_filter_le (p : Counted → Bool) (cs : List Counted) : totalDamage (cs.filter p) ≤ totalDamage cs :=
  (List.filter_sublist.map _).sum_le_sum fun _ _ => Nat.zero_le _

theorem targetDamageOf_getD (t : CanonicalTargetId) :
    (targetDamageOf cs).getD t 0 = totalDamage (cs.filter fun c => c.target = t) := by
  have hfold (l : List Counted) (total : Option Nat) :
      (l.foldl (fun (total : Option Nat) c => some (total.getD 0 + c.amount)) total).getD 0 = total.getD 0 + totalDamage l := by
    induction l generalizing total with
    | nil => simp [totalDamage]
    | cons c l ih => simp [ih, totalDamage, Nat.add_assoc]
  rw [ExtTreeMap.getD_eq_getD_getElem?, targetDamageOf, ExtTreeMap.getElem?_foldl_gatherInto, hfold]
  simp

theorem Fits.of_append (h : Fits (cs ++ [c])) : Fits cs := by
  obtain ⟨hdamage, hlength⟩ := h
  rw [totalDamage_append] at hdamage
  rw [List.length_append, List.length_singleton] at hlength
  exact ⟨by omega, by omega⟩

instance (cs : List Counted) : Decidable (Fits cs) := inferInstanceAs (Decidable (_ ∧ _))

theorem checkedAdd_eq_add {w a b : Nat} (h : a + b < 2 ^ w) : checkedAdd w a b = some (a + b) := if_pos h

theorem add_tally (h : Fits (cs ++ [c])) : (first.tally cs).add c = some (first.tally (cs ++ [c])) := by
  have hfold {σ : Type} (f : σ → Counted → σ) (s : σ) : (cs ++ [c]).foldl f s = f (cs.foldl f s) c := by
    rw [List.foldl_append, List.foldl_cons, List.foldl_nil]
  obtain ⟨hdamage, hlength⟩ := h
  rw [totalDamage_append] at hdamage
  rw [List.length_append, List.length_singleton] at hlength
  have hpart (p : Counted → Bool) : totalDamage (cs.filter p) + c.amount < 2 ^ 128 := by
    have hle := totalDamage_filter_le p cs
    omega
  have htarget : (targetDamageOf cs).getD c.target 0 + c.amount < 2 ^ 128 := by
    rw [targetDamageOf_getD]
    exact hpart _
  have htargets : targetDamageOf (cs ++ [c]) = (targetDamageOf cs).insert c.target ((targetDamageOf cs).getD c.target 0 + c.amount) := by
    rw [targetDamageOf, hfold, ExtTreeMap.getD_eq_getD_getElem?]
    rfl
  have hfirst : targetFirstOf (cs ++ [c]) =
      (targetFirstOf cs).insert c.target (((targetFirstOf cs)[c.target]?).elim c.eqTime (min · c.eqTime)) := by
    rw [targetFirstOf, hfold]
    rfl
  have hranges : rangesOf (cs ++ [c]) = (rangesOf cs).insert c.target (rangeWith (rangesOf cs)[c.target]? c) := by
    rw [rangesOf, hfold]
    rfl
  have hpet : lastPetOwned (cs ++ [c]) = if c.pet then c.owned else lastPetOwned cs := by
    rw [lastPetOwned, hfold]
    rfl
  have hdirect : totalDamage ((cs ++ [c]).filter fun c => !c.pet) =
      totalDamage (cs.filter fun c => !c.pet) + if c.pet then 0 else c.amount := by
    rw [List.filter_append]
    cases hc : c.pet with
    | true => simp [hc]
    | false => rw [List.filter_cons_of_pos (by rw [hc]; rfl), List.filter_nil, totalDamage_append]; rfl
  have hpets : totalDamage ((cs ++ [c]).filter Counted.pet) =
      totalDamage (cs.filter Counted.pet) + if c.pet then c.amount else 0 := by
    rw [List.filter_append]
    cases hc : c.pet with
    | true => rw [List.filter_cons_of_pos hc, List.filter_nil, totalDamage_append]; rfl
    | false => simp [hc]
  have hp : (c.owned || c.provisionalPet) = c.pet := rfl
  unfold Candidate.add
  simp only [hp]
  rw [Counted.tally, Counted.tally, htargets, hfirst, hranges, hpet, hdirect, hpets, totalDamage_append, List.length_append,
    List.length_singleton]
  dsimp only
  rw [checkedAdd_eq_add hdamage, checkedAdd_eq_add hlength, checkedAdd_eq_add htarget]
  cases hc : c.pet with
  | true =>
    simp only [↓reduceIte]
    rw [checkedAdd_eq_add (hpart _)]
    rfl
  | false =>
    simp only [Bool.false_eq_true, ↓reduceIte]
    rw [checkedAdd_eq_add (hpart _)]
    rfl

theorem add_tally_none (h : ¬ Fits (cs ++ [c])) : (first.tally cs).add c = none := by
  rw [Option.eq_none_iff_forall_ne_some]
  intro candidate hadd
  have hp : (c.owned || c.provisionalPet) = c.pet := rfl
  unfold Candidate.add at hadd
  simp only [hp] at hadd
  obtain ⟨damage, hdamage, hadd⟩ := Option.bind_eq_some_iff.mp hadd
  have hevents : ∃ events, checkedAdd 64 cs.length 1 = some events := by
    cases hc : c.pet with
    | true =>
      simp only [hc, ↓reduceIte] at hadd
      obtain ⟨pet, -, hadd⟩ := Option.bind_eq_some_iff.mp hadd
      obtain ⟨direct, -, hadd⟩ := Option.bind_eq_some_iff.mp hadd
      obtain ⟨events, hevents, -⟩ := Option.bind_eq_some_iff.mp hadd
      exact ⟨events, hevents⟩
    | false =>
      simp only [hc, Bool.false_eq_true, ↓reduceIte] at hadd
      obtain ⟨pet, -, hadd⟩ := Option.bind_eq_some_iff.mp hadd
      obtain ⟨direct, -, hadd⟩ := Option.bind_eq_some_iff.mp hadd
      obtain ⟨events, hevents, -⟩ := Option.bind_eq_some_iff.mp hadd
      exact ⟨events, hevents⟩
  obtain ⟨events, hevents⟩ := hevents
  refine h ⟨?_, ?_⟩
  · rw [totalDamage_append]
    exact (checkedAdd_eq_some.mp hdamage).1
  · rw [List.length_append]
    exact (checkedAdd_eq_some.mp hevents).1

/-! ### The candidates of a list of facts -/

/-- The candidate of the facts of one participant and source. -/
def tallyOf : List Counted → Option Candidate
  | [] => none
  | first :: cs => some (first.tally (first :: cs))

/-- The facts of a participant from a source. -/
def factsFor (cs : List Counted) (key : CandidateKey) : List Counted := cs.filter (·.key = key)

/-- No sum of a candidate overflows. -/
def AllFit (cs : List Counted) : Prop := ∀ key, Fits (factsFor cs key)

/-- One more fact of its candidate. -/
def addCounted (candidates : ExtTreeMap CandidateKey Candidate) (c : Counted) : Option (ExtTreeMap CandidateKey Candidate) :=
  ((candidates.getD c.key c.start).add c).map (candidates.insert c.key)

variable {key : CandidateKey}

theorem factsFor_self : factsFor (cs ++ [c]) c.key = factsFor cs c.key ++ [c] := by
  have hself : [c].filter (·.key = c.key) = [c] := List.filter_cons_of_pos (decide_eq_true rfl)
  rw [factsFor, List.filter_append, hself]
  rfl

theorem factsFor_of_ne (h : c.key ≠ key) : factsFor (cs ++ [c]) key = factsFor cs key := by
  rw [factsFor, List.filter_append, List.filter_cons_of_neg (by simpa using h), List.filter_nil, List.append_nil]
  rfl

theorem AllFit.of_append (h : AllFit (cs ++ [c])) : AllFit cs := by
  intro key
  by_cases hkey : c.key = key
  · have hfits := h key
    rw [← hkey, factsFor_self] at hfits
    rw [← hkey]
    exact hfits.of_append
  · have hfits := h key
    rwa [factsFor_of_ne hkey] at hfits

theorem foldlM_addCounted (h : AllFit cs) : ∃ candidates, cs.foldlM addCounted ∅ = some candidates ∧
    ∀ key : CandidateKey, candidates[key]? = tallyOf (factsFor cs key) := by
  induction cs using List.reverseRecOn with
  | nil => exact ⟨∅, rfl, fun key => by simp [factsFor, tallyOf]⟩
  | append_singleton cs c ih =>
    obtain ⟨candidates, hfold, hlookup⟩ := ih h.of_append
    have hfits := h c.key
    rw [factsFor_self] at hfits
    -- the candidate of the key starts with its first fact
    obtain ⟨first, hfirst, htally⟩ : ∃ first : Counted, candidates.getD c.key c.start = first.tally (factsFor cs c.key) ∧
        tallyOf (factsFor cs c.key ++ [c]) = some (first.tally (factsFor cs c.key ++ [c])) := by
      rw [ExtTreeMap.getD_eq_getD_getElem?, hlookup]
      cases hfacts : factsFor cs c.key with
      | nil => exact ⟨c, rfl, rfl⟩
      | cons first facts => exact ⟨first, rfl, rfl⟩
    refine ⟨candidates.insert c.key (first.tally (factsFor cs c.key ++ [c])), ?_, fun key => ?_⟩
    · rw [List.foldlM_append, hfold]
      show (addCounted candidates c).bind some = _
      rw [addCounted, hfirst, add_tally hfits]
      rfl
    · rw [ExtTreeMap.getElem?_insert_ite]
      by_cases hkey : c.key = key
      · rw [if_pos hkey, ← hkey, factsFor_self, htally]
      · rw [if_neg hkey, hlookup, factsFor_of_ne hkey]

theorem foldlM_addCounted_none (h : ¬ AllFit cs) : cs.foldlM addCounted ∅ = none := by
  induction cs using List.reverseRecOn with
  | nil => exact absurd (fun key => ⟨by simp [factsFor, totalDamage], by simp [factsFor]⟩) h
  | append_singleton cs c ih =>
    rw [List.foldlM_append]
    by_cases hall : AllFit cs
    · obtain ⟨candidates, hfold, hlookup⟩ := foldlM_addCounted hall
      have hfits : ¬ Fits (factsFor cs c.key ++ [c]) := by
        intro hfits
        refine h fun key => ?_
        by_cases hkey : c.key = key
        · rw [← hkey, factsFor_self]
          exact hfits
        · rw [factsFor_of_ne hkey]
          exact hall key
      obtain ⟨first, hfirst⟩ : ∃ first : Counted, candidates.getD c.key c.start = first.tally (factsFor cs c.key) := by
        rw [ExtTreeMap.getD_eq_getD_getElem?, hlookup]
        cases factsFor cs c.key with
        | nil => exact ⟨c, rfl⟩
        | cons first facts => exact ⟨first, rfl⟩
      rw [hfold]
      show (addCounted candidates c).bind some = _
      rw [addCounted, hfirst, add_tally_none hfits]
      rfl
    · rw [ih hall]
      rfl

theorem factsFor_perm (h : cs.Perm cs') (key : CandidateKey) : (factsFor cs key).Perm (factsFor cs' key) := h.filter _

theorem Fits.perm (h : cs.Perm cs') (hfits : Fits cs) : Fits cs' := by
  rw [Fits, ← totalDamage_perm h, ← h.length_eq]
  exact hfits

theorem AllFit.perm (h : cs.Perm cs') (hfits : AllFit cs) : AllFit cs' := fun key => (hfits key).perm (factsFor_perm h key)

/-! ### The order of the facts -/

theorem rangesOf_perm (h : cs.Perm cs') : rangesOf cs = rangesOf cs' := by
  refine ExtTreeMap.foldl_gatherInto_perm (fun range x y => ?_) h
  cases range with
  | none => simp [rangeWith, min_comm, max_comm]
  | some r => simp [rangeWith, min_right_comm, max_right_comm]

theorem targetDamageOf_perm (h : cs.Perm cs') : targetDamageOf cs = targetDamageOf cs' := by
  refine ExtTreeMap.foldl_gatherInto_perm (fun total x y => ?_) h
  show total.getD 0 + x.amount + y.amount = total.getD 0 + y.amount + x.amount
  omega

theorem targetFirstOf_perm (h : cs.Perm cs') : targetFirstOf cs = targetFirstOf cs' := by
  refine ExtTreeMap.foldl_gatherInto_perm (fun time x y => ?_) h
  cases time with
  | none => exact min_comm x.eqTime y.eqTime
  | some t => exact min_right_comm t x.eqTime y.eqTime

theorem tally_perm {first' : Counted} (h : cs.Perm cs') (hstart : first.start = first'.start)
    (hpet : lastPetOwned cs = lastPetOwned cs') : first.tally cs = first'.tally cs' := by
  rw [Counted.tally, Counted.tally, hstart, hpet, totalDamage_perm h, totalDamage_perm (h.filter fun c => !c.pet),
    totalDamage_perm (h.filter Counted.pet), h.length_eq, rangesOf_perm h, targetDamageOf_perm h, targetFirstOf_perm h]

end Stonemite.Combat
