import Mathlib

/-!
# Splitting a list at a pattern

`splitFirst` and `splitLast` give the parts around the first and the last occurrence of a pattern that is not empty.
-/

namespace Stonemite

variable {α : Type} [DecidableEq α]

/-- The text before and after the first occurrence. -/
def splitFirst (pat : List α) : List α → Option (List α × List α)
  | [] => none
  | c :: s =>
    if pat.isPrefixOf (c :: s) then some ([], (c :: s).drop pat.length)
    else (splitFirst pat s).map fun parts => (c :: parts.1, parts.2)

/-- The text before and after the last occurrence. -/
def splitLast (pat s : List α) : Option (List α × List α) :=
  (splitFirst pat.reverse s.reverse).map fun parts => (parts.2.reverse, parts.1.reverse)

variable {pat s a b : List α} {c : α}

theorem splitFirst_cons_pos (h : pat <+: c :: s) : splitFirst pat (c :: s) = some ([], (c :: s).drop pat.length) := by
  rw [splitFirst, if_pos (List.isPrefixOf_iff_prefix.mpr h)]

theorem splitFirst_cons_neg (h : ¬ pat <+: c :: s) :
    splitFirst pat (c :: s) = (splitFirst pat s).map fun parts => (c :: parts.1, parts.2) := by
  rw [splitFirst, if_neg fun hp => h (List.isPrefixOf_iff_prefix.mp hp)]

omit [DecidableEq α] in
/-- An occurrence at the start of a list that goes on with the pattern ends before the pattern does. -/
theorem prefix_of_prefix_append (hpat : pat ≠ []) (h : pat <+: c :: a ++ pat ++ b) : pat <+: c :: a ++ pat.dropLast := by
  have happend : c :: a ++ pat ++ b = (c :: a ++ pat.dropLast) ++ (pat.getLast hpat :: b) := by
    nth_rewrite 1 [← List.dropLast_concat_getLast hpat]
    simp
  rw [happend] at h
  refine List.prefix_of_prefix_length_le h (List.prefix_append _ _) ?_
  rw [List.length_append, List.length_dropLast, List.length_cons]
  omega

/-- The parts around a pattern are those of its first occurrence. -/
theorem splitFirst_eq_some_iff (hpat : pat ≠ []) :
    splitFirst pat s = some (a, b) ↔ s = a ++ pat ++ b ∧ ¬ pat <:+: a ++ pat.dropLast := by
  have hshort : ¬ pat <:+: pat.dropLast := fun h => by
    have hle := h.length_le
    have hpos := List.length_pos_iff.mpr hpat
    rw [List.length_dropLast] at hle
    omega
  induction s generalizing a with
  | nil => simp [splitFirst, hpat]
  | cons c s ih =>
    by_cases hp : pat <+: c :: s
    · rw [splitFirst_cons_pos hp, Option.some_inj, Prod.mk.injEq]
      obtain ⟨t, ht⟩ := hp
      constructor
      · rintro ⟨rfl, rfl⟩
        refine ⟨?_, by simpa using hshort⟩
        rw [← ht, List.drop_left, List.nil_append]
      · rintro ⟨heq, hfirst⟩
        cases a with
        | nil =>
          rw [heq]
          simp
        | cons d a =>
          cases heq
          exact absurd (prefix_of_prefix_append hpat ⟨t, ht⟩).isInfix hfirst
    · rw [splitFirst_cons_neg hp, Option.map_eq_some_iff]
      constructor
      · rintro ⟨⟨a', b'⟩, hsplit, heq⟩
        cases heq
        obtain ⟨rfl, hfirst⟩ := ih.mp hsplit
        refine ⟨rfl, fun hin => ?_⟩
        rw [List.cons_append, List.infix_cons_iff] at hin
        rcases hin with hstart | hin
        · refine hp (hstart.trans ?_)
          rw [List.append_assoc, ← List.cons_append]
          exact (List.prefix_append_right_inj _).mpr ((List.dropLast_prefix pat).trans (List.prefix_append _ _))
        · exact hfirst hin
      · rintro ⟨heq, hfirst⟩
        cases a with
        | nil =>
          rw [heq, List.nil_append] at hp
          exact absurd (List.prefix_append _ _) hp
        | cons d a =>
          cases heq
          exact ⟨(a, b), ih.mpr ⟨rfl, fun hin => hfirst (List.infix_cons hin)⟩, rfl⟩

theorem splitFirst_eq_none_iff (hpat : pat ≠ []) : splitFirst pat s = none ↔ ¬ pat <:+: s := by
  induction s with
  | nil => simp [splitFirst, hpat]
  | cons c s ih =>
    by_cases hp : pat <+: c :: s
    · simp [splitFirst_cons_pos hp, hp.isInfix]
    · simp [splitFirst_cons_neg hp, List.infix_cons_iff, hp, ih]

omit [DecidableEq α] in
theorem infix_reverse_tail : pat.reverse <:+: b.reverse ++ pat.reverse.dropLast ↔ pat <:+: pat.tail ++ b := by
  rw [List.dropLast_reverse, ← List.reverse_append, List.reverse_infix]

theorem splitLast_eq_some_iff (hpat : pat ≠ []) :
    splitLast pat s = some (a, b) ↔ s = a ++ pat ++ b ∧ ¬ pat <:+: pat.tail ++ b := by
  have hpat' : pat.reverse ≠ [] := by simpa using hpat
  have happend : s.reverse = b.reverse ++ pat.reverse ++ a.reverse ↔ s = a ++ pat ++ b := by
    rw [← List.reverse_inj]
    simp
  rw [splitLast, Option.map_eq_some_iff]
  constructor
  · rintro ⟨⟨b', a'⟩, hsplit, heq⟩
    cases heq
    obtain ⟨hs, hlast⟩ := (splitFirst_eq_some_iff hpat').mp hsplit
    refine ⟨happend.mp (by simpa using hs), fun h => hlast ?_⟩
    simpa using infix_reverse_tail.mpr h
  · rintro ⟨hs, hlast⟩
    refine ⟨(b.reverse, a.reverse), (splitFirst_eq_some_iff hpat').mpr ⟨happend.mpr hs, ?_⟩, by simp⟩
    exact fun h => hlast (infix_reverse_tail.mp h)

theorem splitLast_eq_none_iff (hpat : pat ≠ []) : splitLast pat s = none ↔ ¬ pat <:+: s := by
  rw [splitLast, Option.map_eq_none_iff, splitFirst_eq_none_iff (by simpa using hpat), List.reverse_infix]

theorem splitFirst_length_le (hpat : pat ≠ []) {a' b' : List α} (h : splitFirst pat s = some (a, b))
    (hs : s = a' ++ pat ++ b') : a.length ≤ a'.length := by
  obtain ⟨heq, hfirst⟩ := (splitFirst_eq_some_iff hpat).mp h
  by_contra hlt
  refine hfirst (List.IsInfix.trans (List.suffix_append a' pat).isInfix ?_)
  have hstart : a' ++ pat <+: (a ++ pat.dropLast) ++ ([pat.getLast hpat] ++ b) := by
    rw [List.append_assoc, ← List.append_assoc pat.dropLast, List.dropLast_concat_getLast hpat, ← List.append_assoc, ← heq, hs]
    exact List.prefix_append _ _
  refine (List.prefix_of_prefix_length_le hstart (List.prefix_append _ _) ?_).isInfix
  have hpos := List.length_pos_iff.mpr hpat
  rw [List.length_append, List.length_append, List.length_dropLast]
  omega

theorem splitLast_length_le (hpat : pat ≠ []) {a' b' : List α} (h : splitLast pat s = some (a, b))
    (hs : s = a' ++ pat ++ b') : a'.length ≤ a.length := by
  obtain ⟨⟨b'', a''⟩, hsplit, heq⟩ := Option.map_eq_some_iff.mp h
  cases heq
  have hreverse : s.reverse = b'.reverse ++ pat.reverse ++ a'.reverse := by rw [hs]; simp
  have hle := splitFirst_length_le (by simpa using hpat) hsplit hreverse
  have hlength := congrArg List.length ((splitFirst_eq_some_iff (by simpa using hpat)).mp hsplit).1
  rw [hreverse] at hlength
  simp only [List.length_append, List.length_reverse] at hle hlength ⊢
  omega

/-! ### Patterns in a longer list -/

omit [DecidableEq α] in
theorem infix_append_cons_iff (h : c ∉ pat) : pat <:+: a ++ c :: b ↔ pat <:+: a ∨ pat <:+: b := by
  constructor
  · rintro ⟨before, after, heq⟩
    rw [List.append_assoc] at heq
    rcases List.append_eq_append_iff.mp heq with ⟨t, rfl, ht⟩ | ⟨t, rfl, ht⟩
    · rcases List.append_eq_append_iff.mp ht with ⟨u, hu, -⟩ | ⟨u, hu, hb⟩
      · exact .inl ⟨before, u, by rw [hu, List.append_assoc]⟩
      · cases u with
        | nil => exact .inl ⟨before, [], by rw [hu]; simp⟩
        | cons d u =>
          cases hb
          exact absurd (by rw [hu]; simp) h
    · cases t with
      | nil =>
        rw [List.nil_append] at ht
        cases pat with
        | nil => exact .inl (List.nil_infix)
        | cons d pat =>
          cases ht
          exact absurd List.mem_cons_self h
      | cons d t =>
        cases ht
        exact .inr ⟨t, after, List.append_assoc _ _ _⟩
  · rintro (h | h)
    · exact h.trans (List.prefix_append _ _).isInfix
    · exact h.trans ((List.suffix_cons _ _).trans (List.suffix_append _ _)).isInfix

omit [DecidableEq α] in
theorem infix_append_append_iff {sep : List α} (hne : sep ≠ []) (h : ∀ c ∈ sep, c ∉ pat) :
    pat <:+: a ++ sep ++ b ↔ pat <:+: a ∨ pat <:+: b := by
  induction sep generalizing a with
  | nil => exact absurd rfl hne
  | cons c sep ih =>
    rw [List.append_assoc, List.cons_append, infix_append_cons_iff (h c List.mem_cons_self)]
    refine or_congr_right ?_
    cases sep with
    | nil => rfl
    | cons d sep =>
      have hd := @ih [] (List.cons_ne_nil _ _) fun c hc => h c (List.mem_cons_of_mem _ hc)
      rw [List.nil_append] at hd
      rw [hd]
      refine or_iff_right_of_imp fun hnil => ?_
      rw [List.infix_nil.mp hnil]
      exact List.nil_infix

end Stonemite
