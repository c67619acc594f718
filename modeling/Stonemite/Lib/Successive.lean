import Mathlib

/-!
# Successive matches

A text has at most one match at each valid position, and a search may only take the positions that follow the match
before. The successive matches are the first match, the first one that follows it, and so on.
-/

namespace Stonemite

variable {μ : Type} (valid : Nat → Prop) (matchAt : Nat → Option μ) (follows : μ → Nat → Prop)

/-- The match at the first allowed position that has one. -/
def FirstMatch (ok : Nat → Prop) (m : μ) : Prop :=
  ∃ p, valid p ∧ ok p ∧ matchAt p = some m ∧ ∀ q, valid q → ok q → q < p → matchAt q = none

/-- The first `n` successive matches, or all of them when there are fewer. -/
def Successive : Nat → (Nat → Prop) → List μ → Prop
  | 0, _, ms => ms = []
  | _ + 1, ok, [] => ∀ p, valid p → ok p → matchAt p = none
  | n + 1, ok, m :: ms => FirstMatch valid matchAt ok m ∧ Successive n (follows m) ms

variable {valid matchAt follows} {n : Nat} {ok ok' : Nat → Prop} {m : μ} {ms : List μ}

theorem FirstMatch.exists_or (ok : Nat → Prop) :
    (∀ p, valid p → ok p → matchAt p = none) ∨ ∃ m, FirstMatch valid matchAt ok m := by
  classical
  by_cases h : ∃ p, valid p ∧ ok p ∧ matchAt p ≠ none
  · obtain ⟨hvalid, hok, hne⟩ := Nat.find_spec h
    obtain ⟨m, hm⟩ := Option.ne_none_iff_exists'.mp hne
    refine .inr ⟨m, Nat.find h, hvalid, hok, hm, fun q hq hqok hlt => ?_⟩
    by_contra hqne
    exact Nat.find_min h hlt ⟨hq, hqok, hqne⟩
  · refine .inl fun p hp hpok => ?_
    by_contra hne
    exact h ⟨p, hp, hpok, hne⟩

theorem FirstMatch.unique {m' : μ} (h : FirstMatch valid matchAt ok m) (h' : FirstMatch valid matchAt ok m') : m = m' := by
  obtain ⟨p, hvalid, hok, hm, hbefore⟩ := h
  obtain ⟨p', hvalid', hok', hm', hbefore'⟩ := h'
  obtain hlt | rfl | hgt := lt_trichotomy p p'
  · rw [hbefore' p hvalid hok hlt] at hm
    cases hm
  · exact Option.some.inj (hm.symm.trans hm')
  · rw [hbefore p' hvalid' hok' hgt] at hm'
    cases hm'

theorem Successive.exists (n : Nat) (ok : Nat → Prop) : ∃ ms, Successive valid matchAt follows n ok ms := by
  induction n generalizing ok with
  | zero => exact ⟨[], rfl⟩
  | succ n ih =>
    obtain hnone | ⟨m, hm⟩ : (∀ p, valid p → ok p → matchAt p = none) ∨ ∃ m, FirstMatch valid matchAt ok m :=
      FirstMatch.exists_or ok
    · exact ⟨[], hnone⟩
    · obtain ⟨ms, hms⟩ := ih (follows m)
      exact ⟨m :: ms, hm, hms⟩

/-- Matches whose successors lie further on are in strict order. -/
theorem Successive.pairwise {position : μ → Nat} (hposition : ∀ p m, matchAt p = some m → position m = p)
    (hfollows : ∀ m p, follows m p → position m < p) (h : Successive valid matchAt follows n ok ms) :
    ms.Pairwise fun a b => position a < position b := by
  have hbound : ∀ {n ok ms b}, (∀ p, ok p → b < p) → Successive valid matchAt follows n ok ms → ∀ m ∈ ms, b < position m := by
    intro n
    induction n with
    | zero =>
      rintro ok ms b - rfl m hm
      cases hm
    | succ n ih =>
      intro ok ms b hok h m hm
      cases ms with
      | nil => cases hm
      | cons m₀ ms =>
        obtain ⟨⟨p, -, hpok, hmatch, -⟩, hrest⟩ := h
        have hfirst : b < position m₀ := by
          rw [hposition p m₀ hmatch]
          exact hok p hpok
        obtain rfl | hm := List.mem_cons.mp hm
        · exact hfirst
        · exact ih (fun q hq => hfirst.trans (hfollows m₀ q hq)) hrest m hm
  induction n generalizing ok ms with
  | zero =>
    obtain rfl := h
    exact .nil
  | succ n ih =>
    cases ms with
    | nil => exact .nil
    | cons m ms => exact .cons (hbound (hfollows m) h.2) (ih h.2)

end Stonemite
