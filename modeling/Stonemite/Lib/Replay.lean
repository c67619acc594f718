import Mathlib

/-!
# Replayed lines

A stream of lines, each of a generation, in which a later generation may repeat what an earlier one
presented. A line is a replay while its own generation has not presented it more often than some
earlier generation did; the others are accepted. When the generations of a content never decrease, it
is accepted as often as the generation that presented it most often did.
-/

namespace Stonemite.Replay

variable {α κ : Type} [DecidableEq α] [DecidableEq κ] (gen : α → ℕ) (key : α → κ)

/-- How often the earlier generation that presented the content of `a` most often did so. -/
def priorMax (l : List α) (a : α) : ℕ := (l.toFinset.filter fun b => key b = key a ∧ gen b < gen a).sup l.count

/-- How often the generation that presented the content most often did so. -/
def peak (l : List α) (k : κ) : ℕ := (l.toFinset.filter (key · = k)).sup l.count

/-- One more presentation of the line after `l` is no replay. -/
def fresh (l : List α) (a : α) : Bool := decide (priorMax gen key l a ≤ l.count a)

/-- The accepted lines of `l` after `pre`. -/
def accepted (pre : List α) : List α → List α
  | [] => []
  | a :: l => (if fresh gen key pre a then [a] else []) ++ accepted (pre ++ [a]) l

theorem accepted_append (pre l l' : List α) :
    accepted gen key pre (l ++ l') = accepted gen key pre l ++ accepted gen key (pre ++ l) l' := by
  induction l generalizing pre with
  | nil => rw [List.nil_append, List.append_nil]; rfl
  | cons a l ih =>
    show _ ++ accepted gen key (pre ++ [a]) (l ++ l') = (_ ++ accepted gen key (pre ++ [a]) l) ++ _
    rw [ih, List.append_assoc, List.append_assoc]
    rfl

variable {gen key}

theorem le_peak {l : List α} {a : α} {k : κ} (h : key a = k) : l.count a ≤ peak key l k := by
  by_cases ha : a ∈ l
  · exact Finset.le_sup (f := l.count) (Finset.mem_filter.mpr ⟨List.mem_toFinset.mpr ha, h⟩)
  · rw [List.count_eq_zero_of_not_mem ha]
    exact Nat.zero_le _

theorem peak_le {l : List α} {k : κ} {n : ℕ} (h : ∀ a ∈ l, key a = k → l.count a ≤ n) : peak key l k ≤ n :=
  Finset.sup_le fun a ha => h a (List.mem_toFinset.mp (Finset.mem_filter.mp ha).1) (Finset.mem_filter.mp ha).2

theorem priorMax_le_peak {l : List α} {a : α} : priorMax gen key l a ≤ peak key l (key a) :=
  Finset.sup_mono fun _ hb => Finset.mem_filter.mpr
    ⟨(Finset.mem_filter.mp hb).1, (Finset.mem_filter.mp hb).2.1⟩

theorem peak_append_of_ne {l : List α} {a : α} {k : κ} (h : key a ≠ k) : peak key (l ++ [a]) k = peak key l k := by
  have hcount (b : α) (hb : key b = k) : (l ++ [a]).count b = l.count b := by
    rw [List.count_append, List.count_eq_zero_of_not_mem (l := [a]), Nat.add_zero]
    rw [List.mem_singleton]
    rintro rfl
    exact h hb
  apply le_antisymm
  · exact peak_le fun b _ hb => hcount b hb ▸ le_peak hb
  · exact peak_le fun b _ hb => hcount b hb ▸ le_peak hb

/-- With the latest generation last, the peak is its own count or an earlier one. -/
theorem peak_eq_max {l : List α} {a : α} (hinj : ∀ b ∈ l, key b = key a → gen b = gen a → b = a)
    (hlast : ∀ b ∈ l, key b = key a → gen b ≤ gen a) :
    peak key l (key a) = max (priorMax gen key l a) (l.count a) := by
  apply le_antisymm
  · refine peak_le fun b hb hk => ?_
    rcases (hlast b hb hk).lt_or_eq with hlt | heq
    · refine le_max_of_le_left (Finset.le_sup (f := l.count) ?_)
      exact Finset.mem_filter.mpr ⟨List.mem_toFinset.mpr hb, hk, hlt⟩
    · exact le_max_of_le_right (hinj b hb hk heq ▸ le_rfl)
  · exact max_le priorMax_le_peak (le_peak rfl)

theorem priorMax_append (l : List α) (a : α) : priorMax gen key (l ++ [a]) a = priorMax gen key l a := by
  unfold priorMax
  have hfilter : ((l ++ [a]).toFinset.filter fun b => key b = key a ∧ gen b < gen a) =
      l.toFinset.filter fun b => key b = key a ∧ gen b < gen a := by
    ext b
    simp only [Finset.mem_filter, List.mem_toFinset, List.mem_append, List.mem_singleton]
    constructor
    · rintro ⟨hb | rfl, hk, hlt⟩
      · exact ⟨hb, hk, hlt⟩
      · exact absurd hlt (lt_irrefl _)
    · rintro ⟨hb, hk, hlt⟩
      exact ⟨.inl hb, hk, hlt⟩
  rw [hfilter]
  refine Finset.sup_congr rfl fun b hb => ?_
  have hne : b ≠ a := by
    rintro rfl
    exact lt_irrefl _ (Finset.mem_filter.mp hb).2.2
  rw [List.count_append, List.count_eq_zero_of_not_mem (l := [a]), Nat.add_zero]
  rwa [List.mem_singleton]

theorem peak_append {l : List α} {a : α} (hinj : ∀ b ∈ l, key b = key a → gen b = gen a → b = a)
    (hlast : ∀ b ∈ l, key b = key a → gen b ≤ gen a) :
    peak key (l ++ [a]) (key a) = peak key l (key a) + if fresh gen key l a then 1 else 0 := by
  have hnew : peak key (l ++ [a]) (key a) = max (priorMax gen key l a) (l.count a + 1) := by
    rw [@peak_eq_max _ _ _ _ gen, priorMax_append, List.count_append, List.count_singleton_self]
    · intro b hb
      rcases List.mem_append.mp hb with hb | hb
      · exact hinj b hb
      · exact fun _ _ => List.mem_singleton.mp hb
    · intro b hb
      rcases List.mem_append.mp hb with hb | hb
      · exact hlast b hb
      · exact fun _ => (congrArg gen (List.mem_singleton.mp hb)).le
  rw [hnew, peak_eq_max hinj hlast]
  unfold fresh
  split_ifs with h
  · have h := of_decide_eq_true h
    omega
  · have h : ¬ priorMax gen key l a ≤ l.count a := fun h' => h (decide_eq_true h')
    omega

/-- A content is accepted as often as the generation that presented it most often presented it. -/
theorem countP_accepted {l : List α} {k : κ} (hinj : ∀ a b, key a = key b → gen a = gen b → a = b)
    (hmono : l.Pairwise fun a b => key a = key b → gen a ≤ gen b) :
    (accepted gen key [] l).countP (key · = k) = peak key l k := by
  -- the accepted lines after a prefix make up the difference of the peaks
  have hpre (pre l : List α) (hmono : (pre ++ l).Pairwise fun a b => key a = key b → gen a ≤ gen b) :
      peak key pre k + (accepted gen key pre l).countP (key · = k) = peak key (pre ++ l) k := by
    induction l generalizing pre with
    | nil => rw [List.append_nil]; rfl
    | cons a l ih =>
      have hsplit : pre ++ a :: l = (pre ++ [a]) ++ l := by simp
      have hrest := ih (pre ++ [a]) (hsplit ▸ hmono)
      have hhead : peak key (pre ++ [a]) k =
          peak key pre k + (if fresh gen key pre a then [a] else []).countP (key · = k) := by
        by_cases hk : key a = k
        · subst hk
          rw [@peak_append _ _ _ _ gen _ _ _ (fun b _ hb hg => hinj b a hb hg)
            fun b hb hkb => (List.pairwise_append.mp hmono).2.2 b hb a List.mem_cons_self hkb]
          split_ifs <;> simp
        · rw [peak_append_of_ne hk]
          split_ifs <;> simp [hk]
      show _ + (_ ++ accepted gen key (pre ++ [a]) l).countP _ = _
      rw [hsplit, ← hrest, hhead, List.countP_append]
      omega
  have h := hpre [] l hmono
  rw [List.nil_append] at h
  rw [← h]
  have hzero : peak key ([] : List α) k = 0 := rfl
  omega

end Stonemite.Replay
