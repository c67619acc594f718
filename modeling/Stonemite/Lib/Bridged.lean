import Mathlib

/-!
# Sets of seconds with short gaps bridged

`bridged d s` adds to a set of integers every gap whose two neighbours are at most `d` apart. `Sweep` is what
a sweep over intervals sorted by their beginnings keeps: the last block, closed on its left, and the number
of bridged elements before it.
-/

namespace Stonemite

/-- `x` is in a gap of `s` between two neighbouring elements at most `d` apart. -/
def InGap (d : ℤ) (s : Set ℤ) (x : ℤ) : Prop :=
  ∃ a ∈ s, ∃ b ∈ s, a < x ∧ x < b ∧ (∀ y, a < y → y < b → y ∉ s) ∧ b - a ≤ d

/-- A set with its short gaps filled. -/
def bridged (d : ℤ) (s : Set ℤ) : Set ℤ := {x | x ∈ s ∨ InGap d s x}

variable {d : ℤ} {s t : Set ℤ} {x : ℤ}

/-- The two elements need not be neighbours: the neighbours between them are closer still. -/
theorem mem_bridged : x ∈ bridged d s ↔ x ∈ s ∨ ∃ a ∈ s, ∃ b ∈ s, a < x ∧ x < b ∧ b - a ≤ d := by
  constructor
  · rintro (hx | ⟨a, ha, b, hb, hax, hxb, -, hd⟩)
    · exact .inl hx
    · exact .inr ⟨a, ha, b, hb, hax, hxb, hd⟩
  · rintro (hx | ⟨a, ha, b, hb, hax, hxb, hd⟩)
    · exact .inl hx
    · by_cases hx : x ∈ s
      · exact .inl hx
      obtain ⟨a', ⟨ha', hax'⟩, hmax⟩ := Int.exists_greatest_of_bdd (P := fun y => y ∈ s ∧ y < x)
        ⟨x, fun y hy => hy.2.le⟩ ⟨a, ha, hax⟩
      obtain ⟨b', ⟨hb', hxb'⟩, hmin⟩ := Int.exists_least_of_bdd (P := fun y => y ∈ s ∧ x < y)
        ⟨x, fun y hy => hy.2.le⟩ ⟨b, hb, hxb⟩
      have haa := hmax a ⟨ha, hax⟩
      have hbb := hmin b ⟨hb, hxb⟩
      refine .inr ⟨a', ha', b', hb', hax', hxb', fun y hay hyb hy => ?_, by omega⟩
      rcases lt_trichotomy y x with hlt | rfl | hgt
      · have := hmax y ⟨hy, hlt⟩
        omega
      · exact hx hy
      · have := hmin y ⟨hy, hgt⟩
        omega

theorem subset_bridged : s ⊆ bridged d s := fun _ hx => .inl hx

theorem bridged_mono (h : s ⊆ t) : bridged d s ⊆ bridged d t := by
  intro x hx
  rw [mem_bridged] at hx ⊢
  rcases hx with hx | ⟨a, ha, b, hb, hax, hxb, hd⟩
  · exact .inl (h hx)
  · exact .inr ⟨a, h ha, b, h hb, hax, hxb, hd⟩

theorem bridged_subset_Icc {m n : ℤ} (h : s ⊆ Set.Icc m n) : bridged d s ⊆ Set.Icc m n := by
  intro x hx
  rw [mem_bridged] at hx
  rcases hx with hx | ⟨a, ha, b, hb, hax, hxb, -⟩
  · exact h hx
  · exact ⟨(h ha).1.trans hax.le, hxb.le.trans (h hb).2⟩

theorem ncard_Icc (m n : ℤ) : (Set.Icc m n).ncard = (n + 1 - m).toNat := by
  rw [Set.ncard_eq_toFinset_card', Set.toFinset_Icc, Int.card_Icc]

/-- The last block of `s` is `b` to `e`, and `total` bridged elements are before it. -/
structure Sweep (d : ℤ) (s : Set ℤ) (total : ℕ) (b e : ℤ) : Prop where
  begins : b ∈ s
  ends : e ∈ s
  le : b ≤ e
  last : ∀ c ∈ s, c ≤ e
  block : Set.Icc b e ⊆ bridged d s
  /-- Nothing reaches over the beginning of the block. -/
  apart : ∀ a ∈ s, a < b → d < b - a
  count : (bridged d s ∩ Set.Iio b).ncard = total

namespace Sweep
variable {total : ℕ} {b e m n : ℤ}

theorem single (h : m ≤ n) : Sweep d (Set.Icc m n) 0 m n where
  begins := ⟨le_rfl, h⟩
  ends := ⟨h, le_rfl⟩
  le := h
  last c hc := hc.2
  block := subset_bridged
  apart a ha hlt := absurd ha.1 (not_le.mpr hlt)
  count := by
    have hempty : bridged d (Set.Icc m n) ∩ Set.Iio m = ∅ := by
      refine Set.eq_empty_of_forall_notMem fun x hx => ?_
      exact absurd (bridged_subset_Icc le_rfl hx.1).1 (not_le.mpr hx.2)
    rw [hempty, Set.ncard_empty]

/-- The bridged elements are those before the last block, and the block. -/
theorem split (h : Sweep d s total b e) : bridged d s = bridged d s ∩ Set.Iio b ∪ Set.Icc b e := by
  ext x
  constructor
  · intro hx
    rcases lt_or_ge x b with hlt | hge
    · exact .inl ⟨hx, hlt⟩
    · refine .inr ⟨hge, ?_⟩
      rcases mem_bridged.mp hx with hx | ⟨-, -, y, hy, -, hxy, -⟩
      · exact h.last x hx
      · exact hxy.le.trans (h.last y hy)
  · rintro (hx | hx)
    · exact hx.1
    · exact h.block hx

theorem ncard_bridged (h : Sweep d s total b e) (hfinite : (bridged d s).Finite) :
    (bridged d s).ncard = total + (e + 1 - b).toNat := by
  have hdisjoint : Disjoint (bridged d s ∩ Set.Iio b) (Set.Icc b e) := by
    rw [Set.disjoint_left]
    exact fun x hx hx' => absurd hx'.1 (not_le.mpr hx.2)
  conv_lhs => rw [h.split]
  rw [Set.ncard_union_eq hdisjoint (hfinite.inter_of_left _) (Set.finite_Icc b e), h.count, ncard_Icc]

/-- An interval that begins inside the last block, or so soon after it that the gap is bridged. -/
theorem merge (h : Sweep d s total b e) (hmn : m ≤ n) (hbm : b ≤ m) (hnear : m ≤ e ∨ m - e ≤ d) :
    Sweep d (s ∪ Set.Icc m n) total b (max e n) where
  begins := .inl h.begins
  ends := by
    rcases max_choice e n with he | hn
    · rw [he]
      exact .inl h.ends
    · rw [hn]
      exact .inr ⟨hmn, le_rfl⟩
  le := h.le.trans (le_max_left _ _)
  last c hc := by
    rcases hc with hc | hc
    · exact (h.last c hc).trans (le_max_left _ _)
    · exact hc.2.trans (le_max_right _ _)
  block x hx := by
    rcases le_or_gt x e with hxe | hxe
    · exact bridged_mono Set.subset_union_left (h.block ⟨hx.1, hxe⟩)
    · have hxn : x ≤ n := (le_max_iff.mp hx.2).resolve_left (not_le.mpr hxe)
      rcases lt_or_ge x m with hxm | hxm
      · -- between the block and the interval
        refine mem_bridged.mpr (.inr ⟨e, .inl h.ends, m, .inr ⟨le_rfl, hmn⟩, hxe, hxm, ?_⟩)
        exact hnear.resolve_left (by omega)
      · exact subset_bridged (.inr ⟨hxm, hxn⟩)
  apart a ha hab := by
    rcases ha with ha | ha
    · exact h.apart a ha hab
    · exact absurd (hbm.trans ha.1) (not_le.mpr hab)
  count := by
    have hsame : bridged d (s ∪ Set.Icc m n) ∩ Set.Iio b = bridged d s ∩ Set.Iio b := by
      ext x
      refine ⟨fun ⟨hx, hxb⟩ => ⟨?_, hxb⟩, fun ⟨hx, hxb⟩ => ⟨bridged_mono Set.subset_union_left hx, hxb⟩⟩
      have hxb : x < b := hxb
      rcases mem_bridged.mp hx with (hx | hx) | ⟨a, ha, c, hc, hax, hxc, hd⟩
      · exact subset_bridged hx
      · exact absurd (hbm.trans hx.1) (not_le.mpr hxb)
      · have ha : a ∈ s := ha.resolve_right fun ha => absurd (hbm.trans ha.1) (not_le.mpr (hax.trans hxb))
        rcases hc with hc | hc
        · exact mem_bridged.mpr (.inr ⟨a, ha, c, hc, hax, hxc, hd⟩)
        · -- the pair would reach over the beginning of the block
          have hapart := h.apart a ha (hax.trans hxb)
          have hmc := hc.1
          omega
    rw [hsame, h.count]

/-- An interval beyond the reach of the last block, which is closed. -/
theorem close (h : Sweep d s total b e) (hmn : m ≤ n) (hfar : e < m ∧ d < m - e) (hfinite : (bridged d s).Finite) :
    Sweep d (s ∪ Set.Icc m n) (total + (e + 1 - b).toNat) m n where
  begins := .inr ⟨le_rfl, hmn⟩
  ends := .inr ⟨hmn, le_rfl⟩
  le := hmn
  last c hc := by
    rcases hc with hc | hc
    · have := h.last c hc
      omega
    · exact hc.2
  block := fun x hx => subset_bridged (.inr hx)
  apart a ha ham := by
    rcases ha with ha | ha
    · have := h.last a ha
      omega
    · exact absurd ha.1 (not_le.mpr ham)
  count := by
    have hsame : bridged d (s ∪ Set.Icc m n) ∩ Set.Iio m = bridged d s := by
      ext x
      refine ⟨fun ⟨hx, hxm⟩ => ?_, fun hx => ⟨bridged_mono Set.subset_union_left hx, ?_⟩⟩
      · have hxm : x < m := hxm
        rcases mem_bridged.mp hx with (hx | hx) | ⟨a, ha, c, hc, hax, hxc, hd⟩
        · exact subset_bridged hx
        · exact absurd hx.1 (not_le.mpr hxm)
        · have ha : a ∈ s := ha.resolve_right fun ha => absurd ha.1 (not_le.mpr (hax.trans hxm))
          rcases hc with hc | hc
          · exact mem_bridged.mpr (.inr ⟨a, ha, c, hc, hax, hxc, hd⟩)
          · have hlast := h.last a ha
            have hmc := hc.1
            omega
      · show x < m
        rcases mem_bridged.mp hx with hx | ⟨-, -, y, hy, -, hxy, -⟩
        · have := h.last x hx
          omega
        · have := h.last y hy
          omega
    rw [hsame, h.ncard_bridged hfinite]

end Sweep

end Stonemite
