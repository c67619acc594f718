import Stonemite.Combat.Metrics
import Stonemite.Lib.Bridged

/-!
# Active time

`union_range_seconds` sorts the ranges and sweeps over them. What it counts depends on the set of covered seconds alone:
these, and the gaps between them that are short enough. `Swept` is what the sweep has counted at each range;
`union_range_seconds_exact` is its end.
-/

namespace Stonemite.Combat

/-- The seconds that the ranges cover. -/
def covered (ranges : List (EqSecond × EqSecond)) : Set ℤ := {x | ∃ range ∈ ranges, range.1 ≤ x ∧ x ≤ range.2}

/-- Ranges of at least one second each, whose inclusive span is shorter than 2^63 seconds. -/
structure Spanned (ranges : List (EqSecond × EqSecond)) : Prop where
  inclusive : ∀ range ∈ ranges, range.1 ≤ range.2
  span : ∀ first ∈ ranges, ∀ last ∈ ranges, last.2 - first.1 + 1 < 2 ^ 63

variable {ranges : List (EqSecond × EqSecond)} {d : ℤ}

@[simp] theorem covered_nil : covered [] = ∅ := by
  simp [covered]

theorem covered_cons (range : EqSecond × EqSecond) (ranges : List (EqSecond × EqSecond)) :
    covered (range :: ranges) = Set.Icc range.1 range.2 ∪ covered ranges := by
  ext x
  simp [covered]

theorem covered_congr {ranges' : List (EqSecond × EqSecond)} (h : ∀ range, range ∈ ranges' ↔ range ∈ ranges) :
    covered ranges' = covered ranges := by
  simp only [covered, h]

theorem covered_subset {lo hi : ℤ} (h : ∀ range ∈ ranges, lo ≤ range.1 ∧ range.2 ≤ hi) : covered ranges ⊆ Set.Icc lo hi := by
  rintro x ⟨range, hrange, hlo, hhi⟩
  exact ⟨(h range hrange).1.trans hlo, hhi.trans (h range hrange).2⟩

theorem Spanned.mono {ranges' : List (EqSecond × EqSecond)} (h : Spanned ranges) (hsub : ∀ range ∈ ranges', range ∈ ranges) :
    Spanned ranges' :=
  ⟨fun range hr => h.inclusive range (hsub range hr),
    fun first hf last hl => h.span first (hsub first hf) last (hsub last hl)⟩

theorem Spanned.bounds (h : Spanned ranges) (hne : ranges ≠ []) : ∃ lo hi : ℤ,
    (∀ range ∈ ranges, lo ≤ range.1 ∧ range.2 ≤ hi) ∧ hi - lo + 1 < 2 ^ 63 := by
  have hnonempty := (List.toFinset_nonempty_iff ranges).mpr hne
  obtain ⟨first, hfirst, hlo⟩ := ranges.toFinset.exists_min_image (·.1) hnonempty
  obtain ⟨last, hlast, hhi⟩ := ranges.toFinset.exists_max_image (·.2) hnonempty
  simp only [List.mem_toFinset] at hfirst hlo hlast hhi
  exact ⟨first.1, last.2, fun range hr => ⟨hlo range hr, hhi range hr⟩, h.span first hfirst last hlast⟩

/-! ### The sweep -/

theorem inclusiveSeconds_of_le {b e : ℤ} (h : b ≤ e) (hspan : e - b + 1 < 2 ^ 63) :
    inclusiveSeconds b e = (e + 1 - b).toNat := by
  have hsub : checkedSubI64 e b = some (e - b) := toI64_eq_some.mpr ⟨⟨by omega, by omega⟩, rfl⟩
  have hadd : checkedAddI64 (e - b) 1 = some (e - b + 1) := toI64_eq_some.mpr ⟨⟨by omega, by omega⟩, rfl⟩
  unfold inclusiveSeconds
  rw [hsub, Option.bind_some, hadd, Option.bind_some, if_pos (by omega)]
  show max (e - b + 1).toNat 1 = _
  omega

/-- What the sweep has covered so far lies between `lo` and `hi`. -/
structure Swept (d : ℤ) (lo hi : ℤ) (s : Set ℤ) (acc : ℕ × (EqSecond × EqSecond)) : Prop where
  sweep : Sweep d s acc.1 acc.2.1 acc.2.2
  within : s ⊆ Set.Icc lo hi
  span : hi - lo + 1 < 2 ^ 63

namespace Swept
variable {lo hi : ℤ} {s : Set ℤ} {acc : ℕ × (EqSecond × EqSecond)}

theorem finite (h : Swept d lo hi s acc) : (bridged d s).Finite :=
  (Set.finite_Icc lo hi).subset (bridged_subset_Icc h.within)

theorem closed (h : Swept d lo hi s acc) :
    saturatingAdd 64 acc.1 (inclusiveSeconds acc.2.1 acc.2.2) = (bridged d s).ncard := by
  have hb := h.within h.sweep.begins
  have he := h.within h.sweep.ends
  have hspan := h.span
  have hle := h.sweep.le
  have hcount := h.sweep.ncard_bridged h.finite
  have hbound := Set.ncard_le_ncard (bridged_subset_Icc (d := d) h.within) (Set.finite_Icc lo hi)
  rw [ncard_Icc, hcount] at hbound
  have hlo := hb.1
  have hhi := he.2
  rw [inclusiveSeconds_of_le hle (by omega), saturatingAdd_of_lt (by omega), hcount]

theorem step (h : Swept d lo hi s acc) {next : EqSecond × EqSecond} (hnext : next.1 ≤ next.2)
    (hin : lo ≤ next.1 ∧ next.2 ≤ hi) (hsorted : acc.2.1 ≤ next.1) :
    Swept d lo hi (s ∪ Set.Icc next.1 next.2) (unionRangeStep d acc next) ∧
      (unionRangeStep d acc next).2.1 ≤ next.1 := by
  obtain ⟨total, b, e⟩ := acc
  have hwithin : s ∪ Set.Icc next.1 next.2 ⊆ Set.Icc lo hi :=
    Set.union_subset h.within (Set.Icc_subset_Icc hin.1 hin.2)
  have he : e ∈ Set.Icc lo hi := h.within h.sweep.ends
  have hspan := h.span
  have hgap : (checkedSubI64 next.1 e).getD (2 ^ 63 - 1) = next.1 - e := by
    obtain ⟨hlo, hhi⟩ := he
    have hnexthi : hi ≥ next.1 := le_trans hnext hin.2
    have hsub : checkedSubI64 next.1 e = some (next.1 - e) := toI64_eq_some.mpr ⟨⟨by omega, by omega⟩, rfl⟩
    rw [hsub, Option.getD_some]
  have hclosed := h.closed
  unfold unionRangeStep
  dsimp only at hsorted hclosed ⊢
  rw [hgap]
  split_ifs with hnear hlonger
  · refine ⟨⟨?_, hwithin, hspan⟩, hsorted⟩
    have hmerge := h.sweep.merge hnext hsorted hnear
    rw [max_eq_right hlonger.le] at hmerge
    exact hmerge
  · refine ⟨⟨?_, hwithin, hspan⟩, hsorted⟩
    have hmerge := h.sweep.merge hnext hsorted hnear
    rw [max_eq_left (not_lt.mp hlonger)] at hmerge
    exact hmerge
  · rw [hclosed]
    have hfar : e < next.1 ∧ d < next.1 - e := by
      obtain ⟨h1, h2⟩ := not_or.mp hnear
      exact ⟨not_le.mp h1, not_le.mp h2⟩
    have hclose := h.sweep.close hnext hfar h.finite
    rw [← h.sweep.ncard_bridged h.finite] at hclose
    exact ⟨⟨hclose, hwithin, hspan⟩, le_rfl⟩

/-- The sweep over the ranges that follow, sorted by their beginnings. -/
theorem foldl {rest : List (EqSecond × EqSecond)} (h : Swept d lo hi s acc) (hinclusive : ∀ next ∈ rest, next.1 ≤ next.2)
    (hin : ∀ next ∈ rest, lo ≤ next.1 ∧ next.2 ≤ hi) (hafter : ∀ next ∈ rest, acc.2.1 ≤ next.1)
    (hsorted : rest.Pairwise (·.1 ≤ ·.1)) : Swept d lo hi (s ∪ covered rest) (rest.foldl (unionRangeStep d) acc) := by
  induction rest generalizing s acc with
  | nil =>
    rw [covered_nil, Set.union_empty]
    exact h
  | cons next rest ih =>
    obtain ⟨hnext, hrest⟩ := List.forall_mem_cons.mp hinclusive
    obtain ⟨hnextin, hrestin⟩ := List.forall_mem_cons.mp hin
    obtain ⟨hfirst, hsorted⟩ := List.pairwise_cons.mp hsorted
    obtain ⟨hstep, hbegin⟩ := h.step hnext hnextin (hafter next List.mem_cons_self)
    rw [covered_cons, ← Set.union_assoc]
    exact ih hstep hrest hrestin (fun later hl => hbegin.trans (hfirst later hl)) hsorted

end Swept

instance : Std.Total RangeLE := ⟨fun a b => by
  rcases lt_trichotomy a.1 b.1 with h | h | h
  · exact .inl (.inl h)
  · exact (le_total a.2 b.2).imp (fun h' => .inr ⟨h, h'⟩) fun h' => .inr ⟨h.symm, h'⟩
  · exact .inr (.inl h)⟩

instance : IsTrans (EqSecond × EqSecond) RangeLE := ⟨fun a b c hab hbc => by
  rcases hab with hab | ⟨hab, hab'⟩ <;> rcases hbc with hbc | ⟨hbc, hbc'⟩
  · exact .inl (hab.trans hbc)
  · exact .inl (hbc ▸ hab)
  · exact .inl (hab ▸ hbc)
  · exact .inr ⟨hab.trans hbc, hab'.trans hbc'⟩⟩

theorem RangeLE.begin_le {a b : EqSecond × EqSecond} (h : RangeLE a b) : a.1 ≤ b.1 := h.elim le_of_lt fun h => h.1.le

/-- The seconds counted are the covered ones and the bridged gaps. -/
theorem unionRangeSeconds_eq (hspanned : Spanned ranges) (hne : ranges ≠ []) :
    unionRangeSeconds ranges d = (bridged d (covered ranges)).ncard := by
  obtain ⟨lo, hi, hin, hspan⟩ := hspanned.bounds hne
  have hperm := List.perm_insertionSort RangeLE ranges
  have hsorted := List.pairwise_insertionSort RangeLE ranges
  have hmem : ∀ range, range ∈ ranges.insertionSort RangeLE ↔ range ∈ ranges := fun range => hperm.mem_iff
  rw [← covered_congr hmem]
  unfold unionRangeSeconds
  cases hsort : ranges.insertionSort RangeLE with
  | nil =>
    rw [hsort] at hperm
    exact absurd hperm.nil_eq.symm hne
  | cons first rest =>
    rw [hsort] at hsorted hmem
    have hfirstmem := (hmem first).mp List.mem_cons_self
    have hrest (range : EqSecond × EqSecond) (hr : range ∈ rest) := (hmem range).mp (List.mem_cons_of_mem first hr)
    obtain ⟨hfirst, hsorted⟩ := List.pairwise_cons.mp hsorted
    have hstart : Swept d lo hi (Set.Icc first.1 first.2) (0, first) :=
      ⟨.single (hspanned.inclusive first hfirstmem), Set.Icc_subset_Icc (hin first hfirstmem).1 (hin first hfirstmem).2, hspan⟩
    have hswept := hstart.foldl (fun next hn => hspanned.inclusive next (hrest next hn)) (fun next hn => hin next (hrest next hn))
      (fun next hn => (hfirst next hn).begin_le) (hsorted.imp RangeLE.begin_le)
    rw [← covered_cons] at hswept
    dsimp only
    rw [hswept.closed]
    refine max_eq_left (Nat.one_le_iff_ne_zero.mpr fun hzero => ?_)
    -- at least the first second is covered
    have hempty := (Set.ncard_eq_zero hswept.finite).mp hzero
    exact Set.notMem_empty _ (hempty ▸ subset_bridged hswept.sweep.begins)

/-! ### What follows for any list of ranges -/

/-- The count is that of the covered seconds with the short gaps; so the order of the ranges, a range given twice
and overlapping ranges given as one make no difference, one more range never lowers it, and it is not above the
seconds between any bounds of the ranges. -/
structure ActiveSeconds (ranges : List (EqSecond × EqSecond)) (d : ℤ) : Prop where
  count : unionRangeSeconds ranges d = (bridged d (covered ranges)).ncard
  permuted : ∀ ranges', ranges'.Perm ranges → unionRangeSeconds ranges' d = unionRangeSeconds ranges d
  repeated : ∀ range ∈ ranges, unionRangeSeconds (range :: ranges) d = unionRangeSeconds ranges d
  merged : ∀ a b rest, ranges.Perm (a :: b :: rest) → a.1 ≤ b.2 → b.1 ≤ a.2 →
    unionRangeSeconds ((min a.1 b.1, max a.2 b.2) :: rest) d = unionRangeSeconds ranges d
  monotone : ∀ range, Spanned (range :: ranges) → unionRangeSeconds ranges d ≤ unionRangeSeconds (range :: ranges) d
  bounded : ∀ lo hi : ℤ, (∀ range ∈ ranges, lo ≤ range.1 ∧ range.2 ≤ hi) → (unionRangeSeconds ranges d : ℤ) ≤ hi - lo + 1

theorem unionRangeSeconds_congr {ranges' : List (EqSecond × EqSecond)} (h : Spanned ranges) (hne : ranges ≠ [])
    (h' : Spanned ranges') (hne' : ranges' ≠ []) (hcovered : covered ranges' = covered ranges) :
    unionRangeSeconds ranges' d = unionRangeSeconds ranges d := by
  rw [unionRangeSeconds_eq h hne, unionRangeSeconds_eq h' hne', hcovered]

theorem Icc_union_of_overlap {a b : ℤ × ℤ} (h : a.1 ≤ b.2) (h' : b.1 ≤ a.2) :
    Set.Icc (min a.1 b.1) (max a.2 b.2) = Set.Icc a.1 a.2 ∪ Set.Icc b.1 b.2 := by
  ext x
  simp only [Set.mem_union, Set.mem_Icc]
  omega

/-- For every non-empty list of ranges within a span shorter than 2^63 seconds, and every bridge. -/
theorem union_range_seconds_exact (ranges : List (EqSecond × EqSecond)) (d : ℤ) (hne : ranges ≠ []) (hspanned : Spanned ranges) :
    ActiveSeconds ranges d where
  count := unionRangeSeconds_eq hspanned hne
  permuted ranges' hperm := by
    have hmem range : range ∈ ranges' ↔ range ∈ ranges := hperm.mem_iff
    refine unionRangeSeconds_congr hspanned hne (hspanned.mono fun range => (hmem range).mp) ?_ (covered_congr hmem)
    rintro rfl
    exact hne hperm.nil_eq.symm
  repeated range hrange := by
    have hmem r : r ∈ range :: ranges ↔ r ∈ ranges := by
      rw [List.mem_cons, or_iff_right_of_imp]
      rintro rfl
      exact hrange
    exact unionRangeSeconds_congr hspanned hne (hspanned.mono fun r => (hmem r).mp) (List.cons_ne_nil _ _) (covered_congr hmem)
  merged a b rest hperm hab hba := by
    have hmem r : r ∈ ranges ↔ r ∈ a :: b :: rest := hperm.mem_iff
    have ha : a ∈ ranges := (hmem a).mpr (by simp)
    have hb : b ∈ ranges := (hmem b).mpr (by simp)
    have hrest r (hr : r ∈ rest) : r ∈ ranges := (hmem r).mpr (by simp [hr])
    have hale := hspanned.inclusive a ha
    have hble := hspanned.inclusive b hb
    refine unionRangeSeconds_congr hspanned hne ⟨?_, ?_⟩ (List.cons_ne_nil _ _) ?_
    · rintro range hr
      rcases List.mem_cons.mp hr with rfl | hr
      · exact (min_le_left _ _).trans (hale.trans (le_max_left _ _))
      · exact hspanned.inclusive range (hrest range hr)
    · -- every end of the merged range is one of the two
      have hends (r : EqSecond × EqSecond) (hr : r ∈ (min a.1 b.1, max a.2 b.2) :: rest) :
          (∃ r' ∈ ranges, r.1 = r'.1) ∧ ∃ r' ∈ ranges, r.2 = r'.2 := by
        rcases List.mem_cons.mp hr with rfl | hr
        · refine ⟨?_, ?_⟩
          · rcases min_choice a.1 b.1 with h | h
            exacts [⟨a, ha, h⟩, ⟨b, hb, h⟩]
          · rcases max_choice a.2 b.2 with h | h
            exacts [⟨a, ha, h⟩, ⟨b, hb, h⟩]
        · exact ⟨⟨r, hrest r hr, rfl⟩, ⟨r, hrest r hr, rfl⟩⟩
      intro first hfirst last hlast
      obtain ⟨⟨first', hfirst', hf⟩, -⟩ := hends first hfirst
      obtain ⟨-, last', hlast', hl⟩ := hends last hlast
      rw [hf, hl]
      exact hspanned.span first' hfirst' last' hlast'
    · rw [covered_congr hmem, covered_cons, covered_cons, covered_cons, ← Set.union_assoc,
        Icc_union_of_overlap hab hba]
  monotone range hmore := by
    rw [unionRangeSeconds_eq hspanned hne, unionRangeSeconds_eq hmore (List.cons_ne_nil _ _)]
    obtain ⟨lo, hi, hin, -⟩ := hmore.bounds (List.cons_ne_nil _ _)
    have hfinite := (Set.finite_Icc lo hi).subset (bridged_subset_Icc (d := d) (covered_subset hin))
    refine Set.ncard_le_ncard (bridged_mono ?_) hfinite
    rw [covered_cons]
    exact Set.subset_union_right
  bounded lo hi hin := by
    rw [unionRangeSeconds_eq hspanned hne]
    have hbound := Set.ncard_le_ncard (bridged_subset_Icc (d := d) (covered_subset hin)) (Set.finite_Icc lo hi)
    rw [ncard_Icc] at hbound
    obtain ⟨range, hrange⟩ := List.exists_mem_of_ne_nil ranges hne
    have hlohi : lo ≤ hi := (hin range hrange).1.trans ((hspanned.inclusive range hrange).trans (hin range hrange).2)
    omega

/-- Two ranges whose gap is just bridged. -/
theorem union_range_seconds_exact_bridge : ActiveSeconds [(10, 12), (18, 20)] 6 :=
  union_range_seconds_exact _ 6 (List.cons_ne_nil _ _) ⟨by decide, by decide⟩

end Stonemite.Combat
