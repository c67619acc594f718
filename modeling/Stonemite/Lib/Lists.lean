import Mathlib

/-!
# List helpers

Rust's `Iterator::max_by` and `sort_by` on lists.
-/

namespace Stonemite

/-- `Iterator::max_by`: the last of the greatest elements. -/
def maxBy? {α : Type} (cmp : α → α → Ordering) : List α → Option α
  | [] => none
  | a :: l => some (l.foldl (fun best x => if cmp best x = .gt then best else x) a)

/-- `sort_by`: the stable sort by a comparison. -/
def sortBy {α : Type} (cmp : α → α → Ordering) (l : List α) : List α :=
  l.insertionSort fun a b => cmp a b ≠ .gt

variable {α : Type} {cmp : α → α → Ordering}

theorem maxBy?_eq_none {l : List α} : maxBy? cmp l = none ↔ l = [] := by
  cases l <;> simp [maxBy?]

theorem sortBy_perm (l : List α) : (sortBy cmp l).Perm l := List.perm_insertionSort _ l

@[simp] theorem mem_sortBy {l : List α} {a : α} : a ∈ sortBy cmp l ↔ a ∈ l := (sortBy_perm l).mem_iff

@[simp] theorem length_sortBy (l : List α) : (sortBy cmp l).length = l.length :=
  (sortBy_perm l).length_eq

/-- Keys that `filterMap` keeps are among the keys of the list, in order. -/
theorem filterMap_map_sublist {β κ : Type} {f : α → Option β} {key : α → κ} {key' : β → κ} {l : List α}
    (h : ∀ a b, f a = some b → key' b = key a) : ((l.filterMap f).map key').Sublist (l.map key) := by
  induction l with
  | nil => simp
  | cons a l ih =>
    cases hf : f a with
    | none => simpa [hf] using ih.cons _
    | some b => simpa [hf, h a b hf] using ih

theorem sortBy_pairwise [Std.TransCmp cmp] (l : List α) : (sortBy cmp l).Pairwise fun a b => cmp a b ≠ .gt := by
  have : Std.Total fun a b : α => cmp a b ≠ .gt := ⟨fun a b => by
    by_contra h
    obtain ⟨h1, h2⟩ := not_or.mp h
    rw [not_not] at h1 h2
    have hswap : cmp a b = (cmp b a).swap := Std.OrientedCmp.eq_swap
    rw [hswap, h2] at h1
    cases h1⟩
  have : IsTrans α fun a b => cmp a b ≠ .gt := ⟨fun a b c h1 h2 => by
    rw [Ne, ← Ordering.isLE_iff_ne_gt] at h1 h2 ⊢
    exact Std.TransCmp.isLE_trans h1 h2⟩
  exact List.pairwise_insertionSort _ l

theorem le_sum_of_mem (f : α → ℕ) {l : List α} {a : α} (h : a ∈ l) : f a ≤ (l.map f).sum :=
  List.single_le_sum (fun _ _ => Nat.zero_le _) _ (List.mem_map_of_mem h)

theorem exists_mapM {β : Type} {f : α → Option β} {l : List α} (h : ∀ a ∈ l, ∃ b, f a = some b) : ∃ r, l.mapM f = some r := by
  induction l with
  | nil => exact ⟨[], rfl⟩
  | cons a l ih =>
    obtain ⟨⟨b, hb⟩, hl⟩ := List.forall_mem_cons.mp h
    obtain ⟨r, hr⟩ := ih hl
    exact ⟨b :: r, by rw [List.mapM_cons, hb, hr]; rfl⟩

theorem forall₂_of_mapM {β : Type} {f : α → Option β} {l : List α} {r : List β} (h : l.mapM f = some r) :
    List.Forall₂ (fun a b => f a = some b) l r := by
  induction l generalizing r with
  | nil =>
    obtain rfl := Option.some.inj h
    exact .nil
  | cons a l ih =>
    rw [List.mapM_cons] at h
    obtain ⟨b, hb, h⟩ := Option.bind_eq_some_iff.mp h
    obtain ⟨r', hr, h⟩ := Option.bind_eq_some_iff.mp h
    obtain rfl := Option.some.inj h
    exact .cons hb (ih hr)

theorem forall₂_of_mapM_ok {ε β : Type} {f : α → Except ε β} {l : List α} {r : List β} (h : l.mapM f = .ok r) :
    List.Forall₂ (fun a b => f a = .ok b) l r := by
  induction l generalizing r with
  | nil =>
    cases h
    exact .nil
  | cons a l ih =>
    rw [List.mapM_cons] at h
    cases ha : f a with
    | error error =>
      rw [ha] at h
      cases h
    | ok b =>
      cases hl : l.mapM f with
      | error error =>
        rw [ha, hl] at h
        cases h
      | ok rest =>
        rw [ha, hl] at h
        cases h
        exact .cons ha (ih hl)

theorem mem_of_forall₂ {β : Type} {R : α → β → Prop} {l : List α} {r : List β} (h : List.Forall₂ R l r) :
    ∀ b ∈ r, ∃ a ∈ l, R a b := by
  induction h with
  | nil => exact fun b hb => absurd hb List.not_mem_nil
  | cons hab _ ih =>
    refine List.forall_mem_cons.mpr ⟨⟨_, List.mem_cons_self, hab⟩, fun b hb => ?_⟩
    obtain ⟨a, ha, hab⟩ := ih b hb
    exact ⟨a, List.mem_cons_of_mem _ ha, hab⟩

theorem nodup_of_forall₂ {β : Type} {R : α → β → Prop} (hR : ∀ a a' b, R a b → R a' b → a = a') {l : List α}
    {r : List β} (h : List.Forall₂ R l r) (hl : l.Nodup) : r.Nodup := by
  induction h with
  | nil => exact List.nodup_nil
  | cons hab hrest ih =>
    obtain ⟨hnotMem, hl⟩ := List.nodup_cons.mp hl
    refine List.nodup_cons.mpr ⟨fun hb => ?_, ih hl⟩
    obtain ⟨a', ha', hab'⟩ := mem_of_forall₂ hrest _ hb
    exact hnotMem (hR _ _ _ hab hab' ▸ ha')

theorem map_eq_of_forall₂ {β γ : Type} {R : α → β → Prop} {l : List α} {r : List β} (h : List.Forall₂ R l r)
    {f : α → γ} {g : β → γ} (hfg : ∀ a b, R a b → g b = f a) : r.map g = l.map f := by
  induction h with
  | nil => rfl
  | cons hd _ ih => rw [List.map_cons, List.map_cons, hfg _ _ hd, ih]

end Stonemite
