import Mathlib

/-!
# Lookups in ordered maps

The lookup lemmas of `Std.ExtTreeMap` for a lawful order on the keys, with key equality in place of
`compare`, and the first entry of a map that satisfies a test.
-/

namespace Std.ExtTreeMap

variable {α β γ : Type} [Ord α] [TransOrd α] [LawfulEqOrd α] {m : ExtTreeMap α β}

section lookup
variable [DecidableEq α]

theorem getElem?_insert_ite (k a : α) (v : β) : (m.insert k v)[a]? = if k = a then some v else m[a]? := by
  simp [getElem?_insert]

theorem getElem?_erase_ite (k a : α) : (m.erase k)[a]? = if k = a then none else m[a]? := by
  simp [getElem?_erase]

theorem getElem?_modify_ite (k a : α) (f : β → β) :
    (m.modify k f)[a]? = if k = a then m[a]?.map f else m[a]? := by
  rw [getElem?_modify]
  by_cases h : k = a
  · subst h; simp
  · simp [h]

theorem getElem?_insert_of_ne {k a : α} (h : k ≠ a) (v : β) : (m.insert k v)[a]? = m[a]? := by
  rw [getElem?_insert_ite, if_neg h]

theorem getElem?_modify_of_ne {k a : α} (h : k ≠ a) (f : β → β) : (m.modify k f)[a]? = m[a]? := by
  rw [getElem?_modify_ite, if_neg h]

theorem getElem?_foldl_erase (l : List α) (a : α) :
    (l.foldl (fun map k => map.erase k) m)[a]? = if a ∈ l then none else m[a]? := by
  induction l generalizing m with
  | nil => simp
  | cons k l ih =>
    rw [List.foldl_cons, ih, getElem?_erase_ite]
    by_cases hl : a ∈ l
    · simp [hl]
    · by_cases hk : k = a
      · simp [hk]
      · simp [hl, hk, Ne.symm hk]

section update
variable {σ : Type} (map : σ → ExtTreeMap α β) {step : σ → α × γ → σ} {f : γ → Option β → β}
  (hstep : ∀ s e, map (step s e) = (map s).insert e.1 (f e.2 (map s)[e.1]?))
include hstep

theorem getElem?_foldl_update_of_ne {l : List (α × γ)} {s : σ} {a : α} (h : ∀ e ∈ l, e.1 ≠ a) :
    (map (l.foldl step s))[a]? = (map s)[a]? := by
  induction l generalizing s with
  | nil => rfl
  | cons e l ih =>
    rw [List.foldl_cons, ih fun e he => h e (List.mem_cons_of_mem _ he), hstep,
      getElem?_insert_of_ne (h e List.mem_cons_self)]

/-- Updates of distinct keys, one after the other, update each entry once. -/
theorem getElem?_foldl_update {l : List (α × γ)} {s : σ} {a : α} {v : γ} (hd : l.Pairwise fun e e' => e.1 ≠ e'.1)
    (h : (a, v) ∈ l) : (map (l.foldl step s))[a]? = some (f v (map s)[a]?) := by
  induction l generalizing s with
  | nil => cases h
  | cons e l ih =>
    obtain ⟨hne, hd⟩ := List.pairwise_cons.mp hd
    rw [List.foldl_cons]
    rcases List.mem_cons.mp h with rfl | h
    · rw [getElem?_foldl_update_of_ne map hstep fun e he => (hne e he).symm, hstep, getElem?_insert_self]
    · rw [ih hd h, hstep, getElem?_insert_of_ne (hne _ h)]

end update

end lookup

omit [LawfulEqOrd α] in
theorem contains_iff {a : α} : m.contains a = true ↔ ∃ v, m[a]? = some v := by
  rw [contains_eq_isSome_getElem?, Option.isSome_iff_exists]

omit [LawfulEqOrd α] in
theorem contains_eq_false_iff {a : α} : m.contains a = false ↔ m[a]? = none := by
  rw [contains_eq_isSome_getElem?, Option.isSome_eq_false_iff, Option.isNone_iff_eq_none]

theorem lookup_of_mem_toList {p : α × β} (h : p ∈ m.toList) : m[p.1]? = some p.2 :=
  mem_toList_iff_getElem?_eq_some.mp h

theorem mem_toList_of_lookup {a : α} {v : β} (h : m[a]? = some v) : (a, v) ∈ m.toList :=
  mem_toList_iff_getElem?_eq_some.mpr h

/-- The first entry with a property is an entry with that property. -/
theorem find?_toList_spec {p : α × β → Bool} {a : α} (h : (m.toList.find? p).map (·.1) = some a) :
    ∃ v, m[a]? = some v ∧ p (a, v) = true := by
  obtain ⟨⟨k, v⟩, hf, rfl⟩ := Option.map_eq_some_iff.mp h
  exact ⟨v, lookup_of_mem_toList (List.mem_of_find?_eq_some hf), List.find?_some hf⟩

theorem pairwise_toList : m.toList.Pairwise fun a b => a.1 ≠ b.1 :=
  distinct_keys_toList.imp fun h he => h (by rw [he]; exact ReflCmp.compare_self)

theorem nodup_keys_toList : (m.toList.map (·.1)).Nodup :=
  List.pairwise_map.mpr pairwise_toList

/-- Maps with the same keys and related values list related entries. -/
theorem forall₂_toList {n : ExtTreeMap α γ} {R : α → β → γ → Prop} (h : ∀ a : α, Option.Rel (R a) m[a]? n[a]?) :
    List.Forall₂ (fun e e' => e.1 = e'.1 ∧ R e.1 e.2 e'.2) m.toList n.toList := by
  have hsorted {δ : Type} (l : ExtTreeMap α δ) : (l.toList.map (·.1)).Pairwise fun a b => compare a b = .lt :=
    List.pairwise_map.mpr ordered_keys_toList
  have hmem (a : α) : a ∈ m.toList.map (·.1) ↔ a ∈ n.toList.map (·.1) := by
    simp only [List.mem_map, Prod.exists, mem_toList_iff_getElem?_eq_some, exists_and_right, exists_eq_right]
    have ha := h a
    generalize m[a]? = x at ha ⊢
    generalize n[a]? = y at ha ⊢
    cases ha <;> simp
  have hkeys : m.toList.map (·.1) = n.toList.map (·.1) := by
    refine List.Perm.eq_of_pairwise (fun a b _ _ hab hba => ?_) (hsorted m) (hsorted n)
      ((List.perm_ext_iff_of_nodup nodup_keys_toList nodup_keys_toList).mpr hmem)
    have hswap : compare a b = (compare b a).swap := OrientedCmp.eq_swap
    rw [hswap, hba] at hab
    cases hab
  have hfst : List.Forall₂ (fun e e' => e.1 = e'.1) m.toList n.toList := by
    rw [← List.forall₂_eq_eq_eq, List.forall₂_map_left_iff, List.forall₂_map_right_iff] at hkeys
    exact hkeys
  refine List.forall₂_iff_get.mpr ⟨hfst.length_eq, fun i hi hi' => ?_⟩
  have hi'' := (List.forall₂_iff_get.mp hfst).2 i hi hi'
  refine ⟨hi'', ?_⟩
  have hm := lookup_of_mem_toList (List.get_mem m.toList ⟨i, hi⟩)
  have hn := lookup_of_mem_toList (List.get_mem n.toList ⟨i, hi'⟩)
  have ha := h (m.toList.get ⟨i, hi⟩).1
  rw [hm, hi'', hn] at ha
  rw [hi'']
  cases ha
  assumption

end Std.ExtTreeMap

namespace Std.ExtTreeSet

variable {α : Type} [Ord α] [TransOrd α] [LawfulEqOrd α] {s : ExtTreeSet α}

theorem mem_insert_iff {k a : α} : a ∈ s.insert k ↔ k = a ∨ a ∈ s := by
  simp [mem_insert]

theorem mem_foldl_insert (l : List α) {a : α} :
    a ∈ l.foldl (fun set k => set.insert k) s ↔ a ∈ l ∨ a ∈ s := by
  induction l generalizing s with
  | nil => simp
  | cons k l ih => rw [List.foldl_cons, ih, mem_insert_iff, List.mem_cons, or_assoc, or_left_comm]; tauto

end Std.ExtTreeSet
