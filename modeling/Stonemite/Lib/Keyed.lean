import Mathlib

/-!
# Lists that take an element once for its key

An element is pushed unless the list has its key. A list of newcomers is pushed one by one, so that an earlier
newcomer stands in the way of a later one.
-/

namespace Stonemite

variable {α κ β : Type} [DecidableEq κ]

/-- An item is appended unless its key is there. -/
def pushNew (key : α → κ) (known : List α) (a : α) : List α :=
  if known.any fun existing => key existing = key a then known else known ++ [a]

/-- Items are appended one after the other. -/
def extendNew (key : α → κ) (known incoming : List α) : List α := incoming.foldl (pushNew key) known

/-- The newcomer at a place whose key is neither known nor that of an earlier newcomer. -/
structure NewAt (key : α → κ) (known incoming : List α) (index : Nat) (a : α) : Prop where
  here : incoming[index]? = some a
  unknown : ∀ b ∈ known, key b ≠ key a
  first : ∀ earlier < index, ∀ b, incoming[earlier]? = some b → key b ≠ key a

/-- The newcomers that are taken differ in a value, from each other and from what was known. -/
structure NewDistinct (key : α → κ) (f : α → β) (known incoming : List α) : Prop where
  unheld : ∀ i a, NewAt key known incoming i a → f a ∉ known.map f
  apart : ∀ i a j b, NewAt key known incoming i a → NewAt key known incoming j b → f a = f b → i = j

variable {key : α → κ} {known incoming : List α} {a b : α} {i j : Nat}

theorem pushNew_pos (h : ∃ b ∈ known, key b = key a) : pushNew key known a = known := by
  rw [pushNew, if_pos (by simpa using h)]

theorem pushNew_neg (h : ∀ b ∈ known, key b ≠ key a) : pushNew key known a = known ++ [a] := by
  rw [pushNew, if_neg (by simpa using h)]

@[simp] theorem extendNew_nil : extendNew key known [] = known := rfl

theorem extendNew_append_singleton (incoming : List α) (a : α) :
    extendNew key known (incoming ++ [a]) = pushNew key (extendNew key known incoming) a := by
  rw [extendNew, List.foldl_append]
  rfl

theorem prefix_extendNew (key : α → κ) (known incoming : List α) : known <+: extendNew key known incoming := by
  induction incoming generalizing known with
  | nil => exact List.prefix_rfl
  | cons a incoming ih =>
    refine List.IsPrefix.trans ?_ (ih (pushNew key known a))
    rw [pushNew]
    split_ifs
    · exact List.prefix_rfl
    · exact List.prefix_append _ _

omit [DecidableEq κ] in
/-- A place of a longer list is one of the list before, or the last one. -/
theorem newAt_append_singleton :
    NewAt key known (incoming ++ [b]) i a ↔
      NewAt key known incoming i a ∨
        i = incoming.length ∧ a = b ∧ (∀ c ∈ known, key c ≠ key a) ∧ ∀ c ∈ incoming, key c ≠ key a := by
  constructor
  · intro h
    rcases Nat.lt_or_ge i incoming.length with hi | hi
    · refine .inl ⟨?_, h.unknown, fun earlier he c hc => h.first earlier he c ?_⟩
      · rw [← h.here, List.getElem?_append_left hi]
      · rw [List.getElem?_append_left (he.trans hi), hc]
    · have hlt := (List.getElem?_eq_some_iff.mp h.here).1
      rw [List.length_append, List.length_singleton] at hlt
      obtain rfl : i = incoming.length := by omega
      have hab := h.here
      rw [List.getElem?_concat_length, Option.some_inj] at hab
      refine .inr ⟨rfl, hab.symm, h.unknown, fun c hc => ?_⟩
      obtain ⟨e, he, rfl⟩ := List.mem_iff_getElem.mp hc
      exact h.first e he _ (by rw [List.getElem?_append_left he, List.getElem?_eq_getElem he])
  · rintro (h | ⟨rfl, rfl, hk, hi⟩)
    · have hlt := (List.getElem?_eq_some_iff.mp h.here).1
      refine ⟨?_, h.unknown, fun earlier he c hc => h.first earlier he c ?_⟩
      · rw [List.getElem?_append_left hlt, h.here]
      · rwa [List.getElem?_append_left (he.trans hlt)] at hc
    · refine ⟨List.getElem?_concat_length, hk, fun earlier he c hc => hi c ?_⟩
      rw [List.getElem?_append_left he] at hc
      exact List.mem_of_getElem? hc

/-- The keys of the list are those that were known and those of the newcomers. -/
theorem key_extendNew {k : κ} :
    (∃ b ∈ extendNew key known incoming, key b = k) ↔ (∃ b ∈ known, key b = k) ∨ ∃ b ∈ incoming, key b = k := by
  induction incoming using List.reverseRecOn generalizing k with
  | nil => simp
  | append_singleton incoming a ih =>
    rw [extendNew_append_singleton]
    by_cases h : ∃ c ∈ extendNew key known incoming, key c = key a
    · rw [pushNew_pos h, ih]
      rw [ih] at h
      constructor
      · rintro (hk | ⟨c, hc, hck⟩)
        · exact .inl hk
        · exact .inr ⟨c, List.mem_append_left _ hc, hck⟩
      · rintro (hk | ⟨c, hc, rfl⟩)
        · exact .inl hk
        · rcases List.mem_append.mp hc with hc | hc
          · exact .inr ⟨c, hc, rfl⟩
          · obtain rfl := List.mem_singleton.mp hc
            exact h
    · rw [pushNew_neg (by simpa using h)]
      simp only [List.mem_append, List.mem_singleton, or_and_right, exists_or, exists_eq_left, ih, or_assoc]

theorem mem_extendNew : b ∈ extendNew key known incoming ↔ b ∈ known ∨ ∃ i, NewAt key known incoming i b := by
  induction incoming using List.reverseRecOn generalizing b with
  | nil => exact ⟨.inl, fun h => h.resolve_right fun ⟨_, h⟩ => by simpa using h.here⟩
  | append_singleton incoming a ih =>
    rw [extendNew_append_singleton]
    by_cases h : ∃ c ∈ extendNew key known incoming, key c = key a
    · rw [pushNew_pos h, ih]
      refine or_congr_right (exists_congr fun i => ?_)
      rw [newAt_append_singleton]
      refine ⟨.inl, fun h' => h'.resolve_right ?_⟩
      rintro ⟨-, rfl, hk, hi⟩
      rcases key_extendNew.mp h with ⟨c, hc, hca⟩ | ⟨c, hc, hca⟩
      · exact hk c hc hca
      · exact hi c hc hca
    · have hnew : ∀ c, c ∈ known ∨ c ∈ incoming → key c ≠ key a := fun c hc hca =>
        h (key_extendNew.mpr (hc.imp (fun hc => ⟨c, hc, hca⟩) fun hc => ⟨c, hc, hca⟩))
      rw [pushNew_neg (by simpa using h), List.mem_append, ih, List.mem_singleton, or_assoc]
      refine or_congr_right ⟨?_, ?_⟩
      · rintro (⟨i, hb⟩ | rfl)
        · exact ⟨i, newAt_append_singleton.mpr (.inl hb)⟩
        · exact ⟨incoming.length, newAt_append_singleton.mpr
            (.inr ⟨rfl, rfl, fun c hc => hnew c (.inl hc), fun c hc => hnew c (.inr hc)⟩)⟩
      · rintro ⟨i, hb⟩
        rcases newAt_append_singleton.mp hb with hb | ⟨-, rfl, -⟩
        · exact .inl ⟨i, hb⟩
        · exact .inr rfl

theorem nodup_key_extendNew (h : (known.map key).Nodup) : ((extendNew key known incoming).map key).Nodup := by
  induction incoming using List.reverseRecOn with
  | nil => exact h
  | append_singleton incoming a ih =>
    rw [extendNew_append_singleton]
    by_cases hk : ∃ c ∈ extendNew key known incoming, key c = key a
    · rwa [pushNew_pos hk]
    · rw [pushNew_neg (by simpa using hk), List.map_append, List.nodup_append]
      refine ⟨ih, List.nodup_singleton _, ?_⟩
      rintro k hkn k' hk' rfl
      obtain ⟨c, hc, hck⟩ := List.mem_map.mp hkn
      obtain rfl := List.mem_singleton.mp hk'
      exact hk ⟨c, hc, hck⟩

theorem nodup_map_extendNew {f : α → β} (h : (known.map f).Nodup) :
    ((extendNew key known incoming).map f).Nodup ↔ NewDistinct key f known incoming := by
  induction incoming using List.reverseRecOn with
  | nil =>
    refine iff_of_true h ⟨fun i a ha => ?_, fun i a j b ha => ?_⟩ <;> exact absurd ha.here (by simp)
  | append_singleton incoming a ih =>
    rw [extendNew_append_singleton]
    by_cases hk : ∃ c ∈ extendNew key known incoming, key c = key a
    · have hsame : ∀ i b, NewAt key known (incoming ++ [a]) i b ↔ NewAt key known incoming i b := by
        intro i b
        rw [newAt_append_singleton]
        refine ⟨fun h' => h'.resolve_right ?_, .inl⟩
        rintro ⟨-, rfl, hkn, hin⟩
        rcases key_extendNew.mp hk with ⟨c, hc, hca⟩ | ⟨c, hc, hca⟩
        · exact hkn c hc hca
        · exact hin c hc hca
      rw [pushNew_pos hk, ih]
      exact ⟨fun h' => ⟨by simpa only [hsame] using h'.unheld, by simpa only [hsame] using h'.apart⟩,
        fun h' => ⟨by simpa only [hsame] using h'.unheld, by simpa only [hsame] using h'.apart⟩⟩
    · have hnew : ∀ c, c ∈ known ∨ c ∈ incoming → key c ≠ key a := fun c hc hca =>
        hk (key_extendNew.mpr (hc.imp (fun hc => ⟨c, hc, hca⟩) fun hc => ⟨c, hc, hca⟩))
      have hlast : NewAt key known (incoming ++ [a]) incoming.length a := newAt_append_singleton.mpr
        (.inr ⟨rfl, rfl, fun c hc => hnew c (.inl hc), fun c hc => hnew c (.inr hc)⟩)
      have hlt : ∀ {i b}, NewAt key known incoming i b → i < incoming.length := fun h' =>
        (List.getElem?_eq_some_iff.mp h'.here).1
      rw [pushNew_neg (by simpa using hk), List.map_append, List.nodup_append, ih]
      constructor
      · rintro ⟨⟨hfresh, hapart⟩, -, hdisj⟩
        have hout : ∀ b ∈ extendNew key known incoming, f b ≠ f a := fun b hb =>
          hdisj _ (List.mem_map_of_mem hb) _ (List.mem_singleton.mpr rfl)
        refine ⟨fun i b hb => ?_, fun i b j c hb hc hbc => ?_⟩
        · rcases newAt_append_singleton.mp hb with hb | ⟨-, rfl, -⟩
          · exact hfresh i b hb
          · intro hmem
            obtain ⟨c, hc, hcb⟩ := List.mem_map.mp hmem
            exact hout c (mem_extendNew.mpr (.inl hc)) hcb
        · rcases newAt_append_singleton.mp hb with hb' | ⟨hi, rfl, -⟩ <;>
            rcases newAt_append_singleton.mp hc with hc' | ⟨hj, rfl, -⟩
          · exact hapart i b j c hb' hc' hbc
          · exact absurd hbc (hout b (mem_extendNew.mpr (.inr ⟨i, hb'⟩)))
          · exact absurd hbc.symm (hout c (mem_extendNew.mpr (.inr ⟨j, hc'⟩)))
          · rw [hi, hj]
      · rintro ⟨hfresh, hapart⟩
        refine ⟨⟨fun i b hb => hfresh i b (newAt_append_singleton.mpr (.inl hb)), fun i b j c hb hc =>
          hapart i b j c (newAt_append_singleton.mpr (.inl hb)) (newAt_append_singleton.mpr (.inl hc))⟩,
          List.nodup_singleton _, ?_⟩
        rintro x hx y hy rfl
        obtain ⟨b, hb, hbx⟩ := List.mem_map.mp hx
        obtain rfl := List.mem_singleton.mp hy
        rcases mem_extendNew.mp hb with hb | ⟨i, hb⟩
        · exact hfresh _ a hlast (hbx ▸ List.mem_map_of_mem hb)
        · have hi := hapart i b _ a (newAt_append_singleton.mpr (.inl hb)) hlast hbx
          exact absurd (hlt hb) (by omega)

end Stonemite
