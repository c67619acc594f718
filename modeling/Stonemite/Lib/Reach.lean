import Stonemite.Lib.Keyed

/-!
# Search and ascent

A search from a node takes up the neighbours of each node it has found, in turn. An ascent follows one successor after
the other until there is none. Both have fuel; a finite set of nodes says how much is enough.
-/

open Relation

namespace Stonemite

variable {α : Type} {a b start : α} {ids : List α} {fuel cursor : Nat}

/-! ### Search -/

section
variable [DecidableEq α] {next : α → List α} {found : List α}

/-- Everything that the items found so far lead to. -/
def search (next : α → List α) : Nat → Nat → List α → List α
  | 0, _, found => found
  | fuel + 1, cursor, found =>
    match found[cursor]? with
    | none => found
    | some a => search next fuel (cursor + 1) (extendNew id found (next a))

/-- The state of a search: the nodes before the cursor have had their neighbours taken up. -/
structure Searched (next : α → List α) (ids : List α) (start : α) (cursor : Nat) (found : List α) : Prop where
  start_mem : start ∈ found
  nodup : found.Nodup
  bounded : found ⊆ start :: ids
  reached : ∀ a ∈ found, ReflTransGen (fun a b => b ∈ next a) start a
  closed : ∀ index < cursor, ∀ a, found[index]? = some a → ∀ b ∈ next a, b ∈ found

theorem mem_extendNew_id {known incoming : List α} : a ∈ extendNew id known incoming ↔ a ∈ known ∨ a ∈ incoming := by
  have h : (∃ b ∈ extendNew id known incoming, id b = a) ↔ (∃ b ∈ known, id b = a) ∨ ∃ b ∈ incoming, id b = a :=
    key_extendNew
  simpa using h

theorem Searched.step (hs : Searched next ids start cursor found) (hids : ∀ a, next a ⊆ ids)
    (ha : found[cursor]? = some a) : Searched next ids start (cursor + 1) (extendNew id found (next a)) where
  start_mem := mem_extendNew_id.mpr (.inl hs.start_mem)
  nodup := by
    have h : ((extendNew id found (next a)).map id).Nodup := nodup_key_extendNew (by simpa using hs.nodup)
    simpa using h
  bounded b hb := by
    rcases mem_extendNew_id.mp hb with hb | hb
    · exact hs.bounded hb
    · exact List.mem_cons_of_mem _ (hids a hb)
  reached b hb := by
    rcases mem_extendNew_id.mp hb with hb | hb
    · exact hs.reached b hb
    · exact (hs.reached a (List.mem_of_getElem? ha)).tail hb
  closed index hindex c hc b hb := by
    obtain ⟨tail, htail⟩ := prefix_extendNew id found (next a)
    have hlt := (List.getElem?_eq_some_iff.mp ha).1
    rw [← htail, List.getElem?_append_left (by omega)] at hc
    rw [mem_extendNew_id]
    rcases Nat.lt_succ_iff_lt_or_eq.mp hindex with hi | rfl
    · exact .inl (hs.closed index hi c hc b hb)
    · rw [ha, Option.some_inj] at hc
      exact .inr (hc ▸ hb)

/-- With a node of fuel for each place still to come, the search ends with every place behind its cursor. -/
theorem Searched.search (hs : Searched next ids start cursor found) (hids : ∀ a, next a ⊆ ids)
    (hfuel : ids.length < cursor + fuel) :
    ∃ stop, Searched next ids start stop (search next fuel cursor found) ∧
      (Stonemite.search next fuel cursor found).length ≤ stop := by
  induction fuel generalizing cursor found with
  | zero =>
    have hlength := hs.nodup.length_le_of_subset hs.bounded
    rw [List.length_cons] at hlength
    exact ⟨cursor, hs, by rw [Stonemite.search]; omega⟩
  | succ fuel ih =>
    rw [Stonemite.search]
    cases ha : found[cursor]? with
    | none => exact ⟨cursor, hs, List.getElem?_eq_none_iff.mp ha⟩
    | some a => exact ih (hs.step hids ha) (by omega)

theorem mem_search (hids : ∀ a, next a ⊆ ids) (hfuel : ids.length < fuel) :
    b ∈ search next fuel 0 [start] ↔ ReflTransGen (fun a b => b ∈ next a) start b := by
  have h0 : Searched next ids start 0 [start] :=
    ⟨List.mem_singleton.mpr rfl, List.nodup_singleton _, by simp,
      fun a ha => by rw [List.mem_singleton.mp ha], fun _ h => absurd h (Nat.not_lt_zero _)⟩
  obtain ⟨stop, hs, hstop⟩ := h0.search hids (by omega : ids.length < 0 + fuel)
  refine ⟨hs.reached b, fun h => ?_⟩
  induction h with
  | refl => exact hs.start_mem
  | @tail c d _ hd ih =>
    obtain ⟨index, hindex, rfl⟩ := List.mem_iff_getElem.mp ih
    exact hs.closed index (by omega) _ (List.getElem?_eq_getElem hindex) d hd

end

/-! ### Ascent -/

section
variable {next : α → Option α}

/-- The nodes from one on; none when the fuel runs out. -/
def climb (next : α → Option α) : Nat → Option α → Option (List α)
  | _, none => some []
  | 0, some _ => none
  | fuel + 1, some a => (climb next fuel (next a)).map (a :: ·)

/-- No node is above itself. -/
def Acyclic (next : α → Option α) : Prop := ∀ a, ¬ TransGen (fun a b => next a = some b) a a

theorem acyclic_of_lt (rank : α → Nat) (h : ∀ a b, next a = some b → rank b < rank a) : Acyclic next := by
  intro a hcycle
  have hdown : TransGen (fun m n : Nat => n < m) (rank a) (rank a) := TransGen.lift rank h _ _ hcycle
  rw [transGen_eq_self] at hdown
  exact absurd hdown (Nat.lt_irrefl _)

theorem mem_climb {l : List α} (h : climb next fuel (some a) = some l) :
    b ∈ l ↔ ReflTransGen (fun a b => next a = some b) a b := by
  induction fuel generalizing a l with
  | zero => cases h
  | succ fuel ih =>
    obtain ⟨rest, hrest, rfl⟩ := Option.map_eq_some_iff.mp h
    cases hnext : next a with
    | none =>
      rw [hnext] at hrest
      have hnil : rest = [] := by cases fuel <;> cases hrest <;> rfl
      rw [hnil, List.mem_singleton]
      refine ⟨fun h => h ▸ .refl, fun h => ?_⟩
      rcases h.cases_head with rfl | ⟨c, hc, -⟩
      · rfl
      · rw [hnext] at hc
        cases hc
    | some c =>
      rw [hnext] at hrest
      rw [List.mem_cons, ih hrest]
      constructor
      · rintro (rfl | h)
        · exact .refl
        · exact .head hnext h
      · intro h
        rcases h.cases_head with rfl | ⟨d, hd, h⟩
        · exact .inl rfl
        · rw [hnext, Option.some_inj] at hd
          exact .inr (hd ▸ h)

/-- The ascent from the node runs into a cycle. -/
def UnderCycle (next : α → Option α) (a : α) : Prop :=
  ∃ b, ReflTransGen (fun a b => next a = some b) a b ∧ TransGen (fun a b => next a = some b) b b

theorem not_underCycle (hacyclic : Acyclic next) : ¬ UnderCycle next a := fun ⟨b, _, hb⟩ => hacyclic b hb

theorem UnderCycle.of_next (hnext : next a = some b) (h : UnderCycle next b) : UnderCycle next a := by
  obtain ⟨c, hreach, hc⟩ := h
  exact ⟨c, .head hnext hreach, hc⟩

theorem UnderCycle.step (h : UnderCycle next a) : ∃ b, next a = some b ∧ UnderCycle next b := by
  obtain ⟨c, hreach, hc⟩ := h
  rcases hreach.cases_head with rfl | ⟨b, hnext, hreach⟩
  · obtain ⟨b, hnext, hreach⟩ := TransGen.head'_iff.mp hc
    exact ⟨b, hnext, b, .refl, TransGen.tail' hreach hnext⟩
  · exact ⟨b, hnext, c, hreach, hc⟩

theorem UnderCycle.climb_eq_none (h : UnderCycle next a) (fuel : Nat) : climb next fuel (some a) = none := by
  induction fuel generalizing a with
  | zero => rfl
  | succ fuel ih =>
    obtain ⟨b, hnext, hb⟩ := h.step
    rw [climb, hnext, ih hb]
    rfl

/-- An ascent without a cycle ends: the nodes it has seen are distinct. -/
theorem climb_isSome_of_seen (hfree : ¬ UnderCycle next a) (hids : ∀ a b, next a = some b → a ∈ ids) {seen : List α}
    (hnodup : seen.Nodup) (hseen : seen ⊆ ids) (habove : ∀ s ∈ seen, TransGen (fun a b => next a = some b) s a)
    (hfuel : ids.length < fuel + seen.length) : (climb next fuel (some a)).isSome := by
  induction fuel generalizing a seen with
  | zero =>
    have := hnodup.length_le_of_subset hseen
    omega
  | succ fuel ih =>
    rw [climb, Option.isSome_map]
    cases hnext : next a with
    | none => cases fuel <;> rfl
    | some b =>
      have hfresh : a ∉ seen := fun h => hfree ⟨a, .refl, habove a h⟩
      refine ih (fun h => hfree (h.of_next hnext)) (List.nodup_cons.mpr ⟨hfresh, hnodup⟩)
        (List.cons_subset.mpr ⟨hids a b hnext, hseen⟩) ?_ ?_
      · intro s hs
        rcases List.mem_cons.mp hs with rfl | hs
        · exact .single hnext
        · exact (habove s hs).tail hnext
      · rw [List.length_cons]
        omega

theorem climb_isSome (hids : ∀ a b, next a = some b → a ∈ ids) (hfuel : ids.length < fuel) {start : Option α}
    (hfree : ∀ a ∈ start, ¬ UnderCycle next a) : (climb next fuel start).isSome := by
  cases start with
  | none => cases fuel <;> rfl
  | some a =>
    exact climb_isSome_of_seen (hfree a rfl) hids List.nodup_nil (List.nil_subset _) (by simp) (by simpa using hfuel)

end

end Stonemite
