import Mathlib

/-!
# Groups between brackets

A text is read with one bracket open at a time: an opening bracket starts a group over, a closing one ends it.
A group that is replaced wherever it is written leaves the other groups as they were, but for those that the
replacement has become a part of, which a mark of the replacement tells.
-/

namespace Stonemite.Braces

variable {α : Type} [DecidableEq α]

/-- The groups of a text, of which `started` is open. -/
def groups (opening closing : α) : Option (List α) → List α → List (List α)
  | _, [] => []
  | started, c :: s =>
    if c = opening then groups opening closing (some []) s
    else if c = closing then started.toList ++ groups opening closing none s
    else groups opening closing (started.map (· ++ [c])) s

/-- `old` is replaced in the first text, from left to right. -/
inductive Replaced (old new : List α) : List α → List α → Prop
  | nil : Replaced old new [] []
  | here {s t : List α} : Replaced old new s t → Replaced old new (old ++ s) (new ++ t)
  | keep {c : α} {s t : List α} (h : ¬ old <+: c :: s) : Replaced old new s t → Replaced old new (c :: s) (c :: t)

section
variable {opening closing : α}

def Plain (opening closing : α) (w : List α) : Prop := opening ∉ w ∧ closing ∉ w

omit [DecidableEq α] in
theorem Plain.of_cons {c : α} {w : List α} (h : Plain opening closing (c :: w)) :
    c ≠ opening ∧ c ≠ closing ∧ Plain opening closing w := by
  obtain ⟨hopening, hclosing⟩ := h
  rw [List.mem_cons, not_or] at hopening hclosing
  exact ⟨Ne.symm hopening.1, Ne.symm hclosing.1, hopening.2, hclosing.2⟩

theorem groups_opening (started : Option (List α)) (s : List α) :
    groups opening closing started (opening :: s) = groups opening closing (some []) s := by
  rw [groups, if_pos rfl]

theorem groups_closing (hne : opening ≠ closing) (started : Option (List α)) (s : List α) :
    groups opening closing started (closing :: s) = started.toList ++ groups opening closing none s := by
  rw [groups, if_neg hne.symm, if_pos rfl]

theorem groups_plain {w : List α} (hw : Plain opening closing w) (started : Option (List α)) (s : List α) :
    groups opening closing started (w ++ s) = groups opening closing (started.map (· ++ w)) s := by
  induction w generalizing started with
  | nil => cases started <;> simp
  | cons c w ih =>
    obtain ⟨hopening, hclosing, hw⟩ := hw.of_cons
    rw [List.cons_append, groups, if_neg hopening, if_neg hclosing, ih hw]
    cases started <;> simp

theorem groups_enclosed (hne : opening ≠ closing) {w : List α} (hw : Plain opening closing w)
    (started : Option (List α)) (s : List α) :
    groups opening closing started (opening :: w ++ [closing] ++ s) = w :: groups opening closing none s := by
  rw [List.cons_append, List.cons_append, groups_opening, List.append_assoc, groups_plain hw, List.singleton_append,
    groups_closing hne]
  rfl

theorem plain_of_mem_groups {w s : List α} {started : Option (List α)}
    (hstarted : ∀ v ∈ started, Plain opening closing v) (h : w ∈ groups opening closing started s) :
    Plain opening closing w := by
  induction s generalizing started with
  | nil => cases h
  | cons c s ih =>
    rw [groups] at h
    split_ifs at h with hopening hclosing
    · refine ih (fun v hv => ?_) h
      obtain rfl := Option.mem_some_iff.mp hv
      exact ⟨List.not_mem_nil, List.not_mem_nil⟩
    · rcases List.mem_append.mp h with h | h
      · exact hstarted w (Option.mem_toList.mp h)
      · exact ih (fun v hv => absurd hv (Option.not_mem_none v)) h
    · refine ih (fun v hv => ?_) h
      obtain ⟨u, hu, rfl⟩ := Option.map_eq_some_iff.mp hv
      obtain ⟨hopen, hclose⟩ := hstarted u hu
      simp [Plain, hopen, hclose, Ne.symm hopening, Ne.symm hclosing]

end

/-! ### Replacing a group -/

section
variable {opening closing mark : α} {old new s t : List α}

/-- The groups without a mark. -/
def unmarked (opening closing mark : α) (started : Option (List α)) (s : List α) : List (List α) :=
  (groups opening closing started s).filter fun w => decide (mark ∉ w)

/-- What is open before and after a replacement: the same, or nothing and something with a mark. -/
def Beside (mark : α) (before after : Option (List α)) : Prop :=
  before = after ∨ before = none ∧ ∃ w, after = some w ∧ mark ∈ w

theorem Beside.unmarked_toList {before after : Option (List α)} (h : Beside mark before after) :
    after.toList.filter (fun w => decide (mark ∉ w)) = before.toList.filter fun w => decide (mark ∉ w) := by
  rcases h with rfl | ⟨rfl, w, rfl, hmark⟩
  · rfl
  · simp [hmark]

omit [DecidableEq α] in
theorem Beside.snoc {before after : Option (List α)} (h : Beside mark before after) (c : α) :
    Beside mark (before.map (· ++ [c])) (after.map (· ++ [c])) := by
  rcases h with rfl | ⟨rfl, w, rfl, hmark⟩
  · exact .inl rfl
  · exact .inr ⟨rfl, w ++ [c], rfl, List.mem_append_left _ hmark⟩

omit [DecidableEq α] in
theorem Beside.replaced {before after : Option (List α)} (h : Beside mark before after) (hmark : mark ∈ new) :
    Beside mark none (after.map (· ++ new)) := by
  cases after with
  | none => exact .inl rfl
  | some w => exact .inr ⟨rfl, w ++ new, rfl, List.mem_append_right _ hmark⟩

/-- Where a group is replaced by a marked text, the other groups stay, but for marked ones. An open group must
not go on to be the one that is replaced. -/
theorem unmarked_replaced (hne : opening ≠ closing) {body : List α} (hbody : Plain opening closing body)
    (hnew : Plain opening closing new) (hmark : mark ∈ new) (h : Replaced (opening :: body ++ [closing]) new s t)
    {before after : Option (List α)} (hbeside : Beside mark before after)
    (hopen : ∀ w ∈ before, ¬ opening :: body ++ [closing] <+: opening :: w ++ s) :
    unmarked opening closing mark after t =
      (unmarked opening closing mark before s).filter fun w => decide (w ≠ body) := by
  induction h generalizing before after with
  | nil => rfl
  | @here s t h ih =>
    have hrest := ih (hbeside.replaced hmark) (fun w hw => absurd hw (Option.not_mem_none w))
    rw [unmarked, unmarked, groups_plain hnew, groups_enclosed hne hbody, List.filter_cons, ← unmarked, hrest, ← unmarked]
    split_ifs <;> simp
  | @keep c s t hkeep h ih =>
    by_cases hopening : c = opening
    · subst hopening
      have hsame : Beside mark (some []) (some []) := .inl rfl
      have hrest := ih hsame fun w hw => by
        obtain rfl := Option.mem_some_iff.mp hw
        exact hkeep
      rw [unmarked, unmarked, groups_opening, groups_opening]
      exact hrest
    by_cases hclosing : c = closing
    · subst hclosing
      have hsame : Beside mark none none := .inl rfl
      have hrest := ih hsame fun w hw => absurd hw (Option.not_mem_none w)
      rw [unmarked, unmarked, groups_closing hne, groups_closing hne, List.filter_append, List.filter_append,
        List.filter_append, hbeside.unmarked_toList]
      refine congrArg₂ _ (Eq.symm (List.filter_eq_self.mpr fun w hw => ?_)) hrest
      -- the group that ends here is not the one that is replaced
      refine decide_eq_true fun heq => hopen w (Option.mem_toList.mp (List.mem_of_mem_filter hw)) ?_
      rw [heq]
      exact ⟨s, by simp⟩
    · have hrest := ih (hbeside.snoc c) fun w hw => by
        obtain ⟨v, hv, rfl⟩ := Option.map_eq_some_iff.mp hw
        simpa using hopen v hv
      rw [unmarked, unmarked, groups, if_neg hopening, if_neg hclosing, groups, if_neg hopening, if_neg hclosing]
      exact hrest

/-- The groups of a text in which some groups were replaced one after another. -/
theorem unmarked_foldl {ι : Type} (hne : opening ≠ closing) {body new : ι → List α} {replace : List α → ι → List α}
    (hreplace : ∀ s i, Replaced (opening :: body i ++ [closing]) (new i) s (replace s i)) (is : List ι)
    (hbody : ∀ i ∈ is, Plain opening closing (body i)) (hnew : ∀ i ∈ is, Plain opening closing (new i) ∧ mark ∈ new i)
    (s : List α) :
    unmarked opening closing mark none (is.foldl replace s) =
      (unmarked opening closing mark none s).filter fun w => decide (w ∉ is.map body) := by
  induction is generalizing s with
  | nil => simp
  | cons i is ih =>
    rw [List.foldl_cons, ih (fun j hj => hbody j (List.mem_cons_of_mem _ hj)) (fun j hj => hnew j (List.mem_cons_of_mem _ hj)),
      unmarked_replaced hne (hbody i List.mem_cons_self) (hnew i List.mem_cons_self).1 (hnew i List.mem_cons_self).2
        (hreplace s i) (.inl rfl) (fun w hw => absurd hw (Option.not_mem_none w)), List.filter_filter]
    refine List.filter_congr fun w _ => ?_
    rw [List.map_cons, ← Bool.decide_and, decide_eq_decide, List.mem_cons, not_or, and_comm]

end

end Stonemite.Braces
