import Mathlib

/-!
# Logs

What a log says of its entries as it grows: an entry that nothing has cancelled since, and a property of each entry and of
the log before it.
-/

namespace Stonemite

variable {ε : Type} {log : List ε} {e x : ε} {cancels : ε → Prop} {Q : List ε → ε → Prop}

/-- The entry is in the log, and none after it cancels it. -/
def Since (e : ε) (cancels : ε → Prop) (log : List ε) : Prop :=
  ∃ before after, log = before ++ e :: after ∧ ∀ x ∈ after, ¬ cancels x

/-- Every entry relates so to the log before it. -/
def Throughout (Q : List ε → ε → Prop) (log : List ε) : Prop :=
  ∀ before x after, log = before ++ x :: after → Q before x

theorem Since.mem (h : Since e cancels log) : e ∈ log := by
  obtain ⟨before, after, rfl, -⟩ := h
  exact List.mem_append_right _ List.mem_cons_self

@[simp] theorem not_since_nil : ¬ Since e cancels [] := by
  rintro ⟨before, after, h, -⟩
  exact List.append_ne_nil_of_right_ne_nil _ (List.cons_ne_nil _ _) h.symm

theorem since_append_singleton : Since e cancels (log ++ [x]) ↔ x = e ∨ Since e cancels log ∧ ¬ cancels x := by
  constructor
  · rintro ⟨before, after, h, hafter⟩
    rcases List.eq_nil_or_concat after with rfl | ⟨rest, last, rfl⟩
    · obtain ⟨-, hx⟩ := List.append_inj' h rfl
      exact .inl (List.cons.inj hx).1
    · have hassoc : before ++ e :: (rest ++ [last]) = (before ++ e :: rest) ++ [last] := by simp
      rw [List.concat_eq_append] at h hafter
      rw [hassoc] at h
      obtain ⟨hlog, hx⟩ := List.append_inj' h rfl
      refine .inr ⟨⟨before, rest, hlog, fun y hy => hafter y (List.mem_append_left _ hy)⟩, ?_⟩
      rw [(List.cons.inj hx).1]
      exact hafter last (List.mem_append_right _ (List.mem_singleton.mpr rfl))
  · rintro (rfl | ⟨⟨before, after, rfl, hafter⟩, hx⟩)
    · exact ⟨log, [], rfl, nofun⟩
    · refine ⟨before, after ++ [x], by simp, fun y hy => ?_⟩
      rcases List.mem_append.mp hy with hy | hy
      · exact hafter y hy
      · rwa [List.mem_singleton.mp hy]

/-- An entry that neither is `e` nor cancels it changes nothing. -/
theorem since_append_of_ne (hne : x ≠ e) (hx : ¬ cancels x) : Since e cancels (log ++ [x]) ↔ Since e cancels log := by
  rw [since_append_singleton]
  exact ⟨fun h => (h.resolve_left hne).1, fun h => .inr ⟨h, hx⟩⟩

@[simp] theorem throughout_nil : Throughout Q [] := by
  intro before x after h
  exact absurd h.symm (List.append_ne_nil_of_right_ne_nil _ (List.cons_ne_nil _ _))

theorem throughout_append_singleton : Throughout Q (log ++ [x]) ↔ Throughout Q log ∧ Q log x := by
  constructor
  · intro h
    exact ⟨fun before y after hlog => h before y (after ++ [x]) (by rw [hlog]; simp), h log x [] rfl⟩
  · rintro ⟨hlog, hx⟩ before y after heq
    rcases List.eq_nil_or_concat after with rfl | ⟨rest, last, rfl⟩
    · obtain ⟨rfl, hy⟩ := List.append_inj' heq rfl
      obtain rfl := (List.cons.inj hy).1
      exact hx
    · have hassoc : before ++ y :: (rest ++ [last]) = (before ++ y :: rest) ++ [last] := by simp
      rw [List.concat_eq_append, hassoc] at heq
      exact hlog before y rest (List.append_inj' heq rfl).1

end Stonemite
