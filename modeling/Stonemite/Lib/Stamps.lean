import Mathlib

/-!
# Stamps

A counter hands out strictly increasing stamps. Several owners, each with a counter of its own that may
be replaced, hand out no stamp twice as long as each counter in use is ahead of what its owner has handed
out.
-/

namespace Stonemite

section
variable {α : Type} [LinearOrder α] {a b c : α} {l m : List α}

/-- The stamps handed out while a counter went from `a` to `b`. -/
structure Issued (a b : α) (l : List α) : Prop where
  le : a ≤ b
  sorted : l.Pairwise (· < ·)
  from_le : ∀ x ∈ l, a ≤ x
  lt : ∀ x ∈ l, x < b

namespace Issued

theorem quiet (h : a ≤ b) : Issued a b [] := ⟨h, .nil, nofun, nofun⟩

theorem one (h : a < b) : Issued a b [a] :=
  ⟨h.le, List.pairwise_singleton _ _, by simp, by simpa using h⟩

theorem append (h : Issued a b l) (h' : Issued b c m) : Issued a c (l ++ m) where
  le := h.le.trans h'.le
  sorted := List.pairwise_append.mpr
    ⟨h.sorted, h'.sorted, fun x hx y hy => (h.lt x hx).trans_le (h'.from_le y hy)⟩
  from_le x hx := by
    rcases List.mem_append.mp hx with hx | hx
    · exact h.from_le x hx
    · exact h.le.trans (h'.from_le x hx)
  lt x hx := by
    rcases List.mem_append.mp hx with hx | hx
    · exact (h.lt x hx).trans_le h'.le
    · exact h'.lt x hx

theorem nodup (h : Issued a b l) : l.Nodup := h.sorted.imp fun hlt => hlt.ne

end Issued

variable {κ : Type} {reads reads' : κ → α → Prop} {issued : List (κ × α)} {k : κ}

/-- Every counter in use is ahead of what its owner has handed out. -/
def Ahead (reads : κ → α → Prop) (issued : List (κ × α)) : Prop :=
  ∀ k a, reads k a → ∀ x ∈ issued, x.1 = k → x.2 < a

theorem Ahead.issue (h : Ahead reads issued) (hr : reads k a) (hi : Issued a b l)
    (hmove : ∀ k' a', reads' k' a' → k' = k ∧ a' = b ∨ k' ≠ k ∧ reads k' a') :
    Ahead reads' (issued ++ l.map (Prod.mk k)) := by
  intro k' a' hr' x hx hk
  rcases hmove k' a' hr' with ⟨hk', ha'⟩ | ⟨hne, hr'⟩
  · subst hk' ha'
    rcases List.mem_append.mp hx with hx | hx
    · exact (h _ _ hr x hx hk).trans_le hi.le
    · obtain ⟨s, hs, rfl⟩ := List.mem_map.mp hx
      exact hi.lt s hs
  · rcases List.mem_append.mp hx with hx | hx
    · exact h _ _ hr' x hx hk
    · obtain ⟨s, hs, rfl⟩ := List.mem_map.mp hx
      exact absurd hk.symm hne

theorem Ahead.nodup (h : Ahead reads issued) (hr : reads k a) (hi : Issued a b l) (hn : issued.Nodup) :
    (issued ++ l.map (Prod.mk k)).Nodup := by
  refine List.nodup_append'.mpr ⟨hn, hi.nodup.map (Prod.mk_right_injective k), fun x hx hx' => ?_⟩
  obtain ⟨s, hs, rfl⟩ := List.mem_map.mp hx'
  exact absurd (h _ _ hr _ hx rfl) (not_lt.mpr (hi.from_le s hs))

end

end Stonemite
