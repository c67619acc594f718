import Mathlib

/-!
# Guarded runs

A run is a fold of a step function over its inputs. `Along P` says that `P` holds at every step of
the run; an invariant that each such step keeps holds at the end and at every point of the run.
-/

namespace Stonemite

variable {σ α : Type} {P Q : σ → α → Prop} {f : σ → α → σ}

/-- `P` holds of every state of the run and the input it takes there. -/
def Along (P : σ → α → Prop) (f : σ → α → σ) : σ → List α → Prop
  | _, [] => True
  | s, a :: l => P s a ∧ Along P f (f s a) l

namespace Along

instance decidable [∀ s a, Decidable (P s a)] : ∀ (s : σ) (l : List α), Decidable (Along P f s l)
  | _, [] => .isTrue trivial
  | s, a :: l =>
    have := decidable (f s a) l
    inferInstanceAs (Decidable (P s a ∧ Along P f (f s a) l))

@[simp] theorem nil (s : σ) : Along P f s [] := trivial

@[simp] theorem cons_iff {s : σ} {a : α} {l : List α} : Along P f s (a :: l) ↔ P s a ∧ Along P f (f s a) l :=
  Iff.rfl

theorem append_iff {s : σ} {l₁ l₂ : List α} :
    Along P f s (l₁ ++ l₂) ↔ Along P f s l₁ ∧ Along P f (l₁.foldl f s) l₂ := by
  induction l₁ generalizing s with
  | nil => simp
  | cons a l ih => rw [List.cons_append, cons_iff, cons_iff, ih, List.foldl_cons, and_assoc]

theorem prefix_of_append {s : σ} {l₁ l₂ : List α} (h : Along P f s (l₁ ++ l₂)) : Along P f s l₁ :=
  (append_iff.mp h).1

theorem at_step {s : σ} {l₁ l₂ : List α} {a : α} (h : Along P f s (l₁ ++ a :: l₂)) : P (l₁.foldl f s) a :=
  (append_iff.mp h).2.1

theorem iff_forall {s : σ} {l : List α} :
    Along P f s l ↔ ∀ pre a post, l = pre ++ a :: post → P (pre.foldl f s) a := by
  constructor
  · rintro h pre a post rfl
    exact h.at_step
  · intro h
    induction l generalizing s with
    | nil => trivial
    | cons a l ih =>
      refine ⟨h [] a l rfl, ih fun pre b post hl => ?_⟩
      exact h (a :: pre) b post (by rw [hl]; rfl)

theorem mono {s : σ} {l : List α} (hPQ : ∀ s a, P s a → Q s a) (h : Along P f s l) : Along Q f s l := by
  induction l generalizing s with
  | nil => trivial
  | cons a l ih => exact ⟨hPQ s a h.1, ih h.2⟩

theorem trivial_along {s : σ} {l : List α} (h : ∀ s a, P s a) : Along P f s l := by
  induction l generalizing s with
  | nil => trivial
  | cons a l ih => exact ⟨h s a, ih⟩

/-- An invariant kept by every guarded step holds at the end of a guarded run. -/
theorem invariant {I : σ → Prop} (step : ∀ s a, I s → P s a → I (f s a)) {s : σ} {l : List α}
    (h : Along P f s l) (h0 : I s) : I (l.foldl f s) := by
  induction l generalizing s with
  | nil => exact h0
  | cons a l ih => exact ih h.2 (step s a h0 h.1)

/-- Two guards agree along a run if they agree wherever an invariant holds that the guarded steps keep. -/
theorem congr_of_invariant {I : σ → Prop} {s : σ} {l : List α} (hiff : ∀ s, ∀ a ∈ l, I s → (P s a ↔ Q s a))
    (hstep : ∀ s, ∀ a ∈ l, I s → P s a → I (f s a)) (h0 : I s) : Along P f s l ↔ Along Q f s l := by
  induction l generalizing s with
  | nil => exact Iff.rfl
  | cons a l ih =>
    obtain ⟨hhead, htail⟩ : (∀ s, I s → (P s a ↔ Q s a)) ∧ ∀ s, ∀ b ∈ l, I s → (P s b ↔ Q s b) :=
      ⟨fun s => hiff s a List.mem_cons_self, fun s b hb => hiff s b (List.mem_cons_of_mem a hb)⟩
    rw [cons_iff, cons_iff, ← hhead s h0]
    refine and_congr_right fun hP => ih htail (fun s b hb => hstep s b (List.mem_cons_of_mem a hb)) ?_
    exact hstep s a List.mem_cons_self h0 hP

/-- An invariant kept by every guarded step holds at the end of a run, or up to a step without guard. -/
theorem invariant_until {I : σ → Prop} (step : ∀ s a, I s → P s a → I (f s a)) {s : σ} (l : List α) (h0 : I s) :
    I (l.foldl f s) ∨ ∃ pre a post, l = pre ++ a :: post ∧ I (pre.foldl f s) ∧ ¬ P (pre.foldl f s) a := by
  induction l generalizing s with
  | nil => exact .inl h0
  | cons a l ih =>
    by_cases hP : P s a
    · obtain h | ⟨pre, b, post, rfl, hpre, hb⟩ := ih (step s a h0 hP)
      · exact .inl h
      · exact .inr ⟨a :: pre, b, post, rfl, hpre, hb⟩
    · exact .inr ⟨[], a, l, rfl, h0, hP⟩

end Along

/-- An invariant kept by every step holds at the end of a run. -/
theorem foldl_invariant {I : σ → Prop} (step : ∀ s a, I s → I (f s a)) {s : σ} (l : List α) (h0 : I s) :
    I (l.foldl f s) :=
  Along.invariant (P := fun _ _ => True) (fun s a h _ => step s a h) (Along.trivial_along fun _ _ => trivial) h0

theorem foldl_invariant_mem {I : σ → Prop} {s : σ} (l : List α) (step : ∀ s, ∀ a ∈ l, I s → I (f s a))
    (h0 : I s) : I (l.foldl f s) := by
  induction l generalizing s with
  | nil => exact h0
  | cons a l ih => exact ih (fun s b hb => step s b (by simp [hb])) (step s a (by simp) h0)

end Stonemite
