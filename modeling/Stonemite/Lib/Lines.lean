import Mathlib

/-!
# Splitting a sequence at a terminator

`splitLines nl l` is the list of the pieces of `l` that end in `nl`, without it, and the unfinished rest.
Splitting may stop anywhere and go on from the rest: `splitLines_append_cons`.
-/

namespace Stonemite

variable {α : Type}

/-- The length of lines with their terminators. -/
def linesLength (lines : List (List α)) : Nat := (lines.map fun line => line.length + 1).sum

@[simp] theorem linesLength_nil : linesLength ([] : List (List α)) = 0 := rfl

@[simp] theorem linesLength_cons (line : List α) (lines : List (List α)) :
    linesLength (line :: lines) = line.length + 1 + linesLength lines := by
  simp [linesLength]

variable [DecidableEq α]

/-- The complete lines and the unfinished one after them. -/
def splitLines (nl : α) : List α → List (List α) × List α
  | [] => ([], [])
  | a :: l =>
    if a = nl then ([] :: (splitLines nl l).1, (splitLines nl l).2)
    else match splitLines nl l with
      | ([], rest) => ([], a :: rest)
      | (line :: lines, rest) => ((a :: line) :: lines, rest)

/-- The pieces of `l` that `nl` ends. -/
def completeLines (nl : α) (l : List α) : List (List α) := (splitLines nl l).1

/-- What follows the last `nl` of `l`. -/
def unfinished (nl : α) (l : List α) : List α := (splitLines nl l).2

variable {nl : α} {l p : List α}

@[simp] theorem completeLines_nil : completeLines nl [] = [] := rfl

@[simp] theorem unfinished_nil : unfinished nl [] = [] := rfl

@[simp] theorem completeLines_cons_self : completeLines nl (nl :: l) = [] :: completeLines nl l := by
  simp [completeLines, splitLines]

@[simp] theorem unfinished_cons_self : unfinished nl (nl :: l) = unfinished nl l := by
  simp [unfinished, splitLines]

theorem splitLines_of_notMem (h : nl ∉ l) : splitLines nl l = ([], l) := by
  induction l with
  | nil => rfl
  | cons a l ih =>
    simp only [List.mem_cons, not_or] at h
    rw [splitLines, if_neg (Ne.symm h.1), ih h.2]

theorem splitLines_append_cons (h : nl ∉ p) :
    splitLines nl (p ++ nl :: l) = (p :: completeLines nl l, unfinished nl l) := by
  induction p with
  | nil => simp [splitLines, completeLines, unfinished]
  | cons a p ih =>
    simp only [List.mem_cons, not_or] at h
    rw [List.cons_append, splitLines, if_neg (Ne.symm h.1), ih h.2]

theorem completeLines_of_notMem (h : nl ∉ l) : completeLines nl l = [] := by
  rw [completeLines, splitLines_of_notMem h]

theorem unfinished_of_notMem (h : nl ∉ l) : unfinished nl l = l := by
  rw [unfinished, splitLines_of_notMem h]

theorem completeLines_append_cons (h : nl ∉ p) :
    completeLines nl (p ++ nl :: l) = p :: completeLines nl l := by
  rw [completeLines, splitLines_append_cons h]

theorem unfinished_append_cons (h : nl ∉ p) : unfinished nl (p ++ nl :: l) = unfinished nl l := by
  rw [unfinished, splitLines_append_cons h]

/-- Induction on the lines of a list: a list without terminator, or a piece, its terminator and a rest. -/
theorem lines_induction (nl : α) {P : List α → Prop} (last : ∀ l, nl ∉ l → P l)
    (line : ∀ p l, nl ∉ p → P l → P (p ++ nl :: l)) (l : List α) : P l := by
  induction hn : l.length using Nat.strong_induction_on generalizing l with
  | _ n ih =>
    by_cases h : nl ∈ l
    · obtain ⟨p, q, rfl, hp⟩ := List.eq_append_cons_of_mem h
      have hlt : q.length < n := by
        rw [← hn, List.length_append, List.length_cons]
        omega
      exact line p q hp (ih q.length hlt q rfl)
    · exact last l h

theorem notMem_unfinished (nl : α) (l : List α) : nl ∉ unfinished nl l := by
  induction l using lines_induction nl with
  | last l h => rwa [unfinished_of_notMem h]
  | line p l h ih => rwa [unfinished_append_cons h]

@[simp] theorem unfinished_unfinished : unfinished nl (unfinished nl l) = unfinished nl l :=
  unfinished_of_notMem (notMem_unfinished nl l)

@[simp] theorem completeLines_unfinished : completeLines nl (unfinished nl l) = [] :=
  completeLines_of_notMem (notMem_unfinished nl l)

/-- The lines of a longer list are those of the shorter one and then those of its rest and the addition. -/
theorem completeLines_append (l m : List α) :
    completeLines nl (l ++ m) = completeLines nl l ++ completeLines nl (unfinished nl l ++ m) := by
  induction l using lines_induction nl with
  | last l h => rw [completeLines_of_notMem h, unfinished_of_notMem h, List.nil_append]
  | line p l h ih =>
    rw [List.append_assoc, List.cons_append, completeLines_append_cons h, completeLines_append_cons h,
      unfinished_append_cons h, ih, List.cons_append]

theorem unfinished_append (l m : List α) : unfinished nl (l ++ m) = unfinished nl (unfinished nl l ++ m) := by
  induction l using lines_induction nl with
  | last l h => rw [unfinished_of_notMem h]
  | line p l h ih =>
    rw [List.append_assoc, List.cons_append, unfinished_append_cons h, unfinished_append_cons h, ih]

theorem completeLines_eq_nil : completeLines nl l = [] ↔ nl ∉ l := by
  refine ⟨fun h hmem => ?_, completeLines_of_notMem⟩
  obtain ⟨p, q, rfl, hp⟩ := List.eq_append_cons_of_mem hmem
  rw [completeLines_append_cons hp] at h
  cases h

omit [DecidableEq α] in
theorem length_le_linesLength (lines : List (List α)) : lines.length ≤ linesLength lines := by
  induction lines with
  | nil => exact le_rfl
  | cons line lines ih =>
    rw [linesLength_cons, List.length_cons]
    omega

/-- Dropping the first complete lines leaves the others and the unfinished rest. -/
theorem lines_drop {done rest : List (List α)} (h : completeLines nl l = done ++ rest) :
    completeLines nl (l.drop (linesLength done)) = rest ∧
      unfinished nl (l.drop (linesLength done)) = unfinished nl l := by
  induction l using lines_induction nl generalizing done with
  | last l hl =>
    rw [completeLines_of_notMem hl] at h
    obtain ⟨rfl, rfl⟩ := List.append_eq_nil_iff.mp h.symm
    exact ⟨completeLines_of_notMem hl, rfl⟩
  | line p l hp ih =>
    rw [completeLines_append_cons hp] at h
    cases done with
    | nil => exact ⟨by rw [linesLength_nil, List.drop_zero, completeLines_append_cons hp, h, List.nil_append], rfl⟩
    | cons q done =>
      obtain ⟨rfl, hdone⟩ := List.cons.inj h
      have hdrop : (p ++ nl :: l).drop (linesLength (p :: done)) = l.drop (linesLength done) := by
        rw [linesLength_cons, List.drop_append, List.drop_of_length_le (by omega), List.nil_append]
        have hlen : p.length + 1 + linesLength done - p.length = linesLength done + 1 := by omega
        rw [hlen, List.drop_succ_cons]
      rw [hdrop, unfinished_append_cons hp]
      exact ih hdone

theorem linesLength_completeLines_le (nl : α) (l : List α) : linesLength (completeLines nl l) ≤ l.length := by
  induction l using lines_induction nl with
  | last l h =>
    rw [completeLines_of_notMem h]
    exact Nat.zero_le _
  | line p l h ih =>
    rw [completeLines_append_cons h, linesLength_cons, List.length_append, List.length_cons]
    omega

end Stonemite
