import Mathlib

/-!
# Promises that settle once

Promises are issued under a key, each pending with a timer or settled on the spot. A settlement takes one pending
promise or all of them, and their timers with them. `Exact` is the invariant of such a table: every promise that
was issued is pending under its own timer, or settled once and without one.
-/

namespace Stonemite

/-- Promises with a timer each, from their issue to their settlement. -/
structure Promises (κ η ω : Type*) where
  issued : List κ
  /-- What is pending, with the timer of each. -/
  pending : List (κ × η)
  /-- The timers that are set, with the promise that each one ends. -/
  timers : List (η × κ)
  settled : List (κ × ω)

namespace Promises
variable {κ η ω : Type*}

/-- Every issued promise is pending or settled, once. -/
structure Exact (p : Promises κ η ω) : Prop where
  nodup : p.issued.Nodup
  perm : (p.settled.map Prod.fst ++ p.pending.map Prod.fst).Perm p.issued
  timers : p.timers = p.pending.map Prod.swap
  handles : (p.pending.map Prod.snd).Nodup

/-- A settlement of one pending promise, or of all. -/
inductive Settle [DecidableEq κ] [DecidableEq η] : Promises κ η ω → Promises κ η ω → Prop
  | one {p : Promises κ η ω} (k : κ) (h : η) (outcome : ω) (mem : (k, h) ∈ p.pending) :
    Settle p ⟨p.issued, p.pending.filter (·.1 ≠ k), p.timers.filter (·.1 ≠ h), p.settled ++ [(k, outcome)]⟩
  | all {p : Promises κ η ω} (outcome : ω) :
    Settle p ⟨p.issued, [], p.timers.filter fun t => (p.pending.map Prod.snd).all (t.1 ≠ ·),
      p.settled ++ p.pending.map fun e => (e.1, outcome)⟩

/-- A new promise, pending under a new timer. -/
def issue (p : Promises κ η ω) (k : κ) (h : η) : Promises κ η ω :=
  ⟨p.issued ++ [k], p.pending ++ [(k, h)], p.timers ++ [(h, k)], p.settled⟩

/-- A new promise that is settled already. -/
def refuse (p : Promises κ η ω) (k : κ) (outcome : ω) : Promises κ η ω :=
  ⟨p.issued ++ [k], p.pending, p.timers, p.settled ++ [(k, outcome)]⟩

namespace Exact
variable {p q : Promises κ η ω}

theorem init : Exact (⟨[], [], [], []⟩ : Promises κ η ω) := ⟨List.nodup_nil, .refl _, rfl, List.nodup_nil⟩

theorem pending_nodup (h : p.Exact) : (p.pending.map Prod.fst).Nodup :=
  (List.nodup_append.mp (h.perm.nodup_iff.mpr h.nodup)).2.1

theorem pending_mem (h : p.Exact) {e : κ × η} (he : e ∈ p.pending) : e.1 ∈ p.issued :=
  h.perm.mem_iff.mp (List.mem_append_right _ (List.mem_map_of_mem he))

theorem settled_mem (h : p.Exact) {s : κ × ω} (hs : s ∈ p.settled) : s.1 ∈ p.issued :=
  h.perm.mem_iff.mp (List.mem_append_left _ (List.mem_map_of_mem hs))

theorem key_iff_handle (h : p.Exact) {k : κ} {t : η} (hmem : (k, t) ∈ p.pending) {e : κ × η} (he : e ∈ p.pending) :
    e.1 = k ↔ e.2 = t := by
  constructor
  · intro hk
    have heq := List.inj_on_of_nodup_map h.pending_nodup he hmem hk
    exact congrArg Prod.snd heq
  · intro ht
    have heq := List.inj_on_of_nodup_map h.handles he hmem ht
    exact congrArg Prod.fst heq

theorem issue (h : p.Exact) {k : κ} {t : η} (hk : k ∉ p.issued) (ht : ∀ e ∈ p.pending, e.2 ≠ t) :
    (p.issue k t).Exact where
  nodup := h.nodup.append (List.nodup_singleton k) (by simpa using hk)
  perm := by
    show (p.settled.map Prod.fst ++ (p.pending ++ [(k, t)]).map Prod.fst).Perm (p.issued ++ [k])
    rw [List.map_append, ← List.append_assoc]
    exact h.perm.append_right _
  timers := by
    show p.timers ++ [(t, k)] = (p.pending ++ [(k, t)]).map Prod.swap
    rw [List.map_append, h.timers]
    rfl
  handles := by
    show ((p.pending ++ [(k, t)]).map Prod.snd).Nodup
    rw [List.map_append]
    refine h.handles.append (List.nodup_singleton t) ?_
    refine List.disjoint_singleton.mpr fun hmem => ?_
    obtain ⟨e, he, hte⟩ := List.mem_map.mp hmem
    exact ht e he hte

theorem refuse (h : p.Exact) {k : κ} (outcome : ω) (hk : k ∉ p.issued) : (p.refuse k outcome).Exact where
  nodup := h.nodup.append (List.nodup_singleton k) (by simpa using hk)
  perm := by
    show ((p.settled ++ [(k, outcome)]).map Prod.fst ++ p.pending.map Prod.fst).Perm (p.issued ++ [k])
    rw [List.map_append, List.append_assoc]
    refine (List.Perm.append_left _ List.perm_append_comm).trans ?_
    rw [← List.append_assoc]
    exact h.perm.append_right _
  timers := h.timers
  handles := h.handles

variable [DecidableEq κ] [DecidableEq η]

theorem settle (h : p.Exact) (hs : Settle p q) : q.Exact := by
  cases hs with
  | one k t outcome mem =>
    constructor
    case nodup => exact h.nodup
    case perm =>
      have hsplit : (p.pending.map Prod.fst).Perm (k :: (p.pending.filter (·.1 ≠ k)).map Prod.fst) := by
        have hmem : k ∈ p.pending.map Prod.fst := List.mem_map_of_mem mem
        refine (List.perm_cons_erase hmem).trans (List.Perm.cons k (.of_eq ?_))
        rw [h.pending_nodup.erase_eq_filter, List.filter_map]
        congr 1
        refine List.filter_congr fun e _ => ?_
        rw [Function.comp_apply, bne, beq_eq_decide, decide_not]
      refine List.Perm.trans ?_ h.perm
      rw [List.map_append, List.append_assoc]
      exact List.Perm.append_left _ hsplit.symm
    case timers =>
      show p.timers.filter _ = (p.pending.filter _).map Prod.swap
      rw [h.timers, List.filter_map]
      congr 1
      refine List.filter_congr fun e he => ?_
      have hiff := h.key_iff_handle mem he
      simp [hiff]
    case handles => exact h.handles.sublist (List.filter_sublist.map _)
  | all outcome =>
    refine ⟨h.nodup, ?_, ?_, List.nodup_nil⟩
    · have heq : (p.settled ++ p.pending.map fun e => (e.1, outcome)).map Prod.fst =
          p.settled.map Prod.fst ++ p.pending.map Prod.fst := by
        rw [List.map_append, List.map_map]
        rfl
      show (_ ++ []).Perm p.issued
      rw [heq, List.append_nil]
      exact h.perm
    · show p.timers.filter _ = []
      rw [h.timers, List.filter_eq_nil_iff]
      intro t ht
      obtain ⟨e, he, rfl⟩ := List.mem_map.mp ht
      simp only [Prod.fst_swap, List.all_map, List.all_eq_true, not_forall]
      exact ⟨e, he, by simp⟩

theorem settles (h : p.Exact) (hs : Relation.ReflTransGen Settle p q) : q.Exact := by
  induction hs with
  | refl => exact h
  | tail _ hlast ih => exact ih.settle hlast

omit [DecidableEq η] in
/-- Of each promise there is one entry with its timer, or one settlement. -/
theorem once (h : p.Exact) {k : κ} (hk : k ∈ p.issued) :
    (∃ t, p.pending.filter (·.1 = k) = [(k, t)] ∧ p.timers.filter (·.2 = k) = [(t, k)] ∧
        p.settled.filter (·.1 = k) = []) ∨
      p.pending.filter (·.1 = k) = [] ∧ p.timers.filter (·.2 = k) = [] ∧
        ∃ outcome, p.settled.filter (·.1 = k) = [(k, outcome)] := by
  have htimers : p.timers.filter (·.2 = k) = (p.pending.filter (·.1 = k)).map Prod.swap := by
    rw [h.timers, List.filter_map]
    rfl
  have hcount : (p.settled.filter (·.1 = k)).length + (p.pending.filter (·.1 = k)).length = 1 := by
    have hone := List.count_eq_one_of_mem h.nodup hk
    rw [← h.perm.count_eq, List.count_append] at hone
    rw [← hone]
    congr 1 <;> rw [List.count_eq_length_filter, List.filter_map, List.length_map] <;> congr
  rw [htimers]
  cases hpend : p.pending.filter (·.1 = k) with
  | nil =>
    rw [hpend] at hcount
    obtain ⟨s, hs⟩ := List.length_eq_one_iff.mp (by simpa using hcount)
    have hmem : s ∈ p.settled.filter (·.1 = k) := hs ▸ List.mem_singleton_self s
    have hkey : s.1 = k := of_decide_eq_true (List.mem_filter.mp hmem).2
    refine .inr ⟨rfl, rfl, s.2, hs.trans ?_⟩
    rw [← hkey]
  | cons e rest =>
    rw [hpend, List.length_cons] at hcount
    obtain rfl : rest = [] := List.length_eq_zero_iff.mp (by omega)
    have hnone : p.settled.filter (·.1 = k) = [] := List.length_eq_zero_iff.mp (by omega)
    have hmem : e ∈ p.pending.filter (·.1 = k) := hpend ▸ List.mem_singleton_self e
    have hkey : e.1 = k := of_decide_eq_true (List.mem_filter.mp hmem).2
    have heq : e = (k, e.2) := by rw [← hkey]
    rw [heq]
    exact .inl ⟨e.2, rfl, rfl, hnone⟩

end Exact

/-! ### What settlements leave -/

section settlements
variable [DecidableEq κ] [DecidableEq η] {p q : Promises κ η ω}

theorem Settle.issued (h : Settle p q) : q.issued = p.issued := by cases h <;> rfl

theorem Settle.settled_prefix (h : Settle p q) : p.settled <+: q.settled := by
  cases h <;> exact List.prefix_append _ _

end settlements

end Promises
end Stonemite
