import Stonemite.Lib.Reach

/-!
# Forests of parent pointers

Records that name the one they hang under. Going down from a place visits the records under it, and under those in turn, up to
some depth. What is visited from the top is what hangs from it, and once if no two records have one name.
-/

open Relation

namespace Stonemite

variable {α κ : Type}

/-- What a record is known by, and what it hangs under: another record, or the top. -/
structure Pointers (α κ : Type) where
  name : α → κ
  parent : α → Option κ

namespace Pointers
variable (F : Pointers α κ) (records : List α)

/-- One step down. -/
def Down (place place' : Option κ) : Prop := ∃ a ∈ records, F.parent a = place ∧ some (F.name a) = place'

/-- The place leads up to the top. -/
def Hangs (place : Option κ) : Prop := ReflTransGen (F.Down records) none place

section
variable [DecidableEq κ]

def children (place : Option κ) : List α := records.filter fun a => F.parent a = place

/-- The places from one on down, as far as the room goes. -/
def descend : Nat → Option κ → List (Option κ)
  | 0, _ => []
  | room + 1, place => place :: (F.children records place).flatMap fun a => descend room (some (F.name a))

/-- There is no room for what is under the place. -/
def TooDeep : Nat → Option κ → Prop
  | 0, _ => True
  | room + 1, place => ∃ a ∈ F.children records place, TooDeep room (some (F.name a))

variable {F} {records} {room : Nat} {start place : Option κ} {a : α}

theorem mem_children : a ∈ F.children records place ↔ a ∈ records ∧ F.parent a = place := by
  rw [children, List.mem_filter, decide_eq_true_iff]

theorem down_iff {place' : Option κ} :
    F.Down records place place' ↔ ∃ a ∈ F.children records place, some (F.name a) = place' := by
  simp only [Down, mem_children, and_assoc]

theorem reached_of_mem_descend (h : place ∈ F.descend records room start) : ReflTransGen (F.Down records) start place := by
  induction room generalizing start with
  | zero => cases h
  | succ room ih =>
    rw [descend, List.mem_cons, List.mem_flatMap] at h
    rcases h with rfl | ⟨a, ha, h⟩
    · exact .refl
    · exact .head (down_iff.mpr ⟨a, ha, rfl⟩) (ih h)

/-- With room for everything, what is visited is what is under the start. -/
theorem mem_descend (hroom : ¬ F.TooDeep records room start) :
    place ∈ F.descend records room start ↔ ReflTransGen (F.Down records) start place := by
  refine ⟨reached_of_mem_descend, fun h => ?_⟩
  induction room generalizing start with
  | zero => exact absurd trivial hroom
  | succ room ih =>
    rw [descend, List.mem_cons, List.mem_flatMap]
    rcases h.cases_head with rfl | ⟨place', hdown, h⟩
    · exact .inl rfl
    · obtain ⟨a, ha, rfl⟩ := down_iff.mp hdown
      exact .inr ⟨a, ha, ih (fun hdeep => hroom ⟨a, ha, hdeep⟩) h⟩

end

/-! ### Distinct names -/

section
variable {F} {records} {start place place' : Option κ}

theorem Down.unique (hnames : (records.map F.name).Nodup) {above above' : Option κ} (h : F.Down records above place)
    (h' : F.Down records above' place) : above = above' := by
  obtain ⟨a, ha, rfl, hname⟩ := h
  obtain ⟨b, hb, rfl, hname'⟩ := h'
  have hab : a = b := List.inj_on_of_nodup_map hnames ha hb (Option.some.inj (hname.trans hname'.symm))
  rw [hab]

theorem Hangs.not_under (hnames : (records.map F.name).Nodup) (h : F.Hangs records place) :
    ¬ TransGen (F.Down records) place place := by
  induction h with
  | refl =>
    intro hcycle
    obtain ⟨_, -, _, -, -, hname⟩ := TransGen.tail'_iff.mp hcycle
    cases hname
  | tail _ hdown ih =>
    intro hcycle
    obtain ⟨above, hreach, hlast⟩ := TransGen.tail'_iff.mp hcycle
    rw [hlast.unique hnames hdown] at hreach
    exact ih (.head' hdown hreach)

theorem under_or_under (hnames : (records.map F.name).Nodup) (h : ReflTransGen (F.Down records) start place')
    (h' : ReflTransGen (F.Down records) place place') :
    ReflTransGen (F.Down records) start place ∨ ReflTransGen (F.Down records) place start := by
  induction h generalizing place with
  | refl => exact .inr h'
  | tail hstart hdown ih =>
    rcases h'.cases_tail with rfl | ⟨above, hplace, hdown'⟩
    · exact .inl (hstart.tail hdown)
    · rw [hdown'.unique hnames hdown] at hplace
      exact ih hplace

variable [DecidableEq κ]

theorem Hangs.nodup_descend (hnames : (records.map F.name).Nodup) (h : F.Hangs records start) (room : Nat) :
    (F.descend records room start).Nodup := by
  induction room generalizing start with
  | zero => exact List.nodup_nil
  | succ room ih =>
    have hdown {a : α} (ha : a ∈ F.children records start) : F.Down records start (some (F.name a)) := down_iff.mpr ⟨a, ha, rfl⟩
    have hback {a : α} (ha : a ∈ F.children records start) :
        ¬ ReflTransGen (F.Down records) (some (F.name a)) start := fun hreach => h.not_under hnames (.head' (hdown ha) hreach)
    rw [descend, List.nodup_cons, List.nodup_flatMap]
    refine ⟨fun hmem => ?_, fun a ha => ih (ReflTransGen.tail h (hdown ha)), ?_⟩
    · obtain ⟨a, ha, hmem⟩ := List.mem_flatMap.mp hmem
      exact hback ha (reached_of_mem_descend hmem)
    · have hsiblings : (F.children records start).Pairwise fun a b => F.name a ≠ F.name b :=
        (List.pairwise_map.mp hnames).filter _
      refine (List.Pairwise.and_mem.mp hsiblings).imp fun {a b} ⟨ha, hb, hne⟩ place hplace hplace' => ?_
      -- the ways up from a common place meet below the start, where one sibling is under the other
      have hunder {a b : α} (ha : a ∈ F.children records start) (hb : b ∈ F.children records start) (hne : F.name a ≠ F.name b) :
          ¬ ReflTransGen (F.Down records) (some (F.name a)) (some (F.name b)) := by
        intro hreach
        rcases hreach.cases_tail with heq | ⟨above, hreach, hlast⟩
        · exact hne (Option.some.inj heq).symm
        · rw [hlast.unique hnames (hdown hb)] at hreach
          exact hback ha hreach
      rcases under_or_under hnames (reached_of_mem_descend hplace) (reached_of_mem_descend hplace') with hreach | hreach
      · exact hunder ha hb hne hreach
      · exact hunder hb ha hne.symm hreach

theorem count_descend_le_one [BEq (Option κ)] [LawfulBEq (Option κ)] (hnames : (records.map F.name).Nodup) (room : Nat) (place : Option κ) :
    (F.descend records room none).count place ≤ 1 :=
  List.nodup_iff_count_le_one.mp (Hangs.nodup_descend hnames .refl room) place

end

end Pointers

/-! ### What hangs at the places -/

section
variable {β : Type} [DecidableEq κ] [BEq κ] [LawfulBEq κ] {home : β → κ} {l : List β} {places : List κ}

/-- What is gathered from some places: each element as often as its home is visited. -/
theorem count_flatMap_filter [DecidableEq β] (b : β) :
    (places.flatMap fun place => l.filter fun x => home x = place).count b = places.count (home b) * l.count b := by
  induction places with
  | nil => rw [List.flatMap_nil, List.count_nil, List.count_nil, Nat.zero_mul]
  | cons place places ih =>
    rw [List.flatMap_cons, List.count_append, ih, List.count_cons]
    by_cases hplace : home b = place
    · rw [List.count_filter (by simpa using hplace), if_pos (by simpa using hplace.symm), Nat.add_one_mul, Nat.add_comm]
    · rw [if_neg (by simpa using Ne.symm hplace), List.count_eq_zero_of_not_mem fun h => hplace (by simpa using (List.mem_filter.mp h).2),
        Nat.zero_add, Nat.add_zero]

/-- No element comes more often than it is there, when no home is visited twice. -/
theorem flatMap_filter_subperm_iff : (places.flatMap fun place => l.filter fun x => home x = place).Subperm l ↔
    ∀ b ∈ l, places.count (home b) ≤ 1 := by
  classical
  simp only [List.subperm_iff_count, count_flatMap_filter]
  constructor
  · intro h b hb
    exact Nat.le_of_mul_le_mul_right ((h b).trans_eq (Nat.one_mul _).symm) (List.count_pos_iff.mpr hb)
  · intro h b
    by_cases hb : b ∈ l
    · exact (Nat.mul_le_mul_right _ (h b hb)).trans_eq (Nat.one_mul _)
    · rw [List.count_eq_zero_of_not_mem hb, Nat.mul_zero]

/-- All elements come, each as often as it is there, when every home is visited once. -/
theorem flatMap_filter_perm_iff : (places.flatMap fun place => l.filter fun x => home x = place).Perm l ↔
    ∀ b ∈ l, places.count (home b) = 1 := by
  classical
  simp only [List.perm_iff_count, count_flatMap_filter]
  constructor
  · intro h b hb
    exact Nat.eq_of_mul_eq_mul_right (List.count_pos_iff.mpr hb) ((h b).trans (Nat.one_mul _).symm)
  · intro h b
    by_cases hb : b ∈ l
    · rw [h b hb, Nat.one_mul]
    · rw [List.count_eq_zero_of_not_mem hb, Nat.mul_zero]

end

end Stonemite
