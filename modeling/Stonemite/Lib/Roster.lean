import Mathlib

/-!
# Rosters

Numbered instances of values that are opened, marked once, replaced, or retired and then closed. An opening replaces some of
the live instances; after the close of an instance it may open another one of the same root, of the next rank and within the
limit. Whatever the order: an instance is opened, marked at most once and closed or replaced at most once, with nothing after
(`Lifespans`), and a root is continued no more often than its limit (`Lineages`).
-/

namespace Stonemite

/-- What the instances of a roster are at first, and how they are marked and ranked. -/
structure Rules (α : Type) where
  fresh : α → Prop
  mark : α → α
  marked : α → Bool
  rank : α → Nat
  limit : α → Nat
  marked_fresh : ∀ a, fresh a → marked a = false
  marked_mark : ∀ a, marked (mark a) = true
  rank_mark : ∀ a, rank (mark a) = rank a
  limit_mark : ∀ a, limit (mark a) = limit a

/-- An opened value with its number and that of the first instance it continues. -/
structure Instance (α : Type) where
  id : Nat
  root : Nat
  value : α

/-- The live instances, those retired but not closed, the last closed one and all that were opened. -/
structure Roster (α : Type) where
  live : List (Instance α)
  due : List (Instance α)
  last : Option (Instance α)
  opened : List (Instance α)

/-- What is done to instances: an opening may continue a root, replace some and open one. -/
inductive Note
  | fired (again : Option Nat) (replaced : List Nat) (opened : Option Nat)
  | marked (id : Nat)
  | closed (id : Nat) (early : Bool)
deriving DecidableEq, Repr

/-- What happens to one instance. -/
inductive Happening
  | opened
  | marked
  | closed (early : Bool)
  | replaced
deriving DecidableEq, Repr

namespace Note

/-- What a note tells of one instance. -/
def life (id : Nat) : Note → List Happening
  | .fired _ replaced opened => (if id ∈ replaced then [.replaced] else []) ++ if opened = some id then [.opened] else []
  | .marked i => if i = id then [.marked] else []
  | .closed i early => if i = id then [.closed early] else []

/-- The note continues the root. -/
def continues (root : Nat) : Note → Bool
  | .fired (some again) _ _ => again == root
  | _ => false

end Note

/-- What happened to the instance, in order. -/
def life (id : Nat) (log : List Note) : List Happening := log.flatMap (Note.life id)

/-- How often the root was continued. -/
def continued (root : Nat) (log : List Note) : Nat := log.countP (Note.continues root)

theorem life_append (id : Nat) (log : List Note) (note : Note) : life id (log ++ [note]) = life id log ++ note.life id := by
  rw [life, List.flatMap_append, List.flatMap_singleton]
  rfl

theorem continued_append (root : Nat) (log : List Note) (note : Note) :
    continued root (log ++ [note]) = continued root log + if note.continues root then 1 else 0 := by
  rw [continued, List.countP_append, List.countP_singleton]
  rfl

namespace Happening

/-- The life of an instance that is not over. -/
def running (marked : Bool) : List Happening := if marked then [opened, .marked] else [opened]

/-- The instance is gone after it. -/
def final : Happening → Bool
  | .closed _ | .replaced => true
  | _ => false

end Happening

/-- Opened, marked at most once, ended at most once, and nothing after. -/
inductive Lifecycle : List Happening → Prop
  | unborn : Lifecycle []
  | running (marked : Bool) : Lifecycle (Happening.running marked)
  | over (marked : Bool) (last : Happening) (h : last.final = true) : Lifecycle (Happening.running marked ++ [last])

namespace Roster
variable {α : Type}

/-- The number of the next instance. -/
def next (r : Roster α) : Nat := r.opened.length

/-- The live instances that are not kept. -/
def dropped (r : Roster α) (keep : Instance α → Bool) : List Nat := (r.live.filter fun i => !keep i).map (·.id)

/-- Some instances stay, and perhaps a new one is opened. -/
def enter (r : Roster α) (keep : Instance α → Bool) (new : Option (Instance α)) : Roster α where
  live := r.live.filter keep ++ new.toList
  due := r.due
  last := none
  opened := r.opened ++ new.toList

variable (R : Rules α)

/-- A step with the note it leaves. -/
inductive Step : Roster α → Note → Roster α → Prop
  | fire (r : Roster α) (keep : Instance α → Bool) (new : Option α) (h : ∀ a ∈ new, R.fresh a ∧ R.rank a = 0) :
    Step r (.fired none (r.dropped keep) (new.map fun _ => r.next)) (r.enter keep (new.map fun a => ⟨r.next, r.next, a⟩))
  | again (r : Roster α) (keep : Instance α → Bool) (new : Option α) (parent : Instance α) (last : r.last = some parent)
    (rank : R.rank parent.value < R.limit parent.value)
    (h : ∀ a ∈ new, R.fresh a ∧ R.rank a = R.rank parent.value + 1 ∧ R.limit a = R.limit parent.value) :
    Step r (.fired (some parent.root) (r.dropped keep) (new.map fun _ => r.next))
      (r.enter keep (new.map fun a => ⟨r.next, parent.root, a⟩))
  | mark (r : Roster α) (pre post : List (Instance α)) (i : Instance α) (live : r.live = pre ++ i :: post)
    (h : R.marked i.value = false) :
    Step r (.marked i.id) { r with live := pre ++ { i with value := R.mark i.value } :: post }
  | close (r : Roster α) (rest : List (Instance α)) (i : Instance α) (due : r.due = i :: rest) (early : Bool) :
    Step r (.closed i.id early) { r with due := rest, last := if early then none else some i }

/-- Steps with the notes they leave; between them instances retire, or all of them are forgotten. -/
inductive Steps : Roster α → List Note → Roster α → Prop
  | nil (r : Roster α) : Steps r [] r
  | note {r r' r'' : Roster α} {log : List Note} {note : Note} (h : Steps r log r') (step : Step R r' note r'') :
    Steps r (log ++ [note]) r''
  | retire {r r' : Roster α} {log : List Note} (h : Steps r log r') (keep : Instance α → Bool) :
    Steps r log { r' with live := r'.live.filter keep, due := r'.due ++ r'.live.filter fun i => !keep i }
  | forget {r r' : Roster α} {log : List Note} (h : Steps r log r') : Steps r log ⟨[], [], none, r'.opened⟩

def empty : Roster α := ⟨[], [], none, []⟩

theorem Steps.trans {r r' r'' : Roster α} {log log' : List Note} (h : Steps R r log r') (h' : Steps R r' log' r'') :
    Steps R r (log ++ log') r'' := by
  induction h' with
  | nil => rwa [List.append_nil]
  | note _ step ih =>
    rw [← List.append_assoc]
    exact ih.note step
  | retire _ keep ih => exact ih.retire keep
  | forget _ ih => exact ih.forget

/-! ### Lives -/

/-- What happened to the instances. -/
structure Lifespans (log : List Note) (r : Roster α) : Prop where
  nodup : ((r.live ++ r.due).map (·.id)).Nodup
  id_lt : ∀ i ∈ r.live ++ r.due, i.id < r.next
  running : ∀ i ∈ r.live ++ r.due, life i.id log = Happening.running (R.marked i.value)
  unborn : ∀ id, r.next ≤ id → life id log = []
  lifecycle : ∀ id, Lifecycle (life id log)

namespace Lifespans
variable {R} {log : List Note} {r : Roster α}

theorem empty : Lifespans R [] (Roster.empty : Roster α) where
  nodup := List.nodup_nil
  id_lt := nofun
  running := nofun
  unborn _ _ := rfl
  lifecycle _ := .unborn

theorem sublist (h : Lifespans R log r) {r' : Roster α} (hsub : ∀ i ∈ r'.live ++ r'.due, i ∈ r.live ++ r.due)
    (hnodup : ((r'.live ++ r'.due).map (·.id)).Nodup) (hopened : r'.opened = r.opened) : Lifespans R log r' where
  nodup := hnodup
  id_lt i hi := by
    rw [next, hopened]
    exact h.id_lt i (hsub i hi)
  running i hi := h.running i (hsub i hi)
  unborn id hid := by
    rw [next, hopened] at hid
    exact h.unborn id hid
  lifecycle := h.lifecycle

theorem eq_of_id (h : Lifespans R log r) {i j : Instance α} (hi : i ∈ r.live ++ r.due) (hj : j ∈ r.live ++ r.due)
    (hid : i.id = j.id) : i = j :=
  List.inj_on_of_nodup_map h.nodup hi hj hid

theorem notMem_due (h : Lifespans R log r) {i : Instance α} (hi : i ∈ r.live) : i ∉ r.due := by
  have hnodup := h.nodup
  rw [List.map_append] at hnodup
  exact fun hdue => List.disjoint_of_nodup_append hnodup (List.mem_map_of_mem hi) (List.mem_map_of_mem hdue)

section
variable (h : Lifespans R log r) (keep : Instance α → Bool)
include h

/-- The numbers an opening replaces are those of the live instances that it does not keep. -/
theorem mem_dropped {i : Instance α} (hi : i ∈ r.live ++ r.due) : i.id ∈ r.dropped keep ↔ i ∈ r.live ∧ keep i = false := by
  rw [dropped, List.mem_map]
  constructor
  · rintro ⟨j, hj, hid⟩
    obtain ⟨hlive, hkeep⟩ := List.mem_filter.mp hj
    obtain rfl := h.eq_of_id (List.mem_append_left _ hlive) hi hid
    exact ⟨hlive, by simpa using hkeep⟩
  · rintro ⟨hlive, hkeep⟩
    exact ⟨i, List.mem_filter.mpr ⟨hlive, by simpa using hkeep⟩, rfl⟩

theorem lt_of_mem_dropped {id : Nat} (hid : id ∈ r.dropped keep) : id < r.next := by
  obtain ⟨j, hj, rfl⟩ := List.mem_map.mp hid
  exact h.id_lt j (List.mem_append_left _ (List.mem_of_mem_filter hj))

/-- An instance that stays after an opening was there before and is kept. -/
theorem kept_of_mem {i : Instance α} (hi : i ∈ r.live.filter keep ++ r.due) :
    i ∈ r.live ++ r.due ∧ i.id ∉ r.dropped keep := by
  have hbefore : i ∈ r.live ++ r.due := by
    rcases List.mem_append.mp hi with hlive | hdue
    · exact List.mem_append_left _ (List.mem_of_mem_filter hlive)
    · exact List.mem_append_right _ hdue
  refine ⟨hbefore, fun hdropped => ?_⟩
  obtain ⟨hlive, hkeep⟩ := (h.mem_dropped keep hbefore).mp hdropped
  rcases List.mem_append.mp hi with hkept | hdue
  · rw [List.of_mem_filter hkept] at hkeep
    cases hkeep
  · exact h.notMem_due hlive hdue

theorem nodup_enter (new : Option (Instance α)) (hnew : ∀ i ∈ new, i.id = r.next) :
    (((r.enter keep new).live ++ r.due).map (·.id)).Nodup := by
  have hold : ((r.live.filter keep ++ r.due).map (·.id)).Nodup :=
    h.nodup.sublist ((List.filter_sublist.append_right r.due).map _)
  cases new with
  | none =>
    rw [Roster.enter, Option.toList_none, List.append_nil]
    exact hold
  | some i =>
    have hperm : ((r.live.filter keep ++ [i]) ++ r.due).Perm (i :: (r.live.filter keep ++ r.due)) := by
      rw [List.append_assoc]
      exact List.perm_middle
    rw [Roster.enter, Option.toList_some, (hperm.map _).nodup_iff, List.map_cons, List.nodup_cons]
    refine ⟨fun hmem => ?_, hold⟩
    obtain ⟨j, hj, hid⟩ := List.mem_map.mp hmem
    have hlt := h.id_lt j (h.kept_of_mem keep hj).1
    rw [hid, hnew i rfl] at hlt
    exact Nat.lt_irrefl _ hlt

theorem enter (again : Option Nat) (root : Nat) (new : Option α) (hnew : ∀ a ∈ new, R.fresh a) :
    Lifespans R (log ++ [Note.fired again (r.dropped keep) (new.map fun _ => r.next)])
      (r.enter keep (new.map fun a => ⟨r.next, root, a⟩)) := by
  have hmem {i : Instance α} (hi : i ∈ (r.enter keep (new.map fun a => ⟨r.next, root, a⟩)).live ++ r.due) :
      i ∈ r.live.filter keep ++ r.due ∨ ∃ a ∈ new, i = ⟨r.next, root, a⟩ := by
    rcases List.mem_append.mp hi with hlive | hdue
    · rcases List.mem_append.mp hlive with hold | hfresh
      · exact .inl (List.mem_append_left _ hold)
      · obtain ⟨a, ha, rfl⟩ := Option.map_eq_some_iff.mp (Option.mem_toList.mp hfresh)
        exact .inr ⟨a, ha, rfl⟩
    · exact .inl (List.mem_append_right _ hdue)
  have hnext : r.next ≤ (r.enter keep (new.map fun a => ⟨r.next, root, a⟩)).next := by
    rw [next, next, Roster.enter, List.length_append]
    exact Nat.le_add_right _ _
  have hquiet (id : Nat) (hdropped : id ∉ r.dropped keep) (hopened : new = none ∨ id ≠ r.next) :
      life id (log ++ [Note.fired again (r.dropped keep) (new.map fun _ => r.next)]) = life id log := by
    have hnot : (new.map fun _ => r.next) ≠ some id := by
      rcases hopened with rfl | hne
      · nofun
      · intro hsome
        obtain ⟨a, -, hid⟩ := Option.map_eq_some_iff.mp hsome
        exact hne hid.symm
    rw [life_append, Note.life, if_neg hdropped, if_neg hnot]
    exact List.append_nil _
  have hborn (a : α) (ha : new = some a) :
      life r.next (log ++ [Note.fired again (r.dropped keep) (new.map fun _ => r.next)]) = [.opened] := by
    have hnot : r.next ∉ r.dropped keep := fun hdropped => Nat.lt_irrefl _ (h.lt_of_mem_dropped keep hdropped)
    have hopened : (new.map fun _ => r.next) = some r.next := by rw [ha, Option.map_some]
    rw [life_append, h.unborn _ le_rfl, Note.life, if_neg hnot, if_pos hopened]
    rfl
  refine ⟨h.nodup_enter keep _ fun i hi => ?_, fun i hi => ?_, fun i hi => ?_, fun id hid => ?_, fun id => ?_⟩
  · obtain ⟨a, -, rfl⟩ := Option.map_eq_some_iff.mp hi
    rfl
  · rcases hmem hi with hold | ⟨a, ha, rfl⟩
    · exact (h.id_lt i (h.kept_of_mem keep hold).1).trans_le hnext
    · obtain rfl := ha
      show r.next < (r.opened ++ [_]).length
      rw [List.length_append]
      exact Nat.lt_succ_self _
  · rcases hmem hi with hold | ⟨a, ha, rfl⟩
    · obtain ⟨hbefore, hdropped⟩ := h.kept_of_mem keep hold
      rw [hquiet i.id hdropped (.inr (h.id_lt i hbefore).ne)]
      exact h.running i hbefore
    · rw [hborn a ha, R.marked_fresh a (hnew a ha)]
      rfl
  · have hdropped : id ∉ r.dropped keep := fun hmem => by
      have hlt := h.lt_of_mem_dropped keep hmem
      omega
    have hopened : new = none ∨ id ≠ r.next := by
      cases new with
      | none => exact .inl rfl
      | some a =>
        have hlen : (r.enter keep (some ⟨r.next, root, a⟩)).next = r.next + 1 := List.length_append
        rw [Option.map_some, hlen] at hid
        exact .inr (by omega)
    rw [hquiet id hdropped hopened]
    exact h.unborn id (hnext.trans hid)
  · by_cases hdropped : id ∈ r.dropped keep
    · obtain ⟨j, hj, rfl⟩ := List.mem_map.mp hdropped
      have hlive : j ∈ r.live ++ r.due := List.mem_append_left _ (List.mem_of_mem_filter hj)
      have hnot : (new.map fun _ => r.next) ≠ some j.id := by
        intro hsome
        obtain ⟨a, -, hid⟩ := Option.map_eq_some_iff.mp hsome
        exact (h.id_lt j hlive).ne hid.symm
      rw [life_append, h.running j hlive, Note.life, if_pos hdropped, if_neg hnot]
      exact .over _ .replaced rfl
    · by_cases hopened : new = none ∨ id ≠ r.next
      · rw [hquiet id hdropped hopened]
        exact h.lifecycle id
      · obtain ⟨hsome, hid⟩ := not_or.mp hopened
        obtain ⟨a, ha⟩ := Option.ne_none_iff_exists'.mp hsome
        obtain rfl := not_not.mp hid
        rw [hborn a ha]
        exact .running false

omit keep

theorem others {i : Instance α} {others : List (Instance α)} (hperm : (r.live ++ r.due).Perm (i :: others)) {j : Instance α}
    (hj : j ∈ others) : j ∈ r.live ++ r.due ∧ j.id ≠ i.id := by
  have hnodup := (hperm.map (·.id)).nodup_iff.mp h.nodup
  rw [List.map_cons, List.nodup_cons] at hnodup
  exact ⟨hperm.mem_iff.mpr (List.mem_cons_of_mem _ hj), fun hid => hnodup.1 (hid ▸ List.mem_map_of_mem hj)⟩

theorem mark (pre post : List (Instance α)) (i : Instance α) (hlive : r.live = pre ++ i :: post)
    (hmarked : R.marked i.value = false) :
    Lifespans R (log ++ [Note.marked i.id]) { r with live := pre ++ { i with value := R.mark i.value } :: post } := by
  have hperm : (r.live ++ r.due).Perm (i :: (pre ++ post ++ r.due)) := by
    rw [hlive, ← List.cons_append]
    exact List.perm_middle.append_right r.due
  have hi : i ∈ r.live ++ r.due := hperm.mem_iff.mpr List.mem_cons_self
  have hother (id : Nat) (hne : id ≠ i.id) : life id (log ++ [Note.marked i.id]) = life id log := by
    rw [life_append, Note.life, if_neg hne.symm, List.append_nil]
  have hself : life i.id (log ++ [Note.marked i.id]) = Happening.running true := by
    rw [life_append, h.running i hi, hmarked, Note.life, if_pos rfl]
    rfl
  have hmem {j : Instance α} (hj : j ∈ (pre ++ { i with value := R.mark i.value } :: post) ++ r.due) :
      j = { i with value := R.mark i.value } ∨ j ∈ pre ++ post ++ r.due := by
    have hperm' : ((pre ++ { i with value := R.mark i.value } :: post) ++ r.due).Perm
        ({ i with value := R.mark i.value } :: (pre ++ post ++ r.due)) := by
      rw [← List.cons_append]
      exact List.perm_middle.append_right r.due
    exact List.mem_cons.mp (hperm'.mem_iff.mp hj)
  refine ⟨?_, fun j hj => ?_, fun j hj => ?_, fun id hid => ?_, fun id => ?_⟩
  · have hids : ((pre ++ { i with value := R.mark i.value } :: post) ++ r.due).map (·.id) = (r.live ++ r.due).map (·.id) := by
      rw [hlive]
      simp only [List.map_append, List.map_cons]
    rw [hids]
    exact h.nodup
  · rcases hmem hj with rfl | hj
    · exact h.id_lt i hi
    · exact h.id_lt j (h.others hperm hj).1
  · rcases hmem hj with rfl | hj
    · exact hself.trans (congrArg Happening.running (R.marked_mark i.value).symm)
    · obtain ⟨hbefore, hne⟩ := h.others hperm hj
      rw [hother j.id hne]
      exact h.running j hbefore
  · have hne : id ≠ i.id := fun heq => absurd (h.id_lt i hi) (Nat.not_lt.mpr (heq ▸ hid))
    rw [hother id hne]
    exact h.unborn id hid
  · by_cases hid : id = i.id
    · rw [hid, hself]
      exact .running true
    · rw [hother id hid]
      exact h.lifecycle id

theorem close (rest : List (Instance α)) (i : Instance α) (hdue : r.due = i :: rest) (early : Bool) :
    Lifespans R (log ++ [Note.closed i.id early]) { r with due := rest, last := if early then none else some i } := by
  have hperm : (r.live ++ r.due).Perm (i :: (r.live ++ rest)) := by
    rw [hdue]
    exact List.perm_middle
  have hi : i ∈ r.live ++ r.due := hperm.mem_iff.mpr List.mem_cons_self
  have hother (id : Nat) (hne : id ≠ i.id) : life id (log ++ [Note.closed i.id early]) = life id log := by
    rw [life_append, Note.life, if_neg hne.symm, List.append_nil]
  refine ⟨?_, fun j hj => h.id_lt j (h.others hperm hj).1, fun j hj => ?_, fun id hid => ?_, fun id => ?_⟩
  · have hnodup := (hperm.map (·.id)).nodup_iff.mp h.nodup
    exact (List.nodup_cons.mp hnodup).2
  · obtain ⟨hbefore, hne⟩ := h.others hperm hj
    rw [hother j.id hne]
    exact h.running j hbefore
  · have hne : id ≠ i.id := fun heq => absurd (h.id_lt i hi) (Nat.not_lt.mpr (heq ▸ hid))
    rw [hother id hne]
    exact h.unborn id hid
  · by_cases hid : id = i.id
    · rw [hid, life_append, h.running i hi, Note.life, if_pos rfl]
      exact .over _ (.closed early) rfl
    · rw [hother id hid]
      exact h.lifecycle id

end

theorem step (h : Lifespans R log r) {note : Note} {r' : Roster α} (hstep : Step R r note r') :
    Lifespans R (log ++ [note]) r' := by
  cases hstep with
  | fire keep new hnew => exact h.enter keep none r.next new fun a ha => (hnew a ha).1
  | again keep new parent last rank hnew => exact h.enter keep (some parent.root) parent.root new fun a ha => (hnew a ha).1
  | mark pre post i live hmarked => exact h.mark pre post i live hmarked
  | close rest i due early => exact h.close rest i due early

theorem steps {r' : Roster α} {log' : List Note} (h : Lifespans R log r) (hsteps : Steps R r log' r') :
    Lifespans R (log ++ log') r' := by
  induction hsteps with
  | nil => rwa [List.append_nil]
  | note _ hstep ih =>
    rw [← List.append_assoc]
    exact ih.step hstep
  | @retire r' _ _ keep ih =>
    have hperm : (r'.live.filter keep ++ (r'.due ++ r'.live.filter fun i => !keep i)).Perm (r'.live ++ r'.due) := by
      have hsplit := List.filter_append_perm keep r'.live
      exact (List.perm_append_comm_assoc _ _ _).trans ((hsplit.append_left r'.due).trans List.perm_append_comm)
    exact ih.sublist (fun i hi => hperm.mem_iff.mp hi) ((hperm.map _).nodup_iff.mpr ih.nodup) rfl
  | forget _ ih => exact ih.sublist nofun List.nodup_nil rfl

end Lifespans

/-! ### Lineages -/

/-- The instances that a root may still be continued from. -/
def active (r : Roster α) : List (Instance α) := r.live ++ r.due ++ r.last.toList

/-- How often the roots were continued. -/
structure Lineages (log : List Note) (r : Roster α) : Prop where
  nodup : (r.active.map (·.root)).Nodup
  rank : ∀ i ∈ r.active, continued i.root log = R.rank i.value
  same : ∀ i ∈ r.active, ∀ j ∈ r.opened, j.root = i.root → R.limit j.value = R.limit i.value
  root_lt : ∀ i ∈ r.active ++ r.opened, i.root < r.next
  limit : ∀ i ∈ r.opened, continued i.root log ≤ R.limit i.value
  unborn : ∀ root, r.next ≤ root → continued root log = 0

namespace Lineages
variable {R} {log : List Note} {r r' : Roster α}

theorem empty : Lineages R [] (Roster.empty : Roster α) where
  nodup := List.nodup_nil
  rank := nofun
  same := nofun
  root_lt := nofun
  limit := nofun
  unborn _ _ := rfl

/-- Nothing is opened or continued, and the active instances are some of those before, up to marks. -/
theorem relist (h : Lineages R log r) {log' : List Note} (hlog : ∀ root, continued root log' = continued root log)
    (hopened : r'.opened = r.opened) (hnodup : (r'.active.map (·.root)).Nodup)
    (hmem : ∀ i ∈ r'.active, ∃ j ∈ r.active, j.root = i.root ∧ R.rank j.value = R.rank i.value ∧
      R.limit j.value = R.limit i.value) : Lineages R log' r' := by
  refine ⟨hnodup, fun i hi => ?_, fun i hi k hk hroot => ?_, fun i hi => ?_, fun i hi => ?_, fun root hroot => ?_⟩
  · obtain ⟨j, hj, hroot, hrank, -⟩ := hmem i hi
    rw [hlog, ← hroot, ← hrank]
    exact h.rank j hj
  · obtain ⟨j, hj, hroot', -, hlimit⟩ := hmem i hi
    rw [← hlimit]
    exact h.same j hj k (hopened ▸ hk) (hroot.trans hroot'.symm)
  · rw [next, hopened]
    rcases List.mem_append.mp hi with hi | hi
    · obtain ⟨j, hj, hroot, -⟩ := hmem i hi
      rw [← hroot]
      exact h.root_lt j (List.mem_append_left _ hj)
    · exact h.root_lt i (List.mem_append_right _ (hopened ▸ hi))
  · rw [hlog]
    exact h.limit i (hopened ▸ hi)
  · rw [hlog]
    rw [next, hopened] at hroot
    exact h.unborn root hroot

theorem sublist (h : Lineages R log r) {log' : List Note} (hlog : ∀ root, continued root log' = continued root log)
    (hopened : r'.opened = r.opened) (hsub : r'.active.Subperm r.active) : Lineages R log' r' := by
  refine h.relist hlog hopened ?_ fun i hi => ⟨i, hsub.subset hi, rfl, rfl, rfl⟩
  obtain ⟨l, hperm, hl⟩ := hsub
  exact (hperm.map _).nodup_iff.mp (h.nodup.sublist (hl.map _))

/-- An opening of the root, which is new or that of the last closed instance. -/
theorem enter (h : Lineages R log r) {log' : List Note} (keep : Instance α → Bool) (root : Nat) (new : Option α)
    (hroot : root ≤ r.next) (hfree : ∀ i ∈ r.live ++ r.due, i.root ≠ root)
    (hother : ∀ root', root' ≠ root → continued root' log' = continued root' log)
    (hunborn : ∀ root', r.next ≤ root' → continued root' log' = 0)
    (hlimit : ∀ j ∈ r.opened, j.root = root → continued root log' ≤ R.limit j.value)
    (hnew : ∀ a ∈ new, continued root log' = R.rank a ∧ R.rank a ≤ R.limit a ∧
      ∀ j ∈ r.opened, j.root = root → R.limit j.value = R.limit a) :
    Lineages R log' (r.enter keep (new.map fun a => ⟨r.next, root, a⟩)) := by
  have hactive : (r.enter keep (new.map fun a => ⟨r.next, root, a⟩)).active =
      r.live.filter keep ++ (new.map fun a => (⟨r.next, root, a⟩ : Instance α)).toList ++ r.due :=
    List.append_nil _
  have hold {i : Instance α} (hi : i ∈ r.live.filter keep ++ r.due) : i ∈ r.live ++ r.due ∧ i ∈ r.active := by
    have hbefore : i ∈ r.live ++ r.due := by
      rcases List.mem_append.mp hi with hlive | hdue
      · exact List.mem_append_left _ (List.mem_of_mem_filter hlive)
      · exact List.mem_append_right _ hdue
    exact ⟨hbefore, List.mem_append_left _ hbefore⟩
  have hmem {i : Instance α} (hi : i ∈ (r.enter keep (new.map fun a => ⟨r.next, root, a⟩)).active) :
      i ∈ r.live.filter keep ++ r.due ∨ ∃ a ∈ new, i = ⟨r.next, root, a⟩ := by
    rw [hactive] at hi
    rcases List.mem_append.mp hi with hlive | hdue
    · rcases List.mem_append.mp hlive with hkept | hfresh
      · exact .inl (List.mem_append_left _ hkept)
      · obtain ⟨a, ha, rfl⟩ := Option.map_eq_some_iff.mp (Option.mem_toList.mp hfresh)
        exact .inr ⟨a, ha, rfl⟩
    · exact .inl (List.mem_append_right _ hdue)
  have hmemOpened {i : Instance α} (hi : i ∈ (r.enter keep (new.map fun a => ⟨r.next, root, a⟩)).opened) :
      i ∈ r.opened ∨ ∃ a ∈ new, i = ⟨r.next, root, a⟩ := by
    rcases List.mem_append.mp hi with hbefore | hfresh
    · exact .inl hbefore
    · obtain ⟨a, ha, rfl⟩ := Option.map_eq_some_iff.mp (Option.mem_toList.mp hfresh)
      exact .inr ⟨a, ha, rfl⟩
  have hnext : r.next ≤ (r.enter keep (new.map fun a => ⟨r.next, root, a⟩)).next := by
    rw [next, next, Roster.enter, List.length_append]
    exact Nat.le_add_right _ _
  have hborn (a : α) (ha : a ∈ new) : root < (r.enter keep (new.map fun a => ⟨r.next, root, a⟩)).next := by
    obtain rfl := ha
    show root < (r.opened ++ [_]).length
    rw [List.length_append]
    exact Nat.lt_succ_of_le hroot
  refine ⟨?_, fun i hi => ?_, fun i hi j hj hij => ?_, fun i hi => ?_, fun i hi => ?_, fun root' hroot' => ?_⟩
  · have hkept : ((r.live.filter keep ++ r.due).map (·.root)).Nodup :=
      h.nodup.sublist (((List.filter_sublist.append_right r.due).trans (List.sublist_append_left _ _)).map _)
    rw [hactive]
    cases new with
    | none =>
      rw [Option.map_none, Option.toList_none, List.append_nil]
      exact hkept
    | some a =>
      have hperm : ((r.live.filter keep ++ [(⟨r.next, root, a⟩ : Instance α)]) ++ r.due).Perm
          ((⟨r.next, root, a⟩ : Instance α) :: (r.live.filter keep ++ r.due)) := by
        rw [List.append_assoc]
        exact List.perm_middle
      rw [Option.map_some, Option.toList_some, (hperm.map _).nodup_iff, List.map_cons, List.nodup_cons]
      refine ⟨fun hmem' => ?_, hkept⟩
      obtain ⟨j, hj, hjroot⟩ := List.mem_map.mp hmem'
      exact hfree j (hold hj).1 hjroot
  · rcases hmem hi with hi | ⟨a, ha, rfl⟩
    · rw [hother i.root (hfree i (hold hi).1)]
      exact h.rank i (hold hi).2
    · exact (hnew a ha).1
  · rcases hmem hi with hi | ⟨a, ha, rfl⟩
    · rcases hmemOpened hj with hj | ⟨b, hb, rfl⟩
      · exact h.same i (hold hi).2 j hj hij
      · exact absurd hij.symm (hfree i (hold hi).1)
    · rcases hmemOpened hj with hj | ⟨b, hb, rfl⟩
      · exact (hnew a ha).2.2 j hj hij
      · rw [Option.mem_unique ha hb]
  · rcases List.mem_append.mp hi with hi | hi
    · rcases hmem hi with hi | ⟨a, ha, rfl⟩
      · exact (h.root_lt i (List.mem_append_left _ (hold hi).2)).trans_le hnext
      · exact hborn a ha
    · rcases hmemOpened hi with hi | ⟨a, ha, rfl⟩
      · exact (h.root_lt i (List.mem_append_right _ hi)).trans_le hnext
      · exact hborn a ha
  · rcases hmemOpened hi with hi | ⟨a, ha, rfl⟩
    · by_cases hroot' : i.root = root
      · rw [hroot']
        exact hlimit i hi hroot'
      · rw [hother i.root hroot']
        exact h.limit i hi
    · obtain ⟨hrank, hle, -⟩ := hnew a ha
      exact hrank.trans_le hle
  · exact hunborn root' (hnext.trans hroot')

theorem step (h : Lineages R log r) {note : Note} (hstep : Step R r note r') : Lineages R (log ++ [note]) r' := by
  have hquiet (note : Note) (hnote : ∀ root, note.continues root = false) (root : Nat) :
      continued root (log ++ [note]) = continued root log := by
    rw [continued_append, hnote, if_neg Bool.false_ne_true, Nat.add_zero]
  cases hstep with
  | fire keep new hnew =>
    have hlog := hquiet (.fired none (r.dropped keep) (new.map fun _ => r.next)) fun _ => rfl
    have hunborn (root : Nat) (hroot : r.next ≤ root) : continued root (log ++
        [.fired none (r.dropped keep) (new.map fun _ => r.next)]) = 0 := (hlog root).trans (h.unborn root hroot)
    have hnone (j : Instance α) (hj : j ∈ r.opened) : j.root ≠ r.next :=
      (h.root_lt j (List.mem_append_right _ hj)).ne
    refine h.enter keep r.next new le_rfl (fun i hi => ?_) (fun root _ => hlog root) hunborn
      (fun j hj hroot => absurd hroot (hnone j hj)) fun a ha => ?_
    · exact (h.root_lt i (List.mem_append_left _ (List.mem_append_left _ hi))).ne
    · have hrank := (hnew a ha).2
      rw [hunborn r.next le_rfl, hrank]
      exact ⟨rfl, Nat.zero_le _, fun j hj hroot => absurd hroot (hnone j hj)⟩
  | again keep new parent last hrank hnew =>
    have hparent : parent ∈ r.active := by
      rw [active, last]
      exact List.mem_append_right _ (List.mem_singleton.mpr rfl)
    have hlt : parent.root < r.next := h.root_lt parent (List.mem_append_left _ hparent)
    have hself : continued parent.root (log ++ [Note.fired (some parent.root) (r.dropped keep) (new.map fun _ => r.next)]) =
        R.rank parent.value + 1 := by
      have hcontinues : (Note.fired (some parent.root) (r.dropped keep) (new.map fun _ => r.next)).continues parent.root = true :=
        beq_self_eq_true parent.root
      rw [continued_append, if_pos hcontinues, h.rank parent hparent]
    have hother (root : Nat) (hne : root ≠ parent.root) :
        continued root (log ++ [Note.fired (some parent.root) (r.dropped keep) (new.map fun _ => r.next)]) = continued root log := by
      have hcontinues : (Note.fired (some parent.root) (r.dropped keep) (new.map fun _ => r.next)).continues root = false :=
        beq_eq_false_iff_ne.mpr hne.symm
      rw [continued_append, hcontinues, if_neg Bool.false_ne_true, Nat.add_zero]
    refine h.enter keep parent.root new hlt.le (fun i hi => ?_) hother (fun root hroot => ?_) (fun j hj hroot => ?_) fun a ha => ?_
    · -- the last closed instance shares its root with no other one
      have hnodup := h.nodup
      rw [active, last, List.map_append] at hnodup
      exact fun heq => List.disjoint_of_nodup_append hnodup (List.mem_map_of_mem hi) (List.mem_singleton.mpr heq)
    · rw [hother root (by omega)]
      exact h.unborn root hroot
    · rw [hself, h.same parent hparent j hj hroot]
      exact hrank
    · obtain ⟨-, hnext, hsame⟩ := hnew a ha
      refine ⟨hself.trans hnext.symm, ?_, fun j hj hroot => ?_⟩
      · rw [hnext, hsame]
        exact hrank
      · rw [hsame]
        exact h.same parent hparent j hj hroot
  | mark pre post i live hmarked =>
    have hroots : (({ r with live := pre ++ { i with value := R.mark i.value } :: post } : Roster α).active.map (·.root)) =
        r.active.map (·.root) := by
      rw [active, active, live]
      simp only [List.map_append, List.map_cons]
    refine h.relist (hquiet _ fun _ => rfl) rfl (hroots ▸ h.nodup) fun j hj => ?_
    have hi : i ∈ r.active := by
      rw [active, live]
      simp
    have hj : j ∈ pre ++ { i with value := R.mark i.value } :: post ++ r.due ++ r.last.toList := hj
    by_cases heq : j = { i with value := R.mark i.value }
    · rw [heq]
      exact ⟨i, hi, rfl, (R.rank_mark i.value).symm, (R.limit_mark i.value).symm⟩
    · refine ⟨j, ?_, rfl, rfl, rfl⟩
      rw [active, live]
      simp only [List.mem_append, List.mem_cons] at hj ⊢
      rcases hj with ((hj | hj | hj) | hj) | hj
      · exact .inl (.inl (.inl hj))
      · exact absurd hj heq
      · exact .inl (.inl (.inr (.inr hj)))
      · exact .inl (.inr hj)
      · exact .inr hj
  | close rest i due early =>
    refine h.sublist (hquiet _ fun _ => rfl) rfl ?_
    have hperm : (r.live ++ (rest ++ i :: r.last.toList)).Perm r.active := by
      rw [active, due, List.append_assoc]
      exact List.perm_middle.append_left _
    have hlast : (if early then none else some i : Option (Instance α)).toList.Sublist (i :: r.last.toList) := by
      cases early with
      | true => exact List.nil_sublist _
      | false => exact (List.nil_sublist _).cons_cons i
    have hsub : (r.live ++ rest ++ (if early then none else some i : Option (Instance α)).toList).Sublist
        (r.live ++ (rest ++ i :: r.last.toList)) := by
      rw [← List.append_assoc]
      exact hlast.append_left _
    exact hsub.subperm.trans hperm.subperm

theorem steps {log' : List Note} (h : Lineages R log r) (hsteps : Steps R r log' r') : Lineages R (log ++ log') r' := by
  induction hsteps with
  | nil => rwa [List.append_nil]
  | note _ hstep ih =>
    rw [← List.append_assoc]
    exact ih.step hstep
  | @retire r' _ _ keep ih =>
    refine ih.sublist (fun _ => rfl) rfl (List.Perm.subperm ?_)
    have hsplit := List.filter_append_perm keep r'.live
    exact (((List.perm_append_comm_assoc _ _ _).trans ((hsplit.append_left r'.due).trans List.perm_append_comm)).append_right _)
  | forget _ ih => exact ih.sublist (fun _ => rfl) rfl (List.nil_subperm)

end Lineages

/-- What holds of every fresh value and is kept by marks holds of all instances. -/
theorem Steps.values {R : Rules α} {I : α → Prop} (hfresh : ∀ a, R.fresh a → I a) (hmark : ∀ a, I a → I (R.mark a))
    {r r' : Roster α} {log : List Note} (h : Steps R r log r') (hr : ∀ i ∈ r.live ++ r.due, I i.value) :
    ∀ i ∈ r'.live ++ r'.due, I i.value := by
  have henter {r : Roster α} (hr : ∀ i ∈ r.live ++ r.due, I i.value) (keep : Instance α → Bool) (root : Nat) (new : Option α)
      (hnew : ∀ a ∈ new, R.fresh a) :
      ∀ i ∈ (r.enter keep (new.map fun a => ⟨r.next, root, a⟩)).live ++ r.due, I i.value := by
    intro i hi
    rcases List.mem_append.mp hi with hlive | hdue
    · rcases List.mem_append.mp hlive with hkept | hopened
      · exact hr i (List.mem_append_left _ (List.mem_of_mem_filter hkept))
      · obtain ⟨a, ha, rfl⟩ := Option.map_eq_some_iff.mp (Option.mem_toList.mp hopened)
        exact hfresh a (hnew a ha)
    · exact hr i (List.mem_append_right _ hdue)
  induction h with
  | nil => exact hr
  | note _ hstep ih =>
    cases hstep with
    | fire keep new hnew => exact henter ih keep _ new fun a ha => (hnew a ha).1
    | again keep new parent last hrank hnew => exact henter ih keep _ new fun a ha => (hnew a ha).1
    | mark pre post i live hmarked =>
      rw [live] at ih
      intro j hj
      simp only [List.mem_append, List.mem_cons] at hj ih
      rcases hj with (hj | rfl | hj) | hj
      · exact ih j (.inl (.inl hj))
      · exact hmark _ (ih i (.inl (.inr (.inl rfl))))
      · exact ih j (.inl (.inr (.inr hj)))
      · exact ih j (.inr hj)
    | close rest i due early =>
      rw [due] at ih
      intro j hj
      simp only [List.mem_append, List.mem_cons] at hj ih
      rcases hj with hj | hj
      · exact ih j (.inl hj)
      · exact ih j (.inr (.inr hj))
  | @retire r' _ _ keep ih =>
    intro i hi
    rcases List.mem_append.mp hi with hlive | hdue
    · exact ih i (List.mem_append_left _ (List.mem_of_mem_filter hlive))
    · rcases List.mem_append.mp hdue with hdue | hlive
      · exact ih i (List.mem_append_right _ hdue)
      · exact ih i (List.mem_append_left _ (List.mem_of_mem_filter hlive))
  | forget => exact nofun

end Roster

end Stonemite
