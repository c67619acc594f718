import Stonemite.Lib.Keyed

/-!
# Pages of an ascending list

A page is a run of what comes after a cursor, of at most a fixed size. Where more remains, its last element is the cursor
of the next page.
-/

namespace Stonemite

/-- A page of a listing, with the cursor of the next one. -/
structure Page (α : Type) where
  items : List α
  next : Option α
deriving Repr

variable {α : Type}

/-- The first page of a list. -/
def pageOf (size : Nat) (l : List α) : Page α := ⟨l.take size, if size < l.length then l[size - 1]? else none⟩

def afterCursor (cmp : α → α → Ordering) (l : List α) : Option α → List α
  | none => l
  | some cursor => l.filter fun a => cmp cursor a = .lt

/-- The pages from a cursor on, unless there are more than the budget allows. -/
def followPages (page : Option α → Page α) : Nat → Option α → Option (List (Page α))
  | 0, _ => none
  | budget + 1, cursor =>
    match (page cursor).next with
    | none => some [page cursor]
    | some next => (followPages page budget (some next)).map (page cursor :: ·)

/-- What a client does with the pages: it collects the elements, and stops at a cursor it has met before. -/
def collectPages [DecidableEq α] (page : Option α → Page α) :
    Nat → List α → List α → Option α → Option (List α)
  | 0, _, _, _ => none
  | budget + 1, elements, cursors, cursor =>
    let elements := extendNew id elements (page cursor).items
    match (page cursor).next with
    | none => some elements
    | some next =>
      if next ∈ cursors then none else collectPages page budget elements (cursors ++ [next]) (some next)

/-- The longest run after the cursor that a page may hold, with a cursor for what remains. -/
structure IsPage (cmp : α → α → Ordering) (size : Nat) (mem : α → Prop) (cursor : Option α) (page : Page α)
    (remaining : List α) : Prop where
  ascending : (page.items ++ remaining).Pairwise fun a b => cmp a b = .lt
  mem_iff : ∀ a, a ∈ page.items ++ remaining ↔ mem a ∧ ∀ c, cursor = some c → cmp c a = .lt
  bounded : page.items.length ≤ size
  longest : remaining ≠ [] → page.items.length = size
  next_isSome : page.next.isSome ↔ remaining ≠ []
  next_last : ∀ c, page.next = some c → page.items.getLast? = some c

section
variable {cmp : α → α → Ordering} {size : Nat} {l done rest : List α} {cursor : Option α}

theorem pageOf_next (hsize : 0 < size) (l : List α) :
    (pageOf size l).next = if l.drop size = [] then none else (l.take size).getLast? := by
  simp only [pageOf, List.drop_eq_nil_iff]
  by_cases h : l.length ≤ size
  · rw [if_pos h, if_neg (by omega)]
  · rw [if_neg h, if_pos (by omega), List.getLast?_eq_getElem?, List.length_take, min_eq_left (by omega),
      List.getElem?_take_of_lt (by omega)]

theorem pairwise_afterCursor (h : l.Pairwise fun a b => cmp a b = .lt) (cursor : Option α) :
    (afterCursor cmp l cursor).Pairwise fun a b => cmp a b = .lt := by
  cases cursor with
  | none => exact h
  | some cursor => exact h.filter _

theorem mem_afterCursor {a : α} :
    a ∈ afterCursor cmp l cursor ↔ a ∈ l ∧ ∀ c, cursor = some c → cmp c a = .lt := by
  cases cursor with
  | none => simp [afterCursor]
  | some cursor => simp [afterCursor]

theorem isPage_pageOf (hsize : 0 < size) (h : l.Pairwise fun a b => cmp a b = .lt) (cursor : Option α) :
    IsPage cmp size (· ∈ l) cursor (pageOf size (afterCursor cmp l cursor)) ((afterCursor cmp l cursor).drop size) := by
  have hsplit : (pageOf size (afterCursor cmp l cursor)).items ++ (afterCursor cmp l cursor).drop size =
      afterCursor cmp l cursor := List.take_append_drop size _
  refine ⟨?_, fun a => ?_, List.length_take_le _ _, fun hne => ?_, ?_, fun c hc => ?_⟩
  · rw [hsplit]
    exact pairwise_afterCursor h cursor
  · rw [hsplit, mem_afterCursor]
  · rw [Ne, List.drop_eq_nil_iff, not_le] at hne
    exact List.length_take_of_le hne.le
  · rw [pageOf_next hsize]
    split_ifs with hnil
    · simp [hnil]
    · have hpos : (afterCursor cmp l cursor).take size ≠ [] := by
        intro htake
        rcases List.take_eq_nil_iff.mp htake with h0 | h0
        · omega
        · rw [h0, List.drop_nil] at hnil
          exact hnil rfl
      simp [hnil, List.getLast?_isSome, hpos]
  · rw [pageOf_next hsize] at hc
    split_ifs at hc
    exact hc

theorem not_lt_self [Std.TransCmp cmp] (a : α) : cmp a a ≠ .lt := by
  have hself : cmp a a = .eq := Std.ReflCmp.compare_self
  rw [hself]
  nofun

/-- The cursor that a run ends with leaves what comes after the run. -/
theorem afterCursor_getLast? [Std.TransCmp cmp] (h : (done ++ rest).Pairwise fun a b => cmp a b = .lt) :
    afterCursor cmp (done ++ rest) done.getLast? = rest := by
  cases hlast : done.getLast? with
  | none => rw [List.getLast?_eq_none_iff.mp hlast, afterCursor, List.nil_append]
  | some c =>
    obtain ⟨init, rfl⟩ := List.getLast?_eq_some_iff.mp hlast
    rw [List.append_assoc] at h
    obtain ⟨-, htail, hinit⟩ := List.pairwise_append.mp h
    have hrest : ∀ a ∈ rest, cmp c a = .lt := (List.pairwise_cons.mp htail).1
    have hbefore : ∀ a ∈ init ++ [c], ¬ cmp c a = .lt := by
      intro a ha hlt
      rcases List.mem_append.mp ha with ha | ha
      · have hac := hinit a ha c List.mem_cons_self
        rw [Std.OrientedCmp.gt_of_lt hac] at hlt
        cases hlt
      · rw [List.mem_singleton.mp ha] at hlt
        exact not_lt_self c hlt
    rw [afterCursor, List.filter_append, List.filter_eq_nil_iff.mpr (by simpa using hbefore), List.nil_append]
    exact List.filter_eq_self.mpr (by simpa using hrest)

/-- The first page of what remains, as the run that is done grows by it. -/
theorem next_of_rest (hsize : 0 < size) (rest : List α) :
    ((pageOf size rest).next = none ∧ rest.take size = rest ∧ rest.length ≤ size) ∨
      ∃ c, (pageOf size rest).next = some c ∧ (rest.take size).getLast? = some c ∧ size < rest.length := by
  rw [pageOf_next hsize]
  by_cases hlength : rest.length ≤ size
  · rw [if_pos (List.drop_eq_nil_iff.mpr hlength)]
    exact .inl ⟨rfl, List.take_of_length_le hlength, hlength⟩
  · rw [if_neg (by rwa [List.drop_eq_nil_iff])]
    cases hlast : (rest.take size).getLast? with
    | some c => exact .inr ⟨c, rfl, rfl, by omega⟩
    | none =>
      have hnil := congrArg List.length (List.getLast?_eq_none_iff.mp hlast)
      rw [List.length_take, List.length_nil] at hnil
      omega

theorem getLast?_append_take {c : α} (h : (rest.take size).getLast? = some c) :
    (done ++ rest.take size).getLast? = some c := by
  rw [List.getLast?_append, h]
  rfl

theorem followPages_mono {page : Option α → Page α} {budget budget' : Nat} {pages : List (Page α)}
    (h : followPages page budget cursor = some pages) (hle : budget ≤ budget') :
    followPages page budget' cursor = some pages := by
  induction budget generalizing budget' cursor pages with
  | zero => cases h
  | succ budget ih =>
    obtain ⟨budget', rfl⟩ : ∃ n, budget' = n + 1 := ⟨budget' - 1, by omega⟩
    rw [followPages] at h ⊢
    cases hnext : (page cursor).next with
    | none =>
      rw [hnext] at h
      exact h
    | some next =>
      rw [hnext] at h
      obtain ⟨rest, hrest, rfl⟩ := Option.map_eq_some_iff.mp h
      dsimp only
      rw [ih hrest (by omega)]
      rfl

/-- From the end of a run on, the pages hold what comes after the run. -/
theorem followPages_rest [Std.TransCmp cmp] (hsize : 0 < size) {budget : Nat}
    (h : (done ++ rest).Pairwise fun a b => cmp a b = .lt) (hpos : 0 < budget) (hbudget : rest.length ≤ budget * size) :
    ∃ pages, followPages (fun cursor => pageOf size (afterCursor cmp (done ++ rest) cursor)) budget done.getLast? =
        some pages ∧ pages.flatMap (·.items) = rest ∧ pages.length = (rest.length - 1) / size + 1 := by
  induction budget generalizing done rest with
  | zero => omega
  | succ budget ih =>
    have hpage := afterCursor_getLast? h
    rcases next_of_rest hsize rest with ⟨hnext, htake, hlength⟩ | ⟨c, hnext, hlast, hlength⟩
    · refine ⟨[pageOf size rest], ?_, ?_, ?_⟩
      · rw [followPages, hpage, hnext]
      · rw [List.flatMap_singleton]
        exact htake
      · rw [List.length_singleton, Nat.div_eq_of_lt (by omega)]
    · have happend : done ++ rest.take size ++ rest.drop size = done ++ rest := by
        rw [List.append_assoc, List.take_append_drop]
      have hdrop : (rest.drop size).length ≤ budget * size := by
        rw [List.length_drop]
        rw [Nat.succ_mul] at hbudget
        omega
      have hbudget' : 0 < budget := by
        by_contra h0
        rw [Nat.eq_zero_of_not_pos h0, Nat.zero_mul, List.length_drop] at hdrop
        omega
      obtain ⟨pages, hpages, hitems, hcount⟩ := ih (by rwa [happend]) hbudget' hdrop
      rw [happend, getLast?_append_take hlast] at hpages
      refine ⟨pageOf size rest :: pages, ?_, ?_, ?_⟩
      · rw [followPages, hpage, hnext]
        dsimp only
        rw [hpages]
        rfl
      · rw [List.flatMap_cons, hitems]
        exact List.take_append_drop size rest
      · have hsub : rest.length - 1 = (rest.length - size - 1) + size := by omega
        rw [List.length_cons, hcount, List.length_drop, hsub, Nat.add_div_right _ hsize]

end

section
variable [DecidableEq α] {cmp : α → α → Ordering} {size : Nat} {done rest : List α}

theorem extendNew_of_nodup (h : (done ++ rest).Nodup) : extendNew id done rest = done ++ rest := by
  induction rest generalizing done with
  | nil => rw [extendNew_nil, List.append_nil]
  | cons a rest ih =>
    rw [List.append_cons] at h
    have hnew : ∀ b ∈ done, id b ≠ id a := by
      rintro b hb rfl
      exact (List.nodup_append.mp (List.nodup_append.mp h).1).2.2 b hb _ List.mem_cons_self rfl
    rw [extendNew, List.foldl_cons, pushNew_neg hnew]
    exact (ih h).trans (List.append_cons done a rest).symm

/-- A client meets no cursor twice and collects the whole list. -/
theorem collectPages_rest [Std.TransCmp cmp] (hsize : 0 < size) {budget : Nat} {cursors : List α}
    (h : (done ++ rest).Pairwise fun a b => cmp a b = .lt) (hcursors : ∀ c ∈ cursors, c ∈ done) (hpos : 0 < budget)
    (hbudget : rest.length ≤ budget * size) :
    collectPages (fun cursor => pageOf size (afterCursor cmp (done ++ rest) cursor)) budget done cursors done.getLast? =
      some (done ++ rest) := by
  induction budget generalizing done rest cursors with
  | zero => omega
  | succ budget ih =>
    have hpage := afterCursor_getLast? h
    have hnodup : (done ++ rest).Nodup := List.Pairwise.imp (fun {a b} hab heq => by
      rw [heq] at hab
      exact not_lt_self b hab) h
    have happend : done ++ rest.take size ++ rest.drop size = done ++ rest := by
      rw [List.append_assoc, List.take_append_drop]
    have htaken : (done ++ rest.take size).Nodup := by
      rw [← happend] at hnodup
      exact (List.nodup_append.mp hnodup).1
    have hitems : extendNew id done (pageOf size rest).items = done ++ rest.take size := extendNew_of_nodup htaken
    rw [collectPages, hpage, hitems]
    rcases next_of_rest hsize rest with ⟨hnext, htake, -⟩ | ⟨c, hnext, hlast, hlength⟩
    · rw [hnext, htake]
    · have hc : c ∈ rest.take size := List.mem_of_getLast? hlast
      have hfresh : c ∉ cursors := fun hseen =>
        (List.nodup_append.mp htaken).2.2 c (hcursors c hseen) c hc rfl
      have hdrop : (rest.drop size).length ≤ budget * size := by
        rw [List.length_drop]
        rw [Nat.succ_mul] at hbudget
        omega
      have hbudget' : 0 < budget := by
        by_contra h0
        rw [Nat.eq_zero_of_not_pos h0, Nat.zero_mul, List.length_drop] at hdrop
        omega
      have hcursors' : ∀ b ∈ cursors ++ [c], b ∈ done ++ rest.take size := by
        intro b hb
        rcases List.mem_append.mp hb with hb | hb
        · exact List.mem_append_left _ (hcursors b hb)
        · rw [List.mem_singleton.mp hb]
          exact List.mem_append_right _ hc
      have hrun := ih (by rwa [happend]) hcursors' hbudget' hdrop
      rw [happend, getLast?_append_take hlast] at hrun
      rw [hnext]
      dsimp only
      rw [if_neg hfresh, hrun]

end

end Stonemite
