import Stonemite.Overlay.Partition

/-!
# Window numbers

The numbers of the loaded clients are positive and distinct after any events. A preferred order numbers the clients from
one on: the listed identities in the order of the list, then the others in the order they had. `Numbered` is the
invariant of the windows, which each event keeps (`Numbered.step`) and so each run.
-/

open Std

namespace Stonemite.Overlay

/-! ### The next available number -/

theorem nextAvailableFrom_spec (numbers : List Nat) (fuel n : Nat) :
    n ≤ nextAvailableFrom numbers fuel n ∧ (∀ k, n ≤ k → k < nextAvailableFrom numbers fuel n → k ∈ numbers) ∧
      (nextAvailableFrom numbers fuel n < n + fuel → nextAvailableFrom numbers fuel n ∉ numbers) := by
  induction fuel generalizing n with
  | zero => exact ⟨le_rfl, fun k h1 h2 => absurd h2 (Nat.not_lt.mpr h1), fun h => absurd h (Nat.lt_irrefl n)⟩
  | succ fuel ih =>
    unfold nextAvailableFrom
    split_ifs with hmem
    · obtain ⟨hle, hall, hfree⟩ := ih (n + 1)
      refine ⟨by omega, fun k h1 h2 => ?_, fun h => hfree (by omega)⟩
      rcases Nat.eq_or_lt_of_le h1 with rfl | hlt
      · exact hmem
      · exact hall k hlt h2
    · exact ⟨le_rfl, fun k h1 h2 => absurd h2 (Nat.not_lt.mpr h1), fun _ => hmem⟩

/-- The next available number is the smallest positive one that no window has. -/
theorem nextAvailableNumber_spec (windows : List EqWindow) :
    0 < nextAvailableNumber windows ∧ nextAvailableNumber windows ∉ windows.map (·.number) ∧
      ∀ k, 0 < k → k < nextAvailableNumber windows → k ∈ windows.map (·.number) := by
  obtain ⟨hle, hall, hfree⟩ := nextAvailableFrom_spec (windows.map (·.number)) windows.length 1
  refine ⟨hle, ?_, hall⟩
  by_cases hlt : nextAvailableNumber windows < 1 + windows.length
  · exact hfree hlt
  · -- all numbers up to the number of windows are in use, and one more would be too many
    intro hmem
    have hsub : List.range' 1 (windows.length + 1) ⊆ windows.map (·.number) := by
      intro k hk
      obtain ⟨h1, h2⟩ := List.mem_range'_1.mp hk
      rcases Nat.lt_or_ge k (nextAvailableNumber windows) with hlt' | hge
      · exact hall k h1 hlt'
      · have heq : k = nextAvailableNumber windows := by omega
        rw [heq]
        exact hmem
    have hlen := (List.subperm_of_subset List.nodup_range' hsub).length_le
    rw [List.length_range', List.length_map] at hlen
    omega

/-! ### The preferred order -/

/-- Where at most one window can be found, finding and changing it is a map. -/
theorem updFirst_eq_map {windows : List EqWindow} {key : EqWindow → Nat} (h : (windows.map key).Nodup)
    {p : EqWindow → Bool} {k : Nat} (hp : ∀ window, p window = true → key window = k) (f : EqWindow → EqWindow) :
    updFirst windows p f = windows.map fun window => if p window then f window else window := by
  induction windows with
  | nil => rfl
  | cons window rest ih =>
    rw [List.map_cons, List.nodup_cons] at h
    unfold updFirst
    by_cases hfound : p window = true
    · rw [if_pos hfound, List.map_cons, if_pos hfound]
      congr 1
      refine (List.map_id' rest).symm.trans (List.map_congr_left fun w hw => ?_)
      rw [if_neg]
      intro hw'
      exact h.1 ((hp window hfound).trans (hp w hw').symm ▸ List.mem_map_of_mem hw)
    · rw [if_neg hfound, List.map_cons, if_neg hfound, ih h.2]

theorem updFirst_pid {windows : List EqWindow} (h : (windows.map (·.pid)).Nodup) (pid : Nat)
    (f : EqWindow → EqWindow) :
    updFirst windows (·.pid = pid) f = windows.map fun window => if window.pid = pid then f window else window := by
  rw [updFirst_eq_map h fun window => of_decide_eq_true]
  simp only [decide_eq_true_eq]

theorem numbered_pids (windows : List EqWindow) (p : EqWindow → Bool) (number : Nat) :
    windows.map (·.pid) = (updFirst windows p ({ · with number })).map (·.pid) :=
  Eq.symm (updFirst_map (·.pid) (by exact fun _ _ => rfl))

theorem eq_of_pid {windows : List EqWindow} (h : (windows.map (·.pid)).Nodup) {v w : EqWindow} (hv : v ∈ windows)
    (hw : w ∈ windows) (heq : v.pid = w.pid) : v = w := List.inj_on_of_nodup_map h hv hw heq

theorem find_pid {windows : List EqWindow} {pid : Nat} {window : EqWindow}
    (h : windows.find? (·.pid = pid) = some window) : window ∈ windows ∧ window.pid = pid :=
  ⟨List.mem_of_find?_eq_some h, by simpa using List.find?_some h⟩

/-- One entry of the loop: the window with its process id gets the number. -/
theorem renumber_cons (entry : Ranked) (rest : List Ranked) (index : Nat) (windows : List EqWindow) (changed : Bool)
    (hwindows : (windows.map (·.pid)).Nodup) :
    ∃ changed', renumber (entry :: rest) index (windows, changed) =
      renumber rest (index + 1) (windows.map fun window =>
        if window.pid = entry.pid then { window with number := index + 1 } else window, changed') := by
  simp only [renumber]
  split
  · rename_i window hfind
    obtain ⟨hmem, hpid⟩ := find_pid hfind
    split_ifs with hnumber
    · exact ⟨true, by rw [updFirst_pid hwindows]⟩
    · refine ⟨changed, ?_⟩
      congr 2
      refine (List.map_id' windows).symm.trans (List.map_congr_left fun w hw => ?_)
      split_ifs with heq
      · obtain rfl := eq_of_pid hwindows hw hmem (heq.trans hpid.symm)
        rw [← not_not.mp hnumber]
      · rfl
  · rename_i hnone
    refine ⟨changed, ?_⟩
    congr 2
    refine (List.map_id' windows).symm.trans (List.map_congr_left fun w hw => ?_)
    rw [if_neg]
    simpa using List.find?_eq_none.mp hnone w hw

/-- The renumbered windows: each one that is listed gets its place in the list. -/
theorem renumber_eq (entries : List Ranked) (hentries : (entries.map (·.pid)).Nodup) (index : Nat)
    (windows : List EqWindow) (changed : Bool) (hwindows : (windows.map (·.pid)).Nodup) :
    (renumber entries index (windows, changed)).1 = windows.map fun window =>
      if window.pid ∈ entries.map (·.pid) then
        { window with number := index + (entries.map (·.pid)).idxOf window.pid + 1 }
      else window := by
  induction entries generalizing index windows changed with
  | nil => exact (List.map_id' windows).symm
  | cons entry rest ih =>
    rw [List.map_cons, List.nodup_cons] at hentries
    obtain ⟨changed', hcons⟩ := renumber_cons entry rest index windows changed hwindows
    have hpids : ((windows.map fun window => if window.pid = entry.pid then { window with number := index + 1 }
        else window).map (·.pid)) = windows.map (·.pid) := by
      rw [List.map_map]
      refine List.map_congr_left fun w _ => ?_
      show (if w.pid = entry.pid then ({ w with number := index + 1 } : EqWindow) else w).pid = w.pid
      split_ifs <;> rfl
    rw [hcons, ih hentries.2 _ _ _ (hpids ▸ hwindows), List.map_map]
    refine List.map_congr_left fun w _ => ?_
    rw [Function.comp_apply]
    by_cases heq : w.pid = entry.pid
    · rw [if_pos heq]
      dsimp only
      rw [if_neg (heq ▸ hentries.1), if_pos (heq ▸ List.mem_cons_self), List.map_cons, heq, List.idxOf_cons_self]
    · rw [if_neg heq, List.map_cons]
      by_cases hmem : w.pid ∈ rest.map (·.pid)
      · rw [if_pos hmem, if_pos (List.mem_cons_of_mem _ hmem), List.idxOf_cons_ne _ (Ne.symm heq)]
        congr 1
        omega
      · rw [if_neg hmem, if_neg]
        rintro hin
        rcases List.mem_cons.mp hin with hin | hin
        · exact heq hin
        · exact hmem hin

/-- The loop leaves windows alone that have their places already. -/
theorem renumber_fixed (entries : List Ranked) (index : Nat) (windows : List EqWindow) (changed : Bool)
    (h : ∀ i entry, entries[i]? = some entry → ∀ window, windows.find? (·.pid = entry.pid) = some window →
      window.number = index + i + 1) :
    renumber entries index (windows, changed) = (windows, changed) := by
  induction entries generalizing index with
  | nil => rfl
  | cons entry rest ih =>
    have hrest := ih (index + 1) fun i e he w hw => by
      have := h (i + 1) e (by simpa using he) w hw
      omega
    unfold renumber
    dsimp only
    split
    · rename_i window hfind
      have hnumber := h 0 entry rfl window hfind
      rw [if_neg (not_not.mpr (by omega))]
      exact hrest
    · exact hrest

/-! ### The sort -/

/-- A window comes before another in the preferred order: it is listed earlier, the other one is not listed, or
neither is and its number is smaller. -/
def EqWindow.Before (preferred : List BoxIdentity) (v w : EqWindow) : Prop :=
  match v.rank preferred, w.rank preferred with
  | some i, some j => i < j
  | some _, none => True
  | none, some _ => False
  | none, none => v.number < w.number

/-- The window among the preferred identities. -/
def EqWindow.ranked (preferred : List BoxIdentity) (window : EqWindow) : Ranked :=
  ⟨window.pid, window.number, window.rank preferred⟩

theorem ranked_perm (preferred : List BoxIdentity) (windows : List EqWindow) :
    ((ranked preferred windows).map (·.pid)).Perm (windows.map (·.pid)) := by
  have hsort : (ranked preferred windows).Perm (windows.map (·.ranked preferred)) := sortBy_perm _
  have hperm := hsort.map (·.pid)
  rw [List.map_map] at hperm
  exact hperm

instance : TransCmp Ranked.cmp := by
  unfold Ranked.cmp
  infer_instance

theorem cmp_lt_of_before {preferred : List BoxIdentity} {v w : EqWindow} (h : v.Before preferred w) :
    Ranked.cmp (v.ranked preferred) (w.ranked preferred) = .lt := by
  unfold EqWindow.Before at h
  unfold EqWindow.ranked Ranked.cmp compareLex compareOn
  split at h
  case h_1 i j hi hj => simp [hi, hj, Nat.compare_eq_lt.mpr h]
  case h_2 i hi hj =>
    have hone : compare 0 1 = Ordering.lt := rfl
    simp [hi, hj, hone]
  case h_3 j hi hj => exact h.elim
  case h_4 hi hj => simp [hi, hj, Nat.compare_eq_lt.mpr h]

theorem Ranked.eq_of_cmp {a b : Ranked} (h : Ranked.cmp a b = .eq) : a.pid = b.pid := by
  unfold Ranked.cmp compareLex compareOn at h
  simp only [Ordering.then_eq_eq, Nat.compare_eq_eq] at h
  exact h.2.2.2

theorem idxOf_lt_of_before {preferred : List BoxIdentity} {windows : List EqWindow}
    (hwindows : (windows.map (·.pid)).Nodup) {v w : EqWindow} (hv : v ∈ windows) (hw : w ∈ windows)
    (h : v.Before preferred w) :
    ((ranked preferred windows).map (·.pid)).idxOf v.pid < ((ranked preferred windows).map (·.pid)).idxOf w.pid := by
  have hsort : (ranked preferred windows).Pairwise fun a b => Ranked.cmp a b ≠ .gt := sortBy_pairwise _
  have hnodup : ((ranked preferred windows).map (·.pid)).Nodup := (ranked_perm preferred windows).nodup_iff.mpr hwindows
  have hmem {u : EqWindow} (hu : u ∈ windows) : u.ranked preferred ∈ ranked preferred windows :=
    mem_sortBy.mpr (List.mem_map_of_mem hu)
  obtain ⟨i, hi, hvi⟩ := List.getElem_of_mem (hmem hv)
  obtain ⟨j, hj, hwj⟩ := List.getElem_of_mem (hmem hw)
  have hidx {u : EqWindow} {k : Nat} (hk : k < (ranked preferred windows).length)
      (huk : (ranked preferred windows)[k] = u.ranked preferred) :
      ((ranked preferred windows).map (·.pid)).idxOf u.pid = k := by
    have hk' : k < ((ranked preferred windows).map (·.pid)).length := by rwa [List.length_map]
    have hpid : u.pid = ((ranked preferred windows).map (·.pid))[k] := by
      rw [List.getElem_map, huk]
      rfl
    rw [hpid]
    exact hnodup.idxOf_getElem k _
  rw [hidx hi hvi, hidx hj hwj]
  by_contra hle
  have hlt := cmp_lt_of_before h
  rcases Nat.eq_or_lt_of_le (Nat.not_lt.mp hle) with rfl | hji
  · have hself : Ranked.cmp (ranked preferred windows)[j] (ranked preferred windows)[j] = .eq := ReflCmp.compare_self
    rw [← hvi, ← hwj, hself] at hlt
    cases hlt
  · have hle' := List.pairwise_iff_getElem.mp hsort j i hj hi hji
    rw [hvi, hwj] at hle'
    exact hle' (OrientedCmp.gt_iff_lt.mpr hlt)

/-! ### Preferred orders -/

/-- The number that the preferred order gives to a client. -/
def preferredNumber (preferred : List BoxIdentity) (windows : List EqWindow) (pid : Nat) : Nat :=
  ((ranked preferred windows).map (·.pid)).idxOf pid + 1

/-- The window under the number of its rank. -/
def EqWindow.renumbered (preferred : List BoxIdentity) (windows : List EqWindow) (window : EqWindow) : EqWindow :=
  { window with number := preferredNumber preferred windows window.pid }

theorem applyPreferredBoxOrder_eq {preferred : List BoxIdentity} (hpreferred : preferred ≠ [])
    {windows : List EqWindow} (hwindows : (windows.map (·.pid)).Nodup) :
    (applyPreferredBoxOrder windows preferred).1 = windows.map (·.renumbered preferred windows) := by
  have hperm := ranked_perm preferred windows
  unfold applyPreferredBoxOrder
  split_ifs with hempty
  · rcases hempty with hempty | rfl
    · exact absurd hempty hpreferred
    · rfl
  · rw [renumber_eq _ (hperm.nodup_iff.mpr hwindows) _ _ _ hwindows]
    refine List.map_congr_left fun window hwindow => ?_
    rw [if_pos (hperm.mem_iff.mpr (List.mem_map_of_mem hwindow)), Nat.zero_add]
    rfl

/-- Entries in order stay in order when the earlier one gets the smaller number. -/
theorem Ranked.cmp_number {a b : Ranked} (h : Ranked.cmp a b ≠ .gt) {m n : Nat} (hmn : m < n) :
    Ranked.cmp { a with number := m } { b with number := n } ≠ .gt := by
  obtain ⟨pid, number, rank⟩ := a
  obtain ⟨pid', number', rank'⟩ := b
  have hlt := Nat.compare_eq_lt.mpr hmn
  have hone : compare 0 1 = Ordering.lt := rfl
  have hzero : compare 1 0 = Ordering.gt := rfl
  unfold Ranked.cmp compareLex compareOn at h ⊢
  cases rank with
  | none => cases rank' <;> simp [hlt, hzero] at h ⊢
  | some i =>
    cases rank' with
    | none => simp [hone]
    | some j =>
      cases hij : compare i j <;> simp [hij, hlt] at h ⊢

theorem ranked_renumbered {preferred : List BoxIdentity} {windows : List EqWindow}
    (hwindows : (windows.map (·.pid)).Nodup) :
    ranked preferred (windows.map (·.renumbered preferred windows)) =
      (ranked preferred windows).map fun entry =>
        { entry with number := preferredNumber preferred windows entry.pid } := by
  generalize hplace : (fun entry : Ranked => { entry with number := preferredNumber preferred windows entry.pid }) = place
  have hpid (entry : Ranked) : (place entry).pid = entry.pid := by rw [← hplace]
  have hnodup : ((ranked preferred windows).map (·.pid)).Nodup := (ranked_perm preferred windows).nodup_iff.mpr hwindows
  have hmap : ((windows.map (·.renumbered preferred windows)).map (·.ranked preferred)) =
      (windows.map (·.ranked preferred)).map place := by
    rw [List.map_map, List.map_map, ← hplace]
    rfl
  have hleft : (ranked preferred (windows.map (·.renumbered preferred windows))).Perm
      ((windows.map (·.ranked preferred)).map place) := by
    rw [← hmap]
    exact sortBy_perm _
  have hright : ((ranked preferred windows).map place).Perm ((windows.map (·.ranked preferred)).map place) :=
    (sortBy_perm _).map place
  have hanti : ∀ a b, a ∈ ranked preferred (windows.map (·.renumbered preferred windows)) →
      b ∈ (ranked preferred windows).map place → Ranked.cmp a b ≠ .gt → Ranked.cmp b a ≠ .gt → a = b := by
    -- entries that compare equal have the same process id
    intro a b ha hb hab hba
    have heq : Ranked.cmp a b = .eq := by
      cases hcmp : Ranked.cmp a b with
      | eq => rfl
      | gt => exact absurd hcmp hab
      | lt => exact absurd (OrientedCmp.gt_iff_lt.mpr hcmp) hba
    obtain ⟨a', ha', rfl⟩ := List.mem_map.mp ((hleft.trans hright.symm).mem_iff.mp ha)
    obtain ⟨b', hb', rfl⟩ := List.mem_map.mp hb
    have hpids := Ranked.eq_of_cmp heq
    rw [hpid, hpid] at hpids
    rw [List.inj_on_of_nodup_map hnodup ha' hb' hpids]
  refine (hleft.trans hright.symm).eq_of_pairwise hanti (sortBy_pairwise _) ?_
  · -- the new numbers follow the sorted order
    have hsort : (ranked preferred windows).Pairwise fun a b => Ranked.cmp a b ≠ .gt := sortBy_pairwise _
    refine List.pairwise_iff_getElem.mpr fun i j hi hj hij => ?_
    rw [List.length_map] at hi hj
    have hle := List.pairwise_iff_getElem.mp hsort i j hi hj hij
    have hnumber (k : Nat) (hk : k < (ranked preferred windows).length) :
        place (ranked preferred windows)[k] = { (ranked preferred windows)[k] with number := k + 1 } := by
      have hidx := hnodup.idxOf_getElem k (by rwa [List.length_map])
      rw [List.getElem_map] at hidx
      rw [← hplace]
      show ({ (ranked preferred windows)[k] with number := _ + 1 } : Ranked) = _
      rw [hidx]
    rw [List.getElem_map, List.getElem_map, hnumber i hi, hnumber j hj]
    exact Ranked.cmp_number hle (Nat.succ_lt_succ hij)

theorem map_preferredNumber {preferred : List BoxIdentity} {windows : List EqWindow}
    (hwindows : (windows.map (·.pid)).Nodup) :
    ((ranked preferred windows).map (·.pid)).map (preferredNumber preferred windows) = List.range' 1 windows.length := by
  have hperm := ranked_perm preferred windows
  have hlen := hperm.length_eq
  rw [List.length_map, List.length_map] at hlen
  refine List.ext_getElem (by rw [List.length_map, List.length_map, hlen, List.length_range']) fun k hk _ => ?_
  rw [List.length_map] at hk
  rw [List.getElem_map, List.getElem_range', Nat.one_mul, Nat.add_comm]
  unfold preferredNumber
  rw [(hperm.nodup_iff.mpr hwindows).idxOf_getElem k hk]

theorem renumbered_numbers {preferred : List BoxIdentity} {windows : List EqWindow}
    (hwindows : (windows.map (·.pid)).Nodup) :
    ((windows.map (·.renumbered preferred windows)).map (·.number)).Perm (List.range' 1 windows.length) := by
  have hperm := ((ranked_perm preferred windows).map (preferredNumber preferred windows)).symm
  rw [map_preferredNumber hwindows, List.map_map] at hperm
  rw [List.map_map]
  exact hperm

/-- A preferred order that is applied once more changes nothing. -/
theorem applyPreferredBoxOrder_renumbered {preferred : List BoxIdentity} {windows : List EqWindow}
    (hwindows : (windows.map (·.pid)).Nodup) :
    applyPreferredBoxOrder (windows.map (·.renumbered preferred windows)) preferred =
      (windows.map (·.renumbered preferred windows), false) := by
  have hnodup : ((ranked preferred windows).map (·.pid)).Nodup := (ranked_perm preferred windows).nodup_iff.mpr hwindows
  unfold applyPreferredBoxOrder
  split_ifs
  · rfl
  · rw [ranked_renumbered hwindows]
    refine renumber_fixed _ _ _ _ fun i entry hentry window hfind => ?_
    obtain ⟨hmem, hpid⟩ := find_pid hfind
    obtain ⟨w, hw, rfl⟩ := List.mem_map.mp hmem
    rw [List.getElem?_map, Option.map_eq_some_iff] at hentry
    obtain ⟨old, hold, rfl⟩ := hentry
    obtain ⟨hi, rfl⟩ := List.getElem?_eq_some_iff.mp hold
    have hidx := hnodup.idxOf_getElem i (by rwa [List.length_map])
    rw [List.getElem_map] at hidx
    have hpid' : w.pid = (ranked preferred windows)[i].pid := hpid
    show preferredNumber preferred windows w.pid = 0 + i + 1
    unfold preferredNumber
    rw [hpid', hidx, Nat.zero_add]

/-! ### Runs -/

theorem pollCharacters_numbers (identities : Nat → Option (Str × Str)) (windows : List EqWindow)
    (observed : ExtTreeMap Nat (Str × Str)) :
    (pollCharacters identities windows observed).1.map (·.number) = windows.map (·.number) := by
  induction windows generalizing observed with
  | nil => rfl
  | cons window rest ih =>
    unfold pollCharacters
    dsimp only
    rw [List.map_cons, List.map_cons, ih]
    congr 1
    split
    · unfold reconcileIdentity
      dsimp only
      split_ifs <;> rfl
    · rfl

/-- The numbers of the windows are positive and no two windows share one. -/
structure Numbered (windows : List EqWindow) : Prop where
  nodup : (windows.map (·.number)).Nodup
  positive : ∀ window ∈ windows, 0 < window.number

namespace Numbered
variable {windows windows' : List EqWindow}

theorem of_numbers (h : Numbered windows) (hnumbers : windows'.map (·.number) = windows.map (·.number)) :
    Numbered windows' where
  nodup := by rw [hnumbers]; exact h.nodup
  positive := by
    intro window hwindow
    have hmem : window.number ∈ windows.map (·.number) := hnumbers ▸ List.mem_map_of_mem hwindow
    obtain ⟨w, hw, heq⟩ := List.mem_map.mp hmem
    exact heq ▸ h.positive w hw

theorem nil : Numbered [] := ⟨List.nodup_nil, nofun⟩

theorem filter (h : Numbered windows) (p : EqWindow → Bool) : Numbered (windows.filter p) where
  nodup := h.nodup.sublist (List.filter_sublist.map _)
  positive := fun window hwindow => h.positive window (List.mem_of_mem_filter hwindow)

theorem append (h : Numbered windows) (hwnd pid : Nat) :
    Numbered (windows ++ [{ hwnd, pid, number := nextAvailableNumber windows }]) where
  nodup := by
    rw [List.map_append]
    refine h.nodup.append (List.nodup_singleton _) fun number hnumber hin => ?_
    obtain rfl := List.mem_singleton.mp hin
    exact (nextAvailableNumber_spec windows).2.1 hnumber
  positive := by
    intro window hwindow
    rcases List.mem_append.mp hwindow with hwindow | hwindow
    · exact h.positive window hwindow
    · obtain rfl := List.mem_singleton.mp hwindow
      exact (nextAvailableNumber_spec windows).1

theorem applyPreferredBoxOrder (h : Numbered windows) (hpids : (windows.map (·.pid)).Nodup)
    (preferred : List BoxIdentity) : Numbered (applyPreferredBoxOrder windows preferred).1 := by
  by_cases hpreferred : preferred = []
  · unfold Overlay.applyPreferredBoxOrder
    rw [if_pos (.inl hpreferred)]
    exact h
  · rw [applyPreferredBoxOrder_eq hpreferred hpids]
    have hnumbers : ((windows.map (·.renumbered preferred windows)).map (·.number)).Perm _ := renumbered_numbers hpids
    refine ⟨hnumbers.nodup_iff.mpr List.nodup_range', fun window hwindow => ?_⟩
    exact (List.mem_range'_1.mp (hnumbers.mem_iff.mp (List.mem_map_of_mem hwindow))).1

theorem swap (h : Numbered windows) {a b : Nat} (ha : 0 < a) (hb : 0 < b)
    (hnumbers : windows'.map (·.number) = (windows.map (·.number)).map (Equiv.swap a b)) : Numbered windows' where
  nodup := by
    rw [hnumbers]
    exact h.nodup.map (Equiv.swap a b).injective
  positive := by
    intro window hwindow
    have hmem : window.number ∈ (windows.map (·.number)).map (Equiv.swap a b) :=
      hnumbers ▸ List.mem_map_of_mem hwindow
    rw [List.map_map] at hmem
    obtain ⟨u, hu, heq⟩ := List.mem_map.mp hmem
    rw [← heq, Function.comp_apply, Equiv.swap_apply_def]
    split_ifs
    · exact hb
    · exact ha
    · exact h.positive u hu

theorem eq_of_number (h : Numbered windows) {v w : EqWindow} (hv : v ∈ windows) (hw : w ∈ windows)
    (heq : v.number = w.number) : v = w := List.inj_on_of_nodup_map h.nodup hv hw heq

theorem exchangeWindowNumbers (h : Numbered windows) (hpids : (windows.map (·.pid)).Nodup) {firstPid secondPid a b : Nat}
    (hexchange : exchangeWindowNumbers windows firstPid secondPid = some (windows', a, b)) : Numbered windows' := by
  unfold Overlay.exchangeWindowNumbers at hexchange
  split at hexchange
  · rename_i first second hfirst hsecond
    obtain ⟨hfirstMem, rfl⟩ := find_pid hfirst
    obtain ⟨hsecondMem, rfl⟩ := find_pid hsecond
    split_ifs at hexchange with heq
    · cases hexchange
      exact h
    · cases hexchange
      refine h.swap (h.positive first hfirstMem) (h.positive second hsecondMem) ?_
      rw [updFirst_pid (numbered_pids _ _ _ ▸ hpids), updFirst_pid hpids, List.map_map, List.map_map, List.map_map]
      refine List.map_congr_left fun w hw => ?_
      simp only [Function.comp_apply]
      rw [Equiv.swap_apply_def]
      by_cases hwfirst : w.pid = first.pid
      · obtain rfl := eq_of_pid hpids hw hfirstMem hwfirst
        simp [heq]
      · have hnfirst : w.number ≠ first.number := fun hn => hwfirst (congrArg EqWindow.pid (h.eq_of_number hw hfirstMem hn))
        by_cases hwsecond : w.pid = second.pid
        · obtain rfl := eq_of_pid hpids hw hsecondMem hwsecond
          simp [hwfirst, hnfirst]
        · have hnsecond : w.number ≠ second.number :=
            fun hn => hwsecond (congrArg EqWindow.pid (h.eq_of_number hw hsecondMem hn))
          simp [hwfirst, hwsecond, hnfirst, hnsecond]
  · cases hexchange

/-- A client that gets another one's number gives its own in return. -/
theorem assignNumber (h : Numbered windows) (hpids : (windows.map (·.pid)).Nodup) {window : EqWindow}
    (hwindow : window ∈ windows) {newNumber : Nat} (hnew : 0 < newNumber) :
    Numbered (updFirst (updFirst windows (fun w => w.number = newNumber && w.pid ≠ window.pid)
      ({ · with number := window.number })) (·.pid = window.pid) ({ · with number := newNumber })) := by
  refine h.swap (h.positive window hwindow) hnew ?_
  have hkey (w : EqWindow) (hw : (decide (w.number = newNumber) && decide (w.pid ≠ window.pid)) = true) :
      w.number = newNumber := of_decide_eq_true (Bool.and_eq_true_iff.mp hw).1
  rw [updFirst_pid (numbered_pids _ _ _ ▸ hpids), updFirst_eq_map h.nodup hkey, List.map_map, List.map_map, List.map_map]
  refine List.map_congr_left fun w hw => ?_
  simp only [Function.comp_apply]
  rw [Equiv.swap_apply_def]
  by_cases htarget : w.pid = window.pid
  · obtain rfl := eq_of_pid hpids hw hwindow htarget
    simp
  · have hne : w.number ≠ window.number := fun hn => htarget (congrArg EqWindow.pid (h.eq_of_number hw hwindow hn))
    by_cases hnumber : w.number = newNumber
    · rw [hnumber] at hne
      simp [htarget, hne, hnumber]
    · simp [htarget, hne, hnumber]

end Numbered

namespace ClientRegistry
variable {c c' : ClientRegistry}

/-- The clients are distinct and numbered. -/
structure Counted (c : ClientRegistry) : Prop where
  loaded : c.loaded.Nodup
  numbered : Numbered c.windows

namespace Counted

theorem of_numbers (h : c.Counted) (hs : Same c c') (hnumbers : c'.windows.map (·.number) = c.windows.map (·.number)) :
    c'.Counted := ⟨by rw [hs.loaded]; exact h.loaded, h.numbered.of_numbers hnumbers⟩

theorem autoOrdered (h : c.Counted) (autoOrder : Bool) : (c.autoOrdered autoOrder).Counted := by
  refine h.of_numbers (.autoOrdered _ _) ?_
  unfold ClientRegistry.autoOrdered
  split_ifs <;> rfl

theorem preferOrder (h : c.Counted) : c.preferOrder.1.Counted :=
  ⟨by rw [(Same.preferOrder c).loaded]; exact h.loaded, h.numbered.applyPreferredBoxOrder h.loaded _⟩

theorem updateHandles (h : c.Counted) (found : List EqWindow) : (c.updateHandles found).Counted := by
  unfold ClientRegistry.updateHandles
  refine foldl_invariant (fun c window h => ⟨?_, h.numbered.of_numbers (updFirst_map _ fun _ _ => rfl)⟩) found h
  unfold ClientRegistry.loaded
  rw [updFirst_map]
  · exact h.loaded
  · exact fun _ _ => rfl

theorem focus (h : c.Counted) (pid : Nat) (autoOrder : Bool) : (c.focus pid autoOrder).Counted := by
  have hwindows : (c.promote pid maxPips).1.windows = c.windows := by
    unfold promote
    split
    · rfl
    · split_ifs <;> rfl
  have hpromoted : (c.promote pid maxPips).1.Counted := by
    constructor
    · unfold ClientRegistry.loaded
      rw [hwindows]
      exact h.loaded
    · rw [hwindows]
      exact h.numbered
  exact hpromoted.autoOrdered _

theorem focusOn (h : c.Counted) (focused : Option Nat) (autoOrder : Bool) : (c.focusOn focused autoOrder).Counted := by
  cases focused with
  | none => exact h
  | some pid => exact h.focus pid autoOrder

theorem trusikPollCharacters (h : c.Counted) (identities : Nat → Option (Str × Str)) (autoOrder : Bool) :
    (c.trusikPollCharacters identities autoOrder).Counted := by
  unfold ClientRegistry.trusikPollCharacters
  dsimp only
  have hpids := pollCharacters_pids identities c.windows c.observedIdentities
  have hnumbers := pollCharacters_numbers identities c.windows c.observedIdentities
  generalize pollCharacters identities c.windows c.observedIdentities = result at hpids hnumbers
  obtain ⟨windows, observed, changed⟩ := result
  have hset : Counted { c with windows, observedIdentities := observed } :=
    h.of_numbers ⟨hpids, rfl, .refl _⟩ hnumbers
  dsimp only
  split_ifs
  · exact hset.preferOrder.autoOrdered _
  · exact hset

theorem remove (h : c.Counted) (pid : Nat) : (c.remove pid).Counted := by
  constructor
  · rw [remove_loaded]
    exact h.loaded.sublist List.filter_sublist
  · rw [remove_windows]
    exact h.numbered.filter _

theorem added (h : c.Counted) (found : List EqWindow) (focused : Option Nat) (pids : List Nat)
    (hpids : (c.loaded ++ pids).Nodup) : (pids.foldl (addFound found focused) c).Counted := by
  induction pids generalizing c with
  | nil => exact h
  | cons pid rest ih =>
    rw [List.foldl_cons]
    cases hfind : found.find? (·.pid = pid) with
    | none =>
      have hstep : addFound found focused c pid = c := by
        unfold addFound
        rw [hfind]
      rw [hstep]
      exact ih h (hpids.sublist ((List.sublist_cons_self pid rest).append_left _))
    | some window =>
      obtain ⟨preferActive, hstep⟩ : ∃ preferActive, addFound found focused c pid =
          c.add { hwnd := window.hwnd, pid, number := nextAvailableNumber c.windows } preferActive := by
        unfold addFound
        rw [hfind]
        exact ⟨_, rfl⟩
      rw [hstep]
      have hloaded := add_loaded c { hwnd := window.hwnd, pid, number := nextAvailableNumber c.windows } preferActive
      rw [List.append_cons] at hpids
      refine ih ⟨?_, ?_⟩ ?_
      · rw [hloaded]
        exact hpids.sublist (List.sublist_append_left _ _)
      · rw [add_windows]
        exact h.numbered.append _ _
      · rw [hloaded]
        exact hpids

theorem ensureActive (h : c.Counted) : c.ensureActive.Counted := by
  unfold ClientRegistry.ensureActive
  split <;> exact ⟨h.loaded, h.numbered⟩

theorem poll (h : c.Counted) (p : Poll) : (c.poll p).Counted := by
  unfold ClientRegistry.poll
  dsimp only
  split_ifs
  · exact ((h.updateHandles _).focusOn _ _).trusikPollCharacters _ _
  · have hremoved : ((p.order.visit (c.pids \ (p.windows.map (·.pid)).toFinset)).foldl ClientRegistry.remove c).Counted :=
      foldl_invariant (fun c pid h => h.remove pid) _ h
    have hloaded (pids : List Nat) : (pids.foldl ClientRegistry.remove c).loaded ⊆ c.loaded := by
      refine foldl_invariant (I := fun c' : ClientRegistry => c'.loaded ⊆ c.loaded) (fun c' pid hsub => ?_) pids (List.Subset.refl _)
      rw [remove_loaded]
      exact fun k hk => hsub (List.mem_of_mem_filter hk)
    have hnew := hloaded (p.order.visit (c.pids \ (p.windows.map (·.pid)).toFinset))
    generalize (p.order.visit (c.pids \ (p.windows.map (·.pid)).toFinset)).foldl ClientRegistry.remove c = c₁ at hremoved hnew
    have hadded : (c₁.loaded ++ p.order.visit ((p.windows.map (·.pid)).toFinset \ c.pids)).Nodup := by
      refine hremoved.loaded.append (p.order.nodup_visit _) fun pid hpid hin => ?_
      exact (Finset.mem_sdiff.mp ((p.order.mem_visit _ pid).mp hin)).2 ((mem_pids pid).mpr (hnew hpid))
    have hfocused := ((hremoved.added p.windows (focusedForegroundPid p.windows p.foreground p.focused) _ hadded).ensureActive).focusOn
      (focusedForegroundPid p.windows p.foreground p.focused) p.autoOrder
    have htruncated : (ClientRegistry.truncatePips _ maxPips).Counted := ⟨hfocused.loaded, hfocused.numbered⟩
    exact (((htruncated.updateHandles _).trusikPollCharacters _ _).preferOrder).autoOrdered _

theorem set_windows (h : c.Counted) {windows : List EqWindow} (hpids : windows.map (·.pid) = c.windows.map (·.pid))
    (hwindows : Numbered windows) : Counted { c with windows } :=
  ⟨by unfold ClientRegistry.loaded; rw [hpids]; exact h.loaded, hwindows⟩

theorem activatePid (h : c.Counted) (targetPid : Nat) (request finalRequest : ForegroundRequest) (autoOrder : Bool) :
    (c.activatePid targetPid request finalRequest autoOrder).1.Counted := by
  unfold ClientRegistry.activatePid
  split_ifs
  · exact h
  · exact h
  · exact h
  · split
    · exact h
    · rename_i pipIndex _
      unfold swapTo
      split
      · exact h
      · rename_i newActivePid _
        have hpromoted := h.focus newActivePid false
        unfold ClientRegistry.focus at hpromoted
        dsimp only at hpromoted ⊢
        rw [Bool.and_false] at hpromoted
        have hrestored := (promote_frame c newActivePid maxPips).1
        generalize c.promote newActivePid maxPips = result at hpromoted hrestored ⊢
        obtain ⟨c', changed⟩ := result
        cases changed with
        | false => split_ifs <;> first | exact h | exact hpromoted
        | true =>
          dsimp only at hrestored ⊢
          split_ifs
          · exact h
          · exact h
          · exact h
          · rw [hrestored]
            exact h
          · exact ClientRegistry.Counted.autoOrdered hpromoted _

theorem swapActiveWindowNumbers (h : c.Counted) (targetPid : Nat) (autoOrder : Bool) :
    (c.swapActiveWindowNumbers targetPid autoOrder).1.Counted := by
  unfold ClientRegistry.swapActiveWindowNumbers
  split
  · exact h
  · split_ifs
    · exact h
    · split
      · exact h
      · rename_i hexchange
        have hset := h.set_windows (exchangeWindowNumbers_pids hexchange) (h.numbered.exchangeWindowNumbers h.loaded hexchange)
        exact hset.autoOrdered _

theorem reorderPips (h : c.Counted) (fromPid toPid : Nat) (autoOrder : Bool) :
    (c.reorderPips fromPid toPid autoOrder).Counted := by
  have hset : (c.exchangePipNumbers fromPid toPid autoOrder).Counted := by
    unfold exchangePipNumbers
    split
    · rename_i hexchange
      exact h.set_windows (exchangeWindowNumbers_pids hexchange) (h.numbered.exchangeWindowNumbers h.loaded hexchange)
    · exact h
  unfold ClientRegistry.reorderPips
  split_ifs
  · exact h
  · split
    · rename_i fromIndex toIndex _ _
      dsimp only
      generalize c.exchangePipNumbers fromPid toPid autoOrder = c' at hset ⊢
      unfold swapPips
      split
      · exact ⟨hset.loaded, hset.numbered⟩
      · exact hset
    · exact h

theorem assignCharacter (h : c.Counted) (targetPid : Nat) (character server : Str) (autoOrder : Bool) :
    (c.assignCharacter targetPid character server autoOrder).Counted := by
  unfold ClientRegistry.assignCharacter
  split_ifs
  · exact h
  · have hset (windows : List EqWindow) (hpids : windows.map (·.pid) = c.windows.map (·.pid))
        (hnumbers : windows.map (·.number) = c.windows.map (·.number)) : Counted { c with windows } :=
      h.set_windows hpids (h.numbered.of_numbers hnumbers)
    refine ((hset _ ?_ ?_).preferOrder).autoOrdered _ <;> exact updFirst_map _ fun _ _ => rfl

theorem assignNumber (h : c.Counted) (targetPid entry : Nat) : (c.assignNumber targetPid entry).Counted := by
  unfold ClientRegistry.assignNumber
  dsimp only
  split
  · exact h
  · rename_i window hfind
    obtain ⟨hmem, rfl⟩ := find_pid hfind
    rw [if_pos (h.numbered.positive window hmem)]
    refine h.set_windows ?_ (h.numbered.assignNumber h.loaded hmem (Nat.succ_pos entry))
    exact ((numbered_pids _ _ _).trans (numbered_pids _ _ _)).symm

theorem step (h : c.Counted) (event : Event) : (c.step event).Counted := by
  cases event with
  | poll p => exact h.poll p
  | foregroundChange foreground focused autoOrder => exact h.focusOn _ _
  | activatePid targetPid request finalRequest autoOrder => exact h.activatePid _ _ _ _
  | swapActiveWindowNumbers targetPid autoOrder => exact h.swapActiveWindowNumbers _ _
  | reorderPips fromPid toPid autoOrder => exact h.reorderPips _ _ _
  | assignCharacter targetPid character server autoOrder => exact h.assignCharacter _ _ _ _
  | assignNumber targetPid entry => exact h.assignNumber _ _
  | forceRebuild boxOrder autoOrder =>
    have hset : Counted { c with preferredOrder := boxOrder } := ⟨h.loaded, h.numbered⟩
    exact hset.preferOrder.autoOrdered _

theorem run (boxOrder : List BoxIdentity) (events : List Event) : (run boxOrder events).Counted :=
  foldl_invariant (fun _ event h => h.step event) events ⟨List.nodup_nil, .nil⟩

end Counted

end ClientRegistry
end Stonemite.Overlay
