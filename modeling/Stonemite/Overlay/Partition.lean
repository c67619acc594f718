import Stonemite.Overlay.EventLoop
import Stonemite.Lib.Run

/-!
# The active client and the PiP list

The visible clients are the active one and the PiPs. `Partition` says that they are loaded and that none is visible
twice; every operation is described by what it does to the visible clients. `Shows` describes an operation by the clients
it shows and hides; `Held` is kept by one event (`Held.step`) and by a run (`Held.run`).
-/

open Std

namespace Stonemite.Overlay

section updFirst
variable {windows : List EqWindow} {p : EqWindow → Bool} {f : EqWindow → EqWindow}

theorem updFirst_map {β : Type} (key : EqWindow → β) (hf : ∀ window, p window = true → key (f window) = key window) :
    (updFirst windows p f).map key = windows.map key := by
  induction windows with
  | nil => rfl
  | cons window rest ih =>
    unfold updFirst
    split_ifs with hp
    · rw [List.map_cons, List.map_cons, hf window hp]
    · rw [List.map_cons, List.map_cons, ih]

end updFirst

theorem renumber_pids (entries : List Ranked) (index : Nat) (result : List EqWindow × Bool) :
    (renumber entries index result).1.map (·.pid) = result.1.map (·.pid) := by
  induction entries generalizing index result with
  | nil => rfl
  | cons entry rest ih =>
    obtain ⟨windows, changed⟩ := result
    unfold renumber
    dsimp only
    rw [ih]
    split
    · split_ifs
      · exact updFirst_map _ fun _ _ => rfl
      · rfl
    · rfl

theorem applyPreferredBoxOrder_pids (windows : List EqWindow) (preferred : List BoxIdentity) :
    (applyPreferredBoxOrder windows preferred).1.map (·.pid) = windows.map (·.pid) := by
  unfold applyPreferredBoxOrder
  split_ifs
  · rfl
  · exact renumber_pids _ _ _

theorem exchangeWindowNumbers_pids {windows windows' : List EqWindow} {firstPid secondPid a b : Nat}
    (h : exchangeWindowNumbers windows firstPid secondPid = some (windows', a, b)) :
    windows'.map (·.pid) = windows.map (·.pid) := by
  unfold exchangeWindowNumbers at h
  split at h
  · split_ifs at h
    · cases h
      rfl
    · cases h
      refine (updFirst_map _ ?_).trans (updFirst_map _ ?_) <;> exact fun _ _ => rfl
  · cases h

theorem reconcileIdentity_pid (observed : ExtTreeMap Nat (Str × Str)) (window : EqWindow) (character server : Str) :
    (reconcileIdentity observed window character server).2.1.pid = window.pid := by
  unfold reconcileIdentity
  dsimp only
  split_ifs <;> rfl

theorem pollCharacters_pids (identities : Nat → Option (Str × Str)) (windows : List EqWindow)
    (observed : ExtTreeMap Nat (Str × Str)) :
    (pollCharacters identities windows observed).1.map (·.pid) = windows.map (·.pid) := by
  induction windows generalizing observed with
  | nil => rfl
  | cons window rest ih =>
    unfold pollCharacters
    dsimp only
    rw [List.map_cons, List.map_cons, ih]
    congr 1
    split
    · exact reconcileIdentity_pid _ _ _ _
    · rfl

namespace ClientRegistry
variable {c c' c'' : ClientRegistry}

/-- The processes of the windows, in their order. -/
def loaded (c : ClientRegistry) : List Nat := c.windows.map (·.pid)

/-- The active client and the PiPs. -/
def visible (c : ClientRegistry) : List Nat := c.activePid.toList ++ c.pipOrder

theorem any_pid_iff (pid : Nat) : c.windows.any (·.pid = pid) = true ↔ pid ∈ c.loaded := by
  unfold loaded
  rw [List.any_eq_true, List.mem_map]
  simp only [decide_eq_true_eq]

theorem mem_pids (pid : Nat) : pid ∈ c.pids ↔ pid ∈ c.loaded := List.mem_toFinset

/-- The same clients are loaded, active and shown; the PiPs may be in another order. -/
structure Same (c c' : ClientRegistry) : Prop where
  loaded : c'.loaded = c.loaded
  activePid : c'.activePid = c.activePid
  pipOrder : c'.pipOrder.Perm c.pipOrder

namespace Same

theorem refl (c : ClientRegistry) : Same c c := ⟨rfl, rfl, .refl _⟩

theorem trans (h : Same c c') (h' : Same c' c'') : Same c c'' :=
  ⟨h'.loaded.trans h.loaded, h'.activePid.trans h.activePid, h'.pipOrder.trans h.pipOrder⟩

theorem visible (h : Same c c') : c'.visible.Perm c.visible := by
  unfold ClientRegistry.visible
  rw [h.activePid]
  exact h.pipOrder.append_left _

theorem autoOrdered (c : ClientRegistry) (autoOrder : Bool) : Same c (c.autoOrdered autoOrder) := by
  unfold ClientRegistry.autoOrdered
  split_ifs
  · exact ⟨rfl, rfl, sortBy_perm _⟩
  · exact refl c

theorem preferOrder (c : ClientRegistry) : Same c c.preferOrder.1 :=
  ⟨applyPreferredBoxOrder_pids _ _, rfl, .refl _⟩

theorem updateHandles (c : ClientRegistry) (found : List EqWindow) : Same c (c.updateHandles found) := by
  unfold ClientRegistry.updateHandles
  induction found generalizing c with
  | nil => exact refl c
  | cons window rest ih =>
    refine (⟨?_, rfl, .refl _⟩ : Same c { c with
      windows := updFirst c.windows (·.pid = window.pid) ({ · with hwnd := window.hwnd }) }).trans (ih _)
    exact updFirst_map _ fun _ _ => rfl

theorem trusikPollCharacters (c : ClientRegistry) (identities : Nat → Option (Str × Str)) (autoOrder : Bool) :
    Same c (c.trusikPollCharacters identities autoOrder) := by
  unfold ClientRegistry.trusikPollCharacters
  dsimp only
  generalize hpoll : pollCharacters identities c.windows c.observedIdentities = result
  obtain ⟨windows, observed, changed⟩ := result
  have hpids := pollCharacters_pids identities c.windows c.observedIdentities
  rw [hpoll] at hpids
  have hset : Same c { c with windows, observedIdentities := observed } := ⟨hpids, rfl, .refl _⟩
  dsimp only
  split_ifs
  · exact (hset.trans (preferOrder _)).trans (autoOrdered _ _)
  · exact hset

theorem swapPips {first second : Nat} (h : c.swapPips first second = some c') : Same c c' := by
  unfold ClientRegistry.swapPips at h
  split at h
  · rename_i a b ha hb
    cases h
    obtain ⟨hfirst, rfl⟩ := List.getElem?_eq_some_iff.mp ha
    obtain ⟨hsecond, rfl⟩ := List.getElem?_eq_some_iff.mp hb
    exact ⟨rfl, rfl, List.set_set_perm hfirst hsecond⟩
  · cases h

theorem reorderPips (c : ClientRegistry) (fromPid toPid : Nat) (autoOrder : Bool) :
    Same c (c.reorderPips fromPid toPid autoOrder) := by
  have hset : Same c (c.exchangePipNumbers fromPid toPid autoOrder) := by
    unfold exchangePipNumbers
    split
    · rename_i hexchange
      exact ⟨exchangeWindowNumbers_pids hexchange, rfl, .refl _⟩
    · exact refl c
  unfold ClientRegistry.reorderPips
  by_cases heq : fromPid = toPid
  · rw [if_pos heq]
    exact refl c
  · rw [if_neg heq]
    split
    · rename_i fromIndex toIndex _ _
      dsimp only
      cases hswap : (c.exchangePipNumbers fromPid toPid autoOrder).swapPips fromIndex toIndex with
      | none => exact hset
      | some c' => exact hset.trans (swapPips hswap)
    · exact refl c

theorem assignCharacter (c : ClientRegistry) (targetPid : Nat) (character server : Str) (autoOrder : Bool) :
    Same c (c.assignCharacter targetPid character server autoOrder) := by
  unfold ClientRegistry.assignCharacter
  split_ifs
  · exact refl c
  · have hset (windows : List EqWindow) (hw : windows.map (·.pid) = c.windows.map (·.pid)) :
        Same c { c with windows } := ⟨hw, rfl, .refl _⟩
    refine ((hset _ ?_).trans (preferOrder _)).trans (autoOrdered _ _)
    exact updFirst_map _ fun _ _ => rfl

theorem assignNumber (c : ClientRegistry) (targetPid entry : Nat) : Same c (c.assignNumber targetPid entry) := by
  unfold ClientRegistry.assignNumber
  dsimp only
  split
  · exact refl c
  · refine ⟨?_, rfl, .refl _⟩
    refine (updFirst_map _ ?_).trans (updFirst_map _ ?_) <;> exact fun _ _ => rfl

theorem forceRebuild (c : ClientRegistry) (boxOrder : List BoxIdentity) (autoOrder : Bool) :
    Same c (c.forceRebuild boxOrder autoOrder) := by
  have hset : Same c { c with preferredOrder := boxOrder } := ⟨rfl, rfl, .refl _⟩
  exact (hset.trans (preferOrder _)).trans (autoOrdered _ _)

theorem swapActiveWindowNumbers (c : ClientRegistry) (targetPid : Nat) (autoOrder : Bool) :
    Same c (c.swapActiveWindowNumbers targetPid autoOrder).1 := by
  unfold ClientRegistry.swapActiveWindowNumbers
  split
  · exact refl c
  · split_ifs
    · exact refl c
    · split
      · exact refl c
      · rename_i hexchange
        have hset : Same c { c with windows := _ } := ⟨exchangeWindowNumbers_pids hexchange, rfl, .refl _⟩
        exact hset.trans (autoOrdered _ _)

end Same

/-! ### What the operations do to the visible clients -/

theorem remove_windows (c : ClientRegistry) (pid : Nat) : (c.remove pid).windows = c.windows.filter (·.pid ≠ pid) := by
  unfold remove
  dsimp only
  split_ifs
  · split <;> rfl
  · rfl

theorem remove_loaded (c : ClientRegistry) (pid : Nat) : (c.remove pid).loaded = c.loaded.filter (· ≠ pid) := by
  unfold loaded
  rw [remove_windows, List.filter_map]
  rfl

theorem filter_ne_cons_of_nodup {first : Nat} {rest : List Nat} (h : (first :: rest).Nodup) :
    (first :: rest).filter (· ≠ first) = rest := by
  rw [List.filter_cons_of_neg (by simp)]
  refine List.filter_eq_self.mpr fun pid hpid => ?_
  have hne : pid ≠ first := fun heq => (List.nodup_cons.mp h).1 (heq ▸ hpid)
  exact decide_eq_true hne

theorem remove_visible (h : c.visible.Nodup) (pid : Nat) : (c.remove pid).visible = c.visible.filter (· ≠ pid) := by
  have hpips : (c.pipOrder.filter (· ≠ pid)).Nodup :=
    (h.sublist (List.sublist_append_right _ _)).sublist List.filter_sublist
  unfold remove visible
  dsimp only
  rw [List.filter_append]
  by_cases hactive : c.activePid = some pid
  · rw [if_pos hactive, hactive]
    generalize c.pipOrder.filter (· ≠ pid) = pips at hpips ⊢
    have hnone : ((some pid).toList).filter (· ≠ pid) = [] := by simp
    rw [hnone]
    cases pips with
    | nil => rfl
    | cons promoted rest =>
      show promoted :: (promoted :: rest).filter (· ≠ promoted) = promoted :: rest
      rw [filter_ne_cons_of_nodup hpips]
  · rw [if_neg hactive]
    dsimp only
    congr 1
    cases hc : c.activePid with
    | none => rfl
    | some active =>
      have hne : active ≠ pid := fun heq => hactive (by rw [hc, heq])
      simp [hne]

theorem add_windows (c : ClientRegistry) (window : EqWindow) (preferActive : Bool) :
    (c.add window preferActive).windows = c.windows ++ [window] := by
  unfold add
  dsimp only
  split_ifs <;> rfl

theorem add_loaded (c : ClientRegistry) (window : EqWindow) (preferActive : Bool) :
    (c.add window preferActive).loaded = c.loaded ++ [window.pid] := by
  unfold loaded
  rw [add_windows, List.map_append]
  rfl

theorem add_visible (c : ClientRegistry) (window : EqWindow) (preferActive : Bool) :
    (c.add window preferActive).visible.Perm (c.visible ++ [window.pid]) := by
  unfold add visible
  dsimp only
  split_ifs with hprefer
  · have hnone : c.activePid = none := by
      rw [Bool.and_eq_true, Option.isNone_iff_eq_none] at hprefer
      exact hprefer.1
    rw [hnone]
    exact List.perm_append_comm
  · rw [List.append_assoc]

theorem ensureActive_visible (h : c.visible.Nodup) : c.ensureActive.visible = c.visible := by
  unfold ensureActive visible
  cases hactive : c.activePid with
  | some active => simp [hactive]
  | none =>
    cases hpips : c.pipOrder with
    | nil => simp [hactive, hpips]
    | cons first rest =>
      have hnodup : (first :: rest).Nodup := hpips ▸ h.sublist (List.sublist_append_right _ _)
      show first :: (first :: rest).filter (· ≠ first) = first :: rest
      rw [filter_ne_cons_of_nodup hnodup]

theorem ensureActive_loaded (c : ClientRegistry) : c.ensureActive.loaded = c.loaded := by
  unfold ensureActive
  split <;> rfl

/-! ### The partition -/

/-- The visible clients are loaded, and none is visible twice. -/
structure Partition (c : ClientRegistry) : Prop where
  loaded : c.loaded.Nodup
  visible : c.visible.Nodup
  known : c.visible ⊆ c.loaded

/-- Without an active client there are no PiPs. -/
def Headed (c : ClientRegistry) : Prop := c.activePid = none → c.pipOrder = []

theorem Partition.same (h : c.Partition) (hs : Same c c') : c'.Partition where
  loaded := by rw [hs.loaded]; exact h.loaded
  visible := hs.visible.nodup_iff.mpr h.visible
  known := by rw [hs.loaded]; exact fun pid hpid => h.known (hs.visible.mem_iff.mp hpid)

theorem Headed.same (h : c.Headed) (hs : Same c c') : c'.Headed := by
  intro hnone
  rw [hs.activePid] at hnone
  exact List.perm_nil.mp (h hnone ▸ hs.pipOrder)

theorem Headed.length (h : c.Headed) : c.visible.length = 0 ∧ c.activePid = none ∧ c.pipOrder = [] ∨
    c.visible.length = c.pipOrder.length + 1 ∧ c.activePid.isSome := by
  unfold visible
  cases hactive : c.activePid with
  | none => exact .inl ⟨by simp [h hactive], rfl, h hactive⟩
  | some active => exact .inr ⟨by simp, rfl⟩

theorem remove_headed (h : c.Headed) (pid : Nat) : (c.remove pid).Headed := by
  unfold remove
  dsimp only
  split_ifs with hactive
  · split
    · exact nofun
    · rename_i hnone
      exact fun _ => List.head?_eq_none_iff.mp hnone
  · intro hnone
    show c.pipOrder.filter (· ≠ pid) = []
    rw [h hnone]
    rfl

theorem ensureActive_headed (c : ClientRegistry) : c.ensureActive.Headed := by
  unfold ensureActive
  split
  · exact nofun
  · rename_i hne
    intro hnone
    cases hpips : c.pipOrder with
    | nil => rfl
    | cons first rest => exact absurd (by rw [hpips]; rfl) (hne first hnone)

section promote
variable {pid active i : Nat}

theorem promote_active (h : c.activePid = some pid) : c.promote pid maxPips = (c, false) := by
  have hnone : exchangeActiveWithPip c.activePid c.pipOrder pid = none := if_pos h
  unfold promote
  rw [hnone]
  dsimp only
  rw [if_pos]
  rw [h, decide_eq_true rfl, Bool.true_or]

theorem promote_pip (h : c.activePid = some active) (hne : active ≠ pid) (hi : c.pipOrder.idxOf? pid = some i) :
    c.promote pid maxPips = ({ c with activePid := some pid, pipOrder := c.pipOrder.set i active }, true) := by
  have hsome : exchangeActiveWithPip c.activePid c.pipOrder pid = some (some pid, c.pipOrder.set i active) := by
    unfold exchangeActiveWithPip
    rw [h, if_neg fun heq => hne (Option.some.inj heq), hi]
  unfold promote
  rw [hsome]

/-- A hidden client takes the place of the active one, which becomes the last PiP. -/
theorem promote_hidden (hpid : pid ∈ c.loaded) (hhidden : pid ∉ c.visible) :
    c.promote pid maxPips = ({ c with
      activePid := some pid
      pipOrder := match c.activePid with
        | none => c.pipOrder
        | some previous =>
          if c.pipOrder.length < maxPips then c.pipOrder ++ [previous]
          else (c.pipOrder.set (maxPips - 1) previous).take maxPips }, true) := by
  have hactive : c.activePid ≠ some pid := by
    intro heq
    refine hhidden (List.mem_append_left _ ?_)
    rw [heq]
    exact List.mem_singleton_self pid
  have hpip : pid ∉ c.pipOrder := fun hmem => hhidden (List.mem_append_right _ hmem)
  have hnone : exchangeActiveWithPip c.activePid c.pipOrder pid = none := by
    unfold exchangeActiveWithPip
    rw [if_neg hactive, List.idxOf?_eq_none_iff.mpr hpip]
  unfold promote
  rw [hnone]
  dsimp only
  rw [if_neg]
  · rfl
  · rw [(any_pid_iff pid).mpr hpid, decide_eq_false hactive]
    exact Bool.false_ne_true

end promote

/-- A loaded client becomes active: among the visible ones it changes places, otherwise it is one more, or the
last PiP makes room for the client that was active. -/
theorem promote_cases (h : c.Partition) (hh : c.Headed) {pid : Nat} (hpid : pid ∈ c.loaded) :
    (c.promote pid maxPips).1.loaded = c.loaded ∧ (c.promote pid maxPips).1.activePid.isSome ∧
      ((pid ∈ c.visible ∧ (c.promote pid maxPips).1.visible.Perm c.visible) ∨
        (pid ∉ c.visible ∧ c.pipOrder.length < maxPips ∧
          (c.promote pid maxPips).1.visible.Perm (pid :: c.visible)) ∨
        (pid ∉ c.visible ∧ maxPips ≤ c.pipOrder.length ∧ (c.promote pid maxPips).1.pipOrder.length = maxPips ∧
          (c.promote pid maxPips).1.visible.Nodup ∧
          (c.promote pid maxPips).1.visible ⊆ pid :: c.visible)) := by
  have hvisible : c.visible = c.activePid.toList ++ c.pipOrder := rfl
  by_cases hmem : pid ∈ c.visible
  · cases hactive : c.activePid with
    | none =>
      rw [hvisible, hactive, hh hactive] at hmem
      cases hmem
    | some active =>
      rw [hactive] at hvisible
      by_cases hsame : active = pid
      · rw [promote_active (hsame ▸ hactive)]
        exact ⟨rfl, by rw [hactive]; rfl, .inl ⟨hmem, .refl _⟩⟩
      · have hpip : pid ∈ c.pipOrder := by
          rw [hvisible] at hmem
          rcases List.mem_append.mp hmem with hmem | hmem
          · exact absurd (List.mem_singleton.mp hmem).symm hsame
          · exact hmem
        cases hi : c.pipOrder.idxOf? pid with
        | none => exact absurd hpip (List.idxOf?_eq_none_iff.mp hi)
        | some i =>
          rw [promote_pip hactive hsame hi]
          obtain ⟨hlt, hget, -⟩ := List.idxOf?_eq_some_iff.mp hi
          refine ⟨rfl, rfl, .inl ⟨hmem, ?_⟩⟩
          show (pid :: c.pipOrder.set i active).Perm c.visible
          rw [hvisible]
          have hset := (List.set_perm_cons_eraseIdx hlt active).cons pid
          have hback := (List.getElem_cons_eraseIdx_perm hlt).cons active
          rw [hget] at hback
          exact (hset.trans (.swap ..)).trans hback
  · rw [promote_hidden hpid hmem]
    refine ⟨rfl, rfl, .inr ?_⟩
    cases hactive : c.activePid with
    | none =>
      refine .inl ⟨hmem, by rw [hh hactive]; decide, ?_⟩
      rw [hvisible, hactive]
      exact .refl _
    | some active =>
      rw [hactive] at hvisible
      dsimp only
      by_cases hlen : c.pipOrder.length < maxPips
      · rw [if_pos hlen, hvisible]
        refine .inl ⟨hvisible ▸ hmem, hlen, ?_⟩
        show (pid :: (c.pipOrder ++ [active])).Perm (pid :: ([active] ++ c.pipOrder))
        exact List.perm_append_comm.cons pid
      · rw [if_neg hlen]
        have hlt : maxPips - 1 < c.pipOrder.length := Nat.lt_of_lt_of_le (by decide) (Nat.not_lt.mp hlen)
        have hset := List.set_perm_cons_eraseIdx hlt active
        have hsub : (c.pipOrder.set (maxPips - 1) active).take maxPips ⊆ c.visible := by
          intro k hk
          rw [hvisible]
          rcases List.mem_cons.mp (hset.mem_iff.mp (List.mem_of_mem_take hk)) with rfl | hk
          · exact List.mem_cons_self
          · exact List.mem_cons_of_mem _ (List.mem_of_mem_eraseIdx hk)
        refine .inr ⟨hmem, Nat.not_lt.mp hlen, ?_, ?_, ?_⟩
        · rw [List.length_take, List.length_set]
          exact Nat.min_eq_left (Nat.not_lt.mp hlen)
        · refine List.nodup_cons.mpr ⟨fun hin => hmem (hsub hin), ?_⟩
          have hnodup : (active :: c.pipOrder.eraseIdx (maxPips - 1)).Nodup := by
            have hvis := h.visible
            rw [hvisible] at hvis
            exact hvis.sublist ((List.eraseIdx_sublist _ _).cons_cons active)
          exact (hset.nodup_iff.mpr hnodup).sublist (List.take_sublist _ _)
        · intro k hk
          rcases List.mem_cons.mp hk with rfl | hk
          · exact List.mem_cons_self
          · exact List.mem_cons_of_mem _ (hsub hk)

/-! ### The poll -/

/-- What a poll shows: the clients in `shown`, unless they are too many. -/
structure Shows (c : ClientRegistry) (shown : Finset Nat) : Prop where
  partition : c.Partition
  headed : c.Headed
  bounded : c.pipOrder.length ≤ maxPips
  few : shown.card ≤ maxPips + 1 → c.visible.toFinset = shown
  many : maxPips + 1 ≤ shown.card → c.pipOrder.length = maxPips

theorem Shows.same {shown : Finset Nat} (h : c.Shows shown) (hs : Same c c') : c'.Shows shown where
  partition := h.partition.same hs
  headed := h.headed.same hs
  bounded := by rw [hs.pipOrder.length_eq]; exact h.bounded
  few hcard := by rw [List.toFinset_eq_of_perm _ _ hs.visible]; exact h.few hcard
  many hcard := by rw [hs.pipOrder.length_eq]; exact h.many hcard

theorem truncated_shows {shown : Finset Nat} (h : c.Partition) (hh : c.Headed)
    (hshown : c.visible.toFinset = shown ∨ maxPips + 1 < shown.card ∧ c.pipOrder.length = maxPips) :
    (c.truncatePips maxPips).Shows shown := by
  have hsub : (c.truncatePips maxPips).visible.Sublist c.visible :=
    (List.take_sublist _ _).append_left _
  have hlength : (c.truncatePips maxPips).pipOrder.length = min maxPips c.pipOrder.length := List.length_take
  have hcard : c.visible.toFinset.card = c.visible.length := List.toFinset_card_of_nodup h.visible
  constructor
  case partition => exact ⟨h.loaded, h.visible.sublist hsub, fun pid hpid => h.known (hsub.subset hpid)⟩
  case headed =>
    intro hnone
    show c.pipOrder.take maxPips = []
    rw [hh hnone]
    rfl
  case bounded => omega
  case few =>
    intro hfew
    rcases hshown with rfl | ⟨hmany, -⟩
    · have hpips : c.pipOrder.length ≤ maxPips := by
        rcases hh.length with ⟨-, -, hnil⟩ | ⟨hlen, -⟩
        · rw [hnil]
          exact Nat.zero_le _
        · omega
      show (c.activePid.toList ++ c.pipOrder.take maxPips).toFinset = c.visible.toFinset
      rw [List.take_of_length_le hpips]
      rfl
    · omega
  case many =>
    intro hmany
    rcases hshown with rfl | ⟨-, hpips⟩
    · rcases hh.length with ⟨hlen, -⟩ | ⟨hlen, -⟩ <;> omega
    · omega

theorem focused_shows (h : c.Partition) (hh : c.Headed) {focused : Option Nat}
    (hfocused : ∀ pid, focused = some pid → pid ∈ c.loaded) (autoOrder : Bool) :
    (c.focusOn focused autoOrder).loaded = c.loaded ∧
    ((c.focusOn focused autoOrder).truncatePips maxPips).Shows (c.visible.toFinset ∪ focused.toFinset) := by
  unfold focusOn
  cases focused with
  | none => exact ⟨rfl, truncated_shows h hh (.inl (by simp))⟩
  | some pid =>
    obtain ⟨hloaded, hsome, hcases⟩ := promote_cases h hh (hfocused pid rfl)
    dsimp only
    have hs : Same (c.promote pid maxPips).1 (c.focus pid autoOrder) := .autoOrdered _ _
    have hunion : c.visible.toFinset ∪ (some pid).toFinset = insert pid c.visible.toFinset := by
      rw [Finset.union_comm]
      rfl
    refine ⟨hs.loaded.trans hloaded, ?_⟩
    rw [hunion]
    have hheaded : (c.focus pid autoOrder).Headed := by
      intro hnone
      rw [hs.activePid] at hnone
      rw [hnone] at hsome
      cases hsome
    have hknown {l : List Nat} (hl : l ⊆ pid :: c.visible) : l ⊆ c.loaded := by
      intro k hk
      rcases List.mem_cons.mp (hl hk) with rfl | hk
      · exact hfocused k rfl
      · exact h.known hk
    have hpart (hn : (c.promote pid maxPips).1.visible.Nodup)
        (hsub : (c.promote pid maxPips).1.visible ⊆ pid :: c.visible) : (c.focus pid autoOrder).Partition := by
      have hp : (c.promote pid maxPips).1.Partition :=
        ⟨by rw [hloaded]; exact h.loaded, hn, by rw [hloaded]; exact hknown hsub⟩
      exact hp.same hs
    have hset := List.toFinset_eq_of_perm _ _ hs.visible
    rcases hcases with ⟨hmem, hperm⟩ | ⟨hmem, hlen, hperm⟩ | ⟨hmem, hlen, hmax, hn, hsub⟩
    · refine truncated_shows (hpart (hperm.nodup_iff.mpr h.visible) fun k hk => ?_) hheaded (.inl ?_)
      · exact List.mem_cons_of_mem _ (hperm.mem_iff.mp hk)
      · rw [hset, List.toFinset_eq_of_perm _ _ hperm, Finset.insert_eq_of_mem (List.mem_toFinset.mpr hmem)]
    · have hn : (pid :: c.visible).Nodup := List.nodup_cons.mpr ⟨hmem, h.visible⟩
      refine truncated_shows (hpart (hperm.nodup_iff.mpr hn) fun k hk => hperm.mem_iff.mp hk) hheaded (.inl ?_)
      rw [hset, List.toFinset_eq_of_perm _ _ hperm, List.toFinset_cons]
    · refine truncated_shows (hpart hn hsub) hheaded (.inr ⟨?_, ?_⟩)
      · rw [Finset.card_insert_of_notMem fun hin => hmem (List.mem_toFinset.mp hin),
          List.toFinset_card_of_nodup h.visible]
        have hpos : 0 < maxPips := by decide
        rcases hh.length with ⟨-, -, hnil⟩ | ⟨hlength, -⟩
        · rw [hnil, List.length_nil] at hlen
          omega
        · omega
      · rw [hs.pipOrder.length_eq, hmax]

theorem removed_fold (pids : List Nat) (h : c.visible.Nodup) (hh : c.Headed) :
    (pids.foldl remove c).loaded = c.loaded.filter (· ∉ pids) ∧
      (pids.foldl remove c).visible = c.visible.filter (· ∉ pids) ∧ (pids.foldl remove c).Headed := by
  induction pids generalizing c with
  | nil => simpa using hh
  | cons pid rest ih =>
    have hvisible := remove_visible h pid
    obtain ⟨hl, hv, hheaded⟩ := ih (hvisible ▸ h.sublist List.filter_sublist) (remove_headed hh pid)
    have hfilter (l : List Nat) : (l.filter (· ≠ pid)).filter (· ∉ rest) = l.filter (· ∉ pid :: rest) := by
      rw [List.filter_filter]
      refine List.filter_congr fun k _ => ?_
      rw [← Bool.decide_and, decide_eq_decide, List.mem_cons, not_or, and_comm]
    rw [remove_loaded] at hl
    rw [hvisible] at hv
    rw [List.foldl_cons, hl, hv, hfilter, hfilter]
    exact ⟨rfl, rfl, hheaded⟩

theorem added_fold {found : List EqWindow} (focused : Option Nat) (pids : List Nat)
    (hfound : ∀ pid ∈ pids, pid ∈ found.map (·.pid)) :
    (pids.foldl (addFound found focused) c).loaded = c.loaded ++ pids ∧
      (pids.foldl (addFound found focused) c).visible.Perm (c.visible ++ pids) := by
  induction pids generalizing c with
  | nil => simp
  | cons pid rest ih =>
    obtain ⟨window, hwindow, hpid⟩ := List.mem_map.mp (hfound pid List.mem_cons_self)
    have hfind : (found.find? (·.pid = pid)).isSome :=
      List.find?_isSome.mpr ⟨window, hwindow, decide_eq_true hpid⟩
    obtain ⟨nw, hnw⟩ := Option.isSome_iff_exists.mp hfind
    have hadd : ∃ w preferActive, w.pid = pid ∧ addFound found focused c pid = c.add w preferActive := by
      unfold addFound
      rw [hnw]
      exact ⟨_, _, rfl, rfl⟩
    obtain ⟨w, preferActive, rfl, hadd⟩ := hadd
    obtain ⟨hl, hv⟩ := @ih (addFound found focused c w.pid) fun k hk => hfound k (List.mem_cons_of_mem _ hk)
    rw [List.foldl_cons]
    rw [hadd] at hl hv ⊢
    constructor
    · rw [hl, add_loaded, List.append_assoc]
      rfl
    · refine hv.trans ((add_visible c w preferActive).append_right rest |>.trans ?_)
      rw [List.append_assoc]
      rfl

/-- What holds between the events. -/
structure Held (c : ClientRegistry) : Prop where
  partition : c.Partition
  headed : c.Headed
  bounded : c.pipOrder.length ≤ maxPips

theorem Held.same (h : c.Held) (hs : Same c c') : c'.Held :=
  ⟨h.partition.same hs, h.headed.same hs, by rw [hs.pipOrder.length_eq]; exact h.bounded⟩

theorem Shows.held {shown : Finset Nat} (h : c.Shows shown) : c.Held := ⟨h.partition, h.headed, h.bounded⟩

theorem promote_bounded (h : c.Held) {pid : Nat} (hpid : pid ∈ c.loaded) :
    (c.promote pid maxPips).1.pipOrder.length ≤ maxPips := by
  obtain ⟨-, hsome, hcases⟩ := promote_cases h.partition h.headed hpid
  have hafter : (c.promote pid maxPips).1.visible.length = (c.promote pid maxPips).1.pipOrder.length + 1 := by
    obtain ⟨active, hactive⟩ := Option.isSome_iff_exists.mp hsome
    unfold visible
    rw [hactive]
    simp
  have hbounded := h.bounded
  have hbefore : c.visible.length ≤ c.pipOrder.length + 1 := by
    rcases h.headed.length with ⟨hlen, -⟩ | ⟨hlen, -⟩ <;> omega
  rcases hcases with ⟨-, hperm⟩ | ⟨-, hlen, hperm⟩ | ⟨-, -, hmax, -⟩
  · have := hperm.length_eq
    omega
  · have := hperm.length_eq
    rw [List.length_cons] at this
    omega
  · omega

theorem truncatePips_of_bounded (h : c.pipOrder.length ≤ maxPips) : c.truncatePips maxPips = c := by
  unfold truncatePips
  rw [List.take_of_length_le h]

theorem focus_held (h : c.Held) {pid : Nat} (hpid : pid ∈ c.loaded) (autoOrder : Bool) :
    (c.focus pid autoOrder).Held := by
  have hbounded : (c.focus pid autoOrder).pipOrder.length ≤ maxPips := by
    have hs : Same (c.promote pid maxPips).1 (c.focus pid autoOrder) := .autoOrdered _ _
    rw [hs.pipOrder.length_eq]
    exact promote_bounded h hpid
  have hmem : ∀ k, some pid = some k → k ∈ c.loaded := by
    rintro k ⟨⟩
    exact hpid
  have hshows := (focused_shows h.partition h.headed hmem autoOrder).2
  unfold focusOn at hshows
  dsimp only at hshows
  rw [truncatePips_of_bounded hbounded] at hshows
  exact hshows.held

theorem focusOn_held (h : c.Held) {focused : Option Nat} (hfocused : ∀ pid, focused = some pid → pid ∈ c.loaded)
    (autoOrder : Bool) : (c.focusOn focused autoOrder).Held := by
  cases focused with
  | none => exact h
  | some pid => exact focus_held h (hfocused pid rfl) autoOrder

/-- The focused client of a poll. -/
def focusedBy (c : ClientRegistry) (p : Poll) : Option Nat :=
  if c.pids = (p.windows.map (·.pid)).toFinset then
    focusedForegroundPid (c.updateHandles p.windows).windows p.foreground p.focused
  else focusedForegroundPid p.windows p.foreground p.focused

/-- The visible clients that are still loaded, the new ones and the focused one. -/
def shownBy (c : ClientRegistry) (p : Poll) : Finset Nat :=
  (c.visible.toFinset ∩ (p.windows.map (·.pid)).toFinset) ∪ ((p.windows.map (·.pid)).toFinset \ c.pids) ∪
    (c.focusedBy p).toFinset

theorem focusedForegroundPid_mem {windows : List EqWindow} {foreground pid : Nat} {focused : Bool}
    (h : focusedForegroundPid windows foreground focused = some pid) : pid ∈ windows.map (·.pid) := by
  obtain ⟨window, hwindow, rfl⟩ := Option.map_eq_some_iff.mp h
  exact List.mem_map_of_mem (List.mem_of_find?_eq_some hwindow)

theorem poll_shows (h : c.Held) (p : Poll) :
    (c.poll p).loaded.toFinset = (p.windows.map (·.pid)).toFinset ∧ (c.poll p).Shows (c.shownBy p) := by
  unfold poll shownBy focusedBy
  dsimp only
  by_cases hsame : c.pids = (p.windows.map (·.pid)).toFinset
  · rw [if_pos hsame, if_pos hsame]
    have hs := Same.updateHandles c p.windows
    have hheld := h.same hs
    have hloaded : (c.updateHandles p.windows).loaded.toFinset = (p.windows.map (·.pid)).toFinset := by
      rw [hs.loaded]
      exact hsame
    have hinter : c.visible.toFinset ∩ (p.windows.map (·.pid)).toFinset = c.visible.toFinset := by
      refine Finset.inter_eq_left.mpr fun pid hpid => ?_
      rw [← hsame]
      exact (mem_pids pid).mpr (h.partition.known (List.mem_toFinset.mp hpid))
    have hvisible := List.toFinset_eq_of_perm _ _ hs.visible
    rw [hinter, hsame, Finset.sdiff_self, Finset.union_empty, ← hvisible]
    generalize c.updateHandles p.windows = b at hheld hloaded
    have hmem : ∀ pid, focusedForegroundPid b.windows p.foreground p.focused = some pid → pid ∈ b.loaded :=
      fun pid => focusedForegroundPid_mem
    obtain ⟨hl, hshows⟩ := focused_shows hheld.partition hheld.headed hmem p.autoOrder
    have hbounded := (focusOn_held hheld hmem p.autoOrder).bounded
    rw [truncatePips_of_bounded hbounded] at hshows
    generalize b.focusOn (focusedForegroundPid b.windows p.foreground p.focused) p.autoOrder = d at hl hshows
    have hlast := Same.trusikPollCharacters d p.identities p.identityAutoOrder
    exact ⟨by rw [hlast.loaded, hl, hloaded], hshows.same hlast⟩
  · rw [if_neg hsame, if_neg hsame]
    generalize hfound : (p.windows.map (·.pid)).toFinset = found
    have hmemFound (pid : Nat) : pid ∈ p.windows.map (·.pid) ↔ pid ∈ found := by rw [← hfound, List.mem_toFinset]
    generalize hremoved : p.order.visit (c.pids \ found) = removed
    generalize hadded : p.order.visit (found \ c.pids) = added
    have hmemRemoved (pid : Nat) : pid ∈ removed ↔ pid ∈ c.loaded ∧ pid ∉ found := by
      rw [← hremoved, p.order.mem_visit, Finset.mem_sdiff, mem_pids]
    have hmemAdded (pid : Nat) : pid ∈ added ↔ pid ∈ found ∧ pid ∉ c.loaded := by
      rw [← hadded, p.order.mem_visit, Finset.mem_sdiff, mem_pids]
    have haddedNodup : added.Nodup := hadded ▸ p.order.nodup_visit _
    obtain ⟨hl₁, hv₁, hh₁⟩ := removed_fold removed h.partition.visible h.headed
    generalize removed.foldl remove c = c₁ at hl₁ hv₁ hh₁ ⊢
    obtain ⟨hl₂, hv₂⟩ := @added_fold c₁ p.windows (focusedForegroundPid p.windows p.foreground p.focused) added
      fun pid hpid => (hmemFound pid).mpr ((hmemAdded pid).mp hpid).1
    generalize added.foldl (addFound p.windows _) c₁ = c₂ at hl₂ hv₂ ⊢
    have hsub₁ (pid : Nat) (hpid : pid ∈ c₁.visible) : pid ∈ c.visible ∧ pid ∈ found := by
      rw [hv₁, List.mem_filter, decide_eq_true_eq] at hpid
      refine ⟨hpid.1, ?_⟩
      by_contra hnot
      exact hpid.2 ((hmemRemoved pid).mpr ⟨h.partition.known hpid.1, hnot⟩)
    have hp₂ : c₂.Partition := by
      constructor
      case loaded =>
        rw [hl₂, hl₁]
        refine (h.partition.loaded.sublist List.filter_sublist).append haddedNodup fun pid hpid hin => ?_
        exact ((hmemAdded pid).mp hin).2 (List.mem_of_mem_filter hpid)
      case visible =>
        rw [hv₂.nodup_iff, hv₁]
        refine (h.partition.visible.sublist List.filter_sublist).append haddedNodup fun pid hpid hin => ?_
        exact ((hmemAdded pid).mp hin).2 (h.partition.known (List.mem_of_mem_filter hpid))
      case known =>
        intro pid hpid
        rw [hl₂, hl₁]
        rcases List.mem_append.mp (hv₂.mem_iff.mp hpid) with hpid | hpid
        · refine List.mem_append_left _ (List.mem_filter.mpr ⟨h.partition.known (hsub₁ pid hpid).1, ?_⟩)
          exact decide_eq_true fun hin => ((hmemRemoved pid).mp hin).2 (hsub₁ pid hpid).2
        · exact List.mem_append_right _ hpid
    have hloaded₂ : c₂.loaded.toFinset = found := by
      ext pid
      rw [List.mem_toFinset, hl₂, hl₁, List.mem_append, List.mem_filter, hmemAdded, decide_eq_true_eq, hmemRemoved]
      by_cases hl : pid ∈ c.loaded <;> by_cases hf : pid ∈ found <;> simp [hl, hf]
    have hvisible₂ : c₂.visible.toFinset = (c.visible.toFinset ∩ found) ∪ (found \ c.pids) := by
      rw [List.toFinset_eq_of_perm _ _ hv₂]
      ext pid
      rw [List.mem_toFinset, List.mem_append, Finset.mem_union, Finset.mem_inter, Finset.mem_sdiff, mem_pids, hmemAdded,
        List.mem_toFinset]
      refine or_congr_left ⟨hsub₁ pid, fun hpid => ?_⟩
      rw [hv₁, List.mem_filter]
      exact ⟨hpid.1, decide_eq_true fun hin => ((hmemRemoved pid).mp hin).2 hpid.2⟩
    have hv₃ := ensureActive_visible hp₂.visible
    have hl₃ := ensureActive_loaded c₂
    have hp₃ : c₂.ensureActive.Partition :=
      ⟨by rw [hl₃]; exact hp₂.loaded, by rw [hv₃]; exact hp₂.visible, by rw [hl₃, hv₃]; exact hp₂.known⟩
    have hmem : ∀ pid, focusedForegroundPid p.windows p.foreground p.focused = some pid →
        pid ∈ c₂.ensureActive.loaded := by
      intro pid hpid
      rw [hl₃, ← List.mem_toFinset, hloaded₂, ← hmemFound]
      exact focusedForegroundPid_mem hpid
    obtain ⟨hl₄, hshows⟩ := focused_shows hp₃ (ensureActive_headed c₂) hmem p.autoOrder
    rw [hv₃, hvisible₂] at hshows
    generalize (c₂.ensureActive.focusOn _ p.autoOrder) = c₄ at hl₄ hshows ⊢
    have hlast := ((Same.updateHandles (c₄.truncatePips maxPips) p.windows).trans
      (.trusikPollCharacters _ p.identities p.identityAutoOrder)).trans ((Same.preferOrder _).trans (.autoOrdered _ p.autoOrder))
    refine ⟨?_, hshows.same hlast⟩
    have hl₅ : (c₄.truncatePips maxPips).loaded = c₄.loaded := rfl
    rw [hlast.loaded, hl₅, hl₄, hl₃, hloaded₂]

/-! ### Runs -/

theorem promote_frame (c : ClientRegistry) (pid maximum : Nat) :
    (c.promote pid maximum).1.restorePartition c.snapshotPartition = c ∧
      ((c.promote pid maximum).2 = false → (c.promote pid maximum).1 = c) := by
  unfold promote
  split
  · exact ⟨rfl, nofun⟩
  · split
    · exact ⟨rfl, fun _ => rfl⟩
    · exact ⟨rfl, nofun⟩

theorem swapTo_failed {pipIndex : Nat} {request finalRequest : ForegroundRequest} {autoOrder : Bool}
    {error : ControlError} (h : (c.swapTo pipIndex request finalRequest autoOrder).2 = .error error) :
    (c.swapTo pipIndex request finalRequest autoOrder).1 = c := by
  unfold swapTo at h ⊢
  split at h
  · rfl
  · rename_i newActivePid hget
    obtain ⟨hrestore, hfalse⟩ := promote_frame c newActivePid maxPips
    dsimp only at h ⊢
    generalize c.promote newActivePid maxPips = result at h hrestore hfalse ⊢
    obtain ⟨c', changed⟩ := result
    cases changed with
    | false => split_ifs <;> first | rfl | exact hfalse rfl
    | true =>
      dsimp only at h ⊢
      split_ifs at h ⊢
      · rfl
      · rfl
      · rfl
      · exact hrestore

theorem swapTo_held (h : c.Held) (pipIndex : Nat) (request finalRequest : ForegroundRequest) (autoOrder : Bool) :
    (c.swapTo pipIndex request finalRequest autoOrder).1.Held := by
  cases hresult : (c.swapTo pipIndex request finalRequest autoOrder).2 with
  | error error => exact (swapTo_failed hresult).symm ▸ h
  | ok outcome =>
    unfold swapTo at hresult ⊢
    split at hresult
    · cases hresult
    · rename_i newActivePid hget
      have hpid : newActivePid ∈ c.loaded :=
        h.partition.known (List.mem_append_right _ (List.mem_of_getElem? hget))
      have hheld := focus_held h hpid false
      have hfocus : c.focus newActivePid false = (c.promote newActivePid maxPips).1 := by
        unfold focus autoOrdered
        dsimp only
        rw [Bool.and_false]
        rfl
      rw [hfocus] at hheld
      dsimp only at hresult ⊢
      generalize c.promote newActivePid maxPips = result at hresult hheld ⊢
      obtain ⟨c', changed⟩ := result
      cases changed with
      | false => split_ifs at hresult
      | true =>
        dsimp only at hresult hheld ⊢
        split_ifs at hresult ⊢
        exact hheld.same (.autoOrdered _ _)

theorem activatePid_held (h : c.Held) (targetPid : Nat) (request finalRequest : ForegroundRequest)
    (autoOrder : Bool) : (c.activatePid targetPid request finalRequest autoOrder).1.Held := by
  unfold activatePid
  split_ifs
  · exact h
  · exact h
  · exact h
  · split
    · exact h
    · exact swapTo_held h _ _ _ _

theorem activatePid_failed {targetPid : Nat} {request finalRequest : ForegroundRequest} {autoOrder : Bool}
    {error : ControlError} (h : (c.activatePid targetPid request finalRequest autoOrder).2 = .error error) :
    (c.activatePid targetPid request finalRequest autoOrder).1 = c := by
  unfold activatePid at h ⊢
  split_ifs at h ⊢
  · rfl
  · rfl
  · split at h
    · rfl
    · exact swapTo_failed h

theorem Held.step (h : c.Held) (event : Event) : (c.step event).Held := by
  cases event with
  | poll p => exact (poll_shows h p).2.held
  | foregroundChange foreground focused autoOrder =>
    exact focusOn_held h (fun pid => focusedForegroundPid_mem) autoOrder
  | activatePid targetPid request finalRequest autoOrder => exact activatePid_held h _ _ _ _
  | swapActiveWindowNumbers targetPid autoOrder => exact h.same (.swapActiveWindowNumbers _ _ _)
  | reorderPips fromPid toPid autoOrder => exact h.same (.reorderPips _ _ _ _)
  | assignCharacter targetPid character server autoOrder => exact h.same (.assignCharacter _ _ _ _ _)
  | assignNumber targetPid entry => exact h.same (.assignNumber _ _ _)
  | forceRebuild boxOrder autoOrder => exact h.same (.forceRebuild _ _ _)

theorem Held.init (boxOrder : List BoxIdentity) : Held { preferredOrder := boxOrder } :=
  ⟨⟨List.nodup_nil, List.nodup_nil, List.nil_subset _⟩, fun _ => rfl, Nat.zero_le _⟩

theorem Held.run (boxOrder : List BoxIdentity) (events : List Event) : (run boxOrder events).Held :=
  foldl_invariant (fun _ event h => h.step event) events (Held.init boxOrder)

/-- After any events the PiPs are distinct, loaded and not the active client, which is loaded, and there are at
most five; an activation that fails leaves the active client and the PiPs as they were. -/
theorem partition_kept (boxOrder : List BoxIdentity) (events : List Event) :
    let c := run boxOrder events
    c.pipOrder.Nodup ∧ (∀ pid ∈ c.pipOrder, pid ∈ c.loaded ∧ c.activePid ≠ some pid) ∧
      (∀ pid, c.activePid = some pid → pid ∈ c.loaded) ∧ c.pipOrder.length ≤ maxPips ∧
      ∀ targetPid request finalRequest autoOrder error,
        (c.activatePid targetPid request finalRequest autoOrder).2 = .error error →
          (c.activatePid targetPid request finalRequest autoOrder).1.activePid = c.activePid ∧
            (c.activatePid targetPid request finalRequest autoOrder).1.pipOrder = c.pipOrder := by
  intro c
  have h : c.Held := Held.run boxOrder events
  have hvisible : (c.activePid.toList ++ c.pipOrder).Nodup := h.partition.visible
  obtain ⟨-, hpips, hdisjoint⟩ := List.nodup_append.mp hvisible
  refine ⟨hpips, fun pid hpid => ⟨h.partition.known (List.mem_append_right _ hpid), fun hactive => ?_⟩,
    fun pid hactive => h.partition.known (List.mem_append_left _ (by rw [hactive]; exact List.mem_singleton_self pid)),
    h.bounded, fun targetPid request finalRequest autoOrder error herror => ?_⟩
  · exact hdisjoint pid (by rw [hactive]; exact List.mem_singleton_self pid) pid hpid rfl
  · rw [activatePid_failed herror]
    exact ⟨rfl, rfl⟩

end ClientRegistry
end Stonemite.Overlay
