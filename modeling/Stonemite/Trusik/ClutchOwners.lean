import Stonemite.Trusik.OwnerLevels

/-!
# Who owns the Mouse Clutch

The clutch is active only while its key or a remote hold owns it, every hold names its source, and the targets that the
mouse reaches are not the source (`Owned`). Between the change of a hold and the release of the clutch only the last two
are so (`Clutched`). `owned_step` takes each call through `ClutchTurn`, and `owned_run` is the run behind `clutch_owned`.
-/

namespace Stonemite.Broadcast
open Std Trusik

instance : LawfulEqOrd MouseClutchOwner where
  eq_of_compare {a b} h := by
    obtain ⟨hsession, hhold⟩ := Ordering.then_eq_eq.mp h
    obtain ⟨sessionId, holdId⟩ := a
    obtain ⟨sessionId', holdId'⟩ := b
    obtain rfl : sessionId = sessionId' := LawfulEqOrd.eq_of_compare hsession
    obtain rfl : holdId = holdId' := LawfulEqOrd.eq_of_compare hhold
    rfl

/-- The processes that a hold names as its source. -/
def Names (holds : ExtTreeMap MouseClutchOwner RemoteMouseHold) (sourcePid : UInt32) : Prop :=
  ∃ (owner : MouseClutchOwner) (hold : RemoteMouseHold), holds[owner]? = some hold ∧ hold.sourcePid = sourcePid

/-- The targets that the mouse reaches. -/
def Selects (targets : ExtTreeMap UInt32 ProcessShm) (pid : UInt32) : Prop :=
  ∃ shm : ProcessShm, targets[pid]? = some shm ∧ shm.mouseSelected = true

/-- Every hold names the source of an active clutch, and the mouse reaches other targets while the clutch is engaged. -/
structure Clutched (c : MouseClutch) (holds : ExtTreeMap MouseClutchOwner RemoteMouseHold)
    (targets : ExtTreeMap UInt32 ProcessShm) : Prop where
  named : ∀ sourcePid, Names holds sourcePid → c.phase = .active ∧ c.sourcePid = some sourcePid
  selected : ∀ pid, Selects targets pid → c.phase ≠ .inactive ∧ c.sourcePid ≠ some pid

/-- And an active clutch has an owner. -/
structure Owned (c : MouseClutch) (holds : ExtTreeMap MouseClutchOwner RemoteMouseHold)
    (targets : ExtTreeMap UInt32 ProcessShm) : Prop extends Clutched c holds targets where
  owned : c.phase = .active → c.localOwnerActive = true ∨ ∃ sourcePid, Names holds sourcePid

section holds
variable {holds : ExtTreeMap MouseClutchOwner RemoteMouseHold} {owner : MouseClutchOwner} {hold : RemoteMouseHold}
  {sourcePid : UInt32}

theorem not_names_empty : ¬ Names ∅ sourcePid := by
  rintro ⟨owner, hold, hhold, -⟩
  exact absurd (hhold.symm.trans ExtTreeMap.getElem?_empty) (Option.some_ne_none hold)

theorem isEmpty_iff_names : holds.isEmpty = true ↔ ¬ ∃ sourcePid, Names holds sourcePid := by
  rw [ExtTreeMap.isEmpty_iff]
  constructor
  · rintro rfl ⟨sourcePid, hnames⟩
    exact not_names_empty hnames
  · intro h
    refine ExtTreeMap.ext_getElem? fun owner => ?_
    rw [ExtTreeMap.getElem?_empty]
    exact Option.eq_none_iff_forall_not_mem.mpr fun hold hhold => h ⟨hold.sourcePid, owner, hold, hhold, rfl⟩

theorem names_erase (h : Names (holds.erase owner) sourcePid) : Names holds sourcePid := by
  obtain ⟨other, hold, hhold, hsource⟩ := h
  rw [ExtTreeMap.getElem?_erase_ite] at hhold
  split_ifs at hhold
  exact ⟨other, hold, hhold, hsource⟩

theorem names_filter {p : MouseClutchOwner → RemoteMouseHold → Bool} (h : Names (holds.filter p) sourcePid) :
    Names holds sourcePid := by
  obtain ⟨other, hold, hhold, hsource⟩ := h
  rw [ExtTreeMap.getElem?_filter', Option.filter_eq_some_iff] at hhold
  exact ⟨other, hold, hhold.1, hsource⟩

theorem filter_none {p : MouseClutchOwner → RemoteMouseHold → Bool} (h : holds[owner]? = none) :
    (holds.filter p)[owner]? = none := by
  rw [ExtTreeMap.getElem?_filter', h]
  rfl

theorem erase_none {other : MouseClutchOwner} (h : holds[other]? = none) : (holds.erase owner)[other]? = none := by
  rw [ExtTreeMap.getElem?_erase_ite, h, ite_self]

theorem insert_none {other : MouseClutchOwner} (hother : some other ≠ some owner) (h : holds[other]? = none) :
    (holds.insert owner hold)[other]? = none := by
  rw [ExtTreeMap.getElem?_insert_ite, if_neg fun heq => hother (congrArg some heq.symm), h]

theorem names_insert : Names (holds.insert owner hold) sourcePid ↔
    hold.sourcePid = sourcePid ∨ Names (holds.erase owner) sourcePid := by
  constructor
  · rintro ⟨other, kept, hkept, hsource⟩
    rw [ExtTreeMap.getElem?_insert_ite] at hkept
    split_ifs at hkept with hother
    · obtain rfl := Option.some.inj hkept
      exact .inl hsource
    · refine .inr ⟨other, kept, ?_, hsource⟩
      rw [ExtTreeMap.getElem?_erase_ite, if_neg hother, hkept]
  · rintro (hsource | ⟨other, kept, hkept, hsource⟩)
    · exact ⟨owner, hold, by rw [ExtTreeMap.getElem?_insert_ite, if_pos rfl], hsource⟩
    · rw [ExtTreeMap.getElem?_erase_ite] at hkept
      split_ifs at hkept with hother
      exact ⟨other, kept, by rw [ExtTreeMap.getElem?_insert_ite, if_neg hother, hkept], hsource⟩

theorem filter_eq_of_size {p : MouseClutchOwner → RemoteMouseHold → Bool} (h : (holds.filter p).size = holds.size) :
    holds.filter p = holds :=
  ExtTreeMap.filter_eq_self_iff.mpr (ExtTreeMap.size_filter_eq_size_iff.mp h)

theorem erase_insert (h : holds[owner]? = none) : (holds.insert owner hold).erase owner = holds := by
  refine ExtTreeMap.ext_getElem? fun other => ?_
  rw [ExtTreeMap.getElem?_erase_ite, ExtTreeMap.getElem?_insert_ite]
  by_cases hother : owner = other
  · rw [if_pos hother, ← hother, h]
  · rw [if_neg hother, if_neg hother]

end holds

section targets
variable {targets : ExtTreeMap UInt32 ProcessShm} {pid : UInt32}

theorem selects_map {f : UInt32 → ProcessShm → ProcessShm} :
    Selects (targets.map f) pid ↔ ∃ shm, targets[pid]? = some shm ∧ (f pid shm).mouseSelected = true := by
  constructor
  · rintro ⟨shm', hshm', hselected⟩
    rw [ExtTreeMap.getElem?_map, Option.map_eq_some_iff] at hshm'
    obtain ⟨shm, hshm, rfl⟩ := hshm'
    exact ⟨shm, hshm, hselected⟩
  · rintro ⟨shm, hshm, hselected⟩
    exact ⟨f pid shm, by rw [ExtTreeMap.getElem?_map, hshm]; rfl, hselected⟩

theorem selects_of_map {f : UInt32 → ProcessShm → ProcessShm}
    (hf : ∀ pid shm, (f pid shm).mouseSelected = true → shm.mouseSelected = true) (h : Selects (targets.map f) pid) :
    Selects targets pid := by
  obtain ⟨shm, hshm, hselected⟩ := selects_map.mp h
  exact ⟨shm, hshm, hf pid shm hselected⟩

theorem selects_of_insert {other : UInt32} {shm shm' : ProcessShm} (hshm : targets[other]? = some shm)
    (hselected : shm'.mouseSelected = true → shm.mouseSelected = true) (h : Selects (targets.insert other shm') pid) :
    Selects targets pid := by
  obtain ⟨kept, hkept, hkeptSelected⟩ := h
  rw [ExtTreeMap.getElem?_insert_ite] at hkept
  split_ifs at hkept with hother
  · subst hother
    obtain rfl := Option.some.inj hkept
    exact ⟨shm, hshm, hselected hkeptSelected⟩
  · exact ⟨kept, hkept, hkeptSelected⟩

end targets

section clutch
variable {c c' : MouseClutch} {holds holds' : ExtTreeMap MouseClutchOwner RemoteMouseHold}
  {targets targets' : ExtTreeMap UInt32 ProcessShm}

theorem Clutched.mono (h : Clutched c holds targets) (hphase : c'.phase = c.phase) (hsource : c'.sourcePid = c.sourcePid)
    (hnamed : ∀ sourcePid, Names holds' sourcePid → Names holds sourcePid)
    (hselected : ∀ pid, Selects targets' pid → Selects targets pid) : Clutched c' holds' targets' where
  named sourcePid hnames := by
    rw [hphase, hsource]
    exact h.named sourcePid (hnamed sourcePid hnames)
  selected pid hselects := by
    rw [hphase, hsource]
    exact h.selected pid (hselected pid hselects)

theorem Owned.mono (h : Owned c holds targets) (hphase : c'.phase = c.phase) (hsource : c'.sourcePid = c.sourcePid)
    (hlocal : c'.localOwnerActive = c.localOwnerActive)
    (hnamed : ∀ sourcePid, Names holds' sourcePid ↔ Names holds sourcePid)
    (hselected : ∀ pid, Selects targets' pid → Selects targets pid) : Owned c' holds' targets' where
  toClutched := h.toClutched.mono hphase hsource (fun sourcePid => (hnamed sourcePid).mp) hselected
  owned hactive := by
    rw [hlocal]
    exact (h.owned (hphase.symm.trans hactive)).imp_right fun ⟨sourcePid, hnames⟩ => ⟨sourcePid, (hnamed sourcePid).mpr hnames⟩

theorem Clutched.not_names (h : Clutched c holds targets) (hphase : c.phase ≠ .active) (sourcePid : UInt32) :
    ¬ Names holds sourcePid := fun hnames => hphase (h.named sourcePid hnames).1

theorem Owned.of_released (h : Clutched c holds targets) (hnone : ∀ sourcePid, ¬ Names holds' sourcePid)
    (hphase : c'.phase = .releasing ∨ c'.phase = .draining) (hsource : c'.sourcePid = c.sourcePid) :
    Owned c' holds' targets where
  named sourcePid hnames := absurd hnames (hnone sourcePid)
  selected pid hselects := by
    rw [hsource]
    refine (h.selected pid hselects).imp_left fun _ => ?_
    obtain hphase | hphase := hphase <;> rw [hphase] <;> decide
  owned hactive := by
    obtain hphase | hphase := hphase <;> exact absurd (hphase.symm.trans hactive) (by decide)

theorem Owned.of_not_active (h : Clutched c holds targets) (hnone : ∀ sourcePid, ¬ Names holds' sourcePid)
    (hactive : c.phase ≠ .active) (hphase : c'.phase = c.phase) (hsource : c'.sourcePid = c.sourcePid) :
    Owned c' holds' targets where
  named sourcePid hnames := absurd hnames (hnone sourcePid)
  selected pid hselects := by
    rw [hphase, hsource]
    exact h.selected pid hselects
  owned hactive' := absurd (hphase.symm.trans hactive') hactive

theorem Clutched.releaseIfUnowned (h : Clutched c holds targets) (nowMs : Nat) :
    Owned (c.releaseIfUnowned nowMs !holds.isEmpty) holds targets := by
  unfold MouseClutch.releaseIfUnowned
  split_ifs with howned hbuttons
  · refine ⟨h, fun hactive => ?_⟩
    obtain hlocal | hremote | hphase := howned
    · exact .inl hlocal
    · right
      by_contra hnone
      rw [isEmpty_iff_names.mpr hnone] at hremote
      cases hremote
    · exact absurd hactive hphase
  all_goals
    have hempty : holds.isEmpty = true := by
      by_contra hsome
      exact howned (.inr (.inl (by rw [Bool.eq_false_iff.mpr hsome]; rfl)))
    have hnone (sourcePid : UInt32) : ¬ Names holds sourcePid := fun hnames => isEmpty_iff_names.mp hempty ⟨_, hnames⟩
  · exact .of_released h hnone (.inr rfl) rfl
  · exact .of_released h hnone (.inl rfl) rfl

theorem Clutched.cancelBounded (h : Clutched c holds targets) (nowMs : Nat) :
    Owned (c.cancelBounded nowMs) ∅ targets := by
  have hnone (sourcePid : UInt32) : ¬ Names ∅ sourcePid := not_names_empty
  unfold MouseClutch.cancelBounded
  dsimp only
  cases hphase : c.phase with
  | active => exact .of_released h hnone (.inr rfl) rfl
  | releasing => exact .of_released h hnone (.inr rfl) rfl
  | inactive => exact .of_not_active h hnone (by rw [hphase]; decide) hphase.symm rfl
  | draining => exact .of_not_active h hnone (by rw [hphase]; decide) hphase.symm rfl

theorem Owned.setButton (h : Owned c holds targets) (button : UInt8) (pressed : Bool) (nowMs : Nat) :
    Owned (c.setButton button pressed nowMs) holds targets := by
  have hbuttons (buttons : UInt8) : Owned { c with buttons } holds targets :=
    h.mono rfl rfl rfl (fun _ => Iff.rfl) fun _ => id
  unfold MouseClutch.setButton
  dsimp only
  generalize (if pressed then c.buttons ||| button else c.buttons &&& ~~~button) = buttons
  split_ifs with hreleasing
  · have hphase : c.phase ≠ .active := by rw [hreleasing.1]; decide
    exact .of_released h.toClutched (h.not_names hphase) (.inr rfl) rfl
  · exact hbuttons _

theorem Owned.of_inactive (hphase : c.phase = .inactive) (hnone : ∀ sourcePid, ¬ Names holds sourcePid)
    (hselected : ∀ pid, ¬ Selects targets pid) : Owned c holds targets where
  named sourcePid hnames := absurd hnames (hnone sourcePid)
  selected pid hselects := absurd hselects (hselected pid)
  owned hactive := by
    rw [hphase] at hactive
    cases hactive

theorem Owned.of_engaged {sourcePid : UInt32} (hphase : c.phase = .active) (hsource : c.sourcePid = some sourcePid)
    (hnamed : ∀ named, Names holds named → named = sourcePid) (hselected : ∀ pid, Selects targets pid → pid ≠ sourcePid)
    (howned : c.localOwnerActive = true ∨ ∃ named, Names holds named) : Owned c holds targets where
  named named hnames := ⟨hphase, by rw [hnamed named hnames, hsource]⟩
  selected pid hselects := by
    rw [hphase, hsource]
    exact ⟨by decide, fun h => hselected pid hselects (Option.some.inj h).symm⟩
  owned _ := howned

end clutch

theorem MouseClutch.activate_cases (c : MouseClutch) (sourcePid : UInt32) (hasTargets : Bool) :
    c.activate sourcePid hasTargets = (false, c) ∧ ¬ (c.phase = .active ∧ c.sourcePid = some sourcePid) ∨
    c.activate sourcePid hasTargets = (true, c) ∧ c.phase = .active ∧ c.sourcePid = some sourcePid ∨
    c.activate sourcePid hasTargets =
        (true, { c with phase := .active, sourcePid := some sourcePid, drainDeadlineMs := 0 }) ∧
      c.phase ≠ .active ∧ hasTargets = true := by
  unfold activate
  split_ifs with hphase hbuttons
  · by_cases hsource : c.sourcePid = some sourcePid
    · exact .inr (.inl ⟨by rw [hsource, beq_self_eq_true], hphase, hsource⟩)
    · exact .inl ⟨by rw [beq_eq_false_iff_ne.mpr hsource], fun h => hsource h.2⟩
  · exact .inl ⟨rfl, fun h => hphase h.1⟩
  · exact .inr (.inr ⟨rfl, hphase, not_not.mp fun h => hbuttons (.inr h)⟩)

theorem MouseClutch.onKeyDown_cases (c : MouseClutch) (vk sourcePid : UInt32) (hasTargets : Bool) :
    (∃ swallowedVk, c.onKeyDown vk sourcePid hasTargets = (.swallow, { c with swallowedVk })) ∨
    c.onKeyDown vk sourcePid hasTargets = (.activate, { c with swallowedVk := some vk, localOwnerActive := true }) ∧
      c.phase = .active ∧ c.sourcePid = some sourcePid ∨
    c.onKeyDown vk sourcePid hasTargets = (.activate, { c with
        swallowedVk := some vk, phase := .active, sourcePid := some sourcePid, drainDeadlineMs := 0,
        localOwnerActive := true }) ∧ c.phase ≠ .active ∧ hasTargets = true := by
  unfold onKeyDown
  split_ifs with hswallowed
  · exact .inl ⟨c.swallowedVk, rfl⟩
  · obtain ⟨heq, -⟩ | ⟨heq, hphase, hsource⟩ | ⟨heq, hphase, htargets⟩ :=
      activate_cases { c with swallowedVk := some vk } sourcePid hasTargets
    · rw [heq]
      exact .inl ⟨some vk, rfl⟩
    · rw [heq]
      exact .inr (.inl ⟨rfl, hphase, hsource⟩)
    · rw [heq]
      exact .inr (.inr ⟨rfl, hphase, htargets⟩)

/-! ### What a call does to the clutch -/

namespace BroadcastState
variable {s s' s'' : BroadcastState}

/-- The clutch of the engine has an owner, and its holds and targets are those of its source. -/
def Owned (s : BroadcastState) : Prop := Broadcast.Owned s.clutch s.remoteMouseHolds s.targets

/-- The clutch stays owned, what is known of the sessions stays, and no owner but the given one enters a hold. -/
structure ClutchTurn (entered : Option MouseClutchOwner) (s s' : BroadcastState) : Prop where
  owned : s.Owned → s'.Owned
  sequences : s'.remoteMouseSequences = s.remoteMouseSequences
  closed : s'.closedRemoteSessions = s.closedRemoteSessions
  order : s'.closedRemoteSessionOrder = s.closedRemoteSessionOrder
  holds : ∀ owner, some owner ≠ entered → s.remoteMouseHolds[owner]? = none → s'.remoteMouseHolds[owner]? = none

namespace ClutchTurn
variable {entered : Option MouseClutchOwner}

theorem refl (s : BroadcastState) : ClutchTurn entered s s := ⟨id, rfl, rfl, rfl, fun _ _ => id⟩

theorem trans (h : ClutchTurn entered s s') (h' : ClutchTurn entered s' s'') : ClutchTurn entered s s'' where
  owned := h'.owned ∘ h.owned
  sequences := h'.sequences.trans h.sequences
  closed := h'.closed.trans h.closed
  order := h'.order.trans h.order
  holds owner hne hnone := h'.holds owner hne (h.holds owner hne hnone)

theorem branch {c : Prop} [Decidable c] {s₁ s₂ : BroadcastState} (h₁ : ClutchTurn entered s s₁) (h₂ : ClutchTurn entered s s₂) :
    ClutchTurn entered s (if c then s₁ else s₂) := by
  split_ifs
  · exact h₁
  · exact h₂

theorem of_eq (hclutch : s'.clutch = s.clutch) (hholds : s'.remoteMouseHolds = s.remoteMouseHolds)
    (htargets : s'.targets = s.targets) (hsequences : s'.remoteMouseSequences = s.remoteMouseSequences)
    (hclosed : s'.closedRemoteSessions = s.closedRemoteSessions)
    (horder : s'.closedRemoteSessionOrder = s.closedRemoteSessionOrder) : ClutchTurn entered s s' where
  owned h := by
    unfold BroadcastState.Owned
    rw [hclutch, hholds, htargets]
    exact h
  sequences := hsequences
  closed := hclosed
  order := horder
  holds owner _ hnone := by rw [hholds, hnone]

theorem of_rehooked (h : Rehooked s s') : ClutchTurn entered s s' := by
  obtain ⟨_, _, _, rfl⟩ := h
  exact ⟨fun h => h.mono rfl rfl rfl (fun _ => Iff.rfl) fun _ => id, rfl, rfl, rfl, fun _ _ => id⟩

theorem reconcileHooks (s : BroadcastState) (answers : HookAnswers) : ClutchTurn entered s (s.reconcileHooks answers).2 :=
  of_rehooked (Rehooked.reconcileHooks s answers)

theorem of_targets {targets : ExtTreeMap UInt32 ProcessShm}
    (hselected : ∀ pid, Selects targets pid → Selects s.targets pid) : ClutchTurn entered s { s with targets } :=
  ⟨fun h => h.mono rfl rfl rfl (fun _ => Iff.rfl) hselected, rfl, rfl, rfl, fun _ _ => id⟩

variable (s : BroadcastState) (e : Surroundings)

theorem mouseSelected_setKeyboardSource (shm : ProcessShm) (source : UInt32) (active : Bool) :
    (shm.setKeyboardSource source active).mouseSelected = shm.mouseSelected := rfl

theorem mouseSelected_releaseBroadcastKeys (shm : ProcessShm) :
    shm.releaseBroadcastKeys.mouseSelected = shm.mouseSelected := by
  unfold ProcessShm.releaseBroadcastKeys
  generalize scans = l
  induction l generalizing shm with
  | nil => rfl
  | cons scan l ih => exact ih (shm.setBroadcastKey scan false)

theorem setActive (active : Bool) : ClutchTurn entered s (s.setActive e active).2 := by
  obtain ⟨-, hsame⟩ | ⟨-, -, -, hhooks⟩ | ⟨-, -, s₁, hhooks, heq⟩ := setActive_cases s e active
  · rw [hsame]
    exact refl s
  · exact of_rehooked hhooks
  · have hbroadcasting : ClutchTurn entered s { s with broadcasting := active } := of_eq rfl rfl rfl rfl rfl rfl
    have hset : ClutchTurn entered s₁ { s₁ with
        targets := s₁.targets.map fun _ shm =>
          (if active then shm else shm.releaseBroadcastKeys).setKeyboardSource keyboardBroadcast active } := by
      refine of_targets fun _ => selects_of_map fun _ shm h => ?_
      rw [mouseSelected_setKeyboardSource] at h
      split_ifs at h
      · exact h
      · rwa [mouseSelected_releaseBroadcastKeys] at h
    rw [heq]
    refine (hbroadcasting.trans (of_rehooked hhooks)).trans ?_
    have htargets : s₁.targets = s.targets := hhooks.targets
    rwa [htargets] at hset

theorem cancelAllClutchOwners (nowMs : Nat) : ClutchTurn entered s (s.cancelAllClutchOwners nowMs) :=
  ⟨fun h => h.toClutched.cancelBounded nowMs, rfl, rfl, rfl, fun _ _ _ => ExtTreeMap.getElem?_empty⟩

theorem suppressBackground (activePid : Option UInt32) : ClutchTurn entered s (s.suppressBackground activePid) :=
  of_targets fun _ => selects_of_map fun _ _ => id

theorem setActivePid (pid : UInt32) : ClutchTurn entered s (s.setActivePid e pid) := by
  have hcancel : ClutchTurn entered s (if s.clutch.sourcePid.any (· != pid) then s.cancelAllClutchOwners e.nowMs else s) :=
    branch (cancelAllClutchOwners s e.nowMs) (refl s)
  have hactive (s : BroadcastState) : ClutchTurn entered s { s with activePid := some pid } := of_eq rfl rfl rfl rfl rfl rfl
  exact (hcancel.trans (hactive _)).trans (suppressBackground _ (some pid))

theorem updateTargets (pids : List UInt32) (activePid : Option UInt32) :
    ClutchTurn entered s (s.updateTargets e pids activePid) := by
  have hcancel : ClutchTurn entered s (s.cancelGone e pids) := by
    obtain heq | heq := cancelGone_cases s e pids <;> rw [heq]
    · exact refl s
    · exact cancelAllClutchOwners s e.nowMs
  have htargets : (s.cancelGone e pids).targets = s.targets := by
    obtain heq | heq := cancelGone_cases s e pids <;> rw [heq]
    rfl
  obtain ⟨targets, heq, hspec⟩ := updateTargets_spec s e pids activePid
  rw [heq]
  refine hcancel.trans (ClutchTurn.trans (@of_targets _ _ targets fun pid hselects => ?_)
    (of_eq rfl rfl rfl rfl rfl rfl))
  obtain ⟨shm', hshm', hselected⟩ := hselects
  obtain ⟨-, shm, rfl, hold | ⟨-, created, hcreated, rfl⟩⟩ := hspec pid shm' hshm'
  · rw [htargets]
    exact ⟨shm, hold, hselected⟩
  · obtain ⟨words, -, -, rfl⟩ := createShm_spec hcreated
    split_ifs at hselected <;> cases hselected

theorem updateMouseEligiblePids (pids : List UInt32) : ClutchTurn entered s (s.updateMouseEligiblePids e pids) := by
  have heligible : ClutchTurn entered s { s with mouseEligiblePids := pids } := of_eq rfl rfl rfl rfl rfl rfl
  exact branch (heligible.trans (cancelAllClutchOwners _ e.nowMs)) heligible

/-! ### Targeted input and the keyboard -/

theorem insertTarget {pid : UInt32} {shm shm' : ProcessShm} (hshm : s.targets[pid]? = some shm)
    (hselected : shm'.mouseSelected = shm.mouseSelected) :
    ClutchTurn entered s { s with targets := s.targets.insert pid shm' } :=
  of_targets fun _ => selects_of_insert hshm fun h => hselected ▸ h

theorem beginTargetedInput (pid : UInt32) : ClutchTurn entered s (s.beginTargetedInput e pid).2 := by
  unfold BroadcastState.beginTargetedInput
  cases hshm : s.targets[pid]? with
  | none => exact refl s
  | some shm =>
    dsimp only
    split_ifs
    · exact refl s
    · exact insertTarget s hshm rfl
    · exact refl s

theorem setTargetedKey (pid : UInt32) (scan : UInt8) (pressed : Bool) :
    ClutchTurn entered s (s.setTargetedKey pid scan pressed).2 := by
  unfold BroadcastState.setTargetedKey
  split_ifs
  · exact refl s
  · cases hshm : s.targets[pid]? with
    | none => exact refl s
    | some shm =>
      dsimp only
      split_ifs
      · exact insertTarget s hshm rfl
      · exact refl s

theorem finishTargetedInput (pid : UInt32) : ClutchTurn entered s (s.finishTargetedInput pid) := by
  have hreleased (shm : ProcessShm) (l : List (Fin keyCount)) :
      (l.foldl ProcessShm.releaseTargetedKey shm).mouseSelected = shm.mouseSelected := by
    induction l generalizing shm with
    | nil => rfl
    | cons scan l ih =>
      refine (ih (shm.releaseTargetedKey scan)).trans ?_
      unfold ProcessShm.releaseTargetedKey
      split_ifs <;> rfl
  unfold BroadcastState.finishTargetedInput
  cases hshm : s.targets[pid]? with
  | none => exact refl s
  | some shm =>
    refine insertTarget s hshm ?_
    generalize scans = l
    exact hreleased shm l

theorem broadcastKey (kb : KeyEvent) : ClutchTurn entered s (s.broadcastKey e kb) := by
  have hforeground (eqWasForeground : Bool) : ClutchTurn entered s { s with eqWasForeground } := of_eq rfl rfl rfl rfl rfl rfl
  unfold BroadcastState.broadcastKey
  dsimp only
  split_ifs
  · cases (directInputScanCode kb.scanCode kb.extended).filter _ with
    | none => exact hforeground true
    | some scan =>
      refine (hforeground true).trans (of_targets fun _ => selects_of_map fun _ shm h => ?_)
      split_ifs at h
      · exact h
      · exact h
  · exact hforeground true
  · refine (hforeground false).trans (of_targets fun _ => selects_of_map fun _ shm h => ?_)
    split_ifs at h
    · exact h
    · rwa [mouseSelected_releaseBroadcastKeys] at h
  · exact refl s

/-! ### The clutch -/

theorem deactivateMouseTargets : ClutchTurn entered s s.deactivateMouseTargets := by
  refine of_targets fun _ => selects_of_map fun _ shm h => ?_
  split_ifs at h with hselected
  · exact hselected
  · exact h

theorem not_selects_deactivateMouseTargets (pid : UInt32) : ¬ Selects s.deactivateMouseTargets.targets pid := by
  intro hselects
  obtain ⟨shm, -, h⟩ := selects_map.mp hselects
  split_ifs at h with hselected
  · cases h
  · exact hselected h

theorem activateMouseTargets_cases (sourcePid : UInt32) :
    s.hasReadyMouseTargets e sourcePid = false ∧ s.activateMouseTargets e sourcePid = (false, s) ∨
    ∃ targets, s.activateMouseTargets e sourcePid = (true, { s with targets }) ∧
      ∀ pid, Selects targets pid → pid ≠ sourcePid := by
  unfold BroadcastState.activateMouseTargets
  split_ifs with hready
  · refine .inr ⟨_, rfl, fun pid hselects => ?_⟩
    rintro rfl
    have hself (s : BroadcastState) : s.mouseReady e pid pid = false := by
      unfold mouseReady
      rw [bne_self_eq_false]
      rfl
    obtain ⟨shm, -, h⟩ := selects_map.mp hselects
    rw [hself, Bool.not_false, Bool.and_true] at h
    split_ifs at h with hselected
    · cases h
    · exact hselected h
  · exact .inl ⟨Bool.eq_false_iff.mpr hready, rfl⟩

theorem applyPendingClutchBinding (reconciled : Nat) : ClutchTurn entered s (s.applyPendingClutchBinding e reconciled) := by
  unfold BroadcastState.applyPendingClutchBinding
  split_ifs with hbusy
  · exact refl s
  · have hphase : s.clutch.phase = .inactive := not_not.mp fun h => hbusy (.inl h)
    cases s.pendingClutchBinding with
    | none => exact refl s
    | some binding =>
      have htaken : ClutchTurn entered s { s with
          pendingClutchBinding := none
          clutchBindingVk := binding
          clutchKeyIsDown := binding.any e.keyIsDown } := of_eq rfl rfl rfl rfl rfl rfl
      have hhooks := Rehooked.reconcileHooks { s with
          pendingClutchBinding := none
          clutchBindingVk := binding
          clutchKeyIsDown := binding.any e.keyIsDown } (e.hooks reconciled)
      dsimp only
      generalize BroadcastState.reconcileHooks _ (e.hooks reconciled) = hooked at hhooks ⊢
      obtain ⟨error | _, s'⟩ := hooked
      · have h := htaken.trans (of_rehooked hhooks)
        have hholds : s'.remoteMouseHolds = s.remoteMouseHolds := by
          obtain ⟨_, _, _, rfl⟩ := hhooks
          rfl
        have hforced : ClutchTurn entered s { BroadcastState.deactivateMouseTargets
            { s' with clutchBindingVk := none, clutchError := some error } with clutch := s'.clutch.forceInactive } := by
          refine ⟨fun howned => ?_, h.sequences, h.closed, h.order, h.holds⟩
          have hnone := howned.toClutched.not_names (by rw [hphase]; decide)
          rw [← hholds] at hnone
          exact .of_inactive rfl hnone (not_selects_deactivateMouseTargets _)
        exact hforced.trans (reconcileHooks _ _)
      · exact htaken.trans (of_rehooked hhooks)

theorem expireHolds : ClutchTurn entered s (s.expireHolds e) := by
  refine branch ⟨fun h => ?_, rfl, rfl, rfl, fun _ _ => filter_none⟩ (refl s)
  exact (h.toClutched.mono rfl rfl (fun _ => names_filter) fun _ => id).releaseIfUnowned e.nowMs

theorem validateClutch : ClutchTurn entered s (s.validateClutch e) :=
  branch (branch (cancelAllClutchOwners s e.nowMs) (refl s)) (refl s)

theorem finishDrain : ClutchTurn entered s (s.finishDrain e) := by
  unfold BroadcastState.finishDrain MouseClutch.finishDrainIfDue
  split_ifs with hdue
  · refine ⟨fun h => ?_, rfl, rfl, rfl, fun _ _ => id⟩
    have hnone := h.toClutched.not_names (by rw [hdue.1]; decide)
    exact .of_inactive rfl hnone (not_selects_deactivateMouseTargets _)
  · exact of_eq rfl rfl rfl rfl rfl rfl

theorem reportHooks (answers : HookAnswers) : ClutchTurn entered s (s.reportHooks answers) := by
  have h : ClutchTurn entered s (s.reconcileHooks answers).2 := reconcileHooks s answers
  unfold BroadcastState.reportHooks
  generalize s.reconcileHooks answers = hooked at h ⊢
  obtain ⟨error | _, s'⟩ := hooked
  · exact h.trans (of_eq rfl rfl rfl rfl rfl rfl)
  · exact h

theorem tick : ClutchTurn entered s (s.tick e).2 := by
  have hrefresh : ClutchTurn entered s (s.refreshControllerHeartbeat e.nowMs) := of_targets fun _ => selects_of_map fun _ _ => id
  have hclutch := ((hrefresh.trans (expireHolds _ e)).trans (validateClutch _ e)).trans (finishDrain _ e)
  have hhooks := (hclutch.trans (applyPendingClutchBinding _ e 0)).trans (reportHooks _ (e.hooks 2))
  have hreported (t : BroadcastState) : ClutchTurn entered t { t with clutchStatusDirty := false } :=
    of_eq rfl rfl rfl rfl rfl rfl
  exact hhooks.trans (hreported _)

theorem onSettingsChanged (cfg : Settings) : ClutchTurn entered s (s.onSettingsChanged e cfg) := by
  unfold BroadcastState.onSettingsChanged
  refine ClutchTurn.trans ?_ (applyPendingClutchBinding _ e 0)
  refine ClutchTurn.trans ?_ (cancelAllClutchOwners _ e.nowMs)
  exact of_eq rfl rfl rfl rfl rfl rfl

theorem mouseProc (message : MouseMessage) : ClutchTurn entered s (s.mouseProc e message) := by
  unfold BroadcastState.mouseProc
  cases mouseButtonMessage message with
  | none => exact refl s
  | some button => exact ⟨fun h => h.setButton button.1 button.2 e.nowMs, rfl, rfl, rfl, fun _ _ => id⟩

/-- The key of the clutch engages it for the client in the foreground, or changes no owner. -/
theorem clutchKeyDown (vk sourcePid : UInt32) : ClutchTurn entered s (s.clutchKeyDown e vk sourcePid) := by
  have hactivated (s : BroadcastState) (hphase : s.clutch.phase = .active) (hlocal : s.clutch.localOwnerActive = true)
      (hsource : s.clutch.sourcePid = some sourcePid) (hnamed : ∀ named, Names s.remoteMouseHolds named → named = sourcePid)
      (hselected : s.hasReadyMouseTargets e sourcePid = false → ∀ pid, Selects s.targets pid → pid ≠ sourcePid) :
      (s.activateMouseTargets e sourcePid).2.Owned := by
    obtain ⟨hready, heq⟩ | ⟨targets, heq, htargets⟩ := activateMouseTargets_cases s e sourcePid
    · rw [heq]
      exact .of_engaged hphase hsource hnamed (hselected hready) (.inl hlocal)
    · rw [heq]
      exact .of_engaged hphase hsource hnamed htargets (.inl hlocal)
  have hsessions (s : BroadcastState) : (s.activateMouseTargets e sourcePid).2.remoteMouseSequences =
      s.remoteMouseSequences ∧ (s.activateMouseTargets e sourcePid).2.closedRemoteSessions = s.closedRemoteSessions ∧
      (s.activateMouseTargets e sourcePid).2.closedRemoteSessionOrder = s.closedRemoteSessionOrder ∧
      (s.activateMouseTargets e sourcePid).2.remoteMouseHolds = s.remoteMouseHolds := by
    obtain ⟨-, heq⟩ | ⟨targets, heq, -⟩ := activateMouseTargets_cases s e sourcePid <;> rw [heq] <;>
      exact ⟨rfl, rfl, rfl, rfl⟩
  unfold BroadcastState.clutchKeyDown
  obtain ⟨swallowedVk, heq⟩ | ⟨heq, hphase, hsource⟩ | ⟨heq, hphase, hready⟩ :=
    s.clutch.onKeyDown_cases vk sourcePid (s.hasReadyMouseTargets e sourcePid)
  all_goals
    rw [heq]
    dsimp only
  · rw [if_neg (by decide)]
    exact ⟨fun h => h.mono rfl rfl rfl (fun _ => Iff.rfl) fun _ => id, rfl, rfl, rfl, fun _ _ => id⟩
  · rw [if_pos rfl]
    refine ⟨fun h => ?_, (hsessions _).1, (hsessions _).2.1, (hsessions _).2.2.1,
      fun owner _ hnone => (congrArg (·[owner]?) (hsessions _).2.2.2).trans hnone⟩
    refine hactivated _ hphase rfl hsource (fun named hnames => ?_) fun _ pid hselects => ?_
    · exact Option.some.inj ((h.named named hnames).2.symm.trans hsource)
    · rintro rfl
      exact (h.selected pid hselects).2 hsource
  · rw [if_pos rfl]
    refine ⟨fun h => ?_, (hsessions _).1, (hsessions _).2.1, (hsessions _).2.2.1,
      fun owner _ hnone => (congrArg (·[owner]?) (hsessions _).2.2.2).trans hnone⟩
    refine hactivated _ rfl rfl rfl (fun named hnames => absurd hnames (h.not_names hphase named)) fun hnone => ?_
    exact absurd (hready.symm.trans hnone) (by decide)

theorem keyboardProc (kb : KeyEvent) : ClutchTurn entered s (s.keyboardProc e kb).2 := by
  have hdown (s : BroadcastState) (clutchKeyIsDown : Bool) : ClutchTurn entered s { s with clutchKeyIsDown } :=
    of_eq rfl rfl rfl rfl rfl rfl
  have hbinding : ClutchTurn entered s (s.releaseBinding kb) := branch (hdown s false) (refl s)
  have hfresh (s : BroadcastState) : ClutchTurn entered s (s.freshKey e kb).2 := by
    unfold freshKey
    split_ifs
    · exact refl s
    · cases e.foregroundPid.filter s.eqPids.contains with
      | none => exact (hdown s true).trans (broadcastKey _ e kb)
      | some sourcePid => exact (hdown s true).trans (clutchKeyDown _ e kb.vkCode sourcePid)
    · exact broadcastKey s e kb
  unfold BroadcastState.keyboardProc MouseClutch.onKeyUp
  split_ifs with hrepeat hup hother
  · exact refl s
  · exact absurd hup.2 hother
  · have hreleased (h : s.Owned) :
        Clutched { s.clutch with swallowedVk := none, localOwnerActive := false } s.remoteMouseHolds s.targets :=
      h.toClutched.mono rfl rfl (fun _ => id) fun _ => id
    exact ⟨fun h => (hreleased h).releaseIfUnowned e.nowMs, rfl, rfl, rfl, fun _ _ => id⟩
  · exact hbinding.trans (hfresh _)

/-! ### Remote holds -/

variable {s e} {owner : MouseClutchOwner} {hold : RemoteMouseHold}

theorem dropHold (hnone : s.remoteMouseHolds[owner]? = none)
    (hheld : Rehooked { s with remoteMouseHolds := s.remoteMouseHolds.insert owner hold } s') (answers : HookAnswers) :
    ClutchTurn entered s (s'.dropHold owner answers) := by
  obtain ⟨keyboardHook, mouseHook, buttons, rfl⟩ := hheld
  refine ClutchTurn.trans ?_ (reconcileHooks _ answers)
  refine ⟨fun h => h.mono rfl rfl rfl (fun sourcePid => ?_) fun _ => id, rfl, rfl, rfl, fun other _ hother => ?_⟩
  · rw [erase_insert hnone]
  · rw [erase_insert hnone]
    exact hother

theorem engageHold (hnone : s.remoteMouseHolds[owner]? = none)
    (hheld : Rehooked { s with remoteMouseHolds := s.remoteMouseHolds.insert owner hold } s')
    (hready : s.hasReadyMouseTargets e hold.sourcePid = true)
    (hresuming : ¬ (s.clutch.phase = .active ∧ s.clutch.sourcePid = some hold.sourcePid)) :
    ClutchTurn (some owner) s (s'.engageHold e owner hold.sourcePid).2 := by
  obtain ⟨keyboardHook, mouseHook, buttons, rfl⟩ := hheld
  unfold BroadcastState.engageHold
  obtain ⟨heq, -⟩ | ⟨-, hphase, hsource⟩ | ⟨heq, hphase, -⟩ :=
    MouseClutch.activate_cases { s.clutch with buttons := e.buttons } hold.sourcePid true
  · dsimp only
    rw [heq]
    exact dropHold hnone ⟨keyboardHook, mouseHook, e.buttons, rfl⟩ (e.hooks 1)
  · exact absurd ⟨hphase, hsource⟩ hresuming
  · dsimp only
    rw [heq]
    dsimp only
    rw [if_pos rfl]
    obtain ⟨hother, -⟩ | ⟨targets, hactivated, htargets⟩ := activateMouseTargets_cases { s with
        keyboardHook, mouseHook
        remoteMouseHolds := s.remoteMouseHolds.insert owner hold
        clutch := { s.clutch with
          buttons := e.buttons, phase := .active, sourcePid := some hold.sourcePid, drainDeadlineMs := 0 } }
      e hold.sourcePid
    · exact absurd (hready.symm.trans hother) (by decide)
    · rw [hactivated]
      refine ⟨fun h => .of_engaged rfl rfl (fun named hnames => ?_) htargets
        (.inr ⟨_, names_insert.mpr (.inl rfl)⟩), rfl, rfl, rfl, fun other hother => insert_none hother⟩
      obtain hnamed | hkept := names_insert.mp hnames
      · exact hnamed.symm
      · exact absurd (names_erase hkept) (h.toClutched.not_names hphase named)

theorem ready_of_available {sourcePid : UInt32} (hforeground : e.foregroundPid = some sourcePid)
    (havailable : s.mouseClutchAvailabilityFor e = .ready) : s.hasReadyMouseTargets e sourcePid = true := by
  unfold mouseClutchAvailabilityFor at havailable
  cases hfiltered : e.foregroundPid.filter fun pid => s.activePid == some pid && s.eqPids.contains pid with
  | none =>
    rw [hfiltered] at havailable
    cases havailable
  | some pid =>
    rw [hfiltered] at havailable
    obtain rfl := Option.some.inj (hforeground.symm.trans (Option.filter_eq_some_iff.mp hfiltered).1)
    dsimp only at havailable
    split_ifs at havailable with hready
    exact hready

/-- A hold is entered and the clutch engaged for its source, or the clutch is engaged for it already. -/
theorem beginHold {sourcePid : UInt32} (hnone : s.remoteMouseHolds[owner]? = none)
    (hready : s.hasReadyMouseTargets e sourcePid = true) : ClutchTurn (some owner) s (s.beginHold e owner sourcePid).2 := by
  unfold BroadcastState.beginHold
  dsimp only
  have hhooks := Rehooked.reconcileHooks { s with
    remoteMouseHolds :=
      s.remoteMouseHolds.insert owner ⟨sourcePid, saturatingAdd 64 e.nowMs remoteMouseClutchLeaseMs⟩ } (e.hooks 0)
  generalize BroadcastState.reconcileHooks _ (e.hooks 0) = hooked at hhooks ⊢
  obtain ⟨error | _, s'⟩ := hooked
  · exact dropHold hnone hhooks (e.hooks 1)
  · dsimp only
    split_ifs with hresuming
    · obtain ⟨keyboardHook, mouseHook, buttons, rfl⟩ := hhooks
      refine ⟨fun h => .of_engaged hresuming.1 hresuming.2 (fun named hnames => ?_) (fun pid hselects => ?_)
        (.inr ⟨_, names_insert.mpr (.inl rfl)⟩), rfl, rfl, rfl, fun other hother => insert_none hother⟩
      · obtain hnamed | hkept := names_insert.mp hnames
        · exact hnamed.symm
        · exact Option.some.inj ((h.named named (names_erase hkept)).2.symm.trans hresuming.2)
      · rintro rfl
        exact (h.selected pid hselects).2 hresuming.2
    · exact engageHold hnone hhooks hready hresuming

variable (s e) (owner)

theorem heldReleased {s : BroadcastState} (h : Clutched s.clutch s.remoteMouseHolds s.targets) :
    (s.heldReleased e).Owned := by
  have hhooks (s : BroadcastState) : ClutchTurn none s (s.reconcileHooks (e.hooks 0)).2 := reconcileHooks s (e.hooks 0)
  exact (hhooks _).owned (h.releaseIfUnowned e.nowMs)

theorem renewHold (hhold : s.remoteMouseHolds[owner]? = some hold) (deadlineMs : Nat) :
    ClutchTurn entered s { s with remoteMouseHolds := s.remoteMouseHolds.insert owner { hold with deadlineMs } } := by
  refine ⟨fun h => h.mono rfl rfl rfl (fun sourcePid => ?_) fun _ => id, rfl, rfl, rfl, fun other _ hother => ?_⟩
  swap
  · refine insert_none (fun hsame => ?_) hother
    obtain rfl := Option.some.inj hsame
    exact Option.some_ne_none hold (hhold.symm.trans hother)
  rw [names_insert]
  constructor
  · rintro (hsource | hkept)
    · exact ⟨owner, hold, hhold, hsource⟩
    · exact names_erase hkept
  · rintro ⟨other, kept, hkept, hsource⟩
    by_cases hother : owner = other
    · subst hother
      obtain rfl := Option.some.inj (hhold.symm.trans hkept)
      exact .inl hsource
    · exact .inr ⟨other, kept, by rw [ExtTreeMap.getElem?_erase_ite, if_neg hother, hkept], hsource⟩

theorem operateHold (operation : MouseClutchOperation) : ClutchTurn (some owner) s (s.operateHold e owner operation).2 := by
  unfold BroadcastState.operateHold
  cases operation with
  | begin =>
    cases hhold : s.remoteMouseHolds[owner]? with
    | some hold => exact renewHold s owner hhold _
    | none =>
      cases havailable : s.mouseClutchAvailabilityFor e with
      | ready =>
        cases hforeground : e.foregroundPid with
        | none => exact refl s
        | some sourcePid => exact beginHold hhold (ready_of_available hforeground havailable)
      | _ => exact refl s
  | renew =>
    cases hhold : s.remoteMouseHolds[owner]? with
    | none => exact refl s
    | some hold =>
      dsimp only
      split_ifs with hcanceled
      · refine ⟨fun h => ?_, rfl, rfl, rfl, fun _ _ => erase_none⟩
        have hnamed := h.named hold.sourcePid ⟨owner, hold, hhold, rfl⟩
        exact absurd hcanceled (not_or.mpr ⟨not_not.mpr hnamed.1, not_not.mpr hnamed.2⟩)
      · exact renewHold s owner hhold _
  | ended =>
    dsimp only
    split_ifs
    · have hhooks (s : BroadcastState) : ClutchTurn (some owner) s (s.reconcileHooks (e.hooks 0)).2 :=
        reconcileHooks s (e.hooks 0)
      exact ⟨fun h => heldReleased e (h.toClutched.mono rfl rfl (fun _ => names_erase) fun _ => id),
        (hhooks _).sequences, (hhooks _).closed, (hhooks _).order,
        fun other hother hnone => (hhooks _).holds other hother (erase_none hnone)⟩
    · exact refl s

end ClutchTurn

variable (s : BroadcastState) (e : Surroundings)

theorem Owned.init (cfg : Settings) : (init e cfg).Owned := by
  have hstart : (starting e cfg).Owned := by
    refine .of_inactive ?_ (fun _ => not_names_empty) fun pid hselects => ?_
    · rfl
    · obtain ⟨shm, hshm, -⟩ := hselects
      exact absurd (hshm.symm.trans ExtTreeMap.getElem?_empty) (Option.some_ne_none shm)
  have hreconciled : ClutchTurn none (starting e cfg) ((starting e cfg).reconcileHooks (e.hooks 0)).2 :=
    .reconcileHooks _ _
  have hhooks := hreconciled.owned hstart
  unfold BroadcastState.init
  generalize (starting e cfg).reconcileHooks (e.hooks 0) = hooked at hhooks ⊢
  obtain ⟨error | _, s⟩ := hooked
  · have hfailed : ClutchTurn none s { s with clutchBindingVk := none, clutchError := some error } :=
      .of_eq rfl rfl rfl rfl rfl rfl
    exact (hfailed.trans (.reconcileHooks _ (e.hooks 1))).owned hhooks
  · exact hhooks

theorem Owned.updateRemoteMouseClutchHold (h : s.Owned) (owner : MouseClutchOwner) (operation : MouseClutchOperation)
    (sequence : Nat) : (s.updateRemoteMouseClutchHold e owner operation sequence).2.Owned := by
  unfold BroadcastState.updateRemoteMouseClutchHold
  split_ifs
  · exact h
  · exact h
  · exact (ClutchTurn.operateHold _ e owner operation).owned h

theorem Owned.endRemoteMouseClutchSession (h : s.Owned) (sessionId : UInt64) (sequence : Nat) :
    (s.endRemoteMouseClutchSession e sessionId sequence).Owned := by
  unfold BroadcastState.endRemoteMouseClutchSession
  dsimp only
  split_ifs with hsize
  · exact ClutchTurn.heldReleased e (h.toClutched.mono rfl rfl (fun _ => names_filter) fun _ => id)
  · have hholds : (s.closeSession sessionId sequence).remoteMouseHolds = s.remoteMouseHolds :=
      filter_eq_of_size (not_not.mp hsize)
    unfold BroadcastState.Owned
    rw [hholds]
    exact h

end BroadcastState

/-- Whether a call starts or ends the engine, or is a message of a remote session. -/
def Call.ofSession : Call → Bool
  | .init _ | .cleanup | .updateRemoteMouseClutchHold .. | .endRemoteMouseClutchSession .. => true
  | _ => false

namespace BroadcastState
variable {s : BroadcastState} {e : Surroundings}

theorem clutchTurn_call {call : Call} (hcall : call.ofSession = false) : ∀ s' ∈ s.call e call, ClutchTurn none s s' := by
  intro s' hs'
  cases call with
  | cleanup => cases hcall
  | init cfg => cases hcall
  | updateRemoteMouseClutchHold owner operation sequence => cases hcall
  | endRemoteMouseClutchSession sessionId sequence => cases hcall
  | setActive active =>
    obtain rfl := Option.some.inj hs'
    exact .setActive s e active
  | toggle =>
    obtain rfl := Option.some.inj hs'
    exact .setActive s e _
  | updateTargets pids activePid =>
    obtain rfl := Option.some.inj hs'
    exact .updateTargets s e pids activePid
  | updateMouseEligiblePids pids =>
    obtain rfl := Option.some.inj hs'
    exact .updateMouseEligiblePids s e pids
  | setActivePid pid =>
    obtain rfl := Option.some.inj hs'
    exact .setActivePid s e pid
  | tick =>
    obtain rfl := Option.some.inj hs'
    exact .tick s e
  | onSettingsChanged cfg =>
    obtain rfl := Option.some.inj hs'
    exact .onSettingsChanged s e cfg
  | beginTargetedInput pid =>
    obtain rfl := Option.some.inj hs'
    exact .beginTargetedInput s e pid
  | setTargetedKey pid scan pressed =>
    obtain rfl := Option.some.inj hs'
    exact .setTargetedKey s pid scan pressed
  | finishTargetedInput pid =>
    obtain rfl := Option.some.inj hs'
    exact .finishTargetedInput s pid
  | mouseProc message =>
    obtain rfl := Option.some.inj hs'
    exact .mouseProc s e message
  | keyboardProc kb =>
    obtain rfl := Option.some.inj hs'
    exact .keyboardProc s e kb

theorem owned_call (h : s.Owned) (call : Call) : ∀ s' ∈ s.call e call, s'.Owned := by
  intro s' hs'
  cases hcall : call.ofSession with
  | false => exact (clutchTurn_call hcall s' hs').owned h
  | true =>
    cases call with
    | init cfg =>
      obtain rfl := Option.some.inj hs'
      exact .init e cfg
    | cleanup => exact absurd hs' (Option.not_mem_none s')
    | updateRemoteMouseClutchHold owner operation sequence =>
      obtain rfl := Option.some.inj hs'
      exact .updateRemoteMouseClutchHold s e h owner operation sequence
    | endRemoteMouseClutchSession sessionId sequence =>
      obtain rfl := Option.some.inj hs'
      exact .endRemoteMouseClutchSession s e h sessionId sequence
    | _ => cases hcall

/-! ### Leases -/

theorem expireHolds_holds {owner : MouseClutchOwner} {hold : RemoteMouseHold}
    (hhold : (s.expireHolds e).remoteMouseHolds[owner]? = some hold) : e.nowMs < hold.deadlineMs := by
  have hfilter : (s.expireHolds e).remoteMouseHolds =
      s.remoteMouseHolds.filter fun _ (hold : RemoteMouseHold) => decide (e.nowMs < hold.deadlineMs) := by
    unfold expireHolds
    dsimp only
    split_ifs with hsize
    · rfl
    · exact (filter_eq_of_size (not_not.mp hsize)).symm
  rw [hfilter, ExtTreeMap.getElem?_filter', Option.filter_eq_some_iff] at hhold
  exact of_decide_eq_true hhold.2

theorem reconcileHooks_holds (s : BroadcastState) (answers : HookAnswers) :
    (s.reconcileHooks answers).2.remoteMouseHolds = s.remoteMouseHolds := by
  obtain ⟨_, _, _, heq⟩ := Rehooked.reconcileHooks s answers
  rw [heq]

theorem reportHooks_holds (s : BroadcastState) (answers : HookAnswers) :
    (s.reportHooks answers).remoteMouseHolds = s.remoteMouseHolds := by
  have h := reconcileHooks_holds s answers
  unfold reportHooks
  generalize s.reconcileHooks answers = hooked at h ⊢
  obtain ⟨error | _, s'⟩ := hooked
  · exact h
  · exact h

theorem applyPendingClutchBinding_holds (s : BroadcastState) (e : Surroundings) (reconciled : Nat) :
    (s.applyPendingClutchBinding e reconciled).remoteMouseHolds = s.remoteMouseHolds := by
  unfold applyPendingClutchBinding
  split_ifs
  · rfl
  · cases s.pendingClutchBinding with
    | none => rfl
    | some binding =>
      have h := reconcileHooks_holds { s with
          pendingClutchBinding := none
          clutchBindingVk := binding
          clutchKeyIsDown := binding.any e.keyIsDown } (e.hooks reconciled)
      dsimp only
      generalize BroadcastState.reconcileHooks _ (e.hooks reconciled) = hooked at h ⊢
      obtain ⟨error | _, s'⟩ := hooked
      · exact (reconcileHooks_holds _ _).trans h
      · exact h

/-- After a tick, the lease of every hold that is left goes on. -/
theorem tick_holds {owner : MouseClutchOwner} {hold : RemoteMouseHold}
    (hhold : (s.tick e).2.remoteMouseHolds[owner]? = some hold) : e.nowMs < hold.deadlineMs := by
  have hdrained (s : BroadcastState) : (s.finishDrain e).remoteMouseHolds = s.remoteMouseHolds := by
    unfold finishDrain
    dsimp only
    split_ifs <;> rfl
  unfold tick at hhold
  dsimp only at hhold
  rw [reportHooks_holds, applyPendingClutchBinding_holds, hdrained] at hhold
  have hexpired := @expireHolds_holds (s.refreshControllerHeartbeat e.nowMs) e owner hold
  unfold validateClutch cancelAllClutchOwners at hhold
  dsimp only at hhold
  split_ifs at hhold
  · exact absurd (hhold.symm.trans ExtTreeMap.getElem?_empty) (Option.some_ne_none hold)
  · exact hexpired hhold
  · exact hexpired hhold

end BroadcastState

/-! ### Every run -/

namespace Engine
open BroadcastState

theorem owned_step {engine : Engine} (h : ∀ s ∈ engine, s.Owned) (call : Call × Surroundings) :
    ∀ s ∈ engine.step call, s.Owned := by
  obtain ⟨call, e⟩ := call
  intro s' hs'
  cases engine with
  | some s => exact owned_call (h s rfl) call s' hs'
  | none =>
    cases call with
    | init cfg =>
      obtain rfl := Option.some.inj hs'
      exact .init e cfg
    | _ => exact absurd hs' (Option.not_mem_none s')

theorem owned_run (calls : List (Call × Surroundings)) : ∀ s ∈ run calls, s.Owned :=
  foldl_invariant (I := fun engine : Engine => ∀ s ∈ engine, s.Owned) (fun _ call h => owned_step h call) calls
    fun s hs => absurd hs (Option.not_mem_none s)

/-- After every run: an active clutch is owned by its key or by a hold, every hold names its source, the mouse reaches no
target of an inactive clutch and never the source; and a tick leaves no hold whose lease is over. -/
theorem clutch_owned (calls : List (Call × Surroundings)) :
    ∀ s ∈ run calls,
      (s.clutch.phase = .active → s.clutch.localOwnerActive = true ∨ s.remoteMouseHolds ≠ ∅) ∧
      (∀ (owner : MouseClutchOwner) (hold : RemoteMouseHold), s.remoteMouseHolds[owner]? = some hold →
        s.clutch.phase = .active ∧ s.clutch.sourcePid = some hold.sourcePid) ∧
      (∀ (pid : UInt32) (shm : ProcessShm), s.targets[pid]? = some shm → shm.mouseSelected = true →
        s.clutch.phase ≠ .inactive ∧ s.clutch.sourcePid ≠ some pid) ∧
      ∀ (e : Surroundings) (owner : MouseClutchOwner) (hold : RemoteMouseHold),
        (s.tick e).2.remoteMouseHolds[owner]? = some hold → e.nowMs < hold.deadlineMs := by
  intro s hs
  have h := owned_run calls s hs
  refine ⟨fun hactive => (h.owned hactive).imp_right ?_, fun owner hold hhold => ?_, fun pid shm hshm hselected => ?_,
    fun e owner hold => tick_holds⟩
  · rintro ⟨sourcePid, hnames⟩ hempty
    rw [hempty] at hnames
    exact not_names_empty hnames
  · exact h.named hold.sourcePid ⟨owner, hold, hhold, rfl⟩
  · exact h.selected pid ⟨shm, hshm, hselected⟩

def ownerA : MouseClutchOwner := ⟨7, "a"⟩

/-- A session holds the clutch of the first of two clients. -/
def heldRemotely : List (Call × Surroundings) :=
  [.init noFilter, .updateTargets [1, 2] (some 1), .updateMouseEligiblePids [1, 2],
    .updateRemoteMouseClutchHold ownerA .begin 1].map fun call => (call, playing 1)

theorem clutch_owned_heldRemotely :
    ∃ s ∈ run heldRemotely, s.clutch.phase = .active ∧ s.clutch.localOwnerActive = false ∧
      (s.clutch.localOwnerActive = true ∨ s.remoteMouseHolds ≠ ∅) :=
  ⟨_, rfl, rfl, rfl, (clutch_owned heldRemotely _ rfl).1 rfl⟩

end Engine
end Stonemite.Broadcast
