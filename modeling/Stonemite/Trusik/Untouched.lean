import Stonemite.Trusik.Broadcast

/-!
# What a call leaves of the targets

Of a target, the arrays of its two owners, its sources and its keys belong together. The calls that serve neither owner
leave them as they are (`Untouched`), and so does all of a call of an owner but the update of the targets itself.
`Rehooked` is for the hooks and `Carried` for the update of the targets.
-/

namespace Stonemite.Broadcast
open Std Trusik

/-- The owners of a target, its sources and its keys are the same. -/
structure ProcessShm.SameOwners (shm shm' : ProcessShm) : Prop where
  broadcastKeys : shm'.broadcastKeys = shm.broadcastKeys
  targetedKeys : shm'.targetedKeys = shm.targetedKeys
  targetedActive : shm'.targetedActive = shm.targetedActive
  keyboardActive : shm'.words.keyboardActive = shm.words.keyboardActive
  keys : shm'.words.keys = shm.words.keys

namespace ProcessShm.SameOwners
variable {shm shm' shm'' : ProcessShm}

theorem refl (shm : ProcessShm) : SameOwners shm shm := ⟨rfl, rfl, rfl, rfl, rfl⟩

theorem trans (h : SameOwners shm shm') (h' : SameOwners shm' shm'') : SameOwners shm shm'' where
  broadcastKeys := h'.broadcastKeys.trans h.broadcastKeys
  targetedKeys := h'.targetedKeys.trans h.targetedKeys
  targetedActive := h'.targetedActive.trans h.targetedActive
  keyboardActive := h'.keyboardActive.trans h.keyboardActive
  keys := h'.keys.trans h.keys

theorem selectMouse (shm : ProcessShm) (selected : Bool) : SameOwners shm (shm.selectMouse selected) :=
  ⟨rfl, rfl, rfl, rfl, rfl⟩

theorem branch {c : Prop} [Decidable c] (h : SameOwners shm shm') (h' : SameOwners shm shm'') :
    SameOwners shm (if c then shm' else shm'') := by
  split_ifs
  · exact h
  · exact h'

end ProcessShm.SameOwners

namespace BroadcastState
variable {s s' s'' : BroadcastState}

/-- Only the hooks and the sampled buttons differ. -/
def Rehooked (s s' : BroadcastState) : Prop :=
  ∃ keyboardHook mouseHook buttons, s' = { s with keyboardHook, mouseHook, clutch.buttons := buttons }

namespace Rehooked

theorem refl (s : BroadcastState) : Rehooked s s := ⟨s.keyboardHook, s.mouseHook, s.clutch.buttons, rfl⟩

theorem trans (h : Rehooked s s') (h' : Rehooked s' s'') : Rehooked s s'' := by
  obtain ⟨_, _, _, rfl⟩ := h
  obtain ⟨keyboardHook, mouseHook, buttons, rfl⟩ := h'
  exact ⟨keyboardHook, mouseHook, buttons, rfl⟩

theorem reconcileHooks (s : BroadcastState) (answers : HookAnswers) : Rehooked s (s.reconcileHooks answers).2 := by
  have hinstallKeyboard (s : BroadcastState) : Rehooked s (s.installKeyboardHook answers).2 := by
    unfold installKeyboardHook
    split_ifs
    · cases answers.installKeyboard with
      | ok _ => exact ⟨true, s.mouseHook, s.clutch.buttons, rfl⟩
      | error _ => exact refl s
    · exact refl s
  have hinstallMouse (s : BroadcastState) : Rehooked s (s.installMouseHook answers).2 := by
    unfold installMouseHook
    split_ifs
    · cases answers.installMouse with
      | ok _ => exact ⟨s.keyboardHook, true, answers.buttons, rfl⟩
      | error _ => exact refl s
    · exact refl s
  have hremoveMouse (s : BroadcastState) : Rehooked s (s.removeMouseHook answers).2 := by
    unfold removeMouseHook
    split_ifs
    · cases answers.removeMouse with
      | ok _ => exact ⟨s.keyboardHook, false, s.clutch.buttons, rfl⟩
      | error _ => exact refl s
    · exact refl s
  have hremoveKeyboard (s : BroadcastState) : Rehooked s (s.removeKeyboardHook answers).2 := by
    unfold removeKeyboardHook
    split_ifs
    · cases answers.removeKeyboard with
      | ok _ => exact ⟨false, s.mouseHook, s.clutch.buttons, rfl⟩
      | error _ => exact refl s
    · exact refl s
  unfold BroadcastState.reconcileHooks
  match s.installKeyboardHook answers, hinstallKeyboard s with
  | (.error _, _), h => exact h
  | (.ok _, s₁), h =>
    dsimp only
    match s₁.installMouseHook answers, h.trans (hinstallMouse s₁) with
    | (.error _, _), h => exact h
    | (.ok _, s₂), h =>
      dsimp only
      match s₂.removeMouseHook answers, h.trans (hremoveMouse s₂) with
      | (_, s₃), h =>
        dsimp only
        match s₃.removeKeyboardHook answers, h.trans (hremoveKeyboard s₃) with
        | (.error _, _), h => exact h
        | (.ok _, _), h => exact h

theorem broadcasting (h : Rehooked s s') : s'.broadcasting = s.broadcasting := by
  obtain ⟨_, _, _, rfl⟩ := h
  rfl

theorem targets (h : Rehooked s s') : s'.targets = s.targets := by
  obtain ⟨_, _, _, rfl⟩ := h
  rfl

end Rehooked

/-- Broadcasting is as before, and each target that is left comes from one that was there. -/
structure Carried (R : ProcessShm → ProcessShm → Prop) (s s' : BroadcastState) : Prop where
  broadcasting : s'.broadcasting = s.broadcasting
  targets : ∀ (pid : UInt32) (shm' : ProcessShm), s'.targets[pid]? = some shm' →
    ∃ shm, s.targets[pid]? = some shm ∧ R shm shm'

namespace Carried
variable {R R' : ProcessShm → ProcessShm → Prop}

theorem mono (hR : ∀ shm shm', R shm shm' → R' shm shm') (h : Carried R s s') : Carried R' s s' where
  broadcasting := h.broadcasting
  targets pid shm' hshm' := by
    obtain ⟨shm, hshm, hr⟩ := h.targets pid shm' hshm'
    exact ⟨shm, hshm, hR shm shm' hr⟩

theorem map (hbroadcasting : s'.broadcasting = s.broadcasting) {f : UInt32 → ProcessShm → ProcessShm}
    (htargets : s'.targets = s.targets.map f) (hf : ∀ pid shm, R shm (f pid shm)) : Carried R s s' where
  broadcasting := hbroadcasting
  targets pid shm' hshm' := by
    rw [htargets, ExtTreeMap.getElem?_map, Option.map_eq_some_iff] at hshm'
    obtain ⟨shm, hshm, rfl⟩ := hshm'
    exact ⟨shm, hshm, hf pid shm⟩

theorem insert (hrefl : ∀ shm, R shm shm) {pid : UInt32} {shm shm' : ProcessShm} (hshm : s.targets[pid]? = some shm)
    (hr : R shm shm') : Carried R s { s with targets := s.targets.insert pid shm' } where
  broadcasting := rfl
  targets other shm'' hshm'' := by
    dsimp only at hshm''
    rw [ExtTreeMap.getElem?_insert_ite] at hshm''
    split_ifs at hshm'' with hpid
    · subst hpid
      obtain rfl := Option.some.inj hshm''
      exact ⟨shm, hshm, hr⟩
    · exact ⟨shm'', hshm'', hrefl shm''⟩

end Carried

/-- No owner of a target does anything. -/
abbrev Untouched (s s' : BroadcastState) : Prop := Carried ProcessShm.SameOwners s s'

namespace Untouched

theorem of_eq (hbroadcasting : s'.broadcasting = s.broadcasting) (htargets : s'.targets = s.targets) :
    Untouched s s' :=
  ⟨hbroadcasting, fun pid shm hshm => ⟨shm, by rwa [htargets] at hshm, .refl shm⟩⟩

theorem refl (s : BroadcastState) : Untouched s s := of_eq rfl rfl

theorem trans (h : Untouched s s') (h' : Untouched s' s'') : Untouched s s'' where
  broadcasting := h'.broadcasting.trans h.broadcasting
  targets pid shm'' hshm'' := by
    obtain ⟨shm', hshm', hsame'⟩ := h'.targets pid shm'' hshm''
    obtain ⟨shm, hshm, hsame⟩ := h.targets pid shm' hshm'
    exact ⟨shm, hshm, hsame.trans hsame'⟩

theorem of_rehooked (h : Rehooked s s') : Untouched s s' := of_eq h.broadcasting h.targets

theorem reconcileHooks (s : BroadcastState) (answers : HookAnswers) : Untouched s (s.reconcileHooks answers).2 :=
  of_rehooked (Rehooked.reconcileHooks s answers)

theorem congr (h : Untouched s s') (hbroadcasting : s''.broadcasting = s'.broadcasting)
    (htargets : s''.targets = s'.targets) : Untouched s s'' := h.trans (of_eq hbroadcasting htargets)

theorem branch {c : Prop} [Decidable c] {s₁ s₂ : BroadcastState} (h₁ : Untouched s s₁) (h₂ : Untouched s s₂) :
    Untouched s (if c then s₁ else s₂) := by
  split_ifs
  · exact h₁
  · exact h₂

variable (s : BroadcastState) (e : Surroundings)

theorem deactivateMouseTargets : Untouched s s.deactivateMouseTargets := by
  exact .map rfl rfl fun _ shm => .branch (.selectMouse shm false) (.refl shm)

theorem activateMouseTargets (sourcePid : UInt32) : Untouched s (s.activateMouseTargets e sourcePid).2 := by
  have hselect : Untouched s (s.selectReadyTargets e sourcePid) := by
    exact .map rfl rfl fun _ shm => .branch (.selectMouse shm true) (.refl shm)
  have hretire (s : BroadcastState) : Untouched s (s.retireOtherTargets e sourcePid) := by
    exact .map rfl rfl fun _ shm => .branch (.selectMouse shm false) (.refl shm)
  unfold BroadcastState.activateMouseTargets
  split_ifs
  · exact hselect.trans (hretire _)
  · exact refl s

theorem suppressBackground (activePid : Option UInt32) : Untouched s (s.suppressBackground activePid) :=
  .map rfl rfl fun _ _ => ⟨rfl, rfl, rfl, rfl, rfl⟩

theorem updateMouseEligiblePids (pids : List UInt32) : Untouched s (s.updateMouseEligiblePids e pids) :=
  branch (of_eq rfl rfl) (of_eq rfl rfl)

theorem setActivePid (pid : UInt32) : Untouched s (s.setActivePid e pid) := by
  have hcancel : Untouched s (if s.clutch.sourcePid.any (· != pid) then s.cancelAllClutchOwners e.nowMs else s) :=
    branch (of_eq rfl rfl) (refl s)
  exact hcancel.trans (.map rfl rfl fun _ _ => ⟨rfl, rfl, rfl, rfl, rfl⟩)

theorem applyPendingClutchBinding (reconciled : Nat) : Untouched s (s.applyPendingClutchBinding e reconciled) := by
  unfold BroadcastState.applyPendingClutchBinding
  split_ifs
  · exact refl s
  · cases s.pendingClutchBinding with
    | none => exact refl s
    | some binding =>
      have htaken : Untouched s { s with
          pendingClutchBinding := none
          clutchBindingVk := binding
          clutchKeyIsDown := binding.any e.keyIsDown } := of_eq rfl rfl
      dsimp only
      have h := htaken.trans (reconcileHooks _ (e.hooks reconciled))
      generalize BroadcastState.reconcileHooks _ (e.hooks reconciled) = hooked at h ⊢
      obtain ⟨error | _, s'⟩ := hooked
      · have hfailed : Untouched s { s' with clutchBindingVk := none, clutchError := some error } := h.congr rfl rfl
        have hinactive : Untouched s { { s' with clutchBindingVk := none, clutchError := some error }.deactivateMouseTargets with
            clutch := s'.clutch.forceInactive } := (hfailed.trans (deactivateMouseTargets _)).congr rfl rfl
        exact hinactive.trans (reconcileHooks _ _)
      · exact h

theorem expireHolds : Untouched s (s.expireHolds e) := branch (of_eq rfl rfl) (refl s)

theorem validateClutch : Untouched s (s.validateClutch e) := branch (branch (of_eq rfl rfl) (refl s)) (refl s)

theorem finishDrain : Untouched s (s.finishDrain e) := by
  have hclutch (clutch : MouseClutch) : Untouched s { s with clutch } := of_eq rfl rfl
  exact branch ((hclutch _).trans (deactivateMouseTargets _)) (hclutch _)

theorem reportHooks (answers : HookAnswers) : Untouched s (s.reportHooks answers) := by
  have h := reconcileHooks s answers
  unfold BroadcastState.reportHooks
  generalize s.reconcileHooks answers = hooked at h ⊢
  obtain ⟨error | _, s'⟩ := hooked
  · exact h.congr rfl rfl
  · exact h

theorem tick : Untouched s (s.tick e).2 := by
  have hrefresh : Untouched s (s.refreshControllerHeartbeat e.nowMs) := .map rfl rfl fun _ _ => ⟨rfl, rfl, rfl, rfl, rfl⟩
  have hclutch := ((hrefresh.trans (expireHolds _ e)).trans (validateClutch _ e)).trans (finishDrain _ e)
  have hhooks := (hclutch.trans (applyPendingClutchBinding _ e 0)).trans (reportHooks _ (e.hooks 2))
  unfold BroadcastState.tick
  dsimp only
  exact hhooks.congr rfl rfl

theorem onSettingsChanged (cfg : Settings) : Untouched s (s.onSettingsChanged e cfg) := by
  unfold BroadcastState.onSettingsChanged
  refine trans ?_ (applyPendingClutchBinding _ e 0)
  exact of_eq rfl rfl

/-! ### The clutch -/

theorem dropHold (owner : MouseClutchOwner) (answers : HookAnswers) : Untouched s (s.dropHold owner answers) := by
  unfold BroadcastState.dropHold
  refine trans ?_ (reconcileHooks _ answers)
  exact of_eq rfl rfl

theorem heldReleased : Untouched s (s.heldReleased e) := by
  unfold BroadcastState.heldReleased
  refine trans ?_ (reconcileHooks _ (e.hooks 0))
  exact of_eq rfl rfl

theorem engageHold (owner : MouseClutchOwner) (sourcePid : UInt32) : Untouched s (s.engageHold e owner sourcePid).2 := by
  unfold BroadcastState.engageHold
  dsimp only
  have hclutch (clutch : MouseClutch) : Untouched s { s with clutch } := of_eq rfl rfl
  split_ifs
  · have hactive := (hclutch ({ s.clutch with buttons := e.buttons }.activate sourcePid true).2).trans
      (activateMouseTargets _ e sourcePid)
    generalize BroadcastState.activateMouseTargets _ e sourcePid = activated at hactive ⊢
    obtain ⟨_ | _, s'⟩ := activated
    · refine trans ?_ (dropHold _ owner (e.hooks 1))
      exact hactive.congr rfl rfl
    · exact hactive.congr rfl rfl
  · exact trans (hclutch _) (dropHold _ owner (e.hooks 1))

theorem beginHold (owner : MouseClutchOwner) (sourcePid : UInt32) : Untouched s (s.beginHold e owner sourcePid).2 := by
  have hheld (holds : ExtTreeMap MouseClutchOwner RemoteMouseHold) : Untouched s { s with remoteMouseHolds := holds } :=
    of_eq rfl rfl
  unfold BroadcastState.beginHold
  dsimp only
  have h := (hheld (s.remoteMouseHolds.insert owner
    ⟨sourcePid, saturatingAdd 64 e.nowMs remoteMouseClutchLeaseMs⟩)).trans (reconcileHooks _ (e.hooks 0))
  generalize BroadcastState.reconcileHooks _ (e.hooks 0) = hooked at h ⊢
  obtain ⟨error | _, s'⟩ := hooked
  · exact h.trans (dropHold s' owner (e.hooks 1))
  · dsimp only
    split_ifs
    · exact h.congr rfl rfl
    · exact h.trans (engageHold s' e owner sourcePid)

theorem operateHold (owner : MouseClutchOwner) (operation : MouseClutchOperation) :
    Untouched s (s.operateHold e owner operation).2 := by
  have hheld (holds : ExtTreeMap MouseClutchOwner RemoteMouseHold) : Untouched s { s with remoteMouseHolds := holds } :=
    of_eq rfl rfl
  unfold BroadcastState.operateHold
  cases operation with
  | begin =>
    cases s.remoteMouseHolds[owner]? with
    | some hold => exact hheld _
    | none =>
      dsimp only
      split
      · exact beginHold s e owner _
      all_goals exact refl s
  | renew =>
    cases s.remoteMouseHolds[owner]? with
    | none => exact refl s
    | some hold =>
      dsimp only
      split_ifs
      · exact hheld _
      · exact hheld _
  | ended =>
    dsimp only
    split_ifs
    · exact trans (hheld _) (heldReleased _ e)
    · exact refl s

theorem updateRemoteMouseClutchHold (owner : MouseClutchOwner) (operation : MouseClutchOperation) (sequence : Nat) :
    Untouched s (s.updateRemoteMouseClutchHold e owner operation sequence).2 := by
  unfold BroadcastState.updateRemoteMouseClutchHold
  split_ifs
  · exact refl s
  · exact refl s
  · refine trans ?_ (operateHold _ e owner operation)
    exact of_eq rfl rfl

theorem endRemoteMouseClutchSession (sessionId : UInt64) (sequence : Nat) :
    Untouched s (s.endRemoteMouseClutchSession e sessionId sequence) := by
  have hclosed : Untouched s (s.closeSession sessionId sequence) := of_eq rfl rfl
  exact branch (hclosed.trans (heldReleased _ e)) hclosed

/-! ### The hooks -/

theorem mouseProc (message : MouseMessage) : Untouched s (s.mouseProc e message) := by
  unfold BroadcastState.mouseProc
  cases mouseButtonMessage message with
  | none => exact refl s
  | some _ => exact of_eq rfl rfl

theorem clutchKeyDown (vk sourcePid : UInt32) : Untouched s (s.clutchKeyDown e vk sourcePid) := by
  have hclutch (clutch : MouseClutch) : Untouched s { s with clutch } := of_eq rfl rfl
  unfold BroadcastState.clutchKeyDown
  dsimp only
  split_ifs
  · exact ((hclutch _).trans (activateMouseTargets _ e sourcePid)).congr rfl rfl
  · exact of_eq rfl rfl


/-- A key event changes the clutch and its binding only, or is broadcast after such a change. -/
theorem keyboardProc (kb : KeyEvent) :
    Untouched s (s.keyboardProc e kb).2 ∨
      ∃ clutchKeyIsDown, (s.keyboardProc e kb).2 = { s with clutchKeyIsDown }.broadcastKey e kb := by
  have hbinding : ∃ clutchKeyIsDown, s.releaseBinding kb = { s with clutchKeyIsDown } := by
    unfold releaseBinding
    split_ifs
    · exact ⟨false, rfl⟩
    · exact ⟨s.clutchKeyIsDown, rfl⟩
  obtain ⟨bindingDown, hreleased⟩ := hbinding
  have hdown (clutchKeyIsDown : Bool) : Untouched s { s with clutchKeyIsDown } := of_eq rfl rfl
  unfold BroadcastState.keyboardProc
  split_ifs
  · exact .inl (refl s)
  · exact .inl (of_eq rfl rfl)
  · rw [hreleased]
    unfold freshKey
    split_ifs
    · exact .inl (hdown bindingDown)
    · dsimp only
      cases e.foregroundPid.filter s.eqPids.contains with
      | none => exact .inr ⟨true, rfl⟩
      | some sourcePid => exact .inl ((hdown true).trans (clutchKeyDown _ e kb.vkCode sourcePid))
    · exact .inr ⟨bindingDown, rfl⟩

end Untouched

/-! ### The targets of the processes that are there -/

theorem createShm_spec {e : Surroundings} {pid : UInt32} {shm : ProcessShm} (hshm : createShm e pid = some shm) :
    ∃ words : ControllerWords, words.keys.keys = noKeys ∧ words.keyboardActive = 0 ∧
      shm = ProcessShm.refreshControllerHeartbeat ⟨words, fun _ => false, fun _ => false, false, false⟩ e.nowMs := by
  unfold createShm at hshm
  dsimp only at hshm
  split at hshm
  · cases hshm
  · exact ⟨_, rfl, rfl, (Option.some.inj hshm).symm⟩
  · split_ifs at hshm
    exact ⟨_, rfl, rfl, (Option.some.inj hshm).symm⟩

theorem addTargets_spec (s : BroadcastState) (e : Surroundings) (pids : List UInt32) :
    ∃ targets, pids.foldl (addTarget e) s = { s with targets } ∧ ∀ (pid : UInt32) (shm' : ProcessShm),
      targets[pid]? = some shm' → s.targets[pid]? = some shm' ∨ pid ∈ pids ∧ s.targets[pid]? = none ∧
        ∃ shm, createShm e pid = some shm ∧
          shm' = if s.broadcasting then shm.setKeyboardSource keyboardBroadcast true else shm := by
  induction pids generalizing s with
  | nil => exact ⟨s.targets, rfl, fun pid shm' hshm' => .inl hshm'⟩
  | cons new pids ih =>
    obtain ⟨targets, heq, htargets⟩ := ih (addTarget e s new)
    rw [List.foldl_cons, heq]
    unfold addTarget at htargets ⊢
    by_cases hcontains : s.targets.contains new
    · rw [if_pos hcontains] at htargets ⊢
      exact ⟨targets, rfl, fun pid shm' hshm' =>
        (htargets pid shm' hshm').imp_right fun h => ⟨List.mem_cons_of_mem new h.1, h.2⟩⟩
    · rw [if_neg hcontains] at htargets ⊢
      cases hcreated : createShm e new with
      | none =>
        rw [hcreated] at htargets
        exact ⟨targets, rfl, fun pid shm' hshm' =>
          (htargets pid shm' hshm').imp_right fun h => ⟨List.mem_cons_of_mem new h.1, h.2⟩⟩
      | some shm =>
        rw [hcreated] at htargets
        refine ⟨targets, rfl, fun pid shm' hshm' => ?_⟩
        have hpid := htargets pid shm' hshm'
        dsimp only at hpid
        rw [ExtTreeMap.getElem?_insert_ite] at hpid
        by_cases hnew : new = pid
        · subst hnew
          rw [if_pos rfl] at hpid
          have hnone := ExtTreeMap.contains_eq_false_iff.mp (Bool.eq_false_iff.mpr hcontains)
          obtain hsome | ⟨-, habsurd, -⟩ := hpid
          · exact .inr ⟨List.mem_cons_self, hnone, shm, hcreated, (Option.some.inj hsome).symm⟩
          · cases habsurd
        · rw [if_neg hnew] at hpid
          exact hpid.imp_right fun h => ⟨List.mem_cons_of_mem new h.1, h.2⟩

theorem cancelGone_cases (s : BroadcastState) (e : Surroundings) (pids : List UInt32) :
    s.cancelGone e pids = s ∨ s.cancelGone e pids = s.cancelAllClutchOwners e.nowMs := by
  unfold cancelGone
  dsimp only
  split_ifs
  · exact .inr rfl
  · exact .inl rfl

/-- A target is the one that was there, or that of a process that had none. -/
theorem updateTargets_spec (s : BroadcastState) (e : Surroundings) (pids : List UInt32) (activePid : Option UInt32) :
    ∃ targets, s.updateTargets e pids activePid = { s.cancelGone e pids with targets, eqPids := pids, activePid } ∧
      ∀ (pid : UInt32) (shm' : ProcessShm), targets[pid]? = some shm' →
        pid ∈ pids ∧ ∃ shm, shm' = shm.suppress (some pid != activePid) ∧ (s.targets[pid]? = some shm ∨
          s.targets[pid]? = none ∧ ∃ created, createShm e pid = some created ∧
            shm = if s.broadcasting then created.setKeyboardSource keyboardBroadcast true else created) := by
  have htargets : (s.cancelGone e pids).targets = s.targets := by
    obtain heq | heq := cancelGone_cases s e pids <;> rw [heq]
    rfl
  have hbroadcasting : (s.cancelGone e pids).broadcasting = s.broadcasting := by
    obtain heq | heq := cancelGone_cases s e pids <;> rw [heq]
    rfl
  obtain ⟨added, hadded, hspec⟩ := addTargets_spec ((s.cancelGone e pids).retainTargets pids) e pids
  unfold updateTargets
  dsimp only
  rw [hadded]
  refine ⟨_, rfl, fun pid shm' hshm' => ?_⟩
  rw [ExtTreeMap.getElem?_map, Option.map_eq_some_iff] at hshm'
  obtain ⟨shm, hshm, rfl⟩ := hshm'
  have hpid := hspec pid shm hshm
  unfold retainTargets at hpid
  dsimp only at hpid
  rw [htargets, hbroadcasting, ExtTreeMap.getElem?_filter'] at hpid
  obtain hold | ⟨hmem, hnone, hcreated⟩ := hpid
  · rw [Option.filter_eq_some_iff] at hold
    exact ⟨List.contains_iff_mem.mp hold.2, shm, rfl, .inl hold.1⟩
  · refine ⟨hmem, shm, rfl, .inr ⟨?_, hcreated⟩⟩
    rw [Option.filter_eq_none_iff] at hnone
    exact Option.eq_none_iff_forall_not_mem.mpr fun old hold => hnone old hold (List.contains_iff_mem.mpr hmem)

theorem updateTargets_broadcasting (s : BroadcastState) (e : Surroundings) (pids : List UInt32)
    (activePid : Option UInt32) : (s.updateTargets e pids activePid).broadcasting = s.broadcasting := by
  obtain ⟨targets, heq, -⟩ := updateTargets_spec s e pids activePid
  rw [heq]
  dsimp only
  obtain hcancel | hcancel := cancelGone_cases s e pids <;> rw [hcancel]
  rfl

end BroadcastState
end Stonemite.Broadcast
