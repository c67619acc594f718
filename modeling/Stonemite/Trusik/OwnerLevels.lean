import Stonemite.Lib.Run
import Stonemite.Trusik.Broadcasting

/-!
# Two owners of a key

A key of a target is down while broadcasting or a targeted sequence holds it. A call of one owner leaves what the other
holds (`Keeps`), and after each call the words of a target say what its owners hold (`Levelled`). `Turn` is what a call
of either owner does; `levelled_step` and `levelled_run` lead to `owners_combined`.
-/

namespace Stonemite.Trusik.ControllerKeys
variable (m : ControllerKeys)

theorem level_setControllerKey (scan : Fin keyCount) (value : UInt8) :
    (m.setControllerKey scan value).level = Function.update m.level scan (value &&& 0x80 != 0) := by
  have hlocked : m.lockSequence.keys = m.keys := rfl
  unfold setControllerKey
  rw [dif_pos scan.isLt]
  dsimp only
  rw [hlocked]
  by_cases hne : m.keys scan &&& 0x80 ≠ value &&& 0x80
  · rw [if_pos hne]
    exact level_update m.keys scan _
  · rw [if_neg hne]
    have hsame : m.level scan = (value &&& 0x80 != 0) := not_not.mp (mt (high_ne_iff m scan value).mpr hne)
    rw [← hsame, Function.update_eq_self]
    rfl

end Stonemite.Trusik.ControllerKeys

namespace Stonemite.Broadcast
open Std Trusik

/-! ### What a target holds -/

namespace ProcessShm
variable {shm shm' : ProcessShm} {broadcasting : Bool}

/-- The words of a target say what its owners hold. -/
structure Levelled (broadcasting : Bool) (shm : ProcessShm) : Prop where
  level : ∀ scan, shm.words.keys.level scan = (shm.broadcastKeys scan || shm.targetedKeys scan)
  targeted : shm.hasSource keyboardTargeted = shm.targetedActive
  broadcasts : shm.hasSource keyboardBroadcast = broadcasting

namespace Levelled

theorem of_sameOwners (h : shm.Levelled broadcasting) (hsame : SameOwners shm shm') : shm'.Levelled broadcasting where
  level scan := by
    rw [hsame.keys, hsame.broadcastKeys, hsame.targetedKeys]
    exact h.level scan
  targeted := by
    unfold hasSource
    rw [hsame.keyboardActive, hsame.targetedActive]
    exact h.targeted
  broadcasts := by
    unfold hasSource
    rw [hsame.keyboardActive]
    exact h.broadcasts

theorem combinedKeyValue_level (broadcast targeted : Bool) :
    (combinedKeyValue broadcast targeted &&& 0x80 != 0) = (broadcast || targeted) := by
  cases broadcast <;> cases targeted <;> rfl

theorem writeCombinedKey {scan : Fin keyCount}
    (hlevel : ∀ other ≠ scan, shm.words.keys.level other = (shm.broadcastKeys other || shm.targetedKeys other))
    (htargeted : shm.hasSource keyboardTargeted = shm.targetedActive)
    (hbroadcasts : shm.hasSource keyboardBroadcast = broadcasting) :
    (shm.writeCombinedKey scan).Levelled broadcasting where
  level other := by
    show (shm.words.keys.setControllerKey scan _).level other = _
    rw [ControllerKeys.level_setControllerKey]
    by_cases hother : other = scan
    · subst hother
      rw [Function.update_self]
      exact combinedKeyValue_level _ _
    · rw [Function.update_of_ne hother]
      exact hlevel other hother
  targeted := htargeted
  broadcasts := hbroadcasts

theorem setBroadcastKey (h : shm.Levelled broadcasting) (scan : Fin keyCount) (pressed : Bool) :
    (shm.setBroadcastKey scan pressed).Levelled broadcasting := by
  refine writeCombinedKey (fun other hother => ?_) h.targeted h.broadcasts
  dsimp only
  rw [Function.update_of_ne hother]
  exact h.level other

theorem setTargetedKey (h : shm.Levelled broadcasting) (scan : Fin keyCount) (pressed : Bool) :
    (shm.setTargetedKey scan pressed).Levelled broadcasting := by
  refine writeCombinedKey (fun other hother => ?_) h.targeted h.broadcasts
  dsimp only
  rw [Function.update_of_ne hother]
  exact h.level other

theorem releaseBroadcastKeys (h : shm.Levelled broadcasting) : shm.releaseBroadcastKeys.Levelled broadcasting :=
  foldl_invariant (I := ProcessShm.Levelled broadcasting) (fun _ scan hshm => hshm.setBroadcastKey scan false) scans h

theorem releaseTargetedKey (h : shm.Levelled broadcasting) (scan : Fin keyCount) :
    (shm.releaseTargetedKey scan).Levelled broadcasting := by
  unfold ProcessShm.releaseTargetedKey
  split_ifs
  · exact h.setTargetedKey scan false
  · exact h

theorem setTargetedActive (h : shm.Levelled broadcasting) (active : Bool) :
    ({ shm with targetedActive := active }.setKeyboardSource keyboardTargeted active).Levelled broadcasting where
  level := h.level
  targeted := hasSource_setKeyboardSource _ (by decide) active
  broadcasts := (hasSource_setKeyboardSource_of_ne _ rfl rfl active).trans h.broadcasts

theorem setBroadcasting (h : shm.Levelled broadcasting) (active : Bool) :
    (shm.setKeyboardSource keyboardBroadcast active).Levelled active where
  level := h.level
  targeted := (hasSource_setKeyboardSource_of_ne _ rfl rfl active).trans h.targeted
  broadcasts := hasSource_setKeyboardSource _ (by decide) active

theorem createShm {e : Surroundings} {pid : UInt32} (hshm : createShm e pid = some shm) : shm.Levelled false := by
  obtain ⟨words, hkeys, hactive, rfl⟩ := BroadcastState.createShm_spec hshm
  refine ⟨fun scan => ?_, ?_, ?_⟩
  · show (words.keys.keys scan &&& 0x80 != 0) = false
    rw [hkeys]
    unfold noKeys
    rfl
  · show (words.keyboardActive &&& keyboardTargeted != 0) = false
    rw [hactive]
    rfl
  · show (words.keyboardActive &&& keyboardBroadcast != 0) = false
    rw [hactive]
    rfl

end Levelled

/-! ### What one owner leaves of the other -/

theorem foldl_eq {α : Type} {f : ProcessShm → Fin keyCount → ProcessShm} (part : ProcessShm → α)
    (hf : ∀ shm scan, part (f shm scan) = part shm) (shm : ProcessShm) (l : List (Fin keyCount)) :
    part (l.foldl f shm) = part shm :=
  foldl_invariant (I := fun shm' => part shm' = part shm) (fun shm' scan h => (hf shm' scan).trans h) l rfl

theorem targetedKeys_setKeyboardSource (shm : ProcessShm) (source : UInt32) (active : Bool) :
    (shm.setKeyboardSource source active).targetedKeys = shm.targetedKeys := rfl

theorem targetedKeys_releaseBroadcastKeys (shm : ProcessShm) :
    shm.releaseBroadcastKeys.targetedKeys = shm.targetedKeys := by
  unfold releaseBroadcastKeys
  generalize scans = l
  have hkept (shm : ProcessShm) (scan : Fin keyCount) :
      (shm.setBroadcastKey scan false).targetedKeys = shm.targetedKeys := rfl
  exact foldl_eq ProcessShm.targetedKeys hkept shm l

theorem broadcastKeys_releaseTargetedKey (shm : ProcessShm) (scan : Fin keyCount) :
    (shm.releaseTargetedKey scan).broadcastKeys = shm.broadcastKeys := by
  unfold releaseTargetedKey
  split_ifs <;> rfl

end ProcessShm

namespace BroadcastState
variable {s s' : BroadcastState} {e : Surroundings}

/-- The words of every target say what its owners hold. -/
def Levelled (s : BroadcastState) : Prop :=
  ∀ (pid : UInt32) (shm : ProcessShm), s.targets[pid]? = some shm → shm.Levelled s.broadcasting

/-- A target that is there before and after is so related. -/
def Keeps (R : ProcessShm → ProcessShm → Prop) (s s' : BroadcastState) : Prop :=
  ∀ (pid : UInt32) (shm shm' : ProcessShm), s.targets[pid]? = some shm → s'.targets[pid]? = some shm' → R shm shm'

/-- What one owner does to a target: it leaves a part of it, and the words follow. -/
def Follows {α : Type} (part : ProcessShm → α) (shm shm' : ProcessShm) : Prop :=
  part shm' = part shm ∧ ∀ broadcasting, shm.Levelled broadcasting → shm'.Levelled broadcasting

theorem Carried.keeps {R : ProcessShm → ProcessShm → Prop} (h : Carried R s s') : Keeps R s s' := by
  intro pid shm shm' hshm hshm'
  obtain ⟨shm₀, hshm₀, hr⟩ := h.targets pid shm' hshm'
  obtain rfl := Option.some.inj (hshm.symm.trans hshm₀)
  exact hr

theorem Carried.was {R : ProcessShm → ProcessShm → Prop} (h : Carried R s s') (pid : UInt32) (shm' : ProcessShm)
    (hshm' : s'.targets[pid]? = some shm') : s.targets[pid]? ≠ none := by
  obtain ⟨shm, hshm, -⟩ := h.targets pid shm' hshm'
  exact Option.ne_none_iff_exists'.mpr ⟨shm, hshm⟩

theorem Carried.levelled {α : Type} {part : ProcessShm → α} (hcarried : Carried (Follows part) s s') (h : s.Levelled) :
    s'.Levelled := by
  intro pid shm' hshm'
  obtain ⟨shm, hshm, -, hlevelled⟩ := hcarried.targets pid shm' hshm'
  rw [hcarried.broadcasting]
  exact hlevelled _ (h pid shm hshm)

/-! ### Targeted input -/

theorem Follows.refl {α : Type} (part : ProcessShm → α) (shm : ProcessShm) : Follows part shm shm :=
  ⟨rfl, fun _ h => h⟩

theorem Follows.of_untouched {α : Type} {part : ProcessShm → α}
    (hpart : ∀ shm shm', ProcessShm.SameOwners shm shm' → part shm' = part shm) (h : Untouched s s') :
    Carried (Follows part) s s' :=
  h.mono fun shm shm' hsame => ⟨hpart shm shm' hsame, fun _ hlevelled => hlevelled.of_sameOwners hsame⟩

/-- What broadcasting holds is the same. -/
abbrev FollowsTargeted : ProcessShm → ProcessShm → Prop := Follows ProcessShm.broadcastKeys

/-- What a targeted sequence holds is the same. -/
abbrev FollowsBroadcast : ProcessShm → ProcessShm → Prop := Follows ProcessShm.targetedKeys

theorem Untouched.targeted (h : Untouched s s') : Carried FollowsTargeted s s' :=
  Follows.of_untouched (fun _ _ hsame => hsame.broadcastKeys) h

theorem Untouched.broadcast (h : Untouched s s') : Carried FollowsBroadcast s s' :=
  Follows.of_untouched (fun _ _ hsame => hsame.targetedKeys) h

variable (s e)

theorem carried_beginTargetedInput (pid : UInt32) : Carried FollowsTargeted s (s.beginTargetedInput e pid).2 := by
  unfold beginTargetedInput
  cases hshm : s.targets[pid]? with
  | none => exact (Untouched.refl s).targeted
  | some shm =>
    dsimp only
    split_ifs
    · exact (Untouched.refl s).targeted
    · exact .insert (Follows.refl _) hshm ⟨rfl, fun _ h => h.setTargetedActive true⟩
    · exact (Untouched.refl s).targeted

theorem carried_setTargetedKey (pid : UInt32) (scan : UInt8) (pressed : Bool) :
    Carried FollowsTargeted s (s.setTargetedKey pid scan pressed).2 := by
  unfold setTargetedKey
  split_ifs
  · exact (Untouched.refl s).targeted
  · cases hshm : s.targets[pid]? with
    | none => exact (Untouched.refl s).targeted
    | some shm =>
      dsimp only
      split_ifs
      · exact .insert (Follows.refl _) hshm ⟨rfl, fun _ h => h.setTargetedKey (keyOf scan) pressed⟩
      · exact (Untouched.refl s).targeted

theorem carried_finishTargetedInput (pid : UInt32) : Carried FollowsTargeted s (s.finishTargetedInput pid) := by
  unfold finishTargetedInput
  cases hshm : s.targets[pid]? with
  | none => exact (Untouched.refl s).targeted
  | some shm =>
    refine Carried.insert (R := FollowsTargeted) (Follows.refl _) hshm ?_
    generalize scans = l
    refine ⟨ProcessShm.foldl_eq (·.broadcastKeys) ProcessShm.broadcastKeys_releaseTargetedKey shm l, fun broadcasting h => ?_⟩
    have hreleased : (l.foldl ProcessShm.releaseTargetedKey shm).Levelled broadcasting :=
      foldl_invariant (I := ProcessShm.Levelled broadcasting) (fun _ scan hshm => hshm.releaseTargetedKey scan) l h
    exact hreleased.setTargetedActive false

/-! ### Broadcasting -/

theorem carried_broadcastKey (kb : KeyEvent) : Carried FollowsBroadcast s (s.broadcastKey e kb) := by
  have huntouched : Untouched s { s with eqWasForeground := true } := .of_eq rfl rfl
  have hsame := huntouched.broadcast
  unfold broadcastKey
  dsimp only
  split_ifs
  · cases (directInputScanCode kb.scanCode kb.extended).filter _ with
    | none => exact hsame
    | some scan =>
      refine .map rfl rfl fun pid shm => ?_
      split_ifs
      · exact .refl _ shm
      · exact ⟨rfl, fun _ h => h.setBroadcastKey (keyOf scan) _⟩
  · exact hsame
  · refine .map rfl rfl fun pid shm => ?_
    split_ifs
    · exact .refl _ shm
    · exact ⟨shm.targetedKeys_releaseBroadcastKeys, fun _ h => h.releaseBroadcastKeys⟩
  · exact (Untouched.refl s).broadcast

/-! ### One call -/

/-- What a call does: the words follow the owners, what an owner holds changes by its own calls only, and of a target that
was not there nothing is held. -/
structure Turn (servesBroadcast servesTargeted : Bool) (s s' : BroadcastState) : Prop where
  levelled : s.Levelled → s'.Levelled
  broadcastKeys : servesBroadcast = false → Keeps (fun shm shm' => shm'.broadcastKeys = shm.broadcastKeys) s s'
  targetedKeys : servesTargeted = false → Keeps (fun shm shm' => shm'.targetedKeys = shm.targetedKeys) s s'
  fresh : ∀ (pid : UInt32) (shm' : ProcessShm), s'.targets[pid]? = some shm' → s.targets[pid]? = none →
    ∀ scan, shm'.broadcastKeys scan = false

namespace Turn
variable {servesBroadcast servesTargeted : Bool} {s e}

theorem of_targeted (h : Carried FollowsTargeted s s') : Turn false true s s' where
  levelled := h.levelled
  broadcastKeys _ := (h.mono fun _ _ hfollows => hfollows.1).keeps
  targetedKeys := nofun
  fresh pid shm' hshm' hnone := absurd hnone (h.was pid shm' hshm')

theorem of_broadcast (h : Carried FollowsBroadcast s s') : Turn true false s s' where
  levelled := h.levelled
  broadcastKeys := nofun
  targetedKeys _ := (h.mono fun _ _ hfollows => hfollows.1).keeps
  fresh pid shm' hshm' hnone := absurd hnone (h.was pid shm' hshm')

theorem of_untouched (h : Untouched s s') : Turn servesBroadcast servesTargeted s s' where
  levelled := h.targeted.levelled
  broadcastKeys _ := (h.mono fun _ _ hsame => hsame.broadcastKeys).keeps
  targetedKeys _ := (h.mono fun _ _ hsame => hsame.targetedKeys).keeps
  fresh pid shm' hshm' hnone := absurd hnone (h.was pid shm' hshm')

theorem keyboardProc (s : BroadcastState) (e : Surroundings) (kb : KeyEvent) :
    Turn true false s (s.keyboardProc e kb).2 := by
  obtain h | ⟨clutchKeyIsDown, heq⟩ := Untouched.keyboardProc s e kb
  · exact of_untouched h
  · have hkey := carried_broadcastKey { s with clutchKeyIsDown } e kb
    rw [heq]
    exact of_broadcast ⟨hkey.broadcasting, hkey.targets⟩

theorem setActive (s : BroadcastState) (e : Surroundings) (active : Bool) :
    Turn true false s (s.setActive e active).2 := by
  obtain ⟨-, hsame⟩ | ⟨-, -, -, hhooks⟩ | ⟨-, -, s₁, hhooks, heq⟩ := setActive_cases s e active
  · rw [hsame]
    exact of_untouched (.refl s)
  · exact of_untouched (.of_rehooked hhooks)
  · refine ⟨fun h pid shm' hshm' => ?_, nofun, fun _ pid shm shm' hshm hshm' => ?_, fun pid shm' hshm' hnone => ?_⟩
    · rw [heq, ExtTreeMap.getElem?_map, Option.map_eq_some_iff] at hshm'
      obtain ⟨shm, hshm, rfl⟩ := hshm'
      have hactive : s₁.broadcasting = active := hhooks.broadcasting
      rw [heq]
      dsimp only
      rw [hactive]
      split_ifs
      · exact (h pid shm hshm).setBroadcasting active
      · exact (h pid shm hshm).releaseBroadcastKeys.setBroadcasting active
    · rw [heq, ExtTreeMap.getElem?_map, hshm] at hshm'
      obtain rfl := Option.some.inj hshm'
      rw [ProcessShm.targetedKeys_setKeyboardSource]
      split_ifs
      · rfl
      · exact shm.targetedKeys_releaseBroadcastKeys
    · rw [heq, ExtTreeMap.getElem?_map, hnone] at hshm'
      cases hshm'

theorem updateTargets (s : BroadcastState) (e : Surroundings) (pids : List UInt32) (activePid : Option UInt32) :
    Turn servesBroadcast servesTargeted s (s.updateTargets e pids activePid) := by
  obtain ⟨targets, heq, htargets⟩ := updateTargets_spec s e pids activePid
  have hkeeps : Keeps ProcessShm.SameOwners s (s.updateTargets e pids activePid) := by
    rw [heq]
    intro pid shm shm' hshm hshm'
    obtain ⟨-, old, rfl, hold | ⟨hnone, -⟩⟩ := htargets pid shm' hshm'
    · obtain rfl := Option.some.inj (hshm.symm.trans hold)
      exact ⟨rfl, rfl, rfl, rfl, rfl⟩
    · rw [hnone] at hshm
      cases hshm
  refine ⟨fun h pid shm' hshm' => ?_, fun _ pid shm shm' hshm hshm' => (hkeeps pid shm shm' hshm hshm').broadcastKeys,
    fun _ pid shm shm' hshm hshm' => (hkeeps pid shm shm' hshm hshm').targetedKeys, fun pid shm' hshm' hnone scan => ?_⟩
  swap
  · rw [heq] at hshm'
    obtain ⟨-, shm, rfl, hold | ⟨-, created, hcreated, rfl⟩⟩ := htargets pid shm' hshm'
    · rw [hnone] at hold
      cases hold
    · obtain ⟨words, -, -, rfl⟩ := createShm_spec hcreated
      split_ifs <;> rfl
  rw [updateTargets_broadcasting]
  rw [heq] at hshm'
  obtain ⟨-, shm, rfl, hold | ⟨-, created, hcreated, rfl⟩⟩ := htargets pid shm' hshm'
  · exact (h pid shm hold).of_sameOwners ⟨rfl, rfl, rfl, rfl, rfl⟩
  · have hfresh := ProcessShm.Levelled.createShm hcreated
    have hsourced : (if s.broadcasting then created.setKeyboardSource keyboardBroadcast true else created).Levelled
        s.broadcasting := by
      cases s.broadcasting with
      | true => exact hfresh.setBroadcasting true
      | false => exact hfresh
    exact hsourced.of_sameOwners ⟨rfl, rfl, rfl, rfl, rfl⟩

theorem init_targets (e : Surroundings) (cfg : Settings) : (init e cfg).targets = ∅ := by
  have hstart : ((starting e cfg).reconcileHooks (e.hooks 0)).2.targets = ∅ :=
    (Rehooked.reconcileHooks (starting e cfg) (e.hooks 0)).targets
  unfold BroadcastState.init
  generalize (starting e cfg).reconcileHooks (e.hooks 0) = hooked at hstart ⊢
  obtain ⟨error | _, s⟩ := hooked
  · exact (Rehooked.reconcileHooks _ (e.hooks 1)).targets.trans hstart
  · exact hstart

theorem init (s : BroadcastState) (e : Surroundings) (cfg : Settings) :
    Turn servesBroadcast servesTargeted s (init e cfg) := by
  have hnone (pid : UInt32) : (BroadcastState.init e cfg).targets[pid]? = none := by
    rw [init_targets]
    exact ExtTreeMap.getElem?_empty
  refine ⟨fun _ pid shm' hshm' => ?_, fun _ pid _ shm' _ hshm' => ?_, fun _ pid _ shm' _ hshm' => ?_,
    fun pid shm' hshm' _ => ?_⟩
  all_goals
    rw [hnone] at hshm'
    cases hshm'

end Turn
end BroadcastState

/-- Whether a call is one of the physical keyboard's. -/
def Call.servesBroadcast : Call → Bool
  | .setActive _ | .toggle | .keyboardProc _ => true
  | _ => false

/-- Whether a call is one of a targeted sequence. -/
def Call.servesTargeted : Call → Bool
  | .beginTargetedInput _ | .setTargetedKey .. | .finishTargetedInput _ => true
  | _ => false

namespace BroadcastState
variable {s : BroadcastState} {e : Surroundings}

theorem turn_call (s : BroadcastState) (e : Surroundings) (call : Call) :
    ∀ s' ∈ s.call e call, Turn call.servesBroadcast call.servesTargeted s s' := by
  intro s' hs'
  cases call with
  | cleanup => exact absurd hs' (Option.not_mem_none s')
  | init cfg =>
    obtain rfl := Option.some.inj hs'
    exact .init s e cfg
  | setActive active =>
    obtain rfl := Option.some.inj hs'
    exact .setActive s e active
  | toggle =>
    obtain rfl := Option.some.inj hs'
    exact .setActive s e _
  | updateTargets pids activePid =>
    obtain rfl := Option.some.inj hs'
    exact .updateTargets s e pids activePid
  | updateMouseEligiblePids pids =>
    obtain rfl := Option.some.inj hs'
    exact .of_untouched (.updateMouseEligiblePids s e pids)
  | setActivePid pid =>
    obtain rfl := Option.some.inj hs'
    exact .of_untouched (.setActivePid s e pid)
  | tick =>
    obtain rfl := Option.some.inj hs'
    exact .of_untouched (.tick s e)
  | onSettingsChanged cfg =>
    obtain rfl := Option.some.inj hs'
    exact .of_untouched (.onSettingsChanged s e cfg)
  | beginTargetedInput pid =>
    obtain rfl := Option.some.inj hs'
    exact .of_targeted (carried_beginTargetedInput s e pid)
  | setTargetedKey pid scan pressed =>
    obtain rfl := Option.some.inj hs'
    exact .of_targeted (carried_setTargetedKey s pid scan pressed)
  | finishTargetedInput pid =>
    obtain rfl := Option.some.inj hs'
    exact .of_targeted (carried_finishTargetedInput s pid)
  | updateRemoteMouseClutchHold owner operation sequence =>
    obtain rfl := Option.some.inj hs'
    exact .of_untouched (.updateRemoteMouseClutchHold s e owner operation sequence)
  | endRemoteMouseClutchSession sessionId sequence =>
    obtain rfl := Option.some.inj hs'
    exact .of_untouched (.endRemoteMouseClutchSession s e sessionId sequence)
  | mouseProc message =>
    obtain rfl := Option.some.inj hs'
    exact .of_untouched (.mouseProc s e message)
  | keyboardProc kb =>
    obtain rfl := Option.some.inj hs'
    exact .keyboardProc s e kb

theorem levelled_init (e : Surroundings) (cfg : Settings) : (init e cfg).Levelled := by
  intro pid shm hshm
  rw [Turn.init_targets] at hshm
  exact absurd (hshm.symm.trans ExtTreeMap.getElem?_empty) (Option.some_ne_none shm)

end BroadcastState

/-! ### Every run -/

namespace Engine
open BroadcastState

theorem levelled_step {engine : Engine} (h : ∀ s ∈ engine, s.Levelled) (call : Call × Surroundings) :
    ∀ s ∈ engine.step call, s.Levelled := by
  obtain ⟨call, e⟩ := call
  intro s' hs'
  cases engine with
  | some s => exact (turn_call s e call s' hs').levelled (h s rfl)
  | none =>
    cases call with
    | init cfg =>
      obtain rfl := Option.some.inj hs'
      exact levelled_init e cfg
    | _ => exact absurd hs' (Option.not_mem_none s')

theorem levelled_run (calls : List (Call × Surroundings)) : ∀ s ∈ run calls, s.Levelled :=
  foldl_invariant (I := fun engine : Engine => ∀ s ∈ engine, s.Levelled) (fun _ call h => levelled_step h call) calls
    fun s hs => absurd hs (Option.not_mem_none s)

/-- After every run: the level of a key of a target is down exactly while broadcasting or a targeted sequence holds it,
each source is set exactly while its owner is active, and no call of the one owner releases what the other holds. -/
theorem owners_combined (calls : List (Call × Surroundings)) :
    ∀ s ∈ run calls,
      (∀ (pid : UInt32) (shm : ProcessShm), s.targets[pid]? = some shm →
        (∀ scan, shm.words.keys.level scan = (shm.broadcastKeys scan || shm.targetedKeys scan)) ∧
        (shm.words.keyboardActive &&& keyboardTargeted ≠ 0 ↔ shm.targetedActive = true) ∧
        (shm.words.keyboardActive &&& keyboardBroadcast ≠ 0 ↔ s.broadcasting = true)) ∧
      ∀ (call : Call) (e : Surroundings), ∀ s' ∈ s.call e call, ∀ (pid : UInt32) (shm shm' : ProcessShm),
        s.targets[pid]? = some shm → s'.targets[pid]? = some shm' →
        (call.servesTargeted = false → ∀ scan, shm.targetedKeys scan = true →
          shm'.targetedKeys scan = true ∧ shm'.words.keys.level scan = true) ∧
        (call.servesBroadcast = false → ∀ scan, shm.broadcastKeys scan = true →
          shm'.broadcastKeys scan = true ∧ shm'.words.keys.level scan = true) := by
  intro s hs
  have hlevelled := levelled_run calls s hs
  refine ⟨fun pid shm hshm => ?_, fun call e s' hs' pid shm shm' hshm hshm' => ?_⟩
  · have h := hlevelled pid shm hshm
    exact ⟨h.level, by rw [← h.targeted]; exact bne_iff_ne.symm, by rw [← h.broadcasts]; exact bne_iff_ne.symm⟩
  · have hturn := turn_call s e call s' hs'
    have hlevel := (hturn.levelled hlevelled pid shm' hshm').level
    refine ⟨fun hserves scan hheld => ?_, fun hserves scan hheld => ?_⟩
    · have hstill : shm'.targetedKeys scan = true := by rwa [hturn.targetedKeys hserves pid shm shm' hshm hshm']
      exact ⟨hstill, by rw [hlevel, hstill, Bool.or_true]⟩
    · have hstill : shm'.broadcastKeys scan = true := by rwa [hturn.broadcastKeys hserves pid shm shm' hshm hshm']
      exact ⟨hstill, by rw [hlevel, hstill, Bool.true_or]⟩

/-! A key that both owners of a client hold goes up on the keyboard. -/

/-- Nothing fails, and the process is in front. -/
def playing (foregroundPid : UInt32) : Surroundings where
  nowMs := 0
  foregroundPid := some foregroundPid
  buttons := 0
  keyIsDown _ := false
  proxyIsReady _ := true
  processAlive _ := true
  createMapping _ := .created
  hooks _ := ⟨.ok (), .ok (), .ok (), .ok (), 0⟩

/-- Settings that keep no key back. -/
def noFilter : Settings := ⟨"blacklist", [], .ok none⟩

/-- The key `A` at the keyboard hook. -/
def keyA (message : KeyMessage) : Call := .keyboardProc ⟨message, 0x41, 0x1e, false⟩

/-- The key is held by targeted input and by broadcasting. -/
def heldTwice : List (Call × Surroundings) :=
  [.init noFilter, .updateTargets [1, 2] (some 1), .setActive true, .beginTargetedInput 2, .setTargetedKey 2 0x1e true,
    keyA .down].map fun call => (call, playing 1)

theorem owners_combined_heldTwice :
    ∃ s ∈ run heldTwice, ∃ s' ∈ s.call (playing 1) (keyA .up),
      ∃ shm ∈ s.targets[(2 : UInt32)]?, ∃ shm' ∈ s'.targets[(2 : UInt32)]?,
        shm.broadcastKeys 0x1e = true ∧ shm'.broadcastKeys 0x1e = false ∧ shm'.words.keys.level 0x1e = true := by
  refine ⟨_, rfl, _, rfl, _, rfl, _, rfl, rfl, rfl, ?_⟩
  have hkept := (owners_combined heldTwice _ rfl).2 (keyA .up) (playing 1) _ rfl 2 _ _ rfl rfl
  exact (hkept.1 rfl 0x1e rfl).2

end Engine
end Stonemite.Broadcast
