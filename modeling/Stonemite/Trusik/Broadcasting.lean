import Stonemite.Trusik.Untouched

/-!
# Broadcasting is switched on at once or not at all

Every call but the two that switch broadcasting and the one that finds new processes keeps the broadcast source of
each target (`Kept`), and a process that is found while broadcasting is given it. So while broadcasting is on every
target has its source, and what `setActive` does before an error of the hooks stays among the hooks (`Rehooked`).
-/

namespace Stonemite.Broadcast
open Std Trusik

/-! ### The broadcast source of a target -/

section words
variable (word source : UInt32)

theorem or_and_distrib (mask : UInt32) : (word ||| source) &&& mask = (word &&& mask) ||| (source &&& mask) :=
  UInt32.toBitVec_inj.mp BitVec.and_or_distrib_right

theorem and_or_absorb : (word &&& source) ||| source = source :=
  UInt32.toBitVec_inj.mp (BitVec.eq_of_getElem_eq fun i hi => by
    simp only [UInt32.toBitVec_or, UInt32.toBitVec_and, BitVec.getElem_or, BitVec.getElem_and]
    cases source.toBitVec[i] <;> cases word.toBitVec[i] <;> rfl)

theorem or_and_absorb : word ||| (word &&& source) = word :=
  UInt32.toBitVec_inj.mp (BitVec.eq_of_getElem_eq fun i hi => by
    simp only [UInt32.toBitVec_or, UInt32.toBitVec_and, BitVec.getElem_or, BitVec.getElem_and]
    cases word.toBitVec[i] <;> rfl)

theorem and_keyboardBroadcast (h : word &&& keyboardBroadcast ≠ 0) : word &&& keyboardBroadcast = keyboardBroadcast := by
  have hbit : (word &&& keyboardBroadcast).toNat = word.toNat % 2 := by
    rw [UInt32.toNat_and]
    exact Nat.and_one_is_mod _
  apply UInt32.toNat_inj.mp
  obtain heven | hodd := Nat.mod_two_eq_zero_or_one word.toNat
  · have hzero : word &&& keyboardBroadcast = 0 := UInt32.toNat_inj.mp (hbit.trans heven)
    exact absurd hzero h
  · rw [hbit, hodd]
    rfl

end words

namespace ProcessShm
variable (shm : ProcessShm)

/-- Whether a target has a source. -/
def hasSource (source : UInt32) : Bool := shm.words.keyboardActive &&& source != 0

/-- Whether the physical keyboard is a source of a target. -/
def broadcasts : Bool := shm.words.keyboardActive &&& keyboardBroadcast != 0

theorem broadcasts_congr {shm shm' : ProcessShm} (h : shm'.words.keyboardActive = shm.words.keyboardActive) :
    shm'.broadcasts = shm.broadcasts := by
  unfold broadcasts
  rw [h]

theorem hasSource_setKeyboardSource {source : UInt32} (hsource : source ≠ 0) (active : Bool) :
    (shm.setKeyboardSource source active).hasSource source = active := by
  unfold hasSource setKeyboardSource
  cases active with
  | true =>
    rw [if_pos rfl, or_and_distrib, UInt32.and_self, and_or_absorb]
    exact bne_iff_ne.mpr hsource
  | false =>
    rw [if_neg Bool.false_ne_true, UInt32.and_assoc, UInt32.not_and_self, UInt32.and_zero]
    rfl

theorem hasSource_setKeyboardSource_of_ne {source other : UInt32} (hset : source &&& other = 0)
    (hclear : ~~~source &&& other = other) (active : Bool) :
    (shm.setKeyboardSource source active).hasSource other = shm.hasSource other := by
  unfold hasSource setKeyboardSource
  cases active with
  | true => rw [if_pos rfl, or_and_distrib, hset, UInt32.or_zero]
  | false => rw [if_neg Bool.false_ne_true, UInt32.and_assoc, hclear]

theorem broadcasts_setKeyboardSource_targeted (active : Bool) :
    (shm.setKeyboardSource keyboardTargeted active).broadcasts = shm.broadcasts :=
  shm.hasSource_setKeyboardSource_of_ne rfl rfl active

theorem broadcasts_setKeyboardSource : (shm.setKeyboardSource keyboardBroadcast true).broadcasts = true :=
  shm.hasSource_setKeyboardSource (by decide) true

theorem setKeyboardSource_of_broadcasts {shm : ProcessShm} (h : shm.broadcasts = true) :
    shm.setKeyboardSource keyboardBroadcast true = shm := by
  have hword := or_and_absorb shm.words.keyboardActive keyboardBroadcast
  rw [and_keyboardBroadcast _ (bne_iff_ne.mp h)] at hword
  unfold setKeyboardSource
  rw [if_pos rfl, hword]

/-! No key is a source. -/

theorem keyboardActive_foldl {f : ProcessShm → Fin keyCount → ProcessShm}
    (hf : ∀ shm scan, (f shm scan).words.keyboardActive = shm.words.keyboardActive) (l : List (Fin keyCount)) :
    (l.foldl f shm).words.keyboardActive = shm.words.keyboardActive := by
  induction l generalizing shm with
  | nil => rfl
  | cons scan l ih => exact (ih (f shm scan)).trans (hf shm scan)

theorem keyboardActive_setBroadcastKey (scan : Fin keyCount) (pressed : Bool) :
    (shm.setBroadcastKey scan pressed).words.keyboardActive = shm.words.keyboardActive := rfl

theorem keyboardActive_setTargetedKey (scan : Fin keyCount) (pressed : Bool) :
    (shm.setTargetedKey scan pressed).words.keyboardActive = shm.words.keyboardActive := rfl

theorem keyboardActive_releaseBroadcastKeys :
    shm.releaseBroadcastKeys.words.keyboardActive = shm.words.keyboardActive := by
  unfold releaseBroadcastKeys
  generalize scans = l
  exact shm.keyboardActive_foldl (fun shm scan => shm.keyboardActive_setBroadcastKey scan false) l

theorem keyboardActive_releaseTargetedKey (scan : Fin keyCount) :
    (shm.releaseTargetedKey scan).words.keyboardActive = shm.words.keyboardActive := by
  unfold releaseTargetedKey
  split_ifs
  · exact shm.keyboardActive_setTargetedKey scan false
  · rfl

end ProcessShm

/-! ### What the other calls keep -/

namespace BroadcastState
variable {s s' s'' : BroadcastState}

/-- Broadcasting is as before and each target that is left keeps its broadcast source. -/
structure Kept (s s' : BroadcastState) : Prop where
  broadcasting : s'.broadcasting = s.broadcasting
  targets : ∀ (pid : UInt32) (shm' : ProcessShm), s'.targets[pid]? = some shm' →
    ∃ shm, s.targets[pid]? = some shm ∧ shm'.broadcasts = shm.broadcasts

namespace Kept

theorem of_carried (h : Carried (fun shm shm' => shm'.broadcasts = shm.broadcasts) s s') : Kept s s' :=
  ⟨h.broadcasting, h.targets⟩

theorem of_untouched (h : Untouched s s') : Kept s s' :=
  of_carried (h.mono fun _ _ hsame => ProcessShm.broadcasts_congr hsame.keyboardActive)

theorem trans (h : Kept s s') (h' : Kept s' s'') : Kept s s'' where
  broadcasting := h'.broadcasting.trans h.broadcasting
  targets pid shm'' hshm'' := by
    obtain ⟨shm', hshm', hbroadcasts'⟩ := h'.targets pid shm'' hshm''
    obtain ⟨shm, hshm, hbroadcasts⟩ := h.targets pid shm' hshm'
    exact ⟨shm, hshm, hbroadcasts'.trans hbroadcasts⟩

theorem insert {pid : UInt32} {shm shm' : ProcessShm} (hshm : s.targets[pid]? = some shm)
    (hbroadcasts : shm'.broadcasts = shm.broadcasts) : Kept s { s with targets := s.targets.insert pid shm' } :=
  of_carried (Carried.insert (R := fun shm shm' => shm'.broadcasts = shm.broadcasts) (fun _ => rfl) hshm hbroadcasts)

variable (s : BroadcastState) (e : Surroundings)

theorem beginTargetedInput (pid : UInt32) : Kept s (s.beginTargetedInput e pid).2 := by
  unfold BroadcastState.beginTargetedInput
  cases hshm : s.targets[pid]? with
  | none => exact of_untouched (.refl s)
  | some shm =>
    dsimp only
    split_ifs
    · exact of_untouched (.refl s)
    · exact insert hshm (ProcessShm.broadcasts_setKeyboardSource_targeted { shm with targetedActive := true } true)
    · exact of_untouched (.refl s)

theorem setTargetedKey (pid : UInt32) (scan : UInt8) (pressed : Bool) :
    Kept s (s.setTargetedKey pid scan pressed).2 := by
  unfold BroadcastState.setTargetedKey
  split_ifs
  · exact of_untouched (.refl s)
  · cases hshm : s.targets[pid]? with
    | none => exact of_untouched (.refl s)
    | some shm =>
      dsimp only
      split_ifs
      · exact insert hshm (ProcessShm.broadcasts_congr (shm.keyboardActive_setTargetedKey (keyOf scan) pressed))
      · exact of_untouched (.refl s)

theorem finishTargetedInput (pid : UInt32) : Kept s (s.finishTargetedInput pid) := by
  unfold BroadcastState.finishTargetedInput
  cases hshm : s.targets[pid]? with
  | none => exact of_untouched (.refl s)
  | some shm =>
    refine insert hshm ?_
    generalize scans = l
    rw [ProcessShm.broadcasts_setKeyboardSource_targeted]
    exact ProcessShm.broadcasts_congr (shm.keyboardActive_foldl ProcessShm.keyboardActive_releaseTargetedKey l)

theorem broadcastKey (kb : KeyEvent) : Kept s (s.broadcastKey e kb) := by
  unfold BroadcastState.broadcastKey
  dsimp only
  split_ifs
  · cases (directInputScanCode kb.scanCode kb.extended).filter _ with
    | none => exact of_untouched (.of_eq rfl rfl)
    | some scan =>
      refine of_carried (.map rfl rfl fun pid shm => ?_)
      split_ifs
      · rfl
      · exact ProcessShm.broadcasts_congr (shm.keyboardActive_setBroadcastKey (keyOf scan) _)
  · exact of_untouched (.of_eq rfl rfl)
  · refine of_carried (.map rfl rfl fun pid shm => ?_)
    split_ifs
    · rfl
    · exact ProcessShm.broadcasts_congr shm.keyboardActive_releaseBroadcastKeys
  · exact of_untouched (.refl s)

theorem keyboardProc (kb : KeyEvent) : Kept s (s.keyboardProc e kb).2 := by
  obtain h | ⟨clutchKeyIsDown, heq⟩ := Untouched.keyboardProc s e kb
  · exact of_untouched h
  · have hdown : Kept s { s with clutchKeyIsDown } := of_untouched (.of_eq rfl rfl)
    rw [heq]
    exact hdown.trans (broadcastKey _ e kb)

end Kept

/-! ### While broadcasting is on -/

/-- Every target has the broadcast source while broadcasting is on. -/
def Sourced (s : BroadcastState) : Prop :=
  s.broadcasting = true → ∀ (pid : UInt32) (shm : ProcessShm), s.targets[pid]? = some shm → shm.broadcasts = true

namespace Sourced
variable {e : Surroundings}

theorem kept (h : s.Sourced) (hkept : Kept s s') : s'.Sourced := by
  intro hbroadcasting pid shm' hshm'
  rw [hkept.broadcasting] at hbroadcasting
  obtain ⟨shm, hshm, hbroadcasts⟩ := hkept.targets pid shm' hshm'
  rw [hbroadcasts]
  exact h hbroadcasting pid shm hshm

theorem updateTargets (h : s.Sourced) (pids : List UInt32) (activePid : Option UInt32) :
    (s.updateTargets e pids activePid).Sourced := by
  intro hbroadcasting pid shm' hshm'
  rw [updateTargets_broadcasting] at hbroadcasting
  obtain ⟨targets, heq, htargets⟩ := updateTargets_spec s e pids activePid
  rw [heq] at hshm'
  obtain ⟨-, shm, rfl, hold | ⟨-, created, -, rfl⟩⟩ := htargets pid shm' hshm'
  · exact h hbroadcasting pid shm hold
  · rw [hbroadcasting, if_pos rfl]
    exact created.broadcasts_setKeyboardSource

end Sourced

/-! ### Switching -/

variable (s : BroadcastState) (e : Surroundings)

/-- Switching: nothing is done when it is so already, or an error of the hooks is returned before any target is touched,
or every target is given its source or releases its keys and loses it. -/
theorem setActive_cases (active : Bool) :
    (s.broadcasting = active ∧ s.setActive e active = (.ok (), s)) ∨
    (active = true ∧ s.broadcasting = false ∧ (∃ error, (s.setActive e active).1 = .error error) ∧
      Rehooked s (s.setActive e active).2) ∨
    (s.broadcasting = !active ∧ (active = true → (s.setActive e active).1 = .ok ()) ∧
      ∃ s₁, Rehooked { s with broadcasting := active } s₁ ∧ (s.setActive e active).2 = { s₁ with
        targets := s.targets.map fun _ shm =>
          (if active then shm else shm.releaseBroadcastKeys).setKeyboardSource keyboardBroadcast active }) := by
  unfold setActive
  by_cases hbroadcasting : s.broadcasting = active
  · rw [if_pos hbroadcasting]
    exact .inl ⟨hbroadcasting, rfl⟩
  · rw [if_neg hbroadcasting]
    have hother : s.broadcasting = !active := Bool.eq_not.mpr hbroadcasting
    have hhooks := Rehooked.reconcileHooks { s with broadcasting := active } (e.hooks 0)
    dsimp only
    generalize BroadcastState.reconcileHooks { s with broadcasting := active } (e.hooks 0) = hooked at hhooks ⊢
    cases active with
    | true =>
      obtain ⟨error | ok, s'⟩ := hooked
      · refine .inr (.inl ⟨rfl, hother, ⟨error, rfl⟩, ?_⟩)
        obtain ⟨keyboardHook, mouseHook, buttons, rfl⟩ := hhooks
        have hback : Rehooked s { s with broadcasting := false, keyboardHook, mouseHook, clutch.buttons := buttons } :=
          ⟨keyboardHook, mouseHook, buttons, by rw [hother]; rfl⟩
        exact hback.trans (Rehooked.reconcileHooks _ (e.hooks 1))
      · refine .inr (.inr ⟨hother, fun _ => rfl, s', hhooks, ?_⟩)
        have htargets : s'.targets = s.targets := hhooks.targets
        rw [← htargets]
        rfl
    | false =>
      obtain ⟨error | ok, s'⟩ := hooked
      all_goals
        refine .inr (.inr ⟨hother, nofun, s', hhooks, ?_⟩)
        have htargets : s'.targets = s.targets := hhooks.targets
        dsimp only
        rw [if_neg Bool.false_ne_true, htargets, ExtTreeMap.map_map]
        rfl

variable {s e}

theorem Sourced.setActive (h : s.Sourced) (active : Bool) : (s.setActive e active).2.Sourced := by
  obtain ⟨-, hsame⟩ | ⟨-, -, -, hhooks⟩ | ⟨-, -, s₁, hhooks, heq⟩ := setActive_cases s e active
  · rwa [hsame]
  · exact h.kept (.of_untouched (.of_rehooked hhooks))
  · intro hbroadcasting pid shm' hshm'
    rw [heq] at hbroadcasting hshm'
    obtain rfl : active = true := hhooks.broadcasting.symm.trans hbroadcasting
    rw [ExtTreeMap.getElem?_map, Option.map_eq_some_iff] at hshm'
    obtain ⟨shm, -, rfl⟩ := hshm'
    exact shm.broadcasts_setKeyboardSource

theorem Sourced.init (cfg : Settings) : (init e cfg).Sourced := by
  have hoff : (BroadcastState.init e cfg).broadcasting = false := by
    have hstart := (Rehooked.reconcileHooks (starting e cfg) (e.hooks 0)).broadcasting
    unfold BroadcastState.init
    generalize (starting e cfg).reconcileHooks (e.hooks 0) = hooked at hstart ⊢
    obtain ⟨error | _, s⟩ := hooked
    · exact (Rehooked.reconcileHooks _ (e.hooks 1)).broadcasting.trans hstart
    · exact hstart
  intro hbroadcasting
  rw [hoff] at hbroadcasting
  cases hbroadcasting

theorem Sourced.call (h : s.Sourced) (call : Call) : ∀ s' ∈ s.call e call, s'.Sourced := by
  intro s' hs'
  cases call with
  | cleanup => exact absurd hs' (Option.not_mem_none s')
  | init cfg =>
    obtain rfl := Option.some.inj hs'
    exact .init cfg
  | setActive active =>
    obtain rfl := Option.some.inj hs'
    exact h.setActive active
  | toggle =>
    obtain rfl := Option.some.inj hs'
    exact h.setActive _
  | updateTargets pids activePid =>
    obtain rfl := Option.some.inj hs'
    exact h.updateTargets pids activePid
  | updateMouseEligiblePids pids =>
    obtain rfl := Option.some.inj hs'
    exact h.kept (.of_untouched (.updateMouseEligiblePids s e pids))
  | setActivePid pid =>
    obtain rfl := Option.some.inj hs'
    exact h.kept (.of_untouched (.setActivePid s e pid))
  | tick =>
    obtain rfl := Option.some.inj hs'
    exact h.kept (.of_untouched (.tick s e))
  | onSettingsChanged cfg =>
    obtain rfl := Option.some.inj hs'
    exact h.kept (.of_untouched (.onSettingsChanged s e cfg))
  | beginTargetedInput pid =>
    obtain rfl := Option.some.inj hs'
    exact h.kept (.beginTargetedInput s e pid)
  | setTargetedKey pid scan pressed =>
    obtain rfl := Option.some.inj hs'
    exact h.kept (.setTargetedKey s pid scan pressed)
  | finishTargetedInput pid =>
    obtain rfl := Option.some.inj hs'
    exact h.kept (.finishTargetedInput s pid)
  | updateRemoteMouseClutchHold owner operation sequence =>
    obtain rfl := Option.some.inj hs'
    exact h.kept (.of_untouched (.updateRemoteMouseClutchHold s e owner operation sequence))
  | endRemoteMouseClutchSession sessionId sequence =>
    obtain rfl := Option.some.inj hs'
    exact h.kept (.of_untouched (.endRemoteMouseClutchSession s e sessionId sequence))
  | mouseProc message =>
    obtain rfl := Option.some.inj hs'
    exact h.kept (.of_untouched (.mouseProc s e message))
  | keyboardProc kb =>
    obtain rfl := Option.some.inj hs'
    exact h.kept (.keyboardProc s e kb)

end BroadcastState

namespace Engine
open BroadcastState

theorem sourced_step {engine : Engine} (h : ∀ s ∈ engine, s.Sourced) (call : Call × Surroundings) :
    ∀ s ∈ engine.step call, s.Sourced := by
  obtain ⟨call, e⟩ := call
  cases engine with
  | some s => exact (h s rfl).call call
  | none =>
    intro s hs
    cases call with
    | init cfg =>
      obtain rfl := Option.some.inj hs
      exact .init cfg
    | _ => exact absurd hs (Option.not_mem_none s)

theorem sourced_foldl {engine : Engine} (h : ∀ s ∈ engine, s.Sourced) (calls : List (Call × Surroundings)) :
    ∀ s ∈ calls.foldl step engine, s.Sourced := by
  induction calls generalizing engine with
  | nil => exact h
  | cons call calls ih => exact ih (sourced_step h call)

theorem sourced_run (calls : List (Call × Surroundings)) : ∀ s ∈ run calls, s.Sourced :=
  sourced_foldl (fun s hs => absurd hs (Option.not_mem_none s)) calls

/-- Switching broadcasting on after any run: it is on, every target has the source and is otherwise as it was; or
there is an error, and it is as it was with every target as it was. -/
theorem setActive_atomic (calls : List (Call × Surroundings)) (e : Surroundings) :
    match (run calls).setActive true e with
    | (.ok _, engine) =>
      engine.isActive = true ∧ ∀ s ∈ run calls, ∀ s' ∈ engine, ∀ pid : UInt32,
        s'.targets[pid]? = s.targets[pid]?.map (·.setKeyboardSource keyboardBroadcast true) ∧
        ∀ shm ∈ s'.targets[pid]?, shm.words.keyboardActive &&& keyboardBroadcast ≠ 0
    | (.error _, engine) =>
      engine.isActive = (run calls).isActive ∧ engine.map (·.targets) = (run calls).map (·.targets) := by
  have hsourced := sourced_run calls
  generalize run calls = engine at hsourced ⊢
  cases engine with
  | none => exact ⟨rfl, rfl⟩
  | some s =>
    have hafter := (hsourced s rfl).setActive (e := e) true
    obtain ⟨hon, hsame⟩ | ⟨-, -, ⟨error, herror⟩, hhooks⟩ | ⟨-, hok, s₁, hhooks, heq⟩ := s.setActive_cases e true
    · unfold Engine.setActive
      dsimp only
      rw [hsame]
      refine ⟨hon, fun s₀ hs₀ s' hs' pid => ?_⟩
      obtain rfl := Option.some.inj hs₀
      obtain rfl := Option.some.inj hs'
      refine ⟨?_, fun shm hshm => bne_iff_ne.mp (hsourced _ rfl hon pid shm hshm)⟩
      cases hshm : s.targets[pid]? with
      | none => rfl
      | some shm => exact congrArg some (ProcessShm.setKeyboardSource_of_broadcasts (hsourced s rfl hon pid shm hshm)).symm
    · unfold Engine.setActive
      dsimp only
      rw [herror]
      exact ⟨hhooks.broadcasting, congrArg some hhooks.targets⟩
    · unfold Engine.setActive
      dsimp only
      rw [hok rfl]
      rw [heq] at hafter ⊢
      refine ⟨hhooks.broadcasting, fun s₀ hs₀ s' hs' pid => ?_⟩
      obtain rfl := Option.some.inj hs₀
      obtain rfl := Option.some.inj hs'
      refine ⟨?_, fun shm hshm => bne_iff_ne.mp (hafter hhooks.broadcasting pid shm hshm)⟩
      rw [ExtTreeMap.getElem?_map]
      rfl

/-- The command fails exactly when the engine does, and it leaves what the engine leaves. -/
theorem setBroadcastOnUi_iff (engine : Engine) (enabled : Bool) (e : Surroundings) :
    ((setBroadcastOnUi engine enabled e).1 = .ok enabled ↔ (engine.setActive enabled e).1 = .ok ()) ∧
      (setBroadcastOnUi engine enabled e).2 = (engine.setActive enabled e).2 := by
  unfold setBroadcastOnUi
  cases engine with
  | none => exact ⟨iff_of_false nofun nofun, rfl⟩
  | some s =>
    have havailable : ¬ ¬ isAvailable (some s) = true := not_not.mpr rfl
    rw [if_neg havailable]
    generalize Engine.setActive (some s) enabled e = result
    obtain ⟨error | _, engine⟩ := result
    · exact ⟨iff_of_false nofun nofun, rfl⟩
    · exact ⟨iff_of_true rfl rfl, rfl⟩

end Engine
end Stonemite.Broadcast
