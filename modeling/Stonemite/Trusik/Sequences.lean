import Stonemite.Trusik.StuckKeys
import Stonemite.Lib.Levels

/-!
# Targeted sequences

The engine lets one sequence at a time send keys to a target. `Sequences held` says that a target with a sequence has down
the keys that `held` gives for its process, and that a target without one has none down. Every call but those of the
sequences themselves leaves this so, also where a target goes and a new one comes for its process.
-/

namespace Stonemite.Broadcast
open Std Trusik

namespace ProcessShm
variable {shm shm' : ProcessShm}

/-- What a sequence has to do with a target is the same. -/
structure SameSequence (shm shm' : ProcessShm) : Prop where
  targetedKeys : shm'.targetedKeys = shm.targetedKeys
  targetedActive : shm'.targetedActive = shm.targetedActive

theorem SameSequence.refl (shm : ProcessShm) : SameSequence shm shm := ⟨rfl, rfl⟩

theorem SameOwners.sameSequence (h : SameOwners shm shm') : SameSequence shm shm' := ⟨h.targetedKeys, h.targetedActive⟩

theorem SameSequence.setKeyboardSource (h : SameSequence shm shm') (source : UInt32) (active : Bool) :
    SameSequence shm (shm'.setKeyboardSource source active) := ⟨h.targetedKeys, h.targetedActive⟩

/-- No sequence has anything to do with the target. -/
structure Idle (shm : ProcessShm) : Prop where
  targetedKeys : ∀ key, shm.targetedKeys key = false
  targetedActive : shm.targetedActive = false

theorem targetedActive_releaseBroadcastKeys (shm : ProcessShm) :
    shm.releaseBroadcastKeys.targetedActive = shm.targetedActive := by
  unfold releaseBroadcastKeys
  generalize scans = l
  have hkept (shm : ProcessShm) (scan : Fin keyCount) :
      (shm.setBroadcastKey scan false).targetedActive = shm.targetedActive := rfl
  exact foldl_eq ProcessShm.targetedActive hkept shm l

theorem sameSequence_releaseBroadcastKeys (shm : ProcessShm) : SameSequence shm shm.releaseBroadcastKeys :=
  ⟨shm.targetedKeys_releaseBroadcastKeys, shm.targetedActive_releaseBroadcastKeys⟩

theorem targetedKeys_foldl_releaseTargetedKey (shm : ProcessShm) (l : List (Fin keyCount)) (key : Fin keyCount) :
    (l.foldl releaseTargetedKey shm).targetedKeys key = if key ∈ l then false else shm.targetedKeys key := by
  induction l generalizing shm with
  | nil => rfl
  | cons scan l ih =>
    have hreleased : (shm.releaseTargetedKey scan).targetedKeys key =
        if key = scan then false else shm.targetedKeys key := by
      unfold releaseTargetedKey
      by_cases hheld : shm.targetedKeys scan = true
      · rw [if_pos hheld]
        exact Function.update_apply ..
      · rw [if_neg hheld]
        split_ifs with hkey
        · rw [hkey]
          exact Bool.eq_false_iff.mpr hheld
        · rfl
    rw [List.foldl_cons, ih, hreleased]
    by_cases hkey : key = scan
    · rw [if_pos hkey, if_pos (List.mem_cons.mpr (.inl hkey)), ite_self]
    · have hmem : key ∈ scan :: l ↔ key ∈ l := by rw [List.mem_cons, or_iff_right hkey]
      rw [if_neg hkey]
      exact if_congr hmem.symm rfl rfl

end ProcessShm

namespace BroadcastState
open ProcessShm
variable {s s' : BroadcastState} {e : Surroundings}

/-- Each target has the sequence that it had, and a new one none. -/
def Spared (s s' : BroadcastState) : Prop :=
  ∀ (pid : UInt32) (shm' : ProcessShm), s'.targets[pid]? = some shm' →
    (∃ shm, s.targets[pid]? = some shm ∧ SameSequence shm shm') ∨ shm'.Idle

namespace Spared

theorem of_carried {R : ProcessShm → ProcessShm → Prop} (h : Carried R s s')
    (hR : ∀ shm shm', R shm shm' → SameSequence shm shm') : Spared s s' := by
  intro pid shm' hshm'
  obtain ⟨shm, hshm, hr⟩ := h.targets pid shm' hshm'
  exact .inl ⟨shm, hshm, hR shm shm' hr⟩

theorem of_untouched (h : Untouched s s') : Spared s s' := of_carried h fun _ _ hsame => hsame.sameSequence

theorem of_map {f : UInt32 → ProcessShm → ProcessShm} (htargets : s'.targets = s.targets.map f)
    (hf : ∀ pid shm, SameSequence shm (f pid shm)) : Spared s s' := by
  intro pid shm' hshm'
  rw [htargets, ExtTreeMap.getElem?_map, Option.map_eq_some_iff] at hshm'
  obtain ⟨shm, hshm, rfl⟩ := hshm'
  exact .inl ⟨shm, hshm, hf pid shm⟩

theorem of_targets_empty (h : s'.targets = ∅) : Spared s s' := by
  intro pid shm' hshm'
  rw [h] at hshm'
  exact absurd (hshm'.symm.trans ExtTreeMap.getElem?_empty) (Option.some_ne_none shm')

variable (s e)

theorem setActive (active : Bool) : Spared s (s.setActive e active).2 := by
  obtain ⟨-, hsame⟩ | ⟨-, -, -, hhooks⟩ | ⟨-, -, s₁, hhooks, heq⟩ := setActive_cases s e active
  · rw [hsame]
    exact of_untouched (.refl s)
  · exact of_untouched (.of_rehooked hhooks)
  · rw [heq]
    refine of_map rfl fun pid shm => SameSequence.setKeyboardSource ?_ keyboardBroadcast active
    split_ifs
    · exact .refl shm
    · exact shm.sameSequence_releaseBroadcastKeys

theorem updateTargets (pids : List UInt32) (activePid : Option UInt32) :
    Spared s (s.updateTargets e pids activePid) := by
  obtain ⟨targets, heq, htargets⟩ := updateTargets_spec s e pids activePid
  rw [heq]
  intro pid shm' hshm'
  obtain ⟨-, shm, rfl, hold | ⟨-, created, hcreated, rfl⟩⟩ := htargets pid shm' hshm'
  · exact .inl ⟨shm, hold, rfl, rfl⟩
  · obtain ⟨words, -, -, rfl⟩ := createShm_spec hcreated
    refine .inr ?_
    split_ifs
    · exact ⟨fun _ => rfl, rfl⟩
    · exact ⟨fun _ => rfl, rfl⟩

theorem broadcastKey (kb : KeyEvent) : Spared s (s.broadcastKey e kb) := by
  unfold BroadcastState.broadcastKey
  dsimp only
  split_ifs
  · cases (directInputScanCode kb.scanCode kb.extended).filter _ with
    | none => exact of_untouched (.of_eq rfl rfl)
    | some scan =>
      refine of_map rfl fun pid shm => ?_
      split_ifs
      · exact .refl shm
      · exact ⟨rfl, rfl⟩
  · exact of_untouched (.of_eq rfl rfl)
  · refine of_map rfl fun pid shm => ?_
    split_ifs
    · exact .refl shm
    · exact shm.sameSequence_releaseBroadcastKeys
  · exact of_untouched (.refl s)

theorem keyboardProc (kb : KeyEvent) : Spared s (s.keyboardProc e kb).2 := by
  obtain h | ⟨clutchKeyIsDown, heq⟩ := Untouched.keyboardProc s e kb
  · exact of_untouched h
  · rw [heq]
    exact broadcastKey { s with clutchKeyIsDown } e kb

end Spared

theorem spared_call {call : Call} (hcall : call.servesTargeted = false) : ∀ s' ∈ s.call e call, Spared s s' := by
  intro s' hs'
  cases call with
  | init cfg =>
    obtain rfl := Option.some.inj hs'
    exact .of_targets_empty (Turn.init_targets e cfg)
  | cleanup => exact absurd hs' (Option.not_mem_none s')
  | beginTargetedInput pid => cases hcall
  | setTargetedKey pid scan pressed => cases hcall
  | finishTargetedInput pid => cases hcall
  | setActive active =>
    obtain rfl := Option.some.inj hs'
    exact .setActive s e active
  | toggle =>
    obtain rfl := Option.some.inj hs'
    exact .setActive s e _
  | updateTargets pids activePid =>
    obtain rfl := Option.some.inj hs'
    exact .updateTargets s e pids activePid
  | keyboardProc kb =>
    obtain rfl := Option.some.inj hs'
    exact .keyboardProc s e kb
  | updateMouseEligiblePids pids =>
    obtain rfl := Option.some.inj hs'
    exact .of_untouched (.updateMouseEligiblePids s e pids)
  | setActivePid pid =>
    obtain rfl := Option.some.inj hs'
    exact .of_untouched (.setActivePid s e pid)
  | tick =>
    obtain rfl := Option.some.inj hs'
    exact .of_untouched (.tick s e)
  | onSettingsChanged cfg =>
    obtain rfl := Option.some.inj hs'
    exact .of_untouched (.onSettingsChanged s e cfg)
  | updateRemoteMouseClutchHold owner operation sequence =>
    obtain rfl := Option.some.inj hs'
    exact .of_untouched (.updateRemoteMouseClutchHold s e owner operation sequence)
  | endRemoteMouseClutchSession sessionId sequence =>
    obtain rfl := Option.some.inj hs'
    exact .of_untouched (.endRemoteMouseClutchSession s e sessionId sequence)
  | mouseProc message =>
    obtain rfl := Option.some.inj hs'
    exact .of_untouched (.mouseProc s e message)

end BroadcastState

/-! ### The calls of a sequence -/

namespace BroadcastState

theorem beginTargetedInput_cases (s : BroadcastState) (e : Surroundings) (pid : UInt32) :
    (∃ error, s.beginTargetedInput e pid = (.error error, s)) ∨
      ∃ shm, s.targets[pid]? = some shm ∧ shm.targetedActive = false ∧ s.beginTargetedInput e pid =
        (.ok (), { s with
          targets := s.targets.insert pid ({ shm with targetedActive := true }.setKeyboardSource keyboardTargeted true) }) := by
  unfold beginTargetedInput
  cases hshm : s.targets[pid]? with
  | none => exact .inl ⟨_, rfl⟩
  | some shm =>
    dsimp only
    by_cases hready : e.proxyIsReady pid = true
    · rw [if_neg (not_not_intro hready)]
      by_cases hactive : shm.targetedActive = true
      · exact .inl ⟨_, if_pos hactive⟩
      · exact .inr ⟨shm, rfl, Bool.eq_false_iff.mpr hactive, if_neg hactive⟩
    · exact .inl ⟨_, if_pos hready⟩

theorem setTargetedKey_cases (s : BroadcastState) (pid : UInt32) (scan : UInt8) (pressed : Bool) :
    (∃ error, s.setTargetedKey pid scan pressed = (.error error, s)) ∨
      ∃ shm, s.targets[pid]? = some shm ∧ shm.targetedActive = true ∧ scan ≠ 255 ∧ s.setTargetedKey pid scan pressed =
        (.ok (), { s with targets := s.targets.insert pid (shm.setTargetedKey (keyOf scan) pressed) }) := by
  unfold setTargetedKey
  by_cases hscan : scan = 0 ∨ scan = 255
  · exact .inl ⟨_, if_pos hscan⟩
  · rw [if_neg hscan]
    cases hshm : s.targets[pid]? with
    | none => exact .inl ⟨_, rfl⟩
    | some shm =>
      dsimp only
      by_cases hactive : shm.targetedActive = true
      · exact .inr ⟨shm, rfl, hactive, fun heq => hscan (.inr heq), if_neg (not_not_intro hactive)⟩
      · exact .inl ⟨_, if_pos hactive⟩

end BroadcastState

namespace Engine
open BroadcastState

/-- `is_target_ready`. -/
def isTargetReady (engine : Engine) (e : Surroundings) (pid : UInt32) : Bool :=
  engine.any fun s => s.targets.contains pid && e.proxyIsReady pid

/-- Targeted input begins, where there is an engine. -/
def beginTargetedInput (engine : Engine) (e : Surroundings) (pid : UInt32) :
    Except BroadcastState.TargetedInputError Unit × Engine :=
  match engine with
  | none => (.error (.unavailable "targeted input is unavailable because trusik is disabled"), none)
  | some s => ((s.beginTargetedInput e pid).1, some (s.beginTargetedInput e pid).2)

/-- The scan code is checked before the engine. -/
def setTargetedKey (engine : Engine) (pid : UInt32) (scan : UInt8) (pressed : Bool) : Except String Unit × Engine :=
  match engine with
  | none =>
    if scan = 0 ∨ scan = 255 then (.error "invalid DirectInput scan code", none)
    else (.error "targeted input is unavailable because trusik is disabled", none)
  | some s => ((s.setTargetedKey pid scan pressed).1, some (s.setTargetedKey pid scan pressed).2)

/-- Targeted input ends, where there is an engine. -/
def finishTargetedInput (engine : Engine) (pid : UInt32) : Engine := engine.map (·.finishTargetedInput pid)

/-- What a sequence has to do with a target: the keys of its process, or none. -/
structure Sequence (held : Option (UInt8 → Bool)) (shm : ProcessShm) : Prop where
  active : shm.targetedActive = true → ∃ keys, held = some keys ∧ ∀ scan, shm.targetedKeys (keyOf scan) = keys scan
  idle : shm.targetedActive = false → ∀ scan, shm.targetedKeys (keyOf scan) = false
  last : shm.targetedKeys (keyOf 255) = false

/-- The sequences of an engine are those of the processes. -/
def Sequences (held : UInt32 → Option (UInt8 → Bool)) (engine : Engine) : Prop :=
  ∀ s ∈ engine, ∀ (pid : UInt32) (shm : ProcessShm), s.targets[pid]? = some shm → Sequence (held pid) shm

variable {held : UInt32 → Option (UInt8 → Bool)} {engine : Engine} {e : Surroundings} {pid : UInt32}

theorem Sequence.idle_target {shm : ProcessShm} (h : shm.Idle) (held : Option (UInt8 → Bool)) : Sequence held shm :=
  ⟨fun hactive => absurd hactive (by rw [h.targetedActive]; exact Bool.false_ne_true), fun _ scan => h.targetedKeys _,
    h.targetedKeys _⟩

theorem Sequence.of_same {shm shm' : ProcessShm} {held : Option (UInt8 → Bool)} (h : Sequence held shm)
    (hsame : ProcessShm.SameSequence shm shm') : Sequence held shm' := by
  refine ⟨?_, ?_, ?_⟩
  · rw [hsame.targetedActive, hsame.targetedKeys]
    exact h.active
  · rw [hsame.targetedActive, hsame.targetedKeys]
    exact h.idle
  · rw [hsame.targetedKeys]
    exact h.last

theorem sequences_none (held : UInt32 → Option (UInt8 → Bool)) : Sequences held none :=
  fun s hs => absurd hs (Option.not_mem_none s)

theorem Sequences.congr {held' : UInt32 → Option (UInt8 → Bool)} (h : Sequences held engine)
    (hheld : ∀ pid, held' pid = held pid) : Sequences held' engine := by
  intro s hs pid shm hshm
  rw [hheld]
  exact h s hs pid shm hshm

theorem Sequences.step (h : Sequences held engine) {call : Call} (hcall : call.servesTargeted = false) :
    Sequences held (engine.step (call, e)) := by
  intro s' hs' pid shm' hshm'
  cases engine with
  | none =>
    cases call with
    | init cfg =>
      obtain rfl := Option.some.inj hs'
      rw [BroadcastState.Turn.init_targets] at hshm'
      exact absurd (hshm'.symm.trans ExtTreeMap.getElem?_empty) (Option.some_ne_none shm')
    | _ => exact absurd hs' (Option.not_mem_none s')
  | some s =>
    obtain ⟨shm, hshm, hsame⟩ | hidle := BroadcastState.spared_call hcall s' hs' pid shm' hshm'
    · exact (h s rfl pid shm hshm).of_same hsame
    · exact .idle_target hidle _

theorem Sequences.insert {s : BroadcastState} (h : Sequences held (some s)) {keys : Option (UInt8 → Bool)}
    {shm : ProcessShm} (hshm : Sequence keys shm) :
    Sequences (Function.update held pid keys) (some { s with targets := s.targets.insert pid shm }) := by
  intro s' hs' other shm' hshm'
  obtain rfl := Option.some.inj hs'
  dsimp only at hshm'
  rw [ExtTreeMap.getElem?_insert_ite] at hshm'
  by_cases hother : pid = other
  · subst hother
    rw [if_pos rfl] at hshm'
    obtain rfl := Option.some.inj hshm'
    rw [Function.update_self]
    exact hshm
  · rw [if_neg hother] at hshm'
    rw [Function.update_of_ne (Ne.symm hother)]
    exact h s rfl other shm' hshm'

theorem Sequences.untargeted {s : BroadcastState} (h : Sequences held (some s)) (hnone : s.targets[pid]? = none)
    (keys : Option (UInt8 → Bool)) : Sequences (Function.update held pid keys) (some s) := by
  intro s' hs' other shm hshm
  obtain rfl := Option.some.inj hs'
  rw [Function.update_of_ne]
  · exact h s rfl other shm hshm
  · rintro rfl
    exact absurd (hnone.symm.trans hshm) (Option.some_ne_none shm).symm

theorem beginTargetedInput_spec (h : Sequences held engine) (e : Surroundings) (pid : UInt32) :
    (∃ error, engine.beginTargetedInput e pid = (.error error, engine)) ∨
      ∃ engine', engine.beginTargetedInput e pid = (.ok (), engine') ∧
        Sequences (Function.update held pid (some fun _ => false)) engine' := by
  cases engine with
  | none => exact .inl ⟨_, rfl⟩
  | some s =>
    unfold beginTargetedInput
    dsimp only
    obtain ⟨error, herror⟩ | ⟨shm, hshm, hidle, hok⟩ := s.beginTargetedInput_cases e pid
    · exact .inl ⟨error, by rw [herror]⟩
    · have hsequence := h s rfl pid shm hshm
      have hbegun : Sequence (some fun _ => false)
          ({ shm with targetedActive := true }.setKeyboardSource keyboardTargeted true) :=
        ⟨fun _ => ⟨_, rfl, hsequence.idle hidle⟩, fun _ => hsequence.idle hidle, hsequence.last⟩
      exact .inr ⟨_, by rw [hok], h.insert hbegun⟩

/-- A sequence is under way at the target of a process. -/
def Busy (engine : Engine) (pid : UInt32) : Prop :=
  ∃ s ∈ engine, ∃ shm, s.targets[pid]? = some shm ∧ shm.targetedActive = true

/-- A process has one sequence at a time, and the sequences of the others go on. -/
theorem beginTargetedInput_busy {engine' : Engine} (h : engine.beginTargetedInput e pid = (.ok (), engine')) :
    ¬ engine.Busy pid ∧ engine'.Busy pid ∧ ∀ p, engine.Busy p → engine'.Busy p := by
  cases engine with
  | none => cases h
  | some s =>
    unfold beginTargetedInput at h
    dsimp only at h
    obtain ⟨error, herror⟩ | ⟨shm, hshm, hidle, hok⟩ := s.beginTargetedInput_cases e pid
    · rw [herror] at h
      cases h
    · rw [hok] at h
      obtain ⟨-, rfl⟩ := Prod.mk.inj h
      refine ⟨?_, ⟨_, rfl, _, ExtTreeMap.getElem?_insert_self, rfl⟩, fun p hp => ?_⟩
      · rintro ⟨s', hs', shm', hshm', hactive⟩
        obtain rfl := Option.some.inj hs'
        obtain rfl := Option.some.inj (hshm.symm.trans hshm')
        exact absurd (hidle.symm.trans hactive) Bool.false_ne_true
      · obtain ⟨s', hs', shm', hshm', hactive⟩ := hp
        obtain rfl := Option.some.inj hs'
        by_cases hsame : pid = p
        · subst hsame
          exact ⟨_, rfl, _, ExtTreeMap.getElem?_insert_self, rfl⟩
        · refine ⟨_, rfl, shm', ?_, hactive⟩
          rw [ExtTreeMap.getElem?_insert_ite, if_neg hsame]
          exact hshm'

theorem setTargetedKey_spec (h : Sequences held engine) {keys : UInt8 → Bool} (hkeys : held pid = some keys)
    (scan : UInt8) (pressed : Bool) :
    (∃ error, engine.setTargetedKey pid scan pressed = (.error error, engine)) ∨
      ∃ engine', engine.setTargetedKey pid scan pressed = (.ok (), engine') ∧
        Sequences (Function.update held pid (some (Function.update keys scan pressed))) engine' := by
  cases engine with
  | none =>
    unfold setTargetedKey
    split_ifs
    · exact .inl ⟨_, rfl⟩
    · exact .inl ⟨_, rfl⟩
  | some s =>
    unfold setTargetedKey
    dsimp only
    obtain ⟨error, herror⟩ | ⟨shm, hshm, hactive, hlast, hok⟩ := s.setTargetedKey_cases pid scan pressed
    · exact .inl ⟨error, by rw [herror]⟩
    · have hsequence := h s rfl pid shm hshm
      obtain ⟨down, hdown, htargeted⟩ := hsequence.active hactive
      obtain rfl := Option.some.inj (hkeys.symm.trans hdown)
      have hset (other : UInt8) : (shm.setTargetedKey (keyOf scan) pressed).targetedKeys (keyOf other) =
          Function.update keys scan pressed other := by
        rw [Function.update_apply, ← htargeted other]
        exact (Function.update_apply ..).trans (if_congr keyOf_injective.eq_iff rfl rfl)
      refine .inr ⟨_, by rw [hok], h.insert ⟨fun _ => ⟨_, rfl, hset⟩, fun hidle => ?_, ?_⟩⟩
      · exact absurd (hactive.symm.trans hidle) Bool.true_eq_false.mp
      · rw [hset, Function.update_of_ne hlast.symm, ← htargeted]
        exact hsequence.last

theorem Sequences.finish (h : Sequences held engine) (pid : UInt32) :
    Sequences (Function.update held pid none) (engine.finishTargetedInput pid) := by
  cases engine with
  | none => exact sequences_none _
  | some s =>
    show Sequences _ (some (s.finishTargetedInput pid))
    unfold BroadcastState.finishTargetedInput
    cases hshm : s.targets[pid]? with
    | none => exact h.untargeted hshm none
    | some shm =>
      have hsequence := h s rfl pid shm hshm
      have hreleased (key : Fin keyCount) :
          (scans.foldl ProcessShm.releaseTargetedKey shm).targetedKeys key = false := by
        rw [ProcessShm.targetedKeys_foldl_releaseTargetedKey]
        split_ifs with hmem
        · rfl
        · have hkey : key = keyOf 255 := by
            by_contra hne
            have hle : UInt8.ofFin key ≤ 254 := by
              have hval : key.val ≠ 255 := fun heq => hne (Fin.ext heq)
              refine UInt8.le_iff_toNat_le.mpr ?_
              show key.val ≤ 254
              have hlt : key.val < 256 := key.isLt
              omega
            exact hmem (keyOf_mem_scans hle)
          rw [hkey]
          exact hsequence.last
      dsimp only
      generalize scans.foldl ProcessShm.releaseTargetedKey shm = released at hreleased ⊢
      have hidle : ProcessShm.Idle ({ released with targetedActive := false }.setKeyboardSource keyboardTargeted false) :=
        ⟨hreleased, rfl⟩
      exact h.insert (.idle_target hidle none)

end Engine
end Stonemite.Broadcast
