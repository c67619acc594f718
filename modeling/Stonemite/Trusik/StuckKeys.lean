import Stonemite.Trusik.OwnerLevels

/-!
# Which releases reach the targets

A key event goes to the clients that are not in the foreground at that moment. So a client that has come to the
foreground while a key was down keeps it when it goes up, and likewise one whose key the filter has come to block. No key
stays down exactly while every release reaches the targets that hold its key (`ReleasesKey`). `NoStuckKeys` says this of
all keys, `Releases` is the condition along a run, and `no_stuck_keys_iff` the equivalence.
-/

namespace Stonemite.Broadcast
open Std Trusik

/-! ### Releasing -/

theorem keyOf_injective : Function.Injective keyOf := fun _ _ h => UInt8.toNat_inj.mp (congrArg Fin.val h)

theorem keyOf_mem_scans {scan : UInt8} (h : scan ≤ 254) : keyOf scan ∈ scans := by
  have hscan : scan.toNat < 255 := Nat.lt_succ_of_le h
  have hlast : List.finRange keyCount = (List.finRange 255).map Fin.castSucc ++ [Fin.last 255] :=
    List.finRange_succ_last
  unfold scans
  rw [hlast, List.dropLast_concat, List.mem_map]
  exact ⟨⟨scan.toNat, hscan⟩, List.mem_finRange _, rfl⟩

namespace ProcessShm
variable {shm : ProcessShm}

theorem broadcastKeys_setBroadcastKey (scan : Fin keyCount) (pressed : Bool) :
    (shm.setBroadcastKey scan pressed).broadcastKeys = Function.update shm.broadcastKeys scan pressed := rfl

theorem broadcastKeys_setKeyboardSource (source : UInt32) (active : Bool) :
    (shm.setKeyboardSource source active).broadcastKeys = shm.broadcastKeys := rfl

theorem broadcastKeys_releaseBroadcastKeys (key : Fin keyCount) :
    shm.releaseBroadcastKeys.broadcastKeys key = if key ∈ scans then false else shm.broadcastKeys key := by
  unfold releaseBroadcastKeys
  generalize scans = l
  induction l generalizing shm with
  | nil => rfl
  | cons scan l ih =>
    rw [List.foldl_cons, ih, broadcastKeys_setBroadcastKey]
    by_cases hmem : key ∈ l
    · rw [if_pos hmem, if_pos (List.mem_cons_of_mem scan hmem)]
    · rw [if_neg hmem]
      by_cases hkey : key = scan
      · rw [hkey, Function.update_self, if_pos List.mem_cons_self]
      · rw [Function.update_of_ne hkey, if_neg (by simp [hkey, hmem])]

end ProcessShm

namespace BroadcastState
variable (s : BroadcastState) (e : Surroundings) (kb : KeyEvent)

/-! ### The events of the keyboard -/

/-- The DirectInput scan code of an event. -/
def KeyEvent.scan : Option UInt8 := directInputScanCode kb.scanCode kb.extended

theorem KeyEvent.scan_le {kb : KeyEvent} {scan : UInt8} (h : kb.scan = some scan) : scan ≤ 254 := by
  unfold KeyEvent.scan directInputScanCode at h
  dsimp only at h
  split_ifs at h with _ hextended hrange hrange
  · exact Option.some.inj h ▸ hrange.2
  · exact Option.some.inj h ▸ hrange.2

/-- Whether a release reaches a target: another client is in the foreground and the key passes the filter, or the clients
have lost the foreground since the last event. -/
def ReleaseReaches (scan : UInt8) (pid : UInt32) : Prop :=
  if e.foregroundPid.any s.eqPids.contains then
    s.broadcasting = true ∧ s.passesFilter scan = true ∧ some pid ≠ e.foregroundPid
  else s.eqWasForeground = true ∧ some pid ≠ s.activePid

/-- The release reaches each target that holds its key, and is not swallowed. -/
def ReleasesKey : Prop :=
  ∀ scan ∈ kb.scan, ∀ (pid : UInt32) (shm : ProcessShm), s.targets[pid]? = some shm →
    shm.broadcastKeys (keyOf scan) = true → s.clutch.swallowedVk ≠ some kb.vkCode ∧ s.ReleaseReaches e scan pid

/-- Of a target that is left, no key is held that was not, but the one that goes down. -/
def Pressed (shm shm' : ProcessShm) : Prop :=
  ∀ key, shm'.broadcastKeys key = true →
    shm.broadcastKeys key = true ∨ kb.message = .down ∧ ∃ scan ∈ kb.scan, keyOf scan = key

theorem broadcastKey_pressed : Carried (Pressed kb) s (s.broadcastKey e kb) := by
  have hsame (shm : ProcessShm) : Pressed kb shm shm := fun _ h => .inl h
  unfold broadcastKey
  dsimp only
  split_ifs
  · cases hscan : (directInputScanCode kb.scanCode kb.extended).filter _ with
    | none => exact ⟨rfl, fun pid shm hshm => ⟨shm, hshm, hsame shm⟩⟩
    | some scan =>
      refine .map rfl rfl fun pid shm => ?_
      split_ifs
      · exact hsame shm
      · intro key hkey
        rw [ProcessShm.broadcastKeys_setBroadcastKey] at hkey
        by_cases heq : key = keyOf scan
        · rw [heq, Function.update_self] at hkey
          exact .inr ⟨beq_iff_eq.mp hkey, scan, (Option.filter_eq_some_iff.mp hscan).1, heq.symm⟩
        · rw [Function.update_of_ne heq] at hkey
          exact .inl hkey
  · exact ⟨rfl, fun pid shm hshm => ⟨shm, hshm, hsame shm⟩⟩
  · refine .map rfl rfl fun pid shm => ?_
    split_ifs
    · exact hsame shm
    · intro key hkey
      rw [ProcessShm.broadcastKeys_releaseBroadcastKeys] at hkey
      split_ifs at hkey
      exact .inl hkey
  · exact ⟨rfl, fun pid shm hshm => ⟨shm, hshm, hsame shm⟩⟩

/-- The targets that still hold a key after its release are those that it does not reach. -/
theorem broadcastKey_released {kb : KeyEvent} {scan : UInt8} (hscan : kb.scan = some scan) (hup : kb.message = .up)
    (pid : UInt32) : ∃ f : ProcessShm → ProcessShm, (s.broadcastKey e kb).targets[pid]? = s.targets[pid]?.map f ∧
      ∀ shm, (f shm).broadcastKeys (keyOf scan) = true ↔
        shm.broadcastKeys (keyOf scan) = true ∧ ¬ s.ReleaseReaches e scan pid := by
  have hkept (h : ¬ s.ReleaseReaches e scan pid) : ∃ f : ProcessShm → ProcessShm,
      s.targets[pid]? = s.targets[pid]?.map f ∧ ∀ shm, (f shm).broadcastKeys (keyOf scan) = true ↔
        shm.broadcastKeys (keyOf scan) = true ∧ ¬ s.ReleaseReaches e scan pid :=
    ⟨id, Option.map_id_apply.symm, fun shm => (and_iff_left h).symm⟩
  have hpressed : (kb.message == .down) = false := by rw [hup]; rfl
  have hcode : directInputScanCode kb.scanCode kb.extended = some scan := hscan
  unfold broadcastKey
  dsimp only
  by_cases hforeground : e.foregroundPid.any s.eqPids.contains = true
  · have hreaches : s.ReleaseReaches e scan pid ↔
        s.broadcasting = true ∧ s.passesFilter scan = true ∧ some pid ≠ e.foregroundPid := by
      unfold ReleaseReaches
      rw [if_pos hforeground]
    rw [if_neg (not_not.mpr hforeground)]
    by_cases hbroadcasting : s.broadcasting = true
    · have hpasses : BroadcastState.passesFilter { s with eqWasForeground := true } = s.passesFilter := rfl
      rw [if_pos hbroadcasting, hpasses, hcode]
      by_cases hfilter : s.passesFilter scan = true
      · rw [Option.filter_some_pos hfilter]
        dsimp only
        rw [ExtTreeMap.getElem?_map, hpressed]
        refine ⟨_, rfl, fun shm => ?_⟩
        by_cases hpid : some pid = e.foregroundPid
        · rw [if_pos hpid]
          exact (and_iff_left fun h => (hreaches.mp h).2.2 hpid).symm
        · rw [if_neg hpid, ProcessShm.broadcastKeys_setBroadcastKey, Function.update_self]
          exact iff_of_false Bool.false_ne_true fun h => h.2 (hreaches.mpr ⟨hbroadcasting, hfilter, hpid⟩)
      · rw [Option.filter_some_neg (Bool.eq_false_iff.mpr hfilter)]
        exact hkept fun h => hfilter (hreaches.mp h).2.1
    · rw [if_neg hbroadcasting]
      exact hkept fun h => hbroadcasting (hreaches.mp h).1
  · have hreaches : s.ReleaseReaches e scan pid ↔ s.eqWasForeground = true ∧ some pid ≠ s.activePid := by
      unfold ReleaseReaches
      rw [if_neg hforeground]
    rw [if_pos hforeground]
    by_cases hwas : s.eqWasForeground = true
    · rw [if_pos hwas]
      dsimp only
      rw [ExtTreeMap.getElem?_map]
      refine ⟨_, rfl, fun shm => ?_⟩
      by_cases hpid : some pid = s.activePid
      · rw [if_pos hpid]
        exact (and_iff_left fun h => (hreaches.mp h).2 hpid).symm
      · rw [if_neg hpid, ProcessShm.broadcastKeys_releaseBroadcastKeys,
          if_pos (keyOf_mem_scans (KeyEvent.scan_le hscan))]
        exact iff_of_false Bool.false_ne_true fun h => h.2 (hreaches.mpr ⟨hwas, hpid⟩)
    · rw [if_neg hwas]
      exact hkept fun h => hwas (hreaches.mp h).1

theorem keyboardProc_pressed : Carried (Pressed kb) s (s.keyboardProc e kb).2 := by
  obtain h | ⟨clutchKeyIsDown, heq⟩ := Untouched.keyboardProc s e kb
  · refine h.mono fun shm shm' hsame key hkey => .inl ?_
    rwa [hsame.broadcastKeys] at hkey
  · have hkey := broadcastKey_pressed { s with clutchKeyIsDown } e kb
    rw [heq]
    exact ⟨hkey.broadcasting, hkey.targets⟩

theorem keyboardProc_released {kb : KeyEvent} {scan : UInt8} (hscan : kb.scan = some scan) (hup : kb.message = .up)
    (pid : UInt32) : ∃ f : ProcessShm → ProcessShm, (s.keyboardProc e kb).2.targets[pid]? = s.targets[pid]?.map f ∧
      ∀ shm, (f shm).broadcastKeys (keyOf scan) = true ↔ shm.broadcastKeys (keyOf scan) = true ∧
        ¬ (s.clutch.swallowedVk ≠ some kb.vkCode ∧ s.ReleaseReaches e scan pid) := by
  have hnotDown : kb.message ≠ .down := by rw [hup]; decide
  unfold keyboardProc
  rw [if_neg fun h => hnotDown h.1]
  by_cases hswallowed : s.clutch.swallowedVk = some kb.vkCode
  · rw [if_pos ⟨hup, hswallowed⟩]
    exact ⟨id, Option.map_id_apply.symm, fun shm => (and_iff_left fun h => h.1 hswallowed).symm⟩
  · rw [if_neg fun h => hswallowed h.2]
    have hfresh : ∃ clutchKeyIsDown,
        ((s.releaseBinding kb).freshKey e kb).2 = { s with clutchKeyIsDown }.broadcastKey e kb := by
      unfold freshKey
      rw [if_neg fun h => hnotDown h.1]
      unfold releaseBinding
      split_ifs
      · exact ⟨false, rfl⟩
      · exact ⟨s.clutchKeyIsDown, rfl⟩
    obtain ⟨clutchKeyIsDown, heq⟩ := hfresh
    obtain ⟨f, htarget, hf⟩ := broadcastKey_released { s with clutchKeyIsDown } e hscan hup pid
    refine ⟨f, by rw [heq]; exact htarget, fun shm => (hf shm).trans (and_congr_right fun _ => not_congr ?_)⟩
    exact (and_iff_right hswallowed).symm

/-! ### One call -/

/-- A key is held after a call only if it was held before, or goes down. -/
theorem held_call {call : Call} {s' : BroadcastState} (hs' : s' ∈ s.call e call) {pid : UInt32} {shm' : ProcessShm}
    (hshm' : s'.targets[pid]? = some shm') {key : Fin keyCount} (hkey : shm'.broadcastKeys key = true) :
    (∃ shm, s.targets[pid]? = some shm ∧ shm.broadcastKeys key = true) ∨
      ∃ kb, call = .keyboardProc kb ∧ kb.message = .down ∧ ∃ scan ∈ kb.scan, keyOf scan = key := by
  have hother (hserves : call.servesBroadcast = false) :
      ∃ shm, s.targets[pid]? = some shm ∧ shm.broadcastKeys key = true := by
    have hturn := turn_call s e call s' hs'
    cases hshm : s.targets[pid]? with
    | none => exact absurd ((hturn.fresh pid shm' hshm' hshm key).symm.trans hkey) Bool.false_ne_true
    | some shm => exact ⟨shm, rfl, by rwa [← hturn.broadcastKeys hserves pid shm shm' hshm hshm']⟩
  have hset (active : Bool) (hs' : s' = (s.setActive e active).2) :
      ∃ shm, s.targets[pid]? = some shm ∧ shm.broadcastKeys key = true := by
    obtain ⟨-, hsame⟩ | ⟨-, -, -, hhooks⟩ | ⟨-, -, s₁, -, heq⟩ := setActive_cases s e active
    · rw [hs', hsame] at hshm'
      exact ⟨shm', hshm', hkey⟩
    · rw [hs', hhooks.targets] at hshm'
      exact ⟨shm', hshm', hkey⟩
    · rw [hs', heq, ExtTreeMap.getElem?_map, Option.map_eq_some_iff] at hshm'
      obtain ⟨shm, hshm, rfl⟩ := hshm'
      rw [ProcessShm.broadcastKeys_setKeyboardSource] at hkey
      refine ⟨shm, hshm, ?_⟩
      split_ifs at hkey
      · exact hkey
      · rw [ProcessShm.broadcastKeys_releaseBroadcastKeys] at hkey
        split_ifs at hkey
        exact hkey
  cases call with
  | setActive active => exact .inl (hset active (Option.some.inj hs').symm)
  | toggle => exact .inl (hset (!s.broadcasting) (Option.some.inj hs').symm)
  | keyboardProc kb =>
    obtain rfl := Option.some.inj hs'
    obtain ⟨shm, hshm, hpressed⟩ := (keyboardProc_pressed s e kb).targets pid shm' hshm'
    obtain hheld | ⟨hdown, hscan⟩ := hpressed key hkey
    · exact .inl ⟨shm, hshm, hheld⟩
    · exact .inr ⟨kb, rfl, hdown, hscan⟩
  | _ => exact .inl (hother rfl)

end BroadcastState

/-! ### Every run -/

/-- What a call says of a scan code. -/
def Call.messageOf (scan : UInt8) : Call → Option BroadcastState.KeyMessage
  | .keyboardProc kb => if kb.scan = some scan then some kb.message else none
  | _ => none

/-- The last event of a scan code in a run. -/
def lastMessage (scan : UInt8) (calls : List (Call × Surroundings)) : Option BroadcastState.KeyMessage :=
  (calls.filterMap fun call => call.1.messageOf scan).getLast?

/-- Of a released key, nothing is held for broadcasting. -/
def NoStuckKeys (calls : List (Call × Surroundings)) : Prop :=
  ∀ scan, lastMessage scan calls = some .up → ∀ s ∈ Engine.run calls, ∀ (pid : UInt32) (shm : ProcessShm),
    s.targets[pid]? = some shm → shm.broadcastKeys (keyOf scan) = false

namespace Engine
open BroadcastState

/-- A call that releases a key reaches every target that holds it. -/
def Releases (engine : Engine) (call : Call × Surroundings) : Prop :=
  ∀ s ∈ engine, ∀ kb, call.1 = .keyboardProc kb → kb.message = .up → s.ReleasesKey call.2 kb

theorem messageOf_eq_some {scan : UInt8} {call : Call} {message : KeyMessage} :
    call.messageOf scan = some message ↔
      ∃ kb, call = .keyboardProc kb ∧ kb.scan = some scan ∧ kb.message = message := by
  constructor
  · intro h
    cases call with
    | keyboardProc kb =>
      unfold Call.messageOf at h
      dsimp only at h
      split_ifs at h with hscan
      exact ⟨kb, rfl, hscan, Option.some.inj h⟩
    | _ => cases h
  · rintro ⟨kb, rfl, hscan, rfl⟩
    exact if_pos hscan

theorem lastMessage_concat (scan : UInt8) (calls : List (Call × Surroundings)) (call : Call × Surroundings) :
    lastMessage scan (calls ++ [call]) = (call.1.messageOf scan).or (lastMessage scan calls) := by
  unfold lastMessage
  rw [List.filterMap_append, List.getLast?_append, List.filterMap_cons, List.filterMap_nil]
  cases call.1.messageOf scan <;> rfl

theorem run_concat (calls : List (Call × Surroundings)) (call : Call × Surroundings) :
    run (calls ++ [call]) = (run calls).step call := List.foldl_concat step none call calls

theorem noStuckKeys_concat {calls : List (Call × Surroundings)} (h : NoStuckKeys calls) {call : Call × Surroundings}
    (hreleases : Releases (run calls) call) : NoStuckKeys (calls ++ [call]) := by
  obtain ⟨call, e⟩ := call
  intro scan hlast s' hs' pid shm' hshm'
  rw [run_concat] at hs'
  rw [lastMessage_concat] at hlast
  cases hrun : run calls with
  | none =>
    rw [hrun] at hs'
    cases call with
    | init cfg =>
      obtain rfl := Option.some.inj hs'
      rw [Turn.init_targets] at hshm'
      exact absurd (hshm'.symm.trans ExtTreeMap.getElem?_empty) (Option.some_ne_none shm')
    | _ => exact absurd hs' (Option.not_mem_none s')
  | some s =>
    rw [hrun] at hs' hreleases
    cases hmessage : call.messageOf scan with
    | none =>
      rw [hmessage] at hlast
      refine Bool.eq_false_iff.mpr fun hkey => ?_
      obtain ⟨shm, hshm, hheld⟩ | ⟨kb, rfl, -, pressed, hpressed, heq⟩ := held_call s e hs' hshm' hkey
      · exact absurd ((h scan hlast s hrun pid shm hshm).symm.trans hheld) Bool.false_ne_true
      · obtain rfl := keyOf_injective heq
        exact absurd (hmessage.symm.trans (if_pos hpressed)) nofun
    | some message =>
      rw [hmessage] at hlast
      obtain ⟨kb, rfl, hscan, hup⟩ := messageOf_eq_some.mp (hmessage.trans hlast)
      obtain rfl := Option.some.inj hs'
      obtain ⟨f, htarget, hf⟩ := keyboardProc_released s e hscan hup pid
      rw [htarget, Option.map_eq_some_iff] at hshm'
      obtain ⟨shm, hshm, rfl⟩ := hshm'
      refine Bool.eq_false_iff.mpr fun hkey => ?_
      have hheld := (hf shm).mp hkey
      exact hheld.2 (hreleases s rfl kb rfl hup scan hscan pid shm hshm hheld.1)

theorem releases_of_noStuckKeys {calls : List (Call × Surroundings)} {call : Call × Surroundings}
    (h : NoStuckKeys (calls ++ [call])) : Releases (run calls) call := by
  obtain ⟨call, e⟩ := call
  intro s hs kb hcall hup scan hscan pid shm hshm hheld
  obtain rfl : call = .keyboardProc kb := hcall
  have hlast : lastMessage scan (calls ++ [(.keyboardProc kb, e)]) = some .up := by
    rw [lastMessage_concat, messageOf_eq_some.mpr ⟨kb, rfl, hscan, hup⟩]
    rfl
  have hrun : run (calls ++ [(.keyboardProc kb, e)]) = some (s.keyboardProc e kb).2 := by
    rw [run_concat, show run calls = some s from hs]
    rfl
  obtain ⟨f, htarget, hf⟩ := keyboardProc_released s e hscan hup pid
  rw [hshm] at htarget
  have hreleased := h scan hlast _ hrun pid (f shm) htarget
  by_contra hmissed
  exact absurd (hreleased.symm.trans ((hf shm).mpr ⟨hheld, hmissed⟩)) Bool.false_ne_true

/-- The second client comes to the foreground between a press and its release. -/
def focusMoved : List (Call × Surroundings) :=
  [(.init noFilter, playing 1), (.updateTargets [1, 2] (some 1), playing 1), (.setActive true, playing 1),
    (keyA .down, playing 1), (.setActivePid 2, playing 2), (keyA .up, playing 2)]

theorem stuck_key : ¬ ∀ calls, NoStuckKeys calls := by
  intro h
  have hheld : ∃ s ∈ run focusMoved, ∃ shm ∈ s.targets[(2 : UInt32)]?, shm.broadcastKeys (keyOf 0x1e) = true :=
    ⟨_, rfl, _, rfl, rfl⟩
  obtain ⟨s, hs, shm, hshm, hkey⟩ := hheld
  have hreleased := h focusMoved 0x1e rfl s hs 2 shm hshm
  exact absurd (hreleased.symm.trans hkey) Bool.false_ne_true

/-- No key stays down in a run exactly while every release reaches the targets that hold its key. -/
theorem no_stuck_keys_iff (calls : List (Call × Surroundings)) :
    (∀ before after, calls = before ++ after → NoStuckKeys before) ↔ Along Releases step none calls := by
  rw [Along.iff_forall]
  constructor
  · rintro h before call after rfl
    exact releases_of_noStuckKeys (h (before ++ [call]) after (by simp))
  · intro h before
    induction before using List.reverseRecOn with
    | nil =>
      intro _ _ scan hlast
      cases hlast
    | append_singleton before call ih =>
      rintro after rfl
      exact noStuckKeys_concat (ih (call :: after) (by simp)) (h before call after (by simp))

end Engine
end Stonemite.Broadcast
