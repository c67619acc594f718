import Stonemite.Trusik.Keyboard
import Stonemite.Lib.Edges
import Stonemite.Lib.Ring
import Stonemite.Lib.Run

/-!
# The controller's keys and its event ring

`set_controller_key` and `clear_controller_keys` store the levels of the keys and publish each change of a level
in a ring, from which `drain_controller_events` reads.
-/

namespace Stonemite.Trusik

instance : NeZero controllerEventCapacity.toNat := ⟨by decide⟩

/-- The controller's part of `SharedKeyState` as far as the key levels go. -/
structure ControllerKeys where
  sequence : UInt32
  eventHead : UInt32
  events : Fin controllerEventCapacity.toNat → UInt64
  keys : Keys

/-- The place of an event in the ring. -/
def eventPlace (sequence : UInt32) : Fin controllerEventCapacity.toNat := Fin.ofNat _ sequence.toNat

/-- The record of an event: its sequence number, the level and the key. -/
def eventRecord (sequence : UInt32) (scan : Fin keyCount) (pressed : Bool) : UInt64 :=
  (sequence.toUInt64 <<< 32) ||| .ofNat scan ||| (pressed.toUInt64 <<< 8)

namespace ControllerKeys
variable (m : ControllerKeys)

/-- The words before the controller has written any. -/
def unpublished : ControllerKeys := ⟨0, 0, fun _ => 0, noKeys⟩

/-- `lock_sequence`, when no one else writes. -/
def lockSequence : ControllerKeys := { m with sequence := m.sequence + 1 }

/-- The sequence number is even again: no write is under way. -/
def unlockSequence : ControllerKeys := { m with sequence := m.sequence + 1 }

/-- A change of a key goes into the ring and its number becomes visible. -/
def publishControllerEvent (scan : Fin keyCount) (pressed : Bool) : ControllerKeys :=
  { m with
    events := Function.update m.events (eventPlace m.eventHead) (eventRecord m.eventHead scan pressed)
    eventHead := m.eventHead + 1 }

/-- `write_controller_key`. -/
def setControllerKey (scan : Nat) (value : UInt8) : ControllerKeys :=
  if h : scan < keyCount then
    let scan : Fin keyCount := ⟨scan, h⟩
    let m := m.lockSequence
    let pressed := value &&& 0x80 != 0
    let m :=
      if m.keys scan &&& 0x80 ≠ value &&& 0x80 then
        { m with keys := Function.update m.keys scan (if pressed then 0x80 else 0) }.publishControllerEvent scan pressed
      else m
    m.unlockSequence
  else m

/-- The loop body of `clear_controller_keys`. -/
def clearKey (scan : Fin keyCount) : ControllerKeys :=
  if m.keys scan &&& 0x80 ≠ 0 then
    { m with keys := Function.update m.keys scan 0 }.publishControllerEvent scan false
  else m

/-- Every key goes up, each as a change of its own, under one lock of the sequence. -/
def clearControllerKeys : ControllerKeys :=
  ((List.finRange keyCount).foldl clearKey m.lockSequence).unlockSequence

/-- What the loads of a drain return while no one writes. -/
def ringLoads : RingLoads := ⟨m.eventHead, fun next => m.events (eventPlace next)⟩

/-- The key is down in the words. -/
def level (scan : Fin keyCount) : Bool := m.keys scan &&& 0x80 != 0

end ControllerKeys

inductive ControllerCall
  | setControllerKey (scan : Nat) (value : UInt8)
  | clearControllerKeys
deriving DecidableEq, Repr

/-- A call of the controller, or a drain of the reader. -/
inductive ControllerAction
  | call (call : ControllerCall)
  | drain
deriving DecidableEq, Repr

/-- The keys, the reader's cursor and what its last drain found. -/
structure ControllerSession where
  keys : ControllerKeys := .unpublished
  cursor : Option UInt32 := none
  visited : List (Fin keyCount × Bool) := []
  overflowed : Bool := false

/-- One call of the controller on the words. -/
def ControllerKeys.step (m : ControllerKeys) : ControllerCall → ControllerKeys
  | .setControllerKey scan value => m.setControllerKey scan value
  | .clearControllerKeys => m.clearControllerKeys

namespace ControllerSession

/-- One action of the session: a call of the controller or a drain of the reader. -/
def step (s : ControllerSession) : ControllerAction → ControllerSession
  | .call call => { s with keys := s.keys.step call }
  | .drain =>
    let (cursor, visited, overflowed) := drainControllerEvents s.keys.ringLoads s.cursor
    { s with cursor, visited, overflowed }

def run (actions : List ControllerAction) : ControllerSession := actions.foldl step {}

end ControllerSession

/-! ### Records -/

theorem toNat_eventRecord (sequence : UInt32) (scan : Fin keyCount) (pressed : Bool) :
    (eventRecord sequence scan pressed).toNat = sequence.toNat * 2 ^ 32 + (pressed.toNat * 2 ^ 8 + scan) := by
  have hsequence := sequence.toNat_lt
  have hscan : scan.val < 256 := scan.isLt
  have hword : (UInt64.ofNat scan).toNat = scan := by
    rw [UInt64.toNat_ofNat']
    exact Nat.mod_eq_of_lt (by omega)
  have hpressed : pressed.toUInt64.toNat = pressed.toNat := by cases pressed <;> rfl
  have hlow : ((pressed.toUInt64 <<< 8) ||| .ofNat scan).toNat = pressed.toNat * 2 ^ 8 + scan := by
    rw [toNat_or_shiftLeft (by decide) (by rw [hword]; exact hscan) (by cases pressed <;> decide), hpressed, hword]
    rfl
  have hpressedLe : pressed.toNat ≤ 1 := by cases pressed <;> decide
  unfold eventRecord
  rw [UInt64.or_assoc, UInt64.or_comm (UInt64.ofNat scan), toNat_or_shiftLeft (by decide), hlow]
  · simp
  · rw [hlow]
    show _ < 2 ^ 32
    omega
  · simp
    omega

theorem controllerEvent_eventRecord {loads : RingLoads} {next : UInt32} {scan : Fin keyCount} {pressed : Bool}
    (h : loads.record next = eventRecord next scan pressed) : controllerEvent loads next = some (scan, pressed) := by
  have hnat := toNat_eventRecord next scan pressed
  have hscan : scan.val < 256 := scan.isLt
  have hsequence := next.toNat_lt
  have hpressedLe : pressed.toNat ≤ 1 := by cases pressed <;> decide
  rw [← h] at hnat
  have htag : (loads.record next >>> 32).toUInt32 = next := by
    apply UInt32.toNat_inj.mp
    simp only [UInt64.toNat_toUInt32, UInt64.toNat_shiftRight, hnat, Nat.shiftRight_eq_div_pow]
    simp
    omega
  have hkey : (loads.record next).toUInt8.toNat = scan := by
    rw [UInt64.toNat_toUInt8, hnat]
    omega
  have hbit : (loads.record next &&& 256 != 0) = pressed := by
    have hand : (loads.record next &&& 256).toNat = pressed.toNat * 256 := by
      rw [UInt64.toNat_and, hnat]
      show _ &&& 2 ^ 8 = _
      rw [Nat.and_two_pow, Nat.testBit_eq_decide_div_mod_eq]
      have hdiv : (next.toNat * 2 ^ 32 + (pressed.toNat * 2 ^ 8 + scan)) / 2 ^ 8 % 2 = pressed.toNat := by omega
      rw [hdiv]
      cases pressed <;> rfl
    cases pressed with
    | true =>
      refine bne_iff_ne.mpr fun hzero => ?_
      rw [hzero] at hand
      cases hand
    | false =>
      rw [bne_eq_false_iff_eq]
      exact UInt64.toNat_inj.mp hand
  unfold controllerEvent
  dsimp only
  rw [if_neg (not_not.mpr htag), hbit]
  congr

/-! ### The changes and the ring -/

/-- What a call reports of the keys. -/
def ControllerCall.reports : ControllerCall → List (Fin keyCount × Bool)
  | .setControllerKey scan value => if h : scan < keyCount then [(⟨scan, h⟩, value &&& 0x80 != 0)] else []
  | .clearControllerKeys => (List.finRange keyCount).map fun scan => (scan, false)

namespace ControllerKeys
variable {m : ControllerKeys} {changes : List (Fin keyCount × Bool)}

/-- The ring holds the records of the changes, the head counts them and they led to the levels. -/
structure Recorded (m : ControllerKeys) (changes : List (Fin keyCount × Bool)) : Prop where
  head : m.eventHead = .ofNat changes.length
  ring : Holds m.events (changes.mapIdx fun i change => eventRecord (.ofNat i) change.1 change.2)
  levels : m.level = settle (fun _ => false) changes

theorem eventPlace_ofNat (n : Nat) : eventPlace (.ofNat n) = Fin.ofNat _ n := by
  unfold eventPlace
  apply Fin.ext
  show (UInt32.ofNat n).toNat % 1024 = n % 1024
  rw [UInt32.toNat_ofNat']
  omega

theorem Recorded.publish (h : m.Recorded changes) {keys : Keys} {scan : Fin keyCount} {pressed : Bool}
    (hkeys : (fun k => keys k &&& 0x80 != 0) = Function.update m.level scan pressed) :
    ({ m with keys }.publishControllerEvent scan pressed).Recorded (changes ++ [(scan, pressed)]) where
  head := by
    show m.eventHead + 1 = _
    rw [h.head, List.length_append, List.length_singleton, UInt32.ofNat_add]
    rfl
  ring := by
    have hpush := h.ring.push (eventRecord (.ofNat changes.length) scan pressed)
    rw [List.length_mapIdx] at hpush
    rw [List.mapIdx_concat]
    show Holds (Function.update m.events (eventPlace m.eventHead) (eventRecord m.eventHead scan pressed)) _
    rw [h.head, eventPlace_ofNat]
    exact hpush
  levels := by
    rw [settle_append, ← h.levels]
    exact hkeys

theorem Recorded.sequence (h : m.Recorded changes) (sequence : UInt32) :
    Recorded { m with sequence } changes := ⟨h.head, h.ring, h.levels⟩

theorem and_high (value : UInt8) : value &&& 0x80 = if value &&& 0x80 != 0 then 0x80 else 0 := by
  have hbit : (value &&& 0x80).toNat = (value.toNat.testBit 7).toNat * 2 ^ 7 := by
    rw [UInt8.toNat_and]
    show value.toNat &&& 2 ^ 7 = _
    exact Nat.and_two_pow _ _
  apply UInt8.toNat_inj.mp
  cases hb : value.toNat.testBit 7
  · rw [hb] at hbit
    have hzero : value &&& 0x80 = 0 := UInt8.toNat_inj.mp hbit
    rw [hzero]
    rfl
  · rw [hb] at hbit
    have hone : value &&& 0x80 = 0x80 := UInt8.toNat_inj.mp hbit
    rw [hone]
    rfl

theorem level_update (keys : Keys) (scan : Fin keyCount) (pressed : Bool) :
    (fun k => Function.update keys scan (if pressed then 0x80 else 0) k &&& 0x80 != 0) =
      Function.update (fun k => keys k &&& 0x80 != 0) scan pressed := by
  funext k
  by_cases hk : k = scan
  · subst hk
    rw [Function.update_self, Function.update_self]
    cases pressed <;> rfl
  · rw [Function.update_of_ne hk, Function.update_of_ne hk]

theorem high_ne_iff (m : ControllerKeys) (scan : Fin keyCount) (value : UInt8) :
    m.keys scan &&& 0x80 ≠ value &&& 0x80 ↔ m.level scan ≠ (value &&& 0x80 != 0) := by
  refine not_congr ⟨fun h => ?_, fun h => ?_⟩
  · unfold level
    rw [h]
  · have hkey : m.keys scan &&& 0x80 = if m.level scan then 0x80 else 0 := and_high _
    rw [hkey, h, ← and_high]

theorem Recorded.setControllerKey (h : m.Recorded changes) (scan : Nat) (value : UInt8) :
    (m.setControllerKey scan value).Recorded
      (changes ++ edges m.level (ControllerCall.setControllerKey scan value).reports) := by
  have hkeys : m.lockSequence.keys = m.keys := rfl
  unfold ControllerKeys.setControllerKey ControllerCall.reports
  dsimp only
  by_cases hscan : scan < keyCount
  · rw [dif_pos hscan, dif_pos hscan, hkeys]
    by_cases hne : m.keys ⟨scan, hscan⟩ &&& 0x80 ≠ value &&& 0x80
    · rw [if_pos hne, edges_cons_of_ne ((high_ne_iff m _ value).mp hne)]
      have hlocked : m.lockSequence.Recorded changes := h.sequence _
      exact (hlocked.publish (level_update _ _ _)).sequence _
    · rw [if_neg hne, edges_cons_of_eq (not_not.mp (mt (high_ne_iff m _ value).mpr hne)), edges, List.append_nil]
      exact h.sequence _
  · rw [dif_neg hscan, dif_neg hscan, edges, List.append_nil]
    exact h

theorem Recorded.clearKey (h : m.Recorded changes) (scan : Fin keyCount) :
    (m.clearKey scan).Recorded (changes ++ edges m.level [(scan, false)]) := by
  unfold ControllerKeys.clearKey
  split_ifs with hne
  · have hchange : m.level scan ≠ false := by
      rw [Bool.ne_false_iff]
      exact bne_iff_ne.mpr hne
    rw [edges_cons_of_ne hchange]
    exact h.publish (level_update m.keys scan false)
  · have hsame : m.level scan = false := bne_eq_false_iff_eq.mpr (not_not.mp hne)
    rw [edges_cons_of_eq hsame, edges, List.append_nil]
    exact h

theorem Recorded.settled {m' : ControllerKeys} {reports : List (Fin keyCount × Bool)} (h : m.Recorded changes)
    (h' : m'.Recorded (changes ++ edges m.level reports)) : m'.level = settle m.level reports := by
  rw [h'.levels, settle_append, ← h.levels, settle_edges]

theorem Recorded.clearKeys (h : m.Recorded changes) (scans : List (Fin keyCount)) :
    (scans.foldl ControllerKeys.clearKey m).Recorded
      (changes ++ edges m.level (scans.map fun scan => (scan, false))) := by
  induction scans generalizing m changes with
  | nil => rwa [List.map_nil, edges, List.append_nil]
  | cons scan scans ih =>
    have hkey := h.clearKey scan
    have hrest := ih hkey
    rw [h.settled hkey, List.append_assoc, ← edges_append] at hrest
    exact hrest

theorem Recorded.step (h : m.Recorded changes) (call : ControllerCall) :
    (m.step call).Recorded (changes ++ edges m.level call.reports) := by
  cases call with
  | setControllerKey scan value => exact h.setControllerKey scan value
  | clearControllerKeys => exact ((h.sequence (m.sequence + 1)).clearKeys (List.finRange keyCount)).sequence _

theorem Recorded.calls (h : m.Recorded changes) (calls : List ControllerCall) :
    (calls.foldl ControllerKeys.step m).Recorded (changes ++ edges m.level (calls.flatMap (·.reports))) := by
  induction calls generalizing m changes with
  | nil => rwa [List.flatMap_nil, edges, List.append_nil]
  | cons call calls ih =>
    have hstep := h.step call
    have hrest := ih hstep
    rw [h.settled hstep, List.append_assoc, ← edges_append] at hrest
    exact hrest

theorem Recorded.unpublished : Recorded .unpublished [] where
  head := rfl
  ring := .nil _
  levels := by
    funext scan
    show ((0 : UInt8) &&& 0x80 != 0) = false
    decide

/-! ### Drains -/

/-- How many records a drain reads that is so far behind. -/
def window (behind : Nat) : Nat := min 1024 (behind % 2 ^ 32)

theorem Recorded.read (h : m.Recorded changes) {i : Nat} (hi : i < changes.length) (hlast : changes.length ≤ i + 1024) :
    controllerEvent m.ringLoads (.ofNat i) = some changes[i] := by
  refine controllerEvent_eventRecord ?_
  show m.events (eventPlace (.ofNat i)) = _
  have hring := h.ring i (by rwa [List.length_mapIdx]) (by rw [List.length_mapIdx]; exact hlast)
  rw [eventPlace_ofNat, hring, List.getElem_mapIdx]
  rfl

theorem Recorded.drain (h : m.Recorded changes) {cursor : Nat} (hcursor : cursor ≤ changes.length) :
    drainControllerEvents m.ringLoads (some (.ofNat cursor)) =
      (some m.eventHead, changes.drop (changes.length - window (changes.length - cursor)),
        decide (1024 < (changes.length - cursor) % 2 ^ 32)) := by
  have hhead : m.ringLoads.head = .ofNat changes.length := h.head
  have hbehind : (UInt32.ofNat changes.length - .ofNat cursor).toNat = (changes.length - cursor) % 2 ^ 32 := by
    rw [← UInt32.ofNat_sub hcursor, UInt32.toNat_ofNat']
  have hgt : (UInt32.ofNat changes.length - .ofNat cursor > controllerEventCapacity) ↔
      1024 < (changes.length - cursor) % 2 ^ 32 := by
    rw [gt_iff_lt, UInt32.lt_iff_toNat_lt, hbehind]
    rfl
  have hwindow : window (changes.length - cursor) ≤ changes.length := by
    unfold window
    omega
  have hsmall : window (changes.length - cursor) ≤ 1024 := min_le_left _ _
  -- where the reader starts
  have hnext : (if UInt32.ofNat changes.length - .ofNat cursor > controllerEventCapacity then
      UInt32.ofNat changes.length - controllerEventCapacity else .ofNat cursor) =
        .ofNat (changes.length - window (changes.length - cursor)) := by
    unfold window at hwindow ⊢
    by_cases hover : 1024 < (changes.length - cursor) % 2 ^ 32
    · rw [if_pos (hgt.mpr hover)]
      rw [min_eq_left hover.le] at hwindow ⊢
      exact (UInt32.ofNat_sub hwindow).symm
    · rw [if_neg (mt hgt.mp hover), min_eq_right (Nat.not_lt.mp hover)]
      apply UInt32.toNat_inj.mp
      rw [UInt32.toNat_ofNat', UInt32.toNat_ofNat']
      omega
  have hcount : (UInt32.ofNat changes.length - .ofNat (changes.length - window (changes.length - cursor))).toNat =
      window (changes.length - cursor) := by
    rw [← UInt32.ofNat_sub (Nat.sub_le _ _), UInt32.toNat_ofNat', Nat.sub_sub_self hwindow]
    exact Nat.mod_eq_of_lt (by omega)
  have hrecords : ((List.range (window (changes.length - cursor))).map fun i => controllerEvent m.ringLoads
      (.ofNat (changes.length - window (changes.length - cursor)) + .ofNat i)) =
        (changes.drop (changes.length - window (changes.length - cursor))).map some := by
    generalize window (changes.length - cursor) = n at hwindow hsmall
    refine List.ext_getElem (by simp; omega) fun i hi _ => ?_
    rw [List.length_map, List.length_range] at hi
    rw [List.getElem_map, List.getElem_map, List.getElem_range, List.getElem_drop, ← UInt32.ofNat_add]
    exact h.read (by omega) (by omega)
  unfold drainControllerEvents
  dsimp only
  rw [hhead, hnext, hcount, hrecords, decide_eq_decide.mpr hgt, h.head]
  have hread (events : List (Fin keyCount × Bool)) :
      (events.map some).filterMap id = events ∧ (events.map some).any (·.isNone) = false := by
    induction events with
    | nil => exact ⟨rfl, rfl⟩
    | cons event events ih => exact ⟨congrArg (event :: ·) ih.1, ih.2⟩
  obtain ⟨hvisited, hnone⟩ := hread (changes.drop (changes.length - window (changes.length - cursor)))
  rw [hvisited, hnone, Bool.or_false]

end ControllerKeys

namespace ControllerAction

/-- The changes of keys that an action makes. -/
def reports : ControllerAction → List (Fin keyCount × Bool)
  | .call c => c.reports
  | .drain => []

/-- The changes of levels that the actions make, in order. -/
def changes (actions : List ControllerAction) : List (Fin keyCount × Bool) :=
  edges (fun _ => false) (actions.flatMap reports)

end ControllerAction

namespace ControllerSession
open ControllerAction (changes)

/-- The keys are as the changes have them, and the cursor is where a drain left it. -/
structure Drained (s : ControllerSession) (actions : List ControllerAction) : Prop where
  recorded : s.keys.Recorded (changes actions)
  cursor : s.cursor = none ∨ ∃ n ≤ (changes actions).length, s.cursor = some (.ofNat n)

theorem changes_append (actions actions' : List ControllerAction) : changes (actions ++ actions') =
    changes actions ++ edges (settle (fun _ => false) (changes actions)) (actions'.flatMap (·.reports)) := by
  unfold ControllerAction.changes
  rw [List.flatMap_append, edges_append, settle_edges]

theorem Drained.call {s : ControllerSession} {actions : List ControllerAction} (h : s.Drained actions)
    (call : ControllerCall) : (s.step (ControllerAction.call call)).Drained (actions ++ [ControllerAction.call call]) := by
  have hchanges := changes_append actions [.call call]
  rw [← h.recorded.levels, List.flatMap_singleton] at hchanges
  constructor
  · rw [hchanges]
    exact h.recorded.step call
  · refine h.cursor.imp id fun ⟨n, hn, hcursor⟩ => ⟨n, ?_, hcursor⟩
    rw [hchanges, List.length_append]
    exact hn.trans (Nat.le_add_right _ _)

theorem changes_drain (actions : List ControllerAction) : changes (actions ++ [ControllerAction.drain]) = changes actions := by
  rw [changes_append]
  exact List.append_nil _

theorem Drained.drain {s : ControllerSession} {actions : List ControllerAction} (h : s.Drained actions) :
    (s.step ControllerAction.drain).Drained (actions ++ [ControllerAction.drain]) ∧ (s.step ControllerAction.drain).keys = s.keys ∧
      (s.step .drain).cursor = some (.ofNat (changes actions).length) := by
  have hcursor : (s.step .drain).cursor = some (.ofNat (changes actions).length) := by
    show (drainControllerEvents s.keys.ringLoads s.cursor).1 = _
    rw [← h.recorded.head]
    unfold drainControllerEvents
    split <;> rfl
  refine ⟨⟨?_, .inr ⟨_, ?_, hcursor⟩⟩, rfl, hcursor⟩
  · rw [changes_drain]
    exact h.recorded
  · rw [changes_drain]

theorem Drained.run (actions : List ControllerAction) : (run actions).Drained actions := by
  induction actions using List.reverseRecOn with
  | nil => exact ⟨.unpublished, .inl rfl⟩
  | append_singleton actions action ih =>
    unfold ControllerSession.run at ih ⊢
    rw [List.foldl_append, List.foldl_cons, List.foldl_nil]
    cases action with
    | call call => exact ih.call call
    | drain => exact ih.drain.1

/-- The changes that the calls make after the actions. -/
def since (before : List ControllerAction) (calls : List ControllerCall) : List (Fin keyCount × Bool) :=
  edges (run before).keys.level (calls.flatMap (·.reports))

/-- The drain that follows the calls after an earlier drain: up to a ring of changes it visits them and they lead
from the earlier levels to the present ones, and it reports an overflow when one was overwritten. -/
structure Replays (before : List ControllerAction) (calls : List ControllerCall) : Prop where
  visited : (since before calls).length ≤ controllerEventCapacity.toNat →
    (run (before ++ .drain :: calls.map .call ++ [.drain])).visited = since before calls
  replayed : (since before calls).length ≤ controllerEventCapacity.toNat →
    settle (run (before ++ [.drain])).keys.level (run (before ++ .drain :: calls.map .call ++ [.drain])).visited =
      (run (before ++ .drain :: calls.map .call ++ [.drain])).keys.level
  overflowed : (run (before ++ .drain :: calls.map .call ++ [.drain])).overflowed = true ↔
    Overwritten controllerEventCapacity.toNat (changes before).length (changes (before ++ calls.map .call)).length

theorem run_calls (s : ControllerSession) (calls : List ControllerCall) :
    (calls.map ControllerAction.call).foldl step s = { s with keys := calls.foldl ControllerKeys.step s.keys } := by
  induction calls generalizing s with
  | nil => rfl
  | cons call calls ih => exact ih _

theorem later_drain (before : List ControllerAction) (calls : List ControllerCall) :
    let later := run (before ++ ControllerAction.drain :: calls.map ControllerAction.call ++ [ControllerAction.drain])
    later.keys.level = settle (run before).keys.level (since before calls) ∧
      later.visited = (changes before ++ since before calls).drop
        ((changes before).length + (since before calls).length - ControllerKeys.window (since before calls).length) ∧
      later.overflowed = decide (1024 < (since before calls).length % 2 ^ 32) := by
  intro later
  have hbefore := Drained.run before
  have hkeys := hbefore.recorded.calls calls
  have hlater : later = { (run before).step .drain with
      keys := calls.foldl ControllerKeys.step (run before).keys }.step .drain := by
    show List.foldl step {} (before ++ ControllerAction.drain :: calls.map ControllerAction.call ++ [ControllerAction.drain]) = _
    rw [List.foldl_append, List.foldl_append, List.foldl_cons, List.foldl_cons, List.foldl_nil, run_calls]
    rfl
  obtain ⟨-, -, hcursor⟩ := hbefore.drain
  have hdrain := hkeys.drain (List.length_append ▸ Nat.le_add_right _ _)
  rw [List.length_append, Nat.add_sub_cancel_left] at hdrain
  refine ⟨?_, ?_, ?_⟩
  · rw [hlater]
    show (calls.foldl ControllerKeys.step (run before).keys).level = _
    rw [hbefore.recorded.settled hkeys, since, settle_edges]
  · rw [hlater]
    show (drainControllerEvents _ ((run before).step .drain).cursor).2.1 = _
    rw [hcursor, hdrain]
    rfl
  · rw [hlater]
    show (drainControllerEvents _ ((run before).step .drain).cursor).2.2 = _
    rw [hcursor, hdrain]
    rfl

theorem changes_calls (before : List ControllerAction) (calls : List ControllerCall) :
    changes (before ++ calls.map ControllerAction.call) = changes before ++ since before calls := by
  rw [changes_append, ← (Drained.run before).recorded.levels, List.flatMap_map]
  rfl

theorem overflowed_iff (before : List ControllerAction) (calls : List ControllerCall) :
    ((run (before ++ ControllerAction.drain :: calls.map ControllerAction.call ++ [ControllerAction.drain])).overflowed = true ↔
      Overwritten controllerEventCapacity.toNat (changes before).length (changes (before ++ calls.map ControllerAction.call)).length) ↔
      ((since before calls).length < 2 ^ 32 ∨ 1024 < (since before calls).length % 2 ^ 32) := by
  obtain ⟨-, -, hoverflowed⟩ := later_drain before calls
  rw [hoverflowed, decide_eq_true_eq, overwritten_iff, changes_calls, List.length_append, Nat.add_sub_cancel_left]
  show (1024 < _ ↔ 1024 < _) ↔ _
  omega

/-- A drain tells what has changed exactly when the changes since the earlier drain are fewer than the sequence
numbers, or too many by more than a ring. -/
theorem replays_iff (before : List ControllerAction) (calls : List ControllerCall) :
    Replays before calls ↔
      (since before calls).length < 2 ^ 32 ∨ 1024 < (since before calls).length % 2 ^ 32 := by
  constructor
  · intro h
    exact (overflowed_iff before calls).mp h.overflowed
  · intro h
    obtain ⟨hlevel, hvisited, -⟩ := later_drain before calls
    have hall (hlen : (since before calls).length ≤ controllerEventCapacity.toNat) :
        (run (before ++ ControllerAction.drain :: calls.map ControllerAction.call ++ [ControllerAction.drain])).visited = since before calls := by
      have hwindow : ControllerKeys.window (since before calls).length = (since before calls).length := by
        have hlen' : (since before calls).length ≤ 1024 := hlen
        unfold ControllerKeys.window
        omega
      rw [hvisited, hwindow, Nat.add_sub_cancel, List.drop_left]
    refine ⟨hall, fun hlen => ?_, (overflowed_iff before calls).mpr h⟩
    rw [hall hlen, hlevel]
    have hearlier : (run (before ++ [ControllerAction.drain])).keys = (run before).keys := by
      unfold run
      rw [List.foldl_append]
      rfl
    rw [hearlier]

/-! ### As many changes as there are sequence numbers -/

/-- A key that goes down and up. -/
def toggles (n : Nat) : List ControllerCall :=
  (List.range n).map fun i => .setControllerKey 0x1e (if i % 2 = 0 then 0x80 else 0)

theorem toggles_succ (n : Nat) : (toggles (n + 1)).flatMap (·.reports) =
    (toggles n).flatMap (·.reports) ++ [(⟨0x1e, by decide⟩, decide (n % 2 = 0))] := by
  unfold toggles
  rw [List.range_succ, List.map_append, List.flatMap_append]
  congr 1
  rcases Nat.mod_two_eq_zero_or_one n with hn | hn <;> simp [ControllerCall.reports, hn, keyCount]

theorem since_toggles (n : Nat) :
    (since [] (toggles n)).length = n ∧
      settle (run []).keys.level ((toggles n).flatMap (·.reports)) ⟨0x1e, by decide⟩ = decide (n % 2 = 1) := by
  induction n with
  | zero => exact ⟨rfl, rfl⟩
  | succ n ih =>
    obtain ⟨hlen, hlevel⟩ := ih
    unfold since at hlen ⊢
    rw [toggles_succ]
    have hne : settle (run []).keys.level ((toggles n).flatMap (·.reports)) ⟨0x1e, by decide⟩ ≠ decide (n % 2 = 0) := by
      rw [hlevel]
      rcases Nat.mod_two_eq_zero_or_one n with hn | hn <;> simp [hn]
    constructor
    · rw [edges_append, List.length_append, hlen, edges_cons_of_ne hne]
      rfl
    · rw [settle_append]
      generalize settle (run []).keys.level ((toggles n).flatMap (·.reports)) = levels
      rw [settle, List.foldl_cons, List.foldl_nil, Function.update_self]
      rcases Nat.mod_two_eq_zero_or_one n with hn | hn <;> simp [hn] <;> omega

/-- After as many changes as there are sequence numbers the drain finds nothing and reports no overflow. -/
theorem wrapped_unnoticed : ¬ Replays [] (toggles (2 ^ 32)) := by
  intro h
  have hcases := (overflowed_iff [] (toggles (2 ^ 32))).mp h.overflowed
  rw [(since_toggles (2 ^ 32)).1] at hcases
  omega

end ControllerSession
end Stonemite.Trusik
