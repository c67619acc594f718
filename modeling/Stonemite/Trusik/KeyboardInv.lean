import Stonemite.Trusik.Keyboard
import Stonemite.Lib.Edges
import Stonemite.Lib.Run

/-!
# What the buffered keyboard delivers

The controller events and the key levels that are read are reports of levels; the events the buffer holds are their
edges, numbered in order (`BufferedKeyboardState.Reports`). A read takes from the front of the buffer. `Ok` is the
invariant (`Ok.call`, `run_ok`), and `keyboard_stream` the result for every sequence of calls.
-/

namespace Stonemite.Trusik

theorem masked_level : ∀ key : UInt8, key &&& 0x80 = 0 ∨ key &&& 0x80 = 0x80 := by decide +kernel

theorem mergeKeys_level (keys : Keys) (scan : Fin keyCount) :
    mergeKeys noKeys keys scan = 0 ∨ mergeKeys noKeys keys scan = 0x80 := by
  rw [mergeKeys, noKeys, UInt8.zero_or]
  exact masked_level _

/-- A level that is read is the one of a released or of a pressed key. -/
theorem readEffectiveKeys_level (loads : EffectiveLoads) (nowMs : UInt32) (scan : Fin keyCount) :
    readEffectiveKeys loads nowMs scan = 0 ∨ readEffectiveKeys loads nowMs scan = 0x80 := by
  have hcontroller (keys : Keys) : (if loads.controllerActive then mergeKeys noKeys keys else noKeys) scan = 0 ∨
      (if loads.controllerActive then mergeKeys noKeys keys else noKeys) scan = 0x80 := by
    split
    · exact mergeKeys_level keys scan
    · exact .inl rfl
  unfold readEffectiveKeys
  split
  · split
    · exact hcontroller loads.controllerKeysAgain
    · dsimp only
      split
      · right
        rcases hcontroller loads.controllerKeys with h | h
        · rw [h]
          decide
        · rw [h]
          decide
      · exact hcontroller loads.controllerKeys
  · exact hcontroller loads.controllerKeys

/-- The events of edges, numbered from `sequence` on. -/
def numbered (timestamp sequence : UInt32) : List (Fin keyCount × Bool) → List SyntheticEvent
  | [] => []
  | (scan, pressed) :: log =>
    ⟨.ofNat scan, if pressed then 0x80 else 0, timestamp, sequence, 0⟩ :: numbered timestamp (sequence + 1) log

theorem ofNat_succ (n : Nat) : UInt32.ofNat (n + 1) = 1 + UInt32.ofNat n := by
  rw [UInt32.ofNat_add, UInt32.add_comm]
  rfl

theorem numbered_append (timestamp sequence : UInt32) (l l' : List (Fin keyCount × Bool)) :
    numbered timestamp sequence (l ++ l') =
      numbered timestamp sequence l ++ numbered timestamp (sequence + .ofNat l.length) l' := by
  induction l generalizing sequence with
  | nil => 
    have hzero : sequence + .ofNat 0 = sequence := UInt32.add_zero sequence
    rw [List.length_nil, List.nil_append, hzero, numbered, List.nil_append]
  | cons edge l ih =>
    rw [List.cons_append, numbered, numbered, ih, List.length_cons, ofNat_succ, UInt32.add_assoc, List.cons_append]

/-- An edge as the game sees it. -/
def eventData (edge : Fin keyCount × Bool) : UInt32 × UInt32 := (.ofNat edge.1, if edge.2 then 0x80 else 0)

theorem numbered_data (timestamp sequence : UInt32) (log : List (Fin keyCount × Bool)) :
    (numbered timestamp sequence log).map (fun event => (event.dwOfs, event.dwData)) = log.map eventData := by
  induction log generalizing sequence with
  | nil => rfl
  | cons edge log ih =>
    rw [numbered, List.map_cons, ih, List.map_cons]
    rfl

theorem numbered_sequence (timestamp sequence : UInt32) (log : List (Fin keyCount × Bool)) :
    (numbered timestamp sequence log).map (·.dwSequence) =
      (List.range log.length).map fun i => sequence + UInt32.ofNat i := by
  induction log generalizing sequence with
  | nil => rfl
  | cons edge log ih =>
    rw [numbered, List.map_cons, ih, List.length_cons, List.range_succ_eq_map, List.map_cons, List.map_map]
    congr 1
    · exact (UInt32.add_zero sequence).symm
    · refine List.map_congr_left fun i _ => ?_
      rw [Function.comp_apply, Nat.succ_eq_add_one, ofNat_succ, UInt32.add_assoc]

namespace BufferedKeyboardState
variable {b b' b'' : BufferedKeyboardState} {timestamp : UInt32} {levels : Fin keyCount → Bool}
  {reports reports' : List (Fin keyCount × Bool)}

/-- The levels the buffer has observed. -/
def Follows (b : BufferedKeyboardState) (levels : Fin keyCount → Bool) : Prop :=
  ∀ scan, b.observedKeys scan = if levels scan then 0x80 else 0

/-- The buffer has been told the reports and holds their edges. -/
structure Reports (timestamp : UInt32) (levels : Fin keyCount → Bool) (reports : List (Fin keyCount × Bool))
    (b b' : BufferedKeyboardState) : Prop where
  pending : b'.pending = b.pending ++ numbered timestamp b.nextSequence (edges levels reports)
  next : b'.nextSequence = b.nextSequence + .ofNat (edges levels reports).length
  follows : b'.Follows (settle levels reports)

namespace Reports

theorem nil (h : b.Follows levels) : Reports timestamp levels [] b b :=
  ⟨(List.append_nil _).symm, (UInt32.add_zero _).symm, h⟩

theorem trans (h : Reports timestamp levels reports b b') (h' : Reports timestamp (settle levels reports) reports' b' b'') :
    Reports timestamp levels (reports ++ reports') b b'' := by
  refine ⟨?_, ?_, ?_⟩
  · rw [h'.pending, h.pending, h.next, edges_append, numbered_append, List.append_assoc]
  · rw [h'.next, h.next, edges_append, List.length_append, UInt32.ofNat_add, UInt32.add_assoc]
  · rw [settle_append]
    exact h'.follows

theorem foldl {α : Type} {f : BufferedKeyboardState → α → BufferedKeyboardState} {report : α → Fin keyCount × Bool}
    (hstep : ∀ levels b a, b.Follows levels → Reports timestamp levels [report a] b (f b a)) (l : List α)
    (h : b.Follows levels) : Reports timestamp levels (l.map report) b (l.foldl f b) := by
  induction l generalizing b levels with
  | nil => exact .nil h
  | cons a l ih =>
    have hfirst := hstep levels b a h
    exact hfirst.trans (ih hfirst.follows)

theorem quiet {scan : Fin keyCount} {pressed : Bool} (h : b.Follows levels) (hlevel : levels scan = pressed) :
    Reports timestamp levels [(scan, pressed)] b b := by
  refine ⟨?_, ?_, ?_⟩
  · rw [edges_cons_of_eq hlevel]
    exact (List.append_nil _).symm
  · rw [edges_cons_of_eq hlevel]
    exact (UInt32.add_zero _).symm
  · rw [settle_cons_of_eq hlevel]
    exact h

theorem push {scan : Fin keyCount} {pressed : Bool} (h : b.Follows levels) (hlevel : levels scan ≠ pressed) :
    Reports timestamp levels [(scan, pressed)] b
      { b.pushTransition scan pressed timestamp with
        observedKeys := Function.update b.observedKeys scan (if pressed then 0x80 else 0) } := by
  refine ⟨?_, ?_, fun key => ?_⟩
  · rw [edges_cons_of_ne hlevel]
    rfl
  · rw [edges_cons_of_ne hlevel]
    rfl
  · show Function.update b.observedKeys scan _ key = if Function.update levels scan pressed key then 0x80 else 0
    by_cases hkey : key = scan
    · subst hkey
      rw [Function.update_self, Function.update_self]
    · rw [Function.update_of_ne hkey, Function.update_of_ne hkey]
      exact h key

end Reports

theorem Follows.ne_zero (h : b.Follows levels) (scan : Fin keyCount) : (b.observedKeys scan != 0) = levels scan := by
  rw [h scan]
  cases levels scan <;> rfl

theorem reports_observeControllerEvent (autoTypeKeys : Keys) (event : Fin keyCount × Bool) (h : b.Follows levels) :
    Reports timestamp levels [(event.1, event.2 || autoTypeKeys event.1 != 0)] b
      (observeControllerEvent autoTypeKeys timestamp b event) := by
  unfold observeControllerEvent
  dsimp only
  rw [h.ne_zero]
  split
  · rename_i hlevel
    exact .quiet h hlevel
  · rename_i hlevel
    exact .push h hlevel

theorem reports_observeKey {keys : Keys} (scan : Fin keyCount) (hkey : keys scan = 0 ∨ keys scan = 0x80)
    (h : b.Follows levels) : Reports timestamp levels [(scan, keys scan != 0)] b (observeKey keys timestamp b scan) := by
  have hlevel : keys scan = if (keys scan != 0) = true then 0x80 else 0 := by
    rcases hkey with hkey | hkey
    · rw [hkey]
      rfl
    · rw [hkey]
      rfl
  unfold observeKey
  split
  · rename_i heq
    refine .quiet h ?_
    rw [← heq, h.ne_zero]
  · rename_i hne
    have hchange : levels scan ≠ (keys scan != 0) := by
      intro hsame
      rw [h scan, hsame] at hne
      exact hne hlevel.symm
    have hpush : Reports timestamp levels [(scan, keys scan != 0)] b _ := .push h hchange
    rw [← hlevel] at hpush
    exact hpush

/-- What is reported to the buffer when the shared key state is read for a call. -/
def reported (b : BufferedKeyboardState) (loads : DataLoads) : List (Fin keyCount × Bool) :=
  (if loads.controllerActive then
    (b.drain loads).2.map fun event => (event.1, event.2 || readAutoTypeKeys loads.autoType loads.nowMs event.1 != 0)
  else []) ++
  (List.finRange keyCount).map fun scan => (scan, readEffectiveKeys loads.keys loads.nowMs scan != 0)

theorem reports_observeControllerEvents (events : List (Fin keyCount × Bool)) (autoTypeKeys : Keys)
    (h : b.Follows levels) :
    Reports timestamp levels (events.map fun event => (event.1, event.2 || autoTypeKeys event.1 != 0)) b
      (b.observeControllerEvents events autoTypeKeys timestamp) :=
  .foldl (fun _ _ event h => reports_observeControllerEvent autoTypeKeys event h) events h

theorem reports_observe {keys : Keys} (hkeys : ∀ scan, keys scan = 0 ∨ keys scan = 0x80) (h : b.Follows levels) :
    Reports timestamp levels ((List.finRange keyCount).map fun scan => (scan, keys scan != 0)) b
      (b.observe keys timestamp) :=
  .foldl (fun _ _ scan h => reports_observeKey scan (hkeys scan) h) _ h

theorem reports_observeShared (loads : DataLoads) (h : b.Follows levels) :
    Reports loads.timestamp levels (b.reported loads) b (b.observeShared loads) := by
  have hkeys := readEffectiveKeys_level loads.keys loads.nowMs
  have hnil : Reports loads.timestamp levels [] b b := .nil h
  have hstart : Reports loads.timestamp levels [] b { b with controllerEventCursor := (b.drain loads).1 } :=
    ⟨hnil.pending, hnil.next, h⟩
  unfold observeShared reported
  dsimp only
  split
  · have hevents : Reports loads.timestamp _ _ _ _ :=
      reports_observeControllerEvents (b.drain loads).2 (readAutoTypeKeys loads.autoType loads.nowMs) hstart.follows
    exact (hstart.trans hevents).trans (reports_observe hkeys hevents.follows)
  · exact hstart.trans (reports_observe hkeys hstart.follows)

theorem observeKey_observedKeys (keys : Keys) (timestamp : UInt32) (b : BufferedKeyboardState) (scan key : Fin keyCount) :
    (observeKey keys timestamp b scan).observedKeys key = if key = scan then keys scan else b.observedKeys key := by
  unfold observeKey
  split
  · rename_i heq
    split
    · rename_i hkey
      rw [hkey, heq]
    · rfl
  · exact Function.update_apply _ _ _ _

theorem observe_observedKeys (b : BufferedKeyboardState) (keys : Keys) (timestamp : UInt32) :
    (b.observe keys timestamp).observedKeys = keys := by
  have hfold (l : List (Fin keyCount)) (b : BufferedKeyboardState) (key : Fin keyCount) :
      (l.foldl (observeKey keys timestamp) b).observedKeys key = if key ∈ l then keys key else b.observedKeys key := by
    induction l generalizing b with
    | nil => simp
    | cons scan l ih =>
      rw [List.foldl_cons, ih, observeKey_observedKeys]
      by_cases hkey : key = scan
      · simp [hkey]
      · simp [hkey]
  funext key
  rw [observe, hfold, if_pos (List.mem_finRange key)]

/-! ### Calls -/

/-- The buffer when a call has been observed and takes its events. -/
def observedFor (b : BufferedKeyboardState) (call : DataCall) : BufferedKeyboardState :=
  match call.buffered? with
  | none => b
  | some _ => b.observeShared call.loads

/-- How many events a call has room for. -/
def room (call : DataCall) : Nat :=
  match call.buffered? with
  | none => 0
  | some capacity => if call.request.countQuery then 0 else capacity.toNat - (call.realCount capacity).toNat

theorem copyTo_eq (b : BufferedKeyboardState) (capacity : Nat) (peek : Bool) :
    b.copyTo capacity peek =
      (if peek then b else { b with pending := b.pending.drop capacity }, b.pending.take capacity) := by
  rw [copyTo, ← List.take_eq_take_min, ← List.drop_eq_drop_min]

/-- A call delivers the events at the front, as many as it has room for, and takes them out unless it peeks. -/
theorem getDeviceData_spec (b : BufferedKeyboardState) (call : DataCall) :
    (b.getDeviceData call).2.synthetic = (b.observedFor call).pending.take (room call) ∧
      (b.getDeviceData call).1 =
        if call.peek then b.observedFor call
        else { b.observedFor call with pending := (b.observedFor call).pending.drop (room call) } := by
  unfold getDeviceData observedFor room
  cases hbuffered : call.buffered? with
  | none =>
    refine ⟨?_, ?_⟩
    · rw [List.take_zero, DataCall.unbuffered]
      cases call.request.capacity with
      | none => rfl
      | some capacity =>
        dsimp only
        split <;> rfl
    · rw [List.drop_zero]
      exact (ite_self b).symm
  | some capacity =>
    dsimp only
    cases hquery : call.request.countQuery with
    | true =>
      simp only [if_true, List.take_zero, List.drop_zero, ite_self, and_self]
    | false =>
      simp only [Bool.false_eq_true, if_false, copyTo_eq, and_self]

end BufferedKeyboardState

/-- The buffer, with what has been taken from it and what it has been told. -/
structure History where
  buffer : BufferedKeyboardState
  delivered : List SyntheticEvent
  observed : List (Fin keyCount × Bool)

namespace History

def start (cursor : Option UInt32) : History := ⟨.newWithCursor cursor, [], []⟩

/-- A call is added with what it delivers. -/
def call (h : History) (call : DataCall) : History where
  buffer := (h.buffer.getDeviceData call).1
  delivered := if call.peek then h.delivered else h.delivered ++ (h.buffer.getDeviceData call).2.synthetic
  observed := if call.buffered?.isSome then h.observed ++ h.buffer.reported call.loads else h.observed

def run (cursor : Option UInt32) (calls : List DataCall) : History := calls.foldl call (start cursor)

/-- The events that have been taken and those that are still there. -/
def events (h : History) : List SyntheticEvent := h.delivered ++ h.buffer.pending

/-- All events are there, in order. -/
structure Ok (h : History) : Prop where
  follows : h.buffer.Follows (settle (fun _ => false) h.observed)
  data : h.events.map (fun event => (event.dwOfs, event.dwData)) = (edges (fun _ => false) h.observed).map eventData
  sequences : h.events.map (·.dwSequence) = (List.range h.events.length).map fun i => 0x80000000 + UInt32.ofNat i
  next : h.buffer.nextSequence = 0x80000000 + .ofNat h.events.length

theorem start_ok (cursor : Option UInt32) : (start cursor).Ok := ⟨fun _ => rfl, rfl, rfl, rfl⟩

theorem Ok.reports {h : History} (hok : h.Ok) {timestamp : UInt32} {reported : List (Fin keyCount × Bool)}
    {buffer : BufferedKeyboardState}
    (hreports : BufferedKeyboardState.Reports timestamp (settle (fun _ => false) h.observed) reported h.buffer buffer) :
    Ok { h with buffer := buffer, observed := h.observed ++ reported } := by
  obtain ⟨hpending, hnext, hfollows⟩ := hreports
  have hevents : events { h with buffer := buffer, observed := h.observed ++ reported } =
      h.events ++ numbered timestamp h.buffer.nextSequence (edges (settle (fun _ => false) h.observed) reported) := by
    rw [events, hpending, events, List.append_assoc]
  have hlength (timestamp sequence : UInt32) (log : List (Fin keyCount × Bool)) :
      (numbered timestamp sequence log).length = log.length := by
    rw [← List.length_map (fun event => (event.dwOfs, event.dwData)), numbered_data, List.length_map]
  constructor
  · rw [settle_append]
    exact hfollows
  · rw [hevents, List.map_append, numbered_data, hok.data, edges_append, List.map_append]
  · rw [hevents, List.map_append, numbered_sequence, hok.sequences, hok.next, List.length_append, hlength,
      List.range_add, List.map_append, List.map_map]
    congr 1
    refine List.map_congr_left fun i _ => ?_
    rw [Function.comp_apply, UInt32.ofNat_add, UInt32.add_assoc]
  · rw [hevents, List.length_append, hlength, UInt32.ofNat_add, ← UInt32.add_assoc, ← hok.next]
    exact hnext

theorem Ok.take {h : History} (hok : h.Ok) (count : Nat) :
    Ok ⟨{ h.buffer with pending := h.buffer.pending.drop count }, h.delivered ++ h.buffer.pending.take count,
      h.observed⟩ := by
  have hevents : events ⟨{ h.buffer with pending := h.buffer.pending.drop count },
      h.delivered ++ h.buffer.pending.take count, h.observed⟩ = h.events := by
    rw [events, List.append_assoc, List.take_append_drop, events]
  exact ⟨hok.follows, by rw [hevents]; exact hok.data, by rw [hevents]; exact hok.sequences,
    by rw [hevents]; exact hok.next⟩

theorem Ok.observedFor {h : History} (hok : h.Ok) (call : DataCall) :
    Ok { h with
      buffer := h.buffer.observedFor call
      observed := if call.buffered?.isSome then h.observed ++ h.buffer.reported call.loads else h.observed } := by
  unfold BufferedKeyboardState.observedFor
  cases call.buffered? with
  | none => exact hok
  | some capacity => exact hok.reports (BufferedKeyboardState.reports_observeShared call.loads hok.follows)

theorem Ok.call {h : History} (hok : h.Ok) (call : DataCall) : (h.call call).Ok := by
  obtain ⟨hsynthetic, hbuffer⟩ := h.buffer.getDeviceData_spec call
  have hobserved := hok.observedFor call
  unfold History.call
  rw [hsynthetic, hbuffer]
  cases call.peek with
  | true => exact hobserved
  | false => exact hobserved.take _

theorem run_ok (cursor : Option UInt32) (calls : List DataCall) : (run cursor calls).Ok :=
  foldl_invariant (fun _ c hok => hok.call c) calls (start_ok cursor)

/-- What is told of a key. -/
def keyData (scan : Fin keyCount) (l : List SyntheticEvent) : List UInt32 :=
  (l.filter fun event => event.dwOfs = .ofNat scan).map (·.dwData)

theorem ofNat_scan {scan scan' : Fin keyCount} : UInt32.ofNat scan = UInt32.ofNat scan' ↔ scan = scan' := by
  refine ⟨fun h => Fin.ext ?_, fun h => by rw [h]⟩
  have h := congrArg UInt32.toNat h
  have hsize : keyCount ≤ UInt32.size := by decide
  rwa [UInt32.toNat_ofNat_of_lt' (scan.isLt.trans_le hsize), UInt32.toNat_ofNat_of_lt' (scan'.isLt.trans_le hsize)] at h

theorem keyData_of_data {l : List SyntheticEvent} {log : List (Fin keyCount × Bool)}
    (h : l.map (fun event => (event.dwOfs, event.dwData)) = log.map eventData) (scan : Fin keyCount) :
    keyData scan l = (levelsOf scan log).map fun pressed => if pressed then 0x80 else 0 := by
  induction l generalizing log with
  | nil =>
    rw [List.map_nil, eq_comm, List.map_eq_nil_iff] at h
    rw [h]
    rfl
  | cons event l ih =>
    cases log with
    | nil => cases h
    | cons edge log =>
      obtain ⟨hevent, hrest⟩ := List.cons.inj h
      obtain ⟨hofs, hdata⟩ := Prod.mk.inj hevent
      have ih := ih hrest
      obtain ⟨scan', pressed⟩ := edge
      by_cases hscan : scan' = scan
      · subst hscan
        rw [levelsOf_cons_self, List.map_cons, ← ih, keyData, List.filter_cons_of_pos (by simpa using hofs),
          List.map_cons, hdata]
        rfl
      · have hne : event.dwOfs ≠ .ofNat scan := by
          rw [hofs]
          exact fun heq => hscan (ofNat_scan.mp heq)
        rw [levelsOf_cons_of_ne hscan, ← ih, keyData, List.filter_cons_of_neg (by simpa using hne), keyData]

/-- In every run: the events that have been taken and those still pending are all that the reported levels give, in
order, with consecutive numbers; the events of a key are presses and releases in turn, the last of which agrees with
the level the buffer has observed; and a call delivers the first of the pending events, which it leaves there if it
peeks. -/
theorem keyboard_stream (cursor : Option UInt32) (calls : List DataCall) :
    let h := run cursor calls
    h.events.map (fun event => (event.dwOfs, event.dwData)) = (edges (fun _ => false) h.observed).map eventData ∧
    h.events.map (·.dwSequence) = (List.range h.events.length).map (fun i => 0x80000000 + UInt32.ofNat i) ∧
    (∀ scan : Fin keyCount,
      keyData scan h.events =
        (List.range (keyData scan h.events).length).map (fun i => if i % 2 = 0 then 0x80 else 0) ∧
      h.buffer.observedKeys scan = ((keyData scan h.events).getLast?.getD 0).toUInt8) ∧
    ∀ call : DataCall,
      (h.buffer.getDeviceData call).2.synthetic =
        (h.buffer.observedFor call).pending.take (BufferedKeyboardState.room call) ∧
      (h.buffer.getDeviceData call).1.pending =
        (if call.peek then (h.buffer.observedFor call).pending
        else (h.buffer.observedFor call).pending.drop (BufferedKeyboardState.room call)) ∧
      (call.buffered?.isSome →
        (h.buffer.getDeviceData call).1.observedKeys = readEffectiveKeys call.loads.keys call.loads.nowMs) := by
  intro h
  have hok : h.Ok := run_ok cursor calls
  refine ⟨hok.data, hok.sequences, fun scan => ⟨?_, ?_⟩, fun call => ?_⟩
  · have hchain := isChain_levelsOf_edges (fun _ => false) h.observed scan
    rw [keyData_of_data hok.data scan, List.length_map]
    generalize levelsOf scan (edges (fun _ => false) h.observed) = l at hchain
    conv_lhs => rw [alternates_of_isChain hchain, List.map_map]
    refine List.map_congr_left fun i _ => ?_
    rw [Function.comp_apply]
    split <;> rfl
  · have hlast := getLast?_levelsOf (fun _ => false) (edges (fun _ => false) h.observed) scan
    rw [settle_edges] at hlast
    rw [hok.follows scan, ← hlast, keyData_of_data hok.data scan, List.getLast?_map]
    cases (levelsOf scan (edges (fun _ => false) h.observed)).getLast? with
    | none => rfl
    | some pressed => cases pressed <;> rfl
  · obtain ⟨hsynthetic, hbuffer⟩ := h.buffer.getDeviceData_spec call
    refine ⟨hsynthetic, ?_, fun hbuffered => ?_⟩
    · rw [hbuffer]
      split <;> rfl
    · obtain ⟨capacity, hcapacity⟩ := Option.isSome_iff_exists.mp hbuffered
      have hobserved : (h.buffer.observedFor call).observedKeys = readEffectiveKeys call.loads.keys call.loads.nowMs := by
        rw [BufferedKeyboardState.observedFor, hcapacity]
        exact BufferedKeyboardState.observe_observedKeys _ _ _
      rw [hbuffer]
      split
      · exact hobserved
      · exact hobserved

end History

end Stonemite.Trusik
