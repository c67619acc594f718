import Stonemite.Streamdeck.Client
import Stonemite.Lib.Run
import Stonemite.Lib.Since
import Stonemite.Lib.TreeMap

/-!
# The Mouse Clutch keys of the plugin

A key that is held down has a hold, which is begun, renewed while it is current and ended once. Replies and timers come
at any time, so that what they find may be another hold of the key, or none; the log says what was done and what happened
since. `Inv` is the invariant with one lemma for each event (`Inv.step`); `Disciplined` is what it says of the log, and
`clutch_disciplined` the result over runs.
-/

open Std

namespace Stonemite.Streamdeck

inductive ClutchCommand
  | begin
  | renew
  | finish
deriving DecidableEq, Repr

structure ClutchHold where
  accepted : Bool := false
  renewTimer : Option Nat := none
deriving DecidableEq, Repr

/-- A pending renewal. -/
structure ClutchTimer where
  handle : Nat
  key : Str
  hold : Str
deriving DecidableEq, Repr

/-- A command whose reply is awaited. -/
structure ClutchCall where
  command : ClutchCommand
  key : Str
  hold : Str
deriving DecidableEq, Repr

/-- `publish` is a change of the store that leaves the connection; `ready` says that the cell of the key is an available
clutch, as far as that does not depend on the connection; a reply is good when it says what its command asks for. -/
inductive ClutchEvent
  | appear (key : Str)
  | disappear (key : Str)
  | keyDown (key : Str) (ready : Bool) (hold : Str)
  | keyUp (key : Str)
  | connection (phase : ConnectionPhase)
  | publish
  | fire (timer : ClutchTimer)
  | reply (call : ClutchCall) (good : Bool)

/-- What was sent for a hold, and that the server took it. -/
inductive ClutchEntry
  | begun (key hold : Str)
  | renewed (hold : Str)
  | ended (hold : Str)
  | accepted (hold : Str)
  | refused (hold : Str)
  | lapsed (hold : Str)
  | released (key : Str)
  | disappeared (key : Str)
  | lost
deriving DecidableEq, Repr

/-- The part of the controller that the clutch keys use. A hold is known by its id, and stays in `holds` when its key has
dropped it. -/
structure ClutchKeys where
  connection : ConnectionPhase
  keys : List Str := []
  clutchHolds : ExtTreeMap Str Str := ∅
  holds : Str → ClutchHold := fun _ => {}
  timers : List ClutchTimer := []
  nextTimer : Nat := 0
  calls : List ClutchCall := []
  log : List ClutchEntry := []

namespace ClutchKeys

def record (s : ClutchKeys) (entry : ClutchEntry) : ClutchKeys := { s with log := s.log ++ [entry] }

def setHold (s : ClutchKeys) (hold : Str) (value : ClutchHold) : ClutchKeys :=
  { s with holds := fun other => if other = hold then value else s.holds other }

def clearTimeout (s : ClutchKeys) (handle : Nat) : ClutchKeys :=
  { s with timers := s.timers.filter fun timer => timer.handle ≠ handle }

/-- All holds are dropped with their timers, without a word to the server. -/
def forgetClutchHolds (s : ClutchKeys) : ClutchKeys :=
  let handles := s.clutchHolds.toList.filterMap fun entry => (s.holds entry.2).renewTimer
  { s with timers := s.timers.filter fun timer => timer.handle ∉ handles, clutchHolds := ∅ }

/-- The listener of the store, which every change of it calls. -/
def emit (s : ClutchKeys) : ClutchKeys := if s.connection ≠ .connected then s.forgetClutchHolds else s

/-- A command for a hold is sent. -/
def send (s : ClutchKeys) (command : ClutchCommand) (key hold : Str) : ClutchKeys :=
  let entry := match command with
    | .begin => .begun key hold
    | .renew => .renewed hold
    | .finish => .ended hold
  { s with calls := s.calls ++ [⟨command, key, hold⟩], log := s.log ++ [entry] }

/-- The renewal of an accepted hold that the key still has is due later. -/
def scheduleClutchRenewal (s : ClutchKeys) (key hold : Str) : ClutchKeys :=
  if (s.holds hold).accepted = false ∨ s.clutchHolds[key]? ≠ some hold ∨ s.connection ≠ .connected then s
  else
    let s := s.setHold hold { s.holds hold with renewTimer := some s.nextTimer }
    { s with timers := s.timers ++ [⟨s.nextTimer, key, hold⟩], nextTimer := s.nextTimer + 1 }

/-- A key begins a hold of its own. -/
def beginClutch (s : ClutchKeys) (key hold : Str) : ClutchKeys :=
  let s := s.setHold hold {}
  let s := { s with clutchHolds := s.clutchHolds.insert key hold }
  s.emit.send .begin key hold

/-- `#beginClutch` from its reply on. -/
def beginReplied (s : ClutchKeys) (key hold : Str) (good : Bool) : ClutchKeys :=
  if s.clutchHolds[key]? ≠ some hold then s
  else if good then
    (s.setHold hold { s.holds hold with accepted := true }).emit.scheduleClutchRenewal key hold
  else
    let s := { s with clutchHolds := s.clutchHolds.erase key }
    s.emit

/-- The hold of a key is ended and forgotten. -/
def releaseClutch (s : ClutchKeys) (key : Str) : ClutchKeys :=
  match s.clutchHolds[key]? with
  | none => s
  | some hold =>
    let s := { s with clutchHolds := s.clutchHolds.erase key }
    let s := match (s.holds hold).renewTimer with
      | some handle => s.clearTimeout handle
      | none => s
    s.emit.send .finish key hold

/-- The timer of a hold has fired. -/
def renewClutch (s : ClutchKeys) (key hold : Str) : ClutchKeys :=
  let s := s.setHold hold { s.holds hold with renewTimer := none }
  if s.clutchHolds[key]? ≠ some hold then s else s.send .renew key hold

/-- `#renewClutch` from its reply on. -/
def renewReplied (s : ClutchKeys) (key hold : Str) (good : Bool) : ClutchKeys :=
  if good then s.scheduleClutchRenewal key hold
  else if s.clutchHolds[key]? ≠ some hold then s
  else
    let s := { s with clutchHolds := s.clutchHolds.erase key }
    s.emit

/-- `clutch` says which actions are Mouse Clutch keys, by their manifest. -/
def onKeyDown (clutch : Str → Bool) (s : ClutchKeys) (key : Str) (ready : Bool) (hold : Str) : ClutchKeys :=
  if key ∉ s.keys then s
  else if clutch key then
    let available := decide (s.connection = .connected) && ready
    if !available || s.clutchHolds.contains key then s else s.beginClutch key hold
  else s

/-- What a reply says of its hold. -/
def replyEntry : ClutchCall → Bool → Option ClutchEntry
  | ⟨.begin, _, hold⟩, true => some (.accepted hold)
  | ⟨.begin, _, hold⟩, false => some (.refused hold)
  | ⟨.renew, _, hold⟩, false => some (.lapsed hold)
  | _, _ => none

/-- One event of the plugin, the server or the clock. -/
def step (clutch : Str → Bool) (s : ClutchKeys) : ClutchEvent → ClutchKeys
  | .appear key => if key ∈ s.keys then s else { s with keys := s.keys ++ [key] }
  | .disappear key =>
    let s := s.record (.disappeared key)
    let s := if key ∈ s.keys ∧ clutch key then s.releaseClutch key else s
    { s with keys := s.keys.filter (· ≠ key) }
  | .keyDown key ready hold => s.onKeyDown clutch key ready hold
  | .keyUp key =>
    let s := s.record (.released key)
    if key ∈ s.keys ∧ clutch key then s.releaseClutch key else s
  | .connection phase =>
    let s := if phase ≠ .connected then s.record .lost else s
    { s with connection := phase }.emit
  | .publish => s.emit
  | .fire timer =>
    if timer ∈ s.timers then
      { s with timers := s.timers.erase timer }.renewClutch timer.key timer.hold
    else s
  | .reply call good =>
    if call ∈ s.calls then
      let s := { s with calls := s.calls.erase call, log := s.log ++ (replyEntry call good).toList }
      match call.command with
      | .begin => s.beginReplied call.key call.hold good
      | .renew => s.renewReplied call.key call.hold good
      | .finish => s.emit
    else s

/-! ### The discipline -/

/-- What makes a key drop a hold. -/
def Drops (key hold : Str) : ClutchEntry → Prop
  | .released other => other = key
  | .disappeared other => other = key
  | .lost => True
  | .refused other => other = hold
  | .lapsed other => other = hold
  | _ => False

/-- The hold was begun for the key, which has not dropped it since. -/
def Live (key hold : Str) (log : List ClutchEntry) : Prop := Since (.begun key hold) (Drops key hold) log

/-- The holds that were begun, in order. -/
def begunHolds (log : List ClutchEntry) : List Str :=
  log.filterMap fun
    | .begun _ hold => some hold
    | _ => none

/-- The holds that were ended, in order. -/
def endedHolds (log : List ClutchEntry) : List Str :=
  log.filterMap fun
    | .ended hold => some hold
    | _ => none

/-- An id for a new hold is one that no hold has had. -/
def Fresh (s : ClutchKeys) : ClutchEvent → Prop
  | .keyDown _ _ hold => hold ∉ begunHolds s.log
  | _ => True

/-- What is required before an entry. -/
def Required (before : List ClutchEntry) : ClutchEntry → Prop
  | .begun key _ => ∀ other, ¬ Live key other before
  | .renewed hold => .accepted hold ∈ before ∧ ∃ key, Live key hold before
  | .ended hold => hold ∈ begunHolds before
  | _ => True

/-- What the log and the state of the keys show after every run. -/
structure Disciplined (s : ClutchKeys) : Prop where
  required : Throughout Required s.log
  begunOnce : (begunHolds s.log).Nodup
  endedOnce : (endedHolds s.log).Nodup
  holds : ∀ key hold : Str, s.clutchHolds[key]? = some hold → Live key hold s.log
  timers : ∀ timer ∈ s.timers, Live timer.key timer.hold s.log

/-! ### The invariant -/

/-- The pending timers of a hold and its commands that are awaited. -/
def activity (s : ClutchKeys) (hold : Str) : Nat :=
  s.timers.countP (fun timer => timer.hold = hold) +
    s.calls.countP fun call => call.command ≠ .finish ∧ call.hold = hold

/-- The invariant behind `Disciplined`, with what it says of the timers and of the requests that are still out. -/
structure Inv (clutch : Str → Bool) (s : ClutchKeys) : Prop where
  required : Throughout Required s.log
  begunOnce : (begunHolds s.log).Nodup
  endedOnce : (endedHolds s.log).Nodup
  offline : s.connection ≠ .connected → s.clutchHolds = ∅
  visible : ∀ key hold : Str, s.clutchHolds[key]? = some hold → key ∈ s.keys ∧ clutch key = true
  current : ∀ key hold : Str, s.clutchHolds[key]? = some hold ↔ Live key hold s.log
  timed : ∀ timer ∈ s.timers, s.clutchHolds[timer.key]? = some timer.hold ∧
    (s.holds timer.hold).renewTimer = some timer.handle ∧ .accepted timer.hold ∈ s.log
  active : ∀ hold, s.activity hold ≤ 1
  called : ∀ call ∈ s.calls, .begun call.key call.hold ∈ s.log
  accepts : ∀ hold, (s.holds hold).accepted = true → .accepted hold ∈ s.log
  ended : ∀ hold ∈ endedHolds s.log, hold ∈ begunHolds s.log ∧ ∀ key : Str, s.clutchHolds[key]? ≠ some hold

variable {clutch : Str → Bool} {s : ClutchKeys} {key hold : Str} {log : List ClutchEntry} {entry : ClutchEntry}

theorem Inv.disciplined (h : s.Inv clutch) : s.Disciplined where
  required := h.required
  begunOnce := h.begunOnce
  endedOnce := h.endedOnce
  holds key hold hcurrent := (h.current key hold).mp hcurrent
  timers timer htimer := (h.current _ _).mp (h.timed timer htimer).1

theorem mem_begunHolds : hold ∈ begunHolds log ↔ ∃ key, .begun key hold ∈ log := by
  unfold begunHolds
  rw [List.mem_filterMap]
  constructor
  · rintro ⟨entry, hentry, hsome⟩
    split at hsome
    · rename_i key _
      obtain rfl := Option.some.inj hsome
      exact ⟨key, hentry⟩
    · cases hsome
  · rintro ⟨key, hentry⟩
    exact ⟨_, hentry, rfl⟩

theorem begun_unique (hnodup : (begunHolds log).Nodup) {key' : Str} (h : .begun key hold ∈ log)
    (h' : .begun key' hold ∈ log) : key = key' := by
  induction log with
  | nil => cases h
  | cons entry log ih =>
    have htail : (begunHolds log).Nodup := hnodup.sublist ((List.sublist_cons_self _ _).filterMap _)
    have hfirst (a : Str) (hentry : .begun a hold = entry) (b : Str) : .begun b hold ∉ log := by
      subst hentry
      exact fun hb => (List.nodup_cons.mp hnodup).1 (mem_begunHolds.mpr ⟨b, hb⟩)
    rcases List.mem_cons.mp h with hhead | hmem <;> rcases List.mem_cons.mp h' with hhead' | hmem'
    · exact (ClutchEntry.begun.inj (hhead.trans hhead'.symm)).1
    · exact absurd hmem' (hfirst key hhead key')
    · exact absurd hmem (hfirst key' hhead' key)
    · exact ih htail hmem hmem'

theorem Live.begun (h : Live key hold log) : .begun key hold ∈ log := Since.mem h

theorem Inv.key_unique (h : s.Inv clutch) {key' : Str} (hcurrent : s.clutchHolds[key]? = some hold)
    (hbegun : .begun key' hold ∈ s.log) : key = key' :=
  begun_unique h.begunOnce ((h.current _ _).mp hcurrent).begun hbegun

theorem emit_eq (h : s.connection ≠ .connected → s.clutchHolds = ∅) : s.emit = s := by
  unfold emit
  split
  · rename_i hoff
    have hempty := h hoff
    have hnone : s.clutchHolds.toList = [] := by
      refine List.eq_nil_iff_forall_not_mem.mpr fun entry hentry => ?_
      have hlookup := ExtTreeMap.lookup_of_mem_toList hentry
      rw [hempty, ExtTreeMap.getElem?_empty] at hlookup
      cases hlookup
    unfold forgetClutchHolds
    rw [hnone, ← hempty]
    simp
  · rfl

/-- An entry that is no command. -/
def Plain : ClutchEntry → Prop
  | .begun _ _ | .renewed _ | .ended _ => False
  | _ => True

theorem Plain.lists (h : Plain entry) : begunHolds (log ++ [entry]) = begunHolds log ∧
    endedHolds (log ++ [entry]) = endedHolds log := by
  unfold begunHolds endedHolds
  rw [List.filterMap_append, List.filterMap_append]
  cases entry <;> first | exact ⟨List.append_nil _, List.append_nil _⟩ | exact h.elim

theorem Plain.required (h : Plain entry) (before : List ClutchEntry) : Required before entry := by
  cases entry <;> trivial

theorem Plain.live (h : Plain entry) : Live key hold (log ++ [entry]) ↔ Live key hold log ∧ ¬ Drops key hold entry := by
  unfold Live
  rw [since_append_singleton]
  refine ⟨fun hor => hor.resolve_left fun heq => ?_, .inr⟩
  subst heq
  exact h

theorem Inv.drop (h : s.Inv clutch) (hplain : Plain entry) {map : ExtTreeMap Str Str} {timers : List ClutchTimer}
    {calls : List ClutchCall} (hmap : ∀ key hold : Str, map[key]? = some hold ↔
      s.clutchHolds[key]? = some hold ∧ ¬ Drops key hold entry)
    (htimers : timers.Sublist s.timers) (hkept : ∀ timer ∈ timers, ¬ Drops timer.key timer.hold entry)
    (hcalls : calls.Sublist s.calls) {connection : ConnectionPhase} (hoffline : connection ≠ .connected → map = ∅) :
    Inv clutch { s with
      connection := connection, clutchHolds := map, timers := timers, calls := calls, log := s.log ++ [entry] } := by
  have hold' (key hold : Str) (hcurrent : map[key]? = some hold) := ((hmap key hold).mp hcurrent).1
  have hmem {e : ClutchEntry} (he : e ∈ s.log) : e ∈ s.log ++ [entry] := List.mem_append_left _ he
  refine ⟨throughout_append_singleton.mpr ⟨h.required, hplain.required _⟩, ?_, ?_, hoffline,
    fun key hold hcurrent => h.visible key hold (hold' key hold hcurrent), fun key hold => ?_, fun timer htimer => ?_,
    fun hold => ?_, fun call hcall => hmem (h.called call (hcalls.subset hcall)),
    fun hold haccepted => hmem (h.accepts hold haccepted), ?_⟩
  · rw [hplain.lists.1]
    exact h.begunOnce
  · rw [hplain.lists.2]
    exact h.endedOnce
  · rw [hplain.live, ← h.current]
    exact hmap key hold
  · obtain ⟨hcurrent, htimer', haccepted⟩ := h.timed timer (htimers.subset htimer)
    exact ⟨(hmap _ _).mpr ⟨hcurrent, hkept timer htimer⟩, htimer', hmem haccepted⟩
  · exact (Nat.add_le_add htimers.countP_le hcalls.countP_le).trans (h.active hold)
  · rw [hplain.lists.1, hplain.lists.2]
    exact fun hold hended => ⟨(h.ended hold hended).1, fun key hcurrent => (h.ended hold hended).2 key (hold' key hold hcurrent)⟩

theorem Inv.note (h : s.Inv clutch) (hplain : Plain entry)
    (hkept : ∀ key hold : Str, s.clutchHolds[key]? = some hold → ¬ Drops key hold entry) :
    Inv clutch (s.record entry) :=
  h.drop hplain (fun key hold => (and_iff_left_of_imp (hkept key hold)).symm) (.refl _)
    (fun timer htimer => hkept _ _ (h.timed timer htimer).1) (.refl _) h.offline

theorem Inv.setHold (h : s.Inv clutch) {value : ClutchHold} (haccepts : value.accepted = true → .accepted hold ∈ s.log)
    (htimed : ∀ timer ∈ s.timers, timer.hold = hold → value.renewTimer = some timer.handle) :
    Inv clutch (s.setHold hold value) := by
  refine ⟨h.required, h.begunOnce, h.endedOnce, h.offline, h.visible, h.current, fun timer htimer => ?_, h.active, h.called,
    fun other hother => ?_, h.ended⟩
  · obtain ⟨hcurrent, hhandle, haccepted⟩ := h.timed timer htimer
    refine ⟨hcurrent, ?_, haccepted⟩
    unfold ClutchKeys.setHold
    dsimp only
    split
    · rename_i heq
      exact htimed timer htimer heq
    · exact hhandle
  · unfold ClutchKeys.setHold at hother
    dsimp only at hother
    split at hother
    · rename_i heq
      rw [heq]
      exact haccepts hother
    · exact h.accepts other hother

theorem ne_of_quiet (hquiet : s.activity hold = 0) : ∀ timer ∈ s.timers, timer.hold ≠ hold := by
  have hcount : s.timers.countP (fun timer => timer.hold = hold) = 0 := Nat.le_zero.mp (hquiet ▸ Nat.le_add_right _ _)
  intro timer htimer heq
  exact List.countP_eq_zero.mp hcount timer htimer (decide_eq_true heq)

theorem Inv.schedule (h : s.Inv clutch) (hquiet : s.activity hold = 0) :
    Inv clutch (s.scheduleClutchRenewal key hold) := by
  unfold scheduleClutchRenewal
  split
  · exact h
  · rename_i hgo
    rw [not_or, not_or, not_not, not_not, Bool.not_eq_false] at hgo
    obtain ⟨haccepted, hcurrent, hconnected⟩ := hgo
    have hset : Inv clutch (s.setHold hold { s.holds hold with renewTimer := some s.nextTimer }) :=
      h.setHold (h.accepts hold) fun timer htimer heq => absurd heq (ne_of_quiet hquiet timer htimer)
    refine ⟨hset.required, hset.begunOnce, hset.endedOnce, hset.offline, hset.visible, hset.current, fun timer htimer => ?_,
      fun other => ?_, hset.called, hset.accepts, hset.ended⟩
    · rcases List.mem_append.mp htimer with htimer | htimer
      · exact hset.timed timer htimer
      · obtain rfl := List.mem_singleton.mp htimer
        exact ⟨hcurrent, by simp [ClutchKeys.setHold], h.accepts hold haccepted⟩
    · by_cases heq : hold = other
      · subst heq
        unfold activity at hquiet ⊢
        dsimp only [ClutchKeys.setHold]
        rw [List.countP_append, List.countP_singleton, if_pos (decide_eq_true rfl)]
        omega
      · have hle := h.active other
        unfold activity at hle ⊢
        dsimp only [ClutchKeys.setHold]
        rw [List.countP_append, List.countP_singleton, if_neg (by simpa using heq)]
        exact hle

theorem live_quiet (hbegun : ∀ key hold, entry ≠ .begun key hold) (hdrops : ¬ Drops key hold entry) :
    Live key hold (log ++ [entry]) ↔ Live key hold log := since_append_of_ne (hbegun key hold) hdrops

theorem Inv.renew (h : s.Inv clutch) (hcurrent : s.clutchHolds[key]? = some hold) (hquiet : s.activity hold = 0)
    (haccepted : .accepted hold ∈ s.log) : Inv clutch (s.send .renew key hold) := by
  have hlive := (h.current key hold).mp hcurrent
  have hmem {e : ClutchEntry} (he : e ∈ s.log) : e ∈ s.log ++ [ClutchEntry.renewed hold] := List.mem_append_left _ he
  have hbegun : begunHolds (s.log ++ [ClutchEntry.renewed hold]) = begunHolds s.log := by
    unfold begunHolds
    rw [List.filterMap_append]
    exact List.append_nil _
  have hended : endedHolds (s.log ++ [ClutchEntry.renewed hold]) = endedHolds s.log := by
    unfold endedHolds
    rw [List.filterMap_append]
    exact List.append_nil _
  refine ⟨throughout_append_singleton.mpr ⟨h.required, haccepted, key, hlive⟩, hbegun ▸ h.begunOnce, hended ▸ h.endedOnce,
    h.offline, h.visible, fun key' hold' => ?_, fun timer htimer => ?_, fun other => ?_, fun call hcall => ?_,
    fun other hother => hmem (h.accepts other hother), ?_⟩
  · exact (h.current key' hold').trans (live_quiet (fun _ _ => by nofun) id).symm
  · obtain ⟨hcur, hhandle, hacc⟩ := h.timed timer htimer
    exact ⟨hcur, hhandle, hmem hacc⟩
  · by_cases heq : hold = other
    · subst heq
      unfold activity at hquiet ⊢
      dsimp only [send]
      rw [List.countP_append, List.countP_singleton, if_pos (by simp)]
      omega
    · have hle := h.active other
      unfold activity at hle ⊢
      dsimp only [send]
      rw [List.countP_append, List.countP_singleton, if_neg (by simpa using heq)]
      exact hle
  · rcases List.mem_append.mp hcall with hcall | hcall
    · exact hmem (h.called call hcall)
    · rw [List.mem_singleton.mp hcall]
      exact hmem hlive.begun
  · show ∀ other ∈ endedHolds (s.log ++ [ClutchEntry.renewed hold]), other ∈ begunHolds (s.log ++ [ClutchEntry.renewed hold]) ∧ _
    rw [hbegun, hended]
    exact h.ended

theorem Inv.finish (h : s.Inv clutch) (hlog : .begun key hold ∈ s.log)
    (hgone : ∀ key : Str, s.clutchHolds[key]? ≠ some hold) (hopen : hold ∉ endedHolds s.log) :
    Inv clutch (s.send .finish key hold) := by
  have hmem {e : ClutchEntry} (he : e ∈ s.log) : e ∈ s.log ++ [ClutchEntry.ended hold] := List.mem_append_left _ he
  have hbegun : begunHolds (s.log ++ [ClutchEntry.ended hold]) = begunHolds s.log := by
    unfold begunHolds
    rw [List.filterMap_append]
    exact List.append_nil _
  have hended : endedHolds (s.log ++ [ClutchEntry.ended hold]) = endedHolds s.log ++ [hold] := by
    unfold endedHolds
    rw [List.filterMap_append]
    rfl
  have hmember : hold ∈ begunHolds s.log := mem_begunHolds.mpr ⟨key, hlog⟩
  refine ⟨throughout_append_singleton.mpr ⟨h.required, hmember⟩, hbegun ▸ h.begunOnce, ?_, h.offline, h.visible,
    fun key' hold' => ?_, fun timer htimer => ?_, fun other => ?_, fun call hcall => ?_,
    fun other hother => hmem (h.accepts other hother), ?_⟩
  · show (endedHolds (s.log ++ [ClutchEntry.ended hold])).Nodup
    rw [hended]
    exact List.nodup_append.mpr ⟨h.endedOnce, List.nodup_singleton _, fun a ha b hb heq =>
      hopen (List.mem_singleton.mp hb ▸ heq ▸ ha)⟩
  · exact (h.current key' hold').trans (live_quiet (fun _ _ => by nofun) id).symm
  · obtain ⟨hcur, hhandle, hacc⟩ := h.timed timer htimer
    exact ⟨hcur, hhandle, hmem hacc⟩
  · have hle := h.active other
    unfold activity at hle ⊢
    dsimp only [send]
    rw [List.countP_append, List.countP_singleton, if_neg (by simp)]
    exact hle
  · rcases List.mem_append.mp hcall with hcall | hcall
    · exact hmem (h.called call hcall)
    · rw [List.mem_singleton.mp hcall]
      exact hmem hlog
  · show ∀ other ∈ endedHolds (s.log ++ [ClutchEntry.ended hold]), other ∈ begunHolds (s.log ++ [ClutchEntry.ended hold]) ∧ _
    rw [hbegun, hended]
    intro other hother
    rcases List.mem_append.mp hother with hother | hother
    · exact h.ended other hother
    · rw [List.mem_singleton.mp hother]
      exact ⟨hmember, hgone⟩

/-! ### Steps -/

theorem Inv.quiet_of_fresh (h : s.Inv clutch) (hfresh : hold ∉ begunHolds s.log) : s.activity hold = 0 := by
  unfold activity
  rw [Nat.add_eq_zero_iff, List.countP_eq_zero, List.countP_eq_zero]
  constructor
  · intro timer htimer heq
    have hlive := (h.current _ _).mp (h.timed timer htimer).1
    exact hfresh (mem_begunHolds.mpr ⟨timer.key, of_decide_eq_true heq ▸ hlive.begun⟩)
  · intro call hcall heq
    exact hfresh (mem_begunHolds.mpr ⟨call.key, (of_decide_eq_true heq).2 ▸ h.called call hcall⟩)

theorem Inv.beginClutch (h : s.Inv clutch) (hconnected : s.connection = .connected) (hvisible : key ∈ s.keys ∧ clutch key = true)
    (hnone : s.clutchHolds[key]? = none) (hfresh : hold ∉ begunHolds s.log) : Inv clutch (s.beginClutch key hold) := by
  have hquiet := h.quiet_of_fresh hfresh
  have hfree (other : Str) : ¬ Live key other s.log := fun hlive => by
    have := (h.current key other).mpr hlive
    rw [hnone] at this
    cases this
  have hset : Inv clutch (s.setHold hold {}) :=
    h.setHold nofun fun timer htimer heq => absurd heq (ne_of_quiet hquiet timer htimer)
  have hmem {e : ClutchEntry} (he : e ∈ s.log) : e ∈ s.log ++ [ClutchEntry.begun key hold] := List.mem_append_left _ he
  have hbegun : begunHolds (s.log ++ [ClutchEntry.begun key hold]) = begunHolds s.log ++ [hold] := by
    unfold begunHolds
    rw [List.filterMap_append]
    rfl
  have hended : endedHolds (s.log ++ [ClutchEntry.begun key hold]) = endedHolds s.log := by
    unfold endedHolds
    rw [List.filterMap_append]
    exact List.append_nil _
  have hemit : ({ s.setHold hold {} with clutchHolds := s.clutchHolds.insert key hold } : ClutchKeys).emit =
      { s.setHold hold {} with clutchHolds := s.clutchHolds.insert key hold } := if_neg (not_not.mpr hconnected)
  have hlookup (key' : Str) : (s.clutchHolds.insert key hold)[key']? =
      if key = key' then some hold else s.clutchHolds[key']? := ExtTreeMap.getElem?_insert_ite key key' hold
  show Inv clutch (ClutchKeys.send ({ s.setHold hold {} with clutchHolds := s.clutchHolds.insert key hold } : ClutchKeys).emit
    .begin key hold)
  rw [hemit]
  refine ⟨throughout_append_singleton.mpr ⟨h.required, hfree⟩, ?_, hended ▸ h.endedOnce,
    fun hoff => absurd hconnected hoff, fun key' hold' hcur => ?_, fun key' hold' => ?_, fun timer htimer => ?_,
    fun other => ?_, fun call hcall => ?_, fun other hother => hmem (hset.accepts other hother), ?_⟩
  · show (begunHolds (s.log ++ [ClutchEntry.begun key hold])).Nodup
    rw [hbegun]
    exact List.nodup_append.mpr ⟨h.begunOnce, List.nodup_singleton _, fun a ha b hb heq =>
      hfresh (List.mem_singleton.mp hb ▸ heq ▸ ha)⟩
  · replace hcur : (s.clutchHolds.insert key hold)[key']? = some hold' := hcur
    rw [hlookup] at hcur
    split at hcur
    · rename_i heq
      exact heq ▸ hvisible
    · exact h.visible key' hold' hcur
  · show (s.clutchHolds.insert key hold)[key']? = some hold' ↔ Since _ _ (s.log ++ [ClutchEntry.begun key hold])
    rw [hlookup, since_append_singleton]
    split
    · rename_i heq
      subst heq
      constructor
      · intro hcur
        rw [Option.some.inj hcur]
        exact .inl rfl
      · rintro (heq | ⟨hlive, -⟩)
        · rw [(ClutchEntry.begun.inj heq).2]
        · exact absurd hlive (hfree hold')
    · rename_i hne
      rw [h.current]
      exact ⟨fun hlive => .inr ⟨hlive, id⟩, fun hor =>
        (hor.resolve_left fun heq => hne (ClutchEntry.begun.inj heq).1).1⟩
  · obtain ⟨hcur, hhandle, hacc⟩ := hset.timed timer htimer
    refine ⟨?_, hhandle, hmem hacc⟩
    show (s.clutchHolds.insert key hold)[timer.key]? = some timer.hold
    rw [hlookup, if_neg]
    · exact hcur
    · intro heq
      have hcur' : s.clutchHolds[timer.key]? = some timer.hold := hcur
      rw [← heq, hnone] at hcur'
      cases hcur'
  · by_cases heq : hold = other
    · subst heq
      unfold activity at hquiet ⊢
      dsimp only [send, ClutchKeys.setHold]
      rw [List.countP_append, List.countP_singleton, if_pos (by simp)]
      omega
    · have hle := h.active other
      unfold activity at hle ⊢
      dsimp only [send, ClutchKeys.setHold]
      rw [List.countP_append, List.countP_singleton, if_neg (by simpa using heq)]
      exact hle
  · rcases List.mem_append.mp hcall with hcall | hcall
    · exact hmem (h.called call hcall)
    · rw [List.mem_singleton.mp hcall]
      exact List.mem_append_right _ (List.mem_singleton.mpr rfl)
  · show ∀ other ∈ endedHolds (s.log ++ [ClutchEntry.begun key hold]), other ∈ begunHolds (s.log ++ [ClutchEntry.begun key hold]) ∧
      ∀ key' : Str, (s.clutchHolds.insert key hold)[key']? ≠ some other
    rw [hbegun, hended]
    intro other hother
    obtain ⟨hold', hgone⟩ := h.ended other hother
    refine ⟨List.mem_append_left _ hold', fun key' hcur => ?_⟩
    rw [hlookup] at hcur
    split at hcur
    · rw [Option.some.inj hcur] at hfresh
      exact hfresh hold'
    · exact hgone key' hcur

theorem emit_state_eq {connection : ConnectionPhase} {keys : List Str} {map : ExtTreeMap Str Str} {holds : Str → ClutchHold}
    {timers : List ClutchTimer} {nextTimer : Nat} {calls : List ClutchCall} {log : List ClutchEntry}
    (h : connection ≠ .connected → map = ∅) :
    emit ⟨connection, keys, map, holds, timers, nextTimer, calls, log⟩ =
      ⟨connection, keys, map, holds, timers, nextTimer, calls, log⟩ := emit_eq h

theorem erase_empty (h : s.Inv clutch) (key : Str) (hoff : s.connection ≠ .connected) : s.clutchHolds.erase key = ∅ := by
  refine ExtTreeMap.ext_getElem? fun other => ?_
  rw [ExtTreeMap.getElem?_erase_ite, h.offline hoff]
  split <;> simp

/-- The key is let go of, by an entry that drops its hold and no other. -/
theorem Inv.releaseClutch (h : s.Inv clutch) (hplain : Plain entry)
    (hdrops : ∀ key' hold : Str, s.clutchHolds[key']? = some hold → (Drops key' hold entry ↔ key' = key)) :
    Inv clutch ((s.record entry).releaseClutch key) := by
  unfold ClutchKeys.releaseClutch record
  dsimp only
  cases hcur : s.clutchHolds[key]? with
  | none =>
    dsimp only
    refine h.note hplain fun key' hold' hcur' hdrop => ?_
    rw [(hdrops key' hold' hcur').mp hdrop, hcur] at hcur'
    cases hcur'
  | some hold =>
    dsimp only
    have hlive := (h.current key hold).mp hcur
    have hmap (key' hold' : Str) : (s.clutchHolds.erase key)[key']? = some hold' ↔
        s.clutchHolds[key']? = some hold' ∧ ¬ Drops key' hold' entry := by
      rw [ExtTreeMap.getElem?_erase_ite]
      split
      · rename_i heq
        refine ⟨nofun, fun ⟨hcur', hkept⟩ => ?_⟩
        exact absurd ((hdrops key' hold' hcur').mpr heq.symm) hkept
      · rename_i hne
        exact ⟨fun hcur' => ⟨hcur', fun hdrop => hne ((hdrops key' hold' hcur').mp hdrop).symm⟩, And.left⟩
    have hoff : s.connection ≠ .connected → s.clutchHolds.erase key = ∅ := erase_empty h key
    have hgone (key' : Str) : (s.clutchHolds.erase key)[key']? ≠ some hold := by
      rw [ExtTreeMap.getElem?_erase_ite]
      split
      · nofun
      · rename_i hne
        exact fun hcur' => hne (h.key_unique hcur' hlive.begun).symm
    have hopen : hold ∉ endedHolds (s.log ++ [entry]) := by
      rw [hplain.lists.2]
      exact fun hended => (h.ended hold hended).2 key hcur
    have hlog : .begun key hold ∈ s.log ++ [entry] := List.mem_append_left _ hlive.begun
    -- a timer of the key is one of its hold
    have htimer (timer : ClutchTimer) (htimer : timer ∈ s.timers) (hdrop : Drops timer.key timer.hold entry) :
        (s.holds hold).renewTimer = some timer.handle := by
      obtain ⟨hcur', hhandle, -⟩ := h.timed timer htimer
      have hkey := (hdrops _ _ hcur').mp hdrop
      rw [hkey, hcur] at hcur'
      rw [Option.some.inj hcur']
      exact hhandle
    cases hhandle : (s.holds hold).renewTimer with
    | none =>
      dsimp only
      rw [emit_state_eq hoff]
      refine (h.drop hplain hmap (.refl _) (fun timer hmem hdrop => ?_) (.refl _) hoff).finish hlog hgone hopen
      have := htimer timer hmem hdrop
      rw [hhandle] at this
      cases this
    | some handle =>
      dsimp only [clearTimeout]
      rw [emit_state_eq hoff]
      refine (h.drop hplain hmap List.filter_sublist (fun timer hmem hdrop => ?_) (.refl _) hoff).finish hlog hgone hopen
      obtain ⟨hmem, hne⟩ := List.mem_filter.mp hmem
      have hsame := htimer timer hmem hdrop
      rw [hhandle] at hsame
      exact of_decide_eq_true hne (Option.some.inj hsame).symm

theorem Inv.showing (h : s.Inv clutch) {keys : List Str}
    (hkeys : ∀ key hold : Str, s.clutchHolds[key]? = some hold → key ∈ keys) : Inv clutch { s with keys := keys } :=
  ⟨h.required, h.begunOnce, h.endedOnce, h.offline, fun key hold hcur => ⟨hkeys key hold hcur, (h.visible key hold hcur).2⟩,
    h.current, h.timed, h.active, h.called, h.accepts, h.ended⟩

theorem releaseClutch_lookup (hoff : s.connection ≠ .connected → s.clutchHolds = ∅) :
    (s.releaseClutch key).clutchHolds[key]? = none := by
  unfold ClutchKeys.releaseClutch
  cases hcur : s.clutchHolds[key]? with
  | none => exact hcur
  | some hold =>
    have herase : s.connection ≠ .connected → s.clutchHolds.erase key = ∅ := by
      intro h
      rw [hoff h] at hcur
      simp at hcur
    dsimp only
    cases (s.holds hold).renewTimer with
    | none =>
      dsimp only
      rw [emit_state_eq herase]
      simp [send]
    | some handle =>
      dsimp only [clearTimeout]
      rw [emit_state_eq herase]
      simp [send]

theorem Inv.keyUp (h : s.Inv clutch) (key : Str) : Inv clutch (s.step clutch (.keyUp key)) := by
  show Inv clutch (if key ∈ s.keys ∧ clutch key = true then (s.record (.released key)).releaseClutch key
    else s.record (.released key))
  split
  · exact h.releaseClutch trivial fun key' _ _ => eq_comm
  · rename_i hhidden
    refine h.note trivial fun key' hold hcur hdrop => hhidden ?_
    have hkey : key = key' := hdrop
    exact hkey ▸ h.visible key' hold hcur

theorem Inv.disappear (h : s.Inv clutch) (key : Str) : Inv clutch (s.step clutch (.disappear key)) := by
  show Inv clutch
    { (if key ∈ s.keys ∧ clutch key = true then (s.record (.disappeared key)).releaseClutch key
        else s.record (.disappeared key)) with
      keys := (if key ∈ s.keys ∧ clutch key = true then (s.record (.disappeared key)).releaseClutch key
        else s.record (.disappeared key)).keys.filter (· ≠ key) }
  have hkeys {t : ClutchKeys} (ht : t.Inv clutch) (hnone : t.clutchHolds[key]? = none) :
      Inv clutch { t with keys := t.keys.filter (· ≠ key) } := by
    refine ht.showing fun key' hold hcur => List.mem_filter.mpr ⟨(ht.visible key' hold hcur).1, decide_eq_true ?_⟩
    rintro rfl
    rw [hnone] at hcur
    cases hcur
  split
  · exact hkeys (h.releaseClutch trivial fun key' _ _ => eq_comm) (releaseClutch_lookup h.offline)
  · rename_i hhidden
    have hnone : s.clutchHolds[key]? = none := by
      cases hcur : s.clutchHolds[key]? with
      | none => rfl
      | some hold => exact absurd (h.visible key hold hcur) hhidden
    refine hkeys (h.note trivial fun key' hold hcur hdrop => ?_) hnone
    have hkey : key = key' := hdrop
    rw [← hkey, hnone] at hcur
    cases hcur

theorem Inv.connect (h : s.Inv clutch) (phase : ConnectionPhase) : Inv clutch (s.step clutch (.connection phase)) := by
  by_cases hphase : phase = .connected
  · subst hphase
    exact ⟨h.required, h.begunOnce, h.endedOnce, fun hoff => absurd rfl hoff, h.visible, h.current, h.timed, h.active, h.called,
      h.accepts, h.ended⟩
  · have hstep : s.step clutch (.connection phase) = { s with
        connection := phase, clutchHolds := ∅, log := s.log ++ [ClutchEntry.lost]
        timers := s.timers.filter fun timer =>
          timer.handle ∉ s.clutchHolds.toList.filterMap fun entry => (s.holds entry.2).renewTimer } := by
      simp only [step, if_pos hphase, record, emit, forgetClutchHolds]
    have hplain : Plain .lost := trivial
    rw [hstep]
    refine h.drop hplain (fun key hold => ?_) List.filter_sublist (fun timer htimer _ => ?_) (.refl _) fun _ => rfl
    · rw [ExtTreeMap.getElem?_empty]
      exact ⟨nofun, fun hcur => absurd trivial hcur.2⟩
    · obtain ⟨hmem, hkept⟩ := List.mem_filter.mp htimer
      obtain ⟨hcur, hhandle, -⟩ := h.timed timer hmem
      refine of_decide_eq_true hkept (List.mem_filterMap.mpr ⟨_, ExtTreeMap.mem_toList_of_lookup hcur, hhandle⟩)

theorem Inv.fewer (h : s.Inv clutch) {timers : List ClutchTimer} {calls : List ClutchCall} (htimers : timers.Sublist s.timers)
    (hcalls : calls.Sublist s.calls) : Inv clutch { s with timers := timers, calls := calls } :=
  ⟨h.required, h.begunOnce, h.endedOnce, h.offline, h.visible, h.current, fun timer htimer => h.timed timer (htimers.subset htimer),
    fun hold => (Nat.add_le_add htimers.countP_le hcalls.countP_le).trans (h.active hold),
    fun call hcall => h.called call (hcalls.subset hcall), h.accepts, h.ended⟩

theorem Inv.fire (h : s.Inv clutch) (timer : ClutchTimer) : Inv clutch (s.step clutch (.fire timer)) := by
  simp only [step]
  split
  · rename_i hmem
    obtain ⟨hcur, -, haccepted⟩ := h.timed timer hmem
    have hquiet : activity { s with timers := s.timers.erase timer } timer.hold = 0 := by
      have hle := h.active timer.hold
      unfold activity at hle ⊢
      rw [(List.perm_cons_erase hmem).countP_eq, List.countP_cons, if_pos (decide_eq_true rfl)] at hle
      dsimp only
      omega
    have hfewer : Inv clutch { s with timers := s.timers.erase timer } := h.fewer List.erase_sublist (.refl _)
    have hset : Inv clutch (ClutchKeys.setHold { s with timers := s.timers.erase timer } timer.hold
        { s.holds timer.hold with renewTimer := none }) :=
      hfewer.setHold (h.accepts timer.hold) fun other hother heq => absurd heq (ne_of_quiet hquiet other hother)
    unfold renewClutch
    dsimp only
    split
    · rename_i hgone
      exact absurd hcur hgone
    · exact hset.renew hcur hquiet haccepted
  · exact h

theorem Inv.quiet_of_reply (h : s.Inv clutch) {call : ClutchCall} (hcall : call ∈ s.calls) (hkind : call.command ≠ .finish) :
    activity { s with calls := s.calls.erase call } call.hold = 0 := by
  have hle := h.active call.hold
  unfold activity at hle ⊢
  rw [(List.perm_cons_erase hcall).countP_eq, List.countP_cons, if_pos (by simpa using hkind)] at hle
  dsimp only
  omega

theorem Inv.fail (h : s.Inv clutch) {call : ClutchCall} (hcall : call ∈ s.calls) (hkind : call.command ≠ .finish)
    (hplain : Plain entry) (hdrops : ∀ key hold, Drops key hold entry ↔ hold = call.hold) :
    Inv clutch (if s.clutchHolds[call.key]? ≠ some call.hold then
        { s with calls := s.calls.erase call, log := s.log ++ [entry] }
      else ({ s with calls := s.calls.erase call, log := s.log ++ [entry]
                     clutchHolds := s.clutchHolds.erase call.key } : ClutchKeys).emit) := by
  have hquiet := h.quiet_of_reply hcall hkind
  have htimers (timer : ClutchTimer) (hmem : timer ∈ s.timers) : ¬ Drops timer.key timer.hold entry := fun hdrop =>
    ne_of_quiet hquiet timer hmem ((hdrops _ _).mp hdrop)
  split
  · rename_i hgone
    refine h.drop hplain (fun key hold => (and_iff_left_of_imp fun hcur hdrop => ?_).symm) (.refl _) htimers List.erase_sublist
      h.offline
    have hhold := (hdrops _ _).mp hdrop
    subst hhold
    exact hgone (h.key_unique hcur (h.called call hcall) ▸ hcur)
  · rename_i hcur
    rw [not_not] at hcur
    have hoff : s.connection ≠ .connected → s.clutchHolds.erase call.key = ∅ := erase_empty h call.key
    rw [emit_state_eq hoff]
    refine h.drop hplain (fun key hold => ?_) (.refl _) htimers List.erase_sublist hoff
    rw [ExtTreeMap.getElem?_erase_ite, hdrops]
    split
    · rename_i heq
      subst heq
      rw [hcur]
      exact ⟨nofun, fun ⟨hsome, hne⟩ => absurd (Option.some.inj hsome).symm hne⟩
    · rename_i hne
      refine ⟨fun hcur' => ⟨hcur', ?_⟩, And.left⟩
      rintro rfl
      exact hne (h.key_unique hcur' (h.called call hcall)).symm

theorem Inv.reply (h : s.Inv clutch) (call : ClutchCall) (good : Bool) : Inv clutch (s.step clutch (.reply call good)) := by
  simp only [step]
  split
  · rename_i hcall
    have hfewer : Inv clutch { s with calls := s.calls.erase call } := h.fewer (.refl _) List.erase_sublist
    obtain ⟨command, key, hold⟩ := call
    cases command with
    | begin =>
      have hquiet := h.quiet_of_reply hcall nofun
      cases good with
      | true =>
        have hnote : Inv clutch { s with calls := s.calls.erase ⟨.begin, key, hold⟩, log := s.log ++ [ClutchEntry.accepted hold] } :=
          hfewer.note trivial fun _ _ _ hdrop => hdrop
        dsimp only [replyEntry, Option.toList]
        unfold beginReplied
        split
        · exact hnote
        · rw [if_pos rfl]
          have hset : Inv clutch (ClutchKeys.setHold
              { s with calls := s.calls.erase ⟨.begin, key, hold⟩, log := s.log ++ [ClutchEntry.accepted hold] } hold
              { s.holds hold with accepted := true }) :=
            hnote.setHold (fun _ => List.mem_append_right _ (List.mem_singleton.mpr rfl))
              fun timer htimer heq => absurd heq (ne_of_quiet hquiet timer htimer)
          rw [emit_eq hset.offline]
          exact hset.schedule hquiet
      | false =>
        have hfail := @Inv.fail clutch s (.refused hold) h _ hcall nofun trivial fun _ _ => eq_comm
        dsimp only [replyEntry, Option.toList]
        unfold beginReplied
        simpa only [Bool.false_eq_true, if_false] using hfail
    | renew =>
      have hquiet := h.quiet_of_reply hcall nofun
      cases good with
      | true =>
        dsimp only [replyEntry, Option.toList]
        rw [List.append_nil]
        unfold renewReplied
        rw [if_pos rfl]
        exact hfewer.schedule hquiet
      | false =>
        have hfail := @Inv.fail clutch s (.lapsed hold) h _ hcall nofun trivial fun _ _ => eq_comm
        dsimp only [replyEntry, Option.toList]
        unfold renewReplied
        simpa only [Bool.false_eq_true, if_false] using hfail
    | finish =>
      have hnone : (replyEntry ⟨.finish, key, hold⟩ good).toList = [] := by cases good <;> rfl
      dsimp only
      rw [hnone, List.append_nil, emit_eq hfewer.offline]
      exact hfewer
  · exact h

theorem Inv.step (h : s.Inv clutch) {event : ClutchEvent} (hfresh : s.Fresh event) : Inv clutch (s.step clutch event) := by
  cases event with
  | appear key =>
    simp only [ClutchKeys.step]
    split
    · exact h
    · exact h.showing fun key' hold hcur => List.mem_append_left _ (h.visible key' hold hcur).1
  | disappear key => exact h.disappear key
  | keyDown key ready hold =>
    simp only [ClutchKeys.step, onKeyDown]
    split
    · exact h
    · rename_i hshown
      split
      · rename_i hclutch
        split
        · exact h
        · rename_i hgo
          rw [Bool.or_eq_true, not_or, Bool.not_eq_true, Bool.not_eq_true, Bool.not_eq_false', Bool.and_eq_true,
            decide_eq_true_eq] at hgo
          obtain ⟨⟨hconnected, -⟩, hnone⟩ := hgo
          exact h.beginClutch hconnected ⟨not_not.mp hshown, hclutch⟩ (ExtTreeMap.contains_eq_false_iff.mp hnone) hfresh
      · exact h
  | keyUp key => exact h.keyUp key
  | connection phase => exact h.connect phase
  | publish =>
    show Inv clutch s.emit
    rw [emit_eq h.offline]
    exact h
  | fire timer => exact h.fire timer
  | reply call good => exact h.reply call good

theorem Inv.start (phase : ConnectionPhase) : Inv clutch { connection := phase } := by
  refine ⟨throughout_nil, .nil, .nil, fun _ => rfl, fun key hold hcur => ?_, fun key hold => ?_, nofun, fun _ => Nat.zero_le _,
    nofun, nofun, nofun⟩
  · rw [ExtTreeMap.getElem?_empty] at hcur
    cases hcur
  · rw [ExtTreeMap.getElem?_empty]
    exact ⟨nofun, fun hlive => absurd hlive not_since_nil⟩

/-- In any order of what happens, a hold is begun only for a key that has none, once, and ended at most once; it is renewed only
when its begin was accepted and its key has not dropped it; and only the hold that a key has now has a timer. -/
theorem clutch_disciplined (clutch : Str → Bool) (phase : ConnectionPhase) (events : List ClutchEvent)
    (hfresh : Along Fresh (ClutchKeys.step clutch) { connection := phase } events) :
    (events.foldl (ClutchKeys.step clutch) { connection := phase }).Disciplined :=
  (hfresh.invariant (fun _ _ hinv hevent => Inv.step hinv hevent) (Inv.start phase)).disciplined

end ClutchKeys

namespace Clutch

/-- The key is released while its first renewal is awaited, and pressed again before the reply comes. -/
def events : List ClutchEvent :=
  [.appear ['k'], .connection .connected, .keyDown ['k'] true ['a'], .reply ⟨.begin, ['k'], ['a']⟩ true,
    .fire ⟨0, ['k'], ['a']⟩, .keyUp ['k'], .keyDown ['k'] true ['b'], .reply ⟨.renew, ['k'], ['a']⟩ true,
    .reply ⟨.begin, ['k'], ['b']⟩ true]

/-- The first events of the run, with every key one of the Mouse Clutch. -/
def run (n : Nat) : ClutchKeys := (events.take n).foldl (ClutchKeys.step fun _ => true) { connection := .connecting }

theorem fresh : Along ClutchKeys.Fresh (ClutchKeys.step fun _ => true) { connection := .connecting } events := by
  have hfirst : ['a'] ∉ ClutchKeys.begunHolds (run 2).log := by decide +kernel
  have hsecond : ['b'] ∉ ClutchKeys.begunHolds (run 6).log := by decide +kernel
  exact ⟨trivial, trivial, hfirst, trivial, trivial, trivial, hsecond, trivial, trivial, trivial⟩

end Clutch

theorem ClutchKeys.press_again_disciplined :
    Disciplined (Clutch.run 9) ∧ (Clutch.run 9).timers = [⟨1, ['k'], ['b']⟩] :=
  ⟨clutch_disciplined (fun _ => true) .connecting Clutch.events Clutch.fresh, by decide +kernel⟩

end Stonemite.Streamdeck
