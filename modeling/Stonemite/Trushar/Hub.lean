import Stonemite.Trushar.State
import Stonemite.Lib.Run

/-!
# Revisions on a control connection

The hub and one connection, in single steps: what holds the hub's lock, what reads the watch channel and what is sent may
be interleaved with the publishes of other tasks in any order. A step that has to wait changes nothing. `Ordered` is the
invariant of the written revisions (`run_ordered`), `Heard` that of a connection that is not left waiting (`run_heard`);
`revisions_ordered` has both.
-/

namespace Stonemite.Trushar

/-- The hub: its state, the value and the version of its watch channel, and whether a publish holds the lock between
the two. -/
structure StateHub where
  current : StateSnapshot
  watched : StateSnapshot
  version : Nat
  locked : Bool
deriving DecidableEq, Repr

namespace StateHub

/-- `StateHub::new`, with the first revision published. -/
def new (initial : StateData) : StateHub := ⟨⟨0, initial⟩, ⟨0, initial⟩, 0, false⟩

/-- `publish` up to `send_replace`, with the lock taken. -/
def publish (hub : StateHub) (data : StateData) : StateHub :=
  if hub.locked then hub
  else if hub.current.data = data then hub
  else { hub with current := ⟨min (hub.current.revision + 1) (2 ^ 64 - 1), data⟩, locked := true }

/-- `send_replace`, with which the publish ends. -/
def replace (hub : StateHub) : StateHub :=
  if hub.locked then { hub with watched := hub.current, version := hub.version + 1, locked := false } else hub

/-- A publish that changes the state. -/
def changes (hub : StateHub) (data : StateData) : Bool := !hub.locked && hub.current.data ≠ data

/-- A publish under way is ahead of the watch channel by what it has changed. -/
structure Ok (hub : StateHub) : Prop where
  unlocked : hub.locked = false → hub.watched = hub.current
  locked : hub.watched.revision ≤ hub.current.revision
  bounded : hub.current.revision ≤ 2 ^ 64 - 1

theorem publish_of_changes {hub : StateHub} {data : StateData} (h : hub.changes data = true) :
    hub.locked = false ∧ hub.publish data =
      { hub with current := ⟨min (hub.current.revision + 1) (2 ^ 64 - 1), data⟩, locked := true } := by
  rw [changes, Bool.and_eq_true, Bool.not_eq_true', decide_eq_true_eq] at h
  obtain ⟨hlocked, hdata⟩ := h
  refine ⟨hlocked, ?_⟩
  rw [publish, hlocked, if_neg Bool.false_ne_true, if_neg hdata]

theorem publish_of_not_changes {hub : StateHub} {data : StateData} (h : hub.changes data = false) :
    hub.publish data = hub := by
  unfold publish
  split
  · rfl
  · rename_i hlocked
    rw [changes, Bool.eq_false_iff.mpr hlocked] at h
    exact if_pos (by simpa using h)

theorem publish_watched (hub : StateHub) (data : StateData) :
    (hub.publish data).watched = hub.watched ∧ (hub.publish data).version = hub.version := by
  unfold publish
  split
  · exact ⟨rfl, rfl⟩
  · split <;> exact ⟨rfl, rfl⟩

theorem Ok.publish {hub : StateHub} (h : hub.Ok) (data : StateData) : (hub.publish data).Ok := by
  cases hchanges : hub.changes data with
  | false =>
    rw [publish_of_not_changes hchanges]
    exact h
  | true =>
    rw [(publish_of_changes hchanges).2]
    have hlocked := h.locked
    have hbounded := h.bounded
    refine ⟨nofun, ?_, ?_⟩
    · show hub.watched.revision ≤ min (hub.current.revision + 1) (2 ^ 64 - 1)
      omega
    · show min (hub.current.revision + 1) (2 ^ 64 - 1) ≤ 2 ^ 64 - 1
      omega

theorem Ok.replace {hub : StateHub} (h : hub.Ok) : hub.replace.Ok := by
  unfold StateHub.replace
  split
  · exact ⟨fun _ => rfl, le_rfl, h.bounded⟩
  · exact h

theorem replace_current (hub : StateHub) : hub.replace.current = hub.current := by
  unfold replace
  split <;> rfl

theorem replace_unlocked (hub : StateHub) : hub.replace.locked = false := by
  unfold replace
  split
  · rfl
  · rename_i hlocked
    exact Bool.eq_false_iff.mpr hlocked

theorem Ok.le_replace {hub : StateHub} (h : hub.Ok) : hub.watched.revision ≤ hub.replace.watched.revision := by
  unfold StateHub.replace
  split
  · exact h.locked
  · exact le_rfl

end StateHub

/-- What the server writes on the socket. -/
inductive Frame (Outcome Error : Type)
  | state (snapshot : StateSnapshot)
  /-- The result of a command, or of `get_state` without an outcome. -/
  | result (requestId : Str) (outcome : Option Outcome) (snapshot : StateSnapshot)
  | error (requestId : Str) (error : Error)

namespace Frame
variable {Outcome Error : Type}

/-- The state that a frame carries. -/
def snapshot? : Frame Outcome Error → Option StateSnapshot
  | state snapshot | result _ _ snapshot => some snapshot
  | error _ _ => none

end Frame

/-- Where the task of a connection stands. -/
inductive ConnectionPhase
  | accepted
  | subscribed
  /-- It waits for the next event. -/
  | waiting
  /-- `changed()` has returned. -/
  | woken
  | closed
deriving DecidableEq, Repr

/-- A connection with the last revision it wrote, and its frames so far. -/
structure Connection (Outcome Error : Type) where
  phase : ConnectionPhase
  seen : Nat
  lastStateRevision : Nat
  frames : List (Frame Outcome Error)

/-- The hub and one connection on it. -/
structure ControlSystem (Outcome Error : Type) where
  hub : StateHub
  connection : Connection Outcome Error

/-- A step of a publisher or of the connection's task. -/
inductive ControlStep (Outcome Error : Type)
  | publish (data : StateData)
  | replace
  | subscribe
  | initial
  /-- A command of the connection is done. -/
  | command (requestId : Str) (result : Except Error Outcome)
  | getState (requestId : Str)
  | changed
  | borrow
  | close

namespace Connection
variable {Outcome Error : Type}

def send (connection : Connection Outcome Error) (frame : Frame Outcome Error) : Connection Outcome Error :=
  { connection with frames := connection.frames ++ [frame] }

end Connection

namespace ControlSystem
variable {Outcome Error : Type}

/-- No connection has read a message yet. -/
def start (initial : StateData) : ControlSystem Outcome Error :=
  ⟨.new initial, ⟨.accepted, 0, 0, []⟩⟩

/-- One step of the control thread or the connection. -/
def step (s : ControlSystem Outcome Error) : ControlStep Outcome Error → ControlSystem Outcome Error
  | .publish data => { s with hub := s.hub.publish data }
  | .replace => { s with hub := s.hub.replace }
  | .subscribe =>
    if s.connection.phase = .accepted then
      { s with connection := { s.connection with phase := .subscribed, seen := s.hub.version } }
    else s
  | .initial =>
    if s.connection.phase = .subscribed ∧ s.hub.locked = false then
      let connection := { s.connection with phase := .waiting, lastStateRevision := s.hub.current.revision }
      { s with connection := connection.send (.state s.hub.current) }
    else s
  | .command requestId result =>
    match result with
    | .ok outcome =>
      if s.connection.phase = .waiting ∧ s.hub.locked = false then
        { s with connection := s.connection.send (.result requestId (some outcome) s.hub.current) }
      else s
    | .error error =>
      if s.connection.phase = .waiting then { s with connection := s.connection.send (.error requestId error) } else s
  | .getState requestId =>
    if s.connection.phase = .waiting ∧ s.hub.locked = false then
      { s with connection := s.connection.send (.result requestId none s.hub.current) }
    else s
  | .changed =>
    if s.connection.phase = .waiting ∧ s.connection.seen ≠ s.hub.version then
      { s with connection := { s.connection with phase := .woken, seen := s.hub.version } }
    else s
  | .borrow =>
    if s.connection.phase = .woken then
      let connection := { s.connection with phase := .waiting, seen := s.hub.version }
      if s.hub.watched.revision > s.connection.lastStateRevision then
        let connection := { connection with lastStateRevision := s.hub.watched.revision }
        { s with connection := connection.send (.state s.hub.watched) }
      else { s with connection := connection }
    else s
  | .close => { s with connection := { s.connection with phase := .closed } }

/-- How many of the publishes change the state. -/
def changeCount : ControlSystem Outcome Error → List (ControlStep Outcome Error) → Nat
  | _, [] => 0
  | s, c :: steps =>
    (match c with
      | .publish data => if s.hub.changes data then 1 else 0
      | _ => 0) + changeCount (s.step c) steps

/-- The states the client has been told, in order. -/
def told (s : ControlSystem Outcome Error) : List StateSnapshot := s.connection.frames.filterMap Frame.snapshot?

/-! ### What is told is never ahead of the watch channel -/

theorem told_send (connection : Connection Outcome Error) (hub : StateHub) (frame : Frame Outcome Error) :
    told ⟨hub, connection.send frame⟩ = told ⟨hub, connection⟩ ++ frame.snapshot?.toList := by
  rw [told, told, Connection.send, List.filterMap_append]
  cases hframe : frame.snapshot? <;> simp [hframe]

/-- What is told is in order, and not ahead of the watch channel. -/
structure Ordered (s : ControlSystem Outcome Error) : Prop where
  hub : s.hub.Ok
  sorted : s.told.Pairwise fun a b => a.revision ≤ b.revision
  told : ∀ a ∈ s.told, a.revision ≤ s.hub.watched.revision

namespace Ordered
variable {s : ControlSystem Outcome Error} {connection : Connection Outcome Error} {frame : Frame Outcome Error}

theorem quiet (h : s.Ordered) (hframes : connection.frames = s.connection.frames) :
    Ordered { s with connection := connection } := by
  have htold : ControlSystem.told { s with connection := connection } = s.told := by
    rw [ControlSystem.told, ControlSystem.told, hframes]
  exact ⟨h.hub, htold ▸ h.sorted, htold ▸ h.told⟩

theorem send (h : s.Ordered) (hframes : connection.frames = s.connection.frames)
    (hframe : ∀ snapshot, frame.snapshot? = some snapshot → snapshot = s.hub.watched) :
    Ordered { s with connection := connection.send frame } := by
  have h := h.quiet hframes
  have htold := told_send connection s.hub frame
  cases hsnapshot : frame.snapshot? with
  | none =>
    rw [hsnapshot, Option.toList_none, List.append_nil] at htold
    exact ⟨h.hub, htold ▸ h.sorted, htold ▸ h.told⟩
  | some snapshot =>
    obtain rfl := hframe snapshot hsnapshot
    rw [hsnapshot, Option.toList_some] at htold
    refine ⟨h.hub, ?_, ?_⟩
    · rw [htold]
      refine List.pairwise_append.mpr ⟨h.sorted, List.pairwise_singleton _ _, fun a ha b hb => ?_⟩
      rw [List.mem_singleton.mp hb]
      exact h.told a ha
    · rw [htold]
      intro a ha
      rcases List.mem_append.mp ha with ha | ha
      · exact h.told a ha
      · rw [List.mem_singleton.mp ha]

theorem step (h : s.Ordered) (c : ControlStep Outcome Error) : (s.step c).Ordered := by
  cases c with
  | publish data =>
    refine ⟨h.hub.publish data, h.sorted, fun a ha => ?_⟩
    show a.revision ≤ (s.hub.publish data).watched.revision
    rw [(s.hub.publish_watched data).1]
    exact h.told a ha
  | replace => exact ⟨h.hub.replace, h.sorted, fun a ha => (h.told a ha).trans h.hub.le_replace⟩
  | subscribe =>
    simp only [ControlSystem.step]
    split
    · exact h.quiet rfl
    · exact h
  | initial =>
    simp only [ControlSystem.step]
    split
    · rename_i hphase
      exact h.send rfl fun snapshot hsnapshot => (Option.some.inj hsnapshot).symm.trans (h.hub.unlocked hphase.2).symm
    · exact h
  | command requestId result =>
    cases result with
    | ok outcome =>
      simp only [ControlSystem.step]
      split
      · rename_i hphase
        exact h.send rfl fun snapshot hsnapshot => (Option.some.inj hsnapshot).symm.trans (h.hub.unlocked hphase.2).symm
      · exact h
    | error error =>
      simp only [ControlSystem.step]
      split
      · refine h.send rfl fun snapshot hsnapshot => ?_
        rw [Frame.snapshot?] at hsnapshot
        cases hsnapshot
      · exact h
  | getState requestId =>
    simp only [ControlSystem.step]
    split
    · rename_i hphase
      exact h.send rfl fun snapshot hsnapshot => (Option.some.inj hsnapshot).symm.trans (h.hub.unlocked hphase.2).symm
    · exact h
  | changed =>
    simp only [ControlSystem.step]
    split
    · exact h.quiet rfl
    · exact h
  | borrow =>
    simp only [ControlSystem.step]
    split
    · split
      · exact h.send rfl fun snapshot hsnapshot => (Option.some.inj hsnapshot).symm
      · exact h.quiet rfl
    · exact h
  | close => exact h.quiet rfl

end Ordered

theorem start_ordered (initial : StateData) : (start initial : ControlSystem Outcome Error).Ordered := by
  have hbounded : (StateHub.new initial).current.revision ≤ 2 ^ 64 - 1 := by
    show 0 ≤ 2 ^ 64 - 1
    omega
  exact ⟨⟨fun _ => rfl, Nat.le_refl 0, hbounded⟩, List.Pairwise.nil, fun _ ha => (List.not_mem_nil ha).elim⟩

theorem run_ordered (initial : StateData) (steps : List (ControlStep Outcome Error)) :
    (steps.foldl step (start initial)).Ordered :=
  foldl_invariant (fun _ c h => h.step c) steps (start_ordered initial)

/-! ### The last state told is the latest -/

/-- Each revision stands for one state, and a connection that has nothing to read has told the latest one. -/
structure Heard (s : ControlSystem Outcome Error) : Prop where
  ahead : s.hub.locked = true → s.hub.watched.revision < s.hub.current.revision
  same : ∀ a ∈ s.told, a.revision = s.hub.watched.revision → a = s.hub.watched
  seen : s.connection.seen ≤ s.hub.version
  last : s.connection.phase = .waiting ∨ s.connection.phase = .woken →
    ∃ a, s.told.getLast? = some a ∧ s.connection.lastStateRevision ≤ a.revision
  upToDate : s.connection.phase = .waiting → s.connection.seen = s.hub.version →
    s.hub.watched.revision ≤ s.connection.lastStateRevision

namespace Heard
variable {s : ControlSystem Outcome Error} {connection : Connection Outcome Error} {frame : Frame Outcome Error}

theorem of_told {s' : ControlSystem Outcome Error} (h : s.Heard) (hhub : s'.hub = s.hub) (htold : s'.told = s.told)
    (hseen : s'.connection.seen ≤ s'.hub.version)
    (hlast : s'.connection.phase = .waiting ∨ s'.connection.phase = .woken →
      (s.connection.phase = .waiting ∨ s.connection.phase = .woken) ∧
        s'.connection.lastStateRevision = s.connection.lastStateRevision)
    (hupToDate : s'.connection.phase = .waiting → s'.connection.seen = s'.hub.version →
      s.hub.watched.revision ≤ s'.connection.lastStateRevision) : s'.Heard := by
  refine ⟨hhub ▸ h.ahead, htold ▸ hhub ▸ h.same, hseen, fun hphase => ?_, hhub ▸ hupToDate⟩
  obtain ⟨hphase, hrevision⟩ := hlast hphase
  rw [htold, hrevision]
  exact h.last hphase

theorem send (h : s.Heard) (hframes : connection.frames = s.connection.frames) (hseen : connection.seen ≤ s.hub.version)
    (hframe : frame.snapshot? = some s.hub.watched) (hlast : connection.lastStateRevision ≤ s.hub.watched.revision)
    (hupToDate : connection.phase = .waiting → connection.seen = s.hub.version →
      s.hub.watched.revision ≤ connection.lastStateRevision) :
    Heard { s with connection := connection.send frame } := by
  have htold : ControlSystem.told { s with connection := connection.send frame } = s.told ++ [s.hub.watched] := by
    rw [told_send, hframe, ControlSystem.told, ControlSystem.told, hframes]
    rfl
  refine ⟨h.ahead, fun a ha hrevision => ?_, hseen, fun _ => ⟨s.hub.watched, ?_, hlast⟩, hupToDate⟩
  · rw [htold] at ha
    rcases List.mem_append.mp ha with ha | ha
    · exact h.same a ha hrevision
    · exact List.mem_singleton.mp ha
  · rw [htold, List.getLast?_append]
    rfl

theorem result (h : s.Heard) (hordered : s.Ordered) (hphase : s.connection.phase = .waiting)
    (hframe : ∀ snapshot, frame.snapshot? = some snapshot → snapshot = s.hub.watched) :
    Heard { s with connection := s.connection.send frame } := by
  obtain ⟨a, hlast, hrevision⟩ := h.last (.inl hphase)
  have htold := hordered.told a (List.mem_of_getLast? hlast)
  cases hsnapshot : frame.snapshot? with
  | some snapshot =>
    obtain rfl := hframe snapshot hsnapshot
    exact h.send rfl h.seen hsnapshot (hrevision.trans htold) h.upToDate
  | none =>
    refine h.of_told rfl ?_ h.seen (fun _ => ⟨.inl hphase, rfl⟩) h.upToDate
    rw [told_send, hsnapshot, Option.toList_none, List.append_nil]

theorem publish (h : s.Heard) (data : StateData)
    (hnext : s.hub.changes data = true → s.hub.current.revision < 2 ^ 64 - 1) (hok : s.hub.Ok) :
    (s.step (.publish data)).Heard := by
  obtain ⟨hwatched, hversion⟩ := s.hub.publish_watched data
  have hahead : (s.hub.publish data).locked = true →
      s.hub.watched.revision < (s.hub.publish data).current.revision := by
    cases hchanges : s.hub.changes data with
    | false =>
      rw [StateHub.publish_of_not_changes hchanges]
      exact h.ahead
    | true =>
      have hnext := hnext hchanges
      have hlocked := hok.locked
      rw [(StateHub.publish_of_changes hchanges).2]
      intro _
      show s.hub.watched.revision < min (s.hub.current.revision + 1) (2 ^ 64 - 1)
      omega
  refine ⟨?_, ?_, ?_, h.last, ?_⟩
  · exact hwatched.symm ▸ hahead
  · exact hwatched.symm ▸ h.same
  · exact hversion.symm ▸ h.seen
  · exact hversion.symm ▸ hwatched.symm ▸ h.upToDate

theorem replace (h : s.Heard) (hordered : s.Ordered) : (s.step .replace).Heard := by
  have hunlocked := s.hub.replace_unlocked
  cases hlocked : s.hub.locked with
  | false =>
    have hreplace : s.hub.replace = s.hub := by
      rw [StateHub.replace, hlocked, if_neg Bool.false_ne_true]
    rw [ControlSystem.step, hreplace]
    exact h
  | true =>
    have hahead := h.ahead hlocked
    have hreplace : s.hub.replace =
        { s.hub with watched := s.hub.current, version := s.hub.version + 1, locked := false } := by
      rw [StateHub.replace, if_pos hlocked]
    rw [ControlSystem.step, hreplace]
    refine ⟨nofun, fun a ha hrevision => ?_, Nat.le_succ_of_le h.seen, h.last, fun _ hseen => ?_⟩
    · -- All that has been told is behind.
      have htold := hordered.told a ha
      have hrevision : a.revision = s.hub.current.revision := hrevision
      omega
    · have hseen : s.connection.seen = s.hub.version + 1 := hseen
      have hbehind := h.seen
      omega

theorem step (h : s.Heard) (hordered : s.Ordered) (c : ControlStep Outcome Error)
    (hnext : ∀ data, c = .publish data → s.hub.changes data = true → s.hub.current.revision < 2 ^ 64 - 1) :
    (s.step c).Heard := by
  cases c with
  | publish data => exact h.publish data (hnext data rfl) hordered.hub
  | replace => exact h.replace hordered
  | subscribe =>
    simp only [ControlSystem.step]
    split
    · exact h.of_told rfl rfl le_rfl nofun nofun
    · exact h
  | initial =>
    simp only [ControlSystem.step]
    split
    · rename_i hphase
      have hwatched := hordered.hub.unlocked hphase.2
      refine h.send rfl h.seen ?_ ?_ ?_
      · rw [hwatched]
        rfl
      · rw [hwatched]
      · rw [hwatched]
        exact fun _ _ => le_rfl
    · exact h
  | command requestId result =>
    cases result with
    | ok outcome =>
      simp only [ControlSystem.step]
      split
      · rename_i hphase
        exact h.result hordered hphase.1 fun snapshot hsnapshot =>
          (Option.some.inj hsnapshot).symm.trans (hordered.hub.unlocked hphase.2).symm
      · exact h
    | error error =>
      simp only [ControlSystem.step]
      split
      · rename_i hphase
        refine h.result hordered hphase fun snapshot hsnapshot => ?_
        rw [Frame.snapshot?] at hsnapshot
        cases hsnapshot
      · exact h
  | getState requestId =>
    simp only [ControlSystem.step]
    split
    · rename_i hphase
      exact h.result hordered hphase.1 fun snapshot hsnapshot =>
        (Option.some.inj hsnapshot).symm.trans (hordered.hub.unlocked hphase.2).symm
    · exact h
  | changed =>
    simp only [ControlSystem.step]
    split
    · rename_i hphase
      exact h.of_told rfl rfl le_rfl (fun _ => ⟨.inl hphase.1, rfl⟩) nofun
    · exact h
  | borrow =>
    simp only [ControlSystem.step]
    split
    · rename_i hphase
      split
      · exact h.send rfl le_rfl rfl le_rfl fun _ _ => le_rfl
      · rename_i hrevision
        exact h.of_told rfl rfl le_rfl (fun _ => ⟨.inr hphase, rfl⟩) fun _ _ => not_lt.mp hrevision
    · exact h
  | close => exact h.of_told rfl rfl h.seen nofun nofun

end Heard

theorem start_heard (initial : StateData) : (start initial : ControlSystem Outcome Error).Heard :=
  ⟨nofun, fun _ ha => (List.not_mem_nil ha).elim, Nat.le_refl 0, nofun, nofun⟩

theorem step_current (s : ControlSystem Outcome Error) (c : ControlStep Outcome Error) :
    (s.step c).hub.current.revision ≤ s.hub.current.revision + s.changeCount [c] := by
  cases c with
  | publish data =>
    show (s.hub.publish data).current.revision ≤ _
    cases hchanges : s.hub.changes data with
    | false =>
      rw [StateHub.publish_of_not_changes hchanges]
      exact Nat.le_add_right _ _
    | true =>
      rw [(StateHub.publish_of_changes hchanges).2, changeCount, hchanges]
      show min _ _ ≤ _
      simp only [changeCount, if_true]
      omega
  | replace =>
    show s.hub.replace.current.revision ≤ _
    rw [StateHub.replace_current]
    exact Nat.le_add_right _ _
  | command requestId result =>
    cases result with
    | ok outcome =>
      simp only [step]
      split <;> exact Nat.le_add_right _ _
    | error error =>
      simp only [step]
      split <;> exact Nat.le_add_right _ _
  | borrow =>
    simp only [step]
    split
    · split <;> exact Nat.le_add_right _ _
    · exact Nat.le_add_right _ _
  | close => exact Nat.le_add_right _ _
  | subscribe | initial | getState | changed =>
    simp only [step]
    split <;> exact Nat.le_add_right _ _

theorem changeCount_cons (s : ControlSystem Outcome Error) (c : ControlStep Outcome Error)
    (steps : List (ControlStep Outcome Error)) :
    s.changeCount (c :: steps) = s.changeCount [c] + (s.step c).changeCount steps := by
  simp only [changeCount, Nat.add_zero]

theorem run_heard {s : ControlSystem Outcome Error} (steps : List (ControlStep Outcome Error)) (hordered : s.Ordered)
    (hheard : s.Heard) (hbound : s.hub.current.revision + s.changeCount steps ≤ 2 ^ 64 - 1) :
    (steps.foldl step s).Heard := by
  induction steps generalizing s with
  | nil => exact hheard
  | cons c steps ih =>
    rw [changeCount_cons] at hbound
    have hcurrent := s.step_current c
    refine ih (hordered.step c) (hheard.step hordered c ?_) (by omega)
    rintro data rfl hchanges
    rw [changeCount, hchanges, if_pos rfl] at hbound
    omega

/-- A connection that has nothing to read has told the latest state. -/
theorem Heard.latest {s : ControlSystem Outcome Error} (h : s.Heard) (hordered : s.Ordered)
    (hphase : s.connection.phase = .waiting) (hseen : s.connection.seen = s.hub.version) (hlocked : s.hub.locked = false) :
    s.told.getLast? = some s.hub.current := by
  obtain ⟨a, hlast, hrevision⟩ := h.last (.inl hphase)
  have hmem := List.mem_of_getLast? hlast
  have hbehind := h.upToDate hphase hseen
  have htold := hordered.told a hmem
  have hsame := h.same a hmem (by omega)
  rw [hlast, hsame, hordered.hub.unlocked hlocked]

/-- What is left to do when no more publish begins: the publish under way ends, and the connection's task takes up
what it has not read. -/
def settle : List (ControlStep Outcome Error) := [.replace, .subscribe, .initial, .changed, .borrow]

/-- `changed` and `borrow` bring a connection that waits up to date. -/
theorem read_settles {hub : StateHub} {connection : Connection Outcome Error} (hphase : connection.phase = .waiting) :
    let s := (step ⟨hub, connection⟩ .changed).step .borrow
    s.hub = hub ∧ s.connection.phase = .waiting ∧ s.connection.seen = hub.version := by
  by_cases hseen : connection.seen = hub.version
  · simp [step, hphase, hseen]
  · simp only [step, hphase, hseen, ne_eq, not_false_eq_true, and_self, if_true]
    split <;> exact ⟨rfl, rfl, rfl⟩

theorem settle_settles {s : ControlSystem Outcome Error} (hopen : s.connection.phase ≠ .closed) :
    (settle.foldl step s).hub = s.hub.replace ∧ (settle.foldl step s).connection.phase = .waiting ∧
      (settle.foldl step s).connection.seen = s.hub.replace.version := by
  have hunlocked := s.hub.replace_unlocked
  obtain ⟨hub, connection⟩ := s
  simp only [settle, List.foldl_cons, List.foldl_nil]
  cases hphase : connection.phase with
  | closed => exact absurd hphase hopen
  | waiting =>
    have hinitial : step (step (step ⟨hub, connection⟩ .replace) .subscribe) .initial = ⟨hub.replace, connection⟩ := by
      simp [step, hphase]
    rw [hinitial]
    exact read_settles hphase
  | accepted | subscribed =>
    generalize hs : step (step (step ⟨hub, connection⟩ .replace) .subscribe) .initial = s
    have hhub : s.hub = hub.replace := by
      rw [← hs]
      simp [step, hphase, hunlocked]
    have hwaiting : s.connection.phase = .waiting := by
      rw [← hs]
      simp [step, hphase, hunlocked, Connection.send]
    rw [← hhub]
    exact read_settles hwaiting
  | woken =>
    have hchanged : step (step (step (step ⟨hub, connection⟩ .replace) .subscribe) .initial) .changed =
        ⟨hub.replace, connection⟩ := by
      simp [step, hphase]
    rw [hchanged]
    simp only [step, hphase, if_true]
    split <;> exact ⟨rfl, rfl, rfl⟩

theorem changeCount_append (s : ControlSystem Outcome Error) (l l' : List (ControlStep Outcome Error)) :
    s.changeCount (l ++ l') = s.changeCount l + (l.foldl step s).changeCount l' := by
  induction l generalizing s with
  | nil => exact (Nat.zero_add _).symm
  | cons c l ih => rw [List.cons_append, changeCount_cons, ih, changeCount_cons s c l, Nat.add_assoc, List.foldl_cons]

/-- Broadcast is on in every other state. -/
def turn (n : Nat) : StateData where
  clients := []
  broadcast := ⟨true, n % 2 = 1⟩
  mouseClutch := .unavailable
  capabilities := ⟨true, true, true, false, false, false, .available false⟩

/-- The states told are in the order of their revisions. While the counter can count, a connection that has nothing to
read has told the latest state, and one that is open gets there whenever it takes up what it has not read. -/
theorem revisions_ordered (initial : StateData) (steps : List (ControlStep Outcome Error)) :
    let s := steps.foldl step (start initial)
    (s.told.Pairwise fun a b => a.revision ≤ b.revision) ∧
    ((start initial).changeCount steps ≤ 2 ^ 64 - 1 →
      (s.connection.phase = .waiting → s.connection.seen = s.hub.version → s.hub.locked = false →
        s.told.getLast? = some s.hub.current) ∧
      (s.connection.phase ≠ .closed →
        (settle.foldl step s).hub.current = s.hub.current ∧
        (settle.foldl step s).told.getLast? = some s.hub.current)) := by
  intro s
  have hordered : s.Ordered := run_ordered initial steps
  refine ⟨hordered.sorted, fun hbound => ?_⟩
  have hstart : ((start initial : ControlSystem Outcome Error)).hub.current.revision = 0 := rfl
  have hheard : s.Heard := run_heard steps (start_ordered initial) (start_heard initial) (by omega)
  refine ⟨hheard.latest hordered, fun hopen => ?_⟩
  have hordered' : (settle.foldl step s).Ordered := foldl_invariant (fun _ c h => h.step c) settle hordered
  have hheard' : (settle.foldl step s).Heard := by
    have hheard' : ((steps ++ settle).foldl step (start initial)).Heard := by
      refine run_heard (steps ++ settle) (start_ordered initial) (start_heard initial) ?_
      rw [changeCount_append, hstart]
      have hsettle : (steps.foldl step (start initial)).changeCount settle = 0 := rfl
      omega
    rwa [List.foldl_append] at hheard'
  obtain ⟨hhub, hphase, hseen⟩ := settle_settles hopen
  have hlatest := hheard'.latest hordered' hphase (hhub ▸ hseen) (hhub ▸ s.hub.replace_unlocked)
  have hcurrent : (settle.foldl step s).hub.current = s.hub.current := by rw [hhub, s.hub.replace_current]
  exact ⟨hcurrent, hcurrent ▸ hlatest⟩

/-- A client that subscribes in the middle of a publish. -/
theorem revisions_ordered_publish :
    let s := [ControlStep.subscribe, .publish (turn 1), .replace, .initial].foldl step
      (start (turn 0) : ControlSystem Unit Unit)
    (settle.foldl step s).told.getLast? = some ⟨1, turn 1⟩ :=
  (((@revisions_ordered Unit Unit (turn 0)
    [ControlStep.subscribe, .publish (turn 1), .replace, .initial]).2 (by decide)).2 (by decide)).2

/-! ### The end of the counter -/

theorem turn_succ_ne (n : Nat) : turn n ≠ turn (n + 1) := by
  intro heq
  have henabled := congrArg (fun data => data.broadcast.enabled) heq
  have hparity : n % 2 = 1 ↔ (n + 1) % 2 = 1 := decide_eq_decide.mp henabled
  omega

/-- Broadcast is switched `n` times. -/
def turns (n : Nat) : List (ControlStep Outcome Error) :=
  (List.range n).flatMap fun i => [.publish (turn (i + 1)), .replace]

theorem publish_turn (revision n version : Nat) :
    ((⟨⟨revision, turn n⟩, ⟨revision, turn n⟩, version, false⟩ : StateHub).publish (turn (n + 1))).replace =
      ⟨⟨min (revision + 1) (2 ^ 64 - 1), turn (n + 1)⟩, ⟨min (revision + 1) (2 ^ 64 - 1), turn (n + 1)⟩, version + 1,
        false⟩ := by
  rw [StateHub.publish, if_neg Bool.false_ne_true, if_neg (turn_succ_ne n)]
  rfl

theorem run_turns (n : Nat) : ((turns n).foldl step (start (turn 0)) : ControlSystem Outcome Error) =
    ⟨⟨⟨min n (2 ^ 64 - 1), turn n⟩, ⟨min n (2 ^ 64 - 1), turn n⟩, n, false⟩, ⟨.accepted, 0, 0, []⟩⟩ := by
  induction n with
  | zero =>
    rw [Nat.zero_min]
    rfl
  | succ n ih =>
    have hturns : turns (n + 1) = turns n ++
        ([.publish (turn (n + 1)), .replace] : List (ControlStep Outcome Error)) := by
      rw [turns, List.range_succ, List.flatMap_append]
      rfl
    have hmin : min (min n (2 ^ 64 - 1) + 1) (2 ^ 64 - 1) = min (n + 1) (2 ^ 64 - 1) := by omega
    rw [hturns, List.foldl_append, ih]
    have hpublish := publish_turn (min n (2 ^ 64 - 1)) n n
    rw [hmin] at hpublish
    exact congrArg (ControlSystem.mk · _) hpublish

/-- A client subscribes, and broadcast is switched once more. -/
def onceMore (n : Nat) : List (ControlStep Outcome Error) := .subscribe :: .initial :: .publish (turn (n + 1)) :: settle

theorem run_onceMore {revision : Nat} (hlast : min (revision + 1) (2 ^ 64 - 1) = revision) (n version : Nat) :
    ((onceMore n).foldl step ⟨⟨⟨revision, turn n⟩, ⟨revision, turn n⟩, version, false⟩, ⟨.accepted, 0, 0, []⟩⟩ :
      ControlSystem Outcome Error) =
    ⟨⟨⟨revision, turn (n + 1)⟩, ⟨revision, turn (n + 1)⟩, version + 1, false⟩,
      ⟨.waiting, version + 1, revision, [.state ⟨revision, turn n⟩]⟩⟩ := by
  have hpublish : (⟨⟨revision, turn n⟩, ⟨revision, turn n⟩, version, false⟩ : StateHub).publish (turn (n + 1)) =
      ⟨⟨revision, turn (n + 1)⟩, ⟨revision, turn n⟩, version, true⟩ := by
    rw [StateHub.publish, if_neg Bool.false_ne_true, if_neg (turn_succ_ne n), hlast]
  simp [onceMore, settle, step, Connection.send, hpublish, StateHub.replace]

/-- At the end of the counter a change is published under the revision of the state before, and a connection that has
told that one never tells the new one. -/
theorem last_revision_hides :
    let s := (turns (2 ^ 64 - 1) ++ onceMore (2 ^ 64 - 1)).foldl step (start (turn 0) : ControlSystem Unit Unit)
    s.connection.phase = .waiting ∧ s.connection.seen = s.hub.version ∧ s.hub.locked = false ∧
      s.told.getLast? ≠ some s.hub.current := by
  have hmin : min (2 ^ 64 - 1) (2 ^ 64 - 1) = 2 ^ 64 - 1 := min_self _
  have hlast : min (2 ^ 64 - 1 + 1) (2 ^ 64 - 1) = 2 ^ 64 - 1 := by omega
  dsimp only
  rw [List.foldl_append, run_turns, hmin, run_onceMore hlast]
  refine ⟨rfl, rfl, rfl, fun heq => ?_⟩
  have hdata := congrArg StateSnapshot.data (Option.some.inj heq)
  exact turn_succ_ne _ hdata

end ControlSystem

end Stonemite.Trushar
