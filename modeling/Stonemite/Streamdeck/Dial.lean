import Stonemite.Streamdeck.Client
import Stonemite.Lib.Run

/-!
# The Extended Target dial of the plugin

A dial that is turned selects a slot, which is targeted once the turning settles; a press considers the target, after
what is still being selected. The dial is one that stays visible with its settings, and an alert that is awaited is
shown. `Inv` extends `Base` by what holds between the turns of the event loop. `Inv.step` goes through the events, and
`dial_sequenced` reads off both promises.
-/

namespace Stonemite.Streamdeck

/-- A slot of the extended target window as the dial sees it. -/
structure DialSlot where
  slot : Nat
  bound : Bool
deriving DecidableEq, Repr

/-- What the dial reads of its client. -/
structure DialClient where
  supported : Bool
  slots : List DialSlot
  selectedSlot : Option Nat
  considerBound : Bool
  inputReady : Bool
  active : Bool
  activatable : Bool
deriving DecidableEq, Repr

/-- What the dial reads of the store; the client is that of its window. -/
structure DialView where
  connected : Bool
  client : Option DialClient
deriving DecidableEq, Repr

/-- What the dial shows where it can do nothing. -/
inductive DialError
  | noXTargets
  | updateStonemite
  | boxNotLoaded
  | inputUnavailable
  | unbound
  | cannotActivate
  | failed
deriving DecidableEq, Repr

/-- What is awaited: the reply to a command, or the alert after its failure. -/
inductive DialTask
  | target (slot epoch : Nat)
  | targetAlert
  | consider
  | considerAlert
  | activate
  | activateAlert
deriving DecidableEq, Repr

/-- `settle` and `errorHold` are the timers; a task ends with a failure or without. -/
inductive DialEvent
  | rotate (ticks : Int)
  | press
  | tap
  | settle
  | errorHold
  | update (view : DialView)
  | render
  | resume (task : DialTask) (failure : Option DialError)

/-- What the dial was asked and what it sent. `considered` says whether a selection was queued, settling or in flight. -/
inductive DialEntry
  | rotated (slot : Nat)
  | targeted (slot : Nat)
  | considered (selecting : Bool)
deriving DecidableEq, Repr

/-- The state of one dial that can be seen. -/
structure VisibleDial where
  view : DialView
  selectedSlot : Option Nat := none
  queuedSlot : Option Nat := none
  selectionTimer : Bool := false
  selectionEpoch : Nat := 0
  selecting : Bool := false
  considering : Bool := false
  pendingConsider : Bool := false
  activating : Bool := false
  error : Option DialError := none
  errorSlot : Option Nat := none
  errorTimer : Bool := false
  tasks : List DialTask := []
  log : List DialEntry := []

def DialTask.isTarget : DialTask → Bool
  | target _ _ => true
  | _ => false

/-- The tasks that go on with a selection. -/
def DialTask.isSelection : DialTask → Bool
  | target _ _ | targetAlert => true
  | _ => false

/-- A consider command or its alert is out. -/
def DialTask.isConsider : DialTask → Bool
  | consider | considerAlert => true
  | _ => false

namespace VisibleDial

/-- Something more is waited for. -/
def await (s : VisibleDial) (task : DialTask) : VisibleDial := { s with tasks := s.tasks ++ [task] }

def record (s : VisibleDial) (entry : DialEntry) : VisibleDial := { s with log := s.log ++ [entry] }

/-- Connected, and the client takes input. -/
def canSendInput (s : VisibleDial) (client : DialClient) : Bool := s.view.connected && client.inputReady

/-- A selection that the client does not know any more is dropped for its own. -/
def reconcileSelection (s : VisibleDial) (client : DialClient) : VisibleDial :=
  let localSelectionIsValid := s.selectedSlot.any fun selected => client.slots.any fun slot => slot.slot = selected
  if localSelectionIsValid then s
  else { s with selectedSlot := client.selectedSlot.or (client.slots.head?.map (·.slot)) }

def clearError (s : VisibleDial) : VisibleDial := { s with error := none, errorSlot := none, errorTimer := false }

/-- An error is shown for its time. -/
def setError (s : VisibleDial) (error : DialError) (attemptedSlot : Option Nat) : VisibleDial :=
  { s with error := some error, errorSlot := attemptedSlot, errorTimer := true }

/-- A selection is queued, settling or being made. -/
def busy (s : VisibleDial) : Bool := s.selecting || s.queuedSlot.isSome || s.selectionTimer

/-- The selection settles after its delay, which starts anew. -/
def scheduleSelection (s : VisibleDial) : VisibleDial := { s with selectionTimer := true }

def onDialRotate (s : VisibleDial) (ticks : Int) : VisibleDial :=
  if ticks = 0 then s
  else match s.view.client with
    | none => s.setError .boxNotLoaded none
    | some client =>
      if !client.supported then s.setError .updateStonemite none
      else if client.slots = [] then s.setError .noXTargets none
      else
        let s := s.reconcileSelection client
        let index := (client.slots.findIdx? fun slot => some slot.slot = s.selectedSlot).getD 0
        let nextIndex := max 0 (min ((client.slots.length : Int) - 1) (index + ticks))
        match client.slots[nextIndex.toNat]? with
        | none => s
        | some next =>
          if some next.slot = s.selectedSlot then s
          else
            let s := { s with selectedSlot := some next.slot }.clearError
            let s := if !s.canSendInput client then s.setError .inputUnavailable (some next.slot)
              else if !next.bound then s.setError .unbound (some next.slot) else s
            ({ s with queuedSlot := some next.slot }.record (.rotated next.slot)).scheduleSelection

/-- An alert that nothing comes after is not awaited here. -/
def sendConsider (s : VisibleDial) : VisibleDial :=
  if s.considering then s
  else if s.error.isSome then s
  else match s.view.client with
    | none => s.setError .boxNotLoaded none
    | some client =>
      if !client.supported then s.setError .updateStonemite none
      else
        let s := s.reconcileSelection client
        let selected := client.slots.find? fun slot => some slot.slot = s.selectedSlot
        if !s.canSendInput client then s.setError .inputUnavailable none
        else if !selected.any (·.bound) || !client.considerBound || s.selectedSlot ≠ client.selectedSlot then
          s.setError .unbound s.selectedSlot
        else
          let s := { s with considering := true }.clearError
          (s.record (.considered (s.busy || s.tasks.any DialTask.isTarget))).await .consider

def onDialDown (s : VisibleDial) : VisibleDial :=
  if s.considering then s
  else if s.busy then { s with pendingConsider := true }
  else s.sendConsider

def onTouchTap (s : VisibleDial) : VisibleDial :=
  if s.activating then s
  else match s.view.client with
    | none => s.setError .boxNotLoaded none
    | some client =>
      if !client.activatable then s.setError .cannotActivate none
      else if client.active then s
      else { s with activating := true }.clearError.await .activate

/-- `#drainSelection` up to what it awaits. -/
def drainSelection (s : VisibleDial) : VisibleDial :=
  if s.selecting then s
  else match s.queuedSlot with
    | none => s
    | some slot =>
      let s := { s with queuedSlot := none, selecting := true }
      match s.view.client with
      | none => ({ s with pendingConsider := false }.setError .boxNotLoaded (some slot)).await .targetAlert
      | some _ => (s.record (.targeted slot)).await (.target slot s.selectionEpoch)

/-- `#drainSelection` when it is through. -/
def selectionDone (s : VisibleDial) : VisibleDial :=
  let s := { s with selecting := false }
  if s.queuedSlot.isSome ∧ ¬ s.selectionTimer then s.drainSelection
  else if s.pendingConsider ∧ s.queuedSlot.isNone ∧ ¬ s.selectionTimer then
    let consider := s.error.isNone
    let s := { s with pendingConsider := false }
    if consider then s.sendConsider else s
  else s

/-- The selection that was made is still the one wanted. -/
def isCurrent (s : VisibleDial) (slot epoch : Nat) : Bool :=
  s.selectionEpoch = epoch && s.selectedSlot = some slot && s.queuedSlot.isNone

/-- What follows an `await`, with the error it threw if it did. -/
def resume (s : VisibleDial) (task : DialTask) (failure : Option DialError) : VisibleDial :=
  match task, failure with
  | .target slot epoch, none => (if s.isCurrent slot epoch then s.clearError else s).selectionDone
  | .target slot epoch, some error =>
    if s.isCurrent slot epoch then
      ({ s with pendingConsider := false }.setError error (some slot)).await .targetAlert
    else s.selectionDone
  | .targetAlert, _ => s.selectionDone
  | .consider, none => { s with considering := false }
  | .consider, some error => (s.setError error none).await .considerAlert
  | .considerAlert, _ => { s with considering := false }
  | .activate, none => { s with activating := false }
  | .activate, some error => (s.setError error none).await .activateAlert
  | .activateAlert, _ => { s with activating := false }

/-- What a rendering does besides: it reconciles the selection of a client that it shows. -/
def render (s : VisibleDial) : VisibleDial :=
  match s.view.client with
  | none => s
  | some client => if s.view.connected && client.supported then s.reconcileSelection client else s

/-- One event of the dial, its timers or the server. -/
def step (s : VisibleDial) : DialEvent → VisibleDial
  | .rotate ticks => s.onDialRotate ticks
  | .press => s.onDialDown
  | .tap => s.onTouchTap
  | .settle => if s.selectionTimer then { s with selectionTimer := false }.drainSelection else s
  | .errorHold =>
    if s.errorTimer then
      match s.view.client with
      | none => s.clearError
      | some client => s.clearError.reconcileSelection client
    else s
  | .update view => { s with view := view }
  | .render => s.render
  | .resume task failure =>
    if task ∈ s.tasks then { s with tasks := s.tasks.erase task }.resume task failure else s

/-! ### Sequencing -/

/-- The slot of the last effective rotation. -/
def lastRotated (log : List DialEntry) : Option Nat :=
  (log.filterMap fun
    | .rotated slot => some slot
    | _ => none).getLast?

/-- The slot that the last target command was for. -/
def lastTargeted (log : List DialEntry) : Option Nat :=
  (log.filterMap fun
    | .targeted slot => some slot
    | _ => none).getLast?

/-- How often a consider was sent. -/
def considers (s : VisibleDial) : Nat := s.log.countP fun
  | .considered _ => true
  | _ => false

/-- No selection timer is pending, and nothing of a selection is awaited. -/
def Settled (s : VisibleDial) : Prop := s.selectionTimer = false ∧ ∀ task ∈ s.tasks, task.isSelection = false

/-- The client of the dial stays loaded. -/
def Loaded (_ : VisibleDial) : DialEvent → Prop
  | .update view => view.client.isSome
  | _ => True

/-- One command of a kind at a time, and the last selection is the one that is sent. -/
structure Sequenced (s : VisibleDial) : Prop where
  oneTarget : s.tasks.countP DialTask.isTarget ≤ 1
  oneConsider : s.tasks.countP (· = .consider) ≤ 1
  lastTarget : s.Settled → lastTargeted s.log = lastRotated s.log
  apart : ∀ selecting, .considered selecting ∈ s.log → selecting = false
  spent : s.busy = false → s.pendingConsider = false

/-! ### The invariant -/

/-- The invariant but for how the selection under way is told. -/
structure Base (s : VisibleDial) : Prop where
  loaded : s.view.client.isSome
  consider : s.tasks.countP DialTask.isConsider = if s.considering then 1 else 0
  timed : s.selectionTimer = true → s.queuedSlot.isSome
  last : match s.queuedSlot with
    | some slot => lastRotated s.log = some slot
    | none => lastTargeted s.log = lastRotated s.log
  apart : ∀ selecting, .considered selecting ∈ s.log → selecting = false

/-- The invariant behind `Sequenced`. -/
structure Inv (s : VisibleDial) : Prop extends Base s where
  selection : s.tasks.countP DialTask.isSelection = if s.selecting then 1 else 0
  queued : s.queuedSlot.isSome → s.selectionTimer = true ∨ s.selecting = true
  pending : s.pendingConsider = true → s.busy = true

/-- The dial without what it shows and what it has selected. -/
def core (s : VisibleDial) : VisibleDial :=
  { s with selectedSlot := none, error := none, errorSlot := none, errorTimer := false, activating := false }

variable {s s' : VisibleDial} {slot : Nat}

theorem Base.congr (h : s.Base) (hcore : s'.core = s.core) : s'.Base := by
  have hbase : s.core.Base := ⟨h.loaded, h.consider, h.timed, h.last, h.apart⟩
  rw [← hcore] at hbase
  exact ⟨hbase.loaded, hbase.consider, hbase.timed, hbase.last, hbase.apart⟩

theorem Inv.congr (h : s.Inv) (hcore : s'.core = s.core) : s'.Inv := by
  have hinv : s.core.Inv := ⟨h.toBase.congr rfl, h.selection, h.queued, h.pending⟩
  rw [← hcore] at hinv
  exact ⟨h.toBase.congr hcore, hinv.selection, hinv.queued, hinv.pending⟩

@[simp] theorem core_setError (error : DialError) (slot : Option Nat) : (s.setError error slot).core = s.core := rfl

@[simp] theorem core_clearError : s.clearError.core = s.core := rfl

@[simp] theorem core_reconcileSelection (client : DialClient) : (s.reconcileSelection client).core = s.core := by
  unfold reconcileSelection
  dsimp only
  split <;> rfl

theorem countP_append_singleton {α : Type} (p : α → Bool) (l : List α) (a : α) :
    (l ++ [a]).countP p = l.countP p + if p a then 1 else 0 := by
  rw [List.countP_append, List.countP_singleton]

theorem busy_eq_false : s.busy = false ↔ s.selecting = false ∧ s.queuedSlot = none ∧ s.selectionTimer = false := by
  unfold busy
  rw [Bool.or_eq_false_iff, Bool.or_eq_false_iff, Option.isSome_eq_false_iff, Option.isNone_iff_eq_none, and_assoc]

theorem lastRotated_append (log : List DialEntry) (entry : DialEntry) : lastRotated (log ++ [entry]) =
    match entry with
    | .rotated slot => some slot
    | _ => lastRotated log := by
  unfold lastRotated
  rw [List.filterMap_append]
  cases entry <;> simp

theorem lastTargeted_append (log : List DialEntry) (entry : DialEntry) : lastTargeted (log ++ [entry]) =
    match entry with
    | .targeted slot => some slot
    | _ => lastTargeted log := by
  unfold lastTargeted
  rw [List.filterMap_append]
  cases entry <;> simp

theorem apart_append {log : List DialEntry} {entry : DialEntry} (h : ∀ selecting, .considered selecting ∈ log → selecting = false)
    (hentry : ∀ selecting, entry = .considered selecting → selecting = false) :
    ∀ selecting, .considered selecting ∈ log ++ [entry] → selecting = false := by
  intro selecting hmem
  rcases List.mem_append.mp hmem with hmem | hmem
  · exact h selecting hmem
  · exact hentry selecting (List.mem_singleton.mp hmem).symm

theorem Inv.sequenced (h : s.Inv) : s.Sequenced where
  oneTarget := by
    have hle : s.tasks.countP DialTask.isTarget ≤ s.tasks.countP DialTask.isSelection :=
      List.countP_mono_left fun task _ htask => by cases task <;> first | rfl | cases htask
    have := h.selection
    split at this <;> omega
  oneConsider := by
    have hle : s.tasks.countP (fun task => task = .consider) ≤ s.tasks.countP DialTask.isConsider :=
      List.countP_mono_left fun task _ htask => by rw [of_decide_eq_true htask]; rfl
    have := h.consider
    split at this <;> omega
  lastTarget := by
    rintro ⟨htimer, htasks⟩
    have hselecting : s.selecting ≠ true := by
      intro hsel
      have hcount := h.selection
      rw [if_pos hsel, List.countP_eq_zero.mpr fun task hmem => by simp [htasks task hmem]] at hcount
      cases hcount
    have hlast := h.last
    cases hqueued : s.queuedSlot with
    | none =>
      rw [hqueued] at hlast
      exact hlast
    | some slot =>
      rcases h.queued (by rw [hqueued]; rfl) with htimed | hsel
      · exact absurd (htimed.symm.trans htimer) nofun
      · exact absurd hsel hselecting
  apart := h.apart
  spent hbusy := by
    cases hpending : s.pendingConsider with
    | false => rfl
    | true => exact absurd ((h.pending hpending).symm.trans hbusy) nofun

/-! ### Selections -/

theorem Base.drain (h : s.Base) (hnone : s.tasks.countP DialTask.isSelection = 0) (hselecting : s.selecting = false)
    (htimer : s.selectionTimer = false) (hqueued : s.queuedSlot = some slot) : s.drainSelection.Inv := by
  obtain ⟨client, hclient⟩ := Option.isSome_iff_exists.mp h.loaded
  have hlast := h.last
  unfold drainSelection
  rw [hselecting, hqueued] at *
  simp only [Bool.false_eq_true, if_false, hclient, record, await]
  refine ⟨⟨h.loaded, ?_, fun htimed => absurd (htimed.symm.trans htimer) nofun, ?_,
    apart_append h.apart fun _ => by nofun⟩, ?_, nofun, fun _ => rfl⟩
  · show (s.tasks ++ [_]).countP _ = if s.considering then 1 else 0
    rw [countP_append_singleton, h.consider]
    rfl
  · show lastTargeted (s.log ++ [_]) = lastRotated (s.log ++ [_])
    rw [lastTargeted_append, lastRotated_append]
    exact hlast.symm
  · show (s.tasks ++ [_]).countP _ = if true then 1 else 0
    rw [countP_append_singleton, hnone]
    rfl

/-- A Consider is sent, or nothing but what the dial shows changes. -/
theorem sendConsider_core : s.sendConsider.core = s.core ∨ s.considering = false ∧
    s.sendConsider.core =
      (({ s with considering := true }.record (.considered (s.busy || s.tasks.any DialTask.isTarget))).await .consider).core := by
  unfold sendConsider
  split
  · exact .inl rfl
  · rename_i hconsidering
    split
    · exact .inl rfl
    · split
      · exact .inl rfl
      · rename_i client hclient
        split
        · exact .inl rfl
        · dsimp only
          split
          · exact .inl (core_reconcileSelection client)
          · split
            · exact .inl (core_reconcileSelection client)
            · refine .inr ⟨Bool.eq_false_iff.mpr hconsidering, ?_⟩
              unfold reconcileSelection
              dsimp only
              split <;> rfl

theorem Inv.sendConsider (h : s.Inv) (hbusy : s.busy = false) : s.sendConsider.Inv := by
  rcases @sendConsider_core s with hcore | ⟨hconsidering, hcore⟩
  · exact h.congr hcore
  · refine Inv.congr ?_ hcore
    obtain ⟨hselecting, hqueued, htimer⟩ := busy_eq_false.mp hbusy
    have hnone : s.tasks.countP DialTask.isSelection = 0 := by rw [h.selection, hselecting]; rfl
    have hany : s.tasks.any DialTask.isTarget = false := by
      rw [List.any_eq_false]
      intro task htask htarget
      refine List.countP_eq_zero.mp hnone task htask ?_
      cases task <;> first | rfl | cases htarget
    have hlast := h.last
    rw [hqueued] at hlast
    refine ⟨⟨h.loaded, ?_, h.timed, ?_, ?_⟩, ?_, h.queued, h.pending⟩
    · show (s.tasks ++ [_]).countP _ = if true then 1 else 0
      rw [countP_append_singleton, h.consider, hconsidering]
      rfl
    · show match s.queuedSlot with
        | some slot => lastRotated (s.log ++ [_]) = some slot
        | none => lastTargeted (s.log ++ [_]) = lastRotated (s.log ++ [_])
      rw [hqueued]
      dsimp only
      rw [lastTargeted_append, lastRotated_append]
      exact hlast
    · refine apart_append h.apart fun selecting heq => ?_
      rw [← DialEntry.considered.inj heq, hbusy, hany]
      rfl
    · show (s.tasks ++ [_]).countP _ = if s.selecting then 1 else 0
      rw [countP_append_singleton, h.selection]
      rfl

theorem Base.done (h : s.Base) (hnone : s.tasks.countP DialTask.isSelection = 0) : s.selectionDone.Inv := by
  have hbase : Base { s with selecting := false } := ⟨h.loaded, h.consider, h.timed, h.last, h.apart⟩
  unfold selectionDone
  dsimp only
  split
  · rename_i hnext
    obtain ⟨slot, hqueued⟩ := Option.isSome_iff_exists.mp hnext.1
    exact hbase.drain hnone rfl (Bool.eq_false_iff.mpr hnext.2) hqueued
  · rename_i hnext
    split
    · rename_i hready
      obtain ⟨-, hqueued, htimer⟩ := hready
      have hqueued' := Option.isNone_iff_eq_none.mp hqueued
      have hinv : Inv { s with selecting := false, pendingConsider := false } := by
        refine ⟨⟨h.loaded, h.consider, h.timed, h.last, h.apart⟩, hnone, fun hsome => ?_, nofun⟩
        have hsome' : s.queuedSlot.isSome := hsome
        rw [hqueued'] at hsome'
        cases hsome'
      split
      · exact hinv.sendConsider (busy_eq_false.mpr ⟨rfl, hqueued', Bool.eq_false_iff.mpr htimer⟩)
      · exact hinv
    · rename_i hready
      refine ⟨hbase, hnone, fun hsome => .inl ?_, fun hpending => ?_⟩
      · by_contra htimer
        exact hnext ⟨hsome, htimer⟩
      · show (false || s.queuedSlot.isSome || s.selectionTimer) = true
        cases htimer : s.selectionTimer with
        | true => exact Bool.or_true _
        | false =>
          cases hqueued : s.queuedSlot with
          | some slot => rfl
          | none => exact absurd ⟨hpending, by rw [hqueued]; rfl, by rw [htimer]; nofun⟩ hready

theorem count_erase {task : DialTask} (p : DialTask → Bool) (h : task ∈ s.tasks) :
    (s.tasks.erase task).countP p + (if p task then 1 else 0) = s.tasks.countP p := by
  rw [(List.perm_cons_erase h).countP_eq, List.countP_cons]

/-! ### Steps -/

theorem Inv.rotate (h : s.Inv) (ticks : Int) : (s.onDialRotate ticks).Inv := by
  unfold onDialRotate
  split
  · exact h
  · split
    · exact h.congr rfl
    · rename_i client hclient
      split
      · exact h.congr rfl
      · split
        · exact h.congr rfl
        · dsimp only
          have hreconciled : (s.reconcileSelection client).Inv := h.congr (core_reconcileSelection client)
          generalize s.reconcileSelection client = t at hreconciled
          split
          · exact hreconciled
          · rename_i next _
            split
            · exact hreconciled
            · have hturned (u : VisibleDial) (hu : u.core = t.core) :
                  (({ u with queuedSlot := some next.slot }.record (.rotated next.slot)).scheduleSelection).Inv := by
                have hinv := hreconciled.congr hu
                refine ⟨⟨hinv.loaded, hinv.consider, fun _ => rfl, ?_, apart_append hinv.apart fun _ => by nofun⟩,
                  hinv.selection, fun _ => .inl rfl, fun _ => ?_⟩
                · show lastRotated (u.log ++ [_]) = some next.slot
                  rw [lastRotated_append]
                · show (u.selecting || true || true) = true
                  rw [Bool.or_true]
              refine hturned _ ?_
              split
              · rfl
              · split <;> rfl

theorem Inv.press (h : s.Inv) : s.onDialDown.Inv := by
  unfold onDialDown
  split
  · exact h
  · split
    · rename_i hbusy
      exact ⟨⟨h.loaded, h.consider, h.timed, h.last, h.apart⟩, h.selection, h.queued, fun _ => hbusy⟩
    · rename_i hbusy
      exact h.sendConsider (Bool.eq_false_iff.mpr hbusy)

theorem Inv.await (h : s.Inv) {task : DialTask} (hselection : task.isSelection = false) (hconsider : task.isConsider = false) :
    (s.await task).Inv := by
  refine ⟨⟨h.loaded, ?_, h.timed, h.last, h.apart⟩, ?_, h.queued, h.pending⟩
  · show (s.tasks ++ [task]).countP _ = if s.considering then 1 else 0
    rw [countP_append_singleton, h.consider, hconsider]
    rfl
  · show (s.tasks ++ [task]).countP _ = if s.selecting then 1 else 0
    rw [countP_append_singleton, h.selection, hselection]
    rfl

theorem Inv.tap (h : s.Inv) : s.onTouchTap.Inv := by
  unfold onTouchTap
  split
  · exact h
  · split
    · exact h.congr rfl
    · split
      · exact h.congr rfl
      · split
        · exact h
        · have hshown : ({ s with activating := true }.clearError).Inv := h.congr rfl
          exact hshown.await rfl rfl

theorem Inv.settle (h : s.Inv) : (s.step .settle).Inv := by
  show (if s.selectionTimer then { s with selectionTimer := false }.drainSelection else s).Inv
  split
  · rename_i htimer
    obtain ⟨slot, hqueued⟩ := Option.isSome_iff_exists.mp (h.timed htimer)
    have hbase : Base { s with selectionTimer := false } := ⟨h.loaded, h.consider, nofun, h.last, h.apart⟩
    rcases Bool.eq_false_or_eq_true s.selecting with hselecting | hselecting
    · have hsame : drainSelection { s with selectionTimer := false } = { s with selectionTimer := false } := if_pos hselecting
      rw [hsame]
      refine ⟨hbase, h.selection, fun _ => .inr hselecting, fun _ => ?_⟩
      show (s.selecting || s.queuedSlot.isSome || false) = true
      rw [hselecting]
      rfl
    · have hnone : s.tasks.countP DialTask.isSelection = 0 := by rw [h.selection, hselecting]; rfl
      exact hbase.drain hnone hselecting rfl hqueued
  · exact h

/-- A task of a selection, which there is only while one is made. -/
theorem Inv.selecting_of_task (h : s.Inv) {task : DialTask} (hmem : task ∈ s.tasks) (htask : task.isSelection = true) :
    s.selecting = true ∧ (s.tasks.erase task).countP DialTask.isSelection = 0 ∧
      (s.tasks.erase task).countP DialTask.isConsider = if s.considering then 1 else 0 := by
  have hcount := @count_erase s task DialTask.isSelection hmem
  have hconsider := @count_erase s task DialTask.isConsider hmem
  have hother : task.isConsider = false := by cases task <;> first | rfl | cases htask
  rw [h.selection, htask] at hcount
  rw [h.consider, hother] at hconsider
  cases hselecting : s.selecting with
  | true =>
    rw [hselecting] at hcount
    exact ⟨rfl, Nat.succ.inj hcount, hconsider⟩
  | false =>
    rw [hselecting] at hcount
    cases hcount

theorem Inv.resumeSelection (h : s.Inv) {task : DialTask} (hmem : task ∈ s.tasks) (htask : task.isSelection = true)
    (failure : Option DialError) : (resume { s with tasks := s.tasks.erase task } task failure).Inv := by
  obtain ⟨hselecting, hnone, hconsider⟩ := h.selecting_of_task hmem htask
  have hbase : Base { s with tasks := s.tasks.erase task } := ⟨h.loaded, hconsider, h.timed, h.last, h.apart⟩
  cases task with
  | target slot epoch =>
    cases failure with
    | none =>
      unfold resume
      dsimp only
      split
      · exact (hbase.congr core_clearError).done hnone
      · exact hbase.done hnone
    | some error =>
      unfold resume
      dsimp only
      split
      · refine ⟨⟨h.loaded, ?_, h.timed, h.last, h.apart⟩, ?_, h.queued, nofun⟩
        · show (s.tasks.erase _ ++ [_]).countP _ = if s.considering then 1 else 0
          rw [countP_append_singleton, hconsider]
          rfl
        · show (s.tasks.erase _ ++ [_]).countP _ = if s.selecting then 1 else 0
          rw [countP_append_singleton, hnone, hselecting]
          rfl
      · exact hbase.done hnone
  | targetAlert =>
    cases failure <;> exact hbase.done hnone
  | consider => cases htask
  | considerAlert => cases htask
  | activate => cases htask
  | activateAlert => cases htask

theorem Inv.resumeConsider (h : s.Inv) {task : DialTask} (hmem : task ∈ s.tasks) (htask : task.isConsider = true)
    (failure : Option DialError) : (resume { s with tasks := s.tasks.erase task } task failure).Inv := by
  have hcount := @count_erase s task DialTask.isConsider hmem
  have hselection := @count_erase s task DialTask.isSelection hmem
  have hother : task.isSelection = false := by cases task <;> first | rfl | cases htask
  rw [h.selection, hother] at hselection
  rw [h.consider, htask] at hcount
  rcases Bool.eq_false_or_eq_true s.considering with hconsidering | hconsidering
  · rw [hconsidering] at hcount
    have hzero : (s.tasks.erase task).countP DialTask.isConsider = 0 := Nat.succ.inj hcount
    have hover : Inv { s with tasks := s.tasks.erase task, considering := false } :=
      ⟨⟨h.loaded, hzero, h.timed, h.last, h.apart⟩, hselection, h.queued, h.pending⟩
    cases task with
    | consider =>
      cases failure with
      | none => exact hover
      | some error =>
        refine ⟨⟨h.loaded, ?_, h.timed, h.last, h.apart⟩, ?_, h.queued, h.pending⟩
        · show (s.tasks.erase _ ++ [_]).countP _ = if s.considering then 1 else 0
          rw [countP_append_singleton, hzero, hconsidering]
          rfl
        · show (s.tasks.erase _ ++ [_]).countP _ = if s.selecting then 1 else 0
          rw [countP_append_singleton]
          exact hselection
    | considerAlert => cases failure <;> exact hover
    | target slot epoch => cases htask
    | targetAlert => cases htask
    | activate => cases htask
    | activateAlert => cases htask
  · rw [hconsidering] at hcount
    cases hcount

theorem Inv.resumeActivate (h : s.Inv) {task : DialTask} (hmem : task ∈ s.tasks) (hselection : task.isSelection = false)
    (hconsider : task.isConsider = false) (failure : Option DialError) :
    (resume { s with tasks := s.tasks.erase task } task failure).Inv := by
  have hcount := @count_erase s task DialTask.isConsider hmem
  have hcount' := @count_erase s task DialTask.isSelection hmem
  rw [h.consider, hconsider] at hcount
  rw [h.selection, hselection] at hcount'
  have herased : Inv { s with tasks := s.tasks.erase task } :=
    ⟨⟨h.loaded, hcount, h.timed, h.last, h.apart⟩, hcount', h.queued, h.pending⟩
  cases task with
  | activate =>
    cases failure with
    | none => exact herased.congr rfl
    | some error =>
      have hshown : (setError { s with tasks := s.tasks.erase .activate } error none).Inv := herased.congr rfl
      exact hshown.await rfl rfl
  | activateAlert => cases failure <;> exact herased.congr rfl
  | target slot epoch => cases hselection
  | targetAlert => cases hselection
  | consider => cases hconsider
  | considerAlert => cases hconsider

theorem Inv.step (h : s.Inv) {event : DialEvent} (hloaded : s.Loaded event) : (s.step event).Inv := by
  cases event with
  | rotate ticks => exact h.rotate ticks
  | press => exact h.press
  | tap => exact h.tap
  | settle => exact h.settle
  | errorHold =>
    unfold VisibleDial.step
    dsimp only
    split
    · split
      · exact h.congr rfl
      · exact h.congr (core_reconcileSelection _)
    · exact h
  | update view => exact ⟨⟨hloaded, h.consider, h.timed, h.last, h.apart⟩, h.selection, h.queued, h.pending⟩
  | render =>
    unfold VisibleDial.step render
    dsimp only
    split
    · exact h
    · split
      · exact h.congr (core_reconcileSelection _)
      · exact h
  | resume task failure =>
    unfold VisibleDial.step
    dsimp only
    split
    · rename_i hmem
      cases hselection : task.isSelection with
      | true => exact h.resumeSelection hmem hselection failure
      | false =>
        cases hconsider : task.isConsider with
        | true => exact h.resumeConsider hmem hconsider failure
        | false => exact h.resumeActivate hmem hselection hconsider failure
    · exact h

/-! ### Considers of a selection phase -/

/-- At most one Consider is sent, and then no selection is left. -/
def Adds (s s' : VisibleDial) : Prop := s'.considers = s.considers ∨ s'.considers = s.considers + 1 ∧ s'.busy = false

theorem considers_congr (hcore : s'.core = s.core) : s'.considers = s.considers := by
  have hlog : s'.core.log = s.core.log := congrArg log hcore
  exact congrArg (List.countP _) hlog

theorem considers_record {entry : DialEntry} (hentry : ∀ selecting, entry ≠ .considered selecting) :
    (s.record entry).considers = s.considers := by
  unfold considers record
  rw [List.countP_append]
  cases entry with
  | considered selecting => exact absurd rfl (hentry selecting)
  | rotated slot => rfl
  | targeted slot => rfl

theorem considers_drainSelection : s.drainSelection.considers = s.considers := by
  unfold drainSelection
  split
  · rfl
  · split
    · rfl
    · dsimp only
      split
      · rfl
      · exact considers_record fun _ => by nofun

theorem considers_onDialRotate (ticks : Int) : (s.onDialRotate ticks).considers = s.considers := by
  unfold onDialRotate
  split
  · rfl
  · split
    · rfl
    · rename_i client _
      split
      · rfl
      · split
        · rfl
        · dsimp only
          have hreconciled := considers_congr (@core_reconcileSelection s client)
          generalize s.reconcileSelection client = t at hreconciled
          split
          · exact hreconciled
          · rename_i next _
            split
            · exact hreconciled
            · have hturned (u : VisibleDial) (hu : u.core = t.core) :
                  (({ u with queuedSlot := some next.slot }.record (.rotated next.slot)).scheduleSelection).considers =
                    s.considers :=
                (@considers_record u (.rotated next.slot) fun _ => by nofun).trans ((considers_congr hu).trans hreconciled)
              refine hturned _ ?_
              split
              · rfl
              · split <;> rfl

theorem adds_sendConsider (hbusy : s.busy = false) : Adds s s.sendConsider := by
  rcases @sendConsider_core s with hcore | ⟨-, hcore⟩
  · exact .inl (considers_congr hcore)
  · refine .inr ⟨(considers_congr hcore).trans ?_, ?_⟩
    · exact countP_append_singleton _ _ _
    · have hcores : s.sendConsider.core.busy = s.busy := by rw [hcore]; rfl
      exact hcores.trans hbusy

theorem adds_selectionDone : Adds s s.selectionDone := by
  unfold selectionDone
  dsimp only
  split
  · exact .inl considers_drainSelection
  · split
    · rename_i hready
      obtain ⟨-, hqueued, htimer⟩ := hready
      have hbusy : busy { s with selecting := false, pendingConsider := false } = false :=
        busy_eq_false.mpr ⟨rfl, Option.isNone_iff_eq_none.mp hqueued, Bool.eq_false_iff.mpr htimer⟩
      split
      · exact adds_sendConsider hbusy
      · exact .inl rfl
    · exact .inl rfl

theorem adds_resume (task : DialTask) (failure : Option DialError) : Adds s (s.resume task failure) := by
  cases task with
  | target slot epoch =>
    cases failure with
    | none =>
      unfold resume
      dsimp only
      split
      · exact @adds_selectionDone s.clearError
      · exact adds_selectionDone
    | some error =>
      unfold resume
      dsimp only
      split
      · exact .inl rfl
      · exact adds_selectionDone
  | targetAlert => cases failure <;> exact adds_selectionDone
  | consider => cases failure <;> exact .inl rfl
  | considerAlert => cases failure <;> exact .inl rfl
  | activate => cases failure <;> exact .inl rfl
  | activateAlert => cases failure <;> exact .inl rfl

theorem adds_step (hbusy : s.busy = true) (event : DialEvent) : Adds s (s.step event) := by
  cases event with
  | rotate ticks => exact .inl (considers_onDialRotate ticks)
  | press =>
    unfold step onDialDown
    dsimp only
    rw [if_pos hbusy]
    split <;> exact .inl rfl
  | tap =>
    unfold step onTouchTap
    dsimp only
    split
    · exact .inl rfl
    · split
      · exact .inl rfl
      · split
        · exact .inl rfl
        · split <;> exact .inl rfl
  | settle =>
    unfold step
    dsimp only
    split
    · exact .inl considers_drainSelection
    · exact .inl rfl
  | errorHold =>
    unfold step
    dsimp only
    split
    · split
      · exact .inl rfl
      · exact .inl (considers_congr (core_reconcileSelection _))
    · exact .inl rfl
  | update view => exact .inl rfl
  | render =>
    unfold step render
    dsimp only
    split
    · exact .inl rfl
    · split
      · exact .inl (considers_congr (core_reconcileSelection _))
      · exact .inl rfl
  | resume task failure =>
    unfold step
    dsimp only
    split
    · exact @adds_resume { s with tasks := s.tasks.erase task } task failure
    · exact .inl rfl

theorem considers_phase (phase : List DialEvent) (hphase : Along (fun s _ => s.busy = true) step s phase) :
    (phase.foldl step s).considers ≤ s.considers + 1 := by
  induction phase generalizing s with
  | nil => exact Nat.le_succ _
  | cons event phase ih =>
    obtain ⟨hbusy, hrest⟩ := Along.cons_iff.mp hphase
    rw [List.foldl_cons]
    rcases adds_step hbusy event with hsame | ⟨hmore, hidle⟩
    · exact (ih hrest).trans (Nat.succ_le_succ hsame.le)
    · cases phase with
      | nil => exact hmore.le
      | cons next phase => exact absurd ((Along.cons_iff.mp hrest).1.symm.trans hidle) nofun

theorem Inv.start {view : DialView} (hloaded : view.client.isSome) : Inv { view := view } :=
  ⟨⟨hloaded, rfl, nofun, rfl, nofun⟩, rfl, nofun, nofun⟩

/-- In any order of what happens to a dial whose client stays loaded: one target command and one Consider are in flight at
most; when nothing of a selection is left, the last command sent is for the last effective rotation; no Consider is sent during
a selection; and a selection, however often the dial is pressed in it, ends with one Consider at most and with no press left. -/
theorem dial_sequenced (view : DialView) (hview : view.client.isSome) (events : List DialEvent)
    (hloaded : Along Loaded step { view := view } events) :
    (events.foldl step { view := view }).Sequenced ∧
      ∀ before phase after, events = before ++ (phase ++ after) →
        Along (fun s _ => s.busy = true) step (before.foldl step { view := view }) phase →
        ((before ++ phase).foldl step { view := view }).considers ≤ (before.foldl step { view := view }).considers + 1 := by
  refine ⟨(hloaded.invariant (fun _ _ hinv hevent => Inv.step hinv hevent) (Inv.start hview)).sequenced, ?_⟩
  intro before phase after _ hphase
  rw [List.foldl_append]
  exact considers_phase phase hphase

end VisibleDial

namespace Dial

/-- A client with three bound slots, the first one selected. -/
def slots : DialClient := ⟨true, [⟨1, true⟩, ⟨2, true⟩, ⟨3, true⟩], some 1, true, true, true, true⟩

/-- The client when its target is the slot. -/
def view (slot : Nat) : DialView := ⟨true, some { slots with selectedSlot := some slot }⟩

/-- The dial is turned again while the first slot is being targeted, and pressed twice. -/
def events : List DialEvent :=
  [.rotate 1, .settle, .press, .rotate 1, .press, .resume (.target 2 0) none, .settle, .update (view 3),
    .resume (.target 3 0) none, .press, .resume .consider none]

theorem loaded : Along VisibleDial.Loaded VisibleDial.step { view := view 1 } events := by
  refine ⟨trivial, trivial, trivial, trivial, trivial, trivial, trivial, rfl, trivial, trivial, trivial, trivial⟩

end Dial

theorem VisibleDial.one_consider : Sequenced (Dial.events.foldl step { view := Dial.view 1 }) ∧
    (Dial.events.foldl step { view := Dial.view 1 }).log =
      [.rotated 2, .targeted 2, .rotated 3, .targeted 3, .considered false] :=
  ⟨(dial_sequenced (Dial.view 1) rfl Dial.events Dial.loaded).1, by decide⟩

end Stonemite.Streamdeck
