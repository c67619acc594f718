import Stonemite.Control.Inputs

/-!
# What holds of the input sequences

A sequence has changed the keys of the phases before its own, and the engine holds what is down of them. The reply of a
command is open exactly while a sequence serves it. The sequences are given as a function of the process, so that one
tick may take them from the map, advance them one after another and put back those that go on. `InputsOk` is the
invariant, with `InputOk` for one sequence and `BatchOk` for one command; `Grows` is what every step adds to what was
sent, and `Tracked` says which replies are open.
-/

namespace Stonemite.Control
open Std Trushar Keymaps

/-! ### The position of a sequence -/

namespace InputEvent

def command : InputEvent → Nat
  | began command .. | changed command .. | finished command .. => command

/-- What an event changes for a command at a process. -/
def change (command : Nat) (pid : UInt32) : InputEvent → Option (UInt8 × Bool)
  | changed c p scan pressed => if c = command ∧ p = pid then some (scan, pressed) else none
  | began .. | finished .. => none

end InputEvent

/-- The keys that a command has changed at a process, in turn. -/
def changesOf (trace : List InputEvent) (command : Nat) (pid : UInt32) : List (UInt8 × Bool) :=
  trace.filterMap (InputEvent.change command pid)

namespace ActiveInput
variable {input : ActiveInput}

/-- What the phases before the present one have done. -/
def done (input : ActiveInput) : List (UInt8 × Bool) :=
  (input.strokes.take input.index).flatMap keyChanges ++ changesBefore input.stroke input.phase

/-- The phase is one of the present stroke, or the last stroke is over. -/
def Placed (input : ActiveInput) : Prop :=
  input.phase ∈ phases input.stroke ∨ input.phase = .finish ∧ input.index + 1 = input.strokes.length

theorem changesBefore_finish (stroke : ResolvedStroke) : changesBefore stroke .finish = keyChanges stroke := by
  unfold changesBefore keyChanges phases
  split_ifs <;> rfl

theorem finish_not_mem (stroke : ResolvedStroke) : InputPhase.finish ∉ phases stroke := by
  unfold phases
  split_ifs <;> decide

theorem take_succ (input : ActiveInput) :
    input.strokes.take (input.index + 1) = input.strokes.take input.index ++ [input.stroke] := by
  rw [List.take_succ_eq_append_getElem input.inBounds]
  rfl

theorem done_finish (h : input.Placed) (hphase : input.phase = .finish) : input.done = input.strokes.flatMap keyChanges := by
  obtain hmem | ⟨-, hlast⟩ := h
  · rw [hphase] at hmem
    exact absurd hmem (finish_not_mem _)
  · have hall : input.strokes = input.strokes.take (input.index + 1) := by rw [hlast, List.take_length]
    unfold done
    rw [hphase, changesBefore_finish]
    conv_rhs => rw [hall, take_succ, List.flatMap_append, List.flatMap_singleton]

theorem placed_start (hindex : input.index = 0) (hphase : input.phase = .press) : input.Placed ∧ input.done = [] := by
  refine ⟨.inl ?_, ?_⟩
  · rw [hphase]
    unfold phases
    split_ifs <;> exact List.mem_cons_self
  · unfold done
    rw [hindex, hphase, changesBefore_press]
    rfl

/-- What identifies a sequence stays the same. -/
structure Same (input next : ActiveInput) : Prop where
  pid : next.pid = input.pid
  kind : next.kind = input.kind
  strokes : next.strokes = input.strokes
  completion : next.completion = input.completion
  command : next.command = input.command

theorem Same.refl (input : ActiveInput) : Same input input := ⟨rfl, rfl, rfl, rfl, rfl⟩

theorem completeStroke_spec (h : changesBefore input.stroke input.phase ++ phaseChanges input.stroke input.phase =
      keyChanges input.stroke) (now : Nat) :
    (completeStroke input now).Placed ∧
      (completeStroke input now).done = input.done ++ phaseChanges input.stroke input.phase ∧
        Same input (completeStroke input now) := by
  have hdone : (input.strokes.take (input.index + 1)).flatMap keyChanges =
      input.done ++ phaseChanges input.stroke input.phase := by
    unfold done
    rw [List.append_assoc, h, take_succ, List.flatMap_append, List.flatMap_singleton]
  unfold completeStroke
  split_ifs with hnext
  · refine ⟨.inl ?_, ?_, rfl, rfl, rfl, rfl, rfl⟩
    · unfold phases
      split_ifs <;> exact List.mem_cons_self
    · rw [← hdone]
      unfold done
      dsimp only
      rw [changesBefore_press, List.append_nil]
  · have hlast : input.index + 1 = input.strokes.length := by
      have hbounds := input.inBounds
      omega
    refine ⟨.inr ⟨rfl, hlast⟩, ?_, rfl, rfl, rfl, rfl, rfl⟩
    rw [← hdone, take_succ, List.flatMap_append, List.flatMap_singleton]
    unfold done
    dsimp only
    rw [changesBefore_finish]
    rfl

theorem nextPhase_spec (h : input.phase ∈ phases input.stroke) (now : Nat) :
    (nextPhase input now).Placed ∧
      (nextPhase input now).done = input.done ++ phaseChanges input.stroke input.phase ∧
        Same input (nextPhase input now) := by
  have hafter := changesBefore_phaseAfter input.stroke h
  have hmove {next : ActiveInput} (hnext : phaseAfter input.stroke input.phase = some next.phase)
      (hsame : Same input next) (hindex : next.index = input.index) (hstroke : next.stroke = input.stroke) :
      next.Placed ∧ next.done = input.done ++ phaseChanges input.stroke input.phase ∧ Same input next := by
    rw [hnext, Option.map_some, Option.getD_some] at hafter
    refine ⟨.inl (hstroke ▸ phaseAfter_mem input.stroke h hnext), ?_, hsame⟩
    unfold done
    rw [hsame.strokes, hindex, hstroke, ← hafter, List.append_assoc]
  have hcomplete (hnext : phaseAfter input.stroke input.phase = none) := by
    rw [hnext, Option.map_none, Option.getD_none] at hafter
    exact completeStroke_spec hafter now
  unfold nextPhase
  dsimp only
  split
  next hphase =>
    have hnext : phaseAfter input.stroke input.phase =
        some (if hasModifierChord input.stroke then .pressChord else .release) := by rw [hphase]; rfl
    split_ifs at hnext ⊢
    · exact hmove hnext ⟨rfl, rfl, rfl, rfl, rfl⟩ rfl rfl
    · exact hmove hnext ⟨rfl, rfl, rfl, rfl, rfl⟩ rfl rfl
  next hphase =>
    have hnext : phaseAfter input.stroke input.phase = some .release := by rw [hphase]; rfl
    exact hmove hnext ⟨rfl, rfl, rfl, rfl, rfl⟩ rfl rfl
  next hphase =>
    have hnext : phaseAfter input.stroke input.phase =
        if hasModifierChord input.stroke then some .releaseModifiers else none := by rw [hphase]; rfl
    split_ifs at hnext ⊢
    · exact hmove hnext ⟨rfl, rfl, rfl, rfl, rfl⟩ rfl rfl
    · exact hcomplete hnext
  next hphase =>
    have hnext : phaseAfter input.stroke input.phase = none := by rw [hphase]; rfl
    exact hcomplete hnext
  next hphase =>
    rw [hphase] at h
    exact absurd h (finish_not_mem _)

end ActiveInput

/-! ### The trace -/

section trace
variable {trace : List InputEvent} {command c : Nat} {pid p : UInt32} {strokes : List ResolvedStroke}
  {outcome : CommandOutcome}

theorem changesOf_append (trace more : List InputEvent) (command : Nat) (pid : UInt32) :
    changesOf (trace ++ more) command pid = changesOf trace command pid ++ changesOf more command pid :=
  List.filterMap_append

theorem changesOf_singleton (event : InputEvent) (command : Nat) (pid : UInt32) :
    changesOf [event] command pid = (event.change command pid).toList := by
  unfold changesOf
  cases hchange : event.change command pid with
  | none => rw [List.filterMap_cons_none hchange]; rfl
  | some change => rw [List.filterMap_cons_some hchange]; rfl

theorem changesOf_changed (trace : List InputEvent) (c command : Nat) (p pid : UInt32) (scan : UInt8) (pressed : Bool) :
    changesOf (trace ++ [.changed c p scan pressed]) command pid =
      changesOf trace command pid ++ if c = command ∧ p = pid then [(scan, pressed)] else [] := by
  have hchange : InputEvent.change command pid (.changed c p scan pressed) =
      if c = command ∧ p = pid then some (scan, pressed) else none := rfl
  rw [changesOf_append, changesOf_singleton, hchange]
  split_ifs <;> rfl

theorem changesOf_finished (trace : List InputEvent) (c command : Nat) (p pid : UInt32) :
    changesOf (trace ++ [.finished c p]) command pid = changesOf trace command pid := by
  rw [changesOf_append]
  exact List.append_nil _

theorem changesOf_eq_nil (h : ∀ event ∈ trace, event.command ≠ command) : changesOf trace command pid = [] := by
  refine List.filterMap_eq_nil_iff.mpr fun event hevent => ?_
  cases event with
  | changed c p scan pressed => exact if_neg fun heq => h _ hevent heq.1
  | began => rfl
  | finished => rfl

/-- No other process is served by the command. -/
def Alone (trace : List InputEvent) (command : Nat) (pid : UInt32) : Prop :=
  ∀ p strokes outcome, InputEvent.began command p strokes outcome ∈ trace → p = pid

/-- A process has been sent all that the command was to send it, and its sequence has ended. -/
structure Delivered (trace : List InputEvent) (command : Nat) (pid : UInt32) (strokes : List ResolvedStroke) : Prop where
  changes : changesOf trace command pid = strokes.flatMap keyChanges
  finished : InputEvent.finished command pid ∈ trace

theorem Delivered.append (h : Delivered trace command pid strokes) {more : List InputEvent}
    (hmore : changesOf more command pid = []) : Delivered (trace ++ more) command pid strokes where
  changes := by rw [changesOf_append, hmore, List.append_nil, h.changes]
  finished := List.mem_append_left _ h.finished

end trace

/-! ### The invariant -/

section ok
variable (inputs : UInt32 → Option ActiveInput) (batches : ExtTreeMap Nat PendingBatch) (nextBatchId commands : Nat)
  (out : Outside)

/-- The keys that are down for a sequence. -/
def heldOf (trace : List InputEvent) (pid : UInt32) : Option (UInt8 → Bool) :=
  (inputs pid).map fun input => levels (fun _ => false) (changesOf trace input.command pid)

/-- The reply of a command is open. -/
structure Open (sent : List (Nat × Except ControlError CommandOutcome)) (command : Nat) : Prop where
  lt : command < commands
  unsent : ∀ result, (command, result) ∉ sent

/-- Who is told of a sequence is still to be told, and of no other process, but for a batch. -/
def Serves (trace : List InputEvent) (pid : UInt32) (input : ActiveInput) (outcome : CommandOutcome) : Prop :=
  match input.completion with
  | .single reply => reply = input.command ∧ outcome = outcomeOf input ∧ Alone trace input.command pid
  | .batch id => ∃ batch, batches[id]? = some batch ∧ pid ∈ batch.remaining ∧ batch.reply = input.command
  | .toast _ => Alone trace input.command pid

/-- A sequence serves an open command that it was begun for, at its place in the strokes. -/
structure InputOk (pid : UInt32) (input : ActiveInput) : Prop where
  pid_eq : input.pid = pid
  opened : Open commands out.sent input.command
  serves : ∃ outcome, .began input.command pid input.strokes outcome ∈ out.trace ∧
    Serves batches out.trace pid input outcome

/-- A batch is open, and its sequences are under way or were delivered. -/
structure BatchOk (id : Nat) (batch : PendingBatch) : Prop where
  opened : Open commands out.sent batch.reply
  id_le : id ≤ nextBatchId
  remaining : batch.remaining.Nonempty
  members : ∀ pid ∈ batch.remaining, ∃ input, inputs pid = some input ∧ input.completion = .batch id
  outcome : ∀ p strokes outcome, .began batch.reply p strokes outcome ∈ out.trace → outcome = batch.delivered
  delivered : batch.error = none → batch.reply ∉ out.closed → ∀ p strokes outcome,
    .began batch.reply p strokes outcome ∈ out.trace → p ∈ batch.remaining ∨ Delivered out.trace batch.reply p strokes

/-- The sequences, batches, replies and the engine fit together. -/
structure InputsOk : Prop where
  sequences : Broadcast.Engine.Sequences (heldOf inputs out.trace) out.engine
  input : ∀ pid input, inputs pid = some input → InputOk batches commands out pid input
  batch : ∀ (id : Nat) batch, batches[id]? = some batch → BatchOk inputs nextBatchId commands out id batch
  unique : ∀ (id id' : Nat) batch batch', batches[id]? = some batch → batches[id']? = some batch' →
    batch.reply = batch'.reply → id = id'
  event : ∀ event ∈ out.trace, event.command < commands
  began : ∀ command pid strokes strokes' outcome outcome', .began command pid strokes outcome ∈ out.trace →
    .began command pid strokes' outcome' ∈ out.trace → strokes = strokes' ∧ outcome = outcome'
  sent : ∀ reply result, (reply, result) ∈ out.sent → reply < commands
  once : (out.sent.map (·.1)).Nodup
  success : ∀ reply outcome, (reply, .ok outcome) ∈ out.sent →
    (∃ pid strokes, .began reply pid strokes outcome ∈ out.trace) ∧ ∀ pid strokes outcome',
      .began reply pid strokes outcome' ∈ out.trace → outcome' = outcome ∧ Delivered out.trace reply pid strokes
  timer : ∀ pid input, inputs pid = some input → out.timer = true

/-- What has been sent, closed and begun stays so, and what begins serves no command before `commands`. -/
structure Grows (out out' : Outside) : Prop where
  sent : ∀ entry ∈ out.sent, entry ∈ out'.sent
  closed : ∀ reply ∈ out.closed, reply ∈ out'.closed
  trace : ∀ event ∈ out.trace, event ∈ out'.trace
  began : ∀ command pid strokes outcome, .began command pid strokes outcome ∈ out'.trace →
    .began command pid strokes outcome ∈ out.trace ∨ commands ≤ command

/-- A command has its reply, or no one waits for it, or a sequence serves it that will reply. -/
def Awaited (command : Nat) : Prop :=
  (∃ result, (command, result) ∈ out.sent) ∨ command ∈ out.closed ∨
    ∃ pid input, inputs pid = some input ∧ input.command = command ∧ ∀ message, input.completion ≠ .toast message

/-- What each sequence has changed is what comes before its position. -/
def Tracked (trace : List InputEvent) : Prop :=
  ∀ pid input, inputs pid = some input → changesOf trace input.command pid = input.done ∧ input.Placed

end ok

section grows
variable {commands commands' command : Nat} {out out' out'' : Outside} {inputs : UInt32 → Option ActiveInput}

theorem Grows.refl (commands : Nat) (out : Outside) : Grows commands out out :=
  ⟨fun _ h => h, fun _ h => h, fun _ h => h, fun _ _ _ _ h => .inl h⟩

theorem Grows.trans (h : Grows commands out out') (h' : Grows commands' out' out'') (hle : commands ≤ commands') :
    Grows commands out out'' where
  sent entry hmem := h'.sent entry (h.sent entry hmem)
  closed reply hmem := h'.closed reply (h.closed reply hmem)
  trace event hmem := h'.trace event (h.trace event hmem)
  began command pid strokes outcome hmem :=
    (h'.began command pid strokes outcome hmem).elim (h.began command pid strokes outcome) fun hnew => .inr (hle.trans hnew)

theorem Awaited.grows (h : Awaited inputs out command) (hgrows : Grows commands out out') : Awaited inputs out' command := by
  obtain ⟨result, hsent⟩ | hclosed | hserved := h
  · exact .inl ⟨result, hgrows.sent _ hsent⟩
  · exact .inr (.inl (hgrows.closed _ hclosed))
  · exact .inr (.inr hserved)

theorem Awaited.update {pid : UInt32} {input : ActiveInput} {next : Option ActiveInput} (h : Awaited inputs out command)
    (hinput : inputs pid = some input) (hgrows : Grows commands out out')
    (hnext : (∀ message, input.completion ≠ .toast message) →
      Awaited (Function.update inputs pid next) out' input.command) :
    Awaited (Function.update inputs pid next) out' command := by
  obtain ⟨result, hsent⟩ | hclosed | ⟨p, other, hother, rfl, hreplies⟩ := h
  · exact .inl ⟨result, hgrows.sent _ hsent⟩
  · exact .inr (.inl (hgrows.closed _ hclosed))
  · by_cases hp : p = pid
    · subst hp
      obtain rfl := Option.some.inj (hinput.symm.trans hother)
      exact hnext hreplies
    · exact .inr (.inr ⟨p, other, (Function.update_of_ne hp ..).trans hother, rfl, hreplies⟩)

end grows

/-- What is outside once a sequence has ended. -/
def Outside.ended (out : Outside) (pid : UInt32) (command : Nat) (sent' : List (Nat × Except ControlError CommandOutcome))
    (toasts' : List String) : Outside :=
  { out with
    engine := out.engine.finishTargetedInput pid
    trace := out.trace ++ [.finished command pid]
    sent := sent'
    toasts := toasts' }

theorem Delivered.ended {out : Outside} {command c : Nat} {p pid : UInt32} {strokes : List ResolvedStroke}
    {sent' : List (Nat × Except ControlError CommandOutcome)} {toasts' : List String}
    (h : Delivered out.trace command p strokes) : Delivered (out.ended pid c sent' toasts').trace command p strokes :=
  h.append rfl

section sent
variable {commands reply command : Nat} {result : Except ControlError CommandOutcome}
  {sent : List (Nat × Except ControlError CommandOutcome)}

theorem mem_concat {α : Type} {l : List α} {a b : α} : a ∈ l ++ [b] ↔ a ∈ l ∨ a = b := by
  rw [List.mem_append, List.mem_singleton]

theorem Open.concat (h : Open commands sent command) (hne : command ≠ reply) :
    Open commands (sent ++ [(reply, result)]) command where
  lt := h.lt
  unsent other hmem := (mem_concat.mp hmem).elim (h.unsent other) fun heq => hne (congrArg Prod.fst heq)

theorem once_concat (honce : (sent.map (·.1)).Nodup) (h : Open commands sent reply) :
    ((sent ++ [(reply, result)]).map (·.1)).Nodup := by
  rw [List.map_append]
  refine honce.append (List.nodup_singleton reply) (List.disjoint_singleton.mpr fun hmem => ?_)
  obtain ⟨⟨reply', result'⟩, hsent, rfl⟩ := List.mem_map.mp hmem
  exact h.unsent result' hsent

theorem lt_concat (hsent : ∀ reply result, (reply, result) ∈ sent → reply < commands) (h : Open commands sent reply)
    (reply' : Nat) (result' : Except ControlError CommandOutcome) (hmem : (reply', result') ∈ sent ++ [(reply, result)]) :
    reply' < commands := by
  obtain hold | hnew := mem_concat.mp hmem
  · exact hsent reply' result' hold
  · obtain ⟨rfl, -⟩ := Prod.mk.inj hnew
    exact h.lt

end sent

namespace InputsOk
variable {inputs : UInt32 → Option ActiveInput} {batches : ExtTreeMap Nat PendingBatch} {nextBatchId commands : Nat}
  {out : Outside} {pid : UInt32} {input : ActiveInput}

/-- A sequence that serves the command of a batch is one of the batch. -/
theorem member (h : InputsOk inputs batches nextBatchId commands out) (hinput : inputs pid = some input) {id : Nat}
    {batch : PendingBatch} (hbatch : batches[id]? = some batch) (hreply : batch.reply = input.command) :
    input.completion = .batch id ∧ pid ∈ batch.remaining := by
  obtain ⟨outcome, hbegan, hserves⟩ := (h.input pid input hinput).serves
  have hok := h.batch id batch hbatch
  -- a sequence of the batch serves the same command, so it is of the same process
  have halone (halone : Alone out.trace input.command pid) : input.completion = .batch id := by
    obtain ⟨other, hother⟩ := hok.remaining
    obtain ⟨member, hmember, hcompletion⟩ := hok.members other hother
    obtain ⟨outcome', hbegan', hserves'⟩ := (h.input other member hmember).serves
    unfold Serves at hserves'
    rw [hcompletion] at hserves'
    obtain ⟨batch', hbatch', -, hreply'⟩ := hserves'
    obtain rfl := Option.some.inj (hbatch.symm.trans hbatch')
    rw [← hreply', hreply] at hbegan'
    obtain rfl := halone other _ _ hbegan'
    obtain rfl := Option.some.inj (hinput.symm.trans hmember)
    exact hcompletion
  have hbatchOf (hcompletion : input.completion = .batch id) : pid ∈ batch.remaining := by
    unfold Serves at hserves
    rw [hcompletion] at hserves
    obtain ⟨batch', hbatch', hmem, -⟩ := hserves
    obtain rfl := Option.some.inj (hbatch.symm.trans hbatch')
    exact hmem
  cases hcompletion : input.completion with
  | single reply =>
    unfold Serves at hserves
    rw [hcompletion] at hserves
    have habsurd := halone hserves.2.2
    rw [hcompletion] at habsurd
    cases habsurd
  | toast message =>
    unfold Serves at hserves
    rw [hcompletion] at hserves
    have habsurd := halone hserves
    rw [hcompletion] at habsurd
    cases habsurd
  | batch id' =>
    have hserves' := hserves
    unfold Serves at hserves'
    rw [hcompletion] at hserves'
    obtain ⟨batch', hbatch', -, hreply'⟩ := hserves'
    obtain rfl := h.unique id id' batch batch' hbatch hbatch' (hreply.trans hreply'.symm)
    exact ⟨rfl, hbatchOf hcompletion⟩

theorem command_ne (h : InputsOk inputs batches nextBatchId commands out) (hinput : inputs pid = some input) {reply : Nat}
    {result : Except ControlError CommandOutcome} (hsent : (reply, result) ∈ out.sent) : reply ≠ input.command := by
  rintro rfl
  exact (h.input pid input hinput).opened.unsent result hsent

/-! ### The keys of a phase -/

theorem change (h : InputsOk inputs batches nextBatchId commands out) (hinput : inputs pid = some input) (scan : UInt8)
    (pressed : Bool) {engine : Broadcast.Engine}
    (hengine : Broadcast.Engine.Sequences (Function.update (heldOf inputs out.trace) pid (some
      (Function.update (levels (fun _ => false) (changesOf out.trace input.command pid)) scan pressed))) engine) :
    InputsOk inputs batches nextBatchId commands
      { out with engine, trace := out.trace ++ [.changed input.command pid scan pressed] } := by
  have hmem {command : Nat} {p : UInt32} {strokes : List ResolvedStroke} {outcome : CommandOutcome} :
      InputEvent.began command p strokes outcome ∈ out.trace ++ [.changed input.command pid scan pressed] ↔
        .began command p strokes outcome ∈ out.trace := by
    rw [List.mem_append, List.mem_singleton, or_iff_left InputEvent.noConfusion]
  have hdelivered {command : Nat} {p : UInt32} {strokes : List ResolvedStroke}
      (hne : ¬ (command = input.command ∧ p = pid)) (hdelivered : Delivered out.trace command p strokes) :
      Delivered (out.trace ++ [.changed input.command pid scan pressed]) command p strokes := by
    refine hdelivered.append ?_
    rw [changesOf_singleton]
    show (ite _ _ _ : Option (UInt8 × Bool)).toList = []
    rw [if_neg fun heq => hne ⟨heq.1.symm, heq.2.symm⟩]
    rfl
  refine ⟨hengine.congr fun p => ?_, fun p other hother => ?_, fun id batch hbatch => ?_, h.unique, fun event hevent => ?_,
    fun command p strokes strokes' outcome outcome' hbegan hbegan' =>
      h.began command p strokes strokes' outcome outcome' (hmem.mp hbegan) (hmem.mp hbegan'), h.sent, h.once,
    fun reply outcome hsent => ?_, h.timer⟩
  · unfold heldOf
    by_cases hp : p = pid
    · subst hp
      rw [Function.update_self, hinput, Option.map_some, changesOf_changed, if_pos ⟨rfl, rfl⟩, levels_concat]
    · rw [Function.update_of_ne hp]
      refine Option.map_congr fun other _ => ?_
      rw [changesOf_changed, if_neg fun heq => hp heq.2.symm, List.append_nil]
  · obtain ⟨hpid, hopen, outcome, hbegan, hserves⟩ := h.input p other hother
    refine ⟨hpid, hopen, outcome, hmem.mpr hbegan, ?_⟩
    unfold Serves at hserves ⊢
    cases hcompletion : other.completion with
    | single reply =>
      rw [hcompletion] at hserves
      exact ⟨hserves.1, hserves.2.1, fun q strokes outcome hbegan => hserves.2.2 q strokes outcome (hmem.mp hbegan)⟩
    | batch id =>
      rw [hcompletion] at hserves
      exact hserves
    | toast message =>
      rw [hcompletion] at hserves
      exact fun q strokes outcome hbegan => hserves q strokes outcome (hmem.mp hbegan)
  · have hok := h.batch id batch hbatch
    refine ⟨hok.opened, hok.id_le, hok.remaining, hok.members,
      fun p strokes outcome hbegan => hok.outcome p strokes outcome (hmem.mp hbegan),
      fun herror hclosed p strokes outcome hbegan => ?_⟩
    by_cases hsame : batch.reply = input.command ∧ p = pid
    · rw [hsame.2]
      exact .inl (h.member hinput hbatch hsame.1).2
    · exact (hok.delivered herror hclosed p strokes outcome (hmem.mp hbegan)).imp_right (hdelivered hsame)
  · obtain hold | hnew := List.mem_append.mp hevent
    · exact h.event event hold
    · rw [List.mem_singleton.mp hnew]
      exact (h.input pid input hinput).opened.lt
  · obtain ⟨⟨p, strokes, hbegan⟩, hall⟩ := h.success reply outcome hsent
    refine ⟨⟨p, strokes, hmem.mpr hbegan⟩, fun p strokes outcome' hbegan => ?_⟩
    obtain ⟨houtcome, hd⟩ := hall p strokes outcome' (hmem.mp hbegan)
    exact ⟨houtcome, hdelivered (fun hsame => h.command_ne hinput hsent hsame.1) hd⟩

/-- The keys of a phase, up to the first that the engine refuses. -/
theorem changeKeys (h : InputsOk inputs batches nextBatchId commands out) (hinput : inputs pid = some input)
    (pressed : Bool) (scans : List UInt8) :
    InputsOk inputs batches nextBatchId commands (Outside.changeKeys input.command pid pressed scans out).2 ∧
      ((Outside.changeKeys input.command pid pressed scans out).1 = none →
        changesOf (Outside.changeKeys input.command pid pressed scans out).2.trace input.command pid =
          changesOf out.trace input.command pid ++ scans.map (·, pressed)) ∧
      (∀ command p, p ≠ pid → changesOf (Outside.changeKeys input.command pid pressed scans out).2.trace command p =
        changesOf out.trace command p) ∧
      Grows commands out (Outside.changeKeys input.command pid pressed scans out).2 := by
  induction scans generalizing out with
  | nil => exact ⟨h, fun _ => (List.append_nil _).symm, fun _ _ _ => rfl, .refl commands out⟩
  | cons scan scans ih =>
    have hheld : heldOf inputs out.trace pid =
        some (levels (fun _ => false) (changesOf out.trace input.command pid)) := by
      unfold heldOf
      rw [hinput]
      rfl
    unfold Outside.changeKeys
    obtain ⟨error, herror⟩ | ⟨engine, hok, hengine⟩ :=
      Broadcast.Engine.setTargetedKey_spec h.sequences hheld scan pressed
    · rw [herror]
      exact ⟨h, (absurd · (Option.some_ne_none _)), fun _ _ _ => rfl, .refl commands out⟩
    · rw [hok]
      dsimp only
      obtain ⟨hinv, hchanges, hothers, hgrows⟩ := ih (h.change hinput scan pressed hengine)
      have hchanged : Grows commands out
          { out with engine, trace := out.trace ++ [.changed input.command pid scan pressed] } :=
        ⟨fun _ hmem => hmem, fun _ hmem => hmem, fun _ hmem => List.mem_append_left _ hmem, fun _ _ _ _ hmem =>
          .inl ((mem_concat.mp hmem).resolve_right InputEvent.noConfusion)⟩
      refine ⟨hinv, fun hnone => ?_, fun command p hp => ?_, hchanged.trans hgrows (Nat.le_refl commands)⟩
      · rw [hchanges hnone, changesOf_changed, if_pos ⟨rfl, rfl⟩, List.append_assoc]
        rfl
      · rw [hothers command p hp, changesOf_changed, if_neg fun heq => hp heq.2.symm, List.append_nil]

theorem keep (h : InputsOk inputs batches nextBatchId commands out) (hinput : inputs pid = some input)
    {next : ActiveInput} (hsame : ActiveInput.Same input next) :
    InputsOk (Function.update inputs pid (some next)) batches nextBatchId commands out := by
  have hupdate {p : UInt32} {other : ActiveInput} (hother : Function.update inputs pid (some next) p = some other) :
      ∃ before, inputs p = some before ∧ ActiveInput.Same before other := by
    by_cases hp : p = pid
    · subst hp
      rw [Function.update_self] at hother
      obtain rfl := Option.some.inj hother
      exact ⟨input, hinput, hsame⟩
    · rw [Function.update_of_ne hp] at hother
      exact ⟨other, hother, .refl other⟩
  refine { h with
    sequences := h.sequences.congr fun p => ?_
    input := fun p other hother => ?_
    batch := fun id batch hbatch => ?_
    timer := fun p other hother => ?_ }
  · unfold heldOf
    by_cases hp : p = pid
    · subst hp
      rw [Function.update_self, hinput, Option.map_some, Option.map_some, hsame.command]
    · rw [Function.update_of_ne hp]
  · obtain ⟨before, hbefore, hsame⟩ := hupdate hother
    obtain ⟨hpid, hopen, outcome, hbegan, hserves⟩ := h.input p before hbefore
    have houtcome : outcomeOf other = outcomeOf before := by
      unfold outcomeOf
      rw [hsame.kind, hsame.strokes]
    refine ⟨hsame.pid.trans hpid, hsame.command.symm ▸ hopen, outcome, ?_, ?_⟩
    · rw [hsame.command, hsame.strokes]
      exact hbegan
    · unfold Serves at hserves ⊢
      rw [hsame.completion, hsame.command, houtcome]
      exact hserves
  · have hok := h.batch id batch hbatch
    refine { hok with members := fun p hp => ?_ }
    obtain ⟨member, hmember, hcompletion⟩ := hok.members p hp
    by_cases hp : p = pid
    · subst hp
      obtain rfl := Option.some.inj (hinput.symm.trans hmember)
      exact ⟨next, Function.update_self .., hsame.completion.trans hcompletion⟩
    · exact ⟨member, (Function.update_of_ne hp ..).trans hmember, hcompletion⟩
  · obtain ⟨before, hbefore, -⟩ := hupdate hother
    exact h.timer p before hbefore

/-! ### The end of a sequence -/

section finish
variable {batches' : ExtTreeMap Nat PendingBatch} {sent' : List (Nat × Except ControlError CommandOutcome)}
  {toasts' : List String}

theorem mem_ended {command : Nat} {p : UInt32} {strokes : List ResolvedStroke} {outcome : CommandOutcome} :
    InputEvent.began command p strokes outcome ∈ (out.ended pid input.command sent' toasts').trace ↔
      .began command p strokes outcome ∈ out.trace := by
  unfold Outside.ended
  rw [List.mem_append, List.mem_singleton, or_iff_left InputEvent.noConfusion]

theorem delivered_ended (h : changesOf out.trace input.command pid = input.strokes.flatMap keyChanges) :
    Delivered (out.ended pid input.command sent' toasts').trace input.command pid input.strokes where
  changes := (changesOf_finished ..).trans h
  finished := List.mem_append_right _ List.mem_cons_self

/-- A sequence ends: what is left to show is what becomes of its batch and of its reply. -/
theorem ended (h : InputsOk inputs batches nextBatchId commands out)
    (hopen : ∀ p other, p ≠ pid → inputs p = some other → Open commands sent' other.command ∧
      ∀ id, other.completion = .batch id →
        ∃ batch, batches'[id]? = some batch ∧ p ∈ batch.remaining ∧ batch.reply = other.command)
    (hbatch : ∀ (id : Nat) batch, batches'[id]? = some batch → BatchOk (Function.update inputs pid none) nextBatchId commands
      (out.ended pid input.command sent' toasts') id batch)
    (hunique : ∀ (id id' : Nat) batch batch', batches'[id]? = some batch → batches'[id']? = some batch' →
      batch.reply = batch'.reply → id = id')
    (hinput : inputs pid = some input) (hsent : ∀ reply result, (reply, result) ∈ sent' → reply < commands)
    (honce : (sent'.map (·.1)).Nodup)
    (hsuccess : ∀ reply outcome, (reply, .ok outcome) ∈ sent' → (reply, .ok outcome) ∈ out.sent ∨
      (∃ p strokes, .began reply p strokes outcome ∈ out.trace) ∧ ∀ p strokes outcome',
        .began reply p strokes outcome' ∈ out.trace → outcome' = outcome ∧
          Delivered (out.ended pid input.command sent' toasts').trace reply p strokes) :
    InputsOk (Function.update inputs pid none) batches' nextBatchId commands
      (out.ended pid input.command sent' toasts') := by
  have hother {p : UInt32} {other : ActiveInput} (hother : Function.update inputs pid none p = some other) :
      p ≠ pid ∧ inputs p = some other := by
    by_cases hp : p = pid
    · rw [hp, Function.update_self] at hother
      cases hother
    · rw [Function.update_of_ne hp] at hother
      exact ⟨hp, hother⟩
  refine ⟨(h.sequences.finish pid).congr fun p => ?_, fun p other hp => ?_, hbatch, hunique, fun event hevent => ?_,
    fun command p strokes strokes' outcome outcome' hbegan hbegan' =>
      h.began command p strokes strokes' outcome outcome' (mem_ended.mp hbegan) (mem_ended.mp hbegan'), hsent, honce,
    fun reply outcome hmem => ?_, fun p other hp => h.timer p other (hother hp).2⟩
  · unfold heldOf
    by_cases hp : p = pid
    · rw [hp, Function.update_self, Function.update_self]
      rfl
    · rw [Function.update_of_ne hp, Function.update_of_ne hp]
      exact Option.map_congr fun other _ => congrArg (levels _) (changesOf_finished ..)
  · obtain ⟨hp, hinputs⟩ := hother hp
    obtain ⟨hpid, -, outcome, hbegan, hserves⟩ := h.input p other hinputs
    obtain ⟨hopened, hbatches⟩ := hopen p other hp hinputs
    refine ⟨hpid, hopened, outcome, mem_ended.mpr hbegan, ?_⟩
    unfold Serves at hserves ⊢
    cases hcompletion : other.completion with
    | single reply =>
      rw [hcompletion] at hserves
      exact ⟨hserves.1, hserves.2.1, fun q strokes outcome hbegan => hserves.2.2 q strokes outcome (mem_ended.mp hbegan)⟩
    | batch id => exact hbatches id hcompletion
    | toast message =>
      rw [hcompletion] at hserves
      exact fun q strokes outcome hbegan => hserves q strokes outcome (mem_ended.mp hbegan)
  · obtain hold | hnew := List.mem_append.mp hevent
    · exact h.event event hold
    · rw [List.mem_singleton.mp hnew]
      exact (h.input pid input hinput).opened.lt
  · obtain hold | ⟨⟨p, strokes, hbegan⟩, hall⟩ := hsuccess reply outcome hmem
    · obtain ⟨⟨p, strokes, hbegan⟩, hall⟩ := h.success reply outcome hold
      refine ⟨⟨p, strokes, mem_ended.mpr hbegan⟩, fun p strokes outcome' hbegan => ?_⟩
      obtain ⟨houtcome, hdelivered⟩ := hall p strokes outcome' (mem_ended.mp hbegan)
      exact ⟨houtcome, hdelivered.ended⟩
    · exact ⟨⟨p, strokes, mem_ended.mpr hbegan⟩, fun p strokes outcome' hbegan =>
        hall p strokes outcome' (mem_ended.mp hbegan)⟩

theorem batch_ended (h : InputsOk inputs batches nextBatchId commands out) (hinput : inputs pid = some input) {id : Nat}
    {batch : PendingBatch} (hbatch : batches[id]? = some batch) (hother : input.completion ≠ .batch id)
    (hopened : Open commands sent' batch.reply) :
    BatchOk (Function.update inputs pid none) nextBatchId commands (out.ended pid input.command sent' toasts') id batch := by
  have hok := h.batch id batch hbatch
  refine ⟨hopened, hok.id_le, hok.remaining, fun p hp => ?_,
    fun p strokes outcome hbegan => hok.outcome p strokes outcome (mem_ended.mp hbegan),
    fun herror hclosed p strokes outcome hbegan =>
      (hok.delivered herror hclosed p strokes outcome (mem_ended.mp hbegan)).imp_right Delivered.ended⟩
  obtain ⟨member, hmember, hcompletion⟩ := hok.members p hp
  refine ⟨member, ?_, hcompletion⟩
  rw [Function.update_of_ne]
  · exact hmember
  · rintro rfl
    obtain rfl := Option.some.inj (hinput.symm.trans hmember)
    exact hother hcompletion

theorem batch_of (h : InputsOk inputs batches nextBatchId commands out) (hinput : inputs pid = some input) {id : Nat}
    (hcompletion : input.completion = .batch id) :
    ∃ batch, batches[id]? = some batch ∧ pid ∈ batch.remaining ∧ batch.reply = input.command := by
  obtain ⟨outcome, -, hserves⟩ := (h.input pid input hinput).serves
  unfold Serves at hserves
  rw [hcompletion] at hserves
  exact hserves

theorem ended_quietly (h : InputsOk inputs batches nextBatchId commands out) (hinput : inputs pid = some input)
    (hbatch : ∀ id, input.completion ≠ .batch id) (toasts' : List String) :
    InputsOk (Function.update inputs pid none) batches nextBatchId commands
      (out.ended pid input.command out.sent toasts') :=
  h.ended (fun p other _ hother => ⟨(h.input p other hother).opened, fun _ => h.batch_of hother⟩)
    (fun id batch hmem => h.batch_ended hinput hmem (hbatch id) (h.batch id batch hmem).opened) h.unique hinput h.sent h.once
    fun _ _ => .inl

theorem ended_single (h : InputsOk inputs batches nextBatchId commands out) (hinput : inputs pid = some input) {reply : Nat}
    (hcompletion : input.completion = .single reply) (result : Except ControlError CommandOutcome)
    (hresult : ∀ outcome, result = .ok outcome →
      outcome = outcomeOf input ∧ changesOf out.trace input.command pid = input.strokes.flatMap keyChanges) :
    InputsOk (Function.update inputs pid none) batches nextBatchId commands
      (out.ended pid input.command (out.sent ++ [(reply, result)]) out.toasts) := by
  have hok := h.input pid input hinput
  obtain ⟨outcome, hbegan, hserves⟩ := hok.serves
  unfold Serves at hserves
  rw [hcompletion] at hserves
  obtain ⟨rfl, rfl, halone⟩ := hserves
  refine h.ended (fun p other hp hother => ⟨?_, fun _ => h.batch_of hother⟩) (fun id batch hbatch => ?_) h.unique hinput
    (lt_concat h.sent hok.opened) (once_concat h.once hok.opened) (fun reply' outcome' hsent => ?_)
  · refine (h.input p other hother).opened.concat fun heq => hp ?_
    obtain ⟨outcome', hbegan', -⟩ := (h.input p other hother).serves
    rw [heq] at hbegan'
    exact halone p _ _ hbegan'
  · have hne : input.completion ≠ .batch id := by
      rw [hcompletion]
      exact InputCompletion.noConfusion
    refine h.batch_ended hinput hbatch hne ((h.batch id batch hbatch).opened.concat fun heq => ?_)
    exact hne (h.member hinput hbatch heq).1
  · obtain hold | hnew := mem_concat.mp hsent
    · exact .inl hold
    · obtain ⟨rfl, hresult'⟩ := Prod.mk.inj hnew
      obtain ⟨houtcome, hchanges⟩ := hresult outcome' hresult'.symm
      refine .inr ⟨⟨pid, input.strokes, houtcome ▸ hbegan⟩, fun p strokes outcome'' hbegan' => ?_⟩
      obtain rfl := halone p strokes outcome'' hbegan'
      obtain ⟨rfl, rfl⟩ := h.began _ _ _ _ _ _ hbegan hbegan'
      exact ⟨houtcome.symm, delivered_ended hchanges⟩

theorem ended_batch (h : InputsOk inputs batches nextBatchId commands out) (hinput : inputs pid = some input) {id : Nat}
    {batch : PendingBatch} (hbatch : batches[id]? = some batch) (hcompletion : input.completion = .batch id)
    (result : Option (Except ControlError CommandOutcome))
    (hresult : ∀ outcome, result = some (.ok outcome) →
      changesOf out.trace input.command pid = input.strokes.flatMap keyChanges)
    (hclosed : result = none → batch.reply ∈ out.closed) :
    if (batch.finish pid result).remaining = ∅ then
      ∀ sent', (sent' = out.sent ∨ batch.reply ∉ out.closed ∧
          sent' = out.sent ++ [(batch.reply, (batch.finish pid result).outcome)]) →
        InputsOk (Function.update inputs pid none) (batches.erase id) nextBatchId commands
          (out.ended pid input.command sent' out.toasts)
    else
      InputsOk (Function.update inputs pid none) (batches.insert id (batch.finish pid result)) nextBatchId commands
        (out.ended pid input.command out.sent out.toasts) := by
  have hok := h.batch id batch hbatch
  have hreply : batch.reply = input.command := by
    obtain ⟨batch', hbatch', -, hreply⟩ := h.batch_of hinput hcompletion
    obtain rfl := Option.some.inj (hbatch.symm.trans hbatch')
    exact hreply
  obtain ⟨outcome, hbegan, -⟩ := (h.input pid input hinput).serves
  -- what the sequence is to send has been sent, if nothing has gone wrong
  have hdelivered (herror : (batch.finish pid result).error = none) (hopen : batch.reply ∉ out.closed) :
      batch.error = none ∧ ∀ sent' p strokes outcome', .began batch.reply p strokes outcome' ∈ out.trace →
        p ∈ (batch.finish pid result).remaining ∨
          Delivered (out.ended pid input.command sent' out.toasts).trace batch.reply p strokes := by
    have herror₀ : batch.error = none := by
      unfold PendingBatch.finish at herror
      cases hbefore : batch.error with
      | none => rfl
      | some error =>
        dsimp only at herror
        rw [hbefore] at herror
        cases herror
    have hdone : ∃ outcome, result = some (.ok outcome) := by
      unfold PendingBatch.finish at herror
      rw [herror₀] at herror
      match result, herror, hclosed with
      | none, _, hclosed => exact absurd (hclosed rfl) hopen
      | some (.error error), herror, _ => cases herror
      | some (.ok outcome), _, _ => exact ⟨outcome, rfl⟩
    obtain ⟨outcome, hdone⟩ := hdone
    refine ⟨herror₀, fun sent' p strokes outcome' hbegan' => ?_⟩
    by_cases hp : p = pid
    · subst hp
      rw [hreply] at hbegan' ⊢
      obtain ⟨rfl, -⟩ := h.began _ _ _ _ _ _ hbegan hbegan'
      exact .inr (delivered_ended (hresult outcome hdone))
    · exact (hok.delivered herror₀ hopen p strokes outcome' hbegan').imp
        (fun hmem => Finset.mem_erase.mpr ⟨hp, hmem⟩) Delivered.ended
  have hothers {p : UInt32} {other : ActiveInput} (hp : p ≠ pid) (hother : inputs p = some other)
      (hsame : other.command = batch.reply ∨ other.completion = .batch id) : p ∈ (batch.finish pid result).remaining := by
    refine Finset.mem_erase.mpr ⟨hp, ?_⟩
    obtain hcommand | hcompletion' := hsame
    · exact (h.member hother hbatch hcommand.symm).2
    · obtain ⟨batch', hbatch', hmem, -⟩ := h.batch_of hother hcompletion'
      obtain rfl := Option.some.inj (hbatch.symm.trans hbatch')
      exact hmem
  have hdifferent {id' : Nat} (hid : id ≠ id') : input.completion ≠ .batch id' := by
    rw [hcompletion]
    exact fun heq => hid (InputCompletion.batch.inj heq)
  split_ifs with hempty
  · intro sent' hsent'
    have hopenOf {command : Nat} (hopened : Open commands out.sent command) (hne : command ≠ batch.reply) :
        Open commands sent' command := by
      obtain rfl | ⟨-, rfl⟩ := hsent'
      · exact hopened
      · exact hopened.concat hne
    have hnone {p : UInt32} (hmem : p ∈ (batch.finish pid result).remaining) : False := by
      rw [hempty] at hmem
      exact absurd hmem (Finset.notMem_empty p)
    refine h.ended (fun p other hp hother => ⟨?_, fun id' hcompletion' => ?_⟩) (fun id' batch' hbatch' => ?_)
      (fun id₁ id₂ batch₁ batch₂ h₁ h₂ => ?_) hinput ?_ ?_ (fun reply outcome' hsent => ?_)
    · exact hopenOf (h.input p other hother).opened fun heq => hnone (hothers hp hother (.inl heq))
    · obtain ⟨batch', hbatch', hmem⟩ := h.batch_of hother hcompletion'
      refine ⟨batch', ?_, hmem⟩
      rw [ExtTreeMap.getElem?_erase_ite, if_neg]
      · exact hbatch'
      · rintro rfl
        exact hnone (hothers hp hother (.inr hcompletion'))
    · rw [ExtTreeMap.getElem?_erase_ite] at hbatch'
      split_ifs at hbatch' with hid
      refine h.batch_ended hinput hbatch' (hdifferent hid) (hopenOf (h.batch id' batch' hbatch').opened fun heq => hid ?_)
      exact h.unique id id' batch batch' hbatch hbatch' heq.symm
    · rw [ExtTreeMap.getElem?_erase_ite] at h₁ h₂
      split_ifs at h₁ h₂
      exact h.unique id₁ id₂ batch₁ batch₂ h₁ h₂
    · obtain rfl | ⟨-, rfl⟩ := hsent'
      · exact h.sent
      · exact lt_concat h.sent hok.opened
    · obtain rfl | ⟨-, rfl⟩ := hsent'
      · exact h.once
      · exact once_concat h.once hok.opened
    · obtain rfl | ⟨hopen, rfl⟩ := hsent'
      · exact .inl hsent
      · obtain hold | hnew := mem_concat.mp hsent
        · exact .inl hold
        · obtain ⟨rfl, houtcome⟩ := Prod.mk.inj hnew
          have herror : (batch.finish pid result).error = none ∧ outcome' = batch.delivered := by
            unfold PendingBatch.outcome at houtcome
            cases herror : (batch.finish pid result).error with
            | some error =>
              rw [herror] at houtcome
              cases houtcome
            | none =>
              rw [herror] at houtcome
              exact ⟨rfl, Except.ok.inj houtcome⟩
          obtain ⟨herror, rfl⟩ := herror
          obtain ⟨-, hall⟩ := hdelivered herror hopen
          refine .inr ⟨⟨pid, input.strokes, ?_⟩, fun p strokes outcome'' hbegan' => ⟨?_, ?_⟩⟩
          · rw [← hok.outcome pid input.strokes outcome (hreply ▸ hbegan), hreply]
            exact hbegan
          · exact hok.outcome p strokes outcome'' hbegan'
          · exact (hall _ p strokes outcome'' hbegan').resolve_left hnone
  · refine h.ended (fun p other hp hother => ⟨(h.input p other hother).opened, fun id' hcompletion' => ?_⟩)
      (fun id' batch' hbatch' => ?_) (fun id₁ id₂ batch₁ batch₂ h₁ h₂ hsame => ?_) hinput h.sent h.once
      (fun _ _ => .inl)
    · obtain ⟨batch', hbatch', hmem, hreply'⟩ := h.batch_of hother hcompletion'
      rw [ExtTreeMap.getElem?_insert_ite]
      by_cases hid : id = id'
      · subst hid
        obtain rfl := Option.some.inj (hbatch.symm.trans hbatch')
        rw [if_pos rfl]
        exact ⟨_, rfl, hothers hp hother (.inr hcompletion'), hreply'⟩
      · rw [if_neg hid]
        exact ⟨batch', hbatch', hmem, hreply'⟩
    · rw [ExtTreeMap.getElem?_insert_ite] at hbatch'
      by_cases hid : id = id'
      · subst hid
        rw [if_pos rfl] at hbatch'
        obtain rfl := Option.some.inj hbatch'
        refine ⟨hok.opened, hok.id_le, Finset.nonempty_iff_ne_empty.mpr hempty, fun p hp => ?_,
          fun p strokes outcome' hbegan' => hok.outcome p strokes outcome' (mem_ended.mp hbegan'),
          fun herror hopen p strokes outcome' hbegan' => ?_⟩
        · obtain ⟨hne, hmem⟩ := Finset.mem_erase.mp hp
          obtain ⟨member, hmember, hmembers⟩ := hok.members p hmem
          exact ⟨member, (Function.update_of_ne hne ..).trans hmember, hmembers⟩
        · exact (hdelivered herror hopen).2 out.sent p strokes outcome' (mem_ended.mp hbegan')
      · rw [if_neg hid] at hbatch'
        exact h.batch_ended hinput hbatch' (hdifferent hid) (h.batch id' batch' hbatch').opened
    · have hwas {id' : Nat} {batch' : PendingBatch}
          (hmem : (batches.insert id (batch.finish pid result))[id']? = some batch') :
          ∃ before, batches[id']? = some before ∧ batch'.reply = before.reply := by
        rw [ExtTreeMap.getElem?_insert_ite] at hmem
        split_ifs at hmem with hid
        · subst hid
          obtain rfl := Option.some.inj hmem
          exact ⟨batch, hbatch, rfl⟩
        · exact ⟨batch', hmem, rfl⟩
      obtain ⟨before₁, hbefore₁, hreply₁⟩ := hwas h₁
      obtain ⟨before₂, hbefore₂, hreply₂⟩ := hwas h₂
      exact h.unique id₁ id₂ before₁ before₂ hbefore₁ hbefore₂ (by rw [← hreply₁, ← hreply₂, hsame])

end finish

end InputsOk

end Stonemite.Control
