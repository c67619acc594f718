import Stonemite.Control.InputsTick

/-!
# The beginning of input sequences

A command begins a sequence for each of its processes or for none: what has been acquired is given back when a later
process is refused. A process never has two sequences. `AllOrNone` is the result of the loop over the processes; `Fresh`
and `Running` say what holds of a process before and after.
-/

namespace Stonemite.Control
open Std Trushar Keymaps

/-! ### The engine -/

section engine
variable {held held' : UInt32 → Option (UInt8 → Bool)}

theorem foldl_finishTargetedInput (out : Outside) (pids : List UInt32) (h : Broadcast.Engine.Sequences held' out.engine)
    (hsame : ∀ pid, held' pid = held pid ∨ pid ∈ pids) (hnone : ∀ pid ∈ pids, held pid = none) :
    ∃ engine, pids.foldl Outside.finishTargetedInput out = { out with engine } ∧
      Broadcast.Engine.Sequences held engine := by
  induction pids generalizing out held' with
  | nil => exact ⟨out.engine, rfl, h.congr fun pid => ((hsame pid).resolve_right List.not_mem_nil).symm⟩
  | cons pid pids ih =>
    refine ih (out.finishTargetedInput pid) (h.finish pid) (fun p => ?_)
      fun p hp => hnone p (List.mem_cons_of_mem pid hp)
    by_cases hp : p = pid
    · subst hp
      rw [Function.update_self]
      exact .inl (hnone p List.mem_cons_self).symm
    · rw [Function.update_of_ne hp]
      exact (hsame p).imp_right fun hmem => (List.mem_cons.mp hmem).resolve_left hp

/-- The sequences of some processes have just begun. -/
def begun (held : UInt32 → Option (UInt8 → Bool)) (pids : List UInt32) (pid : UInt32) : Option (UInt8 → Bool) :=
  if pid ∈ pids then some fun _ => false else held pid

theorem acquire_spec (a : Answers) (out : Outside) (pids : List UInt32) {acquired : List UInt32}
    (h : Broadcast.Engine.Sequences (begun held acquired) out.engine) (hnone : ∀ pid ∈ acquired ++ pids, held pid = none)
    (hbusy : ∀ pid ∈ acquired, out.engine.Busy pid) (hnodup : acquired.Nodup) :
    (∃ error engine, acquire a acquired pids out = (.error error, { out with engine }) ∧
      Broadcast.Engine.Sequences held engine) ∨
    ∃ engine, acquire a acquired pids out = (.ok (), { out with engine }) ∧ (acquired ++ pids).Nodup ∧
      Broadcast.Engine.Sequences (begun held (acquired ++ pids)) engine := by
  induction pids generalizing acquired out with
  | nil =>
    rw [List.append_nil]
    exact .inr ⟨out.engine, rfl, hnodup, h⟩
  | cons pid pids ih =>
    unfold acquire Outside.beginTargetedInput
    obtain ⟨error, herror⟩ | ⟨engine, hok, hengine⟩ := Broadcast.Engine.beginTargetedInput_spec h a.engine pid
    · rw [herror]
      obtain ⟨engine, hfinished, hheld⟩ := foldl_finishTargetedInput out acquired h
        (fun p => by unfold begun; split_ifs with hp <;> [exact .inr hp; exact .inl rfl])
        fun p hp => hnone p (List.mem_append_left _ hp)
      exact .inl ⟨error, engine, congrArg (Prod.mk _) hfinished, hheld⟩
    · obtain ⟨hidle, hbegun, hothers⟩ := Broadcast.Engine.beginTargetedInput_busy hok
      rw [hok]
      dsimp only
      rw [List.append_cons acquired pid pids] at hnone ⊢
      refine ih { out with engine } (hengine.congr fun p => ?_) hnone (fun p hp => ?_) ?_
      · unfold begun
        by_cases hp : p = pid
        · subst hp
          rw [Function.update_self, if_pos (List.mem_append_right _ List.mem_cons_self)]
        · rw [Function.update_of_ne hp]
          exact if_congr (by rw [mem_concat, or_iff_left hp]) rfl rfl
      · obtain hold | rfl := mem_concat.mp hp
        · exact hothers p (hbusy p hold)
        · exact hbegun
      · exact hnodup.append (List.nodup_singleton pid)
          (List.disjoint_singleton.mpr fun hmem => hidle (hbusy pid hmem))

end engine

/-! ### Sequences join those under way -/

/-- The event of a sequence that begins. -/
def beganOf (outcome : CommandOutcome) (input : ActiveInput) : InputEvent :=
  .began input.command input.pid input.strokes outcome

/-- Sequences of one command that are about to begin. -/
structure Fresh (inputs : UInt32 → Option ActiveInput) (commands now : Nat) (fresh : List ActiveInput) : Prop where
  command : ∀ input ∈ fresh, input.command = commands
  idle : ∀ input ∈ fresh, inputs input.pid = none
  start : ∀ input ∈ fresh, input.index = 0 ∧ input.phase = .press
  nextStep : ∀ input ∈ fresh, input.nextStep = now + inputActivationDelay

/-- The sequences with those that have joined. -/
structure Joined (inputs : UInt32 → Option ActiveInput) (fresh : List ActiveInput) (inputs' : UInt32 → Option ActiveInput) :
    Prop where
  new : ∀ input ∈ fresh, inputs' input.pid = some input
  old : ∀ pid, pid ∉ fresh.map (·.pid) → inputs' pid = inputs pid

/-- The batches with the one that the new sequences are of, if they are of one. -/
structure Batched (batches : ExtTreeMap Nat PendingBatch) (nextBatchId commands : Nat) (fresh : List ActiveInput)
    (outcome : CommandOutcome) (batches' : ExtTreeMap Nat PendingBatch) (nextBatchId' : Nat) : Prop where
  le : nextBatchId ≤ nextBatchId'
  old : ∀ (id : Nat) batch, batches[id]? = some batch → batches'[id]? = some batch
  new : ∀ (id : Nat) batch, batches'[id]? = some batch → batches[id]? = some batch ∨
    batch.reply = commands ∧ id ≤ nextBatchId' ∧ batch.remaining = (fresh.map (·.pid)).toFinset ∧ fresh ≠ [] ∧
      batch.delivered = outcome ∧ ∀ input ∈ fresh, input.completion = .batch id

namespace InputsOk
variable {inputs inputs' : UInt32 → Option ActiveInput} {batches batches' : ExtTreeMap Nat PendingBatch}
  {nextBatchId nextBatchId' commands now : Nat} {out : Outside} {fresh : List ActiveInput} {outcome : CommandOutcome}
  {engine' : Broadcast.Engine}

theorem mem_began {events : List InputEvent} (hevents : events = fresh.map (beganOf outcome))
    (hcommand : ∀ input ∈ fresh, input.command = commands) {command : Nat} {pid : UInt32} {strokes : List ResolvedStroke}
    {outcome' : CommandOutcome} (hmem : InputEvent.began command pid strokes outcome' ∈ events) :
    command = commands ∧ outcome' = outcome ∧ ∃ input ∈ fresh, input.pid = pid ∧ input.strokes = strokes := by
  rw [hevents] at hmem
  obtain ⟨input, hinput, heq⟩ := List.mem_map.mp hmem
  obtain ⟨rfl, rfl, rfl, rfl⟩ := InputEvent.began.inj heq
  exact ⟨hcommand input hinput, rfl, input, hinput, rfl, rfl⟩

theorem changesOf_began (trace : List InputEvent) (fresh : List ActiveInput) (outcome : CommandOutcome) (command : Nat)
    (pid : UInt32) : changesOf (trace ++ fresh.map (beganOf outcome)) command pid = changesOf trace command pid := by
  have hnone : changesOf (fresh.map (beganOf outcome)) command pid = [] := by
    refine List.filterMap_eq_nil_iff.mpr fun event hevent => ?_
    obtain ⟨input, -, rfl⟩ := List.mem_map.mp hevent
    rfl
  rw [changesOf_append, hnone, List.append_nil]

/-- Sequences of a new command begin, one for each of its processes. -/
theorem enter (h : InputsOk inputs batches nextBatchId commands out) (hfresh : Fresh inputs commands now fresh)
    (hjoined : Joined inputs fresh inputs') (hbatched : Batched batches nextBatchId commands fresh outcome batches' nextBatchId')
    (hengine : Broadcast.Engine.Sequences (begun (heldOf inputs out.trace) (fresh.map (·.pid))) engine')
    (hserves : ∀ input ∈ fresh, Serves batches' (out.trace ++ fresh.map (beganOf outcome)) input.pid input outcome) :
    InputsOk inputs' batches' nextBatchId' (commands + 1)
      { out with engine := engine', timer := true, trace := out.trace ++ fresh.map (beganOf outcome) } := by
  have hchanges := changesOf_began out.trace fresh outcome
  generalize hevents : fresh.map (beganOf outcome) = events at hserves hchanges ⊢
  have hnew {command : Nat} {pid : UInt32} {strokes : List ResolvedStroke} {outcome' : CommandOutcome}
      (hmem : .began command pid strokes outcome' ∈ events) := mem_began hevents.symm hfresh.command hmem
  -- what began before serves an older command
  have hold {command : Nat} {pid : UInt32} {strokes : List ResolvedStroke} {outcome' : CommandOutcome}
      (hlt : command < commands) (hmem : .began command pid strokes outcome' ∈ out.trace ++ events) :
      .began command pid strokes outcome' ∈ out.trace :=
    (List.mem_append.mp hmem).resolve_right fun hevent => hlt.ne (hnew hevent).1
  have hdelivered {command : Nat} {pid : UInt32} {strokes : List ResolvedStroke}
      (hdelivered : Delivered out.trace command pid strokes) : Delivered (out.trace ++ events) command pid strokes :=
    ⟨(hchanges command pid).trans hdelivered.changes, List.mem_append_left _ hdelivered.finished⟩
  have hcases {pid : UInt32} {input : ActiveInput} (hinput : inputs' pid = some input) :
      (input ∈ fresh ∧ input.pid = pid) ∨ pid ∉ fresh.map (·.pid) ∧ inputs pid = some input := by
    by_cases hmem : pid ∈ fresh.map (·.pid)
    · obtain ⟨new, hnew, rfl⟩ := List.mem_map.mp hmem
      obtain rfl := Option.some.inj (hinput.symm.trans (hjoined.new new hnew))
      exact .inl ⟨hnew, rfl⟩
    · exact .inr ⟨hmem, (hjoined.old pid hmem).symm.trans hinput⟩
  have hkept {pid : UInt32} {input : ActiveInput} (hinput : inputs pid = some input) : inputs' pid = some input := by
    refine (hjoined.old pid fun hmem => ?_).trans hinput
    obtain ⟨new, hnew, rfl⟩ := List.mem_map.mp hmem
    exact absurd ((hfresh.idle new hnew).symm.trans hinput) (Option.some_ne_none input).symm
  refine ⟨hengine.congr fun pid => ?_, fun pid input hinput => ?_, fun id batch hbatch => ?_,
    fun id id' batch batch' hbatch hbatch' hreply => ?_, fun event hevent => ?_,
    fun command pid strokes strokes' outcome₁ outcome₂ hbegan hbegan' => ?_,
    fun reply result hsent => Nat.lt_succ_of_lt (h.sent reply result hsent), h.once, fun reply outcome' hsent => ?_,
    fun _ _ _ => rfl⟩
  · unfold heldOf begun
    dsimp only
    by_cases hmem : pid ∈ fresh.map (·.pid)
    · rw [if_pos hmem]
      obtain ⟨input, hinput, rfl⟩ := List.mem_map.mp hmem
      have hnothing : changesOf out.trace commands input.pid = [] :=
        changesOf_eq_nil fun event hevent => (h.event event hevent).ne
      rw [hjoined.new input hinput, Option.map_some, hchanges, hfresh.command input hinput, hnothing]
      rfl
    · rw [if_neg hmem, hjoined.old pid hmem]
      exact Option.map_congr fun input _ => congrArg (levels _) (hchanges _ _)
  · obtain ⟨hmem, rfl⟩ | ⟨-, hinput⟩ := hcases hinput
    · refine ⟨rfl, ⟨(hfresh.command input hmem) ▸ Nat.lt_succ_self _, fun result hsent => ?_⟩, outcome, ?_, hserves input hmem⟩
      · exact (h.sent _ _ hsent).ne (hfresh.command input hmem)
      · rw [← hevents]
        exact List.mem_append_right _ (List.mem_map_of_mem hmem)
    · obtain ⟨hpid, hopen, outcome', hbegan, hserves'⟩ := h.input pid input hinput
      refine ⟨hpid, ⟨Nat.lt_succ_of_lt hopen.lt, hopen.unsent⟩, outcome', List.mem_append_left _ hbegan, ?_⟩
      unfold Serves at hserves' ⊢
      cases hcompletion : input.completion with
      | single reply =>
        rw [hcompletion] at hserves'
        exact ⟨hserves'.1, hserves'.2.1, fun p strokes outcome hmem => hserves'.2.2 p strokes outcome (hold hopen.lt hmem)⟩
      | batch id =>
        rw [hcompletion] at hserves'
        obtain ⟨batch, hbatch, hserves'⟩ := hserves'
        exact ⟨batch, hbatched.old id batch hbatch, hserves'⟩
      | toast message =>
        rw [hcompletion] at hserves'
        exact fun p strokes outcome hmem => hserves' p strokes outcome (hold hopen.lt hmem)
  · obtain hbefore | ⟨hreply, hid, hremaining, hne, houtcome, hcompletion⟩ := hbatched.new id batch hbatch
    · have hok := h.batch id batch hbefore
      refine ⟨⟨Nat.lt_succ_of_lt hok.opened.lt, hok.opened.unsent⟩, hok.id_le.trans hbatched.le, hok.remaining,
        fun pid hpid => ?_, fun p strokes outcome' hmem => hok.outcome p strokes outcome' (hold hok.opened.lt hmem),
        fun herror hclosed p strokes outcome' hmem =>
          (hok.delivered herror hclosed p strokes outcome' (hold hok.opened.lt hmem)).imp_right hdelivered⟩
      obtain ⟨member, hmember, hmembers⟩ := hok.members pid hpid
      exact ⟨member, hkept hmember, hmembers⟩
    · have hmem {pid : UInt32} : pid ∈ batch.remaining ↔ ∃ input ∈ fresh, input.pid = pid := by
        rw [hremaining, List.mem_toFinset, List.mem_map]
      have hbegan {p : UInt32} {strokes : List ResolvedStroke} {outcome' : CommandOutcome}
          (hbegan : .began batch.reply p strokes outcome' ∈ out.trace ++ events) :
          outcome' = outcome ∧ ∃ input ∈ fresh, input.pid = p ∧ input.strokes = strokes := by
        rw [hreply] at hbegan
        obtain hbefore | hevent := List.mem_append.mp hbegan
        · exact absurd rfl (h.event _ hbefore).ne
        · exact (hnew hevent).2
      refine ⟨⟨hreply ▸ Nat.lt_succ_self _, fun result hsent => (h.sent _ _ hsent).ne hreply⟩, hid, ?_, fun pid hpid => ?_,
        fun p strokes outcome' hmem => (hbegan hmem).1.trans houtcome.symm, fun _ _ p strokes outcome' hevent => ?_⟩
      · obtain ⟨input, hinput⟩ := List.exists_mem_of_ne_nil fresh hne
        exact ⟨input.pid, hmem.mpr ⟨input, hinput, rfl⟩⟩
      · obtain ⟨input, hinput, rfl⟩ := hmem.mp hpid
        exact ⟨input, hjoined.new input hinput, hcompletion input hinput⟩
      · obtain ⟨-, input, hinput, hpid, -⟩ := hbegan hevent
        exact .inl (hmem.mpr ⟨input, hinput, hpid⟩)
  · obtain hbefore | ⟨hnewReply, -, -, hne, -, hcompletion⟩ := hbatched.new id batch hbatch
    · obtain hbefore' | ⟨hnewReply', -⟩ := hbatched.new id' batch' hbatch'
      · exact h.unique id id' batch batch' hbefore hbefore' hreply
      · exact absurd (hreply.trans hnewReply') (h.batch id batch hbefore).opened.lt.ne
    · obtain hbefore' | ⟨-, -, -, -, -, hcompletion'⟩ := hbatched.new id' batch' hbatch'
      · exact absurd (hreply.symm.trans hnewReply) (h.batch id' batch' hbefore').opened.lt.ne
      · obtain ⟨input, hinput⟩ := List.exists_mem_of_ne_nil fresh hne
        exact InputCompletion.batch.inj ((hcompletion input hinput).symm.trans (hcompletion' input hinput))
  · obtain hbefore | hevent := List.mem_append.mp hevent
    · exact Nat.lt_succ_of_lt (h.event event hbefore)
    · rw [← hevents] at hevent
      obtain ⟨input, hinput, rfl⟩ := List.mem_map.mp hevent
      exact hfresh.command input hinput ▸ Nat.lt_succ_self _
  · obtain hbefore | hevent := List.mem_append.mp hbegan
    · exact h.began command pid strokes strokes' outcome₁ outcome₂ hbefore (hold (h.event _ hbefore) hbegan')
    · obtain ⟨rfl, rfl, input, hinput, rfl, rfl⟩ := hnew hevent
      obtain hbefore' | hevent' := List.mem_append.mp hbegan'
      · exact absurd rfl (h.event _ hbefore').ne
      · obtain ⟨-, rfl, input', hinput', hpid, rfl⟩ := hnew hevent'
        have hsame := hjoined.new input' hinput'
        rw [hpid, hjoined.new input hinput] at hsame
        obtain rfl := Option.some.inj hsame
        exact ⟨rfl, rfl⟩
  · have hlt := h.sent reply _ hsent
    obtain ⟨⟨pid, strokes, hbegan⟩, hall⟩ := h.success reply outcome' hsent
    refine ⟨⟨pid, strokes, List.mem_append_left _ hbegan⟩, fun p strokes outcome'' hmem => ?_⟩
    obtain ⟨houtcome, hd⟩ := hall p strokes outcome'' (hold hlt hmem)
    exact ⟨houtcome, hdelivered hd⟩

theorem next (h : InputsOk inputs batches nextBatchId commands out) :
    InputsOk inputs batches nextBatchId (commands + 1) out where
  sequences := h.sequences
  input pid input hinput :=
    have hok := h.input pid input hinput
    ⟨hok.pid_eq, ⟨Nat.lt_succ_of_lt hok.opened.lt, hok.opened.unsent⟩, hok.serves⟩
  batch id batch hbatch :=
    have hok := h.batch id batch hbatch
    ⟨⟨Nat.lt_succ_of_lt hok.opened.lt, hok.opened.unsent⟩, hok.id_le, hok.remaining, hok.members, hok.outcome, hok.delivered⟩
  unique := h.unique
  event event hevent := Nat.lt_succ_of_lt (h.event event hevent)
  began := h.began
  sent reply result hsent := Nat.lt_succ_of_lt (h.sent reply result hsent)
  once := h.once
  success := h.success
  timer := h.timer

theorem refuse (h : InputsOk inputs batches nextBatchId commands out) (error : ControlError) :
    InputsOk inputs batches nextBatchId (commands + 1) { out with sent := out.sent ++ [(commands, .error error)] } := by
  have hopened : Open (commands + 1) out.sent commands :=
    ⟨Nat.lt_succ_self commands, fun result hsent => (h.sent _ _ hsent).ne rfl⟩
  refine { h.next with
    input := fun pid input hinput => ?_
    batch := fun id batch hbatch => ?_
    sent := lt_concat h.next.sent hopened
    once := once_concat h.once hopened
    success := fun reply outcome hsent => h.success reply outcome ((mem_concat.mp hsent).resolve_right fun heq => ?_) }
  · have hok := h.next.input pid input hinput
    exact ⟨hok.pid_eq, hok.opened.concat (h.input pid input hinput).opened.lt.ne, hok.serves⟩
  · have hok := h.next.batch id batch hbatch
    exact { hok with opened := hok.opened.concat (h.batch id batch hbatch).opened.lt.ne }
  · cases (Prod.mk.inj heq).2

/-- What is outside changes, but for what the sequences have done. -/
theorem outside (h : InputsOk inputs batches nextBatchId commands out) {out' : Outside} (hsent : out'.sent = out.sent)
    (hclosed : ∀ reply ∈ out.closed, reply ∈ out'.closed) (htrace : out'.trace = out.trace)
    (hengine : Broadcast.Engine.Sequences (heldOf inputs out.trace) out'.engine)
    (htimer : ∀ pid input, inputs pid = some input → out'.timer = true) :
    InputsOk inputs batches nextBatchId commands out' where
  sequences := htrace ▸ hengine
  input pid input hinput := by
    have hok := h.input pid input hinput
    exact ⟨hok.pid_eq, hsent ▸ hok.opened, htrace ▸ hok.serves⟩
  batch id batch hbatch := by
    have hok := h.batch id batch hbatch
    exact ⟨hsent ▸ hok.opened, hok.id_le, hok.remaining, hok.members, htrace ▸ hok.outcome,
      htrace ▸ fun herror hopen => hok.delivered herror fun hmem => hopen (hclosed _ hmem)⟩
  unique := h.unique
  event := htrace ▸ h.event
  began := htrace ▸ h.began
  sent := hsent ▸ h.sent
  once := hsent ▸ h.once
  success := hsent ▸ htrace ▸ h.success
  timer := htimer

end InputsOk

/-! ### The control thread -/

/-- The sequences under way, by process. -/
def UiState.inputs (state : UiState) (pid : UInt32) : Option ActiveInput := state.activeInputs[pid]?

/-- What holds of the control thread and of what is outside. -/
structure Running (state : UiState) (commands : Nat) (out : Outside) : Prop where
  ok : InputsOk state.inputs state.inputBatches state.nextBatchId commands out
  tracked : Tracked state.inputs out.trace
  batchIds : state.nextBatchId ≤ commands

/-- Where a sequence comes from: it has just begun, it is as it was, or a tick has advanced it. -/
inductive Moved (inputs : UInt32 → Option ActiveInput) (commands now : Nat) (tick : Bool) (pid : UInt32) :
    ActiveInput → Prop
  | begun {input : ActiveInput} (hcommand : commands ≤ input.command) (hstart : input.index = 0 ∧ input.phase = .press)
    (hnext : input.nextStep = now + inputActivationDelay) : Moved inputs commands now tick pid input
  | kept {input : ActiveInput} (htick : tick = false) (hinput : inputs pid = some input) :
    Moved inputs commands now tick pid input
  | ticked {input before : ActiveInput} (htick : tick = true) (hbefore : inputs pid = some before)
    (hticked : InputsOk.Ticked now before input) : Moved inputs commands now tick pid input

/-- What a call leaves; `tick` says whether it is one of the timer. -/
structure Goes (now : Nat) (tick : Bool) (state : UiState) (commands : Nat) (out : Outside) (state' : UiState)
    (commands' : Nat) (out' : Outside) : Prop where
  running : Running state' commands' out'
  moved : ∀ pid input, state'.inputs pid = some input → Moved state.inputs commands now tick pid input
  grows : Grows commands out out'
  awaited : ∀ command, Awaited state.inputs out command → Awaited state'.inputs out' command

/-- The sequences and batches are the same. -/
structure SameInputs (state state' : UiState) : Prop where
  activeInputs : state'.activeInputs = state.activeInputs
  inputBatches : state'.inputBatches = state.inputBatches
  nextBatchId : state'.nextBatchId = state.nextBatchId

/-- A command begins nothing, or exactly what it is to begin. -/
def AllOrNone (trace : List InputEvent) (command : Nat) (P : UInt32 → List ResolvedStroke → CommandOutcome → Prop) : Prop :=
  (∀ pid strokes outcome, .began command pid strokes outcome ∉ trace) ∨
    ∀ pid strokes outcome, .began command pid strokes outcome ∈ trace ↔ P pid strokes outcome

/-- What a command leaves that waits for a reply. -/
structure Takes (now : Nat) (state : UiState) (commands : Nat) (out : Outside)
    (P : UInt32 → List ResolvedStroke → CommandOutcome → Prop) (state' : UiState) (out' : Outside) : Prop where
  goes : Goes now false state commands out state' (commands + 1) out'
  began : AllOrNone out'.trace commands P
  answered : Awaited state'.inputs out' commands

section running
variable {state state' : UiState} {commands commands' now : Nat} {tick : Bool} {out out' : Outside}
  {P : UInt32 → List ResolvedStroke → CommandOutcome → Prop}

theorem SameInputs.inputs (h : SameInputs state state') : state'.inputs = state.inputs :=
  funext fun pid => congrArg (fun inputs : ExtTreeMap UInt32 ActiveInput => inputs[pid]?) h.activeInputs

theorem Running.same (h : Running state commands out) (hsame : SameInputs state state') : Running state' commands out where
  ok := by
    rw [hsame.inputs, hsame.inputBatches, hsame.nextBatchId]
    exact h.ok
  tracked := by
    rw [hsame.inputs]
    exact h.tracked
  batchIds := hsame.nextBatchId.le.trans h.batchIds

theorem Goes.same {state'' : UiState} (h : Goes now tick state commands out state' commands' out')
    (hsame : SameInputs state' state'') : Goes now tick state commands out state'' commands' out' where
  running := h.running.same hsame
  moved := hsame.inputs ▸ h.moved
  grows := h.grows
  awaited command hcommand := by
    rw [hsame.inputs]
    exact h.awaited command hcommand

theorem Goes.of_same {state₀ : UiState} (h : Goes now tick state commands out state' commands' out')
    (hsame : SameInputs state₀ state) : Goes now tick state₀ commands out state' commands' out' where
  running := h.running
  moved := hsame.inputs ▸ h.moved
  grows := h.grows
  awaited command hcommand := h.awaited command (hsame.inputs ▸ hcommand)

theorem Running.fresh (h : Running state commands out) (pid : UInt32) (strokes : List ResolvedStroke)
    (outcome : CommandOutcome) : .began commands pid strokes outcome ∉ out.trace :=
  fun hmem => (h.ok.event _ hmem).ne rfl

theorem Running.idle (h : Running state commands out) {engine' : Broadcast.Engine}
    (hengine : Broadcast.Engine.Sequences (heldOf state.inputs out.trace) engine') (now : Nat) :
    Goes now false state commands out state (commands + 1) { out with engine := engine' } where
  moved _ _ hinput := .kept rfl hinput
  running := ⟨h.ok.next.outside rfl (fun _ hmem => hmem) rfl hengine h.ok.timer, h.tracked, Nat.le_succ_of_le h.batchIds⟩
  grows := ⟨fun _ hmem => hmem, fun _ hmem => hmem, fun _ hmem => hmem, fun _ _ _ _ hmem => .inl hmem⟩
  awaited _ hawaited := hawaited

theorem Running.refuse (h : Running state commands out) {engine' : Broadcast.Engine}
    (hengine : Broadcast.Engine.Sequences (heldOf state.inputs out.trace) engine') (error : ControlError) :
    Takes now state commands out P state (Outside.send { out with engine := engine' } commands (.error error)) := by
  have hidle := h.idle hengine now
  unfold Outside.send
  by_cases hclosed : commands ∈ out.closed
  · rw [if_pos (List.contains_iff_mem.mpr hclosed)]
    exact ⟨hidle, .inl h.fresh, .inr (.inl hclosed)⟩
  · rw [if_neg fun hcontains => hclosed (List.contains_iff_mem.mp hcontains)]
    have hrefused : InputsOk state.inputs state.inputBatches state.nextBatchId (commands + 1)
        { out with engine := engine', sent := out.sent ++ [(commands, .error error)] } :=
      (h.ok.refuse error).outside rfl (fun _ hmem => hmem) rfl hengine h.ok.timer
    refine ⟨⟨⟨hrefused, h.tracked, hidle.running.batchIds⟩, hidle.moved, ?_, fun command hawaited => ?_⟩,
      .inl h.fresh, .inl ⟨_, List.mem_append_right _ List.mem_cons_self⟩⟩
    · exact ⟨fun _ hmem => List.mem_append_left _ hmem, fun _ hmem => hmem, fun _ hmem => hmem, fun _ _ _ _ hmem => .inl hmem⟩
    · obtain ⟨result, hsent⟩ | hother := hawaited
      · exact .inl ⟨result, List.mem_append_left _ hsent⟩
      · exact .inr hother

theorem Running.enter (h : Running state commands out) {fresh : List ActiveInput} {outcome : CommandOutcome}
    {engine' : Broadcast.Engine} (hfresh : Fresh state.inputs commands now fresh)
    (hjoined : Joined state.inputs fresh state'.inputs)
    (hbatched : Batched state.inputBatches state.nextBatchId commands fresh outcome state'.inputBatches state'.nextBatchId)
    (hbatchIds : state'.nextBatchId ≤ commands + 1)
    (hengine : Broadcast.Engine.Sequences (begun (heldOf state.inputs out.trace) (fresh.map (·.pid))) engine')
    (hserves : ∀ input ∈ fresh,
      Serves state'.inputBatches (out.trace ++ fresh.map (beganOf outcome)) input.pid input outcome) :
    Goes now false state commands out state' (commands + 1)
        { out with engine := engine', timer := true, trace := out.trace ++ fresh.map (beganOf outcome) } ∧
      ∀ pid strokes outcome', .began commands pid strokes outcome' ∈ out.trace ++ fresh.map (beganOf outcome) ↔
        outcome' = outcome ∧ ∃ input ∈ fresh, input.pid = pid ∧ input.strokes = strokes := by
  refine ⟨⟨⟨h.ok.enter hfresh hjoined hbatched hengine hserves, fun pid input hinput => ?_, hbatchIds⟩,
    fun pid input hinput => ?_, ⟨fun _ hmem => hmem, fun _ hmem => hmem, fun _ hmem => List.mem_append_left _ hmem,
      fun command pid strokes outcome' hmem => (List.mem_append.mp hmem).imp_right fun hnew =>
        (InputsOk.mem_began rfl hfresh.command hnew).1.ge⟩, fun command hawaited => ?_⟩,
    fun pid strokes outcome' => ⟨fun hmem => ?_, ?_⟩⟩
  · dsimp only
    rw [InputsOk.changesOf_began]
    by_cases hmem : pid ∈ fresh.map (·.pid)
    · obtain ⟨new, hnew, rfl⟩ := List.mem_map.mp hmem
      obtain rfl := Option.some.inj (hinput.symm.trans (hjoined.new new hnew))
      obtain ⟨hplaced, hdone⟩ := ActiveInput.placed_start (hfresh.start _ hnew).1 (hfresh.start _ hnew).2
      rw [hdone]
      exact ⟨changesOf_eq_nil fun event hevent => hfresh.command _ hnew ▸ (h.ok.event event hevent).ne, hplaced⟩
    · rw [hjoined.old pid hmem] at hinput
      exact h.tracked pid input hinput
  · by_cases hmem : pid ∈ fresh.map (·.pid)
    · obtain ⟨new, hnew, rfl⟩ := List.mem_map.mp hmem
      obtain rfl := Option.some.inj (hinput.symm.trans (hjoined.new new hnew))
      exact .begun (hfresh.command _ hnew).ge (hfresh.start _ hnew) (hfresh.nextStep _ hnew)
    · exact .kept rfl ((hjoined.old pid hmem).symm.trans hinput)
  · obtain hsent | hclosed | ⟨pid, input, hinput, hserved⟩ := hawaited
    · exact .inl hsent
    · exact .inr (.inl hclosed)
    · refine .inr (.inr ⟨pid, input, (hjoined.old pid fun hmem => ?_).trans hinput, hserved⟩)
      obtain ⟨new, hnew, rfl⟩ := List.mem_map.mp hmem
      exact absurd ((hfresh.idle new hnew).symm.trans hinput) (Option.some_ne_none input).symm
  · exact (InputsOk.mem_began rfl hfresh.command
      ((List.mem_append.mp hmem).resolve_left (h.fresh pid strokes outcome'))).2
  · rintro ⟨rfl, input, hinput, rfl, rfl⟩
    refine List.mem_append_right _ (List.mem_map.mpr ⟨input, hinput, ?_⟩)
    unfold beganOf
    rw [hfresh.command input hinput]

end running

end Stonemite.Control
