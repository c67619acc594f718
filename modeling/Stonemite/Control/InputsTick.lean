import Stonemite.Control.InputsInv

/-!
# One tick of the input sequences

A tick advances each sequence that is due, in turn; one that does not end is put back. Each of them keeps what holds of the
sequences, and so does the whole tick. A command that waits for its reply goes on waiting, or is answered.
-/

namespace Stonemite.Control
open Std Trushar Keymaps

namespace InputsOk
variable {inputs : UInt32 → Option ActiveInput} {batches : ExtTreeMap Nat PendingBatch} {nextBatchId commands : Nat}
  {out : Outside} {pid : UInt32} {input : ActiveInput}

/-- What a sequence that ends leaves. -/
structure Ends (inputs : UInt32 → Option ActiveInput) (commands : Nat) (state : UiState) (out : Outside)
    (s' : UiState × Outside) (input : ActiveInput) : Prop where
  ok : InputsOk (Function.update inputs input.pid none) s'.1.inputBatches s'.1.nextBatchId commands s'.2
  activeInputs : s'.1.activeInputs = state.activeInputs
  nextBatchId : s'.1.nextBatchId = state.nextBatchId
  changes : ∀ command p, changesOf s'.2.trace command p = changesOf out.trace command p
  grows : Grows commands out s'.2
  awaited : (∀ message, input.completion ≠ .toast message) →
    Awaited (Function.update inputs input.pid none) s'.2 input.command

theorem grows_ended (commands : Nat) (pid : UInt32) (command : Nat)
    {sent' : List (Nat × Except ControlError CommandOutcome)} (toasts' : List String)
    (hsent : ∀ entry ∈ out.sent, entry ∈ sent') : Grows commands out (out.ended pid command sent' toasts') where
  sent := hsent
  closed _ hmem := hmem
  trace _ hmem := List.mem_append_left _ hmem
  began _ _ _ _ hmem := .inl ((mem_concat.mp hmem).resolve_right InputEvent.noConfusion)

theorem send_ended (out : Outside) (pid : UInt32) (command reply : Nat) (result : Except ControlError CommandOutcome) :
    ∃ sent', (out.ended pid command out.sent out.toasts).send reply result =
        out.ended pid command sent' out.toasts ∧
      (sent' = out.sent ∧ reply ∈ out.closed ∨ reply ∉ out.closed ∧ sent' = out.sent ++ [(reply, result)]) := by
  unfold Outside.send
  by_cases hclosed : reply ∈ out.closed
  · exact ⟨out.sent, if_pos (List.contains_iff_mem.mpr hclosed), .inl ⟨rfl, hclosed⟩⟩
  · exact ⟨_, if_neg fun hcontains => hclosed (List.contains_iff_mem.mp hcontains), .inr ⟨hclosed, rfl⟩⟩

theorem awaited_sent {inputs' : UInt32 → Option ActiveInput} {command c reply : Nat} {result : Except ControlError CommandOutcome}
    {sent' : List (Nat × Except ControlError CommandOutcome)} {toasts' : List String} (hreply : reply = command)
    (h : sent' = out.sent ∧ reply ∈ out.closed ∨ reply ∉ out.closed ∧ sent' = out.sent ++ [(reply, result)]) :
    Awaited inputs' (out.ended pid c sent' toasts') command ∧ ∀ entry ∈ out.sent, entry ∈ sent' := by
  subst hreply
  obtain ⟨rfl, hclosed⟩ | ⟨-, rfl⟩ := h
  · exact ⟨.inr (.inl hclosed), fun _ hmem => hmem⟩
  · exact ⟨.inl ⟨result, List.mem_append_right _ List.mem_cons_self⟩, fun _ hmem => List.mem_append_left _ hmem⟩

theorem finishInput {state : UiState}
    (h : InputsOk inputs state.inputBatches state.nextBatchId commands out) (hinput : inputs input.pid = some input)
    (result : Option (Except ControlError CommandOutcome))
    (hresult : ∀ outcome, result = some (.ok outcome) → outcome = outcomeOf input ∧
      changesOf out.trace input.command input.pid = input.strokes.flatMap keyChanges)
    (hclosed : result = none → inputCompletionIsClosed state out input.completion = true) :
    Ends inputs commands state out (Control.finishInput state out input result) input := by
  unfold Control.finishInput
  dsimp only
  have hended : { out.finishTargetedInput input.pid with trace := out.trace ++ [.finished input.command input.pid] } =
      out.ended input.pid input.command out.sent out.toasts := rfl
  rw [hended]
  have hquiet (sent' : List (Nat × Except ControlError CommandOutcome)) (toasts' : List String) (command : Nat) (p : UInt32) :
      changesOf (out.ended input.pid input.command sent' toasts').trace command p = changesOf out.trace command p :=
    changesOf_finished ..
  cases hcompletion : input.completion with
  | single reply =>
    have hnot (id : Nat) : input.completion ≠ .batch id := by rw [hcompletion]; exact InputCompletion.noConfusion
    obtain ⟨outcome, -, hserves⟩ := (h.input input.pid input hinput).serves
    unfold Serves at hserves
    rw [hcompletion] at hserves
    cases result with
    | none =>
      have hreply : reply ∈ out.closed := by
        have hclosed := hclosed rfl
        rw [hcompletion] at hclosed
        exact List.contains_iff_mem.mp hclosed
      exact ⟨h.ended_quietly hinput hnot out.toasts, rfl, rfl, hquiet _ _, grows_ended _ _ _ _ fun _ hmem => hmem,
        fun _ => .inr (.inl (hserves.1 ▸ hreply))⟩
    | some result =>
      obtain ⟨sent', hsend, hsent'⟩ := send_ended out input.pid input.command reply result
      dsimp only
      rw [hsend]
      have hok : InputsOk (Function.update inputs input.pid none) state.inputBatches state.nextBatchId commands
          (out.ended input.pid input.command sent' out.toasts) := by
        obtain ⟨rfl, -⟩ | ⟨-, rfl⟩ := hsent'
        · exact h.ended_quietly hinput hnot out.toasts
        · exact h.ended_single hinput hcompletion result fun outcome heq => hresult outcome (congrArg some heq)
      obtain ⟨hawaited, hgrows⟩ := awaited_sent hserves.1 hsent'
      exact ⟨hok, rfl, rfl, hquiet _ _, grows_ended _ _ _ _ hgrows, fun _ => hawaited⟩
  | batch id =>
    obtain ⟨batch, hbatch, -, hreply⟩ := h.batch_of hinput hcompletion
    have hfinished := h.ended_batch hinput hbatch hcompletion result (fun outcome heq => (hresult outcome heq).2)
      (fun hnone => by
        have hclosed := hclosed hnone
        rw [hcompletion] at hclosed
        unfold inputCompletionIsClosed at hclosed
        dsimp only at hclosed
        rw [hbatch] at hclosed
        exact List.contains_iff_mem.mp hclosed)
    dsimp only
    rw [hbatch]
    dsimp only
    by_cases hlast : (batch.finish input.pid result).remaining = ∅
    · rw [if_pos hlast] at hfinished ⊢
      obtain ⟨sent', hsend, hsent'⟩ := send_ended out input.pid input.command (batch.finish input.pid result).reply
        (batch.finish input.pid result).outcome
      rw [hsend]
      obtain ⟨hawaited, hgrows⟩ := awaited_sent hreply hsent'
      exact ⟨hfinished sent' (hsent'.imp_left And.left), rfl, rfl, hquiet _ _, grows_ended _ _ _ _ hgrows,
        fun _ => hawaited⟩
    · rw [if_neg hlast] at hfinished ⊢
      refine ⟨hfinished, rfl, rfl, hquiet _ _, grows_ended _ _ _ _ fun _ hmem => hmem, fun _ => ?_⟩
      -- another sequence of the batch goes on
      obtain ⟨p, hp⟩ := Finset.nonempty_iff_ne_empty.mpr hlast
      obtain ⟨member, hmember, hmembers⟩ := (hfinished.batch id _ ExtTreeMap.getElem?_insert_self).members p hp
      obtain ⟨batch', hbatch', -, hreply'⟩ := hfinished.batch_of hmember hmembers
      rw [ExtTreeMap.getElem?_insert_self] at hbatch'
      obtain rfl := Option.some.inj hbatch'
      refine .inr (.inr ⟨p, member, hmember, hreply'.symm.trans hreply, fun message heq => ?_⟩)
      rw [hmembers] at heq
      cases heq
  | toast message =>
    have hnot (id : Nat) : input.completion ≠ .batch id := by rw [hcompletion]; exact InputCompletion.noConfusion
    have hends (toasts' : List String) :
        Ends inputs commands state out (state, out.ended input.pid input.command out.sent toasts') input :=
      ⟨h.ended_quietly hinput hnot toasts', rfl, rfl, hquiet _ _, grows_ended _ _ _ _ fun _ hmem => hmem,
        fun hreplies => absurd hcompletion (hreplies message)⟩
    cases result with
    | none => exact hends _
    | some result =>
      cases result with
      | ok outcome => exact hends _
      | error error => exact hends _

/-! ### One tick -/

/-- A sequence at a tick, where it does not end: it waits, or does its phase. -/
inductive Ticked (now : Nat) (input : ActiveInput) : ActiveInput → Prop
  | early (hearly : now < input.nextStep) : Ticked now input input
  | due (hdue : input.nextStep ≤ now) (hplaying : input.phase ∈ phases input.stroke) : Ticked now input (nextPhase input now)

/-- What advancing a sequence leaves: the sequence, if it goes on, is put back. -/
structure Advances (inputs : UInt32 → Option ActiveInput) (commands now : Nat) (state : UiState) (out : Outside)
    (s' : UiState × Outside) (input : ActiveInput) (next : Option ActiveInput) : Prop where
  ok : InputsOk (Function.update inputs input.pid next) s'.1.inputBatches s'.1.nextBatchId commands s'.2
  tracked : Tracked (Function.update inputs input.pid next) s'.2.trace
  ticked : ∀ after ∈ next, Ticked now input after
  activeInputs : s'.1.activeInputs =
    match next with
    | none => state.activeInputs
    | some next => state.activeInputs.insert input.pid next
  nextBatchId : s'.1.nextBatchId = state.nextBatchId
  grows : Grows commands out s'.2
  awaited : ∀ command, Awaited inputs out command → Awaited (Function.update inputs input.pid next) s'.2 command

theorem Ends.advances {state : UiState} {out₀ : Outside} {s' : UiState × Outside} (now : Nat) (h : Ends inputs commands state out s' input)
    (hinput : inputs input.pid = some input) (hgrows : Grows commands out₀ out)
    (htracked : ∀ p other, p ≠ input.pid → inputs p = some other →
      changesOf out.trace other.command p = other.done ∧ other.Placed) :
    Advances inputs commands now state out₀ s' input none where
  ok := h.ok
  ticked after hafter := absurd hafter (Option.not_mem_none after)
  tracked p other hother := by
    by_cases hp : p = input.pid
    · rw [hp, Function.update_self] at hother
      cases hother
    · rw [Function.update_of_ne hp] at hother
      rw [h.changes]
      exact htracked p other hp hother
  activeInputs := h.activeInputs
  nextBatchId := h.nextBatchId
  grows := hgrows.trans h.grows (Nat.le_refl commands)
  awaited _ hawaited := (hawaited.grows hgrows).update hinput h.grows h.awaited

theorem advanceOneInput {state : UiState} (a : Answers)
    (h : InputsOk inputs state.inputBatches state.nextBatchId commands out) (htracked : Tracked inputs out.trace)
    (hinput : inputs input.pid = some input) :
    ∃ next, Advances inputs commands a.now state out (Control.advanceOneInput a (state, out) input) input next := by
  obtain ⟨hdone, hplaced⟩ := htracked _ _ hinput
  have hothers (p : UInt32) (other : ActiveInput) (_ : p ≠ input.pid) (hother : inputs p = some other) :=
    htracked p other hother
  have hkeep {next : ActiveInput} {out' : Outside}
      (hok : InputsOk inputs state.inputBatches state.nextBatchId commands out') (hsame : ActiveInput.Same input next)
      (hnext : changesOf out'.trace input.command input.pid = next.done ∧ next.Placed)
      (hrest : ∀ command p, p ≠ input.pid → changesOf out'.trace command p = changesOf out.trace command p)
      (hgrows : Grows commands out out') (hticked : Ticked a.now input next) :
      Advances inputs commands a.now state out (keepInput state next, out') input (some next) := by
    refine ⟨hok.keep hinput hsame, fun p other hother => ?_, fun after hafter => Option.some.inj hafter ▸ hticked, ?_, rfl,
      hgrows, fun command hawaited => ?_⟩
    · by_cases hp : p = input.pid
      · rw [hp, Function.update_self] at hother
        obtain rfl := Option.some.inj hother
        rw [hp, hsame.command]
        exact hnext
      · rw [Function.update_of_ne hp] at hother
        rw [hrest _ p hp]
        exact htracked p other hother
    · unfold keepInput
      rw [hsame.pid]
    · refine hawaited.update hinput hgrows fun hreplies => .inr (.inr ⟨input.pid, next, Function.update_self .., ?_⟩)
      exact ⟨hsame.command, fun message heq => hreplies message (hsame.completion.symm.trans heq)⟩
  have herror (error : ControlError) (outcome : CommandOutcome)
      (heq : some (.error error : Except ControlError CommandOutcome) = some (.ok outcome)) :
      outcome = outcomeOf input ∧ changesOf out.trace input.command input.pid = input.strokes.flatMap keyChanges := by
    cases heq
  unfold Control.advanceOneInput
  dsimp only
  by_cases hclosed : inputCompletionIsClosed state out input.completion = true
  · rw [if_pos hclosed]
    refine ⟨none, (h.finishInput hinput none (fun outcome heq => ?_) fun _ => hclosed).advances a.now hinput
      (.refl commands out) hothers⟩
    cases heq
  rw [if_neg hclosed]
  by_cases hgone : (¬ (state.latestSources.any fun source => pidOf source = input.pid) = true)
  · rw [if_pos hgone]
    exact ⟨none, (h.finishInput hinput _ (herror _) (absurd · (Option.some_ne_none _))).advances a.now hinput
      (.refl commands out) hothers⟩
  rw [if_neg hgone]
  by_cases hearly : a.now < input.nextStep
  · rw [if_pos hearly]
    exact ⟨some input, hkeep h (.refl input) ⟨hdone, hplaced⟩ (fun _ _ _ => rfl) (.refl commands out) (.early hearly)⟩
  rw [if_neg hearly]
  by_cases hphase : input.phase = .finish
  · rw [if_pos hphase]
    have hfinish := hdone.trans (ActiveInput.done_finish hplaced hphase)
    have hstate : (noteDelivered a state input).inputBatches = state.inputBatches ∧
        (noteDelivered a state input).nextBatchId = state.nextBatchId ∧
          (noteDelivered a state input).activeInputs = state.activeInputs := by
      unfold noteDelivered UiState.noteEqActionDelivered
      split
      · split <;> exact ⟨rfl, rfl, rfl⟩
      · exact ⟨rfl, rfl, rfl⟩
    have hnoted : InputsOk inputs (noteDelivered a state input).inputBatches (noteDelivered a state input).nextBatchId
        commands out := by
      rw [hstate.1, hstate.2.1]
      exact h
    have hends := hnoted.finishInput hinput (some (.ok (outcomeOf input)))
      (fun outcome heq => ⟨(Except.ok.inj (Option.some.inj heq)).symm, hfinish⟩) (absurd · (Option.some_ne_none _))
    exact ⟨none, Ends.advances a.now ⟨hends.ok, hends.activeInputs.trans hstate.2.2, hends.nextBatchId.trans hstate.2.1,
      hends.changes, hends.grows, hends.awaited⟩ hinput (.refl commands out) hothers⟩
  rw [if_neg hphase]
  obtain ⟨hok, hchanges, hrest, hgrows⟩ := h.changeKeys hinput input.phase.pressed (phaseScans input.stroke input.phase)
  generalize Outside.changeKeys input.command input.pid input.phase.pressed (phaseScans input.stroke input.phase)
    out = delivered at hok hchanges hrest hgrows ⊢
  obtain ⟨error, out'⟩ := delivered
  cases error with
  | some message =>
    refine ⟨none, (hok.finishInput hinput _ (fun outcome heq => ?_) (absurd · (Option.some_ne_none _))).advances a.now hinput
      hgrows fun p other hp hother => ?_⟩
    · cases heq
    · rw [hrest _ p hp]
      exact htracked p other hother
  | none =>
    have hmem : input.phase ∈ phases input.stroke := hplaced.resolve_right fun hlast => hphase hlast.1
    obtain ⟨hnextPlaced, hnextDone, hsame⟩ := ActiveInput.nextPhase_spec hmem a.now
    refine ⟨some (nextPhase input a.now), hkeep hok hsame ⟨?_, hnextPlaced⟩ hrest hgrows
      (.due (Nat.le_of_not_lt hearly) hmem)⟩
    rw [hchanges rfl, hdone, hnextDone]
    rfl

/-- The sequences that are still to be advanced are those of the list, the others those of the map. -/
theorem foldl_advanceOneInput (a : Answers) (rest : List ActiveInput) {state : UiState}
    (h : InputsOk inputs state.inputBatches state.nextBatchId commands out) (htracked : Tracked inputs out.trace)
    (hrest : ∀ input ∈ rest, inputs input.pid = some input ∧ state.activeInputs[input.pid]? = none)
    (hnodup : (rest.map (·.pid)).Nodup)
    (hmap : ∀ pid, pid ∉ rest.map (·.pid) → inputs pid = state.activeInputs[pid]?) {s' : UiState × Outside}
    (hs' : s' = rest.foldl (Control.advanceOneInput a) (state, out)) :
    InputsOk (fun pid => s'.1.activeInputs[pid]?) s'.1.inputBatches s'.1.nextBatchId commands s'.2 ∧
      Tracked (fun pid => s'.1.activeInputs[pid]?) s'.2.trace ∧ s'.1.nextBatchId = state.nextBatchId ∧
        Grows commands out s'.2 ∧
          (∀ command, Awaited inputs out command → Awaited (fun pid => s'.1.activeInputs[pid]?) s'.2 command) ∧
            ∀ (pid : UInt32) after, s'.1.activeInputs[pid]? = some after →
              state.activeInputs[pid]? = some after ∨ ∃ input ∈ rest, input.pid = pid ∧ Ticked a.now input after := by
  induction rest generalizing inputs state out with
  | nil =>
    obtain rfl : inputs = fun pid => state.activeInputs[pid]? := funext fun pid => hmap pid List.not_mem_nil
    subst hs'
    exact ⟨h, htracked, rfl, .refl commands out, fun _ hawaited => hawaited, fun _ _ => .inl⟩
  | cons input rest ih =>
    obtain ⟨⟨hinput, hnone⟩, hrest⟩ := List.forall_mem_cons.mp hrest
    obtain ⟨hnotMem, hnodup⟩ := List.nodup_cons.mp hnodup
    obtain ⟨next, hnext⟩ := h.advanceOneInput a htracked hinput
    rw [List.foldl_cons] at hs'
    generalize Control.advanceOneInput a (state, out) input = advanced at hnext hs'
    obtain ⟨state', out'⟩ := advanced
    have hlookup (pid : UInt32) : state'.activeInputs[pid]? =
        if pid = input.pid then next else state.activeInputs[pid]? := by
      rw [hnext.activeInputs]
      cases next with
      | none =>
        dsimp only
        split_ifs with hpid
        · rw [hpid, hnone]
        · rfl
      | some next =>
        dsimp only
        rw [ExtTreeMap.getElem?_insert_ite]
        exact if_congr eq_comm rfl rfl
    have hothers (other : ActiveInput) (hother : other ∈ rest) :
        Function.update inputs input.pid next other.pid = some other ∧ state'.activeInputs[other.pid]? = none := by
      have hne : other.pid ≠ input.pid := fun heq => hnotMem (List.mem_map.mpr ⟨other, hother, heq⟩)
      rw [Function.update_of_ne hne, hlookup, if_neg hne]
      exact hrest other hother
    have hgone (pid : UInt32) (hpid : pid ∉ rest.map (·.pid)) :
        Function.update inputs input.pid next pid = state'.activeInputs[pid]? := by
      rw [hlookup]
      by_cases hp : pid = input.pid
      · rw [hp, Function.update_self, if_pos rfl]
      · rw [Function.update_of_ne hp, if_neg hp]
        exact hmap pid fun hmem => (List.mem_cons.mp hmem).elim hp hpid
    obtain ⟨hok, htracked', hbatchId, hgrows, hawaited, hticked⟩ := ih hnext.ok hnext.tracked hothers hnodup hgone hs'
    refine ⟨hok, htracked', hbatchId.trans hnext.nextBatchId, hnext.grows.trans hgrows (Nat.le_refl commands),
      fun command hcommand => hawaited command (hnext.awaited command hcommand), fun pid after hafter => ?_⟩
    obtain hstays | ⟨other, hother, hmoved⟩ := hticked pid after hafter
    · rw [hlookup] at hstays
      split_ifs at hstays with hpid
      · exact .inr ⟨input, List.mem_cons_self, hpid.symm, hnext.ticked after hstays⟩
      · exact .inl hstays
    · exact .inr ⟨other, List.mem_cons_of_mem input hother, hmoved⟩

end InputsOk

end Stonemite.Control
