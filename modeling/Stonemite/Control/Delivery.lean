import Stonemite.Control.InputsRun

/-!
# What is delivered

After any calls: the keys that are down for the controller are those of the strokes it is playing, a command has at most
one reply and is never forgotten, and a success means that every process was sent all its strokes and nothing else. Each
result reads off a part of the invariant of a run (`System.run_ok`): `targeted_keys`, `success_delivered` and
`replied_once`; `requests_played` says what a request has to play.
-/

namespace Stonemite.Control
open Std Trushar Keymaps

namespace ActiveInput
variable {input : ActiveInput}

theorem prefix_changesBefore (stroke : ResolvedStroke) (phase : InputPhase) : changesBefore stroke phase <+: keyChanges stroke := by
  unfold changesBefore keyChanges
  obtain ⟨rest, hrest⟩ := List.takeWhile_prefix (l := phases stroke) (· ≠ phase)
  conv_rhs => rw [← hrest, List.flatMap_append]
  exact List.prefix_append _ _

theorem prefix_done (input : ActiveInput) : input.done <+: input.strokes.flatMap keyChanges := by
  have hall : input.strokes.flatMap keyChanges = (input.strokes.take input.index).flatMap keyChanges ++
      (keyChanges input.stroke ++ (input.strokes.drop (input.index + 1)).flatMap keyChanges) := by
    conv_lhs =>
      rw [← List.take_append_drop (input.index + 1) input.strokes, take_succ, List.flatMap_append, List.flatMap_append,
        List.flatMap_singleton, List.append_assoc]
  rw [hall]
  exact (List.prefix_append_right_inj _).mpr ((prefix_changesBefore input.stroke input.phase).trans (List.prefix_append _ _))

theorem mem_of_levels_done {scan : UInt8} (h : levels (fun _ => false) input.done scan = true) :
    scan ∈ input.stroke.scans := by
  unfold done at h
  rw [levels_append, levels_strokes] at h
  by_contra hnot
  have hkeys (change : UInt8 × Bool) (hchange : change ∈ changesBefore input.stroke input.phase) : change.1 ≠ scan := by
    rintro rfl
    refine hnot ((mem_keyChanges ?_))
    exact (prefix_changesBefore input.stroke input.phase).subset hchange
  rw [levels_of_ne hkeys] at h
  exact Bool.false_ne_true h

end ActiveInput

/-! ### The strokes of a request -/

theorem resolveActionForSource_playable {a : Answers} {source : SourceClient} {action : EqAction} {binding : ResolvedBinding}
    (h : resolveActionForSource a source action = .ok binding) : Playable (bindingStroke binding) := by
  unfold resolveActionForSource at h
  cases hvalid : action.validate with
  | error error =>
    rw [hvalid] at h
    cases h
  | ok _ =>
    rw [hvalid] at h
    dsimp only at h
    cases hkeymaps : a.keymaps source with
    | error message =>
      rw [hkeymaps] at h
      cases h
    | ok files =>
      rw [hkeymaps] at h
      dsimp only at h
      cases hmapping : resolveMapping action.mappingName files.1 files.2 with
      | error error =>
        rw [hmapping] at h
        cases h
      | ok resolved =>
        rw [hmapping] at h
        obtain rfl := Except.ok.inj h
        exact resolveMapping_playable hmapping

/-- What a call asks for is some strokes; each key of a stroke goes down and up again once, with codes that the engine takes,
and a modifier is down whenever another key of its stroke is. -/
theorem UiCall.requests_played {call : UiCall} {a : Answers} {state : UiState} {pid : UInt32} {strokes : List ResolvedStroke}
    {outcome : CommandOutcome} (h : call.Requests a state pid strokes outcome) :
    strokes ≠ [] ∧ ∀ stroke ∈ strokes,
      (∀ scan ∈ stroke.scans, scan ≠ 0 ∧ scan ≠ 255 ∧
        (keyChanges stroke).filter (·.1 = scan) = [(scan, true), (scan, false)]) ∧
      ∀ scan ∈ stroke.scans, ∀ modifier ∈ stroke.scans, isModifierScan scan = false → isModifierScan modifier = true →
        List.Sublist [(modifier, true), (scan, true), (scan, false), (modifier, false)] (keyChanges stroke) := by
  have hplayed : strokes ≠ [] ∧ ∀ stroke ∈ strokes, Playable stroke := by
    have hbinding {source : SourceClient} {action : EqAction} {binding : ResolvedBinding}
        (hbinding : resolveActionForSource a source action = .ok binding) :
        [bindingStroke binding] ≠ [] ∧ ∀ stroke ∈ [bindingStroke binding], Playable stroke :=
      ⟨List.cons_ne_nil _ _, List.forall_mem_singleton.mpr (resolveActionForSource_playable hbinding)⟩
    cases call with
    | sendText clientId text submit =>
      obtain ⟨requested, hresolved, source, -, -, rfl, -⟩ := h
      exact (resolveText_spec hresolved).2
    | sendKeys clientId keys =>
      obtain ⟨requested, hresolved, source, -, -, rfl, -⟩ := h
      exact (resolveKeys_spec hresolved).2
    | sendEqAction clientId action =>
      obtain ⟨source, binding, -, hresolved, -, -, -, rfl, -⟩ := h
      exact hbinding hresolved
    | sendEqActionBatch targets action =>
      obtain ⟨sources, -, ⟨source, -, binding, -, hresolved, rfl⟩, -⟩ := h
      exact hbinding hresolved
    | _ => exact h.elim
  refine ⟨hplayed.1, fun stroke hstroke => ⟨fun scan hscan => ?_, fun scan hscan modifier hmodifier hplain hmod => ?_⟩⟩
  · have hplayable := hplayed.2 stroke hstroke
    refine ⟨(hplayable.codes scan hscan).1, (hplayable.codes scan hscan).2, ?_⟩
    rw [keyChanges_key hplayable.nodup, if_pos hscan]
  · exact keyChanges_bracket hscan hmodifier hplain hmod

namespace System
variable {s : System} {pid : UInt32} {input : ActiveInput}

theorem Ok.inputsOk (h : s.Ok) : ∃ batches nextBatchId, InputsOk s.inputs batches nextBatchId s.commands s.out := by
  unfold Ok at h
  unfold System.inputs
  cases hui : s.ui with
  | none =>
    rw [hui] at h
    exact ⟨∅, 0, h⟩
  | some state =>
    rw [hui] at h
    exact ⟨state.inputBatches, state.nextBatchId, h.ok⟩

theorem Ok.tracked (h : s.Ok) (hinput : s.inputs pid = some input) :
    changesOf s.out.trace input.command pid = input.done ∧ input.Placed := by
  unfold Ok at h
  unfold System.inputs at hinput
  obtain ⟨state, hui, hinput⟩ := Option.bind_eq_some_iff.mp hinput
  rw [hui] at h
  exact h.tracked pid input hinput

/-- Nothing fails, and the first process is in front. -/
def answering (now : Nat) : Answers where
  now := millis now
  engine := Broadcast.Engine.playing 1
  timerStarts := true
  layout := ⟨fun _ => 0xffff, fun _ => 0⟩
  keymaps := fun _ => .error []
  xtargets := fun _ => []

def emptyHub : StateHub :=
  .new ⟨[], .unavailable, .unavailable, ⟨false, false, false, false, false, false, .available false⟩⟩

def clientOne : ClientId := "client-0000000000000001".toList

/-- The engine drives two processes, and the first of them is a client. -/
def loaded : List (UiCall × Answers) :=
  [.engine (.init Broadcast.Engine.noFilter) rfl, .engine (.updateTargets [1, 2] (some 1)) rfl,
    .publish [⟨1, none, none, none, 1, true, true, true⟩] .unavailable .unavailable].map fun call => (call, answering 0)

def space : KeyStroke := ⟨[⟨"space".toList, by decide⟩], 75, 75, by decide, by decide, by decide⟩

/-- The command that presses the space bar. -/
def tapSpace : UiCall := .sendKeys clientOne [space]

def shiftA : KeyStroke :=
  ⟨[⟨"left_shift".toList, by decide⟩, ⟨"a".toList, by decide⟩], 75, 75, by decide, by decide, by decide⟩

theorem requests_played_shiftA :
    ∃ strokes, UiCall.Requests (.sendKeys clientOne [shiftA]) (answering 0) (((run emptyHub loaded).ui).get rfl) 1 strokes
        (.inputDelivered .keys 1) ∧
      ∀ stroke ∈ strokes, (keyChanges stroke).filter (·.1 = 0x1e) = [(0x1e, true), (0x1e, false)] ∧
        List.Sublist [(0x2a, true), (0x1e, true), (0x1e, false), (0x2a, false)] (keyChanges stroke) := by
  have hrequested : UiCall.Requests (.sendKeys clientOne [shiftA]) (answering 0) (((run emptyHub loaded).ui).get rfl) 1
      [⟨[0x2a, 0x1e], millis 75, millis 75⟩] (.inputDelivered .keys 1) := ⟨_, rfl, _, rfl, rfl, rfl, rfl⟩
  refine ⟨_, hrequested, fun stroke hstroke => ?_⟩
  obtain ⟨hkeys, hbracket⟩ := (UiCall.requests_played hrequested).2 stroke hstroke
  rw [List.mem_singleton.mp hstroke] at hkeys hbracket ⊢
  have hkey : (0x1e : UInt8) ∈ [(0x2a : UInt8), 0x1e] := List.mem_cons_of_mem _ List.mem_cons_self
  exact ⟨(hkeys 0x1e hkey).2.2, hbracket 0x1e hkey 0x2a List.mem_cons_self rfl rfl⟩

/-- Ticks of the timer at these times. -/
def ticked (times : List Nat) : List (UiCall × Answers) := times.map fun now => (.advanceInput, answering now)

/-- A call that waits for a reply, while the control thread runs. -/
theorem Ok.requests (h : s.Ok) {state : UiState} (hui : s.ui = some state) (hcommands : s.commands < 2 ^ 64 - 1)
    {call : UiCall} (hreplies : call.replies = true) (a : Answers) :
    ∃ state' out', s.step (call, a) = ⟨some state', out', s.commands + 1⟩ ∧
      Takes a.now state s.commands s.out (call.Requests a state) state' out' := by
  have hrunning : Running state s.commands s.out := by
    unfold Ok at h
    rw [hui] at h
    exact h
  have htake (command : Nat → UiState → Outside → UiState × Outside) : s.take command =
      ⟨some (command s.commands state s.out).1, (command s.commands state s.out).2, s.commands + 1⟩ := by
    unfold System.take
    rw [hui]
  cases call with
  | sendText clientId text submit => exact ⟨_, _, htake _, startResolved_spec hrunning a clientId _ _ _⟩
  | sendKeys clientId strokes => exact ⟨_, _, htake _, startResolved_spec hrunning a clientId _ _ _⟩
  | sendEqAction clientId action => exact ⟨_, _, htake _, startEqAction_spec hrunning a clientId action⟩
  | sendEqActionBatch targets action => exact ⟨_, _, htake _, startEqActionBatch_spec hrunning a targets action hcommands⟩
  | _ => cases hreplies

/-- A run through a call that waits for a reply: what is begun for it, and what it may still wait for. -/
theorem run_requests (hub : StateHub) (before after : List (UiCall × Answers)) {call : UiCall} {a : Answers} {state : UiState}
    (hlength : (before ++ (call, a) :: after).length < 2 ^ 64) (hui : (run hub before).ui = some state)
    (hreplies : call.replies = true) {s : System} (hs : s = run hub (before ++ (call, a) :: after)) :
    s.Ok ∧ AllOrNone s.out.trace (run hub before).commands (call.Requests a state) ∧ s.Awaited (run hub before).commands := by
  rw [List.length_append, List.length_cons] at hlength
  obtain ⟨hok, hcount⟩ := run_ok hub before (by omega)
  obtain ⟨state', out', hstep, htakes⟩ := hok.requests hui (by omega) hreplies a
  have hrun : s = after.foldl System.step ⟨some state', out', (run hub before).commands + 1⟩ := by
    rw [hs, ← hstep]
    exact List.foldl_append
  have hafter : System.Ok ⟨some state', out', (run hub before).commands + 1⟩ := htakes.goes.running
  obtain ⟨hokAfter, -, -, hgrows, hawaited⟩ := hafter.foldl after (by dsimp only; omega)
  rw [← hrun] at hokAfter hgrows hawaited
  -- what begins later serves later commands
  have hsame (pid : UInt32) (strokes : List ResolvedStroke) (outcome : CommandOutcome) :
      .began (run hub before).commands pid strokes outcome ∈ s.out.trace ↔
        .began (run hub before).commands pid strokes outcome ∈ out'.trace :=
    ⟨fun hmem => (hgrows.began _ _ _ _ hmem).resolve_right (Nat.not_succ_le_self _), hgrows.trace _⟩
  refine ⟨hokAfter, ?_, hawaited _ (.inr htakes.answered)⟩
  refine htakes.began.imp (fun hnone pid strokes outcome hmem => ?_) fun hall pid strokes outcome => ?_
  · exact hnone pid strokes outcome ((hsame pid strokes outcome).mp hmem)
  · exact (hsame pid strokes outcome).trans (hall pid strokes outcome)

/-- A success means that the command has reached at least one process, and that each process it asks for was sent the keys of
all its strokes in order and nothing else, and its sequence has ended. -/
theorem success_delivered (hub : StateHub) (before after : List (UiCall × Answers)) {call : UiCall} {a : Answers}
    {state : UiState} (hlength : (before ++ (call, a) :: after).length < 2 ^ 64) (hui : (run hub before).ui = some state)
    (hreplies : call.replies = true) {outcome : CommandOutcome}
    (hsuccess : ((run hub before).commands, .ok outcome) ∈ (run hub (before ++ (call, a) :: after)).out.sent) :
    (∃ pid strokes, call.Requests a state pid strokes outcome) ∧ ∀ pid strokes outcome',
      call.Requests a state pid strokes outcome' → outcome' = outcome ∧
        Delivered (run hub (before ++ (call, a) :: after)).out.trace (run hub before).commands pid strokes := by
  obtain ⟨hok, hbegan, -⟩ := run_requests hub before after hlength hui hreplies rfl
  obtain ⟨batches, nextBatchId, hinputs⟩ := hok.inputsOk
  obtain ⟨⟨pid, strokes, hsome⟩, hall⟩ := hinputs.success _ outcome hsuccess
  have hrequests := hbegan.resolve_left fun hnone => hnone pid strokes outcome hsome
  exact ⟨⟨pid, strokes, (hrequests pid strokes outcome).mp hsome⟩,
    fun p strokes' outcome' hrequested => hall p strokes' outcome' ((hrequests p strokes' outcome').mpr hrequested)⟩

theorem success_delivered_tapSpace :
    Delivered (run emptyHub (loaded ++ (tapSpace, answering 0) :: ticked [200, 275, 375])).out.trace 0 1
      [⟨[0x39], millis 75, millis 75⟩] := by
  have hrequested : tapSpace.Requests (answering 0) (((run emptyHub loaded).ui).get rfl) 1 [⟨[0x39], millis 75, millis 75⟩]
      (.inputDelivered .keys 1) := ⟨_, rfl, _, rfl, rfl, rfl, rfl⟩
  exact ((success_delivered emptyHub loaded (ticked [200, 275, 375]) (by decide) rfl rfl List.mem_cons_self).2 _ _ _
    hrequested).2

/-- A command has at most one reply, and none is forgotten: it has its reply, no one waits for it, a sequence under way
serves it that will reply, or the control thread has ended. -/
theorem replied_once (hub : StateHub) (before after : List (UiCall × Answers)) {call : UiCall} {a : Answers} {state : UiState}
    (hlength : (before ++ (call, a) :: after).length < 2 ^ 64) (hui : (run hub before).ui = some state)
    (hreplies : call.replies = true) :
    ((run hub (before ++ (call, a) :: after)).out.sent.map (·.1)).Nodup ∧
      (run hub (before ++ (call, a) :: after)).Awaited (run hub before).commands := by
  obtain ⟨hok, -, hawaited⟩ := run_requests hub before after hlength hui hreplies rfl
  obtain ⟨batches, nextBatchId, hinputs⟩ := hok.inputsOk
  exact ⟨hinputs.once, hawaited⟩

theorem replied_once_tapSpace :
    (run emptyHub (loaded ++ (tapSpace, answering 0) :: ticked [200])).ui ≠ none ∧
      (run emptyHub (loaded ++ (tapSpace, answering 0) :: ticked [200])).Awaited 0 :=
  ⟨Option.some_ne_none _, (replied_once emptyHub loaded (ticked [200]) (by decide) rfl rfl).2⟩

end System

end Stonemite.Control
