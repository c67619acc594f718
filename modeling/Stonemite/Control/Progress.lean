import Stonemite.Control.Delivery
import Stonemite.Control.EngineCalls

/-!
# Progress of the input sequences

A command is answered in time: while the timer ticks at least once in every `gap`, each of its sequences ends by the first
tick after the delays of its strokes, one `gap` more for every phase, whatever other calls come in between
(`System.answered_in_time`). The invariant is `System.OnTime`: the next step of a sequence and the time that is left from it on
(`ActiveInput.timeLeft`) never pass the limit. Key strokes have at most 15 seconds of holds and pauses, so their reply comes
within the 45 seconds that it is waited for (`keys_answered`).
-/

namespace Stonemite.Control
open Std Trushar Keymaps KeyCodes

/-! ### The time a stroke takes -/

/-- What is waited after the keys of a phase. -/
def phaseDelay (stroke : ResolvedStroke) : InputPhase → Nat
  | .press => if hasModifierChord stroke then inputModifierDelay else stroke.hold
  | .pressChord => stroke.hold
  | .release => if hasModifierChord stroke then inputModifierDelay else stroke.pause
  | .releaseModifiers => stroke.pause
  | .finish => 0

/-- The time that some phases of a stroke take, each late by one gap at most. -/
def phasesTime (gap : Nat) (stroke : ResolvedStroke) (phases : List InputPhase) : Nat :=
  (phases.map fun phase => phaseDelay stroke phase + gap).sum

/-- The time that a stroke takes. -/
def playTime (gap : Nat) (stroke : ResolvedStroke) : Nat := phasesTime gap stroke (phases stroke)

/-- The time that some strokes take one after the other. -/
def playTimes (gap : Nat) (strokes : List ResolvedStroke) : Nat := (strokes.map (playTime gap)).sum

namespace ActiveInput
variable {input : ActiveInput} {gap now : Nat}

/-- The time that is left for a sequence from its next step on. -/
def timeLeft (gap : Nat) (input : ActiveInput) : Nat :=
  phasesTime gap input.stroke ((phases input.stroke).dropWhile (· ≠ input.phase)) +
    playTimes gap (input.strokes.drop (input.index + 1)) +
      (if input.phase = .finish then 0 else inputReleaseDelay) + gap

theorem gap_le_timeLeft (gap : Nat) (input : ActiveInput) : gap ≤ input.timeLeft gap := Nat.le_add_left ..

theorem dropWhile_press (stroke : ResolvedStroke) : (phases stroke).dropWhile (· ≠ .press) = phases stroke := by
  unfold phases
  split_ifs <;> rfl

theorem dropWhile_finish (stroke : ResolvedStroke) : (phases stroke).dropWhile (· ≠ .finish) = [] := by
  unfold phases
  split_ifs <;> rfl

theorem dropWhile_phaseAfter (stroke : ResolvedStroke) {phase : InputPhase} (h : phase ∈ phases stroke) :
    (phases stroke).dropWhile (· ≠ phase) =
      phase :: ((phaseAfter stroke phase).map fun next => (phases stroke).dropWhile (· ≠ next)).getD [] := by
  unfold phaseAfter
  unfold phases at h ⊢
  split_ifs at h ⊢
  all_goals fin_cases h
  all_goals simp [List.dropWhile]

theorem phasesTime_cons (gap : Nat) (stroke : ResolvedStroke) (phase : InputPhase) (phases : List InputPhase) :
    phasesTime gap stroke (phase :: phases) = phaseDelay stroke phase + gap + phasesTime gap stroke phases := List.sum_cons

theorem drop_index (input : ActiveInput) :
    input.strokes.drop input.index = input.stroke :: input.strokes.drop (input.index + 1) :=
  List.drop_eq_getElem_cons input.inBounds

theorem timeLeft_press (hphase : input.phase = .press) :
    input.timeLeft gap = playTimes gap (input.strokes.drop input.index) + inputReleaseDelay + gap := by
  unfold timeLeft
  rw [hphase, dropWhile_press, if_neg InputPhase.noConfusion, drop_index]
  rfl

/-- A phase uses up its time, if it is not late by more than one gap. -/
theorem completeStroke_timeLeft (hmem : input.phase ∈ phases input.stroke)
    (hphase : phaseAfter input.stroke input.phase = none)
    (hpause : phaseDelay input.stroke input.phase = input.stroke.pause) (hnow : now ≤ input.nextStep + gap) :
    (completeStroke input now).nextStep + (completeStroke input now).timeLeft gap ≤ input.nextStep + input.timeLeft gap := by
  have hleft : input.timeLeft gap = input.stroke.pause + gap + playTimes gap (input.strokes.drop (input.index + 1)) +
      inputReleaseDelay + gap := by
    have hne : input.phase ≠ .finish := fun heq => finish_not_mem input.stroke (heq ▸ hmem)
    unfold timeLeft
    rw [dropWhile_phaseAfter input.stroke hmem, hphase, phasesTime_cons, hpause, if_neg hne]
    rfl
  rw [hleft]
  unfold completeStroke
  by_cases hnext : input.index + 1 < input.strokes.length
  · rw [dif_pos hnext, timeLeft_press rfl]
    dsimp only
    omega
  · rw [dif_neg hnext]
    have hrest : input.strokes.drop (input.index + 1) = [] := List.drop_eq_nil_of_le (Nat.le_of_not_lt hnext)
    unfold timeLeft
    dsimp only
    rw [if_pos rfl, hrest]
    have hnothing : phasesTime gap (ActiveInput.stroke { input with phase := .finish, nextStep := now + inputReleaseDelay })
        ((phases (ActiveInput.stroke { input with phase := .finish, nextStep := now + inputReleaseDelay })).dropWhile
          (· ≠ .finish)) = 0 := by
      rw [dropWhile_finish]
      rfl
    rw [hnothing]
    omega

theorem le_nextStep_completeStroke (input : ActiveInput) (now : Nat) : now ≤ (completeStroke input now).nextStep := by
  unfold completeStroke
  split_ifs
  · exact Nat.le_add_right ..
  · exact Nat.le_add_right ..

/-- The next step is not before the present one, and the time that is left goes down with it. -/
theorem nextPhase_timeLeft (hmem : input.phase ∈ phases input.stroke) (hnow : now ≤ input.nextStep + gap) :
    now ≤ (nextPhase input now).nextStep ∧
      (nextPhase input now).nextStep + (nextPhase input now).timeLeft gap ≤ input.nextStep + input.timeLeft gap := by
  have hmove {next : ActiveInput} (hnext : phaseAfter input.stroke input.phase = some next.phase)
      (hstrokes : next.strokes = input.strokes) (hindex : next.index = input.index) (hstroke : next.stroke = input.stroke)
      (hstep : next.nextStep = now + phaseDelay input.stroke input.phase) :
      now ≤ next.nextStep ∧ next.nextStep + next.timeLeft gap ≤ input.nextStep + input.timeLeft gap := by
    have hne : input.phase ≠ .finish := fun heq => finish_not_mem input.stroke (heq ▸ hmem)
    have hnextNe : next.phase ≠ .finish := fun heq =>
      finish_not_mem input.stroke (heq ▸ phaseAfter_mem input.stroke hmem hnext)
    refine ⟨hstep ▸ Nat.le_add_right .., ?_⟩
    unfold timeLeft
    rw [dropWhile_phaseAfter input.stroke hmem, hnext, phasesTime_cons, hstrokes, hindex, hstroke, if_neg hne, if_neg hnextNe,
      hstep, Option.map_some, Option.getD_some]
    omega
  have hcomplete (hnext : phaseAfter input.stroke input.phase = none)
      (hpause : phaseDelay input.stroke input.phase = input.stroke.pause) :=
    And.intro (le_nextStep_completeStroke input now) (completeStroke_timeLeft hmem hnext hpause hnow)
  unfold nextPhase
  dsimp only
  split
  next hphase =>
    rw [hphase] at hmove
    by_cases hchord : hasModifierChord input.stroke = true
    · rw [if_pos hchord]
      exact hmove (congrArg some (if_pos hchord)) rfl rfl rfl (congrArg (now + ·) (if_pos hchord).symm)
    · rw [if_neg hchord]
      exact hmove (congrArg some (if_neg hchord)) rfl rfl rfl (congrArg (now + ·) (if_neg hchord).symm)
  next hphase =>
    rw [hphase] at hmove
    exact hmove rfl rfl rfl rfl rfl
  next hphase =>
    rw [hphase] at hmove hcomplete
    by_cases hchord : hasModifierChord input.stroke = true
    · rw [if_pos hchord]
      exact hmove (if_pos hchord) rfl rfl rfl (congrArg (now + ·) (if_pos hchord).symm)
    · rw [if_neg hchord]
      exact hcomplete (if_neg hchord) (if_neg hchord)
  next hphase =>
    rw [hphase] at hcomplete
    exact hcomplete rfl rfl
  next hphase => exact absurd (hphase ▸ hmem) (finish_not_mem input.stroke)

end ActiveInput

/-! ### Every run -/

/-- The ticks among some calls come in order, each not later than one gap after the one before. -/
def Ticking (gap : Nat) : Nat → List (UiCall × Answers) → Prop
  | _, [] => True
  | t, (call, a) :: calls =>
    if call.ticks then t ≤ a.now ∧ a.now ≤ t + gap ∧ Ticking gap a.now calls else Ticking gap t calls

instance decidableTicking (gap : Nat) : (t : Nat) → (calls : List (UiCall × Answers)) → Decidable (Ticking gap t calls)
  | _, [] => .isTrue trivial
  | t, (call, a) :: calls =>
    have := decidableTicking gap a.now calls
    have := decidableTicking gap t calls
    inferInstanceAs (Decidable (if call.ticks then t ≤ a.now ∧ a.now ≤ t + gap ∧ Ticking gap a.now calls
      else Ticking gap t calls))

/-- The time of the last tick among some calls. -/
def lastTick : Nat → List (UiCall × Answers) → Nat
  | t, [] => t
  | t, (call, a) :: calls => lastTick (if call.ticks then a.now else t) calls

namespace System
variable {s : System} {command gap t limit : Nat}

/-- The sequences of a command are not late. -/
def OnTime (s : System) (command gap t limit : Nat) : Prop :=
  ∀ pid input, s.inputs pid = some input → input.command = command →
    t ≤ input.nextStep ∧ input.nextStep + input.timeLeft gap ≤ limit

theorem OnTime.step {now : Nat} {tick : Bool} {s' : System} (h : s.OnTime command gap t limit)
    (hsteps : Steps now tick s s') (hcommand : command < s.commands) (hnow : tick = true → t ≤ now ∧ now ≤ t + gap) :
    s'.OnTime command gap (if tick then now else t) limit := by
  intro pid input hinput hserves
  cases hsteps.moved pid input hinput with
  | begun hnew => exact absurd (hserves ▸ hnew) (Nat.not_le.mpr hcommand)
  | kept htick hsame =>
    rw [htick, if_neg Bool.false_ne_true]
    exact h pid input hsame hserves
  | ticked htick hbefore hticked =>
    rw [if_pos htick]
    obtain ⟨hge, hle⟩ := hnow htick
    cases hticked with
    | early hearly =>
      obtain ⟨-, hlimit⟩ := h pid input hbefore hserves
      exact ⟨hearly.le, hlimit⟩
    | due hdue hplaying =>
      rename_i before
      obtain ⟨-, -, hsame⟩ := ActiveInput.nextPhase_spec hplaying now
      obtain ⟨hstep, hlimit⟩ := h pid before hbefore (hsame.command.symm.trans hserves)
      have hlate : now ≤ before.nextStep + gap := by omega
      obtain ⟨hnext, hleft⟩ := ActiveInput.nextPhase_timeLeft hplaying hlate
      exact ⟨hnext, hleft.trans hlimit⟩

theorem OnTime.foldl (hok : s.Ok) (calls : List (UiCall × Answers)) (hlength : s.commands + calls.length < 2 ^ 64)
    (h : s.OnTime command gap t limit) (hcommand : command < s.commands) (hticks : Ticking gap t calls) :
    (calls.foldl System.step s).OnTime command gap (lastTick t calls) limit := by
  induction calls generalizing s t with
  | nil => exact h
  | cons call calls ih =>
    obtain ⟨call, a⟩ := call
    rw [List.length_cons] at hlength
    have hstep := hok.step (by omega) call a
    have hbounds := hstep.commands
    unfold Ticking at hticks
    have hnow (htick : call.ticks = true) : t ≤ a.now ∧ a.now ≤ t + gap := by
      rw [if_pos htick] at hticks
      exact ⟨hticks.1, hticks.2.1⟩
    have hrest : Ticking gap (if call.ticks then a.now else t) calls := by
      split_ifs at hticks ⊢
      · exact hticks.2.2
      · exact hticks
    exact ih hstep.ok (by omega) (h.step hstep hcommand hnow) (hcommand.trans_le hbounds.1) hrest

/-- A command is answered in time, whatever other calls come in between. -/
theorem answered_in_time (hub : StateHub) (before after : List (UiCall × Answers)) {call : UiCall} {a : Answers}
    {state : UiState} (hlength : (before ++ (call, a) :: after).length < 2 ^ 64) (hui : (run hub before).ui = some state)
    (hreplies : call.replies = true) {gap time : Nat} (hticks : Ticking gap a.now after)
    (htime : ∀ pid strokes outcome, call.Requests a state pid strokes outcome → playTimes gap strokes ≤ time)
    (hlate : a.now + inputActivationDelay + time + inputReleaseDelay < lastTick a.now after) :
    (run hub (before ++ (call, a) :: after)).ui = none ∨
      (∃ result, ((run hub before).commands, result) ∈ (run hub (before ++ (call, a) :: after)).out.sent) ∨
        (run hub before).commands ∈ (run hub (before ++ (call, a) :: after)).out.closed := by
  rw [List.length_append, List.length_cons] at hlength
  obtain ⟨hok, hcount⟩ := run_ok hub before (by omega)
  obtain ⟨state', out', hstep, htakes⟩ := hok.requests hui (by omega) hreplies a
  have hafter : System.Ok ⟨some state', out', (run hub before).commands + 1⟩ := htakes.goes.running
  have honTime : OnTime ⟨some state', out', (run hub before).commands + 1⟩ (run hub before).commands gap a.now
      (a.now + inputActivationDelay + time + inputReleaseDelay + gap) := by
    intro pid input hinput hserves
    obtain ⟨-, -, outcome, hbegan, -⟩ := htakes.goes.running.ok.input pid input hinput
    have hrequested : call.Requests a state pid input.strokes outcome := by
      rw [hserves] at hbegan
      exact (htakes.began.resolve_left fun hnone => hnone _ _ _ hbegan) _ _ _ |>.mp hbegan
    have hplay := htime pid input.strokes outcome hrequested
    cases htakes.goes.moved pid input hinput with
    | begun _ hstart hnext =>
      rw [hnext, ActiveInput.timeLeft_press hstart.2, hstart.1, List.drop_zero]
      exact ⟨Nat.le_add_right .., by omega⟩
    | kept _ hsame =>
      unfold Ok at hok
      rw [hui] at hok
      exact absurd hserves (hok.ok.input pid input hsame).opened.lt.ne
    | ticked htick => cases htick
  have hfinal := honTime.foldl hafter after (by dsimp only; omega) (Nat.lt_succ_self _) hticks
  obtain ⟨-, -, -, -, hawaited⟩ := hafter.foldl after (by dsimp only; omega)
  have hrun : run hub (before ++ (call, a) :: after) =
      after.foldl System.step ⟨some state', out', (run hub before).commands + 1⟩ := by
    rw [← hstep]
    exact List.foldl_append
  rw [hrun]
  obtain hended | hsent | hclosed | ⟨pid, input, hinput, hserves, -⟩ := hawaited _ (.inr htakes.answered)
  · exact .inl hended
  · exact .inr (.inl hsent)
  · exact .inr (.inr hclosed)
  · obtain ⟨hstep, hlimit⟩ := hfinal pid input hinput hserves
    have hgap := input.gap_le_timeLeft gap
    omega

theorem answered_in_time_tapSpace :
    ∃ result, (0, result) ∈
      (run emptyHub (loaded ++ (tapSpace, answering 0) :: ticked [100, 200, 300, 400, 500, 600, 700])).out.sent := by
  have hticking : Ticking (millis 100) (answering 0).now (ticked [100, 200, 300, 400, 500, 600, 700]) := by decide
  have hlate : (answering 0).now + inputActivationDelay + millis 350 + inputReleaseDelay <
      lastTick (answering 0).now (ticked [100, 200, 300, 400, 500, 600, 700]) := by decide
  have htime (pid : UInt32) (strokes : List ResolvedStroke) (outcome : CommandOutcome)
      (hrequested : tapSpace.Requests (answering 0) (((run emptyHub loaded).ui).get rfl) pid strokes outcome) :
      playTimes (millis 100) strokes ≤ millis 350 := by
    obtain ⟨requested, hresolved, source, -, -, rfl, -⟩ := hrequested
    cases hresolved
    decide
  obtain hended | hsent | hclosed := answered_in_time emptyHub loaded (ticked [100, 200, 300, 400, 500, 600, 700])
    (by decide) rfl rfl hticking htime hlate
  · exact absurd hended (Option.some_ne_none _)
  · exact hsent
  · exact absurd hclosed List.not_mem_nil

end System

/-! ### Key strokes -/

/-- How long a caller waits for its reply. -/
def inputTimeout : Nat := millis 45000

theorem playTime_le (gap : Nat) (stroke : ResolvedStroke) :
    playTime gap stroke ≤ stroke.hold + stroke.pause + (2 * inputModifierDelay + 4 * gap) := by
  unfold playTime phasesTime phases phaseDelay
  split_ifs
  · simp only [List.map_cons, List.map_nil, List.sum_cons, List.sum_nil]
    omega
  · simp only [List.map_cons, List.map_nil, List.sum_cons, List.sum_nil]
    omega

theorem playTimes_le (gap : Nat) (strokes : List ResolvedStroke) :
    playTimes gap strokes ≤ (strokes.map fun stroke => stroke.hold + stroke.pause).sum +
      strokes.length * (2 * inputModifierDelay + 4 * gap) := by
  induction strokes with
  | nil => exact Nat.zero_le _
  | cons stroke strokes ih =>
    have hstroke := playTime_le gap stroke
    unfold playTimes at ih ⊢
    rw [List.map_cons, List.map_cons, List.sum_cons, List.sum_cons, List.length_cons, Nat.succ_mul]
    omega

theorem resolveKeyStroke_time {stroke : KeyStroke} {resolved : ResolvedStroke} (h : resolveKeyStroke stroke = .ok resolved) :
    resolved.hold + resolved.pause = millis (stroke.holdMs + stroke.pauseMs) := by
  unfold resolveKeyStroke at h
  cases hkeys : stroke.keys.mapM fun key => semanticScanCode key.val with
  | none =>
    rw [hkeys] at h
    cases h
  | some scans =>
    rw [hkeys] at h
    obtain rfl := Except.ok.inj h
    exact (Nat.add_mul ..).symm

theorem sum_millis (times : List Nat) : (times.map millis).sum = millis times.sum := by
  induction times with
  | nil => rfl
  | cons time times ih =>
    rw [List.map_cons, List.sum_cons, List.sum_cons, ih]
    exact (Nat.add_mul ..).symm

/-- The strokes of an accepted command are played in less than the time that its reply is waited for. -/
theorem resolveKeys_time {keys : List KeyStroke} {strokes : List ResolvedStroke} (h : resolveKeys keys = .ok strokes)
    {gap : Nat} (hgap : gap ≤ millis 100) : playTimes gap strokes ≤ millis 44440 := by
  unfold resolveKeys validateKeyStrokes at h
  by_cases hcount : (keys.isEmpty || maxKeyStrokes < keys.length) = true
  · rw [if_pos hcount] at h
    cases h
  rw [if_neg hcount] at h
  by_cases hlong : maxInputDurationMs < (keys.map fun stroke => stroke.holdMs + stroke.pauseMs).sum
  · rw [if_pos hlong] at h
    cases h
  rw [if_neg hlong] at h
  have hresolved := forall₂_of_mapM_ok h
  have htimes : (strokes.map fun stroke => stroke.hold + stroke.pause) =
      keys.map fun stroke => millis (stroke.holdMs + stroke.pauseMs) :=
    map_eq_of_forall₂ hresolved fun _ _ => resolveKeyStroke_time
  have hsum : (strokes.map fun stroke => stroke.hold + stroke.pause).sum ≤ millis 15000 := by
    have hmillis : keys.map (fun stroke => millis (stroke.holdMs + stroke.pauseMs)) =
        (keys.map fun stroke => stroke.holdMs + stroke.pauseMs).map millis := by
      rw [List.map_map]
      rfl
    rw [htimes, hmillis, sum_millis]
    exact Nat.mul_le_mul_right _ (Nat.le_of_not_lt hlong)
  have hlength : strokes.length ≤ 64 := by
    rw [← hresolved.length_eq]
    rw [Bool.or_eq_true, not_or, decide_eq_true_eq] at hcount
    exact Nat.le_of_not_lt hcount.2
  calc playTimes gap strokes
      ≤ (strokes.map fun stroke => stroke.hold + stroke.pause).sum +
          strokes.length * (2 * inputModifierDelay + 4 * gap) := playTimes_le gap strokes
    _ ≤ millis 15000 + 64 * (2 * inputModifierDelay + 4 * millis 100) :=
        Nat.add_le_add hsum (Nat.mul_le_mul hlength (by omega))
    _ = millis 44440 := by decide

theorem Ticking.of_append {gap t : Nat} {first rest : List (UiCall × Answers)} (h : Ticking gap t (first ++ rest)) :
    Ticking gap t first := by
  induction first generalizing t with
  | nil => trivial
  | cons call first ih =>
    obtain ⟨call, a⟩ := call
    rw [List.cons_append] at h
    unfold Ticking at h ⊢
    split_ifs at h ⊢
    · exact ⟨h.1, h.2.1, ih h.2.2⟩
    · exact ih h

theorem Ticking.first_le {gap t moment : Nat} {calls : List (UiCall × Answers)} (h : Ticking gap t calls)
    (hfrom : ∀ call ∈ calls, moment ≤ call.2.now) (ht : t < moment) (hlate : moment ≤ lastTick t calls) : moment ≤ t + gap := by
  induction calls with
  | nil => exact absurd hlate (Nat.not_le.mpr ht)
  | cons call calls ih =>
    obtain ⟨call, a⟩ := call
    obtain ⟨hcall, hcalls⟩ := List.forall_mem_cons.mp hfrom
    unfold Ticking at h
    unfold lastTick at hlate
    split_ifs at h hlate
    · exact hcall.trans h.2.1
    · exact ih h hcalls hlate

/-- The last tick before a moment is at most one gap before it. -/
theorem Ticking.le_lastTick_before {gap t moment : Nat} {calls : List (UiCall × Answers)} (h : Ticking gap t calls)
    (hclock : (calls.map (·.2.now)).Pairwise (· ≤ ·)) (ht : t < moment) (hlate : moment ≤ lastTick t calls) :
    moment ≤ lastTick t (calls.takeWhile fun call => call.2.now < moment) + gap := by
  induction calls generalizing t with
  | nil => exact absurd hlate (Nat.not_le.mpr ht)
  | cons call calls ih =>
    by_cases hbefore : call.2.now < moment
    · rw [List.takeWhile_cons, if_pos (decide_eq_true hbefore)]
      obtain ⟨call, a⟩ := call
      have hrest := (List.pairwise_cons.mp hclock).2
      unfold Ticking at h
      unfold lastTick at hlate ⊢
      split_ifs at h hlate ⊢
      · exact ih h.2.2 hrest hbefore hlate
      · exact ih h hrest ht hlate
    · rw [List.takeWhile_cons, if_neg fun htrue => hbefore (of_decide_eq_true htrue)]
      have hfrom : ∀ later ∈ call :: calls, moment ≤ later.2.now := by
        refine List.forall_mem_cons.mpr ⟨Nat.le_of_not_lt hbefore, fun later hlater => ?_⟩
        exact (Nat.le_of_not_lt hbefore).trans
          ((List.pairwise_cons.mp hclock).1 _ (List.mem_map_of_mem hlater))
      exact h.first_le hfrom ht hlate

namespace System
variable {s : System} {command : Nat}

theorem ui_step (a : Answers) {call : UiCall} (hstop : call ≠ .stop) (hui : s.ui ≠ none) : (s.step (call, a)).ui ≠ none := by
  obtain ⟨state, hstate⟩ := Option.ne_none_iff_exists'.mp hui
  cases call with
  | stop => exact absurd rfl hstop
  | closeReply | engine => exact hui
  | sendText | sendKeys | sendEqAction | sendEqActionBatch | sendInviteFollow =>
    unfold step take
    dsimp only
    rw [hstate]
    exact Option.some_ne_none _
  | advanceInput | publish | recordConsider =>
    unfold step onUi
    dsimp only
    rw [hstate]
    exact Option.some_ne_none _

theorem closed_step (a : Answers) {call : UiCall} (hclose : call ≠ .closeReply command) (hopen : command ∉ s.out.closed) :
    command ∉ (s.step (call, a)).out.closed := by
  cases call with
  | closeReply reply =>
    exact List.not_mem_cons_of_ne_of_not_mem (fun heq => hclose (heq ▸ rfl)) hopen
  | engine => exact hopen
  | _ =>
    rw [(reaches_step s a _ rfl fun _ => UiCall.noConfusion).closed]
    exact hopen

theorem waits_foldl (calls : List (UiCall × Answers)) (hwaits : ∀ call ∈ calls, call.1 ≠ .stop ∧ call.1 ≠ .closeReply command)
    (hui : s.ui ≠ none) (hopen : command ∉ s.out.closed) :
    (calls.foldl step s).ui ≠ none ∧ command ∉ (calls.foldl step s).out.closed := by
  induction calls generalizing s with
  | nil => exact ⟨hui, hopen⟩
  | cons call calls ih =>
    obtain ⟨⟨hstop, hclose⟩, hrest⟩ := List.forall_mem_cons.mp hwaits
    exact ih hrest (ui_step call.2 hstop hui) (closed_step call.2 hclose hopen)

end System

/-- A command of key strokes has its reply before it is no longer waited for, while there are ten ticks in a second and the
control thread runs. -/
theorem keys_answered (hub : StateHub) (before after : List (UiCall × Answers)) {clientId : ClientId} {keys : List KeyStroke}
    {a : Answers} {state : UiState} (hlength : (before ++ (.sendKeys clientId keys, a) :: after).length < 2 ^ 64)
    (hui : (System.run hub before).ui = some state) (hopen : (System.run hub before).commands ∉ (System.run hub before).out.closed)
    {gap : Nat} (hgap : gap ≤ millis 100) (hticks : Ticking gap a.now after)
    (hclock : (after.map (·.2.now)).Pairwise (· ≤ ·)) (hlate : a.now + inputTimeout ≤ lastTick a.now after)
    (hwaits : ∀ call ∈ after, call.2.now < a.now + inputTimeout →
      call.1 ≠ .stop ∧ call.1 ≠ .closeReply (System.run hub before).commands) :
    ∃ first rest, after = first ++ rest ∧ (∀ call ∈ first, call.2.now < a.now + inputTimeout) ∧
      ∃ result, ((System.run hub before).commands, result) ∈
        (System.run hub (before ++ (.sendKeys clientId keys, a) :: first)).out.sent := by
  have htime (pid : UInt32) (strokes : List ResolvedStroke) (outcome : CommandOutcome)
      (hrequested : (UiCall.sendKeys clientId keys).Requests a state pid strokes outcome) :
      playTimes gap strokes ≤ millis 44440 := by
    obtain ⟨requested, hresolved, source, -, -, rfl, -⟩ := hrequested
    exact resolveKeys_time hresolved hgap
  have htimes : inputActivationDelay + millis 44440 + inputReleaseDelay + millis 100 < inputTimeout := by decide
  have hsplit := (List.takeWhile_append_dropWhile (p := fun call : UiCall × Answers => call.2.now < a.now + inputTimeout)
    (l := after)).symm
  have hbefore := fun call hmem => of_decide_eq_true
    (List.mem_takeWhile_imp (p := fun call : UiCall × Answers => call.2.now < a.now + inputTimeout) (x := call) (l := after) hmem)
  have htick := hticks.le_lastTick_before hclock (Nat.lt_add_of_pos_right (by decide)) hlate
  generalize after.takeWhile (fun call => decide (call.2.now < a.now + inputTimeout)) = first at hsplit hbefore htick
  generalize after.dropWhile (fun call => decide (call.2.now < a.now + inputTimeout)) = rest at hsplit
  subst hsplit
  refine ⟨first, rest, rfl, hbefore, ?_⟩
  have hshort : (before ++ (UiCall.sendKeys clientId keys, a) :: first).length < 2 ^ 64 := by
    rw [List.length_append, List.length_cons] at hlength ⊢
    rw [List.length_append] at hlength
    omega
  have hcalls : ∀ call ∈ (UiCall.sendKeys clientId keys, a) :: first,
      call.1 ≠ .stop ∧ call.1 ≠ .closeReply (System.run hub before).commands := by
    refine List.forall_mem_cons.mpr ⟨⟨UiCall.noConfusion, UiCall.noConfusion⟩, fun call hmem => ?_⟩
    exact hwaits call (List.mem_append_left rest hmem) (hbefore call hmem)
  obtain ⟨hrunning, hwaited⟩ := System.waits_foldl _ hcalls (hui ▸ Option.some_ne_none state) hopen
  unfold System.run at hrunning hwaited ⊢
  rw [← List.foldl_append] at hrunning hwaited
  obtain hended | hsent | hclosed :=
    System.answered_in_time hub before first hshort hui rfl hticks.of_append htime (by omega)
  · exact absurd hended hrunning
  · exact hsent
  · exact absurd hclosed hwaited

theorem keys_answered_tapSpace :
    ∃ first rest, System.ticked ((List.range 450).map fun n => 100 * (n + 1)) ++
        [(.closeReply 0, System.answering 45000), (.stop, System.answering 45000)] = first ++ rest ∧
      (∀ call ∈ first, call.2.now < (System.answering 0).now + inputTimeout) ∧
      ∃ result, (0, result) ∈
        (System.run System.emptyHub (System.loaded ++ (System.tapSpace, System.answering 0) :: first)).out.sent := by
  refine keys_answered System.emptyHub System.loaded _ (by decide +kernel) rfl List.not_mem_nil (Nat.le_refl (millis 100))
    (by decide +kernel) (List.isChain_iff_pairwise.mp (by decide +kernel)) (by decide +kernel) fun call hmem hbefore => ?_
  rcases List.mem_append.mp hmem with hmem | hmem
  · obtain ⟨now, -, rfl⟩ := List.mem_map.mp hmem
    exact ⟨UiCall.noConfusion, UiCall.noConfusion⟩
  · rcases List.mem_pair.mp hmem with rfl | rfl
    · exact absurd hbefore (by decide)
    · exact absurd hbefore (by decide)

end Stonemite.Control
