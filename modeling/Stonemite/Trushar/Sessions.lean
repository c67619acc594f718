import Stonemite.Trushar.Connections

/-!
# Sessions of the control server

A connection with its history, over any turns: every frame that asks for an answer is answered once under its id or stays
with a command in flight, and what the controller is asked are checked requests in the order of their frames. `Answered`
and `Passing` are the invariants (`Answered.step`, `calls_step`); `answered_once` and `calls_passed` are what they say at
the end.
-/

namespace Stonemite.Trushar.Server

/-- A connection, the frames it has read that ask for an answer, and what the controller has been asked, each call with the
number of frames before its own. -/
structure Session where
  connection : Connection
  asked : List Incoming
  calls : List (Nat × ControllerCall)

/-- The ids of the answers that have been sent. -/
def Connection.answered (c : Connection) : List (Option Str) := c.frames.filterMap ServerMessage.answers

/-- The ids of the requests whose commands are in flight. -/
def Connection.awaiting (c : Connection) : List (Option Str) := c.commands.map fun entry => some entry.2

namespace Session

/-- The turn's requests and the call it made are added to the log. -/
def record (s : Session) (asks : List Incoming) (result : Connection × Option ControllerCall) : Session :=
  ⟨result.1, s.asked ++ asks, s.calls ++ result.2.toList.map (s.asked.length, ·)⟩

/-- The session after its first state was written, or could not be. -/
def opened (sessionId : UInt64) (snapshot : StateSnapshot) (written : Bool) : Session :=
  record ⟨⟨sessionId, 0, 0, [], 0, [], false⟩, [], []⟩ [] (Connection.opened sessionId snapshot written)

variable {N : Type} (r : Reader N)

/-- Nothing is read once the loop has ended. -/
def step (s : Session) (turn : Turn) : Session :=
  if s.connection.closed then s else s.record turn.event.asks.toList (s.connection.step r turn)

def run (s : Session) (turns : List Turn) : Session := turns.foldl (step r) s

end Session

/-! ### Every frame is answered once -/

section answers
variable {N : Type} {r : Reader N} {s : Session}

/-- The frames that ask are those that have been answered, those with a command in flight, and, once the loop has ended,
those whose replies are lost. -/
structure Answered (r : Reader N) (s : Session) : Prop where
  once : ∃ lost, (s.asked.map (Incoming.requestId r)).Perm
    (s.connection.answered ++ s.connection.awaiting ++ lost) ∧ (s.connection.closed = false → lost = [])
  bounded : s.connection.commands.length ≤ maxInFlightCommands

theorem Answered.of_open (hopen : s.connection.closed = false) (h : Answered r s) :
    (s.asked.map (Incoming.requestId r)).Perm (s.connection.answered ++ s.connection.awaiting) := by
  obtain ⟨lost, hperm, hlost⟩ := h.once
  rw [hlost hopen, List.append_nil] at hperm
  exact hperm

theorem answered_append (frames : List ServerMessage) (message : ServerMessage) :
    (frames ++ [message]).filterMap ServerMessage.answers =
      frames.filterMap ServerMessage.answers ++ message.answers.toList := by
  rw [List.filterMap_append]
  cases hanswers : message.answers with
  | none => rw [List.filterMap_cons_none hanswers, List.filterMap_nil, Option.toList_none]
  | some id => rw [List.filterMap_cons_some hanswers, List.filterMap_nil, Option.toList_some]

theorem Answered.step (h : Answered r s) (turn : Turn) : Answered r (s.step r turn) := by
  unfold Session.step
  cases hopen : s.connection.closed with
  | true =>
    rw [if_pos rfl]
    exact h
  | false =>
    rw [if_neg Bool.false_ne_true]
    have hperm := h.of_open hopen
    have hturned : Turned r s.connection turn _ := turned hopen
    -- what an answer adds on both sides
    have hadd {ids : List (Option Str)} (hids : ids.Perm (s.connection.answered ++ s.connection.awaiting))
        (id : Option Str) : (ids ++ [id]).Perm (s.connection.answered ++ [id] ++ s.connection.awaiting) := by
      refine (hids.append_right [id]).trans ?_
      rw [List.append_assoc, List.append_assoc]
      exact List.perm_append_comm.append_left _
    cases hresult : s.connection.step r turn with
    | mk c' call =>
    rw [hresult] at hturned
    cases hturned with
    | finished revision =>
      refine ⟨⟨s.connection.awaiting ++ turn.event.asks.toList.map (Incoming.requestId r), ?_, ?_⟩, Nat.zero_le _⟩
      · show (List.map _ (s.asked ++ _)).Perm (s.connection.answered ++ [] ++ _)
        rw [List.map_append, List.append_nil, ← List.append_assoc]
        exact hperm.append_right _
      · intro hclosed
        cases hclosed
    | idle hasks =>
      refine ⟨⟨[], ?_, fun _ => rfl⟩, h.bounded⟩
      rw [hasks]
      simpa [Session.record] using hperm
    | told hasks hlater =>
      refine ⟨⟨[], ?_, fun _ => rfl⟩, h.bounded⟩
      rw [hasks]
      have hsame : (s.connection.frames ++ [ServerMessage.state turn.snapshot]).filterMap ServerMessage.answers =
          s.connection.answered := (answered_append _ _).trans (List.append_nil _)
      show (List.map _ (s.asked ++ [])).Perm ((s.connection.frames ++ [_]).filterMap _ ++ s.connection.awaiting ++ [])
      rw [hsame, List.append_nil, List.append_nil]
      exact hperm
    | answered frame message hasks hanswers hdone =>
      refine ⟨⟨[], ?_, fun _ => rfl⟩, h.bounded⟩
      rw [hasks]
      show (List.map _ (s.asked ++ [frame])).Perm
        ((s.connection.frames ++ [message]).filterMap _ ++ s.connection.awaiting ++ [])
      rw [List.append_nil, answered_append, hanswers, List.map_append]
      exact hadd hperm (frame.requestId r)
    | completed entry result hentry hevent =>
      have hasks : turn.event.asks = none := by rw [hevent]; rfl
      refine ⟨⟨[], ?_, fun _ => rfl⟩, (List.length_erase_le).trans h.bounded⟩
      rw [hasks]
      show (List.map _ (s.asked ++ [])).Perm
        ((s.connection.frames ++ [_]).filterMap _ ++ (s.connection.commands.erase entry).map _ ++ [])
      rw [List.append_nil, List.append_nil, answered_append, ServerMessage.answers_reply]
      have hawaiting : s.connection.awaiting.Perm
          (some entry.2 :: (s.connection.commands.erase entry).map fun entry => some entry.2) :=
        (List.perm_cons_erase hentry).map _
      refine hperm.trans ((hawaiting.append_left _).trans ?_)
      rw [List.append_assoc]
      rfl
    | accepted frame requestId call hasks hid hroom hcalls =>
      refine ⟨⟨[], ?_, fun _ => rfl⟩, ?_⟩
      · rw [hasks]
        show (List.map _ (s.asked ++ [frame])).Perm (s.connection.answered ++ (s.connection.commands ++ [_]).map _ ++ [])
        rw [List.append_nil, List.map_append, List.map_append, ← List.append_assoc]
        show (List.map _ s.asked ++ [frame.requestId r]).Perm (_ ++ [some requestId])
        rw [hid]
        exact hperm.append_right _
      · show (s.connection.commands ++ [_]).length ≤ maxInFlightCommands
        rw [List.length_append]
        exact hroom

theorem opened_answered (sessionId : UInt64) (snapshot : StateSnapshot) (written : Bool) :
    Answered r (.opened sessionId snapshot written) := by
  cases written with
  | true => exact ⟨⟨[], .nil, fun _ => rfl⟩, Nat.zero_le _⟩
  | false => exact ⟨⟨[], .nil, fun _ => rfl⟩, Nat.zero_le _⟩

/-- While a connection is open, each of the frames that ask for an answer has been answered exactly once under its id, or its
command is one of at most 16 in flight; replies are lost only with the connection. -/
theorem Session.answered_once (r : Reader N) (sessionId : UInt64) (snapshot : StateSnapshot) (written : Bool)
    (turns : List Turn) : Answered r ((Session.opened sessionId snapshot written).run r turns) := by
  unfold Session.run
  exact List.foldlRecOn turns _ (opened_answered sessionId snapshot written) fun _ h turn _ => h.step turn

end answers

/-! ### What the controller is asked -/

/-- The number under which a call changes or ends the holds of its session. -/
def sequenceOf : ControllerCall → Option Nat
  | .updateMouseClutchHold _ _ sequence | .endMouseClutchSession _ sequence => some sequence
  | _ => none

/-- The call that ends a session's holds. -/
def endsSession : ControllerCall → Bool
  | .endMouseClutchSession .. => true
  | _ => false

/-- The sequence numbers of the calls about holds, in order. -/
def Session.sequences (s : Session) : List Nat := s.calls.filterMap fun call => sequenceOf call.2

section calls
variable {N : Type} {r : Reader N} {s : Session} {sessionId : UInt64}

/-- The controller is asked what the frames of the session ask for, each frame at most once and in their order, under growing
sequence numbers, and last, when the loop has ended, to end the session. -/
structure Passed (r : Reader N) (sessionId : UInt64) (s : Session) : Prop where
  frames : s.calls.Pairwise fun a b => a.1 < b.1
  asked : ∀ n call, (n, call) ∈ s.calls → endsSession call = false → ∃ frame sequence requestId,
    s.asked[n]? = some frame ∧ frame.Calls r sessionId sequence requestId call
  sequences : s.sequences.Pairwise (· < ·)
  ended : ∃ front, (∀ call ∈ front, endsSession call.2 = false) ∧
    if s.connection.closed then ∃ n sequence, s.calls = front ++ [(n, .endMouseClutchSession sessionId sequence)]
    else s.calls = front

/-- What carries it through a run. -/
structure Passing (r : Reader N) (sessionId : UInt64) (s : Session) : Prop extends Passed r sessionId s where
  session : s.connection.sessionId = sessionId
  before : ∀ call ∈ s.calls, s.connection.closed = false → call.1 < s.asked.length
  counted : ∀ n ∈ s.sequences, n ≤ s.connection.mouseClutchSequence
  few : s.connection.mouseClutchSequence ≤ s.calls.length

theorem next_of_few {n calls : Nat} (hfew : n ≤ calls) (hcalls : calls < 2 ^ 64 - 1) : next n = n + 1 := by
  unfold next
  omega

theorem Checked.notEnds {sequence : Nat} {call : ControllerCall} (h : call.Checked sessionId sequence) :
    endsSession call = false := by
  cases call with
  | endMouseClutchSession => exact h.elim
  | _ => rfl

theorem Checked.sequenceOf {sequence : Nat} {call : ControllerCall} (h : call.Checked sessionId sequence) :
    sequenceOf call = if call.isClutch then some sequence else none := by
  cases call with
  | endMouseClutchSession => exact h.elim
  | updateMouseClutchHold owner operation number => exact congrArg some h.2.2
  | _ => rfl

theorem sequences_record (asks : List Incoming) (c : Connection) (call : Option ControllerCall) :
    (s.record asks (c, call)).sequences = s.sequences ++ (call.bind sequenceOf).toList := by
  unfold Session.sequences Session.record
  rw [List.filterMap_append]
  cases call with
  | none => rfl
  | some call => cases hsequence : sequenceOf call <;> simp [hsequence]

theorem Passing.quiet (h : Passing r sessionId s) (asks : List Incoming) {c : Connection}
    (hclosed : c.closed = s.connection.closed) (hsession : c.sessionId = s.connection.sessionId)
    (hsequence : c.mouseClutchSequence = s.connection.mouseClutchSequence) :
    Passing r sessionId (s.record asks (c, none)) := by
  have hcalls : (s.record asks (c, none)).calls = s.calls := List.append_nil _
  have hsequences : (s.record asks (c, none)).sequences = s.sequences :=
    (sequences_record asks c none).trans (List.append_nil _)
  refine ⟨⟨hcalls ▸ h.frames, fun n call hcall hends => ?_, hsequences ▸ h.sequences, ?_⟩, hsession.trans h.session, ?_, ?_,
    ?_⟩
  · obtain ⟨frame, sequence, requestId, hframe, hcalled⟩ := h.asked n call (hcalls ▸ hcall) hends
    obtain ⟨hlt, -⟩ := List.getElem?_eq_some_iff.mp hframe
    exact ⟨frame, sequence, requestId, (List.getElem?_append_left hlt).trans hframe, hcalled⟩
  · rw [hcalls]
    show ∃ front, _ ∧ if c.closed then _ else _
    rw [hclosed]
    exact h.ended
  · intro call hcall hopen
    rw [hcalls] at hcall
    have hlt := h.before call hcall (hclosed.symm.trans hopen)
    show call.1 < (s.asked ++ asks).length
    rw [List.length_append]
    omega
  · rw [hsequences]
    exact fun n hn => (h.counted n hn).trans (Nat.le_of_eq hsequence.symm)
  · rw [hcalls]
    exact (Nat.le_of_eq hsequence).trans h.few

/-- The call that a new frame asks for, or the end of the session. -/
theorem Passing.call (h : Passing r sessionId s) (hopen : s.connection.closed = false) (asks : List Incoming)
    {c : Connection} {call : ControllerCall} (hsession : c.sessionId = s.connection.sessionId)
    (hasked : endsSession call = false → ∃ frame sequence requestId,
      (s.asked ++ asks)[s.asked.length]? = some frame ∧ frame.Calls r sessionId sequence requestId call)
    (hsequence : sequenceOf call = none ∧ c.mouseClutchSequence = s.connection.mouseClutchSequence ∨
      sequenceOf call = some c.mouseClutchSequence ∧ c.mouseClutchSequence = s.connection.mouseClutchSequence + 1)
    (hclosed : if c.closed then ∃ sequence, call = .endMouseClutchSession sessionId sequence
      else endsSession call = false ∧ asks.length = 1) :
    Passing r sessionId (s.record asks (c, some call)) := by
  have hcalls : (s.record asks (c, some call)).calls = s.calls ++ [(s.asked.length, call)] := rfl
  have hsequences := sequences_record (s := s) asks c (some call)
  have hfront : ∀ call ∈ s.calls, endsSession call.2 = false := by
    obtain ⟨front, hends, hfront⟩ := h.ended
    rw [hopen, if_neg Bool.false_ne_true] at hfront
    exact hfront ▸ hends
  refine ⟨⟨?_, fun n call' hcall hends => ?_, ?_, ?_⟩, hsession.trans h.session, ?_, ?_, ?_⟩
  · rw [hcalls]
    refine List.pairwise_append.mpr ⟨h.frames, List.pairwise_singleton _ _, fun a ha b hb => ?_⟩
    rw [List.mem_singleton.mp hb]
    exact h.before a ha hopen
  · rw [hcalls] at hcall
    rcases List.mem_append.mp hcall with hcall | hcall
    · obtain ⟨frame, sequence, requestId, hframe, hcalled⟩ := h.asked n call' hcall hends
      obtain ⟨hlt, -⟩ := List.getElem?_eq_some_iff.mp hframe
      exact ⟨frame, sequence, requestId, (List.getElem?_append_left hlt).trans hframe, hcalled⟩
    · cases List.mem_singleton.mp hcall
      exact hasked hends
  · rw [hsequences]
    rcases hsequence with ⟨hnone, -⟩ | ⟨hsome, hnext⟩
    · rw [Option.bind_some, hnone, Option.toList_none, List.append_nil]
      exact h.sequences
    · rw [Option.bind_some, hsome, Option.toList_some]
      refine List.pairwise_append.mpr ⟨h.sequences, List.pairwise_singleton _ _, fun a ha b hb => ?_⟩
      rw [List.mem_singleton.mp hb, hnext]
      exact Nat.lt_succ_of_le (h.counted a ha)
  · show ∃ front, _ ∧ if c.closed then _ else _
    rw [hcalls]
    cases hlast : c.closed with
    | true =>
      rw [hlast, if_pos rfl] at hclosed
      obtain ⟨sequence, rfl⟩ := hclosed
      exact ⟨s.calls, hfront, s.asked.length, sequence, rfl⟩
    | false =>
      rw [hlast, if_neg Bool.false_ne_true] at hclosed
      refine ⟨_, fun call' hcall => ?_, rfl⟩
      rcases List.mem_append.mp hcall with hcall | hcall
      · exact hfront call' hcall
      · rw [List.mem_singleton.mp hcall]
        exact hclosed.1
  · intro call' hcall hlast
    rw [if_neg (by rw [show c.closed = false from hlast]; exact Bool.false_ne_true)] at hclosed
    have hlength : (s.record asks (c, some call)).asked.length = s.asked.length + 1 := by
      show (s.asked ++ asks).length = _
      rw [List.length_append, hclosed.2]
    rw [hlength]
    rw [hcalls] at hcall
    rcases List.mem_append.mp hcall with hcall | hcall
    · exact Nat.lt_succ_of_lt (h.before call' hcall hopen)
    · rw [List.mem_singleton.mp hcall]
      exact Nat.lt_succ_self _
  · rw [hsequences]
    intro n hn
    show n ≤ c.mouseClutchSequence
    rcases hsequence with ⟨hnone, hsame⟩ | ⟨hsome, hnext⟩
    · rw [Option.bind_some, hnone, Option.toList_none, List.append_nil] at hn
      exact hsame ▸ h.counted n hn
    · rw [Option.bind_some, hsome, Option.toList_some] at hn
      rcases List.mem_append.mp hn with hn | hn
      · have hcounted := h.counted n hn
        omega
      · exact Nat.le_of_eq (List.mem_singleton.mp hn)
  · have hfew := h.few
    rw [hcalls, List.length_append, List.length_singleton]
    show c.mouseClutchSequence ≤ _
    rcases hsequence with ⟨-, hsame⟩ | ⟨-, hnext⟩ <;> omega

theorem Passing.step (h : Passing r sessionId s) (hfew : s.calls.length < 2 ^ 64 - 1) (turn : Turn) :
    Passing r sessionId (s.step r turn) := by
  unfold Session.step
  cases hopen : s.connection.closed with
  | true =>
    rw [if_pos rfl]
    exact h
  | false =>
    rw [if_neg Bool.false_ne_true]
    have hnext := next_of_few h.few hfew
    have hturned : Turned r s.connection turn _ := turned hopen
    cases hresult : s.connection.step r turn with
    | mk c' call =>
    rw [hresult] at hturned
    cases hturned with
    | finished revision =>
      refine h.call hopen _ rfl (fun hends => ?_) (.inr ⟨rfl, hnext⟩) ?_
      · cases hends
      · rw [if_pos rfl]
        exact ⟨_, by rw [← h.session]⟩
    | idle hasks => exact h.quiet _ rfl rfl rfl
    | told hasks hlater => exact h.quiet _ rfl rfl rfl
    | answered frame message hasks hanswers hdone => exact h.quiet _ rfl rfl rfl
    | completed entry result hentry hevent => exact h.quiet _ rfl rfl rfl
    | accepted frame requestId call hasks hid hroom hcalls =>
      rw [h.session] at hcalls
      refine h.call hopen _ rfl (fun hends => ⟨frame, _, requestId, ?_, hcalls⟩) ?_ ?_
      · rw [hasks]
        exact List.getElem?_concat_length
      · rw [Checked.sequenceOf hcalls.checked]
        cases hclutch : call.isClutch with
        | true =>
          have hpush : (s.connection.push requestId call).mouseClutchSequence = next s.connection.mouseClutchSequence :=
            if_pos hclutch
          exact .inr ⟨by rw [if_pos rfl, hpush], hpush.trans hnext⟩
        | false => exact .inl ⟨rfl, if_neg (by rw [hclutch]; exact Bool.false_ne_true)⟩
      · show if s.connection.closed then _ else _
        rw [hopen, if_neg Bool.false_ne_true, hasks]
        exact ⟨Checked.notEnds hcalls.checked, rfl⟩

theorem calls_step (s : Session) (turn : Turn) : (s.step r turn).calls.length ≤ s.calls.length + 1 := by
  unfold Session.step
  split
  · exact Nat.le_succ _
  · show (s.calls ++ _).length ≤ _
    rw [List.length_append, List.length_map]
    cases (s.connection.step r turn).2 <;> simp

theorem Passing.foldl (h : Passing r sessionId s) (turns : List Turn) (hfew : s.calls.length + turns.length < 2 ^ 64 - 1) :
    Passing r sessionId (s.run r turns) := by
  induction turns generalizing s with
  | nil => exact h
  | cons turn turns ih =>
    rw [List.length_cons] at hfew
    have hcalls := calls_step (r := r) s turn
    exact ih (h.step (by omega) turn) (by omega)

theorem opened_passing (sessionId : UInt64) (snapshot : StateSnapshot) (written : Bool) :
    Passing r sessionId (.opened sessionId snapshot written) := by
  have hnew : Passing r sessionId ⟨⟨sessionId, 0, 0, [], 0, [], false⟩, [], []⟩ :=
    ⟨⟨.nil, by rintro _ _ ⟨⟩, .nil, [], by rintro _ ⟨⟩, rfl⟩, rfl, by rintro _ ⟨⟩, by rintro _ ⟨⟩, Nat.le_refl 0⟩
  cases written with
  | true => exact hnew.quiet [] rfl rfl rfl
  | false =>
    refine hnew.call rfl [] rfl (fun hends => ?_) (.inr ⟨rfl, rfl⟩) ⟨_, rfl⟩
    cases hends

/-- What a session asks the controller for, over any turns. -/
theorem Session.calls_passed (r : Reader N) (sessionId : UInt64) (snapshot : StateSnapshot) (written : Bool)
    (turns : List Turn) (hfew : turns.length < 2 ^ 64 - 2) :
    Passed r sessionId ((Session.opened sessionId snapshot written).run r turns) := by
  have hopened : (Session.opened sessionId snapshot written).calls.length ≤ 1 := by
    cases written with
    | true => exact Nat.zero_le 1
    | false => exact Nat.le_refl 1
  exact ((opened_passing sessionId snapshot written).foldl turns (by omega)).toPassed

/-! A client begins a hold and leaves. -/

/-- A reader that knows the one message that begins a hold. -/
def holdReader : Reader Unit where
  parse text := if text = "hold".toList then some .null else none
  message _ := some ⟨1, "1".toList, .beginMouseClutch "pad".toList⟩

/-- The state of a hub without clients. -/
def nothingYet : StateSnapshot :=
  ⟨0, [], .unavailable, .unavailable, ⟨false, false, false, false, false, false, .available false⟩⟩

/-- A hold begins and the peer leaves. -/
def holdTurns : List Turn :=
  [⟨.incoming (.text "hold".toList), nothingYet, true⟩, ⟨.incoming .close, nothingYet, true⟩]

theorem calls_passed_holdTurns :
    ((Session.opened 7 nothingYet true).run holdReader holdTurns).sequences = [1, 2] ∧
      Passed holdReader 7 ((Session.opened 7 nothingYet true).run holdReader holdTurns) :=
  ⟨by decide, Session.calls_passed holdReader 7 nothingYet true holdTurns (by decide)⟩

end calls

end Stonemite.Trushar.Server
