import Stonemite.Streamdeck.Liveness
import Stonemite.Lib.Promises

/-!
# The requests of the plugin settle once

Every request hands out a promise under an id of its own. The pending requests, their timers and the settlements are a
table of promises (`Promises`), and every turn but a request takes settlement steps on it. `Settles` is what a turn does
to the table; `Accounted` is the invariant (`Accounted.step`, `Accounted.run`), and `SettlesOnce` and `RequestsSettle`
are read off it.
-/

open Std

namespace Stonemite.Streamdeck

/-! ### Request ids -/

/-- The value of a digit of `toString(36)`. -/
def undigit36 (ch : Char) : Nat := if ch.toNat < 58 then ch.toNat - 48 else ch.toNat - 87

theorem undigit36_digit36 : ∀ d < 36, undigit36 (digit36 d) = d := by decide

theorem digit36_ne_dash : ∀ d < 36, digit36 d ≠ '-' := by decide

theorem base36_injOn {m n : Nat} (hm : 0 < m) (hn : 0 < n) (h : base36 m = base36 n) : m = n := by
  have hback (k : Nat) : ((Nat.digits 36 k).map digit36).map undigit36 = Nat.digits 36 k := by
    rw [List.map_map]
    refine (List.map_congr_left fun d hd => ?_).trans (List.map_id _)
    exact undigit36_digit36 d (Nat.digits_lt_base (by omega) hd)
  unfold base36 at h
  rw [if_neg (by omega), if_neg (by omega), List.reverse_inj] at h
  have hdigits := congrArg (List.map undigit36) h
  rw [hback, hback] at hdigits
  exact Nat.digits_inj_iff.mp hdigits

theorem ne_dash_of_mem_base36 {n : Nat} {ch : Char} (h : ch ∈ base36 n) : ch ≠ '-' := by
  unfold base36 at h
  split_ifs at h
  · rw [List.mem_singleton] at h
    subst h
    decide
  · obtain ⟨d, hd, rfl⟩ := List.mem_map.mp (List.mem_reverse.mp h)
    exact digit36_ne_dash d (Nat.digits_lt_base (by omega) hd)

/-- What follows the last dash of a request id. -/
def sequenceOf (id : Str) : Str := (id.reverse.takeWhile (· ≠ '-')).reverse

theorem sequenceOf_requestId (c : TrusharClient) (kind : String) (now : Nat) :
    sequenceOf (c.requestId kind now) = base36 (c.requestSequence + 1) := by
  have hsplit : c.requestId kind now =
      ("streamdeck-".toList ++ kind.toList ++ '-' :: base36 now) ++ ('-' :: base36 (c.requestSequence + 1)) := by
    unfold TrusharClient.requestId
    simp
  rw [hsplit]
  unfold sequenceOf
  rw [List.reverse_append, List.reverse_cons, List.append_assoc, List.takeWhile_append_of_pos]
  · rw [List.singleton_append, List.takeWhile_cons_of_neg (by simp), List.append_nil, List.reverse_reverse]
  · intro ch hch
    simpa using ne_dash_of_mem_base36 (List.mem_reverse.mp hch)

namespace TrusharClient
variable {platform : Platform} {c c' c'' : TrusharClient}

theorem pendingOf_mem {id : Str} {command : PendingCommand} (h : c.pendingOf id = some command) :
    (id, command) ∈ c.pending := by
  obtain ⟨e, he, rfl⟩ := Option.map_eq_some_iff.mp h
  have hid : e.1 = id := by simpa using List.find?_some he
  subst hid
  exact List.mem_of_find?_eq_some he

theorem setPending_new {id : Str} (h : c.pendingOf id = none) (command : PendingCommand) :
    c.setPending id command = { c with pending := c.pending ++ [(id, command)] } := by
  unfold setPending
  rw [if_neg (by rw [h]; exact Bool.false_ne_true)]

/-! ### The table of promises -/

/-- The requests as promises. -/
def table (c : TrusharClient) : Promises Str Nat Outcome where
  issued := c.promises
  pending := c.pending.map fun e => (e.1, e.2.timer)
  timers := c.timers.map fun timer => (timer.handle, timer.requestId)
  settled := c.settlements

/-- The turn takes settlement steps, and keeps nothing pending if it changes the socket. -/
structure Settles (c c' : TrusharClient) : Prop where
  table : Relation.ReflTransGen Promises.Settle c.table c'.table
  requestSequence : c'.requestSequence = c.requestSequence
  nextTimer : c'.nextTimer = c.nextTimer
  pending : c'.pending ⊆ c.pending
  timers : c'.timers ⊆ c.timers
  socket : c'.socket = c.socket ∨ c'.pending = []

namespace Settles

theorem refl (c : TrusharClient) : Settles c c :=
  ⟨.refl, rfl, rfl, List.Subset.refl _, List.Subset.refl _, .inl rfl⟩

theorem trans (h : Settles c c') (h' : Settles c' c'') : Settles c c'' where
  table := h.table.trans h'.table
  requestSequence := h'.requestSequence.trans h.requestSequence
  nextTimer := h'.nextTimer.trans h.nextTimer
  pending := List.Subset.trans h'.pending h.pending
  timers := List.Subset.trans h'.timers h.timers
  socket := by
    rcases h'.socket with hs | hs
    · rcases h.socket with hs' | hs'
      · exact .inl (hs.trans hs')
      · exact .inr (List.subset_nil.mp (hs' ▸ h'.pending))
    · exact .inr hs

theorem promises (h : Settles c c') : c'.promises = c.promises := by
  have hrun : ∀ t, Relation.ReflTransGen Promises.Settle c.table t → t.issued = c.promises := by
    intro t ht
    induction ht with
    | refl => rfl
    | tail _ hlast ih => exact hlast.issued.trans ih
  exact hrun _ h.table

theorem of_requests (hp : c'.promises = c.promises) (hpend : c'.pending = c.pending) (ht : c'.timers = c.timers)
    (hs : c'.settlements = c.settlements) (hseq : c'.requestSequence = c.requestSequence)
    (hn : c'.nextTimer = c.nextTimer) (hsock : c'.socket = c.socket ∨ c.pending = []) : Settles c c' where
  table := by
    have heq : c'.table = c.table := by
      unfold TrusharClient.table
      rw [hp, hpend, ht, hs]
    rw [heq]
  requestSequence := hseq
  nextTimer := hn
  pending := by rw [hpend]; exact List.Subset.refl _
  timers := by rw [ht]; exact List.Subset.refl _
  socket := by rw [hpend]; exact hsock

theorem updSocket (c : TrusharClient) (id : Nat) (f : Socket → Socket) : Settles c (c.updSocket id f) :=
  of_requests rfl rfl rfl rfl rfl rfl (.inl rfl)

theorem setStatus (c : TrusharClient) (state : ConnectionPhase) (title : String) (detail : Str) :
    Settles c (c.setStatus state title detail) := of_requests rfl rfl rfl rfl rfl rfl (.inl rfl)

theorem stopHeartbeat (c : TrusharClient) : Settles c c.stopHeartbeat :=
  of_requests rfl rfl rfl rfl rfl rfl (.inl rfl)

theorem settle {id : Str} {command : PendingCommand} (h : c.pendingOf id = some command) (outcome : Outcome) :
    Settles c (c.settle id command outcome) where
  table := by
    refine .single ?_
    have hmem : (id, command.timer) ∈ c.table.pending :=
      List.mem_map_of_mem (f := fun e => (e.1, e.2.timer)) (pendingOf_mem h)
    have hstep := Promises.Settle.one id command.timer outcome hmem
    have heq : (c.settle id command outcome).table = ⟨c.table.issued, c.table.pending.filter (·.1 ≠ id),
        c.table.timers.filter (·.1 ≠ command.timer), c.table.settled ++ [(id, outcome)]⟩ := by
      unfold TrusharClient.table TrusharClient.settle
      rw [List.filter_map, List.filter_map]
      rfl
    rw [heq]
    exact hstep
  requestSequence := rfl
  nextTimer := rfl
  pending := List.filter_subset_self _
  timers := List.filter_subset_self _
  socket := .inl rfl

theorem rejectPending (c : TrusharClient) (error : CommandError) : Settles c (c.rejectPending error) where
  table := by
    refine .single ?_
    have hstep := Promises.Settle.all (p := c.table) (.rejected error)
    have heq : (c.rejectPending error).table = ⟨c.table.issued, [],
        c.table.timers.filter fun t => (c.table.pending.map Prod.snd).all (t.1 ≠ ·),
        c.table.settled ++ c.table.pending.map fun e => (e.1, .rejected error)⟩ := by
      unfold TrusharClient.table TrusharClient.rejectPending
      rw [List.filter_map, List.map_map, List.map_map]
      rfl
    rw [heq]
    exact hstep
  requestSequence := rfl
  nextTimer := rfl
  pending := List.nil_subset _
  timers := List.filter_subset_self _
  socket := .inr rfl

theorem rejected (htable : c'.table = c.table) (hseq : c'.requestSequence = c.requestSequence)
    (hnext : c'.nextTimer = c.nextTimer) (htimers : c'.timers = c.timers) (error : CommandError) :
    Settles c (c'.rejectPending error) := by
  have hr := rejectPending c' error
  refine ⟨htable ▸ hr.table, hr.requestSequence.trans hseq, hr.nextTimer.trans hnext, List.nil_subset _, ?_, .inr rfl⟩
  rw [← htimers]
  exact hr.timers

theorem tearDown (c : TrusharClient) (error : CommandError) : Settles c (c.tearDown error) := by
  unfold TrusharClient.tearDown TrusharClient.closeSocket
  split <;> refine rejected ?_ ?_ ?_ ?_ error <;> rfl

theorem connect (h : c.pending = []) (generation : Nat) (reconnecting : Bool) :
    Settles c (c.connect platform generation reconnecting) := by
  unfold TrusharClient.connect
  cases c.credentials with
  | none => exact refl c
  | some credentials =>
    dsimp only
    split_ifs <;> exact of_requests rfl rfl rfl rfl rfl rfl (.inr h)

theorem finish (c : TrusharClient) (id : Nat) (result : Except PairingError Str) :
    Settles c (c.finish id result).1 := by
  unfold TrusharClient.finish
  split
  · exact of_requests rfl rfl rfl rfl rfl rfl (.inl rfl)
  · exact refl c

theorem cancelPairing (c : TrusharClient) : Settles c c.cancelPairing := by
  unfold TrusharClient.cancelPairing
  cases c.pairing with
  | none => exact refl c
  | some id =>
    have hnone : Settles c { c with pairing := none } := of_requests rfl rfl rfl rfl rfl rfl (.inl rfl)
    exact hnone.trans (finish _ id _)

theorem restart (h : Settles c c') (error : CommandError) (h' : Settles (c'.tearDown error) c'') :
    Settles c c'' ∧ c''.pending = [] :=
  ⟨(h.trans (tearDown c' error)).trans h', List.subset_nil.mp h'.pending⟩

theorem adopt (c : TrusharClient) (next : Option ConnectionConfig) :
    Settles c (c.adopt platform next) ∧ (c.credentials ≠ next → (c.adopt platform next).pending = []) := by
  unfold TrusharClient.adopt
  by_cases heq : c.credentials = next
  · rw [if_pos heq]
    exact ⟨refl c, fun hne => absurd heq hne⟩
  · rw [if_neg heq]
    have hset : Settles c ({ c.cancelPairing with
        generation := c.cancelPairing.generation + 1, credentials := next } : TrusharClient) :=
      (cancelPairing c).trans (of_requests rfl rfl rfl rfl rfl rfl (.inl rfl))
    refine And.imp_right (fun h _ => h) (hset.restart (connectionClosed "Stonemite connection changed.") ?_)
    dsimp only
    have hattempt (t : TrusharClient) : Settles t { t with reconnectAttempt := 0 } :=
      of_requests rfl rfl rfl rfl rfl rfl (.inl rfl)
    refine (hattempt _).trans ?_
    by_cases hnext : next.isNone
    · rw [if_pos hnext]
      exact setStatus _ _ _ _
    · rw [if_neg hnext]
      exact connect rfl _ _

theorem configure (c : TrusharClient) (credentials : Option ConnectionConfig) :
    Settles c (c.configure platform credentials) := by
  unfold TrusharClient.configure
  cases credentials.mapM (ConnectionConfig.next platform) with
  | error => exact refl c
  | ok next => exact (adopt c next).1

theorem reconnect (c : TrusharClient) :
    Settles c (c.reconnect platform) ∧ (c.cancelPairing.credentials.isSome → (c.reconnect platform).pending = []) := by
  unfold TrusharClient.reconnect
  dsimp only
  by_cases hcred : c.cancelPairing.credentials.isNone
  · rw [if_pos hcred]
    refine ⟨(cancelPairing c).trans (setStatus _ _ _ _), fun hsome => ?_⟩
    rw [Option.isNone_iff_eq_none.mp hcred] at hsome
    cases hsome
  · rw [if_neg hcred]
    have hset : Settles c ({ c.cancelPairing with generation := c.cancelPairing.generation + 1 } : TrusharClient) :=
      (cancelPairing c).trans (of_requests rfl rfl rfl rfl rfl rfl (.inl rfl))
    refine And.imp_right (fun h _ => h)
      (hset.restart (connectionClosed "Stonemite reconnect interrupted the command.") ?_)
    have hattempt (t : TrusharClient) : Settles t { t with reconnectAttempt := 0 } :=
      of_requests rfl rfl rfl rfl rfl rfl (.inl rfl)
    exact (hattempt _).trans (connect rfl _ _)

theorem pair (c : TrusharClient) (addressInput code : Str) : Settles c (c.pair platform addressInput code) ∧
    (isCode code = true → (normalizeAddress platform addressInput).isOk →
      (c.pair platform addressInput code).pending = []) := by
  unfold TrusharClient.pair
  cases isCode code with
  | false => exact ⟨refl c, nofun⟩
  | true =>
    cases normalizeAddress platform addressInput with
    | error => exact ⟨refl c, nofun⟩
    | ok address =>
      have hset : Settles c ({ c.cancelPairing with generation := c.cancelPairing.generation + 1 } : TrusharClient) :=
        (cancelPairing c).trans (of_requests rfl rfl rfl rfl rfl rfl (.inl rfl))
      exact And.imp_right (fun h _ _ => h) (hset.restart (connectionClosed "Pairing started.")
        (of_requests rfl rfl rfl rfl rfl rfl (.inl rfl)))

theorem emit {id : Nat} {may : ReadyState → Bool} {f : Socket → Socket}
    {listener : TrusharClient → Socket → TrusharClient}
    (h : ∀ socket, Settles (c.updSocket id f) (listener (c.updSocket id f) socket)) :
    Settles c (c.emit id may f listener) := by
  unfold TrusharClient.emit
  cases c.sockets[id]? with
  | none => exact refl c
  | some socket =>
    dsimp only
    split_ifs
    · exact (updSocket c id f).trans (h socket)
    · exact updSocket c id f
    · exact refl c

theorem endPairing (c : TrusharClient) (id : Nat) (socket : Socket) (result : Except PairingError Str) :
    Settles c (c.endPairing platform id socket result) := by
  have hf := finish c id result
  unfold TrusharClient.endPairing
  generalize c.finish id result = r at hf ⊢
  split
  · split_ifs
    · exact hf
    · exact hf.trans (configure _ _)
  · exact hf

theorem sendFailed (c : TrusharClient) (id : Str) : Settles c (c.sendFailed id) := by
  unfold TrusharClient.sendFailed
  cases hp : c.pendingOf id with
  | none => exact refl c
  | some command => exact settle hp _

theorem handleMessage (c : TrusharClient) (message : ServerMessage) : Settles c (c.handleMessage message).1 := by
  cases message with
  | state state => exact of_requests rfl rfl rfl rfl rfl rfl (.inl rfl)
  | paired => exact refl c
  | result id result state =>
    unfold TrusharClient.handleMessage
    dsimp only
    split
    · exact refl c
    · rename_i command hp
      split_ifs
      · exact settle hp _
      · have hstate : Settles c { c with state := some state } := of_requests rfl rfl rfl rfl rfl rfl (.inl rfl)
        exact hstate.trans (settle (c := { c with state := some state }) hp _)
  | error id error =>
    cases id with
    | none => exact refl c
    | some id =>
      unfold TrusharClient.handleMessage
      dsimp only
      split_ifs
      · exact refl c
      · split
        · exact refl c
        · rename_i command hp
          exact settle hp _

theorem protocolError (c : TrusharClient) (id : Nat) :
    Settles c (c.protocolError id) ∧ (c.protocolError id).pending = [] := by
  have hbefore := (updSocket c id (·.fail true)).trans (stopHeartbeat _)
  have hreject := hbefore.trans (rejectPending _ ⟨"protocol_error".toList,
    "Stonemite sent an incompatible response.".toList⟩)
  exact ⟨hreject.trans ((setStatus _ _ _ _).trans (updSocket _ _ _)), rfl⟩

theorem message (c : TrusharClient) (id : Nat) (frame : Except Str ServerMessage) :
    Settles c (c.message platform id frame) := by
  refine emit fun socket => ?_
  generalize c.updSocket id _ = b
  split
  · split_ifs
    · exact refl b
    · split
      · rename_i b' heq
        cases frame with
        | error => cases heq
        | ok message =>
          have hb : (b.handleMessage message).1 = b' := congrArg Prod.fst (Except.ok.inj heq)
          exact hb ▸ handleMessage b message
      · rename_i b' heq
        cases frame with
        | error => cases heq
        | ok message =>
          have hb : (b.handleMessage message).1 = b' := congrArg Prod.fst (Except.ok.inj heq)
          exact (hb ▸ handleMessage b message).trans (protocolError b' id).1
      · exact (protocolError b id).1
  · exact endPairing b id socket _

theorem expire (h : c.table.Exact) {timer : CommandTimer} (ht : timer ∈ c.timers) (outcome : Outcome) :
    Settles c { c with
      timers := c.timers.filter (·.handle ≠ timer.handle)
      pending := c.pending.filter (·.1 ≠ timer.requestId)
      settlements := c.settlements ++ [(timer.requestId, outcome)] } := by
  refine ⟨.single ?_, rfl, rfl, List.filter_subset_self _, List.filter_subset_self _, .inl rfl⟩
  have hmem : (timer.handle, timer.requestId) ∈ c.table.timers :=
    List.mem_map_of_mem (f := fun t => (t.handle, t.requestId)) ht
  rw [h.timers] at hmem
  obtain ⟨e, he, heq⟩ := List.mem_map.mp hmem
  obtain rfl : e = (timer.requestId, timer.handle) := Prod.swap_injective heq
  have hstep := Promises.Settle.one timer.requestId timer.handle outcome he
  have htable : TrusharClient.table { c with
        timers := c.timers.filter (·.handle ≠ timer.handle)
        pending := c.pending.filter (·.1 ≠ timer.requestId)
        settlements := c.settlements ++ [(timer.requestId, outcome)] } =
      ⟨c.table.issued, c.table.pending.filter (·.1 ≠ timer.requestId),
        c.table.timers.filter (·.1 ≠ timer.handle), c.table.settled ++ [(timer.requestId, outcome)]⟩ := by
    unfold TrusharClient.table
    rw [List.filter_map, List.filter_map]
    rfl
  rw [htable]
  exact hstep

theorem commandTimeout (h : c.table.Exact) (handle : Nat) : Settles c (c.commandTimeout handle) := by
  unfold TrusharClient.commandTimeout
  cases ht : c.timers.find? (·.handle = handle) with
  | none => exact refl c
  | some timer =>
    obtain rfl : timer.handle = handle := by simpa using List.find?_some ht
    dsimp only
    split_ifs
    · exact (expire h (List.mem_of_find?_eq_some ht) _).trans ((setStatus _ _ _ _).trans (updSocket _ _ _))
    · exact expire h (List.mem_of_find?_eq_some ht) _

theorem closed (c : TrusharClient) (id generation : Nat) (terminalFailure : Bool) (error : CommandError) :
    let b := if c.stopHeartbeat.socket = some id then { c.stopHeartbeat with socket := none } else c.stopHeartbeat
    let d := if generation ≠ (b.rejectPending error).generation ∨ (b.rejectPending error).credentials.isNone ∨
        terminalFailure then b.rejectPending error
      else (b.rejectPending error).scheduleReconnect generation
    Settles c d ∧ d.pending = [] := by
  intro b d
  have hb : Settles c (b.rejectPending error) := by
    unfold b
    split <;> refine rejected ?_ ?_ ?_ ?_ error <;> rfl
  have hd : Settles (b.rejectPending error) d := by
    unfold d
    split_ifs
    · exact refl _
    · exact of_requests rfl rfl rfl rfl rfl rfl (.inl rfl)
  exact ⟨hb.trans hd, List.subset_nil.mp hd.pending⟩

theorem socketClosed (c : TrusharClient) (id : Nat) : Settles c (c.socketClosed platform id) := by
  refine emit fun socket => ?_
  generalize c.updSocket id _ = b
  dsimp only
  split
  · exact (closed b id _ _ _).1
  · exact endPairing b id socket _

theorem socketOpened (c : TrusharClient) (id : Nat) : Settles c (c.socketOpened platform id) := by
  refine emit fun socket => ?_
  generalize c.updSocket id _ = b
  split
  · split_ifs
    · exact updSocket _ _ _
    · exact of_requests rfl rfl rfl rfl rfl rfl (.inl rfl)
  · split_ifs
    · exact endPairing _ _ _ _
    · exact refl _

theorem pong (c : TrusharClient) (id : Nat) : Settles c (c.pong id) := by
  refine emit fun socket => ?_
  generalize c.updSocket id _ = b
  split
  · split_ifs
    · exact refl _
    · exact of_requests rfl rfl rfl rfl rfl rfl (.inl rfl)
  · exact refl _

theorem unexpectedResponse (c : TrusharClient) (id status : Nat) :
    Settles c (c.unexpectedResponse platform id status) := by
  refine emit fun socket => ?_
  generalize c.updSocket id _ = b
  split
  · by_cases hg : socket.generation ≠ b.generation
    · rw [if_pos hg]
      exact refl _
    · rw [if_neg hg]
      exact of_requests rfl rfl rfl rfl rfl rfl (.inl rfl)
  · exact endPairing _ _ _ _

theorem socketError (c : TrusharClient) (id : Nat) : Settles c (c.socketError platform id) := by
  refine emit fun socket => ?_
  generalize c.updSocket id _ = b
  split
  · exact refl _
  · exact endPairing _ _ _ _

theorem heartbeat (c : TrusharClient) : Settles c c.heartbeat := by
  unfold TrusharClient.heartbeat
  split
  · exact refl _
  · dsimp only
    split_ifs <;> exact of_requests rfl rfl rfl rfl rfl rfl (.inl rfl)

theorem pongTimeout (c : TrusharClient) : Settles c c.pongTimeout := by
  unfold TrusharClient.pongTimeout
  split
  · exact refl _
  · dsimp only
    split_ifs <;> exact of_requests rfl rfl rfl rfl rfl rfl (.inl rfl)

end Settles

/-! ### Every turn -/

/-- Every promise is pending or settled once; new ids and new timers are different from the old ones, and every
timer that is set was set for the socket the client has. -/
structure Accounted (platform : Platform) (c : TrusharClient) : Prop where
  linked : Linked platform c
  exact : c.table.Exact
  numbered : ∀ id ∈ c.promises, ∃ n, 0 < n ∧ n ≤ c.requestSequence ∧ sequenceOf id = base36 n
  handles : ∀ e ∈ c.pending, e.2.timer < c.nextTimer
  held : ∀ timer ∈ c.timers, c.socket = some timer.socket

namespace Accounted

theorem init : Accounted platform {} := ⟨.init, .init, nofun, nofun, nofun⟩

theorem fresh (h : Accounted platform c) (kind : String) (now : Nat) : c.requestId kind now ∉ c.promises := by
  intro hmem
  obtain ⟨n, hpos, hle, heq⟩ := h.numbered _ hmem
  rw [sequenceOf_requestId] at heq
  have := base36_injOn (Nat.succ_pos _) hpos heq
  omega

theorem timers_nil (h : c.table.Exact) (hp : c.pending = []) : c.timers = [] := by
  have htimers := h.timers
  unfold table at htimers
  rw [hp] at htimers
  simpa using htimers

theorem pending_nil (h : Accounted platform c) (hs : c.socket = none) : c.pending = [] := by
  have htimers : c.timers = [] := by
    rw [List.eq_nil_iff_forall_not_mem]
    intro timer ht
    have := h.held timer ht
    rw [hs] at this
    cases this
  have hexact := h.exact.timers
  unfold table at hexact
  rw [htimers] at hexact
  simpa using hexact.symm

theorem settles (h : Accounted platform c) (hl : Linked platform c') (hs : Settles c c') : Accounted platform c' := by
  have hexact := h.exact.settles hs.table
  have hissued : c'.promises = c.promises := hs.promises
  constructor
  case linked => exact hl
  case exact => exact hexact
  case numbered =>
    rw [hissued, hs.requestSequence]
    exact h.numbered
  case handles =>
    intro e he
    rw [hs.nextTimer]
    exact h.handles e (hs.pending he)
  case held =>
    intro timer ht
    rcases hs.socket with hsock | hnil
    · rw [hsock]
      exact h.held timer (hs.timers ht)
    · rw [timers_nil hexact hnil] at ht
      cases ht

theorem reconnectFires (h : Accounted platform c) : Settles c (c.reconnectFires platform) := by
  unfold TrusharClient.reconnectFires
  split
  · exact .refl c
  · rename_i generation ht
    have hset : Settles c { c with reconnectTimer := none } := .of_requests rfl rfl rfl rfl rfl rfl (.inl rfl)
    have hnil := h.pending_nil (h.linked.timer _ ht).2
    exact hset.trans (.connect (c := { c with reconnectTimer := none }) hnil _ _)

theorem request (h : Accounted platform c) (command : Command) (now : Nat) :
    Accounted platform (c.request command now) := by
  have hfresh := h.fresh command.kind now
  have hnumbered : ∀ id ∈ c.promises ++ [c.requestId command.kind now],
      ∃ n, 0 < n ∧ n ≤ c.requestSequence + 1 ∧ sequenceOf id = base36 n := by
    intro id hid
    rcases List.mem_append.mp hid with hid | hid
    · obtain ⟨n, hpos, hle, heq⟩ := h.numbered id hid
      exact ⟨n, hpos, by omega, heq⟩
    · rw [List.mem_singleton.mp hid]
      exact ⟨_, Nat.succ_pos _, le_rfl, sequenceOf_requestId c command.kind now⟩
  have hnone : c.pendingOf (c.requestId command.kind now) = none := by
    rw [Option.eq_none_iff_forall_not_mem]
    intro pending hp
    exact hfresh (h.exact.pending_mem (List.mem_map_of_mem (f := fun e => (e.1, e.2.timer)) (pendingOf_mem hp)))
  unfold TrusharClient.request
  dsimp only
  cases hopen : ({ c with
      requestSequence := c.requestSequence + 1
      promises := c.promises ++ [c.requestId command.kind now] } : TrusharClient).openSocket with
  | none =>
    exact ⟨h.linked.same (.of_sockets rfl rfl rfl rfl rfl rfl rfl), h.exact.refuse _ hfresh, hnumbered, h.handles, h.held⟩
  | some socket =>
    have hsocket : c.socket = some socket := (Option.filter_eq_some_iff.mp hopen).1
    dsimp only
    rw [setPending_new]
    case h => exact hnone
    constructor
    case linked => exact h.linked.same (.of_sockets rfl rfl rfl rfl rfl rfl rfl)
    case exact =>
      have hissue := h.exact.issue (t := c.nextTimer) hfresh fun e he => by
        obtain ⟨e', he', rfl⟩ := List.mem_map.mp he
        exact (h.handles e' he').ne
      unfold table Promises.issue at hissue
      unfold table
      rw [List.map_append, List.map_append]
      exact hissue
    case numbered => exact hnumbered
    case handles =>
      intro e he
      rcases List.mem_append.mp he with he | he
      · exact Nat.lt_succ_of_lt (h.handles e he)
      · rw [List.mem_singleton.mp he]
        exact Nat.lt_succ_self _
    case held =>
      intro timer ht
      rcases List.mem_append.mp ht with ht | ht
      · exact h.held timer ht
      · rw [List.mem_singleton.mp ht]
        exact hsocket

theorem linked_step (h : Linked platform c) (event : Event) : Linked platform (c.step platform event) :=
  (Watched.turn (w := ⟨c, true⟩) h (fun _ _ hf => nomatch hf) event).1

theorem turn (h : Accounted platform c) {event : Event} (he : ∀ command now, event ≠ .request command now) :
    Settles c (c.step platform event) := by
  cases event with
  | request command now => exact absurd rfl (he command now)
  | configure credentials => exact .configure c credentials
  | reconnect => exact (Settles.reconnect c).1
  | disconnect => exact (Settles.cancelPairing c).trans (.configure _ none)
  | pair address code => exact (Settles.pair c address code).1
  | socketOpened id => exact .socketOpened c id
  | message id frame => exact .message c id frame
  | pong id => exact .pong c id
  | unexpectedResponse id status => exact .unexpectedResponse c id status
  | socketError id => exact .socketError c id
  | socketClosed id => exact .socketClosed c id
  | sendFailed id => exact .sendFailed c id
  | commandTimeout handle => exact .commandTimeout h.exact handle
  | heartbeat => exact .heartbeat c
  | pongTimeout => exact .pongTimeout c
  | reconnectFires => exact h.reconnectFires
  | pairTimeout id => exact .finish c id _

theorem step (h : Accounted platform c) (event : Event) : Accounted platform (c.step platform event) := by
  by_cases he : ∃ command now, event = .request command now
  · obtain ⟨command, now, rfl⟩ := he
    exact h.request command now
  · exact h.settles (linked_step h.linked event) (h.turn fun command now heq => he ⟨command, now, heq⟩)

theorem run (platform : Platform) (events : List Event) : Accounted platform (run platform events) := by
  have hrun (c : TrusharClient) (h : Accounted platform c) : Accounted platform (events.foldl (TrusharClient.step platform) c) := by
    induction events generalizing c with
    | nil => exact h
    | cons event events ih => exact ih _ (h.step event)
  exact hrun {} init

end Accounted
end TrusharClient

/-! ### What a run guarantees -/

/-- The id of the request that a result or an error answers. -/
def ServerMessage.requestId : ServerMessage → Option Str
  | .result id _ _ => some id
  | .error id _ => id.filter (· ≠ [])
  | .state _ | .paired _ => none

/-- The message answers one request. -/
def ServerMessage.isAnswer : ServerMessage → Bool
  | .result .. | .error .. => true
  | .state _ | .paired _ => false

namespace TrusharClient
variable (platform : Platform) (c : TrusharClient)

def timersOf (id : Str) : List Nat := (c.timers.filter (·.requestId = id)).map (·.handle)

/-- The outcomes that the promise of a request was given. -/
def settlementsOf (id : Str) : List Outcome := (c.settlements.filter (·.1 = id)).map (·.2)

/-- The promise is pending under one timer, or it was settled, once, and its timer is cancelled. -/
def SettlesOnce (id : Str) : Prop :=
  (∃ command, c.pendingOf id = some command ∧ c.timersOf id = [command.timer] ∧ c.settlementsOf id = []) ∨
    c.pendingOf id = none ∧ c.timersOf id = [] ∧ ∃ outcome, c.settlementsOf id = [outcome]

/-- The requests that the turn settles. -/
def settledBy (event : Event) : List Str :=
  ((c.step platform event).settlements.drop c.settlements.length).map (·.1)

/-- An answer that breaks the protocol: a result of another type than its request expects, or an error that
names no request. -/
def violates : ServerMessage → Bool
  | .result id result _ => (c.pendingOf id).any fun command => result.type ≠ command.expected
  | .error id _ => id.all (· = [])
  | .state _ | .paired _ => false

/-- The close of the connection, a `configure` that changes it, a `reconnect` or `disconnect`, or a pairing
that starts. -/
def resets : Event → Bool
  | .socketClosed id => c.socket = some id
  | .configure credentials =>
    match credentials.mapM (ConnectionConfig.next platform) with
    | .ok next => c.credentials ≠ next
    | .error _ => false
  | .reconnect | .disconnect => true
  | .pair address code => isCode code && (normalizeAddress platform address).isOk
  | _ => false

/-- How requests settle, whatever happens next. -/
structure RequestsSettle : Prop where
  distinct : c.promises.Nodup
  once : ∀ id ∈ c.promises, c.SettlesOnce id
  promised : ∀ s ∈ c.settlements, s.1 ∈ c.promises
  kept : ∀ event, c.settlements <+: (c.step platform event).settlements
  /-- A timer that fires settles the request it was set for. -/
  timeout : ∀ timer ∈ c.timers,
    (c.step platform (.commandTimeout timer.handle)).settlementsOf timer.requestId =
      [.rejected ⟨"command_timeout".toList, "Stonemite did not answer before the command timed out.".toList⟩]
  /-- An answer settles its own request only. -/
  answer : ∀ socket message, message.isAnswer → c.violates message = false →
    ∀ id ∈ c.settledBy platform (.message socket (.ok message)), message.requestId = some id
  /-- One that breaks the protocol rejects every request. -/
  violation : ∀ socket message, c.violates message → c.socket = some socket →
    (c.hearing socket ReadyState.receives).isSome →
    (c.step platform (.message socket (.ok message))).pending = [] ∧ ∀ entry ∈ c.pending, ∃ error,
      (c.step platform (.message socket (.ok message))).settlementsOf entry.1 = [.rejected error]
  /-- Requests were sent on the socket the client has. -/
  current : ∀ timer ∈ c.timers, c.socket = some timer.socket
  reset : ∀ event, c.resets platform event → (c.step platform event).pending = []

variable {platform c}

theorem pendingOf_eq_filter (id : Str) : c.pendingOf id = ((c.pending.filter (·.1 = id)).head?).map (·.2) := by
  unfold pendingOf
  rw [List.head?_filter]

namespace Accounted

theorem settlesOnce (h : Accounted platform c) {id : Str} (hid : id ∈ c.promises) : c.SettlesOnce id := by
  have hpending : c.table.pending.filter (·.1 = id) = (c.pending.filter (·.1 = id)).map fun e => (e.1, e.2.timer) := by
    unfold table
    rw [List.filter_map]
    rfl
  have htimers : c.table.timers.filter (·.2 = id) =
      (c.timers.filter (·.requestId = id)).map fun timer => (timer.handle, timer.requestId) := by
    unfold table
    rw [List.filter_map]
    rfl
  have hhandles : c.timersOf id = (c.table.timers.filter (·.2 = id)).map Prod.fst := by
    unfold timersOf
    rw [htimers, List.map_map]
    rfl
  unfold SettlesOnce
  rw [pendingOf_eq_filter, hhandles]
  rcases h.exact.once hid with ⟨handle, hpend, htime, hsettled⟩ | ⟨hpend, htime, outcome, hsettled⟩
  · left
    rw [hpending] at hpend
    obtain ⟨e, he, heq⟩ := List.map_eq_singleton_iff.mp hpend
    refine ⟨e.2, by rw [he]; rfl, ?_, ?_⟩
    · rw [htime]
      exact congrArg (fun p => [p.2]) heq.symm
    · unfold settlementsOf
      exact congrArg (List.map (·.2)) hsettled
  · right
    rw [hpending] at hpend
    refine ⟨by rw [List.map_eq_nil_iff.mp hpend]; rfl, by rw [htime]; rfl, outcome, ?_⟩
    unfold settlementsOf
    exact congrArg (List.map (·.2)) hsettled

theorem settlements_kept (h : Accounted platform c) (event : Event) :
    c.settlements <+: (c.step platform event).settlements := by
  by_cases he : ∃ command now, event = .request command now
  · obtain ⟨command, now, rfl⟩ := he
    show c.settlements <+: (c.request command now).settlements
    unfold TrusharClient.request
    dsimp only
    split
    · exact List.prefix_append _ _
    · exact List.prefix_rfl
  · have hs := (h.turn fun command now heq => he ⟨command, now, heq⟩).table
    have hrun (t : Promises Str Nat Outcome) (ht : Relation.ReflTransGen Promises.Settle c.table t) :
        c.settlements <+: t.settled := by
      induction ht with
      | refl => exact List.prefix_rfl
      | tail _ hlast ih => exact ih.trans hlast.settled_prefix
    exact hrun _ hs

theorem timer_pending (h : Accounted platform c) {timer : CommandTimer} (ht : timer ∈ c.timers) :
    (timer.requestId, timer.handle) ∈ c.table.pending := by
  have hmem : (timer.handle, timer.requestId) ∈ c.table.timers :=
    List.mem_map_of_mem (f := fun t => (t.handle, t.requestId)) ht
  rw [h.exact.timers] at hmem
  obtain ⟨e, he, heq⟩ := List.mem_map.mp hmem
  obtain rfl : e = (timer.requestId, timer.handle) := Prod.swap_injective heq
  exact he

theorem timeout_settles (h : Accounted platform c) {timer : CommandTimer} (ht : timer ∈ c.timers) :
    (c.step platform (.commandTimeout timer.handle)).settlementsOf timer.requestId =
      [.rejected ⟨"command_timeout".toList, "Stonemite did not answer before the command timed out.".toList⟩] := by
  have hpend := h.timer_pending ht
  have hnone : c.settlements.filter (·.1 = timer.requestId) = [] := by
    rcases h.exact.once (h.exact.pending_mem hpend) with ⟨handle, -, -, hsettled⟩ | ⟨hnil, -, -⟩
    · exact hsettled
    · have hin : (timer.requestId, timer.handle) ∈ c.table.pending.filter (·.1 = timer.requestId) :=
        List.mem_filter.mpr ⟨hpend, decide_eq_true rfl⟩
      rw [hnil] at hin
      cases hin
  have hfind : (c.timers.find? (·.handle = timer.handle)).isSome :=
    List.find?_isSome.mpr ⟨timer, ht, decide_eq_true rfl⟩
  obtain ⟨fired, hfired⟩ := Option.isSome_iff_exists.mp hfind
  have hhandle : fired.handle = timer.handle := by simpa using List.find?_some hfired
  have hid : fired.requestId = timer.requestId :=
    (h.exact.key_iff_handle hpend (h.timer_pending (List.mem_of_find?_eq_some hfired))).mpr hhandle
  have hsettled : (c.step platform (.commandTimeout timer.handle)).settlements = c.settlements ++
      [(timer.requestId, .rejected
        ⟨"command_timeout".toList, "Stonemite did not answer before the command timed out.".toList⟩)] := by
    show (c.commandTimeout timer.handle).settlements = _
    unfold TrusharClient.commandTimeout
    rw [hfired]
    dsimp only
    rw [hid]
    split <;> rfl
  unfold settlementsOf
  rw [hsettled, List.filter_append, hnone, List.nil_append, List.filter_singleton]
  simp

end Accounted

/-! ### Answers -/

/-- `#handleMessage` returns unless the answer breaks the protocol. -/
theorem handleMessage_returns {message : ServerMessage} (h : message.isAnswer) :
    (c.handleMessage message).2 = !c.violates message := by
  cases message with
  | state | paired => cases h
  | result id result state =>
    unfold handleMessage violates
    dsimp only
    split
    · rename_i hp
      rw [hp]
      rfl
    · rename_i command hp
      rw [hp]
      by_cases htype : result.type = command.expected
      · rw [if_neg (not_not.mpr htype)]
        simp [htype]
      · rw [if_pos htype]
        simp [htype]
  | error id error =>
    cases id with
    | none => rfl
    | some id =>
      unfold handleMessage violates
      dsimp only
      by_cases hid : id = []
      · rw [if_pos hid]
        simp [hid]
      · rw [if_neg hid]
        split <;> simp [hid]

theorem handleMessage_settlements {message : ServerMessage} (h : message.isAnswer) :
    (c.handleMessage message).1.settlements = c.settlements ∨ ∃ id outcome, message.requestId = some id ∧
      (c.handleMessage message).1.settlements = c.settlements ++ [(id, outcome)] := by
  cases message with
  | state | paired => cases h
  | result id result state =>
    unfold handleMessage
    dsimp only
    split
    · exact .inl rfl
    · refine .inr ⟨id, ?_⟩
      split_ifs
      · exact ⟨_, rfl, rfl⟩
      · exact ⟨_, rfl, rfl⟩
  | error id error =>
    cases id with
    | none => exact .inl rfl
    | some id =>
      unfold handleMessage
      dsimp only
      by_cases hid : id = []
      · rw [if_pos hid]
        exact .inl rfl
      · rw [if_neg hid]
        split
        · exact .inl rfl
        · have hcarries : (ServerMessage.error (some id) error).requestId = some id := by
            show Option.filter (· ≠ []) (some id) = some id
            simp [hid]
          exact .inr ⟨id, _, hcarries, rfl⟩

/-- The outcomes that are added are rejections. -/
def AddsRejections (c c' : TrusharClient) : Prop :=
  ∃ added, c'.settlements = c.settlements ++ added ∧ ∀ s ∈ added, ∃ error, s.2 = .rejected error

theorem AddsRejections.trans {c c' c'' : TrusharClient} (h : AddsRejections c c') (h' : AddsRejections c' c'') :
    AddsRejections c c'' := by
  obtain ⟨added, heq, hadded⟩ := h
  obtain ⟨added', heq', hadded'⟩ := h'
  refine ⟨added ++ added', by rw [heq', heq, List.append_assoc], fun s hs => ?_⟩
  rcases List.mem_append.mp hs with hs | hs
  exacts [hadded s hs, hadded' s hs]

theorem handleMessage_rejects {message : ServerMessage} (hv : c.violates message = true) :
    AddsRejections c (c.handleMessage message).1 := by
  have hquiet : AddsRejections c c := ⟨[], (List.append_nil _).symm, fun _ hs => absurd hs List.not_mem_nil⟩
  cases message with
  | state | paired => cases hv
  | result id result state =>
    unfold violates at hv
    unfold handleMessage
    dsimp only at hv ⊢
    split
    · exact hquiet
    · rename_i command hp
      rw [hp] at hv
      rw [if_pos (of_decide_eq_true hv)]
      exact ⟨[_], rfl, fun s hs => ⟨_, congrArg Prod.snd (List.mem_singleton.mp hs)⟩⟩
  | error id error =>
    cases id with
    | none => exact hquiet
    | some id =>
      have hid : id = [] := of_decide_eq_true hv
      unfold handleMessage
      dsimp only
      rw [if_pos hid]
      exact hquiet

theorem protocolError_rejects (c : TrusharClient) (id : Nat) : AddsRejections c (c.protocolError id) := by
  refine ⟨c.pending.map fun entry => (entry.1, .rejected ⟨"protocol_error".toList,
    "Stonemite sent an incompatible response.".toList⟩), rfl, fun s hs => ?_⟩
  obtain ⟨entry, -, rfl⟩ := List.mem_map.mp hs
  exact ⟨_, rfl⟩

theorem finish_settlements (c : TrusharClient) (id : Nat) (result : Except PairingError Str) :
    (c.finish id result).1.settlements = c.settlements := by
  unfold finish
  split <;> rfl

theorem endPairing_settlements (c : TrusharClient) (id : Nat) (socket : Socket) (error : PairingError) :
    (c.endPairing platform id socket (.error error)).settlements = c.settlements := by
  have hf := finish_settlements c id (.error error)
  have herror : ∀ token, (c.finish id (.error error)).2 ≠ some (.ok token) := by
    intro token
    unfold finish
    split <;> simp
  unfold endPairing
  generalize c.finish id (.error error) = r at hf herror ⊢
  split
  · rename_i token _ _ _
    exact absurd rfl (herror token)
  · exact hf

/-- An answer that keeps to the protocol settles at most the request it names. -/
theorem answer_settlements {message : ServerMessage} (h : message.isAnswer) (hv : c.violates message = false)
    (socket : Nat) : (c.message platform socket (.ok message)).settlements = c.settlements ∨
      ∃ id outcome, message.requestId = some id ∧
        (c.message platform socket (.ok message)).settlements = c.settlements ++ [(id, outcome)] := by
  unfold TrusharClient.message emit
  cases c.sockets[socket]? with
  | none => exact .inl rfl
  | some s =>
    dsimp only
    rw [updSocket_id]
    by_cases hmay : decide (s.ready = .open ∨ s.ready = .closing) = true
    · rw [if_pos hmay]
      cases s.listening with
      | false => exact .inl rfl
      | true =>
        rw [if_pos rfl]
        cases s.kind with
        | control credentials failure =>
          dsimp only
          by_cases hg : s.generation ≠ c.generation
          · rw [if_pos hg]
            exact .inl rfl
          · rw [if_neg hg]
            have hreturns : (c.handleMessage message).2 = true := by
              rw [handleMessage_returns h, hv]
              rfl
            have hsettled := handleMessage_settlements (c := c) h
            generalize hr : c.handleMessage message = r at hreturns hsettled
            obtain ⟨c', returned⟩ := r
            obtain rfl : returned = true := hreturns
            have hmap : (Except.ok message : Except Str ServerMessage).map c.handleMessage = .ok (c', true) :=
              congrArg Except.ok hr
            rw [hmap]
            exact hsettled
        | pairing address settled =>
          left
          cases message with
          | state | paired => cases h
          | result => exact endPairing_settlements c socket s _
          | error => exact endPairing_settlements c socket s _
    · rw [if_neg hmay]
      exact .inl rfl

theorem answer_only {message : ServerMessage} (h : message.isAnswer) (hv : c.violates message = false)
    (socket : Nat) {id : Str} (hid : id ∈ c.settledBy platform (.message socket (.ok message))) :
    message.requestId = some id := by
  have hsettled : c.settledBy platform (.message socket (.ok message)) =
      ((c.message platform socket (.ok message)).settlements.drop c.settlements.length).map (·.1) := rfl
  rw [hsettled] at hid
  have hcases := @answer_settlements platform c message h hv socket
  rcases hcases with hs | ⟨id', outcome, hcarries, hs⟩
  · rw [hs, List.drop_length] at hid
    cases hid
  · rw [hs, List.drop_left, List.map_singleton, List.mem_singleton] at hid
    rw [hid, hcarries]

/-! ### Resets -/

namespace Accounted

theorem violation_clears (h : Accounted platform c) {socket : Nat} {message : ServerMessage}
    (hv : c.violates message = true) (hsocket : c.socket = some socket)
    (hhear : (c.hearing socket ReadyState.receives).isSome) :
    (c.step platform (.message socket (.ok message))).pending = [] ∧
      AddsRejections c (c.step platform (.message socket (.ok message))) := by
  show (c.message platform socket (.ok message)).pending = [] ∧ AddsRejections c (c.message platform socket (.ok message))
  have hanswer : message.isAnswer := by
    cases message with
    | state | paired => cases hv
    | result | error => rfl
  unfold TrusharClient.message
  rcases h.linked.emit socket (fun ready => ready = .open ∨ ready = .closing) (f := fun s => s)
      (fun ready hr => by rintro rfl; simp at hr) (fun s => ⟨rfl, rfl, rfl⟩) with ⟨-, hnone⟩ | ⟨s, hh, heq⟩
  · have hnone' : c.hearing socket ReadyState.receives = none := hnone
    rw [hnone'] at hhear
    cases hhear
  · rw [heq, updSocket_id]
    rcases hh.role with ⟨-, credentials, failure, hk⟩ | ⟨hp, -⟩
    · rw [hk]
      dsimp only
      rw [if_neg (not_not.mpr hh.generation)]
      have hreturns : (c.handleMessage message).2 = false := by
        rw [handleMessage_returns hanswer, hv]
        rfl
      have hrejects := handleMessage_rejects hv
      generalize hr : c.handleMessage message = r at hreturns hrejects
      obtain ⟨c', returned⟩ := r
      obtain rfl : returned = false := hreturns
      have hmap : (Except.ok message : Except Str ServerMessage).map c.handleMessage = .ok (c', false) :=
        congrArg Except.ok hr
      rw [hmap]
      exact ⟨(Settles.protocolError c' socket).2, hrejects.trans (protocolError_rejects c' socket)⟩
    · rw [h.linked.pairing_of_socket hsocket] at hp
      cases hp

/-- What was pending is settled now, and only rejections were added. -/
theorem violation_rejects (h : Accounted platform c) {socket : Nat} {message : ServerMessage}
    (hv : c.violates message = true) (hsocket : c.socket = some socket)
    (hhear : (c.hearing socket ReadyState.receives).isSome) {entry : Str × PendingCommand} (hentry : entry ∈ c.pending) :
    ∃ error, (c.step platform (.message socket (.ok message))).settlementsOf entry.1 = [.rejected error] := by
  obtain ⟨hempty, added, hadded, hrejected⟩ := h.violation_clears hv hsocket hhear
  have hpromised : entry.1 ∈ c.promises := h.exact.pending_mem (List.mem_map_of_mem hentry)
  have hbefore : c.settlementsOf entry.1 = [] := by
    obtain ⟨-, -, -, hnone⟩ | ⟨hnone, -⟩ := h.settlesOnce hpromised
    · exact hnone
    · unfold pendingOf at hnone
      exact absurd (decide_eq_true rfl) (List.find?_eq_none.mp (Option.map_eq_none_iff.mp hnone) entry hentry)
  have hafter : (c.step platform (.message socket (.ok message))).settlementsOf entry.1 =
      (added.filter (·.1 = entry.1)).map (·.2) := by
    unfold settlementsOf at hbefore ⊢
    rw [hadded, List.filter_append, List.map_append, hbefore, List.nil_append]
  have hstepped := h.step (.message socket (.ok message))
  have hkept : (c.step platform (.message socket (.ok message))).promises = c.promises :=
    (Settles.message c socket (.ok message)).promises
  obtain ⟨command, hpending, -⟩ | ⟨-, -, outcome, houtcome⟩ := hstepped.settlesOnce (hkept ▸ hpromised)
  · have hstill := pendingOf_mem hpending
    rw [hempty] at hstill
    cases hstill
  · have hmem : outcome ∈ (added.filter (·.1 = entry.1)).map (·.2) := by
      rw [← hafter, houtcome]
      exact List.mem_singleton_self outcome
    obtain ⟨s, hs, rfl⟩ := List.mem_map.mp hmem
    obtain ⟨error, herror⟩ := hrejected s (List.mem_of_mem_filter hs)
    exact ⟨error, by rw [houtcome, herror]⟩

theorem pending_nil_of_credentials (h : Accounted platform c) (hc : c.credentials = none) : c.pending = [] := by
  refine h.pending_nil ?_
  by_contra hs
  have hup : c.down = false := by
    unfold down
    rw [Option.isNone_eq_false_iff.mpr (Option.isSome_iff_ne_none.mpr hs), Bool.false_and]
  obtain ⟨credentials, hsome, -⟩ := h.linked.connects hup
  rw [hc] at hsome
  cases hsome

theorem reset_rejects (h : Accounted platform c) {event : Event} (hr : c.resets platform event = true) :
    (c.step platform event).pending = [] := by
  cases event with
  | configure credentials =>
    show (c.configure platform credentials).pending = []
    unfold resets at hr
    dsimp only at hr
    unfold TrusharClient.configure
    cases hn : credentials.mapM (ConnectionConfig.next platform) with
    | error => rw [hn] at hr; cases hr
    | ok next =>
      rw [hn] at hr
      exact (Settles.adopt c next).2 (of_decide_eq_true hr)
  | reconnect =>
    obtain ⟨-, -, hcred, -⟩ := h.linked.cancelPairing
    cases hc : c.credentials with
    | none =>
      have hs : (c.reconnect platform).pending ⊆ c.pending := (Settles.reconnect c).1.pending
      rw [h.pending_nil_of_credentials hc] at hs
      exact List.subset_nil.mp hs
    | some credentials => exact (Settles.reconnect c).2 (by rw [hcred, hc]; rfl)
  | disconnect =>
    obtain ⟨-, -, hcred, -⟩ := h.linked.cancelPairing
    by_cases hc : c.credentials = none
    · have hs : (c.disconnect platform).pending ⊆ c.pending :=
        ((Settles.cancelPairing c).trans (Settles.configure _ none)).pending
      rw [h.pending_nil_of_credentials hc] at hs
      exact List.subset_nil.mp hs
    · exact (Settles.adopt c.cancelPairing none).2 (by rw [hcred]; exact hc)
  | pair address code =>
    have hpair := Bool.and_eq_true_iff.mp hr
    exact (Settles.pair c address code).2 hpair.1 hpair.2
  | socketClosed id =>
    have hsocket : c.socket = some id := of_decide_eq_true hr
    show (c.socketClosed platform id).pending = []
    unfold TrusharClient.socketClosed
    rcases h.linked.emit id (· ≠ .closed) (f := ({ · with ready := .closed }))
        (fun ready hr => by rintro rfl; simp at hr) (fun s => ⟨rfl, rfl, rfl⟩) with ⟨-, hnone⟩ | ⟨s, hh, heq⟩
    · have hsome := h.linked.hearing_isSome (· ≠ .closed) (fun _ => decide_eq_true) (.inl hsocket)
      rw [hnone] at hsome
      cases hsome
    · rw [heq]
      rcases hh.role with ⟨-, credentials, failure, hk⟩ | ⟨hp, -⟩
      · rw [hk]
        exact (Settles.closed _ id _ _ _).2
      · rw [h.linked.pairing_of_socket hsocket] at hp
        cases hp
  | request | socketOpened | message | pong | unexpectedResponse | socketError | sendFailed | commandTimeout
  | heartbeat | pongTimeout | reconnectFires | pairTimeout => cases hr

end Accounted

/-- In every run each promise settles once and its timer with it, answers settle the request they name unless
they break the protocol, and no request outlives the connection it was sent on. -/
theorem requests_settle (platform : Platform) (events : List Event) : (run platform events).RequestsSettle platform := by
  have h := Accounted.run platform events
  exact {
    distinct := h.exact.nodup
    once := fun id hid => h.settlesOnce hid
    promised := fun s hs => h.exact.settled_mem hs
    kept := h.settlements_kept
    timeout := fun timer ht => h.timeout_settles ht
    answer := fun socket message ha hv id hid => answer_only ha hv socket hid
    violation := fun socket message hv hs hh => ⟨(h.violation_clears hv hs hh).1, fun _ => h.violation_rejects hv hs hh⟩
    current := h.held
    reset := fun event hr => h.reset_rejects hr }

def emptyState : TrusharState where
  revision := 1
  clients := []
  activeClientId := none
  broadcast := ⟨true, false⟩
  mouseClutch := ⟨.inactive, .noActiveClient⟩
  capabilities := ⟨true, true, true, true, true, true, .available true⟩

/-- The client is connected and two requests are pending. -/
def twoRequests : List Event :=
  [.configure (some ⟨"box:19720".toList, none⟩), .socketOpened 0, .request .activate 0, .request .setBroadcast 0]

/-- A result for the first request, of the second one's type. -/
def mismatched : ServerMessage := .result "streamdeck-activate-0-1".toList (.broadcastSet true) emptyState

/-- It rejects the second request as well. -/
theorem mismatch_settles_others : ¬ ∀ (platform : Platform) (events : List Event) (socket : Nat)
    (message : ServerMessage), message.isAnswer → ∀ id ∈ (run platform events).settledBy platform
      (.message socket (.ok message)), message.requestId = some id := by
  intro h
  have hid := h Watched.boxPlatform twoRequests 0 mismatched rfl "streamdeck-broadcast-0-2".toList (by decide +kernel)
  exact absurd hid (by decide +kernel)

end TrusharClient
end Stonemite.Streamdeck
