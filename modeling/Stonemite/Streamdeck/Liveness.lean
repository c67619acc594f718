import Stonemite.Streamdeck.Links

/-!
# The connection of the plugin stays up

While the client is configured, no pairing runs and nothing terminal happened since the last `configure` or
`reconnect`, it should hold a socket that has not closed, or a timer that makes one (`Live`). A pairing tears
the connection down and leaves it down when it fails, and so does one that succeeds with the credentials the
client already had. `Strands` says which turns leave the client without a connection; it is live in every
state of a run exactly when none of the turns is one of them.
-/

open Std

namespace Stonemite.Streamdeck

def ReadyState.receives (ready : ReadyState) : Bool := ready = .open ∨ ready = .closing

/-- The listener remembers a failure after which nothing is tried again. -/
def Socket.failed (s : Socket) : Bool :=
  match s.kind with
  | .control _ failure => failure
  | .pairing .. => false

namespace TrusharClient
variable (platform : Platform) (c : TrusharClient)

/-- HTTP 401 or 403 for the connection, or a protocol error on it. -/
def terminal : Event → Bool
  | .unexpectedResponse id status =>
    decide (c.socket = some id) && (c.hearing id (· = .connecting)).isSome && decide (status = 401 ∨ status = 403)
  | .message id frame =>
    decide (c.socket = some id) && (c.hearing id ReadyState.receives).isSome && match frame with
      | .ok message => !(c.handleMessage message).2
      | .error _ => true
  | _ => false

/-- The event ends the pairing in progress. -/
def endsPairing : Event → Bool
  | .pairTimeout id | .socketClosed id | .socketError id => decide (c.pairing = some id)
  | .unexpectedResponse id _ => decide (c.pairing = some id) && (c.hearing id (· = .connecting)).isSome
  | .message id _ => decide (c.pairing = some id) && (c.hearing id ReadyState.receives).isSome
  | _ => false

/-- The credentials that a successful pairing returns. -/
def returned (id : Nat) (token : Str) : Option ConnectionConfig :=
  match c.hearing id ReadyState.receives with
  | some ⟨.pairing address false, _, _, _⟩ =>
    if c.pairing = some id ∧ token ≠ [] then some { address, authToken := some token } else none
  | _ => none

/-- The configuration that a `configure` of this turn keeps, the controller's after a pairing among them. -/
def configured : Event → Option (Option ConnectionConfig)
  | .configure credentials => (credentials.mapM (ConnectionConfig.next platform)).toOption
  | .disconnect => some none
  | .message id (.ok (.paired token)) =>
    (c.returned id token).bind fun credentials => (credentials.next platform).toOption.map some
  | _ => none

/-- The connection closes after a terminal failure. -/
def closesFailed : Event → Bool
  | .socketClosed id => decide (c.socket = some id) && (c.sockets[id]?).any Socket.failed
  | _ => false

end TrusharClient

/-- The client, and whether a terminal failure happened since the last `configure` or `reconnect`. -/
structure Watched where
  client : TrusharClient := {}
  failed : Bool := false

namespace Watched
variable (platform : Platform) (w : Watched)

/-- The client after one event, with whether its connection has failed for good. -/
def step (event : Event) : Watched where
  client := w.client.step platform event
  failed :=
    if (w.client.configured platform event).isSome || event == .reconnect then false
    else w.failed || w.client.terminal event

/-- The client after the events, from a new one. -/
def run (events : List Event) : Watched := events.foldl (step platform) {}

/-- With credentials, without a pairing and without a terminal failure there is a socket that has not closed, or
a reconnect timer. -/
def Live : Prop :=
  w.client.credentials.isSome → w.client.pairing = none → w.failed = false →
    (∃ id s, w.client.socket = some id ∧ w.client.sockets[id]? = some s ∧ s.ready ≠ .closed) ∨
      w.client.reconnectTimer.isSome

/-- The turn leaves the client without a connection that it should have: a configuration that is unchanged while
the connection is down, or one that no socket can be made for; a pairing that ends otherwise, or a connection
that closes after a failure which a later `configure` passed over. -/
def Strands (event : Event) : Bool :=
  match w.client.configured platform event with
  | some next =>
    if w.client.credentials = next then
      next.isSome && w.client.down && (w.client.pairing.isNone || w.client.endsPairing event)
    else next.isSome && !next.any platform.connects
  | none =>
    if event = .reconnect then w.client.credentials.isSome && !w.client.credentials.any platform.connects
    else w.client.credentials.isSome && !w.failed && (w.client.endsPairing event || w.client.closesFailed event)

variable {platform w}

theorem live_iff (h : TrusharClient.Linked platform w.client) : w.Live ↔
    (w.client.credentials = none ∨ w.client.pairing.isSome ∨ w.failed = true ∨ w.client.down = false) := by
  have hup : w.client.down = false ↔ (∃ id s, w.client.socket = some id ∧ w.client.sockets[id]? = some s ∧
      s.ready ≠ .closed) ∨ w.client.reconnectTimer.isSome := by
    unfold TrusharClient.down
    cases hs : w.client.socket with
    | none => cases w.client.reconnectTimer <;> simp
    | some id =>
      refine ⟨fun _ => .inl ?_, fun _ => by simp⟩
      obtain ⟨s, hsock, hlink⟩ := Option.map_eq_some_iff.mp (h.current id hs)
      have hlive : s.link.live = true := by rw [hlink]
      unfold Socket.link at hlive
      simp only [Bool.and_eq_true, decide_eq_true_eq] at hlive
      exact ⟨id, s, rfl, hsock, hlive.2⟩
  unfold Live
  rw [hup]
  cases w.client.credentials <;> cases w.client.pairing <;> cases w.failed <;> simp

/-- What a turn has to show: the links hold, and the client is live unless the turn strands it. -/
def Turn (platform : Platform) (w : Watched) (event : Event) : Prop :=
  TrusharClient.Linked platform (w.step platform event).client ∧
    ((w.step platform event).Live ↔ w.Strands platform event = false)

section turns
open TrusharClient
open TrusharClient.Linked (Finished Restarted Heard)
variable {event : Event} {id : Nat}

theorem plain_turn (hc : w.client.configured platform event = none) (hr : event ≠ .reconnect)
    (hl : Linked platform (w.client.step platform event))
    (h : (w.client.step platform event).credentials = none ∨ (w.client.step platform event).pairing.isSome ∨
        (w.failed || w.client.terminal event) = true ∨ (w.client.step platform event).down = false ↔
      (w.client.credentials.isSome && !w.failed && (w.client.endsPairing event || w.client.closesFailed event)) =
        false) : w.Turn platform event := by
  have hfailed : (w.step platform event).failed = (w.failed || w.client.terminal event) := by
    unfold step
    rw [hc, if_neg]
    simpa using hr
  refine ⟨hl, ?_⟩
  rw [live_iff hl, hfailed]
  unfold Strands
  rw [hc]
  dsimp only
  rw [if_neg hr]
  exact h

theorem same_turn (h : Linked platform w.client) (hlive : w.Live) (hc : w.client.configured platform event = none)
    (hr : event ≠ .reconnect) (he : w.client.endsPairing event = false) (hf : w.client.closesFailed event = false)
    (hs : SameLinks w.client (w.client.step platform event)) : w.Turn platform event := by
  refine plain_turn hc hr (h.same hs) ?_
  rw [hs.credentials, hs.pairing, hs.down, he, hf]
  have := (live_iff h).mp hlive
  simp only [Bool.or_self, Bool.and_false, iff_true, Bool.or_eq_true]
  tauto

theorem ended_turn (h : Linked platform w.client) (hc : w.client.configured platform event = none)
    (hr : event ≠ .reconnect) (hp : w.client.pairing = some id) (he : w.client.endsPairing event = true)
    (ht : w.client.terminal event = false) (hf : Finished w.client (w.client.step platform event) id) :
    w.Turn platform event := by
  refine plain_turn hc hr (h.finished hp hf) ?_
  have hdown : (w.client.step platform event).down = true := by
    have := h.alone (by rw [hp]; rfl)
    unfold TrusharClient.down at this ⊢
    rw [hf.socket, hf.reconnectTimer]
    exact this
  rw [hf.credentials, hf.pairing, hdown, he, ht]
  cases w.client.credentials <;> cases w.failed <;> simp

/-- A `configure` with another configuration restarts the client. -/
theorem restarted_turn {next : Option ConnectionConfig} (hc : w.client.configured platform event = some next)
    (hne : w.client.credentials ≠ next) (hr : Restarted platform (w.client.step platform event) next) :
    w.Turn platform event := by
  have hfailed : (w.step platform event).failed = false := by
    unfold step
    rw [hc]
    rfl
  refine ⟨hr.linked, ?_⟩
  rw [live_iff hr.linked, hfailed]
  unfold Strands
  rw [hc]
  dsimp only
  rw [if_neg hne]
  show (w.client.step platform event).credentials = none ∨ (w.client.step platform event).pairing.isSome ∨
    false = true ∨ (w.client.step platform event).down = false ↔ _
  rw [hr.credentials, hr.pairing, hr.down]
  cases next <;> simp

theorem unchanged_turn {next : Option ConnectionConfig} (hc : w.client.configured platform event = some next)
    (heq : w.client.credentials = next) (hl : Linked platform (w.client.step platform event))
    (hcred : (w.client.step platform event).credentials = w.client.credentials)
    (hdown : (w.client.step platform event).down = w.client.down)
    (hpairing : (w.client.step platform event).pairing.isNone =
      (w.client.pairing.isNone || w.client.endsPairing event)) : w.Turn platform event := by
  have hfailed : (w.step platform event).failed = false := by
    unfold step
    rw [hc]
    rfl
  refine ⟨hl, ?_⟩
  rw [live_iff hl, hfailed]
  unfold Strands
  rw [hc]
  dsimp only
  rw [if_pos heq, ← heq]
  show (w.client.step platform event).credentials = none ∨ (w.client.step platform event).pairing.isSome ∨
    false = true ∨ (w.client.step platform event).down = false ↔ _
  rw [hcred, hdown, ← hpairing]
  cases w.client.credentials <;> cases (w.client.step platform event).pairing <;> cases w.client.down <;> simp

/-- A pairing succeeds and the controller configures the client. -/
theorem configure_turn {c : TrusharClient} {credentials : ConnectionConfig}
    (hc : w.client.configured platform event = (credentials.next platform).toOption.map some)
    (hr : event ≠ .reconnect) (h : Linked platform w.client) (hp : w.client.pairing = some id)
    (he : w.client.endsPairing event = true) (ht : w.client.terminal event = false) (hf : Finished w.client c id)
    (hstep : w.client.step platform event = c.configure platform (some credentials)) : w.Turn platform event := by
  have hlc := h.finished hp hf
  unfold TrusharClient.configure at hstep
  cases hn : credentials.next platform with
  | error error =>
    have hmap : (some credentials).mapM (ConnectionConfig.next platform) = .error error := by
      rw [Option.mapM_some, hn]
      rfl
    rw [hmap] at hstep
    rw [hn] at hc
    exact ended_turn h hc hr hp he ht (hstep ▸ hf)
  | ok next =>
    have hmap : (some credentials).mapM (ConnectionConfig.next platform) = .ok (some next) := by
      rw [Option.mapM_some, hn]
      rfl
    rw [hmap] at hstep
    rw [hn] at hc
    dsimp only at hstep
    by_cases heq : w.client.credentials = some next
    · have hsame : w.client.step platform event = c := by
        rw [hstep]
        unfold TrusharClient.adopt
        rw [if_pos (hf.credentials.trans heq)]
      have hdown : c.down = w.client.down := by
        unfold TrusharClient.down
        rw [hf.socket, hf.reconnectTimer]
      refine unchanged_turn hc heq ?_ ?_ ?_ ?_ <;> rw [hsame]
      · exact hlc
      · exact hf.credentials
      · exact hdown
      · rw [hf.pairing, he, Bool.or_true]
        rfl
    · refine restarted_turn hc heq ?_
      rw [hstep]
      exact hlc.adopt (by rw [hf.credentials]; exact heq)

/-! ### One turn -/

theorem configured_message {c : TrusharClient} (h : ∀ token, c.returned id token = none)
    (frame : Except Str ServerMessage) : c.configured platform (.message id frame) = none := by
  cases frame with
  | error => rfl
  | ok message =>
    cases message with
    | paired token =>
      show (c.returned id token).bind _ = none
      rw [h]
      rfl
    | state | result | error => rfl

theorem failing_turn (h : Linked platform w.client) (hc : w.client.configured platform event = none)
    (hr : event ≠ .reconnect) (he : w.client.endsPairing event = true) (ht : w.client.terminal event = false)
    (hp : w.client.pairing = some id) {f : Socket → Socket} (hf : ∀ s, (f s).kind = s.kind) {s : Socket}
    {address : Str} (hk : s.kind = .pairing address false) (hg : s.generation = w.client.generation)
    {error : PairingError}
    (hstep : w.client.step platform event = (w.client.updSocket id f).endPairing platform id s (.error error)) :
    w.Turn platform event := by
  obtain ⟨c', hfin, heq⟩ := h.endPairing hp hf hk hg (.error error)
  rw [heq] at hstep
  exact ended_turn h hc hr hp he ht (hstep ▸ hfin)

theorem configure_event (h : Linked platform w.client) (credentials : Option ConnectionConfig) (hlive : w.Live) :
    w.Turn platform (.configure credentials) := by
  cases hn : credentials.mapM (ConnectionConfig.next platform) with
  | error error =>
    have hc : w.client.configured platform (.configure credentials) = none := by
      show (credentials.mapM (ConnectionConfig.next platform)).toOption = none
      rw [hn]
      rfl
    refine same_turn h hlive hc nofun rfl rfl ?_
    show SameLinks w.client (w.client.configure platform credentials)
    unfold TrusharClient.configure
    rw [hn]
    exact .refl _
  | ok next =>
    have hc : w.client.configured platform (.configure credentials) = some next := by
      show (credentials.mapM (ConnectionConfig.next platform)).toOption = some next
      rw [hn]
      rfl
    have hstep : w.client.step platform (.configure credentials) = w.client.adopt platform next := by
      show w.client.configure platform credentials = _
      unfold TrusharClient.configure
      rw [hn]
    by_cases heq : w.client.credentials = next
    · have hsame : w.client.step platform (.configure credentials) = w.client := by
        rw [hstep]
        unfold TrusharClient.adopt
        rw [if_pos heq]
      refine unchanged_turn hc heq ?_ ?_ ?_ ?_ <;> rw [hsame]
      · exact h
      · exact (Bool.or_false _).symm
    · exact restarted_turn hc heq (hstep ▸ h.adopt heq)

theorem reconnect_event (h : Linked platform w.client) : w.Turn platform .reconnect := by
  have hr := h.reconnect
  have hfailed : (w.step platform .reconnect).failed = false := by simp [step]
  refine ⟨hr.linked, ?_⟩
  rw [live_iff (w := w.step platform .reconnect) hr.linked, hfailed]
  show (w.client.reconnect platform).credentials = none ∨ (w.client.reconnect platform).pairing.isSome ∨
    false = true ∨ (w.client.reconnect platform).down = false ↔ _
  rw [hr.credentials, hr.pairing, hr.down]
  unfold Strands
  cases w.client.credentials <;> simp [configured]

theorem disconnect_event (h : Linked platform w.client) : w.Turn platform .disconnect := by
  have hc : w.client.configured platform .disconnect = some none := rfl
  obtain ⟨hl, hp, hcred, hgen⟩ := h.cancelPairing
  have hstep : w.client.step platform .disconnect = w.client.cancelPairing.adopt platform none := rfl
  have hlinked : Linked platform (w.client.step platform .disconnect) ∧
      (w.client.step platform .disconnect).credentials = none := by
    rw [hstep]
    by_cases heq : w.client.cancelPairing.credentials = none
    · unfold TrusharClient.adopt
      rw [if_pos heq]
      exact ⟨hl, heq⟩
    · exact ⟨(hl.adopt heq).linked, (hl.adopt heq).credentials⟩
  refine ⟨hlinked.1, ?_⟩
  rw [live_iff (w := w.step platform .disconnect) hlinked.1]
  unfold Strands
  rw [hc]
  simp [step, hlinked.2]

theorem pair_event (h : Linked platform w.client) (hlive : w.Live) (address code : Str) :
    w.Turn platform (.pair address code) := by
  have hc : w.client.configured platform (.pair address code) = none := rfl
  rcases h.pair address code with hsame | ⟨hl, hp⟩
  · refine same_turn h hlive hc nofun rfl rfl ?_
    show SameLinks w.client (w.client.pair platform address code)
    rw [hsame]
    exact .refl _
  · exact plain_turn hc nofun hl (by simp [hp, TrusharClient.step, endsPairing, closesFailed])

theorem socketOpened_event (h : Linked platform w.client) (hlive : w.Live) (id : Nat) :
    w.Turn platform (.socketOpened id) := by
  refine same_turn h hlive rfl nofun rfl rfl ?_
  show SameLinks w.client (w.client.socketOpened platform id)
  unfold TrusharClient.socketOpened
  rcases h.emit id (· = .connecting) (f := ({ · with ready := .open })) (fun ready hr => by
    rintro rfl; simp at hr) (fun s => ⟨rfl, rfl, rfl⟩) with ⟨hs, -⟩ | ⟨s, hh, heq⟩
  · exact hs
  · rw [heq]
    have hopen : SameLinks w.client (w.client.updSocket id ({ · with ready := .open })) := by
      refine .updSocket _ _ fun s' hs' => ?_
      obtain rfl := Option.some.inj (hh.socket.symm.trans hs')
      have hready : s.ready = .connecting := by simpa using hh.may
      unfold Socket.link
      rw [hready]
      rfl
    rcases hh.role with ⟨-, credentials, failure, hk⟩ | ⟨-, address, hk⟩
    · rw [hk]
      dsimp only
      rw [if_neg (by rw [hh.generation]; exact fun hne => hne rfl)]
      refine hopen.trans ?_
      exact .of_sockets rfl rfl rfl rfl rfl rfl rfl
    · rw [hk]
      dsimp only
      rw [if_neg (by rw [hh.generation]; exact fun hne => hne rfl)]
      exact hopen

theorem pong_event (h : Linked platform w.client) (hlive : w.Live) (id : Nat) : w.Turn platform (.pong id) := by
  refine same_turn h hlive rfl nofun rfl rfl ?_
  show SameLinks w.client (w.client.pong id)
  unfold TrusharClient.pong
  rcases h.emit id (fun ready => ready = .open ∨ ready = .closing) (f := fun s => s) (fun ready hr => by
    rintro rfl; simp at hr) (fun s => ⟨rfl, rfl, rfl⟩) with ⟨hs, -⟩ | ⟨s, hh, heq⟩
  · exact hs
  · rw [heq, updSocket_id]
    split
    · split_ifs
      · exact .refl _
      · exact .of_sockets rfl rfl rfl rfl rfl rfl rfl
    · exact .refl _

theorem message_ne_reconnect (id : Nat) (frame : Except Str ServerMessage) :
    Event.message id frame ≠ .reconnect := by simp

theorem message_event (h : Linked platform w.client) (hlive : w.Live) (id : Nat) (frame : Except Str ServerMessage) :
    w.Turn platform (.message id frame) := by
  have hstep : w.client.step platform (.message id frame) = w.client.message platform id frame := rfl
  unfold TrusharClient.message at hstep
  rcases h.emit id (fun ready => ready = .open ∨ ready = .closing) (f := fun s => s) (fun ready hr => by
    rintro rfl; simp at hr) (fun s => ⟨rfl, rfl, rfl⟩) with ⟨hs, hn⟩ | ⟨s, hh, heq⟩
  · rw [← hstep] at hs
    have hn' : w.client.hearing id ReadyState.receives = none := hn
    have hc : w.client.configured platform (.message id frame) = none := by
      refine configured_message (fun token => ?_) frame
      unfold returned
      rw [hn']
    have he : w.client.endsPairing (.message id frame) = false := by
      show (_ && (w.client.hearing id ReadyState.receives).isSome) = false
      rw [hn']
      exact Bool.and_false _
    exact same_turn h hlive hc (message_ne_reconnect _ _) he rfl hs
  · have hhear : w.client.hearing id ReadyState.receives = some s := hh.hearing
    rw [heq] at hstep
    rcases hh.role with ⟨hcur, credentials, failure, hk⟩ | ⟨hp, address, hk⟩
    · -- on the connection
      have hc : w.client.configured platform (.message id frame) = none := by
        refine configured_message (fun token => ?_) frame
        unfold returned
        rw [hhear]
        obtain ⟨kind, generation, ready, listening⟩ := s
        obtain rfl : kind = .control credentials failure := hk
        rfl
      have he : w.client.endsPairing (.message id frame) = false := by
        show (decide (w.client.pairing = some id) && _) = false
        rw [h.pairing_of_socket hcur]
        rfl
      refine same_turn h hlive hc (message_ne_reconnect _ _) he rfl ?_
      rw [hstep, updSocket_id, hk]
      dsimp only
      rw [if_neg (by rw [hh.generation]; exact fun hne => hne rfl)]
      cases frame with
      | error => exact .protocolError _ _
      | ok message =>
        have hm := SameLinks.handleMessage w.client message
        rcases hhandled : w.client.handleMessage message with ⟨c, returned⟩
        rw [hhandled] at hm
        dsimp only [Except.map]
        rw [hhandled]
        cases returned with
        | true => exact hm
        | false => exact hm.trans (.protocolError _ _)
    · -- on the pairing
      have he : w.client.endsPairing (.message id frame) = true := by
        show (decide (w.client.pairing = some id) && (w.client.hearing id ReadyState.receives).isSome) = true
        rw [hhear, hp]
        simp
      have ht : w.client.terminal (.message id frame) = false := by
        show (decide (w.client.socket = some id) && _ && _) = false
        rw [(h.socket_of_pairing hp).1]
        rfl
      rw [hk] at hstep
      rcases frame with text | message
      · exact failing_turn h rfl (message_ne_reconnect _ _) he ht hp (fun _ => rfl) hk hh.generation hstep
      · rcases message with state | ⟨rid, result, state⟩ | ⟨rid, error⟩ | token
        · exact failing_turn h rfl (message_ne_reconnect _ _) he ht hp (fun _ => rfl) hk hh.generation hstep
        · exact failing_turn h rfl (message_ne_reconnect _ _) he ht hp (fun _ => rfl) hk hh.generation hstep
        · exact failing_turn h rfl (message_ne_reconnect _ _) he ht hp (fun _ => rfl) hk hh.generation hstep
        · have hreturned : w.client.returned id token =
              if token = [] then none else some { address, authToken := some token } := by
            unfold returned
            rw [hhear]
            obtain ⟨kind, generation, ready, listening⟩ := s
            obtain rfl : kind = .pairing address false := hk
            dsimp only
            rw [hp]
            by_cases htoken : token = [] <;> simp [htoken]
          have hc : w.client.configured platform (.message id (.ok (.paired token))) =
              (w.client.returned id token).bind fun credentials => (credentials.next platform).toOption.map some := rfl
          rw [hreturned] at hc
          obtain ⟨c', hfin, hend⟩ := h.endPairing (f := fun s => s) hp (fun _ => rfl) hk hh.generation (.ok token)
          dsimp only at hstep
          rw [hend] at hstep
          cases token with
          | nil => exact ended_turn h hc (message_ne_reconnect _ _) hp he ht (hstep ▸ hfin)
          | cons ch token => exact configure_turn hc (message_ne_reconnect _ _) h hp he ht hfin hstep

theorem unexpectedResponse_event (h : Linked platform w.client) (hlive : w.Live) (id status : Nat) :
    w.Turn platform (.unexpectedResponse id status) := by
  have hstep : w.client.step platform (.unexpectedResponse id status) =
      w.client.unexpectedResponse platform id status := rfl
  unfold TrusharClient.unexpectedResponse at hstep
  rcases h.emit id (· = .connecting) (f := fun s => s) (fun ready hr => by
    rintro rfl; simp at hr) (fun s => ⟨rfl, rfl, rfl⟩) with ⟨hs, hn⟩ | ⟨s, hh, heq⟩
  · rw [← hstep] at hs
    have he : w.client.endsPairing (.unexpectedResponse id status) = false := by
      show (_ && (w.client.hearing id _).isSome) = false
      rw [hn]
      exact Bool.and_false _
    exact same_turn h hlive rfl nofun he rfl hs
  · rw [heq] at hstep
    rcases hh.role with ⟨hcur, credentials, failure, hk⟩ | ⟨hp, address, hk⟩
    · have he : w.client.endsPairing (.unexpectedResponse id status) = false := by
        show (decide (w.client.pairing = some id) && _) = false
        rw [h.pairing_of_socket hcur]
        rfl
      refine same_turn h hlive rfl nofun he rfl ?_
      rw [hstep, updSocket_id, hk]
      dsimp only
      rw [if_neg (by rw [hh.generation]; exact fun hne => hne rfl)]
      exact (SameLinks.updSocket _ _ fun s _ => s.link_fail _).trans
        ((SameLinks.setStatus _ _ _ _).trans (.updSocket _ _ fun s _ => s.link_close))
    · have he : w.client.endsPairing (.unexpectedResponse id status) = true := by
        show (decide (w.client.pairing = some id) && (w.client.hearing id _).isSome) = true
        rw [hh.hearing, hp]
        simp
      have ht : w.client.terminal (.unexpectedResponse id status) = false := by
        show (decide (w.client.socket = some id) && _ && _) = false
        rw [(h.socket_of_pairing hp).1]
        rfl
      rw [hk] at hstep
      exact failing_turn h rfl nofun he ht hp (fun _ => rfl) hk hh.generation hstep

theorem socketError_event (h : Linked platform w.client) (hlive : w.Live) (id : Nat) :
    w.Turn platform (.socketError id) := by
  have hstep : w.client.step platform (.socketError id) = w.client.socketError platform id := rfl
  unfold TrusharClient.socketError at hstep
  rcases h.emit id (· ≠ .closed) (f := fun s => s) (fun ready hr => by simpa using hr)
    (fun s => ⟨rfl, rfl, rfl⟩) with ⟨hs, hn⟩ | ⟨s, hh, heq⟩
  · rw [← hstep] at hs
    have he : w.client.endsPairing (.socketError id) = false := by
      refine decide_eq_false fun hp => ?_
      have hhear := h.hearing_isSome (· ≠ .closed) (fun _ hr => by simpa using hr) (.inr hp)
      rw [hn] at hhear
      cases hhear
    exact same_turn h hlive rfl nofun he rfl hs
  · rw [heq] at hstep
    rcases hh.role with ⟨hcur, credentials, failure, hk⟩ | ⟨hp, address, hk⟩
    · have he : w.client.endsPairing (.socketError id) = false := by
        show decide (w.client.pairing = some id) = false
        rw [h.pairing_of_socket hcur]
        rfl
      refine same_turn h hlive rfl nofun he rfl ?_
      rw [hstep, updSocket_id, hk]
      exact .refl _
    · have he : w.client.endsPairing (.socketError id) = true := decide_eq_true hp
      rw [hk] at hstep
      exact failing_turn h rfl nofun he rfl hp (fun _ => rfl) hk hh.generation hstep

theorem socketClosed_event (h : Linked platform w.client) (hlive : w.Live) (id : Nat) :
    w.Turn platform (.socketClosed id) := by
  have hstep : w.client.step platform (.socketClosed id) = w.client.socketClosed platform id := rfl
  unfold TrusharClient.socketClosed at hstep
  rcases h.emit id (· ≠ .closed) (f := ({ · with ready := .closed })) (fun ready hr => by simpa using hr)
    (fun s => ⟨rfl, rfl, rfl⟩) with ⟨hs, hn⟩ | ⟨s, hh, heq⟩
  · rw [← hstep] at hs
    have hnot (hid : w.client.socket = some id ∨ w.client.pairing = some id) : False := by
      have hhear := h.hearing_isSome (· ≠ .closed) (fun _ hr => by simpa using hr) hid
      rw [hn] at hhear
      cases hhear
    have he : w.client.endsPairing (.socketClosed id) = false := decide_eq_false fun hp => hnot (.inr hp)
    have hf : w.client.closesFailed (.socketClosed id) = false := by
      show (decide (w.client.socket = some id) && _) = false
      rw [decide_eq_false fun hc => hnot (.inl hc), Bool.false_and]
    exact same_turn h hlive rfl nofun he hf hs
  · rw [heq] at hstep
    rcases hh.role with ⟨hcur, credentials, failure, hk⟩ | ⟨hp, address, hk⟩
    · -- the connection closes
      rw [hk] at hstep
      dsimp only at hstep
      have hcred : ∃ credentials, w.client.credentials = some credentials := by
        obtain ⟨credentials, hc, -⟩ := h.connects (by unfold TrusharClient.down; rw [hcur]; rfl)
        exact ⟨credentials, hc⟩
      obtain ⟨configured, hcred⟩ := hcred
      have he : w.client.endsPairing (.socketClosed id) = false := by
        show decide (w.client.pairing = some id) = false
        rw [h.pairing_of_socket hcur]
        rfl
      have hf : w.client.closesFailed (.socketClosed id) = failure := by
        show (decide (w.client.socket = some id) && (w.client.sockets[id]?).any Socket.failed) = failure
        rw [hcur, hh.socket, decide_eq_true rfl, Option.any_some, Socket.failed, hk]
        rfl
      have hlink (k : Nat) (hk' : k ≠ id) :
          (w.client.updSocket id ({ · with ready := .closed })).linkOf k = w.client.linkOf k := by
        show ((w.client.sockets.modify id _)[k]?).map Socket.link = _
        rw [ExtTreeMap.getElem?_modify_of_ne (Ne.symm hk')]
        rfl
      have hclosed (l : Link) (hl : (w.client.updSocket id ({ · with ready := .closed })).linkOf id = some l) :
          l.live = false ∧ l.pairing = none := by
        have hl' : ((w.client.sockets.modify id ({ · with ready := .closed }))[id]?).map Socket.link = some l := hl
        rw [ExtTreeMap.getElem?_modify_ite, if_pos rfl, hh.socket] at hl'
        obtain rfl := Option.some.inj hl'
        obtain ⟨kind, generation, ready, listening⟩ := s
        obtain rfl : kind = .control credentials failure := hk
        exact ⟨Bool.and_false _, rfl⟩
      have hsocket : (w.client.updSocket id ({ · with ready := .closed })).stopHeartbeat.socket = some id := hcur
      rw [if_pos hsocket] at hstep
      have hshape : (w.client.step platform (.socketClosed id)).linkOf =
            (w.client.updSocket id ({ · with ready := .closed })).linkOf ∧
          (w.client.step platform (.socketClosed id)).nextSocket = w.client.nextSocket ∧
          (w.client.step platform (.socketClosed id)).socket = none ∧
          (w.client.step platform (.socketClosed id)).pairing = w.client.pairing ∧
          (w.client.step platform (.socketClosed id)).credentials = w.client.credentials ∧
          (w.client.step platform (.socketClosed id)).generation = w.client.generation ∧
          (w.client.step platform (.socketClosed id)).reconnectTimer =
            if failure then none else some w.client.generation := by
        have htimer : w.client.reconnectTimer = none := by
          cases ht : w.client.reconnectTimer with
          | none => rfl
          | some g => cases hcur.symm.trans (h.timer g ht).2
        rw [hstep]
        cases failure with
        | true =>
          rw [if_pos (.inr (.inr rfl))]
          exact ⟨rfl, rfl, rfl, rfl, rfl, rfl, htimer⟩
        | false =>
          rw [if_neg]
          · exact ⟨rfl, rfl, rfl, rfl, rfl, rfl, congrArg some hh.generation⟩
          · rintro (hg | hn | hf)
            · exact hg hh.generation
            · have hn' : w.client.credentials.isNone = true := hn
              rw [hcred] at hn'
              cases hn'
            · cases hf
      obtain ⟨h1, h2, h3, h4, h5, h6, h7⟩ := hshape
      obtain ⟨hl, hpairing⟩ := h.closed hcur (fun k hk' => by rw [h1]; exact hlink k hk')
        (fun l hl => hclosed l (by rw [← h1]; exact hl)) h2 h3 h4 h5 h6
        (by rw [h7]; cases failure; exacts [.inr rfl, .inl rfl])
      refine plain_turn rfl nofun hl ?_
      rw [h5, hcred, hpairing, he, hf]
      unfold TrusharClient.down
      rw [h3, h7]
      have ht : w.client.terminal (.socketClosed id) = false := rfl
      rw [ht]
      cases failure <;> cases w.failed <;> simp
    · have he : w.client.endsPairing (.socketClosed id) = true := decide_eq_true hp
      rw [hk] at hstep
      exact failing_turn h rfl nofun he rfl hp (f := ({ · with ready := .closed })) (fun _ => rfl) hk hh.generation hstep

theorem pairTimeout_event (h : Linked platform w.client) (hlive : w.Live) (id : Nat) :
    w.Turn platform (.pairTimeout id) := by
  have hstep : w.client.step platform (.pairTimeout id) = w.client.pairTimeout id := rfl
  unfold TrusharClient.pairTimeout at hstep
  by_cases hp : w.client.pairing = some id
  · have hf := (h.finish (f := fun s => s) hp (fun _ => rfl) (.error (.command ⟨"pairing_timeout".toList,
      "Pairing timed out. Start a new code and try again.".toList⟩))).2
    rw [updSocket_id, ← hstep] at hf
    exact ended_turn h rfl nofun hp (decide_eq_true hp) rfl hf
  · refine same_turn h hlive rfl nofun (decide_eq_false hp) rfl ?_
    rw [hstep, h.finish_other hp]
    exact .refl _

theorem reconnectFires_event (h : Linked platform w.client) (hlive : w.Live) : w.Turn platform .reconnectFires := by
  have hstep : w.client.step platform .reconnectFires = w.client.reconnectFires platform := rfl
  unfold TrusharClient.reconnectFires at hstep
  cases ht : w.client.reconnectTimer with
  | none =>
    rw [ht] at hstep
    exact same_turn h hlive rfl nofun rfl rfl (hstep ▸ .refl _)
  | some g =>
    rw [ht] at hstep
    dsimp only at hstep
    obtain ⟨rfl, hsocket⟩ := h.timer g ht
    have hup : w.client.down = false := by
      unfold TrusharClient.down
      rw [ht]
      exact Bool.and_false _
    obtain ⟨credentials, hcred, hconnects⟩ := h.connects hup
    have hpairing : w.client.pairing = none := by
      cases hp : w.client.pairing with
      | none => rfl
      | some id => cases ht.symm.trans (h.socket_of_pairing hp).2
    have hb : Linked.Blank platform { w.client with reconnectTimer := none } := by
      refine ⟨?_, hpairing, hsocket, rfl⟩
      refine { h with alone := fun hp => ?_, timer := nofun, connects := fun hd => ⟨credentials, hcred, hconnects⟩ }
      rw [hpairing] at hp
      cases hp
    have hr := Linked.connect hb (show _ = some credentials from hcred) true
    have hr' : Restarted platform (w.client.step platform .reconnectFires) (some credentials) := hstep ▸ hr
    refine plain_turn rfl nofun hr'.linked ?_
    rw [hr'.down]
    simp [hconnects, endsPairing, closesFailed]

/-- A turn keeps the client live exactly when it does not strand it. -/
theorem turn (h : Linked platform w.client) (hlive : w.Live) (event : Event) : w.Turn platform event := by
  cases event with
  | configure credentials => exact configure_event h credentials hlive
  | reconnect => exact reconnect_event h
  | disconnect => exact disconnect_event h
  | pair address code => exact pair_event h hlive address code
  | request command now => exact same_turn h hlive rfl nofun rfl rfl (.request _ _ _)
  | socketOpened id => exact socketOpened_event h hlive id
  | message id frame => exact message_event h hlive id frame
  | pong id => exact pong_event h hlive id
  | unexpectedResponse id status => exact unexpectedResponse_event h hlive id status
  | socketError id => exact socketError_event h hlive id
  | socketClosed id => exact socketClosed_event h hlive id
  | sendFailed id => exact same_turn h hlive rfl nofun rfl rfl (.sendFailed _ _)
  | commandTimeout handle => exact same_turn h hlive rfl nofun rfl rfl (.commandTimeout _ _)
  | heartbeat => exact same_turn h hlive rfl nofun rfl rfl (.heartbeat _)
  | pongTimeout => exact same_turn h hlive rfl nofun rfl rfl (.pongTimeout _)
  | reconnectFires => exact reconnectFires_event h hlive
  | pairTimeout id => exact pairTimeout_event h hlive id

end turns

/-- In every run the client is live in every state exactly when no turn of the run strands it. -/
theorem live_run (platform : Platform) (events : List Event) :
    (∀ pre post, events = pre ++ post → (run platform pre).Live) ↔
      Along (fun w event => Strands platform w event = false) (step platform) {} events := by
  have invariant (w : Watched) (events : List Event) (h : TrusharClient.Linked platform w.client) (hlive : w.Live) :
      (∀ pre post, events = pre ++ post → (pre.foldl (step platform) w).Live) ↔
        Along (fun w event => Strands platform w event = false) (step platform) w events := by
    induction events generalizing w with
    | nil =>
      refine ⟨fun _ => trivial, fun _ pre post hpre => ?_⟩
      obtain ⟨rfl, -⟩ := List.append_eq_nil_iff.mp hpre.symm
      exact hlive
    | cons event events ih =>
      obtain ⟨hl, hiff⟩ := turn h hlive event
      rw [Along.cons_iff]
      constructor
      · intro hall
        have hfirst : (w.step platform event).Live := hall [event] events rfl
        refine ⟨hiff.mp hfirst, (ih (w.step platform event) hl hfirst).mp fun pre post hpre => ?_⟩
        exact hall (event :: pre) post (by rw [hpre]; rfl)
      · rintro ⟨hsafe, hrest⟩ pre post hpre
        have hfirst := hiff.mpr hsafe
        cases pre with
        | nil => exact hlive
        | cons event' pre =>
          obtain ⟨rfl, htail⟩ := List.cons.inj hpre
          exact (ih (w.step platform event) hl hfirst).mpr hrest pre post htail
  exact invariant {} events .init nofun

/-- A platform with one host, whose every socket can be made. -/
def boxPlatform : Platform where
  trim := Str.trim
  toLowerCase := Str.toAsciiLowercase
  parseUrl url :=
    if url = "ws://box:19720".toList then
      some { protocol := "ws:".toList, username := [], password := [], search := [], hash := [], pathname := ['/']
             hostname := "box".toList, port := "19720".toList, host := "box:19720".toList }
    else none
  connects _ := true

/-- The client is configured and connected; a pairing takes its connection down and times out. -/
def timedOutPairing : List Event :=
  [.configure (some ⟨"box:19720".toList, some "credential".toList⟩), .socketOpened 0,
    .pair "box:19720".toList "482731".toList, .pairTimeout 1]

/-- Nothing brings the connection back. -/
theorem pairing_strands : ¬ ∀ (platform : Platform) (events : List Event), (run platform events).Live := by
  intro h
  have hlive := h boxPlatform timedOutPairing (by decide +kernel) (by decide +kernel) (by decide +kernel)
  have hsocket : (run boxPlatform timedOutPairing).client.socket = none := by decide +kernel
  have htimer : (run boxPlatform timedOutPairing).client.reconnectTimer = none := by decide +kernel
  rw [hsocket, htimer] at hlive
  rcases hlive with ⟨id, s, hs, -⟩ | hs <;> cases hs

end Watched
end Stonemite.Streamdeck
