import Stonemite.Streamdeck.Client
import Stonemite.Lib.Run

/-!
# The links of the connection

At any time the client holds at most one of a control socket, a reconnect timer and a pairing, made in the
current generation; a socket it let go of has no listeners left or is closed. `Linked` is this invariant, on
what the events can tell of a socket (`Link`).
-/

open Std

namespace Stonemite.Streamdeck

/-- What the rest of the client depends on in a socket. -/
structure Link where
  /-- The address and whether it is settled, for a pairing. -/
  pairing : Option (Str × Bool)
  generation : Nat
  /-- It has listeners and will close. -/
  live : Bool

/-- What of a socket decides whether its events are still heard. -/
def Socket.link (s : Socket) : Link where
  pairing := match s.kind with
    | .control .. => none
    | .pairing address settled => some (address, settled)
  generation := s.generation
  live := s.listening && s.ready ≠ .closed

namespace Socket

@[simp] theorem link_close (s : Socket) : s.close.link = s.link := by
  obtain ⟨kind, generation, ready, listening⟩ := s
  cases ready <;> rfl

@[simp] theorem link_fail (s : Socket) (failure : Bool) : (s.fail failure).link = s.link := by
  obtain ⟨kind, generation, ready, listening⟩ := s
  cases kind <;> rfl

@[simp] theorem link_abandon (s : Socket) : s.abandon.link = { s.link with live := false } := by
  obtain ⟨kind, generation, ready, listening⟩ := s
  cases ready <;> rfl

end Socket

namespace TrusharClient

@[simp] theorem updSocket_id (c : TrusharClient) (id : Nat) : (c.updSocket id fun s => s) = c := by
  have hsockets : c.sockets.modify id (fun s => s) = c.sockets := by
    ext k s
    rw [ExtTreeMap.getElem?_modify_ite, Option.map_id', ite_self]
  unfold updSocket
  rw [hsockets]

/-- The link of the socket with this number. -/
def linkOf (c : TrusharClient) (id : Nat) : Option Link := (c.sockets[id]?).map Socket.link

/-- The control connection: a socket or a timer that makes one. -/
def down (c : TrusharClient) : Bool := c.socket.isNone && c.reconnectTimer.isNone

/-- The socket, if it has listeners and its ready state allows the event. -/
def hearing (c : TrusharClient) (id : Nat) (may : ReadyState → Bool) : Option Socket :=
  (c.sockets[id]?).filter fun s => may s.ready && s.listening

/-- The invariant: the client's sockets are there, and those of earlier generations are not the current ones. -/
structure Linked (platform : Platform) (c : TrusharClient) : Prop where
  fresh : ∀ id, c.nextSocket ≤ id → c.linkOf id = none
  current : ∀ id, c.socket = some id → c.linkOf id = some ⟨none, c.generation, true⟩
  pairing : ∀ id, c.pairing = some id → ∃ address, c.linkOf id = some ⟨some (address, false), c.generation, true⟩
  heard : ∀ id l, c.linkOf id = some l → l.live = true → c.socket = some id ∨ c.pairing = some id
  unsettled : ∀ id l address, c.linkOf id = some l → l.pairing = some (address, false) → c.pairing = some id
  alone : c.pairing.isSome → c.down = true
  timer : ∀ g, c.reconnectTimer = some g → g = c.generation ∧ c.socket = none
  connects : c.down = false → ∃ credentials, c.credentials = some credentials ∧ platform.connects credentials = true

/-- The step changes no link. -/
structure SameLinks (c c' : TrusharClient) : Prop where
  link : ∀ id, c'.linkOf id = c.linkOf id
  nextSocket : c'.nextSocket = c.nextSocket
  socket : c'.socket = c.socket
  pairing : c'.pairing = c.pairing
  credentials : c'.credentials = c.credentials
  generation : c'.generation = c.generation
  reconnectTimer : c'.reconnectTimer = c.reconnectTimer

namespace SameLinks
variable {c c' c'' : TrusharClient}

theorem of_sockets (hs : c'.sockets = c.sockets) (hn : c'.nextSocket = c.nextSocket) (h : c'.socket = c.socket)
    (hp : c'.pairing = c.pairing) (hc : c'.credentials = c.credentials) (hg : c'.generation = c.generation)
    (ht : c'.reconnectTimer = c.reconnectTimer) : SameLinks c c' :=
  ⟨fun id => by unfold linkOf; rw [hs], hn, h, hp, hc, hg, ht⟩

theorem refl (c : TrusharClient) : SameLinks c c := ⟨fun _ => rfl, rfl, rfl, rfl, rfl, rfl, rfl⟩

theorem trans (h : SameLinks c c') (h' : SameLinks c' c'') : SameLinks c c'' where
  link id := (h'.link id).trans (h.link id)
  nextSocket := h'.nextSocket.trans h.nextSocket
  socket := h'.socket.trans h.socket
  pairing := h'.pairing.trans h.pairing
  credentials := h'.credentials.trans h.credentials
  generation := h'.generation.trans h.generation
  reconnectTimer := h'.reconnectTimer.trans h.reconnectTimer

theorem down (h : SameLinks c c') : c'.down = c.down := by
  unfold TrusharClient.down
  rw [h.socket, h.reconnectTimer]

theorem updSocket (c : TrusharClient) (id : Nat) {f : Socket → Socket}
    (hf : ∀ s, c.sockets[id]? = some s → (f s).link = s.link) : SameLinks c (c.updSocket id f) := by
  refine ⟨fun k => ?_, rfl, rfl, rfl, rfl, rfl, rfl⟩
  show ((c.sockets.modify id f)[k]?).map Socket.link = (c.sockets[k]?).map Socket.link
  rw [ExtTreeMap.getElem?_modify_ite]
  split_ifs with hk
  · subst hk
    cases hs : c.sockets[id]? with
    | none => rfl
    | some s => simp [hf s hs]
  · rfl

theorem setStatus (c : TrusharClient) (state : ConnectionPhase) (title : String) (detail : Str) :
    SameLinks c (c.setStatus state title detail) := of_sockets rfl rfl rfl rfl rfl rfl rfl

theorem settle (c : TrusharClient) (id : Str) (command : PendingCommand) (outcome : Outcome) :
    SameLinks c (c.settle id command outcome) := of_sockets rfl rfl rfl rfl rfl rfl rfl

theorem rejectPending (c : TrusharClient) (error : CommandError) : SameLinks c (c.rejectPending error) :=
  of_sockets rfl rfl rfl rfl rfl rfl rfl

theorem stopHeartbeat (c : TrusharClient) : SameLinks c c.stopHeartbeat := of_sockets rfl rfl rfl rfl rfl rfl rfl

theorem scheduleHeartbeat (c : TrusharClient) (socket generation : Nat) :
    SameLinks c (c.scheduleHeartbeat socket generation) := of_sockets rfl rfl rfl rfl rfl rfl rfl

theorem request (c : TrusharClient) (command : Command) (now : Nat) : SameLinks c (c.request command now) := by
  unfold TrusharClient.request
  dsimp only
  split
  · exact of_sockets rfl rfl rfl rfl rfl rfl rfl
  · exact of_sockets rfl rfl rfl rfl rfl rfl rfl

theorem sendFailed (c : TrusharClient) (id : Str) : SameLinks c (c.sendFailed id) := by
  unfold TrusharClient.sendFailed
  cases c.pendingOf id with
  | none => exact refl c
  | some command => exact settle c id command _

theorem commandTimeout (c : TrusharClient) (handle : Nat) : SameLinks c (c.commandTimeout handle) := by
  unfold TrusharClient.commandTimeout
  cases c.timers.find? (·.handle = handle) with
  | none => exact refl c
  | some timer =>
    dsimp only
    split_ifs
    · refine trans ?_ (updSocket _ _ fun s _ => s.link_close)
      exact of_sockets rfl rfl rfl rfl rfl rfl rfl
    · exact of_sockets rfl rfl rfl rfl rfl rfl rfl

theorem handleMessage (c : TrusharClient) (message : ServerMessage) : SameLinks c (c.handleMessage message).1 := by
  cases message with
  | state state => exact of_sockets rfl rfl rfl rfl rfl rfl rfl
  | paired => exact refl c
  | result id result state =>
    unfold TrusharClient.handleMessage
    dsimp only
    cases c.pendingOf id with
    | none => exact refl c
    | some command =>
      dsimp only
      split_ifs
      · exact settle _ _ _ _
      · exact of_sockets rfl rfl rfl rfl rfl rfl rfl
  | error id error =>
    cases id with
    | none => exact refl c
    | some id =>
      unfold TrusharClient.handleMessage
      dsimp only
      split_ifs
      · exact refl c
      · cases c.pendingOf id with
        | none => exact refl c
        | some command => exact settle _ _ _ _

theorem heartbeat (c : TrusharClient) : SameLinks c c.heartbeat := by
  unfold TrusharClient.heartbeat
  split
  · exact refl c
  · dsimp only
    split_ifs
    · exact of_sockets rfl rfl rfl rfl rfl rfl rfl
    · exact of_sockets rfl rfl rfl rfl rfl rfl rfl

theorem pongTimeout (c : TrusharClient) : SameLinks c c.pongTimeout := by
  unfold TrusharClient.pongTimeout
  split
  · exact refl c
  · dsimp only
    split_ifs
    · exact of_sockets rfl rfl rfl rfl rfl rfl rfl
    · refine trans ?_ (updSocket _ _ fun s _ => s.link_close)
      exact of_sockets rfl rfl rfl rfl rfl rfl rfl

theorem protocolError (c : TrusharClient) (id : Nat) : SameLinks c (c.protocolError id) :=
  (((updSocket c id fun s _ => s.link_fail true).trans (stopHeartbeat _)).trans (rejectPending _ _)).trans
    ((setStatus _ _ _ _).trans (updSocket _ _ fun s _ => s.link_close))

end SameLinks

namespace Linked
variable {platform : Platform} {c c' : TrusharClient}

theorem same (h : Linked platform c) (hs : SameLinks c c') : Linked platform c' where
  fresh id hid := by rw [hs.link]; rw [hs.nextSocket] at hid; exact h.fresh id hid
  current id hid := by rw [hs.link, hs.generation]; rw [hs.socket] at hid; exact h.current id hid
  pairing id hid := by rw [hs.link, hs.generation]; rw [hs.pairing] at hid; exact h.pairing id hid
  heard id l hl := by rw [hs.socket, hs.pairing]; rw [hs.link] at hl; exact h.heard id l hl
  unsettled id l address hl := by rw [hs.pairing]; rw [hs.link] at hl; exact h.unsettled id l address hl
  alone := by rw [hs.pairing, hs.down]; exact h.alone
  timer := by rw [hs.reconnectTimer, hs.generation, hs.socket]; exact h.timer
  connects := by rw [hs.down, hs.credentials]; exact h.connects

theorem init : Linked platform {} where
  fresh id _ := rfl
  current id h := by cases h
  pairing id h := by cases h
  heard id l h := by cases h
  unsettled id l address h := by cases h
  alone h := by cases h
  timer g h := by cases h
  connects h := by cases h

theorem socket_of_pairing (h : Linked platform c) {id : Nat} (hp : c.pairing = some id) :
    c.socket = none ∧ c.reconnectTimer = none := by
  have hdown := h.alone (by rw [hp]; rfl)
  unfold TrusharClient.down at hdown
  simpa using hdown

theorem pairing_of_socket (h : Linked platform c) {id : Nat} (hs : c.socket = some id) : c.pairing = none := by
  cases hp : c.pairing with
  | none => rfl
  | some k => cases hs.symm.trans (h.socket_of_pairing hp).1

/-! ### The end of a pairing -/

/-- The socket of the pairing is settled and let go of. -/
structure Finished (c c' : TrusharClient) (id : Nat) : Prop where
  link : ∀ k, k ≠ id → c'.linkOf k = c.linkOf k
  dropped : ∀ l, c'.linkOf id = some l → l.live = false ∧ ∀ address, l.pairing ≠ some (address, false)
  nextSocket : c'.nextSocket = c.nextSocket
  socket : c'.socket = c.socket
  pairing : c'.pairing = none
  credentials : c'.credentials = c.credentials
  generation : c'.generation = c.generation
  reconnectTimer : c'.reconnectTimer = c.reconnectTimer

theorem finished (h : Linked platform c) {id : Nat} (hp : c.pairing = some id) (hf : Finished c c' id) :
    Linked platform c' := by
  have hdown : c'.down = c.down := by
    unfold TrusharClient.down
    rw [hf.socket, hf.reconnectTimer]
  have hsocket := (h.socket_of_pairing hp).1
  constructor
  case fresh =>
    intro k hk
    rw [hf.nextSocket] at hk
    have hne : k ≠ id := by
      rintro rfl
      obtain ⟨address, hl⟩ := h.pairing k hp
      rw [h.fresh k hk] at hl
      cases hl
    rw [hf.link k hne]
    exact h.fresh k hk
  case current =>
    intro k hk
    rw [hf.socket, hsocket] at hk
    cases hk
  case pairing =>
    intro k hk
    rw [hf.pairing] at hk
    cases hk
  case heard =>
    intro k l hl hlive
    by_cases hk : k = id
    · subst hk
      rw [(hf.dropped l hl).1] at hlive
      cases hlive
    · rw [hf.link k hk] at hl
      rcases h.heard k l hl hlive with hs | hs
      · rw [hsocket] at hs
        cases hs
      · rw [hp] at hs
        exact absurd (Option.some.inj hs).symm hk
  case unsettled =>
    intro k l address hl hu
    by_cases hk : k = id
    · subst hk
      exact absurd hu ((hf.dropped l hl).2 address)
    · rw [hf.link k hk] at hl
      have hs := h.unsettled k l address hl hu
      rw [hp] at hs
      exact absurd (Option.some.inj hs).symm hk
  case alone => intro hs; rw [hf.pairing] at hs; cases hs
  case timer => rw [hf.reconnectTimer, hf.generation, hf.socket]; exact h.timer
  case connects => rw [hdown, hf.credentials]; exact h.connects

theorem pairingSocket (h : Linked platform c) {id : Nat} (hp : c.pairing = some id) :
    ∃ address ready, c.sockets[id]? = some ⟨.pairing address false, c.generation, ready, true⟩ ∧ ready ≠ .closed := by
  obtain ⟨address, hl⟩ := h.pairing id hp
  obtain ⟨s, hs, hlink⟩ := Option.map_eq_some_iff.mp hl
  obtain ⟨kind, generation, ready, listening⟩ := s
  cases kind with
  | control credentials failure => cases hlink
  | pairing address' settled =>
    unfold Socket.link at hlink
    simp only [Link.mk.injEq, Option.some.injEq, Prod.mk.injEq, Bool.and_eq_true, decide_eq_true_eq] at hlink
    obtain ⟨⟨rfl, rfl⟩, rfl, rfl, hready⟩ := hlink
    exact ⟨_, _, hs, hready⟩

/-- The pairing in progress ends when it finishes, also in the turn that changes its ready state. -/
theorem finish (h : Linked platform c) {id : Nat} (hp : c.pairing = some id) {f : Socket → Socket}
    (hf : ∀ s, (f s).kind = s.kind) (result : Except PairingError Str) :
    ((c.updSocket id f).finish id result).2 = some (match result with
      | .ok [] => .error (.command ⟨"pairing_failed".toList, "Pairing failed.".toList⟩)
      | result => result) ∧
    Finished c ((c.updSocket id f).finish id result).1 id := by
  obtain ⟨address, ready, hs, -⟩ := h.pairingSocket hp
  have hs' : (c.updSocket id f).sockets[id]? = some (f ⟨.pairing address false, c.generation, ready, true⟩) := by
    show (c.sockets.modify id f)[id]? = _
    rw [ExtTreeMap.getElem?_modify_ite, if_pos rfl, hs, Option.map_some]
  have hkind := hf ⟨.pairing address false, c.generation, ready, true⟩
  generalize f ⟨.pairing address false, c.generation, ready, true⟩ = s at hs' hkind
  obtain ⟨kind, generation, ready', listening⟩ := s
  obtain rfl : kind = .pairing address false := hkind
  unfold TrusharClient.finish
  rw [hs']
  dsimp only
  refine ⟨rfl, ?_, ?_, rfl, rfl, if_pos hp, rfl, rfl, rfl⟩
  · intro k hk
    show (((c.sockets.modify id f).modify id _)[k]?).map Socket.link = (c.sockets[k]?).map Socket.link
    rw [ExtTreeMap.getElem?_modify_of_ne (Ne.symm hk), ExtTreeMap.getElem?_modify_of_ne (Ne.symm hk)]
  · intro l hl
    have hl' : (((c.updSocket id f).sockets.modify id fun _ =>
        Socket.abandon ⟨.pairing address true, generation, ready', listening⟩)[id]?).map Socket.link = some l := hl
    rw [ExtTreeMap.getElem?_modify_ite, if_pos rfl, hs', Option.map_some, Option.map_some] at hl'
    obtain rfl := Option.some.inj hl'
    rw [Socket.link_abandon]
    exact ⟨rfl, fun _ hu => by cases hu⟩

theorem finish_other (h : Linked platform c) {id : Nat} (hp : c.pairing ≠ some id)
    (result : Except PairingError Str) : c.finish id result = (c, none) := by
  unfold TrusharClient.finish
  split
  · rename_i address generation ready listening hs
    have hl : c.linkOf id = some (Socket.link ⟨.pairing address false, generation, ready, listening⟩) := by
      unfold linkOf
      rw [hs]
      rfl
    exact absurd (h.unsettled id _ address hl rfl) hp
  · rfl

theorem cancelPairing (h : Linked platform c) :
    Linked platform c.cancelPairing ∧ c.cancelPairing.pairing = none ∧ c.cancelPairing.credentials = c.credentials ∧
      c.cancelPairing.generation = c.generation := by
  cases hp : c.pairing with
  | none =>
    have heq : c.cancelPairing = c := by
      unfold TrusharClient.cancelPairing
      rw [hp]
    rw [heq]
    exact ⟨h, hp, rfl, rfl⟩
  | some id =>
    have heq : c.cancelPairing = (c.finish id (.error pairingCancelled)).1 := by
      obtain ⟨address, ready, hs, -⟩ := h.pairingSocket hp
      unfold TrusharClient.cancelPairing TrusharClient.finish
      rw [hp]
      dsimp only
      rw [hs]
      dsimp only
      rw [if_pos rfl, if_neg nofun]
    have hf := (h.finish hp (f := fun s => s) (fun _ => rfl) (.error pairingCancelled)).2
    rw [updSocket_id, ← heq] at hf
    exact ⟨h.finished hp hf, hf.pairing, hf.credentials, hf.generation⟩

/-! ### Restarts -/

/-- Nothing is held. -/
structure Blank (platform : Platform) (c : TrusharClient) : Prop where
  linked : Linked platform c
  pairing : c.pairing = none
  socket : c.socket = none
  reconnectTimer : c.reconnectTimer = none

theorem linkOf_closeSocket (c : TrusharClient) (k : Nat) :
    c.closeSocket.linkOf k =
      if c.socket = some k then (c.linkOf k).map fun l => { l with live := false } else c.linkOf k := by
  unfold TrusharClient.closeSocket
  cases hs : c.socket with
  | none => rfl
  | some id =>
    show ((c.sockets.modify id _)[k]?).map Socket.link = if _ then ((c.sockets[k]?).map Socket.link).map _ else _
    rw [ExtTreeMap.getElem?_modify_ite]
    by_cases hk : id = k
    · subst hk
      rw [if_pos rfl, if_pos rfl, Option.map_map, Option.map_map]
      congr 1
      funext s
      exact s.link_abandon
    · rw [if_neg hk, if_neg fun h => hk (Option.some.inj h)]
      rfl

theorem tearDown_credentials (c : TrusharClient) (error : CommandError) :
    (c.tearDown error).credentials = c.credentials := by
  show (c.cancelReconnect.stopHeartbeat.closeSocket).credentials = c.credentials
  unfold TrusharClient.closeSocket
  split <;> rfl

/-- A teardown leaves nothing behind, whatever generation and credentials the client moves on to. -/
theorem tearDown (h : Linked platform c) (hp : c.pairing = none) (generation : Nat)
    (credentials : Option ConnectionConfig) (error : CommandError) :
    Blank platform (({ c with generation, credentials }).tearDown error) := by
  have hlink (k : Nat) : (({ c with generation, credentials }).tearDown error).linkOf k =
      if c.socket = some k then (c.linkOf k).map fun l => { l with live := false } else c.linkOf k := by
    rw [← linkOf_closeSocket]
    unfold TrusharClient.tearDown TrusharClient.closeSocket
    cases hs : c.socket <;> rfl
  have hsocket : (({ c with generation, credentials }).tearDown error).socket = none := by
    unfold TrusharClient.tearDown TrusharClient.closeSocket
    cases c.socket <;> rfl
  have hrest : (({ c with generation, credentials }).tearDown error).nextSocket = c.nextSocket ∧
      (({ c with generation, credentials }).tearDown error).pairing = none ∧
      (({ c with generation, credentials }).tearDown error).reconnectTimer = none := by
    unfold TrusharClient.tearDown TrusharClient.closeSocket
    cases c.socket <;> exact ⟨rfl, hp, rfl⟩
  generalize ({ c with generation, credentials } : TrusharClient).tearDown error = c' at hlink hsocket hrest ⊢
  obtain ⟨hnext, hpairing, htimer⟩ := hrest
  refine ⟨?_, hpairing, hsocket, htimer⟩
  constructor
  case fresh =>
    intro k hk
    rw [hnext] at hk
    rw [hlink, h.fresh k hk]
    split_ifs <;> rfl
  case current => intro k hk; rw [hsocket] at hk; cases hk
  case pairing => intro k hk; rw [hpairing] at hk; cases hk
  case heard =>
    intro k l hl hlive
    rw [hlink] at hl
    split_ifs at hl with hk
    · obtain ⟨l', -, rfl⟩ := Option.map_eq_some_iff.mp hl
      cases hlive
    · rcases h.heard k l hl hlive with hs | hs
      · exact absurd hs hk
      · rw [hp] at hs
        cases hs
  case unsettled =>
    intro k l address hl hu
    rw [hlink] at hl
    have hs : c.pairing = some k := by
      split_ifs at hl with hk
      · obtain ⟨l', hl', rfl⟩ := Option.map_eq_some_iff.mp hl
        exact h.unsettled k l' address hl' hu
      · exact h.unsettled k l address hl hu
    rw [hp] at hs
    cases hs
  case alone => intro hs; rw [hpairing] at hs; cases hs
  case timer => intro g hg; rw [htimer] at hg; cases hg
  case connects =>
    intro hd
    unfold TrusharClient.down at hd
    rw [hsocket, htimer] at hd
    cases hd

theorem linkOf_newSocket (c : TrusharClient) (kind : SocketKind) (generation k : Nat) :
    (c.newSocket kind generation).linkOf k =
      if c.nextSocket = k then some (Socket.link ⟨kind, generation, .connecting, true⟩) else c.linkOf k := by
  show ((c.sockets.insert c.nextSocket _)[k]?).map Socket.link = _
  rw [ExtTreeMap.getElem?_insert_ite]
  split_ifs <;> rfl

/-- A blank client with one new socket. -/
structure Added (c c' : TrusharClient) (pairing : Option (Str × Bool)) : Prop where
  link : ∀ k, c'.linkOf k = if c.nextSocket = k then some ⟨pairing, c.generation, true⟩ else c.linkOf k
  nextSocket : c'.nextSocket = c.nextSocket + 1
  credentials : c'.credentials = c.credentials
  generation : c'.generation = c.generation
  reconnectTimer : c'.reconnectTimer = none

/-- The new socket is the control socket of credentials it can be made for, or that of a pairing. -/
theorem added (h : Blank platform c) {pairing : Option (Str × Bool)} (ha : Added c c' pairing)
    (hrole : c'.socket = some c.nextSocket ∧ c'.pairing = none ∧ pairing = none ∧
        (∃ credentials, c.credentials = some credentials ∧ platform.connects credentials = true) ∨
      c'.socket = none ∧ c'.pairing = some c.nextSocket ∧ ∃ address, pairing = some (address, false)) :
    Linked platform c' := by
  have hnew : c'.linkOf c.nextSocket = some ⟨pairing, c.generation, true⟩ := by rw [ha.link, if_pos rfl]
  constructor
  case fresh =>
    intro k hk
    rw [ha.nextSocket] at hk
    rw [ha.link, if_neg (by omega)]
    exact h.linked.fresh k (by omega)
  case current =>
    intro k hk
    rcases hrole with ⟨hs, -, rfl, -⟩ | ⟨hs, -⟩
    · rw [hs] at hk
      obtain rfl := Option.some.inj hk
      rw [hnew, ha.generation]
    · rw [hs] at hk
      cases hk
  case pairing =>
    intro k hk
    rcases hrole with ⟨-, hp, -⟩ | ⟨-, hp, address, rfl⟩
    · rw [hp] at hk
      cases hk
    · rw [hp] at hk
      obtain rfl := Option.some.inj hk
      exact ⟨address, by rw [hnew, ha.generation]⟩
  case heard =>
    intro k l hl hlive
    rw [ha.link] at hl
    split_ifs at hl with hk
    · rcases hrole with ⟨hs, -⟩ | ⟨-, hp, -⟩
      · exact .inl (hs.trans (congrArg some hk))
      · exact .inr (hp.trans (congrArg some hk))
    · have hheard := h.linked.heard k l hl hlive
      rw [h.socket, h.pairing] at hheard
      simp at hheard
  case unsettled =>
    intro k l address hl hu
    rw [ha.link] at hl
    split_ifs at hl with hk
    · obtain rfl := Option.some.inj hl
      rcases hrole with ⟨-, -, rfl, -⟩ | ⟨-, hp, -⟩
      · cases hu
      · exact hp.trans (congrArg some hk)
    · have hpairing := h.linked.unsettled k l address hl hu
      rw [h.pairing] at hpairing
      cases hpairing
  case alone =>
    intro hp
    rcases hrole with ⟨-, hn, -⟩ | ⟨hs, -⟩
    · rw [hn] at hp
      cases hp
    · unfold TrusharClient.down
      rw [hs, ha.reconnectTimer]
      rfl
  case timer => intro g hg; rw [ha.reconnectTimer] at hg; cases hg
  case connects =>
    intro hd
    rcases hrole with ⟨-, -, -, hc⟩ | ⟨hs, -⟩
    · rw [ha.credentials]
      exact hc
    · unfold TrusharClient.down at hd
      rw [hs, ha.reconnectTimer] at hd
      cases hd

theorem Blank.same (h : Blank platform c) (hs : SameLinks c c') : Blank platform c' :=
  ⟨h.linked.same hs, hs.pairing.trans h.pairing, hs.socket.trans h.socket, hs.reconnectTimer.trans h.reconnectTimer⟩

theorem Blank.down (h : Blank platform c) : c.down = true := by
  unfold TrusharClient.down
  rw [h.socket, h.reconnectTimer]
  rfl

/-- What a restart leaves: a control socket for the credentials, unless its constructor throws. -/
structure Restarted (platform : Platform) (c : TrusharClient) (next : Option ConnectionConfig) : Prop where
  linked : Linked platform c
  pairing : c.pairing = none
  credentials : c.credentials = next
  down : c.down = !next.any platform.connects

theorem connect (h : Blank platform c) {credentials : ConnectionConfig} (hc : c.credentials = some credentials)
    (reconnecting : Bool) :
    Restarted platform (c.connect platform c.generation reconnecting) (some credentials) := by
  unfold TrusharClient.connect
  rw [hc]
  dsimp only
  rw [if_neg (by simp)]
  generalize hset : c.setStatus _ _ _ = c₁
  have hs : SameLinks c c₁ := hset ▸ SameLinks.setStatus c _ _ _
  have hb := h.same hs
  cases hconnects : platform.connects credentials with
  | false =>
    rw [if_neg Bool.false_ne_true]
    exact ⟨hb.linked, hb.pairing, hs.credentials.trans hc, hb.down.trans (by simp [hconnects])⟩
  | true =>
    rw [if_pos rfl]
    have ha : Added c₁ { c₁.newSocket (.control credentials false) c.generation with socket := some c₁.nextSocket }
        none := by
      refine ⟨fun k => ?_, rfl, rfl, rfl, hb.reconnectTimer⟩
      rw [hs.generation]
      exact linkOf_newSocket c₁ _ _ k
    refine ⟨added hb ha (.inl ⟨rfl, hb.pairing, rfl, credentials, hs.credentials.trans hc, hconnects⟩), hb.pairing,
      hs.credentials.trans hc, ?_⟩
    simp [hconnects, TrusharClient.down]

theorem adopt (h : Linked platform c) {next : Option ConnectionConfig} (hne : c.credentials ≠ next) :
    Restarted platform (c.adopt platform next) next := by
  obtain ⟨hl, hp, -, -⟩ := h.cancelPairing
  have hb := hl.tearDown hp (c.cancelPairing.generation + 1) next (connectionClosed "Stonemite connection changed.")
  unfold TrusharClient.adopt
  rw [if_neg hne]
  dsimp only
  have hcred : (({ c.cancelPairing with generation := c.cancelPairing.generation + 1, credentials := next } :
      TrusharClient).tearDown (connectionClosed "Stonemite connection changed.")).credentials = next :=
    tearDown_credentials _ _
  generalize ({ c.cancelPairing with generation := c.cancelPairing.generation + 1, credentials := next } :
    TrusharClient).tearDown (connectionClosed "Stonemite connection changed.") = b at hb hcred ⊢
  have hb' : Blank platform { b with reconnectAttempt := 0 } := hb.same (.of_sockets rfl rfl rfl rfl rfl rfl rfl)
  cases next with
  | none => exact ⟨hb'.linked.same (.setStatus _ _ _ _), hb.pairing, hcred, hb.down⟩
  | some credentials => exact connect hb' hcred false

/-- A reconnect restarts the client with the credentials it has, if any. -/
theorem reconnect (h : Linked platform c) : Restarted platform (c.reconnect platform) c.credentials := by
  obtain ⟨hl, hp, hcred, -⟩ := h.cancelPairing
  unfold TrusharClient.reconnect
  dsimp only
  cases hc : c.credentials with
  | none =>
    rw [if_pos (by rw [hcred, hc]; rfl)]
    have hdown : c.cancelPairing.down = true := by
      by_contra hd
      obtain ⟨credentials, hsome, -⟩ := hl.connects (by simpa using hd)
      rw [hcred, hc] at hsome
      cases hsome
    exact ⟨hl.same (.setStatus _ _ _ _), hp, hcred.trans hc, hdown⟩
  | some credentials =>
    rw [if_neg (by rw [hcred, hc]; exact Bool.false_ne_true)]
    have hb := hl.tearDown hp (c.cancelPairing.generation + 1) c.cancelPairing.credentials
      (connectionClosed "Stonemite reconnect interrupted the command.")
    have hcred' : (({ c.cancelPairing with generation := c.cancelPairing.generation + 1 } : TrusharClient).tearDown
        (connectionClosed "Stonemite reconnect interrupted the command.")).credentials = some credentials :=
      (tearDown_credentials _ _).trans (hcred.trans hc)
    generalize ({ c.cancelPairing with generation := c.cancelPairing.generation + 1 } : TrusharClient).tearDown
      (connectionClosed "Stonemite reconnect interrupted the command.") = b at hb hcred' ⊢
    have hb' : Blank platform { b with reconnectAttempt := 0 } := hb.same (.of_sockets rfl rfl rfl rfl rfl rfl rfl)
    exact connect hb' hcred' false

theorem pair (h : Linked platform c) (addressInput code : Str) :
    c.pair platform addressInput code = c ∨
      Linked platform (c.pair platform addressInput code) ∧ (c.pair platform addressInput code).pairing.isSome := by
  unfold TrusharClient.pair
  split_ifs
  · exact .inl rfl
  · cases normalizeAddress platform addressInput with
    | error => exact .inl rfl
    | ok address =>
      refine .inr ?_
      obtain ⟨hl, hp, -, -⟩ := h.cancelPairing
      have hb := hl.tearDown hp (c.cancelPairing.generation + 1) c.cancelPairing.credentials
        (connectionClosed "Pairing started.")
      dsimp only
      generalize ({ c.cancelPairing with generation := c.cancelPairing.generation + 1 } : TrusharClient).tearDown
        (connectionClosed "Pairing started.") = b at hb ⊢
      generalize hset : b.setStatus _ _ _ = b₁
      have hb₁ : Blank platform b₁ := hb.same (hset ▸ SameLinks.setStatus b _ _ _)
      have ha : Added b₁ { b₁.newSocket (.pairing address false) b₁.generation with pairing := some b₁.nextSocket }
          (some (address, false)) :=
        ⟨linkOf_newSocket b₁ _ _, rfl, rfl, rfl, hb₁.reconnectTimer⟩
      exact ⟨added hb₁ ha (.inr ⟨hb₁.socket, rfl, address, rfl⟩), rfl⟩

/-! ### Events of the sockets -/

/-- An event of the sockets that a listener hears: the current control socket, or the pairing in progress. -/
structure Heard (c : TrusharClient) (id : Nat) (may : ReadyState → Bool) (s : Socket) : Prop where
  socket : c.sockets[id]? = some s
  may : may s.ready = true
  listening : s.listening = true
  generation : s.generation = c.generation
  role : (c.socket = some id ∧ ∃ credentials failure, s.kind = .control credentials failure) ∨
    (c.pairing = some id ∧ ∃ address, s.kind = .pairing address false)

theorem Heard.hearing {id : Nat} {may : ReadyState → Bool} {s : Socket} (h : Heard c id may s) :
    c.hearing id may = some s := by
  unfold TrusharClient.hearing
  rw [h.socket, Option.filter_some, h.may, h.listening]
  rfl

/-- What is held hears every event that may happen before it closes. -/
theorem hearing_isSome (h : Linked platform c) {id : Nat} (may : ReadyState → Bool)
    (hmay : ∀ ready, ready ≠ .closed → may ready = true) (hid : c.socket = some id ∨ c.pairing = some id) :
    (c.hearing id may).isSome := by
  have hlive : ∃ l, c.linkOf id = some l ∧ l.live = true := by
    rcases hid with hs | hp
    · exact ⟨_, h.current id hs, rfl⟩
    · obtain ⟨address, hl⟩ := h.pairing id hp
      exact ⟨_, hl, rfl⟩
  obtain ⟨l, hl, hlive⟩ := hlive
  obtain ⟨s, hs, rfl⟩ := Option.map_eq_some_iff.mp hl
  unfold Socket.link at hlive
  simp only [Bool.and_eq_true, decide_eq_true_eq] at hlive
  unfold TrusharClient.hearing
  rw [hs, Option.filter_some, hmay _ hlive.2, hlive.1]
  rfl

theorem emit (h : Linked platform c) (id : Nat) (may : ReadyState → Bool) {f : Socket → Socket}
    {listener : TrusharClient → Socket → TrusharClient} (hmay : ∀ ready, may ready = true → ready ≠ .closed)
    (hf : ∀ s, (f s).kind = s.kind ∧ (f s).generation = s.generation ∧ (f s).listening = s.listening) :
    (SameLinks c (c.emit id may f listener) ∧ c.hearing id may = none) ∨
      ∃ s, Heard c id may s ∧ c.emit id may f listener = listener (c.updSocket id f) s := by
  unfold TrusharClient.emit TrusharClient.hearing
  cases hs : c.sockets[id]? with
  | none => exact .inl ⟨.refl c, rfl⟩
  | some s =>
    dsimp only
    rw [Option.filter_some]
    cases hm : may s.ready with
    | false => exact .inl ⟨.refl c, rfl⟩
    | true =>
      rw [if_pos rfl]
      cases hlisten : s.listening with
      | false =>
        refine .inl ⟨.updSocket c id fun s' hs' => ?_, rfl⟩
        obtain rfl := Option.some.inj (hs.symm.trans hs')
        obtain ⟨hkind, hgen, hl⟩ := hf s
        unfold Socket.link
        rw [hkind, hgen, hl, hlisten]
        rfl
      | true =>
        refine .inr ⟨s, ?_, rfl⟩
        have hlink : c.linkOf id = some s.link := by
          unfold linkOf
          rw [hs]
          rfl
        have hlive : s.link.live = true := by
          unfold Socket.link
          simp [hlisten, hmay s.ready hm]
        rcases h.heard id s.link hlink hlive with hc | hp
        · have hcur := h.current id hc
          rw [hlink] at hcur
          have heq := Option.some.inj hcur
          have hgen : s.generation = c.generation := congrArg Link.generation heq
          have hpairing : s.link.pairing = none := congrArg Link.pairing heq
          refine ⟨hs, hm, hlisten, hgen, .inl ⟨hc, ?_⟩⟩
          unfold Socket.link at hpairing
          cases hk : s.kind with
          | control credentials failure => exact ⟨credentials, failure, rfl⟩
          | pairing address settled => rw [hk] at hpairing; cases hpairing
        · obtain ⟨address, ready, hs', -⟩ := h.pairingSocket hp
          obtain rfl := Option.some.inj (hs.symm.trans hs')
          exact ⟨hs, hm, hlisten, rfl, .inr ⟨hp, address, rfl⟩⟩

/-- A pairing that fails only ends; one that succeeds is followed by `configure`. -/
theorem endPairing (h : Linked platform c) {id : Nat} (hp : c.pairing = some id) {f : Socket → Socket}
    (hf : ∀ s, (f s).kind = s.kind) {s : Socket} {address : Str} (hk : s.kind = .pairing address false)
    (hg : s.generation = c.generation) (result : Except PairingError Str) :
    ∃ c', Finished c c' id ∧ (c.updSocket id f).endPairing platform id s result = match result with
      | .ok (ch :: token) => c'.configure platform (some { address, authToken := some (ch :: token) })
      | _ => c' := by
  obtain ⟨hresult, hfin⟩ := h.finish hp hf result
  refine ⟨_, hfin, ?_⟩
  unfold TrusharClient.endPairing
  generalize (c.updSocket id f).finish id result = r at hresult hfin ⊢
  obtain ⟨c', ended⟩ := r
  dsimp only at hresult hfin ⊢
  rw [hresult, hk]
  cases result with
  | error => rfl
  | ok token =>
    cases token with
    | nil => rfl
    | cons ch token =>
      dsimp only
      rw [if_neg]
      rw [hfin.generation, hg]
      simp

/-- The control socket closed: a reconnect is scheduled, unless the failure was terminal. -/
theorem closed (h : Linked platform c) {id : Nat} (hs : c.socket = some id)
    (hlink : ∀ k, k ≠ id → c'.linkOf k = c.linkOf k)
    (hclosed : ∀ l, c'.linkOf id = some l → l.live = false ∧ l.pairing = none) (hnext : c'.nextSocket = c.nextSocket)
    (hsocket : c'.socket = none) (hpairing : c'.pairing = c.pairing) (hcred : c'.credentials = c.credentials)
    (hgen : c'.generation = c.generation)
    (htimer : c'.reconnectTimer = none ∨ c'.reconnectTimer = some c.generation) :
    Linked platform c' ∧ c'.pairing = none := by
  have hup : c.down = false := by
    unfold TrusharClient.down
    rw [hs]
    rfl
  have hnone := h.pairing_of_socket hs
  refine ⟨?_, hpairing.trans hnone⟩
  constructor
  case fresh =>
    intro k hk
    rw [hnext] at hk
    have hne : k ≠ id := by
      rintro rfl
      have hcur := h.current k hs
      rw [h.fresh k hk] at hcur
      cases hcur
    rw [hlink k hne]
    exact h.fresh k hk
  case current => intro k hk; rw [hsocket] at hk; cases hk
  case pairing => intro k hk; rw [hpairing, hnone] at hk; cases hk
  case heard =>
    intro k l hl hlive
    by_cases hk : k = id
    · subst hk
      rw [(hclosed l hl).1] at hlive
      cases hlive
    · rw [hlink k hk] at hl
      rcases h.heard k l hl hlive with hcur | hp
      · rw [hs] at hcur
        exact absurd (Option.some.inj hcur).symm hk
      · rw [hnone] at hp
        cases hp
  case unsettled =>
    intro k l address hl hu
    by_cases hk : k = id
    · subst hk
      rw [(hclosed l hl).2] at hu
      cases hu
    · rw [hlink k hk] at hl
      rw [hpairing]
      exact h.unsettled k l address hl hu
  case alone => intro hp; rw [hpairing, hnone] at hp; cases hp
  case timer =>
    intro g hg
    rcases htimer with ht | ht
    · rw [ht] at hg
      cases hg
    · rw [ht] at hg
      rw [hgen]
      exact ⟨(Option.some.inj hg).symm, hsocket⟩
  case connects => rw [hcred]; exact fun _ => h.connects hup

end Linked

end TrusharClient
end Stonemite.Streamdeck
