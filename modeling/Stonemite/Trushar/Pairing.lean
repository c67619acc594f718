import Stonemite.Lib.Text
import Stonemite.Lib.Run

/-!
# Pairing with the control server

A pairing session gives its token away for a six-digit code. Every operation takes the lock, so a run is a list of
operations, each at its time. `Opened` says what the open session owes to the run so far: the call that began it, and
that nothing since has closed it. `PairingRun.Ok` is kept by each call, and `disclosed_only_to_code` reads it at an
attempt that succeeds.
-/

namespace Stonemite.Trushar

/-- A monotonic instant, in nanoseconds. -/
abbrev Instant := Nat

/-- Five minutes. -/
def pairingCodeTtl : Nat := 5 * 60 * 10 ^ 9

def maxPairingAttempts : Nat := 5

/-! ### Codes -/

/-- `{code:06}`. -/
def formatCode (code : Nat) : Str := List.replicate (6 - (Str.decimal code).length) '0' ++ Str.decimal code

/-- `constant_time_eq`: the differences of all bytes and of the lengths are collected, and none ends the loop. -/
def constantTimeEq (actual expected : Str) : Bool :=
  let difference := (List.range (max actual.bytes.length expected.bytes.length)).foldl
    (fun difference index =>
      difference ||| (actual.bytes.getD index 0 ^^^ expected.bytes.getD index 0).toNat)
    (actual.bytes.length ^^^ expected.bytes.length)
  difference == 0

theorem foldl_or_eq_zero {α : Type} (f : α → Nat) (l : List α) (n : Nat) :
    l.foldl (fun difference a => difference ||| f a) n = 0 ↔ n = 0 ∧ ∀ a ∈ l, f a = 0 := by
  induction l generalizing n with
  | nil => simp
  | cons a l ih =>
    rw [List.foldl_cons, ih, Nat.or_eq_zero_iff, List.forall_mem_cons, and_assoc]

theorem bytes_injective {a b : Str} (h : a.bytes = b.bytes) : a = b := by
  have hencode : List.utf8Encode a = List.utf8Encode b := congrArg List.toByteArray h
  have hdecode := congrArg ByteArray.utf8Decode? hencode
  rw [List.utf8Decode?_utf8Encode, List.utf8Decode?_utf8Encode] at hdecode
  exact congrArg Array.toList (Option.some.inj hdecode)

theorem constantTimeEq_iff {actual expected : Str} : constantTimeEq actual expected = true ↔ actual = expected := by
  rw [constantTimeEq, beq_iff_eq, foldl_or_eq_zero, Nat.xor_eq_zero_iff]
  constructor
  · rintro ⟨hlen, hbytes⟩
    refine bytes_injective (List.ext_getElem hlen fun i hi hi' => ?_)
    have hi'' := hbytes i (List.mem_range.mpr (by omega))
    rw [List.getD_eq_getElem _ _ hi, List.getD_eq_getElem _ _ hi', ← UInt8.toNat_zero, UInt8.toNat_inj] at hi''
    exact UInt8.xor_eq_zero_iff.mp hi''
  · rintro rfl
    refine ⟨rfl, fun i _ => ?_⟩
    rw [UInt8.xor_self]
    rfl

/-! ### The state -/

/-- The open session, with its code and the attempts so far. -/
structure PairingSession where
  id : Nat
  code : Str
  authToken : Str
  expiresAt : Instant
  failedAttempts : Nat
deriving DecidableEq, Repr

/-- The state behind the pairing mutex. -/
structure PairingState where
  nextSessionId : Nat
  session : Option PairingSession
deriving DecidableEq, Repr

def PairingState.default : PairingState := ⟨0, none⟩

inductive PairingAttempt
  | paired (authToken : Str)
  | failed
deriving DecidableEq, Repr

namespace PairingState

/-- A session begins under the next number, in place of the open one. -/
def beginUntil (state : PairingState) (code : Nat) (authToken : Str) (expiresAt : Instant) : PairingState :=
  -- `wrapping_add(1).max(1)` of a `u64`
  let id := max ((state.nextSessionId + 1) % 2 ^ 64) 1
  ⟨id, some ⟨id, formatCode code, authToken, expiresAt, 0⟩⟩

/-- The code and the token with which a session can begin. -/
def Acceptable (code : Nat) (authToken : Str) : Prop := code ≤ 999999 ∧ authToken.trim.isEmpty = false

instance (code : Nat) (authToken : Str) : Decidable (Acceptable code authToken) := inferInstanceAs (Decidable (_ ∧ _))

/-- `begin`, which checks the code and the token. -/
def begin (state : PairingState) (code : Nat) (authToken : Str) (now : Instant) : PairingState :=
  if code > 999999 ∨ authToken.trim.isEmpty = true then state
  else state.beginUntil code authToken (now + pairingCodeTtl)

def cancel (state : PairingState) : PairingState := { state with session := none }

/-- The id of the open session; an expired one is closed. -/
def sessionId (state : PairingState) (now : Instant) : PairingState × Option Nat :=
  let state := if state.session.any fun session => now ≥ session.expiresAt then { state with session := none } else state
  (state, state.session.map (·.id))

/-- `attempt`: only an open session that has not ended compares the code, and it ends with the last failure. -/
def attempt (state : PairingState) (sessionId : Nat) (suppliedCode : Str) (now : Instant) :
    PairingState × PairingAttempt :=
  match state.session with
  | none => (state, .failed)
  | some session =>
    if now ≥ session.expiresAt then ({ state with session := none }, .failed)
    else if session.id ≠ sessionId then (state, .failed)
    else if !constantTimeEq suppliedCode session.code then
      -- `saturating_add(1)` of a `u8`
      let session := { session with failedAttempts := min (session.failedAttempts + 1) 255 }
      if session.failedAttempts ≥ maxPairingAttempts then ({ state with session := none }, .failed)
      else ({ state with session := some session }, .failed)
    else ({ state with session := none }, .paired session.authToken)

end PairingState

/-! ### Runs -/

/-- An operation on the handle, with the time at which it reads the clock. -/
inductive PairingCall
  | begin (code : Nat) (authToken : Str) (now : Instant)
  | cancel
  | sessionId (now : Instant)
  | attempt (sessionId : Nat) (suppliedCode : Str) (now : Instant)
deriving DecidableEq, Repr

/-- The calls so far, each with the token it disclosed. -/
abbrev PairingLog := List (PairingCall × Option Str)

/-- The state and the calls with their answers so far. -/
abbrev PairingRun := PairingState × PairingLog

def PairingRun.start : PairingRun := (.default, [])

/-- The token that an answer carries. -/
def PairingAttempt.disclosed : PairingAttempt → Option Str
  | paired authToken => some authToken
  | failed => none

/-- One call on the state, with its answer in the log. -/
def PairingRun.call (r : PairingRun) (c : PairingCall) : PairingRun :=
  match c with
  | .begin code authToken now => (r.1.begin code authToken now, r.2 ++ [(c, none)])
  | .cancel => (r.1.cancel, r.2 ++ [(c, none)])
  | .sessionId now => ((r.1.sessionId now).1, r.2 ++ [(c, none)])
  | .attempt sessionId suppliedCode now =>
    let (state, attempt) := r.1.attempt sessionId suppliedCode now
    (state, r.2 ++ [(c, attempt.disclosed)])

/-- The call begins a session. -/
def PairingCall.begins : PairingCall → Bool
  | .begin code authToken _ => PairingState.Acceptable code authToken
  | _ => false

/-- The id of the `n`-th session. -/
def sessionNumber (n : Nat) : Nat := (fun id => max ((id + 1) % 2 ^ 64) 1)^[n] 0

/-- The call is a failure of the session: an attempt under its id with another code. -/
def PairingSession.failure (session : PairingSession) : PairingCall → Bool
  | .attempt sessionId suppliedCode _ => sessionId = session.id ∧ suppliedCode ≠ session.code
  | _ => false

/-- The call does not close the session: no other session begins, it is not cancelled, it has not expired and
nothing is disclosed. -/
def PairingSession.Keeps (session : PairingSession) (e : PairingCall × Option Str) : Prop :=
  e.2 = none ∧ match e.1 with
    | .begin code authToken _ => ¬ PairingState.Acceptable code authToken
    | .cancel => False
    | .sessionId now | .attempt _ _ now => now < session.expiresAt

/-- The session was begun by a call of the log, and no call since has closed it. -/
def PairingSession.Opened (log : PairingLog) (session : PairingSession) : Prop :=
  ∃ before code now since, log = before ++ (.begin code session.authToken now, none) :: since ∧
    PairingState.Acceptable code session.authToken ∧ session.code = formatCode code ∧
    session.expiresAt = now + pairingCodeTtl ∧ session.id = sessionNumber (before.countP (·.1.begins) + 1) ∧
    session.failedAttempts = since.countP (fun e => session.failure e.1) ∧ ∀ e ∈ since, session.Keeps e

/-- The invariant: the sessions are numbered by the begins, and the open one is accounted for by the log. -/
structure PairingRun.Ok (r : PairingRun) : Prop where
  number : r.1.nextSessionId = sessionNumber (r.2.countP (·.1.begins))
  opened : ∀ session, r.1.session = some session → session.Opened r.2
  attempts : ∀ session, r.1.session = some session → session.failedAttempts < maxPairingAttempts

namespace PairingSession.Opened
variable {log : PairingLog} {session : PairingSession}

theorem keep (h : session.Opened log) {e : PairingCall × Option Str} (hkeeps : session.Keeps e)
    (hfailure : session.failure e.1 = false) : session.Opened (log ++ [e]) := by
  obtain ⟨before, code, now, since, rfl, haccept, hcode, hexpires, hid, hattempts, hall⟩ := h
  refine ⟨before, code, now, since ++ [e], by simp, haccept, hcode, hexpires, hid, ?_, fun e' he' => ?_⟩
  · rw [hattempts, List.countP_append, List.countP_singleton, hfailure]
    rfl
  · rcases List.mem_append.mp he' with he' | he'
    · exact hall e' he'
    · exact List.mem_singleton.mp he' ▸ hkeeps

theorem fail (h : session.Opened log) {e : PairingCall × Option Str} (hkeeps : session.Keeps e)
    (hfailure : session.failure e.1 = true) :
    { session with failedAttempts := session.failedAttempts + 1 }.Opened (log ++ [e]) := by
  obtain ⟨before, code, now, since, rfl, haccept, hcode, hexpires, hid, hattempts, hall⟩ := h
  refine ⟨before, code, now, since ++ [e], by simp, haccept, hcode, hexpires, hid, ?_, fun e' he' => ?_⟩
  · have hcount : (since ++ [e]).countP (fun e => session.failure e.1) = session.failedAttempts + 1 := by
      rw [hattempts, List.countP_append, List.countP_singleton, hfailure]
      rfl
    exact hcount.symm
  · rcases List.mem_append.mp he' with he' | he'
    · exact hall e' he'
    · exact List.mem_singleton.mp he' ▸ hkeeps

end PairingSession.Opened

theorem sessionNumber_succ (n : Nat) : sessionNumber (n + 1) = max ((sessionNumber n + 1) % 2 ^ 64) 1 :=
  Function.iterate_succ_apply' _ _ _

namespace PairingRun.Ok
variable {r : PairingRun}

theorem number_of_not_begins (h : r.Ok) {e : PairingCall × Option Str} (hbegins : e.1.begins = false) :
    r.1.nextSessionId = sessionNumber ((r.2 ++ [e]).countP (·.1.begins)) := by
  rw [List.countP_append, List.countP_singleton, hbegins]
  exact h.number

theorem begin (h : r.Ok) (code : Nat) (authToken : Str) (now : Instant) : (r.call (.begin code authToken now)).Ok := by
  by_cases haccept : PairingState.Acceptable code authToken
  · have hstate : r.1.begin code authToken now = r.1.beginUntil code authToken (now + pairingCodeTtl) := by
      refine if_neg ?_
      rintro (hcode | htoken)
      · exact absurd haccept.1 (by omega)
      · rw [haccept.2] at htoken
        cases htoken
    have hbegins : (PairingCall.begin code authToken now).begins = true := decide_eq_true haccept
    have hnumber : max ((r.1.nextSessionId + 1) % 2 ^ 64) 1 = sessionNumber (r.2.countP (·.1.begins) + 1) := by
      rw [sessionNumber_succ, h.number]
    refine ⟨?_, fun session hsession => ?_, fun session hsession => ?_⟩
    · dsimp only [call]
      rw [hstate, List.countP_append, List.countP_singleton, hbegins]
      exact hnumber
    · dsimp only [call] at hsession ⊢
      rw [hstate] at hsession
      cases hsession
      exact ⟨r.2, code, now, [], rfl, haccept, rfl, rfl, hnumber, rfl, nofun⟩
    · dsimp only [call] at hsession
      rw [hstate] at hsession
      cases hsession
      exact Nat.zero_lt_succ 4
  · have hstate : r.1.begin code authToken now = r.1 := by
      refine if_pos ?_
      by_contra hnot
      rw [not_or, Bool.not_eq_true] at hnot
      exact haccept ⟨by omega, hnot.2⟩
    have hbegins : (PairingCall.begin code authToken now).begins = false := decide_eq_false haccept
    refine ⟨?_, fun session hsession => ?_, fun session hsession => ?_⟩
    · dsimp only [call]
      rw [hstate]
      exact h.number_of_not_begins hbegins
    · dsimp only [call] at hsession ⊢
      rw [hstate] at hsession
      exact (h.opened session hsession).keep ⟨rfl, haccept⟩ rfl
    · dsimp only [call] at hsession
      rw [hstate] at hsession
      exact h.attempts session hsession

theorem cancel (h : r.Ok) : (r.call .cancel).Ok :=
  ⟨h.number_of_not_begins rfl, nofun, nofun⟩

theorem sessionId (h : r.Ok) (now : Instant) : (r.call (.sessionId now)).Ok := by
  by_cases hexpired : (r.1.session.any fun session => now ≥ session.expiresAt) = true
  · have hstate : (r.1.sessionId now).1 = { r.1 with session := none } := if_pos hexpired
    refine ⟨?_, fun session hsession => ?_, fun session hsession => ?_⟩
    · dsimp only [call]
      rw [hstate]
      exact h.number_of_not_begins rfl
    all_goals
      dsimp only [call] at hsession
      rw [hstate] at hsession
      cases hsession
  · have hstate : (r.1.sessionId now).1 = r.1 := if_neg hexpired
    refine ⟨?_, fun session hsession => ?_, fun session hsession => ?_⟩
    · dsimp only [call]
      rw [hstate]
      exact h.number_of_not_begins rfl
    · dsimp only [call] at hsession ⊢
      rw [hstate] at hsession
      have hbefore : now < session.expiresAt := by
        rw [hsession] at hexpired
        simpa using hexpired
      exact (h.opened session hsession).keep ⟨rfl, hbefore⟩ rfl
    · dsimp only [call] at hsession
      rw [hstate] at hsession
      exact h.attempts session hsession

theorem attempt (h : r.Ok) (sessionId : Nat) (suppliedCode : Str) (now : Instant) :
    (r.call (.attempt sessionId suppliedCode now)).Ok := by
  -- what is left to show when the session stays, or none is left
  have hclosed (e : PairingCall × Option Str) (hbegins : e.1.begins = false) :
      PairingRun.Ok ({ r.1 with session := none }, r.2 ++ [e]) :=
    ⟨h.number_of_not_begins hbegins, nofun, nofun⟩
  dsimp only [call]
  unfold PairingState.attempt
  cases hsession : r.1.session with
  | none =>
    refine ⟨h.number_of_not_begins rfl, fun session hsome => ?_, fun session hsome => ?_⟩
    all_goals
      rw [hsession] at hsome
      cases hsome
  | some session =>
    dsimp only
    split
    · exact hclosed _ rfl
    · rename_i hbefore
      have hbefore : now < session.expiresAt := Nat.lt_of_not_le hbefore
      have hopened := h.opened session hsession
      split
      · rename_i hid
        refine ⟨h.number_of_not_begins rfl, fun session' hsome => ?_, fun session' hsome => ?_⟩
        all_goals obtain rfl : session = session' := Option.some.inj (hsession.symm.trans hsome)
        · have hfailure : session.failure (.attempt sessionId suppliedCode now) = false :=
            decide_eq_false fun hand => hid hand.1.symm
          exact hopened.keep ⟨rfl, hbefore⟩ hfailure
        · exact h.attempts session hsession
      · rename_i hid
        split
        · rename_i hcode
          have hcode : suppliedCode ≠ session.code := by
            rintro rfl
            rw [constantTimeEq_iff.mpr rfl] at hcode
            cases hcode
          have hfailure : session.failure (.attempt sessionId suppliedCode now) = true :=
            decide_eq_true ⟨(not_not.mp hid).symm, hcode⟩
          have hfew := h.attempts session hsession
          have hmin : min (session.failedAttempts + 1) 255 = session.failedAttempts + 1 := by
            rw [maxPairingAttempts] at hfew
            omega
          rw [hmin]
          split
          · exact hclosed _ rfl
          · rename_i hleft
            refine ⟨h.number_of_not_begins rfl, fun session' hsome => ?_, fun session' hsome => ?_⟩
            all_goals cases hsome
            · exact hopened.fail ⟨rfl, hbefore⟩ hfailure
            · exact Nat.lt_of_not_le hleft
        · exact hclosed _ rfl

theorem call (h : r.Ok) (c : PairingCall) : (r.call c).Ok := by
  cases c with
  | begin code authToken now => exact h.begin code authToken now
  | cancel => exact h.cancel
  | sessionId now => exact h.sessionId now
  | attempt sessionId suppliedCode now => exact h.attempt sessionId suppliedCode now

end PairingRun.Ok

theorem PairingRun.ok (calls : List PairingCall) : (calls.foldl PairingRun.call .start).Ok := by
  have hstart : PairingRun.start.Ok := ⟨rfl, nofun, nofun⟩
  exact foldl_invariant (I := PairingRun.Ok) (fun _ c h => h.call c) calls hstart

/-- A token is disclosed only to the attempt that names the open session and presents its code in time, with fewer
than five failures of the session before it; since the session began it has not been cancelled, replaced or
found expired, and nothing has been disclosed. -/
theorem PairingRun.disclosed_only_to_code (calls : List PairingCall) (sessionId : Nat) (suppliedCode : Str) (now : Instant)
    (authToken : Str)
    (h : ((calls.foldl PairingRun.call .start).1.attempt sessionId suppliedCode now).2 = .paired authToken) :
    ∃ session : PairingSession, session.Opened (calls.foldl PairingRun.call .start).2 ∧ session.authToken = authToken ∧
      sessionId = session.id ∧ suppliedCode = session.code ∧ now < session.expiresAt ∧
      session.failedAttempts < maxPairingAttempts ∧
      ((calls ++ [PairingCall.attempt sessionId suppliedCode now]).foldl PairingRun.call .start).1.session = none := by
  have hok := PairingRun.ok calls
  rw [List.foldl_append]
  generalize calls.foldl PairingRun.call .start = r at h hok
  dsimp only [List.foldl_cons, List.foldl_nil, call]
  unfold PairingState.attempt at h ⊢
  cases hsession : r.1.session with
  | none =>
    rw [hsession] at h
    cases h
  | some session =>
    rw [hsession] at h
    dsimp only at h ⊢
    split at h
    · cases h
    · rename_i hbefore
      split at h
      · cases h
      · rename_i hid
        split at h
        · split at h <;> cases h
        · rename_i hcode
          rw [if_neg hbefore, if_neg hid, if_neg hcode]
          cases h
          have hcode : constantTimeEq suppliedCode session.code = true := by simpa using hcode
          exact ⟨session, hok.opened session hsession, rfl, (not_not.mp hid).symm, constantTimeEq_iff.mp hcode,
            Nat.lt_of_not_le hbefore,
            hok.attempts session hsession, rfl⟩

/-- A session that is paired at its third attempt, after another client's attempt at a session that was replaced. -/
theorem PairingRun.disclosed_only_to_code_third :
    ∃ session : PairingSession, session.Opened ([.begin 111111 "old".toList 0, .begin 4271 "long-secret".toList 1,
        .attempt 1 "111111".toList 2, .attempt 2 "004270".toList 3, .attempt 2 "4271".toList 4].foldl
          PairingRun.call .start).2 ∧ session.authToken = "long-secret".toList ∧ session.failedAttempts < maxPairingAttempts := by
  obtain ⟨session, hopened, htoken, -, -, -, hattempts, -⟩ := PairingRun.disclosed_only_to_code
    [.begin 111111 "old".toList 0, .begin 4271 "long-secret".toList 1, .attempt 1 "111111".toList 2,
      .attempt 2 "004270".toList 3, .attempt 2 "4271".toList 4] 2 "004271".toList 5 "long-secret".toList (by decide +kernel)
  exact ⟨session, hopened, htoken, hattempts⟩

end Stonemite.Trushar
