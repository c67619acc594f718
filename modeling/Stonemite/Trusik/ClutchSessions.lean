import Stonemite.Trusik.ClutchOwners

/-!
# Messages of remote sessions

The messages of a session may come late. One whose sequence number is not above that of an earlier one of its owner does
nothing, and so does every message of a session that has ended, as long as the engine remembers its end: through the ends
of 255 further sessions. `Remembers` is the invariant (`remembers_run`); `closed_session_ignored` and
`late_message_ignored` are read off it.
-/

namespace Stonemite.Broadcast
open Std Trusik

namespace BroadcastState
variable {s s' : BroadcastState} {e : Surroundings}

/-! ### Closed sessions -/

/-- The sessions that are remembered as closed are those of the queue, each once. -/
structure Remembers (s : BroadcastState) : Prop where
  nodup : s.closedRemoteSessionOrder.Nodup
  closed : ∀ sessionId, s.closedRemoteSessions.contains sessionId = true ↔ sessionId ∈ s.closedRemoteSessionOrder

theorem mem_drop_iff {α : Type} {l : List α} (h : l.Nodup) (n : Nat) (a : α) : a ∈ l.drop n ↔ a ∈ l ∧ a ∉ l.take n := by
  have hsplit := List.take_append_drop n l
  rw [← hsplit] at h
  have hmem : a ∈ l ↔ a ∈ l.take n ∨ a ∈ l.drop n := by rw [← List.mem_append, hsplit]
  have hdisjoint : a ∈ l.take n → a ∉ l.drop n := fun htake hdrop => List.disjoint_of_nodup_append h htake hdrop
  tauto

/-- The queue of the closed sessions with one more at its end, before the oldest are let go. -/
def closedOrder (s : BroadcastState) (sessionId : UInt64) : List UInt64 :=
  if s.closedRemoteSessions.contains sessionId then s.closedRemoteSessionOrder
  else s.closedRemoteSessionOrder ++ [sessionId]

theorem closeSession_order (s : BroadcastState) (sessionId : UInt64) (sequence : Nat) :
    (s.closeSession sessionId sequence).closedRemoteSessionOrder =
      (s.closedOrder sessionId).drop ((s.closedOrder sessionId).length - 256) := by
  unfold closeSession closedOrder
  dsimp only
  rw [List.length_take, Nat.min_eq_left (Nat.sub_le _ _)]

theorem Remembers.closeSession (h : s.Remembers) (sessionId : UInt64) (sequence : Nat) :
    (s.closeSession sessionId sequence).Remembers := by
  have hnodup : (s.closedOrder sessionId).Nodup := by
    unfold closedOrder
    split_ifs with hclosed
    · exact h.nodup
    · refine h.nodup.append (List.nodup_singleton sessionId) fun other hother hself => ?_
      obtain rfl := List.mem_singleton.mp hself
      exact hclosed ((h.closed other).mpr hother)
  have hmem (other : UInt64) : other ∈ s.closedOrder sessionId ↔
      other = sessionId ∨ other ∈ s.closedRemoteSessionOrder := by
    unfold closedOrder
    split_ifs with hclosed
    · refine ⟨.inr, ?_⟩
      rintro (rfl | hother)
      · exact (h.closed other).mp hclosed
      · exact hother
    · rw [List.mem_append, List.mem_singleton, or_comm]
  refine ⟨by rw [closeSession_order]; exact hnodup.sublist (List.drop_sublist _ _), fun other => ?_⟩
  have hclosed : (s.closeSession sessionId sequence).closedRemoteSessions =
      ((s.closedOrder sessionId).take ((s.closedOrder sessionId).length - 256)).foldl (fun map id => map.erase id)
        (s.closedRemoteSessions.insert sessionId sequence) := by
    unfold BroadcastState.closeSession closedOrder
    dsimp only
  rw [closeSession_order, mem_drop_iff hnodup, hmem, ExtTreeMap.contains_iff, hclosed,
    ExtTreeMap.getElem?_foldl_erase, ExtTreeMap.getElem?_insert_ite]
  by_cases htaken : other ∈ (s.closedOrder sessionId).take ((s.closedOrder sessionId).length - 256)
  · rw [if_pos htaken]
    exact iff_of_false (fun ⟨_, h⟩ => Option.some_ne_none _ h.symm) fun h => h.2 htaken
  · rw [if_neg htaken]
    by_cases hself : sessionId = other
    · rw [if_pos hself]
      exact iff_of_true ⟨sequence, rfl⟩ ⟨.inl hself.symm, htaken⟩
    · rw [if_neg hself, ← ExtTreeMap.contains_iff, h.closed]
      exact ⟨fun hother => ⟨.inr hother, htaken⟩, fun h => h.1.resolve_left (Ne.symm hself)⟩

/-- A closed session is followed in the queue by fewer than so many. -/
def ClosedWithin (sessionId : UInt64) (n : Nat) (s : BroadcastState) : Prop :=
  ∃ before after, s.closedRemoteSessionOrder = before ++ sessionId :: after ∧ after.length < n

theorem closedWithin_closeSession {sessionId : UInt64} (hopen : s.closedRemoteSessions.contains sessionId = false)
    (sequence : Nat) : (s.closeSession sessionId sequence).ClosedWithin sessionId 1 := by
  have horder : s.closedOrder sessionId = s.closedRemoteSessionOrder ++ [sessionId] := by
    unfold closedOrder
    rw [hopen]
    rfl
  refine ⟨s.closedRemoteSessionOrder.drop (s.closedRemoteSessionOrder.length + 1 - 256), [], ?_, Nat.zero_lt_one⟩
  rw [closeSession_order, horder, List.length_append, List.length_singleton]
  refine List.drop_append_of_le_length ?_
  omega

theorem ClosedWithin.closeSession {sessionId : UInt64} {n : Nat} (h : s.ClosedWithin sessionId n) (hn : n < 256)
    (other : UInt64) (sequence : Nat) : (s.closeSession other sequence).ClosedWithin sessionId (n + 1) := by
  obtain ⟨before, after, horder, hafter⟩ := h
  have hgrown : ∃ after', s.closedOrder other = before ++ sessionId :: after' ∧ after'.length < n + 1 := by
    unfold closedOrder
    split_ifs
    · exact ⟨after, horder, Nat.lt_succ_of_lt hafter⟩
    · refine ⟨after ++ [other], by rw [horder, List.append_assoc]; rfl, ?_⟩
      rw [List.length_append, List.length_singleton]
      exact Nat.succ_lt_succ hafter
  obtain ⟨after', hgrown, hafter'⟩ := hgrown
  refine ⟨before.drop ((s.closedOrder other).length - 256), after', ?_, hafter'⟩
  rw [closeSession_order, hgrown]
  refine List.drop_append_of_le_length ?_
  rw [List.length_append, List.length_cons]
  omega

/-! ### One call -/

theorem endSession_spec (s : BroadcastState) (e : Surroundings) (sessionId : UInt64) (sequence : Nat) :
    (s.endRemoteMouseClutchSession e sessionId sequence).closedRemoteSessionOrder =
        (s.closeSession sessionId sequence).closedRemoteSessionOrder ∧
      (s.endRemoteMouseClutchSession e sessionId sequence).closedRemoteSessions =
        (s.closeSession sessionId sequence).closedRemoteSessions ∧
      (s.endRemoteMouseClutchSession e sessionId sequence).remoteMouseSequences =
        s.remoteMouseSequences.filter (fun owner _ => owner.sessionId != sessionId) ∧
      (s.endRemoteMouseClutchSession e sessionId sequence).remoteMouseHolds =
        s.remoteMouseHolds.filter (fun owner _ => owner.sessionId != sessionId) := by
  have hsequences : (s.closeSession sessionId sequence).remoteMouseSequences =
      s.remoteMouseSequences.filter (fun owner _ => owner.sessionId != sessionId) := by
    unfold closeSession
    dsimp only
  have hholds : (s.closeSession sessionId sequence).remoteMouseHolds =
      s.remoteMouseHolds.filter (fun owner _ => owner.sessionId != sessionId) := by
    unfold closeSession
    dsimp only
  rw [← hsequences, ← hholds]
  unfold endRemoteMouseClutchSession heldReleased
  dsimp only
  generalize s.closeSession sessionId sequence = closed
  have hhooks (s : BroadcastState) : ClutchTurn none s (s.reconcileHooks (e.hooks 0)).2 := .reconcileHooks s _
  split_ifs
  · exact ⟨(hhooks _).order, (hhooks _).closed, (hhooks _).sequences, reconcileHooks_holds _ _⟩
  · exact ⟨rfl, rfl, rfl, rfl⟩

/-- A message of a session changes neither the closed sessions nor, but for its own, the sequence numbers and the holds. -/
theorem update_sessions (s : BroadcastState) (e : Surroundings) (owner : MouseClutchOwner)
    (operation : MouseClutchOperation) (sequence : Nat) :
    (s.updateRemoteMouseClutchHold e owner operation sequence).2.closedRemoteSessions = s.closedRemoteSessions ∧
      (s.updateRemoteMouseClutchHold e owner operation sequence).2.closedRemoteSessionOrder =
        s.closedRemoteSessionOrder ∧
      (∀ other, other ≠ owner → s.remoteMouseHolds[other]? = none →
        (s.updateRemoteMouseClutchHold e owner operation sequence).2.remoteMouseHolds[other]? = none) ∧
      ((s.updateRemoteMouseClutchHold e owner operation sequence).2 = s ∨
        (s.remoteMouseSequences[owner]?).getD 0 < sequence ∧
        (s.updateRemoteMouseClutchHold e owner operation sequence).2.remoteMouseSequences =
          s.remoteMouseSequences.insert owner sequence) := by
  unfold updateRemoteMouseClutchHold
  split_ifs with hclosed hstale
  · exact ⟨rfl, rfl, fun _ _ => id, .inl rfl⟩
  · exact ⟨rfl, rfl, fun _ _ => id, .inl rfl⟩
  · have hturn (s : BroadcastState) := ClutchTurn.operateHold s e owner operation
    exact ⟨(hturn _).closed, (hturn _).order, fun other hother hnone =>
      (hturn _).holds other (fun heq => hother (Option.some.inj heq)) hnone, .inr ⟨lt_of_not_ge hstale, (hturn _).sequences⟩⟩

theorem Remembers.init (e : Surroundings) (cfg : Settings) : (init e cfg).Remembers := by
  have hhooks (s : BroadcastState) (answers : HookAnswers) : ClutchTurn none s (s.reconcileHooks answers).2 :=
    .reconcileHooks s answers
  have hstart := hhooks (starting e cfg) (e.hooks 0)
  have hempty : (BroadcastState.init e cfg).closedRemoteSessionOrder = [] ∧
      (BroadcastState.init e cfg).closedRemoteSessions = ∅ := by
    unfold BroadcastState.init
    generalize (starting e cfg).reconcileHooks (e.hooks 0) = hooked at hstart ⊢
    obtain ⟨error | _, s⟩ := hooked
    · exact ⟨(hhooks _ (e.hooks 1)).order.trans hstart.order, (hhooks _ (e.hooks 1)).closed.trans hstart.closed⟩
    · exact ⟨hstart.order, hstart.closed⟩
  refine ⟨by rw [hempty.1]; exact List.nodup_nil, fun sessionId => ?_⟩
  rw [hempty.1, hempty.2]
  exact iff_of_false (by simp) List.not_mem_nil

theorem remembers_call (h : s.Remembers) (call : Call) : ∀ s' ∈ s.call e call, s'.Remembers := by
  intro s' hs'
  have hsame (hclosed : s'.closedRemoteSessions = s.closedRemoteSessions)
      (horder : s'.closedRemoteSessionOrder = s.closedRemoteSessionOrder) : s'.Remembers :=
    ⟨by rw [horder]; exact h.nodup, by rw [hclosed, horder]; exact h.closed⟩
  cases hcall : call.ofSession with
  | false =>
    have hturn := clutchTurn_call hcall s' hs'
    exact hsame hturn.closed hturn.order
  | true =>
    cases call with
    | init cfg =>
      obtain rfl := Option.some.inj hs'
      exact .init e cfg
    | cleanup => exact absurd hs' (Option.not_mem_none s')
    | updateRemoteMouseClutchHold owner operation sequence =>
      obtain rfl := Option.some.inj hs'
      have hupdate := update_sessions s e owner operation sequence
      exact hsame hupdate.1 hupdate.2.1
    | endRemoteMouseClutchSession sessionId sequence =>
      obtain rfl := Option.some.inj hs'
      have hclosed := h.closeSession sessionId sequence
      obtain ⟨horder, hsessions, -⟩ := endSession_spec s e sessionId sequence
      exact ⟨by rw [horder]; exact hclosed.nodup, by rw [horder, hsessions]; exact hclosed.closed⟩
    | _ => cases hcall

end BroadcastState

/-! ### Every run -/

/-- Whether a call starts or ends the engine. -/
def Call.ofLifetime : Call → Bool
  | .init _ | .cleanup => true
  | _ => false

/-- Whether a call ends a session. -/
def Call.endsSession : Call → Bool
  | .endRemoteMouseClutchSession .. => true
  | _ => false

namespace Engine
open BroadcastState

theorem remembers_run (calls : List (Call × Surroundings)) : ∀ s ∈ run calls, s.Remembers := by
  refine foldl_invariant (I := fun engine : Engine => ∀ s ∈ engine, s.Remembers) (fun engine call h => ?_) calls
    fun s hs => absurd hs (Option.not_mem_none s)
  obtain ⟨call, e⟩ := call
  intro s' hs'
  cases engine with
  | some s => exact remembers_call (h s rfl) call s' hs'
  | none =>
    cases call with
    | init cfg =>
      obtain rfl := Option.some.inj hs'
      exact .init e cfg
    | _ => exact absurd hs' (Option.not_mem_none s')

/-- What is so once a session has ended, `n` being one more than the ends of sessions since. -/
structure Ended (sessionId : UInt64) (n : Nat) (s : BroadcastState) : Prop where
  remembers : s.Remembers
  within : s.ClosedWithin sessionId n
  holds : ∀ owner : MouseClutchOwner, owner.sessionId = sessionId → s.remoteMouseHolds[owner]? = none

theorem Ended.closed {sessionId : UInt64} {n : Nat} {s : BroadcastState} (h : Ended sessionId n s) :
    s.closedRemoteSessions.contains sessionId = true := by
  obtain ⟨before, after, horder, -⟩ := h.within
  rw [h.remembers.closed, horder]
  exact List.mem_append_right _ List.mem_cons_self

theorem update_closed {s : BroadcastState} {owner : MouseClutchOwner}
    (h : s.closedRemoteSessions.contains owner.sessionId = true) (e : Surroundings) (operation : MouseClutchOperation)
    (sequence : Nat) : (s.updateRemoteMouseClutchHold e owner operation sequence).2 = s := by
  unfold updateRemoteMouseClutchHold
  rw [if_pos h]

theorem Ended.call {sessionId : UInt64} {n : Nat} {s : BroadcastState} (h : Ended sessionId n s) {e : Surroundings}
    {call : Call} (hup : call.ofLifetime = false) (hn : n + call.endsSession.toNat ≤ 256) :
    ∀ s' ∈ s.call e call, Ended sessionId (n + call.endsSession.toNat) s' := by
  intro s' hs'
  have hremembers := remembers_call h.remembers call s' hs'
  cases hcall : call.ofSession with
  | false =>
    have hturn := clutchTurn_call hcall s' hs'
    have hends : call.endsSession = false := by cases call <;> first | rfl | cases hcall
    rw [hends]
    obtain ⟨before, after, horder, hafter⟩ := h.within
    exact ⟨hremembers, ⟨before, after, hturn.order.trans horder, hafter⟩, fun owner howner =>
      hturn.holds owner (Option.some_ne_none owner) (h.holds owner howner)⟩
  | true =>
    cases call with
    | init cfg => cases hup
    | cleanup => cases hup
    | updateRemoteMouseClutchHold owner operation sequence =>
      obtain rfl := Option.some.inj hs'
      by_cases howner : owner.sessionId = sessionId
      · rw [update_closed (by rw [howner]; exact h.closed)]
        exact h
      · obtain ⟨-, horder, hholds, -⟩ := update_sessions s e owner operation sequence
        obtain ⟨before, after, hbefore, hafter⟩ := h.within
        refine ⟨hremembers, ⟨before, after, horder.trans hbefore, hafter⟩, fun other hother => ?_⟩
        refine hholds other (fun heq => ?_) (h.holds other hother)
        subst heq
        exact howner hother
    | endRemoteMouseClutchSession other sequence =>
      obtain rfl := Option.some.inj hs'
      obtain ⟨horder, -, -, hholds⟩ := endSession_spec s e other sequence
      obtain ⟨before, after, hbefore, hafter⟩ := h.within.closeSession hn other sequence
      refine ⟨hremembers, ⟨before, after, horder.trans hbefore, hafter⟩, fun owner howner => ?_⟩
      rw [hholds]
      exact filter_none (h.holds owner howner)
    | _ => cases hcall

theorem ended_foldl {sessionId : UInt64} {n : Nat} {engine : Engine} (h : ∀ s ∈ engine, Ended sessionId n s)
    (after : List (Call × Surroundings)) (hup : ∀ call ∈ after, call.1.ofLifetime = false)
    (hfew : n + after.countP (fun call => call.1.endsSession) ≤ 256) :
    ∀ s ∈ after.foldl step engine, ∃ m, Ended sessionId m s := by
  induction after generalizing engine n with
  | nil => exact fun s hs => ⟨n, h s hs⟩
  | cons call after ih =>
    obtain ⟨call, e⟩ := call
    have hcall : call.ofLifetime = false := hup (call, e) List.mem_cons_self
    have hcount : n + call.endsSession.toNat + after.countP (fun call => call.1.endsSession) ≤ 256 := by
      rw [List.countP_cons] at hfew
      cases hends : call.endsSession <;> simp [hends] at hfew ⊢ <;> omega
    refine ih (fun s' hs' => ?_) (fun call' hcall' => hup call' (List.mem_cons_of_mem _ hcall')) hcount
    cases engine with
    | some s => exact (h s rfl).call hcall (by omega) s' hs'
    | none =>
      cases call with
      | init cfg => cases hcall
      | _ => exact absurd hs' (Option.not_mem_none s')

/-- Through the ends of 255 further sessions, no hold of a session that has ended is entered again, and its messages do
nothing. -/
theorem closed_session_ignored (before after : List (Call × Surroundings)) (sessionId : UInt64) (sequence : Nat)
    (e : Surroundings) (hopen : ∀ s ∈ run before, s.closedRemoteSessions.contains sessionId = false)
    (hup : ∀ call ∈ after, call.1.ofLifetime = false)
    (hfew : after.countP (fun call => call.1.endsSession) < 256) :
    ∀ s ∈ run (before ++ (.endRemoteMouseClutchSession sessionId sequence, e) :: after), ∀ owner : MouseClutchOwner,
      owner.sessionId = sessionId → s.remoteMouseHolds[owner]? = none ∧
        ∀ (e' : Surroundings) (operation : MouseClutchOperation) (n : Nat),
          (s.updateRemoteMouseClutchHold e' owner operation n).2 = s := by
  have hended : ∀ s ∈ (run before).step (.endRemoteMouseClutchSession sessionId sequence, e), Ended sessionId 1 s := by
    intro s' hs'
    cases hrun : run before with
    | none =>
      rw [hrun] at hs'
      exact absurd hs' (Option.not_mem_none s')
    | some s =>
      rw [hrun] at hs'
      have hclosed : s'.Remembers :=
        remembers_call (remembers_run before s hrun) (.endRemoteMouseClutchSession sessionId sequence) s' hs'
      obtain rfl := Option.some.inj hs'
      obtain ⟨horder, -, -, hholds⟩ := endSession_spec s e sessionId sequence
      obtain ⟨front, rest, hfront, hrest⟩ := closedWithin_closeSession (hopen s hrun) sequence
      refine ⟨hclosed, ⟨front, rest, horder.trans hfront, hrest⟩, fun owner howner => ?_⟩
      rw [hholds, ExtTreeMap.getElem?_filter', Option.filter_eq_none_iff]
      exact fun hold _ hother => bne_iff_ne.mp hother howner
  intro s hs owner howner
  unfold run at hs
  rw [List.foldl_append, List.foldl_cons] at hs
  obtain ⟨m, hs⟩ := ended_foldl hended after hup (by omega) s hs
  exact ⟨hs.holds owner howner, fun e' operation n => update_closed (by rw [howner]; exact hs.closed) e' operation n⟩

/-- A late message of session 7, a message of session 8 and its end. -/
def afterSession : List (Call × Surroundings) :=
  [(.updateRemoteMouseClutchHold ownerA .renew 3, playing 1),
    (.updateRemoteMouseClutchHold { ownerA with sessionId := 8 } .begin 1, playing 1),
    (.endRemoteMouseClutchSession 8 2, playing 1)]

theorem closed_session_ignored_heldRemotely :
    ∃ s ∈ run (heldRemotely ++ (.endRemoteMouseClutchSession 7 2, playing 1) :: afterSession),
      s.remoteMouseHolds[ownerA]? = none ∧ (s.updateRemoteMouseClutchHold (playing 1) ownerA .begin 4).2 = s := by
  have hended := closed_session_ignored heldRemotely afterSession 7 2 (playing 1) (by decide) (by decide) (by decide)
  exact ⟨_, rfl, (hended _ rfl ownerA rfl).1, (hended _ rfl ownerA rfl).2 (playing 1) .begin 4⟩

/-! ### Late messages -/

/-- The last sequence number of an owner is at least so large. -/
def Counted (owner : MouseClutchOwner) (n : Nat) (s : BroadcastState) : Prop :=
  n ≤ (s.remoteMouseSequences[owner]?).getD 0

theorem Counted.update {owner other : MouseClutchOwner} {n : Nat} {s : BroadcastState} (h : Counted owner n s)
    (e : Surroundings) (operation : MouseClutchOperation) (sequence : Nat) :
    Counted owner n (s.updateRemoteMouseClutchHold e other operation sequence).2 := by
  obtain ⟨-, -, -, hsame | ⟨hlast, hsequences⟩⟩ := update_sessions s e other operation sequence
  · rw [hsame]
    exact h
  · unfold Counted at h ⊢
    rw [hsequences, ExtTreeMap.getElem?_insert_ite]
    split_ifs with howner
    · obtain rfl := howner
      exact h.trans hlast.le
    · exact h

/-- A message that the engine reads, whether it is new or late, leaves its number counted. -/
theorem counted_update {owner : MouseClutchOwner} {s : BroadcastState}
    (hopen : s.closedRemoteSessions.contains owner.sessionId = false) (e : Surroundings)
    (operation : MouseClutchOperation) (sequence : Nat) :
    Counted owner sequence (s.updateRemoteMouseClutchHold e owner operation sequence).2 := by
  by_cases hlate : sequence ≤ (s.remoteMouseSequences[owner]?).getD 0
  · exact Counted.update hlate e operation sequence
  · have hread : (s.updateRemoteMouseClutchHold e owner operation sequence).2.remoteMouseSequences =
        s.remoteMouseSequences.insert owner sequence := by
      unfold updateRemoteMouseClutchHold
      rw [if_neg (by rw [hopen]; exact Bool.false_ne_true), if_neg hlate]
      exact (ClutchTurn.operateHold _ e owner operation).sequences
    unfold Counted
    rw [hread, ExtTreeMap.getElem?_insert_ite, if_pos rfl]
    exact Nat.le_refl sequence

theorem update_late {owner : MouseClutchOwner} {n sequence : Nat} {s : BroadcastState} (h : Counted owner n s)
    (hlate : sequence ≤ n) (e : Surroundings) (operation : MouseClutchOperation) :
    (s.updateRemoteMouseClutchHold e owner operation sequence).2 = s := by
  unfold updateRemoteMouseClutchHold
  split_ifs
  · rfl
  · rfl
  · exact absurd (hlate.trans h) ‹_›

theorem Counted.call {owner : MouseClutchOwner} {n : Nat} {s : BroadcastState} (h : Counted owner n s) {e : Surroundings}
    {call : Call} (hup : call.ofLifetime = false)
    (hsession : ∀ sequence, call ≠ .endRemoteMouseClutchSession owner.sessionId sequence) :
    ∀ s' ∈ s.call e call, Counted owner n s' := by
  intro s' hs'
  cases hcall : call.ofSession with
  | false =>
    have hturn := clutchTurn_call hcall s' hs'
    unfold Counted
    rw [hturn.sequences]
    exact h
  | true =>
    cases call with
    | init cfg => cases hup
    | cleanup => cases hup
    | updateRemoteMouseClutchHold other operation sequence =>
      obtain rfl := Option.some.inj hs'
      exact h.update e operation sequence
    | endRemoteMouseClutchSession sessionId sequence =>
      obtain rfl := Option.some.inj hs'
      obtain ⟨-, -, hsequences, -⟩ := endSession_spec s e sessionId sequence
      have hkept (last : Nat) : (owner.sessionId != sessionId) = true :=
        bne_iff_ne.mpr fun heq => hsession sequence (by rw [heq])
      unfold Counted at h ⊢
      rw [hsequences, ExtTreeMap.getElem?_filter']
      cases hlast : s.remoteMouseSequences[owner]? with
      | none =>
        rw [hlast] at h
        exact h
      | some last =>
        rw [hlast] at h
        rw [Option.filter_some, if_pos (hkept last)]
        exact h
    | _ => cases hcall

theorem counted_foldl {owner : MouseClutchOwner} {n : Nat} {engine : Engine} (h : ∀ s ∈ engine, Counted owner n s)
    (after : List (Call × Surroundings)) (hup : ∀ call ∈ after, call.1.ofLifetime = false)
    (hsession : ∀ call ∈ after, ∀ last, call.1 ≠ .endRemoteMouseClutchSession owner.sessionId last) :
    ∀ s ∈ after.foldl step engine, Counted owner n s := by
  induction after generalizing engine with
  | nil => exact h
  | cons call after ih =>
    obtain ⟨call, e⟩ := call
    have hcall : call.ofLifetime = false := hup (call, e) List.mem_cons_self
    refine ih (fun s' hs' => ?_) (fun call' hcall' => hup call' (List.mem_cons_of_mem _ hcall'))
      (fun call' hcall' => hsession call' (List.mem_cons_of_mem _ hcall'))
    cases engine with
    | some s => exact (h s rfl).call hcall (hsession (call, e) List.mem_cons_self) s' hs'
    | none =>
      cases call with
      | init cfg => cases hcall
      | _ => exact absurd hs' (Option.not_mem_none s')

/-- A message of an open session is followed, until the session ends, by no message of its owner with a number that is not
above its own but ones that do nothing. -/
theorem late_message_ignored (before after : List (Call × Surroundings)) (owner : MouseClutchOwner)
    (operation : MouseClutchOperation) (sequence : Nat) (e : Surroundings)
    (hopen : ∀ s ∈ run before, s.closedRemoteSessions.contains owner.sessionId = false)
    (hup : ∀ call ∈ after, call.1.ofLifetime = false)
    (hsession : ∀ call ∈ after, ∀ last, call.1 ≠ .endRemoteMouseClutchSession owner.sessionId last) :
    ∀ s ∈ run (before ++ (.updateRemoteMouseClutchHold owner operation sequence, e) :: after),
      ∀ (e' : Surroundings) (late : MouseClutchOperation) (n : Nat), n ≤ sequence →
        (s.updateRemoteMouseClutchHold e' owner late n).2 = s := by
  have hread : ∀ s ∈ (run before).step (.updateRemoteMouseClutchHold owner operation sequence, e),
      Counted owner sequence s := by
    intro s' hs'
    cases hrun : run before with
    | none =>
      rw [hrun] at hs'
      exact absurd hs' (Option.not_mem_none s')
    | some s =>
      rw [hrun] at hs'
      obtain rfl := Option.some.inj hs'
      exact counted_update (hopen s hrun) e operation sequence
  intro s hs e' late n hlate
  unfold run at hs
  rw [List.foldl_append, List.foldl_cons] at hs
  exact update_late (counted_foldl hread after hup hsession s hs) hlate e' late

theorem late_message_ignored_heldRemotely :
    ∃ s ∈ run (heldRemotely ++ (.updateRemoteMouseClutchHold ownerA .ended 4, playing 1) :: afterSession),
      s.remoteMouseHolds[ownerA]? = none ∧ (s.updateRemoteMouseClutchHold (playing 1) ownerA .begin 2).2 = s := by
  have hsession : ∀ call ∈ afterSession, ∀ last, call.1 ≠ .endRemoteMouseClutchSession ownerA.sessionId last := by
    intro call hcall last
    simp only [afterSession, List.mem_cons, List.not_mem_nil, or_false] at hcall
    obtain rfl | rfl | rfl := hcall <;> exact fun h => by cases h
  exact ⟨_, rfl, by decide +kernel, late_message_ignored heldRemotely afterSession ownerA .ended 4 (playing 1) (by decide) (by decide)
    hsession _ rfl (playing 1) .begin 2 (by decide)⟩

end Engine
end Stonemite.Broadcast
