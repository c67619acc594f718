import Mathlib.Data.List.DropRight
import Stonemite.Lib.Text

/-!
# The notification of a client (`overlay/notifications.rs`)

A client's picture-in-picture window shows its latest event and keeps a bounded list of the unread ones. The kind and the
color shown are a copy of the last unread entry: each operation that changes the one has to change the other. An
operation that finds nothing left reports so, and the notification is dropped. `Stands` is the invariant, kept by
`Stands.step` and `run_stands`; `Leaves` says what an operation leaves unread.
-/

namespace Stonemite.Overlay.Notifications

def maxTrackedUnread : Nat := 256
def previewDurationMs : Nat := 6000
def animationDurationMs : Nat := 750 * 3

/-- The kinds of event that are announced. -/
inductive Kind
  | tell
  | groupInvite
  | raidInvite
  | trade
  | resurrection
  | death
  | levelGain
  | alternateAdvancementGain
deriving DecidableEq, Repr

/-- An event nobody has looked at. -/
structure Unread where
  kind : Kind
  color : Nat
deriving DecidableEq, Repr

/-- The buttons of an invitation. -/
inductive InviteAction
  | accept
  | dismiss
deriving DecidableEq, Repr

/-- What a window announces: the latest event and all unread ones. -/
structure Notification where
  kind : Kind
  text : Str
  color : Nat
  receivedAtMs : Nat
  unread : List Unread
  inviteActions : Bool
  hoveredAction : Option InviteAction := none
  pressedAction : Option InviteAction := none
  invitePreviewPressed : Bool := false
  animationComplete : Bool := false
  previewComplete : Bool := false
deriving DecidableEq, Repr

namespace Notification

/-- A new event is shown, with those before it still unread. -/
def push (previous : Option Notification) (kind : Kind) (text : Str) (color receivedAtMs : Nat)
    (inviteActions : Bool) : Notification :=
  let unread := (previous.map (·.unread)).getD []
  let unread := if unread.length = maxTrackedUnread then unread.tail else unread
  { kind, text, color, receivedAtMs, unread := unread ++ [⟨kind, color⟩], inviteActions }

variable (n : Notification)

/-! ### Previews -/

def elapsedMs (nowMs : Nat) : Nat := nowMs - n.receivedAtMs

def previewVisible (nowMs : Nat) : Bool := !n.previewComplete && n.elapsedMs nowMs < previewDurationMs

/-- `animation_frame(..).is_some()`. -/
def animating (nowMs : Nat) (animationsEnabled : Bool) : Bool :=
  animationsEnabled && !n.animationComplete && n.elapsedMs nowMs < animationDurationMs

/-- `redraws_for_tick`: the notification that follows, and whether its border and its preview are drawn again. -/
def redrawsForTick (nowMs : Nat) (animationsEnabled : Bool) : Notification × Bool × Bool :=
  let (n, border) :=
    if n.animating nowMs animationsEnabled then (n, true)
    else if !n.animationComplete then ({ n with animationComplete := true }, true)
    else (n, false)
  if !n.previewVisible nowMs && !n.previewComplete then ({ n with previewComplete := true }, border, true)
  else (n, border, false)

/-! ### Resolving

Each of these returns the notification that follows and whether nothing is left of it.
-/

/-- The text goes; the unread events stay. -/
def finishCurrentPreview : Notification × Bool :=
  let n := { n with
    inviteActions := false
    hoveredAction := none
    pressedAction := none
    invitePreviewPressed := false
    animationComplete := true
    previewComplete := true }
  match n.unread.getLast? with
  | some previous => ({ n with kind := previous.kind, color := previous.color }, false)
  | none => (n, true)

/-- The shown invitation is read, and its text goes. -/
def dismissInvite : Notification × Bool :=
  if n.kind ≠ .groupInvite then (n, false)
  else { n with unread := n.unread.dropLast }.finishCurrentPreview

/-- All events of the kind are read. -/
def resolveKind (kind : Kind) : Notification × Bool :=
  let currentWasKind := n.kind = kind
  let n := { n with unread := n.unread.filter (·.kind ≠ kind) }
  if currentWasKind then n.finishCurrentPreview else (n, n.unread.isEmpty)

/-- Every group invitation is read. -/
def resolveGroupInvites : Notification × Bool := n.resolveKind .groupInvite

/-- Every trade proposal is read. -/
def resolveTradeProposals : Notification × Bool := n.resolveKind .trade

/-! ### The invitation buttons

What the overlay does to the notification of a window when the pointer moves over its buttons; `hovered` is the
button under the pointer.
-/

/-- The button under the pointer. -/
def updateInviteHover (hovered : Option InviteAction) : Notification := { n with hoveredAction := hovered }

/-- `clear_invite_interaction`; the first of the three that was set is all that is cleared. -/
def clearInviteInteraction : Notification :=
  if n.hoveredAction.isSome then { n with hoveredAction := none }
  else if n.pressedAction.isSome then { n with pressedAction := none }
  else { n with invitePreviewPressed := false }

/-- A button is pressed and not yet let go. -/
def pressInviteAction (action : Option InviteAction) : Notification :=
  { n with invitePreviewPressed := true, hoveredAction := action, pressedAction := action }

/-- `release_invite_action`: the notification that follows, and the action to take. -/
def releaseInviteAction (hovered : Option InviteAction) : Notification × Option InviteAction :=
  if !n.invitePreviewPressed then (n, none)
  else
    ({ n with invitePreviewPressed := false, pressedAction := none, hoveredAction := hovered },
      hovered.filter (some · = n.pressedAction))

/-- `execute_invite_action` where the invitation could not be accepted. -/
def acceptFailed : Notification :=
  { n with inviteActions := false, hoveredAction := none, pressedAction := none, invitePreviewPressed := false }

end Notification

/-! ### Runs -/

/-- The calls that change a notification. -/
inductive Operation
  | push (kind : Kind) (text : Str) (color receivedAtMs : Nat) (inviteActions : Bool)
  | dismissInvite
  | resolveKind (kind : Kind)
  | redrawsForTick (nowMs : Nat) (animationsEnabled : Bool)
  | updateInviteHover (hovered : Option InviteAction)
  | clearInviteInteraction
  | pressInviteAction (action : Option InviteAction)
  | releaseInviteAction (hovered : Option InviteAction)
  | acceptFailed
  | acknowledge
deriving DecidableEq, Repr

/-- `remove_matching_notifications`, for the entry of one client. -/
def removeMatching (removeFrom : Notification → Notification × Bool) : Option Notification → Option Notification
  | none => none
  | some n => if (removeFrom n).2 then none else some (removeFrom n).1

/-- The entry of one client after an operation. -/
def step (entry : Option Notification) : Operation → Option Notification
  | .push kind text color receivedAtMs inviteActions =>
    some (.push entry kind text color receivedAtMs inviteActions)
  | .dismissInvite => removeMatching (·.dismissInvite) entry
  | .resolveKind kind => removeMatching (·.resolveKind kind) entry
  | .redrawsForTick nowMs animationsEnabled => entry.map fun n => (n.redrawsForTick nowMs animationsEnabled).1
  | .updateInviteHover hovered => entry.map (·.updateInviteHover hovered)
  | .clearInviteInteraction => entry.map (·.clearInviteInteraction)
  | .pressInviteAction action => entry.map (·.pressInviteAction action)
  | .releaseInviteAction hovered => entry.map fun n => (n.releaseInviteAction hovered).1
  | .acceptFailed => entry.map (·.acceptFailed)
  | .acknowledge => none

/-- The entry of a client after operations, from none on. -/
def run (operations : List Operation) : Option Notification := operations.foldl step none

/-! ### The current entry -/

/-- The unread events and the event shown. -/
def Notification.tracked (n : Notification) : List Unread × Unread := (n.unread, ⟨n.kind, n.color⟩)

/-- The invariant of the notifications that are kept. -/
structure Kept (n : Notification) : Prop where
  nonempty : 1 ≤ n.unread.length
  bounded : n.unread.length ≤ maxTrackedUnread
  current : n.unread.getLast? = some ⟨n.kind, n.color⟩

namespace Kept

variable {n n' : Notification}

theorem mk' (hbounded : n.unread.length ≤ maxTrackedUnread)
    (hcurrent : n.unread.getLast? = some ⟨n.kind, n.color⟩) : Kept n where
  nonempty := List.length_pos_of_mem (List.mem_of_getLast? hcurrent)
  bounded := hbounded
  current := hcurrent

theorem ne_nil (h : Kept n) : n.unread ≠ [] := List.ne_nil_of_length_pos h.nonempty

theorem congr (h : Kept n) (htracked : n'.tracked = n.tracked) : Kept n' := by
  obtain ⟨hunread, hcurrent⟩ := Prod.mk.inj htracked
  refine mk' ?_ ?_
  · rw [hunread]
    exact h.bounded
  · rw [hunread, hcurrent]
    exact h.current

end Kept

/-! ### What is left

`remaining` is what an operation does to the unread events alone. The operations on notifications follow it, and their
reports say whether it leaves any.
-/

/-- The events that are unread after the operation. -/
def remaining (unread : List Unread) : Operation → List Unread
  | .push kind _ color _ _ => (unread ++ [Unread.mk kind color]).rtake maxTrackedUnread
  | .dismissInvite => if unread.getLast?.map (·.kind) = some .groupInvite then unread.dropLast else unread
  | .resolveKind kind => unread.filter (·.kind ≠ kind)
  | .acknowledge => []
  | _ => unread

/-- A result that leaves the given unread events, and reports whether there are none. -/
structure Leaves (unread : List Unread) (result : Notification × Bool) : Prop where
  unread_eq : result.1.unread = unread
  removed_iff : result.2 = true ↔ unread = []
  kept : unread ≠ [] → Kept result.1

variable {n : Notification} {entry : Option Notification}

theorem finishCurrentPreview_leaves (hbounded : n.unread.length ≤ maxTrackedUnread) :
    Leaves n.unread n.finishCurrentPreview := by
  unfold Notification.finishCurrentPreview
  dsimp only
  cases hlast : n.unread.getLast? with
  | none => exact ⟨rfl, by simpa using hlast, fun hne => absurd (List.getLast?_eq_none_iff.mp hlast) hne⟩
  | some previous =>
    have hne : n.unread ≠ [] := List.ne_nil_of_mem (List.mem_of_getLast? hlast)
    exact ⟨rfl, by simp [hne], fun _ => .mk' hbounded hlast⟩

theorem dismissInvite_leaves (h : Kept n) : Leaves (remaining n.unread .dismissInvite) n.dismissInvite := by
  have hlast : n.unread.getLast?.map (·.kind) = some n.kind := by rw [h.current]; rfl
  by_cases hkind : n.kind = .groupInvite
  · have hleft : remaining n.unread .dismissInvite = n.unread.dropLast := if_pos (hlast.trans (congrArg some hkind))
    rw [hleft, Notification.dismissInvite, if_neg (not_not.mpr hkind)]
    refine finishCurrentPreview_leaves (n := { n with unread := n.unread.dropLast }) ?_
    exact (List.dropLast_sublist n.unread).length_le.trans h.bounded
  · have hleft : remaining n.unread .dismissInvite = n.unread :=
      if_neg fun hinvite => hkind (Option.some.inj (hlast.symm.trans hinvite))
    rw [hleft, Notification.dismissInvite, if_pos hkind]
    exact ⟨rfl, by simp [h.ne_nil], fun _ => h⟩

theorem resolveKind_leaves (h : Kept n) (kind : Kind) :
    Leaves (remaining n.unread (.resolveKind kind)) (n.resolveKind kind) := by
  have hbounded : (n.unread.filter (·.kind ≠ kind)).length ≤ maxTrackedUnread :=
    (List.length_filter_le _ _).trans h.bounded
  unfold Notification.resolveKind remaining
  by_cases hkind : n.kind = kind
  · simp only [if_pos hkind]
    exact finishCurrentPreview_leaves (n := { n with unread := n.unread.filter (·.kind ≠ kind) }) hbounded
  · -- the current entry is of another kind, and stays the last one
    simp only [if_neg hkind]
    refine ⟨rfl, List.isEmpty_iff, fun _ => .mk' hbounded ?_⟩
    obtain ⟨older, holder⟩ := List.getLast?_eq_some_iff.mp h.current
    show (n.unread.filter (·.kind ≠ kind)).getLast? = _
    rw [holder, List.filter_append, List.filter_singleton]
    simp [hkind]

theorem rtake_of_length_le {unread : List Unread} (h : unread.length ≤ maxTrackedUnread) :
    (if unread.length = maxTrackedUnread then unread.tail else unread) = unread.rtake (maxTrackedUnread - 1) := by
  unfold List.rtake
  split_ifs with hfull
  · rw [hfull, Nat.sub_sub_self (by decide), List.drop_one]
  · have hlt : unread.length ≤ maxTrackedUnread - 1 := Nat.le_pred_of_lt (lt_of_le_of_ne h hfull)
    rw [Nat.sub_eq_zero_of_le hlt, List.drop_zero]

/-- The unread events of an entry; an entry that was dropped has none. -/
def unreadOf (entry : Option Notification) : List Unread := (entry.map (·.unread)).getD []

theorem push_leaves (hentry : ∀ n ∈ entry, Kept n) (kind : Kind) (text : Str) (color receivedAtMs : Nat)
    (inviteActions : Bool) :
    (Notification.push entry kind text color receivedAtMs inviteActions).unread =
        remaining (unreadOf entry) (.push kind text color receivedAtMs inviteActions) ∧
      Kept (.push entry kind text color receivedAtMs inviteActions) := by
  have hbounded : (unreadOf entry).length ≤ maxTrackedUnread := by
    cases entry with
    | none => exact Nat.zero_le _
    | some n => exact (hentry n rfl).bounded
  have hunread : (Notification.push entry kind text color receivedAtMs inviteActions).unread =
      (unreadOf entry).rtake (maxTrackedUnread - 1) ++ [⟨kind, color⟩] := by
    rw [← rtake_of_length_le hbounded]
    rfl
  refine ⟨?_, .mk' ?_ ?_⟩
  · rw [hunread, ← List.rtake_concat_succ, Nat.sub_add_cancel (by decide)]
    rfl
  · rw [hunread, List.length_append, List.length_singleton, List.rtake, List.length_drop]
    have hpos : 0 < maxTrackedUnread := by decide
    omega
  · rw [hunread]
    exact List.getLast?_concat

/-! ### Every run -/

/-- An entry that stands for the given unread events. -/
structure Stands (entry : Option Notification) (unread : List Unread) : Prop where
  unread_eq : unreadOf entry = unread
  kept : ∀ n ∈ entry, Kept n

theorem stands_none : Stands none [] where
  unread_eq := rfl
  kept n h := by cases h

theorem Leaves.stands {unread : List Unread} (removeFrom : Notification → Notification × Bool)
    (h : Leaves unread (removeFrom n)) : Stands (removeMatching removeFrom (some n)) unread := by
  show Stands (if (removeFrom n).2 = true then none else some (removeFrom n).1) unread
  by_cases hremoved : (removeFrom n).2 = true
  · rw [if_pos hremoved]
    rw [h.removed_iff.mp hremoved]
    exact stands_none
  · rw [if_neg hremoved]
    refine ⟨h.unread_eq, ?_⟩
    rintro _ ⟨⟩
    exact h.kept (mt h.removed_iff.mpr hremoved)

theorem Stands.map {unread : List Unread} (h : Stands entry unread) (f : Notification → Notification)
    (hf : ∀ n, (f n).tracked = n.tracked) : Stands (entry.map f) unread := by
  cases entry with
  | none => exact h
  | some n =>
    refine ⟨(congrArg Prod.fst (hf n)).trans h.unread_eq, ?_⟩
    rintro _ ⟨⟩
    exact (h.kept n rfl).congr (hf n)

theorem redrawsForTick_tracked (nowMs : Nat) (animationsEnabled : Bool) (n : Notification) :
    (n.redrawsForTick nowMs animationsEnabled).1.tracked = n.tracked := by
  unfold Notification.redrawsForTick
  split_ifs <;> dsimp only <;> split_ifs <;> rfl

theorem clearInviteInteraction_tracked (n : Notification) : n.clearInviteInteraction.tracked = n.tracked := by
  unfold Notification.clearInviteInteraction
  split_ifs <;> rfl

theorem releaseInviteAction_tracked (hovered : Option InviteAction) (n : Notification) :
    (n.releaseInviteAction hovered).1.tracked = n.tracked := by
  unfold Notification.releaseInviteAction
  split_ifs <;> rfl

/-- An entry stands for what an operation leaves of the events it stood for. -/
theorem Stands.step {unread : List Unread} (h : Stands entry unread) (operation : Operation) :
    Stands (step entry operation) (remaining unread operation) := by
  obtain ⟨rfl, hkept⟩ := h
  cases operation with
  | push kind text color receivedAtMs inviteActions =>
    obtain ⟨hunread, hpushed⟩ := push_leaves hkept kind text color receivedAtMs inviteActions
    refine ⟨hunread, ?_⟩
    rintro _ ⟨⟩
    exact hpushed
  | dismissInvite =>
    cases entry with
    | none => exact stands_none
    | some n => exact Leaves.stands (·.dismissInvite) (dismissInvite_leaves (hkept n rfl))
  | resolveKind kind =>
    cases entry with
    | none => exact stands_none
    | some n => exact Leaves.stands (·.resolveKind kind) (resolveKind_leaves (hkept n rfl) kind)
  | redrawsForTick nowMs animationsEnabled =>
    exact Stands.map ⟨rfl, hkept⟩ (fun n => (n.redrawsForTick nowMs animationsEnabled).1)
      (redrawsForTick_tracked nowMs animationsEnabled)
  | updateInviteHover hovered => exact Stands.map ⟨rfl, hkept⟩ (·.updateInviteHover hovered) fun _ => rfl
  | clearInviteInteraction => exact Stands.map ⟨rfl, hkept⟩ (·.clearInviteInteraction) clearInviteInteraction_tracked
  | pressInviteAction action => exact Stands.map ⟨rfl, hkept⟩ (·.pressInviteAction action) fun _ => rfl
  | releaseInviteAction hovered =>
    exact Stands.map ⟨rfl, hkept⟩ (fun n => (n.releaseInviteAction hovered).1) (releaseInviteAction_tracked hovered)
  | acceptFailed => exact Stands.map ⟨rfl, hkept⟩ (·.acceptFailed) fun _ => rfl
  | acknowledge => exact stands_none

/-- The entry of a client stands for the events that the operations on it leave. -/
theorem run_stands (operations : List Operation) : Stands (run operations) (operations.foldl remaining []) := by
  unfold run
  induction operations using List.reverseRecOn with
  | nil => exact stands_none
  | append_singleton operations operation ih =>
    rw [List.foldl_concat, List.foldl_concat]
    exact ih.step operation

/-- A kept notification has some unread entries, not too many, and shows the kind and the color of the last. Resolving
a kind removes the entries of that kind and no others, and what is removed reports that no entry remains. -/
theorem notification_kept (operations : List Operation) :
    ∀ n ∈ run operations,
      (1 ≤ n.unread.length ∧ n.unread.length ≤ maxTrackedUnread ∧
        n.unread.getLast? = some ⟨n.kind, n.color⟩) ∧
      (∀ kind, (n.resolveKind kind).1.unread = n.unread.filter (·.kind ≠ kind) ∧
        ((n.resolveKind kind).2 = true ↔ (n.resolveKind kind).1.unread = [])) ∧
      (n.dismissInvite.2 = true ↔ n.dismissInvite.1.unread = []) := by
  intro n hn
  have hkept := (run_stands operations).kept n hn
  refine ⟨⟨hkept.nonempty, hkept.bounded, hkept.current⟩, fun kind => ?_, ?_⟩
  · have hleaves := resolveKind_leaves hkept kind
    refine ⟨hleaves.unread_eq, ?_⟩
    rw [hleaves.removed_iff, hleaves.unread_eq]
  · have hleaves := dismissInvite_leaves hkept
    rw [hleaves.removed_iff, hleaves.unread_eq]

/-- A tell whose invitation was dismissed; the text is still that of the invitation, on a preview that is over. -/
def tellLeft : Notification where
  kind := .tell
  text := "Honka invited you".toList
  color := 0x00BE28BE
  receivedAtMs := 2000
  unread := [⟨.tell, 0x00BE28BE⟩]
  inviteActions := false
  animationComplete := true
  previewComplete := true

theorem tellLeft_kept :
    (1 ≤ tellLeft.unread.length ∧ tellLeft.unread.length ≤ maxTrackedUnread ∧
      tellLeft.unread.getLast? = some ⟨tellLeft.kind, tellLeft.color⟩) ∧
    (∀ kind, (tellLeft.resolveKind kind).1.unread = tellLeft.unread.filter (·.kind ≠ kind) ∧
      ((tellLeft.resolveKind kind).2 = true ↔ (tellLeft.resolveKind kind).1.unread = [])) ∧
    (tellLeft.dismissInvite.2 = true ↔ tellLeft.dismissInvite.1.unread = []) :=
  notification_kept
    [.push .tell "Laika: hello".toList 0x00BE28BE 1000 false,
      .push .groupInvite "Honka invited you".toList 0x0060B06A 2000 true, .dismissInvite]
    tellLeft rfl

/-- What an operation removes, by the unread events alone: an entry is dropped where none of them is left. -/
theorem step_eq_none_iff (operations : List Operation) (operation : Operation) :
    step (run operations) operation = none ↔ remaining (operations.foldl remaining []) operation = [] := by
  have hstep := (run_stands operations).step operation
  rw [← hstep.unread_eq]
  cases hentry : step (run operations) operation with
  | none => simp [unreadOf]
  | some n => simpa [unreadOf] using (hstep.kept n hentry).ne_nil

end Stonemite.Overlay.Notifications
