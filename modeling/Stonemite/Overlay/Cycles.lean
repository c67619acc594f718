import Stonemite.Overlay.Partition
import Stonemite.Lib.Reach

/-!
# Box cycles

The target of a cycle is found anew before every activation, from the windows, the active client and the PiPs. An
activation exchanges the last two, so the list of the members' clients stays what it is, and the targets go around it.
`Exchanged` is what an activation does to the registry. `Visits` follows the targets of one round, and
`cycle_visits_members` says that each member is one of them once.
-/

namespace Stonemite.Overlay

inductive CycleDirection
  | next
  | previous
deriving DecidableEq, Repr

/-- The place among `n` that a step from `p` leads to. -/
def CycleDirection.place (direction : CycleDirection) (n p : Nat) : Nat :=
  match direction with
  | .next => (p + 1) % n
  | .previous => (p + n - 1) % n

theorem CycleDirection.previous_next {n p : Nat} (hp : p < n) :
    CycleDirection.previous.place n (CycleDirection.next.place n p) = p := by
  unfold CycleDirection.place
  dsimp only
  rcases Nat.lt_or_ge (p + 1) n with hin | hend
  · rw [Nat.mod_eq_of_lt hin, show p + 1 + n - 1 = p + n by omega, Nat.add_mod_right, Nat.mod_eq_of_lt hp]
  · have hlast : p + 1 = n := by omega
    rw [hlast, Nat.mod_self, Nat.zero_add, Nat.mod_eq_of_lt (by omega)]
    omega

/-- `config::BoxCycle`. -/
structure BoxCycle where
  members : List BoxIdentity

/-- The sort key of a member at `index` of the cycle; `usize::MAX` for one that is not among the preferred boxes. -/
def memberKey (preferred : List BoxIdentity) (entry : BoxIdentity × Nat) : Nat × Nat :=
  ((preferred.findIdx? (·.matches entry.1.server entry.1.character)).getD (2 ^ 64 - 1), entry.2)

/-- The members of the cycle in the order of the preferred identities, the others after them. -/
def orderedMembers (preferred : List BoxIdentity) (cycle : BoxCycle) : List BoxIdentity :=
  (sortBy (compareLex (compareOn fun entry => (memberKey preferred entry).1)
    (compareOn fun entry => (memberKey preferred entry).2)) cycle.members.zipIdx).map (·.1)

/-- The character of the window is this member. -/
def EqWindow.isMember (window : EqWindow) (member : BoxIdentity) : Bool :=
  match window.server, window.character with
  | some server, some character => member.matches server character
  | _, _ => false

/-- The client of a member: the first window of that identity that can be activated. -/
def memberPid (windows : List EqWindow) (activePid : Option Nat) (activatablePips : List Nat) (member : BoxIdentity) :
    Option Nat :=
  (windows.find? fun window =>
    (activePid == some window.pid || activatablePips.contains window.pid) && window.isMember member).map (·.pid)

/-- The windows of the members that can be activated, in the cycle's order. -/
def memberPids (windows : List EqWindow) (activePid : Option Nat) (activatablePips : List Nat)
    (preferred : List BoxIdentity) (cycle : BoxCycle) : List Nat :=
  extendNew id [] ((orderedMembers preferred cycle).filterMap (memberPid windows activePid activatablePips))

/-- The neighbour of the active client among the members' clients. -/
def neighbour (pids : List Nat) (activePid : Option Nat) (direction : CycleDirection) : Option Nat :=
  if pids = [] then none
  else
    match activePid.bind pids.idxOf?, direction with
    | none, .next => pids.head?
    | none, .previous => pids.getLast?
    | some position, direction => pids[direction.place pids.length position]?

/-- `cycle_target_pid`. -/
def cycleTargetPid (windows : List EqWindow) (activePid : Option Nat) (activatablePips : List Nat)
    (preferred : List BoxIdentity) (cycle : BoxCycle) (direction : CycleDirection) : Option Nat :=
  neighbour (memberPids windows activePid activatablePips preferred cycle) activePid direction

namespace ClientRegistry

/-- `cycle_target` on the registry's own windows. -/
def cycleTarget (c : ClientRegistry) (cycle : BoxCycle) (direction : CycleDirection) : Option Nat :=
  cycleTargetPid c.windows c.activePid c.pipOrder c.preferredOrder cycle direction

/-- `cycle_box`, when Windows confirms the foreground requests. -/
def cycleBox (cycle : BoxCycle) (autoOrder : Bool) (direction : CycleDirection) (c : ClientRegistry) : ClientRegistry :=
  match c.cycleTarget cycle direction with
  | some pid => (c.activatePid pid .confirmed .confirmed autoOrder).1
  | none => c

/-- The clients of the members of the cycle. -/
def members (c : ClientRegistry) (cycle : BoxCycle) : List Nat :=
  memberPids c.windows c.activePid c.pipOrder c.preferredOrder cycle

variable {c c' : ClientRegistry} {cycle : BoxCycle}

theorem cycleBox_of_target {direction : CycleDirection} {pid : Nat} (h : c.cycleTarget cycle direction = some pid)
    (autoOrder : Bool) : c.cycleBox cycle autoOrder direction = (c.activatePid pid .confirmed .confirmed autoOrder).1 := by
  unfold cycleBox
  rw [h]

/-! ### The clients of the members -/

theorem memberPid_eq (member : BoxIdentity) : memberPid c.windows c.activePid c.pipOrder member =
    (c.windows.find? fun window => decide (window.pid ∈ c.visible) && window.isMember member).map (·.pid) := by
  unfold memberPid
  congr 2
  funext window
  congr 1
  rw [Bool.eq_iff_iff, Bool.or_eq_true, beq_iff_eq, List.contains_iff_mem, decide_eq_true_eq]
  unfold visible
  rw [List.mem_append, Option.mem_toList]

theorem mem_orderedMembers {preferred : List BoxIdentity} {member : BoxIdentity} :
    member ∈ orderedMembers preferred cycle ↔ member ∈ cycle.members := by
  unfold orderedMembers
  rw [List.mem_map]
  simp only [mem_sortBy, Prod.exists, exists_and_right, exists_eq_right]
  constructor
  · rintro ⟨i, hi⟩
    exact List.fst_mem_of_mem_zipIdx hi
  · intro hmem
    obtain ⟨i, hi, rfl⟩ := List.mem_iff_getElem.mp hmem
    exact ⟨i, List.mem_zipIdx_iff_getElem?.mpr (List.getElem?_eq_getElem hi)⟩

theorem mem_members {pid : Nat} : pid ∈ c.members cycle ↔
    ∃ member ∈ cycle.members, memberPid c.windows c.activePid c.pipOrder member = some pid := by
  unfold members memberPids
  rw [mem_extendNew_id, List.mem_filterMap, or_iff_right (List.not_mem_nil)]
  simp only [mem_orderedMembers]

theorem members_nodup : (c.members cycle).Nodup := by
  have h : ((c.members cycle).map id).Nodup := nodup_key_extendNew List.nodup_nil
  rwa [List.map_id] at h

theorem of_mem_members {pid : Nat} (h : pid ∈ c.members cycle) : pid ∈ c.loaded ∧ pid ∈ c.visible := by
  obtain ⟨member, -, hpid⟩ := mem_members.mp h
  rw [memberPid_eq] at hpid
  obtain ⟨window, hfind, rfl⟩ := Option.map_eq_some_iff.mp hpid
  have hmem := List.mem_of_find?_eq_some hfind
  have hvisible := List.find?_some hfind
  rw [Bool.and_eq_true, decide_eq_true_eq] at hvisible
  exact ⟨List.mem_map_of_mem hmem, hvisible.1⟩

theorem members_congr (hwindows : c'.windows = c.windows) (hpreferred : c'.preferredOrder = c.preferredOrder)
    (hvisible : c'.visible.Perm c.visible) : c'.members cycle = c.members cycle := by
  have hmember : memberPid c'.windows c'.activePid c'.pipOrder = memberPid c.windows c.activePid c.pipOrder := by
    funext member
    rw [memberPid_eq, memberPid_eq, hwindows]
    simp only [hvisible.mem_iff]
  unfold members memberPids
  rw [hmember, hpreferred]

/-! ### One activation -/

/-- Nothing but the partition changes, and it holds the same clients. -/
structure Exchanged (c c' : ClientRegistry) : Prop where
  windows : c'.windows = c.windows
  preferred : c'.preferredOrder = c.preferredOrder
  visible : c'.visible.Perm c.visible

theorem Exchanged.refl (c : ClientRegistry) : Exchanged c c := ⟨rfl, rfl, .refl _⟩

theorem Exchanged.trans {c'' : ClientRegistry} (h : Exchanged c c') (h' : Exchanged c' c'') : Exchanged c c'' :=
  ⟨h'.windows.trans h.windows, h'.preferred.trans h.preferred, h'.visible.trans h.visible⟩

theorem Exchanged.members (h : Exchanged c c') : c'.members cycle = c.members cycle :=
  members_congr h.windows h.preferred h.visible

theorem Exchanged.partition (h : Exchanged c c') (hp : c.Partition) : c'.Partition where
  loaded := by
    unfold loaded
    rw [h.windows]
    exact hp.loaded
  visible := h.visible.nodup_iff.mpr hp.visible
  known pid hpid := by
    unfold loaded
    rw [h.windows]
    exact hp.known (h.visible.mem_iff.mp hpid)

theorem getElem?_of_idxOf? {l : List Nat} {i a : Nat} (h : l.idxOf? a = some i) : l[i]? = some a := by
  obtain ⟨hlt, heq, -⟩ := List.idxOf?_eq_some_iff.mp h
  rw [List.getElem?_eq_getElem hlt, heq]

theorem idxOf?_of_getElem? {l : List Nat} (h : l.Nodup) {p a : Nat} (hp : l[p]? = some a) : l.idxOf? a = some p := by
  obtain ⟨hlt, rfl⟩ := List.getElem?_eq_some_iff.mp hp
  rw [List.idxOf?_eq_some_iff]
  exact ⟨hlt, rfl, fun j hj heq => absurd (h.getElem_inj_iff.mp heq) (by omega)⟩

/-- A PiP takes the place of the active client, and this one its place among the PiPs. -/
theorem activatePid_eq {active target i : Nat} (hactive : c.activePid = some active) (hne : active ≠ target)
    (hloaded : target ∈ c.loaded) (hi : c.pipOrder.idxOf? target = some i) (autoOrder : Bool) :
    (c.activatePid target .confirmed .confirmed autoOrder).1 =
      ({ c with activePid := some target, pipOrder := c.pipOrder.set i active } : ClientRegistry).autoOrdered autoOrder := by
  have hne' : ¬ c.activePid = some target := fun h => hne (Option.some.inj (hactive.symm.trans h))
  have hwindow : c.windows.any (·.pid = target) = true := (any_pid_iff target).mpr hloaded
  have hget := getElem?_of_idxOf? hi
  have hpromote : c.promote target maxPips =
      ({ c with activePid := some target, pipOrder := c.pipOrder.set i active }, true) := by
    unfold promote exchangeActiveWithPip
    rw [if_neg hne', hi, hactive]
  unfold activatePid swapTo
  rw [hwindow, if_neg (by simp), if_neg hne', hi]
  dsimp only
  rw [hget]
  dsimp only
  rw [hwindow, hactive, if_neg (by simp), if_neg (by simp), if_neg (by simp), hpromote]
  dsimp only
  rw [if_neg (by simp)]

theorem perm_set {l : List Nat} {i a b : Nat} (hi : l[i]? = some b) : (b :: l.set i a).Perm (a :: l) := by
  obtain ⟨hlt, rfl⟩ := List.getElem?_eq_some_iff.mp hi
  have hset : l.set i a = l.take i ++ a :: l.drop (i + 1) := List.set_eq_take_append_cons_drop.trans (if_pos hlt)
  have hl : l = l.take i ++ l[i] :: l.drop (i + 1) := by
    rw [List.getElem_cons_drop, List.take_append_drop]
  rw [hset]
  conv_rhs => rw [hl]
  exact ((List.perm_middle.cons _).trans (List.Perm.swap _ _ _)).trans (List.perm_middle.symm.cons _)

/-- An activation of a member's client makes it the active one and keeps the clients of the partition. -/
theorem activatePid_exchanged {active target : Nat} (hactive : c.activePid = some active)
    (htarget : target ∈ c.members cycle) (autoOrder : Bool) :
    (c.activatePid target .confirmed .confirmed autoOrder).1.activePid = some target ∧
      Exchanged c (c.activatePid target .confirmed .confirmed autoOrder).1 := by
  obtain ⟨hloaded, hvisible⟩ := of_mem_members htarget
  by_cases hne : active = target
  · have hsame : (c.activatePid target .confirmed .confirmed autoOrder).1 = c := by
      unfold activatePid
      rw [(any_pid_iff target).mpr hloaded, hactive, hne]
      simp
    rw [hsame, hactive, hne]
    exact ⟨rfl, .refl c⟩
  · have hpip : target ∈ c.pipOrder := by
      unfold visible at hvisible
      rw [hactive] at hvisible
      simpa [Ne.symm hne] using hvisible
    obtain ⟨i, hi⟩ := Option.isSome_iff_exists.mp (List.isSome_idxOf?.mpr hpip)
    have hget := getElem?_of_idxOf? hi
    rw [activatePid_eq hactive hne hloaded hi]
    have hsame := Same.autoOrdered ({ c with activePid := some target, pipOrder := c.pipOrder.set i active } : ClientRegistry)
      autoOrder
    refine ⟨hsame.activePid, ?_, ?_, hsame.visible.trans ?_⟩
    · unfold ClientRegistry.autoOrdered
      split_ifs <;> rfl
    · unfold ClientRegistry.autoOrdered
      split_ifs <;> rfl
    · unfold visible
      rw [hactive]
      exact perm_set hget

/-! ### Around the cycle -/

/-- `p` is the place of the active client among the members' clients. -/
def At (c : ClientRegistry) (cycle : BoxCycle) (p : Nat) : Prop :=
  ∃ active, c.activePid = some active ∧ (c.members cycle)[p]? = some active

theorem cycleBox_at {p : Nat} (hat : c.At cycle p) (autoOrder : Bool) (direction : CycleDirection) :
    (c.cycleBox cycle autoOrder direction).At cycle (direction.place (c.members cycle).length p) ∧
      Exchanged c (c.cycleBox cycle autoOrder direction) := by
  obtain ⟨active, hactive, hget⟩ := hat
  have hlt : p < (c.members cycle).length := (List.getElem?_eq_some_iff.mp hget).1
  have hplace : direction.place (c.members cycle).length p < (c.members cycle).length := by
    unfold CycleDirection.place
    split <;> exact Nat.mod_lt _ (by omega)
  obtain ⟨target, htarget⟩ : ∃ target, (c.members cycle)[direction.place (c.members cycle).length p]? = some target :=
    ⟨_, List.getElem?_eq_getElem hplace⟩
  have hcycle : c.cycleTarget cycle direction = some target := by
    have hne : c.members cycle ≠ [] := List.ne_nil_of_length_pos (by omega)
    show neighbour (c.members cycle) c.activePid direction = some target
    unfold neighbour
    rw [if_neg hne, hactive, Option.bind_some, idxOf?_of_getElem? members_nodup hget]
    cases direction <;> exact htarget
  unfold cycleBox
  rw [hcycle]
  dsimp only
  obtain ⟨hnow, hexchanged⟩ := activatePid_exchanged hactive (List.mem_of_getElem? htarget) autoOrder
  refine ⟨⟨target, hnow, ?_⟩, hexchanged⟩
  rw [hexchanged.members]
  exact htarget

/-- The registry after `k` activations of the next target. -/
def cycled (cycle : BoxCycle) (autoOrder : Bool) (c : ClientRegistry) : Nat → ClientRegistry
  | 0 => c
  | k + 1 => (cycled cycle autoOrder c k).cycleBox cycle autoOrder .next

theorem cycled_at {p : Nat} (hat : c.At cycle p) (autoOrder : Bool) (k : Nat) :
    (cycled cycle autoOrder c k).At cycle ((p + k) % (c.members cycle).length) ∧
      Exchanged c (cycled cycle autoOrder c k) := by
  induction k with
  | zero =>
    obtain ⟨active, hactive, hget⟩ := hat
    have hlt : p < (c.members cycle).length := (List.getElem?_eq_some_iff.mp hget).1
    rw [Nat.add_zero, Nat.mod_eq_of_lt hlt]
    exact ⟨⟨active, hactive, hget⟩, .refl c⟩
  | succ k ih =>
    obtain ⟨hat', hexchanged⟩ := ih
    obtain ⟨hnext, hstep⟩ := cycleBox_at hat' autoOrder .next
    rw [hexchanged.members] at hnext
    have hplace : CycleDirection.next.place (c.members cycle).length ((p + k) % (c.members cycle).length) =
        (p + (k + 1)) % (c.members cycle).length := by
      unfold CycleDirection.place
      rw [Nat.mod_add_mod, Nat.add_assoc]
    rw [hplace] at hnext
    exact ⟨hnext, hexchanged.trans hstep⟩

theorem cycleBox_previous_next (hp : c.Partition) {p : Nat} (hat : c.At cycle p) :
    (c.cycleBox cycle false .next).cycleBox cycle false .previous = c := by
  obtain ⟨hat', hexchanged⟩ := cycleBox_at hat false .next
  obtain ⟨active, hactive, hget⟩ := hat
  obtain ⟨target, htarget, hget'⟩ := hat'
  rw [hexchanged.members] at hget'
  have hlt : p < (c.members cycle).length := (List.getElem?_eq_some_iff.mp hget).1
  have hne : c.members cycle ≠ [] := List.ne_nil_of_length_pos (by omega)
  have hnext : c.cycleTarget cycle .next = some target := by
    show neighbour (c.members cycle) c.activePid .next = some target
    unfold neighbour
    rw [if_neg hne, hactive, Option.bind_some, idxOf?_of_getElem? members_nodup hget]
    exact hget'
  have hprevious : (c.cycleBox cycle false .next).cycleTarget cycle .previous = some active := by
    show neighbour ((c.cycleBox cycle false .next).members cycle) (c.cycleBox cycle false .next).activePid .previous = _
    unfold neighbour
    rw [hexchanged.members, if_neg hne, htarget, Option.bind_some, idxOf?_of_getElem? members_nodup hget']
    dsimp only
    rw [CycleDirection.previous_next hlt, hget]
  have hstep := cycleBox_of_target hnext false
  have hundo := cycleBox_of_target hprevious false
  obtain ⟨hloaded, hvisible⟩ := of_mem_members (List.mem_of_getElem? hget)
  obtain ⟨hloaded', hvisible'⟩ := of_mem_members (List.mem_of_getElem? hget')
  rw [hundo]
  by_cases hsame : active = target
  · -- the only client of the cycle
    subst hsame
    have hstays (c : ClientRegistry) (hactive : c.activePid = some active) :
        (c.activatePid active .confirmed .confirmed false).1 = c := by
      unfold activatePid
      split_ifs <;> rfl
    rw [hstep, hstays c hactive, hstays c hactive]
  · unfold visible at hvisible'
    rw [hactive] at hvisible'
    have hpip : target ∈ c.pipOrder := by simpa [Ne.symm hsame] using hvisible'
    have hnodup := hp.visible
    unfold visible at hnodup
    rw [hactive] at hnodup
    obtain ⟨hnotmem, hpips⟩ := List.nodup_cons.mp hnodup
    obtain ⟨i, hi⟩ := Option.isSome_iff_exists.mp (List.isSome_idxOf?.mpr hpip)
    have hgeti := getElem?_of_idxOf? hi
    obtain ⟨hilt, heq⟩ := List.getElem?_eq_some_iff.mp hgeti
    have hexchange := activatePid_eq hactive hsame hloaded' hi false
    rw [hstep, hexchange]
    have hi' : (c.pipOrder.set i active).idxOf? active = some i := by
      rw [List.idxOf?_eq_some_iff]
      refine ⟨by rwa [List.length_set], List.getElem_set_self _, fun j hj h => hnotmem ?_⟩
      rw [List.getElem_set_ne (by omega)] at h
      exact h ▸ List.getElem_mem _
    have hagain := @activatePid_eq { c with activePid := some target, pipOrder := c.pipOrder.set i active } target active i
      rfl (Ne.symm hsame) hloaded hi' false
    refine hagain.trans ?_
    show ({ c with activePid := some active, pipOrder := (c.pipOrder.set i active).set i target } : ClientRegistry) = c
    rw [List.set_set, ← heq, List.set_getElem_self, ← hactive]

/-- The next targets are each of the clients once, and then the first of them again. -/
def Visits (c : ClientRegistry) (cycle : BoxCycle) (autoOrder : Bool) (clients : List Nat) : Prop :=
  ((List.range clients.length).map fun k => (cycled cycle autoOrder c k).activePid).Perm (clients.map some) ∧
    (cycled cycle autoOrder c clients.length).activePid = c.activePid

theorem visits_members {p : Nat} (hat : c.At cycle p) (autoOrder : Bool) : c.Visits cycle autoOrder (c.members cycle) := by
  have hplace (k : Nat) : (cycled cycle autoOrder c k).activePid =
      (c.members cycle)[(p + k) % (c.members cycle).length]? := by
    obtain ⟨⟨active, hactive, hget⟩, hexchanged⟩ := cycled_at hat autoOrder k
    rw [hexchanged.members] at hget
    rw [hactive, hget]
  have hlt : p < (c.members cycle).length := by
    obtain ⟨active, -, hget⟩ := hat
    exact (List.getElem?_eq_some_iff.mp hget).1
  have hrotated : ((List.range (c.members cycle).length).map fun k => (cycled cycle autoOrder c k).activePid) =
      ((c.members cycle).rotate p).map some := by
    refine List.ext_getElem (by simp) fun k hk _ => ?_
    have hk : k < (c.members cycle).length := by simpa using hk
    rw [List.getElem_map, List.getElem_range, hplace, List.getElem_map, List.getElem_rotate, Nat.add_comm p k,
      List.getElem?_eq_getElem]
  refine ⟨hrotated ▸ (List.rotate_perm _ p).map some, ?_⟩
  have hstart : c.activePid = (c.members cycle)[(p + 0) % (c.members cycle).length]? := hplace 0
  rw [hplace, Nat.add_mod_right, hstart, Nat.add_zero]

/-- A member with an active client or PiP of its identity has a client, which is the only one if there is only one. -/
theorem member_visited {member : BoxIdentity} (hmember : member ∈ cycle.members) {window : EqWindow}
    (hwindow : window ∈ c.windows) (hvisible : window.pid ∈ c.visible) (his : window.isMember member = true) :
    ∃ first ∈ c.windows, first.pid ∈ c.visible ∧ first.isMember member = true ∧ first.pid ∈ c.members cycle := by
  have hsome : (c.windows.find? fun window => decide (window.pid ∈ c.visible) && window.isMember member).isSome :=
    List.find?_isSome.mpr ⟨window, hwindow, by rw [his, decide_eq_true hvisible]; rfl⟩
  obtain ⟨first, hfirst⟩ := Option.isSome_iff_exists.mp hsome
  have hfound := List.find?_some hfirst
  rw [Bool.and_eq_true, decide_eq_true_eq] at hfound
  refine ⟨first, List.mem_of_find?_eq_some hfirst, hfound.1, hfound.2, mem_members.mpr ⟨member, hmember, ?_⟩⟩
  rw [memberPid_eq, hfirst, Option.map_some]

/-- From a client that its member resolves to, the next targets go around the members' clients: each once, one for every
member with an active client or PiP of its identity. The step back leads back, and takes the exchange back. -/
theorem cycle_visits_members (c : ClientRegistry) (cycle : BoxCycle) (autoOrder : Bool) {active : Nat}
    (hactive : c.activePid = some active) (hmember : active ∈ c.members cycle) :
    c.Visits cycle autoOrder (c.members cycle) ∧ (c.members cycle).Nodup ∧
    (∀ member ∈ cycle.members, ∀ window ∈ c.windows, window.pid ∈ c.visible → window.isMember member = true →
      ∃ first ∈ c.windows, first.pid ∈ c.visible ∧ first.isMember member = true ∧ first.pid ∈ c.members cycle) ∧
    (∀ k, (cycled cycle autoOrder c k).visible.Perm c.visible) ∧
    ((c.cycleBox cycle autoOrder .next).cycleBox cycle autoOrder .previous).activePid = c.activePid ∧
    (c.Partition → (c.cycleBox cycle false .next).cycleBox cycle false .previous = c) := by
  obtain ⟨p, hp⟩ := List.mem_iff_getElem?.mp hmember
  have hat : c.At cycle p := ⟨active, hactive, hp⟩
  have hlt : p < (c.members cycle).length := (List.getElem?_eq_some_iff.mp hp).1
  obtain ⟨hat', hnext⟩ := cycleBox_at hat autoOrder .next
  have hback : ((c.cycleBox cycle autoOrder .next).cycleBox cycle autoOrder .previous).activePid = c.activePid := by
    obtain ⟨⟨last, hlast, hgetlast⟩, hprevious⟩ := cycleBox_at hat' autoOrder .previous
    rw [hprevious.members, hnext.members, CycleDirection.previous_next hlt, hp] at hgetlast
    rw [hlast, hactive, hgetlast]
  exact ⟨visits_members hat autoOrder, members_nodup,
    fun member hmem window hwindow hvisible his => member_visited hmem hwindow hvisible his,
    fun k => (cycled_at hat autoOrder k).2.visible, hback, fun hpartition => cycleBox_previous_next hpartition hat⟩

/-- Three characters of one server, the second one in front. -/
def cycleRoster : ClientRegistry where
  windows :=
    [{ hwnd := 10, pid := 1, number := 1, character := some "Alu".toList, server := some "xev".toList },
      { hwnd := 20, pid := 2, number := 2, character := some "Bor".toList, server := some "xev".toList },
      { hwnd := 30, pid := 3, number := 3, character := some "Cyn".toList, server := some "xev".toList }]
  pipOrder := [3, 1]
  activePid := some 2

/-- A cycle over the three, in another case and order. -/
def fullCycle : BoxCycle := ⟨[⟨"XEV".toList, "cyn".toList⟩, ⟨"xev".toList, "alu".toList⟩, ⟨"xev".toList, "BOR".toList⟩]⟩

theorem cycle_visits_members_roster : cycleRoster.activePid = some 2 ∧ 2 ∈ cycleRoster.members fullCycle ∧
    cycleRoster.members fullCycle = [3, 1, 2] ∧ cycleRoster.Visits fullCycle true (cycleRoster.members fullCycle) :=
  ⟨by decide +kernel, by decide +kernel, by decide +kernel,
    (cycle_visits_members cycleRoster fullCycle true (show cycleRoster.activePid = some 2 from rfl) (by decide +kernel)).1⟩

/-- The roster with a second window of the first character, which is the active one. -/
def twinRoster : ClientRegistry :=
  { cycleRoster with windows := updFirst cycleRoster.windows (·.pid = 2) ({ · with character := some "Alu".toList }) }

/-- Another window of a member's identity is not the client that the member resolves to, and has no place in the cycle:
the step from there leads to the first client, and the step back from this one to the last. -/
theorem twin_has_no_place : ¬ ∀ (c : ClientRegistry) (cycle : BoxCycle), c.Partition →
    (∃ window ∈ c.windows, c.activePid = some window.pid ∧ ∃ member ∈ cycle.members, window.isMember member = true) →
    (∃ clients, clients ≠ [] ∧ c.Visits cycle false clients) ∧
      ((c.cycleBox cycle false .next).cycleBox cycle false .previous).activePid = c.activePid := by
  intro hall
  have hp : twinRoster.Partition := ⟨by decide +kernel, by decide +kernel, by decide +kernel⟩
  obtain ⟨-, hback⟩ := hall twinRoster fullCycle hp (by decide +kernel)
  exact absurd hback (by decide +kernel)

end ClientRegistry

end Stonemite.Overlay
