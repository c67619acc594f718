import Stonemite.Overlay.Partition

/-!
# Loaded clients that nothing shows

A client is hidden when the PiP list is full. It comes back only when it is focused: a poll that removes visible clients
fills the list with new ones, but not with the hidden ones. `Suffices` says when the clients that a poll shows are
enough. `covers_after_polls` is the equivalence for one poll in any state of a run.
-/

namespace Stonemite.Overlay.ClientRegistry
variable {c : ClientRegistry}

/-- Some client is active, and every loaded one is the active one or a PiP, unless the PiPs are at their maximum. -/
def Covers (c : ClientRegistry) : Prop :=
  (c.loaded ≠ [] → c.activePid.isSome) ∧
    ∀ pid ∈ c.loaded, c.activePid = some pid ∨ pid ∈ c.pipOrder ∨ maxPips ≤ c.pipOrder.length

/-- The visible clients that stay loaded, the new ones and the focused one are all clients, or enough for the
active client and every PiP. -/
def Suffices (c : ClientRegistry) (p : Poll) : Prop :=
  (∀ window ∈ p.windows, window.pid ∈ c.shownBy p) ∨ maxPips + 1 ≤ (c.shownBy p).card

theorem covers_iff {shown : Finset Nat} (h : c.Shows shown) :
    c.Covers ↔ (∀ pid ∈ c.loaded, pid ∈ shown) ∨ maxPips + 1 ≤ shown.card := by
  have hvisible (pid : Nat) : pid ∈ c.visible ↔ c.activePid = some pid ∨ pid ∈ c.pipOrder := by
    unfold visible
    rw [List.mem_append]
    exact or_congr_left Option.mem_toList
  have hactive : c.visible ≠ [] → c.activePid.isSome := by
    intro hne
    rcases h.headed.length with ⟨hlen, -⟩ | ⟨-, hsome⟩
    · exact absurd (List.length_eq_zero_iff.mp hlen) hne
    · exact hsome
  by_cases hmany : maxPips + 1 ≤ shown.card
  · have hpips := h.many hmany
    refine iff_of_true ⟨fun _ => hactive fun hnil => ?_, fun pid _ => .inr (.inr hpips.ge)⟩ (.inr hmany)
    have hlen := congrArg List.length hnil
    unfold visible at hlen
    rw [List.length_append, hpips, List.length_nil] at hlen
    have hpos : 0 < maxPips := by decide
    omega
  · have hfew := h.few (by omega)
    have hmem (pid : Nat) : pid ∈ shown ↔ pid ∈ c.visible := by rw [← hfew, List.mem_toFinset]
    have hpips : c.pipOrder.length < maxPips := by
      have hcard := List.toFinset_card_of_nodup h.partition.visible
      rw [hfew] at hcard
      rcases h.headed.length with ⟨-, -, hnil⟩ | ⟨hlen, -⟩
      · rw [hnil]
        decide
      · omega
    constructor
    · rintro ⟨-, hcovers⟩
      refine .inl fun pid hpid => (hmem pid).mpr ((hvisible pid).mpr ?_)
      rcases hcovers pid hpid with hpid | hpid | hfull
      · exact .inl hpid
      · exact .inr hpid
      · omega
    · rintro (hall | hcard)
      · constructor
        · intro hne
          obtain ⟨pid, hpid⟩ := List.exists_mem_of_ne_nil _ hne
          exact hactive (List.ne_nil_of_mem ((hmem pid).mp (hall pid hpid)))
        · intro pid hpid
          rcases (hvisible pid).mp ((hmem pid).mp (hall pid hpid)) with hin | hin
          · exact .inl hin
          · exact .inr (.inl hin)
      · omega

/-- A poll leaves no client without a place exactly when what it shows suffices. -/
theorem poll_covers_iff (h : c.Held) (p : Poll) : (c.poll p).Covers ↔ c.Suffices p := by
  obtain ⟨hloaded, hshows⟩ := poll_shows h p
  rw [covers_iff hshows]
  refine or_congr_left ⟨fun hall window hwindow => ?_, fun hall pid hpid => ?_⟩
  · refine hall window.pid ?_
    rw [← List.mem_toFinset, hloaded, List.mem_toFinset]
    exact List.mem_map_of_mem hwindow
  · rw [← List.mem_toFinset, hloaded, List.mem_toFinset] at hpid
    obtain ⟨window, hwindow, rfl⟩ := List.mem_map.mp hpid
    exact hall window hwindow

/-- In every run no client is without a place after any poll exactly when every poll's clients suffice. -/
theorem covers_after_polls (boxOrder : List BoxIdentity) (events : List Event) :
    (∀ pre p post, events = pre ++ .poll p :: post → (run boxOrder (pre ++ [.poll p])).Covers) ↔
      Along (fun c event => ∀ p, event = .poll p → c.Suffices p) step { preferredOrder := boxOrder } events := by
  rw [Along.iff_forall]
  have hstep (pre : List Event) (p : Poll) :
      (run boxOrder (pre ++ [.poll p])).Covers ↔ (run boxOrder pre).Suffices p := by
    rw [← poll_covers_iff (Held.run boxOrder pre) p]
    unfold run
    rw [List.foldl_append]
    rfl
  constructor
  · rintro hall pre event post hevents p rfl
    exact (hstep pre p).mp (hall pre p post hevents)
  · intro hall pre p post hevents
    exact (hstep pre p).mpr (hall pre (.poll p) post hevents p rfl)

/-! ### A client that stays hidden -/

theorem insertionSort_congr {l l' : List Nat} (h : l.Perm l') :
    l.insertionSort (· ≤ ·) = l'.insertionSort (· ≤ ·) := by
  refine List.Perm.eq_of_pairwise (fun a b _ _ hab hba => Nat.le_antisymm hab hba)
    (List.pairwise_insertionSort _ l) (List.pairwise_insertionSort _ l') ?_
  exact ((List.perm_insertionSort _ l).trans h).trans (List.perm_insertionSort _ l').symm

/-- The smaller process ids first. -/
def ascending : HashOrder where
  visit s := Quotient.liftOn s.val (fun l => l.insertionSort (· ≤ ·)) fun _ _ => insertionSort_congr
  mem_visit s a := by
    obtain ⟨⟨l⟩, hl⟩ := s
    exact (List.perm_insertionSort _ l).mem_iff
  nodup_visit s := by
    obtain ⟨⟨l⟩, hl⟩ := s
    exact (List.perm_insertionSort _ l).nodup_iff.mpr hl

/-- A poll that finds the clients and no focused one. -/
def finds (pids : List Nat) : Poll where
  windows := pids.map fun pid => { hwnd := pid, pid, number := 0 }
  foreground := 0
  focused := false
  identities _ := none
  autoOrder := false
  identityAutoOrder := false
  order := ascending

/-- Seven clients start, and the six that are shown exit. -/
def sixExits : List Event := [.poll (finds [1, 2, 3, 4, 5, 6, 7]), .poll (finds [7])]

/-- The last client is loaded and none is active. -/
theorem hidden_client_stranded : ¬ ∀ (boxOrder : List BoxIdentity) (events : List Event) (pre : List Event) (p : Poll)
    (post : List Event), events = pre ++ .poll p :: post → (run boxOrder (pre ++ [.poll p])).Covers := by
  intro h
  have hcovers := h [] sixExits [.poll (finds [1, 2, 3, 4, 5, 6, 7])] (finds [7]) [] rfl
  have hloaded : (run [] sixExits).loaded = [7] := by decide +kernel
  have hactive : (run [] sixExits).activePid = none := by decide +kernel
  have hsome := hcovers.1 (show (run [] sixExits).loaded ≠ [] by rw [hloaded]; exact List.cons_ne_nil _ _)
  have hsome' : (run [] sixExits).activePid.isSome := hsome
  rw [hactive] at hsome'
  cases hsome'

end Stonemite.Overlay.ClientRegistry
