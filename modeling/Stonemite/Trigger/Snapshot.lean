import Stonemite.Lib.Successive
import Stonemite.Trigger.Constraints

/-!
# The snapshot of a line's matches

After an empty match the next search starts one byte further on. In front of a character of more than one byte that is
not a character boundary; until then the searches find the successive matches. `Searches` relates the loop to the matches
that follow one another; `Unstranded` is the condition on these, and `snapshotRight_iff` the equivalence.
-/

namespace Stonemite.Triggers

variable {P : Platform}

/-- A byte position between two characters. -/
def Boundary (text : Str) (p : Nat) : Prop := ∃ pre post, text = pre ++ post ∧ p = pre.len

/-- Where the whole match starts and stops. -/
def wholeSpan : Captures → Nat × Nat
  | some whole :: _ => (whole.start, whole.stop)
  | _ => (0, 0)

/-- Where a match may start after another: behind it, and not where it started. -/
def FollowsMatch (m : Captures) (p : Nat) : Prop := (wholeSpan m).2 ≤ p ∧ (wholeSpan m).1 < p

/-- An empty match in front of a character of more than one byte. -/
def Stranded (text : Str) (m : Captures) : Prop :=
  (wholeSpan m).1 = (wholeSpan m).2 ∧ (wholeSpan m).2 < text.len ∧ ¬ Boundary text ((wholeSpan m).2 + 1)

/-- From a character boundary the search returns the first match at or after it. -/
structure Searches (P : Platform) (regex : P.Regex) (text : Str) (matchAt : Nat → Option Captures) : Prop where
  search : ∀ start, Boundary text start → ∃ found, P.capturesFromPos regex text start = .ok found ∧
    ((found = none ∧ ∀ p, Boundary text p → start ≤ p → matchAt p = none) ∨
      ∃ m ∈ found, FirstMatch (Boundary text) matchAt (start ≤ ·) m)
  whole : ∀ p m, matchAt p = some m →
    ∃ whole groups, m = some whole :: groups ∧ whole.start = p ∧ p ≤ whole.stop ∧ Boundary text whole.stop

section
variable (P)

/-- Where `snapshotLoop` starts its searches. -/
def searchStarts (regex : CompatRegex P) (text : Str) : Nat → Nat → List Nat
  | 0, _ => []
  | scans + 1, start =>
    if start > text.len then []
    else
      start :: match P.capturesFromPos regex.regex text start with
        | .ok (some (some whole :: _)) =>
          Triggers.searchStarts regex text scans (if whole.stop > whole.start then whole.stop else whole.stop + 1)
        | _ => []

end

/-- The searches start at character boundaries, the spans are those of the first 64 successive matches, none of them
twice, and the groups of one key hold what the last of them captured. -/
structure SnapshotRight (regex : CompatRegex P) (text : Str) (matchAt : Nat → Option Captures) : Prop where
  starts : ∀ start ∈ searchStarts P regex text 64 0, Boundary text start
  outcome : ∃ ms, Successive (Boundary text) matchAt FollowsMatch 64 (fun _ => True) ms ∧
    (ms = [] ∧ regex.snapshotMatches P text = .ok none ∨
      ∃ outcome, regex.snapshotMatches P text = .ok (some outcome) ∧ outcome.spans = ms.map wholeSpan ∧
        outcome.spans.Nodup ∧ ∀ key, outcome.captures.get key =
          latest (ms.flatMap fun m => namedGroups m 1 (regex.groupNames.drop 1)) key)

/-- None of the successive matches after which there is another search is stranded. -/
def Unstranded (text : Str) (matchAt : Nat → Option Captures) : Prop :=
  ∀ ms, Successive (Boundary text) matchAt FollowsMatch 64 (fun _ => True) ms → ∀ m ∈ ms.take 63, ¬ Stranded text m

/-! ### One search -/

section
variable {regex : CompatRegex P} {text : Str} {matchAt : Nat → Option Captures} {start n : Nat} {ok : Nat → Prop}

theorem Boundary.zero (text : Str) : Boundary text 0 := ⟨[], text, rfl, rfl⟩

theorem Boundary.le {p : Nat} (h : Boundary text p) : p ≤ text.len := by
  obtain ⟨pre, post, rfl, rfl⟩ := h
  unfold Str.len Str.bytes
  rw [List.flatMap_append, List.length_append]
  exact Nat.le_add_right _ _

/-- A search from `start` is a search among the allowed positions. -/
structure Ready (text : Str) (start : Nat) (ok : Nat → Prop) : Prop where
  boundary : start ≤ text.len → Boundary text start
  ok_iff : ∀ p, Boundary text p → (ok p ↔ start ≤ p)

theorem Ready.zero : Ready text 0 (fun _ => True) where
  boundary _ := .zero text
  ok_iff p _ := iff_of_true trivial (Nat.zero_le p)

theorem Ready.firstMatch_iff (h : Ready text start ok) {m : Captures} :
    FirstMatch (Boundary text) matchAt (start ≤ ·) m ↔ FirstMatch (Boundary text) matchAt ok m := by
  constructor
  · rintro ⟨p, hp, hok, hmatch, hbefore⟩
    exact ⟨p, hp, (h.ok_iff p hp).mpr hok, hmatch, fun q hq hqok => hbefore q hq ((h.ok_iff q hq).mp hqok)⟩
  · rintro ⟨p, hp, hok, hmatch, hbefore⟩
    exact ⟨p, hp, (h.ok_iff p hp).mp hok, hmatch, fun q hq hqok => hbefore q hq ((h.ok_iff q hq).mpr hqok)⟩

/-- The start of the search after a match. -/
def nextStart (m : Captures) : Nat :=
  if (wholeSpan m).2 > (wholeSpan m).1 then (wholeSpan m).2 else (wholeSpan m).2 + 1

/-- After a match that is not stranded the next search is among the positions that follow it. -/
theorem Searches.ready_next (hs : Searches P regex.regex text matchAt) {m : Captures}
    (hfirst : FirstMatch (Boundary text) matchAt ok m) (hm : ¬ Stranded text m) :
    Ready text (nextStart m) (FollowsMatch m) := by
  obtain ⟨p, -, -, hmatch, -⟩ := hfirst
  obtain ⟨whole, groups, rfl, rfl, hle, hstop⟩ := hs.whole p m hmatch
  by_cases hempty : whole.start < whole.stop
  · have hnext : nextStart (some whole :: groups) = whole.stop := if_pos hempty
    rw [hnext]
    exact ⟨fun _ => hstop, fun q _ => ⟨fun h => h.1, fun h => ⟨h, hempty.trans_le h⟩⟩⟩
  · have hnext : nextStart (some whole :: groups) = whole.stop + 1 := if_neg hempty
    have hsame : whole.start = whole.stop := hle.antisymm (not_lt.mp hempty)
    rw [hnext]
    refine ⟨fun hlen => ?_, fun q _ => ⟨fun h => ?_, fun h => ⟨Nat.le_of_succ_le h, ?_⟩⟩⟩
    · by_contra hnot
      exact hm ⟨hsame, hlen, hnot⟩
    · rw [← hsame]
      exact h.2
    · show whole.start < q
      rw [hsame]
      exact h

theorem Searches.found (hs : Searches P regex.regex text matchAt) (h : Ready text start ok) (hlen : ¬ start > text.len) :
    (P.capturesFromPos regex.regex text start = .ok none ∧ ∀ p, Boundary text p → ok p → matchAt p = none) ∨
      ∃ whole groups, P.capturesFromPos regex.regex text start = .ok (some (some whole :: groups)) ∧
        FirstMatch (Boundary text) matchAt ok (some whole :: groups) := by
  obtain ⟨found, hfound, ⟨rfl, hnone⟩ | ⟨m, hm, hfirst⟩⟩ := hs.search start (h.boundary (not_lt.mp hlen))
  · exact .inl ⟨hfound, fun p hp hok => hnone p hp ((h.ok_iff p hp).mp hok)⟩
  · obtain ⟨p, -, -, hmatch, -⟩ := id hfirst
    obtain ⟨whole, groups, rfl, -⟩ := hs.whole p m hmatch
    obtain rfl := hm
    exact .inr ⟨whole, groups, hfound, h.firstMatch_iff.mp hfirst⟩

/-! ### All searches -/

theorem scans_of_beyond (h : start > text.len) :
    scans P regex text n start = [] ∧ searchStarts P regex text n start = [] := by
  cases n with
  | zero => exact ⟨rfl, rfl⟩
  | succ n => exact ⟨if_pos h, if_pos h⟩

theorem scans_of_none (hlen : ¬ start > text.len) (h : P.capturesFromPos regex.regex text start = .ok none) :
    scans P regex text (n + 1) start = [] ∧ searchStarts P regex text (n + 1) start = [start] := by
  rw [scans, if_neg hlen, searchStarts, if_neg hlen, h]
  exact ⟨rfl, rfl⟩

theorem scans_of_found (hlen : ¬ start > text.len) {whole : Group} {groups : Captures}
    (h : P.capturesFromPos regex.regex text start = .ok (some (some whole :: groups))) :
    scans P regex text (n + 1) start =
        (some whole :: groups) :: scans P regex text n (nextStart (some whole :: groups)) ∧
      searchStarts P regex text (n + 1) start =
        start :: searchStarts P regex text n (nextStart (some whole :: groups)) := by
  rw [scans, if_neg hlen, searchStarts, if_neg hlen, h]
  exact ⟨rfl, rfl⟩

theorem Ready.nil_of_beyond (h : Ready text start ok) (hlen : start > text.len) {ms : List Captures}
    (hms : Successive (Boundary text) matchAt FollowsMatch n ok ms) : ms = [] := by
  cases n with
  | zero => exact hms
  | succ n =>
    cases ms with
    | nil => rfl
    | cons m ms =>
      obtain ⟨⟨p, hp, hok, -⟩, -⟩ := hms
      have hle := (h.ok_iff p hp).mp hok
      have hp' := hp.le
      omega

/-- While no match is stranded, the searches start at boundaries and find the successive matches. -/
theorem Searches.scans_eq (hs : Searches P regex.regex text matchAt) (h : Ready text start ok) {ms : List Captures}
    (hms : Successive (Boundary text) matchAt FollowsMatch n ok ms) (hstranded : ∀ m ∈ ms.take (n - 1), ¬ Stranded text m) :
    scans P regex text n start = ms ∧ ∀ s ∈ searchStarts P regex text n start, Boundary text s := by
  induction n generalizing start ok ms with
  | zero =>
    obtain rfl := hms
    exact ⟨rfl, nofun⟩
  | succ n ih =>
    by_cases hlen : start > text.len
    · obtain rfl := h.nil_of_beyond hlen hms
      obtain ⟨hscans, hstarts⟩ : scans P regex text (n + 1) start = [] ∧ searchStarts P regex text (n + 1) start = [] :=
        scans_of_beyond hlen
      exact ⟨hscans, by rw [hstarts]; nofun⟩
    have hboundary := h.boundary (not_lt.mp hlen)
    obtain ⟨hfind, hnone⟩ | ⟨whole, groups, hfind, hfirst⟩ := hs.found h hlen
    · obtain ⟨hscans, hstarts⟩ := scans_of_none (n := n) hlen hfind
      cases ms with
      | nil =>
        refine ⟨hscans, fun s hmem => ?_⟩
        rw [hstarts] at hmem
        rwa [List.mem_singleton.mp hmem]
      | cons m ms =>
        obtain ⟨⟨p, hp, hok, hmatch, -⟩, -⟩ := hms
        rw [hnone p hp hok] at hmatch
        cases hmatch
    · obtain ⟨hscans, hstarts⟩ := scans_of_found (n := n) hlen hfind
      cases ms with
      | nil =>
        obtain ⟨p, hp, hok, hmatch, -⟩ := hfirst
        rw [hms p hp hok] at hmatch
        cases hmatch
      | cons m ms =>
        obtain rfl := hms.1.unique hfirst
        cases n with
        | zero =>
          obtain rfl := hms.2
          refine ⟨hscans, fun s hmem => ?_⟩
          rw [hstarts] at hmem
          rwa [List.mem_singleton.mp hmem]
        | succ n =>
          have hready := hs.ready_next hfirst (hstranded _ List.mem_cons_self)
          obtain ⟨hrest, hboundaries⟩ := ih hready hms.2 fun m hm => hstranded m (List.mem_cons_of_mem _ hm)
          rw [hscans, hstarts, hrest]
          exact ⟨rfl, List.forall_mem_cons.mpr ⟨hboundary, hboundaries⟩⟩

/-- A stranded match sends the next search off the boundaries. -/
theorem Searches.off_boundary (hs : Searches P regex.regex text matchAt) (h : Ready text start ok) {ms : List Captures}
    (hms : Successive (Boundary text) matchAt FollowsMatch n ok ms) {m : Captures} (hm : m ∈ ms.take (n - 1))
    (hstranded : Stranded text m) : ∃ s ∈ searchStarts P regex text n start, ¬ Boundary text s := by
  induction n generalizing start ok ms with
  | zero => cases hm
  | succ n ih =>
    cases ms with
    | nil =>
      rw [List.take_nil] at hm
      cases hm
    | cons first ms =>
      have hlen : ¬ start > text.len := fun hlen => List.cons_ne_nil _ _ (h.nil_of_beyond hlen hms)
      obtain ⟨-, hnone⟩ | ⟨whole, groups, hfind, hfirst⟩ := hs.found h hlen
      · obtain ⟨p, hp, hok, hmatch, -⟩ := hms.1
        rw [hnone p hp hok] at hmatch
        cases hmatch
      obtain rfl := hms.1.unique hfirst
      obtain ⟨-, hstarts⟩ := scans_of_found (n := n) hlen hfind
      rw [hstarts]
      cases n with
      | zero => cases hm
      | succ n =>
        by_cases hhere : Stranded text (some whole :: groups)
        · -- the next search starts in the middle of a character
          obtain ⟨hempty, hinside, hoff⟩ := hhere
          have hnext : nextStart (some whole :: groups) = whole.stop + 1 := if_neg (not_lt.mpr hempty.ge)
          have hsearch : ¬ whole.stop + 1 > text.len := not_lt.mpr hinside
          refine ⟨whole.stop + 1, List.mem_cons_of_mem _ ?_, hoff⟩
          rw [hnext, searchStarts, if_neg hsearch]
          exact List.mem_cons_self
        · obtain rfl | hm := List.mem_cons.mp hm
          · exact absurd hstranded hhere
          · obtain ⟨s, hmem, hoff⟩ := ih (hs.ready_next hfirst hhere) hms.2 hm
            exact ⟨s, List.mem_cons_of_mem _ hmem, hoff⟩

/-! ### The outcome -/

theorem snapshotLoop_eq (hsearch : ∀ s ∈ searchStarts P regex text n start, ∃ found,
    P.capturesFromPos regex.regex text s = .ok found ∧ ∀ m ∈ found, ∃ whole groups, m = some whole :: groups)
    (found : Bool) (before : MatchOutcome) : ∃ after, after.spans = before.spans ++ (scans P regex text n start).map wholeSpan ∧
      snapshotLoop P regex text n start found before =
        .ok (if found || !(scans P regex text n start).isEmpty then some after else none) := by
  induction n generalizing start found before with
  | zero => exact ⟨before, (List.append_nil _).symm, by rw [snapshotLoop, scans, List.isEmpty_nil, Bool.not_true, Bool.or_false]⟩
  | succ n ih =>
    by_cases hlen : start > text.len
    · obtain ⟨hscans, -⟩ : scans P regex text (n + 1) start = [] ∧ searchStarts P regex text (n + 1) start = [] :=
        scans_of_beyond hlen
      refine ⟨before, by rw [hscans, List.map_nil, List.append_nil], ?_⟩
      rw [snapshotLoop, if_pos hlen, hscans, List.isEmpty_nil, Bool.not_true, Bool.or_false]
    · have hhead : start ∈ searchStarts P regex text (n + 1) start := by
        rw [searchStarts, if_neg hlen]
        exact List.mem_cons_self
      obtain ⟨captures, hfind, hwhole⟩ := hsearch start hhead
      cases captures with
      | none =>
        obtain ⟨hscans, -⟩ := scans_of_none (n := n) hlen hfind
        refine ⟨before, by rw [hscans, List.map_nil, List.append_nil], ?_⟩
        rw [snapshotLoop, if_neg hlen, hfind, hscans, List.isEmpty_nil, Bool.not_true, Bool.or_false]
      | some m =>
        obtain ⟨whole, groups, rfl⟩ := hwhole m rfl
        obtain ⟨hscans, hstarts⟩ := scans_of_found (n := n) hlen hfind
        have hrest := fun s hmem => hsearch s (by rw [hstarts]; exact List.mem_cons_of_mem _ hmem)
        obtain ⟨after, hspans, hloop⟩ := ih hrest true
          ⟨insertGroups (some whole :: groups) 1 (regex.groupNames.drop 1) before.captures,
            before.spans ++ [(whole.start, whole.stop)]⟩
        refine ⟨after, ?_, ?_⟩
        · rw [hspans, hscans, List.map_cons, List.append_assoc]
          rfl
        · rw [snapshotLoop, if_neg hlen, hfind, hscans, List.isEmpty_cons, Bool.not_false, Bool.or_true]
          exact hloop

theorem Searches.nodup_spans (hs : Searches P regex.regex text matchAt) {ms : List Captures}
    (hms : Successive (Boundary text) matchAt FollowsMatch n ok ms) : (ms.map wholeSpan).Nodup := by
  have hposition (p : Nat) (m : Captures) (h : matchAt p = some m) : (wholeSpan m).1 = p := by
    obtain ⟨whole, groups, rfl, hstart, -⟩ := hs.whole p m h
    exact hstart
  have hordered := hms.pairwise hposition fun m p h => h.2
  refine List.pairwise_map.mpr (hordered.imp fun hlt heq => ?_)
  rw [heq] at hlt
  exact lt_irrefl _ hlt

/-- The snapshot is right exactly when no match followed by another search is stranded. -/
theorem snapshotRight_iff (regex : CompatRegex P) (text : Str) (matchAt : Nat → Option Captures)
    (hs : Searches P regex.regex text matchAt) : SnapshotRight regex text matchAt ↔ Unstranded text matchAt := by
  constructor
  · intro h ms hms m hm hstranded
    obtain ⟨s, hmem, hoff⟩ := hs.off_boundary .zero hms hm hstranded
    exact hoff (h.starts s hmem)
  · intro h
    obtain ⟨ms, hms⟩ : ∃ ms, Successive (Boundary text) matchAt FollowsMatch 64 (fun _ => True) ms :=
      Successive.exists 64 fun _ => True
    obtain ⟨hscans, hstarts⟩ := hs.scans_eq .zero hms (h ms hms)
    refine ⟨hstarts, ms, hms, ?_⟩
    have hsearch : ∀ s ∈ searchStarts P regex text 64 0, ∃ found,
        P.capturesFromPos regex.regex text s = .ok found ∧ ∀ m ∈ found, ∃ whole groups, m = some whole :: groups := by
      intro s hmem
      obtain ⟨found, hfound, hcases⟩ := hs.search s (hstarts s hmem)
      refine ⟨found, hfound, fun m hm => ?_⟩
      obtain ⟨rfl, -⟩ | ⟨m', hm', p, -, -, hmatch, -⟩ := hcases
      · exact absurd hm (Option.not_mem_none m)
      · obtain ⟨whole, groups, hwhole, -⟩ := hs.whole p m' hmatch
        exact ⟨whole, groups, (Option.mem_unique hm hm').trans hwhole⟩
    obtain ⟨after, hspans, hloop⟩ := snapshotLoop_eq hsearch false ⟨.new, []⟩
    rw [hscans] at hspans hloop
    cases ms with
    | nil => exact .inl ⟨rfl, hloop⟩
    | cons m ms =>
      refine .inr ⟨after, hloop, hspans, ?_, fun key => ?_⟩
      · rw [hspans]
        exact hs.nodup_spans hms
      · rw [MatchMap.captures_eq regex text after hloop, (MatchMap.insertPairs_spec _).2 key]
        unfold captured
        rw [hscans]

end

/-! ### The empty pattern -/

/-- The character boundaries of a text. -/
def boundaries (text : Str) : List Nat := (List.range (text.length + 1)).map fun k => Str.len (text.take k)

theorem boundary_iff {text : Str} {p : Nat} : Boundary text p ↔ p ∈ boundaries text := by
  unfold Boundary boundaries
  rw [List.mem_map]
  constructor
  · rintro ⟨pre, post, rfl, rfl⟩
    refine ⟨pre.length, List.mem_range.mpr ?_, by rw [List.take_left]⟩
    rw [List.length_append]
    omega
  · rintro ⟨k, -, rfl⟩
    exact ⟨text.take k, text.drop k, (List.take_append_drop k text).symm, rfl⟩

/-- The platform on which every pattern matches the empty text at every boundary. -/
def emptyPattern : Platform := { Literal.platform with
  Regex := Unit
  build := fun _ _ => .ok ()
  captureNames := fun _ => [none]
  capturesFromPos := fun _ text start =>
    let found := if start ∈ boundaries text then some start else (boundaries text).find? (start ≤ ·)
    .ok (found.map fun p => [some ⟨p, p, []⟩]) }

def emptyRegex : CompatRegex emptyPattern := ⟨(), [none]⟩

/-- It matches at every boundary. -/
def emptyAt (text : Str) (p : Nat) : Option Captures := if p ∈ boundaries text then some [some ⟨p, p, []⟩] else none

theorem searches_emptyPattern (text : Str) : Searches emptyPattern emptyRegex.regex text (emptyAt text) where
  search start h := by
    have hmem := boundary_iff.mp h
    refine ⟨some [some ⟨start, start, []⟩], ?_, .inr ⟨_, rfl, start, h, le_rfl, if_pos hmem, fun q _ hle hlt => ?_⟩⟩
    · show Except.ok _ = _
      rw [if_pos hmem]
      rfl
    · exact absurd hlt (not_lt.mpr hle)
  whole p m h := by
    unfold emptyAt at h
    split_ifs at h with hmem
    obtain rfl := Option.some.inj h
    exact ⟨⟨p, p, []⟩, [], rfl, rfl, le_rfl, boundary_iff.mpr hmem⟩

theorem snapshotRight_ascii : SnapshotRight emptyRegex "ab".toList (emptyAt "ab".toList) := by
  refine (snapshotRight_iff emptyRegex "ab".toList _ (searches_emptyPattern _)).mpr fun ms _ m _ hstranded => ?_
  obtain ⟨-, hinside, hoff⟩ := hstranded
  have hlen : Str.len "ab".toList = 2 := by decide +kernel
  have hall : boundaries "ab".toList = [0, 1, 2] := by decide +kernel
  rw [hlen] at hinside
  rw [boundary_iff, hall] at hoff
  generalize (wholeSpan m).2 = stop at hinside hoff
  interval_cases stop
  · exact hoff (by decide)
  · exact hoff (by decide)

/-- In front of a character of two bytes the second search starts inside it. -/
theorem search_inside_character : ¬ ∀ (P : Platform) (regex : CompatRegex P) (text : Str) (matchAt : Nat → Option Captures),
    Searches P regex.regex text matchAt → SnapshotRight regex text matchAt := by
  intro h
  have hright := h emptyPattern emptyRegex ['é'] (emptyAt ['é']) (searches_emptyPattern ['é'])
  have hmem : 1 ∈ searchStarts emptyPattern emptyRegex ['é'] 64 0 := by decide +kernel
  have hinside := boundary_iff.mp (hright.starts 1 hmem)
  exact absurd hinside (by decide +kernel)

end Stonemite.Triggers
