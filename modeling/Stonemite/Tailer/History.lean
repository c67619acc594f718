import Stonemite.Tailer.Ids
import Stonemite.Tailer.FramingTail

/-!
# Record ids

A tailer and every id it has emitted, over any order of synchronizations and reads. No id is emitted twice while each
synchronization gives a source only to a file that is ahead of what the source has emitted: a file followed under the
same source, or one whose generation it moves past. `Unique` is the invariant, with a load that bounds the counters;
`Session.run` keeps it and `record_ids_unique` reads it off.
-/

open Std

namespace Stonemite.Tailer

open Stonemite.Combat

/-- A call on the tailer with the answers of the system. -/
inductive Act
  | sync (opens : Str → OpenResult) (sources : List SourceSpec)
  | read (call : ReadCall)

/-- What an act can add to the counters of a file. -/
def Act.load : Act → Nat
  | .sync _ _ => 1
  | .read call => call.opened.bytes + 1

/-- The tailer and the ids it has given out. -/
structure Session where
  tailer : LogTailer
  emitted : List SourceRecordId

namespace Session

def new : Session := ⟨.new, []⟩

section

variable {Line : Type} (decode : LogSource → List UInt8 → DecodedRawLogLine Line)

def step (s : Session) : Act → Session
  | .sync opens sources => { s with tailer := (s.tailer.syncSources opens sources).1 }
  | .read call =>
    let (tailer, outcome) := s.tailer.readPath decode (fun _ => call.opened) call.path call.budget
    ⟨tailer, s.emitted ++ outcome.ids⟩

end

/-- A synchronization names each source once, and gives a source that has emitted only to a file that it
follows already or whose generation it moves past all of the source's. -/
def GivesFresh (s : Session) : Act → Prop
  | .sync _ sources =>
    (sources.map (·.source.id)).Nodup ∧
    ∀ (key : PathKey) (spec : SourceSpec), (LogTailer.expected sources)[key]? = some spec →
      ∀ id ∈ s.emitted, id.source = spec.source.id → ∃ state, s.tailer.files[key]? = some state ∧
        (state.source = spec.source ∨ id.generation ≤ state.generation)
  | .read _ => True

end Session

/-! ### Synchronization -/

/-- The state of a wanted file after a synchronization. -/
def FileState.follow (opens : Str → OpenResult) (spec : SourceSpec) : Option FileState → FileState
  | some state =>
    if state.source ≠ spec.source then { state.reassociate spec.source with path := spec.path }
    else { state with path := spec.path }
  | none => (track spec (opens spec.path)).1

namespace LogTailer
variable {opens : Str → OpenResult} {sources : List SourceSpec} {key : PathKey} {spec : SourceSpec}

theorem syncSpec_files (t : LogTailer × SyncOutcome) (entry : PathKey × SourceSpec) :
    (syncSpec opens t entry).1.files =
      t.1.files.insert entry.1 (FileState.follow opens entry.2 t.1.files[entry.1]?) := by
  obtain ⟨key, spec⟩ := entry
  simp only [syncSpec]
  cases t.1.files[key]? with
  | none => rfl
  | some state =>
    simp only [FileState.follow]
    split <;> rfl

theorem syncSources_files (tailer : LogTailer) (key : PathKey) :
    (tailer.syncSources opens sources).1.files[key]? =
      (expected sources)[key]?.map fun spec => FileState.follow opens spec tailer.files[key]? := by
  have hstep (t : LogTailer × SyncOutcome) (entry : PathKey × SourceSpec) := @syncSpec_files opens t entry
  have hkept : (tailer.files.filter fun key _ => (expected sources).contains key)[key]? =
      tailer.files[key]?.filter fun _ => (expected sources).contains key := ExtTreeMap.getElem?_filter'
  unfold syncSources
  cases hspec : (expected sources)[key]? with
  | some spec =>
    have hcontains : (expected sources).contains key = true := ExtTreeMap.contains_iff.mpr ⟨spec, hspec⟩
    rw [ExtTreeMap.getElem?_foldl_update (fun t : LogTailer × SyncOutcome => t.1.files) hstep
      ExtTreeMap.pairwise_toList (ExtTreeMap.mem_toList_of_lookup hspec), hkept, hcontains]
    cases tailer.files[key]? <;> rfl
  | none =>
    have hcontains : (expected sources).contains key = false := ExtTreeMap.contains_eq_false_iff.mpr hspec
    rw [ExtTreeMap.getElem?_foldl_update_of_ne (fun t : LogTailer × SyncOutcome => t.1.files) hstep, hkept, hcontains]
    · cases tailer.files[key]? <;> rfl
    · rintro e he rfl
      rw [ExtTreeMap.lookup_of_mem_toList he] at hspec
      cases hspec

theorem mem_of_expected (h : (expected sources)[key]? = some spec) :
    spec ∈ sources ∧ PathKey.new spec.path = key := by
  have hgen : ∀ (l : List SourceSpec) (map : ExtTreeMap PathKey SourceSpec),
      (l.foldl (fun map spec => map.insertIfNew (PathKey.new spec.path) spec) map)[key]? = some spec →
      spec ∈ l ∧ PathKey.new spec.path = key ∨ map[key]? = some spec := by
    intro l
    induction l with
    | nil => exact fun map h => .inr h
    | cons first l ih =>
      intro map h
      rcases ih _ h with ⟨hmem, hkey⟩ | hmap
      · exact .inl ⟨List.mem_cons_of_mem _ hmem, hkey⟩
      · rw [ExtTreeMap.getElem?_insertIfNew] at hmap
        split at hmap
        · rename_i hnew
          cases hmap
          exact .inl ⟨List.mem_cons_self, compare_eq_iff_eq.mp hnew.1⟩
        · exact .inr hmap
  rcases hgen sources ∅ h with h | h
  · exact h
  · simp at h

end LogTailer

namespace FileState
variable {opens : Str → OpenResult} {spec : SourceSpec} {state : FileState}

theorem track_counters : (track spec (opens spec.path)).1.source = spec.source ∧
    (track spec (opens spec.path)).1.load = 0 := by
  have hinit (file : LogFile) (len : Nat) := initializeAtEnd_emits (absent spec.path spec.source) file len 0
  unfold track
  simp only
  split
  · exact ⟨rfl, rfl⟩
  · exact ⟨rfl, rfl⟩
  · rename_i file _
    split
    · exact ⟨rfl, rfl⟩
    · rename_i len _
      have h := hinit file len
      split <;> rename_i heq <;> rw [heq] at h <;> exact ⟨h.source, Nat.le_zero.mp h.load⟩

theorem follow_source (old : Option FileState) : (follow opens spec old).source = spec.source := by
  cases old with
  | none => exact track_counters.1
  | some state =>
    simp only [follow]
    split
    · rfl
    · rename_i h
      exact not_not.mp h

theorem reassociate_pending (source : LogSource) :
    (state.reassociate source).pending.length ≤ state.pending.length := by
  unfold reassociate
  simp only
  split
  · exact Nat.zero_le _
  · exact le_rfl

theorem reassociate_counters (source : LogSource) :
    (state.reassociate source).generation = increment state.generation ∧
      (state.reassociate source).nextSequence = 0 := by
  unfold reassociate
  simp only
  split <;> exact ⟨rfl, rfl⟩

theorem follow_load (hroom : state.load < counterLimit) :
    (follow opens spec (some state)).load ≤ state.load + 1 := by
  unfold follow
  simp only
  split
  · obtain ⟨hg, hn⟩ := @reassociate_counters state spec.source
    have hp := @reassociate_pending state spec.source
    unfold load at hroom ⊢
    rw [increment_of_lt (by omega)] at hg
    simp only [hg, hn]
    omega
  · exact Nat.le_succ _

/-- A followed file is ahead of what its old state was ahead of, and of its old generation when its source
changes. -/
theorem follow_ahead (hroom : state.load < counterLimit) {x : ℕ ×ₗ ℕ}
    (h : state.source = spec.source ∧ x < state.stamp ∨ state.source ≠ spec.source ∧ (ofLex x).1 ≤ state.generation) :
    x < (follow opens spec (some state)).stamp := by
  unfold follow
  rcases h with ⟨hs, hx⟩ | ⟨hs, hx⟩
  · simp only [hs, ne_eq, not_true_eq_false, if_false]
    exact hx
  · obtain ⟨hg, -⟩ := @reassociate_counters state spec.source
    unfold load at hroom
    rw [increment_of_lt (by omega)] at hg
    simp only [hs, ne_eq, not_false_eq_true, if_true]
    refine Prod.Lex.lt_iff.mpr (.inl ?_)
    show (ofLex x).1 < (state.reassociate spec.source).generation
    omega

end FileState

/-! ### Runs -/

/-- The owner and the stamp of an id. -/
def keyed (id : SourceRecordId) : LogSourceId × (ℕ ×ₗ ℕ) := (id.source, stamp id)

namespace Session

/-- What the files of a source stamp next. -/
def reading (s : Session) (source : LogSourceId) (a : ℕ ×ₗ ℕ) : Prop :=
  ∃ (key : PathKey) (f : FileState), s.tailer.files[key]? = some f ∧ f.source.id = source ∧ f.stamp = a

/-- The invariant: no id is there twice, and those still to come are not there yet. -/
structure Unique (s : Session) (n : Nat) : Prop where
  nodup : (s.emitted.map keyed).Nodup
  ahead : Ahead s.reading (s.emitted.map keyed)
  distinct : ∀ (k k' : PathKey) (f f' : FileState), s.tailer.files[k]? = some f → s.tailer.files[k']? = some f' →
    f.source.id = f'.source.id → k = k'
  load : ∀ (k : PathKey) (f : FileState), s.tailer.files[k]? = some f → f.load ≤ n

namespace Unique
variable {s : Session} {n : Nat}

theorem new : Session.new.Unique 0 := by
  refine ⟨.nil, nofun, ?_, ?_⟩ <;> simp [Session.new, LogTailer.new]

theorem mono (h : s.Unique n) {m : Nat} (hle : n ≤ m) : s.Unique m :=
  ⟨h.nodup, h.ahead, h.distinct, fun k f hf => (h.load k f hf).trans hle⟩

theorem sync (h : s.Unique n) {opens : Str → OpenResult} {sources : List SourceSpec}
    (hfresh : s.GivesFresh (.sync opens sources)) (hroom : n < counterLimit) :
    Unique { s with tailer := (s.tailer.syncSources opens sources).1 } (n + 1) := by
  obtain ⟨hids, hgives⟩ := hfresh
  have hfiles (k : PathKey) (f : FileState) (hf : (s.tailer.syncSources opens sources).1.files[k]? = some f) :
      ∃ spec, (LogTailer.expected sources)[k]? = some spec ∧ f = FileState.follow opens spec s.tailer.files[k]? := by
    rw [LogTailer.syncSources_files] at hf
    obtain ⟨spec, hspec, rfl⟩ := Option.map_eq_some_iff.mp hf
    exact ⟨spec, hspec, rfl⟩
  refine ⟨h.nodup, ?_, ?_, ?_⟩
  · rintro source a ⟨k, f, hf, rfl, rfl⟩ x hx hsource
    obtain ⟨id, hid, rfl⟩ := List.mem_map.mp hx
    obtain ⟨spec, hspec, rfl⟩ := hfiles k f hf
    rw [FileState.follow_source] at hsource
    obtain ⟨state, hstate, hwhy⟩ := hgives k spec hspec id hid hsource
    have hload := h.load k state hstate
    rw [hstate]
    refine FileState.follow_ahead (by omega) ?_
    by_cases hsame : state.source = spec.source
    · refine .inl ⟨hsame, h.ahead _ _ ⟨k, state, hstate, rfl, rfl⟩ (keyed id) (List.mem_map_of_mem hid) ?_⟩
      rw [hsame]
      exact hsource
    · exact .inr ⟨hsame, hwhy.resolve_left hsame⟩
  · intro k k' f f' hf hf' heq
    obtain ⟨spec, hspec, rfl⟩ := hfiles k f hf
    obtain ⟨spec', hspec', rfl⟩ := hfiles k' f' hf'
    rw [FileState.follow_source, FileState.follow_source] at heq
    obtain ⟨hmem, rfl⟩ := LogTailer.mem_of_expected hspec
    obtain ⟨hmem', rfl⟩ := LogTailer.mem_of_expected hspec'
    rw [List.inj_on_of_nodup_map hids hmem hmem' heq]
  · intro k f hf
    obtain ⟨spec, hspec, rfl⟩ := hfiles k f hf
    cases hold : s.tailer.files[k]? with
    | none =>
      have hzero := (@FileState.track_counters opens spec).2
      show (FileState.track spec (opens spec.path)).1.load ≤ _
      omega
    | some state =>
      have hload := h.load k state hold
      have hfollow := @FileState.follow_load opens spec state (by omega)
      omega

theorem read {Line : Type} (decode : LogSource → List UInt8 → DecodedRawLogLine Line) (h : s.Unique n)
    (call : ReadCall) (hroom : n + (call.opened.bytes + 1) < counterLimit) :
    (s.step decode (.read call)).Unique (n + (call.opened.bytes + 1)) := by
  simp only [step, LogTailer.readPath]
  cases hfile : s.tailer.files[PathKey.new call.path]? with
  | none =>
    have hsame : s.emitted ++ ({} : ReadOutcome Line).ids = s.emitted := List.append_nil _
    simp only [hsame]
    exact h.mono (by omega)
  | some f =>
    have hload := h.load _ f hfile
    obtain ⟨ids, hids, hemits⟩ := readFile_emits decode f call.budget call.opened (by omega)
    have hnext := hemits.load
    have hkeyed : (s.emitted ++ ids).map keyed = s.emitted.map keyed ++ (ids.map stamp).map (Prod.mk f.source.id) := by
      rw [List.map_append, List.map_map]
      refine congrArg _ (List.map_congr_left fun id hid => ?_)
      show (id.source, stamp id) = (f.source.id, stamp id)
      rw [hemits.of_source id hid]
    have hreads : s.reading f.source.id f.stamp := ⟨_, f, hfile, rfl, rfl⟩
    simp only [hids]
    refine ⟨?_, ?_, ?_, ?_⟩
    · rw [hkeyed]
      exact h.ahead.nodup hreads hemits.issued h.nodup
    · rw [hkeyed]
      refine h.ahead.issue hreads hemits.issued ?_
      rintro source a ⟨k, g, hg, rfl, rfl⟩
      rw [ExtTreeMap.getElem?_insert_ite] at hg
      split at hg
      · obtain rfl := Option.some.inj hg
        exact .inl ⟨by rw [hemits.source], rfl⟩
      · rename_i hne
        refine .inr ⟨fun heq => hne (h.distinct _ _ _ _ hfile hg heq.symm), k, g, hg, rfl, rfl⟩
    · intro k k' g g' hg hg' heq
      rw [ExtTreeMap.getElem?_insert_ite] at hg hg'
      split at hg <;> split at hg'
      · rename_i hk hk'
        rw [← hk, ← hk']
      · rename_i hk hk'
        obtain rfl := Option.some.inj hg
        rw [hemits.source] at heq
        rw [← hk]
        exact h.distinct _ _ _ _ hfile hg' heq
      · rename_i hk hk'
        obtain rfl := Option.some.inj hg'
        rw [hemits.source] at heq
        rw [← hk']
        exact h.distinct _ _ _ _ hg hfile heq
      · exact h.distinct _ _ _ _ hg hg' heq
    · intro k g hg
      rw [ExtTreeMap.getElem?_insert_ite] at hg
      split at hg
      · obtain rfl := Option.some.inj hg
        omega
      · have := h.load k g hg
        omega

theorem run {Line : Type} (decode : LogSource → List UInt8 → DecodedRawLogLine Line) (h : s.Unique n) (acts : List Act)
    (hfresh : Along GivesFresh (step decode) s acts) (hroom : n + (acts.map Act.load).sum < counterLimit) :
    (acts.foldl (step decode) s).Unique (n + (acts.map Act.load).sum) := by
  induction acts generalizing s n with
  | nil => exact h
  | cons act acts ih =>
    rw [List.map_cons, List.sum_cons, ← Nat.add_assoc] at hroom ⊢
    refine ih ?_ hfresh.2 hroom
    cases act with
    | sync opens sources => exact h.sync hfresh.1 (by simp only [Act.load] at hroom; omega)
    | read call => exact h.read decode call (by simp only [Act.load] at hroom; omega)

end Unique

/-- No two records carry one id, in a run whose synchronizations give sources only to files that are ahead
of them and that is too short for a counter to be used up. -/
theorem record_ids_unique {Line : Type} (decode : LogSource → List UInt8 → DecodedRawLogLine Line) (acts : List Act)
    (hfresh : Along GivesFresh (step decode) new acts) (hroom : (acts.map Act.load).sum < counterLimit) :
    (acts.foldl (step decode) new).emitted.Nodup :=
  (Unique.new.run decode acts hfresh (by omega)).nodup.of_map keyed

end Session

namespace Switch

/-- A decoder that gives the bytes back. -/
def plain : LogSource → List UInt8 → DecodedRawLogLine (List UInt8) := fun _ bytes => ⟨bytes, false⟩

/-- A log that was empty when it was first opened, read with the answers `reads`. -/
def file (creationTime : Nat) (reads : List (Except String (List UInt8))) : OpenResult :=
  .opened ⟨.ok 0, ⟨some 1, some 1, creationTime⟩, fun _ _ => .error "not read", fun _ => true, reads, none⟩

def bilka : SourceSpec := ⟨"b".toList, ⟨"pid:1".toList, "Bilka".toList, "t".toList⟩⟩

/-- The log of another character in the same client. -/
def saabra : SourceSpec := ⟨"s".toList, ⟨"pid:1".toList, "Saabra".toList, "t".toList⟩⟩

/-- One line is read. -/
def line (spec : SourceSpec) (creationTime : Nat) : Act :=
  .read ⟨spec.path, ⟨64, 8⟩, file creationTime [.ok [97, newline]]⟩

/-- The client plays Bilka and then Saabra, and each writes a line. -/
def acts : List Act :=
  [.sync (fun _ => file 1 []) [bilka], line bilka 1, .sync (fun _ => file 2 []) [saabra], line saabra 2]

theorem emitted_acts : (acts.foldl (Session.step plain) .new).emitted =
    [⟨"pid:1".toList, 0, 0⟩, ⟨"pid:1".toList, 0, 0⟩] := by decide +kernel

end Switch

/-- The log of Bilka with `content`, read from `offset`. -/
def Switch.grown (content : List UInt8) (offset : Nat) : OpenResult :=
  .opened ⟨.ok content.length, ⟨some 1, some 1, 1⟩, fun pos len => .ok ((content.drop pos).take len), fun _ => true,
    [.ok (content.drop offset)], none⟩

/-- Two lines of Bilka are read, the same log is synchronized again, and a third line is read. -/
def Switch.oneCharacter : List Act :=
  [.sync (fun _ => grown [] 0) [bilka], .read ⟨bilka.path, ⟨64, 8⟩, grown [97, newline, 98, newline] 0⟩,
    .sync (fun _ => grown [] 0) [bilka], .read ⟨bilka.path, ⟨64, 8⟩, grown [97, newline, 98, newline, 99, newline] 4⟩]

theorem Session.record_ids_unique_one_character :
    (Switch.oneCharacter.foldl (step Switch.plain) new).emitted =
        [⟨"pid:1".toList, 0, 0⟩, ⟨"pid:1".toList, 0, 1⟩, ⟨"pid:1".toList, 0, 2⟩] ∧
      (Switch.oneCharacter.foldl (step Switch.plain) new).emitted.Nodup := by
  have hemitted : (Switch.oneCharacter.foldl (step Switch.plain) new).emitted =
      [⟨"pid:1".toList, 0, 0⟩, ⟨"pid:1".toList, 0, 1⟩, ⟨"pid:1".toList, 0, 2⟩] := by decide +kernel
  refine ⟨hemitted, record_ids_unique Switch.plain Switch.oneCharacter ⟨⟨by decide, fun _ _ _ _ hid => nomatch hid⟩,
    trivial, ⟨by decide, fun key spec hspec id hid hsource => ?_⟩, trivial, trivial⟩ (by decide)⟩
  -- the log has been followed since the first synchronization
  obtain ⟨hmem, rfl⟩ := LogTailer.mem_of_expected hspec
  obtain rfl := List.mem_singleton.mp hmem
  have hfollowed : ((((Switch.oneCharacter.take 2).foldl (step Switch.plain) new).tailer.files[PathKey.new
      Switch.bilka.path]?).any fun state => state.source == Switch.bilka.source) = true := by decide +kernel
  obtain ⟨state, hstate, heq⟩ := (Option.any_eq_true _ _).mp hfollowed
  exact ⟨state, hstate, .inl (eq_of_beq heq)⟩

/-- A client that switches its character reuses the ids of the character before. -/
theorem Session.record_id_reused : ¬ ∀ acts : List Act, (acts.map Act.load).sum < counterLimit →
    (acts.foldl (step Switch.plain) new).emitted.Nodup := by
  intro h
  have hnodup := h Switch.acts (by decide)
  rw [Switch.emitted_acts] at hnodup
  exact absurd hnodup (by decide)

end Stonemite.Tailer
