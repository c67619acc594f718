import Stonemite.Lib.Stamps
import Stonemite.Tailer.Extract

/-!
# The ids one call emits

A record is emitted under the generation and the sequence of its file's state. Both only go forward: the
stamps of one call are strictly increasing, from those of the state before to those of the state after,
while neither counter is used up. The load of a state bounds both.
-/

namespace Stonemite.Tailer

open Stonemite.Combat

/-- The place of a record among those of its source. -/
def stamp (id : SourceRecordId) : ℕ ×ₗ ℕ := toLex (id.generation, id.sequence)

/-- The counters saturate here. -/
def counterLimit : Nat := 2 ^ 64 - 1

theorem increment_of_lt {n : Nat} (h : n < counterLimit) : increment n = n + 1 := by
  unfold counterLimit at h
  rw [increment, checkedAdd, if_pos (by omega)]
  rfl

/-- The ids of the records of a read. -/
def ReadOutcome.ids {Line : Type} (outcome : ReadOutcome Line) : List SourceRecordId := outcome.lines.map (·.id)

namespace FileState

/-- The stamp of the next record. -/
def stamp (s : FileState) : ℕ ×ₗ ℕ := toLex (s.generation, s.nextSequence)

/-- What bounds the generation and the next sequence number. -/
def load (s : FileState) : Nat := s.generation + s.nextSequence + s.pending.length

end FileState

/-- From `s` to `s'` the records `ids` were emitted and at most `n` bytes taken in. -/
structure Emits (s s' : FileState) (ids : List SourceRecordId) (n : Nat) : Prop where
  source : s'.source = s.source
  of_source : ∀ id ∈ ids, id.source = s.source.id
  issued : Issued s.stamp s'.stamp (ids.map stamp)
  load : s'.load ≤ s.load + n

namespace Emits
variable {s s' s'' : FileState} {ids ids' : List SourceRecordId} {n m : Nat}

theorem trans (h : Emits s s' ids n) (h' : Emits s' s'' ids' m) : Emits s s'' (ids ++ ids') (n + m) where
  source := h'.source.trans h.source
  of_source id hid := by
    rcases List.mem_append.mp hid with hid | hid
    · exact h.of_source id hid
    · rw [h'.of_source id hid, h.source]
  issued := by
    rw [List.map_append]
    exact h.issued.append h'.issued
  load := by
    have hl := h.load
    have hl' := h'.load
    omega

theorem mono (h : Emits s s' ids n) (hle : n ≤ m) : Emits s s' ids m :=
  ⟨h.source, h.of_source, h.issued, h.load.trans (Nat.add_le_add_left hle _)⟩

theorem still (hs : s'.source = s.source) (hg : s'.generation = s.generation)
    (hn : s'.nextSequence = s.nextSequence) (hp : s'.pending.length ≤ s.pending.length + n) : Emits s s' [] n where
  source := hs
  of_source := nofun
  issued := by
    unfold FileState.stamp
    rw [hg, hn]
    exact .quiet le_rfl
  load := by
    unfold FileState.load
    omega

theorem refl (s : FileState) : Emits s s [] n := still rfl rfl rfl (by omega)

theorem stamp_lt_of_generation (hg : s.generation < s'.generation) : s.stamp < s'.stamp :=
  Prod.Lex.lt_iff.mpr (.inl hg)

theorem advance (hs : s'.source = s.source) (hg : s'.generation = increment s.generation) (hn : s'.nextSequence = 0)
    (hp : s'.pending.length + 1 ≤ s.pending.length + n) (hroom : s.generation < counterLimit) : Emits s s' [] n where
  source := hs
  of_source := nofun
  issued := by
    rw [increment_of_lt hroom] at hg
    exact .quiet (stamp_lt_of_generation (by omega)).le
  load := by
    rw [increment_of_lt hroom] at hg
    unfold FileState.load
    omega

end Emits

section

variable {Line : Type} (decode : LogSource → List UInt8 → DecodedRawLogLine Line)

/-- One line: the load it adds is taken back when its bytes are dropped. -/
theorem extractLine_emits (s : FileState) (outcome : ReadOutcome Line) (line : List UInt8)
    (hroom : s.generation + s.nextSequence < counterLimit) :
    ∃ ids, (extractLine decode s outcome line).2.ids = outcome.ids ++ ids ∧
      Emits s (extractLine decode s outcome line).1 ids 1 := by
  unfold extractLine
  by_cases h : (lineContent line).length > maxLineBytes
  · simp only [h, if_true]
    exact ⟨[], by simp [ReadOutcome.ids], .advance rfl rfl rfl le_rfl (by omega)⟩
  · simp only [h, if_false]
    have hnext : increment s.nextSequence = s.nextSequence + 1 := increment_of_lt (by omega)
    refine ⟨[⟨s.source.id, s.generation, s.nextSequence⟩], by simp [ReadOutcome.ids], rfl, by simp, ?_, ?_⟩
    · refine .one (Prod.Lex.lt_iff.mpr (.inr ⟨rfl, ?_⟩))
      show s.nextSequence < increment s.nextSequence
      omega
    · simp only [FileState.load, hnext]
      omega

theorem extractLoop_emits (lines : List (List UInt8)) (maxRecords consumed : Nat) (s : FileState)
    (outcome : ReadOutcome Line) (hroom : s.generation + s.nextSequence + lines.length ≤ counterLimit) :
    ∃ ids n, (extractLoop decode maxRecords lines consumed s outcome).2.1.ids = outcome.ids ++ ids ∧
      Emits s (extractLoop decode maxRecords lines consumed s outcome).1 ids n ∧
      (extractLoop decode maxRecords lines consumed s outcome).1.pending = s.pending ∧
      consumed + n ≤ (extractLoop decode maxRecords lines consumed s outcome).2.2 ∧
      (extractLoop decode maxRecords lines consumed s outcome).2.2 ≤ consumed + linesLength lines := by
  induction lines generalizing maxRecords consumed s outcome with
  | nil => exact ⟨[], 0, by simp [extractLoop], .refl s, rfl, le_rfl, le_rfl⟩
  | cons line lines ih =>
    cases maxRecords with
    | zero => exact ⟨[], 0, by simp [extractLoop], .refl s, rfl, le_rfl, Nat.le_add_right _ _⟩
    | succ maxRecords =>
      rw [List.length_cons] at hroom
      obtain ⟨ids, hids, hemits⟩ := extractLine_emits decode s outcome line (by omega)
      obtain ⟨hcounted, -⟩ := extractLine_spec decode s outcome line
      have hpending := hcounted.pending_eq
      have hload := hemits.load
      unfold FileState.load at hload
      rw [hpending] at hload
      obtain ⟨ids', n, hids', hemits', hpending', hlow, hhigh⟩ :=
        ih (if (lineContent line).length > maxLineBytes then maxRecords + 1 else maxRecords)
          (consumed + (line.length + 1)) (extractLine decode s outcome line).1 (extractLine decode s outcome line).2
          (by omega)
      refine ⟨ids ++ ids', 1 + n, ?_, hemits.trans hemits', hpending'.trans hpending, ?_, ?_⟩
      · simp only [extractLoop]
        rw [hids', hids, List.append_assoc]
      · simp only [extractLoop]
        omega
      · simp only [extractLoop]
        rw [linesLength_cons]
        omega

theorem extractCompleteLines_emits (s : FileState) (maxRecords : Nat) (outcome : ReadOutcome Line)
    (hroom : s.load < counterLimit) :
    ∃ ids, (extractCompleteLines decode s maxRecords outcome).2.ids = outcome.ids ++ ids ∧
      Emits s (extractCompleteLines decode s maxRecords outcome).1 ids 0 := by
  unfold extractCompleteLines
  by_cases hquiet : maxRecords = 0 ∨ s.pending = []
  · rw [if_pos hquiet]
    exact ⟨[], (List.append_nil _).symm, .refl s⟩
  · rw [if_neg hquiet]
    have hbytes := linesLength_completeLines_le newline s.pending
    have hcount := length_le_linesLength (completeLines newline s.pending)
    unfold FileState.load at hroom
    obtain ⟨ids, n, hids, hemits, hpending, hlow, hhigh⟩ :=
      extractLoop_emits decode (completeLines newline s.pending) maxRecords 0 s outcome (by omega)
    generalize extractLoop decode maxRecords (completeLines newline s.pending) 0 s outcome = r at *
    obtain ⟨state, outcome', consumed⟩ := r
    simp only at hids hemits hpending hlow hhigh ⊢
    have hload := hemits.load
    unfold FileState.load at hload
    have hdropped : Emits s { state with pending := state.pending.drop consumed } ids 0 := by
      refine ⟨hemits.source, hemits.of_source, hemits.issued, ?_⟩
      simp only [FileState.load, List.length_drop, hpending] at hload ⊢
      omega
    split
    · rename_i hlong
      have hload' := hdropped.load
      simp only [FileState.load] at hload'
      refine ⟨ids, hids, ?_⟩
      have hgiven := hdropped.trans (m := 0) (show Emits _ (FileState.advanceGeneration
        { state with pending := [], discardUntilNewline := true }) [] 0 from .advance rfl rfl rfl (by
          simp only [FileState.advanceGeneration, List.length_nil]
          omega) (by
          show state.generation < _
          omega))
      rwa [List.append_nil] at hgiven
    · exact ⟨ids, hids, hdropped⟩

/-- The bytes the answers to the reads hold. -/
def readBytes (reads : List (Except String (List UInt8))) : Nat :=
  (reads.map fun | .ok bytes => bytes.length | .error _ => 0).sum

/-- The bytes that the reads of an opened file give. -/
def OpenResult.bytes : OpenResult → Nat
  | .opened file => readBytes file.reads
  | _ => 0

theorem appendBytes_emits (s : FileState) (bytes : List UInt8) (offset : Nat) (signature : List UInt8) :
    Emits s (FileState.appendBytes { s with offset := offset, signature := signature } bytes) [] bytes.length := by
  unfold FileState.appendBytes
  split
  · exact .still rfl rfl rfl (by simp)
  · split
    · refine .still rfl rfl rfl ?_
      simp only [List.length_append, List.length_drop]
      omega
    · exact .still rfl rfl rfl (by simp)

theorem readLoop_emits (budget : ReadBudget) (reads : List (Except String (List UInt8))) (bytesRead : Nat)
    (s : FileState) (outcome : ReadOutcome Line) (hroom : s.load + readBytes reads < counterLimit) :
    ∃ ids, (readLoop decode budget reads bytesRead s outcome).2.ids = outcome.ids ++ ids ∧
      Emits s (readLoop decode budget reads bytesRead s outcome).1 ids (readBytes reads) := by
  induction reads generalizing bytesRead s outcome with
  | nil => exact ⟨[], (List.append_nil _).symm, .refl s⟩
  | cons answer reads ih =>
    simp only [readLoop]
    split
    · cases answer with
      | error error => exact ⟨[], (List.append_nil _).symm, .refl s⟩
      | ok answer =>
        simp only
        split
        · exact ⟨[], (List.append_nil _).symm, .refl s⟩
        · have hlen : (answer.take (readLen budget bytesRead)).length ≤ answer.length := List.length_take_le' _ _
          have hbytes : readBytes (.ok answer :: reads) = answer.length + readBytes reads := rfl
          generalize answer.take (readLen budget bytesRead) = bytes at *
          have happend := appendBytes_emits s bytes (s.offset + bytes.length) (extendSignature s.signature bytes)
          have hload := happend.load
          obtain ⟨ids, hids, hextract⟩ := extractCompleteLines_emits decode
            (FileState.appendBytes { s with
              offset := s.offset + bytes.length, signature := extendSignature s.signature bytes } bytes)
            (budget.records - outcome.lines.length) outcome (by omega)
          have hboth := happend.trans hextract
          have hload' := hboth.load
          generalize extractCompleteLines decode (FileState.appendBytes _ bytes) _ outcome = r at *
          obtain ⟨ids', hids', hloop⟩ := ih (bytesRead + bytes.length) r.1 r.2 (by omega)
          refine ⟨ids ++ ids', by rw [hids', hids, List.append_assoc], ?_⟩
          exact (hboth.trans hloop).mono (by omega)
    · exact ⟨[], (List.append_nil _).symm, .refl s⟩

theorem checkBoundary_emits (s : FileState) (file : LogFile) (fileLen : Nat) (outcome : ReadOutcome Line)
    (hroom : s.load < counterLimit) :
    (checkBoundary s file fileLen outcome).2.ids = outcome.ids ∧
      Emits s (checkBoundary s file fileLen outcome).1 [] 1 := by
  unfold FileState.load at hroom
  unfold checkBoundary
  simp only
  generalize (Option.any _ _ || _ || _) = reset
  cases reset with
  | true =>
    exact ⟨rfl, .advance rfl rfl rfl (by simp [FileState.resetGeneration, FileState.advanceGeneration]) (by omega)⟩
  | false => exact ⟨rfl, .still rfl rfl rfl (by simp)⟩

theorem readLines_emits (s : FileState) (file : LogFile) (fileLen : Nat) (budget : ReadBudget)
    (outcome : ReadOutcome Line) (hroom : s.load + readBytes file.reads < counterLimit) :
    ∃ ids, (readLines decode s file fileLen budget outcome).2.ids = outcome.ids ++ ids ∧
      Emits s (readLines decode s file fileLen budget outcome).1 ids (readBytes file.reads) := by
  obtain ⟨ids, hids, hextract⟩ := extractCompleteLines_emits decode s budget.records outcome (by omega)
  have hload := hextract.load
  simp only [readLines]
  split
  · exact ⟨ids, hids, hextract.mono (by omega)⟩
  · split
    · exact ⟨ids, hids, hextract.mono (by omega)⟩
    · obtain ⟨ids', hids', hloop⟩ := readLoop_emits decode budget file.reads 0
        (extractCompleteLines decode s budget.records outcome).1
        (extractCompleteLines decode s budget.records outcome).2 (by omega)
      refine ⟨ids ++ ids', ?_, (hextract.trans hloop).mono (by omega)⟩
      rw [← List.append_assoc, ← hids, ← hids']
      rfl

theorem initializeAtEnd_emits (s : FileState) (file : LogFile) (fileLen n : Nat) :
    Emits s (s.initializeAtEnd file fileLen).1 [] n := by
  unfold FileState.initializeAtEnd
  simp only
  split <;> exact .still rfl rfl rfl (by simp)

theorem readFile_emits (s : FileState) (budget : ReadBudget) (opened : OpenResult)
    (hroom : s.load + (opened.bytes + 1) < counterLimit) :
    ∃ ids, (readFile decode s budget opened).2.ids = ids ∧
      Emits s (readFile decode s budget opened).1 ids (opened.bytes + 1) := by
  cases opened with
  | notFound => exact ⟨[], rfl, .refl s⟩
  | failed error => exact ⟨[], rfl, .refl s⟩
  | opened file =>
    have hbytes : (OpenResult.opened file).bytes = readBytes file.reads := rfl
    simp only [readFile]
    split
    · exact ⟨[], rfl, .refl s⟩
    · rename_i fileLen _
      split
      · have hinit := initializeAtEnd_emits s file fileLen (readBytes file.reads + 1)
        split
        · rename_i state heq
          rw [heq] at hinit
          exact ⟨[], rfl, hinit⟩
        · rename_i state error heq
          rw [heq] at hinit
          exact ⟨[], rfl, hinit⟩
      · obtain ⟨hnone, hreset⟩ := checkBoundary_emits s file fileLen ({} : ReadOutcome Line) (by omega)
        have hload := hreset.load
        obtain ⟨ids, hids, hlines⟩ := readLines_emits decode (checkBoundary s file fileLen ({} : ReadOutcome Line)).1
          file fileLen budget (checkBoundary s file fileLen ({} : ReadOutcome Line)).2 (by omega)
        refine ⟨ids, ?_, (hreset.trans hlines).mono (by omega)⟩
        rw [hids, hnone]
        rfl

end

end Stonemite.Tailer
