import Stonemite.Tailer.Tailer

/-!
# What one extraction does

An extraction takes complete lines off the front of the pending bytes and emits those that fit, and it
gives up the rest when that is longer than a line may be.
-/

namespace Stonemite.Tailer

open Stonemite.Combat

/-- The contents of the lines that are emitted. -/
def emittedLines (lines : List (List UInt8)) : List (List UInt8) :=
  (lines.map lineContent).filter fun content => content.length ≤ maxLineBytes

@[simp] theorem emittedLines_nil : emittedLines [] = [] := rfl

@[simp] theorem emittedLines_append (a b : List (List UInt8)) :
    emittedLines (a ++ b) = emittedLines a ++ emittedLines b := by
  simp [emittedLines]

theorem emittedLines_cons_of_gt {line : List UInt8} (h : maxLineBytes < (lineContent line).length)
    (lines : List (List UInt8)) : emittedLines (line :: lines) = emittedLines lines := by
  have : ¬ (lineContent line).length ≤ maxLineBytes := by omega
  simp [emittedLines, this]

theorem emittedLines_cons_of_le {line : List UInt8} (h : (lineContent line).length ≤ maxLineBytes)
    (lines : List (List UInt8)) : emittedLines (line :: lines) = lineContent line :: emittedLines lines := by
  simp [emittedLines, h]

theorem length_lineContent_gt {line : List UInt8} (hlong : maxLineBytes < line.length)
    (hcr : line.length = maxLineBytes + 1 → line.getLast? ≠ some carriageReturn) :
    maxLineBytes < (lineContent line).length := by
  unfold lineContent
  split
  · rename_i h
    have hne : line.length ≠ maxLineBytes + 1 := fun hl => hcr hl h
    rw [List.length_dropLast]
    omega
  · exact hlong

/-- Only the counters differ. -/
def FileState.Counted (s s' : FileState) : Prop :=
  ∃ generation nextSequence, s' = { s with generation := generation, nextSequence := nextSequence }

namespace FileState.Counted
variable {s s' s'' : FileState}

theorem refl (s : FileState) : Counted s s := ⟨s.generation, s.nextSequence, rfl⟩

theorem trans (h : Counted s s') (h' : Counted s' s'') : Counted s s'' := by
  obtain ⟨g, n, rfl⟩ := h
  obtain ⟨g', n', rfl⟩ := h'
  exact ⟨g', n', rfl⟩

theorem pending_eq (h : Counted s s') : s'.pending = s.pending := by obtain ⟨_, _, rfl⟩ := h; rfl

theorem source_eq (h : Counted s s') : s'.source = s.source := by obtain ⟨_, _, rfl⟩ := h; rfl

theorem advanceGeneration (s : FileState) : Counted s s.advanceGeneration := ⟨_, _, rfl⟩

end FileState.Counted

section

variable {Line : Type} {decode : LogSource → List UInt8 → DecodedRawLogLine Line}

/-- What is emitted of contents. -/
def decoded (decode : LogSource → List UInt8 → DecodedRawLogLine Line) (source : LogSource)
    (contents : List (List UInt8)) : List Line :=
  contents.map fun content => (decode source content).line

@[simp] theorem decoded_append (source : LogSource) (a b : List (List UInt8)) :
    decoded decode source (a ++ b) = decoded decode source a ++ decoded decode source b := by
  simp [decoded]

/-- The emitted lines, without their ids. -/
def ReadOutcome.texts (outcome : ReadOutcome Line) : List Line := outcome.lines.map (·.line)

variable (decode) in
theorem extractLine_spec (s : FileState) (outcome : ReadOutcome Line) (line : List UInt8) :
    FileState.Counted s (extractLine decode s outcome line).1 ∧
    (extractLine decode s outcome line).2.texts = outcome.texts ++ decoded decode s.source (emittedLines [line]) := by
  unfold extractLine
  by_cases h : (lineContent line).length > maxLineBytes
  · simp only [h, if_true]
    refine ⟨.advanceGeneration s, ?_⟩
    simp [ReadOutcome.texts, emittedLines_cons_of_gt h, decoded]
  · simp only [h, if_false]
    refine ⟨⟨_, _, rfl⟩, ?_⟩
    simp [ReadOutcome.texts, emittedLines_cons_of_le (by omega : (lineContent line).length ≤ maxLineBytes), decoded]

variable (decode) in
/-- The loop takes lines off the front, until there are none or enough records are emitted. -/
theorem extractLoop_spec (lines : List (List UInt8)) (maxRecords consumed : Nat) (s : FileState)
    (outcome : ReadOutcome Line) :
    ∃ done rest, lines = done ++ rest ∧
      FileState.Counted s (extractLoop decode maxRecords lines consumed s outcome).1 ∧
      (extractLoop decode maxRecords lines consumed s outcome).2.1.texts =
        outcome.texts ++ decoded decode s.source (emittedLines done) ∧
      (extractLoop decode maxRecords lines consumed s outcome).2.2 = consumed + linesLength done ∧
      (rest = [] ∨ (emittedLines done).length = maxRecords) := by
  induction lines generalizing maxRecords consumed s outcome with
  | nil => exact ⟨[], [], rfl, .refl s, by simp [extractLoop, decoded], by simp [extractLoop], .inl rfl⟩
  | cons line lines ih =>
    cases maxRecords with
    | zero => exact ⟨[], line :: lines, rfl, .refl s, by simp [extractLoop, decoded], by simp [extractLoop], .inr rfl⟩
    | succ maxRecords =>
      obtain ⟨hcounted, htexts⟩ := extractLine_spec decode s outcome line
      obtain ⟨done, rest, rfl, hc, ht, hlen, hrest⟩ :=
        ih (if (lineContent line).length > maxLineBytes then maxRecords + 1 else maxRecords)
          (consumed + (line.length + 1)) (extractLine decode s outcome line).1 (extractLine decode s outcome line).2
      refine ⟨line :: done, rest, rfl, hcounted.trans hc, ?_, ?_, ?_⟩
      · simp only [extractLoop]
        rw [ht, htexts, hcounted.source_eq, List.append_assoc, ← decoded_append, ← emittedLines_append]
        rfl
      · simp only [extractLoop]
        rw [hlen, linesLength_cons]
        omega
      · rcases hrest with hrest | hrest
        · exact .inl hrest
        · refine .inr ?_
          by_cases h : (lineContent line).length > maxLineBytes
          · rw [emittedLines_cons_of_gt h, hrest, if_pos h]
          · rw [emittedLines_cons_of_le (by omega), List.length_cons, hrest, if_neg h]

/-- The bytes of the file that a state holds, apart from the pending ones. -/
structure FileState.SameFile (s s' : FileState) : Prop where
  source : s'.source = s.source
  initialized : s'.initialized = s.initialized
  identity : s'.identity = s.identity
  offset : s'.offset = s.offset
  signature : s'.signature = s.signature

theorem FileState.SameFile.refl (s : FileState) : SameFile s s := ⟨rfl, rfl, rfl, rfl, rfl⟩

/-- What is left pending by an extraction that took the lines `done`. -/
inductive Left (s s' : FileState) (done : List (List UInt8)) : Prop
  | kept (rest : List (List UInt8)) (lines : completeLines newline s.pending = done ++ rest)
      (pending : completeLines newline s'.pending = rest)
      (tail : unfinished newline s'.pending = unfinished newline s.pending)
      (discard : s'.discardUntilNewline = s.discardUntilNewline)
  | givenUp (lines : completeLines newline s.pending = done) (pending : s'.pending = [])
      (long : maxLineBytes < (unfinished newline s.pending).length) (discard : s'.discardUntilNewline = true)

variable (decode) in
theorem extractCompleteLines_spec (s : FileState) (maxRecords : Nat) (outcome : ReadOutcome Line) :
    ∃ done, FileState.SameFile s (extractCompleteLines decode s maxRecords outcome).1 ∧
      (extractCompleteLines decode s maxRecords outcome).2.texts =
        outcome.texts ++ decoded decode s.source (emittedLines done) ∧
      Left s (extractCompleteLines decode s maxRecords outcome).1 done ∧
      ((extractCompleteLines decode s maxRecords outcome).2.lines.length < outcome.lines.length + maxRecords →
        newline ∉ (extractCompleteLines decode s maxRecords outcome).1.pending) := by
  unfold extractCompleteLines
  by_cases hquiet : maxRecords = 0 ∨ s.pending = []
  · rw [if_pos hquiet]
    refine ⟨[], .refl s, by simp [decoded], .kept _ rfl rfl rfl rfl, fun hlt => ?_⟩
    rcases hquiet with rfl | h
    · exact absurd hlt (by simp)
    · simp [h]
  · rw [if_neg hquiet]
    obtain ⟨done, rest, hlines, hcounted, htexts, hconsumed, hrest⟩ :=
      extractLoop_spec decode (completeLines newline s.pending) maxRecords 0 s outcome
    obtain ⟨hdrop, htail⟩ := lines_drop hlines
    generalize extractLoop decode maxRecords (completeLines newline s.pending) 0 s outcome = r at *
    obtain ⟨state, outcome', consumed⟩ := r
    simp only at hcounted htexts hconsumed ⊢
    rw [Nat.zero_add] at hconsumed
    subst hconsumed
    have hpending := hcounted.pending_eq
    have hlength : outcome'.lines.length = outcome.lines.length + (emittedLines done).length := by
      have := congrArg List.length htexts
      simpa [ReadOutcome.texts, decoded] using this
    simp only [hpending]
    refine ⟨done, ?_, ?_, ?_, ?_⟩
    · obtain ⟨g, n, rfl⟩ := hcounted
      split <;> exact ⟨rfl, rfl, rfl, rfl, rfl⟩
    · split <;> exact htexts
    · split
      · rename_i hlong
        -- without a newline in what is left, every complete line was taken
        have hnil : rest = [] := by
          rw [← hdrop]
          exact completeLines_of_notMem hlong.2
        subst hnil
        refine .givenUp (by simpa using hlines) rfl ?_ rfl
        rw [← htail, unfinished_of_notMem hlong.2]
        exact hlong.1
      · refine .kept rest hlines hdrop htail ?_
        obtain ⟨g, n, rfl⟩ := hcounted
        rfl
    · intro hlt
      split at hlt
      · rename_i hlong
        rw [if_pos hlong]
        exact List.not_mem_nil
      · rename_i hshort
        rw [if_neg hshort]
        rcases hrest with rfl | hrest
        · exact completeLines_eq_nil.mp hdrop
        · simp only at hlt
          omega

end

end Stonemite.Tailer
