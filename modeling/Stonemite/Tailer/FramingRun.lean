import Stonemite.Tailer.Framing

/-!
# Every run of reads frames the same records

The file serves the reads from what it holds at the time; the budgets and the ends of the reads are
arbitrary, but for reads that end inside the line end of a line of exactly the limit.
-/

namespace Stonemite.Tailer

open Stonemite.Combat

/-- The successive reads of a call from `offset` on are answered from the file, each with at most what
was asked for. -/
def ServesReads (log : Log) (budget : ReadBudget) : Nat → Nat → List (Except String (List UInt8)) → Prop
  | bytesRead, offset, .ok bytes :: reads =>
    bytes.length ≤ readLen budget bytesRead ∧ bytes <+: log.content.drop offset ∧
      (bytes ≠ [] → ServesReads log budget (bytesRead + bytes.length) (offset + bytes.length) reads)
  | _, _, _ => True

/-- No read of the call ends where a line of the limit is split. -/
def ReadsUnsplit (log : Log) (skip : Bool) : Nat → List (Except String (List UInt8)) → Prop
  | offset, .ok bytes :: reads =>
    bytes ≠ [] → ¬ log.SplitsLimit skip (offset + bytes.length) ∧ ReadsUnsplit log skip (offset + bytes.length) reads
  | _, _ => True

/-- The opened file is the log, and has grown since `offset`. -/
structure LogFile.Serves (file : LogFile) (log : Log) (budget : ReadBudget) (offset : Nat) : Prop where
  identity : file.identity = log.identity
  metadata : ∀ len, file.metadata = .ok len → offset ≤ len
  exact : ∀ pos len, pos + len ≤ offset → file.readExact pos len = .ok ((log.content.drop pos).take len)
  reads : ServesReads log budget 0 offset file.reads

theorem take_drop_of_suffix {signature content : List UInt8} {offset : Nat} (h : signature <:+ content.take offset)
    (hle : offset ≤ content.length) :
    (content.drop (offset - signature.length)).take signature.length = signature ∧ signature.length ≤ offset := by
  obtain ⟨t, ht⟩ := h
  have hlen : t.length + signature.length = offset := by
    have := congrArg List.length ht
    rw [List.length_append, List.length_take] at this
    omega
  have hcontent : content = t ++ (signature ++ content.drop offset) := by
    rw [← List.append_assoc, ht, List.take_append_drop]
  refine ⟨?_, by omega⟩
  have ht' : offset - signature.length = t.length := by omega
  rw [ht']
  conv => lhs; rw [hcontent]
  simp

variable {Line : Type} {decode : LogSource → List UInt8 → DecodedRawLogLine Line}
variable {source : LogSource} {log : Log} {skip : Bool} {s : FileState} {out : List Line}

/-- A file that goes on as the state remembers it is not reset. -/
theorem LogFile.Serves.intact {file : LogFile} {budget : ReadBudget} {len : Nat} (h : file.Serves log budget s.offset)
    (hidentity : s.identity = some log.identity) (hsignature : s.signature <:+ log.content.take s.offset)
    (hlength : s.offset ≤ log.content.length) (hlen : file.metadata = .ok len) (outcome : ReadOutcome Line) :
    checkBoundary s file len outcome = (s, outcome) := by
  have hsame : (s.identity.any (· != file.identity)) = false := by
    rw [hidentity, h.identity]
    simp
  have hgrown : decide (len < s.offset) = false := by
    simpa using h.metadata len hlen
  obtain ⟨hsig, hle⟩ := take_drop_of_suffix hsignature hlength
  have hmatch : s.signature ≠ [] → signatureMatches file s.offset s.signature = .ok true := by
    intro hne
    rw [signatureMatches, if_neg hne, h.exact _ _ (by omega), hsig]
    simp [Except.map]
  have hsame_state : ({ s with identity := some file.identity } : FileState) = s := by
    rw [h.identity, ← hidentity]
  unfold checkBoundary
  by_cases hne : s.signature = []
  · have hempty : s.signature.isEmpty = true := by rw [hne]; rfl
    simp [hsame, hgrown, hempty, hsame_state]
  · simp [hsame, hgrown, hmatch hne, hsame_state]

theorem FileState.appendBytes_offset (s : FileState) (bytes : List UInt8) : (s.appendBytes bytes).offset = s.offset := by
  unfold appendBytes
  split
  · rfl
  · split <;> rfl

namespace Framed

theorem extract (h : Framed decode source log skip s out) (maxRecords : Nat) (outcome : ReadOutcome Line)
    {base : List Line} (hout : out = base ++ outcome.texts) :
    Framed decode source log skip (extractCompleteLines decode s maxRecords outcome).1
      (base ++ (extractCompleteLines decode s maxRecords outcome).2.texts) := by
  obtain ⟨done, hsame, htexts, hleft, -⟩ := extractCompleteLines_spec decode s maxRecords outcome
  have hnext := h.left hsame hleft
  rwa [hout, ← h.source_eq, List.append_assoc, ← htexts, h.source_eq] at hnext

theorem readLoop (budget : ReadBudget) (reads : List (Except String (List UInt8))) (bytesRead : Nat)
    (outcome : ReadOutcome Line) {base : List Line} (h : Framed decode source log skip s (base ++ outcome.texts))
    (hserves : ServesReads log budget bytesRead s.offset reads) (hunsplit : ReadsUnsplit log skip s.offset reads) :
    Framed decode source log skip (Tailer.readLoop decode budget reads bytesRead s outcome).1
      (base ++ (Tailer.readLoop decode budget reads bytesRead s outcome).2.texts) := by
  induction reads generalizing bytesRead s outcome with
  | nil => exact h
  | cons answer reads ih =>
    simp only [Tailer.readLoop]
    by_cases hgo : bytesRead < budget.bytes ∧ outcome.lines.length < budget.records
    · rw [if_pos hgo]
      cases answer with
      | error error => exact h
      | ok bytes =>
        obtain ⟨hlen, hprefix, hrest⟩ := hserves
        simp only [List.take_of_length_le hlen]
        by_cases hnil : bytes = []
        · rw [if_pos hnil]
          exact h
        · rw [if_neg hnil]
          obtain ⟨hsplit, hsplits⟩ := hunsplit hnil
          have happ := h.append hprefix hnil hsplit
          have hext := happ.extract (budget.records - outcome.lines.length) outcome rfl
          obtain ⟨done, hsame, -, -, -⟩ := extractCompleteLines_spec decode
            (FileState.appendBytes { s with
              offset := s.offset + bytes.length, signature := extendSignature s.signature bytes } bytes)
            (budget.records - outcome.lines.length) outcome
          have hoff := hsame.offset.trans (FileState.appendBytes_offset _ bytes)
          refine ih (bytesRead + bytes.length) _ hext ?_ ?_
          · rw [hoff]
            exact hrest hnil
          · rw [hoff]
            exact hsplits
    · rw [if_neg hgo]
      exact h

theorem checkBoundary (h : Framed decode source log skip s out) {file : LogFile} {budget : ReadBudget} {len : Nat}
    (hserves : file.Serves log budget s.offset) (hlen : file.metadata = .ok len) (outcome : ReadOutcome Line) :
    Tailer.checkBoundary s file len outcome = (s, outcome) :=
  hserves.intact h.identity h.signature h.le_length hlen outcome

theorem readLines (h : Framed decode source log skip s out) {file : LogFile} {budget : ReadBudget} {len : Nat}
    (hserves : file.Serves log budget s.offset) (hunsplit : ReadsUnsplit log skip s.offset file.reads) :
    Framed decode source log skip (Tailer.readLines decode s file len budget {}).1
      (out ++ (Tailer.readLines decode s file len budget {}).2.texts) := by
  have hext : Framed decode source log skip _ (out ++ _) := h.extract budget.records {} (by simp [ReadOutcome.texts])
  obtain ⟨done, hsame, -, -, -⟩ := extractCompleteLines_spec decode s budget.records {}
  simp only [Tailer.readLines]
  split
  · exact hext
  · split
    · exact hext
    · exact hext.readLoop budget file.reads 0 _ (by rw [hsame.offset]; exact hserves.reads)
        (by rw [hsame.offset]; exact hunsplit)

theorem readFile (h : Framed decode source log skip s out) (budget : ReadBudget) (opened : OpenResult)
    (hserves : ∀ file, opened = .opened file → file.Serves log budget s.offset)
    (hunsplit : ∀ file, opened = .opened file → ReadsUnsplit log skip s.offset file.reads) :
    Framed decode source log skip (Tailer.readFile decode s budget opened).1
      (out ++ (Tailer.readFile decode s budget opened).2.texts) := by
  cases opened with
  | notFound => simpa [Tailer.readFile, ReadOutcome.texts] using h
  | failed error => simpa [Tailer.readFile, ReadOutcome.texts] using h
  | opened file =>
    have hs := hserves file rfl
    simp only [Tailer.readFile]
    split
    · simpa [ReadOutcome.texts] using h
    · rename_i len hlen
      rw [h.checkBoundary hs hlen]
      simp only [h.initialized, Bool.not_true, Bool.false_eq_true, if_false]
      exact h.readLines hs (hunsplit file rfl)

/-- A call that reports no more work leaves no complete line behind, in memory or in the file. -/
theorem quiet (h : Framed decode source log skip s out) {file : LogFile} {budget : ReadBudget} {len : Nat}
    (hserves : file.Serves log budget s.offset) (hlen : file.metadata = .ok len)
    (hseek : ∀ offset, file.seek offset = true)
    (hdone : (Tailer.readFile decode s budget (.opened file)).2.moreWork = false) :
    newline ∉ (Tailer.readFile decode s budget (.opened file)).1.pending ∧
      (len ≤ (Tailer.readFile decode s budget (.opened file)).1.offset ∨
        file.latestLen.getD len ≤ (Tailer.readFile decode s budget (.opened file)).1.offset) := by
  simp only [Tailer.readFile, hlen, h.initialized, h.checkBoundary hserves hlen, Bool.not_true,
    Bool.false_eq_true, if_false, Tailer.readLines, hseek] at hdone ⊢
  split at hdone
  · rename_i hfull
    rw [if_pos hfull]
    simp only [FileState.pendingHasCompleteLine, Bool.or_eq_false_iff, decide_eq_false_iff_not] at hdone
    exact ⟨by simpa using hdone.1, .inl (Nat.not_lt.mp hdone.2)⟩
  · rename_i hroom
    rw [if_neg hroom]
    simp only [FileState.pendingHasCompleteLine, Bool.or_eq_false_iff, decide_eq_false_iff_not] at hdone
    exact ⟨by simpa using hdone.1, .inr (Nat.not_lt.mp hdone.2)⟩

end Framed

end Stonemite.Tailer
