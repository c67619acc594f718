import Stonemite.Tailer.History

/-!
# Reassociation

A followed file over reads and synchronizations. Each change of its source begins a new segment of the log; what the
change gives up is at most the record that was incomplete at the moment, if no complete record was pending and that
record had begun. `Followed` keeps the segments beside the tailer; `step_read` and `step_moves` say what a read and a
synchronization do to them.
-/

open Std

namespace Stonemite.Tailer

open Stonemite.Combat

/-- A change of the source, with the length of the file at the moment. -/
structure Move where
  source : LogSource
  len : Nat

/-- A read of the path or a sync, with the length of the file. -/
inductive Event
  | read (call : ReadCall)
  | sync (opens : Str → OpenResult) (sources : List SourceSpec) (len : Nat)

/-- A tailer, what the reads of one file have emitted and the changes of its source. -/
structure Followed (Line : Type) where
  tailer : LogTailer
  lines : List Line
  moves : List Move

section

variable {Line : Type} (decode : LogSource → List UInt8 → DecodedRawLogLine Line)

namespace Followed

/-- One event on the tailer, with the lines of the key's file and what a sync discards. -/
def step (key : PathKey) (t : Followed Line) : Event → Followed Line
  | .read call =>
    let (tailer, outcome) := t.tailer.readPath decode (fun _ => call.opened) call.path call.budget
    { t with tailer := tailer, lines := if PathKey.new call.path = key then t.lines ++ outcome.texts else t.lines }
  | .sync opens sources len =>
    let tailer := (t.tailer.syncSources opens sources).1
    let moved := match t.tailer.files[key]?, tailer.files[key]? with
      | some state, some state' => if state.source ≠ state'.source then [⟨state'.source, len⟩] else []
      | _, _ => []
    { t with tailer := tailer, moves := t.moves ++ moved }

/-- The file opened for `key` is the log, which goes on being wanted. -/
def Served (log : Log) (key : PathKey) (t : Followed Line) : Event → Prop
  | .read call => ∀ s file, PathKey.new call.path = key → t.tailer.files[key]? = some s → call.opened = .opened file →
    file.Serves log call.budget s.offset
  | .sync _ sources len => (∃ spec, (LogTailer.expected sources)[key]? = some spec) ∧
    ∀ s, t.tailer.files[key]? = some s → s.offset ≤ len

/-- No read ends inside the line end of a line of the limit. -/
def Unsplit (log : Log) (skip : Bool) (key : PathKey) (t : Followed Line) : Event → Prop
  | .read call => ∀ s file, PathKey.new call.path = key → t.tailer.files[key]? = some s → call.opened = .opened file →
    ReadsUnsplit log skip s.offset file.reads
  | .sync .. => True

end Followed

/-- A change of the source gives up no more than the record at the offset, which has begun and is incomplete in the file, or
is never emitted. -/
def FileState.GivesUpPartial (log : Log) (len : Nat) (s : FileState) : Prop :=
  s.pending = [] ∨ s.discardUntilNewline = true ∨
    emittedLines (completeLines newline s.pending) = [] ∧
      (newline ∉ (log.content.drop s.offset).take (len - s.offset) ∧
          (unfinished newline s.pending ≠ [] ∨ s.offset < len) ∨
        ∀ q r, log.content.drop s.offset = q ++ newline :: r → newline ∉ q →
          maxLineBytes < (lineContent (unfinished newline s.pending ++ q)).length)

/-- Every change of the file's source gives up no more than the incomplete record. -/
def Followed.GivesUpPartial (log : Log) (key : PathKey) (t : Followed Line) : Event → Prop
  | .read _ => True
  | .sync _ sources len => ∀ s spec, t.tailer.files[key]? = some s → (LogTailer.expected sources)[key]? = some spec →
    s.source ≠ spec.source → s.GivesUpPartial log len

/-- The records and what was emitted of them: under the source of the time, but for at most one record at each change of the
source, the one that had begun in the file and was not complete. -/
inductive Accounted (log : Log) (skip : Bool) (first : LogSource) :
    List Move → LogSource → List Line → List (List UInt8) → Prop
  | begin : Accounted log skip first [] first [] []
  | emit {moves : List Move} {source : LogSource} {lines : List Line} {records : List (List UInt8)}
      (h : Accounted log skip first moves source lines records) (more : List (List UInt8)) :
      Accounted log skip first moves source (lines ++ decoded decode source more) (records ++ more)
  | move {moves : List Move} {source : LogSource} {lines : List Line} {records : List (List UInt8)}
      (h : Accounted log skip first moves source lines records) (move : Move) :
      Accounted log skip first (moves ++ [move]) move.source lines records
  | incomplete {moves : List Move} {source : LogSource} {lines : List Line} {records : List (List UInt8)}
      (h : Accounted log skip first moves source lines records) (move : Move) (record : List UInt8)
      (complete : records = wanted skip (log.read move.len)) (begun : unfinished newline (log.read move.len) ≠ []) :
      Accounted log skip first (moves ++ [move]) move.source lines (records ++ [record])

namespace Followed

/-- Every record of the bytes read is emitted or pending, but for the incomplete one of each change of the source. -/
def LosesPartialOnly (first : LogSource) (log : Log) (skip : Bool) (key : PathKey) (t : Followed Line) : Prop :=
  ∃ s, t.tailer.files[key]? = some s ∧ log.start ≤ s.offset ∧ s.offset ≤ log.content.length ∧
    Accounted decode log skip first t.moves s.source
      (t.lines ++ decoded decode s.source (emittedLines (completeLines newline s.pending))) (wanted skip (log.read s.offset))

/-- A call that reports no more work has left no complete line of the file behind. -/
def Caught (first : LogSource) (log : Log) (skip : Bool) (key : PathKey) (t : Followed Line) (call : ReadCall) : Prop :=
  ∀ file len, PathKey.new call.path = key → call.opened = .opened file → file.metadata = .ok len →
    (∀ offset, file.seek offset = true) →
    (t.tailer.readPath decode (fun _ => call.opened) call.path call.budget).2.moreWork = false →
    ∃ s, (t.step decode key (.read call)).tailer.files[key]? = some s ∧ min len (file.latestLen.getD len) ≤ s.offset ∧
      Accounted decode log skip first t.moves s.source (t.step decode key (.read call)).lines
        (wanted skip (log.read s.offset))

end Followed

end

variable {Line : Type} {decode : LogSource → List UInt8 → DecodedRawLogLine Line}

/-! ### Segments -/

/-- The log from a later start. -/
def Log.from (log : Log) (start : Nat) : Log := { log with start := start }

theorem Log.read_from {log : Log} {start offset : Nat} (hstart : log.start ≤ start) (hle : start ≤ offset) :
    log.read offset = log.read start ++ (log.from start).read offset := by
  have hlen : offset - log.start = (start - log.start) + (offset - start) := by omega
  have hdrop : (log.content.drop log.start).drop (start - log.start) = log.content.drop start := by
    rw [List.drop_drop]
    congr 1
    omega
  rw [read, hlen, List.take_add, hdrop]
  rfl

theorem Log.read_from_self (log : Log) (start : Nat) : (log.from start).read start = [] := by
  have hzero : start - (log.from start).start = 0 := Nat.sub_self start
  rw [read, hzero, List.take_zero]

theorem serves_from {log : Log} {start : Nat} {budget : ReadBudget} {reads : List (Except String (List UInt8))}
    {bytesRead offset : Nat} (h : ServesReads log budget bytesRead offset reads) :
    ServesReads (log.from start) budget bytesRead offset reads := by
  induction reads generalizing bytesRead offset with
  | nil => trivial
  | cons answer reads ih =>
    cases answer with
    | error error => trivial
    | ok bytes => exact ⟨h.1, h.2.1, fun hne => ih (h.2.2 hne)⟩

theorem LogFile.Serves.from {file : LogFile} {log : Log} {budget : ReadBudget} {offset : Nat}
    (h : file.Serves log budget offset) (start : Nat) : file.Serves (log.from start) budget offset :=
  ⟨h.identity, h.metadata, h.exact, serves_from h.reads⟩

theorem ReadsUnsplit.mono {log log' : Log} {skip skip' : Bool} {reads : List (Except String (List UInt8))} {offset : Nat}
    (hmono : ∀ end_, offset ≤ end_ → log'.SplitsLimit skip' end_ → log.SplitsLimit skip end_)
    (h : ReadsUnsplit log skip offset reads) : ReadsUnsplit log' skip' offset reads := by
  induction reads generalizing offset with
  | nil => trivial
  | cons answer reads ih =>
    cases answer with
    | error error => trivial
    | ok bytes =>
      intro hne
      obtain ⟨hsplit, hrest⟩ := h hne
      have hle : offset ≤ offset + bytes.length := Nat.le_add_right _ _
      exact ⟨fun hlimit => hsplit (hmono _ hle hlimit), ih (fun end_ hend => hmono end_ (hle.trans hend)) hrest⟩

/-- The change of the source leaves the file inside a line that is skipped. -/
def FileState.skips (s : FileState) : Bool := decide (s.pending ≠ []) || s.discardUntilNewline

theorem FileState.skips_eq_false_iff {s : FileState} :
    s.skips = false ↔ s.pending = [] ∧ s.discardUntilNewline = false := by
  rw [skips, Bool.or_eq_false_iff, decide_eq_false_iff_not, not_not]

theorem unfinished_append_of_mem {p c : List UInt8} (h : newline ∈ c) :
    unfinished newline (p ++ c) = unfinished newline c := by
  obtain ⟨q, r, rfl, hq⟩ := List.eq_append_cons_of_mem h
  have hfree : newline ∉ unfinished newline p ++ q := by
    rw [List.mem_append, not_or]
    exact ⟨notMem_unfinished newline p, hq⟩
  rw [unfinished_append, ← List.append_assoc, unfinished_append_cons hfree, unfinished_append_cons hq]

theorem wanted_of_notMem {skip : Bool} {p c : List UInt8} (h : newline ∉ c) : wanted skip (p ++ c) = wanted skip p := by
  have hfree : newline ∉ unfinished newline p ++ c := by
    rw [List.mem_append, not_or]
    exact ⟨notMem_unfinished newline p, h⟩
  rw [wanted, wanted, completeLines_append, completeLines_of_notMem hfree, List.append_nil]

/-- The records after `p` when the line that is unfinished there is skipped. -/
theorem wanted_append_skip {skip : Bool} {p c : List UInt8} (hskip : skip = true → newline ∈ p) :
    ∃ given, wanted skip (p ++ c) = wanted skip p ++ (given ++ wanted true c) ∧
      (given = [] ∨ ∃ q r, c = q ++ newline :: r ∧ newline ∉ q ∧
        (lineContent (unfinished newline p ++ q)).length ≤ maxLineBytes ∧
        given = [lineContent (unfinished newline p ++ q)]) := by
  by_cases hmem : newline ∈ c
  · obtain ⟨q, r, rfl, hq⟩ := List.eq_append_cons_of_mem hmem
    have hfree : newline ∉ unfinished newline p ++ q := by
      rw [List.mem_append, not_or]
      exact ⟨notMem_unfinished newline p, hq⟩
    have hrest : wanted true (q ++ newline :: r) = emittedLines (completeLines newline r) :=
      wanted_skip (p := []) List.not_mem_nil hq
    rw [wanted_append _ hskip, ← List.append_assoc, completeLines_append_cons hfree, hrest]
    by_cases hshort : (lineContent (unfinished newline p ++ q)).length ≤ maxLineBytes
    · rw [emittedLines_cons_of_le hshort]
      exact ⟨[lineContent (unfinished newline p ++ q)], rfl, .inr ⟨q, r, rfl, hq, hshort, rfl⟩⟩
    · rw [emittedLines_cons_of_gt (Nat.lt_of_not_le hshort)]
      exact ⟨[], rfl, .inl rfl⟩
  · have hnone : wanted true c = [] := by
      rw [wanted, completeLines_of_notMem hmem]
      rfl
    exact ⟨[], by rw [wanted_of_notMem hmem, hnone, List.append_nil, List.append_nil], .inl rfl⟩

namespace Framed
variable {source : LogSource} {log : Log} {skip : Bool} {s : FileState} {out : List Line} {offset : Nat}

/-- While a line is discarded, the line the offset is in counts as skipped. -/
theorem wanted_discard (h : Framed decode source log skip s out) (hd : s.discardUntilNewline = true)
    (hle : s.offset ≤ offset) :
    wanted skip (log.read offset) = wanted skip (log.read s.offset) ++ wanted true ((log.from s.offset).read offset) := by
  obtain ⟨-, hwhy⟩ := h.discard hd
  rw [Log.read_from h.start_le hle]
  rcases hwhy with ⟨rfl, hnone⟩ | ⟨hlong, hskip⟩
  · have hnil : wanted true (log.read s.offset) = [] := by
      rw [wanted, completeLines_of_notMem hnone]
      rfl
    rw [hnil, List.nil_append]
    by_cases hmem : newline ∈ (log.from s.offset).read offset
    · obtain ⟨q, r, hsplit, hq⟩ := List.eq_append_cons_of_mem hmem
      have hrest : wanted true (q ++ newline :: r) = emittedLines (completeLines newline r) :=
        wanted_skip (p := []) List.not_mem_nil hq
      rw [hsplit, wanted_skip hnone hq, hrest]
    · have hfirst : wanted true ((log.from s.offset).read offset) = [] := by
        rw [wanted, completeLines_of_notMem hmem]
        rfl
      rw [wanted_of_notMem hmem, hnil, hfirst]
  · obtain ⟨given, hgiven, hwhat⟩ := wanted_append_skip (c := (log.from s.offset).read offset) hskip
    rcases hwhat with rfl | ⟨q, r, hsplit, hq, hshort, -⟩
    · exact hgiven
    · refine absurd hshort (Nat.not_le.mpr ?_)
      apply length_lineContent_gt
      · rw [List.length_append]
        omega
      · intro hlen hcr
        have hq0 : q = [] := by
          rw [List.length_append] at hlen
          exact List.length_eq_zero_iff.mp (by omega)
        subst hq0
        rw [List.append_nil] at hlen hcr
        -- the newline comes next, so the offset splits the line end
        have hbytes : newline :: r <+: log.content.drop s.offset := by
          have hread : (log.from s.offset).read offset = (log.content.drop s.offset).take (offset - s.offset) := rfl
          rw [List.nil_append, hread] at hsplit
          rw [← hsplit]
          exact List.take_prefix _ _
        exact h.unsplit ⟨hlen, hcr, Log.next_byte hbytes, hskip⟩

/-- The file after the change of its source frames the log from the offset on. -/
theorem reassociate (h : Framed decode source log skip s out) (source' : LogSource) (path : Str) :
    Framed decode source' (log.from s.offset) s.skips { s.reassociate source' with path := path } [] := by
  have hread := log.read_from_self s.offset
  have hwanted (skip : Bool) : wanted skip [] = [] := by simp [wanted]
  have hunsplit : ¬ (log.from s.offset).SplitsLimit s.skips s.offset := by
    rintro ⟨hlen, -⟩
    rw [hread] at hlen
    cases hlen
  cases hskips : s.skips with
  | false =>
    obtain ⟨hpending, hdiscard⟩ := FileState.skips_eq_false_iff.mp hskips
    have hsame : s.reassociate source' = { s.advanceGeneration with source := source' } := by
      have hquiet : ¬ (s.advanceGeneration.pending ≠ [] ∨ s.advanceGeneration.discardUntilNewline = true) := by
        rw [not_or, not_not, Bool.not_eq_true]
        exact ⟨hpending, hdiscard⟩
      rw [FileState.reassociate, if_neg hquiet]
    rw [hskips] at hunsplit
    rw [hsame]
    refine ⟨rfl, h.initialized, h.identity, le_rfl, h.le_length, h.signature, ?_, fun _ => ?_, fun htrue => ?_, hunsplit⟩
    · show [] ++ decoded decode source' (emittedLines (completeLines newline s.pending)) =
        decoded decode source' (wanted false ((log.from s.offset).read s.offset))
      rw [hpending, hread, hwanted]
      rfl
    · show unfinished newline s.pending = unfinished newline ((log.from s.offset).read s.offset) ∧ _
      rw [hpending, hread]
      exact ⟨rfl, fun hfalse => absurd hfalse Bool.false_ne_true⟩
    · exact absurd (hdiscard.symm.trans htrue) Bool.false_ne_true
  | true =>
    have hdrops : s.advanceGeneration.pending ≠ [] ∨ s.advanceGeneration.discardUntilNewline = true := by
      by_contra hquiet
      rw [not_or, not_not, Bool.not_eq_true] at hquiet
      have hfalse : s.skips = false := FileState.skips_eq_false_iff.mpr hquiet
      rw [hfalse] at hskips
      cases hskips
    have hsame : s.reassociate source' =
        { s.advanceGeneration with pending := [], discardUntilNewline := true, source := source' } := by
      rw [FileState.reassociate, if_pos hdrops]
    rw [hskips] at hunsplit
    rw [hsame]
    refine ⟨rfl, h.initialized, h.identity, le_rfl, h.le_length, h.signature, ?_, fun hfalse => ?_, fun _ => ?_, hunsplit⟩
    · show [] ++ decoded decode source' (emittedLines (completeLines newline [])) =
        decoded decode source' (wanted true ((log.from s.offset).read s.offset))
      rw [hread, hwanted]
      rfl
    · cases hfalse
    · refine ⟨rfl, .inl ⟨rfl, ?_⟩⟩
      show newline ∉ (log.from s.offset).read s.offset
      rw [hread]
      exact List.not_mem_nil

end Framed

/-- What was emitted before the segment of the log that begins at `start`, and how the segment continues the records. -/
structure Segment (decode : LogSource → List UInt8 → DecodedRawLogLine Line) (log : Log) (skip : Bool) (first : LogSource)
    (moves : List Move) (source : LogSource) (start : Nat) (skip' : Bool) (before : List Line) : Prop where
  start_le : log.start ≤ start
  records : ∀ offset, start ≤ offset → ∃ records, Accounted decode log skip first moves source before records ∧
    wanted skip (log.read offset) = records ++ wanted skip' ((log.from start).read offset)
  tail : ∀ offset, start ≤ offset → (skip' = true → newline ∈ (log.from start).read offset) →
    unfinished newline (log.read offset) = unfinished newline ((log.from start).read offset) ∧
      (skip = true → newline ∈ log.read offset)

namespace Segment
variable {log : Log} {skip skip' : Bool} {first source : LogSource} {moves : List Move} {start : Nat} {before out : List Line}
  {s : FileState}

theorem begin (log : Log) (skip : Bool) (source : LogSource) : Segment decode log skip source [] source log.start skip [] where
  start_le := le_rfl
  records _ _ := ⟨[], .begin, rfl⟩
  tail _ _ h := ⟨rfl, h⟩

theorem splits (h : Segment decode log skip first moves source start skip' before) {offset : Nat} (hle : start ≤ offset)
    (hsplit : (log.from start).SplitsLimit skip' offset) : log.SplitsLimit skip offset := by
  obtain ⟨hlen, hlast, hnext, hskip⟩ := hsplit
  obtain ⟨htail, hmem⟩ := h.tail offset hle hskip
  exact ⟨by rw [htail, hlen], by rw [htail, hlast], hnext, hmem⟩

theorem accounted (h : Segment decode log skip first moves source start skip' before) {offset : Nat} (hle : start ≤ offset)
    (hout : out = decoded decode source (wanted skip' ((log.from start).read offset))) :
    Accounted decode log skip first moves source (before ++ out) (wanted skip (log.read offset)) := by
  obtain ⟨records, haccounted, hrecords⟩ := h.records offset hle
  rw [hout, hrecords]
  exact haccounted.emit _

/-- A change of the source, which gives up no more than the incomplete record. -/
theorem move (h : Segment decode log skip first moves s.source start skip' before)
    (hframed : Framed decode s.source (log.from start) skip' s out) {source' : LogSource} {len : Nat} (hlen : s.offset ≤ len)
    (hgives : s.GivesUpPartial log len) :
    Segment decode log skip first (moves ++ [⟨source', len⟩]) source' s.offset s.skips (before ++ out) := by
  have hle : start ≤ s.offset := hframed.start_le
  have hstart : log.start ≤ s.offset := h.start_le.trans hle
  have hread (offset : Nat) (hoffset : s.offset ≤ offset) := Log.read_from hstart hoffset
  have hnone : emittedLines (completeLines newline s.pending) = [] := by
    rcases hgives with hpending | hdiscard | ⟨hnone, -⟩
    · rw [hpending]
      rfl
    · rw [(hframed.discard hdiscard).1]
      rfl
    · exact hnone
  have hout : out = decoded decode s.source (wanted skip' ((log.from start).read s.offset)) := by
    have hlines := hframed.lines
    rw [hnone] at hlines
    exact (List.append_nil out).symm.trans hlines
  have hnow := h.accounted hle hout
  -- without a discarded line the unfinished one is that of the pending bytes
  have htail (hdiscard : s.discardUntilNewline = false) :
      unfinished newline (log.read s.offset) = unfinished newline s.pending ∧ (skip = true → newline ∈ log.read s.offset) := by
    obtain ⟨hpending, hskip⟩ := hframed.tail hdiscard
    obtain ⟨hunfinished, hmem⟩ := h.tail s.offset hle hskip
    exact ⟨hunfinished.trans hpending.symm, hmem⟩
  refine ⟨hstart, fun offset hoffset => ?_, fun offset hoffset hskip => ?_⟩
  · cases hdiscard : s.discardUntilNewline with
    | true =>
      have hskips : s.skips = true := by rw [FileState.skips, hdiscard, Bool.or_true]
      obtain ⟨records, haccounted, hrecords⟩ := h.records offset (hle.trans hoffset)
      rw [hframed.wanted_discard hdiscard hoffset] at hrecords
      refine ⟨records ++ wanted skip' ((log.from start).read s.offset), ?_, ?_⟩
      · rw [hout]
        exact (haccounted.emit _).move ⟨source', len⟩
      · rw [hrecords, hskips, List.append_assoc]
        rfl
    | false =>
      obtain ⟨hunfinished, hmem⟩ := htail hdiscard
      by_cases hpending : s.pending = []
      · have hskips : s.skips = false := FileState.skips_eq_false_iff.mpr ⟨hpending, hdiscard⟩
        refine ⟨wanted skip (log.read s.offset), hnow.move ⟨source', len⟩, ?_⟩
        rw [hread offset hoffset, wanted_append _ hmem, hunfinished, hpending, hskips]
        rfl
      · have hskips : s.skips = true := by rw [FileState.skips, decide_eq_true hpending, Bool.true_or]
        obtain ⟨given, hgiven, hwhat⟩ := wanted_append_skip (c := (log.from s.offset).read offset) hmem
        refine ⟨wanted skip (log.read s.offset) ++ given, ?_, by rw [hread offset hoffset, hgiven, hskips, List.append_assoc]⟩
        rcases hwhat with rfl | ⟨q, r, hsplit, hq, hshort, rfl⟩
        · rw [List.append_nil]
          exact hnow.move ⟨source', len⟩
        · rw [hunfinished] at hshort
          have hcontent : ∃ r', log.content.drop s.offset = q ++ newline :: r' := by
            have hprefix : q ++ newline :: r <+: log.content.drop s.offset := by
              rw [← hsplit]
              exact List.take_prefix _ _
            obtain ⟨r', hr'⟩ := hprefix
            exact ⟨r ++ r', by rw [← hr', List.append_assoc, List.cons_append]⟩
          obtain ⟨r', hr'⟩ := hcontent
          rcases hgives with hempty | hdiscard' | ⟨-, ⟨hincomplete, hbegun⟩ | hnever⟩
          · exact absurd hempty hpending
          · exact absurd (hdiscard'.symm.trans hdiscard) nofun
          · have hslice : (log.from s.offset).read len = (log.content.drop s.offset).take (len - s.offset) := rfl
            rw [← hslice] at hincomplete
            refine hnow.incomplete ⟨source', len⟩ _ ?_ ?_
            · rw [hread len hlen, wanted_of_notMem hincomplete]
            · have hfree : newline ∉ unfinished newline s.pending ++ (log.from s.offset).read len := by
                rw [List.mem_append, not_or]
                exact ⟨notMem_unfinished newline _, hincomplete⟩
              rw [hread len hlen, unfinished_append, hunfinished, unfinished_of_notMem hfree]
              intro hnil
              obtain ⟨hnothing, hnoread⟩ := List.append_eq_nil_iff.mp hnil
              rcases hbegun with hbegun | hbegun
              · exact hbegun hnothing
              · rw [hslice, hr', List.take_eq_nil_iff] at hnoread
                rcases hnoread with hzero | hempty
                · omega
                · exact absurd hempty (List.append_ne_nil_of_right_ne_nil _ (List.cons_ne_nil _ _))
          · exact absurd hshort (Nat.not_le.mpr (hnever q r' hr' hq))
  · rw [hread offset hoffset]
    by_cases hmem : newline ∈ (log.from s.offset).read offset
    · exact ⟨unfinished_append_of_mem hmem, fun _ => List.mem_append_right _ hmem⟩
    · have hskips : s.skips = false := by
        rw [Bool.eq_false_iff]
        exact fun htrue => hmem (hskip htrue)
      obtain ⟨hpending, hdiscard⟩ := FileState.skips_eq_false_iff.mp hskips
      obtain ⟨hunfinished, hfirst⟩ := htail hdiscard
      refine ⟨?_, fun htrue => List.mem_append_left _ (hfirst htrue)⟩
      rw [unfinished_append, hunfinished, hpending]
      rfl

end Segment

/-! ### Runs -/

namespace Followed
variable {log : Log} {skip : Bool} {key : PathKey} {first : LogSource} {t : Followed Line}

/-- The file is in a segment of the log that continues what was emitted before. -/
def Continues (decode : LogSource → List UInt8 → DecodedRawLogLine Line) (first : LogSource) (log : Log) (skip : Bool)
    (key : PathKey) (t : Followed Line) : Prop :=
  ∃ s start skip' before out, t.tailer.files[key]? = some s ∧ t.lines = before ++ out ∧
    Framed decode s.source (log.from start) skip' s out ∧ Segment decode log skip first t.moves s.source start skip' before

theorem Continues.losesPartialOnly (h : t.Continues decode first log skip key) :
    t.LosesPartialOnly decode first log skip key := by
  obtain ⟨s, start, skip', before, out, hs, hlines, hframed, hsegment⟩ := h
  have hle : start ≤ s.offset := hframed.start_le
  refine ⟨s, hs, hsegment.start_le.trans hle, hframed.le_length, ?_⟩
  rw [hlines, List.append_assoc]
  exact hsegment.accounted hle hframed.lines

theorem step_read {s : FileState} {call : ReadCall} (hkey : PathKey.new call.path = key) (hs : t.tailer.files[key]? = some s) :
    t.step decode key (.read call) =
      ⟨⟨t.tailer.files.insert key (readFile decode s call.budget call.opened).1⟩,
        t.lines ++ (readFile decode s call.budget call.opened).2.texts, t.moves⟩ := by
  simp only [step, LogTailer.readPath, hkey, hs, if_true]

theorem step_moves {s s' : FileState} {opens : Str → OpenResult} {sources : List SourceSpec} {len : Nat}
    (hs : t.tailer.files[key]? = some s) (hs' : (t.tailer.syncSources opens sources).1.files[key]? = some s') :
    (t.step decode key (.sync opens sources len)).moves =
      t.moves ++ (if s.source ≠ s'.source then [⟨s'.source, len⟩] else []) := by
  simp only [step, hs, hs']

theorem read_continues (h : t.Continues decode first log skip key) {call : ReadCall} (hserved : t.Served log key (.read call))
    (hunsplit : t.Unsplit log skip key (.read call)) : (t.step decode key (.read call)).Continues decode first log skip key := by
  obtain ⟨s, start, skip', before, out, hs, hlines, hframed, hsegment⟩ := h
  by_cases hkey : PathKey.new call.path = key
  · have hle : start ≤ s.offset := hframed.start_le
    have hnext := hframed.readFile call.budget call.opened (fun file hf => (hserved s file hkey hs hf).from start)
      (fun file hf => (hunsplit s file hkey hs hf).mono fun end_ hend => hsegment.splits (hle.trans hend))
    rw [step_read hkey hs]
    have hsource : (readFile decode s call.budget call.opened).1.source = s.source := hnext.source_eq
    refine ⟨_, start, skip', before, _, ExtTreeMap.getElem?_insert_self, by rw [hlines, List.append_assoc], ?_, ?_⟩
    · rw [hsource]
      exact hnext
    · rw [hsource]
      exact hsegment
  · have hother : (t.step decode key (.read call)).tailer.files[key]? = some s := by
      simp only [step, LogTailer.readPath]
      cases t.tailer.files[PathKey.new call.path]? with
      | none => exact hs
      | some other => exact (ExtTreeMap.getElem?_insert_of_ne hkey _).trans hs
    have hsame : (t.step decode key (.read call)).lines = t.lines := if_neg hkey
    exact ⟨s, start, skip', before, out, hother, hsame.trans hlines, hframed, hsegment⟩

theorem sync_continues (h : t.Continues decode first log skip key) {opens : Str → OpenResult} {sources : List SourceSpec}
    {len : Nat} (hserved : t.Served log key (.sync opens sources len))
    (hgives : t.GivesUpPartial log key (.sync opens sources len)) :
    (t.step decode key (.sync opens sources len)).Continues decode first log skip key := by
  obtain ⟨s, start, skip', before, out, hs, hlines, hframed, hsegment⟩ := h
  obtain ⟨⟨spec, hspec⟩, hlen⟩ := hserved
  have hfiles := @LogTailer.syncSources_files opens sources t.tailer key
  rw [hspec, hs, Option.map_some] at hfiles
  by_cases hsource : s.source = spec.source
  · have hsame : FileState.follow opens spec (some s) = { s with path := spec.path } := by
      rw [FileState.follow, if_neg (not_not.mpr hsource)]
    rw [hsame] at hfiles
    have hmoves : (t.step decode key (.sync opens sources len)).moves = t.moves := by
      rw [step_moves hs hfiles, if_neg (not_not.mpr rfl), List.append_nil]
    refine ⟨_, start, skip', before, out, hfiles, hlines, ?_, ?_⟩
    · exact ⟨hframed.source_eq, hframed.initialized, hframed.identity, hframed.start_le, hframed.le_length,
        hframed.signature, hframed.lines, hframed.tail, hframed.discard, hframed.unsplit⟩
    · rw [hmoves]
      exact hsegment
  · have hmoved : FileState.follow opens spec (some s) = { s.reassociate spec.source with path := spec.path } := by
      rw [FileState.follow, if_pos hsource]
    rw [hmoved] at hfiles
    have hmoves : (t.step decode key (.sync opens sources len)).moves = t.moves ++ [⟨spec.source, len⟩] := by
      rw [step_moves hs hfiles]
      exact congrArg (t.moves ++ ·) (if_pos hsource)
    have hbefore : (t.step decode key (.sync opens sources len)).lines = (before ++ out) ++ [] := by
      rw [List.append_nil, ← hlines]
      rfl
    refine ⟨_, s.offset, s.skips, before ++ out, [], hfiles, hbefore, hframed.reassociate spec.source spec.path, ?_⟩
    rw [hmoves]
    exact hsegment.move hframed (hlen s hs) (hgives s spec hs hspec hsource)

theorem caught (h : t.Continues decode first log skip key) {call : ReadCall} (hserved : t.Served log key (.read call))
    (hunsplit : t.Unsplit log skip key (.read call)) : t.Caught decode first log skip key call := by
  intro file len hkey hopened hlen hseek hdone
  obtain ⟨s, hs, hoffset, hlength, haccounted⟩ := (read_continues h hserved hunsplit).losesPartialOnly
  obtain ⟨s', start, skip', before, out, hs', -, hframed, -⟩ := h
  have hserves := (hserved s' file hkey hs' hopened).from start
  have hread : (t.step decode key (.read call)).tailer.files[key]? = some (readFile decode s' call.budget call.opened).1 := by
    rw [step_read hkey hs']
    exact ExtTreeMap.getElem?_insert_self
  obtain rfl := Option.some.inj (hs.symm.trans hread)
  simp only [LogTailer.readPath, hkey, hs'] at hdone
  rw [hopened] at hdone
  obtain ⟨hnone, hall⟩ := hframed.quiet hserves hlen hseek hdone
  rw [← hopened] at hnone hall
  have hmoves : (t.step decode key (.read call)).moves = t.moves := rfl
  rw [completeLines_of_notMem hnone, hmoves] at haccounted
  refine ⟨_, hs, by omega, ?_⟩
  simpa [decoded] using haccounted

end Followed

theorem Accounted.length_le {log : Log} {skip : Bool} {first source : LogSource} {moves : List Move} {lines : List Line}
    {records : List (List UInt8)} (h : Accounted decode log skip first moves source lines records) :
    records.length ≤ lines.length + moves.length := by
  induction h with
  | begin => exact Nat.zero_le _
  | emit h more ih =>
    rw [List.length_append, List.length_append, decoded, List.length_map]
    omega
  | move h move ih =>
    rw [List.length_append, List.length_singleton]
    omega
  | incomplete h move record complete begun ih =>
    rw [List.length_append, List.length_append, List.length_singleton, List.length_singleton]
    omega

namespace FourLines
open TwoReads (plain)

/-- `a`, `b`, `c` and `d`, each with its newline. -/
def log : Log := ⟨[97, 10, 98, 10, 99, 10, 100, 10], ⟨some 1, some 1, 1⟩, 0⟩

/-- The file before it was there. -/
def prior : FileState := FileState.absent ['p'] ⟨['c'], ['B'], ['t']⟩

/-- The file when it holds `len` bytes of the log, with the answers to the reads. -/
def file (len : Nat) (reads : List (Except String (List UInt8))) : LogFile :=
  ⟨.ok len, log.identity, fun pos len => .ok ((log.content.drop pos).take len), fun _ => true, reads, some len⟩

/-- A tailer that has the file open at its start. -/
def tailer : LogTailer := ⟨(∅ : ExtTreeMap PathKey FileState).insert ['p'] (prior.initializeAtEnd (file 0 []) 0).1⟩

/-- The first two lines are read, with a budget of so many records, the source changes, and the other two are read. -/
def events (records : Nat) : List Event :=
  [.read ⟨['p'], ⟨64, records⟩, .opened (file 4 [.ok [97, 10, 98, 10]])⟩,
    .sync (fun _ => .notFound) [⟨['p'], ⟨['c'], ['S'], ['t']⟩⟩] 4,
    .read ⟨['p'], ⟨64, 8⟩, .opened (file 8 [.ok [99, 10, 100, 10]])⟩]

def run (records n : Nat) : Followed (List UInt8) :=
  ((events records).take n).foldl (Followed.step plain ['p']) ⟨tailer, [], []⟩

theorem begins : log.Begins prior (file 0 []) where
  discard := rfl
  signature := rfl
  identity := rfl
  start_le := Nat.zero_le _
  suffix bytes h := by
    cases h
    rfl

theorem tracked : tailer.files[(['p'] : PathKey)]? = some (prior.initializeAtEnd (file 0 []) log.start).1 := by
  simp [tailer, log]

theorem wanted_saabra : (LogTailer.expected [⟨['p'], ⟨['c'], ['S'], ['t']⟩⟩])[(['p'] : PathKey)]? =
    some ⟨['p'], ⟨['c'], ['S'], ['t']⟩⟩ := by
  have hkey : PathKey.new ['p'] = ['p'] := by decide
  rw [LogTailer.expected, List.foldl_cons, List.foldl_nil, hkey, ExtTreeMap.getElem?_insertIfNew]
  simp

theorem serves_at {t : Followed (List UInt8)} (offset : Nat) {budget : ReadBudget} {f : LogFile}
    (hoffset : (t.tailer.files[(['p'] : PathKey)]?.map (·.offset)) = some offset) (h : f.Serves log budget offset) :
    t.Served log ['p'] (.read ⟨['p'], budget, .opened f⟩) := by
  intro s f' _ hs hf
  cases hf
  rw [hs] at hoffset
  obtain rfl := Option.some.inj hoffset
  exact h

theorem unsplit_at {t : Followed (List UInt8)} (offset : Nat) {budget : ReadBudget} {f : LogFile}
    (hoffset : (t.tailer.files[(['p'] : PathKey)]?.map (·.offset)) = some offset) (h : ReadsUnsplit log false offset f.reads) :
    t.Unsplit log false ['p'] (.read ⟨['p'], budget, .opened f⟩) := by
  intro s f' _ hs hf
  cases hf
  rw [hs] at hoffset
  obtain rfl := Option.some.inj hoffset
  exact h

theorem offset_before {records : Nat} (h : records = 1 ∨ records = 8) :
    ((run records 2).tailer.files[(['p'] : PathKey)]?.map (·.offset)) = some 4 := by
  rcases h with rfl | rfl <;> decide +kernel

theorem served {records : Nat} (h : records = 1 ∨ records = 8) :
    Along (Followed.Served log ['p']) (Followed.step plain ['p']) ⟨tailer, [], []⟩ (events records) := by
  refine ⟨serves_at 0 (by decide +kernel) ?_, ⟨⟨⟨['p'], ⟨['c'], ['S'], ['t']⟩⟩, wanted_saabra⟩, ?_⟩,
    serves_at 4 (offset_before h) ?_, trivial⟩
  · exact ⟨rfl, fun len _ => Nat.zero_le _, fun pos len _ => rfl, show 4 ≤ readLen ⟨64, 8⟩ 0 by decide, by decide,
      fun _ => trivial⟩
  · intro s hs
    have hoffset : ((run records 1).tailer.files[(['p'] : PathKey)]?.map (·.offset)) = some 4 := by
      rcases h with rfl | rfl <;> decide +kernel
    have hs' : (run records 1).tailer.files[(['p'] : PathKey)]? = some s := hs
    rw [hs'] at hoffset
    exact Nat.le_of_eq (Option.some.inj hoffset)
  · refine ⟨rfl, fun len hlen => ?_, fun pos len _ => rfl, by decide, by decide, fun _ => trivial⟩
    obtain rfl : 8 = len := Except.ok.inj hlen
    decide

theorem unsplit {records : Nat} (h : records = 1 ∨ records = 8) :
    Along (Followed.Unsplit log (log.skips (file 0 [])) ['p']) (Followed.step plain ['p']) ⟨tailer, [], []⟩ (events records) := by
  have hskip : log.skips (file 0 []) = false := rfl
  rw [hskip]
  refine ⟨unsplit_at 0 (by decide +kernel) ?_, trivial, unsplit_at 4 (offset_before h) ?_, trivial⟩
  · exact fun _ => ⟨fun hsplit => absurd hsplit.1 (by decide), trivial⟩
  · exact fun _ => ⟨fun hsplit => absurd hsplit.1 (by decide), trivial⟩

end FourLines

end Stonemite.Tailer
