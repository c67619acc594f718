import Stonemite.Tailer.FramingRun

/-!
# Log framing

A tailed file from the end it had when its tail began: the records emitted by any reads are those of the bytes read,
unless a read ended inside the line end of a line of exactly the limit, which is then lost. `Served` relates the tail to
the log after any reads; `Unsplit` is the condition that no read ends inside such a line end, and `framing_exact` the
result.
-/

open Std

namespace Stonemite.Tailer

open Stonemite.Combat

/-- A call of `read_path` with the answer to its open. -/
structure ReadCall where
  path : Str
  budget : ReadBudget
  opened : OpenResult

/-- A tailer and what the reads of one file have emitted. -/
structure Tail (Line : Type) where
  tailer : LogTailer
  lines : List Line

section

variable {Line : Type} (decode : LogSource → List UInt8 → DecodedRawLogLine Line)

namespace Tail

/-- The tailer after a call, with the lines of the key's file. -/
def read (key : PathKey) (t : Tail Line) (call : ReadCall) : Tail Line :=
  let (tailer, outcome) := t.tailer.readPath decode (fun _ => call.opened) call.path call.budget
  ⟨tailer, if PathKey.new call.path = key then t.lines ++ outcome.texts else t.lines⟩

/-- The file the call opens for `key` is the log. -/
def Served (log : Log) (key : PathKey) (t : Tail Line) (call : ReadCall) : Prop :=
  ∀ s file, PathKey.new call.path = key → t.tailer.files[key]? = some s → call.opened = .opened file →
    file.Serves log call.budget s.offset

/-- No read of the call ends inside the line end of a line of the limit. -/
def Unsplit (log : Log) (skip : Bool) (key : PathKey) (t : Tail Line) (call : ReadCall) : Prop :=
  ∀ s file, PathKey.new call.path = key → t.tailer.files[key]? = some s → call.opened = .opened file →
    ReadsUnsplit log skip s.offset file.reads

/-- What was emitted and the complete lines still pending are the records of the bytes read. -/
def FramesExactly (source : LogSource) (log : Log) (skip : Bool) (key : PathKey) (t : Tail Line) : Prop :=
  ∃ s, t.tailer.files[key]? = some s ∧ log.start ≤ s.offset ∧ s.offset ≤ log.content.length ∧
    t.lines ++ decoded decode source (emittedLines (completeLines newline s.pending)) =
      decoded decode source (wanted skip (log.read s.offset))

/-- A call that reports no more work has emitted every record of the file as it is. -/
def Caught (source : LogSource) (log : Log) (skip : Bool) (key : PathKey) (t : Tail Line) (call : ReadCall) : Prop :=
  ∀ file len, PathKey.new call.path = key → call.opened = .opened file → file.metadata = .ok len →
    (∀ offset, file.seek offset = true) →
    (t.tailer.readPath decode (fun _ => call.opened) call.path call.budget).2.moreWork = false →
    ∃ s, (t.read decode key call).tailer.files[key]? = some s ∧ min len (file.latestLen.getD len) ≤ s.offset ∧
      (t.read decode key call).lines = decoded decode source (wanted skip (log.read s.offset))

end Tail

/-- The tail of the log begins at its end: `file` answers from it, and `prior` holds nothing yet. -/
structure Log.Begins (log : Log) (prior : FileState) (file : LogFile) : Prop where
  discard : prior.discardUntilNewline = false
  signature : prior.signature = []
  identity : file.identity = log.identity
  start_le : log.start ≤ log.content.length
  suffix : ∀ bytes, readSuffix file log.start = .ok bytes →
    bytes = (log.content.drop (log.start - min log.start signatureBytes)).take (min log.start signatureBytes)

/-- The tail begins inside a line, as far as the suffix could be read. -/
def Log.skips (log : Log) (file : LogFile) : Bool :=
  (readSuffix file log.start).isOk && (log.content.take log.start).getLast?.any (· != newline)

end

variable {Line : Type} {decode : LogSource → List UInt8 → DecodedRawLogLine Line}

theorem suffix_take {content : List UInt8} {start n : Nat} (hn : n ≤ start) :
    (content.drop (start - n)).take n <:+ content.take start := by
  have hsplit : content.take start = content.take (start - n) ++ (content.drop (start - n)).take n := by
    rw [← List.take_add]
    congr 1
    omega
  exact ⟨_, hsplit.symm⟩

theorem Framed.begin {log : Log} {prior : FileState} {file : LogFile} (h : log.Begins prior file) :
    Framed decode prior.source log (log.skips file) (prior.initializeAtEnd file log.start).1 [] := by
  have hread : log.read log.start = [] := by simp [Log.read]
  have hunsplit : ¬ log.SplitsLimit (log.skips file) log.start := by
    rintro ⟨hlen, -⟩
    rw [hread] at hlen
    cases hlen
  have hwanted : ∀ skip, wanted skip [] = [] := by
    intro skip
    simp [wanted]
  unfold FileState.initializeAtEnd
  cases hsuffix : readSuffix file log.start with
  | error error =>
    have hskip : log.skips file = false := by simp [Log.skips, hsuffix, Except.isOk, Except.toBool]
    refine ⟨rfl, rfl, by rw [h.identity], Nat.le_refl _, h.start_le, ?_, ?_, ?_, ?_, hunsplit⟩
    · show prior.signature <:+ _
      rw [h.signature]
      exact List.nil_suffix
    · simp [hread, hwanted]
    · intro _
      simp [hread, hskip]
    · intro hd
      simp [h.discard] at hd
  | ok bytes =>
    have hbytes := h.suffix bytes hsuffix
    have hsuf : bytes <:+ log.content.take log.start := by
      rw [hbytes]
      exact suffix_take (Nat.min_le_left _ _)
    have hskip : log.skips file = (decide (log.start > 0) && bytes.getLast? != some newline) := by
      have hlast : (log.content.take log.start).getLast? = bytes.getLast? := by
        obtain ⟨t, ht⟩ := hsuf
        rw [← ht, List.getLast?_append]
        cases hb : bytes.getLast? with
        | some b => rfl
        | none =>
          -- an empty suffix is the suffix of an empty history
          have hlen := congrArg List.length hbytes
          rw [List.getLast?_eq_none_iff.mp hb, List.length_take, List.length_drop] at hlen
          have hle := h.start_le
          have hzero : log.start = 0 := by
            simp only [List.length_nil, signatureBytes] at hlen
            omega
          have hnil := congrArg List.length ht
          rw [hzero, List.length_append] at hnil
          simp only [List.take_zero, List.length_nil] at hnil
          rw [List.length_eq_zero_iff.mp (by omega : t.length = 0)]
          rfl
      rw [Log.skips, hsuffix, hlast]
      cases hb : bytes.getLast? with
      | some b =>
        have hpos : log.start > 0 := by
          rcases Nat.eq_zero_or_pos log.start with hz | hp
          · rw [hz] at hbytes
            simp [hbytes] at hb
          · exact hp
        simp only [Except.isOk, Except.toBool, hpos, decide_true, Bool.true_and]
        rfl
      | none =>
        have hlen := congrArg List.length hbytes
        rw [List.getLast?_eq_none_iff.mp hb, List.length_take, List.length_drop] at hlen
        have hle := h.start_le
        have hzero : ¬ log.start > 0 := by
          simp only [List.length_nil, signatureBytes] at hlen
          omega
        simp [hzero]
    refine ⟨rfl, rfl, by rw [h.identity], Nat.le_refl _, h.start_le, hsuf, ?_, ?_, ?_, hunsplit⟩
    · simp [hread, hwanted]
    · intro hd
      simp only at hd
      rw [hread, hskip, hd]
      simp
    · intro hd
      simp only at hd
      rw [hread, hskip, hd]
      simp

namespace Tail
variable {log : Log} {skip : Bool} {key : PathKey} {source : LogSource} {t : Tail Line}

/-- The file of `key` is framed by what was emitted. -/
def Holds (decode : LogSource → List UInt8 → DecodedRawLogLine Line) (source : LogSource) (log : Log) (skip : Bool)
    (key : PathKey) (t : Tail Line) : Prop :=
  ∃ s, t.tailer.files[key]? = some s ∧ Framed decode source log skip s t.lines

theorem read_tracked {s : FileState} {call : ReadCall} (hkey : PathKey.new call.path = key)
    (hs : t.tailer.files[key]? = some s) :
    t.read decode key call = ⟨⟨t.tailer.files.insert key (readFile decode s call.budget call.opened).1⟩,
      t.lines ++ (readFile decode s call.budget call.opened).2.texts⟩ := by
  simp only [read, LogTailer.readPath, hkey, hs, if_true]

theorem read_holds (h : t.Holds decode source log skip key) (call : ReadCall) (hserved : t.Served log key call)
    (hunsplit : t.Unsplit log skip key call) : (t.read decode key call).Holds decode source log skip key := by
  obtain ⟨s, hs, hframed⟩ := h
  unfold Tail.read LogTailer.readPath
  by_cases hkey : PathKey.new call.path = key
  · simp only [hkey, hs, if_true]
    refine ⟨_, ExtTreeMap.getElem?_insert_self, ?_⟩
    exact hframed.readFile call.budget call.opened (fun file hf => hserved s file hkey hs hf)
      (fun file hf => hunsplit s file hkey hs hf)
  · simp only [hkey, if_false]
    cases hother : t.tailer.files[PathKey.new call.path]? with
    | none => exact ⟨s, hs, hframed⟩
    | some other => exact ⟨s, by rw [ExtTreeMap.getElem?_insert_of_ne hkey]; exact hs, hframed⟩

theorem caught (h : t.Holds decode source log skip key) {call : ReadCall} (hserved : t.Served log key call)
    (hunsplit : t.Unsplit log skip key call) : t.Caught decode source log skip key call := by
  intro file len hkey hopened hlen hseek hdone
  obtain ⟨s, hs, hframed⟩ := h
  have hserves := hserved s file hkey hs hopened
  have hnext := hframed.readFile call.budget call.opened (fun file hf => hserved s file hkey hs hf)
    (fun file hf => hunsplit s file hkey hs hf)
  simp only [Tail.read, LogTailer.readPath, hkey, hs, if_true] at hdone ⊢
  rw [hopened] at hdone hnext ⊢
  obtain ⟨hnone, hall⟩ := hframed.quiet hserves hlen hseek hdone
  refine ⟨_, ExtTreeMap.getElem?_insert_self, by omega, ?_⟩
  have hlines := hnext.lines
  rw [completeLines_of_notMem hnone] at hlines
  simpa [decoded] using hlines

end Tail

namespace TwoReads

/-- `a`, carriage return, newline, `b`, newline. -/
def log : Log := ⟨[97, 13, 10, 98, 10], ⟨some 1, some 1, 1⟩, 0⟩

/-- The first read ends inside the line end. -/
def file : LogFile :=
  ⟨.ok 0, log.identity, fun pos len => .ok ((log.content.drop pos).take len), fun _ => true,
    [.ok [97, 13], .ok [10, 98, 10]], some 5⟩

/-- The file before it was there. -/
def prior : FileState := FileState.absent ['p'] ⟨['c'], ['B'], ['t']⟩

/-- A decoder that gives the bytes back. -/
def plain : LogSource → List UInt8 → DecodedRawLogLine (List UInt8) := fun _ bytes => ⟨bytes, false⟩

/-- A tailer that has the file open at its start. -/
def tailer : LogTailer := ⟨(∅ : ExtTreeMap PathKey FileState).insert ['p'] (prior.initializeAtEnd file 0).1⟩

def call : ReadCall := ⟨['p'], ⟨64, 8⟩, .opened file⟩

theorem begins : log.Begins prior file where
  discard := rfl
  signature := rfl
  identity := rfl
  start_le := Nat.zero_le _
  suffix bytes h := by
    cases h
    rfl

theorem tracked : tailer.files[(['p'] : PathKey)]? = some (prior.initializeAtEnd file log.start).1 := by
  simp [tailer, log]

theorem served {decode : LogSource → List UInt8 → DecodedRawLogLine Line} :
    Along (Tail.Served log ['p']) (Tail.read decode ['p']) ⟨tailer, []⟩ [call] := by
  refine ⟨fun s f _ hs hf => ?_, trivial⟩
  obtain rfl : file = f := by
    cases hf
    rfl
  obtain rfl : (prior.initializeAtEnd file log.start).1 = s := Option.some.inj (tracked.symm.trans hs)
  exact ⟨rfl, fun len _ => Nat.zero_le _, fun pos len _ => rfl, by decide, by decide,
    fun _ => ⟨by decide, by decide, fun _ => trivial⟩⟩

theorem unsplit {decode : LogSource → List UInt8 → DecodedRawLogLine Line} :
    Along (Tail.Unsplit log (log.skips file) ['p']) (Tail.read decode ['p']) ⟨tailer, []⟩ [call] := by
  refine ⟨fun s f _ hs hf => ?_, trivial⟩
  obtain rfl : file = f := by
    cases hf
    rfl
  obtain rfl : (prior.initializeAtEnd file log.start).1 = s := Option.some.inj (tracked.symm.trans hs)
  exact fun _ => ⟨fun h => absurd h.1 (by decide), fun _ => ⟨fun h => absurd h.1 (by decide), trivial⟩⟩

end TwoReads

section split

variable {s : FileState} {outcome : ReadOutcome Line}

variable (decode) (outcome) in
theorem extract_short (maxRecords : Nat) (hfree : newline ∉ s.pending) (hlen : s.pending.length ≤ maxLineBytes) :
    extractCompleteLines decode s maxRecords outcome = (s, outcome) := by
  unfold extractCompleteLines
  split
  · rfl
  · simp [completeLines_of_notMem hfree, extractLoop, Nat.not_lt.mpr hlen]

variable (decode) (outcome) in
theorem extract_long {m : Nat} (hpos : m ≠ 0) (hfree : newline ∉ s.pending)
    (hlen : maxLineBytes < s.pending.length) :
    (extractCompleteLines decode s m outcome).1 =
      ({ s with pending := [], discardUntilNewline := true } : FileState).advanceGeneration ∧
    (extractCompleteLines decode s m outcome).2.lines = outcome.lines := by
  have hne : s.pending ≠ [] := by
    rintro h
    rw [h] at hlen
    simp at hlen
  unfold extractCompleteLines
  simp [completeLines_of_notMem hfree, extractLoop, hpos, hne, hlen, hfree]

variable (decode) in
theorem readLines_short {f : LogFile} (budget : ReadBudget) (len : Nat) (hfree : newline ∉ s.pending)
    (hlen : s.pending.length ≤ maxLineBytes) (hroom : 0 < budget.records) (hseek : f.seek s.offset = true) :
    (readLines decode s f len budget {}).1 = (readLoop decode budget f.reads 0 s {}).1 ∧
    (readLines decode s f len budget {}).2.lines = (readLoop decode budget f.reads 0 s {}).2.lines := by
  have hmore : ¬ ({} : ReadOutcome Line).lines.length ≥ budget.records := Nat.not_le.mpr hroom
  simp only [readLines, extract_short decode {} budget.records hfree hlen, if_neg hmore, hseek, Bool.not_true,
    Bool.false_eq_true, if_false, and_self]

end split

namespace Split
open TwoReads (plain)

/-- A budget for more than a line of the greatest length. -/
def budget : ReadBudget := ⟨2 ^ 21, 256⟩

/-- A line of the greatest length with both of its end bytes. -/
def log : Log := ⟨List.replicate maxLineBytes 97 ++ [carriageReturn, newline], ⟨some 1, some 1, 1⟩, 0⟩

def source : LogSource := ⟨['c'], ['B'], ['t']⟩

def chunk : List UInt8 := List.replicate readChunkBytes 97

/-- The chunks of the line, its carriage return, and its newline. -/
def reads : List (Except String (List UInt8)) :=
  List.replicate 16 (.ok chunk) ++ [.ok [carriageReturn], .ok [newline]]

def file : LogFile :=
  ⟨.ok 0, log.identity, fun pos len => .ok ((log.content.drop pos).take len), fun _ => true, reads, some (maxLineBytes + 2)⟩

/-- The state after `n` reads of a whole chunk. -/
def state (n : Nat) : FileState :=
  { FileState.absent ['p'] source with
    initialized := true
    identity := some log.identity
    offset := n * readChunkBytes
    pending := List.replicate (n * readChunkBytes) 97
    signature := if n = 0 then [] else List.replicate signatureBytes 97 }

/-- The read in which the line ends. -/
def call : ReadCall := ⟨['p'], budget, .opened file⟩

/-- A tailer that has the file open at its start. -/
def tailer : LogTailer := ⟨(∅ : ExtTreeMap PathKey FileState).insert ['p'] (state 0)⟩

theorem newline_notMem_replicate (n : Nat) : newline ∉ List.replicate n (97 : UInt8) := by
  simp [newline]

theorem readLen_chunk {n : Nat} (h : n < 16) : readLen budget (n * readChunkBytes) = readChunkBytes := by
  simp only [readLen, budget, readChunkBytes]
  omega

theorem readLen_byte {n : Nat} (h : n < 2) : readLen budget (16 * readChunkBytes + n) ≠ 0 := by
  simp only [readLen, budget, readChunkBytes]
  omega

theorem length_chunk : chunk.length = readChunkBytes := List.length_replicate

theorem chunk_ne_nil : chunk ≠ [] := by
  intro h
  have hlen := length_chunk
  rw [h] at hlen
  cases hlen

theorem append_chunk (n : Nat) :
    FileState.appendBytes { state n with
      offset := (state n).offset + chunk.length
      signature := extendSignature (state n).signature chunk } chunk = state (n + 1) := by
  have hsig : extendSignature (state n).signature chunk = List.replicate signatureBytes 97 := by
    have hge : readChunkBytes ≥ signatureBytes := by decide
    rw [extendSignature, length_chunk, if_pos hge, chunk, List.drop_replicate]
    rfl
  have hpending : (state n).pending ++ chunk = List.replicate ((n + 1) * readChunkBytes) 97 := by
    rw [Nat.succ_mul, ← List.replicate_append_replicate]
    rfl
  have hoffset : (state n).offset + chunk.length = (n + 1) * readChunkBytes := by
    rw [length_chunk, Nat.succ_mul]
    rfl
  rw [hsig, hoffset]
  simp only [FileState.appendBytes, state, FileState.absent, Bool.not_false, if_true]
  simp only [state] at hpending
  rw [hpending]
  simp

variable (decode) in
theorem readLoop_chunks (k n : Nat) (rest : List (Except String (List UInt8))) (h : n + k ≤ 16) :
    readLoop decode budget (List.replicate k (Except.ok chunk) ++ rest) (n * readChunkBytes) (state n) {} =
      readLoop decode budget rest ((n + k) * readChunkBytes) (state (n + k)) {} := by
  induction k generalizing n with
  | zero => rfl
  | succ k ih =>
    have hroom : n * readChunkBytes < budget.bytes ∧ ({} : ReadOutcome Line).lines.length < budget.records := by
      simp only [budget, readChunkBytes, List.length_nil]
      omega
    have hextract := extract_short decode (s := state (n + 1)) {} (budget.records - ({} : ReadOutcome Line).lines.length) (newline_notMem_replicate _) (by
        simp only [state, List.length_replicate, readChunkBytes, maxLineBytes]
        omega)
    have htake : chunk.take (readLen budget (n * readChunkBytes)) = chunk := by
      rw [readLen_chunk (by omega), ← length_chunk, List.take_length]
    have happend := append_chunk n
    rw [List.replicate_succ, List.cons_append, readLoop, if_pos hroom]
    simp only [htake, chunk_ne_nil, if_false] at happend ⊢
    rw [happend, hextract, length_chunk, ← Nat.succ_mul, ih (n + 1) (by omega)]
    have hsum : n + 1 + k = n + (k + 1) := by omega
    rw [hsum]

theorem content_drop (n : Nat) (h : n ≤ maxLineBytes) :
    log.content.drop n = List.replicate (maxLineBytes - n) 97 ++ [carriageReturn, newline] := by
  rw [log, List.drop_append_of_le_length (by simpa using h), List.drop_replicate]

theorem serves_chunks (k n : Nat) (h : n + k = 16) :
    ServesReads log budget (n * readChunkBytes) (n * readChunkBytes)
      (List.replicate k (Except.ok chunk) ++ [Except.ok [carriageReturn], Except.ok [newline]]) := by
  induction k generalizing n with
  | zero =>
    obtain rfl : n = 16 := h
    have hmax : 16 * readChunkBytes = maxLineBytes := rfl
    have hcr : log.content.drop maxLineBytes = [carriageReturn, newline] := by
      rw [content_drop _ (Nat.le_refl _), Nat.sub_self]
      rfl
    have hnl : log.content.drop (maxLineBytes + 1) = [newline] := by
      rw [← List.drop_drop, hcr]
      rfl
    rw [hmax]
    refine ⟨Nat.one_le_iff_ne_zero.mpr (readLen_byte (n := 0) (by omega)), ⟨[newline], hcr.symm⟩, fun _ => ?_⟩
    exact ⟨Nat.one_le_iff_ne_zero.mpr (readLen_byte (n := 1) (by omega)), ⟨[], hnl.symm⟩, fun _ => trivial⟩
  | succ k ih =>
    have hle : (n + 1) * readChunkBytes ≤ maxLineBytes := by
      simp only [readChunkBytes, maxLineBytes]
      omega
    rw [Nat.succ_mul] at hle
    refine ⟨by rw [readLen_chunk (by omega), length_chunk], ?_, fun _ => ?_⟩
    · rw [content_drop _ (by omega)]
      refine ⟨List.replicate (maxLineBytes - n * readChunkBytes - readChunkBytes) 97 ++ [carriageReturn, newline], ?_⟩
      have hsum : readChunkBytes + (maxLineBytes - n * readChunkBytes - readChunkBytes) =
          maxLineBytes - n * readChunkBytes := by omega
      rw [← List.append_assoc, chunk, List.replicate_append_replicate, hsum]
    · rw [length_chunk, ← Nat.succ_mul]
      exact ih (n + 1) (by omega)

variable (decode) in
/-- The read that ends after the carriage return gives the line up, the next one drops its newline. -/
theorem readLoop_end {s : FileState} {n : Nat} (hd : s.discardUntilNewline = false) (hfree : newline ∉ s.pending)
    (hlen : s.pending.length = maxLineBytes) (hn : n + 2 ≤ budget.bytes) :
    ∃ s' outcome,
      readLoop decode budget [.ok [carriageReturn], .ok [newline]] n s {} = (s', outcome) ∧
      s'.pending = [] ∧ s'.offset = s.offset + 2 ∧ outcome.lines = [] := by
  have htake : ∀ m, m + 1 ≤ budget.bytes → ∀ b : UInt8, [b].take (readLen budget m) = [b] := by
    intro m hm b
    apply List.take_of_length_le
    simp only [readLen, readChunkBytes, List.length_singleton]
    omega
  have hrecords : 0 < budget.records := by decide
  obtain ⟨after, hafter⟩ : ∃ after, after = FileState.appendBytes { s with
      offset := s.offset + 1
      signature := extendSignature s.signature [carriageReturn] } [carriageReturn] := ⟨_, rfl⟩
  have hpending : after.pending = s.pending ++ [carriageReturn] := by
    rw [hafter]
    simp only [FileState.appendBytes, hd, Bool.not_false, if_true]
  have hoffset : after.offset = s.offset + 1 := by
    rw [hafter]
    simp only [FileState.appendBytes, hd, Bool.not_false, if_true]
  obtain ⟨hstate, hlines⟩ := extract_long decode (s := after) {} (m := budget.records) (by omega)
    (by
      have hne : newline ∉ [carriageReturn] := by decide
      rw [hpending]
      simp [hfree, hne])
    (by
      rw [hpending, List.length_append, hlen]
      simp)
  rw [readLoop, if_pos ⟨by omega, hrecords⟩]
  simp only [htake n (by omega), List.cons_ne_nil, if_false, List.length_singleton, List.length_nil, Nat.sub_zero,
    ← hafter]
  generalize extractCompleteLines decode after budget.records {} = r at *
  obtain ⟨given, outcome⟩ := r
  simp only at hstate hlines ⊢
  have hgiven : given.pending = [] ∧ given.discardUntilNewline = true ∧ given.offset = s.offset + 1 := by
    rw [hstate]
    exact ⟨rfl, rfl, hoffset⟩
  obtain ⟨hp, hdisc, hoff⟩ := hgiven
  have hone : outcome.lines.length < budget.records := by
    rw [hlines]
    exact hrecords
  rw [readLoop, if_pos ⟨by omega, hone⟩]
  simp only [htake (n + 1) (by omega), List.cons_ne_nil, if_false, List.length_singleton, readLoop]
  have hquiet : ∀ final : FileState, final.pending = [] → ∀ m,
      extractCompleteLines decode final m outcome = (final, outcome) := by
    intro final hf m
    rw [extractCompleteLines, if_pos (.inr hf)]
  rw [hquiet _ (by simp [FileState.appendBytes, hdisc, hp])]
  refine ⟨_, _, rfl, ?_, ?_, hlines⟩
  · simp [FileState.appendBytes, hdisc, hp]
  · simp [FileState.appendBytes, hdisc, hoff]

theorem begins : log.Begins (FileState.absent ['p'] source) file where
  discard := rfl
  signature := rfl
  identity := rfl
  start_le := Nat.zero_le _
  suffix bytes h := by
    cases h
    rfl

theorem tracked : tailer.files[(['p'] : PathKey)]? = some (state 0) := by simp [tailer]

theorem served (decode : LogSource → List UInt8 → DecodedRawLogLine Line) :
    Along (Tail.Served log ['p']) (Tail.read decode ['p']) ⟨tailer, []⟩ [call] := by
  refine ⟨fun s f _ hs hf => ?_, trivial⟩
  obtain rfl : file = f := by
    cases hf
    rfl
  obtain rfl : state 0 = s := Option.some.inj (tracked.symm.trans hs)
  exact ⟨rfl, fun len _ => Nat.zero_le _, fun pos len _ => rfl, serves_chunks 16 0 rfl⟩

theorem length_state : (state 16).pending.length = maxLineBytes := List.length_replicate

theorem readLoop_file : ∃ s outcome, readLoop plain budget reads 0 (state 0) {} = (s, outcome) ∧
    s.pending = [] ∧ s.offset = maxLineBytes + 2 ∧ outcome.lines = [] := by
  have hmax : 16 * readChunkBytes = maxLineBytes := rfl
  have hoffset : (state 16).offset = maxLineBytes := hmax
  have hchunks := readLoop_chunks plain 16 0 [.ok [carriageReturn], .ok [newline]] (Nat.le_refl _)
  have hend := readLoop_end plain (s := state 16) (n := 16 * readChunkBytes) rfl
    (newline_notMem_replicate _) length_state (by decide)
  rw [Nat.zero_mul, Nat.zero_add] at hchunks
  rw [reads, hchunks, ← hoffset]
  exact hend

theorem readFile_file : (readFile plain (state 0) budget (.opened file)).1.pending = [] ∧
    (readFile plain (state 0) budget (.opened file)).1.offset = maxLineBytes + 2 ∧
    (readFile plain (state 0) budget (.opened file)).2.lines = [] := by
  obtain ⟨s, outcome, hloop, hpending, hoffset, hlines⟩ := readLoop_file
  have hframed : Framed plain source log (log.skips file) (state 0) [] := Framed.begin begins
  have hkey : PathKey.new call.path = ['p'] := by decide
  have hserves := (served plain).1 (state 0) file hkey tracked rfl
  have hlines' := readLines_short plain (s := state 0) (f := file) budget 0
    (newline_notMem_replicate _) (by decide) (by decide) rfl
  have hreads : file.reads = reads := rfl
  rw [hreads, hloop] at hlines'
  have hinit : (!(state 0).initialized) = false := rfl
  have hmeta : file.metadata = .ok 0 := rfl
  simp only [readFile, hmeta, hinit, hframed.checkBoundary hserves hmeta, Bool.false_eq_true, if_false]
  rw [hlines'.1, hlines'.2]
  exact ⟨hpending, hoffset, hlines⟩

theorem wanted_log : wanted false (log.read (maxLineBytes + 2)) = [List.replicate maxLineBytes 97] := by
  have hread : log.read (maxLineBytes + 2) = (List.replicate maxLineBytes 97 ++ [carriageReturn]) ++ newline :: [] := by
    rw [Log.read, log, Nat.sub_zero, List.drop_zero, List.take_of_length_le (by simp), List.append_assoc]
    rfl
  have hfree : newline ∉ List.replicate maxLineBytes 97 ++ [carriageReturn] := by
    have hne : newline ∉ [carriageReturn] := by decide
    rw [List.mem_append, not_or]
    exact ⟨newline_notMem_replicate _, hne⟩
  have hcontent : lineContent (List.replicate maxLineBytes 97 ++ [carriageReturn]) = List.replicate maxLineBytes 97 := by
    simp [lineContent]
  rw [wanted, hread, completeLines_append_cons hfree, completeLines_nil]
  show emittedLines [_] = _
  rw [emittedLines_cons_of_le (by rw [hcontent, List.length_replicate]), hcontent, emittedLines_nil]

end Split

end Stonemite.Tailer
