import Stonemite.Tailer.Reassociation

/-!
# The start of a tail

A file is followed from the end it has when the tailer first reads it, after any number of attempts that fail. `Trails`
is what the reads from such a start keep: what is emitted are whole records of the bytes after it. `Started` is the
invariant from the first attempt on (`Started.step`); `wellStarted_iff` says along which runs each start is the end of
its file.
-/

open Std

namespace Stonemite.Tailer

open Stonemite.Combat

/-- The last bytes, as many as a signature has. -/
def signatureOf (p : List UInt8) : List UInt8 := p.drop (p.length - signatureBytes)

theorem signatureOf_suffix (p : List UInt8) : signatureOf p <:+ p := List.drop_suffix _ _

theorem signatureOf_eq_nil {p : List UInt8} (h : signatureOf p = []) : p = [] := by
  rw [signatureOf, List.drop_eq_nil_iff] at h
  refine List.length_eq_zero_iff.mp ?_
  unfold signatureBytes at h
  omega

theorem extendSignature_signatureOf (p bytes : List UInt8) :
    extendSignature (signatureOf p) bytes = signatureOf (p ++ bytes) := by
  unfold extendSignature signatureOf
  rw [List.length_append, List.drop_append]
  split
  · rename_i hlong
    rw [List.drop_of_length_le (l := p) (by omega), List.nil_append]
    congr 1
    omega
  · rename_i hshort
    rw [List.drop_drop, List.length_drop]
    have hzero : p.length + bytes.length - signatureBytes - p.length = 0 := by omega
    rw [hzero, List.drop_zero]
    congr 2
    omega

/-- The byte before `offset` is not a newline. -/
def Log.midLine (log : Log) (offset : Nat) : Bool := (log.content.take offset).getLast?.any (· != newline)

/-- The opened file is the log, but that its answers may be errors. -/
structure LogFile.Attempts (file : LogFile) (log : Log) : Prop where
  identity : file.identity = log.identity
  metadata : ∀ len, file.metadata = .ok len → log.start ≤ len ∧ len ≤ log.content.length
  exact : ∀ pos len bytes, file.readExact pos len = .ok bytes → bytes = (log.content.drop pos).take len

theorem LogFile.Attempts.suffix {file : LogFile} {log : Log} {len : Nat} {bytes : List UInt8} (h : file.Attempts log)
    (hlen : len ≤ log.content.length) (hbytes : readSuffix file len = .ok bytes) :
    bytes = signatureOf (log.content.take len) := by
  have htake : (log.content.take len).length = len := by
    rw [List.length_take]
    omega
  unfold readSuffix at hbytes
  dsimp only at hbytes
  split at hbytes
  · rename_i hzero
    have hnil : log.content.take len = [] := by
      rw [← List.length_eq_zero_iff, htake]
      unfold signatureBytes at hzero
      omega
    rw [hnil, ← Except.ok.inj hbytes]
    rfl
  · rw [h.exact _ _ _ hbytes, signatureOf, htake, List.drop_take]
    congr 1
    · omega
    · congr 1
      omega

section

variable {Line : Type} (decode : LogSource → List UInt8 → DecodedRawLogLine Line)

/-- Every line is what a source decodes the content to. -/
def Decodes (contents : List (List UInt8)) (lines : List Line) : Prop :=
  List.Forall₂ (fun content line => ∃ source, line = (decode source content).line) contents lines

/-- What was emitted are some of the records of the bytes read, in their order, and so are they with the complete lines
still pending. `skip` when the start is inside a line. -/
structure Trails (log : Log) (skip : Bool) (s : FileState) (out : List Line) : Prop where
  initialized : s.initialized = true
  identity : s.identity = some log.identity
  start_le : log.start ≤ s.offset
  le_length : s.offset ≤ log.content.length
  signature : s.signature = signatureOf (log.content.take s.offset)
  lines : ∃ contents, Decodes decode contents out ∧
    (contents ++ emittedLines (completeLines newline s.pending)).Sublist (wanted skip (log.read s.offset))
  tail : s.discardUntilNewline = false →
    unfinished newline s.pending = unfinished newline (log.read s.offset) ∧ (skip = true → newline ∈ log.read s.offset)
  discard : s.discardUntilNewline = true → s.pending = []
  fresh : s.offset = log.start → s.pending = [] ∧ s.discardUntilNewline = skip

end

section

variable {Line : Type} {decode : LogSource → List UInt8 → DecodedRawLogLine Line}
variable {log : Log} {skip : Bool} {s s' : FileState} {out : List Line}

theorem decodes_decoded (source : LogSource) (contents : List (List UInt8)) :
    Decodes decode contents (decoded decode source contents) := by
  unfold Decodes decoded
  rw [List.forall₂_map_right_iff]
  exact List.forall₂_same.mpr fun content _ => ⟨source, rfl⟩

/-- The lines of a longer text are among those of the shorter one and then those after its unfinished line. -/
theorem wanted_sublist (skip : Bool) (p q : List UInt8) {r : List UInt8} (hq : newline ∉ q) :
    (wanted skip p ++ emittedLines (completeLines newline r)).Sublist (wanted skip (p ++ (q ++ newline :: r))) := by
  have hfree : newline ∉ unfinished newline p ++ q := by
    rw [List.mem_append, not_or]
    exact ⟨notMem_unfinished newline p, hq⟩
  by_cases hskip : skip = true → newline ∈ p
  · rw [wanted_append _ hskip, ← List.append_assoc, completeLines_append_cons hfree]
    refine (List.Sublist.refl _).append ?_
    rw [← List.singleton_append, emittedLines_append]
    exact List.sublist_append_right _ _
  · obtain ⟨rfl, hp⟩ := Classical.not_imp.mp hskip
    have hnil : wanted true p = [] := by
      rw [wanted, completeLines_of_notMem hp]
      rfl
    rw [hnil, List.nil_append, wanted_skip hp hq]

namespace Trails

/-- An extraction moves lines from the pending bytes to the output. -/
theorem left (h : Trails decode log skip s out) {done : List (List UInt8)} (hsame : FileState.SameFile s s')
    (hleft : Left s s' done) : Trails decode log skip s' (out ++ decoded decode s.source (emittedLines done)) := by
  obtain ⟨contents, hcontents, hsub⟩ := h.lines
  have hall : Decodes decode (contents ++ emittedLines done) (out ++ decoded decode s.source (emittedLines done)) :=
    List.rel_append hcontents (decodes_decoded s.source _)
  refine ⟨hsame.initialized.trans h.initialized, hsame.identity.trans h.identity, ?_, ?_, ?_,
    ⟨contents ++ emittedLines done, hall, ?_⟩, ?_, ?_, ?_⟩
  · rw [hsame.offset]
    exact h.start_le
  · rw [hsame.offset]
    exact h.le_length
  · rw [hsame.offset, hsame.signature]
    exact h.signature
  · rw [hsame.offset]
    cases hleft with
    | kept rest hdone hrest =>
      rwa [hrest, List.append_assoc, ← emittedLines_append, ← hdone]
    | givenUp hdone hnil =>
      rw [hnil, completeLines_nil, emittedLines_nil, List.append_nil, ← hdone]
      exact hsub
  · intro hfalse
    rw [hsame.offset]
    cases hleft with
    | kept rest _ _ htail hdiscard =>
      rw [htail]
      exact h.tail (hdiscard.symm.trans hfalse)
    | givenUp _ _ _ hdiscard =>
      rw [hdiscard] at hfalse
      cases hfalse
  · intro htrue
    cases hleft with
    | kept rest hdone hrest htail hdiscard =>
      have hpending := h.discard (hdiscard.symm.trans htrue)
      rw [hpending] at hdone htail
      obtain ⟨-, rfl⟩ := List.append_eq_nil_iff.mp hdone.symm
      rwa [unfinished_of_notMem (completeLines_eq_nil.mp hrest)] at htail
    | givenUp _ hnil _ _ => exact hnil
  · intro hstart
    obtain ⟨hpending, hdiscarding⟩ := h.fresh (hsame.offset.symm.trans hstart)
    cases hleft with
    | kept rest hdone hrest htail hdiscard =>
      rw [hpending] at hdone htail
      obtain ⟨-, rfl⟩ := List.append_eq_nil_iff.mp hdone.symm
      rw [unfinished_of_notMem (completeLines_eq_nil.mp hrest)] at htail
      exact ⟨htail, hdiscard.trans hdiscarding⟩
    | givenUp _ _ hlong _ =>
      rw [hpending] at hlong
      cases hlong

theorem append (h : Trails decode log skip s out) {bytes : List UInt8} (hbytes : bytes <+: log.content.drop s.offset)
    (hne : bytes ≠ []) :
    Trails decode log skip (FileState.appendBytes { s with
      offset := s.offset + bytes.length, signature := extendSignature s.signature bytes } bytes) out := by
  have hread := Log.read_append h.start_le hbytes
  obtain ⟨contents, hcontents, hsub⟩ := h.lines
  have hsignature : extendSignature s.signature bytes = signatureOf (log.content.take (s.offset + bytes.length)) := by
    rw [h.signature, extendSignature_signatureOf, List.take_add, ← List.prefix_iff_eq_take.mp hbytes]
  have hle : s.offset + bytes.length ≤ log.content.length := by
    have := hbytes.length_le
    rw [List.length_drop] at this
    have := h.le_length
    omega
  have hstart : log.start ≤ s.offset + bytes.length := h.start_le.trans (Nat.le_add_right _ _)
  have hpast : s.offset + bytes.length ≠ log.start := by
    have := h.start_le
    have := List.length_pos_iff.mpr hne
    omega
  rcases (Bool.eq_false_or_eq_true s.discardUntilNewline).symm with hd | hd
  · obtain ⟨htail, hskip⟩ := h.tail hd
    have hafter : FileState.appendBytes { s with
        offset := s.offset + bytes.length, signature := extendSignature s.signature bytes } bytes =
        { s with offset := s.offset + bytes.length, signature := extendSignature s.signature bytes,
                 pending := s.pending ++ bytes } := by
      simp only [FileState.appendBytes, hd, Bool.not_false, if_true]
    rw [hafter]
    refine ⟨h.initialized, h.identity, hstart, hle, hsignature, ⟨contents, hcontents, ?_⟩, fun _ => ?_, fun htrue => ?_,
      fun hsame => absurd hsame hpast⟩
    · show (contents ++ emittedLines (completeLines newline (s.pending ++ bytes))).Sublist
        (wanted skip (log.read (s.offset + bytes.length)))
      rw [hread, wanted_append bytes hskip, completeLines_append, htail, emittedLines_append, ← List.append_assoc]
      exact hsub.append (List.Sublist.refl _)
    · show unfinished newline (s.pending ++ bytes) = unfinished newline (log.read (s.offset + bytes.length)) ∧
        (skip = true → newline ∈ log.read (s.offset + bytes.length))
      rw [hread, unfinished_append, htail, ← unfinished_append]
      exact ⟨rfl, fun hs => List.mem_append_left _ (hskip hs)⟩
    · exact absurd (hd.symm.trans htrue) Bool.false_ne_true
  · have hpending := h.discard hd
    rw [hpending, completeLines_nil, emittedLines_nil, List.append_nil] at hsub
    by_cases hnl : newline ∈ bytes
    · obtain ⟨q, r, rfl, hq⟩ := List.eq_append_cons_of_mem hnl
      have hdrop : (q ++ newline :: r).drop ((q ++ newline :: r).idxOf newline + 1) = r := by
        rw [List.idxOf_append_of_notMem hq, List.idxOf_cons_self, Nat.add_zero, List.drop_append,
          List.drop_of_length_le (by omega)]
        simp
      have hafter : FileState.appendBytes { s with
          offset := s.offset + (q ++ newline :: r).length
          signature := extendSignature s.signature (q ++ newline :: r) } (q ++ newline :: r) =
          { s with offset := s.offset + (q ++ newline :: r).length
                   signature := extendSignature s.signature (q ++ newline :: r)
                   discardUntilNewline := false, pending := r } := by
        simp only [FileState.appendBytes, hd, hnl, hdrop, hpending, Bool.not_true, Bool.false_eq_true, if_false, if_true,
          List.nil_append]
      have hfree : newline ∉ unfinished newline (log.read s.offset) ++ q := by
        rw [List.mem_append, not_or]
        exact ⟨notMem_unfinished newline _, hq⟩
      rw [hafter]
      refine ⟨h.initialized, h.identity, hstart, hle, hsignature, ⟨contents, hcontents, ?_⟩, fun _ => ?_, fun htrue => ?_,
        fun hsame => absurd hsame hpast⟩
      · show (contents ++ emittedLines (completeLines newline r)).Sublist
          (wanted skip (log.read (s.offset + (q ++ newline :: r).length)))
        rw [hread]
        exact (hsub.append (List.Sublist.refl _)).trans (wanted_sublist skip _ q hq)
      · show unfinished newline r = unfinished newline (log.read (s.offset + (q ++ newline :: r).length)) ∧
          (skip = true → newline ∈ log.read (s.offset + (q ++ newline :: r).length))
        rw [hread, unfinished_append, ← List.append_assoc, unfinished_append_cons hfree]
        exact ⟨rfl, fun _ => by simp⟩
      · cases htrue
    · have hafter : FileState.appendBytes { s with
          offset := s.offset + bytes.length, signature := extendSignature s.signature bytes } bytes =
          { s with offset := s.offset + bytes.length, signature := extendSignature s.signature bytes } := by
        simp only [FileState.appendBytes, hd, hnl, Bool.not_true, Bool.false_eq_true, if_false]
      rw [hafter]
      refine ⟨h.initialized, h.identity, hstart, hle, hsignature, ⟨contents, hcontents, ?_⟩, fun hfalse => ?_,
        fun _ => hpending, fun hsame => absurd hsame hpast⟩
      · show (contents ++ emittedLines (completeLines newline s.pending)).Sublist
          (wanted skip (log.read (s.offset + bytes.length)))
        rw [hread, wanted_of_notMem hnl, hpending, completeLines_nil, emittedLines_nil, List.append_nil]
        exact hsub
      · exact absurd (hfalse.symm.trans hd) Bool.false_ne_true

theorem reassociate (h : Trails decode log skip s out) (source : LogSource) (path : Str) :
    Trails decode log skip { s.reassociate source with path := path } out := by
  obtain ⟨contents, hcontents, hsub⟩ := h.lines
  by_cases hquiet : s.advanceGeneration.pending ≠ [] ∨ s.advanceGeneration.discardUntilNewline = true
  · have hafter : s.reassociate source =
        { s.advanceGeneration with pending := [], discardUntilNewline := true, source := source } := by
      rw [FileState.reassociate, if_pos hquiet]
    rw [hafter]
    refine ⟨h.initialized, h.identity, h.start_le, h.le_length, h.signature, ⟨contents, hcontents, ?_⟩,
      fun hfalse => absurd hfalse.symm Bool.false_ne_true, fun _ => rfl, fun hstart => ⟨rfl, ?_⟩⟩
    · show (contents ++ emittedLines (completeLines newline [])).Sublist (wanted skip (log.read s.offset))
      rw [completeLines_nil, emittedLines_nil, List.append_nil]
      exact (List.sublist_append_left _ _).trans hsub
    · obtain ⟨hpending, hskip⟩ := h.fresh hstart
      rcases hquiet with hne | htrue
      · exact absurd hpending hne
      · exact htrue.symm.trans hskip
  · have hafter : s.reassociate source = { s.advanceGeneration with source := source } := by
      rw [FileState.reassociate, if_neg hquiet]
    rw [hafter]
    exact ⟨h.initialized, h.identity, h.start_le, h.le_length, h.signature, ⟨contents, hcontents, hsub⟩, h.tail, h.discard,
      h.fresh⟩

theorem extract (h : Trails decode log skip s out) (maxRecords : Nat) (outcome : ReadOutcome Line) {base : List Line}
    (hout : out = base ++ outcome.texts) :
    Trails decode log skip (extractCompleteLines decode s maxRecords outcome).1
      (base ++ (extractCompleteLines decode s maxRecords outcome).2.texts) := by
  obtain ⟨done, hsame, htexts, hleft, -⟩ := extractCompleteLines_spec decode s maxRecords outcome
  have hnext := h.left hsame hleft
  rwa [hout, List.append_assoc, ← htexts] at hnext

theorem readLoop (budget : ReadBudget) (reads : List (Except String (List UInt8))) (bytesRead : Nat)
    (outcome : ReadOutcome Line) {base : List Line} (h : Trails decode log skip s (base ++ outcome.texts))
    (hserves : ServesReads log budget bytesRead s.offset reads) :
    Trails decode log skip (Tailer.readLoop decode budget reads bytesRead s outcome).1
      (base ++ (Tailer.readLoop decode budget reads bytesRead s outcome).2.texts) := by
  induction reads generalizing bytesRead s outcome with
  | nil => exact h
  | cons answer reads ih =>
    simp only [Tailer.readLoop]
    by_cases hgo : bytesRead < budget.bytes ∧ outcome.lines.length < budget.records
    · rw [if_pos hgo]
      cases answer with
      | error error => exact h
      | ok bytes =>
        obtain ⟨hlen, hprefix, hrest⟩ := hserves
        simp only [List.take_of_length_le hlen]
        by_cases hnil : bytes = []
        · rw [if_pos hnil]
          exact h
        · rw [if_neg hnil]
          have hext := (h.append hprefix hnil).extract (budget.records - outcome.lines.length) outcome rfl
          obtain ⟨done, hsame, -, -, -⟩ := extractCompleteLines_spec decode
            (FileState.appendBytes { s with
              offset := s.offset + bytes.length, signature := extendSignature s.signature bytes } bytes)
            (budget.records - outcome.lines.length) outcome
          refine ih (bytesRead + bytes.length) _ hext ?_
          rw [hsame.offset, FileState.appendBytes_offset]
          exact hrest hnil
    · rw [if_neg hgo]
      exact h

theorem readFile (h : Trails decode log skip s out) (budget : ReadBudget) (opened : OpenResult)
    (hserves : ∀ file, opened = .opened file → file.Serves log budget s.offset) :
    Trails decode log skip (Tailer.readFile decode s budget opened).1
      (out ++ (Tailer.readFile decode s budget opened).2.texts) := by
  cases opened with
  | notFound => simpa [Tailer.readFile, ReadOutcome.texts] using h
  | failed error => simpa [Tailer.readFile, ReadOutcome.texts] using h
  | opened file =>
    have hs := hserves file rfl
    have hsuffix : s.signature <:+ log.content.take s.offset := h.signature ▸ signatureOf_suffix _
    simp only [Tailer.readFile]
    split
    · simpa [ReadOutcome.texts] using h
    · rename_i len hlen
      rw [hs.intact h.identity hsuffix h.le_length hlen]
      simp only [h.initialized, Bool.not_true, Bool.false_eq_true, if_false, Tailer.readLines]
      have hext : Trails decode log skip _ (out ++ _) := h.extract budget.records {} (by simp [ReadOutcome.texts])
      obtain ⟨done, hsame, -, -, -⟩ := extractCompleteLines_spec decode s budget.records {}
      split
      · exact hext
      · split
        · exact hext
        · exact hext.readLoop budget file.reads 0 _ (by rw [hsame.offset]; exact hs.reads)

end Trails

/-! ### Attempts -/

/-- Nothing has been read yet. -/
structure FileState.Fresh (s : FileState) : Prop where
  initialized : s.initialized = false
  pending : s.pending = []
  discard : s.discardUntilNewline = false
  signature : s.signature = []

theorem FileState.absent_fresh (path : Str) (source : LogSource) : (FileState.absent path source).Fresh :=
  ⟨rfl, rfl, rfl, rfl⟩

theorem FileState.Fresh.reassociate (h : s.Fresh) (source : LogSource) (path : Str) :
    FileState.Fresh { s.reassociate source with path := path } := by
  have hquiet : ¬ (s.advanceGeneration.pending ≠ [] ∨ s.advanceGeneration.discardUntilNewline = true) := by
    rw [not_or, not_not, Bool.not_eq_true]
    exact ⟨h.pending, h.discard⟩
  rw [FileState.reassociate, if_neg hquiet]
  exact ⟨h.initialized, h.pending, h.discard, h.signature⟩

variable {file : LogFile} {len : Nat}

theorem Trails.begin (s : FileState) (h : file.Attempts log) (hlen : file.metadata = .ok len) {bytes : List UInt8}
    (hbytes : readSuffix file len = .ok bytes) :
    Trails decode (log.from len) (log.midLine len) (s.initializeAtEnd file len).1 [] := by
  have hle := (h.metadata len hlen).2
  have hsuffix := h.suffix hle hbytes
  have hread : (log.from len).read len = [] := log.read_from_self len
  have hskip : log.midLine len = (decide (len > 0) && bytes.getLast? != some newline) := by
    rw [hsuffix]
    unfold Log.midLine
    have htake : (log.content.take len).length = len := by
      rw [List.length_take]
      omega
    obtain ⟨before, hbefore⟩ := signatureOf_suffix (log.content.take len)
    cases hlast : (signatureOf (log.content.take len)).getLast? with
    | none =>
      have hnil : log.content.take len = [] := signatureOf_eq_nil (List.getLast?_eq_none_iff.mp hlast)
      rw [hnil, List.length_nil] at htake
      rw [hnil, ← htake]
      rfl
    | some last =>
      have hpos : len > 0 := by
        rw [← htake, ← hbefore, List.length_append]
        have := List.length_pos_iff.mpr (List.ne_nil_of_mem (List.mem_of_getLast? hlast))
        omega
      rw [← hbefore, List.getLast?_append, hlast, decide_eq_true hpos]
      rfl
  unfold FileState.initializeAtEnd
  dsimp only
  rw [hbytes]
  dsimp only
  rw [← hskip]
  refine ⟨rfl, congrArg some h.identity, le_rfl, hle, hsuffix, ⟨[], .nil, ?_⟩, fun hd => ?_, fun _ => rfl, fun _ => ⟨rfl, rfl⟩⟩
  · exact List.nil_sublist _
  · show unfinished newline [] = unfinished newline ((log.from len).read len) ∧ _
    rw [hread]
    exact ⟨rfl, fun hs => absurd (hs.symm.trans hd) nofun⟩

/-- A start whose suffix cannot be read is without the signature of its offset. -/
theorem FileState.Fresh.signature_ne (hs : s.Fresh) (h : file.Attempts log) (hlen : file.metadata = .ok len) {error : String}
    (herror : readSuffix file len = .error error) :
    (s.initializeAtEnd file len).1.signature ≠ signatureOf (log.content.take (s.initializeAtEnd file len).1.offset) := by
  have hle := (h.metadata len hlen).2
  unfold FileState.initializeAtEnd
  dsimp only
  rw [herror]
  dsimp only
  rw [hs.signature]
  intro hnil
  have hempty := congrArg List.length (signatureOf_eq_nil hnil.symm)
  rw [List.length_take, Nat.min_eq_left hle, List.length_nil] at hempty
  subst hempty
  cases herror

/-- A file that is not read yet, after it was opened. -/
def FileState.attempted (s : FileState) : OpenResult → FileState
  | .opened file =>
    match file.metadata with
    | .ok len => (s.initializeAtEnd file len).1
    | .error _ => s
  | _ => s

theorem FileState.track_eq (spec : SourceSpec) (opened : OpenResult) :
    (FileState.track spec opened).1 = (FileState.absent spec.path spec.source).attempted opened := by
  cases opened with
  | notFound => rfl
  | failed error => rfl
  | opened file =>
    unfold FileState.track FileState.attempted
    dsimp only
    cases file.metadata with
    | error error => rfl
    | ok len =>
      dsimp only
      split <;> rename_i heq <;> rw [heq]

variable (decode) in
theorem FileState.Fresh.readFile (hs : s.Fresh) (budget : ReadBudget) (opened : OpenResult) :
    (Tailer.readFile decode s budget opened).1 = s.attempted opened ∧ (Tailer.readFile decode s budget opened).2.texts = [] := by
  cases opened with
  | notFound => exact ⟨rfl, rfl⟩
  | failed error => exact ⟨rfl, rfl⟩
  | opened file =>
    unfold Tailer.readFile FileState.attempted
    dsimp only
    cases file.metadata with
    | error error => exact ⟨rfl, rfl⟩
    | ok len =>
      dsimp only
      rw [hs.initialized, if_pos (show (!false) = true from rfl)]
      split <;> rename_i heq <;> rw [heq] <;> exact ⟨rfl, rfl⟩

/-! ### Watches -/

/-- The length that an opened file reports. -/
def OpenResult.fileEnd : OpenResult → Option Nat
  | .opened file => file.metadata.toOption
  | _ => none

/-- A tailer, what the reads of one file have emitted since it is tracked, and the end of the file that it is read from. -/
structure Watch (Line : Type) where
  tailer : LogTailer
  lines : List Line := []
  start : Option Nat := none

namespace Watch

/-- How the file of `key` is opened by an act that finds it not read yet. -/
def attempt (key : PathKey) (w : Watch Line) : Act → Option OpenResult
  | .sync opens sources =>
    match w.tailer.files[key]?, (LogTailer.expected sources)[key]? with
    | none, some spec => some (opens spec.path)
    | _, _ => none
  | .read call =>
    match w.tailer.files[key]? with
    | some state => if PathKey.new call.path = key ∧ state.initialized = false then some call.opened else none
    | none => none

variable (decode) in
/-- One act on the tailer, with where its file was first found to end. -/
def step (key : PathKey) (w : Watch Line) (act : Act) : Watch Line :=
  let start := (w.attempt key act).elim w.start OpenResult.fileEnd
  match act with
  | .sync opens sources =>
    { tailer := (w.tailer.syncSources opens sources).1
      lines := if w.tailer.files[key]?.isNone then [] else w.lines
      start }
  | .read call =>
    let (tailer, outcome) := w.tailer.readPath decode (fun _ => call.opened) call.path call.budget
    { tailer, lines := if PathKey.new call.path = key then w.lines ++ outcome.texts else w.lines, start }

/-- The file opened for `key` is the log: its answers may be errors until it is read, and from then on it grows. -/
def Faithful (log : Log) (key : PathKey) (w : Watch Line) (act : Act) : Prop :=
  (∀ file, w.attempt key act = some (.opened file) → file.Attempts log) ∧
  ∀ call s file, act = .read call → PathKey.new call.path = key → w.tailer.files[key]? = some s → s.initialized = true →
    call.opened = .opened file → file.Serves log call.budget s.offset

/-- The act reads the suffix of the file, if it is the one that starts to read it. -/
def SuffixRead (key : PathKey) (w : Watch Line) (act : Act) : Prop :=
  ∀ file len, w.attempt key act = some (.opened file) → file.metadata = .ok len → (readSuffix file len).isOk = true

/-- A file that is not read yet has emitted nothing. The offset of one that is read began at an end of the file; its
signature is what is before it; at the start, the rest of a line is discarded if the start is inside one; and what was
emitted are some of the records after the start. -/
def WellStarted (decode : LogSource → List UInt8 → DecodedRawLogLine Line) (log : Log) (key : PathKey) (w : Watch Line) :
    Prop :=
  ∀ s, w.tailer.files[key]? = some s →
    (s.initialized = false → w.lines = []) ∧
    (s.initialized = true → ∃ start, w.start = some start ∧ log.start ≤ start ∧ start ≤ s.offset ∧
      s.offset ≤ log.content.length ∧ s.signature = signatureOf (log.content.take s.offset) ∧
      (s.offset = start → s.pending = [] ∧ s.discardUntilNewline = log.midLine start) ∧
      ∃ contents, Decodes decode contents w.lines ∧
        contents.Sublist (wanted (log.midLine start) ((log.from start).read s.offset)))

/-- An act that starts to read the file leaves its offset at the end of the file. -/
def StartsAtEnd (decode : LogSource → List UInt8 → DecodedRawLogLine Line) (key : PathKey) (w : Watch Line) (act : Act) : Prop :=
  ∀ opened s, w.attempt key act = some opened → (w.step decode key act).tailer.files[key]? = some s →
    s.initialized = true → opened.fileEnd = some s.offset

/-- The file of `key` is not read yet, or what was emitted trails it from its start. -/
def Started (decode : LogSource → List UInt8 → DecodedRawLogLine Line) (log : Log) (key : PathKey) (w : Watch Line) : Prop :=
  ∀ s, w.tailer.files[key]? = some s → s.Fresh ∧ w.lines = [] ∨
    ∃ start, w.start = some start ∧ log.start ≤ start ∧ Trails decode (log.from start) (log.midLine start) s w.lines

variable {key : PathKey} {w : Watch Line} {act : Act}

theorem Started.wellStarted (h : w.Started decode log key) : w.WellStarted decode log key := by
  intro s hs
  rcases h s hs with ⟨hfresh, hlines⟩ | ⟨start, hstart, hle, htrails⟩
  · exact ⟨fun _ => hlines, fun hinit => absurd (hinit.symm.trans hfresh.initialized) nofun⟩
  · refine ⟨fun hinit => absurd (hinit.symm.trans htrails.initialized) nofun, fun _ => ?_⟩
    obtain ⟨contents, hcontents, hsub⟩ := htrails.lines
    exact ⟨start, hstart, hle, htrails.start_le, htrails.le_length, htrails.signature, htrails.fresh,
      contents, hcontents, (List.sublist_append_left _ _).trans hsub⟩

/-- An attempt leaves the file as it was, or starts to read it at its end. -/
theorem attempted_started (hs : s.Fresh) {opened : OpenResult} (hfile : ∀ file, opened = .opened file → file.Attempts log)
    (hsuffix : ∀ file len, opened = .opened file → file.metadata = .ok len → (readSuffix file len).isOk = true) :
    (s.attempted opened).Fresh ∨ ∃ start, opened.fileEnd = some start ∧ log.start ≤ start ∧
      Trails decode (log.from start) (log.midLine start) (s.attempted opened) [] := by
  cases opened with
  | notFound => exact .inl hs
  | failed error => exact .inl hs
  | opened file =>
    unfold FileState.attempted OpenResult.fileEnd
    dsimp only
    cases hlen : file.metadata with
    | error error => exact .inl hs
    | ok len =>
      have hok := hsuffix file len rfl hlen
      cases hbytes : readSuffix file len with
      | error error =>
        rw [hbytes] at hok
        cases hok
      | ok bytes =>
        have hattempts := hfile file rfl
        exact .inr ⟨len, rfl, (hattempts.metadata len hlen).1, Trails.begin s hattempts hlen hbytes⟩

theorem sync_file (opens : Str → OpenResult) (sources : List SourceSpec) :
    (w.step decode key (.sync opens sources)).tailer.files[key]? =
      (LogTailer.expected sources)[key]?.map fun spec => FileState.follow opens spec w.tailer.files[key]? :=
  LogTailer.syncSources_files w.tailer key

theorem read_other {call : ReadCall} (hkey : PathKey.new call.path ≠ key) :
    (w.step decode key (.read call)).tailer.files[key]? = w.tailer.files[key]? ∧
      (w.step decode key (.read call)).lines = w.lines ∧ w.attempt key (.read call) = none := by
  refine ⟨?_, if_neg hkey, ?_⟩
  · simp only [step, LogTailer.readPath]
    cases w.tailer.files[PathKey.new call.path]? with
    | none => rfl
    | some other => exact ExtTreeMap.getElem?_insert_of_ne hkey _
  · unfold attempt
    dsimp only
    cases w.tailer.files[key]? with
    | none => rfl
    | some state => exact if_neg fun h => hkey h.1

theorem read_untracked {call : ReadCall} (hkey : PathKey.new call.path = key) (hs : w.tailer.files[key]? = none) :
    (w.step decode key (.read call)).tailer.files[key]? = none := by
  simp only [step, LogTailer.readPath, hkey, hs]

theorem read_tracked {call : ReadCall} (hkey : PathKey.new call.path = key) (hs : w.tailer.files[key]? = some s) :
    (w.step decode key (.read call)).tailer.files[key]? = some (readFile decode s call.budget call.opened).1 ∧
      (w.step decode key (.read call)).lines = w.lines ++ (readFile decode s call.budget call.opened).2.texts := by
  simp only [step, LogTailer.readPath, hkey, hs, if_true]
  exact ⟨ExtTreeMap.getElem?_insert_self, trivial⟩

theorem step_start_of_none (h : w.attempt key act = none) : (w.step decode key act).start = w.start := by
  cases act <;> simp only [step, h, Option.elim_none]

theorem step_start_of_some {opened : OpenResult} (h : w.attempt key act = some opened) :
    (w.step decode key act).start = opened.fileEnd := by
  cases act <;> simp only [step, h, Option.elim_some]

theorem Started.sync (h : w.Started decode log key) {opens : Str → OpenResult} {sources : List SourceSpec}
    (hfaithful : w.Faithful log key (.sync opens sources)) (hsuffix : w.SuffixRead key (.sync opens sources)) :
    (w.step decode key (.sync opens sources)).Started decode log key := by
  intro s hs
  rw [sync_file] at hs
  obtain ⟨spec, hspec, rfl⟩ := Option.map_eq_some_iff.mp hs
  cases hold : w.tailer.files[key]? with
  | none =>
    have hattempt : w.attempt key (.sync opens sources) = some (opens spec.path) := by
      unfold attempt
      dsimp only
      rw [hold, hspec]
    have hlines : (w.step decode key (.sync opens sources)).lines = [] := by
      unfold step
      dsimp only
      rw [hold]
      rfl
    rw [hlines, step_start_of_some hattempt]
    show (FileState.track spec (opens spec.path)).1.Fresh ∧ _ ∨ ∃ start, _ ∧ _ ∧ Trails _ _ _ (FileState.track spec _).1 []
    rw [FileState.track_eq]
    refine (attempted_started (FileState.absent_fresh spec.path spec.source) (fun file hf => ?_) fun file len hf => ?_).imp_left
      fun hfresh => ⟨hfresh, rfl⟩
    · exact hfaithful.1 file (hattempt.trans (congrArg some hf))
    · exact hsuffix file len (hattempt.trans (congrArg some hf))
  | some old =>
    have hattempt : w.attempt key (.sync opens sources) = none := by
      unfold attempt
      rw [hold]
    have hlines : (w.step decode key (.sync opens sources)).lines = w.lines := by
      unfold step
      dsimp only
      rw [hold]
      rfl
    rw [hlines, step_start_of_none hattempt]
    have hpath (s : FileState) (hs : s.Fresh) : FileState.Fresh { s with path := spec.path } :=
      ⟨hs.initialized, hs.pending, hs.discard, hs.signature⟩
    unfold FileState.follow
    dsimp only
    rcases h old hold with ⟨hfresh, hnil⟩ | ⟨start, hstart, hle, htrails⟩
    · refine .inl ⟨?_, hnil⟩
      split
      · exact hfresh.reassociate spec.source spec.path
      · exact hpath old hfresh
    · refine .inr ⟨start, hstart, hle, ?_⟩
      split
      · exact htrails.reassociate spec.source spec.path
      · exact ⟨htrails.initialized, htrails.identity, htrails.start_le, htrails.le_length, htrails.signature, htrails.lines,
          htrails.tail, htrails.discard, htrails.fresh⟩

theorem Started.read (h : w.Started decode log key) {call : ReadCall} (hfaithful : w.Faithful log key (.read call))
    (hsuffix : w.SuffixRead key (.read call)) : (w.step decode key (.read call)).Started decode log key := by
  by_cases hkey : PathKey.new call.path = key
  · cases hold : w.tailer.files[key]? with
    | none =>
      intro s hs
      rw [read_untracked hkey hold] at hs
      cases hs
    | some old =>
      obtain ⟨hfile, hlines⟩ := @read_tracked Line decode old key w call hkey hold
      intro s hs
      rw [hfile] at hs
      obtain rfl := Option.some.inj hs
      rw [hlines]
      rcases h old hold with ⟨hfresh, hnil⟩ | ⟨start, hstart, hle, htrails⟩
      · have hattempt : w.attempt key (.read call) = some call.opened := by
          unfold attempt
          rw [hold]
          exact if_pos ⟨hkey, hfresh.initialized⟩
        obtain ⟨hstate, htexts⟩ := hfresh.readFile decode call.budget call.opened
        rw [hstate, htexts, hnil, step_start_of_some hattempt]
        refine (attempted_started hfresh (fun file hf => ?_) fun file len hf => ?_).imp_left fun hfresh => ⟨hfresh, rfl⟩
        · exact hfaithful.1 file (hattempt.trans (congrArg some hf))
        · exact hsuffix file len (hattempt.trans (congrArg some hf))
      · have hattempt : w.attempt key (.read call) = none := by
          unfold attempt
          rw [hold]
          exact if_neg fun hcond => absurd (hcond.2.symm.trans htrails.initialized) nofun
        rw [step_start_of_none hattempt]
        refine .inr ⟨start, hstart, hle, htrails.readFile call.budget call.opened fun file hf => ?_⟩
        exact (hfaithful.2 call old file rfl hkey hold htrails.initialized hf).from start
  · obtain ⟨hfile, hlines, hattempt⟩ := @read_other Line decode key w call hkey
    intro s hs
    rw [hfile] at hs
    rw [hlines, step_start_of_none hattempt]
    exact h s hs

theorem Started.step (h : w.Started decode log key) (hfaithful : w.Faithful log key act) (hsuffix : w.SuffixRead key act) :
    (w.step decode key act).Started decode log key := by
  cases act with
  | sync opens sources => exact h.sync hfaithful hsuffix
  | read call => exact h.read hfaithful hsuffix

theorem file_of_attempt (h : w.Started decode log key) {opened : OpenResult} (hattempt : w.attempt key act = some opened) :
    ∃ s : FileState, s.Fresh ∧ (w.step decode key act).tailer.files[key]? = some (s.attempted opened) := by
  cases act with
  | sync opens sources =>
    unfold attempt at hattempt
    dsimp only at hattempt
    split at hattempt
    · rename_i spec hold hspec
      refine ⟨_, FileState.absent_fresh spec.path spec.source, ?_⟩
      rw [sync_file, hspec, hold, Option.map_some, ← Option.some.inj hattempt]
      exact congrArg some (FileState.track_eq spec _)
    · cases hattempt
  | read call =>
    unfold attempt at hattempt
    dsimp only at hattempt
    split at hattempt
    · rename_i old hold
      split at hattempt
      · rename_i hcond
        obtain ⟨hkey, hinit⟩ := hcond
        rcases h old hold with ⟨hfresh, -⟩ | ⟨start, -, -, htrails⟩
        · refine ⟨old, hfresh, ?_⟩
          rw [(read_tracked hkey hold).1, (hfresh.readFile decode call.budget call.opened).1, Option.some.inj hattempt]
        · exact absurd (hinit.symm.trans htrails.initialized) nofun
      · cases hattempt
    · cases hattempt

/-- Without the suffix, the file counts as read and has no signature of its offset. -/
theorem suffixRead_of_wellStarted (h : w.Started decode log key) (hfaithful : w.Faithful log key act)
    (hnext : (w.step decode key act).WellStarted decode log key) : w.SuffixRead key act := by
  intro file len hattempt hlen
  obtain ⟨s, hfresh, hs⟩ := file_of_attempt h hattempt
  cases hbytes : readSuffix file len with
  | ok bytes => rfl
  | error error =>
    have hstate : s.attempted (.opened file) = (s.initializeAtEnd file len).1 := by
      unfold FileState.attempted
      dsimp only
      rw [hlen]
    have hinit : (s.initializeAtEnd file len).1.initialized = true := by
      unfold FileState.initializeAtEnd
      dsimp only
      rw [hbytes]
    rw [hstate] at hs
    obtain ⟨start, -, -, -, -, hsignature, -⟩ := (hnext _ hs).2 hinit
    exact absurd hsignature (hfresh.signature_ne (hfaithful.1 file hattempt) hlen hbytes)

theorem attempted_offset (hs : s.Fresh) {opened : OpenResult} (hinit : (s.attempted opened).initialized = true) :
    opened.fileEnd = some (s.attempted opened).offset := by
  have hfresh : ¬ s.initialized = true := fun h => absurd (h.symm.trans hs.initialized) nofun
  unfold FileState.attempted at hinit ⊢
  cases opened with
  | notFound => exact absurd hinit hfresh
  | failed error => exact absurd hinit hfresh
  | opened file =>
    unfold OpenResult.fileEnd
    dsimp only at hinit ⊢
    cases hlen : file.metadata with
    | error error =>
      rw [hlen] at hinit
      exact absurd hinit hfresh
    | ok len =>
      unfold FileState.initializeAtEnd
      dsimp only
      split <;> rfl

theorem Started.startsAtEnd (h : w.Started decode log key) : w.StartsAtEnd decode key act := by
  intro opened s' hattempt hs' hinit
  obtain ⟨s, hfresh, hs⟩ := file_of_attempt h hattempt
  obtain rfl := Option.some.inj (hs'.symm.trans hs)
  exact attempted_offset hfresh hinit

/-- Along a run, the file starts at its end and is well started from then on just when each act that starts to read it reads
its suffix: an error there leaves the file as read, without its signature and without the rest of its line discarded. -/
theorem wellStarted_iff (log : Log) (key : PathKey) {tailer : LogTailer} (hnew : tailer.files[key]? = none) (acts : List Act)
    (hfaithful : Along (Faithful log key) (step decode key) ⟨tailer, [], none⟩ acts) :
    Along (fun w act => w.StartsAtEnd decode key act ∧ (w.step decode key act).WellStarted decode log key)
        (step decode key) ⟨tailer, [], none⟩ acts ↔
      Along (SuffixRead key) (step decode key) ⟨tailer, [], none⟩ acts := by
  have hstart : Started decode log key ⟨tailer, [], none⟩ := by
    intro s hs
    rw [hnew] at hs
    cases hs
  generalize (⟨tailer, [], none⟩ : Watch Line) = w at hfaithful hstart
  induction acts generalizing w with
  | nil => exact Iff.rfl
  | cons act acts ih =>
    rw [Along.cons_iff, Along.cons_iff]
    constructor
    · rintro ⟨⟨-, hnext⟩, hrest⟩
      have hsuffix := suffixRead_of_wellStarted hstart hfaithful.1 hnext
      exact ⟨hsuffix, (ih _ hfaithful.2 (hstart.step hfaithful.1 hsuffix)).mp hrest⟩
    · rintro ⟨hsuffix, hrest⟩
      have hnext := hstart.step hfaithful.1 hsuffix
      exact ⟨⟨hstart.startsAtEnd, hnext.wellStarted⟩, (ih _ hfaithful.2 hnext).mpr hrest⟩

end Watch

end

namespace Suffix
open TwoReads (plain)

/-- `a`, `b`, and later `c` and a newline. -/
def log : Log := ⟨[97, 98, 99, 10], ⟨some 1, some 1, 1⟩, 2⟩

/-- The file when it has `len` bytes; `readable` when its bytes before the end can be read. -/
def file (len : Nat) (readable : Bool) : LogFile :=
  ⟨.ok len, log.identity,
    fun pos n => if readable then .ok ((log.content.drop pos).take n) else .error "sharing violation",
    fun _ => true, [.ok ((log.content.take len).drop 2)], some len⟩

def spec : SourceSpec := ⟨['p'], ⟨['c'], ['B'], ['t']⟩⟩

/-- A sync that finds the file and a read of its next lines. -/
def acts (readable : Bool) : List Act :=
  [.sync (fun _ => .opened (file 2 readable)) [spec], .read ⟨['p'], ⟨64, 8⟩, .opened (file 4 true)⟩]

def key : PathKey := ['p']

def run (readable : Bool) (n : Nat) : Watch (List UInt8) :=
  ((acts readable).take n).foldl (Watch.step plain key) ⟨.new, [], none⟩

theorem expected_spec : (LogTailer.expected [spec])[key]? = some spec := by
  have hkey : PathKey.new spec.path = key := by decide
  unfold LogTailer.expected
  rw [List.foldl_cons, List.foldl_nil, hkey, ExtTreeMap.getElem?_insertIfNew]
  simp

theorem new_file : LogTailer.new.files[key]? = none := ExtTreeMap.getElem?_empty

theorem attempts (len : Nat) (readable : Bool) (hlen : len = 2 ∨ len = 4) : (file len readable).Attempts log where
  identity := rfl
  metadata n hn := by
    obtain rfl := Except.ok.inj hn
    exact (by omega : 2 ≤ len ∧ len ≤ 4)
  exact pos n bytes hbytes := by
    cases readable with
    | true => exact (Except.ok.inj hbytes).symm
    | false => cases hbytes

/-- The file after it was tracked. -/
def tracked (readable : Bool) : FileState :=
  ((FileState.absent spec.path spec.source).initializeAtEnd (file 2 readable) 2).1

theorem run_one (readable : Bool) : (run readable 1).tailer.files[key]? = some (tracked readable) := by
  have hsync := @Watch.sync_file _ plain key ⟨.new, [], none⟩ (fun _ => .opened (file 2 readable)) [spec]
  rw [expected_spec, Option.map_some, new_file] at hsync
  refine hsync.trans (congrArg some ?_)
  exact FileState.track_eq spec (.opened (file 2 readable))

theorem tracked_eq (readable : Bool) : (tracked readable).initialized = true ∧ (tracked readable).offset = 2 := by
  cases readable <;> exact ⟨rfl, rfl⟩

theorem faithful (readable : Bool) :
    Along (Watch.Faithful log key) (Watch.step plain key) ⟨.new, [], none⟩ (acts readable) := by
  have hone : (Watch.step plain key ⟨.new, [], none⟩ (.sync (fun _ => .opened (file 2 readable)) [spec])).tailer.files[key]? =
      some (tracked readable) := run_one readable
  refine ⟨⟨fun f hf => ?_, fun call s f hact => nomatch hact⟩, ⟨fun f hf => ?_, fun call s f hact hkey hs _ hf => ?_⟩, trivial⟩
  · unfold Watch.attempt at hf
    dsimp only at hf
    rw [new_file, expected_spec] at hf
    cases hf
    exact attempts 2 readable (.inl rfl)
  · unfold Watch.attempt at hf
    dsimp only at hf
    rw [hone] at hf
    dsimp only at hf
    rw [if_neg fun hcond => absurd (hcond.2.symm.trans (tracked_eq readable).1) nofun] at hf
    cases hf
  · obtain rfl := Act.read.inj hact
    obtain rfl : file 4 true = f := by
      cases hf
      rfl
    obtain rfl : tracked readable = s := Option.some.inj (hone.symm.trans hs)
    rw [(tracked_eq readable).2]
    refine ⟨rfl, fun len hlen => ?_, fun pos n _ => rfl, by decide, by decide, fun _ => trivial⟩
    obtain rfl := Except.ok.inj hlen
    decide

end Suffix

theorem Watch.wellStarted_iff_readable : LogTailer.new.files[Suffix.key]? = none ∧
    (Along (fun w act => w.StartsAtEnd TwoReads.plain Suffix.key act ∧
        (w.step TwoReads.plain Suffix.key act).WellStarted TwoReads.plain Suffix.log Suffix.key)
        (step TwoReads.plain Suffix.key) ⟨.new, [], none⟩ (Suffix.acts true) ↔
      Along (SuffixRead Suffix.key) (step TwoReads.plain Suffix.key) ⟨.new, [], none⟩ (Suffix.acts true)) :=
  ⟨Suffix.new_file, wellStarted_iff Suffix.log Suffix.key Suffix.new_file (Suffix.acts true) (Suffix.faithful true)⟩

/-- A file of one unfinished line whose suffix cannot be read: the end of that line, written later, is emitted as a record. -/
theorem Watch.fragment_emitted :
    ¬ ∀ (log : Log) (key : PathKey) (tailer : LogTailer) (acts : List Act), tailer.files[key]? = none →
      Along (Faithful log key) (step TwoReads.plain key) ⟨tailer, [], none⟩ acts →
      Along (fun w act => w.StartsAtEnd TwoReads.plain key act ∧
        (w.step TwoReads.plain key act).WellStarted TwoReads.plain log key) (step TwoReads.plain key) ⟨tailer, [], none⟩ acts := by
  intro hall
  obtain ⟨-, ⟨-, hend⟩, -⟩ :=
    hall Suffix.log Suffix.key .new (Suffix.acts false) Suffix.new_file (Suffix.faithful false)
  have hkey : PathKey.new (['p'] : Str) = Suffix.key := by decide
  obtain ⟨hfile, hlines⟩ := @Watch.read_tracked _ TwoReads.plain (Suffix.tracked false) Suffix.key (Suffix.run false 1)
    ⟨['p'], ⟨64, 8⟩, .opened (Suffix.file 4 true)⟩ hkey (Suffix.run_one false)
  obtain ⟨start, -, hle, hge, -, -, -, contents, hcontents, hsub⟩ := (hend _ hfile).2 (by decide +kernel)
  have hemitted : ((Suffix.acts false).foldl (step TwoReads.plain Suffix.key) ⟨.new, [], none⟩).lines = [[99]] :=
    hlines.trans (by decide +kernel)
  have hoffset : (readFile TwoReads.plain (Suffix.tracked false) ⟨64, 8⟩ (.opened (Suffix.file 4 true))).1.offset = 4 := by
    decide +kernel
  rw [hoffset] at hge hsub
  have hnone : wanted (Suffix.log.midLine start) ((Suffix.log.from start).read 4) = [] := by
    have hle : 2 ≤ start := hle
    interval_cases start <;> decide +kernel
  rw [hnone, List.sublist_nil] at hsub
  subst hsub
  exact absurd (hemitted.symm.trans (List.forall₂_nil_left_iff.mp hcontents)) nofun

end Stonemite.Tailer
