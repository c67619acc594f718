import Stonemite.Tailer.Start

/-!
# The signature of the bytes taken

What a tailer has taken of a file up to its offset, the bytes before its start counted, is kept beside it over any order
of synchronizations and reads. The signature is the end of these bytes, whatever the chunks they came in, so that a read
of the same file finds the end of them changed just when it is. `Signed` is the invariant of the state and the bytes
taken (`Signed.step`), `ReadOutcome.Reports` what a read says of a changed file; `signature_invariant` is the result over
runs.
-/

open Std

namespace Stonemite.Tailer

open Stonemite.Combat

/-- An open file with `content`, of which it reports `len` bytes, and whose reads succeed. -/
structure LogFile.Holds (file : LogFile) (content : List UInt8) (len : Nat) : Prop where
  metadata : file.metadata = .ok len
  le : len ≤ content.length
  exact : ∀ pos n, pos + n ≤ content.length → file.readExact pos n = .ok ((content.drop pos).take n)

/-- An open file with `content` whose answers may be errors. -/
structure LogFile.Tells (file : LogFile) (content : List UInt8) : Prop where
  metadata : ∀ len, file.metadata = .ok len → len ≤ content.length
  exact : ∀ pos len bytes, file.readExact pos len = .ok bytes → bytes = (content.drop pos).take len

/-- The bytes before the start of a tail of an opened file with `content`, if it can be started. -/
def OpenResult.startBytes (content : List UInt8) : OpenResult → Option (List UInt8)
  | .opened file =>
    match file.metadata with
    | .ok len => if (readSuffix file len).isOk then some (content.take len) else none
    | .error _ => none
  | _ => none

section

variable {Line : Type} (decode : LogSource → List UInt8 → DecodedRawLogLine Line)

/-- The bytes that the loop of a read takes. -/
def loopBytes (budget : ReadBudget) :
    List (Except String (List UInt8)) → Nat → FileState → ReadOutcome Line → List UInt8
  | [], _, _, _ => []
  | answer :: reads, bytesRead, state, outcome =>
    if bytesRead < budget.bytes ∧ outcome.lines.length < budget.records then
      match answer with
      | .error _ => []
      | .ok answer =>
        let bytes := answer.take (readLen budget bytesRead)
        if bytes = [] then []
        else
          let state := { state with
            offset := state.offset + bytes.length
            signature := extendSignature state.signature bytes }
          let state := state.appendBytes bytes
          let (state, outcome) := extractCompleteLines decode state (budget.records - outcome.lines.length) outcome
          bytes ++ loopBytes budget reads (bytesRead + bytes.length) state outcome
    else []

/-- The bytes that a read takes after the checks. -/
def linesBytes (state : FileState) (file : LogFile) (budget : ReadBudget) (outcome : ReadOutcome Line) : List UInt8 :=
  let (state, outcome) := extractCompleteLines decode state budget.records outcome
  if outcome.lines.length ≥ budget.records then []
  else if !file.seek state.offset then []
  else loopBytes decode budget file.reads 0 state outcome

/-- What is taken after a read of a started tail: a reset begins anew. -/
def FileState.takenAfter (state : FileState) (budget : ReadBudget) (opened : OpenResult) (taken : List UInt8) : List UInt8 :=
  match opened with
  | .opened file =>
    match file.metadata with
    | .ok fileLen =>
      let (state, outcome) := @checkBoundary Line state file fileLen {}
      (if outcome.gaps = [] then taken else []) ++ linesBytes decode state file budget outcome
    | .error _ => taken
  | _ => taken

end

/-- The bytes taken up to the offset, and the signature of them. -/
structure FileState.Signed (s : FileState) (taken : List UInt8) : Prop where
  initialized : s.initialized = true
  length : taken.length = s.offset
  signature : s.signature = signatureOf taken

/-- Some gap is for the reason. -/
def ReadOutcome.Reports {Line : Type} (outcome : ReadOutcome Line) (reason : GapReason) : Prop :=
  ∃ gap ∈ outcome.gaps, gap.reason = reason

/-- A gap that does not reset the file. -/
def SourceGap.WithinFile (gap : SourceGap) : Prop := gap.reason = .oversizedRecord ∨ gap.reason = .discardUntilNewline

theorem SourceGap.WithinFile.ne {gap : SourceGap} (h : gap.WithinFile) : gap.reason ≠ .boundaryChanged := by
  rcases h with h | h <;> rw [h] <;> nofun

section

variable {Line : Type} {decode : LogSource → List UInt8 → DecodedRawLogLine Line}
variable {s s' : FileState} {taken : List UInt8}

theorem length_signatureOf (p : List UInt8) : (signatureOf p).length = min p.length signatureBytes := by
  rw [signatureOf, List.length_drop]
  omega

/-- Two texts of one length have different signatures just when they differ at one of the last places. -/
theorem signatureOf_ne_iff {p q : List UInt8} (hlen : p.length = q.length) :
    signatureOf p ≠ signatureOf q ↔ ∃ i, p.length - signatureBytes ≤ i ∧ i < p.length ∧ p[i]? ≠ q[i]? := by
  constructor
  · intro hne
    by_contra hall
    push Not at hall
    refine hne (List.ext_getElem? fun i => ?_)
    rw [signatureOf, signatureOf, ← hlen, List.getElem?_drop, List.getElem?_drop]
    by_cases hi : p.length - signatureBytes + i < p.length
    · exact hall _ (Nat.le_add_right _ _) hi
    · rw [List.getElem?_eq_none (by omega), List.getElem?_eq_none (by omega)]
  · rintro ⟨i, hi, -, hne⟩ heq
    refine hne ?_
    have hat := congrArg (·[i - (p.length - signatureBytes)]?) heq
    simp only [signatureOf, ← hlen, List.getElem?_drop, Nat.add_sub_cancel' hi] at hat
    exact hat

/-! ### The invariant -/

namespace FileState.Signed

theorem of_sameFile (h : s.Signed taken) (hsame : SameFile s s') : s'.Signed taken where
  initialized := hsame.initialized.trans h.initialized
  length := h.length.trans hsame.offset.symm
  signature := hsame.signature.trans h.signature

theorem append (h : s.Signed taken) (bytes : List UInt8) :
    Signed (FileState.appendBytes { s with
      offset := s.offset + bytes.length, signature := extendSignature s.signature bytes } bytes) (taken ++ bytes) := by
  have hsignature : extendSignature s.signature bytes = signatureOf (taken ++ bytes) := by
    rw [h.signature, extendSignature_signatureOf]
  have hlength : (taken ++ bytes).length = s.offset + bytes.length := by rw [List.length_append, h.length]
  have hsame (t : FileState) : SameFile t (t.appendBytes bytes) := by
    unfold FileState.appendBytes
    split
    · exact ⟨rfl, rfl, rfl, rfl, rfl⟩
    · split
      · exact ⟨rfl, rfl, rfl, rfl, rfl⟩
      · exact .refl t
  have hread : Signed { s with
      offset := s.offset + bytes.length, signature := extendSignature s.signature bytes } (taken ++ bytes) :=
    ⟨h.initialized, hlength, hsignature⟩
  exact hread.of_sameFile (hsame _)

theorem extract (h : s.Signed taken) (maxRecords : Nat) (outcome : ReadOutcome Line) :
    (extractCompleteLines decode s maxRecords outcome).1.Signed taken := by
  obtain ⟨done, hsame, -⟩ := extractCompleteLines_spec decode s maxRecords outcome
  exact h.of_sameFile hsame

theorem readLoop (budget : ReadBudget) (reads : List (Except String (List UInt8))) (bytesRead : Nat)
    (outcome : ReadOutcome Line) (h : s.Signed taken) :
    (Tailer.readLoop decode budget reads bytesRead s outcome).1.Signed
      (taken ++ loopBytes decode budget reads bytesRead s outcome) := by
  induction reads generalizing bytesRead s outcome taken with
  | nil => simpa [Tailer.readLoop, loopBytes] using h
  | cons answer reads ih =>
    simp only [Tailer.readLoop, loopBytes]
    by_cases hgo : bytesRead < budget.bytes ∧ outcome.lines.length < budget.records
    · rw [if_pos hgo, if_pos hgo]
      cases answer with
      | error error => simpa using h
      | ok answer =>
        dsimp only
        generalize answer.take (readLen budget bytesRead) = bytes
        by_cases hnil : bytes = []
        · simpa [if_pos hnil] using h
        · rw [if_neg hnil, if_neg hnil, ← List.append_assoc]
          exact ih _ _ ((h.append bytes).extract _ _)
    · simpa [if_neg hgo] using h

theorem readLines (h : s.Signed taken) (file : LogFile) (fileLen : Nat) (budget : ReadBudget) (outcome : ReadOutcome Line) :
    (Tailer.readLines decode s file fileLen budget outcome).1.Signed (taken ++ linesBytes decode s file budget outcome) := by
  have hext := @extract Line decode s taken h budget.records outcome
  unfold Tailer.readLines linesBytes
  dsimp only
  split
  · simpa using hext
  · split
    · simpa using hext
    · exact hext.readLoop budget file.reads 0 _

theorem checkBoundary (h : s.Signed taken) (file : LogFile) (fileLen : Nat) :
    (@Tailer.checkBoundary Line s file fileLen {}).1.Signed
      (if (@Tailer.checkBoundary Line s file fileLen {}).2.gaps = [] then taken else []) := by
  unfold Tailer.checkBoundary
  dsimp only
  split <;> split
  · exact ⟨h.initialized, rfl, rfl⟩
  · exact ⟨h.initialized, h.length, h.signature⟩
  · exact ⟨h.initialized, rfl, rfl⟩
  · exact ⟨h.initialized, h.length, h.signature⟩

theorem readFile (h : s.Signed taken) (budget : ReadBudget) (opened : OpenResult) :
    (Tailer.readFile decode s budget opened).1.Signed (s.takenAfter decode budget opened taken) := by
  cases opened with
  | notFound => exact h
  | failed error => exact h
  | opened file =>
    unfold Tailer.readFile FileState.takenAfter
    dsimp only
    cases file.metadata with
    | error error => exact h
    | ok fileLen =>
      simp only [h.initialized, Bool.not_true, Bool.false_eq_true, if_false]
      exact (h.checkBoundary file fileLen).readLines file fileLen budget _

theorem follow (h : s.Signed taken) (opens : Str → OpenResult) (spec : SourceSpec) :
    (FileState.follow opens spec (some s)).Signed taken := by
  unfold FileState.follow FileState.reassociate
  dsimp only
  split
  · split <;> exact ⟨h.initialized, h.length, h.signature⟩
  · exact ⟨h.initialized, h.length, h.signature⟩

end FileState.Signed

theorem LogFile.Tells.suffix {file : LogFile} {content bytes : List UInt8} {len : Nat} (h : file.Tells content)
    (hlen : file.metadata = .ok len) (hbytes : readSuffix file len = .ok bytes) : bytes = signatureOf (content.take len) := by
  have hattempts : file.Attempts ⟨content, file.identity, 0⟩ :=
    ⟨rfl, fun n hn => ⟨Nat.zero_le n, h.metadata n hn⟩, h.exact⟩
  exact hattempts.suffix (h.metadata len hlen) hbytes

theorem FileState.Signed.start {opened : OpenResult} {content : List UInt8}
    (htells : ∀ file, opened = .opened file → file.Tells content) (hstart : opened.startBytes content = some taken) :
    (s.attempted opened).Signed taken := by
  unfold OpenResult.startBytes at hstart
  split at hstart
  · rename_i file
    split at hstart
    · rename_i len hlen
      split at hstart
      · rename_i hok
        obtain rfl := Option.some.inj hstart
        cases hbytes : readSuffix file len with
        | error error =>
          rw [hbytes] at hok
          cases hok
        | ok bytes =>
          have hsignature := (htells file rfl).suffix hlen hbytes
          have hle := (htells file rfl).metadata len hlen
          unfold FileState.attempted FileState.initializeAtEnd
          dsimp only
          rw [hlen]
          dsimp only
          rw [hbytes]
          exact ⟨rfl, by rw [List.length_take, Nat.min_eq_left hle], hsignature⟩
      · cases hstart
    · cases hstart
  · cases hstart

theorem FileState.readFile_attempted (hinit : s.initialized = false) (budget : ReadBudget) (opened : OpenResult) :
    (Tailer.readFile decode s budget opened).1 = s.attempted opened := by
  cases opened with
  | notFound => rfl
  | failed error => rfl
  | opened file =>
    unfold Tailer.readFile FileState.attempted
    dsimp only
    cases file.metadata with
    | error error => rfl
    | ok len =>
      dsimp only
      rw [hinit, if_pos (show (!false) = true from rfl)]
      split <;> rename_i heq <;> rw [heq]

/-! ### The check -/

/-- More of the gaps that do not reset the file. -/
def GapsGrow (gaps gaps' : List SourceGap) : Prop := ∃ more, gaps' = gaps ++ more ∧ ∀ gap ∈ more, gap.WithinFile

namespace GapsGrow
variable {gaps gaps' gaps'' : List SourceGap}

theorem refl (gaps : List SourceGap) : GapsGrow gaps gaps := ⟨[], (List.append_nil _).symm, nofun⟩

theorem trans (h : GapsGrow gaps gaps') (h' : GapsGrow gaps' gaps'') : GapsGrow gaps gaps'' := by
  obtain ⟨more, rfl, hmore⟩ := h
  obtain ⟨more', rfl, hmore'⟩ := h'
  refine ⟨more ++ more', List.append_assoc _ _ _, fun gap hgap => ?_⟩
  rcases List.mem_append.mp hgap with hgap | hgap
  · exact hmore gap hgap
  · exact hmore' gap hgap

theorem push {gap : SourceGap} (h : gap.WithinFile) : GapsGrow gaps (gaps ++ [gap]) := by
  refine ⟨[gap], rfl, fun other hother => ?_⟩
  rw [List.mem_singleton.mp hother]
  exact h

/-- The gaps that do not reset the file report no change of the bytes taken. -/
theorem boundary_iff (h : GapsGrow gaps gaps') :
    (∃ gap ∈ gaps', gap.reason = .boundaryChanged) ↔ ∃ gap ∈ gaps, gap.reason = .boundaryChanged := by
  obtain ⟨more, rfl, hmore⟩ := h
  constructor
  · rintro ⟨gap, hgap, hreason⟩
    rcases List.mem_append.mp hgap with hgap | hgap
    · exact ⟨gap, hgap, hreason⟩
    · exact absurd hreason (hmore gap hgap).ne
  · rintro ⟨gap, hgap, hreason⟩
    exact ⟨gap, List.mem_append_left _ hgap, hreason⟩

theorem extractLine (s : FileState) (outcome : ReadOutcome Line) (line : List UInt8) :
    GapsGrow outcome.gaps (Tailer.extractLine decode s outcome line).2.gaps := by
  unfold Tailer.extractLine
  dsimp only
  split
  · exact push (.inl rfl)
  · exact refl _

theorem extractLoop (lines : List (List UInt8)) (maxRecords consumed : Nat) (s : FileState) (outcome : ReadOutcome Line) :
    GapsGrow outcome.gaps (Tailer.extractLoop decode maxRecords lines consumed s outcome).2.1.gaps := by
  induction lines generalizing maxRecords consumed s outcome with
  | nil => exact refl _
  | cons line lines ih =>
    cases maxRecords with
    | zero => exact refl _
    | succ maxRecords => exact (extractLine s outcome line).trans (ih _ _ _ _)

theorem extractCompleteLines (s : FileState) (maxRecords : Nat) (outcome : ReadOutcome Line) :
    GapsGrow outcome.gaps (Tailer.extractCompleteLines decode s maxRecords outcome).2.gaps := by
  have hloop := @extractLoop Line decode (completeLines newline s.pending) maxRecords 0 s outcome
  unfold Tailer.extractCompleteLines
  split
  · exact refl _
  · dsimp only
    split
    · exact hloop.trans (push (.inr rfl))
    · exact hloop

theorem readLoop (budget : ReadBudget) (reads : List (Except String (List UInt8))) (bytesRead : Nat) (s : FileState)
    (outcome : ReadOutcome Line) :
    GapsGrow outcome.gaps (Tailer.readLoop decode budget reads bytesRead s outcome).2.gaps := by
  induction reads generalizing bytesRead s outcome with
  | nil => exact refl _
  | cons answer reads ih =>
    simp only [Tailer.readLoop]
    split
    · cases answer with
      | error error => exact refl _
      | ok answer =>
        dsimp only
        split
        · exact refl _
        · exact (extractCompleteLines _ _ outcome).trans (ih _ _ _)
    · exact refl _

theorem readLines (s : FileState) (file : LogFile) (fileLen : Nat) (budget : ReadBudget) (outcome : ReadOutcome Line) :
    GapsGrow outcome.gaps (Tailer.readLines decode s file fileLen budget outcome).2.gaps := by
  have hext := @extractCompleteLines Line decode s budget.records outcome
  unfold Tailer.readLines
  dsimp only
  split
  · exact hext
  · split
    · exact hext
    · exact hext.trans (readLoop budget file.reads 0 _ _)

end GapsGrow

/-- The signature is read back from the same file just when its bytes are still there. -/
theorem FileState.Signed.matches_iff (h : s.Signed taken) {file : LogFile} {content : List UInt8} {len : Nat}
    (hfile : file.Holds content len) (hle : s.offset ≤ len) (hne : s.signature ≠ []) :
    signatureMatches file s.offset s.signature = .ok true ↔ signatureOf (content.take s.offset) = signatureOf taken := by
  have htake : (content.take s.offset).length = s.offset := by
    rw [List.length_take, Nat.min_eq_left (hle.trans hfile.le)]
  have hlength : s.signature.length = min s.offset signatureBytes := by
    rw [h.signature, length_signatureOf, h.length]
  have hread : file.readExact (s.offset - s.signature.length) s.signature.length =
      .ok (signatureOf (content.take s.offset)) := by
    rw [hfile.exact _ _ (by have := hfile.le; omega), signatureOf, htake, List.drop_take, hlength]
    have hpos : s.offset - min s.offset signatureBytes = s.offset - signatureBytes := by omega
    have hcount : min s.offset signatureBytes = s.offset - (s.offset - signatureBytes) := by omega
    rw [hpos, hcount]
  unfold signatureMatches
  rw [if_neg hne, hread, ← h.signature]
  show Except.ok (signatureOf (content.take s.offset) == s.signature) = Except.ok true ↔ _
  rw [Except.ok.injEq, beq_iff_eq]

/-- A read of the same file, as long as the offset at least, reports a change of the bytes before it just when the signature
of these bytes is another. -/
theorem FileState.Signed.reports_iff (h : s.Signed taken) {file : LogFile} {content : List UInt8} {len : Nat}
    (hfile : file.Holds content len) (hidentity : s.identity = some file.identity) (hle : s.offset ≤ len)
    (budget : ReadBudget) :
    (Tailer.readFile decode s budget (.opened file)).2.Reports .boundaryChanged ↔
      signatureOf (content.take s.offset) ≠ signatureOf taken := by
  have hsame : s.identity.any (· != file.identity) = false := by simp [hidentity]
  have hlong : decide (len < s.offset) = false := by simp [hle]
  have hread : Tailer.readFile decode s budget (.opened file) = Tailer.readLines decode
      (@Tailer.checkBoundary Line s file len {}).1 file len budget (Tailer.checkBoundary s file len {}).2 := by
    unfold Tailer.readFile
    simp only [hfile.metadata, h.initialized, Bool.not_true, Bool.false_eq_true, if_false]
  rw [hread]
  refine (GapsGrow.readLines _ file len budget _).boundary_iff.trans ?_
  unfold Tailer.checkBoundary
  simp only [hsame, hlong, Bool.not_false, Bool.true_and, Bool.false_or, Bool.false_eq_true, if_false]
  by_cases hnil : s.signature = []
  · have htaken : taken = [] := signatureOf_eq_nil (h.signature.symm.trans hnil)
    have hzero : s.offset = 0 := by rw [← h.length, htaken, List.length_nil]
    simp [hnil, hzero, htaken]
  · have hmatches := h.matches_iff hfile hle hnil
    have hempty : s.signature.isEmpty = false := List.isEmpty_eq_false_iff.mpr hnil
    rw [hempty, Bool.not_false, Bool.true_and, ne_eq, ← hmatches]
    split
    · rename_i same hsame
      rw [hsame]
      cases same <;> simp
    · rename_i error herror
      rw [herror]
      simp

end

/-! ### Runs -/

/-- An act, and the content of the file at the path of interest when the act opens it. -/
structure Visit where
  act : Act
  content : List UInt8

/-- A tailer, and what it has taken of one file up to its offset. -/
structure Taking where
  tailer : LogTailer
  taken : Option (List UInt8) := none

namespace Taking

/-- How the file of `key` is opened by an act that finds it not read yet. -/
def attempt (key : PathKey) (t : Taking) (act : Act) : Option OpenResult :=
  Watch.attempt key (⟨t.tailer, [], none⟩ : Watch Unit) act

section

variable {Line : Type} (decode : LogSource → List UInt8 → DecodedRawLogLine Line)

/-- What is taken after an act that does not start to read the file: nothing of a file that is no longer wanted. -/
def keptBytes (key : PathKey) (t : Taking) : Act → Option (List UInt8)
  | .sync _ sources => if (LogTailer.expected sources).contains key then t.taken else none
  | .read call =>
    match t.tailer.files[key]? with
    | some state => if PathKey.new call.path = key then t.taken.map (state.takenAfter decode call.budget call.opened)
      else t.taken
    | none => t.taken

/-- The tailer after a visit, with the bytes that were last taken for the key. -/
def step (key : PathKey) (t : Taking) (visit : Visit) : Taking where
  tailer := match visit.act with
    | .sync opens sources => (t.tailer.syncSources opens sources).1
    | .read call => (t.tailer.readPath decode (fun _ => call.opened) call.path call.budget).1
  taken := match t.attempt key visit.act with
    | some opened => opened.startBytes visit.content
    | none => t.keptBytes decode key visit.act

end

/-- A file that is opened to be started has the content, or answers with errors. -/
def Faithful (key : PathKey) (t : Taking) (visit : Visit) : Prop :=
  ∀ file, t.attempt key visit.act = some (.opened file) → file.Tells visit.content

/-- What is taken of a started tail of the file is signed. -/
def Signed (key : PathKey) (t : Taking) : Prop :=
  ∀ s taken, t.tailer.files[key]? = some s → t.taken = some taken → s.Signed taken

section

variable {Line : Type} {decode : LogSource → List UInt8 → DecodedRawLogLine Line} {key : PathKey} {t : Taking}

theorem Signed.sync (h : t.Signed key) {opens : Str → OpenResult} {sources : List SourceSpec} {content : List UInt8}
    (hfaithful : t.Faithful key ⟨.sync opens sources, content⟩) :
    (t.step decode key ⟨.sync opens sources, content⟩).Signed key := by
  intro s taken hs htaken
  have hfile : (t.tailer.syncSources opens sources).1.files[key]? = some s := hs
  rw [LogTailer.syncSources_files] at hfile
  obtain ⟨spec, hspec, rfl⟩ := Option.map_eq_some_iff.mp hfile
  unfold step at htaken
  dsimp only at htaken
  cases hold : t.tailer.files[key]? with
  | none =>
    have hattempt : t.attempt key (.sync opens sources) = some (opens spec.path) := by
      unfold attempt Watch.attempt
      dsimp only
      rw [hold, hspec]
    rw [hattempt] at htaken
    show (FileState.track spec (opens spec.path)).1.Signed taken
    rw [FileState.track_eq]
    refine FileState.Signed.start (fun file hopened => hfaithful file ?_) htaken
    exact hattempt.trans (congrArg some hopened)
  | some old =>
    have hattempt : t.attempt key (.sync opens sources) = none := by
      unfold attempt Watch.attempt
      dsimp only
      rw [hold]
    have hwanted : (LogTailer.expected sources).contains key = true := ExtTreeMap.contains_iff.mpr ⟨spec, hspec⟩
    rw [hattempt] at htaken
    unfold keptBytes at htaken
    dsimp only at htaken
    rw [if_pos hwanted] at htaken
    exact (h old taken hold htaken).follow opens spec

theorem Signed.read (h : t.Signed key) {call : ReadCall} {content : List UInt8}
    (hfaithful : t.Faithful key ⟨.read call, content⟩) : (t.step decode key ⟨.read call, content⟩).Signed key := by
  intro s taken hs htaken
  have hfile : (t.tailer.readPath decode (fun _ => call.opened) call.path call.budget).1.files[key]? = some s := hs
  unfold step at htaken
  dsimp only at htaken
  by_cases hkey : PathKey.new call.path = key
  · subst hkey
    unfold LogTailer.readPath at hfile
    cases hold : t.tailer.files[PathKey.new call.path]? with
    | none =>
      rw [hold] at hfile
      exact absurd (hold.symm.trans hfile) nofun
    | some old =>
      rw [hold] at hfile
      obtain rfl := Option.some.inj (ExtTreeMap.getElem?_insert_self.symm.trans hfile)
      by_cases hinit : old.initialized = false
      · have hattempt : t.attempt (PathKey.new call.path) (.read call) = some call.opened := by
          unfold attempt Watch.attempt
          dsimp only
          rw [hold]
          exact if_pos ⟨rfl, hinit⟩
        rw [hattempt] at htaken
        rw [FileState.readFile_attempted hinit]
        refine FileState.Signed.start (fun file hopened => hfaithful file ?_) htaken
        exact hattempt.trans (congrArg some hopened)
      · have hattempt : t.attempt (PathKey.new call.path) (.read call) = none := by
          unfold attempt Watch.attempt
          dsimp only
          rw [hold]
          exact if_neg fun hcond => hinit hcond.2
        rw [hattempt] at htaken
        unfold keptBytes at htaken
        dsimp only at htaken
        rw [hold] at htaken
        dsimp only at htaken
        rw [if_pos rfl] at htaken
        obtain ⟨before, hbefore, rfl⟩ := Option.map_eq_some_iff.mp htaken
        exact (h old before hold hbefore).readFile call.budget call.opened
  · have hsame : (t.tailer.readPath decode (fun _ => call.opened) call.path call.budget).1.files[key]? =
        t.tailer.files[key]? := by
      unfold LogTailer.readPath
      cases t.tailer.files[PathKey.new call.path]? with
      | none => rfl
      | some other => exact ExtTreeMap.getElem?_insert_of_ne hkey _
    rw [hsame] at hfile
    have hattempt : t.attempt key (.read call) = none := by
      unfold attempt Watch.attempt
      dsimp only
      rw [hfile]
      exact if_neg fun hcond => hkey hcond.1
    rw [hattempt] at htaken
    unfold keptBytes at htaken
    dsimp only at htaken
    rw [hfile] at htaken
    dsimp only at htaken
    rw [if_neg hkey] at htaken
    exact h s taken hfile htaken

theorem Signed.step {visit : Visit} (h : t.Signed key) (hfaithful : t.Faithful key visit) :
    (t.step decode key visit).Signed key := by
  obtain ⟨act, content⟩ := visit
  cases act with
  | sync opens sources => exact h.sync hfaithful
  | read call => exact h.read hfaithful

/-- After any run in which the file answers from its content when it is started: the signature is the end of what was taken
up to the offset; and when a read of the same file succeeds, any change of these bytes in a file that is still as long is
reported, and bytes appended to what was taken are not. -/
theorem signature_invariant (decode : LogSource → List UInt8 → DecodedRawLogLine Line) (key : PathKey) (tailer : LogTailer)
    (visits : List Visit) (hfaithful : Along (Faithful key) (step decode key) ⟨tailer, none⟩ visits) (s : FileState)
    (taken : List UInt8) (hs : (visits.foldl (step decode key) ⟨tailer, none⟩).tailer.files[key]? = some s)
    (htaken : (visits.foldl (step decode key) ⟨tailer, none⟩).taken = some taken) :
    taken.length = s.offset ∧ s.signature = taken.drop (s.offset - min signatureBytes s.offset) ∧
      ∀ (path : Str) (budget : ReadBudget) (file : LogFile) (content : List UInt8) (len : Nat), PathKey.new path = key →
        file.Holds content len → s.identity = some file.identity → s.offset ≤ len →
        let outcome := ((visits.foldl (step decode key) ⟨tailer, none⟩).tailer.readPath decode
          (fun _ => .opened file) path budget).2
        ((∃ i, s.offset - min signatureBytes s.offset ≤ i ∧ i < s.offset ∧ content[i]? ≠ taken[i]?) →
          outcome.Reports .boundaryChanged) ∧
        (taken <+: content → ¬ outcome.Reports .boundaryChanged) := by
  have hrun : (visits.foldl (step decode key) ⟨tailer, none⟩).Signed key :=
    hfaithful.invariant (fun t visit ht hvisit => Signed.step ht hvisit) fun s taken _ htaken => nomatch htaken
  generalize visits.foldl (step decode key) ⟨tailer, none⟩ = t at hs htaken hrun
  have hsigned := hrun s taken hs htaken
  have hstart : s.offset - min signatureBytes s.offset = s.offset - signatureBytes := by omega
  refine ⟨hsigned.length, ?_, fun path budget file content len hkey hfile hidentity hle => ?_⟩
  · rw [hsigned.signature, signatureOf, hsigned.length, hstart]
  · have hread : (t.tailer.readPath decode (fun _ => .opened file) path budget).2 =
        (readFile decode s budget (.opened file)).2 := by
      unfold LogTailer.readPath
      rw [hkey, hs]
    have hreports := @FileState.Signed.reports_iff Line decode s taken hsigned file content len hfile hidentity hle budget
    have htake : (content.take s.offset).length = s.offset := by
      rw [List.length_take, Nat.min_eq_left (hle.trans hfile.le)]
    dsimp only
    rw [hread, hreports]
    constructor
    · rintro ⟨i, hi, hlt, hne⟩
      refine (signatureOf_ne_iff (htake.trans hsigned.length.symm)).mpr ⟨i, ?_, ?_, ?_⟩
      · rwa [htake, ← hstart]
      · rwa [htake]
      · rwa [List.getElem?_take_of_lt hlt]
    · intro happend
      rw [not_not, ← hsigned.length, ← List.prefix_iff_eq_take.mp happend]

end

end Taking

namespace Suffix
open TwoReads (plain)

/-- The log is started at two bytes and then read. -/
def visits : List Visit := (acts true).map fun act => ⟨act, log.content⟩

def taking : Taking := visits.foldl (Taking.step plain key) ⟨.new, none⟩

/-- The log after its second byte was overwritten and a byte appended. -/
def rewritten : List UInt8 := [97, 120, 99, 10, 100]

/-- The file with other bytes of the same length. -/
def rewrittenFile : LogFile :=
  ⟨.ok 5, log.identity, fun pos n => .ok ((rewritten.drop pos).take n), fun _ => true, [], none⟩

theorem taking_file : (taking.tailer.files[key]?).map (fun s => (s.offset, s.identity)) = some (4, some log.identity) := by
  decide +kernel

theorem taking_faithful : Along (Taking.Faithful key) (Taking.step plain key) ⟨.new, none⟩ visits := by
  have htells (len : Nat) (hlen : len = 2 ∨ len = 4) : (file len true).Tells log.content :=
    ⟨fun n hn => ((attempts len true hlen).metadata n hn).2, (attempts len true hlen).exact⟩
  refine ⟨fun f hf => ?_, fun f hf => ?_, trivial⟩
  · unfold Taking.attempt Watch.attempt at hf
    dsimp only at hf
    rw [new_file, expected_spec] at hf
    cases hf
    exact htells 2 (.inl rfl)
  · have hone : (Taking.step plain key ⟨.new, none⟩
        ⟨.sync (fun _ => .opened (file 2 true)) [spec], log.content⟩).tailer.files[key]? = some (tracked true) := run_one true
    unfold Taking.attempt Watch.attempt at hf
    dsimp only at hf
    rw [hone] at hf
    dsimp only at hf
    rw [if_neg fun hcond => absurd (hcond.2.symm.trans (tracked_eq true).1) nofun] at hf
    cases hf

end Suffix

theorem Taking.rewrite_reported : ∃ s, Suffix.taking.tailer.files[Suffix.key]? = some s ∧ s.signature = [97, 98, 99, 10] ∧
    (Suffix.taking.tailer.readPath TwoReads.plain (fun _ => .opened Suffix.rewrittenFile) ['p'] ⟨64, 8⟩).2.Reports
      .boundaryChanged := by
  obtain ⟨s, hs, hstate⟩ := Option.map_eq_some_iff.mp Suffix.taking_file
  obtain ⟨hoffset, hidentity⟩ := Prod.mk.inj hstate
  obtain ⟨-, hsignature, hreads⟩ := signature_invariant TwoReads.plain Suffix.key .new Suffix.visits
    Suffix.taking_faithful s [97, 98, 99, 10] hs (by decide +kernel)
  rw [hoffset] at hsignature hreads
  have hholds : Suffix.rewrittenFile.Holds Suffix.rewritten 5 := ⟨rfl, le_rfl, fun _ _ _ => rfl⟩
  refine ⟨s, hs, hsignature, (hreads ['p'] ⟨64, 8⟩ _ _ 5 (by decide) hholds hidentity (by decide)).1 ⟨1, ?_⟩⟩
  decide

end Stonemite.Tailer
