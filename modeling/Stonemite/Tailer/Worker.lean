import Stonemite.Tailer.Ids
import Stonemite.Combat.OnceInv

/-!
# The worker

A read returns its records and its gaps in two lists, and a work item merges them by generation on their way to the
combat reducer. `Issues` says how a read numbers them in the order of the file; the merge is that order again.
`InFileOrder` is the promise and `Puts` what a delivery gives the reducer; `work_item_in_file_order` says when the
pipeline keeps it.
-/

open Std

namespace Stonemite.Tailer

open Stonemite.Combat

/-- What a work item hands to the pipeline. -/
inductive Delivery (Line : Type)
  | record (record : TailedRecord Line)
  | gap (gap : SourceGap)

namespace Delivery
variable {Line : Type}

def record? : Delivery Line → Option (TailedRecord Line)
  | .record r => some r
  | .gap _ => none

def gap? : Delivery Line → Option SourceGap
  | .record _ => none
  | .gap x => some x

/-- A gap of generation `g` comes after the records of lower generations, and before those of generation `g` or later. -/
def Before : Delivery Line → Delivery Line → Prop
  | .record r, .record r' => stamp r.id < stamp r'.id
  | .record r, .gap x => r.id.generation < x.generation
  | .gap x, .record r => x.generation ≤ r.id.generation
  | .gap x, .gap y => x.generation < y.generation

end Delivery

section
variable {Line : Type}

/-- The order in which `process_work_item` takes the gaps and the records of a read. -/
def deliveries : List SourceGap → List (TailedRecord Line) → List (Delivery Line)
  | [], records => records.map .record
  | gap :: gaps, records =>
    (records.takeWhile (·.id.generation < gap.generation)).map .record ++
      .gap gap :: deliveries gaps (records.dropWhile (·.id.generation < gap.generation))

/-- The line parsers of the pipeline with their state: what is parsed of a line, and the reset at a gap. -/
structure LineParsers (σ Line : Type) where
  source : Line → LogSource
  parse : σ → Line → σ × Option EqSecond × List LogEvent
  resetSource : σ → LogSource → σ

/-- The parsers and the combat engine behind the worker. -/
structure LogPipeline (σ : Type) where
  parsers : σ
  combat : CombatEngine

variable {σ : Type} (parsers : LineParsers σ Line)

namespace LogPipeline

/-- The record that `process_record` hands to the engine. -/
def combatRecord (p : LogPipeline σ) (record : TailedRecord Line) : CombatRecord :=
  let parsed := (parsers.parse p.parsers record.line).2
  ⟨record.id, parsers.source record.line, parsed.1, parsed.2⟩

/-- `process_record` and `source_gap`. -/
def deliver (now : MonoTime) (p : LogPipeline σ) : Delivery Line → LogPipeline σ
  | .record record =>
    ⟨(parsers.parse p.parsers record.line).1, p.combat.step (.apply now (.record (p.combatRecord parsers record)))⟩
  | .gap gap =>
    ⟨parsers.resetSource p.parsers gap.source, p.combat.step (.apply now (.sourceGap gap.source.id gap.generation gap.reason))⟩

theorem deliver_record_combat (now : MonoTime) (p : LogPipeline σ) (r : TailedRecord Line) :
    (p.deliver parsers now (.record r)).combat = p.combat.step (.apply now (.record (p.combatRecord parsers r))) := by
  unfold deliver
  dsimp only

theorem deliver_gap_combat (now : MonoTime) (p : LogPipeline σ) (x : SourceGap) :
    (p.deliver parsers now (.gap x)).combat =
      p.combat.step (.apply now (.sourceGap x.source.id x.generation x.reason)) := by
  unfold deliver
  dsimp only

/-- `stable_eof`. -/
def stableEof (now : MonoTime) (p : LogPipeline σ) (source : LogSourceId) (generation : Nat) : LogPipeline σ :=
  { p with combat := p.combat.step (.apply now (.sourceStableEof source generation)) }

end LogPipeline

variable (decode : LogSource → List UInt8 → DecodedRawLogLine Line)

/-- `process_work_item`; `reconciles` when the work is of a reconciliation. The third result are the records of the
envelopes, the last is whether there is more work. -/
def processWorkItem (tailer : LogTailer) (pipeline : LogPipeline σ) (opens : Str → OpenResult) (path : Str)
    (reconciles : Bool) (budget : ReadBudget) (receipt : MonoTime) :
    LogTailer × LogPipeline σ × List (TailedRecord Line) × Bool :=
  let (tailer, outcome) := tailer.readPath decode opens path budget
  let delivered := deliveries outcome.gaps outcome.lines
  let pipeline := delivered.foldl (LogPipeline.deliver parsers receipt) pipeline
  let pipeline := match outcome.stableEof with
    | some (source, generation) => if reconciles then pipeline.stableEof receipt source generation else pipeline
    | none => pipeline
  (tailer, pipeline, delivered.filterMap Delivery.record?, outcome.moreWork)

end

/-! ### The order of the file -/

section
variable {Line : Type}

/-- The items that a file numbers one after the other, from the counters `g`, `n` on: a record takes the next sequence
number, a gap the next generation. -/
def Issues (source : LogSource) : Nat → Nat → List (Delivery Line) → Nat → Nat → Prop
  | g, n, [], g', n' => g' = g ∧ n' = n
  | g, n, .record r :: items, g', n' => r.id = ⟨source.id, g, n⟩ ∧ Issues source g (increment n) items g' n'
  | g, _, .gap x :: items, g', n' =>
    x.source = source ∧ x.generation = increment g ∧ Issues source (increment g) 0 items g' n'

theorem Issues.append {source : LogSource} {items items' : List (Delivery Line)} {g n g' n' g'' n'' : Nat}
    (h : Issues source g n items g' n') (h' : Issues source g' n' items' g'' n'') :
    Issues source g n (items ++ items') g'' n'' := by
  induction items generalizing g n with
  | nil =>
    obtain ⟨rfl, rfl⟩ := h
    exact h'
  | cons item items ih =>
    cases item with
    | record r => exact ⟨h.1, ih h.2⟩
    | gap x => exact ⟨h.1, h.2.1, ih h.2.2⟩

variable (decode : LogSource → List UInt8 → DecodedRawLogLine Line)

theorem Issues.source {source : LogSource} {items : List (Delivery Line)} {g n g' n' : Nat}
    (h : Issues source g n items g' n') : ∀ r ∈ items.filterMap Delivery.record?, r.id.source = source.id := by
  induction items generalizing g n with
  | nil => exact nofun
  | cons item items ih =>
    intro r hr
    cases item with
    | record r' =>
      rcases List.mem_cons.mp hr with rfl | hr
      · rw [h.1]
      · exact ih h.2 r hr
    | gap x => exact ih h.2.2 r hr

/-- From `s` to `s'` the items were put into the outcome, which was `o`. -/
structure Puts (s s' : FileState) (o o' : ReadOutcome Line) (items : List (Delivery Line)) : Prop where
  source : s'.source = s.source
  lines : o'.lines = o.lines ++ items.filterMap Delivery.record?
  gaps : o'.gaps = o.gaps ++ items.filterMap Delivery.gap?
  issues : Issues s.source s.generation s.nextSequence items s'.generation s'.nextSequence
  decoded : ∀ r ∈ items.filterMap Delivery.record?, ∃ content, r.line = (decode s.source content).line

namespace Puts
variable {decode} {s s' s'' : FileState} {o o' o'' : ReadOutcome Line} {items items' : List (Delivery Line)}

theorem trans (h : Puts decode s s' o o' items) (h' : Puts decode s' s'' o' o'' items') :
    Puts decode s s'' o o'' (items ++ items') where
  source := h'.source.trans h.source
  lines := by rw [h'.lines, h.lines, List.filterMap_append, List.append_assoc]
  gaps := by rw [h'.gaps, h.gaps, List.filterMap_append, List.append_assoc]
  issues := h.issues.append (h.source ▸ h'.issues)
  decoded r hr := by
    rw [List.filterMap_append, List.mem_append] at hr
    rcases hr with hr | hr
    · exact h.decoded r hr
    · exact h.source ▸ h'.decoded r hr

theorem still (hs : s'.source = s.source) (hg : s'.generation = s.generation) (hn : s'.nextSequence = s.nextSequence)
    (hlines : o'.lines = o.lines) (hgaps : o'.gaps = o.gaps) : Puts decode s s' o o' [] where
  source := hs
  lines := hlines.trans (List.append_nil _).symm
  gaps := hgaps.trans (List.append_nil _).symm
  issues := ⟨hg, hn⟩
  decoded := nofun

theorem refl (s : FileState) (o : ReadOutcome Line) : Puts decode s s o o [] := still rfl rfl rfl rfl rfl

theorem gap {x : SourceGap} (hs : s'.source = s.source) (hg : s'.generation = increment s.generation) (hn : s'.nextSequence = 0)
    (hlines : o'.lines = o.lines) (hgaps : o'.gaps = o.gaps ++ [x]) (hx : x.source = s.source)
    (hgen : x.generation = increment s.generation) : Puts decode s s' o o' [.gap x] where
  source := hs
  lines := hlines.trans (List.append_nil _).symm
  gaps := hgaps
  issues := ⟨hx, hgen, hg, hn⟩
  decoded := nofun

end Puts

theorem extractLine_puts (s : FileState) (o : ReadOutcome Line) (line : List UInt8) :
    ∃ items, Puts decode s (extractLine decode s o line).1 o (extractLine decode s o line).2 items := by
  unfold extractLine
  dsimp only
  by_cases hlong : (lineContent line).length > maxLineBytes
  · rw [if_pos hlong]
    exact ⟨_, .gap rfl rfl rfl rfl rfl rfl rfl⟩
  · rw [if_neg hlong]
    refine ⟨[.record _], rfl, rfl, (List.append_nil _).symm, ⟨rfl, rfl, rfl⟩, fun r hr => ?_⟩
    obtain rfl := List.mem_singleton.mp hr
    exact ⟨lineContent line, rfl⟩

theorem extractLoop_puts (lines : List (List UInt8)) (maxRecords consumed : Nat) (s : FileState) (o : ReadOutcome Line) :
    ∃ items, Puts decode s (extractLoop decode maxRecords lines consumed s o).1 o
      (extractLoop decode maxRecords lines consumed s o).2.1 items := by
  induction lines generalizing maxRecords consumed s o with
  | nil => exact ⟨[], .refl s o⟩
  | cons line lines ih =>
    cases maxRecords with
    | zero => exact ⟨[], .refl s o⟩
    | succ maxRecords =>
      obtain ⟨items, hline⟩ := extractLine_puts decode s o line
      obtain ⟨items', hrest⟩ := ih (if (lineContent line).length > maxLineBytes then maxRecords + 1 else maxRecords)
        (consumed + (line.length + 1)) (extractLine decode s o line).1 (extractLine decode s o line).2
      exact ⟨items ++ items', hline.trans hrest⟩

theorem extractCompleteLines_puts (s : FileState) (maxRecords : Nat) (o : ReadOutcome Line) :
    ∃ items, Puts decode s (extractCompleteLines decode s maxRecords o).1 o (extractCompleteLines decode s maxRecords o).2 items := by
  unfold extractCompleteLines
  split
  · exact ⟨[], .refl s o⟩
  · obtain ⟨items, hloop⟩ := extractLoop_puts decode (completeLines newline s.pending) maxRecords 0 s o
    generalize extractLoop decode maxRecords (completeLines newline s.pending) 0 s o = r at hloop
    obtain ⟨state, outcome, consumed⟩ := r
    dsimp only at hloop ⊢
    split
    · exact ⟨items ++ _, hloop.trans (.gap rfl rfl rfl rfl rfl rfl rfl)⟩
    · exact ⟨items, hloop.source, hloop.lines, hloop.gaps, hloop.issues, hloop.decoded⟩

theorem appendBytes_puts (s : FileState) (bytes : List UInt8) (offset : Nat) (signature : List UInt8) (o : ReadOutcome Line) :
    Puts decode s (FileState.appendBytes { s with offset := offset, signature := signature } bytes) o o [] := by
  unfold FileState.appendBytes
  split
  · exact .still rfl rfl rfl rfl rfl
  · split <;> exact .still rfl rfl rfl rfl rfl

theorem readLoop_puts (budget : ReadBudget) (reads : List (Except String (List UInt8))) (bytesRead : Nat) (s : FileState)
    (o : ReadOutcome Line) :
    ∃ items, Puts decode s (readLoop decode budget reads bytesRead s o).1 o (readLoop decode budget reads bytesRead s o).2 items := by
  induction reads generalizing bytesRead s o with
  | nil => exact ⟨[], .refl s o⟩
  | cons answer reads ih =>
    unfold readLoop
    split
    · cases answer with
      | error error => exact ⟨[], .still rfl rfl rfl rfl rfl⟩
      | ok answer =>
        dsimp only
        split
        · exact ⟨[], .refl s o⟩
        · generalize answer.take (readLen budget bytesRead) = bytes
          have happend := appendBytes_puts decode s bytes (s.offset + bytes.length) (extendSignature s.signature bytes) o
          obtain ⟨items, hextract⟩ := extractCompleteLines_puts decode
            (FileState.appendBytes { s with
              offset := s.offset + bytes.length, signature := extendSignature s.signature bytes } bytes)
            (budget.records - o.lines.length) o
          obtain ⟨items', hloop⟩ := ih (bytesRead + bytes.length) _ _
          exact ⟨_, (happend.trans hextract).trans hloop⟩
    · exact ⟨[], .refl s o⟩

theorem checkBoundary_puts (s : FileState) (file : LogFile) (fileLen : Nat) (o : ReadOutcome Line) :
    ∃ items, Puts decode s (checkBoundary s file fileLen o).1 o (checkBoundary s file fileLen o).2 items := by
  unfold checkBoundary
  dsimp only
  generalize (Option.any _ _ || _ || _) = reset
  cases reset with
  | true => exact ⟨_, .gap rfl rfl rfl rfl rfl rfl rfl⟩
  | false => exact ⟨[], .still rfl rfl rfl rfl rfl⟩

theorem readLines_puts (s : FileState) (file : LogFile) (fileLen : Nat) (budget : ReadBudget) (o : ReadOutcome Line) :
    ∃ items, Puts decode s (readLines decode s file fileLen budget o).1 o (readLines decode s file fileLen budget o).2 items := by
  obtain ⟨items, hextract⟩ := extractCompleteLines_puts decode s budget.records o
  unfold readLines
  dsimp only
  split
  · exact ⟨items, hextract.source, hextract.lines, hextract.gaps, hextract.issues, hextract.decoded⟩
  · split
    · exact ⟨items, hextract.source, hextract.lines, hextract.gaps, hextract.issues, hextract.decoded⟩
    · obtain ⟨items', hloop⟩ := readLoop_puts decode budget file.reads 0
        (extractCompleteLines decode s budget.records o).1 (extractCompleteLines decode s budget.records o).2
      have hboth := hextract.trans hloop
      exact ⟨items ++ items', hboth.source, hboth.lines, hboth.gaps, hboth.issues, hboth.decoded⟩

/-- The records and the gaps of a read are numbered in one order, that of the file. -/
theorem readFile_puts (s : FileState) (budget : ReadBudget) (opened : OpenResult) :
    ∃ items, Puts decode s (readFile decode s budget opened).1 {} (readFile decode s budget opened).2 items := by
  cases opened with
  | notFound => exact ⟨[], .refl s {}⟩
  | failed error => exact ⟨[], .still rfl rfl rfl rfl rfl⟩
  | opened file =>
    unfold readFile
    dsimp only
    split
    · exact ⟨[], .still rfl rfl rfl rfl rfl⟩
    · rename_i fileLen _
      split
      · have hinit : Puts decode s (s.initializeAtEnd file fileLen).1 ({} : ReadOutcome Line) {} [] := by
          unfold FileState.initializeAtEnd
          dsimp only
          split <;> exact .still rfl rfl rfl rfl rfl
        split <;> rename_i heq <;> rw [heq] at hinit
        · exact ⟨[], hinit⟩
        · exact ⟨[], hinit.source, hinit.lines, hinit.gaps, hinit.issues, hinit.decoded⟩
      · obtain ⟨items, hreset⟩ := checkBoundary_puts decode s file fileLen ({} : ReadOutcome Line)
        obtain ⟨items', hlines⟩ := readLines_puts decode (checkBoundary s file fileLen ({} : ReadOutcome Line)).1
          file fileLen budget (checkBoundary s file fileLen ({} : ReadOutcome Line)).2
        exact ⟨items ++ items', hreset.trans hlines⟩

end

/-! ### The merge -/

section
variable {Line : Type} {source : LogSource} {items : List (Delivery Line)} {g n g' n' : Nat}

/-- No counter saturates while the items are numbered. -/
def Room (g n : Nat) (lines gaps : Nat) : Prop := g + gaps ≤ counterLimit ∧ n + lines ≤ counterLimit

instance {g n lines gaps : Nat} : Decidable (Room g n lines gaps) := inferInstanceAs (Decidable (_ ∧ _))

/-- What is numbered from `g`, `n` on comes after everything that was numbered before. -/
theorem Issues.ordered (h : Issues source g n items g' n')
    (hroom : Room g n (items.filterMap Delivery.record?).length (items.filterMap Delivery.gap?).length) :
    items.Pairwise Delivery.Before ∧
      (∀ r ∈ items.filterMap Delivery.record?, toLex (g, n) ≤ stamp r.id) ∧
      ∀ x ∈ items.filterMap Delivery.gap?, g < x.generation := by
  obtain ⟨hg, hn⟩ := hroom
  induction items generalizing g n with
  | nil => exact ⟨.nil, nofun, nofun⟩
  | cons item items ih =>
    cases item with
    | record r =>
      obtain ⟨hid, hrest⟩ := h
      have hn' : n + 1 + (items.filterMap Delivery.record?).length ≤ counterLimit := by
        simp only [List.filterMap_cons, Delivery.record?, List.length_cons] at hn
        omega
      rw [increment_of_lt (by omega)] at hrest
      obtain ⟨hpairwise, hrecords, hgaps⟩ := ih hrest hg hn'
      have hr : stamp r.id = toLex (g, n) := by rw [hid]; rfl
      have hlt : toLex (g, n) < toLex (g, n + 1) := Prod.Lex.lt_iff.mpr (.inr ⟨rfl, Nat.lt_succ_self n⟩)
      refine ⟨List.pairwise_cons.mpr ⟨fun later hlater => ?_, hpairwise⟩, ?_, ?_⟩
      · cases later with
        | record r' =>
          show stamp r.id < stamp r'.id
          rw [hr]
          exact hlt.trans_le (hrecords r' (List.mem_filterMap.mpr ⟨_, hlater, rfl⟩))
        | gap x =>
          show r.id.generation < x.generation
          rw [hid]
          exact hgaps x (List.mem_filterMap.mpr ⟨_, hlater, rfl⟩)
      · intro r' hr'
        simp only [List.filterMap_cons, Delivery.record?, List.mem_cons] at hr'
        rcases hr' with rfl | hr'
        · exact hr.ge
        · exact hlt.le.trans (hrecords r' hr')
      · intro x hx
        exact hgaps x hx
    | gap x =>
      obtain ⟨-, hgen, hrest⟩ := h
      simp only [List.filterMap_cons, Delivery.gap?, List.length_cons] at hg
      rw [increment_of_lt (by omega)] at hgen hrest
      obtain ⟨hpairwise, hrecords, hgaps⟩ := ih hrest (by omega)
        (show 0 + (items.filterMap Delivery.record?).length ≤ counterLimit from by
          simp only [List.filterMap_cons, Delivery.record?] at hn
          omega)
      have hlt : toLex (g, n) < toLex (g + 1, 0) := Prod.Lex.lt_iff.mpr (.inl (Nat.lt_succ_self g))
      refine ⟨List.pairwise_cons.mpr ⟨fun later hlater => ?_, hpairwise⟩, ?_, ?_⟩
      · cases later with
        | record r' =>
          show x.generation ≤ r'.id.generation
          have hle := hrecords r' (List.mem_filterMap.mpr ⟨_, hlater, rfl⟩)
          rw [hgen]
          rcases Prod.Lex.le_iff.mp hle with hlt' | ⟨heq, -⟩
          · exact Nat.le_of_lt hlt'
          · exact heq.le
        | gap y =>
          show x.generation < y.generation
          rw [hgen]
          exact hgaps y (List.mem_filterMap.mpr ⟨_, hlater, rfl⟩)
      · intro r' hr'
        exact hlt.le.trans (hrecords r' hr')
      · intro y hy
        simp only [List.filterMap_cons, Delivery.gap?, List.mem_cons] at hy
        rcases hy with rfl | hy
        · omega
        · exact (Nat.lt_succ_self g).trans (hgaps y hy)

theorem deliveries_eq (h : items.Pairwise Delivery.Before) :
    deliveries (items.filterMap Delivery.gap?) (items.filterMap Delivery.record?) = items := by
  induction items with
  | nil => rfl
  | cons item items ih =>
    obtain ⟨hfirst, hrest⟩ := List.pairwise_cons.mp h
    have hmerge := ih hrest
    cases item with
    | record r =>
      simp only [List.filterMap_cons, Delivery.gap?, Delivery.record?]
      cases hgaps : items.filterMap Delivery.gap? with
      | nil =>
        rw [hgaps] at hmerge
        unfold deliveries at hmerge ⊢
        rw [List.map_cons, hmerge]
      | cons x gaps =>
        rw [hgaps] at hmerge
        obtain ⟨later, hlater, hx⟩ := List.mem_filterMap.mp (hgaps ▸ List.mem_cons_self : x ∈ items.filterMap Delivery.gap?)
        have hbefore : r.id.generation < x.generation := by
          cases later with
          | record r' => cases hx
          | gap y =>
            obtain rfl := Option.some.inj hx
            exact hfirst _ hlater
        unfold deliveries at hmerge ⊢
        rw [List.takeWhile_cons_of_pos (by simpa using hbefore), List.dropWhile_cons_of_pos (by simpa using hbefore),
          List.map_cons, List.cons_append, hmerge]
    | gap x =>
      simp only [List.filterMap_cons, Delivery.gap?, Delivery.record?]
      unfold deliveries
      cases hrecords : items.filterMap Delivery.record? with
      | nil =>
        rw [hrecords] at hmerge
        rw [List.takeWhile_nil, List.dropWhile_nil, List.map_nil, List.nil_append, hmerge]
      | cons r records =>
        rw [hrecords] at hmerge
        obtain ⟨later, hlater, hr⟩ :=
          List.mem_filterMap.mp (hrecords ▸ List.mem_cons_self : r ∈ items.filterMap Delivery.record?)
        have hafter : ¬ r.id.generation < x.generation := by
          cases later with
          | record r' =>
            obtain rfl := Option.some.inj hr
            exact Nat.not_lt.mpr (hfirst _ hlater)
          | gap y => cases hr
        rw [List.takeWhile_cons_of_neg (by simpa using hafter), List.dropWhile_cons_of_neg (by simpa using hafter),
          List.map_nil, List.nil_append, hmerge]

end

/-! ### The reducer -/

section
variable {e : CombatEngine} {now : MonoTime} {id : SourceRecordId}

theorem covered_gap {source : LogSourceId} {generation : Nat} {reason : GapReason} (hle : generation ≤ id.generation)
    (h : (e.step (.apply now (.sourceGap source generation reason))).covered id = true) : e.covered id = true := by
  have hmark : (e.step (.apply now (.sourceGap source generation reason))).mark id.source =
      if source = id.source then (e.mark id.source).map fun _ => (generation, none) else e.mark id.source :=
    ((CombatEngine.SameIntake.step e _).mark id.source).trans
      (@CombatEngine.markGap_mark (e.clock now) source generation reason id.source)
  unfold CombatEngine.covered at h ⊢
  rw [hmark] at h
  split_ifs at h with hs
  · obtain ⟨m, hm, hcovers⟩ := (Option.any_eq_true _ _).mp h
    obtain ⟨-, -, rfl⟩ := Option.map_eq_some_iff.mp hm
    rw [CombatEngine.covers_restart, decide_eq_true_eq] at hcovers
    omega
  · exact h

theorem covered_record {record : CombatRecord} (hlt : stamp record.id < stamp id)
    (h : (e.step (.apply now (.record record))).covered id = true) : e.covered id = true := by
  have hmark : (e.step (.apply now (.record record))).mark id.source =
      ((e.clock now).accept record now).1.mark id.source :=
    ((CombatEngine.SameIntake.step e _).mark id.source).trans (CombatEngine.handled_record_mark e record now id.source)
  have hspec := CombatEngine.accept_spec (e.clock now) record now
  unfold CombatEngine.covered at h ⊢
  rw [hmark] at h
  generalize (e.clock now).accept record now = accepted at h hspec
  cases hspec with
  | refused hs _ =>
    rw [hs.mark] at h
    exact h
  | taken _ _ _ _ _ hm =>
    rw [hm] at h
    split_ifs at h with hs
    · have hcovers : CombatEngine.covers (record.id.generation, some record.id.sequence) id = true := h
      rw [CombatEngine.covers_upTo hs.symm] at hcovers
      unfold SourceRecordId.upTo at hcovers
      simp only [Bool.and_eq_true, Bool.or_eq_true, decide_eq_true_eq, beq_iff_eq] at hcovers
      rcases Prod.Lex.lt_iff.mp hlt with hgen | ⟨hgen, hseq⟩
      · have hgen : record.id.generation < id.generation := hgen
        omega
      · have hgen : record.id.generation = id.generation := hgen
        have hseq : record.id.sequence < id.sequence := hseq
        omega
    · exact h

theorem takenId_of_not_covered {record : CombatRecord} (hid : record.id.source = record.source.id)
    (hwindow : record.id ∉ e.accepted) (hcovered : e.covered record.id = false) :
    e.takenId (.apply now (.record record)) = some record.id := by
  have hspec := CombatEngine.accept_spec (e.clock now) record now
  have htaken : e.takenId (.apply now (.record record)) =
      if ((e.clock now).accept record now).2 then some record.id else none := rfl
  rw [htaken]
  generalize (e.clock now).accept record now = accepted at hspec
  cases hspec with
  | refused _ hwhy => exact absurd (hcovered.symm.trans (hwhy hid hwindow)) nofun
  | taken => rfl

end

section
variable {σ Line : Type} (parsers : LineParsers σ Line) {now : MonoTime}

theorem covered_deliver {p : LogPipeline σ} {d : Delivery Line} {r : TailedRecord Line} (hbefore : d.Before (.record r))
    (h : (p.deliver parsers now d).combat.covered r.id = true) : p.combat.covered r.id = true := by
  cases d with
  | record r' =>
    have hlt : stamp (p.combatRecord parsers r').id < stamp r.id := hbefore
    rw [LogPipeline.deliver_record_combat] at h
    exact covered_record hlt h
  | gap x =>
    have hle : x.generation ≤ r.id.generation := hbefore
    rw [LogPipeline.deliver_gap_combat] at h
    exact covered_gap hle h

theorem covered_deliveries {items : List (Delivery Line)} {r : TailedRecord Line} (hbefore : ∀ d ∈ items, d.Before (.record r))
    {p : LogPipeline σ} (h : (items.foldl (LogPipeline.deliver parsers now) p).combat.covered r.id = true) :
    p.combat.covered r.id = true := by
  induction items generalizing p with
  | nil => exact h
  | cons d items ih =>
    have hrest := ih (fun d hd => hbefore d (List.mem_cons_of_mem _ hd)) h
    exact covered_deliver parsers (hbefore d List.mem_cons_self) hrest

/-- The items are the records and the gaps of the read, each once, in the order of the file: as it numbers them. -/
structure InFileOrder (s s' : FileState) (outcome : ReadOutcome Line) (items : List (Delivery Line)) : Prop where
  records : items.filterMap Delivery.record? = outcome.lines
  gaps : items.filterMap Delivery.gap? = outcome.gaps
  issues : Issues s.source s.generation s.nextSequence items s'.generation s'.nextSequence
  ordered : items.Pairwise Delivery.Before

/-- At its turn every record is taken, but for one in the window of accepted ids or covered before the read. -/
def TakesLive (parsers : LineParsers σ Line) (now : MonoTime) (p : LogPipeline σ) (items : List (Delivery Line)) : Prop :=
  ∀ pre r post, items = pre ++ .record r :: post →
    let p' := pre.foldl (LogPipeline.deliver parsers now) p
    p'.combat.takenId (.apply now (.record (p'.combatRecord parsers r))) = some r.id ∨
      r.id ∈ p'.combat.accepted ∨ p.combat.covered r.id = true

variable {decode : LogSource → List UInt8 → DecodedRawLogLine Line}

/-- Unless a counter is used up, a work item hands over the records and the gaps of its read one by one in the order of the
file, then the stable end of the file, and the reducer takes every live record. -/
theorem work_item_in_file_order (hsource : ∀ source content, parsers.source (decode source content).line = source)
    (tailer : LogTailer) (pipeline : LogPipeline σ) (opens : Str → OpenResult) (path : Str) (reconciles : Bool)
    (budget : ReadBudget) (receipt : MonoTime) {s s' : FileState} {outcome : ReadOutcome Line}
    (hs : tailer.files[PathKey.new path]? = some s) (hread : readFile decode s budget (opens s.path) = (s', outcome))
    (hroom : Room s.generation s.nextSequence outcome.lines.length outcome.gaps.length) :
    let handed := (deliveries outcome.gaps outcome.lines).foldl (LogPipeline.deliver parsers receipt) pipeline
    InFileOrder s s' outcome (deliveries outcome.gaps outcome.lines) ∧
      (processWorkItem parsers decode tailer pipeline opens path reconciles budget receipt).2.1 =
        (outcome.stableEof.filter fun _ => reconciles).elim handed (fun eof => handed.stableEof receipt eof.1 eof.2) ∧
      (processWorkItem parsers decode tailer pipeline opens path reconciles budget receipt).2.2.1 = outcome.lines ∧
      TakesLive parsers receipt pipeline (deliveries outcome.gaps outcome.lines) := by
  obtain ⟨items, hputs⟩ := readFile_puts decode s budget (opens s.path)
  rw [hread] at hputs
  have hlines : items.filterMap Delivery.record? = outcome.lines := hputs.lines.symm
  have hgaps : items.filterMap Delivery.gap? = outcome.gaps := hputs.gaps.symm
  rw [← hlines, ← hgaps] at hroom
  have hordered := (hputs.issues.ordered hroom).1
  have hmerge : deliveries outcome.gaps outcome.lines = items := by
    rw [← hlines, ← hgaps]
    exact deliveries_eq hordered
  have hpath : tailer.readPath decode opens path budget = (⟨tailer.files.insert (PathKey.new path) s'⟩, outcome) := by
    unfold LogTailer.readPath
    rw [hs]
    dsimp only
    rw [hread]
  dsimp only
  rw [hmerge]
  refine ⟨⟨hlines, hgaps, hputs.issues, hordered⟩, ?_, ?_, ?_⟩
  · unfold processWorkItem
    rw [hpath]
    dsimp only
    rw [hmerge]
    cases outcome.stableEof with
    | none => rfl
    | some eof => cases reconciles <;> rfl
  · unfold processWorkItem
    rw [hpath]
    dsimp only
    rw [hmerge, hlines]
  · rintro pre r post rfl
    dsimp only
    have hbefore : ∀ d ∈ pre, d.Before (.record r) := fun d hd =>
      (List.pairwise_append.mp hordered).2.2 d hd _ List.mem_cons_self
    have hmem : r ∈ (pre ++ .record r :: post).filterMap Delivery.record? :=
      List.mem_filterMap.mpr ⟨.record r, by simp, rfl⟩
    obtain ⟨content, hline⟩ := hputs.decoded r hmem
    by_cases hcovered : pipeline.combat.covered r.id = true
    · exact .inr (.inr hcovered)
    · by_cases hwindow : r.id ∈ (pre.foldl (LogPipeline.deliver parsers receipt) pipeline).combat.accepted
      · exact .inr (.inl hwindow)
      · have hnow : (pre.foldl (LogPipeline.deliver parsers receipt) pipeline).combat.covered r.id = false :=
          Bool.eq_false_iff.mpr fun h => hcovered (covered_deliveries parsers hbefore h)
        refine .inl (takenId_of_not_covered ?_ hwindow hnow)
        show r.id.source = (parsers.source r.line).id
        rw [hline, hsource]
        exact hputs.issues.source r hmem

end

namespace Saturated

/-- Parsers that find nothing in a line. -/
def parsers : LineParsers Unit (LogSource × List UInt8) := ⟨Prod.fst, fun _ _ => ((), none, []), fun _ _ => ()⟩

/-- A decoder that keeps the bytes with their source. -/
def decode : LogSource → List UInt8 → DecodedRawLogLine (LogSource × List UInt8) := fun source bytes => ⟨(source, bytes), false⟩

def source : LogSource := ⟨['c'], ['B'], ['t']⟩

/-- The file with nothing left to read. -/
def file : LogFile := ⟨.ok 0, ⟨some 1, some 1, 1⟩, fun _ _ => .ok [], fun _ => true, [], none⟩

/-- A file that is read, with its pending bytes and its counters. -/
def state (generation nextSequence : Nat) (pending : List UInt8) : FileState :=
  { FileState.absent ['p'] source with initialized := true, pending, generation, nextSequence }

def budget : ReadBudget := ⟨64, 8⟩

def tailer (s : FileState) : LogTailer := ⟨(∅ : ExtTreeMap PathKey FileState).insert ['p'] s⟩

theorem tracked (s : FileState) : (tailer s).files[PathKey.new ['p']]? = some s := by
  have hkey : PathKey.new ['p'] = ['p'] := by decide
  rw [hkey]
  simp [tailer]

/-- A short line, `line` and a short line. -/
def pending (line : List UInt8) : List UInt8 := [97] ++ newline :: (line ++ newline :: ([99] ++ newline :: []))

theorem lines_pending {line : List UInt8} (hfree : newline ∉ line) :
    completeLines newline (pending line) = [[97], line, [99]] := by
  have ha : newline ∉ ([97] : List UInt8) := by decide
  have hc : newline ∉ ([99] : List UInt8) := by decide
  rw [pending, completeLines_append_cons ha, completeLines_append_cons hfree, completeLines_append_cons hc,
    completeLines_nil]

theorem length_pending (line : List UInt8) : (pending line).length = 0 + (1 + 1) + (line.length + 1) + (1 + 1) := by
  simp only [pending, List.length_append, List.length_cons, List.length_nil]
  omega

section
variable {Line : Type} (decode : LogSource → List UInt8 → DecodedRawLogLine Line) {line : List UInt8}

theorem extractLoop_short (h : ¬ (lineContent line).length > maxLineBytes) (m : Nat) (lines : List (List UInt8)) (consumed : Nat)
    (s : FileState) (o : ReadOutcome Line) :
    ∃ diagnostics, extractLoop decode (m + 1) (line :: lines) consumed s o =
      extractLoop decode m lines (consumed + (line.length + 1)) { s with nextSequence := increment s.nextSequence }
        { o with
          lines := o.lines ++ [⟨⟨s.source.id, s.generation, s.nextSequence⟩, (decode s.source (lineContent line)).line⟩]
          diagnostics := diagnostics } := by
  rw [extractLoop, if_neg h]
  unfold extractLine
  dsimp only
  rw [if_neg h]
  exact ⟨_, rfl⟩

theorem extractLoop_long (h : (lineContent line).length > maxLineBytes) (m : Nat) (lines : List (List UInt8)) (consumed : Nat)
    (s : FileState) (o : ReadOutcome Line) :
    ∃ diagnostics, extractLoop decode (m + 1) (line :: lines) consumed s o =
      extractLoop decode (m + 1) lines (consumed + (line.length + 1)) s.advanceGeneration
        { o with gaps := o.gaps ++ [⟨s.source, increment s.generation, .oversizedRecord⟩], diagnostics := diagnostics } := by
  refine ⟨o.diagnostics ++ [s.fileDiagnostic .fileRead
    ("discarded a log record larger than " ++ toString maxLineBytes ++ " bytes")], ?_⟩
  have hline : extractLine decode s o line = (s.advanceGeneration, { o with
      gaps := o.gaps ++ [⟨s.source, increment s.generation, .oversizedRecord⟩]
      diagnostics := o.diagnostics ++ [s.fileDiagnostic .fileRead
        ("discarded a log record larger than " ++ toString maxLineBytes ++ " bytes")] }) := by
    unfold extractLine
    dsimp only
    rw [if_pos h]
    rfl
  show extractLoop decode (if (lineContent line).length > maxLineBytes then m + 1 else m) lines _
    (extractLine decode s o line).1 (extractLine decode s o line).2 = _
  rw [if_pos h, hline]

end

theorem extractLoop_between {line : List UInt8} (hlong : (lineContent line).length > maxLineBytes) (s : FileState) : ∃ s' diagnostics,
    extractLoop decode 8 [[97], line, [99]] 0 s {} =
      (s', { lines := [⟨⟨s.source.id, s.generation, s.nextSequence⟩, (s.source, [97])⟩,
               ⟨⟨s.source.id, increment s.generation, 0⟩, (s.source, [99])⟩]
             gaps := [⟨s.source, increment s.generation, .oversizedRecord⟩]
             diagnostics := diagnostics }, 0 + (1 + 1) + (line.length + 1) + (1 + 1)) ∧ s'.pending = s.pending := by
  have ha : ¬ (lineContent [97]).length > maxLineBytes := by decide
  have hc : ¬ (lineContent [99]).length > maxLineBytes := by decide
  obtain ⟨da, hloopa⟩ := extractLoop_short decode ha 7 [line, [99]] 0 s {}
  rw [hloopa]
  obtain ⟨dl, hloopl⟩ := extractLoop_long decode hlong 6 [[99]] (0 + (1 + 1))
    { s with nextSequence := increment s.nextSequence }
    { lines := [⟨⟨s.source.id, s.generation, s.nextSequence⟩, (s.source, [97])⟩], diagnostics := da }
  obtain ⟨dc, hloopc⟩ := extractLoop_short decode hc 6 [] (0 + (1 + 1) + (line.length + 1))
    (FileState.advanceGeneration { s with nextSequence := increment s.nextSequence })
    { lines := [⟨⟨s.source.id, s.generation, s.nextSequence⟩, (s.source, [97])⟩]
      gaps := [⟨s.source, increment s.generation, .oversizedRecord⟩], diagnostics := dl }
  exact ⟨_, dc, hloopl.trans hloopc, rfl⟩

theorem extract_pending {line : List UInt8} (hfree : newline ∉ line) (hlong : (lineContent line).length > maxLineBytes)
    {s : FileState} (hpending : s.pending = pending line) :
    (extractCompleteLines decode s 8 {}).2.lines =
      [⟨⟨s.source.id, s.generation, s.nextSequence⟩, (s.source, [97])⟩,
        ⟨⟨s.source.id, increment s.generation, 0⟩, (s.source, [99])⟩] ∧
    (extractCompleteLines decode s 8 {}).2.gaps = [⟨s.source, increment s.generation, .oversizedRecord⟩] := by
  have hne : ¬ (8 = 0 ∨ s.pending = []) := by
    rw [hpending, not_or]
    exact ⟨by decide, List.cons_ne_nil _ _⟩
  obtain ⟨s', diagnostics, hloop, hsame⟩ := extractLoop_between hlong s
  have hdone : (s'.pending.drop (0 + (1 + 1) + (line.length + 1) + (1 + 1))).length = 0 := by
    rw [List.length_drop, hsame, hpending, length_pending, Nat.sub_self]
  unfold extractCompleteLines
  rw [if_neg hne, hpending, lines_pending hfree, hloop]
  dsimp only
  split
  · rename_i hgiven
    rw [hdone] at hgiven
    exact absurd hgiven.1 (Nat.not_lt_zero _)
  · exact ⟨rfl, rfl⟩

theorem read_pending {line : List UInt8} (hfree : newline ∉ line) (hlong : (lineContent line).length > maxLineBytes) (g : Nat) :
    (readFile decode (state g 5 (pending line)) budget (.opened file)).2.lines =
      [⟨⟨['c'], g, 5⟩, (source, [97])⟩, ⟨⟨['c'], increment g, 0⟩, (source, [99])⟩] ∧
    (readFile decode (state g 5 (pending line)) budget (.opened file)).2.gaps = [⟨source, increment g, .oversizedRecord⟩] := by
  have hboundary : checkBoundary (state g 5 (pending line)) file 0 ({} : ReadOutcome (LogSource × List UInt8)) =
      ({ state g 5 (pending line) with identity := some file.identity }, {}) := rfl
  have hextract := @extract_pending line hfree hlong
    { state g 5 (pending line) with identity := some file.identity } rfl
  have hmeta : file.metadata = .ok 0 := rfl
  have hinit : (!(state g 5 (pending line)).initialized) = false := rfl
  have hreads : file.reads = [] := rfl
  have hbudget : budget.records = 8 := rfl
  unfold readFile
  dsimp only
  rw [hmeta]
  dsimp only
  rw [hinit, if_neg Bool.false_ne_true, hboundary]
  unfold readLines
  dsimp only
  rw [hbudget, hreads]
  generalize extractCompleteLines decode { state g 5 (pending line) with identity := some file.identity } 8 {} = r
    at hextract ⊢
  obtain ⟨s', outcome⟩ := r
  dsimp only at hextract ⊢
  have hroom : ¬ outcome.lines.length ≥ 8 := by
    rw [hextract.1]
    exact (by decide : ¬ 2 ≥ 8)
  have hseek : (!file.seek s'.offset) = false := rfl
  rw [if_neg hroom, hseek, if_neg Bool.false_ne_true]
  unfold readLoop
  dsimp only
  rw [hextract.1, hextract.2]
  exact ⟨rfl, rfl⟩

/-- A line over the limit. -/
def long : List UInt8 := List.replicate (maxLineBytes + 1) 98

theorem notMem_long : newline ∉ long := fun h => absurd (List.eq_of_mem_replicate h) (by decide)

theorem lineContent_long : (lineContent long).length > maxLineBytes := by
  have hlast : long.getLast? ≠ some carriageReturn := fun h =>
    absurd (List.eq_of_mem_replicate (List.mem_of_getLast? h)) (by decide)
  rw [lineContent, if_neg hlast, long, List.length_replicate]
  exact Nat.lt_succ_self _

/-- The items of the read. -/
def items : List (Delivery (LogSource × List UInt8)) :=
  [.record ⟨⟨['c'], 3, 5⟩, (source, [97])⟩, .gap ⟨source, 4, .oversizedRecord⟩, .record ⟨⟨['c'], 4, 0⟩, (source, [99])⟩]

end Saturated

theorem work_item_in_file_order_gap_between :
    (processWorkItem Saturated.parsers Saturated.decode
        (Saturated.tailer (Saturated.state 3 5 (Saturated.pending Saturated.long))) ⟨(), .init .mvpV1⟩
        (fun _ => .opened Saturated.file) ['p'] false Saturated.budget 0).2.1 =
      Saturated.items.foldl (LogPipeline.deliver Saturated.parsers 0) ⟨(), .init .mvpV1⟩ ∧
    TakesLive Saturated.parsers 0 ⟨(), .init .mvpV1⟩ Saturated.items := by
  obtain ⟨line, heq, hfree, hlong⟩ : ∃ line, Saturated.long = line ∧ newline ∉ line ∧
      (lineContent line).length > maxLineBytes := ⟨_, rfl, Saturated.notMem_long, Saturated.lineContent_long⟩
  rw [heq]
  obtain ⟨hlines, hgaps⟩ := Saturated.read_pending hfree hlong 3
  obtain ⟨s', outcome, hread⟩ : ∃ s' outcome, readFile Saturated.decode (Saturated.state 3 5 (Saturated.pending line))
      Saturated.budget (.opened Saturated.file) = (s', outcome) := ⟨_, _, rfl⟩
  rw [hread] at hlines hgaps
  have hitems : deliveries outcome.gaps outcome.lines = Saturated.items := by
    rw [hlines, hgaps]
    rfl
  have horder := work_item_in_file_order Saturated.parsers (fun _ _ => rfl)
    (Saturated.tailer (Saturated.state 3 5 (Saturated.pending line))) ⟨(), .init .mvpV1⟩
    (fun _ => .opened Saturated.file) ['p'] false Saturated.budget 0 (Saturated.tracked _) hread (by
      rw [hlines, hgaps]
      exact (by decide : Room 3 5 2 1))
  dsimp only at horder
  rw [hitems] at horder
  refine ⟨horder.2.1.trans ?_, horder.2.2.2⟩
  cases outcome.stableEof <;> rfl

/-- With the last generation in use a gap does not advance it, and a record before the gap is handed over after it. -/
theorem work_item_out_of_order : ¬ ∀ (s : FileState) (budget : ReadBudget) (opened : OpenResult),
    InFileOrder s (readFile Saturated.decode s budget opened).1 (readFile Saturated.decode s budget opened).2
      (deliveries (readFile Saturated.decode s budget opened).2.gaps (readFile Saturated.decode s budget opened).2.lines) := by
  intro hall
  obtain ⟨line, hfree, hlong⟩ : ∃ line, newline ∉ line ∧ (lineContent line).length > maxLineBytes :=
    ⟨Saturated.long, Saturated.notMem_long, Saturated.lineContent_long⟩
  obtain ⟨-, -, hissues, -⟩ :=
    hall (Saturated.state counterLimit 5 (Saturated.pending line)) Saturated.budget (.opened Saturated.file)
  obtain ⟨hlines, hgaps⟩ := Saturated.read_pending hfree hlong counterLimit
  have hlimit : increment counterLimit = counterLimit := by decide
  rw [hlines, hgaps, hlimit] at hissues
  generalize (readFile Saturated.decode _ _ _).1 = s' at hissues
  obtain ⟨-, -, hid, -⟩ : Issues Saturated.source counterLimit 5
    [.gap ⟨Saturated.source, counterLimit, .oversizedRecord⟩, .record ⟨⟨['c'], counterLimit, 5⟩, (Saturated.source, [97])⟩,
      .record ⟨⟨['c'], counterLimit, 0⟩, (Saturated.source, [99])⟩] s'.generation s'.nextSequence := hissues
  have hsequence := congrArg SourceRecordId.sequence hid
  cases hsequence

end Stonemite.Tailer
