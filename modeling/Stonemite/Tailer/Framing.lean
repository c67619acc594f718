import Stonemite.Tailer.Extract
import Stonemite.Lib.Run

/-!
# Framing of an append-only file

`Framed`: what was emitted and the complete lines still pending are together the records of the bytes
read. A read keeps it wherever it ends, except between the carriage return and the newline of a line of
exactly the limit: there the pending bytes are over the limit before the carriage return is known to be
one.
-/

namespace Stonemite.Tailer

open Stonemite.Combat

/-- A file that only grows: all it will ever hold, and the end it had when its tail began. -/
structure Log where
  content : List UInt8
  identity : FileIdentity
  start : Nat

namespace Log

/-- The bytes after the start, up to `offset`. -/
def read (log : Log) (offset : Nat) : List UInt8 := (log.content.drop log.start).take (offset - log.start)

/-- A line whose content has exactly the limit is split at `offset` into its carriage return and its
newline. The line that the start is in does not count. -/
def SplitsLimit (log : Log) (skip : Bool) (offset : Nat) : Prop :=
  (unfinished newline (log.read offset)).length = maxLineBytes + 1 ∧
    (unfinished newline (log.read offset)).getLast? = some carriageReturn ∧
    log.content[offset]? = some newline ∧ (skip = true → newline ∈ log.read offset)

theorem read_append {log : Log} {offset : Nat} {bytes : List UInt8} (hstart : log.start ≤ offset)
    (hbytes : bytes <+: log.content.drop offset) : log.read (offset + bytes.length) = log.read offset ++ bytes := by
  have hdrop : (log.content.drop log.start).drop (offset - log.start) = log.content.drop offset := by
    rw [List.drop_drop]
    congr 1
    omega
  have hlen : offset + bytes.length - log.start = (offset - log.start) + bytes.length := by omega
  rw [read, hlen, List.take_add, hdrop, ← List.prefix_iff_eq_take.mp hbytes]
  rfl

theorem next_byte {log : Log} {offset : Nat} {b : UInt8} {bytes : List UInt8}
    (hbytes : b :: bytes <+: log.content.drop offset) : log.content[offset]? = some b := by
  obtain ⟨rest, hrest⟩ := hbytes
  have := congrArg (·[0]?) hrest
  simpa using this.symm

end Log

/-- The records of the bytes `p` after the start; `skip` when the start is inside a line. -/
def wanted (skip : Bool) (p : List UInt8) : List (List UInt8) :=
  emittedLines ((completeLines newline p).drop (if skip then 1 else 0))

theorem wanted_append {skip : Bool} {p : List UInt8} (c : List UInt8) (h : skip = true → newline ∈ p) :
    wanted skip (p ++ c) = wanted skip p ++ emittedLines (completeLines newline (unfinished newline p ++ c)) := by
  unfold wanted
  rw [completeLines_append, ← emittedLines_append]
  congr 1
  cases skip with
  | false => rfl
  | true =>
    have hne : completeLines newline p ≠ [] := fun hnil => completeLines_eq_nil.mp hnil (h rfl)
    have hpos := List.length_pos_iff.mpr hne
    exact List.drop_append_of_le_length hpos

theorem wanted_skip {p q r : List UInt8} (hp : newline ∉ p) (hq : newline ∉ q) :
    wanted true (p ++ (q ++ newline :: r)) = emittedLines (completeLines newline r) := by
  have hpq : newline ∉ p ++ q := by simp [hp, hq]
  rw [wanted, ← List.append_assoc, completeLines_append_cons hpq]
  rfl

theorem extendSignature_suffix {signature p : List UInt8} (bytes : List UInt8) (h : signature <:+ p) :
    extendSignature signature bytes <:+ p ++ bytes := by
  unfold extendSignature
  split
  · exact (List.drop_suffix _ _).trans (List.suffix_append _ _)
  · obtain ⟨t, rfl⟩ := (List.drop_suffix (signature.length + bytes.length - signatureBytes) signature).trans h
    exact ⟨t, by rw [List.append_assoc]⟩

variable {Line : Type} {decode : LogSource → List UInt8 → DecodedRawLogLine Line}

/-- The invariant: what was given out and what is pending are the lines of the log up to the offset. -/
structure Framed (decode : LogSource → List UInt8 → DecodedRawLogLine Line) (source : LogSource) (log : Log)
    (skip : Bool) (s : FileState) (out : List Line) : Prop where
  source_eq : s.source = source
  initialized : s.initialized = true
  identity : s.identity = some log.identity
  start_le : log.start ≤ s.offset
  le_length : s.offset ≤ log.content.length
  signature : s.signature <:+ log.content.take s.offset
  lines : out ++ decoded decode source (emittedLines (completeLines newline s.pending)) =
    decoded decode source (wanted skip (log.read s.offset))
  tail : s.discardUntilNewline = false →
    unfinished newline s.pending = unfinished newline (log.read s.offset) ∧ (skip = true → newline ∈ log.read s.offset)
  discard : s.discardUntilNewline = true → s.pending = [] ∧
    (skip = true ∧ newline ∉ log.read s.offset ∨
      maxLineBytes < (unfinished newline (log.read s.offset)).length ∧ (skip = true → newline ∈ log.read s.offset))
  unsplit : ¬ log.SplitsLimit skip s.offset

namespace Framed
variable {source : LogSource} {log : Log} {skip : Bool} {s s' : FileState} {out : List Line}

/-- An extraction moves lines from the pending bytes to the output. -/
theorem left (h : Framed decode source log skip s out) {done : List (List UInt8)}
    (hsame : FileState.SameFile s s') (hleft : Left s s' done) :
    Framed decode source log skip s' (out ++ decoded decode source (emittedLines done)) := by
  have hlines := h.lines
  refine ⟨hsame.source.trans h.source_eq, hsame.initialized.trans h.initialized, hsame.identity.trans h.identity,
    ?_, ?_, ?_, ?_, ?_, ?_, ?_⟩ <;> simp only [hsame.offset, hsame.signature]
  · exact h.start_le
  · exact h.le_length
  · exact h.signature
  · cases hleft with
    | kept rest hdone hrest =>
      rw [hrest, List.append_assoc, ← decoded_append, ← emittedLines_append, ← hdone, hlines]
    | givenUp hdone hnil =>
      rw [hnil, ← hlines, hdone]
      simp [decoded]
  · intro hfalse
    cases hleft with
    | kept rest _ _ htail hdisc =>
      rw [htail]
      exact h.tail (hdisc.symm.trans hfalse)
    | givenUp _ _ _ hdisc =>
      rw [hdisc] at hfalse
      cases hfalse
  · intro htrue
    cases hleft with
    | kept rest hdone hrest htail hdisc =>
      obtain ⟨hpending, hwhy⟩ := h.discard (hdisc.symm.trans htrue)
      refine ⟨?_, hwhy⟩
      rw [hpending] at hdone htail
      obtain ⟨-, rfl⟩ := List.append_eq_nil_iff.mp hdone.symm
      rw [unfinished_of_notMem (completeLines_eq_nil.mp hrest)] at htail
      exact htail
    | givenUp _ hnil hlong _ =>
      refine ⟨hnil, .inr ?_⟩
      have hfalse : s.discardUntilNewline = false := by
        rw [Bool.eq_false_iff]
        intro hd
        rw [(h.discard hd).1] at hlong
        simp at hlong
      obtain ⟨htail, hskip⟩ := h.tail hfalse
      exact ⟨htail ▸ hlong, hskip⟩
  · exact h.unsplit

theorem append (h : Framed decode source log skip s out) {bytes : List UInt8}
    (hbytes : bytes <+: log.content.drop s.offset) (hne : bytes ≠ [])
    (hunsplit : ¬ log.SplitsLimit skip (s.offset + bytes.length)) :
    Framed decode source log skip
      (FileState.appendBytes { s with
        offset := s.offset + bytes.length, signature := extendSignature s.signature bytes } bytes) out := by
  have hread := Log.read_append h.start_le hbytes
  have hlines := h.lines
  have hsig : extendSignature s.signature bytes <:+ log.content.take (s.offset + bytes.length) := by
    rw [List.take_add, ← List.prefix_iff_eq_take.mp hbytes]
    exact extendSignature_suffix bytes h.signature
  have hle : s.offset + bytes.length ≤ log.content.length := by
    have := hbytes.length_le
    rw [List.length_drop] at this
    have := h.le_length
    omega
  have hstart : log.start ≤ s.offset + bytes.length := by
    have := h.start_le
    omega
  cases hd : s.discardUntilNewline with
  | false =>
    obtain ⟨htail, hskip⟩ := h.tail hd
    refine ⟨?_, ?_, ?_, ?_, ?_, ?_, ?_, ?_, ?_, ?_⟩ <;> simp only [FileState.appendBytes, Bool.not_false, if_true]
    · exact h.source_eq
    · exact h.initialized
    · exact h.identity
    · exact hstart
    · exact hle
    · exact hsig
    · rw [hread, wanted_append bytes hskip, decoded_append, ← hlines, List.append_assoc, completeLines_append,
        htail, emittedLines_append, decoded_append]
    · intro _
      rw [hread, unfinished_append, htail, ← unfinished_append]
      exact ⟨rfl, fun hs => by simp [hskip hs]⟩
    · intro hdisc
      cases hdisc
    · exact hunsplit
  | true =>
    obtain ⟨hpending, hwhy⟩ := h.discard hd
    rw [hpending] at hlines
    simp only [completeLines_nil, emittedLines_nil, decoded, List.map_nil, List.append_nil] at hlines
    by_cases hnl : newline ∈ bytes
    · obtain ⟨q, r, rfl, hq⟩ := List.eq_append_cons_of_mem hnl
      have hdrop : (q ++ newline :: r).drop ((q ++ newline :: r).idxOf newline + 1) = r := by
        rw [List.idxOf_append_of_notMem hq, List.idxOf_cons_self, Nat.add_zero, List.drop_append,
          List.drop_of_length_le (by omega)]
        simp
      refine ⟨?_, ?_, ?_, ?_, ?_, ?_, ?_, ?_, ?_, ?_⟩ <;>
        simp only [FileState.appendBytes, hnl, hdrop, hpending, Bool.not_true, if_false, if_true,
          List.nil_append, Bool.false_eq_true]
      · exact h.source_eq
      · exact h.initialized
      · exact h.identity
      · exact hstart
      · exact hle
      · exact hsig
      · rw [hread, hlines]
        rcases hwhy with ⟨hskip, hnone⟩ | ⟨hlong, hskip⟩
        · -- the line the start is in ends here
          subst hskip
          rw [wanted_skip hnone hq]
          have hnil : wanted true (log.read s.offset) = [] := by
            rw [wanted, completeLines_of_notMem hnone]
            rfl
          simp [hnil, decoded]
        · -- the line that was given up ends here, and is too long with what follows
          have hlast : maxLineBytes < (lineContent (unfinished newline (log.read s.offset) ++ q)).length := by
            apply length_lineContent_gt
            · rw [List.length_append]
              omega
            · intro hlen hcr
              have hq0 : q = [] := by
                rw [List.length_append] at hlen
                exact List.length_eq_zero_iff.mp (by omega)
              subst hq0
              rw [List.append_nil] at hlen hcr
              exact h.unsplit ⟨hlen, hcr, Log.next_byte hbytes, hskip⟩
          have hfree : newline ∉ unfinished newline (log.read s.offset) ++ q := by
            simp [notMem_unfinished, hq]
          rw [wanted_append _ hskip, ← List.append_assoc, completeLines_append_cons hfree,
            emittedLines_cons_of_gt hlast]
          simp [decoded]
      · intro _
        rw [hread]
        refine ⟨?_, fun _ => by simp⟩
        have hfree : newline ∉ unfinished newline (log.read s.offset) ++ q := by
          simp [notMem_unfinished, hq]
        rw [unfinished_append, ← List.append_assoc, unfinished_append_cons hfree]
      · intro hdisc
        cases hdisc
      · exact hunsplit
    · have hfree : newline ∉ unfinished newline (log.read s.offset) ++ bytes := by
        simp [notMem_unfinished, hnl]
      have hsame : wanted skip (log.read s.offset ++ bytes) = wanted skip (log.read s.offset) := by
        rw [wanted, completeLines_append, completeLines_of_notMem hfree, List.append_nil]
        rfl
      refine ⟨?_, ?_, ?_, ?_, ?_, ?_, ?_, ?_, ?_, ?_⟩ <;>
        simp only [FileState.appendBytes, hnl, hpending, Bool.not_true, if_false, Bool.false_eq_true]
      · exact h.source_eq
      · exact h.initialized
      · exact h.identity
      · exact hstart
      · exact hle
      · exact hsig
      · rw [hread, hsame, hlines]
        simp [decoded]
      · intro hdisc
        cases hdisc
      · intro _
        rw [hread]
        refine ⟨trivial, ?_⟩
        rcases hwhy with ⟨hskip, hnone⟩ | ⟨hlong, hskip⟩
        · exact .inl ⟨hskip, by simp [hnone, hnl]⟩
        · refine .inr ⟨?_, fun hs => by simp [hskip hs]⟩
          rw [unfinished_append, unfinished_of_notMem hfree, List.length_append]
          omega
      · exact hunsplit

end Framed

end Stonemite.Tailer
