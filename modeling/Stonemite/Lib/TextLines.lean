import Stonemite.Lib.Lines
import Stonemite.Lib.Text

/-!
# The lines of a text and of its bytes

`textLines nl cr l` are the lines of `l`: the pieces that `nl` ends, each without one `cr` before it, and the rest that is not
empty. Encoding each character by itself, with `nl` and `cr` recognizable, keeps the lines; UTF-8 is such an encoding.
-/

namespace Stonemite

variable {α β : Type} [DecidableEq α] [DecidableEq β]

/-- A line without the `cr` at its end. -/
def stripReturn (cr : α) (line : List α) : List α := if line.getLast? = some cr then line.dropLast else line

/-- The lines of a text, the last one with or without its end. -/
def textLines (nl cr : α) (l : List α) : List (List α) :=
  (completeLines nl l).map (stripReturn cr) ++ if (unfinished nl l).isEmpty then [] else [unfinished nl l]

variable {nl cr : α} {nl' cr' : β} {l p : List α}

theorem stripReturn_concat (cr : α) (line : List α) : stripReturn cr (line ++ [cr]) = line := by
  simp [stripReturn]

theorem stripReturn_sublist (cr : α) (line : List α) : (stripReturn cr line).Sublist line := by
  unfold stripReturn
  split
  · exact List.dropLast_sublist line
  · exact List.Sublist.refl line

theorem eq_stripReturn (cr : α) (line : List α) :
    line = stripReturn cr line ∨ line = stripReturn cr line ++ [cr] := by
  unfold stripReturn
  by_cases h : line.getLast? = some cr
  · rw [if_pos h]
    have hne : line ≠ [] := by
      rintro rfl
      cases h
    have hlast : line.getLast hne = cr := Option.some.inj ((List.getLast?_eq_some_getLast hne).symm.trans h)
    exact .inr ((List.dropLast_append_getLast hne).symm.trans (by rw [hlast]))
  · rw [if_neg h]
    exact .inl rfl

@[simp] theorem textLines_nil (nl cr : α) : textLines nl cr [] = [] := rfl

theorem textLines_of_notMem (h : nl ∉ l) : textLines nl cr l = if l.isEmpty then [] else [l] := by
  rw [textLines, completeLines_of_notMem h, unfinished_of_notMem h]
  rfl

theorem textLines_append_cons (h : nl ∉ p) (l : List α) :
    textLines nl cr (p ++ nl :: l) = stripReturn cr p :: textLines nl cr l := by
  rw [textLines, completeLines_append_cons h, unfinished_append_cons h]
  rfl

theorem notMem_of_mem_textLines {line : List α} (h : line ∈ textLines nl cr l) : nl ∉ line := by
  induction l using lines_induction nl with
  | last l hl =>
    rw [textLines_of_notMem hl] at h
    cases hl' : l.isEmpty with
    | true => simp [hl'] at h
    | false =>
      rw [hl', if_neg Bool.false_ne_true, List.mem_singleton] at h
      exact h ▸ hl
  | line p l hp ih =>
    rw [textLines_append_cons hp, List.mem_cons] at h
    rcases h with rfl | h
    · exact fun hmem => hp ((stripReturn_sublist cr p).subset hmem)
    · exact ih h

/-- Lines that are joined by `cr` and `nl` are the lines of what they are joined to, but for a last one that is empty. -/
theorem textLines_intercalate {xs : List (List α)} {last : List α} (hcr : nl ≠ cr) (hxs : ∀ x ∈ xs, nl ∉ x)
    (hlast : nl ∉ last) :
    textLines nl cr (List.intercalate [cr, nl] (xs ++ [last])) = xs ++ if last.isEmpty then [] else [last] := by
  induction xs with
  | nil => simpa using textLines_of_notMem hlast
  | cons x xs ih =>
    have hx : nl ∉ x ++ [cr] := by
      simp only [List.mem_append, List.mem_singleton, not_or]
      exact ⟨hxs x List.mem_cons_self, hcr⟩
    have hjoin : List.intercalate [cr, nl] (x :: xs ++ [last]) =
        (x ++ [cr]) ++ nl :: List.intercalate [cr, nl] (xs ++ [last]) := by
      cases xs <;> simp [List.intercalate]
    rw [hjoin, textLines_append_cons hx, stripReturn_concat, ih fun y hy => hxs y (List.mem_cons_of_mem _ hy)]
    rfl

/-! ### Encodings -/

/-- What each character is encoded to shows the ends of lines. -/
structure KeepsLines (nl cr : α) (nl' cr' : β) (encode : α → List β) : Prop where
  newline : encode nl = [nl']
  carriage : encode cr = [cr']
  nonempty : ∀ a, encode a ≠ []
  of_newline : ∀ a, nl' ∈ encode a → a = nl
  of_return : ∀ a, cr' ∈ encode a → a = cr

namespace KeepsLines
variable {encode : α → List β} (h : KeepsLines nl cr nl' cr' encode)
include h

omit [DecidableEq α] [DecidableEq β] in
theorem notMem (hl : nl ∉ l) : nl' ∉ l.flatMap encode := by
  intro hmem
  obtain ⟨a, ha, hmem⟩ := List.mem_flatMap.mp hmem
  exact hl (h.of_newline a hmem ▸ ha)

omit [DecidableEq α] [DecidableEq β] in
theorem flatMap_eq_nil (hl : l.flatMap encode = []) : l = [] :=
  List.eq_nil_iff_forall_not_mem.mpr fun a ha => h.nonempty a (List.flatMap_eq_nil_iff.mp hl a ha)

theorem stripReturn_flatMap (l : List α) : stripReturn cr' (l.flatMap encode) = (stripReturn cr l).flatMap encode := by
  rcases List.eq_nil_or_concat l with rfl | ⟨front, a, rfl⟩
  · rfl
  · by_cases ha : a = cr
    · subst ha
      rw [List.concat_eq_append, stripReturn_concat, List.flatMap_append, List.flatMap_singleton, h.carriage,
        stripReturn_concat]
    · have hlast : ¬((front ++ [a]).getLast? = some cr) := by simpa using ha
      have hlast' : ¬((front.flatMap encode ++ encode a).getLast? = some cr') := by
        intro hcr
        rw [List.getLast?_append_of_ne_nil _ (h.nonempty a)] at hcr
        exact ha (h.of_return a (List.mem_of_getLast? hcr))
      rw [List.concat_eq_append, List.flatMap_append, List.flatMap_singleton, stripReturn, stripReturn, if_neg hlast,
        if_neg hlast', List.flatMap_append, List.flatMap_singleton]

theorem textLines_flatMap (l : List α) :
    textLines nl' cr' (l.flatMap encode) = (textLines nl cr l).map (·.flatMap encode) := by
  induction l using lines_induction nl with
  | last l hl =>
    rw [textLines_of_notMem hl, textLines_of_notMem (h.notMem hl)]
    by_cases hnil : l = []
    · subst hnil
      rfl
    · have hnil' : l.flatMap encode ≠ [] := fun heq => hnil (h.flatMap_eq_nil heq)
      simp [hnil, List.isEmpty_iff, hnil']
  | line p l hp ih =>
    rw [textLines_append_cons hp, List.flatMap_append, List.flatMap_cons, h.newline, List.singleton_append,
      textLines_append_cons (h.notMem hp), ih, h.stripReturn_flatMap]
    rfl

omit [DecidableEq α] in
/-- Bytes whose lines are all encoded texts are an encoded text. -/
theorem exists_flatMap {m : List β} (hm : ∀ line ∈ textLines nl' cr' m, ∃ l, line = List.flatMap encode l) :
    ∃ l, m = List.flatMap encode l := by
  induction m using lines_induction nl' with
  | last m hnl =>
    rw [textLines_of_notMem hnl] at hm
    cases m with
    | nil => exact ⟨[], rfl⟩
    | cons b m => exact hm _ List.mem_cons_self
  | line q m hq ih =>
    rw [textLines_append_cons hq] at hm
    obtain ⟨l, rfl⟩ := ih fun line hline => hm line (List.mem_cons_of_mem _ hline)
    obtain ⟨p, hp⟩ := hm _ List.mem_cons_self
    rcases eq_stripReturn cr' q with hstrip | hstrip
    · refine ⟨p ++ nl :: l, ?_⟩
      rw [hstrip, hp, List.flatMap_append, List.flatMap_cons, h.newline]
      rfl
    · refine ⟨p ++ cr :: nl :: l, ?_⟩
      rw [hstrip, hp, List.flatMap_append, List.flatMap_cons, List.flatMap_cons, h.newline, h.carriage, List.append_assoc]
      rfl

end KeepsLines

/-! ### UTF-8 -/

namespace Str

/-- The text of bytes that are UTF-8. -/
def ofBytes (bytes : List UInt8) : Option Str := bytes.toByteArray.utf8Decode?.map Array.toList

@[simp] theorem ofBytes_bytes (s : Str) : ofBytes s.bytes = some s := by
  have h : s.bytes.toByteArray = List.utf8Encode s := rfl
  rw [ofBytes, h, List.utf8Decode?_utf8Encode]
  rfl

theorem bytes_of_ofBytes {bytes : List UInt8} {s : Str} (h : ofBytes bytes = some s) : bytes = s.bytes := by
  obtain ⟨array, harray, rfl⟩ := Option.map_eq_some_iff.mp h
  have hsome : bytes.toByteArray.utf8Decode?.isSome := by rw [harray]; rfl
  have hget : bytes.toByteArray.utf8Decode?.get hsome = array := by simp [harray]
  have hencode : List.utf8Encode array.toList = bytes.toByteArray := by
    rw [← hget]
    exact ByteArray.utf8Encode_get_utf8Decode?
  have hlist := congrArg (fun b : ByteArray => b.data.toList) hencode
  simpa [List.utf8Encode, Str.bytes] using hlist.symm

/-- A byte under 128 is only in the encoding of its own character. -/
theorem toNat_of_mem_utf8EncodeChar {c : Char} {b : UInt8} (hb : b.toNat < 128) (h : b ∈ String.utf8EncodeChar c) :
    c.toNat = b.toNat := by
  unfold String.utf8EncodeChar at h
  dsimp only at h
  split at h
  · rename_i hle
    rw [List.mem_singleton] at h
    have hb' : b.toNat = c.val.toNat % 256 := by rw [h]; simp
    show c.val.toNat = b.toNat
    omega
  · exfalso
    have hhigh : ∀ x, x < 256 → 128 ≤ x → b ≠ UInt8.ofNat x := by
      rintro x hx hx' rfl
      have hx'' : (UInt8.ofNat x).toNat = x % 256 := by simp
      omega
    split at h
    · simp only [List.mem_cons, List.not_mem_nil, or_false] at h
      rcases h with h | h <;> exact hhigh _ (by omega) (by omega) h
    · split at h <;> simp only [List.mem_cons, List.not_mem_nil, or_false] at h
      · rcases h with h | h | h <;> exact hhigh _ (by omega) (by omega) h
      · rcases h with h | h | h | h <;> exact hhigh _ (by omega) (by omega) h

theorem utf8_keepsLines : KeepsLines '\n' '\r' 10 13 String.utf8EncodeChar where
  newline := by decide
  carriage := by decide
  nonempty _ := String.utf8EncodeChar_ne_nil
  of_newline _ h := Char.toNat_inj.mp (toNat_of_mem_utf8EncodeChar (by decide) h)
  of_return _ h := Char.toNat_inj.mp (toNat_of_mem_utf8EncodeChar (by decide) h)

end Str

end Stonemite
