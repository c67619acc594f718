import Stonemite.Eqlog.Names

/-!
# What trimming leaves of a longer text

A name that is observed in a text is a part of it, and what is around it is white space and signs that end a name.
-/

namespace Stonemite

namespace Str

theorem trimEndMatches_append (p : Char → Bool) (s : Str) : ∃ suf, s = trimEndMatches p s ++ suf ∧ ∀ c ∈ suf, p c = true := by
  refine ⟨(s.reverse.takeWhile p).reverse, ?_, fun c hc => ?_⟩
  · rw [trimEndMatches, ← List.reverse_append, List.takeWhile_append_dropWhile, List.reverse_reverse]
  · exact List.mem_takeWhile_imp (List.mem_reverse.mp hc)

theorem trim_append (s : Str) : ∃ pre suf, s = pre ++ s.trim ++ suf ∧ (∀ c ∈ pre, isWhitespace c = true) ∧
    ∀ c ∈ suf, isWhitespace c = true := by
  obtain ⟨suf, hsuf, hspace⟩ := trimEndMatches_append isWhitespace (s.dropWhile isWhitespace)
  refine ⟨s.takeWhile isWhitespace, suf, ?_, fun c hc => List.mem_takeWhile_imp hc, hspace⟩
  have htrim : s.trim = trimEndMatches isWhitespace (s.dropWhile isWhitespace) := rfl
  rw [List.append_assoc, htrim, ← hsuf, List.takeWhile_append_dropWhile]

theorem trim_part (s : Str) : s.trim <:+: s := by
  obtain ⟨pre, suf, h, -⟩ := trim_append s
  exact ⟨pre, suf, h.symm⟩

end Str

namespace Eqlog

open Str

variable {name text v : Str} {combatant : ObservedCombatant} {owner : Option ObservedCombatant} {c : Char}

/-- A character that stays in a name wherever it is. -/
def isNameChar (c : Char) : Bool := !isWhitespace c && !isNameEnd c

theorem observed_append (h : observed text = some combatant) : ∃ pre suf, text = pre ++ combatant.name ++ suf ∧
    (∀ c ∈ pre, isWhitespace c = true) ∧ (∀ c ∈ suf, isNameChar c = false) ∧ combatant.name ≠ [] ∧
      ∀ c, combatant.name.head? = some c → isWhitespace c = false := by
  rw [observed] at h
  split_ifs at h with hempty
  cases h
  obtain ⟨pre, suf, htrim, hpre, hsuf⟩ := trim_append text
  obtain ⟨marks, hmarks, hend⟩ := trimEndMatches_append isNameEnd text.trim
  obtain ⟨hne, -⟩ : trimEndMatches isNameEnd text.trim ≠ [] ∧ '\ufffd' ∉ trimEndMatches isNameEnd text.trim := by
    simpa using hempty
  refine ⟨pre, marks ++ suf, ?_, hpre, fun c hc => ?_, hne, fun c hc => ?_⟩
  · rw [← List.append_assoc, List.append_assoc pre, ← hmarks]
    exact htrim
  · rcases List.mem_append.mp hc with hc | hc
    · simp [isNameChar, hend c hc]
    · simp [isNameChar, hsuf c hc]
  · refine (trimmed_trim text).1 c ?_
    rw [hmarks, List.head?_append_of_ne_nil _ hne]
    exact hc

theorem prefix_nil_of_append {pre suf rest : Str} (h : name ++ rest = pre ++ suf) (hne : name ≠ [])
    (hhead : ∀ c, name.head? = some c → isWhitespace c = false) (hpre : ∀ c ∈ pre, isWhitespace c = true) : pre = [] := by
  cases pre with
  | nil => rfl
  | cons d pre =>
    cases name with
    | nil => exact absurd rfl hne
    | cons c name =>
      have hspace := hpre d List.mem_cons_self
      rw [← (List.cons.inj h).1, hhead c rfl] at hspace
      cases hspace

theorem observed_longer (hc : isNameChar c = true) (h : observed (name ++ ' ' :: c :: v) = some combatant) :
    combatant.name ≠ name := by
  rintro rfl
  obtain ⟨pre, suf, htext, hpre, hsuf, hne, hhead⟩ := observed_append h
  rw [List.append_assoc] at htext
  have hnil := prefix_nil_of_append htext hne hhead hpre
  rw [hnil, List.nil_append] at htext
  have hsame := List.append_cancel_left htext
  have hchar := hsuf c (by rw [← hsame]; simp)
  rw [hc] at hchar
  cases hchar

/-- The combatant is observed in a part of the text, which ends with the text or before its owner. -/
theorem observedWithOwner_part (h : observedWithOwner text = some (combatant, owner)) :
    ∃ part pre rest suf, text = pre ++ part ++ rest ++ suf ∧ (∀ c ∈ pre, isWhitespace c = true) ∧
      (∀ c ∈ suf, isWhitespace c = true) ∧ observed part = some combatant ∧
        (rest = [] ∨ ∃ tail, rest = " (Owner: ".toList ++ tail) := by
  obtain ⟨pre, suf, htrim, hpre, hsuf⟩ := trim_append text
  rw [observedWithOwner] at h
  cases hsplit : (text.trim.stripSuffix [')']).bind fun value => value.rsplitOnceStr " (Owner: ".toList with
  | none =>
    rw [hsplit] at h
    obtain ⟨found, hfound, heq⟩ := Option.map_eq_some_iff.mp h
    cases heq
    exact ⟨text.trim, pre, [], suf, by rw [List.append_nil]; exact htrim, hpre, hsuf, hfound, .inl rfl⟩
  | some parts =>
    obtain ⟨pet, ownerText⟩ := parts
    rw [hsplit] at h
    obtain ⟨found, hfound, heq⟩ := Option.map_eq_some_iff.mp h
    cases heq
    obtain ⟨value, hvalue, hparts⟩ := Option.bind_eq_some_iff.mp hsplit
    rw [stripSuffix_eq_some] at hvalue
    obtain ⟨heq, -⟩ := (splitLast_eq_some_iff (by decide)).mp hparts
    refine ⟨pet, pre, " (Owner: ".toList ++ (ownerText ++ [')']), suf, ?_, hpre, hsuf, hfound, .inr ⟨_, rfl⟩⟩
    rw [hvalue, heq] at htrim
    simpa using htrim

theorem observedWithOwner_length (h : observedWithOwner text = some (combatant, owner)) :
    combatant.name ≠ [] ∧ combatant.name.length ≤ text.length := by
  obtain ⟨part, pre, rest, suf, htext, -, -, hpart, -⟩ := observedWithOwner_part h
  obtain ⟨pre', suf', hpart', -, -, hne, -⟩ := observed_append hpart
  refine ⟨hne, ?_⟩
  rw [htext, hpart']
  simp only [List.length_append]
  omega

theorem observedWithOwner_longer (hc : isNameChar c = true) (hopen : c ≠ '(')
    (h : observedWithOwner (name ++ ' ' :: c :: v) = some (combatant, owner)) : combatant.name ≠ name := by
  rintro rfl
  obtain ⟨part, pre, rest, suf, htext, hpre, hsuf, hpart, hrest⟩ := observedWithOwner_part h
  obtain ⟨pre', suf', hpart', hpre', hsuf', hne, hhead⟩ := observed_append hpart
  rw [hpart'] at htext
  have htext' : combatant.name ++ ' ' :: c :: v = (pre ++ pre') ++ (combatant.name ++ (suf' ++ (rest ++ suf))) := by
    rw [htext]
    simp only [List.append_assoc]
  have hnil := prefix_nil_of_append htext' hne hhead fun d hd => (List.mem_append.mp hd).elim (hpre d) (hpre' d)
  rw [hnil, List.nil_append] at htext'
  have hsame := List.append_cancel_left htext'
  have hspace : isNameChar ' ' = false := by decide
  match suf', hsuf' with
  | [], _ =>
    rcases hrest with rfl | ⟨tail, rfl⟩
    · have hmem : c ∈ suf := by
        rw [List.nil_append, List.nil_append] at hsame
        rw [← hsame]
        simp
      have hchar : isNameChar c = false := by simp [isNameChar, hsuf c hmem]
      rw [hc] at hchar
      cases hchar
    · have howner : " (Owner: ".toList = ' ' :: '(' :: "Owner: ".toList := by decide
      rw [howner] at hsame
      cases hsame
      exact hopen rfl
  | [d], hsuf' =>
    rcases hrest with rfl | ⟨tail, rfl⟩
    · have hmem : c ∈ suf := by
        cases hsame
        simp
      have hchar : isNameChar c = false := by simp [isNameChar, hsuf c hmem]
      rw [hc] at hchar
      cases hchar
    · have howner : " (Owner: ".toList = ' ' :: "(Owner: ".toList := by decide
      rw [howner] at hsame
      cases hsame
      cases hc
  | d :: e :: suf', hsuf' =>
    cases hsame
    have hchar := hsuf' c (by simp)
    rw [hc] at hchar
    cases hchar

end Eqlog

end Stonemite
