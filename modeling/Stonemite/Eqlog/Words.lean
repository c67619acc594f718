import Stonemite.Eqlog.CombatParser

/-!
# The words of a melee action

An attacker, a verb and a defender with spaces between them are told apart at the first word that is a melee verb.
-/

namespace Stonemite

namespace Str

variable {s t word : Str} {c : Char}

theorem wordsFrom_append (hc : isWhitespace c = true) :
    wordsFrom word (s ++ c :: t) = wordsFrom word s ++ splitWhitespace t := by
  induction s generalizing word with
  | nil =>
    rw [List.nil_append, splitWhitespace, wordsFrom.eq_2, if_pos hc, wordsFrom.eq_1]
  | cons d s ih =>
    rw [List.cons_append, wordsFrom, wordsFrom]
    split_ifs
    · rw [ih, List.append_assoc]
    · rw [ih, List.append_assoc]
    · exact ih

theorem splitWhitespace_append (hc : isWhitespace c = true) :
    splitWhitespace (s ++ c :: t) = splitWhitespace s ++ splitWhitespace t := wordsFrom_append hc

theorem wordsFrom_of_all (hne : word ++ s ≠ []) (h : ∀ c ∈ s, isWhitespace c = false) : wordsFrom word s = [word ++ s] := by
  induction s generalizing word with
  | nil => rw [wordsFrom, if_neg (by simpa using hne), List.append_nil]
  | cons c s ih =>
    rw [wordsFrom, if_neg (by rw [h c List.mem_cons_self]; decide), ih (by simp) fun d hd => h d (List.mem_cons_of_mem _ hd)]
    simp

theorem length_wordsFrom_pos (h : word ≠ []) (s : Str) : 0 < (wordsFrom word s).length := by
  induction s generalizing word with
  | nil => simp [wordsFrom, h]
  | cons c s ih =>
    rw [wordsFrom]
    split_ifs with hc hempty
    · exact absurd (List.isEmpty_iff.mp hempty) h
    · simp
    · exact ih (by simp)

theorem splitWhitespace_ne_nil (hne : s ≠ []) (h : s.Trimmed) : splitWhitespace s ≠ [] := by
  cases s with
  | nil => exact absurd rfl hne
  | cons c s =>
    have hpos := length_wordsFrom_pos (List.cons_ne_nil c []) s
    rw [splitWhitespace, wordsFrom, if_neg (by rw [h.1 c rfl]; decide)]
    exact List.ne_nil_of_length_pos hpos

theorem trim_cons (hc : isWhitespace c = true) (s : Str) : trim (c :: s) = trim s := by
  rw [trim, List.dropWhile_cons_of_pos hc]
  rfl

theorem trim_append_singleton (hc : isWhitespace c = true) (h : s.Trimmed) : trim (s ++ [c]) = s := by
  have hstart : (s ++ [c]).dropWhile isWhitespace = s ++ [c] ∨ s = [] := by
    cases s with
    | nil => exact .inr rfl
    | cons d s => exact .inl (dropWhile_of_head fun e he => h.1 e he)
  rcases hstart with hstart | rfl
  · have hend := (trimEndMatches_append_singleton hc s).trans (trimEndMatches_of_getLast h.2)
    rw [trim, hstart]
    exact hend
  · rw [List.nil_append, trim_cons hc]
    rfl

end Str

namespace Eqlog

open Str

variable {index base offset : Nat} {word s t attacker verb defender : Str} {c : Char}

/-- The loop passes the words that come before the one it looks for; a word that has started counts. -/
theorem nthWordStartLoop_append (hc : isWhitespace c = true) (h : base + (wordsFrom word s).length ≤ index) :
    nthWordStartLoop index (!word.isEmpty) (base + if word.isEmpty then 0 else 1) offset (s ++ c :: t) =
      nthWordStartLoop index false (base + (wordsFrom word s).length) (offset + s.length + 1) t := by
  induction s generalizing word base offset with
  | nil =>
    rw [List.nil_append, nthWordStartLoop, if_pos hc, wordsFrom]
    cases word <;> rfl
  | cons d s ih =>
    have hlength : offset + (d :: s).length + 1 = offset + 1 + s.length + 1 := by
      rw [List.length_cons]
      omega
    rw [hlength, List.cons_append, nthWordStartLoop]
    by_cases hd : isWhitespace d = true
    · have hwords : (wordsFrom word (d :: s)).length = (if word.isEmpty then 0 else 1) + (wordsFrom [] s).length := by
        rw [wordsFrom, if_pos hd, List.length_append]
        cases word <;> rfl
      rw [hwords, ← Nat.add_assoc] at h
      rw [if_pos hd, hwords, ← Nat.add_assoc]
      exact ih h
    · have hwords : wordsFrom word (d :: s) = wordsFrom (word ++ [d]) s := by rw [wordsFrom, if_neg hd]
      have hnext := @ih base (offset + 1) (word ++ [d])
      rw [hwords] at h ⊢
      rw [if_neg hd]
      rw [if_neg (by simp), show (!(word ++ [d]).isEmpty) = true by simp] at hnext
      cases word with
      | cons e word => exact hnext h
      | nil =>
        have hpos := length_wordsFrom_pos (List.cons_ne_nil d []) s
        rw [List.nil_append] at h hnext ⊢
        have hne : base ≠ index := by omega
        simp only [List.isEmpty_nil, if_true, Nat.add_zero, Bool.not_true, Bool.false_eq_true, if_false, hne]
        exact hnext h

theorem nthWordStart_append (hc : isWhitespace c = true) {d : Char} (hd : isWhitespace d = false) (s t : Str) :
    nthWordStart (s ++ c :: d :: t) (splitWhitespace s).length = some (s.length + 1) := by
  have hloop := @nthWordStartLoop_append (splitWhitespace s).length 0 0 [] s (d :: t) c hc (by rw [Nat.zero_add]; rfl)
  rw [nthWordStart]
  refine hloop.trans ?_
  rw [nthWordStartLoop, hd, Nat.zero_add]
  simp [splitWhitespace]

theorem meleeVerbs_plain (h : verb ∈ meleeVerbs) : verb ≠ [] ∧ ∀ c ∈ verb, isWhitespace c = false := by
  have hall : meleeVerbs.all (fun verb => !verb.isEmpty && verb.all fun c => !isWhitespace c) = true := by decide
  simpa using List.all_eq_true.mp hall verb h

section
variable (attacker verb defender)

/-- The action of an attacker, a verb and what follows it. -/
def action : Str := attacker ++ ' ' :: (verb ++ ' ' :: defender)

theorem splitWhitespace_action (hverb : verb ∈ meleeVerbs) : (action attacker verb defender).splitWhitespace =
    attacker.splitWhitespace ++ verb :: defender.splitWhitespace := by
  obtain ⟨hverb', hplain⟩ := meleeVerbs_plain hverb
  have hspace : isWhitespace ' ' = true := by decide
  have hword : verb.splitWhitespace = [verb] := @wordsFrom_of_all verb [] hverb' hplain
  rw [action, splitWhitespace_append hspace, splitWhitespace_append hspace, hword, List.singleton_append]

theorem drop_action : (action attacker verb defender).drop (attacker.length + 1) = verb ++ ' ' :: defender := by
  rw [action, List.append_cons, List.drop_left' (by rw [List.length_append, List.length_singleton])]

theorem nthWordStart_action (hverb : verb ∈ meleeVerbs) :
    nthWordStart (action attacker verb defender) attacker.splitWhitespace.length = some (attacker.length + 1) := by
  obtain ⟨hverb', hplain⟩ := meleeVerbs_plain hverb
  cases verb with
  | nil => exact absurd rfl hverb'
  | cons d verb => exact nthWordStart_append (by decide) (hplain d List.mem_cons_self) attacker (verb ++ ' ' :: defender)

theorem nthWordEnd_action (hverb : verb ∈ meleeVerbs) :
    nthWordEnd (action attacker verb defender) (attacker.splitWhitespace.length + 1) =
      some (attacker.length + 1 + verb.length) := by
  have hfind : (verb ++ ' ' :: defender).findIdx? isWhitespace = some verb.length := by
    have hnone : verb.findIdx? isWhitespace = none := by simpa [List.findIdx?_eq_none_iff] using (meleeVerbs_plain hverb).2
    rw [List.findIdx?_append, hnone, List.findIdx?_cons, if_pos (by decide)]
    simp
  rw [nthWordEnd, if_neg (Nat.succ_ne_zero _), Nat.add_sub_cancel, nthWordStart_action _ _ _ hverb, Option.map_some,
    drop_action, hfind]
  rfl

end

/-- The parts of an action whose attacker has no melee verb among its words. -/
theorem splitMeleeAction_action (hattacker : attacker.Trimmed) (hne : attacker ≠ [])
    (hwords : ∀ word ∈ attacker.splitWhitespace, word ∉ meleeVerbs) (hverb : verb ∈ meleeVerbs)
    (hdefender : defender.Trimmed) (hdefender' : defender ≠ []) (htarget : meleeTarget verb defender ≠ []) :
    splitMeleeAction (action attacker verb defender) = some (attacker, verb, meleeTarget verb defender) := by
  have hspace : isWhitespace ' ' = true := by decide
  have hplain := (meleeVerbs_plain hverb).2
  have hindex : (attacker.splitWhitespace ++ verb :: defender.splitWhitespace).findIdx? (fun word => meleeVerbs.contains word) =
      some attacker.splitWhitespace.length := by
    have hnone : attacker.splitWhitespace.findIdx? (fun word => meleeVerbs.contains word) = none := by
      rw [List.findIdx?_eq_none_iff]
      exact fun word hw => by simpa using hwords word hw
    rw [List.findIdx?_append, hnone, List.findIdx?_cons, if_pos (by simpa using hverb)]
    simp
  have hbounds : ¬ ((attacker.splitWhitespace.length = 0 ||
      (attacker.splitWhitespace ++ verb :: defender.splitWhitespace).length ≤ attacker.splitWhitespace.length + 1) = true) := by
    have h1 := List.length_pos_iff.mpr (splitWhitespace_ne_nil hne hattacker)
    have h2 := List.length_pos_iff.mpr (splitWhitespace_ne_nil hdefender' hdefender)
    rw [List.length_append, List.length_cons, Bool.or_eq_true, decide_eq_true_iff, decide_eq_true_iff]
    omega
  have htake : trim ((action attacker verb defender).take (attacker.length + 1)) = attacker := by
    rw [action, List.append_cons, List.take_left' (by rw [List.length_append, List.length_singleton]),
      trim_append_singleton hspace hattacker]
  have hverbText : trim (((action attacker verb defender).take (attacker.length + 1 + verb.length)).drop
      (attacker.length + 1)) = verb := by
    rw [← List.take_drop, drop_action, List.take_left, trim_of_trimmed]
    exact ⟨fun c hc => hplain c (List.mem_of_head? hc), fun c hc => hplain c (List.mem_of_getLast? hc)⟩
  have hrest : trim ((action attacker verb defender).drop (attacker.length + 1 + verb.length)) = defender := by
    rw [← List.drop_drop, drop_action, List.drop_left, trim_cons hspace, trim_of_trimmed hdefender]
  rw [splitMeleeAction, splitWhitespace_action _ _ _ hverb]
  dsimp only
  rw [hindex, Option.bind_some, if_neg hbounds, nthWordStart_action _ _ _ hverb, Option.bind_some,
    nthWordEnd_action _ _ _ hverb, Option.bind_some, htake, hverbText, hrest, if_neg]
  simp [hne, htarget]

end Eqlog

end Stonemite
