import Stonemite.Eqlog.CombatParser

/-!
# Names and amounts

The names that are observed as they are written, and the texts that are read as an amount.
-/

namespace Stonemite

namespace Str

variable {c : Char} {s : Str}

theorem exists_split_cons (c : Char) (s : Str) : ∃ part parts, split c s = part :: parts ∧
    List.intercalate [c] (part :: parts) = s ∧ c ∉ part ∧ (c ∈ s → parts ≠ []) := by
  induction s with
  | nil => exact ⟨[], [], rfl, rfl, List.not_mem_nil, fun h => absurd h List.not_mem_nil⟩
  | cons a s ih =>
    obtain ⟨part, parts, hsplit, hjoin, hpart, hne⟩ := ih
    rw [split, hsplit]
    dsimp only
    by_cases h : a = c
    · refine ⟨[], part :: parts, if_pos h, ?_, List.not_mem_nil, fun _ => List.cons_ne_nil _ _⟩
      rw [← hjoin, h]
      simp [List.intercalate]
    · refine ⟨a :: part, parts, if_neg h, ?_, ?_, fun hmem => hne ?_⟩
      · rw [← hjoin]
        cases parts <;> simp [List.intercalate]
      · rw [List.mem_cons, not_or]
        exact ⟨Ne.symm h, hpart⟩
      · exact (List.mem_cons.mp hmem).resolve_left (Ne.symm h)

theorem mem_intercalate {d : Char} {parts : List Str} (h : d ∈ List.intercalate [c] parts) :
    d = c ∨ ∃ part ∈ parts, d ∈ part := by
  obtain ⟨part, hpart, hd⟩ := List.mem_flatten.mp h
  induction parts with
  | nil => exact absurd hpart List.not_mem_nil
  | cons first parts ih =>
    cases parts with
    | nil =>
      rw [List.intersperse_singleton, List.mem_singleton] at hpart
      exact .inr ⟨first, List.mem_cons_self, hpart ▸ hd⟩
    | cons second parts =>
      rw [List.intersperse_cons_cons] at hpart
      rcases List.mem_cons.mp hpart with rfl | hpart
      · exact .inr ⟨part, List.mem_cons_self, hd⟩
      rcases List.mem_cons.mp hpart with rfl | hpart
      · exact .inl (List.mem_singleton.mp hd)
      · rcases ih (List.mem_flatten.mpr ⟨part, hpart, hd⟩) hpart with hc | ⟨other, ho, hmem⟩
        · exact .inl hc
        · exact .inr ⟨other, List.mem_cons_of_mem _ ho, hmem⟩

end Str

namespace Eqlog

open Str

variable {s name value : Str} {n : Nat}

/-! ### Names -/

/-- A name that is trimmed, does not end in a sign that is taken off, and could be read. -/
structure PlainName (name : Str) : Prop where
  nonempty : name ≠ []
  trimmed : name.Trimmed
  unmarked : ∀ c, name.getLast? = some c → isNameEnd c = false
  readable : '\ufffd' ∉ name

theorem observed_plain (h : PlainName name) : observed name = some ⟨name, perspectiveOf name⟩ := by
  rw [observed, trim_of_trimmed h.trimmed, trimEndMatches_of_getLast h.unmarked, if_neg]
  simpa [h.nonempty] using h.readable

/-- A name is observed as it is written exactly if it is plain. -/
theorem observed_self_iff : (∃ combatant, observed name = some combatant ∧ combatant.name = name) ↔ PlainName name := by
  constructor
  · rintro ⟨combatant, h, hname⟩
    rw [observed] at h
    split_ifs at h with hempty
    cases h
    have hname' : trimEndMatches isNameEnd name.trim = name := hname
    have htrim : name.trim = name := by
      refine (trim_sublist name).antisymm ?_
      nth_rewrite 1 [← hname']
      exact trimEndMatches_sublist _ _
    rw [hname'] at hempty
    obtain ⟨hne, hread⟩ : name ≠ [] ∧ '\ufffd' ∉ name := by simpa using hempty
    refine ⟨hne, htrim ▸ trimmed_trim name, fun c hc => ?_, hread⟩
    rw [← hname'] at hc
    exact trimEndMatches_getLast hc
  · exact fun h => ⟨_, observed_plain h, rfl⟩

/-- A name with its owner, after it in parentheses. -/
def OwnerForm (name : Str) : Prop := ∃ pet owner, name = pet ++ " (Owner: ".toList ++ owner ++ [')']

theorem stripSuffix_eq_some {suf t : Str} : s.stripSuffix suf = some t ↔ s = t ++ suf := by
  rw [stripSuffix]
  split_ifs with h
  · obtain ⟨t', rfl⟩ := List.isSuffixOf_iff_suffix.mp h
    rw [List.length_append, Nat.add_sub_cancel, List.take_left]
    constructor
    · intro heq
      rw [Option.some_inj.mp heq]
    · intro heq
      rw [List.append_cancel_right heq]
  · refine iff_of_false nofun fun heq => h ?_
    rw [heq]
    exact List.isSuffixOf_iff_suffix.mpr (List.suffix_append _ _)

theorem ownerForm_split (h : ¬ OwnerForm name) :
    ((name.stripSuffix [')']).bind fun value => value.rsplitOnceStr " (Owner: ".toList) = none := by
  rw [Option.bind_eq_none_iff]
  intro value hvalue
  rw [stripSuffix_eq_some] at hvalue
  by_contra hsome
  obtain ⟨⟨pet, owner⟩, hsplit⟩ := Option.ne_none_iff_exists'.mp hsome
  obtain ⟨heq, -⟩ := (splitLast_eq_some_iff (by decide)).mp hsplit
  exact h ⟨pet, owner, by rw [hvalue, heq]⟩

theorem observedWithOwner_plain (h : PlainName name) (howner : ¬ OwnerForm name) (hpet : petOwner name = none) :
    observedWithOwner name = some (⟨name, perspectiveOf name⟩, none) := by
  rw [observedWithOwner, trim_of_trimmed h.trimmed, ownerForm_split howner, observed_plain h, hpet]
  rfl

/-! ### Amounts -/

def AllDigits (value : Str) : Prop := value ≠ [] ∧ ∀ c ∈ value, isAsciiDigit c = true

/-- Groups of three digits after one of up to three. -/
def Grouped (value : Str) : Prop :=
  ∃ first groups, value = List.intercalate [','] (first :: groups) ∧ groups ≠ [] ∧ AllDigits first ∧ first.length ≤ 3 ∧
    ∀ group ∈ groups, AllDigits group ∧ group.length = 3

/-- The number that the digits of a text stand for. -/
def amountValue (value : Str) : Nat := Nat.ofDigitChars 10 (value.filter (· ≠ ',')) 0

theorem comma_notMem_of_digits (h : ∀ c ∈ s, isAsciiDigit c = true) : ',' ∉ s := fun hc =>
  absurd (h _ hc) (by decide)

theorem isAmount_iff : isAmount value = true ↔ AllDigits value ∨ Grouped value := by
  by_cases hcomma : ',' ∈ value
  · obtain ⟨first, groups, hsplit, hjoin, hfirst, hne⟩ := exists_split_cons ',' value
    have hdigits : ¬ AllDigits value := fun h => comma_notMem_of_digits h.2 hcomma
    rw [isAmount, if_pos (by simpa using hcomma), hsplit, or_iff_right hdigits]
    dsimp only
    constructor
    · intro h
      obtain ⟨⟨⟨hfirst', hlength⟩, hall⟩, hgroups⟩ : ((first ≠ [] ∧ first.length ≤ 3) ∧ ∀ c ∈ first, isAsciiDigit c = true) ∧
          ∀ group ∈ groups, group.length = 3 ∧ ∀ c ∈ group, isAsciiDigit c = true := by simpa using h
      refine ⟨first, groups, hjoin.symm, hne hcomma, ⟨hfirst', hall⟩, hlength, fun group hg => ⟨⟨?_, (hgroups group hg).2⟩,
        (hgroups group hg).1⟩⟩
      rintro rfl
      exact absurd (hgroups [] hg).1 (by decide)
    · rintro ⟨first', groups', heq, -, ⟨hne', hall⟩, hlength, hgroups⟩
      have hparts : ∀ part ∈ first' :: groups', ',' ∉ part := by
        intro part hp
        rcases List.mem_cons.mp hp with rfl | hp
        · exact comma_notMem_of_digits hall
        · exact comma_notMem_of_digits (hgroups part hp).1.2
      have hsame : first :: groups = first' :: groups' := by rw [← hsplit, heq, split_intercalate hparts]
      cases hsame
      simpa [hne', hlength] using ⟨hall, fun group hg => ⟨(hgroups group hg).2, (hgroups group hg).1.2⟩⟩
  · have hgrouped : ¬ Grouped value := by
      rintro ⟨first, groups, heq, hne, -⟩
      cases groups with
      | nil => exact hne rfl
      | cons group groups =>
        refine hcomma ?_
        rw [heq]
        simp [List.intercalate]
    rw [isAmount, if_neg (by simpa using hcomma), or_iff_left hgrouped, AllDigits]
    simp

theorem digits_of_amount (h : AllDigits value ∨ Grouped value) :
    value.filter (· ≠ ',') ≠ [] ∧ ∀ c ∈ value.filter (· ≠ ','), isAsciiDigit c = true := by
  have hself : ∀ {s : Str}, AllDigits s → s.filter (· ≠ ',') = s := by
    intro s hs
    rw [List.filter_eq_self]
    intro c hc
    have hne : c ≠ ',' := by
      rintro rfl
      exact comma_notMem_of_digits hs.2 hc
    simpa using hne
  rcases h with h | ⟨first, groups, rfl, -, hfirst, -, hgroups⟩
  · rw [hself h]
    exact h
  · have hparts : ∀ part ∈ first :: groups, AllDigits part := by
      intro part hp
      rcases List.mem_cons.mp hp with rfl | hp
      · exact hfirst
      · exact (hgroups part hp).1
    constructor
    · obtain ⟨c, hc⟩ := List.exists_mem_of_ne_nil _ hfirst.1
      refine List.ne_nil_of_mem (a := c) (List.mem_filter.mpr ⟨?_, ?_⟩)
      · cases groups <;> simp [List.intercalate, hc]
      · have hne : c ≠ ',' := by
          rintro rfl
          exact comma_notMem_of_digits hfirst.2 hc
        simpa using hne
    · intro c hc
      obtain ⟨hmem, hne⟩ := List.mem_filter.mp hc
      rcases mem_intercalate hmem with rfl | ⟨part, hp, hcpart⟩
      · exact absurd hne (by decide)
      · exact (hparts part hp).2 c hcpart

/-- A text is read as an amount exactly if it is all digits, or groups of them, and fits a word. -/
theorem parseAmount_iff : parseAmount value = some n ↔
    (AllDigits value ∨ Grouped value) ∧ n = amountValue value ∧ n < 2 ^ 64 := by
  by_cases h : AllDigits value ∨ Grouped value
  · obtain ⟨hne, hdigits⟩ := digits_of_amount h
    rw [parseAmount, if_pos (isAmount_iff.mpr h), parseUnsigned_digits hne hdigits, and_iff_right h]
    rw [amountValue]
    split_ifs with hfits
    · rw [Option.some_inj]
      constructor
      · rintro rfl
        exact ⟨rfl, hfits⟩
      · exact fun hn => hn.1.symm
    · refine iff_of_false nofun ?_
      rintro ⟨rfl, hn⟩
      exact hfits hn
  · rw [parseAmount, if_neg (isAmount_iff.not.mpr h)]
    exact iff_of_false nofun fun hn => h hn.1

end Eqlog

end Stonemite
