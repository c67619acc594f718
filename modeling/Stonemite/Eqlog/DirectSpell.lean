import Stonemite.Eqlog.Melee
import Stonemite.Eqlog.Trimmed

/-!
# Direct spell damage lines

The line of a spell that hits, and when it is read back as it was written: the separators must be found on the right side
of the names between them. `DirectSeparated` is the condition on the names. The proof goes from the last separator of the
line to the first, with a lemma for each.
-/

namespace Stonemite.Eqlog

open Str

/-- What a line of spell damage is written from. -/
structure SpellHit where
  attacker : Str
  defender : Str
  amountText : Str
  amount : Nat
  damageType : Str
  spell : Str
  isAmount : AllDigits amountText ∨ Grouped amountText
  amountEq : amount = amountValue amountText
  fits : amount < 2 ^ 64
  unended : spell.getLast? ≠ some '.'

namespace SpellHit

variable (hit : SpellHit)

/-- What follows the action of a direct spell. -/
def directTail : Str :=
  " points of ".toList ++ (hit.damageType ++ " damage by ".toList ++ (hit.spell ++ ['.']))

def directAction : Str := hit.attacker ++ " hit ".toList ++ hit.defender

/-- The line of a spell that hits. -/
def directLine : Str := hit.directAction ++ " for ".toList ++ (hit.amountText ++ hit.directTail)

/-- The damage that is read from a line is one observation of the hit. -/
def ReadAs (line : Str) (kind : DamageKind) : Prop :=
  ∃ damage, MeleeHit.damages (parseCombat line) = [damage] ∧ damage.attacker.name = hit.attacker ∧
    damage.defender.name = hit.defender ∧ damage.amount = hit.amount ∧ damage.ability = some hit.spell ∧ damage.kind = kind

end SpellHit

/-- A name that is observed as it is written, without an owner. -/
structure Unowned (name : Str) : Prop where
  plain : PlainName name
  notOwned : ¬ OwnerForm name
  noPet : (petOwner name).bind observed = none

/-- The spell is what is left of the text after the first ` damage by `; a damage type may have one of its own. -/
def SpellKept (damageType spell : Str) : Prop :=
  ¬ " damage by ".toList <:+: damageType ++ " damage by".toList ∧ spell.Trimmed ∧ ¬ ". (".toList <:+: spell ∨
    ∃ type text rest, damageType = type ++ " damage by ".toList ++ (text ++ ". (".toList ++ rest) ∧
      ¬ " damage by ".toList <:+: type ++ " damage by".toList ∧ ¬ ". (".toList <:+: text ++ ". ".toList ∧
        trim (trimEndMatches (· = '.') text) = spell

/-- Each separator of the line is found where it was written. -/
structure DirectSeparated (hit : SpellHit) : Prop where
  unquoted : looksQuoted hit.directLine = false
  noMelee : parseMeleeDamage hit.directLine = none
  noFor : ¬ " for ".toList <:+: hit.directTail
  noHits : ¬ " hits ".toList <:+: hit.directAction
  noHit : ¬ " hit ".toList <:+: hit.attacker ++ " hit".toList
  attacker : Unowned hit.attacker
  defender : PlainName hit.defender
  nonempty : hit.spell ≠ []
  spell : SpellKept hit.damageType hit.spell

variable {hit : SpellHit} {damage : DamageObservation} {line a b d rest v : Str} {combatant : ObservedCombatant}

/-! ### Names without owners -/

theorem observed_name_length {text : Str} (h : observed text = some combatant) : combatant.name.length ≤ text.length := by
  obtain ⟨pre, suf, htext, -⟩ := observed_append h
  rw [htext]
  simp only [List.length_append]
  omega

theorem Unowned.observed_eq {name : Str} (h : Unowned name) :
    observedWithOwner name = some (⟨name, perspectiveOf name⟩, none) := by
  rw [observedWithOwner, trim_of_trimmed h.plain.trimmed, ownerForm_split h.notOwned, observed_plain h.plain, h.noPet]
  rfl

theorem unowned_of_observed {name : Str} (h : observedWithOwner name = some (combatant, none)) (hname : combatant.name = name) :
    Unowned name := by
  rw [observedWithOwner] at h
  cases hsplit : (name.trim.stripSuffix [')']).bind fun value => value.rsplitOnceStr " (Owner: ".toList with
  | some parts =>
    obtain ⟨pet, ownerText⟩ := parts
    rw [hsplit] at h
    obtain ⟨found, hfound, heq⟩ := Option.map_eq_some_iff.mp h
    obtain rfl : found = combatant := congrArg Prod.fst heq
    obtain ⟨value, hvalue, hparts⟩ := Option.bind_eq_some_iff.mp hsplit
    rw [stripSuffix_eq_some] at hvalue
    have hle := observed_name_length hfound
    have hvalue' := congrArg List.length hvalue
    have hparts' := congrArg List.length ((splitLast_eq_some_iff (by decide)).mp hparts).1
    have htrim := (trim_sublist name).length_le
    rw [hname] at hle
    simp only [List.length_append, List.length_singleton] at hvalue' hparts'
    omega
  | none =>
    rw [hsplit] at h
    obtain ⟨found, hfound, heq⟩ := Option.map_eq_some_iff.mp h
    have hpet : (petOwner name.trim).bind observed = none := congrArg Prod.snd heq
    obtain rfl : found = combatant := congrArg Prod.fst heq
    have htrim : name.trim = name := by
      have hle := observed_name_length hfound
      rw [hname] at hle
      exact (trim_sublist name).eq_of_length_le hle
    rw [htrim] at hpet hfound hsplit
    refine ⟨observed_self_iff.mp ⟨_, hfound, hname⟩, ?_, hpet⟩
    rintro ⟨pet, owner, hform⟩
    have hvalue : name.stripSuffix [')'] = some (pet ++ " (Owner: ".toList ++ owner) := stripSuffix_eq_some.mpr hform
    rw [hvalue, Option.bind_some] at hsplit
    exact (splitLast_eq_none_iff (by decide)).mp hsplit ⟨pet, owner, rfl⟩

/-! ### The spell at the end of a line -/

section
variable {s spell damageType w cut : Str}

theorem trimPeriodAndModifiers_cut (h : ¬ ". (".toList <:+: cut ++ ". ".toList) (rest : Str) :
    trimPeriodAndModifiers (cut ++ ". (".toList ++ rest) = trim (trimEndMatches (· = '.') cut) := by
  have hsplit : splitFirst ". (".toList (cut ++ ". (".toList ++ rest) = some (cut, rest) :=
    (splitFirst_eq_some_iff (by decide)).mpr ⟨rfl, h⟩
  rw [trimPeriodAndModifiers, splitOnceStr, hsplit]
  rfl

theorem trimPeriodAndModifiers_uncut (h : ¬ ". (".toList <:+: s) :
    trimPeriodAndModifiers s = trim (trimEndMatches (· = '.') s) := by
  rw [trimPeriodAndModifiers, splitOnceStr, (splitFirst_eq_none_iff (by decide)).mpr h]
  rfl

theorem exists_cut (h : ". (".toList <:+: s) : ∃ cut rest, s = cut ++ ". (".toList ++ rest ∧ ¬ ". (".toList <:+: cut ++ ". ".toList := by
  have hsome : splitFirst ". (".toList s ≠ none := fun hnone => (splitFirst_eq_none_iff (by decide)).mp hnone h
  obtain ⟨⟨cut, rest⟩, hsplit⟩ := Option.ne_none_iff_exists'.mp hsome
  exact ⟨cut, rest, (splitFirst_eq_some_iff (by decide)).mp hsplit⟩

/-- What is left of a text is a part of it, after white space. -/
theorem trimPeriodAndModifiers_append (s : Str) : ∃ pre suf, s = pre ++ trimPeriodAndModifiers s ++ suf ∧
    (∀ c ∈ pre, isWhitespace c = true) ∧ (". (".toList <:+: s → 3 ≤ suf.length) := by
  by_cases h : ". (".toList <:+: s
  · obtain ⟨cut, rest, hs, hfirst⟩ := exists_cut h
    obtain ⟨dots, hdots, -⟩ := trimEndMatches_append (· = '.') cut
    obtain ⟨pre, suf, htrim, hpre, -⟩ := trim_append (trimEndMatches (· = '.') cut)
    refine ⟨pre, suf ++ (dots ++ (". (".toList ++ rest)), ?_, hpre, fun _ => ?_⟩
    · rw [hs, trimPeriodAndModifiers_cut hfirst, ← List.append_assoc _ suf, ← htrim, ← List.append_assoc _ dots, ← hdots,
        List.append_assoc]
    · have hlength : (". (".toList : Str).length = 3 := by decide
      simp only [List.length_append, hlength]
      omega
  · obtain ⟨dots, hdots, -⟩ := trimEndMatches_append (· = '.') s
    obtain ⟨pre, suf, htrim, hpre, -⟩ := trim_append (trimEndMatches (· = '.') s)
    refine ⟨pre, suf ++ dots, ?_, hpre, fun hin => absurd hin h⟩
    rw [trimPeriodAndModifiers_uncut h, ← List.append_assoc, ← htrim]
    exact hdots

theorem trimPeriodAndModifiers_trimmed (s : Str) : (trimPeriodAndModifiers s).Trimmed := trimmed_trim _

theorem modifiers_infix_concat : ". (".toList <:+: s ++ ['.'] ↔ ". (".toList <:+: s := by
  have hend : ¬ ". (".toList <:+ s ++ ['.'] := by
    rintro ⟨t, ht⟩
    have hlast := congrArg List.getLast? ht
    have hparen : (". (".toList : Str).getLast? = some '(' := by decide
    rw [List.getLast?_append, hparen, List.getLast?_append, List.getLast?_singleton, Option.some_or, Option.some_or] at hlast
    exact absurd hlast (by decide)
  rw [List.infix_concat_iff, or_iff_right hend]

theorem trimEndMatches_dots (hend : s.getLast? ≠ some '.') : trimEndMatches (· = '.') s = s := by
  refine trimEndMatches_of_getLast fun c hc => ?_
  by_contra hdot
  rw [Bool.not_eq_false, decide_eq_true_iff] at hdot
  rw [hdot] at hc
  exact hend hc

theorem trimPeriodAndModifiers_concat (hend : s.getLast? ≠ some '.') (h : s.Trimmed) (hcut : ¬ ". (".toList <:+: s) :
    trimPeriodAndModifiers (s ++ ['.']) = s := by
  rw [trimPeriodAndModifiers_uncut (modifiers_infix_concat.not.mpr hcut)]
  refine (congrArg trim ?_).trans (trim_of_trimmed h)
  exact (trimEndMatches_append_singleton (by decide) s).trans (trimEndMatches_dots hend)

theorem trimPeriodAndModifiers_concat_iff (hend : s.getLast? ≠ some '.') :
    trimPeriodAndModifiers (s ++ ['.']) = s ↔ s.Trimmed ∧ ¬ ". (".toList <:+: s := by
  constructor
  · intro h
    refine ⟨h ▸ trimPeriodAndModifiers_trimmed _, fun hcut => ?_⟩
    obtain ⟨pre, suf, hs, -, hlong⟩ := trimPeriodAndModifiers_append (s ++ ['.'])
    have hlength := congrArg List.length hs
    have hsuf := hlong (modifiers_infix_concat.mpr hcut)
    rw [h] at hlength
    simp only [List.length_append, List.length_singleton] at hlength
    omega
  · exact fun h => trimPeriodAndModifiers_concat hend h.1 h.2

end

/-! ### The spell of a direct hit -/

section
variable {spell damageType before after w : Str}

/-- What a text with two occurrences of the separator has between them ends as the separator does. -/
theorem between_ends (hne : w ≠ []) (h : damageType ++ " damage by ".toList = before ++ " damage by ".toList ++ w) :
    ∃ w', w = w' ++ ['y', ' '] := by
  have hby : " damage by ".toList = " damage b".toList ++ ['y', ' '] := by decide
  rcases List.eq_nil_or_concat w with rfl | ⟨w₁, c, rfl⟩
  · exact absurd rfl hne
  rw [hby] at h
  have h₁ : damageType ++ " damage b".toList ++ ['y'] ++ [' '] =
      before ++ " damage b".toList ++ ['y', ' '] ++ w₁ ++ [c] := by simpa [List.append_assoc] using h
  obtain ⟨hw₁, hc⟩ := List.append_inj' h₁ rfl
  cases hc
  rcases List.eq_nil_or_concat w₁ with rfl | ⟨w₂, d, rfl⟩
  · rw [List.append_nil, List.append_cons _ 'y' [' ']] at hw₁
    exact absurd (List.append_inj_right' hw₁ rfl) (by decide)
  · rw [List.concat_eq_append, ← List.append_assoc] at hw₁
    have hd := List.append_inj_right' hw₁ rfl
    cases hd
    exact ⟨w₂, by simp⟩

/-- A spell whose text has more before it than white space is not what is left of it. -/
theorem spell_of_longer (hne : spell ≠ []) (hend : spell.getLast? ≠ some '.')
    (h : damageType ++ " damage by ".toList = before ++ " damage by ".toList ++ w) (hw : w ≠ [])
    (hkept : trimPeriodAndModifiers (w ++ (spell ++ ['.'])) = spell) :
    ∃ text rest, w = text ++ ". (".toList ++ rest ∧ ¬ ". (".toList <:+: text ++ ". ".toList ∧
      trim (trimEndMatches (· = '.') text) = spell := by
  obtain ⟨w', hends⟩ := between_ends hw h
  by_cases hcut : ". (".toList <:+: w ++ (spell ++ ['.'])
  · obtain ⟨text, rest, hs, hfirst⟩ := exists_cut hcut
    have hspell : trim (trimEndMatches (· = '.') text) = spell := by
      rw [hs, trimPeriodAndModifiers_cut hfirst] at hkept
      exact hkept
    have hin : spell <:+: text := by
      rw [← hspell]
      obtain ⟨dots, hdots, -⟩ := trimEndMatches_append (· = '.') text
      exact (trim_part _).trans ⟨[], dots, hdots.symm⟩
    have hplain : ¬ ". (".toList <:+: spell ++ ['.'] := by
      rw [modifiers_infix_concat]
      exact fun hmods => hfirst ((hmods.trans hin).trans (List.prefix_append _ _).isInfix)
    rcases List.append_eq_append_iff.mp hs with ⟨z, hz, hrest⟩ | ⟨z, hz, -⟩
    · -- the cut would be at the end of what is before the spell, or in the spell
      have hpat : ". (".toList = ['.', ' ', '('] := by decide
      have hz' : text ++ ['.', ' ', '('] = w ++ z := by rw [← hpat]; exact hz
      rcases List.eq_nil_or_concat z with rfl | ⟨z₁, c₁, rfl⟩
      · refine ⟨text, [], ?_, hfirst, hspell⟩
        rw [List.append_nil] at hz ⊢
        exact hz.symm
      have hz₁ : text ++ ['.', ' '] = w ++ z₁ ∧ '(' = c₁ := by
        rw [List.concat_eq_append, List.append_cons text, List.append_cons, ← List.append_assoc w] at hz'
        exact ⟨by simpa using List.append_inj_left' hz' rfl, (List.cons.inj (List.append_inj_right' hz' rfl)).1⟩
      obtain ⟨hz₁, rfl⟩ := hz₁
      rcases List.eq_nil_or_concat z₁ with rfl | ⟨z₂, c₂, rfl⟩
      · rw [List.append_nil, hends] at hz₁
        have h' := List.append_inj_right' hz₁ rfl
        cases h'
      have hz₂ : text ++ ['.'] = w ++ z₂ ∧ ' ' = c₂ := by
        rw [List.concat_eq_append, List.append_cons text, ← List.append_assoc w] at hz₁
        exact ⟨List.append_inj_left' hz₁ rfl, (List.cons.inj (List.append_inj_right' hz₁ rfl)).1⟩
      obtain ⟨hz₂, rfl⟩ := hz₂
      rcases List.eq_nil_or_concat z₂ with rfl | ⟨z₃, c₃, rfl⟩
      · rw [List.append_nil, hends, List.append_cons w'] at hz₂
        have h' := List.append_inj_right' hz₂ rfl
        cases h'
      have hc₃ : '.' = c₃ := by
        rw [List.concat_eq_append, ← List.append_assoc w] at hz₂
        exact (List.cons.inj (List.append_inj_right' hz₂ rfl)).1
      refine absurd ⟨z₃, rest, ?_⟩ hplain
      rw [hrest, hpat, ← hc₃]
      simp
    · exact ⟨text, z, hz, hfirst, hspell⟩
  · rw [trimPeriodAndModifiers_uncut hcut, ← List.append_assoc, trimEndMatches_append_singleton (by decide)] at hkept
    have hlast : (w ++ spell).getLast? ≠ some '.' := by
      rw [List.getLast?_append_of_ne_nil _ hne]
      exact hend
    rw [trimEndMatches_dots hlast] at hkept
    obtain ⟨pre, suf, htrim, hpre, hsuf⟩ := trim_append (w ++ spell)
    have htrimmed := trimmed_trim (w ++ spell)
    rw [hkept] at htrim htrimmed
    have hnil : suf = [] := by
      rcases List.eq_nil_or_concat suf with hsuf' | ⟨suf', c, rfl⟩
      · exact hsuf'
      · have hc := congrArg List.getLast? htrim
        rw [List.getLast?_append_of_ne_nil _ hne, List.concat_eq_append, ← List.append_assoc, List.getLast?_concat] at hc
        have hspace := hsuf c (by simp)
        rw [htrimmed.2 c hc] at hspace
        cases hspace
    rw [hnil, List.append_nil] at htrim
    have hy := hpre 'y' (by rw [← List.append_cancel_right htrim, hends]; simp)
    exact absurd hy (by decide)

theorem spellKept_iff (hne : spell ≠ []) (hend : spell.getLast? ≠ some '.') :
    (∃ before after, splitFirst " damage by ".toList (damageType ++ " damage by ".toList ++ (spell ++ ['.'])) = some (before, after) ∧
      trimPeriodAndModifiers after = spell) ↔ SpellKept damageType spell := by
  have hby : (" damage by ".toList : Str) ≠ [] := by decide
  have hinit : (" damage by ".toList : Str).dropLast = " damage by".toList := by decide
  constructor
  · rintro ⟨before, after, hsplit, hkept⟩
    have hle := splitFirst_length_le hby hsplit rfl
    obtain ⟨heq, hfirst⟩ := (splitFirst_eq_some_iff hby).mp hsplit
    rw [hinit] at hfirst
    rcases List.append_eq_append_iff.mp heq with ⟨z, hz, hspell⟩ | ⟨w, hw, hafter⟩
    · have hnil : z = [] := by
        have hlength := congrArg List.length hz
        simp only [List.length_append] at hlength
        exact List.length_eq_zero_iff.mp (by omega)
      rw [hnil, List.append_nil] at hz
      rw [hnil, List.nil_append] at hspell
      rw [List.append_cancel_right hz] at hfirst
      rw [← hspell, trimPeriodAndModifiers_concat_iff hend] at hkept
      exact .inl ⟨hfirst, hkept⟩
    · rw [hafter] at hkept
      by_cases hnil : w = []
      · rw [hnil, List.append_nil] at hw
        rw [← List.append_cancel_right hw] at hfirst
        rw [hnil, List.nil_append, trimPeriodAndModifiers_concat_iff hend] at hkept
        exact .inl ⟨hfirst, hkept⟩
      · obtain ⟨text, rest, rfl, hcut, hspell⟩ := spell_of_longer hne hend hw hnil hkept
        have htype : damageType ++ " damage by ".toList = before ++ " damage by ".toList ++ (text ++ ". (".toList) ++ rest := by
          rw [hw]
          simp only [List.append_assoc]
        rcases List.append_eq_append_iff.mp htype with ⟨z, hz, hrest⟩ | ⟨z, hz, -⟩
        · have hz' : z = [] := by
            rcases List.eq_nil_or_concat z with hz' | ⟨z', c, rfl⟩
            · exact hz'
            · have hpat : ". (".toList = ". ".toList ++ ['('] := by decide
              rw [hpat, List.concat_eq_append] at hz
              simp only [← List.append_assoc] at hz
              have hc := List.append_inj_right' hz rfl
              cases hc
              have hmem : '(' ∈ (" damage by ".toList : Str) := by
                rw [hrest]
                simp
              exact absurd hmem (by decide)
          rw [hz', List.append_nil] at hz
          refine .inr ⟨before, text, [], ?_, hfirst, hcut, hspell⟩
          rw [← hz, List.append_nil, List.append_assoc]
        · refine .inr ⟨before, text, z, ?_, hfirst, hcut, hspell⟩
          rw [hz]
          simp only [List.append_assoc]
  · rintro (⟨hfirst, htrimmed, hcut⟩ | ⟨type, text, rest, rfl, hfirst, hcut, hspell⟩)
    · exact ⟨damageType, spell ++ ['.'], (splitFirst_eq_some_iff hby).mpr ⟨rfl, by rw [hinit]; exact hfirst⟩,
        trimPeriodAndModifiers_concat hend htrimmed hcut⟩
    · refine ⟨type, text ++ ". (".toList ++ (rest ++ (" damage by ".toList ++ (spell ++ ['.']))),
        (splitFirst_eq_some_iff hby).mpr ⟨?_, by rw [hinit]; exact hfirst⟩, ?_⟩
      · simp only [List.append_assoc]
      · rw [trimPeriodAndModifiers_cut hcut, hspell]

end

/-! ### Events and grammars -/

theorem damages_parseCombat : MeleeHit.damages (parseCombat line) =
    if looksQuoted line then [] else (parseDamage line).toList := by
  rw [parseCombat]
  split_ifs
  · rfl
  · cases parseDamage line with
    | some damage => exact damages_damageEvents damage
    | none =>
      dsimp only
      cases (parseRejectedDamageAttempt line).or ((parseAttempt line).or (parseTaunt line)) with
      | some attempt => rfl
      | none =>
        dsimp only
        cases parseSlain line with
        | some slain => rfl
        | none =>
          cases blockedProblem line with
          | some problem => rfl
          | none => rfl

theorem readAs_iff {kind : DamageKind} : hit.ReadAs line kind ↔ looksQuoted line = false ∧ ∃ damage,
    parseDamage line = some damage ∧ damage.attacker.name = hit.attacker ∧ damage.defender.name = hit.defender ∧
      damage.amount = hit.amount ∧ damage.ability = some hit.spell ∧ damage.kind = kind := by
  rw [SpellHit.ReadAs, damages_parseCombat]
  cases looksQuoted line with
  | true => simp
  | false =>
    cases parseDamage line with
    | none => simp
    | some damage => simp

theorem kind_of_melee (h : parseMeleeDamage line = some damage) : damage.kind = .melee ∨ damage.kind = .pet := by
  obtain ⟨⟨action, damageText⟩, -, h⟩ := Option.bind_eq_some_iff.mp h
  obtain ⟨amount, -, h⟩ := Option.bind_eq_some_iff.mp h
  obtain ⟨⟨attackerText, verb, defenderText⟩, -, h⟩ := Option.bind_eq_some_iff.mp h
  obtain ⟨⟨attacker, owner⟩, -, h⟩ := Option.bind_eq_some_iff.mp h
  obtain ⟨defender, -, rfl⟩ := Option.map_eq_some_iff.mp h
  cases owner with
  | none => exact .inl rfl
  | some owner => exact .inr rfl

theorem kind_of_shield (h : parseDamageShield line = some damage) : damage.kind = .damageShield := by
  obtain ⟨⟨action, damageText⟩, -, h⟩ := Option.bind_eq_some_iff.mp h
  obtain ⟨⟨amountText, suffix⟩, -, h⟩ := Option.bind_eq_some_iff.mp h
  dsimp only at h
  split at h
  · cases h
  · obtain ⟨amount, -, h⟩ := Option.bind_eq_some_iff.mp h
    obtain ⟨⟨defenderText, verbSource⟩, -, h⟩ := Option.bind_eq_some_iff.mp h
    obtain ⟨⟨verb, source⟩, -, h⟩ := Option.bind_eq_some_iff.mp h
    obtain ⟨⟨attackerText, ability⟩, -, h⟩ := Option.bind_eq_some_iff.mp h
    obtain ⟨⟨attacker, owner⟩, -, h⟩ := Option.bind_eq_some_iff.mp h
    obtain ⟨defender, -, rfl⟩ := Option.map_eq_some_iff.mp h
    rfl

theorem parsePeriodicDamage_eq_some (h : parsePeriodicDamage line = some damage) :
    ∃ defenderText taken amountEnd source attackerText owner, ∃ ability : Str, splitTaken line = some (defenderText, taken) ∧
      ((taken.stripPrefix "an extra ".toList).getD taken).findIdx? isWhitespace = some amountEnd ∧
      parseAmount (((taken.stripPrefix "an extra ".toList).getD taken).take amountEnd) = some damage.amount ∧
      ((trimStart (((taken.stripPrefix "an extra ".toList).getD taken).drop amountEnd)).stripPrefix "damage from ".toList).or
        (stripPointsNonMeleePrefix (trimStart (((taken.stripPrefix "an extra ".toList).getD taken).drop amountEnd))) = some source ∧
      periodicSource source = some (ability, attackerText) ∧ ability ≠ [] ∧
      observedWithOwner attackerText = some (damage.attacker, owner) ∧ observed defenderText = some damage.defender ∧
      damage.ability = some ability ∧ damage.kind = if owner.isSome then .pet
        else if "an extra ".toList.isPrefixOf taken then .bane else .damageOverTime := by
  obtain ⟨⟨defenderText, taken⟩, htaken, h⟩ := Option.bind_eq_some_iff.mp h
  obtain ⟨amountEnd, hend, h⟩ := Option.bind_eq_some_iff.mp h
  obtain ⟨amount, hamount, h⟩ := Option.bind_eq_some_iff.mp h
  obtain ⟨source, hsource, h⟩ := Option.bind_eq_some_iff.mp h
  obtain ⟨⟨ability, attackerText⟩, hability, h⟩ := Option.bind_eq_some_iff.mp h
  dsimp only at h
  split at h
  · cases h
  · rename_i hne
    obtain ⟨⟨attacker, owner⟩, hattacker, h⟩ := Option.bind_eq_some_iff.mp h
    obtain ⟨defender, hdefender, rfl⟩ := Option.map_eq_some_iff.mp h
    have hne' : ability ≠ [] := by
      rintro rfl
      exact hne rfl
    exact ⟨defenderText, taken, amountEnd, source, attackerText, owner, ability, htaken, hend, hamount, hsource, hability, hne',
      hattacker, hdefender, rfl, rfl⟩

theorem parseDirectSpellDamage_eq_some (h : parseDirectSpellDamage line = some damage) :
    ∃ action damageText amountText tail abilityTail before abilityText attackerText owner, ∃ defenderText : Str,
      splitLast " for ".toList line = some (action, damageText) ∧
      splitFirst " point".toList damageText = some (amountText, tail) ∧ parseAmount amountText = some damage.amount ∧
      (Str.stripPrefix tail "s of ".toList).or (Str.stripPrefix tail " of ".toList) = some abilityTail ∧
      splitFirst " damage by ".toList abilityTail = some (before, abilityText) ∧ trimPeriodAndModifiers abilityText ≠ [] ∧
      splitHit action = some (attackerText, defenderText) ∧ observedWithOwner attackerText = some (damage.attacker, owner) ∧
      observed defenderText = some damage.defender ∧ damage.ability = some (trimPeriodAndModifiers abilityText) ∧
      damage.kind = if owner.isSome then .pet else .directSpell := by
  obtain ⟨⟨action, damageText⟩, haction, h⟩ := Option.bind_eq_some_iff.mp h
  obtain ⟨⟨amountText, tail⟩, htail, h⟩ := Option.bind_eq_some_iff.mp h
  obtain ⟨amount, hamount, h⟩ := Option.bind_eq_some_iff.mp h
  obtain ⟨abilityTail, hability, h⟩ := Option.bind_eq_some_iff.mp h
  obtain ⟨⟨before, abilityText⟩, htext, h⟩ := Option.bind_eq_some_iff.mp h
  dsimp only at h
  split at h
  · cases h
  · rename_i hne
    obtain ⟨⟨attackerText, defenderText⟩, hsplit, h⟩ := Option.bind_eq_some_iff.mp h
    obtain ⟨⟨attacker, owner⟩, hattacker, h⟩ := Option.bind_eq_some_iff.mp h
    obtain ⟨defender, hdefender, rfl⟩ := Option.map_eq_some_iff.mp h
    have hne' : trimPeriodAndModifiers abilityText ≠ [] := fun hnil => hne (by rw [hnil]; rfl)
    exact ⟨action, damageText, amountText, tail, abilityTail, before, abilityText, attackerText, owner, defenderText, haction,
      htail, hamount, hability, htext, hne', hsplit, hattacker, hdefender, rfl, rfl⟩

/-! ### The direct line -/

theorem directSpell_iff : (parseDamage line = some damage ∧ damage.kind = .directSpell) ↔
    parseMeleeDamage line = none ∧ parseDirectSpellDamage line = some damage ∧ damage.kind = .directSpell := by
  rw [parseDamage]
  cases hmelee : parseMeleeDamage line with
  | some found =>
    refine iff_of_false ?_ fun hnone => Option.some_ne_none found hnone.1
    rintro ⟨h, hkind⟩
    cases h
    rcases kind_of_melee hmelee with h | h
    · rw [h] at hkind
      cases hkind
    · rw [h] at hkind
      cases hkind
  | none =>
    rw [Option.none_or]
    cases hdirect : parseDirectSpellDamage line with
    | some found => simp
    | none =>
      refine iff_of_false ?_ fun hsome => Option.some_ne_none damage hsome.2.1.symm
      rintro ⟨h, hkind⟩
      cases hshield : parseDamageShield line with
      | some found =>
        rw [hshield] at h
        cases h
        rw [kind_of_shield hshield] at hkind
        cases hkind
      | none =>
        rw [hshield] at h
        obtain ⟨_, taken, _, _, _, owner, _, -, -, -, -, -, -, -, -, -, hperiodic⟩ := parsePeriodicDamage_eq_some h
        rw [hkind] at hperiodic
        split_ifs at hperiodic

/-- An attacker and a defender that are read as they were written are on both sides of the first ` hit `. -/
theorem splitHit_eq {attackerText defenderText : Str} {owner : Option ObservedCombatant}
    (h : splitHit (a ++ " hit ".toList ++ b) = some (attackerText, defenderText))
    (hattacker : observedWithOwner attackerText = some (combatant, owner)) (hname : combatant.name = a) :
    attackerText = a ∧ defenderText = b ∧ ¬ " hits ".toList <:+: a ++ " hit ".toList ++ b ∧
      ¬ " hit ".toList <:+: a ++ " hit".toList := by
  obtain ⟨-, hle⟩ := observedWithOwner_length hattacker
  rw [hname] at hle
  rw [splitHit] at h
  cases hhits : splitFirst " hits ".toList (a ++ " hit ".toList ++ b) with
  | some parts =>
    rw [splitOnceStr, hhits] at h
    cases h
    obtain ⟨heq, -⟩ := (splitFirst_eq_some_iff (by decide)).mp hhits
    have hhit : " hit ".toList = [' ', 'h', 'i', 't', ' '] := by decide
    have hhits' : " hits ".toList = [' ', 'h', 'i', 't', 's', ' '] := by decide
    obtain ⟨w, rfl⟩ : a <+: attackerText := by
      refine List.prefix_of_prefix_length_le (List.prefix_append a (" hit ".toList ++ b)) ?_ hle
      rw [← List.append_assoc, heq, List.append_assoc]
      exact List.prefix_append _ _
    rw [List.append_assoc, List.append_assoc, List.append_assoc] at heq
    have hw := List.append_cancel_left heq
    rw [hhit, hhits'] at hw
    obtain _ | ⟨c, _ | ⟨d, w⟩⟩ := w
    · cases hw
    · cases hw
    · simp only [List.cons_append, List.cons.injEq] at hw
      obtain ⟨rfl, rfl, -⟩ := hw
      exact absurd hname (observedWithOwner_longer (by decide) (by decide) hattacker)
  | none =>
    rw [splitOnceStr, hhits, Option.none_or] at h
    have hle' := splitFirst_length_le (by decide) h rfl
    obtain ⟨heq, hfirst⟩ := (splitFirst_eq_some_iff (by decide)).mp h
    rw [List.append_assoc, List.append_assoc] at heq
    obtain rfl := List.append_inj_left heq (by omega)
    have hinit : (" hit ".toList : Str).dropLast = " hit".toList := by decide
    rw [hinit] at hfirst
    exact ⟨rfl, (List.append_cancel_left (List.append_cancel_left heq)).symm, (splitFirst_eq_none_iff (by decide)).mp hhits, hfirst⟩

theorem splitHit_first (h : ¬ " hits ".toList <:+: a ++ " hit ".toList ++ b) (h' : ¬ " hit ".toList <:+: a ++ " hit".toList) :
    splitHit (a ++ " hit ".toList ++ b) = some (a, b) := by
  have hinit : (" hit ".toList : Str).dropLast = " hit".toList := by decide
  have hsplit : splitFirst " hit ".toList (a ++ " hit ".toList ++ b) = some (a, b) :=
    (splitFirst_eq_some_iff (by decide)).mpr ⟨rfl, by rw [hinit]; exact h'⟩
  rw [splitHit, splitOnceStr, (splitFirst_eq_none_iff (by decide)).mpr h, Option.none_or]
  exact hsplit

namespace SpellHit

/-- The last ` for ` of a line whose names are read as they were written is the one before the amount. -/
theorem splitLast_direct {action damageText attackerText defenderText : Str} {owner : Option ObservedCombatant}
    {defender : ObservedCombatant} (h : splitLast " for ".toList hit.directLine = some (action, damageText))
    (hsplit : splitHit action = some (attackerText, defenderText))
    (hattacker : observedWithOwner attackerText = some (combatant, owner)) (hname : combatant.name = hit.attacker)
    (hdefender : observed defenderText = some defender) (hname' : defender.name = hit.defender) :
    action = hit.directAction ∧ damageText = hit.amountText ++ hit.directTail ∧
      ¬ " for ".toList <:+: hit.directTail := by
  have hline : hit.directLine = hit.directAction ++ " for ".toList ++ (hit.amountText ++ hit.directTail) := rfl
  have hle := splitLast_length_le (by decide) h hline
  obtain ⟨heq, hlast⟩ := (splitLast_eq_some_iff (by decide)).mp h
  have hstart : hit.directAction <+: hit.directLine := by
    rw [hline, List.append_assoc]
    exact List.prefix_append _ _
  have hstart' : action <+: hit.directLine := by
    rw [heq, List.append_assoc]
    exact List.prefix_append _ _
  obtain ⟨u, rfl⟩ := List.prefix_of_prefix_length_le hstart hstart' hle
  rw [hline, List.append_assoc, List.append_assoc, List.append_assoc] at heq
  have hu := List.append_cancel_left heq
  have hfor : " for ".toList = [' ', 'f', 'o', 'r', ' '] := by decide
  match u, hu with
  | [], hu =>
    rw [List.nil_append] at hu
    have hsame := List.append_cancel_left hu
    refine ⟨List.append_nil _, hsame.symm, fun hin => hlast ?_⟩
    rw [← hsame]
    exact (hin.trans (List.suffix_append _ _).isInfix).trans (List.suffix_append _ _).isInfix
  | [_], hu =>
    rw [hfor] at hu
    cases hu
  | _ :: _ :: v, hu =>
    rw [hfor] at hu
    simp only [List.cons_append, List.cons.injEq] at hu
    obtain ⟨rfl, rfl, -⟩ := hu
    rw [directAction, List.append_assoc] at hsplit
    obtain ⟨-, rfl, -⟩ := splitHit_eq hsplit hattacker hname
    exact absurd hname' (observed_longer (by decide) hdefender)

theorem splitFirst_point : splitFirst " point".toList (hit.amountText ++ hit.directTail) = some (hit.amountText,
    "s of ".toList ++ (hit.damageType ++ " damage by ".toList ++ (hit.spell ++ ['.']))) := by
  have hne : (" point".toList : Str) ≠ [] := by decide
  have hjoin : ∀ {a b c d e : Str}, e = b ++ c → a ++ (e ++ d) = a ++ b ++ (c ++ d) := by
    rintro a b c d e rfl
    simp only [List.append_assoc]
  rw [splitFirst_eq_some_iff hne]
  constructor
  · have hpoints : " points of ".toList = " point".toList ++ "s of ".toList := by decide
    unfold directTail
    exact hjoin hpoints
  · have hinit : (" point".toList : Str).dropLast = " poin".toList := by decide
    rw [hinit, ← List.nil_append (hit.amountText ++ _), ← List.append_assoc, infix_amount_iff hit.isAmount (by decide)]
    rintro (h | h)
    · exact absurd (List.infix_nil.mp h) (by decide)
    · exact absurd h (by decide)

theorem parseAmount_text : parseAmount hit.amountText = some hit.amount :=
  parseAmount_iff.mpr ⟨hit.isAmount, hit.amountEq, hit.fits⟩

theorem separated_of_direct (h : hit.ReadAs hit.directLine .directSpell) : DirectSeparated hit := by
  obtain ⟨hunquoted, damage, hparse, hattacker, hdefender, -, hability, hkind⟩ := readAs_iff.mp h
  obtain ⟨hmelee, hdirect, -⟩ := directSpell_iff.mp ⟨hparse, hkind⟩
  obtain ⟨action, damageText, amountText, tail, abilityTail, before, abilityText, attackerText, owner, defenderText, haction, htail, -,
    hstrip, htext, hne, hsplit, hobserved, hobserved', hability', hkind'⟩ := parseDirectSpellDamage_eq_some hdirect
  obtain ⟨rfl, rfl, hfor⟩ := hit.splitLast_direct haction hsplit hobserved hattacker hobserved' hdefender
  obtain ⟨rfl, rfl, hhits, hhit⟩ := splitHit_eq hsplit hobserved hattacker
  rw [hit.splitFirst_point] at htail
  cases htail
  rw [stripPrefix_eq_some.mpr rfl, Option.some_or] at hstrip
  cases hstrip
  rw [hability', Option.some_inj] at hability
  rw [hability] at hne
  have howner : owner = none := by
    cases owner with
    | none => rfl
    | some owner =>
      rw [hkind] at hkind'
      cases hkind'
  rw [howner] at hobserved
  exact ⟨hunquoted, hmelee, hfor, hhits, hhit, unowned_of_observed hobserved hattacker,
    observed_self_iff.mp ⟨_, hobserved', hdefender⟩, hne, (spellKept_iff hne hit.unended).mp ⟨_, _, htext, hability⟩⟩

theorem direct_of_separated (h : DirectSeparated hit) : hit.ReadAs hit.directLine .directSpell := by
  obtain ⟨before, after, htext, hability⟩ := (spellKept_iff h.nonempty hit.unended).mpr h.spell
  have hempty : (trimPeriodAndModifiers after).isEmpty = false := by
    rw [hability]
    simpa using h.nonempty
  have hsplit := splitHit_first h.noHits h.noHit
  have hdirect : ∃ damage, parseDirectSpellDamage hit.directLine = some damage ∧ damage.attacker.name = hit.attacker ∧
      damage.defender.name = hit.defender ∧ damage.amount = hit.amount ∧ damage.ability = some hit.spell ∧
        damage.kind = .directSpell := by
    refine ⟨⟨⟨hit.attacker, perspectiveOf hit.attacker⟩, none, ⟨hit.defender, perspectiveOf hit.defender⟩, hit.amount, .directSpell,
      some hit.spell, .hit, parseModifiers hit.directLine, .directSpell⟩, ?_, rfl, rfl, rfl, rfl, rfl⟩
    rw [parseDirectSpellDamage, rsplitOnceStr, directLine, splitLast_amount (a := hit.directAction) hit.isAmount h.noFor, Option.bind_some]
    dsimp only
    rw [splitOnceStr, hit.splitFirst_point, Option.bind_some]
    dsimp only
    rw [hit.parseAmount_text, Option.bind_some, stripPrefix_eq_some.mpr rfl, Option.some_or, Option.bind_some, splitOnceStr, htext,
      Option.bind_some]
    dsimp only
    rw [hempty, if_neg Bool.false_ne_true, directAction, hsplit, Option.bind_some]
    dsimp only
    rw [h.attacker.observed_eq, Option.bind_some]
    dsimp only
    rw [observed_plain h.defender, Option.map_some, hability]
    rfl
  obtain ⟨damage, hparse, hattacker, hdefender, hamount, hspell, hkind⟩ := hdirect
  exact readAs_iff.mpr ⟨h.unquoted, damage, (directSpell_iff.mpr ⟨h.noMelee, hparse, hkind⟩).1, hattacker, hdefender, hamount, hspell, hkind⟩

/-- A direct line is read as it was written exactly if its separators are found where they were written. -/
theorem direct_iff : hit.ReadAs hit.directLine .directSpell ↔ DirectSeparated hit :=
  ⟨hit.separated_of_direct, hit.direct_of_separated⟩

end SpellHit

end Stonemite.Eqlog
