import Stonemite.Eqlog.DirectSpell

/-!
# Periodic spell damage lines

The line of a spell that damages over time, and when it is read back as it was written; with it the result for both lines
of a spell. `PeriodicSeparated` is the condition on the names, and `spell_lines_round_trip` the equivalence for both
lines.
-/

namespace Stonemite.Eqlog

open Str

namespace SpellHit

variable (hit : SpellHit)

/-- The spell and its caster at the end of a periodic line. -/
def periodicTail : Str := hit.spell ++ " by ".toList ++ (hit.attacker ++ ['.'])

def periodicTaken : Str := hit.amountText ++ (" damage from ".toList ++ hit.periodicTail)

/-- The line of a spell's damage over time. -/
def periodicLine : Str := hit.defender ++ " has taken ".toList ++ hit.periodicTaken

end SpellHit

/-- Each separator of the line is found where it was written. -/
structure PeriodicSeparated (hit : SpellHit) : Prop where
  unquoted : looksQuoted hit.periodicLine = false
  noMelee : parseMeleeDamage hit.periodicLine = none
  noDirect : parseDirectSpellDamage hit.periodicLine = none
  noShield : parseDamageShield hit.periodicLine = none
  noTaken : ¬ " has taken ".toList <:+: hit.defender ++ " has taken".toList
  noModifiers : ¬ ". (".toList <:+: hit.spell ++ " by ".toList ++ hit.attacker
  notYours : ¬ "your ".toList <+: hit.spell ++ " by ".toList ++ hit.attacker
  noBy : ¬ " by ".toList <:+: "by ".toList ++ hit.attacker
  attacker : Unowned hit.attacker
  attackerEnd : ¬ " spell".toList <:+ hit.attacker
  defender : PlainName hit.defender
  nonempty : hit.spell ≠ []
  trimmed : hit.spell.Trimmed
  spellEnd : ¬ " spell".toList <:+ hit.spell

variable {hit : SpellHit} {damage : DamageObservation} {line s : Str}

/-! ### Spells and casters -/

theorem trimSpellSuffix_append (s : Str) : ∃ pre suf, s = pre ++ trimSpellSuffix s ++ suf ∧ ∀ c ∈ pre, isWhitespace c = true := by
  obtain ⟨pre, suf, hs, hpre, -⟩ := trimPeriodAndModifiers_append s
  rw [trimSpellSuffix]
  cases hspell : (trimPeriodAndModifiers s).stripSuffix " spell".toList with
  | none =>
    rw [Option.getD_none, trim_of_trimmed (trimPeriodAndModifiers_trimmed s)]
    exact ⟨pre, suf, hs, hpre⟩
  | some value =>
    rw [Option.getD_some]
    rw [stripSuffix_eq_some] at hspell
    obtain ⟨pre', suf', htrim, hpre', -⟩ := trim_append value
    refine ⟨pre ++ pre', suf' ++ (" spell".toList ++ suf), ?_, fun c hc => (List.mem_append.mp hc).elim (hpre c) (hpre' c)⟩
    nth_rewrite 1 [hs]
    rw [hspell]
    nth_rewrite 1 [htrim]
    simp only [List.append_assoc]

theorem trimSpellSuffix_length (s : Str) : (trimSpellSuffix s).length ≤ s.length := by
  obtain ⟨pre, suf, hs, -⟩ := trimSpellSuffix_append s
  have hlength := congrArg List.length hs
  simp only [List.length_append] at hlength
  omega

theorem trimSpellSuffix_eq_self_iff (hend : s.getLast? ≠ some '.') :
    trimSpellSuffix s = s ↔ s.Trimmed ∧ ¬ ". (".toList <:+: s ∧ ¬ " spell".toList <:+ s := by
  obtain ⟨pre, suf, hs, -, hcut⟩ := trimPeriodAndModifiers_append s
  have hlength := congrArg List.length hs
  simp only [List.length_append] at hlength
  have hspell : (" spell".toList : Str).length = 6 := by decide
  constructor
  · intro h
    have hle : (trimSpellSuffix s).length ≤ (trimPeriodAndModifiers s).length := by
      rw [trimSpellSuffix]
      refine (trim_sublist _).length_le.trans ?_
      cases hstrip : (trimPeriodAndModifiers s).stripSuffix " spell".toList with
      | none => exact le_rfl
      | some value =>
        have hvalue := congrArg List.length (stripSuffix_eq_some.mp hstrip)
        rw [List.length_append] at hvalue
        rw [Option.getD_some]
        omega
    rw [h] at hle
    have hsame : trimPeriodAndModifiers s = s := by
      have hpre : pre = [] := List.length_eq_zero_iff.mp (by omega)
      have hsuf : suf = [] := List.length_eq_zero_iff.mp (by omega)
      rw [hpre, hsuf, List.nil_append, List.append_nil] at hs
      exact hs.symm
    refine ⟨hsame ▸ trimPeriodAndModifiers_trimmed s, fun hin => ?_, ?_⟩
    · have hlong := hcut hin
      omega
    · rintro ⟨value, hvalue⟩
      rw [trimSpellSuffix, hsame, stripSuffix_eq_some.mpr hvalue.symm, Option.getD_some] at h
      have hle' := (trim_sublist value).length_le
      have hvalue' := congrArg List.length hvalue
      rw [List.length_append, hspell] at hvalue'
      rw [h] at hle'
      omega
  · rintro ⟨htrimmed, hmods, hsuffix⟩
    have hsame : trimPeriodAndModifiers s = s := by
      rw [trimPeriodAndModifiers_uncut hmods, trimEndMatches_dots hend, trim_of_trimmed htrimmed]
    have hnone : s.stripSuffix " spell".toList = none := by
      rw [Option.eq_none_iff_forall_ne_some]
      exact fun t ht => hsuffix ⟨t, (stripSuffix_eq_some.mp ht).symm⟩
    rw [trimSpellSuffix, hsame, hnone, Option.getD_none, trim_of_trimmed htrimmed]

theorem getLast?_ne_dot {name : Str} (h : PlainName name) : name.getLast? ≠ some '.' := by
  intro hdot
  exact absurd (h.unmarked '.' hdot) (by decide)

theorem damageOverTime_iff : (parseDamage line = some damage ∧ damage.kind = .damageOverTime) ↔
    parseMeleeDamage line = none ∧ parseDirectSpellDamage line = none ∧ parseDamageShield line = none ∧
      parsePeriodicDamage line = some damage ∧ damage.kind = .damageOverTime := by
  rw [parseDamage]
  cases hmelee : parseMeleeDamage line with
  | some found =>
    refine iff_of_false ?_ fun hnone => Option.some_ne_none found hnone.1
    rintro ⟨h, hkind⟩
    cases h
    rcases kind_of_melee hmelee with h | h
    · rw [h] at hkind
      cases hkind
    · rw [h] at hkind
      cases hkind
  | none =>
    rw [Option.none_or]
    cases hdirect : parseDirectSpellDamage line with
    | some found =>
      refine iff_of_false ?_ fun hnone => Option.some_ne_none found hnone.2.1
      rintro ⟨h, hkind⟩
      cases h
      obtain ⟨_, _, _, _, _, _, _, _, owner, _, -, -, -, -, -, -, -, -, -, -, hdirect'⟩ := parseDirectSpellDamage_eq_some hdirect
      rw [hkind] at hdirect'
      split_ifs at hdirect'
    | none =>
      rw [Option.none_or]
      cases hshield : parseDamageShield line with
      | some found =>
        refine iff_of_false ?_ fun hnone => Option.some_ne_none found hnone.2.2.1
        rintro ⟨h, hkind⟩
        cases h
        rw [kind_of_shield hshield] at hkind
        cases hkind
      | none => simp

/-! ### The periodic line -/

/-- A defender that is read as it was written is before the first ` has taken `. -/
theorem splitTaken_eq {a b defenderText taken : Str} {combatant : ObservedCombatant}
    (h : splitTaken (a ++ " has taken ".toList ++ b) = some (defenderText, taken))
    (hdefender : observed defenderText = some combatant) (hname : combatant.name = a) :
    defenderText = a ∧ taken = b ∧ ¬ " has taken ".toList <:+: a ++ " has taken".toList := by
  have hle := observed_name_length hdefender
  rw [hname] at hle
  have htaken : (" has taken ".toList : Str) ≠ [] := by decide
  rw [splitTaken, splitOnceStr] at h
  cases hsplit : splitFirst " has taken ".toList (a ++ " has taken ".toList ++ b) with
  | none => exact absurd ⟨a, b, rfl⟩ ((splitFirst_eq_none_iff htaken).mp hsplit)
  | some parts =>
    rw [hsplit] at h
    cases h
    have hle' := splitFirst_length_le htaken hsplit rfl
    obtain ⟨heq, hfirst⟩ := (splitFirst_eq_some_iff htaken).mp hsplit
    rw [List.append_assoc, List.append_assoc] at heq
    obtain rfl := List.append_inj_left heq (by omega)
    have hinit : (" has taken ".toList : Str).dropLast = " has taken".toList := by decide
    rw [hinit] at hfirst
    exact ⟨rfl, (List.append_cancel_left (List.append_cancel_left heq)).symm, hfirst⟩

theorem splitTaken_first {a : Str} (b : Str) (h : ¬ " has taken ".toList <:+: a ++ " has taken".toList) :
    splitTaken (a ++ " has taken ".toList ++ b) = some (a, b) := by
  have hinit : (" has taken ".toList : Str).dropLast = " has taken".toList := by decide
  have hsplit : splitFirst " has taken ".toList (a ++ " has taken ".toList ++ b) = some (a, b) :=
    (splitFirst_eq_some_iff (by decide)).mpr ⟨rfl, by rw [hinit]; exact h⟩
  rw [splitTaken, splitOnceStr, hsplit]
  rfl

theorem trimStart_from (tail : Str) : trimStart (" damage from ".toList ++ tail) = "damage from ".toList ++ tail := by
  have hfrom : " damage from ".toList = ' ' :: 'd' :: "amage from ".toList := by decide
  have hfrom' : "damage from ".toList = 'd' :: "amage from ".toList := by decide
  rw [hfrom, hfrom', trimStart, List.cons_append, List.cons_append, List.dropWhile_cons_of_pos (by decide),
    List.dropWhile_cons_of_neg (by decide)]

namespace SpellHit

theorem periodicTaken_parts : "an extra ".toList.isPrefixOf hit.periodicTaken = false ∧
    hit.periodicTaken.stripPrefix "an extra ".toList = none ∧
    hit.periodicTaken.findIdx? isWhitespace = some hit.amountText.length ∧
    hit.periodicTaken.take hit.amountText.length = hit.amountText ∧
    trimStart (hit.periodicTaken.drop hit.amountText.length) = "damage from ".toList ++ hit.periodicTail := by
  have hextra : "an extra ".toList = 'a' :: "n extra ".toList := by decide
  have hstart : ¬ "an extra ".toList <+: hit.periodicTaken := by
    rw [hextra, periodicTaken]
    rintro ⟨rest, hrest⟩
    cases htext : hit.amountText with
    | nil => exact amount_ne_nil hit.isAmount htext
    | cons c amountText =>
      rw [htext] at hrest
      have hc := (List.cons.inj hrest).1
      have hchar := amount_chars hit.isAmount (c := c) (by rw [htext]; exact List.mem_cons_self)
      rw [← hc] at hchar
      exact absurd hchar (by decide)
  have hnone : hit.amountText.findIdx? isWhitespace = none := by
    rw [List.findIdx?_eq_none_iff]
    exact fun c hc => amount_nonspace hit.isAmount hc
  refine ⟨?_, ?_, ?_, List.take_left, ?_⟩
  · rw [Bool.eq_false_iff]
    exact fun h => hstart (List.isPrefixOf_iff_prefix.mp h)
  · rw [Option.eq_none_iff_forall_ne_some]
    exact fun t ht => hstart ⟨t, (stripPrefix_eq_some.mp ht).symm⟩
  · have hfrom : " damage from ".toList = ' ' :: "damage from ".toList := by decide
    rw [periodicTaken, hfrom, List.findIdx?_append, hnone, List.cons_append, List.findIdx?_cons, if_pos (by decide)]
    simp
  · rw [periodicTaken, List.drop_left, trimStart_from]

end SpellHit

/-! ### The source of a periodic line -/

/-- The counts of a letter tell a caster after ` by ` from one before the spell. -/
theorem not_your_source {spell source pre suf ability : Str} (hpre : ∀ c ∈ pre, isWhitespace c = true)
    (hsource : spell ++ " by ".toList ++ ("Your".toList ++ ['.']) = pre ++ source ++ suf)
    (hyour : source = "your ".toList ++ ability) : trimSpellSuffix ability ≠ spell := by
  intro hspell
  obtain ⟨pre', suf', hability, hpre'⟩ := trimSpellSuffix_append ability
  rw [hspell] at hability
  have htext : spell ++ " by ".toList ++ ("Your".toList ++ ['.']) = pre ++ "your ".toList ++ pre' ++ spell ++ (suf' ++ suf) := by
    rw [hsource, hyour, hability]
    simp only [List.append_assoc]
  have hcount := congrArg (List.count 'b') htext
  have hlength := congrArg List.length htext
  have hspace : ∀ {s : Str}, (∀ c ∈ s, isWhitespace c = true) → s.count 'b' = 0 := by
    intro s hs
    rw [List.count_eq_zero]
    exact fun hb => absurd (hs _ hb) (by decide)
  have h1 : (" by ".toList : Str).count 'b' = 1 := by decide
  have h2 : ("Your".toList : Str).count 'b' = 0 := by decide
  have h3 : ("your ".toList : Str).count 'b' = 0 := by decide
  have h4 : (['.'] : Str).count 'b' = 0 := by decide
  have hend : suf' ++ suf <:+ "our.".toList := by
    have hleft : suf' ++ suf <:+ spell ++ " by ".toList ++ ("Your".toList ++ ['.']) := by
      rw [htext]
      exact List.suffix_append _ _
    have hright : "our.".toList <:+ spell ++ " by ".toList ++ ("Your".toList ++ ['.']) := by
      have hour : "Your".toList ++ ['.'] = 'Y' :: "our.".toList := by decide
      rw [hour]
      exact (List.suffix_cons _ _).trans (List.suffix_append _ _)
    refine List.suffix_of_suffix_length_le hleft hright ?_
    have h5 : (" by ".toList : Str).length = 4 := by decide
    have h6 : ("Your".toList : Str).length = 4 := by decide
    have h7 : ("your ".toList : Str).length = 5 := by decide
    have h8 : ("our.".toList : Str).length = 4 := by decide
    rw [h8]
    simp only [List.length_append, List.length_singleton, h5, h6, h7] at hlength ⊢
    omega
  have h9 : (suf' ++ suf).count 'b' = 0 := by
    have hle := hend.sublist.count_le 'b'
    have hour : ("our.".toList : Str).count 'b' = 0 := by decide
    omega
  rw [List.count_append, List.count_append, List.count_append, List.count_append, List.count_append, List.count_append,
    List.count_append, h1, h2, h3, h4, h9, hspace hpre, hspace hpre'] at hcount
  omega

theorem observed_your : observedWithOwner "Your".toList = some (⟨"Your".toList, perspectiveOf "Your".toList⟩, none) := by
  decide

/-- A text that is left as long as it was before its period is left as it was. -/
theorem trimPeriodAndModifiers_long (h : s.length ≤ (trimPeriodAndModifiers (s ++ ['.'])).length) :
    trimPeriodAndModifiers (s ++ ['.']) = s ∧ ¬ ". (".toList <:+: s := by
  obtain ⟨pre, suf, hs, -, hcut⟩ := trimPeriodAndModifiers_append (s ++ ['.'])
  have hlength := congrArg List.length hs
  simp only [List.length_append, List.length_singleton] at hlength
  have hplain : ¬ ". (".toList <:+: s ++ ['.'] := fun hmods => by
    have hlong := hcut hmods
    omega
  rw [trimPeriodAndModifiers_uncut hplain, trimEndMatches_append_singleton (by decide)] at h ⊢
  have hsub : List.Sublist (trim (trimEndMatches (· = '.') s)) s := (trim_sublist _).trans (trimEndMatches_sublist _ _)
  exact ⟨hsub.eq_of_length_le h, modifiers_infix_concat.not.mp hplain⟩

namespace SpellHit

theorem periodicTail_eq : hit.periodicTail = (hit.spell ++ " by ".toList ++ hit.attacker) ++ ['.'] := by
  rw [periodicTail, ← List.append_assoc]

/-- A spell and a caster that are read as they were written are on both sides of the last ` by `. -/
theorem periodicSource_eq {ability attackerText : Str} {combatant : ObservedCombatant}
    (h : periodicSource hit.periodicTail = some (ability, attackerText)) (hspell : ability = hit.spell)
    (hattacker : observedWithOwner attackerText = some (combatant, none)) (hname : combatant.name = hit.attacker) :
    ¬ ". (".toList <:+: hit.spell ++ " by ".toList ++ hit.attacker ∧
      ¬ "your ".toList <+: hit.spell ++ " by ".toList ++ hit.attacker ∧ ¬ " by ".toList <:+: "by ".toList ++ hit.attacker ∧
      trimSpellSuffix hit.spell = hit.spell ∧ trimSpellSuffix hit.attacker = hit.attacker ∧ attackerText = hit.attacker := by
  rw [periodicSource] at h
  dsimp only at h
  cases hyour : (trimPeriodAndModifiers hit.periodicTail).stripPrefix "your ".toList with
  | some local' =>
    rw [hyour, Option.some_inj, Prod.mk.injEq] at h
    obtain ⟨hability, rfl⟩ := h
    rw [observed_your] at hattacker
    cases hattacker
    obtain ⟨pre, suf, hs, hpre, -⟩ := trimPeriodAndModifiers_append hit.periodicTail
    rw [periodicTail, ← hname] at hs
    rw [periodicTail, ← hname] at hyour
    exact absurd (hability.trans hspell) (not_your_source hpre hs (stripPrefix_eq_some.mp hyour))
  | none =>
    rw [hyour] at h
    obtain ⟨⟨spellText, casterText⟩, hsplit, heq⟩ := Option.map_eq_some_iff.mp h
    dsimp only at heq
    cases heq
    obtain ⟨hsource, hlast⟩ := (splitLast_eq_some_iff (by decide)).mp hsplit
    have hle := trimSpellSuffix_length spellText
    have hle' := trimSpellSuffix_length casterText
    obtain ⟨-, hle''⟩ := observedWithOwner_length hattacker
    rw [hspell] at hle
    rw [hname] at hle''
    have hlong : (hit.spell ++ " by ".toList ++ hit.attacker).length ≤ (trimPeriodAndModifiers hit.periodicTail).length := by
      rw [hsource]
      simp only [List.length_append]
      omega
    rw [periodicTail_eq] at hlong hsource hyour
    obtain ⟨hsame, hmods⟩ := trimPeriodAndModifiers_long hlong
    rw [hsame] at hsource hyour
    have hlength := congrArg List.length hsource
    simp only [List.length_append] at hlength
    obtain ⟨hleft, hright⟩ := List.append_inj' hsource (by omega)
    have hspellText := List.append_inj_left' hleft rfl
    rw [← hright] at hlast hle' ⊢
    rw [← hspellText] at hspell
    have hcaster : trimSpellSuffix hit.attacker = hit.attacker := by
      obtain ⟨pre, suf, hs, -⟩ := trimSpellSuffix_append hit.attacker
      have hs' := congrArg List.length hs
      rw [← hright] at hle''
      simp only [List.length_append] at hs'
      have hpre : pre = [] := List.length_eq_zero_iff.mp (by omega)
      have hsuf : suf = [] := List.length_eq_zero_iff.mp (by omega)
      rw [hpre, hsuf, List.nil_append, List.append_nil] at hs
      exact hs.symm
    refine ⟨hmods, ?_, ?_, hspell, hcaster, hcaster⟩
    · rintro ⟨rest, hrest⟩
      rw [stripPrefix_eq_some.mpr hrest.symm] at hyour
      cases hyour
    · have htail : (" by ".toList : Str).tail = "by ".toList := by decide
      rw [htail] at hlast
      exact hlast

theorem periodicSource_separated (h : PeriodicSeparated hit) : periodicSource hit.periodicTail = some (hit.spell, hit.attacker) := by
  have hdot := getLast?_ne_dot h.attacker.plain
  have hne := h.attacker.plain.nonempty
  have hlast : (hit.spell ++ " by ".toList ++ hit.attacker).getLast? = hit.attacker.getLast? := List.getLast?_append_of_ne_nil _ hne
  have htrimmed : (hit.spell ++ " by ".toList ++ hit.attacker).Trimmed := by
    constructor
    · intro c hc
      rw [List.append_assoc, List.head?_append_of_ne_nil _ h.nonempty] at hc
      exact h.trimmed.1 c hc
    · intro c hc
      rw [hlast] at hc
      exact h.attacker.plain.trimmed.2 c hc
  have hsource := trimPeriodAndModifiers_concat (by rw [hlast]; exact hdot) htrimmed h.noModifiers
  have hyour : (hit.spell ++ " by ".toList ++ hit.attacker).stripPrefix "your ".toList = none := by
    rw [Option.eq_none_iff_forall_ne_some]
    exact fun t ht => h.notYours ⟨t, (stripPrefix_eq_some.mp ht).symm⟩
  have htail : (" by ".toList : Str).tail = "by ".toList := by decide
  have hsplit : splitLast " by ".toList (hit.spell ++ " by ".toList ++ hit.attacker) = some (hit.spell, hit.attacker) :=
    (splitLast_eq_some_iff (by decide)).mpr ⟨rfl, by rw [htail]; exact h.noBy⟩
  have hspell : trimSpellSuffix hit.spell = hit.spell := (trimSpellSuffix_eq_self_iff hit.unended).mpr ⟨h.trimmed, fun hmods =>
    h.noModifiers (hmods.trans ((List.prefix_append _ _).trans (List.prefix_append _ _)).isInfix), h.spellEnd⟩
  have hattacker : trimSpellSuffix hit.attacker = hit.attacker := (trimSpellSuffix_eq_self_iff hdot).mpr
    ⟨h.attacker.plain.trimmed, fun hmods => h.noModifiers (hmods.trans (List.suffix_append _ _).isInfix), h.attackerEnd⟩
  rw [periodicSource, periodicTail_eq]
  dsimp only
  rw [hsource, hyour]
  dsimp only
  rw [rsplitOnceStr, hsplit, Option.map_some, hspell, hattacker]

/-! ### Both lines -/

theorem separated_of_periodic (h : hit.ReadAs hit.periodicLine .damageOverTime) : PeriodicSeparated hit := by
  obtain ⟨hunquoted, damage, hparse, hattacker, hdefender, -, hability, hkind⟩ := readAs_iff.mp h
  obtain ⟨hmelee, hdirect, hshield, hperiodic, -⟩ := damageOverTime_iff.mp ⟨hparse, hkind⟩
  obtain ⟨defenderText, taken, amountEnd, source, attackerText, owner, ability, htaken, hend, -, hsource, htext, hne, hobserved,
    hobserved', hability', hkind'⟩ := parsePeriodicDamage_eq_some hperiodic
  obtain ⟨rfl, rfl, hfirst⟩ := splitTaken_eq htaken hobserved' hdefender
  obtain ⟨-, hextra, hspace, -, hafter⟩ := hit.periodicTaken_parts
  rw [hextra, Option.getD_none] at hend hsource
  rw [hspace] at hend
  cases hend
  rw [hafter, stripPrefix_eq_some.mpr rfl, Option.some_or] at hsource
  cases hsource
  have howner : owner = none := by
    cases owner with
    | none => rfl
    | some owner =>
      rw [hkind] at hkind'
      cases hkind'
  rw [howner] at hobserved
  rw [hability', Option.some_inj] at hability
  obtain ⟨hmods, hyour, hby, hspell, hcaster, rfl⟩ := hit.periodicSource_eq htext hability hobserved hattacker
  have hunowned := unowned_of_observed hobserved hattacker
  rw [hability] at hne
  obtain ⟨htrimmed, -, hspellEnd⟩ := (trimSpellSuffix_eq_self_iff hit.unended).mp hspell
  obtain ⟨-, -, hcasterEnd⟩ := (trimSpellSuffix_eq_self_iff (getLast?_ne_dot hunowned.plain)).mp hcaster
  exact ⟨hunquoted, hmelee, hdirect, hshield, hfirst, hmods, hyour, hby, hunowned, hcasterEnd,
    observed_self_iff.mp ⟨_, hobserved', hdefender⟩, hne, htrimmed, hspellEnd⟩

theorem periodic_of_separated (h : PeriodicSeparated hit) : hit.ReadAs hit.periodicLine .damageOverTime := by
  obtain ⟨hbane, hextra, hspace, htake, hafter⟩ := hit.periodicTaken_parts
  have hempty : (hit.spell.isEmpty || hit.attacker.isEmpty) = false := by
    simpa using ⟨h.nonempty, h.attacker.plain.nonempty⟩
  have hperiodic : ∃ damage, parsePeriodicDamage hit.periodicLine = some damage ∧ damage.attacker.name = hit.attacker ∧
      damage.defender.name = hit.defender ∧ damage.amount = hit.amount ∧ damage.ability = some hit.spell ∧
        damage.kind = .damageOverTime := by
    refine ⟨⟨⟨hit.attacker, perspectiveOf hit.attacker⟩, none, ⟨hit.defender, perspectiveOf hit.defender⟩, hit.amount,
      .damageOverTime, some hit.spell, .hit, parseModifiers hit.periodicLine, .periodicSpell⟩, ?_, rfl, rfl, rfl, rfl, rfl⟩
    rw [parsePeriodicDamage, periodicLine, splitTaken_first _ h.noTaken, Option.bind_some]
    dsimp only
    rw [hextra, Option.getD_none, hspace, Option.bind_some, htake, hit.parseAmount_text, Option.bind_some, hafter,
      stripPrefix_eq_some.mpr rfl, Option.some_or, Option.bind_some, hit.periodicSource_separated h, Option.bind_some]
    dsimp only
    rw [hempty, if_neg Bool.false_ne_true, h.attacker.observed_eq, Option.bind_some]
    dsimp only
    rw [observed_plain h.defender, Option.map_some, hbane]
    rfl
  obtain ⟨damage, hparse, hattacker, hdefender, hamount, hspell, hkind⟩ := hperiodic
  exact readAs_iff.mpr ⟨h.unquoted, damage, (damageOverTime_iff.mpr ⟨h.noMelee, h.noDirect, h.noShield, hparse, hkind⟩).1,
    hattacker, hdefender, hamount, hspell, hkind⟩

/-- A periodic line is read as it was written exactly if its separators are found where they were written. -/
theorem periodic_iff : hit.ReadAs hit.periodicLine .damageOverTime ↔ PeriodicSeparated hit :=
  ⟨hit.separated_of_periodic, hit.periodic_of_separated⟩

end SpellHit

/-- Each line of a spell is read as one observation of it exactly if its separators are found where they were written. -/
theorem spell_lines_round_trip (hit : SpellHit) : (hit.ReadAs hit.directLine .directSpell ↔ DirectSeparated hit) ∧
    (hit.ReadAs hit.periodicLine .damageOverTime ↔ PeriodicSeparated hit) := ⟨hit.direct_iff, hit.periodic_iff⟩

/-- A hit by a spell with the separator of the amount in its name. -/
def callForHelp : SpellHit where
  attacker := "You".toList
  defender := "a gnoll".toList
  amountText := "123".toList
  amount := 123
  damageType := "fire".toList
  spell := "Call for Help".toList
  isAmount := .inl ⟨by decide, List.all_eq_true.mp (by decide)⟩
  amountEq := by decide
  fits := by decide
  unended := by decide

theorem call_for_help_lost : MeleeHit.damages (parseCombat callForHelp.directLine) = [] ∧
    ¬ callForHelp.ReadAs callForHelp.directLine .directSpell := by
  have hlost : MeleeHit.damages (parseCombat callForHelp.directLine) = [] := by decide +kernel
  refine ⟨hlost, ?_⟩
  rintro ⟨damage, hdamage, -⟩
  rw [hlost] at hdamage
  cases hdamage

end Stonemite.Eqlog
