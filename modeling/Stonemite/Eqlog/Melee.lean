import Stonemite.Eqlog.Names
import Stonemite.Eqlog.Words

/-!
# Melee damage lines

A line of melee damage is written from an attacker, a verb, a defender, an amount and modifiers, and read back as one
observation of them if both names could be read. `ReadableHit` packs the names that can be read with the rest of a hit;
for these `melee_round_trip` reads the line back.
-/

namespace Stonemite.Eqlog

open Str

/-- The verb is followed by `on`. -/
def isFrenzy (verb : Str) : Bool := verb = "frenzy".toList || verb = "frenzies".toList

/-- The defender as it is written; a frenzy may be written to be on it. -/
def writtenTarget (verb : Str) (on : Bool) (defender : Str) : Str :=
  if isFrenzy verb && on then "on ".toList ++ defender else defender

/-- A name as a line of damage may have it. -/
structure Combatant (name : Str) : Prop where
  nonempty : name ≠ []
  trimmed : name.Trimmed
  unmarked : ∀ c, name.getLast? = some c → isNameEnd c = false
  unowned : ¬ OwnerForm name
  noPet : petOwner name = none

/-- What follows the amount of a line. -/
def meleeTail (singular : Bool) (modifiers : Option Str) : Str :=
  (if singular then " point of damage.".toList else " points of damage.".toList) ++
    match modifiers with
    | none => []
    | some modifiers => " (".toList ++ modifiers ++ [')']

def meleeLine (attacker verb : Str) (on : Bool) (defender amountText : Str) (singular : Bool) (modifiers : Option Str) : Str :=
  action attacker verb (writtenTarget verb on defender) ++ " for ".toList ++ (amountText ++ meleeTail singular modifiers)

/-- What a line of melee damage is written from. -/
structure MeleeHit where
  attacker : Str
  verb : Str
  on : Bool
  defender : Str
  amountText : Str
  amount : Nat
  singular : Bool
  modifiers : Option Str
  attackerName : Combatant attacker
  noVerb : ∀ word ∈ attacker.splitWhitespace, word ∉ meleeVerbs
  isVerb : verb ∈ meleeVerbs
  onPlain : isFrenzy verb = true → on = false → ¬ "on ".toList <+: defender
  defenderName : Combatant defender
  isAmount : AllDigits amountText ∨ Grouped amountText
  amountEq : amount = amountValue amountText
  fits : amount < 2 ^ 64
  modifiersPlain : ∀ text, modifiers = some text → ¬ " for ".toList <:+: text
  unquoted : looksQuoted (meleeLine attacker verb on defender amountText singular modifiers) = false

namespace MeleeHit

def line (hit : MeleeHit) : Str :=
  meleeLine hit.attacker hit.verb hit.on hit.defender hit.amountText hit.singular hit.modifiers

def damages (events : List CombatEvent) : List DamageObservation :=
  events.filterMap fun event =>
    match event with
    | .damage damage => some damage
    | _ => none

/-- The line is read as one observation of what it is written from. -/
def RoundTrip (hit : MeleeHit) : Prop :=
  ∃ damage, damages (parseCombat hit.line) = [damage] ∧ damage.attacker.name = hit.attacker ∧
    damage.ability = some (normalizeMeleeVerb hit.verb) ∧ damage.defender.name = hit.defender ∧
      damage.amount = hit.amount ∧ damage.kind = .melee

/-- Every character of the names could be read. -/
def Readable (hit : MeleeHit) : Prop := '\ufffd' ∉ hit.attacker ∧ '\ufffd' ∉ hit.defender

end MeleeHit

/-! ### The amount of a line -/

section
variable {amountText : Str} (hamount : AllDigits amountText ∨ Grouped amountText)
include hamount

theorem amount_chars {c : Char} (h : c ∈ amountText) : (isAsciiDigit c || c = ',') = true := by
  by_cases hcomma : c = ','
  · simp [hcomma]
  · have hdigit := (digits_of_amount hamount).2 c (List.mem_filter.mpr ⟨h, by simpa using hcomma⟩)
    rw [hdigit]
    rfl

theorem amount_ne_nil : amountText ≠ [] := by
  rintro rfl
  exact (digits_of_amount hamount).1 rfl

theorem infix_amount_iff {pat a b : Str} (hpat : pat.all (fun c => !(isAsciiDigit c || c = ',')) = true) :
    pat <:+: a ++ amountText ++ b ↔ pat <:+: a ∨ pat <:+: b := by
  refine infix_append_append_iff (amount_ne_nil hamount) fun c hc hmem => ?_
  have hchar := List.all_eq_true.mp hpat c hmem
  rw [amount_chars hamount hc] at hchar
  cases hchar

theorem amount_nonspace {c : Char} (h : c ∈ amountText) : isWhitespace c = false := by
  rcases Bool.or_eq_true_iff.mp (amount_chars hamount h) with hdigit | hcomma
  · have hbounds : 48 ≤ c.toNat ∧ c.toNat ≤ 57 := by
      simpa [isAsciiDigit, Char.le_def, UInt32.le_iff_toNat_le] using hdigit
    simp only [isWhitespace, Bool.or_eq_false_iff, Bool.and_eq_false_iff, decide_eq_false_iff_not, beq_eq_false_iff_ne]
    omega
  · rw [of_decide_eq_true hcomma]
    decide

theorem space_notMem_amount : ' ' ∉ amountText := fun h => absurd (amount_chars hamount h) (by decide)

/-- The text of points of damage stands for its amount, whatever modifiers follow it. -/
theorem parsePointsOfDamage_text {unit suffix : Str} (hunit : unit = "point of damage".toList ∨ unit = "points of damage".toList)
    (hsuffix : suffix = ['.'] ∨ ∃ modifiers, suffix = ". (".toList ++ modifiers) :
    parsePointsOfDamage (amountText ++ ' ' :: unit ++ suffix) = parseAmount amountText := by
  obtain ⟨hlast, hin⟩ : (' ' :: unit).getLast? = some 'e' ∧ ¬ ". (".toList <:+: ' ' :: unit ++ ['.', ' '] := by
    rcases hunit with rfl | rfl
    · exact ⟨by decide +kernel, by decide +kernel⟩
    · exact ⟨by decide +kernel, by decide +kernel⟩
  have hpat : ". (".toList.all (fun c => !(isAsciiDigit c || c = ',')) = true := by decide
  have hend : (amountText ++ ' ' :: unit).getLast? = some 'e' := by
    rw [List.getLast?_append, hlast]
    rfl
  have htrimmed : (amountText ++ ' ' :: unit).Trimmed := by
    constructor
    · intro c hc
      rw [List.head?_append_of_ne_nil _ (amount_ne_nil hamount)] at hc
      exact amount_nonspace hamount (List.mem_of_head? hc)
    · intro c hc
      rw [hend] at hc
      cases hc
      decide
  have hdots : trimEndMatches (· = '.') (amountText ++ ' ' :: unit) = amountText ++ ' ' :: unit := by
    refine trimEndMatches_of_getLast fun c hc => ?_
    rw [hend] at hc
    cases hc
    rfl
  have htrim : trimPeriodAndModifiers (amountText ++ ' ' :: unit ++ suffix) = amountText ++ ' ' :: unit := by
    rcases hsuffix with rfl | ⟨modifiers, rfl⟩
    · have hnone : splitFirst ". (".toList (amountText ++ ' ' :: unit ++ ['.']) = none := by
        rw [splitFirst_eq_none_iff (by decide), List.append_assoc, ← List.nil_append (amountText ++ _), ← List.append_assoc,
          infix_amount_iff hamount hpat]
        rintro (h | h)
        · exact absurd (List.infix_nil.mp h) (by decide)
        · refine hin (h.trans ⟨[], [' '], ?_⟩)
          simp
      rw [trimPeriodAndModifiers, splitOnceStr, hnone]
      refine (congrArg trim ?_).trans (trim_of_trimmed htrimmed)
      exact (trimEndMatches_append_singleton (by decide) _).trans hdots
    · have hsome : splitFirst ". (".toList (amountText ++ ' ' :: unit ++ (". (".toList ++ modifiers)) =
          some (amountText ++ ' ' :: unit, modifiers) := by
        refine (splitFirst_eq_some_iff (by decide)).mpr ⟨by simp, fun h => ?_⟩
        rw [List.append_assoc, ← List.nil_append (amountText ++ _), ← List.append_assoc, infix_amount_iff hamount hpat] at h
        rcases h with h | h
        · exact absurd (List.infix_nil.mp h) (by decide)
        · exact hin h
      rw [trimPeriodAndModifiers, splitOnceStr, hsome]
      exact (congrArg trim hdots).trans (trim_of_trimmed htrimmed)
  rw [parsePointsOfDamage, htrim, splitOnce_append _ (space_notMem_amount hamount)]
  dsimp only
  rw [if_pos]
  rw [Bool.or_eq_true, decide_eq_true_iff, decide_eq_true_iff]
  exact hunit

theorem splitLast_amount {a tail : Str} (htail : ¬ " for ".toList <:+: tail) :
    splitLast " for ".toList (a ++ " for ".toList ++ (amountText ++ tail)) = some (a, amountText ++ tail) := by
  refine (splitLast_eq_some_iff (by decide)).mpr ⟨rfl, ?_⟩
  rw [← List.append_assoc, infix_amount_iff hamount (by decide)]
  rintro (h | h)
  · exact absurd h (by decide)
  · exact htail h

end

/-! ### The round trip -/

theorem meleeTail_eq (singular : Bool) (modifiers : Option Str) :
    ∃ unit suffix, (unit = "point of damage".toList ∨ unit = "points of damage".toList) ∧
      (suffix = ['.'] ∨ ∃ text, suffix = ". (".toList ++ text) ∧ meleeTail singular modifiers = ' ' :: unit ++ suffix := by
  obtain ⟨unit, hunit, htext⟩ : ∃ unit, (unit = "point of damage".toList ∨ unit = "points of damage".toList) ∧
      (if singular then " point of damage.".toList else " points of damage.".toList) = ' ' :: unit ++ ['.'] := by
    cases singular with
    | false => exact ⟨"points of damage".toList, .inr rfl, by decide +kernel⟩
    | true => exact ⟨"point of damage".toList, .inl rfl, by decide +kernel⟩
  cases modifiers with
  | none => exact ⟨unit, ['.'], hunit, .inl rfl, by rw [meleeTail, htext, List.append_nil]⟩
  | some modifiers =>
    have hopen : ['.'] ++ " (".toList = ". (".toList := by decide
    refine ⟨unit, ". (".toList ++ (modifiers ++ [')']), hunit, .inr ⟨_, rfl⟩, ?_⟩
    rw [meleeTail, htext, ← hopen]
    simp only [List.append_assoc]

theorem for_notInfix_tail (singular : Bool) {modifiers : Option Str}
    (h : ∀ text, modifiers = some text → ¬ " for ".toList <:+: text) :
    ¬ " for ".toList <:+: meleeTail singular modifiers := by
  have hunit : ∀ singular : Bool, ¬ " for ".toList <:+: (if singular then " point of damage.".toList
      else " points of damage.".toList) ++ [' '] := by decide +kernel
  cases modifiers with
  | none => exact fun hin => hunit singular (hin.trans (by rw [meleeTail, List.append_nil]; exact (List.prefix_append _ _).isInfix))
  | some modifiers =>
    have hsplit : meleeTail singular (some modifiers) = ((if singular then " point of damage.".toList
        else " points of damage.".toList) ++ [' ']) ++ '(' :: (modifiers ++ ')' :: []) := by
      have hopen : " (".toList = [' ', '('] := by decide
      rw [meleeTail, hopen]
      simp only [List.append_assoc, List.cons_append, List.nil_append]
    intro hin
    rw [hsplit] at hin
    rcases (infix_append_cons_iff (c := '(') (by decide)).mp hin with hin | hin
    · exact hunit singular hin
    rcases (infix_append_cons_iff (c := ')') (by decide)).mp hin with hin | hin
    · exact h modifiers rfl hin
    · exact absurd (List.infix_nil.mp hin) (by decide)

theorem meleeTarget_writtenTarget {verb defender : Str} {on : Bool}
    (h : isFrenzy verb = true → on = false → ¬ "on ".toList <+: defender) :
    meleeTarget verb (writtenTarget verb on defender) = defender := by
  have htarget : ∀ rest, meleeTarget verb rest = if isFrenzy verb then (rest.stripPrefix "on ".toList).getD rest else rest :=
    fun _ => rfl
  rw [htarget, writtenTarget]
  cases hfrenzy : isFrenzy verb with
  | false => rfl
  | true =>
    rw [if_pos rfl, Bool.true_and]
    cases on with
    | true => rw [if_pos rfl, stripPrefix_eq_some.mpr rfl, Option.getD_some]
    | false =>
      rw [if_neg Bool.false_ne_true]
      have hnone : defender.stripPrefix "on ".toList = none := by
        rw [Option.eq_none_iff_forall_ne_some]
        exact fun t ht => h hfrenzy rfl ⟨t, (stripPrefix_eq_some.mp ht).symm⟩
      rw [hnone, Option.getD_none]

theorem writtenTarget_trimmed {defender : Str} (hne : defender ≠ []) (h : defender.Trimmed) (verb : Str) (on : Bool) :
    (writtenTarget verb on defender).Trimmed ∧ writtenTarget verb on defender ≠ [] := by
  rw [writtenTarget]
  split_ifs
  · have hon : "on ".toList = ['o', 'n', ' '] := by decide
    rw [hon]
    refine ⟨⟨fun c hc => ?_, fun c hc => h.2 c ?_⟩, List.cons_ne_nil _ _⟩
    · cases hc
      decide
    · rwa [List.getLast?_append_of_ne_nil _ hne] at hc
  · exact ⟨h, hne⟩

theorem Combatant.plain {name : Str} (h : Combatant name) (hread : '\ufffd' ∉ name) : PlainName name :=
  ⟨h.nonempty, h.trimmed, h.unmarked, hread⟩

theorem damages_damageEvents (damage : DamageObservation) : MeleeHit.damages (damageEvents damage) = [damage] := by
  rw [damageEvents]
  split_ifs <;> rfl

/-- A line of melee damage with names that could be read comes back. -/
theorem MeleeHit.roundTrip_of_readable (hit : MeleeHit) (h : hit.Readable) : hit.RoundTrip := by
  have htail := for_notInfix_tail hit.singular hit.modifiersPlain
  have hamount : parsePointsOfDamage (hit.amountText ++ meleeTail hit.singular hit.modifiers) = some hit.amount := by
    obtain ⟨unit, suffix, hunit, hsuffix, heq⟩ := meleeTail_eq hit.singular hit.modifiers
    rw [heq, ← List.append_assoc]
    exact (parsePointsOfDamage_text hit.isAmount hunit hsuffix).trans (parseAmount_iff.mpr ⟨hit.isAmount, hit.amountEq, hit.fits⟩)
  have hattacker := hit.attackerName.plain h.1
  have hdefender := hit.defenderName.plain h.2
  obtain ⟨hwritten, hwritten'⟩ := writtenTarget_trimmed hdefender.nonempty hdefender.trimmed hit.verb hit.on
  have htarget : meleeTarget hit.verb (writtenTarget hit.verb hit.on hit.defender) ≠ [] := by
    rw [meleeTarget_writtenTarget hit.onPlain]
    exact hdefender.nonempty
  have hsplit := splitMeleeAction_action hattacker.trimmed hattacker.nonempty hit.noVerb hit.isVerb hwritten hwritten' htarget
  rw [meleeTarget_writtenTarget hit.onPlain] at hsplit
  have hmelee : ∃ damage, parseMeleeDamage hit.line = some damage ∧ damage.attacker.name = hit.attacker ∧
      damage.ability = some (normalizeMeleeVerb hit.verb) ∧ damage.defender.name = hit.defender ∧
        damage.amount = hit.amount ∧ damage.kind = .melee := by
    refine ⟨⟨⟨hit.attacker, perspectiveOf hit.attacker⟩, none, ⟨hit.defender, perspectiveOf hit.defender⟩, hit.amount, .melee,
      some (normalizeMeleeVerb hit.verb), .hit, parseModifiers hit.line, .melee⟩, ?_, rfl, rfl, rfl, rfl, rfl⟩
    rw [parseMeleeDamage, rsplitOnceStr, line, meleeLine, splitLast_amount hit.isAmount htail, Option.bind_some]
    dsimp only
    rw [hamount, Option.bind_some, hsplit, Option.bind_some]
    dsimp only
    rw [observedWithOwner_plain hattacker hit.attackerName.unowned hit.attackerName.noPet, Option.bind_some]
    dsimp only
    rw [observed_plain hdefender, Option.map_some]
    rfl
  obtain ⟨damage, hparse, hfields⟩ := hmelee
  refine ⟨damage, ?_, hfields⟩
  have hunquoted : looksQuoted hit.line = false := hit.unquoted
  rw [parseCombat, hunquoted, parseDamage, hparse]
  exact damages_damageEvents damage

/-- What a line of melee damage is written from, with names that could be read. -/
structure ReadableHit extends MeleeHit where
  readable : toMeleeHit.Readable

/-- Such a line comes back as one observation, and a text is an amount exactly if it is all digits, or groups of them, and
fits a word. -/
theorem melee_round_trip :
    (∀ hit : ReadableHit, hit.RoundTrip) ∧ ∀ value n, parseAmount value = some n ↔
      (AllDigits value ∨ Grouped value) ∧ n = amountValue value ∧ n < 2 ^ 64 :=
  ⟨fun hit => hit.roundTrip_of_readable hit.readable, fun _ _ => parseAmount_iff⟩

theorem combatant_of_ends {name : Str} {first last : Char} (hfirst : name.head? = some first)
    (hlast : name.getLast? = some last) (hends : (isWhitespace first || isWhitespace last || isNameEnd last || last = ')') = false)
    (hpet : petOwner name = none) : Combatant name := by
  obtain ⟨⟨⟨h1, h2⟩, h3⟩, h4⟩ : ((isWhitespace first = false ∧ isWhitespace last = false) ∧ isNameEnd last = false) ∧ last ≠ ')' := by
    simpa using hends
  refine ⟨?_, ⟨fun c hc => ?_, fun c hc => ?_⟩, fun c hc => ?_, ?_, hpet⟩
  · rintro rfl
    cases hfirst
  · rw [hfirst] at hc
    cases hc
    exact h1
  · rw [hlast] at hc
    cases hc
    exact h2
  · rw [hlast] at hc
    cases hc
    exact h3
  · rintro ⟨pet, owner, heq⟩
    rw [heq, List.getLast?_append, List.getLast?_singleton] at hlast
    cases hlast
    exact h4 rfl

/-- A critical riposte on a defender whose name has a verb. -/
def ghoulHit : ReadableHit where
  attacker := "A wan ghoul knight".toList
  verb := "slashes".toList
  on := false
  defender := "a bat hits".toList
  amountText := "1,031".toList
  amount := 1031
  singular := false
  modifiers := some "Riposte Critical".toList
  attackerName := @combatant_of_ends _ 'A' 't' (by decide) (by decide) (by decide) (by decide)
  noVerb := by decide +kernel
  isVerb := by decide
  onPlain := nofun
  defenderName := @combatant_of_ends _ 'a' 's' (by decide) (by decide) (by decide) (by decide)
  isAmount := isAmount_iff.mp (by decide)
  amountEq := by decide
  fits := by decide
  modifiersPlain := by
    rintro _ ⟨⟩
    decide
  unquoted := by decide +kernel
  readable := ⟨by decide, by decide⟩

theorem melee_round_trip_ghoul :
    ghoulHit.line = "A wan ghoul knight slashes a bat hits for 1,031 points of damage. (Riposte Critical)".toList ∧
      ghoulHit.RoundTrip ∧ parseAmount ghoulHit.amountText = some 1031 :=
  ⟨by decide, melee_round_trip.1 ghoulHit,
    (melee_round_trip.2 _ _).mpr ⟨ghoulHit.isAmount, ghoulHit.amountEq, ghoulHit.fits⟩⟩

/-- A hit of an attacker whose name could not be read. -/
def unreadableHit : MeleeHit where
  attacker := ['\ufffd']
  verb := "hits".toList
  on := true
  defender := "Tolzol".toList
  amountText := ['5']
  amount := 5
  singular := false
  modifiers := none
  attackerName := @combatant_of_ends _ '\ufffd' '\ufffd' (by decide) (by decide) (by decide) (by decide)
  noVerb := by decide
  isVerb := by decide
  onPlain := nofun
  defenderName := @combatant_of_ends _ 'T' 'l' (by decide) (by decide) (by decide) (by decide)
  isAmount := .inl ⟨by decide, fun c hc => by rw [List.mem_singleton.mp hc]; decide⟩
  amountEq := by decide
  fits := by decide
  modifiersPlain := nofun
  unquoted := by decide

theorem unreadable_hit_lost : MeleeHit.damages (parseCombat unreadableHit.line) = [] ∧ ¬ unreadableHit.RoundTrip := by
  have hlost : MeleeHit.damages (parseCombat unreadableHit.line) = [] := by decide
  refine ⟨hlost, ?_⟩
  rintro ⟨damage, hdamage, -⟩
  rw [hlost] at hdamage
  cases hdamage

end Stonemite.Eqlog
