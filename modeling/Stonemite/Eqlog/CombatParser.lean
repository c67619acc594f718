import Stonemite.Lib.Parsing
import Stonemite.Lib.Substring

/-!
# The combat parser

The combat facts of a log line: damage in four grammars, attempts without damage, taunts, deaths and attacks that are
blocked. A line that looks like quoted chat has none.
-/

namespace Stonemite

namespace Str

/-- `str::split_once` at a text. -/
abbrev splitOnceStr (s pat : Str) : Option (Str × Str) := splitFirst pat s

/-- `str::rsplit_once` at a text. -/
abbrev rsplitOnceStr (s pat : Str) : Option (Str × Str) := splitLast pat s

/-- `str::contains` of a text. -/
def containsStr (s pat : Str) : Bool := (splitFirst pat s).isSome

def stripSuffix (s suf : Str) : Option Str := if suf.isSuffixOf s then some (s.take (s.length - suf.length)) else none

def endsWith (s suf : Str) : Bool := suf.isSuffixOf s

def trimStart (s : Str) : Str := s.dropWhile isWhitespace

/-- The words of a text with the part of a word before it; `str::split_whitespace`. -/
def wordsFrom : Str → Str → List Str
  | word, [] => if word.isEmpty then [] else [word]
  | word, c :: s =>
    if isWhitespace c then (if word.isEmpty then [] else [word]) ++ wordsFrom [] s else wordsFrom (word ++ [c]) s

def splitWhitespace (s : Str) : List Str := wordsFrom [] s

end Str

namespace Eqlog

/-! ### Observations -/

/-- How a line names a combatant. -/
inductive Perspective
  | named
  | you
  | your
  | yourself
deriving DecidableEq, Repr

/-- A combatant as a line names it. -/
structure ObservedCombatant where
  name : Str
  perspective : Perspective
deriving DecidableEq, Repr

/-- The character whose log it is. -/
def ObservedCombatant.you : ObservedCombatant := ⟨"You".toList, .you⟩

inductive DamageKind
  | melee
  | directSpell
  | damageOverTime
  | damageShield
  | bane
  | pet
  | otherIncluded
deriving DecidableEq, Repr

inductive DamageOutcome
  | hit
  | miss
  | dodge
  | parry
  | block
  | riposte
  | invulnerable
  | absorbed
  | rejected
deriving DecidableEq, Repr

/-- What a line says of a hit in parentheses. -/
structure DamageModifiers where
  critical : Bool
  lucky : Bool
  strikethrough : Bool
  wildRampage : Bool
  twincast : Bool
deriving DecidableEq, Repr

inductive ParserProvenance
  | melee
  | directSpell
  | periodicSpell
  | nonMelee
  | combatAttempt
deriving DecidableEq, Repr

structure DamageObservation where
  attacker : ObservedCombatant
  explicitOwner : Option ObservedCombatant
  defender : ObservedCombatant
  amount : Nat
  kind : DamageKind
  ability : Option Str
  outcome : DamageOutcome
  modifiers : DamageModifiers
  provenance : ParserProvenance
deriving DecidableEq, Repr

/-- An attempt that a line tells of. -/
structure CombatAttempt where
  attacker : ObservedCombatant
  defender : ObservedCombatant
  outcome : DamageOutcome
  kind : DamageKind
  ability : Option Str
  provenance : ParserProvenance
deriving DecidableEq, Repr

/-- A death that a line tells of. -/
structure TargetSlainObservation where
  target : ObservedCombatant
  killer : Option ObservedCombatant
deriving DecidableEq, Repr

/-- Why an attack was not possible. -/
inductive AttackProblem
  | outOfRange
  | tooClose
  | lineOfSight
deriving DecidableEq, Repr

/-- What a line tells of a fight. -/
inductive CombatEvent
  | damage (damage : DamageObservation)
  | attempt (attempt : CombatAttempt)
  | targetSlain (slain : TargetSlainObservation)
  | weaponDamageDealt
  | damageTaken
  | attackBlocked (problem : AttackProblem)
deriving DecidableEq, Repr

/-! ### Words and texts -/

/-- The melee verbs in their first and third persons. -/
def verbForms : List (Str × Str) :=
  [("backstab", "backstabs"), ("bash", "bashes"), ("bite", "bites"), ("claw", "claws"), ("crush", "crushes"),
    ("frenzy", "frenzies"), ("gore", "gores"), ("hit", "hits"), ("kick", "kicks"), ("maul", "mauls"),
    ("pierce", "pierces"), ("punch", "punches"), ("shoot", "shoots"), ("slash", "slashes"), ("smash", "smashes"),
    ("strike", "strikes")].map fun forms => (forms.1.toList, forms.2.toList)

def meleeVerbs : List Str := verbForms.flatMap fun forms => [forms.1, forms.2]

/-- The verb in the form of the third person. -/
def normalizeMeleeVerb (verb : Str) : Str :=
  match verbForms.find? fun forms => forms.1 = verb || forms.2 = verb with
  | some forms => forms.1
  | none => "melee".toList

def outOfRangeMessages : List Str :=
  ["Your target is out of range, get closer!", "Your target is too far away, get closer!",
    "Your target is too far away.", "You are too far away to attack that target."].map String.toList

def tooCloseMessages : List Str :=
  ["Your target is too close to use a ranged weapon!",
    "You are too close to your target. Get farther away."].map String.toList

def lineOfSightMessages : List Str :=
  ["You cannot see your target.", "You can't hit them from here."].map String.toList

def isNameEnd (c : Char) : Bool := c = '.' || c = '!' || c = ','

/-- How the name refers to a combatant. -/
def perspectiveOf (name : Str) : Perspective :=
  if name.eqIgnoreAsciiCase "you".toList then .you
  else if name.eqIgnoreAsciiCase "your".toList then .your
  else if name.eqIgnoreAsciiCase "yourself".toList then .yourself
  else .named

/-- A name, trimmed; none if nothing is left or a byte of it could not be read. -/
def observed (value : Str) : Option ObservedCombatant :=
  let name := value.trim.trimEndMatches isNameEnd
  if name.isEmpty || name.contains '\ufffd' then none else some ⟨name, perspectiveOf name⟩

/-- The owner of a pet that is named by its owner. -/
def petOwner (value : Str) : Option Str :=
  (value.stripSuffix "`s pet".toList).or (value.stripSuffix "'s pet".toList)

/-- A combatant and its owner, where the name has both. -/
def observedWithOwner (text : Str) : Option (ObservedCombatant × Option ObservedCombatant) :=
  let value := text.trim
  match (value.stripSuffix [')']).bind fun value => value.rsplitOnceStr " (Owner: ".toList with
  | some (pet, owner) => (observed pet).map fun pet => (pet, observed owner)
  | none => (observed value).map fun combatant => (combatant, (petOwner value).bind observed)

/-- The text without its modifiers, and without a period at its end. -/
def trimPeriodAndModifiers (value : Str) : Str :=
  ((((value.splitOnceStr ". (".toList).map (·.1)).getD value).trimEndMatches (· = '.')).trim

/-- The name of a spell without what may follow it. -/
def trimSpellSuffix (value : Str) : Str :=
  (((trimPeriodAndModifiers value).stripSuffix " spell".toList).getD (trimPeriodAndModifiers value)).trim

/-- Digits, or digits in groups of three. -/
def isAmount (value : Str) : Bool :=
  if value.contains ',' then
    match Str.split ',' value with
    | first :: groups =>
      !first.isEmpty && decide (first.length ≤ 3) && first.all Str.isAsciiDigit &&
        groups.all fun group => decide (group.length = 3) && group.all Str.isAsciiDigit
    | [] => false
  else !value.isEmpty && value.all Str.isAsciiDigit

def parseAmount (value : Str) : Option Nat :=
  if isAmount value then Str.parseUnsigned 64 (value.filter (· ≠ ',')) else none

/-- A number with the words after it. -/
def parsePointsOfDamage (value : Str) : Option Nat :=
  match (trimPeriodAndModifiers value).splitOnce ' ' with
  | some (amount, suffix) =>
    if suffix = "point of damage".toList || suffix = "points of damage".toList then parseAmount amount else none
  | none => none

def parseModifiers (body : Str) : DamageModifiers where
  critical := body.containsStr "Critical".toList
  lucky := body.containsStr "Lucky".toList
  strikethrough := body.containsStr "Strikethrough".toList
  wildRampage := body.containsStr "Wild Rampage".toList
  twincast := body.containsStr "Twincast".toList

/-- What stands before words that someone says. -/
def quotedFramings : List Str :=
  [" says, '", " tells you, '", " told you, '", " shouts, '", " auctions, '"].map String.toList

/-- The line tells what someone says. -/
def looksQuoted (body : Str) : Bool := quotedFramings.any fun framing => body.containsStr framing

/-! ### Melee damage -/

/-- The loop over the characters; `current` words have started. -/
def nthWordStartLoop (index : Nat) : Bool → Nat → Nat → Str → Option Nat
  | _, _, _, [] => none
  | inWord, current, offset, c :: rest =>
    if Str.isWhitespace c then nthWordStartLoop index false current (offset + 1) rest
    else if inWord then nthWordStartLoop index true current (offset + 1) rest
    else if current = index then some offset
    else nthWordStartLoop index true (current + 1) (offset + 1) rest

def nthWordStart (value : Str) (index : Nat) : Option Nat := nthWordStartLoop index false 0 0 value

/-- Where the words before an index end. -/
def nthWordEnd (value : Str) (indexAfter : Nat) : Option Nat :=
  if indexAfter = 0 then some 0
  else (nthWordStart value (indexAfter - 1)).map fun start =>
    ((value.drop start).findIdx? Str.isWhitespace).elim value.length (start + ·)

/-- The defender after a verb; what a frenzy is on follows a word more. -/
def meleeTarget (verb rest : Str) : Str :=
  if verb = "frenzy".toList || verb = "frenzies".toList then (rest.stripPrefix "on ".toList).getD rest else rest

/-- The attacker, the first melee verb and the defender. -/
def splitMeleeAction (action : Str) : Option (Str × Str × Str) :=
  let words := action.splitWhitespace
  (words.findIdx? fun word => meleeVerbs.contains word).bind fun verbIndex =>
    if verbIndex = 0 || words.length ≤ verbIndex + 1 then none
    else (nthWordStart action verbIndex).bind fun verbStart =>
      (nthWordEnd action (verbIndex + 1)).bind fun verbEnd =>
        let attacker := Str.trim (action.take verbStart)
        let verb := Str.trim ((action.take verbEnd).drop verbStart)
        let defender := meleeTarget verb (Str.trim (action.drop verbEnd))
        if attacker.isEmpty || defender.isEmpty then none else some (attacker, verb, defender)

def parseMeleeDamage (body : Str) : Option DamageObservation :=
  (body.rsplitOnceStr " for ".toList).bind fun (action, damageText) =>
    (parsePointsOfDamage damageText).bind fun amount =>
      (splitMeleeAction action).bind fun (attackerText, verb, defenderText) =>
        (observedWithOwner attackerText).bind fun (attacker, explicitOwner) =>
          (observed defenderText).map fun defender =>
            { attacker := attacker
              explicitOwner := explicitOwner
              defender := defender
              amount := amount
              kind := if explicitOwner.isSome then .pet else .melee
              ability := some (normalizeMeleeVerb verb)
              outcome := .hit
              modifiers := parseModifiers body
              provenance := .melee }

/-! ### Spell damage -/

/-- The text before and after the verb of a spell's hit. -/
def splitHit (action : Str) : Option (Str × Str) :=
  (action.splitOnceStr " hits ".toList).or (action.splitOnceStr " hit ".toList)

def parseDirectSpellDamage (body : Str) : Option DamageObservation :=
  (body.rsplitOnceStr " for ".toList).bind fun (action, damageText) =>
    (damageText.splitOnceStr " point".toList).bind fun (amountText, tail) =>
      (parseAmount amountText).bind fun amount =>
        ((tail.stripPrefix "s of ".toList).or (tail.stripPrefix " of ".toList)).bind fun tail =>
          (tail.splitOnceStr " damage by ".toList).bind fun (_, abilityText) =>
            let ability := trimPeriodAndModifiers abilityText
            if ability.isEmpty then none
            else (splitHit action).bind fun (attackerText, defenderText) =>
              (observedWithOwner attackerText).bind fun (attacker, explicitOwner) =>
                (observed defenderText).map fun defender =>
                  { attacker := attacker
                    explicitOwner := explicitOwner
                    defender := defender
                    amount := amount
                    kind := if explicitOwner.isSome then .pet else .directSpell
                    ability := some ability
                    outcome := .hit
                    modifiers := parseModifiers body
                    provenance := .directSpell }

/-- Who a damage shield is of, and its name. -/
def shieldSource (source : Str) : Option (Str × Str) :=
  match source.stripPrefix "YOUR ".toList with
  | some ability => some ("Your".toList, ability)
  | none => (source.splitOnceStr "'s ".toList).or (source.splitOnceStr "`s ".toList)

def parseDamageShield (body : Str) : Option DamageObservation :=
  (body.rsplitOnceStr " for ".toList).bind fun (action, damageText) =>
    ((trimPeriodAndModifiers damageText).splitOnce ' ').bind fun (amountText, suffix) =>
      if suffix ≠ "point of non-melee damage".toList && suffix ≠ "points of non-melee damage".toList then none
      else (parseAmount amountText).bind fun amount =>
        (action.splitOnceStr " is ".toList).bind fun (defenderText, verbSource) =>
          (verbSource.splitOnceStr " by ".toList).bind fun (_, source) =>
            (shieldSource source).bind fun (attackerText, ability) =>
              (observedWithOwner attackerText).bind fun (attacker, explicitOwner) =>
                (observed defenderText).map fun defender =>
                  { attacker := attacker
                    explicitOwner := explicitOwner
                    defender := defender
                    amount := amount
                    kind := .damageShield
                    ability := some ability
                    outcome := .hit
                    modifiers := parseModifiers body
                    provenance := .nonMelee }

/-- The text after the number of a damage shield. -/
def stripPointsNonMeleePrefix (value : Str) : Option Str :=
  ((value.stripPrefix "points of ".toList).or (value.stripPrefix "point of ".toList)).bind fun tail =>
    (tail.stripPrefix "non-melee damage from ".toList).or (tail.stripPrefix "damage from ".toList)

/-- The spell of a periodic damage and who cast it. -/
def periodicSource (text : Str) : Option (Str × Str) :=
  let source := trimPeriodAndModifiers text
  match source.stripPrefix "your ".toList with
  | some ability => some (trimSpellSuffix ability, "Your".toList)
  | none => (source.rsplitOnceStr " by ".toList).map fun (ability, attacker) => (trimSpellSuffix ability, trimSpellSuffix attacker)

/-- The text before and after the verb of a spell's damage over time. -/
def splitTaken (body : Str) : Option (Str × Str) :=
  (body.splitOnceStr " has taken ".toList).or (body.splitOnceStr " have taken ".toList)

def parsePeriodicDamage (body : Str) : Option DamageObservation :=
  (splitTaken body).bind fun (defenderText, taken) =>
    let bane := "an extra ".toList.isPrefixOf taken
    let remainder := (taken.stripPrefix "an extra ".toList).getD taken
    (remainder.findIdx? Str.isWhitespace).bind fun amountEnd =>
      (parseAmount (remainder.take amountEnd)).bind fun amount =>
        let afterAmount := Str.trimStart (remainder.drop amountEnd)
        ((afterAmount.stripPrefix "damage from ".toList).or (stripPointsNonMeleePrefix afterAmount)).bind fun source =>
          (periodicSource source).bind fun (ability, attackerText) =>
            if ability.isEmpty || attackerText.isEmpty then none
            else (observedWithOwner attackerText).bind fun (attacker, explicitOwner) =>
              (observed defenderText).map fun defender =>
                { attacker := attacker
                  explicitOwner := explicitOwner
                  defender := defender
                  amount := amount
                  kind := if explicitOwner.isSome then .pet else if bane then .bane else .damageOverTime
                  ability := some ability
                  outcome := .hit
                  modifiers := parseModifiers body
                  provenance := .periodicSpell }

def parseDamage (body : Str) : Option DamageObservation :=
  (parseMeleeDamage body).or ((parseDirectSpellDamage body).or ((parseDamageShield body).or (parsePeriodicDamage body)))

/-! ### Attempts and deaths -/

def parseRejectedDamageAttempt (body : Str) : Option CombatAttempt :=
  (body.rsplitOnceStr " for ".toList).bind fun (action, damageText) =>
    let damageText := trimPeriodAndModifiers damageText
    if !(damageText.endsWith "point of damage".toList || damageText.endsWith "points of damage".toList) ||
        (parsePointsOfDamage damageText).isSome then none
    else (splitMeleeAction action).bind fun (attackerText, verb, defenderText) =>
      (observedWithOwner attackerText).bind fun (attacker, _) =>
        (observed defenderText).map fun defender =>
          ⟨attacker, defender, .rejected, .melee, some (normalizeMeleeVerb verb), .combatAttempt⟩

/-- The outcome that the end of an attempt tells, in any case. -/
def attemptOutcome (result : Str) : Option DamageOutcome :=
  let resultLower := result.toAsciiLowercase
  if resultLower.containsStr "invulnerable".toList then some .invulnerable
  else if resultLower.containsStr "dodge".toList then some .dodge
  else if resultLower.containsStr "parr".toList then some .parry
  else if resultLower.containsStr "block".toList then some .block
  else if resultLower.containsStr "riposte".toList then some .riposte
  else if resultLower.containsStr "absorb".toList then some .absorbed
  else if resultLower.containsStr "miss".toList then some .miss
  else none

def parseAttempt (body : Str) : Option CombatAttempt :=
  ((body.splitOnceStr " tries to ".toList).or (body.splitOnceStr " try to ".toList)).bind fun (attackerText, remainder) =>
    (remainder.splitOnceStr ", but ".toList).bind fun (action, result) =>
      (action.splitOnce ' ').bind fun (verb, defenderText) =>
        if !meleeVerbs.contains verb || defenderText.trim.isEmpty then none
        else (attemptOutcome result).bind fun outcome =>
          (observedWithOwner attackerText).bind fun (attacker, _) =>
            (observed defenderText).map fun defender =>
              ⟨attacker, defender, outcome, .melee, some (normalizeMeleeVerb verb), .combatAttempt⟩

def parseTaunt (body : Str) : Option CombatAttempt :=
  match (body.stripPrefix "You capture ".toList).bind fun value => value.stripSuffix "'s attention!".toList with
  | some target =>
    (observed target).map fun target => ⟨.you, target, .rejected, .otherIncluded, some "taunt".toList, .combatAttempt⟩
  | none =>
    (body.stripSuffix " due to an improved taunt.".toList).bind fun value =>
      (value.splitOnceStr " is focused on attacking ".toList).bind fun (target, participant) =>
        (observed target).bind fun target => (observed participant).map fun participant =>
          ⟨target, participant, .rejected, .otherIncluded, some "improved taunt".toList, .combatAttempt⟩

def parseSlain (body : Str) : Option TargetSlainObservation :=
  match (body.stripPrefix "You have slain ".toList).bind fun value => value.stripSuffix ['!'] with
  | some target => (observed target).map fun target => ⟨target, some .you⟩
  | none =>
    match ((body.stripSuffix ['!']).bind fun value => value.splitOnceStr " was slain by ".toList).or
        ((body.stripSuffix ['!']).bind fun value => value.splitOnceStr " has been slain by ".toList) with
    | some (target, killer) => (observed target).map fun target => ⟨target, observed killer⟩
    | none => ((body.stripSuffix " died.".toList).bind observed).map fun target => ⟨target, none⟩

/-! ### Lines -/

/-- The problem that the line tells of. -/
def blockedProblem (body : Str) : Option AttackProblem :=
  if outOfRangeMessages.contains body then some .outOfRange
  else if tooCloseMessages.contains body then some .tooClose
  else if lineOfSightMessages.contains body then some .lineOfSight
  else none

/-- The events of a line of damage. -/
def damageEvents (damage : DamageObservation) : List CombatEvent :=
  (if damage.attacker.perspective = .you then [.weaponDamageDealt] else []) ++
    (if damage.defender.perspective = .you then [.damageTaken] else []) ++ [.damage damage]

/-- The events of the combat parser for a line. -/
def parseCombat (body : Str) : List CombatEvent :=
  if looksQuoted body then []
  else
    match parseDamage body with
    | some damage => damageEvents damage
    | none =>
      match (parseRejectedDamageAttempt body).or ((parseAttempt body).or (parseTaunt body)) with
      | some attempt => [.attempt attempt]
      | none =>
        match parseSlain body with
        | some slain => [.targetSlain slain]
        | none => ((blockedProblem body).map CombatEvent.attackBlocked).toList

end Eqlog

end Stonemite
