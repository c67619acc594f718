import Stonemite.Lib.Substring
import Stonemite.Trigger.Literal
import Stonemite.Trigger.Macros

/-!
# The numbers a line must have

What a match captures is kept by name, the last capture for each, and the constraints of the pattern are checked on it.
The check tests the comparisons of a pattern whose bound and number fit 32 bits in ASCII digits, on the numbers that no
later capture hid. `Posed` are the comparisons that the pattern poses and `Tested` those that the check makes;
`constraints_gate_iff` says when these are the same.
-/

namespace Stonemite.Triggers

variable {P : Platform} {N : Numerals}

/-! ### What is captured -/

section
variable (P)

/-- The matches of a line, as `snapshotLoop` finds them. -/
def scans (regex : CompatRegex P) (text : Str) : Nat → Nat → List Captures
  | 0, _ => []
  | scans + 1, start =>
    if start > text.len then []
    else
      match P.capturesFromPos regex.regex text start with
      | .ok (some (some whole :: groups)) =>
        (some whole :: groups) ::
          Triggers.scans regex text scans (if whole.stop > whole.start then whole.stop else whole.stop + 1)
      | _ => []

/-- The groups of a match that took part, by name or number. -/
def namedGroups (captures : Captures) : Nat → List (Option Str) → List (Str × Str)
  | _, [] => []
  | slot, name :: names =>
    (match captures[slot]? with
      | some (some group) => [(name.getD (Str.decimal slot), group.text)]
      | _ => []) ++ namedGroups captures (slot + 1) names

/-- All that a line's matches capture, in order. -/
def captured (regex : CompatRegex P) (line : Str) : List (Str × Str) :=
  (scans P regex line 64 0).flatMap fun captures => namedGroups captures 1 (regex.groupNames.drop 1)

end

/-- What was last captured under a name. -/
def latest (pairs : List (Str × Str)) (name : Str) : Option Str :=
  (pairs.reverse.find? fun entry => entry.1.eqIgnoreAsciiCase name).map (·.2)

namespace MatchMap

def insertPair (map : MatchMap) (entry : Str × Str) : MatchMap := map.insert entry.1 entry.2

theorem insertGroups_eq (captures : Captures) (names : List (Option Str)) (slot : Nat) (map : MatchMap) :
    insertGroups captures slot names map = (namedGroups captures slot names).foldl insertPair map := by
  induction names generalizing slot map with
  | nil => rfl
  | cons name names ih =>
    rw [insertGroups, ih, namedGroups, List.foldl_append]
    rcases captures[slot]? with - | - | group <;> rfl

theorem captures_of_snapshotLoop (regex : CompatRegex P) (text : Str) (n start : Nat) (found : Bool)
    (before after : MatchOutcome) (h : snapshotLoop P regex text n start found before = .ok (some after)) :
    after.captures = ((scans P regex text n start).flatMap fun captures =>
      namedGroups captures 1 (regex.groupNames.drop 1)).foldl insertPair before.captures := by
  have hstop {found : Bool} {before : MatchOutcome}
      (h : (.ok (if found then some before else none) : Except RegexCompatError _) = .ok (some after)) :
      after.captures = before.captures := by
    obtain ⟨-, heq⟩ := Option.ite_none_right_eq_some.mp (Except.ok.inj h)
    rw [Option.some.inj heq]
  induction n generalizing start found before with
  | zero => exact hstop h
  | succ n ih =>
    unfold snapshotLoop at h
    unfold scans
    by_cases hlen : start > text.len
    · rw [if_pos hlen] at h ⊢
      exact hstop h
    · rw [if_neg hlen] at h ⊢
      rcases hfind : P.capturesFromPos regex.regex text start with error | - | - | ⟨- | whole, groups⟩ <;>
        rw [hfind] at h
      · cases h
      · exact hstop h
      · exact hstop h
      · exact hstop h
      · dsimp only at h ⊢
        rw [List.flatMap_cons, List.foldl_append, ← insertGroups_eq]
        exact ih _ _ _ h

theorem captures_eq (regex : CompatRegex P) (line : Str) (outcome : MatchOutcome)
    (h : regex.snapshotMatches P line = .ok (some outcome)) :
    outcome.captures = (captured P regex line).foldl insertPair .new :=
  captures_of_snapshotLoop regex line 64 0 false ⟨.new, []⟩ outcome h

/-! ### The map keeps the last capture for each name -/

/-- No two names of the map differ in case only. -/
def Distinct (map : MatchMap) : Prop := (map.entries.map fun entry => entry.1.toAsciiLowercase).Nodup

section
variable {map : MatchMap} {key name value : Str}

theorem get_insert (map : MatchMap) (key value name : Str) :
    (map.insert key value).get name = if key.eqIgnoreAsciiCase name then some value else map.get name := by
  obtain ⟨entries⟩ := map
  induction entries with
  | nil =>
    simp only [insert, insertLoop, get, List.find?_cons, List.find?_nil]
    cases key.eqIgnoreAsciiCase name <;> rfl
  | cons entry entries ih =>
    simp only [insert, insertLoop, get, List.find?_cons] at ih ⊢
    by_cases hkey : entry.1.eqIgnoreAsciiCase key = true
    · have hsame : entry.1.eqIgnoreAsciiCase name = key.eqIgnoreAsciiCase name := by
        rw [Str.eqIgnoreAsciiCase, Str.eqIgnoreAsciiCase, Str.eqIgnoreAsciiCase_iff.mp hkey]
      rw [if_pos hkey, List.find?_cons, hsame]
      cases key.eqIgnoreAsciiCase name <;> rfl
    · rw [if_neg hkey, List.find?_cons]
      cases hname : entry.1.eqIgnoreAsciiCase name with
      | false => exact ih
      | true =>
        have hother : ¬ key.eqIgnoreAsciiCase name = true := fun hkn => hkey (Str.eqIgnoreAsciiCase_iff.mpr
          ((Str.eqIgnoreAsciiCase_iff.mp hname).trans (Str.eqIgnoreAsciiCase_iff.mp hkn).symm))
        rw [if_neg hother]

theorem keys_insertLoop (key value : Str) (entries : List (Str × Str)) :
    (insertLoop key value entries).map (fun entry => entry.1.toAsciiLowercase) =
      if key.toAsciiLowercase ∈ entries.map (fun entry => entry.1.toAsciiLowercase) then
        entries.map fun entry => entry.1.toAsciiLowercase
      else entries.map (fun entry => entry.1.toAsciiLowercase) ++ [key.toAsciiLowercase] := by
  induction entries with
  | nil => rfl
  | cons entry entries ih =>
    rw [insertLoop]
    by_cases hkey : entry.1.eqIgnoreAsciiCase key = true
    · rw [if_pos hkey, if_pos]
      · rfl
      · rw [List.map_cons, Str.eqIgnoreAsciiCase_iff.mp hkey]
        exact List.mem_cons_self
    · have hne : key.toAsciiLowercase ≠ entry.1.toAsciiLowercase := fun heq => hkey (Str.eqIgnoreAsciiCase_iff.mpr heq.symm)
      rw [if_neg hkey, List.map_cons, ih, List.map_cons]
      split_ifs with hmem hcons hcons
      · rfl
      · exact absurd (List.mem_cons_of_mem _ hmem) hcons
      · exact absurd ((List.mem_cons.mp hcons).resolve_left hne) hmem
      · rfl

theorem Distinct.insert (h : map.Distinct) (key value : Str) : (map.insert key value).Distinct := by
  rw [Distinct, MatchMap.insert, keys_insertLoop]
  split_ifs with hmem
  · exact h
  · exact List.nodup_append.mpr ⟨h, List.nodup_singleton _, fun a ha b hb => by
      rintro rfl
      exact hmem (List.mem_singleton.mp hb ▸ ha)⟩

theorem Distinct.get_of_mem (h : map.Distinct) {entry : Str × Str} (hmem : entry ∈ map.entries) :
    map.get entry.1 = some entry.2 := by
  obtain ⟨entries⟩ := map
  induction entries with
  | nil => cases hmem
  | cons head entries ih =>
    obtain ⟨hhead, htail⟩ := List.nodup_cons.mp h
    rw [get, List.find?_cons]
    rcases List.mem_cons.mp hmem with rfl | hmem
    · rw [Str.eqIgnoreAsciiCase_self]
      rfl
    · have hne : head.1.eqIgnoreAsciiCase entry.1 = false := by
        by_contra heq
        have hsame := Str.eqIgnoreAsciiCase_iff.mp (Bool.of_not_eq_false heq)
        exact hhead (List.mem_map.mpr ⟨entry, hmem, hsame.symm⟩)
      rw [hne]
      exact ih htail hmem

theorem Distinct.forall_entries (h : map.Distinct) {p : Str → Str → Prop}
    (hp : ∀ {a b value}, a.eqIgnoreAsciiCase b = true → p a value → p b value) :
    (∀ entry ∈ map.entries, p entry.1 entry.2) ↔ ∀ name value, map.get name = some value → p name value := by
  constructor
  · intro hall name value hget
    obtain ⟨entry, hfind, rfl⟩ := Option.map_eq_some_iff.mp hget
    have hname : entry.1.eqIgnoreAsciiCase name = true :=
      List.find?_some (p := fun entry : Str × Str => entry.1.eqIgnoreAsciiCase name) hfind
    exact hp hname (hall entry (List.mem_of_find?_eq_some hfind))
  · intro hall entry hmem
    exact hall entry.1 entry.2 (h.get_of_mem hmem)

theorem insertPairs_spec (pairs : List (Str × Str)) :
    (pairs.foldl insertPair .new).Distinct ∧ ∀ name, (pairs.foldl insertPair .new).get name = latest pairs name := by
  induction pairs using List.reverseRecOn with
  | nil => exact ⟨List.nodup_nil, fun name => rfl⟩
  | append_singleton pairs entry ih =>
    obtain ⟨hdistinct, hget⟩ := ih
    rw [List.foldl_append]
    refine ⟨hdistinct.insert entry.1 entry.2, fun name => ?_⟩
    rw [List.foldl_cons, List.foldl_nil, insertPair, get_insert, hget, latest, latest, List.reverse_append,
      List.reverse_singleton, List.singleton_append, List.find?_cons]
    cases entry.1.eqIgnoreAsciiCase name <;> rfl

end

end MatchMap

/-! ### The check -/

theorem checkEntries_iff (constraints : List NumberConstraint) (entries : List (Str × Str)) (duration : Option P.F64) :
    (checkEntries P constraints entries duration).1 = true ↔
      ∀ entry ∈ entries, if entry.1.eqIgnoreAsciiCase ['t', 's'] then P.positive (simpleTimeToSeconds P entry.2) = true
        else constraintsHold constraints entry.1 entry.2 = true := by
  induction entries generalizing duration with
  | nil => simp [checkEntries]
  | cons entry entries ih =>
    obtain ⟨name, value⟩ := entry
    rw [List.forall_mem_cons, checkEntries]
    dsimp only
    by_cases hts : name.eqIgnoreAsciiCase ['t', 's'] = true
    · rw [if_pos hts, if_pos hts]
      by_cases hpos : P.positive (simpleTimeToSeconds P value) = true
      · rw [if_pos hpos, ih, and_iff_right hpos]
      · rw [if_neg hpos]
        exact ⟨fun h => (nomatch h), fun h => absurd h.1 hpos⟩
    · rw [if_neg hts, if_neg hts]
      by_cases hholds : constraintsHold constraints name value = true
      · rw [if_pos hholds, ih, and_iff_right hholds]
      · rw [if_neg hholds]
        exact ⟨fun h => (nomatch h), fun h => absurd h.1 hholds⟩

section
variable (N)

/-- A captured decimal number and a comparison that the pattern has for its name. -/
structure Posed (pattern : Str) (pairs : List (Str × Str)) (name value : Str) (comparison : Comparison) : Prop where
  captured : (name, value) ∈ pairs
  written : comparison ∈ Macro.comparisons N pattern
  key : comparison.key.eqIgnoreAsciiCase name = true
  decimal : N.Decimal value

/-- What the check reads: the bound and the number fit, and no later capture has the name. -/
structure Tested (pairs : List (Str × Str)) (name value : Str) (comparison : Comparison) : Prop where
  bound : N.Fits 32 comparison.bound
  number : N.Fits 32 value
  latest : latest pairs name = some value

end

theorem NumberOp.check_flipped (op : NumberOp) (left right : Nat) : op.flipped.check left right = op.check right left := by
  cases op with
  | equal => exact Bool.beq_comm
  | _ => rfl

theorem parseU32_iff (N : Numerals) {value : Str} {n : Nat} :
    parseU32 value = some n ↔ N.Decimal value ∧ N.Fits 32 value ∧ N.number value = n := by
  rw [parseU32]
  split_ifs with hbad
  · constructor
    · intro h
      cases h
    · rintro ⟨⟨hne, -⟩, ⟨hascii, -⟩, -⟩
      rw [Bool.or_eq_true, List.isEmpty_iff, or_iff_right hne, Bool.not_eq_true', ← Bool.not_eq_true, List.all_eq_true] at hbad
      exact absurd hascii hbad
  · have hgood : value ≠ [] ∧ ∀ c ∈ value, Str.isAsciiDigit c = true := by simpa using hbad
    have hdecimal : N.Decimal value := ⟨hgood.1, fun c hc => Numerals.digit_of_ascii (hgood.2 c hc)⟩
    rw [Numerals.parseUnsigned_of_decimal hdecimal, and_iff_right hdecimal]

theorem Comparison.constraint_iff {w : Comparison} {op : NumberOp} (hop : NumberOp.parse w.op = some op)
    (hbound : N.Decimal w.bound) {c : NumberConstraint} :
    w.constraint = some c ↔
      N.Fits 32 w.bound ∧ c = ⟨w.key, if w.boundLeft then op.flipped else op, N.number w.bound⟩ := by
  unfold Comparison.constraint
  rw [hop]
  cases hparse : Str.parseUnsigned 32 w.bound with
  | none =>
    refine ⟨fun h => (nomatch h), fun ⟨hfits, _⟩ => ?_⟩
    rw [(Numerals.parseUnsigned_of_decimal hbound _).mpr ⟨hfits, rfl⟩] at hparse
    cases hparse
  | some value =>
    obtain ⟨hfits, rfl⟩ := (Numerals.parseUnsigned_of_decimal hbound _).mp hparse
    rw [and_iff_right hfits]
    exact ⟨fun h => (Option.some.inj h).symm, fun h => congrArg some h.symm⟩

theorem Comparison.holds_iff {w : Comparison} {op : NumberOp} (hop : NumberOp.parse w.op = some op) (n : Nat) :
    w.Holds N n ↔ (if w.boundLeft then op.flipped else op).check n (N.number w.bound) = true := by
  constructor
  · rintro ⟨op', hop', hcheck⟩
    obtain rfl := Option.some.inj (hop.symm.trans hop')
    split_ifs at hcheck ⊢
    · rwa [NumberOp.check_flipped]
    · exact hcheck
  · intro hcheck
    refine ⟨op, hop, ?_⟩
    split_ifs at hcheck ⊢
    · rwa [NumberOp.check_flipped] at hcheck
    · exact hcheck

theorem parse_of_operator {op : Str} (h : op ∈ Macro.operators) : ∃ parsed, NumberOp.parse op = some parsed := by
  rw [Macro.operators] at h
  simp only [List.mem_cons, List.not_mem_nil, or_false] at h
  rcases h with rfl | rfl | rfl | rfl | rfl | rfl <;> exact ⟨_, rfl⟩

/-- The constraints on a capture: the comparisons for its name whose bound fits, if it is a number that fits. -/
theorem constraintsHold_iff (h : P.Macros N) (pattern name value : Str) :
    constraintsHold (expand P pattern).constraints name value = true ↔
      ∀ w ∈ Macro.comparisons N pattern, w.key.eqIgnoreAsciiCase name = true → N.Decimal value → N.Fits 32 w.bound →
        N.Fits 32 value → w.Holds N (N.number value) := by
  rw [expand_constraints h, constraintsHold, List.all_eq_true]
  constructor
  · intro hall w hw hkey hdecimal hbound hfits
    obtain ⟨-, hop, hdigits⟩ := comparison_spec hw
    obtain ⟨op, hop⟩ := parse_of_operator hop
    have hconstraint := (w.constraint_iff hop hdigits).mpr ⟨hbound, rfl⟩
    have hcheck := hall _ (List.mem_filterMap.mpr ⟨w, hw, hconstraint⟩)
    rw [if_pos hkey, (parseU32_iff N).mpr ⟨hdecimal, hfits, rfl⟩] at hcheck
    exact (w.holds_iff hop _).mpr hcheck
  · intro hall c hc
    obtain ⟨w, hw, hconstraint⟩ := List.mem_filterMap.mp hc
    obtain ⟨-, hop, hdigits⟩ := comparison_spec hw
    obtain ⟨op, hop⟩ := parse_of_operator hop
    obtain ⟨hbound, rfl⟩ := (w.constraint_iff hop hdigits).mp hconstraint
    by_cases hkey : w.key.eqIgnoreAsciiCase name = true
    · rw [if_pos hkey]
      cases hvalue : parseU32 value with
      | none => rfl
      | some n =>
        obtain ⟨hdecimal, hfits, rfl⟩ := (parseU32_iff N).mp hvalue
        exact (w.holds_iff hop _).mp (hall w hw hkey hdecimal hbound hfits)
    · rw [if_neg hkey]

theorem eqIgnoreAsciiCase_congr {a b : Str} (h : a.eqIgnoreAsciiCase b = true) (name : Str) :
    name.eqIgnoreAsciiCase a = name.eqIgnoreAsciiCase b := by
  rw [Str.eqIgnoreAsciiCase, Str.eqIgnoreAsciiCase, Str.eqIgnoreAsciiCase_iff.mp h]

theorem latest_congr {pairs : List (Str × Str)} {a b : Str} (h : a.eqIgnoreAsciiCase b = true) :
    latest pairs a = latest pairs b := by
  simp only [latest, eqIgnoreAsciiCase_congr h]

theorem mem_of_latest {pairs : List (Str × Str)} {name value : Str} (h : latest pairs name = some value) :
    ∃ spelled, (spelled, value) ∈ pairs ∧ spelled.eqIgnoreAsciiCase name = true := by
  obtain ⟨entry, hfind, rfl⟩ := Option.map_eq_some_iff.mp h
  exact ⟨entry.1, List.mem_reverse.mp (List.mem_of_find?_eq_some hfind),
    List.find?_some (p := fun entry : Str × Str => entry.1.eqIgnoreAsciiCase name) hfind⟩

/-- What passes the check: the comparisons that are tested hold, and a duration is positive. -/
theorem checkConstraints_iff (h : P.Macros N) (pattern : Str) (regex : CompatRegex P) (line : Str) (outcome : MatchOutcome)
    (hmatch : regex.snapshotMatches P line = .ok (some outcome)) :
    (checkConstraints P (expand P pattern).constraints outcome.captures).1 = true ↔
      (∀ name value w, Posed N pattern (captured P regex line) name value w →
        Tested N (captured P regex line) name value w → w.Holds N (N.number value)) ∧
      ∀ value, latest (captured P regex line) ['t', 's'] = some value →
        P.positive (simpleTimeToSeconds P value) = true := by
  obtain ⟨hdistinct, hget⟩ := MatchMap.insertPairs_spec (captured P regex line)
  have hts {name : Str} (hname : name.eqIgnoreAsciiCase ['t', 's'] = true) {w : Comparison}
      (hw : w ∈ Macro.comparisons N pattern) : ¬ w.key.eqIgnoreAsciiCase name = true := by
    intro hkey
    obtain ⟨⟨c, hc, rest, hcons⟩, -, -⟩ := comparison_spec hw
    have hlower := (Str.eqIgnoreAsciiCase_iff.mp hkey).trans (Str.eqIgnoreAsciiCase_iff.mp hname)
    rw [hcons] at hlower
    have hhead := (List.cons.inj hlower).1
    rcases List.mem_cons.mp hc with rfl | hc
    · exact absurd hhead (by decide)
    · obtain rfl := List.mem_singleton.mp hc
      exact absurd hhead (by decide)
  rw [checkConstraints, checkEntries_iff, MatchMap.captures_eq regex line outcome hmatch,
    hdistinct.forall_entries (p := fun name value => if name.eqIgnoreAsciiCase ['t', 's'] = true then
        P.positive (simpleTimeToSeconds P value) = true
      else constraintsHold (expand P pattern).constraints name value = true)]
  · constructor
    · intro hall
      refine ⟨fun name value w hreading htested => ?_, fun value hvalue => ?_⟩
      · have hholds := hall name value (by rw [hget, htested.latest])
        rw [if_neg fun hname => hts hname hreading.written hreading.key] at hholds
        exact (constraintsHold_iff h pattern name value).mp hholds w hreading.written hreading.key hreading.decimal
          htested.bound htested.number
      · have hpositive := hall ['t', 's'] value (by rw [hget, hvalue])
        rwa [if_pos (Str.eqIgnoreAsciiCase_self _)] at hpositive
    · rintro ⟨hread, hpositive⟩ name value hvalue
      rw [hget] at hvalue
      split_ifs with hname
      · exact hpositive value ((latest_congr hname).symm.trans hvalue)
      · refine (constraintsHold_iff h pattern name value).mpr fun w hw hkey hdecimal hbound hfits => ?_
        obtain ⟨spelled, hmem, hspelled⟩ := mem_of_latest hvalue
        refine hread spelled value w ⟨hmem, hw, ?_, hdecimal⟩ ⟨hbound, hfits, (latest_congr hspelled).trans hvalue⟩
        rw [eqIgnoreAsciiCase_congr hspelled]
        exact hkey
  · intro a b value hab
    have hsame : a.eqIgnoreAsciiCase ['t', 's'] = b.eqIgnoreAsciiCase ['t', 's'] := by
      rw [Str.eqIgnoreAsciiCase_comm a, Str.eqIgnoreAsciiCase_comm b, eqIgnoreAsciiCase_congr hab]
    have hholds : constraintsHold (expand P pattern).constraints a value =
        constraintsHold (expand P pattern).constraints b value := by
      simp only [constraintsHold, eqIgnoreAsciiCase_congr hab]
    rw [hsame, hholds]
    exact id

/-- A line passes the check exactly when every number satisfies every comparison for its name: that is so where,
if those that are tested hold, the others hold just when a captured duration is positive. -/
theorem constraints_gate_iff (h : P.Macros N) (pattern : Str) (regex : CompatRegex P) (line : Str) (outcome : MatchOutcome)
    (hmatch : regex.snapshotMatches P line = .ok (some outcome)) :
    ((checkConstraints P (expand P pattern).constraints outcome.captures).1 = true ↔
      ∀ name value w, Posed N pattern (captured P regex line) name value w → w.Holds N (N.number value)) ↔
    ((∀ name value w, Posed N pattern (captured P regex line) name value w →
        Tested N (captured P regex line) name value w → w.Holds N (N.number value)) →
      ((∀ name value w, Posed N pattern (captured P regex line) name value w →
          ¬ Tested N (captured P regex line) name value w → w.Holds N (N.number value)) ↔
        ∀ value, latest (captured P regex line) ['t', 's'] = some value →
          P.positive (simpleTimeToSeconds P value) = true)) := by
  rw [checkConstraints_iff h pattern regex line outcome hmatch]
  constructor
  · intro hiff htested
    constructor
    · intro hother value hvalue
      refine (hiff.mpr fun name value w hreading => ?_).2 value hvalue
      by_cases ht : Tested N (captured P regex line) name value w
      · exact htested name value w hreading ht
      · exact hother name value w hreading ht
    · intro hpositive name value w hreading _
      exact hiff.mp ⟨htested, hpositive⟩ name value w hreading
  · intro hcondition
    constructor
    · rintro ⟨htested, hpositive⟩ name value w hreading
      by_cases ht : Tested N (captured P regex line) name value w
      · exact htested name value w hreading ht
      · exact (hcondition htested).mpr hpositive name value w hreading ht
    · intro hall
      have htested name value w (hreading : Posed N pattern (captured P regex line) name value w)
          (_ : Tested N (captured P regex line) name value w) := hall name value w hreading
      exact ⟨htested, (hcondition htested).mp fun name value w hreading _ => hall name value w hreading⟩

/-! ### A number of more than 32 bits -/

namespace Literal
open Numerals (asciiOnly)

/-- A text at its first place in another. -/
def groupIn (text part : Str) : Group :=
  match splitFirst part text with
  | some (before, _) => ⟨Str.len before, Str.len before + part.len, part⟩
  | none => ⟨0, part.len, part⟩

/-- The first run of digits from byte `start` on. -/
def digitRun (start : Nat) : Str → Str → Option Group
  | _, [] => none
  | pre, c :: rest =>
    if start ≤ pre.len && Str.isAsciiDigit c then
      let run := (c :: rest).takeWhile Str.isAsciiDigit
      some ⟨pre.len, pre.len + Str.len run, run⟩
    else digitRun start (pre ++ [c]) rest

/-- What the static macro patterns match. -/
def macroTexts (pattern text : Str) : List (List (Option Str)) :=
  if pattern = stringMacro then
    (Macro.read (Macro.string asciiOnly) text).map fun (body, key) => [some (Macro.enclosed body), some key]
  else if pattern = numberMacro then
    (Macro.read (Macro.number asciiOnly) text).map fun (body, m) => [some (Macro.enclosed body), some m.key, m.op, m.value]
  else if pattern = chainedNumberMacro then
    (Macro.read (Macro.chained asciiOnly) text).map fun (body, m) =>
      [some (Macro.enclosed body), some m.left, some m.leftOp, some m.key, some m.rightOp, some m.right]
  else []

/-- The platform whose regular expressions are one named group of digits. -/
def decimals : Platform := { platform with
  Regex := Str
  build := fun pattern _ =>
    let name := (pattern.drop "(?i)(?<".toList.length).takeWhile (· ≠ '>')
    if pattern = "(?i)(?<".toList ++ name ++ ">\\d+)".toList then .ok name else .error "unsupported".toList
  captureNames := fun name => [none, some name]
  capturesFromPos := fun _ line start => .ok ((digitRun start [] line).map fun group => [some group, some group])
  capturesIter := fun pattern text => (macroTexts pattern text).map (List.map (Option.map (groupIn text))) }

theorem groupIn_text (text part : Str) : (groupIn text part).text = part := by
  unfold groupIn
  split <;> rfl

theorem groupTexts_decimals (pattern text : Str) : groupTexts (decimals.capturesIter pattern text) = macroTexts pattern text := by
  have hgroup : Group.text ∘ groupIn text = id := funext (groupIn_text text)
  change ((macroTexts pattern text).map (List.map (Option.map (groupIn text)))).map (List.map (Option.map Group.text)) = _
  rw [List.map_map]
  refine List.map_id'' (fun texts => ?_) _
  rw [Function.comp_apply, List.map_map]
  refine List.map_id'' (fun part => ?_) texts
  rw [Function.comp_apply, Option.map_map, hgroup, Option.map_id, id]

theorem decimals_macros : decimals.Macros asciiOnly where
  string text := (groupTexts_decimals _ text).trans (if_pos rfl)
  number text := (groupTexts_decimals _ text).trans ((if_neg (by decide +kernel)).trans (if_pos rfl))
  chained text := (groupTexts_decimals _ text).trans
    ((if_neg (by decide +kernel)).trans ((if_neg (by decide +kernel)).trans (if_pos rfl)))

def belowTen : Str := "\x7bN<10\x7d".toList

end Literal

open Literal Numerals

/-- A number below its bound: the line passes as it should. -/
theorem constraints_gate_seven : ∃ regex outcome,
    CompatRegex.compile decimals (expand decimals belowTen).pattern = .ok regex ∧
    regex.snapshotMatches decimals "hit for 7".toList = .ok (some outcome) ∧
    (checkConstraints decimals (expand decimals belowTen).constraints outcome.captures).1 = true ∧
    ((checkConstraints decimals (expand decimals belowTen).constraints outcome.captures).1 = true ↔
      ∀ name value w, Posed asciiOnly belowTen (captured decimals regex "hit for 7".toList) name value w →
        w.Holds asciiOnly (asciiOnly.number value)) := by
  refine ⟨⟨['N'], [none, some ['N']]⟩, ⟨⟨[(['N'], ['7'])]⟩, [(8, 9)]⟩, rfl, rfl, by decide +kernel, ?_⟩
  refine (constraints_gate_iff decimals_macros belowTen ⟨['N'], [none, some ['N']]⟩ "hit for 7".toList _ rfl).mpr ?_
  have hcaptured : captured decimals ⟨['N'], [none, some ['N']]⟩ "hit for 7".toList = [(['N'], ['7'])] := rfl
  have hwritten : Macro.comparisons asciiOnly belowTen = [⟨['N'], ['<'], ['1', '0'], false⟩] := by decide +kernel
  intro _
  refine ⟨fun _ value hvalue => ?_, fun _ name value w hreading hnot => absurd ?_ hnot⟩
  · rw [hcaptured] at hvalue
    cases hvalue
  · have hcapture := hreading.captured
    have hw := hreading.written
    rw [hcaptured, List.mem_singleton] at hcapture
    rw [hwritten, List.mem_singleton] at hw
    obtain ⟨rfl, rfl⟩ := Prod.mk.inj hcapture
    subst hw
    exact ⟨by decide +kernel, by decide +kernel, by decide +kernel⟩

/-- A number of more than 32 bits is not below ten, and its line passes. -/
theorem constraints_passed_by_long_number : ¬ ∀ regex outcome,
    CompatRegex.compile decimals (expand decimals belowTen).pattern = .ok regex →
    regex.snapshotMatches decimals "hit for 5000000000".toList = .ok (some outcome) →
    ((checkConstraints decimals (expand decimals belowTen).constraints outcome.captures).1 = true ↔
      ∀ name value w, Posed asciiOnly belowTen (captured decimals regex "hit for 5000000000".toList) name value w →
        w.Holds asciiOnly (asciiOnly.number value)) := by
  intro hgate
  have hiff := hgate ⟨['N'], [none, some ['N']]⟩ ⟨⟨[(['N'], "5000000000".toList)]⟩, [(8, 18)]⟩ rfl rfl
  have hcaptured : captured decimals ⟨['N'], [none, some ['N']]⟩ "hit for 5000000000".toList =
      [(['N'], "5000000000".toList)] := rfl
  have hwritten : Macro.comparisons asciiOnly belowTen = [⟨['N'], ['<'], ['1', '0'], false⟩] := by decide +kernel
  obtain ⟨op, hop, hcheck⟩ := hiff.mp (by decide +kernel) ['N'] "5000000000".toList ⟨['N'], ['<'], ['1', '0'], false⟩
    ⟨by rw [hcaptured]; exact List.mem_singleton_self _, by rw [hwritten]; exact List.mem_singleton_self _,
      by decide +kernel, by decide +kernel⟩
  obtain rfl := Option.some.inj hop
  revert hcheck
  decide +kernel

end Stonemite.Triggers
