import Stonemite.Lib.Regex
import Stonemite.Trigger.Literal

/-!
# The literal prefilter

The regular expressions match what their syntax says (`Standard`). Then the letters a pattern begins with stand in every
line it matches, if the pattern has no alternative, no quantifier lets the last of them be left out and no letter of the
line is another case of one of them than ASCII knows. `PrefixRequired` is the condition on the expression, which
`prefilter_admits` turns into what the prefilter looks for.
-/

namespace Stonemite.Triggers

open Regex (Tree Branch Piece Atom Quantifier)

variable {P : Platform}

/-- What is relied on of `fancy_regex`: a compiled pattern has the top level its text has, letters, digits
and spaces that stand for themselves up to case, a caret that stands for the start of the text,
quantifiers and alternatives, and captures are found only where it matches. -/
structure Standard (P : Platform) (parse : P.Regex → Tree) (same : Char → Char → Prop)
    (meaning : Str → Str → Str → Str → Prop) : Prop where
  text : ∀ pattern limit regex, P.build ("(?i)".toList ++ pattern) limit = .ok regex → (parse regex).text = pattern
  spelled : ∀ pattern limit regex, P.build ("(?i)".toList ++ pattern) limit = .ok regex →
    (parse regex).Spelled searchable
  found : ∀ regex line start captures, P.capturesFromPos regex line start = .ok (some captures) →
    (parse regex).Found same meaning line

/-- The pattern has no literal prefix to look for. -/
def NoPrefix (pattern : Str) : Prop :=
  pattern.len ≤ 3 ∨ if pattern.head? = some '^' then (pattern[1]?).all (!searchable ·) = true
    else (pattern.take 3).all searchable = false

/-- The letters the pattern begins with are in every line it matches. -/
structure PrefixRequired (same : Char → Char → Prop) (t : Tree) (line : Str) : Prop where
  single : t.length = 1
  mandatory : ∀ b ∈ t, Branch.Mandatory b
  ascii : ∀ b ∈ t, ∀ c ∈ Branch.letters b, ∀ d ∈ line, same c d → c.toLower = d.toLower

/-! ### Bytes of letters -/

theorem toNat_of_searchable {c : Char} (h : searchable c = true) : c.toNat < 128 := by
  simp only [searchable, Str.isAsciiAlphanumeric, Bool.or_eq_true, Bool.and_eq_true, decide_eq_true_eq] at h
  have hz : ∀ d : Char, c ≤ d → d.toNat < 128 → c.toNat < 128 := fun d hle hd => lt_of_le_of_lt hle hd
  rcases h with ((⟨-, h⟩ | ⟨-, h⟩) | ⟨-, h⟩) | rfl
  · exact hz 'z' h (by decide)
  · exact hz 'Z' h (by decide)
  · exact hz '9' h (by decide)
  · decide

theorem lowerByte_ascii : ∀ n < 128, Str.lowerByte (Char.ofNat n).val.toUInt8 = (Char.ofNat n).toLower.val.toUInt8 ∧
    (Char.ofNat n).toLower.toNat < 128 := by decide

theorem utf8EncodeChar_ascii {c : Char} (h : c.toNat < 128) : String.utf8EncodeChar c = [c.val.toUInt8] := by
  apply String.utf8EncodeChar_eq_singleton
  rw [Char.utf8Size_eq_one_iff, UInt32.le_iff_toNat_le]
  exact Nat.le_of_lt_succ h

theorem ascii_of_toLower {d : Char} (h : d.toLower.toNat < 128) : d.toNat < 128 := by
  by_cases hd : d.val ≥ 'A'.val ∧ d.val ≤ 'Z'.val
  · exact lt_of_le_of_lt (UInt32.le_iff_toNat_le.mp hd.2) (by decide)
  · rwa [Char.toLower, dif_neg hd] at h

theorem lowerBytes_eq {c d : Char} (hc : searchable c = true) (h : c.toLower = d.toLower) :
    (String.utf8EncodeChar d).map Str.lowerByte = (String.utf8EncodeChar c).map Str.lowerByte := by
  have hcn := toNat_of_searchable hc
  have hlower (e : Char) (he : e.toNat < 128) :
      Str.lowerByte e.val.toUInt8 = e.toLower.val.toUInt8 ∧ e.toLower.toNat < 128 := by
    have h := lowerByte_ascii e.toNat he
    rwa [Char.ofNat_toNat] at h
  have hdn : d.toNat < 128 := ascii_of_toLower (h ▸ (hlower c hcn).2)
  rw [utf8EncodeChar_ascii hcn, utf8EncodeChar_ascii hdn, List.map_singleton, List.map_singleton,
    (hlower d hdn).1, (hlower c hcn).1, h]

theorem lowerBytes_of_forall₂ {w u : Str} (hw : ∀ c ∈ w, searchable c = true)
    (h : List.Forall₂ (fun c d => c.toLower = d.toLower) w u) :
    u.bytes.map Str.lowerByte = w.bytes.map Str.lowerByte := by
  induction h with
  | nil => rfl
  | @cons c d w u hcd _ ih =>
    rw [Str.bytes, List.flatMap_cons, List.map_append, lowerBytes_eq (hw c List.mem_cons_self) hcd]
    rw [Str.bytes, List.flatMap_cons, List.map_append]
    exact congrArg _ (ih fun c hc => hw c (List.mem_cons_of_mem _ hc))

theorem mem_windows {α : Type} (a w b : List α) : w ∈ windows w.length (a ++ w ++ b) := by
  rw [windows, List.mem_filter]
  refine ⟨List.mem_map.mpr ⟨w ++ b, ?_, List.take_left⟩, by simp⟩
  rw [List.mem_tails, List.append_assoc]
  exact List.suffix_append a _

theorem bytes_append (a b : Str) : Str.bytes (a ++ b) = Str.bytes a ++ Str.bytes b := List.flatMap_append

section
variable {w u pre rest : Str} (hw : ∀ c ∈ w, searchable c = true)
  (h : List.Forall₂ (fun c d => c.toLower = d.toLower) w u)
include hw h

theorem containsIgnoreCase_of_match (hne : w ≠ []) : containsIgnoreCase (pre ++ (u ++ rest)) w = true := by
  have hlower := lowerBytes_of_forall₂ hw h
  have hlen : u.bytes.length = w.bytes.length := by simpa using congrArg List.length hlower
  have hbytes : Str.bytes (pre ++ (u ++ rest)) = pre.bytes ++ u.bytes ++ rest.bytes := by
    rw [bytes_append, bytes_append, List.append_assoc]
  have hempty : w.isEmpty = false := List.isEmpty_eq_false_iff.mpr hne
  have hshort : ¬ w.len > Str.len (pre ++ (u ++ rest)) := by
    rw [Str.len, Str.len, hbytes, List.length_append, List.length_append]
    omega
  rw [containsIgnoreCase, hempty, if_neg (by decide), if_neg hshort, List.any_eq_true]
  refine ⟨u.bytes, ?_, ?_⟩
  · rw [hbytes, Str.len, ← hlen]
    exact mem_windows _ _ _
  · rw [bytesEqIgnoreAsciiCase, hlower]
    exact beq_self_eq_true _

theorem startsWithIgnoreCase_of_match : startsWithIgnoreCase (u ++ rest) w = true := by
  have hlower := lowerBytes_of_forall₂ hw h
  have hlen : u.bytes.length = w.bytes.length := by simpa using congrArg List.length hlower
  rw [startsWithIgnoreCase, Str.len, Str.len, bytes_append, List.length_append, ← hlen, List.take_left,
    bytesEqIgnoreAsciiCase, hlower]
  simp

end

/-! ### The text that is compiled -/

theorem translate_cons {c : Char} (hc : c ≠ '\\') (rest : Str) : translate (c :: rest) = c :: translate rest := by
  rw [translate] <;> simp [hc]

theorem translate_backslash (rest : Str) : ∃ rest', translate ('\\' :: rest) = '\\' :: rest' := by
  cases rest with
  | nil => exact ⟨_, rfl⟩
  | cons c rest =>
    by_cases hc : c = 'Z'
    · subst hc
      exact ⟨_, rfl⟩
    · exact ⟨c :: translate rest, by rw [translate]; simpa using hc⟩

theorem translate_takeWhile (pattern : Str) :
    (translate pattern).takeWhile searchable = pattern.takeWhile searchable := by
  induction pattern with
  | nil => rfl
  | cons c rest ih =>
    by_cases hc : c = '\\'
    · subst hc
      obtain ⟨rest', hrest⟩ := translate_backslash rest
      rw [hrest]
      rfl
    · rw [translate_cons hc, List.takeWhile_cons, List.takeWhile_cons, ih]

/-! ### The prefilter admits what matches -/

section
variable {same : Char → Char → Prop} {meaning : Str → Str → Str → Str → Prop} {b : Branch} {line s r : Str} {w : Str}

theorem forall₂_ascii {u : Str} (hu : List.Forall₂ same w u) (hw : w ⊆ Branch.letters b) (hline : u ⊆ line)
    (hascii : ∀ c ∈ Branch.letters b, ∀ d ∈ line, same c d → c.toLower = d.toLower) :
    List.Forall₂ (fun c d => c.toLower = d.toLower) w u := by
  induction hu with
  | nil => exact .nil
  | cons hcd _ ih =>
    obtain ⟨hc, hw⟩ := List.cons_subset.mp hw
    obtain ⟨hd, hline⟩ := List.cons_subset.mp hline
    exact .cons (hascii _ hc _ hd hcd) (ih hw hline)

theorem searchable_of_mem_takeWhile {pattern : Str} {c : Char} (hc : c ∈ pattern.takeWhile searchable) :
    searchable c = true := (List.mem_takeWhile_imp hc)

theorem len_of_searchable (hw : ∀ c ∈ w, searchable c = true) : w.len = w.length := by
  induction w with
  | nil => rfl
  | cons c w ih =>
    have hc := utf8EncodeChar_ascii (toNat_of_searchable (hw c List.mem_cons_self))
    have ih := ih fun d hd => hw d (List.mem_cons_of_mem _ hd)
    rw [Str.len, Str.bytes] at ih ⊢
    rw [List.flatMap_cons, hc, List.length_append, ih, Nat.add_comm]
    rfl

theorem contains_of_meets (hspelled : Branch.Spelled searchable b) (hmand : Branch.Mandatory b)
    (hascii : ∀ c ∈ Branch.letters b, ∀ d ∈ line, same c d → c.toLower = d.toLower) (hs : s <:+ line)
    (hm : Branch.Meets same meaning line b s r) (hne : (Branch.text b).takeWhile searchable ≠ []) :
    containsIgnoreCase line ((Branch.text b).takeWhile searchable) = true := by
  have hspells := Branch.Spelled.spells hspelled (show ∀ c, ([] : Str).head? = some c → _ from
    fun c hc => absurd hc.symm (Option.some_ne_none c))
  rw [List.append_nil] at hspells
  obtain ⟨u, rest, rfl, hu⟩ := hspells.meets hmand hm
  obtain ⟨pre, rfl⟩ := hs
  have hsub : u ⊆ pre ++ (u ++ rest) := fun x hx => by simp [hx]
  exact containsIgnoreCase_of_match (fun c hc => searchable_of_mem_takeWhile hc)
    (forall₂_ascii hu hspells.subset hsub hascii) hne

theorem startsWith_of_meets {rest : Str} (hspelled : Branch.Spelled searchable b) (htext : Branch.text b = '^' :: rest)
    (hmand : Branch.Mandatory b)
    (hascii : ∀ c ∈ Branch.letters b, ∀ d ∈ line, same c d → c.toLower = d.toLower)
    (hm : Branch.Meets same meaning line b s r) (hne : rest.takeWhile searchable ≠ []) :
    startsWithIgnoreCase line (rest.takeWhile searchable) = true := by
  have hhead : (Branch.text b ++ []).head? = some '^' := by rw [htext]; rfl
  obtain ⟨p, b', rfl, hstart, hp, hb'⟩ := hspelled.after_start hhead (Option.some_ne_none '^').symm
  have hafter : p.quantifier.text ++ Branch.text b' = rest := by
    rw [Branch.text, List.flatMap_cons, Piece.text, hstart, List.append_assoc] at htext
    exact (List.cons.inj htext).2
  -- a quantifier of the anchor would end the prefix before it begins
  have hone : p.quantifier.text = [] := by
    by_contra hq
    refine hne (Regex.takeWhile_of_head fun c hc => hp.quantified c ?_)
    rwa [← hafter, List.head?_append_of_ne_nil _ hq] at hc
  rw [hone, List.nil_append] at hafter
  subst hafter
  have hlead : (!p.atom.isOther) = true := by rw [hstart]; rfl
  have htake : (p :: b').takeWhile (!·.atom.isOther) = p :: b'.takeWhile (!·.atom.isOther) := by
    rw [List.takeWhile_cons, if_pos hlead]
  have hletters : Branch.letters (p :: b') = Branch.letters b' := by
    rw [Branch.letters, htake, List.filterMap_cons_none (by rw [hstart])]
    rfl
  obtain ⟨m, hpm, hm⟩ := hm
  have hatom := Piece.meets_one (hp.unquantified hone) hpm
  rw [hstart] at hatom
  obtain ⟨rfl, rfl⟩ := hatom
  have hspells := Branch.Spelled.spells hb' (show ∀ c, ([] : Str).head? = some c → _ from
    fun c hc => absurd hc.symm (Option.some_ne_none c))
  rw [List.append_nil] at hspells
  have hmand' : Branch.Mandatory b' := fun q hq => hmand q (by rw [htake]; exact List.mem_cons_of_mem _ hq)
  obtain ⟨u, rest, rfl, hu⟩ := hspells.meets hmand' hm
  have hsub : u ⊆ u ++ rest := fun x hx => by simp [hx]
  exact startsWithIgnoreCase_of_match (fun c hc => searchable_of_mem_takeWhile hc)
    (forall₂_ascii hu hspells.subset hsub (hletters ▸ hascii))

theorem prefilter_admits {t : Tree} {pattern : Str} (hspelled : t.Spelled searchable) (htext : t.text = translate pattern)
    (hreq : NoPrefix pattern ∨ PrefixRequired same t line) (hfound : t.Found same meaning line) :
    (Prefilter.forPattern pattern).admits line = true := by
  by_cases hlen : pattern.len ≤ 3
  · have hfilter : Prefilter.forPattern pattern = .none := by
      unfold Prefilter.forPattern
      rw [if_pos hlen]
    rw [hfilter]
    rfl
  cases pattern with
  | nil => exact absurd (by decide) hlen
  | cons c rest =>
    by_cases hc : c = '^'
    · subst hc
      have hfilter : Prefilter.forPattern ('^' :: rest) =
          if (rest.takeWhile searchable).isEmpty then .none else .startsWith (rest.takeWhile searchable) := by
        unfold Prefilter.forPattern
        rw [if_neg hlen]
        rfl
      rw [hfilter]
      split
      · rfl
      · rename_i hempty
        have hne : rest.takeWhile searchable ≠ [] := fun h => hempty (List.isEmpty_iff.mpr h)
        rcases hreq with (hshort | hcaret) | hreq
        · exact absurd hshort hlen
        · -- the letter after the caret would begin the prefix
          have hhead : ('^' :: rest).head? = some '^' := rfl
          rw [if_pos hhead] at hcaret
          refine absurd (Regex.takeWhile_of_head fun d hd => ?_) hne
          have hget : ('^' :: rest)[1]? = some d := by rw [List.getElem?_cons_succ, ← List.head?_eq_getElem?, hd]
          rw [hget] at hcaret
          simpa using hcaret
        · obtain ⟨b, rfl⟩ := List.length_eq_one_iff.mp hreq.single
          have hb := List.mem_singleton_self b
          have hbt : Branch.text b = '^' :: translate rest := by
            rw [translate_cons (by decide)] at htext
            rw [← htext]
            simp [Regex.Tree.text, List.intercalate]
          obtain ⟨b', hb', s, r, -, hm⟩ := hfound
          obtain rfl := List.mem_singleton.mp hb'
          rw [← translate_takeWhile] at hne ⊢
          exact startsWith_of_meets (hspelled.2 b' hb) hbt (hreq.mandatory b' hb) (hreq.ascii b' hb) hm hne
    · have hfilter : Prefilter.forPattern (c :: rest) =
          if Str.len ((c :: rest).takeWhile searchable) > 2 then .contains ((c :: rest).takeWhile searchable) else .none := by
        unfold Prefilter.forPattern
        rw [if_neg hlen]
        split
        · rename_i heq
          exact absurd (List.cons.inj heq).1 hc
        · rfl
      rw [hfilter]
      split
      · rename_i hlong
        have hlong : 2 < ((c :: rest).takeWhile searchable).length := by
          rwa [len_of_searchable fun d hd => searchable_of_mem_takeWhile hd] at hlong
        rcases hreq with (hshort | hletters) | hreq
        · exact absurd hshort hlen
        · have hhead : (c :: rest).head? ≠ some '^' := by simpa using hc
          rw [if_neg hhead] at hletters
          have htake : (c :: rest).take 3 <+: (c :: rest).takeWhile searchable := by
            have hprefix := List.takeWhile_prefix (l := c :: rest) searchable
            have hle : 3 ≤ ((c :: rest).takeWhile searchable).length := hlong
            rw [List.prefix_iff_eq_take.mp hprefix] at hle ⊢
            rw [List.length_take] at hle
            exact List.take_prefix_take_left (by omega)
          have hall : ((c :: rest).take 3).all searchable = true :=
            List.all_eq_true.mpr fun d hd => searchable_of_mem_takeWhile (htake.subset hd)
          rw [hall] at hletters
          cases hletters
        · obtain ⟨b, rfl⟩ := List.length_eq_one_iff.mp hreq.single
          have hb := List.mem_singleton_self b
          have hbt : Branch.text b = translate (c :: rest) := by
            rw [← htext]
            simp [Regex.Tree.text, List.intercalate]
          obtain ⟨b', hb', s, r, hs, hm⟩ := hfound
          obtain rfl := List.mem_singleton.mp hb'
          have hne : (Branch.text b').takeWhile searchable ≠ [] := by
            rw [hbt, translate_takeWhile]
            intro h
            rw [h] at hlong
            cases hlong
          have hcontains := contains_of_meets (hspelled.2 b' hb) (hreq.mandatory b' hb) (hreq.ascii b' hb) hs hm hne
          rwa [hbt, translate_takeWhile] at hcontains
      · rfl

end

/-! ### Literals -/

namespace Literal

def branch (text : Str) : Branch := text.map fun c => ⟨.literal c, .one⟩

def tree (branches : List Str) : Tree := branches.map branch

/-- A letter stands for its ASCII cases. -/
def same (c d : Char) : Prop := c.toLower = d.toLower

/-- There is nothing but literals. -/
def meaning (_ _ _ _ : Str) : Prop := False

theorem branch_text (text : Str) : Branch.text (branch text) = text := by
  induction text with
  | nil => rfl
  | cons c text ih =>
    rw [branch, List.map_cons, Branch.text, List.flatMap_cons]
    rw [branch, Branch.text] at ih
    rw [ih]
    rfl

theorem branch_spelled {text : Str} (h : text.all searchable = true) : (branch text).Spelled searchable := by
  induction text with
  | nil => trivial
  | cons c text ih =>
    rw [List.all_cons, Bool.and_eq_true] at h
    refine ⟨?_, fun _ => ih h.2⟩
    constructor
    · intro d hd _
      obtain rfl : c = d := by simpa [Atom.text] using hd
      rfl
    · intro hd
      obtain rfl : c = '^' := by simpa [Atom.text] using hd
      exact absurd h.1 (by decide)
    · exact List.cons_ne_nil _ _
    · exact fun _ => rfl
    · exact fun d hd => nomatch hd

theorem branch_meets (line : Str) {text s : Str} (h : text.toAsciiLowercase <+: s.toAsciiLowercase) :
    ∃ r, Branch.Meets same meaning line (branch text) s r := by
  induction text generalizing s with
  | nil => exact ⟨s, rfl⟩
  | cons c text ih =>
    cases s with
    | nil => exact absurd h (by simp [Str.toAsciiLowercase])
    | cons d s =>
      obtain ⟨hcd, h⟩ := List.cons_prefix_cons.mp h
      obtain ⟨r, hr⟩ := ih h
      exact ⟨r, s, ⟨1, le_rfl, by simp [Quantifier.one], s, ⟨d, rfl, hcd⟩, rfl⟩, hr⟩

theorem find_some {branches : List Str} {start : Nat} {pre rest : Str} {group : Group}
    (h : find branches start pre rest = some group) :
    ∃ text ∈ branches, ∃ s : Str, s <:+ rest ∧ text.toAsciiLowercase <+: s.toAsciiLowercase := by
  have here {pre rest : Str} {group : Group} (h : (if start ≤ pre.len then matchAt branches pre rest else none) = some group) :
      ∃ text ∈ branches, text.toAsciiLowercase <+: rest.toAsciiLowercase := by
    split at h
    · obtain ⟨text, htext, -⟩ := Option.map_eq_some_iff.mp h
      have hprefix := List.find?_some htext
      exact ⟨text, List.mem_of_find?_eq_some htext, List.isPrefixOf_iff_prefix.mp hprefix⟩
    · cases h
  induction rest generalizing pre with
  | nil =>
    obtain ⟨text, hmem, htext⟩ := here h
    exact ⟨text, hmem, [], List.suffix_rfl, htext⟩
  | cons c rest ih =>
    rw [find, Option.or_eq_some_iff] at h
    rcases h with h | ⟨-, h⟩
    · obtain ⟨text, hmem, htext⟩ := here h
      exact ⟨text, hmem, _, List.suffix_rfl, htext⟩
    · obtain ⟨text, hmem, s, hs, htext⟩ := ih h
      exact ⟨text, hmem, s, hs.trans (List.suffix_cons c rest), htext⟩

theorem parse_ok {pattern : Str} (limit : Nat) {branches : List Str} (h : parse ("(?i)".toList ++ pattern) limit = .ok branches) :
    branches = pattern.splitOn '|' ∧ branches.all (·.all searchable) = true := by
  unfold parse at h
  have hdrop : ("(?i)".toList ++ pattern).drop 4 = pattern := rfl
  rw [hdrop] at h
  dsimp only at h
  split at h
  · rename_i hall
    cases h
    exact ⟨rfl, hall⟩
  · cases h

theorem standard : Standard platform tree same meaning where
  text pattern limit branches h := by
    obtain ⟨rfl, -⟩ := parse_ok limit h
    have htext : (tree (pattern.splitOn '|')).map Branch.text = pattern.splitOn '|' := by
      rw [tree, List.map_map]
      exact List.map_id'' branch_text _
    rw [Tree.text, htext, List.intercalate_splitOn]
  spelled pattern limit branches h := by
    obtain ⟨rfl, hall⟩ := parse_ok limit h
    refine ⟨?_, fun b hb => ?_⟩
    · rw [tree, Ne, List.map_eq_nil_iff]
      exact List.splitOn_ne_nil _ _
    · obtain ⟨text, htext, rfl⟩ := List.mem_map.mp hb
      exact branch_spelled (List.all_eq_true.mp hall text htext)
  found branches line start captures h := by
    have h := Except.ok.inj h
    obtain ⟨group, hgroup, -⟩ := Option.map_eq_some_iff.mp h
    obtain ⟨text, hmem, s, hs, htext⟩ := find_some hgroup
    obtain ⟨r, hr⟩ := branch_meets line htext
    exact ⟨branch text, List.mem_map_of_mem hmem, s, r, hs, hr⟩


theorem prefixRequired (text line : Str) : PrefixRequired same (tree [text]) line where
  single := rfl
  mandatory b hb p hp := by
    obtain rfl := List.mem_singleton.mp hb
    obtain ⟨c, -, rfl⟩ := List.mem_map.mp (List.takeWhile_subset _ hp)
    exact le_rfl
  ascii _ _ _ _ _ _ h := h

end Literal

end Stonemite.Triggers
