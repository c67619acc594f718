import Stonemite.Lib.Lists
import Stonemite.Lib.Parsing

/-!
# Extended target roles

The `Current` string of the roles that EverQuest saves for a character: a flat list of fields, in which the roles of a
specific target have one field more than the others. `NamelessLast` is the condition on the roles; under it the invariant
of the loop over the fields gives `Decoded`, and `decoded_iff` is the equivalence.
-/

namespace Stonemite.XTargets

def maxXTargetSlots : Nat := 20

/-- A slot of the extended targets with its label. -/
structure XTargetSlot where
  slot : Nat
  label : Str
deriving DecidableEq, Repr

/-- The label of a role, with the name that some roles have. -/
def roleLabel (role : Nat) (name : Option Str) : Str :=
  if role = 1 then "Auto hater".toList
  else if role = 2 then name.getD "Specific PC".toList
  else if role = 3 then name.getD "Specific NPC".toList
  else if role = 4 then "Target's target".toList
  else if role = 5 then "Group tank".toList
  else if role = 6 then "Tank's target".toList
  else if role = 7 then "Group assist".toList
  else if role = 8 then "Assist target".toList
  else if role = 9 then "Group puller".toList
  else if role = 10 then "Puller target".toList
  else if 11 ≤ role && role ≤ 13 then "Group mark ".toList ++ Str.decimal ((role - 10 : Nat) : Int)
  else if 14 ≤ role && role ≤ 16 then "Raid assist ".toList ++ Str.decimal ((role - 13 : Nat) : Int)
  else if 17 ≤ role && role ≤ 19 then
    "Raid assist ".toList ++ Str.decimal ((role - 16 : Nat) : Int) ++ " target".toList
  else if 20 ≤ role && role ≤ 22 then "Raid mark ".toList ++ Str.decimal ((role - 19 : Nat) : Int)
  else if role = 23 then "My pet".toList
  else if role = 24 then "My pet's target".toList
  else if role = 25 then "My mercenary".toList
  else if role = 26 then "My mercenary's target".toList
  else "Role ".toList ++ Str.decimal role

/-- Whether a role is that of a specific target, which has a field for its name. -/
def carriesName (role : Nat) : Bool := role = 2 || role = 3

/-- The name that follows a role, and the fields left; an empty name is not taken off them. -/
def readName (role : Nat) (fields : List Str) : Option Str × List Str :=
  if carriesName role then
    match fields with
    | name :: rest => if name.isEmpty then (none, fields) else (some name, rest)
    | [] => (none, [])
  else (none, fields)

theorem length_readName_le (role : Nat) (fields : List Str) : (readName role fields).2.length ≤ fields.length := by
  unfold readName
  split_ifs
  · cases fields with
    | nil => exact le_rfl
    | cons name rest =>
      dsimp only
      split_ifs
      · exact le_rfl
      · exact Nat.le_succ _
  · exact le_rfl

/-- The loop over the fields from the fourth on. -/
def readRoles (declaredSlots : Nat) (fields : List Str) : List XTargetSlot :=
  match fields with
  | slotText :: roleText :: rest =>
    match Str.parseUnsigned 8 slotText, Str.parseUnsigned 8 roleText with
    | some slot, some role =>
      let slots := readRoles declaredSlots (readName role rest).2
      if declaredSlots ≤ slot || role = 0 then slots else ⟨slot + 1, roleLabel role (readName role rest).1⟩ :: slots
    | _, _ => []
  | _ => []
termination_by fields.length
decreasing_by
  have hle := length_readName_le role rest
  simp only [List.length_cons]
  omega

/-- The number of slots that the text declares. -/
def declaredSlots (count : Option Str) : Nat :=
  min ((count.bind (Str.parseUnsigned 8)).getD maxXTargetSlots) maxXTargetSlots

/-- The slots of the roles in the player's file. -/
def parseCurrentRoles (value : Str) : List XTargetSlot :=
  let fields := Str.split '^' value
  let slots := sortBy (fun a b => compare a.slot b.slot) (readRoles (declaredSlots fields[2]?) (fields.drop 3))
  slots.destutter fun a b => a.slot ≠ b.slot

/-! ### What EverQuest writes -/

/-- A slot with its role, and the name that is written for a specific target. -/
structure RoleEntry where
  slot : UInt8
  role : UInt8
  name : Str
  plain : '^' ∉ name

namespace RoleEntry

def fields (entry : RoleEntry) : List Str :=
  [Str.decimal entry.slot.toNat, Str.decimal entry.role.toNat] ++
    if carriesName entry.role.toNat then [entry.name] else []

/-- A specific target without a name. -/
def Nameless (entry : RoleEntry) : Prop := carriesName entry.role.toNat = true ∧ entry.name = []

def Listed (declared : Nat) (entry : RoleEntry) : Prop := entry.role.toNat ≠ 0 ∧ entry.slot.toNat < declared

instance (entry : RoleEntry) : Decidable entry.Nameless := inferInstanceAs (Decidable (_ ∧ _))

instance (declared : Nat) (entry : RoleEntry) : Decidable (entry.Listed declared) := inferInstanceAs (Decidable (_ ∧ _))

/-- The entry as it is shown, with its name if it has one. -/
def toSlot (entry : RoleEntry) : XTargetSlot :=
  ⟨entry.slot.toNat + 1, roleLabel entry.role.toNat (if entry.name = [] then none else some entry.name)⟩

end RoleEntry

/-- The `Current` string: a version, a name, the number of slots and the entries. -/
structure CurrentRoles where
  version : Str
  title : Str
  count : Str
  entries : List RoleEntry
  plain : '^' ∉ version ∧ '^' ∉ title ∧ '^' ∉ count
  distinct : (entries.map (·.slot)).Nodup

namespace CurrentRoles

/-- The roles as the game writes them. -/
def text (current : CurrentRoles) : Str :=
  List.intercalate ['^'] (current.version :: current.title :: current.count :: current.entries.flatMap RoleEntry.fields)

/-- The listed entries, in slot order. -/
def Decoded (current : CurrentRoles) (slots : List XTargetSlot) : Prop :=
  slots.Pairwise (fun a b => a.slot < b.slot) ∧ ∀ slot, slot ∈ slots ↔
    ∃ entry ∈ current.entries, entry.Listed (declaredSlots (some current.count)) ∧ slot = entry.toSlot

/-- A specific target without a name is followed by no entry to list. -/
def NamelessLast (current : CurrentRoles) : Prop :=
  ∀ before entry after, current.entries = before ++ entry :: after → entry.Nameless →
    ∀ later ∈ after, ¬ later.Listed (declaredSlots (some current.count))

end CurrentRoles

/-! ### Reading the entries -/

/-- The entries up to the first specific target without a name. -/
def reached : List RoleEntry → List RoleEntry
  | [] => []
  | entry :: entries => if entry.Nameless then [entry] else entry :: reached entries

theorem caret_not_mem_decimal (n : Nat) : '^' ∉ Str.decimal n := by
  rw [Str.decimal_natCast]
  intro h
  exact absurd (Str.isAsciiDigit_of_mem_toDigits h) (by decide)

theorem caret_not_mem_fields {entry : RoleEntry} {field : Str} (h : field ∈ entry.fields) : '^' ∉ field := by
  rcases List.mem_append.mp h with h | h
  · rcases List.mem_pair.mp h with rfl | rfl
    · exact caret_not_mem_decimal _
    · exact caret_not_mem_decimal _
  · split_ifs at h
    · rw [List.mem_singleton.mp h]
      exact entry.plain
    · exact absurd h List.not_mem_nil

theorem parseUnsigned_toNat (n : UInt8) : Str.parseUnsigned 8 (Str.decimal n.toNat) = some n.toNat := by
  rw [Str.parseUnsigned_decimal, if_pos n.toNat_lt]

theorem readRoles_empty (declared : Nat) (rest : List Str) : readRoles declared ([] :: rest) = [] := by
  have hempty : Str.parseUnsigned 8 [] = none := by decide
  cases rest with
  | nil => rw [readRoles]; nofun
  | cons role rest => rw [readRoles, hempty]

theorem readRoles_cons (declared : Nat) (slot role : UInt8) (rest : List Str) :
    readRoles declared (Str.decimal slot.toNat :: Str.decimal role.toNat :: rest) =
      if declared ≤ slot.toNat || role.toNat = 0 then readRoles declared (readName role.toNat rest).2
      else ⟨slot.toNat + 1, roleLabel role.toNat (readName role.toNat rest).1⟩ ::
        readRoles declared (readName role.toNat rest).2 := by
  rw [readRoles, parseUnsigned_toNat, parseUnsigned_toNat]

theorem roleLabel_of_not_carriesName {role : Nat} (h : carriesName role = false) (name : Option Str) :
    roleLabel role name = roleLabel role none := by
  obtain ⟨h2, h3⟩ : role ≠ 2 ∧ role ≠ 3 := by simpa [carriesName] using h
  unfold roleLabel
  rw [if_neg h2, if_neg h3, if_neg h2, if_neg h3]

theorem readRoles_fields (declared : Nat) (entry : RoleEntry) (rest : List Str) :
    readRoles declared (entry.fields ++ rest) =
      (if entry.Listed declared then [entry.toSlot] else []) ++ if entry.Nameless then [] else readRoles declared rest := by
  have hlisted : (declared ≤ entry.slot.toNat || entry.role.toNat = 0) = true ↔ ¬ entry.Listed declared := by
    rw [RoleEntry.Listed, Bool.or_eq_true, decide_eq_true_iff, decide_eq_true_iff]
    omega
  have hcons : ∀ label slots, (if (declared ≤ entry.slot.toNat || entry.role.toNat = 0) = true then slots
      else (⟨entry.slot.toNat + 1, label⟩ : XTargetSlot) :: slots) =
        (if entry.Listed declared then [(⟨entry.slot.toNat + 1, label⟩ : XTargetSlot)] else []) ++ slots := by
    intro label slots
    by_cases h : entry.Listed declared
    · rw [if_neg (by rwa [hlisted, not_not]), if_pos h]
      rfl
    · rw [if_pos (hlisted.mpr h), if_neg h, List.nil_append]
  rw [RoleEntry.fields, List.append_assoc, List.cons_append, List.cons_append, List.nil_append, readRoles_cons, hcons]
  by_cases hcarries : carriesName entry.role.toNat = true
  · rw [if_pos hcarries, List.cons_append, List.nil_append]
    by_cases hname : entry.name = []
    · have hread : readName entry.role.toNat (entry.name :: rest) = (none, [] :: rest) := by
        rw [hname]
        unfold readName
        rw [if_pos hcarries]
        rfl
      rw [hread, readRoles_empty, if_pos (show entry.Nameless from ⟨hcarries, hname⟩), RoleEntry.toSlot, if_pos hname]
    · have hread : readName entry.role.toNat (entry.name :: rest) = (some entry.name, rest) := by
        unfold readName
        rw [if_pos hcarries]
        dsimp only
        rw [if_neg (by simpa using hname)]
      rw [hread, if_neg (show ¬ entry.Nameless from fun h => hname h.2), RoleEntry.toSlot, if_neg hname]
  · have hread : readName entry.role.toNat rest = (none, rest) := by
      unfold readName
      rw [if_neg hcarries]
    have hlabel : entry.toSlot = ⟨entry.slot.toNat + 1, roleLabel entry.role.toNat none⟩ := by
      rw [RoleEntry.toSlot, roleLabel_of_not_carriesName (Bool.eq_false_iff.mpr hcarries)]
    rw [if_neg hcarries, List.nil_append, hread, if_neg (show ¬ entry.Nameless from fun h => hcarries h.1), hlabel]

theorem readRoles_entries (declared : Nat) (entries : List RoleEntry) :
    readRoles declared (entries.flatMap RoleEntry.fields) =
      ((reached entries).filter fun entry => entry.Listed declared).map RoleEntry.toSlot := by
  induction entries with
  | nil => rw [List.flatMap_nil, readRoles]; rfl; nofun
  | cons entry entries ih =>
    rw [List.flatMap_cons, readRoles_fields, ih, reached]
    by_cases hnameless : entry.Nameless
    · rw [if_pos hnameless, if_pos hnameless]
      by_cases hlisted : entry.Listed declared
      · simp [hlisted]
      · simp [hlisted]
    · rw [if_neg hnameless, if_neg hnameless]
      by_cases hlisted : entry.Listed declared
      · simp [hlisted]
      · simp [hlisted]

/-! ### The whole string -/

variable {current : CurrentRoles}

theorem prefix_of_reached (entries : List RoleEntry) : reached entries <+: entries := by
  induction entries with
  | nil => exact List.prefix_rfl
  | cons entry entries ih =>
    rw [reached]
    split_ifs
    · exact ⟨entries, rfl⟩
    · exact (List.prefix_cons_inj entry).mpr ih

theorem split_text (current : CurrentRoles) : Str.split '^' current.text =
    current.version :: current.title :: current.count :: current.entries.flatMap RoleEntry.fields := by
  refine Str.split_intercalate fun field hfield => ?_
  rcases List.mem_cons.mp hfield with rfl | hfield
  · exact current.plain.1
  rcases List.mem_cons.mp hfield with rfl | hfield
  · exact current.plain.2.1
  rcases List.mem_cons.mp hfield with rfl | hfield
  · exact current.plain.2.2
  · obtain ⟨entry, -, h⟩ := List.mem_flatMap.mp hfield
    exact caret_not_mem_fields h

/-- The slots read are those of the listed entries that are reached, in slot order. -/
theorem parseCurrentRoles_text (current : CurrentRoles) :
    (parseCurrentRoles current.text).Pairwise (fun a b => a.slot < b.slot) ∧ ∀ slot, slot ∈ parseCurrentRoles current.text ↔
      ∃ entry ∈ reached current.entries, entry.Listed (declaredSlots (some current.count)) ∧ slot = entry.toSlot := by
  let cmp : XTargetSlot → XTargetSlot → Ordering := fun a b => compare a.slot b.slot
  let slots := ((reached current.entries).filter fun entry => entry.Listed (declaredSlots (some current.count))).map
    RoleEntry.toSlot
  have hread : parseCurrentRoles current.text = (sortBy cmp slots).destutter fun a b => a.slot ≠ b.slot := by
    rw [parseCurrentRoles, split_text]
    exact congrArg (fun slots => (sortBy cmp slots).destutter fun a b => a.slot ≠ b.slot) (readRoles_entries _ _)
  have : Std.TransCmp cmp := {
    eq_swap {a b} := @Std.OrientedCmp.eq_swap Nat compare _ a.slot b.slot
    isLE_trans {a b c} := @Std.TransCmp.isLE_trans Nat compare _ a.slot b.slot c.slot }
  have hdistinct : (slots.map (·.slot)).Nodup := by
    have hreached : ((reached current.entries).map (·.slot)).Nodup :=
      current.distinct.sublist ((prefix_of_reached current.entries).sublist.map _)
    have hslots : slots.map (·.slot) = (((reached current.entries).filter fun entry =>
        entry.Listed (declaredSlots (some current.count))).map (·.slot)).map fun slot => slot.toNat + 1 := by
      rw [List.map_map, List.map_map]
      rfl
    rw [hslots]
    refine (hreached.sublist (List.filter_sublist.map _)).map fun a b hab => ?_
    exact UInt8.toNat_inj.mp (Nat.succ_injective hab)
  have hsorted : (sortBy cmp slots).Pairwise fun a b => a.slot < b.slot := by
    have hne : ((sortBy cmp slots).map (·.slot)).Nodup := ((sortBy_perm slots).map _).nodup_iff.mpr hdistinct
    have hle := @sortBy_pairwise _ cmp _ slots
    refine (hle.and (List.pairwise_map.mp hne)).imp fun {a b} h => ?_
    have hgt : ¬ b.slot < a.slot := fun hlt => h.1 (Nat.compare_eq_gt.mpr hlt)
    omega
  have hchain : (sortBy cmp slots).IsChain fun a b => a.slot ≠ b.slot := (hsorted.imp fun h => h.ne).isChain
  rw [hread, List.destutter_of_isChain _ _ hchain]
  refine ⟨hsorted, fun slot => ?_⟩
  rw [mem_sortBy, List.mem_map]
  simp only [List.mem_filter, decide_eq_true_eq, and_assoc]
  exact exists_congr fun _ => and_congr_right fun _ => and_congr_right fun _ => eq_comm

/-- Every entry to list is reached exactly if none comes after a specific target without a name. -/
theorem mem_reached_iff {p : RoleEntry → Prop} {entries : List RoleEntry} (hnodup : (entries.map (·.slot)).Nodup) :
    (∀ entry ∈ entries, p entry → entry ∈ reached entries) ↔
      ∀ before entry after, entries = before ++ entry :: after → entry.Nameless → ∀ later ∈ after, ¬ p later := by
  induction entries with
  | nil => simp
  | cons first entries ih =>
    rw [List.map_cons, List.nodup_cons] at hnodup
    have hfirst : ∀ entry ∈ entries, entry ≠ first := by
      rintro entry he rfl
      exact hnodup.1 (List.mem_map_of_mem he)
    rw [reached]
    by_cases hnameless : first.Nameless
    · rw [if_pos hnameless]
      constructor
      · rintro h before entry after heq - later hl hp
        have hmem : later ∈ entries := by
          cases before with
          | nil => cases heq; exact hl
          | cons b before => cases heq; exact List.mem_append_right _ (List.mem_cons_of_mem _ hl)
        exact hfirst later hmem (List.mem_singleton.mp (h later (List.mem_cons_of_mem _ hmem) hp))
      · intro h entry he hp
        rcases List.mem_cons.mp he with rfl | he
        · exact List.mem_singleton_self _
        · exact absurd hp (h [] first entries rfl hnameless entry he)
    · rw [if_neg hnameless]
      have htail : (∀ entry ∈ first :: entries, p entry → entry ∈ first :: reached entries) ↔
          ∀ entry ∈ entries, p entry → entry ∈ reached entries := by
        rw [List.forall_mem_cons]
        refine (and_iff_right fun _ => List.mem_cons_self).trans (forall₂_congr fun entry he => ?_)
        rw [List.mem_cons, or_iff_right (hfirst entry he)]
      rw [htail, ih hnodup.2]
      constructor
      · rintro h before entry after heq hn
        cases before with
        | nil => cases heq; exact absurd hn hnameless
        | cons b before => cases heq; exact h before entry after rfl hn
      · rintro h before entry after rfl hn
        exact h (first :: before) entry after rfl hn

theorem toSlot_slot_inj {a b : RoleEntry} (h : a.toSlot = b.toSlot) : a.slot = b.slot :=
  UInt8.toNat_inj.mp (Nat.succ_injective (congrArg XTargetSlot.slot h))

/-- The string is decoded exactly if no entry to list comes after a specific target without a name. -/
theorem decoded_iff (current : CurrentRoles) :
    current.Decoded (parseCurrentRoles current.text) ↔ current.NamelessLast := by
  obtain ⟨hsorted, hmem⟩ := parseCurrentRoles_text current
  rw [CurrentRoles.NamelessLast, ← mem_reached_iff current.distinct, CurrentRoles.Decoded, and_iff_right hsorted]
  simp only [hmem]
  constructor
  · intro h entry he hlisted
    obtain ⟨other, ho, hother, heq⟩ := (h entry.toSlot).mpr ⟨entry, he, hlisted, rfl⟩
    have hsame := List.inj_on_of_nodup_map current.distinct he ((prefix_of_reached _).subset ho) (toSlot_slot_inj heq)
    rwa [hsame]
  · intro h slot
    constructor
    · rintro ⟨entry, he, hlisted, rfl⟩
      exact ⟨entry, (prefix_of_reached _).subset he, hlisted, rfl⟩
    · rintro ⟨entry, he, hlisted, rfl⟩
      exact ⟨entry, h entry he hlisted, hlisted, rfl⟩

/-- A specific player without a name, before an auto hater. -/
def unnamedTarget : CurrentRoles where
  version := ['1']
  title := "Autosave".toList
  count := ['2']
  entries := [⟨0, 2, [], List.not_mem_nil⟩, ⟨1, 1, [], List.not_mem_nil⟩]
  plain := by decide
  distinct := by decide

/-- The field of the name that is missing hides the entry after it. -/
theorem unnamed_target_hides_next :
    unnamedTarget.text = "1^Autosave^2^0^2^^1^1".toList ∧
      (⟨2, "Auto hater".toList⟩ : XTargetSlot) ∉ parseCurrentRoles unnamedTarget.text ∧
      ¬ unnamedTarget.Decoded (parseCurrentRoles unnamedTarget.text) := by
  have hread : ∀ slot, slot ∈ parseCurrentRoles unnamedTarget.text → slot.slot = 1 := by
    intro slot h
    obtain ⟨entry, he, -, rfl⟩ := ((parseCurrentRoles_text unnamedTarget).2 slot).mp h
    have hreached : reached unnamedTarget.entries = [⟨0, 2, [], List.not_mem_nil⟩] := rfl
    rw [hreached] at he
    rw [List.mem_singleton.mp he]
    rfl
  have hhidden : (⟨2, "Auto hater".toList⟩ : XTargetSlot) ∉ parseCurrentRoles unnamedTarget.text :=
    fun h => absurd (hread _ h) (by decide)
  refine ⟨by decide, hhidden, fun h => hhidden ?_⟩
  exact (h.2 _).mpr ⟨⟨1, 1, [], List.not_mem_nil⟩, List.mem_cons_of_mem _ List.mem_cons_self, by decide, by decide⟩

end Stonemite.XTargets
