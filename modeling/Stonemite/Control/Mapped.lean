import Stonemite.Control.Keymap

/-!
# Listing and resolving key mappings

A mapping name is a candidate for the listing if it is a default name or some profile has an entry for it. The listing is
that of the candidates that resolve, unless one of them is malformed. `Candidate` is what both sides have in common;
`listing_agrees` compares the listing with the resolution of each name.
-/

open Std

namespace Stonemite

namespace Keymaps

variable {shared keymaps : Option KeymapFile} {profiles : List (Option KeymapFile)} {mapping : EqMappingName}
  {binding : ResolvedBinding} {key : Str}

/-! ### Entries -/

/-- The entry of the most specific profile that has one. -/
def entryOf (files : List (Option KeymapFile)) (key : Str) : Option Str :=
  files.findSome? fun file => file.bind fun file => file.values[key]?

theorem overlay_entry (effective profile : Option KeymapFile) (key : Str) :
    (overlay effective profile).bind (fun file => file.values[key]?) =
      (profile.bind fun file => file.values[key]?).or (effective.bind fun file => file.values[key]?) := by
  cases profile with
  | none => rfl
  | some profile =>
    cases effective with
    | none => simp [overlay]
    | some effective => exact ExtTreeMap.getElem?_union

theorem effectiveKeymaps_entry (shared : Option KeymapFile) (profiles : List (Option KeymapFile)) (key : Str) :
    (effectiveKeymaps shared profiles).bind (fun file => file.values[key]?) = entryOf (profiles ++ [shared]) key := by
  rw [effectiveKeymaps, List.foldl_reverse]
  induction profiles with
  | nil =>
    rw [List.nil_append, entryOf, List.findSome?_cons, List.foldr_nil]
    cases shared.bind fun file => file.values[key]? <;> rfl
  | cons profile profiles ih =>
    rw [List.foldr_cons, overlay_entry, ih, List.cons_append]
    simp only [entryOf, List.findSome?_cons]
    cases profile.bind fun file => file.values[key]? <;> rfl

/-! ### Candidates -/

/-- A default name, or one that a profile has an entry for. -/
def Candidate (shared : Option KeymapFile) (profiles : List (Option KeymapFile)) (mapping : EqMappingName) : Prop :=
  mapping ∈ knownDefaultMappingNames ∨
    ∃ slot, (slot = 1 ∨ slot = 2) ∧ (entryOf (profiles ++ [shared]) (keymappingKey mapping slot)).isSome

theorem new_text (mapping : EqMappingName) : EqMappingName.new mapping.text = some mapping := by
  rw [EqMappingName.new]
  have hvalid : isMappingName mapping.text.toAsciiUppercase = true := by
    rw [mapping.upper]
    exact mapping.valid
  rw [dif_pos hvalid]
  exact congrArg some (EqMappingName.ext_text mapping.upper)

theorem new_eq_some {value : Str} (h : EqMappingName.new value = some mapping) :
    mapping.text = value.toAsciiUppercase := by
  rw [EqMappingName.new] at h
  split_ifs at h
  cases h
  rfl

theorem keymappingKey_eq (mapping : EqMappingName) (slot : Nat) :
    keymappingKey mapping slot = "KEYMAPPING_".toList ++ (mapping.text ++ '_' :: Str.decimal slot) := by
  unfold keymappingKey
  generalize "KEYMAPPING_".toList = pre
  simp

theorem decimal_one : Str.decimal ((1 : Nat) : Int) = ['1'] := by decide

theorem decimal_two : Str.decimal ((2 : Nat) : Int) = ['2'] := by decide

/-- Keys in upper case are read as the name and the slot that they are written from. -/
theorem mappingNameFromKey_iff (hkey : key.toAsciiUppercase = key) :
    mappingNameFromKey key = some mapping ↔ ∃ slot, (slot = 1 ∨ slot = 2) ∧ key = keymappingKey mapping slot := by
  constructor
  · intro h
    obtain ⟨rest, hrest, h⟩ := Option.bind_eq_some_iff.mp h
    obtain ⟨⟨name, slot⟩, hsplit, h⟩ := Option.bind_eq_some_iff.mp h
    rw [Str.stripPrefix_eq_some] at hrest
    have hrest' := Str.rsplitOnce_eq_some hsplit
    dsimp only at h
    split_ifs at h with hslot
    have hname : mapping.text = name := by
      rw [new_eq_some h]
      rw [hrest, hrest', Str.toAsciiUppercase, List.map_append, List.map_append] at hkey
      have hlength : (List.map Char.toUpper "KEYMAPPING_".toList).length = "KEYMAPPING_".toList.length := List.length_map _
      have hinner := (List.append_inj hkey hlength).2
      exact (List.append_inj hinner (List.length_map _)).1
    rw [hrest, hrest', ← hname]
    rcases Bool.or_eq_true_iff.mp hslot with h1 | h2
    · exact ⟨1, .inl rfl, by rw [keymappingKey_eq, decimal_one, of_decide_eq_true h1]⟩
    · exact ⟨2, .inr rfl, by rw [keymappingKey_eq, decimal_two, of_decide_eq_true h2]⟩
  · rintro ⟨slot, hslot, rfl⟩
    have hcases : Str.decimal slot = ['1'] ∨ Str.decimal slot = ['2'] := by
      rcases hslot with rfl | rfl
      · exact .inl decimal_one
      · exact .inr decimal_two
    have hsplit : Str.rsplitOnce '_' (mapping.text ++ '_' :: Str.decimal slot) = some (mapping.text, Str.decimal slot) := by
      refine Str.rsplitOnce_append _ ?_
      rcases hcases with h | h <;> rw [h] <;> decide
    have hstrip : Str.stripPrefix (keymappingKey mapping slot) "KEYMAPPING_".toList =
        some (mapping.text ++ '_' :: Str.decimal slot) :=
      Str.stripPrefix_eq_some.mpr (keymappingKey_eq mapping slot)
    rw [mappingNameFromKey, hstrip, Option.bind_some, hsplit, Option.bind_some]
    dsimp only
    rw [if_pos (by rcases hcases with h | h <;> rw [h] <;> rfl), new_text]

theorem mem_foldl_insert {names : List EqMappingName} {start : MappingNames} :
    mapping ∈ names.foldl (fun names name => names.insert name) start ↔ mapping ∈ start ∨ mapping ∈ names := by
  induction names generalizing start with
  | nil => simp
  | cons name names ih =>
    rw [List.foldl_cons, ih, ExtTreeSet.mem_insert, Std.LawfulEqCmp.compare_eq_iff_eq, List.mem_cons]
    tauto

theorem mem_candidates : mapping ∈ candidates (effectiveKeymaps shared profiles) ↔ Candidate shared profiles mapping := by
  rw [candidates, mem_foldl_insert, List.mem_append, List.mem_filterMap, Candidate]
  refine (or_iff_right ExtTreeSet.not_mem_empty).trans (or_congr_right ?_)
  simp only [← effectiveKeymaps_entry]
  cases effectiveKeymaps shared profiles with
  | none => simp
  | some file =>
    simp only [Option.map_some, Option.getD_some, ExtTreeMap.mem_keys, Option.bind_some]
    constructor
    · rintro ⟨key, hkey, h⟩
      obtain ⟨slot, hslot, rfl⟩ := (mappingNameFromKey_iff (file.upper key hkey)).mp h
      exact ⟨slot, hslot, ExtTreeMap.isSome_getElem?_iff_mem.mpr hkey⟩
    · rintro ⟨slot, hslot, h⟩
      have hkey := ExtTreeMap.isSome_getElem?_iff_mem.mp h
      exact ⟨_, hkey, (mappingNameFromKey_iff (file.upper _ hkey)).mpr ⟨slot, hslot, rfl⟩⟩

/-! ### The listing -/

theorem foldlM_listCandidate {names : List EqMappingName} {start : MappingNames} :
    (∀ result, names.foldlM (listCandidate keymaps) start = .ok result →
      ∀ mapping, mapping ∈ result ↔
        mapping ∈ start ∨ mapping ∈ names ∧ ∃ binding, resolveFromKeymaps mapping keymaps = .ok binding) ∧
    ((∃ name ∈ names, ∃ message, resolveFromKeymaps name keymaps = .error (.malformed message)) →
      ∃ message, names.foldlM (listCandidate keymaps) start = .error (.malformed message)) ∧
    ((∀ name ∈ names, ∀ message, resolveFromKeymaps name keymaps ≠ .error (.malformed message)) →
      ∃ result, names.foldlM (listCandidate keymaps) start = .ok result) := by
  induction names generalizing start with
  | nil => exact ⟨fun _ h _ => by cases h; simp, fun ⟨_, h, _⟩ => absurd h List.not_mem_nil, fun _ => ⟨start, rfl⟩⟩
  | cons name names ih =>
    rw [List.foldlM_cons]
    cases hresolve : resolveFromKeymaps name keymaps with
    | ok binding =>
      have hstep : listCandidate keymaps start name = .ok (start.insert name) := by rw [listCandidate, hresolve]
      rw [hstep]
      obtain ⟨hmem, herror, hok⟩ := @ih (start.insert name)
      refine ⟨fun result h mapping => ?_, ?_, fun h => hok fun other ho => h other (List.mem_cons_of_mem _ ho)⟩
      · rw [hmem result h, ExtTreeSet.mem_insert, Std.LawfulEqCmp.compare_eq_iff_eq, List.mem_cons]
        constructor
        · rintro ((rfl | hs) | ⟨hn, hb⟩)
          · exact .inr ⟨.inl rfl, binding, hresolve⟩
          · exact .inl hs
          · exact .inr ⟨.inr hn, hb⟩
        · rintro (hs | ⟨rfl | hn, hb⟩)
          · exact .inl (.inr hs)
          · exact .inl (.inl rfl)
          · exact .inr ⟨hn, hb⟩
      · rintro ⟨other, ho, message, hm⟩
        rcases List.mem_cons.mp ho with rfl | ho
        · rw [hresolve] at hm
          cases hm
        · exact herror ⟨other, ho, message, hm⟩
    | error error =>
      cases error with
      | unbound =>
        have hstep : listCandidate keymaps start name = .ok start := by rw [listCandidate, hresolve]
        rw [hstep]
        obtain ⟨hmem, herror, hok⟩ := @ih start
        refine ⟨fun result h mapping => ?_, ?_, fun h => hok fun other ho => h other (List.mem_cons_of_mem _ ho)⟩
        · rw [hmem result h, List.mem_cons]
          refine or_congr_right ⟨fun ⟨hn, hb⟩ => ⟨.inr hn, hb⟩, ?_⟩
          rintro ⟨rfl | hn, binding, hb⟩
          · rw [hresolve] at hb
            cases hb
          · exact ⟨hn, binding, hb⟩
        · rintro ⟨other, ho, message, hm⟩
          rcases List.mem_cons.mp ho with rfl | ho
          · rw [hresolve] at hm
            cases hm
          · exact herror ⟨other, ho, message, hm⟩
      | malformed message =>
        have hstep : listCandidate keymaps start name = .error (.malformed message) := by rw [listCandidate, hresolve]
        rw [hstep]
        refine ⟨nofun, fun _ => ⟨message, rfl⟩, fun h => ?_⟩
        exact absurd hresolve (h name List.mem_cons_self message)

theorem mappedActions_malformed
    (h : ∃ name, Candidate shared profiles name ∧ ∃ message,
      resolveMapping name shared profiles = .error (.malformed message)) :
    ∃ message, mappedActions shared profiles = .error (.malformed message) := by
  obtain ⟨name, hname, message, hm⟩ := h
  refine foldlM_listCandidate.2.1 ⟨name, ?_, message, hm⟩
  rw [ExtTreeSet.mem_toList]
  exact mem_candidates.mpr hname

theorem mappedActions_ok
    (h : ∀ name, Candidate shared profiles name → ∀ message,
      resolveMapping name shared profiles ≠ .error (.malformed message)) :
    ∃ names, mappedActions shared profiles = .ok names ∧ ∀ mapping, mapping ∈ names ↔
      Candidate shared profiles mapping ∧ ∃ binding, resolveMapping mapping shared profiles = .ok binding := by
  have hspec := @foldlM_listCandidate (effectiveKeymaps shared profiles)
    (candidates (effectiveKeymaps shared profiles)).toList ∅
  obtain ⟨names, hnames⟩ := hspec.2.2 fun name hname =>
    h name (mem_candidates.mp (ExtTreeSet.mem_toList.mp hname))
  refine ⟨names, hnames, fun mapping => ?_⟩
  rw [hspec.1 names hnames, ExtTreeSet.mem_toList, mem_candidates]
  exact or_iff_right ExtTreeSet.not_mem_empty

/-! ### Resolution -/

theorem slotValue_eq (slot : Nat) : slotValue mapping (effectiveKeymaps shared profiles) slot =
    match entryOf (profiles ++ [shared]) (keymappingKey mapping slot) with
    | some value => parseMapping value (keymappingKey mapping slot)
    | none => .ok ((defaultMapping mapping slot).getD 0) := by
  have hentry := effectiveKeymaps_entry shared profiles (keymappingKey mapping slot)
  exact congrArg (fun entry : Option Str => match entry with
    | some value => parseMapping value (keymappingKey mapping slot)
    | none => .ok ((defaultMapping mapping slot).getD 0)) hentry

/-- The binding is that of a slot of the most specific entry, or of the default where there is none; the slots before
are zero. -/
def DecodedFrom (shared : Option KeymapFile) (profiles : List (Option KeymapFile)) (mapping : EqMappingName)
    (binding : ResolvedBinding) (slot : Nat) : Prop :=
  ∃ encoded, encoded ≠ 0 ∧ decodeMapping encoded (keymappingKey mapping slot) = .ok binding ∧
    match entryOf (profiles ++ [shared]) (keymappingKey mapping slot) with
    | some value => Str.parseUnsigned 32 value = some encoded
    | none => defaultMapping mapping slot = some encoded

/-- The slot is zero, by its most specific entry or, where there is none, by its default. -/
def Zero (shared : Option KeymapFile) (profiles : List (Option KeymapFile)) (mapping : EqMappingName) (slot : Nat) :
    Prop :=
  match entryOf (profiles ++ [shared]) (keymappingKey mapping slot) with
  | some value => Str.parseUnsigned 32 value = some 0
  | none => (defaultMapping mapping slot).getD 0 = 0

theorem parseMapping_eq_ok {value name : Str} {encoded : Nat} :
    parseMapping value name = .ok encoded ↔ Str.parseUnsigned 32 value = some encoded := by
  rw [parseMapping]
  cases Str.parseUnsigned 32 value <;> simp

theorem zero_iff {slot : Nat} :
    Zero shared profiles mapping slot ↔ slotValue mapping (effectiveKeymaps shared profiles) slot = .ok 0 := by
  rw [slotValue_eq, Zero]
  cases entryOf (profiles ++ [shared]) (keymappingKey mapping slot) with
  | some value => exact parseMapping_eq_ok.symm
  | none => simp

theorem decodedFrom_iff {slot : Nat} : DecodedFrom shared profiles mapping binding slot ↔
    ∃ encoded, encoded ≠ 0 ∧ decodeMapping encoded (keymappingKey mapping slot) = .ok binding ∧
      slotValue mapping (effectiveKeymaps shared profiles) slot = .ok encoded := by
  rw [slotValue_eq, DecodedFrom]
  refine exists_congr fun encoded => and_congr_right fun hne => and_congr_right fun _ => ?_
  cases entryOf (profiles ++ [shared]) (keymappingKey mapping slot) with
  | some value => exact parseMapping_eq_ok.symm
  | none =>
    cases defaultMapping mapping slot with
    | some value => simp
    | none => simpa using Ne.symm hne

theorem resolveSlots_cons {slot : Nat} {rest : List Nat} :
    resolveSlots mapping (effectiveKeymaps shared profiles) (slot :: rest) = .ok binding ↔
      DecodedFrom shared profiles mapping binding slot ∨
        Zero shared profiles mapping slot ∧ resolveSlots mapping (effectiveKeymaps shared profiles) rest = .ok binding := by
  rw [resolveSlots, decodedFrom_iff, zero_iff]
  cases slotValue mapping (effectiveKeymaps shared profiles) slot with
  | error error => simp
  | ok encoded =>
    by_cases hzero : encoded = 0
    · simp [hzero]
    · simp [hzero]

theorem resolveMapping_iff : resolveMapping mapping shared profiles = .ok binding ↔
    DecodedFrom shared profiles mapping binding 1 ∨
      Zero shared profiles mapping 1 ∧ DecodedFrom shared profiles mapping binding 2 := by
  rw [resolveMapping, resolveFromKeymaps, resolveSlots_cons, resolveSlots_cons]
  refine or_congr_right (and_congr_right fun _ => or_iff_left ?_)
  rintro ⟨-, h⟩
  cases h

/-- A name without an entry and without a default does not resolve. -/
theorem not_resolves (hcandidate : ¬ Candidate shared profiles mapping) (hdefault : defaultMapping mapping 1 = none) :
    resolveMapping mapping shared profiles ≠ .ok binding := by
  have hslot : ∀ slot, slot = 1 ∨ slot = 2 → ¬ DecodedFrom shared profiles mapping binding slot := by
    rintro slot hs ⟨encoded, -, -, h⟩
    have hentry : entryOf (profiles ++ [shared]) (keymappingKey mapping slot) = none := by
      rw [← Option.not_isSome_iff_eq_none]
      exact fun hsome => hcandidate (.inr ⟨slot, hs, hsome⟩)
    rw [hentry] at h
    rcases hs with rfl | rfl
    · rw [hdefault] at h
      cases h
    · cases h
  rw [Ne, resolveMapping_iff]
  rintro (h | ⟨-, h⟩)
  · exact hslot 1 (.inl rfl) h
  · exact hslot 2 (.inr rfl) h

/-- The listing is that of the names that resolve, unless a candidate is malformed: then there is none. A binding is that
of the first slot that is not zero, by its most specific entry or its default. -/
theorem listing_agrees (shared : Option KeymapFile) (profiles : List (Option KeymapFile)) :
    ((∃ name, Candidate shared profiles name ∧ ∃ message,
        resolveMapping name shared profiles = .error (.malformed message)) →
      ∃ message, mappedActions shared profiles = .error (.malformed message)) ∧
    ((∀ name, Candidate shared profiles name → ∀ message,
        resolveMapping name shared profiles ≠ .error (.malformed message)) →
      ∃ names, mappedActions shared profiles = .ok names ∧
        ∀ mapping, (Candidate shared profiles mapping ∨ defaultMapping mapping 1 = none) →
          (mapping ∈ names ↔ ∃ binding, resolveMapping mapping shared profiles = .ok binding)) ∧
    ∀ mapping binding, resolveMapping mapping shared profiles = .ok binding ↔
      DecodedFrom shared profiles mapping binding 1 ∨
        Zero shared profiles mapping 1 ∧ DecodedFrom shared profiles mapping binding 2 := by
  refine ⟨mappedActions_malformed, fun h => ?_, fun _ _ => resolveMapping_iff⟩
  obtain ⟨names, hnames, hmem⟩ := mappedActions_ok h
  refine ⟨names, hnames, fun mapping hm => ?_⟩
  rw [hmem mapping]
  refine and_iff_right_of_imp fun ⟨binding, hb⟩ => ?_
  by_contra hcandidate
  exact not_resolves hcandidate (hm.resolve_left hcandidate) hb

/-! ### What keeps the two apart -/

def useName : EqMappingName := ⟨"USE".toList, by decide, by decide⟩

def zzName : EqMappingName := ⟨"ZZ".toList, by decide, by decide⟩

/-- The first button of the first bar, with a zero before it. -/
def paddedName : EqMappingName := ⟨"HOT1_01".toList, by decide, by decide⟩

def malformedFile : KeymapFile := KeymapFile.empty.insert "KEYMAPPING_ZZ_1".toList "x".toList

theorem entryOf_malformedFile (key : Str) : entryOf ([] ++ [some malformedFile]) key =
    if "KEYMAPPING_ZZ_1".toList = key then some "x".toList else none := by
  have hupper : Str.toAsciiUppercase "KEYMAPPING_ZZ_1".toList = "KEYMAPPING_ZZ_1".toList := by decide
  have hvalues : malformedFile.values = (∅ : ExtTreeMap Str Str).insert "KEYMAPPING_ZZ_1".toList "x".toList :=
    congrArg (fun key => (∅ : ExtTreeMap Str Str).insert key "x".toList) hupper
  have hentry : entryOf ([] ++ [some malformedFile]) key = malformedFile.values[key]? := by
    rw [List.nil_append, entryOf, List.findSome?_singleton]
    rfl
  rw [hentry, hvalues, ExtTreeMap.getElem?_insert]
  simp only [Std.LawfulEqCmp.compare_eq_iff_eq, ExtTreeMap.getElem?_empty]

theorem resolveMapping_zz : ∃ message,
    resolveMapping zzName (some malformedFile) [] = .error (.malformed message) := by
  have hkey : "KEYMAPPING_ZZ_1".toList = keymappingKey zzName 1 := by decide
  have hparse : Str.parseUnsigned 32 "x".toList = none := by decide
  have hslot : slotValue zzName (effectiveKeymaps (some malformedFile) []) 1 =
      .error (.malformed (keymappingKey zzName 1 ++ " is not a valid 32-bit key mapping".toList)) := by
    rw [slotValue_eq, entryOf_malformedFile, if_pos hkey]
    dsimp only
    rw [parseMapping, hparse]
  refine ⟨keymappingKey zzName 1 ++ " is not a valid 32-bit key mapping".toList, ?_⟩
  rw [resolveMapping, resolveFromKeymaps, resolveSlots, hslot]

/-- One malformed entry takes every name off the listing, and a padded default name resolves without being listed. -/
theorem listing_differs :
    (∃ message, mappedActions (some malformedFile) [] = .error (.malformed message) ∧
      resolveMapping useName (some malformedFile) [] = .ok ⟨[0x16]⟩) ∧
    ∃ names, mappedActions none [] = .ok names ∧ paddedName ∉ names ∧
      resolveMapping paddedName none [] = .ok ⟨[2]⟩ := by
  constructor
  · have hcandidate : Candidate (some malformedFile) [] zzName := by
      refine .inr ⟨1, .inl rfl, ?_⟩
      rw [entryOf_malformedFile, if_pos (by decide)]
      rfl
    obtain ⟨message, hmessage⟩ := mappedActions_malformed ⟨zzName, hcandidate, resolveMapping_zz⟩
    refine ⟨message, hmessage, resolveMapping_iff.mpr (.inl ⟨0x16, by decide, by decide, ?_⟩)⟩
    rw [entryOf_malformedFile, if_neg (by decide)]
    decide
  · have hnone : ∀ key, entryOf ([] ++ [none]) key = none := fun _ => rfl
    have hcandidate : ∀ mapping, Candidate none [] mapping → mapping ∈ knownDefaultMappingNames := by
      rintro mapping (h | ⟨slot, -, h⟩)
      · exact h
      · rw [hnone] at h
        cases h
    have hresolves : ∀ name ∈ knownDefaultMappingNames, ∀ message,
        resolveMapping name none [] ≠ .error (.malformed message) := by
      have hall : ∀ name ∈ knownDefaultMappingNames, (resolveFromKeymaps name none).toOption.isSome = true := by decide
      intro name hname message h
      have hsome := hall name hname
      rw [show resolveFromKeymaps name none = .error (.malformed message) from h] at hsome
      cases hsome
    obtain ⟨names, hnames, hmem⟩ := mappedActions_ok fun name hname => hresolves name (hcandidate name hname)
    refine ⟨names, hnames, fun h => ?_, by decide⟩
    exact absurd (hcandidate paddedName ((hmem paddedName).mp h).1) (by decide)

end Keymaps

end Stonemite
