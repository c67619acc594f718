import Stonemite.Casting.Catalog

/-!
# Ambiguous spell names

The candidates of a name are the records of the catalog text that have it, in the order of their ids. Without a class
that has one of them, a definition is given if they agree; the class that only one of them has is not looked at.
`Settled` is when a name has one answer, `FailsClosed` what the source promises of the others; `failsClosed_iff` says for
which texts, names and classes the promise is kept.
-/

open Std

namespace Stonemite.Casting

/-- A catalog text in which no two spells have the same id, and the text of its landing messages. -/
structure CatalogText where
  spells : Str
  strings : Str
  distinct : ((spells.lines.filterMap (parseRecord (parseSpellStrings strings))).map SpellRecord.id).Nodup

namespace CatalogText

def records (text : CatalogText) : List SpellRecord :=
  text.spells.lines.filterMap (parseRecord (parseSpellStrings text.strings))

def catalog (text : CatalogText) : SpellCatalog := .fromText text.spells text.strings

/-- The records of a name. -/
def named (text : CatalogText) (name : Str) : List SpellRecord :=
  text.records.filter fun record => normalize record.name = normalize name

end CatalogText

/-- The spells of players, or all of them if there is none. -/
def relevant (candidates : List SpellRecord) : List SpellRecord :=
  if candidates.any SpellRecord.isPlayerSpell then candidates.filter SpellRecord.isPlayerSpell else candidates

/-- The class has one of the candidates. -/
def Hinted (candidates : List SpellRecord) (code : Option Str) : Prop :=
  ∃ c, code = some c ∧ ∃ record ∈ candidates, record.matchesClass c = true

/-- The texts have the same lines; so have the texts of the messages, which are the same text or name no spell twice. -/
structure Reordered (text other : CatalogText) : Prop where
  spells : other.spells.lines.Perm text.spells.lines
  strings : other.strings = text.strings ∨ other.strings.lines.Perm text.strings.lines ∧
    ((text.strings.lines.filterMap parseString).map (·.1)).Nodup

/-- How a name is to be resolved. -/
structure FailsClosed (text : CatalogText) (name : Str) (code : Option Str) : Prop where
  agreed : ¬ Hinted (text.named name) code → ∀ definition, text.catalog.resolve name code = some definition →
    ∀ record ∈ relevant (text.named name), record.definition = { definition with id := record.id, name := record.name }
  hinted : ∀ c, code = some c → (∃ record ∈ text.named name, record.matchesClass c = true) →
    ∃ record ∈ text.named name, record.matchesClass c = true ∧
      text.catalog.resolve name code = some record.definition
  unordered : ∀ other, Reordered text other → other.catalog.resolve name code = text.catalog.resolve name code

/-- The class has a candidate, two of the relevant candidates differ in what they are compared by, or all of them have the
same unique class. -/
def Settled (text : CatalogText) (name : Str) (code : Option Str) : Prop :=
  Hinted (text.named name) code ∨
    (∃ a ∈ relevant (text.named name), ∃ b ∈ relevant (text.named name), SpellCatalog.agree a b = false) ∨
    ∀ a ∈ relevant (text.named name), ∀ b ∈ relevant (text.named name), a.uniqueClass = b.uniqueClass

variable {text : CatalogText} {name : Str} {code : Option Str} {candidates : List SpellRecord} {a b c : SpellRecord}

/-! ### The candidates of a name -/

theorem lookup_push (byName : ExtTreeMap Str (List SpellRecord)) (record : SpellRecord) (key : Str) :
    (SpellCatalog.push byName record)[key]? =
      if normalize record.name = key then some ((byName[key]?).getD [] ++ [record]) else byName[key]? := by
  rw [SpellCatalog.push, ExtTreeMap.getElem?_insert_ite]
  by_cases h : normalize record.name = key
  · rw [if_pos h, if_pos h, h]
  · rw [if_neg h, if_neg h]

theorem lookup_foldl_push (records : List SpellRecord) (byName : ExtTreeMap Str (List SpellRecord)) (key : Str) :
    ((records.foldl SpellCatalog.push byName)[key]?).getD [] =
      (byName[key]?).getD [] ++ records.filter fun record => normalize record.name = key := by
  induction records generalizing byName with
  | nil => simp
  | cons record records ih =>
    rw [List.foldl_cons, ih, lookup_push]
    by_cases h : normalize record.name = key
    · simp [h]
    · simp [h]

theorem mem_push (byName : ExtTreeMap Str (List SpellRecord)) (record : SpellRecord) (key : Str)
    (h : byName[key]? ≠ some []) : (SpellCatalog.push byName record)[key]? ≠ some [] := by
  rw [lookup_push]
  split_ifs
  · simp
  · exact h

theorem foldl_push_ne_nil (records : List SpellRecord) (byName : ExtTreeMap Str (List SpellRecord)) (key : Str)
    (h : byName[key]? ≠ some []) : (records.foldl SpellCatalog.push byName)[key]? ≠ some [] := by
  induction records generalizing byName with
  | nil => exact h
  | cons record records ih => exact ih _ (mem_push byName record key h)

theorem lookup_catalog (text : CatalogText) (name : Str) :
    text.catalog.byName[normalize name]? =
      if text.named name = [] then none else some (sortBy SpellCatalog.compareId (text.named name)) := by
  have hentry : ((text.records.foldl SpellCatalog.push ∅)[normalize name]?).getD [] = text.named name := by
    rw [lookup_foldl_push, ExtTreeMap.getElem?_empty, Option.getD_none, List.nil_append, CatalogText.named]
  have hne := foldl_push_ne_nil text.records ∅ (normalize name) (by simp)
  have hmap : text.catalog.byName[normalize name]? =
      ((text.records.foldl SpellCatalog.push ∅)[normalize name]?).map (sortBy SpellCatalog.compareId) :=
    ExtTreeMap.getElem?_map
  rw [hmap]
  cases hlookup : (text.records.foldl SpellCatalog.push ∅)[normalize name]? with
  | none =>
    rw [hlookup] at hentry
    have hnil : text.named name = [] := hentry.symm
    rw [if_pos hnil]
    rfl
  | some found =>
    rw [hlookup] at hentry hne
    have hfound : found = text.named name := hentry
    rw [if_neg fun hnil => hne (by rw [hfound, hnil]), hfound]
    rfl

/-- The definition that a list of candidates gives. -/
def choose (candidates : List SpellRecord) (code : Option Str) : Option SpellRecord :=
  ((code.bind fun code => candidates.find? fun record => record.matchesClass code).or
    (SpellCatalog.uniqueCandidate (candidates.filter SpellRecord.isPlayerSpell))).or
      (SpellCatalog.uniqueCandidate candidates)

theorem resolve_eq (text : CatalogText) (name : Str) (code : Option Str) : text.catalog.resolve name code =
    (choose (sortBy SpellCatalog.compareId (text.named name)) code).map SpellRecord.definition := by
  rw [SpellCatalog.resolve, lookup_catalog]
  by_cases hnil : text.named name = []
  · rw [if_pos hnil, hnil]
    cases code <;> rfl
  · rw [if_neg hnil, choose]
    dsimp only
    cases code.bind fun code => (sortBy SpellCatalog.compareId (text.named name)).find? fun record =>
        record.matchesClass code with
    | some record => rfl
    | none =>
      cases SpellCatalog.uniqueCandidate
          ((sortBy SpellCatalog.compareId (text.named name)).filter SpellRecord.isPlayerSpell) with
      | some record => rfl
      | none => rfl

/-! ### Agreement -/

theorem agree_iff : SpellCatalog.agree a b = true ↔
    b.baseCastTime = a.baseCastTime ∧ b.castOnYou = a.castOnYou ∧ b.castOnOther = a.castOnOther := by
  simp [SpellCatalog.agree, and_assoc]

theorem agree_trans (hb : SpellCatalog.agree a b = true) (hc : SpellCatalog.agree a c = true) :
    SpellCatalog.agree b c = true := by
  obtain ⟨h1, h2, h3⟩ := agree_iff.mp hb
  obtain ⟨g1, g2, g3⟩ := agree_iff.mp hc
  exact agree_iff.mpr ⟨g1.trans h1.symm, g2.trans h2.symm, g3.trans h3.symm⟩

theorem uniqueCandidate_eq_some (h : SpellCatalog.uniqueCandidate candidates = some a) :
    a ∈ candidates ∧ ∀ b ∈ candidates, SpellCatalog.agree a b = true := by
  cases candidates with
  | nil => cases h
  | cons first candidates =>
    rw [SpellCatalog.uniqueCandidate] at h
    split_ifs at h with hall
    cases h
    refine ⟨List.mem_cons_self, fun b hb => ?_⟩
    rcases List.mem_cons.mp hb with rfl | hb
    · exact agree_iff.mpr ⟨rfl, rfl, rfl⟩
    · exact List.all_eq_true.mp hall b hb

theorem uniqueCandidate_of_agree (hne : candidates ≠ [])
    (h : ∀ a ∈ candidates, ∀ b ∈ candidates, SpellCatalog.agree a b = true) :
    ∃ a, SpellCatalog.uniqueCandidate candidates = some a := by
  cases candidates with
  | nil => exact absurd rfl hne
  | cons first candidates =>
    refine ⟨first, if_pos (List.all_eq_true.mpr fun b hb => ?_)⟩
    exact h first List.mem_cons_self b (List.mem_cons_of_mem _ hb)

/-- Without a class that has a candidate, only the relevant candidates count. -/
theorem choose_unhinted (h : ¬ Hinted candidates code) :
    choose candidates code = SpellCatalog.uniqueCandidate (relevant candidates) := by
  have hfind : (code.bind fun code => candidates.find? fun record => record.matchesClass code) = none := by
    cases code with
    | none => rfl
    | some code =>
      rw [Option.bind_some, List.find?_eq_none]
      exact fun record hr hm => h ⟨code, rfl, record, hr, hm⟩
  rw [choose, hfind, Option.none_or, relevant]
  split_ifs with hany
  · cases hunique : SpellCatalog.uniqueCandidate (candidates.filter SpellRecord.isPlayerSpell) with
    | some record => rfl
    | none =>
      rw [Option.none_or]
      cases hall : SpellCatalog.uniqueCandidate candidates with
      | none => rfl
      | some first =>
        have hagree := (uniqueCandidate_eq_some hall).2
        obtain ⟨player, hp, hplayer⟩ := List.any_eq_true.mp hany
        have hne : candidates.filter SpellRecord.isPlayerSpell ≠ [] :=
          List.ne_nil_of_mem (List.mem_filter.mpr ⟨hp, hplayer⟩)
        obtain ⟨a, ha⟩ := uniqueCandidate_of_agree hne fun a ha b hb =>
          agree_trans (hagree a (List.mem_of_mem_filter ha)) (hagree b (List.mem_of_mem_filter hb))
        rw [hunique] at ha
        cases ha
  · have hnone : candidates.filter SpellRecord.isPlayerSpell = [] := by
      rw [List.filter_eq_nil_iff]
      exact fun record hr hplayer => hany (List.any_eq_true.mpr ⟨record, hr, hplayer⟩)
    rw [hnone]
    rfl

theorem mem_relevant_of_perm {other : List SpellRecord} (h : candidates.Perm other) :
    a ∈ relevant candidates ↔ a ∈ relevant other := by
  have hany : candidates.any SpellRecord.isPlayerSpell = other.any SpellRecord.isPlayerSpell := h.any_eq
  rw [relevant, relevant, hany]
  split_ifs
  · rw [List.mem_filter, List.mem_filter, h.mem_iff]
  · exact h.mem_iff

/-! ### The order of the lines -/

theorem sortBy_eq_of_perm {other : List SpellRecord} (hdistinct : (candidates.map SpellRecord.id).Nodup)
    (h : candidates.Perm other) : sortBy SpellCatalog.compareId other = sortBy SpellCatalog.compareId candidates := by
  have : Std.TransCmp SpellCatalog.compareId := {
    eq_swap {a b} := @Std.OrientedCmp.eq_swap Nat compare _ a.id b.id
    isLE_trans {a b c} := @Std.TransCmp.isLE_trans Nat compare _ a.id b.id c.id }
  have hperm : (sortBy SpellCatalog.compareId other).Perm (sortBy SpellCatalog.compareId candidates) :=
    (sortBy_perm other).trans (h.symm.trans (sortBy_perm candidates).symm)
  refine List.Perm.eq_of_pairwise (fun a b ha hb hab hba => ?_) (sortBy_pairwise other) (sortBy_pairwise candidates) hperm
  have hid : a.id = b.id := by
    have hle : ¬ b.id < a.id := fun hlt => hab (Nat.compare_eq_gt.mpr hlt)
    have hge : ¬ a.id < b.id := fun hlt => hba (Nat.compare_eq_gt.mpr hlt)
    omega
  exact List.inj_on_of_nodup_map hdistinct (h.mem_iff.mpr (mem_sortBy.mp ha)) (mem_sortBy.mp hb) hid

theorem parseSpellStrings_eq_of_perm {strings other : Str}
    (hdistinct : ((strings.lines.filterMap parseString).map (·.1)).Nodup) (h : other.lines.Perm strings.lines) :
    parseSpellStrings other = parseSpellStrings strings := by
  have hperm := h.filterMap parseString
  have hpairwise : ∀ {l : List (Nat × Option Str × Option Str)}, (l.map (·.1)).Nodup →
      l.Pairwise fun a b => ¬ compare a.1 b.1 = .eq := fun hl =>
    (List.pairwise_map.mp hl).imp fun hne heq => hne (Std.LawfulEqCmp.eq_of_compare heq)
  have hother := (hperm.map (·.1)).nodup_iff.mpr hdistinct
  refine ExtTreeMap.ext_getElem? fun id => ?_
  by_cases hid : id ∈ (strings.lines.filterMap parseString).map (·.1)
  · obtain ⟨entry, hentry, rfl⟩ := List.mem_map.mp hid
    rw [parseSpellStrings, parseSpellStrings,
      ExtTreeMap.getElem?_ofList_of_mem Std.ReflCmp.compare_self (hpairwise hother) (hperm.mem_iff.mpr hentry),
      ExtTreeMap.getElem?_ofList_of_mem Std.ReflCmp.compare_self (hpairwise hdistinct) hentry]
  · have hid' : id ∉ (other.lines.filterMap parseString).map (·.1) := fun h => hid ((hperm.map _).mem_iff.mp h)
    rw [parseSpellStrings, parseSpellStrings,
      ExtTreeMap.getElem?_ofList_of_contains_eq_false (by simpa using hid'),
      ExtTreeMap.getElem?_ofList_of_contains_eq_false (by simpa using hid)]

theorem resolve_reordered {other : CatalogText} (h : Reordered text other) (name : Str) (code : Option Str) :
    other.catalog.resolve name code = text.catalog.resolve name code := by
  have hstrings : parseSpellStrings other.strings = parseSpellStrings text.strings := by
    rcases h.strings with heq | ⟨hperm, hdistinct⟩
    · rw [heq]
    · exact parseSpellStrings_eq_of_perm hdistinct hperm
  have hrecords : text.records.Perm other.records := by
    rw [CatalogText.records, CatalogText.records, hstrings]
    exact (h.spells.filterMap _).symm
  have hnamed : (text.named name).Perm (other.named name) := hrecords.filter _
  have hdistinct : ((text.named name).map SpellRecord.id).Nodup :=
    text.distinct.sublist (List.filter_sublist.map _)
  rw [resolve_eq, resolve_eq, sortBy_eq_of_perm hdistinct hnamed]

/-! ### Resolution -/

theorem hinted_sortBy : Hinted (sortBy SpellCatalog.compareId candidates) code ↔ Hinted candidates code := by
  simp only [Hinted, mem_sortBy]

theorem resolve_hinted {c : Str} (h : ∃ record ∈ text.named name, record.matchesClass c = true) :
    ∃ record ∈ text.named name, record.matchesClass c = true ∧
      text.catalog.resolve name (some c) = some record.definition := by
  obtain ⟨known, hk, hm⟩ := h
  cases hfind : (sortBy SpellCatalog.compareId (text.named name)).find? fun record => record.matchesClass c with
  | none => exact absurd hm (List.find?_eq_none.mp hfind known (mem_sortBy.mpr hk))
  | some record =>
    refine ⟨record, mem_sortBy.mp (List.mem_of_find?_eq_some hfind),
      @List.find?_some _ (fun record => SpellRecord.matchesClass record c) record _ hfind, ?_⟩
    rw [resolve_eq, choose, Option.bind_some, hfind]
    rfl

/-- A name fails closed exactly if its class is settled. -/
theorem failsClosed_iff (text : CatalogText) (name : Str) (code : Option Str) :
    FailsClosed text name code ↔ Settled text name code := by
  have hunhinted : ¬ Hinted (text.named name) code → text.catalog.resolve name code =
      (SpellCatalog.uniqueCandidate (relevant (sortBy SpellCatalog.compareId (text.named name)))).map
        SpellRecord.definition := fun h => by
    rw [resolve_eq, choose_unhinted (hinted_sortBy.not.mpr h)]
  have hmem : ∀ record, record ∈ relevant (sortBy SpellCatalog.compareId (text.named name)) ↔
      record ∈ relevant (text.named name) := fun record => mem_relevant_of_perm (sortBy_perm _)
  constructor
  · intro h
    by_contra hsettled
    obtain ⟨hhint, hagree, a, ha, b, hb, hne⟩ : ¬ Hinted (text.named name) code ∧
        (∀ a ∈ relevant (text.named name), ∀ b ∈ relevant (text.named name), SpellCatalog.agree a b = true) ∧
        ∃ a ∈ relevant (text.named name), ∃ b ∈ relevant (text.named name), a.uniqueClass ≠ b.uniqueClass := by
      simpa [Settled] using hsettled
    obtain ⟨first, hfirst⟩ := uniqueCandidate_of_agree (List.ne_nil_of_mem ((hmem a).mpr ha))
      fun a ha b hb => hagree a ((hmem a).mp ha) b ((hmem b).mp hb)
    have hresolve := hunhinted hhint
    rw [hfirst] at hresolve
    have hclass : ∀ record ∈ relevant (text.named name), record.uniqueClass = first.uniqueClass := fun record hr =>
      congrArg SpellDefinition.uniqueClass (h.agreed hhint _ hresolve record hr)
    exact hne ((hclass a ha).trans (hclass b hb).symm)
  · intro h
    refine ⟨fun hhint definition hresolve record hr => ?_, fun c hcode hc => ?_, fun other ho => resolve_reordered ho _ _⟩
    · rw [hunhinted hhint] at hresolve
      obtain ⟨first, hfirst, rfl⟩ := Option.map_eq_some_iff.mp hresolve
      obtain ⟨hf, hagree⟩ := uniqueCandidate_eq_some hfirst
      obtain ⟨h1, h2, h3⟩ := agree_iff.mp (hagree record ((hmem record).mpr hr))
      have hclass : record.uniqueClass = first.uniqueClass := by
        rcases (h.resolve_left hhint) with ⟨a, ha, b, hb, hab⟩ | hsame
        · have htrue := agree_trans (hagree a ((hmem a).mpr ha)) (hagree b ((hmem b).mpr hb))
          rw [htrue] at hab
          cases hab
        · exact hsame record hr first ((hmem first).mp hf)
      simp [SpellRecord.definition, h1, h2, h3, hclass]
    · subst hcode
      exact resolve_hinted hc

/-! ### A name of two classes -/

/-- A line of the catalog, with a level for one of the classes. -/
def spellLine (id name castMs : Str) (classIndex : Nat) : Str :=
  List.intercalate ['^'] ((List.range 52).map fun field =>
    if field = 0 then id
    else if field = 1 then name
    else if field = 8 then castMs
    else if field = legacyClassOffset + classIndex then "20".toList
    else [])

/-- A spell of clerics and one of wizards, which have a name and a cast time in common. -/
def sharedName : CatalogText where
  spells := spellLine ['1'] "Gate".toList "5000".toList 1 ++ '\n' :: spellLine ['2'] "Gate".toList "5000".toList 11
  strings := []
  distinct := by decide

/-- The name resolves to the spell of the clerics, as one that only clerics have. -/
theorem shared_name_resolves :
    (sharedName.catalog.resolve "Gate".toList none).bind SpellDefinition.uniqueClass = some "CLR".toList ∧
      ¬ FailsClosed sharedName "Gate".toList none := by
  have hagree : ∀ a ∈ relevant (sharedName.named "Gate".toList), ∀ b ∈ relevant (sharedName.named "Gate".toList),
      SpellCatalog.agree a b = true := by decide
  have hclass : ∃ a ∈ relevant (sharedName.named "Gate".toList), ∃ b ∈ relevant (sharedName.named "Gate".toList),
      a.uniqueClass ≠ b.uniqueClass := by decide
  obtain ⟨a, ha, b, hb, hne⟩ := hclass
  refine ⟨?_, fun h => ?_⟩
  · rw [resolve_eq]
    decide
  · rcases (failsClosed_iff _ _ _).mp h with ⟨c, hc, -⟩ | ⟨c, hc, d, hd, hcd⟩ | hsame
    · cases hc
    · rw [hagree c hc d hd] at hcd
      cases hcd
    · exact hne (hsame a ha b hb)

end Stonemite.Casting
