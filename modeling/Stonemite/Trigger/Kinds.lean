import Stonemite.Trigger.EqlpPackage

/-!
# The kinds of overlay references

Each trigger of a package comes from the data of one node, and its references from the overlays that data selects. A
reference to an overlay of the package gets the overlay's kind; one to an overlay of the library is a timer overlay's.
`Appends` is what a pass over the tree keeps; `kinds_kept_iff` is the equivalence, with conditions on the ids alone.
-/

open Std

namespace Stonemite.Triggers

variable {P : Platform} {uuids : Nat → Nat} {library : NativeLibrary P} {state state' : Importing P}
  {overlayIds : OverlayIds} {depth : Nat}

/-! ### The overlays of a package -/

theorem foldlM_preserves {ε σ α : Type} {f : σ → α → Except ε σ} {I : σ → Prop}
    (hf : ∀ s a s', I s → f s a = .ok s' → I s') {l : List α} {s s' : σ} (hs : I s) (h : l.foldlM f s = .ok s') :
    I s' := by
  induction l generalizing s with
  | nil => cases h; exact hs
  | cons a l ih =>
    rw [List.foldlM_cons] at h
    obtain ⟨s1, h1, h⟩ := bind_eq_ok.mp h
    exact ih (hf s a s1 hs h1) h

/-- The ids of the overlays have been drawn. -/
structure OverlaysDrawn (uuids : Nat → Nat) (state : Importing P) : Prop where
  text : ∀ preset ∈ state.textOverlays, ∃ n, preset.id = uuids n
  timer : ∀ preset ∈ state.timerOverlays, ∃ n, preset.id = uuids n

theorem OverlaysDrawn.importOverlay (h : OverlaysDrawn uuids state) (overlay : Object P) (name : Str)
    (eqlpId : Option Str) : OverlaysDrawn uuids (importOverlay uuids overlay name eqlpId state) := by
  rw [Triggers.importOverlay]
  dsimp only
  split
  · refine ⟨h.text, fun preset hp => ?_⟩
    rcases List.mem_append.mp hp with hp | hp
    · exact h.timer preset hp
    · rw [List.mem_singleton.mp hp]
      exact ⟨state.drawn, rfl⟩
  · refine ⟨fun preset hp => ?_, h.timer⟩
    rcases List.mem_append.mp hp with hp | hp
    · exact h.text preset hp
    · rw [List.mem_singleton.mp hp]
      exact ⟨state.drawn, rfl⟩

theorem OverlaysDrawn.collectOverlays (h : OverlaysDrawn uuids state) {node : Value P}
    (hc : collectOverlays uuids depth state node = .ok state') : OverlaysDrawn uuids state' := by
  induction depth generalizing state state' node with
  | zero => cases hc
  | succ depth ih =>
    rw [Triggers.collectOverlays] at hc
    cases hb : bump state.nodeCount with
    | error error => rw [hb] at hc; cases hc
    | ok count =>
      rw [hb] at hc
      have h1 : OverlaysDrawn uuids { state with nodeCount := count } := ⟨h.text, h.timer⟩
      dsimp only at hc
      split at hc
      · cases hc
        exact h1
      · refine foldlM_preserves (fun s a s' hs ha => ih hs ha) ?_ hc
        split
        · exact h1.importOverlay _ _ _
        · exact h1

/-- The ids of the overlays of a node and the nodes below it. -/
def nodeOverlayIds : Nat → Value P → List Str
  | 0, _ => []
  | depth + 1, node =>
    match node.asObject with
    | none => []
    | some object =>
      let fields : Fields P := Json.lookup object
      (if ((fields.get "OverlayData").bind Json.asObject).isSome then (fields.stringField "Id").toList else []) ++
        (childNodes object).flatMap (nodeOverlayIds depth)

/-- The ids of the overlays of a package. -/
def packageOverlayIds (nodes : List (Value P)) : List Str := nodes.flatMap (nodeOverlayIds (maxDepth + 1))

/-- An overlay has been read with the id. -/
def Importing.HasOverlay (state : Importing P) (key : Str) : Prop :=
  (∃ preset ∈ state.textOverlays, preset.toOverlayPreset.packageId = some key) ∨
    ∃ preset ∈ state.timerOverlays, preset.toOverlayPreset.packageId = some key

theorem packageId_overlayPassthrough (overlay : Object P) (eqlpId : Option Str) (id : OverlayId) :
    OverlayPreset.packageId ⟨id, overlayPassthrough overlay eqlpId⟩ = eqlpId := by
  rw [OverlayPreset.packageId]
  cases eqlpId with
  | some key => simp [overlayPassthrough, Json.asStr]
  | none =>
    simp only [overlayPassthrough]
    -- the package's own field of that name is not kept
    rw [Option.bind_eq_none_iff]
    intro value hvalue
    rw [ExtTreeMap.getElem?_ofList_of_contains_eq_false] at hvalue
    · cases hvalue
    · rw [← Bool.not_eq_true, List.contains_iff_mem]
      intro hmem
      obtain ⟨field, hfield, hkey⟩ := List.mem_map.mp hmem
      have hkept := (List.mem_filter.mp hfield).2
      rw [hkey] at hkept
      exact absurd hkept (by decide)

theorem importOverlay_hasOverlay (overlay : Object P) (name : Str) (eqlpId : Option Str) (key : Str) :
    (importOverlay uuids overlay name eqlpId state).HasOverlay key ↔ state.HasOverlay key ∨ eqlpId = some key := by
  rw [importOverlay]
  dsimp only
  split
  · simp only [Importing.HasOverlay, List.mem_append, List.mem_singleton, or_and_right, exists_or, exists_eq_left,
      packageId_overlayPassthrough, or_assoc]
  · simp only [Importing.HasOverlay, List.mem_append, List.mem_singleton, or_and_right, exists_or, exists_eq_left,
      packageId_overlayPassthrough, or_assoc]
    exact or_congr_right or_comm

theorem foldlM_collects {f : Importing P → Value P → Except Str (Importing P)} {ids : Value P → List Str} {key : Str}
    (hf : ∀ s node s', f s node = .ok s' → (s'.HasOverlay key ↔ s.HasOverlay key ∨ key ∈ ids node))
    {nodes : List (Value P)} (h : nodes.foldlM f state = .ok state') :
    state'.HasOverlay key ↔ state.HasOverlay key ∨ key ∈ nodes.flatMap ids := by
  induction nodes generalizing state with
  | nil => cases h; simp
  | cons node nodes ih =>
    rw [List.foldlM_cons] at h
    obtain ⟨s1, h1, h⟩ := bind_eq_ok.mp h
    rw [ih h, hf state node s1 h1, List.flatMap_cons, List.mem_append, or_assoc]

theorem collectOverlays_hasOverlay {node : Value P} {key : Str}
    (h : collectOverlays uuids depth state node = .ok state') :
    state'.HasOverlay key ↔ state.HasOverlay key ∨ key ∈ nodeOverlayIds depth node := by
  induction depth generalizing state state' node with
  | zero => cases h
  | succ depth ih =>
    rw [collectOverlays] at h
    cases hb : bump state.nodeCount with
    | error error => rw [hb] at h; cases h
    | ok count =>
      rw [hb] at h
      rw [nodeOverlayIds]
      dsimp only at h ⊢
      cases hobject : node.asObject with
      | none =>
        rw [hobject] at h
        cases h
        simp [Importing.HasOverlay]
      | some object =>
        rw [hobject] at h
        dsimp only at h ⊢
        rw [foldlM_collects (fun s child s' hc => ih hc) h, List.mem_append, ← or_assoc]
        refine or_congr_left ?_
        cases hdata : (Fields.get (Json.lookup object) "OverlayData").bind Json.asObject with
        | none => simp [Importing.HasOverlay]
        | some overlay =>
          dsimp only
          rw [importOverlay_hasOverlay, Option.isSome_some, if_pos rfl, Option.mem_toList]
          rfl

theorem importOverlay_triggers (overlay : Object P) (name : Str) (eqlpId : Option Str) :
    (importOverlay uuids overlay name eqlpId state).triggers = state.triggers := by
  rw [importOverlay]
  dsimp only
  split <;> rfl

theorem collectOverlays_triggers {node : Value P} (h : collectOverlays uuids depth state node = .ok state') :
    state'.triggers = state.triggers := by
  induction depth generalizing state state' node with
  | zero => cases h
  | succ depth ih =>
    rw [collectOverlays] at h
    cases hb : bump state.nodeCount with
    | error error => rw [hb] at h; cases h
    | ok count =>
      rw [hb] at h
      dsimp only at h
      split at h
      · cases h
        rfl
      · refine foldlM_preserves (I := fun s => s.triggers = state.triggers) (fun s a s' hs ha => (ih ha).trans hs) ?_ h
        split
        · exact importOverlay_triggers _ _ _
        · rfl

/-! ### The triggers of a package -/

/-- The trigger data of a node and the nodes below it. -/
def nodeTriggers : Nat → Value P → List (Object P)
  | 0, _ => []
  | depth + 1, node =>
    match node.asObject with
    | none => []
    | some object =>
      match triggerData object with
      | some data => [data]
      | none => if isOverlayNode object then [] else (childNodes object).flatMap (nodeTriggers depth)

def packageTriggers (nodes : List (Value P)) : List (Object P) := nodes.flatMap (nodeTriggers (maxDepth + 1))

/-- The trigger was imported from the data. -/
def FromData (overlayIds : OverlayIds) (data : Object P) (trigger : NativeTrigger P) : Prop :=
  ∃ name parent id, trigger = (importTrigger (ExtTreeMap.ofList data) name parent overlayIds id).1

/-- A pass over the tree appends the triggers of the data it meets, and leaves the overlays. -/
structure Appends (overlayIds : OverlayIds) (datas : List (Object P)) (state state' : Importing P) : Prop where
  text : state'.textOverlays = state.textOverlays
  timer : state'.timerOverlays = state.timerOverlays
  triggers : ∃ added, state'.triggers = state.triggers ++ added ∧ List.Forall₂ (FromData overlayIds) datas added

theorem Appends.none (htext : state'.textOverlays = state.textOverlays) (htimer : state'.timerOverlays = state.timerOverlays)
    (h : state'.triggers = state.triggers) : Appends overlayIds [] state state' :=
  ⟨htext, htimer, [], by rw [h, List.append_nil], .nil⟩

theorem Appends.trans {state'' : Importing P} {datas datas' : List (Object P)} (h : Appends overlayIds datas state state')
    (h' : Appends overlayIds datas' state' state'') : Appends overlayIds (datas ++ datas') state state'' := by
  obtain ⟨added, ha, hadded⟩ := h.triggers
  obtain ⟨added', ha', hadded'⟩ := h'.triggers
  refine ⟨h'.text.trans h.text, h'.timer.trans h.timer, added ++ added', ?_, List.rel_append hadded hadded'⟩
  rw [ha', ha, List.append_assoc]

theorem Appends.foldlM {f : Importing P → Value P → Except Str (Importing P)} {datas : Value P → List (Object P)}
    (hf : ∀ s node s', f s node = .ok s' → Appends overlayIds (datas node) s s') {nodes : List (Value P)}
    (h : nodes.foldlM f state = .ok state') : Appends overlayIds (nodes.flatMap datas) state state' := by
  induction nodes generalizing state with
  | nil => cases h; exact .none rfl rfl rfl
  | cons node nodes ih =>
    rw [List.foldlM_cons] at h
    obtain ⟨s1, h1, h⟩ := bind_eq_ok.mp h
    rw [List.flatMap_cons]
    exact (hf state node s1 h1).trans (ih h)

theorem importNode_appends {parent : Option FolderId} {node : Value P}
    (h : importNode uuids overlayIds depth parent state node = .ok state') :
    Appends overlayIds (nodeTriggers depth node) state state' := by
  induction depth generalizing parent state state' node with
  | zero => cases h
  | succ depth ih =>
    rw [importNode] at h
    cases hb : bump state.nodeCount with
    | error error => rw [hb] at h; cases h
    | ok count =>
      rw [hb] at h
      rw [nodeTriggers]
      dsimp only at h
      cases hobject : node.asObject with
      | none =>
        rw [hobject] at h
        cases h
        exact .none rfl rfl rfl
      | some object =>
        rw [hobject] at h
        dsimp only at h ⊢
        cases hdata : triggerData object with
        | some data =>
          rw [hdata] at h
          cases h
          exact ⟨rfl, rfl, _, rfl, .cons ⟨_, _, _, rfl⟩ .nil⟩
        | none =>
          rw [hdata] at h
          dsimp only at h ⊢
          split at h
          · rename_i hoverlay
            rw [if_pos hoverlay]
            cases h
            exact .none rfl rfl rfl
          · rename_i hoverlay
            rw [if_neg hoverlay]
            have hchildren := Appends.foldlM (fun s child s' hc => ih hc) h
            exact ⟨hchildren.text, hchildren.timer, hchildren.triggers⟩

/-! ### References -/

/-- Each overlay that is selected is in the trigger's list of its kind. -/
def Placed (library : NativeLibrary P) (parsed : ParsedImport P) (data : Object P) (trigger : NativeTrigger P) : Prop :=
  ∀ key ∈ selectedOverlays fun key => (ExtTreeMap.ofList data : ExtTreeMap Str (Value P))[key]?, ∀ overlay role,
    (parsed.namedOverlay key).or (library.namedOverlay key) = some (overlay, role) → overlay ∈ trigger.overlays role

/-- No overlay that is selected is only a text overlay of the library. -/
def NoLibraryText (library : NativeLibrary P) (known : List Str) (data : Object P) : Prop :=
  ∀ key ∈ selectedOverlays fun key => (ExtTreeMap.ofList data : ExtTreeMap Str (Value P))[key]?,
    key ∉ known → ∀ overlay role, library.namedOverlay key = some (overlay, role) → role = .timer

theorem namedOverlay_eq_none {parsed : ParsedImport P} {key : Str} :
    parsed.namedOverlay key = none ↔ ∀ role, ∀ preset ∈ parsed.presets role, preset.packageId ≠ some key := by
  simp only [ParsedImport.namedOverlay, Option.or_eq_none_iff, Option.map_eq_none_iff, List.find?_eq_none,
    decide_eq_true_eq]
  refine ⟨fun h role => ?_, fun h => ⟨h .text, h .timer⟩⟩
  cases role
  · exact h.1
  · exact h.2

theorem placed_iff {parsed : ParsedImport P} {known : List Str} (hnew : NewOverlays library parsed)
    (hknown : ∀ key, parsed.namedOverlay key = none ↔ key ∉ known) {data : Object P}
    {trigger : NativeTrigger P} (h : FromData (parsed.overlayIds library) data trigger) :
    Placed library parsed data trigger ↔ NoLibraryText library known data := by
  obtain ⟨name, parent, id, rfl⟩ := h
  constructor
  · intro hplaced key hkey hp overlay role hl
    rw [← hknown] at hp
    obtain ⟨other, -, hother⟩ :=
      mem_imported_overlays.mp (hplaced key hkey overlay role (by rw [hp, hl]; rfl))
    cases role with
    | timer => rfl
    | text => exact absurd hother (resolveOverlay_library_ne hnew hl other)
  · intro hlib key hkey overlay role hnamed
    refine mem_imported_overlays.mpr ⟨key, hkey, ?_⟩
    rw [resolveOverlay_eq]
    cases hp : parsed.namedOverlay key with
    | some named =>
      rw [hp] at hnamed
      cases hnamed
      rfl
    | none =>
      rw [hp, Option.none_or] at hnamed
      rw [hnamed, hlib key hkey ((hknown key).mp hp) overlay role hnamed]
      rfl

/-- The overlays of a package are drawn and known by its ids, and its triggers come from its data. -/
theorem eqlpImport_spec {nodes : List (Value P)} {result : EqlpImport P}
    (h : eqlpImport uuids nodes (knownOverlays library) = .ok result) :
    (∀ role, ∀ preset ∈ result.parsed.presets role, ∃ n, preset.id = uuids n) ∧
      (∀ key, result.parsed.namedOverlay key = none ↔ key ∉ packageOverlayIds nodes) ∧
      List.Forall₂ (FromData (result.parsed.overlayIds library)) (packageTriggers nodes) result.triggers := by
  obtain ⟨collected, hcollected, h⟩ := bind_eq_ok.mp h
  obtain ⟨last, hlast, h⟩ := bind_eq_ok.mp h
  cases h
  have hstart : OverlaysDrawn uuids (⟨⟨[], [], [], [], ⟨[], 0, 0, 0, 0⟩⟩, 0, 0⟩ : Importing P) :=
    ⟨fun _ h => absurd h List.not_mem_nil, fun _ h => absurd h List.not_mem_nil⟩
  have hdrawn : OverlaysDrawn uuids collected :=
    foldlM_preserves (fun s node s' hs hc => hs.collectOverlays hc) hstart hcollected
  obtain ⟨htext, htimer, added, hadded, hfrom⟩ :=
    Appends.foldlM (fun s node s' hn => importNode_appends hn) hlast
  have htriggers : last.triggers = collected.triggers ++ added := hadded
  have hempty : collected.triggers = [] :=
    foldlM_preserves (fun s node s' hs hc => (collectOverlays_triggers hc).trans hs) rfl hcollected
  refine ⟨fun role preset hp => ?_, fun key => ?_, ?_⟩
  · cases role
    · obtain ⟨record, hrecord, rfl⟩ := List.mem_map.mp hp
      exact hdrawn.text record (htext ▸ hrecord)
    · obtain ⟨record, hrecord, rfl⟩ := List.mem_map.mp hp
      exact hdrawn.timer record (htimer ▸ hrecord)
  · have hoverlays : collected.HasOverlay key ↔ key ∈ packageOverlayIds nodes := by
      rw [foldlM_collects (fun s node s' hc => collectOverlays_hasOverlay hc) hcollected, packageOverlayIds]
      refine or_iff_right ?_
      rintro (⟨_, h, -⟩ | ⟨_, h, -⟩) <;> cases h
    rw [namedOverlay_eq_none, ← hoverlays]
    constructor
    · rintro h (⟨record, hrecord, hid⟩ | ⟨record, hrecord, hid⟩)
      · have hlast : record ∈ last.textOverlays := htext.symm ▸ hrecord
        exact h .text _ (List.mem_map_of_mem hlast) hid
      · have hlast : record ∈ last.timerOverlays := htimer.symm ▸ hrecord
        exact h .timer _ (List.mem_map_of_mem hlast) hid
    · intro h role preset hp hid
      cases role
      · obtain ⟨record, hrecord, rfl⟩ := List.mem_map.mp hp
        exact h (.inl ⟨record, htext ▸ hrecord, hid⟩)
      · obtain ⟨record, hrecord, rfl⟩ := List.mem_map.mp hp
        exact h (.inr ⟨record, htimer ▸ hrecord, hid⟩)
  · have hids : ({ last.toEqlpImport with report := { last.report with
        triggersImported := last.triggers.length
        foldersImported := last.folders.length
        overlaysImported := last.textOverlays.length + last.timerOverlays.length
        triggersQuarantined := (last.triggers.filter fun trigger => trigger.quarantine.isSome).length } } :
          EqlpImport P).parsed.overlayIds library =
        eqlpOverlayIds collected.textOverlays collected.timerOverlays (knownOverlays library) := by
      rw [ParsedImport.overlayIds, ← show last.textOverlays = collected.textOverlays from htext,
        ← show last.timerOverlays = collected.timerOverlays from htimer]
      rfl
    rw [hids]
    rw [hempty, List.nil_append] at htriggers
    rw [show _ = added from htriggers]
    exact hfrom

/-- The references of every trigger of a package are placed by kind exactly if none is to a text overlay that only the
library has. -/
theorem kinds_kept_iff (uuids : Nat → Nat) (library : NativeLibrary P) (nodes : List (Value P)) (result : EqlpImport P)
    (hu : ∀ n role, ∀ existing ∈ library.presets role, uuids n ≠ existing.id)
    (h : eqlpImport uuids nodes (knownOverlays library) = .ok result) :
    List.Forall₂ (Placed library result.parsed) (packageTriggers nodes) result.triggers ↔
      ∀ data ∈ packageTriggers nodes, NoLibraryText library (packageOverlayIds nodes) data := by
  obtain ⟨hdrawn, hknown, hfrom⟩ := eqlpImport_spec h
  have hnew : NewOverlays library result.parsed := by
    intro role role' preset hp existing he
    obtain ⟨n, hn⟩ := hdrawn role preset hp
    rw [hn]
    exact hu n role' existing he
  generalize packageTriggers nodes = datas at hfrom
  generalize hparsed : result.parsed = parsed at hknown hfrom hnew
  generalize result.triggers = triggers at hfrom
  induction hfrom with
  | nil => simp
  | cons hdata _ ih =>
    rw [List.forall₂_cons, List.forall_mem_cons]
    exact and_congr (placed_iff hnew hknown hdata) ih

namespace Literal

/-- Trigger data that selects the overlay `A`. -/
def dataA : Object platform := [("SelectedOverlays".toList, .array [.string ['A']])]

/-- A package with that trigger and no overlay. -/
def packageA : List (Value platform) :=
  [.object [("Name".toList, .string "Ding".toList), ("TriggerData".toList, .object dataA)]]

theorem packageA_triggers : packageTriggers packageA = [dataA] := rfl

theorem packageA_overlayIds : packageOverlayIds packageA = [] := rfl

theorem packageA_imported : ∃ result, eqlpImport (· + 100) packageA (knownOverlays overlayLibrary) = .ok result := ⟨_, rfl⟩

theorem overlayLibrary_ids (n : Nat) (role : OverlayRole) :
    ∀ existing ∈ overlayLibrary.presets role, n + 100 ≠ existing.id := by
  intro existing he
  cases role with
  | text =>
    obtain rfl := List.mem_singleton.mp he
    show n + 100 ≠ 1
    omega
  | timer => cases he

theorem dataA_selects : ['A'] ∈ selectedOverlays fun key =>
    (ExtTreeMap.ofList dataA : ExtTreeMap Str (Value platform))[key]? := by
  have hfield : (ExtTreeMap.ofList dataA : ExtTreeMap Str (Value platform))["SelectedOverlays".toList]? =
      some (Json.array [Json.string ['A']]) :=
    ExtTreeMap.getElem?_ofList_of_mem Std.ReflCmp.compare_self (List.pairwise_singleton _ _) (List.mem_singleton.mpr rfl)
  rw [selectedOverlays, Fields.get, hfield]
  decide

theorem overlayLibrary_names : overlayLibrary.namedOverlay ['A'] = some (1, .text) := by
  have hfind : (overlayLibrary.presets .text).find? (fun preset => preset.eqlpId = ['A']) =
      some (overlayA 1).toOverlayPreset := List.find?_cons_of_pos (by simp)
  rw [NativeLibrary.namedOverlay, hfind]
  rfl

end Literal

theorem kinds_kept_iff_packageA :
    ∃ result, eqlpImport (· + 100) Literal.packageA (knownOverlays Literal.overlayLibrary) = .ok result ∧
      (List.Forall₂ (Placed Literal.overlayLibrary result.parsed) (packageTriggers Literal.packageA) result.triggers ↔
        ∀ data ∈ packageTriggers Literal.packageA,
          NoLibraryText Literal.overlayLibrary (packageOverlayIds Literal.packageA) data) := by
  obtain ⟨result, h⟩ := Literal.packageA_imported
  exact ⟨result, h, kinds_kept_iff _ _ _ _ Literal.overlayLibrary_ids h⟩

/-- A reference to a text overlay of the library is not placed among the text overlays. -/
theorem text_overlay_misplaced :
    ¬ ∀ (P : Platform) (uuids : Nat → Nat) (library : NativeLibrary P) (nodes : List (Value P)) (result : EqlpImport P),
      (∀ n role, ∀ existing ∈ library.presets role, uuids n ≠ existing.id) →
        eqlpImport uuids nodes (knownOverlays library) = .ok result →
          List.Forall₂ (Placed library result.parsed) (packageTriggers nodes) result.triggers := by
  intro hall
  obtain ⟨result, h⟩ := Literal.packageA_imported
  have hplaced := hall _ _ _ _ _ Literal.overlayLibrary_ids h
  obtain ⟨hdrawn, hknown, hfrom⟩ := eqlpImport_spec h
  rw [Literal.packageA_triggers] at hplaced hfrom
  have hnew : NewOverlays Literal.overlayLibrary result.parsed := by
    intro role role' preset hp existing he
    obtain ⟨n, hn⟩ := hdrawn role preset hp
    rw [hn]
    exact Literal.overlayLibrary_ids n role' existing he
  obtain ⟨trigger, rest, hdata, -, htriggers⟩ := List.forall₂_cons_left_iff.mp hfrom
  rw [htriggers] at hplaced
  have hno := (placed_iff hnew hknown hdata).mp (List.forall₂_cons.mp hplaced).1
  have hrole := hno _ Literal.dataA_selects (by rw [Literal.packageA_overlayIds]; exact List.not_mem_nil) 1 .text
    Literal.overlayLibrary_names
  cases hrole

end Stonemite.Triggers
