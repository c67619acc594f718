import Stonemite.Lib.Levels
import Stonemite.Lib.Lists
import Stonemite.Trushar.Commands

/-!
# Strokes

A text or a list of key strokes is resolved to scan codes before any of it is sent. A stroke with modifiers is sent in
four phases: its modifiers go down, its other keys, these go up, its modifiers last. So each key of a stroke goes down
and up again once, and a modifier is down whenever another key of the stroke is (`keyChanges_key`, `keyChanges_bracket`).
-/

namespace Stonemite.Control
open Trushar Keymaps KeyCodes

/-! ### Resolution -/

/-- A time in milliseconds, in the units of the clock. -/
def millis (n : Nat) : Nat := n * 10 ^ 6

/-- The codes of the keys of a stroke, how long they are down and how long is waited after. -/
structure ResolvedStroke where
  scans : List UInt8
  hold : Nat
  pause : Nat
deriving DecidableEq, Repr

/-- The keyboard layout: what `VkKeyScanW` and `MapVirtualKeyW` answer, the first with the bits of its answer. -/
structure Layout where
  vkKeyScan : UInt16 → UInt16
  mapVirtualKey : UInt32 → UInt32

/-- Strokes that cannot be played. -/
def inputResolutionError (message : String) : ControlError := invalidArgument message

/-- The stroke of a character on the keyboard layout. -/
def resolveCharacter (layout : Layout) (character : Char) : Except ControlError ResolvedStroke :=
  if 0xffff < character.toNat then
    .error (inputResolutionError "text contains a character unsupported by the active keyboard layout")
  else
    let mapping := layout.vkKeyScan character.toNat.toUInt16
    if mapping = 0xffff then
      .error (inputResolutionError "text contains a character unsupported by the active keyboard layout")
    else
      let scan := (layout.mapVirtualKey (mapping &&& 0xff).toUInt32).toUInt8
      if scan = 0 ∨ scan = 255 then
        .error (inputResolutionError "text contains a character without a DirectInput scan code")
      else
        let modifiers := mapping >>> 8
        let scans : List UInt8 := (if modifiers &&& 0x02 ≠ 0 then [0x1d] else []) ++
          (if modifiers &&& 0x01 ≠ 0 then [0x2a] else []) ++ if modifiers &&& 0x04 ≠ 0 then [0x38] else []
        .ok ⟨if scans.contains scan then scans else scans ++ [scan], millis defaultKeyHoldMs, millis defaultKeyPauseMs⟩

/-- The stroke that submits a text. -/
def enterStroke : ResolvedStroke := ⟨[0x1c], millis defaultKeyHoldMs, 0⟩

/-- The strokes of a text, each character by itself. -/
def resolveTextStrokes (layout : Layout) (text : Str) (submit : Bool) : Except ControlError (List ResolvedStroke) :=
  match text.mapM (resolveCharacter layout) with
  | .error error => .error error
  | .ok strokes => .ok (if submit then strokes ++ [enterStroke] else strokes)

/-- The stroke of some keys by their names. -/
def resolveKeyStroke (stroke : KeyStroke) : Except ControlError ResolvedStroke :=
  match stroke.keys.mapM fun key => semanticScanCode key.val with
  | none => .error (inputResolutionError "key has no DirectInput scan code")
  | some scans => .ok ⟨scans, millis stroke.holdMs, millis stroke.pauseMs⟩

/-- The strokes of a key command. -/
def resolveKeyStrokes (strokes : List KeyStroke) : Except ControlError (List ResolvedStroke) :=
  strokes.mapM resolveKeyStroke

/-- The stroke of a mapped action; the scan codes of a binding are bytes. -/
def bindingStroke (binding : ResolvedBinding) : ResolvedStroke :=
  ⟨binding.scans.map Nat.toUInt8, millis defaultKeyHoldMs, 0⟩

/-! ### Phases -/

/-- The phases of a stroke: modifiers go down before the other keys and up after them. -/
inductive InputPhase
  | press
  | pressChord
  | release
  | releaseModifiers
  | finish
deriving DecidableEq, Repr

/-- Control, shift and alt of either side. -/
def isModifierScan (scan : UInt8) : Bool :=
  scan = 0x1d || scan = 0x2a || scan = 0x36 || scan = 0x38 || scan = 0x9d || scan = 0xb8

def hasModifierChord (stroke : ResolvedStroke) : Bool :=
  stroke.scans.any isModifierScan && stroke.scans.any fun scan => !isModifierScan scan

/-- The keys that change in a phase. -/
def phaseScans (stroke : ResolvedStroke) : InputPhase → List UInt8
  | .press => if hasModifierChord stroke then stroke.scans.filter isModifierScan else stroke.scans
  | .pressChord => stroke.scans.filter fun scan => !isModifierScan scan
  | .release =>
    if hasModifierChord stroke then stroke.scans.reverse.filter fun scan => !isModifierScan scan
    else stroke.scans.reverse
  | .releaseModifiers => stroke.scans.reverse.filter isModifierScan
  | .finish => []

/-- Whether the keys of a phase go down. -/
def InputPhase.pressed : InputPhase → Bool
  | press | pressChord => true
  | _ => false

/-! ### The changes of a stroke -/

/-- What a phase does to the keys, in order. -/
def phaseChanges (stroke : ResolvedStroke) (phase : InputPhase) : List (UInt8 × Bool) :=
  (phaseScans stroke phase).map fun scan => (scan, phase.pressed)

/-- The phases of a stroke in order. -/
def phases (stroke : ResolvedStroke) : List InputPhase :=
  if hasModifierChord stroke then [.press, .pressChord, .release, .releaseModifiers] else [.press, .release]

/-- The changes of keys that a stroke makes. -/
def keyChanges (stroke : ResolvedStroke) : List (UInt8 × Bool) := (phases stroke).flatMap (phaseChanges stroke)

section changes
variable {stroke : ResolvedStroke} {scan modifier : UInt8}

/-- The presses of a stroke, modifiers first if there is a chord. -/
def presses (stroke : ResolvedStroke) : List UInt8 :=
  if hasModifierChord stroke then
    stroke.scans.filter isModifierScan ++ stroke.scans.filter fun scan => !isModifierScan scan
  else stroke.scans

theorem keyChanges_eq (stroke : ResolvedStroke) :
    keyChanges stroke = (presses stroke).map (·, true) ++ (presses stroke).reverse.map (·, false) := by
  unfold keyChanges phases presses
  split_ifs with hchord
  · simp only [List.flatMap_cons, List.flatMap_nil, phaseChanges, phaseScans, if_pos hchord, InputPhase.pressed,
      List.filter_reverse, List.reverse_append, List.map_append, List.append_assoc, List.append_nil]
  · simp only [List.flatMap_cons, List.flatMap_nil, phaseChanges, phaseScans, if_neg hchord, InputPhase.pressed,
      List.append_nil]

theorem presses_perm (stroke : ResolvedStroke) : (presses stroke).Perm stroke.scans := by
  unfold presses
  split_ifs
  · exact List.filter_append_perm isModifierScan stroke.scans
  · exact .refl _

theorem keyChanges_key (h : stroke.scans.Nodup) (scan : UInt8) :
    (keyChanges stroke).filter (·.1 = scan) = if scan ∈ stroke.scans then [(scan, true), (scan, false)] else [] := by
  have hcount : (presses stroke).count scan = if scan ∈ stroke.scans then 1 else 0 := by
    rw [(presses_perm stroke).count_eq]
    exact h.count
  have hmap (pressed : Bool) (keys : List UInt8) : (keys.map (·, pressed)).filter (·.1 = scan) =
      List.replicate (keys.count scan) (scan, pressed) := by
    have hkeys : keys.filter (· = scan) = List.replicate (keys.count scan) scan := List.filter_beq scan
    rw [List.filter_map, ← List.map_replicate (f := (·, pressed)), ← hkeys]
    rfl
  rw [keyChanges_eq, List.filter_append, hmap, hmap, List.count_reverse, hcount]
  split_ifs <;> rfl

/-- A modifier is down while another key of its stroke goes down and up. -/
theorem keyChanges_bracket (hscan : scan ∈ stroke.scans) (hmodifier : modifier ∈ stroke.scans)
    (hplain : isModifierScan scan = false) (hmod : isModifierScan modifier = true) :
    List.Sublist [(modifier, true), (scan, true), (scan, false), (modifier, false)] (keyChanges stroke) := by
  have hchord : hasModifierChord stroke = true := by
    unfold hasModifierChord
    rw [Bool.and_eq_true, List.any_eq_true, List.any_eq_true]
    exact ⟨⟨modifier, hmodifier, hmod⟩, scan, hscan, by rw [hplain]; rfl⟩
  have hpair : List.Sublist [modifier, scan] (presses stroke) := by
    unfold presses
    rw [if_pos hchord]
    show List.Sublist ([modifier] ++ [scan]) _
    refine List.Sublist.append ?_ ?_
    · exact List.singleton_sublist.mpr (List.mem_filter.mpr ⟨hmodifier, hmod⟩)
    · exact List.singleton_sublist.mpr (List.mem_filter.mpr ⟨hscan, by rw [hplain]; rfl⟩)
  rw [keyChanges_eq]
  exact (hpair.map (·, true)).append (hpair.reverse.map (·, false))

theorem mem_keyChanges {change : UInt8 × Bool} (h : change ∈ keyChanges stroke) : change.1 ∈ stroke.scans := by
  rw [keyChanges_eq, List.mem_append, List.mem_map, List.mem_map] at h
  obtain ⟨scan, hscan, rfl⟩ | ⟨scan, hscan, rfl⟩ := h
  · exact (presses_perm stroke).mem_iff.mp hscan
  · exact (presses_perm stroke).mem_iff.mp (List.mem_reverse.mp hscan)

theorem levels_keyChanges (held : UInt8 → Bool) (stroke : ResolvedStroke) (scan : UInt8) :
    levels held (keyChanges stroke) scan = if scan ∈ stroke.scans then false else held scan := by
  have hmem : scan ∈ (presses stroke).reverse ↔ scan ∈ stroke.scans := by
    rw [List.mem_reverse, (presses_perm stroke).mem_iff]
  rw [keyChanges_eq, levels_press_release held (List.subset_reverse.mpr (List.Subset.refl _))]
  exact if_congr hmem rfl rfl

theorem levels_strokes (strokes : List ResolvedStroke) :
    levels (fun _ => false) (strokes.flatMap keyChanges) = fun _ => false := by
  induction strokes using List.reverseRecOn with
  | nil => rfl
  | append_singleton strokes stroke ih =>
    funext scan
    rw [List.flatMap_append, List.flatMap_singleton, levels_append, ih, levels_keyChanges, ite_self]

end changes

/-! ### The position in a stroke -/

/-- What the phases before one have done. -/
def changesBefore (stroke : ResolvedStroke) (phase : InputPhase) : List (UInt8 × Bool) :=
  ((phases stroke).takeWhile (· ≠ phase)).flatMap (phaseChanges stroke)

/-- The phase after one, none after the last. -/
def phaseAfter (stroke : ResolvedStroke) : InputPhase → Option InputPhase
  | .press => some (if hasModifierChord stroke then .pressChord else .release)
  | .pressChord => some .release
  | .release => if hasModifierChord stroke then some .releaseModifiers else none
  | _ => none

theorem changesBefore_press (stroke : ResolvedStroke) : changesBefore stroke .press = [] := by
  unfold changesBefore phases
  split_ifs <;> rfl

theorem changesBefore_phaseAfter (stroke : ResolvedStroke) {phase : InputPhase} (h : phase ∈ phases stroke) :
    changesBefore stroke phase ++ phaseChanges stroke phase =
      ((phaseAfter stroke phase).map (changesBefore stroke)).getD (keyChanges stroke) := by
  unfold changesBefore keyChanges phaseAfter
  unfold phases at h ⊢
  split_ifs at h ⊢
  all_goals fin_cases h
  all_goals simp [List.takeWhile]

theorem phaseAfter_mem (stroke : ResolvedStroke) {phase next : InputPhase} (h : phase ∈ phases stroke)
    (hnext : phaseAfter stroke phase = some next) : next ∈ phases stroke := by
  unfold phaseAfter at hnext
  unfold phases at h ⊢
  split_ifs at h hnext ⊢ with hchord
  all_goals fin_cases h
  all_goals simp_all

/-! ### What is resolved -/

/-- The scan codes of a stroke are codes that the engine takes, each once. -/
structure Playable (stroke : ResolvedStroke) : Prop where
  nonempty : stroke.scans ≠ []
  nodup : stroke.scans.Nodup
  codes : ∀ scan ∈ stroke.scans, scan ≠ 0 ∧ scan ≠ 255

/-- The modifiers of a character or of a binding, and its own key unless it is one of them. -/
theorem chord_codes {α : Type} [DecidableEq α] {P : α → Prop} {chosen modifiers : List α} {scan : α}
    (hchosen : List.Sublist chosen modifiers) (hnodup : modifiers.Nodup) (hmodifiers : ∀ code ∈ modifiers, P code)
    (hscan : P scan) {scans : List α} (h : scans = if chosen.contains scan then chosen else chosen ++ [scan]) :
    scans ≠ [] ∧ scans.Nodup ∧ ∀ code ∈ scans, P code := by
  subst h
  by_cases hcontains : chosen.contains scan = true
  · rw [if_pos hcontains]
    exact ⟨List.ne_nil_of_mem (List.contains_iff_mem.mp hcontains), hnodup.sublist hchosen,
      fun code hcode => hmodifiers code (hchosen.subset hcode)⟩
  · rw [if_neg hcontains]
    have hnotMem : scan ∉ chosen := fun hmem => hcontains (List.contains_iff_mem.mpr hmem)
    refine ⟨List.append_ne_nil_of_right_ne_nil _ (List.cons_ne_nil _ _), ?_, fun code hcode => ?_⟩
    · exact (hnodup.sublist hchosen).append (List.nodup_singleton scan) (List.disjoint_singleton.mpr hnotMem)
    · rcases List.mem_append.mp hcode with hmem | hmem
      · exact hmodifiers code (hchosen.subset hmem)
      · rw [List.mem_singleton.mp hmem]
        exact hscan

theorem sublist_modifiers {α : Type} (control shift alt : Prop) [Decidable control] [Decidable shift] [Decidable alt]
    (a b c : α) : List.Sublist ((if control then [a] else []) ++ (if shift then [b] else []) ++ if alt then [c] else [])
      [a, b, c] := by
  have hlist : [a, b, c] = [a] ++ [b] ++ [c] := rfl
  rw [hlist]
  refine .append (.append ?_ ?_) ?_
  all_goals split_ifs
  all_goals first | exact .refl _ | exact List.nil_sublist _

theorem resolveCharacter_playable {layout : Layout} {character : Char} {stroke : ResolvedStroke}
    (h : resolveCharacter layout character = .ok stroke) : Playable stroke := by
  unfold resolveCharacter at h
  dsimp only at h
  generalize layout.vkKeyScan character.toNat.toUInt16 = mapping at h
  generalize (layout.mapVirtualKey (mapping &&& 0xff).toUInt32).toUInt8 = scan at h
  by_cases hwide : 0xffff < character.toNat
  · rw [if_pos hwide] at h
    cases h
  · by_cases hmapping : mapping = 0xffff
    · rw [if_neg hwide, if_pos hmapping] at h
      cases h
    · by_cases hscan : scan = 0 ∨ scan = 255
      · rw [if_neg hwide, if_neg hmapping, if_pos hscan] at h
        cases h
      · rw [if_neg hwide, if_neg hmapping, if_neg hscan] at h
        obtain rfl := Except.ok.inj h
        obtain ⟨hnonempty, hnodup, hcodes⟩ := chord_codes (P := fun scan : UInt8 => scan ≠ 0 ∧ scan ≠ 255)
          (sublist_modifiers (mapping >>> 8 &&& 0x02 ≠ 0) (mapping >>> 8 &&& 0x01 ≠ 0) (mapping >>> 8 &&& 0x04 ≠ 0) 0x1d
            0x2a 0x38) (by decide) (by simp) (not_or.mp hscan) rfl
        exact ⟨hnonempty, hnodup, hcodes⟩

theorem forall_of_mapM_ok {α β ε : Type} {f : α → Except ε β} {P : β → Prop} (hf : ∀ a b, f a = .ok b → P b)
    {l : List α} {r : List β} (h : l.mapM f = .ok r) : r.length = l.length ∧ ∀ b ∈ r, P b := by
  have hresults := forall₂_of_mapM_ok h
  refine ⟨hresults.length_eq.symm, fun b hb => ?_⟩
  obtain ⟨a, -, ha⟩ := mem_of_forall₂ hresults b hb
  exact hf a b ha

theorem enterStroke_playable : Playable enterStroke :=
  ⟨List.cons_ne_nil _ _, List.nodup_singleton _, List.forall_mem_singleton.mpr (by decide)⟩

theorem resolveTextStrokes_playable {layout : Layout} {text : Str} {submit : Bool} {strokes : List ResolvedStroke}
    (h : resolveTextStrokes layout text submit = .ok strokes) :
    strokes.length = text.length + submit.toNat ∧ ∀ stroke ∈ strokes, Playable stroke := by
  unfold resolveTextStrokes at h
  cases htext : text.mapM (resolveCharacter layout) with
  | error error =>
    rw [htext] at h
    cases h
  | ok resolved =>
    obtain ⟨hlength, hresolved⟩ := forall_of_mapM_ok (fun _ _ => resolveCharacter_playable) htext
    rw [htext] at h
    obtain rfl := Except.ok.inj h
    cases submit with
    | false => exact ⟨hlength, hresolved⟩
    | true =>
      refine ⟨by rw [if_pos rfl, List.length_append, hlength]; rfl, fun stroke hstroke => ?_⟩
      rcases List.mem_append.mp hstroke with hmem | hmem
      · exact hresolved stroke hmem
      · rw [List.mem_singleton.mp hmem]
        exact enterStroke_playable

theorem scanCodes_nodup : (scanCodes.map (·.2)).Nodup := by decide +kernel

theorem scanCodes_codes : ∀ entry ∈ scanCodes, entry.2 ≠ 0 ∧ entry.2 ≠ 255 := by decide +kernel

theorem mem_scanCodes {name : Str} {scan : UInt8} (h : semanticScanCode name = some scan) : (name, scan) ∈ scanCodes := by
  obtain ⟨before, after, htable, -⟩ := List.lookup_eq_some_iff.mp h
  rw [htable]
  exact List.mem_append_right before List.mem_cons_self

theorem semanticScanCode_injective {name name' : Str} {scan : UInt8} (h : semanticScanCode name = some scan)
    (h' : semanticScanCode name' = some scan) : name = name' :=
  congrArg Prod.fst (List.inj_on_of_nodup_map scanCodes_nodup (mem_scanCodes h) (mem_scanCodes h') rfl)

theorem resolveKeyStroke_playable {stroke : KeyStroke} {resolved : ResolvedStroke}
    (h : resolveKeyStroke stroke = .ok resolved) : Playable resolved := by
  unfold resolveKeyStroke at h
  cases hkeys : stroke.keys.mapM fun key => semanticScanCode key.val with
  | none =>
    rw [hkeys] at h
    cases h
  | some scans =>
    rw [hkeys] at h
    obtain rfl := Except.ok.inj h
    have hresolved : List.Forall₂ (fun key scan => semanticScanCode key.val = some scan) stroke.keys scans :=
      forall₂_of_mapM hkeys
    refine ⟨fun hnil => stroke.counted.1 ?_, ?_, fun scan hscan => ?_⟩
    · have hlength := hresolved.length_eq
      have hnil : scans = [] := hnil
      rw [hnil] at hlength
      exact List.length_eq_zero_iff.mp hlength
    · have hinjective (key key' : KeyCode) (scan : UInt8) (hkey : semanticScanCode key.val = some scan)
          (hkey' : semanticScanCode key'.val = some scan) : key = key' :=
        Subtype.ext (semanticScanCode_injective hkey hkey')
      exact nodup_of_forall₂ hinjective hresolved stroke.nodup
    · obtain ⟨key, -, hkey⟩ := mem_of_forall₂ hresolved scan hscan
      exact scanCodes_codes _ (mem_scanCodes hkey)

theorem resolveKeyStrokes_playable {strokes : List KeyStroke} {resolved : List ResolvedStroke}
    (h : resolveKeyStrokes strokes = .ok resolved) :
    resolved.length = strokes.length ∧ ∀ stroke ∈ resolved, Playable stroke :=
  forall_of_mapM_ok (fun _ _ => resolveKeyStroke_playable) h

theorem decodeMapping_playable {encoded : Nat} {name : Str} {binding : ResolvedBinding}
    (h : decodeMapping encoded name = .ok binding) : Playable (bindingStroke binding) := by
  unfold decodeMapping at h
  dsimp only at h
  generalize encoded &&& 0xffff = scan at h
  by_cases hflags : encoded &&& (0xffffffff ^^^ knownMappingMask) ≠ 0
  · rw [if_pos hflags] at h
    cases h
  · rw [if_neg hflags] at h
    by_cases hscan : (decide (scan < 1) || decide (254 < scan)) = true
    · rw [if_pos hscan] at h
      cases h
    · rw [if_neg hscan] at h
      obtain rfl := Except.ok.inj h
      have hbounds : 1 ≤ scan ∧ scan ≤ 254 := by
        rw [Bool.or_eq_true, decide_eq_true_eq, decide_eq_true_eq] at hscan
        omega
      obtain ⟨hnonempty, hnodup, hcodes⟩ := chord_codes (P := fun scan => 1 ≤ scan ∧ scan ≤ 254)
        (sublist_modifiers (encoded &&& controlFlag ≠ 0) (encoded &&& shiftFlag ≠ 0) (encoded &&& altFlag ≠ 0) 0x1d 0x2a
          0x38) (by decide) (by decide) hbounds rfl
      refine ⟨fun hnil => hnonempty (List.map_eq_nil_iff.mp hnil), ?_, fun code hcode => ?_⟩
      · refine hnodup.map_on fun m hm n hn heq => ?_
        have heq := congrArg UInt8.toNat heq
        have hm := hcodes m hm
        have hn := hcodes n hn
        simp only [Nat.toUInt8, UInt8.toNat_ofNat'] at heq
        omega
      · obtain ⟨n, hn, rfl⟩ := List.mem_map.mp hcode
        have hn := hcodes n hn
        refine ⟨fun heq => ?_, fun heq => ?_⟩
        all_goals
          have heq := congrArg UInt8.toNat heq
          simp [Nat.toUInt8, UInt8.toNat_ofNat'] at heq
          omega

theorem resolveMapping_playable {mapping : EqMappingName} {shared : Option KeymapFile}
    {profiles : List (Option KeymapFile)} {binding : ResolvedBinding}
    (h : resolveMapping mapping shared profiles = .ok binding) : Playable (bindingStroke binding) := by
  have hslots (slots : List Nat) (keymaps : Option KeymapFile) :
      resolveSlots mapping keymaps slots = .ok binding → Playable (bindingStroke binding) := by
    induction slots with
    | nil => exact fun h => by cases h
    | cons slot slots ih =>
      intro h
      unfold resolveSlots at h
      split at h
      · cases h
      · split_ifs at h
        · exact decodeMapping_playable h
        · exact ih h
  exact hslots [1, 2] _ h

end Stonemite.Control
