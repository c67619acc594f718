import Stonemite.Lib.TextLines
import Stonemite.Settings.Toml

/-!
# The file of the configuration

`config.toml` is read, changed and written as a whole. A file that is not read as a whole is taken for the defaults, and
these are written over it. `ConfigFile.WellFormed` is the condition on the file and `ConfigIo.Blocked` on what the system
answers; `ConfigCall.run_eq` says what a call leaves, and `settingsKept_iff` is the equivalence.
-/

namespace Stonemite.Settings

open Overlay (BoxIdentity)

/-! ### The fields -/

inductive Field
  | eqDir
  | hideHotkey
  | pipEdge
  | showStonemiteButton
  | stonemiteButtonPosition
  | pipStripWidth
  | pipOpacity
  | pipPositions
  | dpsOverlayEnabled
  | dpsOverlayTopRows
  | dpsOverlayPlacement
  | snapGrid
  | pipLabelHeight
  | pipLabelOpacity
  | pipLabelFontFamily
  | pipLabelFontScale
  | pipLabelFontWeight
  | autoOrder
  | boxOrder
  | hideFromAltTab
  | trusik
  | broadcastHotkey
  | disableBroadcastWhenClientsExit
  | mouseClutchKey
  | broadcastFilterMode
  | broadcastFilterKeys
  | swapHotkeys
  | boxCycles
  | settingsPosition
  | tellVisualEnabled
  | tellSoundEnabled
  | tellSound
  | notifyTells
  | notifyGroupInvites
  | notifyRaidInvites
  | notifyTradeProposals
  | notifyResurrections
  | notifyDeaths
  | notifyLevelGains
  | notifyAaGains
  | aaPointsPerNotification
  | combatAwarenessEnabled
  | combatHitDurationSeconds
  | toastEnabled
  | toastHeight
  | toastDuration
  | autoUpdateCheck
  | updateCheckIntervalDays
  | lastUpdateCheck
  | accounts
  | server
  | trushar
deriving DecidableEq

namespace Field

/-- The fields in the order of the structure. -/
def all : List Field :=
  [.eqDir, .hideHotkey, .pipEdge, .showStonemiteButton, .stonemiteButtonPosition, .pipStripWidth, .pipOpacity,
    .pipPositions, .dpsOverlayEnabled, .dpsOverlayTopRows, .dpsOverlayPlacement, .snapGrid, .pipLabelHeight,
    .pipLabelOpacity, .pipLabelFontFamily, .pipLabelFontScale, .pipLabelFontWeight, .autoOrder, .boxOrder,
    .hideFromAltTab, .trusik, .broadcastHotkey, .disableBroadcastWhenClientsExit, .mouseClutchKey,
    .broadcastFilterMode, .broadcastFilterKeys, .swapHotkeys, .boxCycles, .settingsPosition, .tellVisualEnabled,
    .tellSoundEnabled, .tellSound, .notifyTells, .notifyGroupInvites, .notifyRaidInvites, .notifyTradeProposals,
    .notifyResurrections, .notifyDeaths, .notifyLevelGains, .notifyAaGains, .aaPointsPerNotification,
    .combatAwarenessEnabled, .combatHitDurationSeconds, .toastEnabled, .toastHeight, .toastDuration,
    .autoUpdateCheck, .updateCheckIntervalDays, .lastUpdateCheck, .accounts, .server, .trushar]

theorem mem_all (f : Field) : f ∈ all := by
  cases f <;> decide

instance (p : Field → Prop) [DecidablePred p] : Decidable (∀ f, p f) :=
  decidable_of_iff (∀ f ∈ all, p f) ⟨fun h f => h f (mem_all f), fun h f _ => h f⟩

def Ty : Field → Type
  | .eqDir | .hideHotkey | .broadcastHotkey | .mouseClutchKey | .broadcastFilterMode | .tellSound | .server => Str
  | .pipEdge => PipEdge
  | .showStonemiteButton | .dpsOverlayEnabled | .autoOrder | .hideFromAltTab | .trusik
    | .disableBroadcastWhenClientsExit | .tellVisualEnabled | .tellSoundEnabled | .notifyTells
    | .notifyGroupInvites | .notifyRaidInvites | .notifyTradeProposals | .notifyResurrections | .notifyDeaths
    | .notifyLevelGains | .notifyAaGains | .combatAwarenessEnabled | .toastEnabled | .autoUpdateCheck => Bool
  | .stonemiteButtonPosition | .settingsPosition => Option (F32 × F32)
  | .pipStripWidth | .pipOpacity | .pipLabelHeight | .pipLabelOpacity | .pipLabelFontScale | .toastHeight => Option Nat
  | .pipPositions => List PipPosition
  | .dpsOverlayTopRows | .snapGrid | .aaPointsPerNotification | .updateCheckIntervalDays => Nat
  | .dpsOverlayPlacement => Option DpsOverlayPlacement
  | .pipLabelFontFamily | .lastUpdateCheck => Option Str
  | .pipLabelFontWeight => Option LabelFontWeight
  | .boxOrder => List BoxIdentity
  | .broadcastFilterKeys | .swapHotkeys => List Str
  | .boxCycles => List BoxCycle
  | .combatHitDurationSeconds => F32
  | .toastDuration => Option F32
  | .accounts => List Account
  | .trushar => TrusharConfig

/-- The key of a field in the file. -/
def key : Field → String
  | .eqDir => "eq_dir"
  | .hideHotkey => "hide_hotkey"
  | .pipEdge => "pip_edge"
  | .showStonemiteButton => "show_stonemite_button"
  | .stonemiteButtonPosition => "stonemite_button_position"
  | .pipStripWidth => "pip_strip_width"
  | .pipOpacity => "pip_opacity"
  | .pipPositions => "pip_positions"
  | .dpsOverlayEnabled => "dps_overlay_enabled"
  | .dpsOverlayTopRows => "dps_overlay_top_rows"
  | .dpsOverlayPlacement => "dps_overlay_placement"
  | .snapGrid => "snap_grid"
  | .pipLabelHeight => "pip_label_height"
  | .pipLabelOpacity => "pip_label_opacity"
  | .pipLabelFontFamily => "pip_label_font_family"
  | .pipLabelFontScale => "pip_label_font_scale"
  | .pipLabelFontWeight => "pip_label_font_weight"
  | .autoOrder => "auto_order"
  | .boxOrder => "box_order"
  | .hideFromAltTab => "hide_from_alt_tab"
  | .trusik => "trusik"
  | .broadcastHotkey => "broadcast_hotkey"
  | .disableBroadcastWhenClientsExit => "disable_broadcast_when_clients_exit"
  | .mouseClutchKey => "mouse_clutch_key"
  | .broadcastFilterMode => "broadcast_filter_mode"
  | .broadcastFilterKeys => "broadcast_filter_keys"
  | .swapHotkeys => "swap_hotkeys"
  | .boxCycles => "box_cycles"
  | .settingsPosition => "settings_position"
  | .tellVisualEnabled => "tell_visual_enabled"
  | .tellSoundEnabled => "tell_sound_enabled"
  | .tellSound => "tell_sound"
  | .notifyTells => "notify_tells"
  | .notifyGroupInvites => "notify_group_invites"
  | .notifyRaidInvites => "notify_raid_invites"
  | .notifyTradeProposals => "notify_trade_proposals"
  | .notifyResurrections => "notify_resurrections"
  | .notifyDeaths => "notify_deaths"
  | .notifyLevelGains => "notify_level_gains"
  | .notifyAaGains => "notify_aa_gains"
  | .aaPointsPerNotification => "aa_points_per_notification"
  | .combatAwarenessEnabled => "combat_awareness_enabled"
  | .combatHitDurationSeconds => "combat_hit_duration_seconds"
  | .toastEnabled => "toast_enabled"
  | .toastHeight => "toast_height"
  | .toastDuration => "toast_duration"
  | .autoUpdateCheck => "auto_update_check"
  | .updateCheckIntervalDays => "update_check_interval_days"
  | .lastUpdateCheck => "last_update_check"
  | .accounts => "accounts"
  | .server => "server"
  | .trushar => "trushar"

/-- How the field is read and written. -/
def codec : (f : Field) → FieldCodec f.Ty
  | .eqDir | .hideHotkey | .broadcastHotkey | .mouseClutchKey | .broadcastFilterMode | .tellSound | .server => .value .text
  | .pipEdge => .value .pipEdge
  | .showStonemiteButton | .dpsOverlayEnabled | .autoOrder | .hideFromAltTab | .trusik
    | .disableBroadcastWhenClientsExit | .tellVisualEnabled | .tellSoundEnabled | .notifyTells
    | .notifyGroupInvites | .notifyRaidInvites | .notifyTradeProposals | .notifyResurrections | .notifyDeaths
    | .notifyLevelGains | .notifyAaGains | .combatAwarenessEnabled | .toastEnabled | .autoUpdateCheck => .value .flag
  | .stonemiteButtonPosition | .settingsPosition => .optional .point
  | .pipStripWidth | .pipLabelHeight | .pipLabelOpacity | .toastHeight => .optional (.unsigned 32)
  | .pipOpacity | .pipLabelFontScale => .optionalU32
  | .pipPositions => .value (.list .pipPosition)
  | .dpsOverlayTopRows => .value (.unsigned 8)
  | .dpsOverlayPlacement => .optional .dpsOverlayPlacement
  | .snapGrid | .aaPointsPerNotification | .updateCheckIntervalDays => .value (.unsigned 32)
  | .pipLabelFontFamily => .optionalString
  | .pipLabelFontWeight => .optional .labelFontWeight
  | .boxOrder => .value (.list .boxIdentity)
  | .broadcastFilterKeys | .swapHotkeys => .value (.list .text)
  | .boxCycles => .value (.list .boxCycle)
  | .combatHitDurationSeconds => .value .float
  | .toastDuration => .optional .float
  | .lastUpdateCheck => .optional .text
  | .accounts => .value (.list .account)
  | .trushar => .value .trusharConfig

end Field

namespace Config

def get (config : Config) : (f : Field) → f.Ty
  | .eqDir => config.eqDir
  | .hideHotkey => config.hideHotkey
  | .pipEdge => config.pipEdge
  | .showStonemiteButton => config.showStonemiteButton
  | .stonemiteButtonPosition => config.stonemiteButtonPosition
  | .pipStripWidth => config.pipStripWidth
  | .pipOpacity => config.pipOpacity
  | .pipPositions => config.pipPositions
  | .dpsOverlayEnabled => config.dpsOverlayEnabled
  | .dpsOverlayTopRows => config.dpsOverlayTopRows
  | .dpsOverlayPlacement => config.dpsOverlayPlacement
  | .snapGrid => config.snapGrid
  | .pipLabelHeight => config.pipLabelHeight
  | .pipLabelOpacity => config.pipLabelOpacity
  | .pipLabelFontFamily => config.pipLabelFontFamily
  | .pipLabelFontScale => config.pipLabelFontScale
  | .pipLabelFontWeight => config.pipLabelFontWeight
  | .autoOrder => config.autoOrder
  | .boxOrder => config.boxOrder
  | .hideFromAltTab => config.hideFromAltTab
  | .trusik => config.trusik
  | .broadcastHotkey => config.broadcastHotkey
  | .disableBroadcastWhenClientsExit => config.disableBroadcastWhenClientsExit
  | .mouseClutchKey => config.mouseClutchKey
  | .broadcastFilterMode => config.broadcastFilterMode
  | .broadcastFilterKeys => config.broadcastFilterKeys
  | .swapHotkeys => config.swapHotkeys
  | .boxCycles => config.boxCycles
  | .settingsPosition => config.settingsPosition
  | .tellVisualEnabled => config.tellVisualEnabled
  | .tellSoundEnabled => config.tellSoundEnabled
  | .tellSound => config.tellSound
  | .notifyTells => config.notifyTells
  | .notifyGroupInvites => config.notifyGroupInvites
  | .notifyRaidInvites => config.notifyRaidInvites
  | .notifyTradeProposals => config.notifyTradeProposals
  | .notifyResurrections => config.notifyResurrections
  | .notifyDeaths => config.notifyDeaths
  | .notifyLevelGains => config.notifyLevelGains
  | .notifyAaGains => config.notifyAaGains
  | .aaPointsPerNotification => config.aaPointsPerNotification
  | .combatAwarenessEnabled => config.combatAwarenessEnabled
  | .combatHitDurationSeconds => config.combatHitDurationSeconds
  | .toastEnabled => config.toastEnabled
  | .toastHeight => config.toastHeight
  | .toastDuration => config.toastDuration
  | .autoUpdateCheck => config.autoUpdateCheck
  | .updateCheckIntervalDays => config.updateCheckIntervalDays
  | .lastUpdateCheck => config.lastUpdateCheck
  | .accounts => config.accounts
  | .server => config.server
  | .trushar => config.trushar

/-- The configuration with these fields. -/
def ofFields (field : (f : Field) → f.Ty) : Config where
  eqDir := field .eqDir
  hideHotkey := field .hideHotkey
  pipEdge := field .pipEdge
  showStonemiteButton := field .showStonemiteButton
  stonemiteButtonPosition := field .stonemiteButtonPosition
  pipStripWidth := field .pipStripWidth
  pipOpacity := field .pipOpacity
  pipPositions := field .pipPositions
  dpsOverlayEnabled := field .dpsOverlayEnabled
  dpsOverlayTopRows := field .dpsOverlayTopRows
  dpsOverlayPlacement := field .dpsOverlayPlacement
  snapGrid := field .snapGrid
  pipLabelHeight := field .pipLabelHeight
  pipLabelOpacity := field .pipLabelOpacity
  pipLabelFontFamily := field .pipLabelFontFamily
  pipLabelFontScale := field .pipLabelFontScale
  pipLabelFontWeight := field .pipLabelFontWeight
  autoOrder := field .autoOrder
  boxOrder := field .boxOrder
  hideFromAltTab := field .hideFromAltTab
  trusik := field .trusik
  broadcastHotkey := field .broadcastHotkey
  disableBroadcastWhenClientsExit := field .disableBroadcastWhenClientsExit
  mouseClutchKey := field .mouseClutchKey
  broadcastFilterMode := field .broadcastFilterMode
  broadcastFilterKeys := field .broadcastFilterKeys
  swapHotkeys := field .swapHotkeys
  boxCycles := field .boxCycles
  settingsPosition := field .settingsPosition
  tellVisualEnabled := field .tellVisualEnabled
  tellSoundEnabled := field .tellSoundEnabled
  tellSound := field .tellSound
  notifyTells := field .notifyTells
  notifyGroupInvites := field .notifyGroupInvites
  notifyRaidInvites := field .notifyRaidInvites
  notifyTradeProposals := field .notifyTradeProposals
  notifyResurrections := field .notifyResurrections
  notifyDeaths := field .notifyDeaths
  notifyLevelGains := field .notifyLevelGains
  notifyAaGains := field .notifyAaGains
  aaPointsPerNotification := field .aaPointsPerNotification
  combatAwarenessEnabled := field .combatAwarenessEnabled
  combatHitDurationSeconds := field .combatHitDurationSeconds
  toastEnabled := field .toastEnabled
  toastHeight := field .toastHeight
  toastDuration := field .toastDuration
  autoUpdateCheck := field .autoUpdateCheck
  updateCheckIntervalDays := field .updateCheckIntervalDays
  lastUpdateCheck := field .lastUpdateCheck
  accounts := field .accounts
  server := field .server
  trushar := field .trushar

theorem get_ofFields (field : (f : Field) → f.Ty) (f : Field) : (ofFields field).get f = field f := by
  cases f <;> rfl

end Config

namespace Field

/-- The value that the field has where it is missing. -/
def missing (f : Field) : f.Ty := Config.get {} f

/-- The field in a document. -/
def read (f : Field) (entries : TomlTable) : Option f.Ty :=
  match entries.lookup f.key with
  | none => some f.missing
  | some v => f.codec.decode v

theorem omitted_missing (f : Field) {x : f.Ty} (h : f.codec.omitted = some x) : x = f.missing := by
  cases f <;> first
    | exact (Option.some.inj h).symm
    | exact absurd (show some x = none from h.symm) (Option.some_ne_none x)

theorem read_of_encode (f : Field) {x : f.Ty} {entries : TomlTable}
    (h : f.codec.encode x = some (entries.lookup f.key)) : f.read entries = some x := by
  unfold read
  cases hlookup : entries.lookup f.key with
  | none =>
    rw [hlookup] at h
    exact congrArg some (omitted_missing f (f.codec.encode_omitted x h)).symm
  | some v =>
    rw [hlookup] at h
    exact f.codec.decode_encode x v h

end Field

/-- A document is a configuration if each of its fields can be read. -/
def Config.ofTable (entries : TomlTable) : Option Config :=
  if h : ∀ f : Field, (f.read entries).isSome then some (.ofFields fun f => (f.read entries).get (h f)) else none

theorem Config.get_of_ofTable {entries : TomlTable} {config : Config} (h : Config.ofTable entries = some config)
    (f : Field) : f.read entries = some (config.get f) := by
  unfold Config.ofTable at h
  split at h
  · obtain rfl := Option.some.inj h
    rw [Config.get_ofFields, Option.some_get]
  · cases h

/-! ### Loading and updating -/

/-- The `toml` crate. Each field of a configuration is written under its key, or left out. -/
structure Toml where
  parse : Str → Option TomlTable
  toStringPretty : Config → Option Str
  written : ∀ config text, toStringPretty config = some text →
    ∃ entries, parse text = some entries ∧ ∀ f : Field, f.codec.encode (config.get f) = some (entries.lookup f.key)

/-- What the system lets the process do. -/
structure ConfigIo where
  locked : Bool
  appData : Bool
  readable : Bool
  directory : Bool
  writable : Bool
deriving DecidableEq, Repr

/-- The bytes of the file, if there is one. -/
abbrev ConfigFile := Option (List UInt8)

namespace Config

section
variable (toml : Toml) (io : ConfigIo)

/-- `toml::from_str` for a `Config`. -/
def fromStr (contents : Str) : Option Config := (toml.parse contents).bind Config.ofTable

/-- `load_unlocked`: a file that cannot be read, or does not decode, counts as the defaults. -/
def loadUnlocked (file : ConfigFile) : Config :=
  if !io.appData then {}
  else match file with
    | none => {}
    | some content =>
      match if io.readable then Str.ofBytes content else none with
      | some contents => (fromStr toml contents).getD {}
      | none => {}

/-- The bytes that are written. -/
def saveUnlocked (config : Config) : Option (List UInt8) :=
  if !io.appData then none
  else if !io.directory then none
  else match toml.toStringPretty config with
    | none => none
    | some contents => if io.writable then some contents.bytes else none

/-- `load`, which writes the file where the settings were not in it. -/
def load (file : ConfigFile) : Config × ConfigFile :=
  if !io.locked then ({}, file)
  else
    let config := loadUnlocked toml io file
    (config, (saveUnlocked toml io config).or file)

/-- Whether it succeeded, and the file. -/
def update (mutator : Config → Config) (file : ConfigFile) : Bool × ConfigFile :=
  if !io.locked then (false, file)
  else
    let config := loadUnlocked toml io file
    let saved := saveUnlocked toml io (mutator config)
    (saved.isSome, saved.or file)

end

end Config

/-- A call that rewrites the file. -/
inductive ConfigCall
  | load
  | update (mutator : Config → Config)

namespace ConfigCall

/-- What a call does to the settings. -/
def mutator : ConfigCall → Config → Config
  | load => id
  | update mutator => mutator

/-- The file after the call. -/
def run (toml : Toml) (io : ConfigIo) (file : ConfigFile) : ConfigCall → ConfigFile
  | load => (Config.load toml io file).2
  | update mutator => (Config.update toml io mutator file).2

/-- The call does not change the field. -/
def Leaves (call : ConfigCall) (f : Field) : Prop := ∀ config : Config, (call.mutator config).get f = config.get f

end ConfigCall

/-! ### What is kept -/

section
variable (toml : Toml)

/-- The document in a file. -/
def ConfigFile.table (file : ConfigFile) : Option TomlTable :=
  file.bind fun content => (Str.ofBytes content).bind toml.parse

/-- The field is in the document and can be read by itself. -/
def Field.Present (f : Field) (entries : TomlTable) (x : f.Ty) : Prop :=
  ∃ v, entries.lookup f.key = some v ∧ f.codec.decode v = some x

/-- The file is as it was, or each setting of it that the call does not change is still in it. -/
def SettingsKept (call : ConfigCall) (before after : ConfigFile) : Prop :=
  before ≠ none → after = before ∨ ∃ entries entries', before.table toml = some entries ∧
    after.table toml = some entries' ∧
      ∀ f, call.Leaves f → ∀ x, f.Present entries x → f.read entries' = some x

/-- Nothing can be written. -/
def ConfigIo.Blocked (io : ConfigIo) : Prop := ¬(io.locked ∧ io.appData ∧ io.directory ∧ io.writable)

/-- The file can be read, and so can each of its fields. -/
def ConfigFile.WellFormed (io : ConfigIo) (file : ConfigFile) : Prop :=
  io.readable = true ∧ ∃ entries, file.table toml = some entries ∧ ∀ f : Field, (f.read entries).isSome

/-- The defaults, as the call changes them, are not written over a setting with another value. -/
def ConfigCall.DefaultsFit (call : ConfigCall) (file : ConfigFile) : Prop :=
  ∀ contents, toml.toStringPretty (call.mutator {}) = some contents →
    file = some contents.bytes ∨ ∃ entries, file.table toml = some entries ∧
      ∀ f, call.Leaves f → ∀ x, f.Present entries x → x = f.missing

end

section
variable {toml : Toml} {io : ConfigIo} {call : ConfigCall} {file : ConfigFile}

theorem ConfigCall.run_eq : call.run toml io file =
    if io.locked then (Config.saveUnlocked toml io (call.mutator (Config.loadUnlocked toml io file))).or file
    else file := by
  cases call with
  | load => cases h : io.locked <;> simp [run, mutator, Config.load, h]
  | update mutator => cases h : io.locked <;> simp [run, ConfigCall.mutator, Config.update, h]

theorem saveUnlocked_of_free (h : ¬io.Blocked) (config : Config) :
    Config.saveUnlocked toml io config = (toml.toStringPretty config).map Str.bytes := by
  obtain ⟨-, happ, hdirectory, hwritable⟩ := not_not.mp h
  unfold Config.saveUnlocked
  rw [happ, hdirectory]
  cases toml.toStringPretty config with
  | none => rfl
  | some contents => exact if_pos hwritable

theorem run_of_blocked (h : io.Blocked) : call.run toml io file = file := by
  rw [ConfigCall.run_eq]
  split
  · rename_i hlocked
    have hnone : Config.saveUnlocked toml io (call.mutator (Config.loadUnlocked toml io file)) = none := by
      unfold Config.saveUnlocked
      by_cases happ : io.appData = true
      · by_cases hdirectory : io.directory = true
        · rw [happ, hdirectory]
          cases toml.toStringPretty (call.mutator (Config.loadUnlocked toml io file)) with
          | none => rfl
          | some contents => exact if_neg fun hwritable => h ⟨hlocked, happ, hdirectory, hwritable⟩
        · simp [happ, hdirectory]
      · simp [happ]
    rw [hnone, Option.none_or]
  · rfl

theorem run_of_free (h : ¬io.Blocked) : call.run toml io file =
    ((toml.toStringPretty (call.mutator (Config.loadUnlocked toml io file))).map Str.bytes).or file := by
  rw [ConfigCall.run_eq, if_pos (not_not.mp h).1, saveUnlocked_of_free h]

theorem table_of_written {config : Config} {contents : Str} (h : toml.toStringPretty config = some contents) :
    ∃ entries, ConfigFile.table toml (some contents.bytes) = some entries ∧
      ∀ f : Field, f.read entries = some (config.get f) := by
  obtain ⟨entries, hparse, hwritten⟩ := toml.written config contents h
  refine ⟨entries, ?_, fun f => f.read_of_encode (hwritten f)⟩
  rw [ConfigFile.table, Option.bind_some, Str.ofBytes_bytes, Option.bind_some, hparse]

theorem loadUnlocked_wellFormed (happ : io.appData = true) (h : file.WellFormed toml io) :
    ∃ entries, file.table toml = some entries ∧
      ∀ f : Field, f.read entries = some ((Config.loadUnlocked toml io file).get f) := by
  obtain ⟨hreadable, entries, htable, hfields⟩ := h
  refine ⟨entries, htable, ?_⟩
  obtain ⟨content, rfl, hcontent⟩ := Option.bind_eq_some_iff.mp htable
  obtain ⟨contents, hcontents, hparse⟩ := Option.bind_eq_some_iff.mp hcontent
  have hconfig : Config.ofTable entries = some (.ofFields fun f => (f.read entries).get (hfields f)) := dif_pos hfields
  have hload : Config.loadUnlocked toml io (some content) = .ofFields fun f => (f.read entries).get (hfields f) := by
    have hread : (if io.readable then Str.ofBytes content else none) = some contents := by
      rw [if_pos hreadable, hcontents]
    have hfrom : Config.fromStr toml contents = some (.ofFields fun f => (f.read entries).get (hfields f)) := by
      rw [Config.fromStr, hparse, Option.bind_some, hconfig]
    unfold Config.loadUnlocked
    rw [if_neg (by simp [happ])]
    dsimp only
    rw [hread]
    exact congrArg (·.getD {}) hfrom
  rw [hload]
  exact Config.get_of_ofTable hconfig

theorem loadUnlocked_illFormed (h : ¬file.WellFormed toml io) : Config.loadUnlocked toml io file = {} := by
  unfold Config.loadUnlocked
  split
  · rfl
  · cases file with
    | none => rfl
    | some content =>
      dsimp only
      split
      · rename_i contents hread
        by_cases hreadable : io.readable = true
        · rw [if_pos hreadable] at hread
          cases hconfig : Config.fromStr toml contents with
          | none => rfl
          | some config =>
            obtain ⟨entries, hparse, hconfig⟩ := Option.bind_eq_some_iff.mp hconfig
            refine absurd ⟨hreadable, entries, ?_, fun f => ?_⟩ h
            · rw [ConfigFile.table, Option.bind_some, hread, Option.bind_some, hparse]
            · rw [Config.get_of_ofTable hconfig f]
              rfl
        · rw [if_neg hreadable] at hread
          cases hread
      · rfl

theorem settingsKept_of_wellFormed (hfree : ¬io.Blocked) (h : file.WellFormed toml io) :
    SettingsKept toml call file (call.run toml io file) := by
  intro _
  rw [run_of_free hfree]
  obtain ⟨entries, htable, hfields⟩ := loadUnlocked_wellFormed (not_not.mp hfree).2.1 h
  cases hcontents : toml.toStringPretty (call.mutator (Config.loadUnlocked toml io file)) with
  | none => exact .inl rfl
  | some contents =>
    obtain ⟨entries', htable', hfields'⟩ := table_of_written hcontents
    refine .inr ⟨entries, entries', htable, htable', fun f hleaves x ⟨v, hlookup, hdecode⟩ => ?_⟩
    have hread : f.read entries = some x := by
      rw [Field.read, hlookup]
      exact hdecode
    rw [hfields', hleaves, ← hfields, hread]

theorem settingsKept_illFormed_iff (hfree : ¬io.Blocked) (h : ¬file.WellFormed toml io) (hfile : file ≠ none) :
    SettingsKept toml call file (call.run toml io file) ↔ call.DefaultsFit toml file := by
  rw [run_of_free hfree, loadUnlocked_illFormed h]
  cases hcontents : toml.toStringPretty (call.mutator {}) with
  | none =>
    refine ⟨fun _ contents hsome => ?_, fun _ _ => .inl rfl⟩
    rw [hcontents] at hsome
    cases hsome
  | some contents =>
    obtain ⟨entries', htable', hfields'⟩ := table_of_written hcontents
    have hread : ∀ f : Field, call.Leaves f → f.read entries' = some f.missing := by
      intro f hleaves
      rw [hfields', hleaves]
      rfl
    constructor
    · intro hkept contents' hcontents'
      obtain rfl := Option.some.inj (hcontents.symm.trans hcontents')
      rcases hkept hfile with hsame | ⟨entries, entries'', htable, htable'', hall⟩
      · exact .inl hsame.symm
      · obtain rfl := Option.some.inj (htable'.symm.trans htable'')
        refine .inr ⟨entries, htable, fun f hleaves x hpresent => ?_⟩
        exact Option.some.inj ((hall f hleaves x hpresent).symm.trans (hread f hleaves))
    · intro hfit _
      rcases hfit contents hcontents with rfl | ⟨entries, htable, hall⟩
      · exact .inl rfl
      · refine .inr ⟨entries, entries', htable, htable', fun f hleaves x hpresent => ?_⟩
        rw [hread f hleaves, hall f hleaves x hpresent]

end

/-- A call keeps the settings exactly if there is no file, nothing can be written, the file can be read with each of its
fields, or the defaults that are written over it fit. -/
theorem settingsKept_iff (toml : Toml) (io : ConfigIo) (call : ConfigCall) (file : ConfigFile) :
    SettingsKept toml call file (call.run toml io file) ↔
      file = none ∨ io.Blocked ∨ file.WellFormed toml io ∨ call.DefaultsFit toml file := by
  by_cases hfile : file = none
  · exact ⟨fun _ => .inl hfile, fun _ hsome => absurd hfile hsome⟩
  by_cases hblocked : io.Blocked
  · refine ⟨fun _ => .inr (.inl hblocked), fun _ _ => ?_⟩
    rw [run_of_blocked hblocked]
    exact .inl rfl
  by_cases hformed : file.WellFormed toml io
  · exact ⟨fun _ => .inr (.inr (.inl hformed)), fun _ => settingsKept_of_wellFormed hblocked hformed⟩
  · rw [settingsKept_illFormed_iff hblocked hformed hfile]
    simp [hfile, hblocked, hformed]

/-! ### A wrong type in one field -/

def textOf (lines : List String) : Str := lines.flatMap fun line => line.toList ++ ['\n']

/-- A file with a text where a flag is expected. -/
def wrongText : Str :=
  textOf ["notify_tells = \"yes\"", "server = \"teek\"", "", "[[accounts]]", "username = \"bilka\"",
    "password = \"AQAAANCM\""]

/-- A file whose `notify_tells` is no boolean. -/
def wrongTable : TomlTable :=
  [("notify_tells", .string "yes".toList), ("server", .string "teek".toList),
    ("accounts", .array [.table [("username", .string "bilka".toList), ("password", .string "AQAAANCM".toList)]])]

/-- The text of the defaults. -/
def defaultText : Str :=
  textOf ["eq_dir = \x27C:\\Users\\Public\\Daybreak Game Company\\Installed Games\\EverQuest\x27",
    "hide_hotkey = \"F9\"", "pip_edge = \"right\"", "show_stonemite_button = true", "pip_positions = []",
    "dps_overlay_enabled = true", "dps_overlay_top_rows = 10", "snap_grid = 16", "auto_order = true",
    "box_order = []", "hide_from_alt_tab = true", "trusik = false", "broadcast_hotkey = \"Pause\"",
    "disable_broadcast_when_clients_exit = true", "mouse_clutch_key = \"F13\"",
    "broadcast_filter_mode = \"blacklist\"", "broadcast_filter_keys = []", "swap_hotkeys = [",
    "    \"Ctrl+F1\",", "    \"Ctrl+F2\",", "    \"Ctrl+F3\",", "    \"Ctrl+F4\",", "    \"Ctrl+F5\",",
    "    \"Ctrl+F6\",", "]", "box_cycles = []", "tell_visual_enabled = true", "tell_sound_enabled = true",
    "tell_sound = \"tell.wav\"", "notify_tells = true", "notify_group_invites = true",
    "notify_raid_invites = true", "notify_trade_proposals = true", "notify_resurrections = true",
    "notify_deaths = true", "notify_level_gains = true", "notify_aa_gains = true",
    "aa_points_per_notification = 1", "combat_awareness_enabled = true", "combat_hit_duration_seconds = 3.0",
    "toast_enabled = true", "auto_update_check = true", "update_check_interval_days = 7", "accounts = []",
    "server = \"\"", "", "[trushar]", "enabled = true", "bind = \"127.0.0.1:19720\""]

/-- The table of the default settings. -/
def defaultTable : TomlTable := Field.all.filterMap fun f => ((f.codec.encode f.missing).join).map fun v => (f.key, v)

/-- A parser that knows two texts. -/
def parseTwo (text : Str) : Option TomlTable :=
  if text = wrongText then some wrongTable else if text = defaultText then some defaultTable else none

/-- A writer that knows the default settings. -/
def writeDefaults (config : Config) : Option Str := if config = {} then some defaultText else none

/-- The crate on these two documents. -/
def twoDocuments : Toml where
  parse := parseTwo
  toStringPretty := writeDefaults
  written := by
    intro config text h
    unfold writeDefaults at h
    split at h
    · rename_i hconfig
      obtain rfl := Option.some.inj h
      refine ⟨defaultTable, ?_, fun f => ?_⟩
      · rw [parseTwo, if_neg (by decide +kernel), if_pos rfl]
      · rw [hconfig]
        cases f <;> rfl
    · cases h

/-- Everything that the system is asked for succeeds. -/
def allowed : ConfigIo := ⟨true, true, true, true, true⟩

/-- At the start the file with the wrong type is replaced by the defaults; the account is gone. -/
theorem wrongType_wipes : ¬SettingsKept twoDocuments .load (some wrongText.bytes)
    (ConfigCall.load.run twoDocuments allowed (some wrongText.bytes)) := by
  have htable : ConfigFile.table twoDocuments (some wrongText.bytes) = some wrongTable := by
    rw [ConfigFile.table, Option.bind_some, Str.ofBytes_bytes, Option.bind_some]
    exact (if_pos rfl : parseTwo wrongText = some wrongTable)
  have hformed : ¬ConfigFile.WellFormed twoDocuments allowed (some wrongText.bytes) := by
    rintro ⟨-, entries, hentries, hfields⟩
    obtain rfl := Option.some.inj (htable.symm.trans hentries)
    exact absurd (hfields .notifyTells) (by decide +kernel)
  rw [settingsKept_illFormed_iff (not_not.mpr ⟨rfl, rfl, rfl, rfl⟩) hformed (by simp)]
  intro hfit
  have hdefault : writeDefaults {} = some defaultText := if_pos rfl
  rcases hfit defaultText hdefault with hsame | ⟨entries, hentries, hall⟩
  · exact absurd hsame (by decide +kernel)
  · obtain rfl := Option.some.inj (htable.symm.trans hentries)
    have hserver : (Field.server).Present wrongTable "teek".toList := ⟨.string "teek".toList, rfl, rfl⟩
    exact List.cons_ne_nil _ _ (hall .server (fun _ => rfl) _ hserver)

end Stonemite.Settings
