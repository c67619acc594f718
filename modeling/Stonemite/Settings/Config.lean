import Stonemite.Settings.Hotkeys

/-!
# The configuration (`config.rs`)

The fields of `config.toml`, their defaults, and the values in effect for those that may be missing or out of range.
-/

namespace Stonemite.Settings

open Overlay (BoxIdentity)

/-- An `f32`; the two zeros are one. -/
inductive F32
  | finite (value : ℚ)
  | infinite (negative : Bool)
  | nan
deriving DecidableEq

/-- The edge of the monitor that the strip lies on. -/
inductive PipEdge
  | right
  | left
  | top
  | bottom
deriving DecidableEq, Repr

/-- The weights of the labels' font. -/
inductive LabelFontWeight
  | regular
  | semibold
  | bold
  | heavy
deriving DecidableEq, Repr

/-- Per-pip custom position and size. -/
structure PipPosition where
  slot : Nat
  x : Int
  y : Int
  width : Nat
  height : Nat
deriving DecidableEq, Repr

/-- Where the DPS overlay was put, relative to the work area. -/
structure DpsOverlayPlacement where
  xDip : Int
  yDip : Int
  widthDip : Nat
deriving DecidableEq, Repr

/-- An account for auto-login; `password` is encrypted. -/
structure Account where
  username : Str
  password : Str
deriving DecidableEq, Repr

/-- The settings of the control API. -/
structure TrusharConfig where
  enabled : Bool := true
  bind : Str := "127.0.0.1:19720".toList
  authToken : Option Str := none
deriving DecidableEq, Repr

def maxPipOpacity : Nat := 100
def minPipOpacity : Nat := 10
def minPipLabelFontScale : Nat := 60
def maxPipLabelFontScale : Nat := 120
/-- `MAX_PIP_LABEL_FONT_FAMILY_LEN`, in UTF-16 code units. -/
def maxPipLabelFontFamilyLen : Nat := 31
def dpsOverlayTopRowOptions : List Nat := [5, 10, 15]
def minCombatHitDurationSeconds : ℚ := 1 / 2
def maxCombatHitDurationSeconds : ℚ := 10
def minAaPointsPerNotification : Nat := 1
def maxAaPointsPerNotification : Nat := 100
def maxBoxCycles : Nat := 16

structure Config where
  eqDir : Str := "C:\\Users\\Public\\Daybreak Game Company\\Installed Games\\EverQuest".toList
  hideHotkey : Str := "F9".toList
  pipEdge : PipEdge := .right
  showStonemiteButton : Bool := true
  stonemiteButtonPosition : Option (F32 × F32) := none
  pipStripWidth : Option Nat := none
  pipOpacity : Option Nat := none
  pipPositions : List PipPosition := []
  dpsOverlayEnabled : Bool := true
  dpsOverlayTopRows : Nat := 10
  dpsOverlayPlacement : Option DpsOverlayPlacement := none
  snapGrid : Nat := 16
  pipLabelHeight : Option Nat := none
  pipLabelOpacity : Option Nat := none
  pipLabelFontFamily : Option Str := none
  pipLabelFontScale : Option Nat := none
  pipLabelFontWeight : Option LabelFontWeight := none
  autoOrder : Bool := true
  boxOrder : List BoxIdentity := []
  hideFromAltTab : Bool := true
  trusik : Bool := false
  broadcastHotkey : Str := "Pause".toList
  disableBroadcastWhenClientsExit : Bool := true
  mouseClutchKey : Str := "F13".toList
  broadcastFilterMode : Str := "blacklist".toList
  broadcastFilterKeys : List Str := []
  swapHotkeys : List Str := (List.range 6).map fun i => "Ctrl+F".toList ++ Nat.toDigits 10 (i + 1)
  boxCycles : List BoxCycle := []
  settingsPosition : Option (F32 × F32) := none
  tellVisualEnabled : Bool := true
  tellSoundEnabled : Bool := true
  tellSound : Str := "tell.wav".toList
  notifyTells : Bool := true
  notifyGroupInvites : Bool := true
  notifyRaidInvites : Bool := true
  notifyTradeProposals : Bool := true
  notifyResurrections : Bool := true
  notifyDeaths : Bool := true
  notifyLevelGains : Bool := true
  notifyAaGains : Bool := true
  aaPointsPerNotification : Nat := 1
  combatAwarenessEnabled : Bool := true
  combatHitDurationSeconds : F32 := .finite 3
  toastEnabled : Bool := true
  toastHeight : Option Nat := none
  toastDuration : Option F32 := none
  autoUpdateCheck : Bool := true
  updateCheckIntervalDays : Nat := 7
  lastUpdateCheck : Option Str := none
  accounts : List Account := []
  server : Str := []
  trushar : TrusharConfig := {}
deriving DecidableEq

/-- `Ord::clamp`. -/
def clamp {α : Type} [LinearOrder α] (value low high : α) : α :=
  if value < low then low else if high < value then high else value

theorem clamp_of_mem {α : Type} [LinearOrder α] {value low high : α} (hlow : low ≤ value) (hhigh : value ≤ high) :
    clamp value low high = value := by
  rw [clamp, if_neg (not_lt.mpr hlow), if_neg (not_lt.mpr hhigh)]

/-- `char::is_control`. -/
def isControl (c : Char) : Bool := c.toNat < 0x20 || (0x7F ≤ c.toNat && c.toNat < 0xA0)

/-- `str::encode_utf16().count()`. -/
def utf16Count (s : Str) : Nat := (s.map fun c => if c.toNat < 0x10000 then 1 else 2).sum

namespace Config
variable (config : Config)

/-- The number of rows, if it is one of the options. -/
def effectiveDpsOverlayTopRows : Nat :=
  if config.dpsOverlayTopRows ∈ dpsOverlayTopRowOptions then config.dpsOverlayTopRows else 10

/-- The opacity within its bounds. -/
def effectivePipOpacity : Nat := clamp (config.pipOpacity.getD 80) minPipOpacity maxPipOpacity

/-- The font of the labels, if its name is one. -/
def effectivePipLabelFontFamily : Str :=
  ((config.pipLabelFontFamily.map Str.trim).filter fun family =>
    !family.isEmpty && utf16Count family ≤ maxPipLabelFontFamilyLen && !family.any isControl).getD "Segoe UI".toList

/-- The scale of the labels within its bounds. -/
def effectivePipLabelFontScale : Nat :=
  clamp (config.pipLabelFontScale.getD 100) minPipLabelFontScale maxPipLabelFontScale

/-- The weight of the labels, bold where none is set. -/
def effectivePipLabelFontWeight : LabelFontWeight := config.pipLabelFontWeight.getD .bold

/-- The points between two announcements, within their bounds. -/
def effectiveAaPointsPerNotification : Nat :=
  clamp config.aaPointsPerNotification minAaPointsPerNotification maxAaPointsPerNotification

/-- How long a hit is shown, within its bounds. -/
def effectiveCombatHitDurationSeconds : F32 :=
  match config.combatHitDurationSeconds with
  | .finite value => .finite (clamp value minCombatHitDurationSeconds maxCombatHitDurationSeconds)
  | _ => .finite 3

end Config

end Stonemite.Settings
