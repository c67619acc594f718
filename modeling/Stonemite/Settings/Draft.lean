import Stonemite.Lib.SocketAddr
import Stonemite.Settings.Config
import Stonemite.Settings.Ini

/-!
# The settings window (`settings_model.rs`)

A draft is read from the configuration and written back over it. `Services` are what Windows answers: the encryption of
passwords, the files of a directory, and the upper case of a text. `Accepted` is what the checks let through. Each page
of the draft is read back by a lemma of its own, and `settings_round_trip` collects them.
-/

namespace Stonemite.Settings

open Overlay (BoxIdentity)

/-- The settings of the control API as the window shows them. -/
structure IntegrationSettings where
  enabled : Bool
  lanEnabled : Bool
deriving DecidableEq, Repr

structure ToastSettings where
  enabled : Bool
  height : Nat
  durationSeconds : F32
deriving DecidableEq

structure UpdateSettings where
  automatic : Bool
  intervalDays : Nat
deriving DecidableEq, Repr

/-- The first page of the window. -/
structure GeneralSettings where
  eqDirectory : Str
  hideFromAltTab : Bool
  integrations : IntegrationSettings
  toast : ToastSettings
  updates : UpdateSettings
deriving DecidableEq

/-- An account with its password in the clear. -/
structure AccountDraft where
  username : Str
  password : Str
deriving DecidableEq, Repr

structure AccountsSettings where
  server : Str
  accounts : List AccountDraft
deriving DecidableEq, Repr

/-- The settings of the DPS overlay. -/
structure DpsOverlaySettings where
  enabled : Bool
  topRows : Nat
deriving DecidableEq, Repr

/-- The settings of the strip and its labels. -/
structure PipSettings where
  edge : PipEdge
  showStonemiteButton : Bool
  thumbnailOpacity : Nat
  labelHeight : Nat
  labelOpacity : Nat
  fontFamily : Str
  fontScale : Nat
  fontWeight : LabelFontWeight
  autoOrder : Bool
  hideHotkey : Str
deriving DecidableEq, Repr

/-- Which events are announced, and how. -/
structure NotificationSettings where
  visualEnabled : Bool
  soundEnabled : Bool
  sound : Str
  tells : Bool
  groupInvites : Bool
  raidInvites : Bool
  tradeProposals : Bool
  resurrections : Bool
  deaths : Bool
  levelGains : Bool
  aaGains : Bool
  aaPointsPerNotification : Nat
  combatAwarenessEnabled : Bool
  combatHitDurationSeconds : F32
deriving DecidableEq

/-- The hotkeys of windows and cycles. -/
structure HotkeySettings where
  swapHotkeys : List Str
  boxCycles : List BoxCycle
deriving DecidableEq, Repr

/-- Whether the listed keys are kept back or are the only ones sent. -/
inductive BroadcastFilterMode
  | blacklist
  | whitelist
deriving DecidableEq, Repr

/-- The settings of broadcasting. -/
structure BroadcastingSettings where
  toggleHotkey : Str
  disableWhenClientsExit : Bool
  mouseClutchKey : Str
  filterMode : BroadcastFilterMode
  filterKeys : List Str
deriving DecidableEq, Repr

/-- What the settings window edits. -/
structure SettingsDraft where
  general : GeneralSettings
  accounts : AccountsSettings
  boxOrder : List BoxIdentity
  pip : PipSettings
  dpsOverlay : DpsOverlaySettings
  notifications : NotificationSettings
  hotkeys : HotkeySettings
  broadcasting : BroadcastingSettings
deriving DecidableEq

/-- Whether a change waits for the next start. -/
structure SaveOutcome where
  restartRequired : Bool
deriving DecidableEq, Repr

/-- What the settings use of the system: the alphabet, the encryption of passwords, and the files of a directory. -/
structure Services where
  toUppercase : Str → Str
  encrypt : Str → Except Str Str
  decrypt : Str → Except Str Str
  files : Str → List (Str × List UInt8)

/-! ### Sounds -/

def builtinSounds : List String :=
  ["alert.wav", "alert2.wav", "alert3.wav", "alert4.wav", "alert5.wav", "tell.wav", "tell2.wav", "thump.wav", "thump2.wav"]

/-- The id of a built-in sound, whatever its case. -/
def normalizedId (id : Str) : Str :=
  ((builtinSounds.find? fun sound => Str.eqIgnoreAsciiCase sound.toList id).getD "tell.wav").toList

/-! ### Integrations -/

/-- The API can be reached from other computers. -/
def trusharLanEnabled (bind : Str) : Bool := (SocketAddr.parse bind).any fun address => !address.ip.isLoopback

/-- The port of the API, or its default. -/
def integrationPort (bind : Str) : Nat := ((SocketAddr.parse bind).map (·.port)).getD 19720

/-- `Uuid::simple`. -/
def simpleUuid (uuid : Nat) : Str :=
  List.replicate (32 - (Nat.toDigits 16 uuid).length) '0' ++ Nat.toDigits 16 uuid

def generateAuthToken (uuids : Nat × Nat) : Str := simpleUuid uuids.1 ++ simpleUuid uuids.2

/-- The settings of the API after those of the window. -/
def integrationConfig (uuids : Nat × Nat) (config : TrusharConfig) (enabled lanEnabled : Bool) : TrusharConfig :=
  let port := integrationPort config.bind
  if lanEnabled then
    { enabled := enabled
      bind := "0.0.0.0:".toList ++ Nat.toDigits 10 port
      authToken :=
        if (config.authToken.all fun token => token.trim.isEmpty) then some (generateAuthToken uuids) else config.authToken }
  else
    { enabled := enabled
      bind := "127.0.0.1:".toList ++ Nat.toDigits 10 port
      authToken := none }

/-! ### Checks -/

/-- A check with the message of its failure. -/
def ensure (holds : Bool) (message : Str) : Except Str Unit := if holds then .ok () else .error message

/-- A number lies within its bounds. -/
def validateRange (label : String) (value minimum maximum : Nat) : Except Str Unit :=
  ensure (minimum ≤ value && value ≤ maximum)
    (label.toList ++ " must be between ".toList ++ Nat.toDigits 10 minimum ++ " and ".toList ++ Nat.toDigits 10 maximum)

/-- A number of tenths with one decimal. -/
def formatTenths (value : ℚ) : Str :=
  let tenths := (value * 10).floor.toNat
  Nat.toDigits 10 (tenths / 10) ++ '.' :: Nat.toDigits 10 (tenths % 10)

/-- A number lies between the bounds; no other float does. -/
def F32.within (minimum maximum : ℚ) : F32 → Bool
  | finite value => minimum ≤ value && value ≤ maximum
  | _ => false

/-- A float lies within its bounds. -/
def validateFloatRange (label : String) (value : F32) (minimum maximum : ℚ) : Except Str Unit :=
  ensure (value.within minimum maximum)
    (label.toList ++ " must be between ".toList ++ formatTenths minimum ++ " and ".toList ++ formatTenths maximum)

/-- A server and a character are both named. -/
def validateIdentity (server character label : Str) : Except Str Unit := do
  ensure (!(server.isEmpty || character.isEmpty)) (label ++ " requires both a character and server".toList)
  ensure (!(128 < server.bytes.length || 128 < character.bytes.length))
    (label ++ " character and server must be at most 128 bytes".toList)

/-- Checks the identities from a position on; `seen` are those before it. -/
def validateIdentities (label : Nat → Str) (duplicate : Str → Str → Str) (seen : List (Str × Str)) (index : Nat) :
    List BoxIdentity → Except Str Unit
  | [] => .ok ()
  | identity :: identities => do
    let server := identity.server.trim
    let character := identity.character.trim
    validateIdentity server character (label (index + 1))
    let key := (server.toAsciiLowercase, character.toAsciiLowercase)
    ensure (key ∉ seen) (duplicate character server)
    validateIdentities label duplicate (key :: seen) (index + 1) identities

/-- Checks the cycles from a position on; the cycles as the hotkeys are checked with. -/
def validateCycles (names : List Str) (index : Nat) : List BoxCycle → Except Str (List BoxCycle)
  | [] => .ok []
  | cycle :: cycles => do
    let name := cycle.name.trim
    ensure (!name.isEmpty) ("Box cycle ".toList ++ Nat.toDigits 10 (index + 1) ++ " requires a name".toList)
    ensure (!(64 < name.bytes.length || name.any isControl))
      ("Box cycle '".toList ++ name ++ "' name must be at most 64 bytes without control characters".toList)
    ensure (name.toAsciiLowercase ∉ names) ("Box cycle name '".toList ++ name ++ "' is used more than once".toList)
    ensure (!(cycle.nextHotkey.trim.isEmpty && cycle.previousHotkey.trim.isEmpty))
      ("Box cycle '".toList ++ name ++ "' needs a Next or Previous hotkey".toList)
    ensure (2 ≤ cycle.members.length) ("Box cycle '".toList ++ name ++ "' needs at least two characters".toList)
    validateIdentities (fun position => "Box cycle '".toList ++ name ++ "' member ".toList ++ Nat.toDigits 10 position)
      (fun character server => character ++ " on ".toList ++ server ++ " appears more than once in box cycle '".toList ++
        name ++ "'".toList) [] 0 cycle.members
    let configCycles ← validateCycles (name.toAsciiLowercase :: names) (index + 1) cycles
    return ⟨name, cycle.nextHotkey.trim, cycle.previousHotkey.trim, cycle.members⟩ :: configCycles

namespace SettingsDraft

/-- `validate`: the checks of the whole draft, in order. -/
def validate (services : Services) (draft : SettingsDraft) : Except Str Unit := do
  validateRange "Toast height" draft.general.toast.height 24 128
  validateFloatRange "Toast duration" draft.general.toast.durationSeconds (1 / 2) 10
  validateRange "Update interval" draft.general.updates.intervalDays 1 30
  validateRange "PiP thumbnail opacity" draft.pip.thumbnailOpacity minPipOpacity maxPipOpacity
  validateRange "PiP label height" draft.pip.labelHeight 24 64
  validateRange "PiP label opacity" draft.pip.labelOpacity 10 100
  ensure (draft.dpsOverlay.topRows ∈ dpsOverlayTopRowOptions) "DPS overlay rows must be 5, 10, or 15".toList
  validateRange "AA points per notification" draft.notifications.aaPointsPerNotification minAaPointsPerNotification
    maxAaPointsPerNotification
  validateFloatRange "Combat hit highlight duration" draft.notifications.combatHitDurationSeconds
    minCombatHitDurationSeconds maxCombatHitDurationSeconds
  validateRange "PiP label font scale" draft.pip.fontScale minPipLabelFontScale maxPipLabelFontScale
  let fontFamily := draft.pip.fontFamily.trim
  ensure (!fontFamily.isEmpty) "PiP label font family is required".toList
  ensure (utf16Count fontFamily ≤ maxPipLabelFontFamilyLen)
    ("PiP label font family must be at most ".toList ++ Nat.toDigits 10 maxPipLabelFontFamilyLen ++ " characters".toList)
  ensure (!fontFamily.any isControl) "PiP label font family cannot contain control characters".toList
  ensure (draft.hotkeys.swapHotkeys.length = 6) "Exactly six window hotkeys are required".toList
  ensure (draft.hotkeys.boxCycles.length ≤ maxBoxCycles)
    ("At most ".toList ++ Nat.toDigits 10 maxBoxCycles ++ " box cycles are supported".toList)
  let configCycles ← validateCycles [] 0 draft.hotkeys.boxCycles
  validateGlobalHotkeyBindings services.toUppercase draft.pip.hideHotkey draft.broadcasting.toggleHotkey
    draft.hotkeys.swapHotkeys configCycles
  let _ ← validateMouseClutchBinding services.toUppercase draft.broadcasting.mouseClutchKey draft.pip.hideHotkey
    draft.broadcasting.toggleHotkey draft.hotkeys.swapHotkeys configCycles
  validateIdentities (fun position => "Box order entry ".toList ++ Nat.toDigits 10 position)
    (fun character server => character ++ " on ".toList ++ server ++ " appears more than once in box order".toList) [] 0
    draft.boxOrder

end SettingsDraft

/-! ### Reading and writing the configuration -/

/-- Six hotkeys, those missing from the defaults. -/
def normalizedSwapHotkeys (configured : List Str) : List Str :=
  configured.take 6 ++ ((List.range 6).map fun i => "Ctrl+F".toList ++ Nat.toDigits 10 (i + 1)).drop configured.length

/-- The identity without the blanks around its names. -/
def trimmedIdentity (identity : BoxIdentity) : BoxIdentity := ⟨identity.server.trim, identity.character.trim⟩

/-- The cycle without the blanks around its texts. -/
def trimmedCycle (cycle : BoxCycle) : BoxCycle :=
  ⟨cycle.name.trim, cycle.nextHotkey.trim, cycle.previousHotkey.trim, cycle.members.map trimmedIdentity⟩

def decryptAccount (services : Services) (entry : Account × Nat) : Except Str AccountDraft :=
  let (account, index) := entry
  match services.decrypt account.password with
  | .ok password => .ok ⟨account.username, password⟩
  | .error error => .error ("Could not decrypt account ".toList ++ Nat.toDigits 10 (index + 1) ++ " (".toList ++
      account.username ++ "): ".toList ++ error)

def encryptAccount (services : Services) (entry : AccountDraft × Nat) : Except Str Account :=
  let (account, index) := entry
  match services.encrypt account.password with
  | .ok password => .ok ⟨account.username, password⟩
  | .error error => .error ("Could not encrypt account ".toList ++ Nat.toDigits 10 (index + 1) ++ ": ".toList ++ error)

namespace SettingsDraft

def fromConfig (services : Services) (config : Config) : Except Str SettingsDraft := do
  let server := ((readServerFromIni (services.files config.eqDir)).filter fun server => !server.isEmpty).getD config.server
  let accounts ← config.accounts.zipIdx.mapM (decryptAccount services)
  return {
    general := {
      eqDirectory := config.eqDir
      hideFromAltTab := config.hideFromAltTab
      integrations := { enabled := config.trushar.enabled, lanEnabled := trusharLanEnabled config.trushar.bind }
      toast := {
        enabled := config.toastEnabled
        height := config.toastHeight.getD 64
        durationSeconds := config.toastDuration.getD (.finite 2) }
      updates := { automatic := config.autoUpdateCheck, intervalDays := config.updateCheckIntervalDays } }
    accounts := { server := server, accounts := accounts }
    boxOrder := config.boxOrder
    pip := {
      edge := config.pipEdge
      showStonemiteButton := config.showStonemiteButton
      thumbnailOpacity := config.effectivePipOpacity
      labelHeight := config.pipLabelHeight.getD 48
      labelOpacity := config.pipLabelOpacity.getD 80
      fontFamily := config.effectivePipLabelFontFamily
      fontScale := config.effectivePipLabelFontScale
      fontWeight := config.effectivePipLabelFontWeight
      autoOrder := config.autoOrder
      hideHotkey := config.hideHotkey }
    dpsOverlay := { enabled := config.dpsOverlayEnabled, topRows := config.effectiveDpsOverlayTopRows }
    notifications := {
      visualEnabled := config.tellVisualEnabled
      soundEnabled := config.tellSoundEnabled
      sound := normalizedId config.tellSound
      tells := config.notifyTells
      groupInvites := config.notifyGroupInvites
      raidInvites := config.notifyRaidInvites
      tradeProposals := config.notifyTradeProposals
      resurrections := config.notifyResurrections
      deaths := config.notifyDeaths
      levelGains := config.notifyLevelGains
      aaGains := config.notifyAaGains
      aaPointsPerNotification := config.effectiveAaPointsPerNotification
      combatAwarenessEnabled := config.combatAwarenessEnabled
      combatHitDurationSeconds := config.effectiveCombatHitDurationSeconds }
    hotkeys := {
      swapHotkeys := normalizedSwapHotkeys config.swapHotkeys
      boxCycles := config.boxCycles.map fun cycle => ⟨cycle.name, cycle.nextHotkey, cycle.previousHotkey, cycle.members⟩ }
    broadcasting := {
      toggleHotkey := config.broadcastHotkey
      disableWhenClientsExit := config.disableBroadcastWhenClientsExit
      mouseClutchKey := config.mouseClutchKey
      filterMode := if config.broadcastFilterMode.eqIgnoreAsciiCase "whitelist".toList then .whitelist else .blacklist
      filterKeys := config.broadcastFilterKeys } }

def intoConfig (services : Services) (uuids : Nat × Nat) (draft : SettingsDraft) (existing : Config) :
    Except Str (Config × SaveOutcome) := do
  draft.validate services
  let trushar := integrationConfig uuids existing.trushar draft.general.integrations.enabled
    draft.general.integrations.lanEnabled
  let restartRequired := existing.trushar ≠ trushar
  let boxOrder := draft.boxOrder.map trimmedIdentity
  let boxCycles := draft.hotkeys.boxCycles.map trimmedCycle
  let accounts ← (draft.accounts.accounts.filter fun account => !account.username.trim.isEmpty).zipIdx.mapM
    (encryptAccount services)
  let config : Config := {
    eqDir := draft.general.eqDirectory
    hideHotkey := draft.pip.hideHotkey
    pipEdge := draft.pip.edge
    showStonemiteButton := draft.pip.showStonemiteButton
    stonemiteButtonPosition := existing.stonemiteButtonPosition
    pipStripWidth := existing.pipStripWidth
    pipOpacity := some draft.pip.thumbnailOpacity
    pipPositions := existing.pipPositions
    dpsOverlayEnabled := draft.dpsOverlay.enabled
    dpsOverlayTopRows := draft.dpsOverlay.topRows
    dpsOverlayPlacement := existing.dpsOverlayPlacement
    snapGrid := existing.snapGrid
    trusik := existing.trusik
    swapHotkeys := draft.hotkeys.swapHotkeys
    boxCycles := boxCycles
    settingsPosition := existing.settingsPosition
    tellVisualEnabled := draft.notifications.visualEnabled
    tellSoundEnabled := draft.notifications.soundEnabled
    tellSound := normalizedId draft.notifications.sound
    notifyTells := draft.notifications.tells
    notifyGroupInvites := draft.notifications.groupInvites
    notifyRaidInvites := draft.notifications.raidInvites
    notifyTradeProposals := draft.notifications.tradeProposals
    notifyResurrections := draft.notifications.resurrections
    notifyDeaths := draft.notifications.deaths
    notifyLevelGains := draft.notifications.levelGains
    notifyAaGains := draft.notifications.aaGains
    aaPointsPerNotification := draft.notifications.aaPointsPerNotification
    combatAwarenessEnabled := draft.notifications.combatAwarenessEnabled
    combatHitDurationSeconds := draft.notifications.combatHitDurationSeconds
    broadcastHotkey := draft.broadcasting.toggleHotkey
    disableBroadcastWhenClientsExit := draft.broadcasting.disableWhenClientsExit
    mouseClutchKey := draft.broadcasting.mouseClutchKey
    broadcastFilterMode := match draft.broadcasting.filterMode with
      | .blacklist => "blacklist".toList
      | .whitelist => "whitelist".toList
    broadcastFilterKeys := draft.broadcasting.filterKeys
    autoUpdateCheck := draft.general.updates.automatic
    updateCheckIntervalDays := draft.general.updates.intervalDays
    lastUpdateCheck := existing.lastUpdateCheck
    accounts := accounts
    pipLabelHeight := some draft.pip.labelHeight
    pipLabelOpacity := some draft.pip.labelOpacity
    pipLabelFontFamily := some draft.pip.fontFamily.trim
    pipLabelFontScale := some draft.pip.fontScale
    pipLabelFontWeight := some draft.pip.fontWeight
    autoOrder := draft.pip.autoOrder
    boxOrder := boxOrder
    hideFromAltTab := draft.general.hideFromAltTab
    toastEnabled := draft.general.toast.enabled
    toastHeight := some draft.general.toast.height
    toastDuration := some draft.general.toast.durationSeconds
    server := draft.accounts.server
    trushar := trushar }
  return (config, ⟨restartRequired⟩)

end SettingsDraft

/-! ### The round trip -/

theorem eq_ok_of_bind {α β : Type} {x : Except Str α} {f : α → Except Str β} {b : β} (h : x.bind f = .ok b) :
    ∃ a, x = .ok a ∧ f a = .ok b := by
  cases x with
  | error error => cases h
  | ok a => exact ⟨a, rfl, h⟩

theorem of_ensure {holds : Bool} {message : Str} (h : ensure holds message = .ok ()) : holds = true := by
  unfold ensure at h
  split at h
  · assumption
  · cases h

theorem of_validateRange {label : String} {value minimum maximum : Nat}
    (h : validateRange label value minimum maximum = .ok ()) : minimum ≤ value ∧ value ≤ maximum := by
  simpa using of_ensure h

/-- What the reading of the configuration relies on in a draft. -/
structure Accepted (draft : SettingsDraft) : Prop where
  thumbnailOpacity : minPipOpacity ≤ draft.pip.thumbnailOpacity ∧ draft.pip.thumbnailOpacity ≤ maxPipOpacity
  topRows : draft.dpsOverlay.topRows ∈ dpsOverlayTopRowOptions
  aaPoints : minAaPointsPerNotification ≤ draft.notifications.aaPointsPerNotification ∧
    draft.notifications.aaPointsPerNotification ≤ maxAaPointsPerNotification
  combatHitDuration : draft.notifications.combatHitDurationSeconds.within minCombatHitDurationSeconds
    maxCombatHitDurationSeconds = true
  fontScale : minPipLabelFontScale ≤ draft.pip.fontScale ∧ draft.pip.fontScale ≤ maxPipLabelFontScale
  fontFamily : (!draft.pip.fontFamily.trim.isEmpty && utf16Count draft.pip.fontFamily.trim ≤ maxPipLabelFontFamilyLen &&
    !draft.pip.fontFamily.trim.any isControl) = true
  swapHotkeys : draft.hotkeys.swapHotkeys.length = 6

theorem accepted_of_validate {services : Services} {draft : SettingsDraft} (h : draft.validate services = .ok ()) :
    Accepted draft := by
  obtain ⟨_, -, h⟩ := eq_ok_of_bind h
  obtain ⟨_, -, h⟩ := eq_ok_of_bind h
  obtain ⟨_, -, h⟩ := eq_ok_of_bind h
  obtain ⟨_, hopacity, h⟩ := eq_ok_of_bind h
  obtain ⟨_, -, h⟩ := eq_ok_of_bind h
  obtain ⟨_, -, h⟩ := eq_ok_of_bind h
  obtain ⟨_, hrows, h⟩ := eq_ok_of_bind h
  obtain ⟨_, hpoints, h⟩ := eq_ok_of_bind h
  obtain ⟨_, hduration, h⟩ := eq_ok_of_bind h
  obtain ⟨_, hscale, h⟩ := eq_ok_of_bind h
  obtain ⟨_, hfamily, h⟩ := eq_ok_of_bind h
  obtain ⟨_, hlength, h⟩ := eq_ok_of_bind h
  obtain ⟨_, hcontrol, h⟩ := eq_ok_of_bind h
  obtain ⟨_, hswap, h⟩ := eq_ok_of_bind h
  refine ⟨of_validateRange hopacity, of_decide_eq_true (of_ensure hrows), of_validateRange hpoints, of_ensure hduration,
    of_validateRange hscale, ?_, of_decide_eq_true (of_ensure hswap)⟩
  rw [of_ensure hfamily, of_ensure hlength, of_ensure hcontrol]
  rfl

theorem normalizedId_builtin : ∀ sound ∈ builtinSounds, normalizedId sound.toList = sound.toList := by
  decide +kernel

theorem normalizedId_normalizedId (id : Str) : normalizedId (normalizedId id) = normalizedId id := by
  cases hfind : builtinSounds.find? fun sound => Str.eqIgnoreAsciiCase sound.toList id with
  | none =>
    have hid : normalizedId id = "tell.wav".toList := by rw [normalizedId, hfind]; rfl
    rw [hid]
    exact normalizedId_builtin "tell.wav" (by decide)
  | some sound =>
    have hid : normalizedId id = sound.toList := by rw [normalizedId, hfind]; rfl
    rw [hid]
    exact normalizedId_builtin sound (List.mem_of_find?_eq_some hfind)

/-! ### The bind address -/

theorem port_lt (bind : Str) : integrationPort bind < 2 ^ 16 := by
  unfold integrationPort
  cases hparse : SocketAddr.parse bind with
  | none => decide
  | some address => exact SocketAddr.port_lt hparse

theorem parse_bind (uuids : Nat × Nat) (config : TrusharConfig) (enabled lanEnabled : Bool) :
    SocketAddr.parse (integrationConfig uuids config enabled lanEnabled).bind =
      some ⟨.v4 (if lanEnabled then [0, 0, 0, 0] else [127, 0, 0, 1]), integrationPort config.bind⟩ := by
  have hport := port_lt config.bind
  cases lanEnabled with
  | true => exact @SocketAddr.parse_format 0 0 0 0 _ (by decide) (by decide) (by decide) (by decide) hport
  | false => exact @SocketAddr.parse_format 127 0 0 1 _ (by decide) (by decide) (by decide) (by decide) hport

theorem trim_concat_ne_nil {c : Char} (hc : Str.isWhitespace c = false) (s : Str) : Str.trim (s ++ [c]) ≠ [] := by
  have hneg : ¬Str.isWhitespace c = true := by simp [hc]
  rw [Str.trim_eq, List.dropWhile_append]
  split
  · rw [List.dropWhile_cons_of_neg hneg]
    simp [List.rdropWhile_singleton, hneg]
  · rw [List.rdropWhile_concat_neg _ _ _ hneg]
    simp

theorem trim_generateAuthToken (uuids : Nat × Nat) : (generateAuthToken uuids).trim ≠ [] := by
  have hdigit : ∀ n < 16, Str.isWhitespace (Nat.digitChar n) = false := by decide
  have hlast : ∃ front, Nat.toDigits 16 uuids.2 = front ++ [Nat.digitChar (uuids.2 % 16)] := by
    rw [Nat.toDigits_eq_if (by decide)]
    split
    · rename_i hlt
      exact ⟨[], by rw [Nat.mod_eq_of_lt hlt]; rfl⟩
    · exact ⟨_, rfl⟩
  obtain ⟨front, hfront⟩ := hlast
  have htoken : generateAuthToken uuids = (simpleUuid uuids.1 ++ (List.replicate (32 - (Nat.toDigits 16 uuids.2).length) '0' ++
      front)) ++ [Nat.digitChar (uuids.2 % 16)] := by
    rw [generateAuthToken, simpleUuid, simpleUuid, hfront]
    simp
  rw [htoken]
  exact trim_concat_ne_nil (hdigit _ (Nat.mod_lt _ (by decide))) _

theorem authToken_of_integrationConfig (uuids : Nat × Nat) (config : TrusharConfig) (enabled : Bool) :
    ∃ token, (integrationConfig uuids config enabled true).authToken = some token ∧ token.trim ≠ [] := by
  unfold integrationConfig
  dsimp only
  rw [if_pos rfl]
  dsimp only
  split
  · exact ⟨_, rfl, trim_generateAuthToken uuids⟩
  · rename_i hblank
    cases htoken : config.authToken with
    | none => simp [htoken] at hblank
    | some token => exact ⟨token, rfl, by simpa [htoken] using hblank⟩

/-! ### The draft that is read back -/

namespace SettingsDraft

/-- The draft with its texts trimmed, without the accounts that have no user name, and with the sound that is bundled. -/
def normalized (draft : SettingsDraft) : SettingsDraft :=
  { draft with
    accounts.accounts := draft.accounts.accounts.filter fun account => !account.username.trim.isEmpty
    boxOrder := draft.boxOrder.map trimmedIdentity
    pip.fontFamily := draft.pip.fontFamily.trim
    notifications.sound := normalizedId draft.notifications.sound
    hotkeys.boxCycles := draft.hotkeys.boxCycles.map trimmedCycle }

end SettingsDraft

/-- What the draft does not carry is as it was. -/
structure KeepsRest (existing config : Config) : Prop where
  stonemiteButtonPosition : config.stonemiteButtonPosition = existing.stonemiteButtonPosition
  pipStripWidth : config.pipStripWidth = existing.pipStripWidth
  pipPositions : config.pipPositions = existing.pipPositions
  dpsOverlayPlacement : config.dpsOverlayPlacement = existing.dpsOverlayPlacement
  snapGrid : config.snapGrid = existing.snapGrid
  trusik : config.trusik = existing.trusik
  settingsPosition : config.settingsPosition = existing.settingsPosition
  lastUpdateCheck : config.lastUpdateCheck = existing.lastUpdateCheck
  integrationPort : integrationPort config.trushar.bind = integrationPort existing.trushar.bind

/-- The bind address is one of this machine, or there is a token. -/
def Guarded (trushar : TrusharConfig) : Prop :=
  ∃ address, SocketAddr.parse trushar.bind = some address ∧
    (address.ip.isLoopback = true ∨ ∃ token, trushar.authToken = some token ∧ token.trim ≠ [])

theorem guarded_integrationConfig (uuids : Nat × Nat) (config : TrusharConfig) (enabled lanEnabled : Bool) :
    Guarded (integrationConfig uuids config enabled lanEnabled) := by
  refine ⟨_, parse_bind uuids config enabled lanEnabled, ?_⟩
  cases lanEnabled with
  | false => exact .inl rfl
  | true => exact .inr (authToken_of_integrationConfig uuids config enabled)

theorem integrationPort_integrationConfig (uuids : Nat × Nat) (config : TrusharConfig) (enabled lanEnabled : Bool) :
    integrationPort (integrationConfig uuids config enabled lanEnabled).bind = integrationPort config.bind := by
  rw [integrationPort, parse_bind]
  rfl

theorem trusharLanEnabled_integrationConfig (uuids : Nat × Nat) (config : TrusharConfig) (enabled lanEnabled : Bool) :
    trusharLanEnabled (integrationConfig uuids config enabled lanEnabled).bind = lanEnabled := by
  rw [trusharLanEnabled, parse_bind]
  cases lanEnabled <;> rfl

theorem enabled_integrationConfig (uuids : Nat × Nat) (config : TrusharConfig) (enabled lanEnabled : Bool) :
    (integrationConfig uuids config enabled lanEnabled).enabled = enabled := by
  cases lanEnabled <;> rfl

theorem accounts_round_trip {services : Services}
    (hcrypt : ∀ password, ∃ cipher, services.encrypt password = .ok cipher ∧ services.decrypt cipher = .ok password)
    (accounts : List AccountDraft) (first first' : Nat) :
    ∃ encrypted, (accounts.zipIdx first).mapM (encryptAccount services) = .ok encrypted ∧
      (encrypted.zipIdx first').mapM (decryptAccount services) = .ok accounts := by
  induction accounts generalizing first first' with
  | nil => exact ⟨[], rfl, rfl⟩
  | cons account accounts ih =>
    obtain ⟨encrypted, hencrypted, hdecrypted⟩ := ih (first + 1) (first' + 1)
    obtain ⟨cipher, hencrypt, hdecrypt⟩ := hcrypt account.password
    refine ⟨⟨account.username, cipher⟩ :: encrypted, ?_, ?_⟩
    · rw [List.zipIdx_cons, List.mapM_cons, hencrypted, encryptAccount, hencrypt]
      rfl
    · rw [List.zipIdx_cons, List.mapM_cons, hdecrypted, decryptAccount, hdecrypt]
      rfl

theorem effectiveCombatHitDuration_of_within {config : Config}
    (h : config.combatHitDurationSeconds.within minCombatHitDurationSeconds maxCombatHitDurationSeconds = true) :
    config.effectiveCombatHitDurationSeconds = config.combatHitDurationSeconds := by
  unfold Config.effectiveCombatHitDurationSeconds
  cases hvalue : config.combatHitDurationSeconds with
  | finite value =>
    rw [hvalue] at h
    simp only [F32.within, Bool.and_eq_true, decide_eq_true_eq] at h
    dsimp only
    rw [clamp_of_mem h.1 h.2]
  | infinite negative => rw [hvalue] at h; cases h
  | nan => rw [hvalue] at h; cases h

theorem effectivePipLabelFontFamily_of_fits {config : Config} {family : Str} (hfamily : config.pipLabelFontFamily = some family)
    (htrim : family.trim = family)
    (h : (!family.isEmpty && utf16Count family ≤ maxPipLabelFontFamilyLen && !family.any isControl) = true) :
    config.effectivePipLabelFontFamily = family := by
  rw [Config.effectivePipLabelFontFamily, hfamily, Option.map_some, htrim, Option.filter_some, if_pos h]
  rfl

theorem normalizedSwapHotkeys_of_length {configured : List Str} (h : configured.length = 6) :
    normalizedSwapHotkeys configured = configured := by
  rw [normalizedSwapHotkeys, List.take_of_length_le h.le, h, List.drop_of_length_le (by simp), List.append_nil]

/-- A draft that passes the checks is saved, is read back as it was but for what saving normalizes, and what it does not carry
stays; the integration is open to others only with a token. -/
theorem settings_round_trip (services : Services)
    (hcrypt : ∀ password, ∃ cipher, services.encrypt password = .ok cipher ∧ services.decrypt cipher = .ok password)
    (uuids : Nat × Nat) (existing : Config) (draft : SettingsDraft) (hvalid : draft.validate services = .ok ())
    (hserver : ∀ server, readServerFromIni (services.files draft.general.eqDirectory) = some server → server = []) :
    ∃ config outcome, draft.intoConfig services uuids existing = .ok (config, outcome) ∧
      SettingsDraft.fromConfig services config = .ok draft.normalized ∧ KeepsRest existing config ∧
        Guarded config.trushar := by
  have haccepted := accepted_of_validate hvalid
  obtain ⟨encrypted, hencrypted, hdecrypted⟩ := accounts_round_trip hcrypt
    (draft.accounts.accounts.filter fun account => !account.username.trim.isEmpty) 0 0
  have hno : (readServerFromIni (services.files draft.general.eqDirectory)).filter (fun server => !server.isEmpty) = none := by
    refine Option.filter_eq_none_iff.mpr fun server hsome => ?_
    rw [hserver server hsome]
    decide
  have hsaved : ∃ config outcome, draft.intoConfig services uuids existing = .ok (config, outcome) := by
    simp only [SettingsDraft.intoConfig, hvalid, hencrypted]
    exact ⟨_, _, rfl⟩
  obtain ⟨config, outcome, hconfig⟩ := hsaved
  refine ⟨config, outcome, hconfig, ?_⟩
  simp only [SettingsDraft.intoConfig, hvalid, hencrypted] at hconfig
  obtain ⟨hconfig, -⟩ := Prod.mk.inj (Except.ok.inj hconfig)
  subst hconfig
  refine ⟨?_, ⟨rfl, rfl, rfl, rfl, rfl, rfl, rfl, rfl, integrationPort_integrationConfig ..⟩, guarded_integrationConfig ..⟩
  rw [SettingsDraft.fromConfig]
  dsimp only
  rw [hno, hdecrypted]
  refine congrArg Except.ok ?_
  have hmode : ∀ mode : BroadcastFilterMode, (if Str.eqIgnoreAsciiCase (match mode with
      | .blacklist => "blacklist".toList
      | .whitelist => "whitelist".toList) "whitelist".toList then BroadcastFilterMode.whitelist else .blacklist) = mode := by
    intro mode
    cases mode <;> decide
  rw [effectivePipLabelFontFamily_of_fits rfl (Str.trim_trim _) haccepted.fontFamily,
    effectiveCombatHitDuration_of_within haccepted.combatHitDuration, normalizedSwapHotkeys_of_length haccepted.swapHotkeys,
    hmode, normalizedId_normalizedId, trusharLanEnabled_integrationConfig, enabled_integrationConfig]
  simp only [Config.effectivePipOpacity, Config.effectivePipLabelFontScale, Config.effectivePipLabelFontWeight,
    Config.effectiveAaPointsPerNotification, Config.effectiveDpsOverlayTopRows, Option.getD_some, Option.getD_none,
    clamp_of_mem haccepted.thumbnailOpacity.1 haccepted.thumbnailOpacity.2,
    clamp_of_mem haccepted.fontScale.1 haccepted.fontScale.2, clamp_of_mem haccepted.aaPoints.1 haccepted.aaPoints.2,
    if_pos haccepted.topRows]
  rw [List.map_id']
  rfl

/-- An encryption that marks a password, and an alphabet of ASCII. -/
def sampleServices : Services where
  toUppercase s := s.map Char.toUpper
  encrypt password := .ok ('=' :: password)
  decrypt
    | '=' :: password => .ok password
    | _ => .error "base64 decode failed: Invalid padding".toList
  files _ := []

/-- A draft with one cycle, a font with spaces around it and an account without a user name. -/
def sampleDraft : SettingsDraft where
  general := ⟨"C:\\EverQuest".toList, true, ⟨true, true⟩, ⟨true, 64, .finite 2⟩, ⟨true, 7⟩⟩
  accounts := ⟨"Zek".toList, [⟨"bob".toList, "secret".toList⟩, ⟨" ".toList, []⟩]⟩
  boxOrder := [⟨"Zek ".toList, "Bob".toList⟩]
  pip := ⟨.right, true, 80, 48, 80, "  Tahoma ".toList, 100, .bold, true, "F9".toList⟩
  dpsOverlay := ⟨true, 10⟩
  notifications := ⟨true, true, "TELL2.WAV".toList, true, true, true, true, true, true, true, true, 1, true, .finite 3⟩
  hotkeys := ⟨(List.range 6).map fun i => "Ctrl+F".toList ++ Nat.toDigits 10 (i + 1),
    [⟨"healers ".toList, " F10".toList, [], [⟨"Zek".toList, "Bob".toList⟩, ⟨"Zek".toList, "Ann".toList⟩]⟩]⟩
  broadcasting := ⟨"Pause".toList, true, "F13".toList, .whitelist, ["Enter".toList]⟩

theorem sampleDraft_round_trip : ∃ config outcome,
    sampleDraft.intoConfig sampleServices (1, 2) {} = .ok (config, outcome) ∧
      SettingsDraft.fromConfig sampleServices config = .ok sampleDraft.normalized ∧ KeepsRest {} config ∧
        Guarded config.trushar :=
  settings_round_trip sampleServices (fun password => ⟨'=' :: password, rfl, rfl⟩) (1, 2) {} sampleDraft (by decide +kernel)
    (fun _ => by nofun)

end Stonemite.Settings
