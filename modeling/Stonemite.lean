import Stonemite.Casting.Catalog
import Stonemite.Casting.Center
import Stonemite.Casting.Kept
import Stonemite.Casting.Resolve
import Stonemite.Combat.AccountInv
import Stonemite.Combat.ActiveTime
import Stonemite.Combat.BoundsInv
import Stonemite.Combat.Deadlines
import Stonemite.Combat.EndingInv
import Stonemite.Combat.Exact
import Stonemite.Combat.HeldInv
import Stonemite.Combat.IdleInv
import Stonemite.Combat.LedgerInv
import Stonemite.Combat.OnceInv
import Stonemite.Combat.OrderFree
import Stonemite.Combat.ReplayInv
import Stonemite.Combat.RoutingInv
import Stonemite.Control.Consider
import Stonemite.Control.Delivery
import Stonemite.Control.EngineCalls
import Stonemite.Control.Inputs
import Stonemite.Control.InputsCommands
import Stonemite.Control.InputsInv
import Stonemite.Control.InputsRun
import Stonemite.Control.InputsStart
import Stonemite.Control.InputsTick
import Stonemite.Control.KeyCodes
import Stonemite.Control.Keymap
import Stonemite.Control.Mapped
import Stonemite.Control.Paging
import Stonemite.Control.Progress
import Stonemite.Control.Strokes
import Stonemite.Control.XTarget
import Stonemite.Desktop.Triggers
import Stonemite.Eqlog.DirectSpell
import Stonemite.Eqlog.Melee
import Stonemite.Eqlog.Names
import Stonemite.Eqlog.PeriodicSpell
import Stonemite.Eqlog.Trimmed
import Stonemite.Eqlog.Words
import Stonemite.Lib.Bridged
import Stonemite.Lib.Forest
import Stonemite.Lib.Levels
import Stonemite.Lib.Roster
import Stonemite.Lib.Since
import Stonemite.Lib.SocketAddr
import Stonemite.Lib.TextLines
import Stonemite.Overlay.Cycles
import Stonemite.Overlay.Layout
import Stonemite.Overlay.Notifications
import Stonemite.Overlay.Numbers
import Stonemite.Overlay.Stranded
import Stonemite.Settings.Config
import Stonemite.Settings.ConfigFile
import Stonemite.Settings.Draft
import Stonemite.Settings.Hotkeys
import Stonemite.Settings.Ini
import Stonemite.Settings.Toml
import Stonemite.Streamdeck.Clutch
import Stonemite.Streamdeck.Dial
import Stonemite.Streamdeck.Liveness
import Stonemite.Streamdeck.Settlement
import Stonemite.Tailer.History
import Stonemite.Tailer.Reassociation
import Stonemite.Tailer.Signature
import Stonemite.Tailer.Start
import Stonemite.Tailer.Worker
import Stonemite.Trigger.Committed
import Stonemite.Trigger.ConditionGrammar
import Stonemite.Trigger.ConditionParser
import Stonemite.Trigger.Constraints
import Stonemite.Trigger.Context
import Stonemite.Trigger.Counters
import Stonemite.Trigger.Durations
import Stonemite.Trigger.ExportTree
import Stonemite.Trigger.Installed
import Stonemite.Trigger.Kinds
import Stonemite.Trigger.Lifecycle
import Stonemite.Trigger.LiteralText
import Stonemite.Trigger.Repeats
import Stonemite.Trigger.RoundTrip
import Stonemite.Trigger.Salvage
import Stonemite.Trigger.Shared
import Stonemite.Trigger.SinglePass
import Stonemite.Trigger.Snapshot
import Stonemite.Trigger.Stages
import Stonemite.Trigger.Timers
import Stonemite.Trigger.Tokens
import Stonemite.Trigger.Unfiltered
import Stonemite.Trushar.Commands
import Stonemite.Trushar.Connections
import Stonemite.Trushar.Hub
import Stonemite.Trushar.Mapper
import Stonemite.Trushar.Pairing
import Stonemite.Trushar.Requests
import Stonemite.Trushar.Sessions
import Stonemite.Trushar.Upgrades
import Stonemite.Trusik.Broadcasting
import Stonemite.Trusik.ClutchOwners
import Stonemite.Trusik.ClutchSessions
import Stonemite.Trusik.Controller
import Stonemite.Trusik.Heartbeat
import Stonemite.Trusik.KeyboardInv
import Stonemite.Trusik.Lease
import Stonemite.Trusik.OwnerLevels
import Stonemite.Trusik.Sequences
import Stonemite.Trusik.StuckKeys
import Stonemite.Trusik.Untouched
