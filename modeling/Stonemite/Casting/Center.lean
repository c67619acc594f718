import Stonemite.Casting.Catalog

/-!
# Active casts

The cast that each client shows: it starts with the spell that its name resolves to, and ends with an outcome, with a
client that is gone or of another class, or unconfirmed after its time. Times are numbers of nanoseconds.
-/

open Std

namespace Stonemite.Casting

/-- The floating point parts of the estimates and of the progress that is shown. -/
structure Floats where
  F64 : Type
  F32 : Type
  one : F32
  ofMillis : Nat → F64
  /-- The duration of an estimate in milliseconds, of at least a microsecond. -/
  toDuration : F64 → Nat
  /-- The estimate after a sample of this duration. -/
  blend : Nat → F64 → F64
  /-- The share of a visual duration that has elapsed. -/
  ratio : Nat → Nat → F32

/-- What an estimate is kept for. -/
structure EstimateKey where
  server : Str
  character : Str
  code : Str
  spellId : Nat
deriving DecidableEq, Repr

/-- The key with its texts normalized. -/
def EstimateKey.new (server character code : Str) (spellId : Nat) : EstimateKey :=
  ⟨normalize server, normalize character, normalize code, spellId⟩

/-- What an estimate of the earlier version was kept for. -/
structure LegacyEstimateKey where
  server : Str
  character : Str
  code : Str
  spell : Str
deriving DecidableEq, Repr

/-- The key with its texts normalized. -/
def LegacyEstimateKey.new (server character code spell : Str) : LegacyEstimateKey :=
  ⟨normalize server, normalize character, normalize code, normalize spell⟩

structure Estimate (F : Floats) where
  millis : F.F64
  baseMillis : Nat

inductive CastingOutcome
  | completed
  | fizzled
  | resisted
  | interrupted
deriving DecidableEq, Repr

structure ActiveCast where
  spell : SpellDefinition
  code : Option Str
  estimateKey : Option EstimateKey
  startedAt : Nat
  estimatedDuration : Nat
deriving DecidableEq, Repr

/-- A cast that has ended and is still shown. -/
structure TerminalCast (F : Floats) where
  spellName : Str
  outcome : CastingOutcome
  observedAt : Nat
  startProgress : F.F32

inductive CastEntry (F : Floats)
  | active (cast : ActiveCast)
  | terminal (cast : TerminalCast F)

/-- A loaded client, with its class. -/
structure Client where
  pid : Nat
  code : Option Str
deriving DecidableEq, Repr

def visualLead : Nat := fromMillis 250

def unconfirmedGrace : Nat := fromMillis 750

def maxSample : Nat := fromMillis 120000

/-- How long an outcome is shown. -/
def CastingOutcome.linger : CastingOutcome → Nat
  | .completed => fromMillis 420
  | .fizzled => fromMillis 760
  | .resisted => fromMillis 660
  | .interrupted => fromMillis 560

def durationMillis (duration : Nat) : Nat := min (duration / 1000000) (2 ^ 64 - 1)

/-- The casts of the clients, with the catalog and the estimates. -/
structure CastingCenter (F : Floats) where
  catalog : SpellCatalog
  estimates : EstimateKey → Option (Estimate F)
  legacyEstimates : LegacyEstimateKey → Option (Estimate F)
  entries : ExtTreeMap Nat (CastEntry F)
  animationsEnabled : Bool
  dirty : Bool

variable {F : Floats}

def activeProgress (cast : ActiveCast) (now : Nat) : F.F32 :=
  F.ratio (now - cast.startedAt) (cast.estimatedDuration - visualLead)

def CastEntry.visible (entry : CastEntry F) (now : Nat) : Bool :=
  match entry with
  | .active cast => now - cast.startedAt < cast.estimatedDuration + unconfirmedGrace
  | .terminal cast => now - cast.observedAt < cast.outcome.linger

namespace CastingCenter

variable (center : CastingCenter F)

/-- Another catalog if the directory has changed; the casts are cleared in any case. -/
def applyConfig (catalog : Option SpellCatalog) (animationsEnabled : Bool) : CastingCenter F :=
  { center with catalog := catalog.getD center.catalog, animationsEnabled := animationsEnabled, entries := ∅ }

def remove (pid : Nat) : CastingCenter F := { center with entries := center.entries.erase pid }

/-- A cast stays with a loaded client, an active one only if the client has its class. -/
def keepsEntry (windows : List Client) (pid : Nat) (entry : CastEntry F) : Bool :=
  match windows.find? fun window => window.pid = pid with
  | none => false
  | some window =>
    match entry with
    | .active cast => cast.code = window.code
    | .terminal _ => true

/-- The casts stay whose clients are still there with the class they had. -/
def reconcileClients (windows : List Client) : CastingCenter F :=
  { center with entries := center.entries.filter (keepsEntry windows) }

/-- An estimate under the name of the spell moves to its id. -/
def migrate (server character : Str) (key : Option EstimateKey) (code : Option Str) (spell : SpellDefinition) :
    CastingCenter F :=
  match key, code with
  | some key, some code =>
    if (center.estimates key).isSome then center
    else
      let legacyKey := LegacyEstimateKey.new server character code spell.name
      match center.legacyEstimates legacyKey with
      | some estimate =>
        { center with
          legacyEstimates := Function.update center.legacyEstimates legacyKey none
          estimates := Function.update center.estimates key (some estimate)
          dirty := true }
      | none => center
  | _, _ => center

/-- A bard sings for three seconds. -/
def baseDuration (bard : Bool) (spell : SpellDefinition) : Nat :=
  if bard && spell.baseCastTime ≠ 0 then fromMillis 3000 else spell.baseCastTime

def start (pid : Nat) (server character : Str) (code : Option Str) (spellName : Str) (observedAt : Nat) :
    CastingCenter F × Bool :=
  match center.catalog.resolve spellName code with
  | none => ({ center with entries := center.entries.erase pid }, false)
  | some spell =>
    let effectiveCode := spell.uniqueClass.or code
    let bard := effectiveCode.any fun code => code.eqIgnoreAsciiCase "BRD".toList
    let base := baseDuration bard spell
    if base = 0 then
      ({ center with entries := center.entries.insert pid (.terminal ⟨spell.name, .completed, observedAt, F.one⟩) }, true)
    else
      let key := if bard then none else effectiveCode.map fun code => EstimateKey.new server character code spell.id
      let center := center.migrate server character key effectiveCode spell
      let estimate := (key.bind center.estimates).filter fun estimate => estimate.baseMillis = durationMillis base
      let estimatedDuration := (estimate.map fun estimate => F.toDuration estimate.millis).getD base
      ({ center with
        entries := center.entries.insert pid (.active ⟨spell, effectiveCode, key, observedAt, estimatedDuration⟩) }, true)

/-- The estimate of a cast that took a sensible time. -/
def trainEstimate (cast : ActiveCast) (train : Bool) (elapsed : Nat) : CastingCenter F :=
  match cast.estimateKey with
  | some key =>
    if train && elapsed ≠ 0 && elapsed ≤ maxSample then
      let baseMillis := durationMillis cast.spell.baseCastTime
      let previous := (center.estimates key).filter fun estimate => estimate.baseMillis = baseMillis
      let millis := F.blend elapsed ((previous.map fun estimate => estimate.millis).getD (F.ofMillis baseMillis))
      { center with estimates := Function.update center.estimates key (some ⟨millis, baseMillis⟩), dirty := true }
    else center
  | none => center

def terminal (pid : Nat) (observedSpell : Option Str) (outcome : CastingOutcome) (observedAt : Nat) (train : Bool) :
    CastingCenter F × Bool :=
  match center.entries[pid]? with
  | some (.active cast) =>
    if observedSpell.any fun spell => !spell.eqIgnoreAsciiCase cast.spell.name then (center, false)
    else
      let trained := center.trainEstimate cast train (observedAt - cast.startedAt)
      ({ trained with
        entries := trained.entries.insert pid
          (.terminal ⟨cast.spell.name, outcome, observedAt, activeProgress cast observedAt⟩) }, true)
  | _ => (center, false)

/-- The entries whose time is up go. -/
def prune (now : Nat) : CastingCenter F :=
  { center with entries := center.entries.filter fun _ entry => entry.visible now }

end CastingCenter

/-! ### Runs -/

/-- The casts with the loaded clients, and the class that each client had when its last cast started. -/
structure Casts (F : Floats) where
  center : CastingCenter F
  windows : List Client
  startedCode : Nat → Option Str

inductive CastEvent
  /-- The loaded clients or their classes change. -/
  | roster (windows : List Client)
  | started (pid : Nat) (server character spell : Str) (observedAt : Nat)
  | ended (pid : Nat) (spell : Option Str) (outcome : CastingOutcome) (observedAt : Nat) (train : Bool)
  | removed (pid : Nat)
  | reconciled
  | pruned (now : Nat)
  | configured (catalog : Option SpellCatalog) (animationsEnabled : Bool)

/-- The class of a loaded client. -/
def clientCode (windows : List Client) (pid : Nat) : Option Str :=
  (windows.find? fun window => window.pid = pid).bind (·.code)

/-- A cast is started for a loaded client only, with the class that it has. -/
def Casts.step (casts : Casts F) : CastEvent → Casts F
  | .roster windows => { casts with windows := windows }
  | .started pid server character spell observedAt =>
    if casts.windows.any fun window => window.pid = pid then
      { casts with
        center := (casts.center.start pid server character (clientCode casts.windows pid) spell observedAt).1
        startedCode := Function.update casts.startedCode pid (clientCode casts.windows pid) }
    else casts
  | .ended pid spell outcome observedAt train =>
    { casts with center := (casts.center.terminal pid spell outcome observedAt train).1 }
  | .removed pid => { casts with center := casts.center.remove pid }
  | .reconciled => { casts with center := casts.center.reconcileClients casts.windows }
  | .pruned now => { casts with center := casts.center.prune now }
  | .configured catalog animationsEnabled =>
    { casts with center := casts.center.applyConfig catalog animationsEnabled }

end Stonemite.Casting
