import Stonemite.Combat.Elect

/-!
# What a projection shows

`computeSnapshot` inverted: the elections behind a snapshot and the fields it takes from the encounter.
-/

open Std

namespace Stonemite.Combat

namespace CombatEngine

/-- The elections, totals and rows behind a projection. -/
structure Projected (e : CombatEngine) (a : EncounterState) (revision : UInt64) (s : EncounterSnapshot) : Prop where
  id : s.id = a.id
  revision : s.revision = revision
  phase : s.phase = a.phase.shown
  seconds : s.encounterSeconds = inclusiveSeconds a.startEq a.endEq
  elected : ∃ elections rows, e.elect a = some elections ∧
    (elections.toList.map (·.2)).foldlM (fun total election => checkedAdd 128 total election.winner.damage) 0 =
      some s.raidDamage ∧
    s.raidDamage ≠ 0 ∧
    ((elections.toList.map (·.2)).filter (0 < ·.winner.damage)).mapM
      (e.electionRow a s.encounterSeconds s.raidDamage) = some rows ∧
    s.rows = rankRows rows

theorem computeSnapshot_spec {e : CombatEngine} {a : EncounterState} {revision : UInt64} {s : EncounterSnapshot}
    (h : e.computeSnapshot a revision = some s) : e.Projected a revision s := by
  unfold computeSnapshot at h
  obtain ⟨elections, he, h⟩ := Option.bind_eq_some_iff.mp h
  dsimp only at h
  split_ifs at h
  obtain ⟨raid, hraid, h⟩ := Option.bind_eq_some_iff.mp h
  split_ifs at h with hz
  unfold snapshotOf at h
  simp only [Option.bind_eq_bind, Option.bind_eq_some_iff] at h
  obtain ⟨totals, -, primary, -, rows, hrows, h⟩ := h
  obtain rfl := Option.some.inj h
  exact ⟨rfl, rfl, rfl, rfl, elections, rows, he, hraid, hz, hrows, rfl⟩

end CombatEngine
end Stonemite.Combat
