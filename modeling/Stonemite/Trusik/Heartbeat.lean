import Stonemite.Trusik.Protocol

/-!
# Heartbeats on the word clock

A heartbeat is the time of its refresh cut to a word, and the word zero stands for no owner: a refresh at an instant that
is zero as a word is stored as one. The age that the reader sees is the true one but for those refreshes
(`heartbeat_exact_iff`). `Misread` is the condition on the two instants, and `freshness_exact_iff` the equivalence.
-/

namespace Stonemite.Trusik

/-- The word of the shared key state that holds the controller's heartbeat. -/
structure ControllerHeartbeat where
  controllerHeartbeatMs : UInt32

namespace ControllerHeartbeat

/-- The heartbeat of now; zero means that there was none, so it is never written. -/
def refreshControllerHeartbeat (_ : ControllerHeartbeat) (nowMs : UInt32) : ControllerHeartbeat := ⟨max nowMs 1⟩

/-- The controller has written its heartbeat within the time-out. -/
def controllerIsFresh (m : ControllerHeartbeat) (nowMs : UInt32) : Bool := heartbeatIsFresh m.controllerHeartbeatMs nowMs

end ControllerHeartbeat

/-- An instant of the unbounded millisecond clock as the owners and the reader are given it. -/
def clockWord (ms : Nat) : UInt32 := .ofNat ms

@[simp] theorem toNat_clockWord (ms : Nat) : (clockWord ms).toNat = ms % 2 ^ 32 := by
  simp [clockWord]

theorem toNat_max_one (w : UInt32) : (max w 1).toNat = max w.toNat 1 := by
  have h1 : (1 : UInt32).toNat = 1 := rfl
  show (if w ≤ 1 then 1 else w).toNat = max w.toNat 1
  split_ifs with hle <;> rw [UInt32.le_iff_toNat_le, h1] at hle <;> omega

variable {r q : Nat}

/-- A refresh at the instant zero of the word clock is seen one millisecond late. -/
theorem heartbeatIsFresh_iff (hrq : r ≤ q) (hround : q - r < 2 ^ 31) :
    heartbeatIsFresh (max (clockWord r) 1) (clockWord q) = true ↔
      if r % 2 ^ 32 = 0 then r < q ∧ q - r ≤ heartbeatTimeoutMs.toNat + 1 else q - r ≤ heartbeatTimeoutMs.toNat := by
  have htimeout : heartbeatTimeoutMs.toNat = 500 := rfl
  have hstored : (max (clockWord r) 1).toNat = max (r % 2 ^ 32) 1 := by
    rw [toNat_max_one, toNat_clockWord]
  have hne : max (clockWord r) 1 ≠ 0 := by
    intro h
    rw [h] at hstored
    have hzero : (0 : UInt32).toNat = 0 := rfl
    omega
  unfold heartbeatIsFresh
  rw [Bool.and_eq_true, decide_eq_true_eq, bne_iff_ne, UInt32.le_iff_toNat_le, UInt32.toNat_sub, hstored,
    toNat_clockWord, htimeout]
  rw [and_iff_right hne]
  split_ifs with hz
  · rw [hz]
    omega
  · omega

/-- The reader errs on a refresh at a zero of the word clock: at the very instant of the refresh, and in
the first millisecond after the time-out. -/
def Misread (r q : Nat) : Prop := r % 2 ^ 32 = 0 ∧ (q = r ∨ q - r = heartbeatTimeoutMs.toNat + 1)

theorem heartbeat_exact_iff (hrq : r ≤ q) (hround : q - r < 2 ^ 31) :
    (heartbeatIsFresh (max (clockWord r) 1) (clockWord q) = true ↔ q - r ≤ heartbeatTimeoutMs.toNat) ↔ ¬ Misread r q := by
  have htimeout : heartbeatTimeoutMs.toNat = 500 := rfl
  rw [heartbeatIsFresh_iff hrq hround, htimeout]
  unfold Misread
  rw [htimeout]
  split_ifs with hz
  · constructor
    · rintro h ⟨-, rfl | hlate⟩ <;> omega
    · intro h
      have hnow : q ≠ r := fun he => h ⟨hz, .inl he⟩
      have hlate : q - r ≠ 500 + 1 := fun he => h ⟨hz, .inr he⟩
      omega
  · exact iff_of_true Iff.rfl fun h => hz h.1

/-- Whether the controller's heartbeat and an auto-type lease refreshed at `r` are exact at `q`. -/
def FreshnessExact (r q : Nat) : Prop :=
  (∀ m : ControllerHeartbeat, (m.refreshControllerHeartbeat (clockWord r)).controllerIsFresh (clockWord q) = true ↔
    q - r ≤ heartbeatTimeoutMs.toNat) ∧
  ∀ (m : SharedKeyState) (generation : UInt32), generation ≠ 0 → m.autoTypeLease = encodeLease generation (clockWord r) →
    (m.activeAutoTypeGeneration (clockWord q) = some generation ↔ q - r ≤ heartbeatTimeoutMs.toNat)

theorem SharedKeyState.active_of_lease {m : SharedKeyState} {generation nowMs : UInt32} (hg : generation ≠ 0) {w : UInt32}
    (hlease : m.autoTypeLease = encodeLease generation w) :
    m.activeAutoTypeGeneration nowMs = some generation ↔ heartbeatIsFresh (max w 1) nowMs = true := by
  unfold activeAutoTypeGeneration
  rw [hlease, leaseGeneration_encodeLease, leaseHeartbeat_encodeLease]
  simp [hg]

/-- Both owners count as fresh exactly up to the time-out, unless the refresh is misread. -/
theorem freshness_exact_iff (hrq : r ≤ q) (hround : q - r < 2 ^ 31) : FreshnessExact r q ↔ ¬ Misread r q := by
  rw [← heartbeat_exact_iff hrq hround]
  constructor
  · intro h
    exact h.1 ⟨0⟩
  · intro h
    exact ⟨fun m => h, fun m generation hg hlease => (SharedKeyState.active_of_lease hg hlease).trans h⟩

/-- An interval across the wrap of the word clock. -/
theorem freshness_exact_wrap : FreshnessExact (2 ^ 32 - 20) (2 ^ 32 + 10) :=
  (freshness_exact_iff (by norm_num) (by norm_num)).mpr fun h => absurd h.1 (by decide)

/-- At the instant zero of the word clock the owner that has just refreshed counts as stale. -/
theorem refresh_at_zero_stale : ¬ ∀ r q, r ≤ q → q - r < 2 ^ 31 → FreshnessExact r q := by
  intro h
  have hzero := (h (2 ^ 32) (2 ^ 32) le_rfl (by norm_num)).1 ⟨0⟩
  exact absurd (hzero.mpr (by decide)) (by decide)

end Stonemite.Trusik
