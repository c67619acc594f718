import Stonemite.Trusik.LeaseInv

/-!
# Auto-type lease safety

Until the generations are exhausted a stale operation changes nothing of the current owner, and nothing
is effective after the owner has retired or while its lease is not fresh (`auto_type_lease_safe`). The invariant is
`LeaseOk`: a generation that is not published yet appears nowhere, so an exchange that was checked under an older lease finds
no key of a later one (`LeaseOk.staleHarmless`). A retired lease stays retired until an owner takes it (`retired_run`). The
32-bit clock shows an expired lease as fresh again when it comes round (`auto_type_lease_recurs`).
-/

namespace Stonemite.Trusik

namespace System

variable {ι : Type} [DecidableEq ι] {s : System ι}

theorem LeaseOk.staleHarmless (h : LeaseOk s) : s.StaleHarmless := by
  intro i spurious g hg hne
  simp only [next]
  cases hi : s.owner i with
  | setLoad => exact ⟨rfl, fun _ _ => rfl⟩
  | setCheck =>
    simp only [Owner.step]
    split <;> exact ⟨rfl, fun _ _ => rfl⟩
  | setExchange g' scan value current =>
    obtain rfl : g' = g := by simpa [hi, Owner.carries] using hg
    simp only [Owner.step]
    split
    · rename_i key hce
      obtain ⟨⟨hcurrent, -⟩, rfl⟩ := compareExchangeWeak_eq_some.mp hce
      refine ⟨rfl, fun scan' now => ?_⟩
      by_cases hs : scan' = scan
      · subst hs
        -- neither the word found nor the word written is of the present lease
        rcases h.exchange i g' scan' value current hi with hgen | hgen | hgen
        · exact (hne hgen.symm).elim
        · have hwritten := SharedKeyState.not_pressed_of_retired (m := { s.memory with
            autoTypeKeys := Function.update s.memory.autoTypeKeys scan' (encodeAutoKey g' (value != 0)) }) hgen
          exact (hwritten scan' now).trans (SharedKeyState.not_pressed_of_retired hgen scan' now).symm
        · have hfound : autoKeyIsPressed (s.memory.autoTypeKeys scan') s.generation = false :=
            autoKeyIsPressed_of_ne (by rwa [hcurrent])
          have hwritten : autoKeyIsPressed (encodeAutoKey g' (value != 0)) s.generation = false :=
            autoKeyIsPressed_of_ne (by simpa using hne)
          simp only [generation] at hfound hwritten
          simp [SharedKeyState.autoTypeKeyIsPressed, hfound, hwritten]
      · simp [SharedKeyState.autoTypeKeyIsPressed, Function.update_of_ne hs]
    · exact ⟨rfl, fun _ _ => rfl⟩
  | setConfirm => exact ⟨rfl, fun _ _ => rfl⟩
  | refreshLoad => exact ⟨rfl, fun _ _ => rfl⟩
  | refreshLoop g' now lease =>
    obtain rfl : g' = g := by simpa [hi, Owner.carries] using hg
    simp only [Owner.step]
    split
    · exact ⟨rfl, fun _ _ => rfl⟩
    · rename_i hl
      push Not at hl
      split
      · rename_i hce
        obtain ⟨⟨hcurrent, -⟩, -⟩ := compareExchangeWeak_eq_some.mp hce
        exact (hne (by rw [← hl, ← hcurrent]; rfl)).elim
      · exact ⟨rfl, fun _ _ => rfl⟩
  | retireLoad => exact ⟨rfl, fun _ _ => rfl⟩
  | retireLoop g' lease =>
    obtain rfl : g' = g := by simpa [hi, Owner.carries] using hg
    simp only [Owner.step]
    split
    · exact ⟨rfl, fun _ _ => rfl⟩
    · rename_i hl
      push Not at hl
      split
      · rename_i hce
        obtain ⟨⟨hcurrent, -⟩, -⟩ := compareExchangeWeak_eq_some.mp hce
        exact (hne (by rw [← hl, ← hcurrent]; rfl)).elim
      · exact ⟨rfl, fun _ _ => rfl⟩
  | idle | returned | panicked | beginFetch | beginLoad | beginLoop =>
    rw [hi] at hg
    cases hg

/-- A step that does not take the lease leaves it to its generation, or retires it. -/
theorem generation_next {a : Act ι} (ha : ¬ s.TakesLease a) :
    (s.next a).generation = s.generation ∨ (s.next a).generation = 0 := by
  cases a with
  | call i c =>
    simp only [next]
    split <;> exact .inl rfl
  | step i spurious =>
    simp only [next]
    cases hi : s.owner i with
    | beginLoop g now current =>
      simp only [Owner.step]
      split
      · exact .inl rfl
      · rename_i hlt
        split
        · rename_i hce
          obtain ⟨⟨hcurrent, hs⟩, -⟩ := compareExchangeWeak_eq_some.mp hce
          exact (ha ⟨g, now, current, hi, UInt32.not_le.mp hlt, hcurrent, hs⟩).elim
        · exact .inl rfl
    | setCheck =>
      simp only [Owner.step]
      split <;> exact .inl rfl
    | setExchange =>
      simp only [Owner.step]
      split <;> exact .inl rfl
    | refreshLoop g now lease =>
      simp only [Owner.step]
      split
      · exact .inl rfl
      · rename_i hl
        push Not at hl
        split
        · rename_i hce
          obtain ⟨⟨hcurrent, -⟩, rfl⟩ := compareExchangeWeak_eq_some.mp hce
          refine .inl ?_
          simp only [generation, leaseGeneration_encodeLease]
          rw [← hl, ← hcurrent]
        · exact .inl rfl
    | retireLoop g lease =>
      simp only [Owner.step]
      split
      · exact .inl rfl
      · split
        · rename_i hce
          obtain ⟨-, rfl⟩ := compareExchangeWeak_eq_some.mp hce
          exact .inr leaseGeneration_zero
        · exact .inl rfl
    | idle | returned | panicked | beginFetch | beginLoad | setLoad | setConfirm | refreshLoad | retireLoad =>
      exact .inl rfl

theorem retired_run {acts : List (Act ι)} (h : s.generation = 0)
    (hacts : Along (fun s a => ¬ s.TakesLease a) next s acts) : (s.run acts).generation = 0 := by
  refine Along.invariant (I := fun s => s.generation = 0) ?_ hacts h
  intro s a hs ha
  rcases generation_next ha with hn | hn
  · exact hn.trans hs
  · exact hn

theorem generation_of_retires {a : Act ι} (ha : s.RetiresLease a) : (s.next a).generation = 0 := by
  cases a with
  | call i c => exact ha.elim
  | step i spurious =>
    obtain ⟨lease, hi, rfl, rfl⟩ := ha
    have hg : leaseGeneration s.memory.autoTypeLease = s.generation := rfl
    simp only [next, hi, Owner.step, hg, ne_eq, not_true_eq_false, if_false, compareExchangeWeak, and_self, if_true]
    exact leaseGeneration_zero

theorem generation_of_takes {a : Act ι} (ha : s.TakesLease a) : s.generation < (s.next a).generation := by
  cases a with
  | call i c => exact ha.elim
  | step i spurious =>
    obtain ⟨g, now, current, hi, hlt, rfl, rfl⟩ := ha
    have hge : ¬ leaseGeneration s.memory.autoTypeLease ≥ g := UInt32.not_le.mpr hlt
    simp only [next, hi, Owner.step, hge, if_false, compareExchangeWeak, and_self, if_true, generation,
      leaseGeneration_encodeLease]
    exact hlt

omit [DecidableEq ι] in
/-- Within one round of the clock an expired lease reads as expired. -/
theorem not_fresh_of_expired {stamp now : Nat} (h : s.Expired stamp now) (hround : now < stamp + 2 ^ 32) :
    heartbeatIsFresh (leaseHeartbeat s.memory.autoTypeLease) (.ofNat now) = false := by
  obtain ⟨hstamp, hlate⟩ := h
  have htimeout : heartbeatTimeoutMs.toNat = 500 := rfl
  have hage : (UInt32.ofNat now - UInt32.ofNat stamp).toNat = now - stamp := by
    have hnow : (UInt32.ofNat now).toNat = now % 2 ^ 32 := by simp
    have hthen : (UInt32.ofNat stamp).toNat = stamp % 2 ^ 32 := by simp
    rw [UInt32.toNat_sub, hnow, hthen]
    omega
  have hold : ¬ UInt32.ofNat now - UInt32.ofNat stamp ≤ heartbeatTimeoutMs := by
    rw [UInt32.le_iff_toNat_le, hage]
    omega
  rw [hstamp]
  simp [heartbeatIsFresh, hold]

/-- In every run that has not exhausted the generations, a stale operation changes neither the lease nor
an effective key, only a newer owner replaces the lease of another, and no key is effective after the
owner has retired, nor at any time within a round of the clock after its lease expired. -/
theorem auto_type_lease_safe (acts : List (Act ι)) (h : (init.run acts : System ι).Unexhausted) :
    (init.run acts : System ι).StaleHarmless ∧
    (∀ a, (init.run acts).TakesLease a → (init.run acts).generation < ((init.run acts).next a).generation) ∧
    (∀ a post, (init.run acts).RetiresLease a →
      Along (fun s a => ¬ s.TakesLease a) next ((init.run acts).next a) post →
      ∀ scan now, ((((init.run acts).next a).run post).memory).autoTypeKeyIsPressed scan now = false) ∧
    (∀ stamp now, (init.run acts).Expired stamp now → now < stamp + 2 ^ 32 →
      ∀ scan, (init.run acts).memory.autoTypeKeyIsPressed scan (.ofNat now) = false) := by
  refine ⟨(run_leaseOk acts h).staleHarmless, fun a ha => generation_of_takes ha, ?_, ?_⟩
  · intro a post ha hpost scan now
    exact SharedKeyState.not_pressed_of_retired (retired_run (generation_of_retires ha) hpost) scan now
  · intro stamp now hexp hround scan
    simp [SharedKeyState.autoTypeKeyIsPressed, not_fresh_of_expired hexp hround]

/-- An owner takes the lease and retires it again. -/
def cycle (i : ι) (generation : UInt32) : List (Act ι) :=
  [.call i (.beginAutoType 100), .step i false, .step i false, .step i false,
    .call i (.retireAutoType generation), .step i false, .step i false]

theorem run_cycle {i : ι} (hi : (s.owner i).ready) (hl : s.memory.autoTypeLease = 0)
    (hne : s.memory.autoTypeGeneration + 1 ≠ 0) :
    s.run (cycle i (s.memory.autoTypeGeneration + 1)) =
      ⟨{ s.memory with autoTypeGeneration := s.memory.autoTypeGeneration + 1 },
        Function.update s.owner i (.returned .retired)⟩ := by
  obtain ⟨⟨counter, lease, keys⟩, owner⟩ := s
  simp only at hi hl hne
  subst hl
  have hready : ∀ outcome, (Owner.returned outcome).ready = true := fun _ => rfl
  simp [run, cycle, next, hi, hready, Owner.call, Owner.step, hne, compareExchangeWeak]

/-- An owner that begins and retires `n` times uses up `n` generations and leaves everything else. -/
theorem run_cycles {i : ι} (n : Nat) (hi : s.owner i = .returned .retired) (hl : s.memory.autoTypeLease = 0)
    (hn : s.memory.autoTypeGeneration.toNat + n < 2 ^ 32) :
    ∃ acts, s.run acts =
      ⟨{ s.memory with autoTypeGeneration := s.memory.autoTypeGeneration + .ofNat n }, s.owner⟩ := by
  induction n with
  | zero => exact ⟨[], by simp [run]⟩
  | succ n ih =>
    obtain ⟨acts, hrun⟩ := ih (by omega)
    have hn' : (UInt32.ofNat n).toNat = n := by simp; omega
    have hne : s.memory.autoTypeGeneration + .ofNat n + 1 ≠ 0 := by
      intro h0
      have h0' : (s.memory.autoTypeGeneration + .ofNat n + 1).toNat = 0 := by rw [h0]; rfl
      rw [UInt32.toNat_add, UInt32.toNat_add, hn'] at h0'
      simp at h0'
      omega
    have hcycle := run_cycle (i := i) (s := s.run acts) (by simp [hrun, hi, Owner.ready]) (by rw [hrun]; exact hl)
      (by rw [hrun]; exact hne)
    refine ⟨acts ++ cycle i ((s.run acts).memory.autoTypeGeneration + 1), ?_⟩
    rw [run, List.foldl_append]
    refine hcycle.trans ?_
    have hsucc : s.memory.autoTypeGeneration + .ofNat n + 1 = s.memory.autoTypeGeneration + .ofNat (n + 1) := by
      rw [UInt32.ofNat_add, UInt32.add_assoc]
      rfl
    have howner : Function.update s.owner i (.returned .retired) = s.owner := by
      rw [← hi, Function.update_eq_self]
    simp [hrun, howner, hsucc]

/-- Three owners: the first presses a key under generation 1 and then uses up the generations, the second
stands before an exchange of generation 2, the third takes generation 1 again. -/
def reusePrefix : List (Act (Fin 3)) :=
  [.call 0 (.beginAutoType 100), .step 0 false, .step 0 false, .step 0 false,
    .call 0 (.setAutoTypeKey 1 30 0x80), .step 0 false, .step 0 false, .step 0 false, .step 0 false,
    .call 0 (.beginAutoType 100), .step 0 false, .step 0 false, .step 0 false,
    .call 1 (.setAutoTypeKey 2 30 0), .step 1 false, .step 1 false,
    .call 0 (.retireAutoType 2), .step 0 false, .step 0 false]

def reuseSuffix : List (Act (Fin 3)) :=
  [.call 0 (.beginAutoType 100), .step 0 false,
    .call 2 (.beginAutoType 100), .step 2 false, .step 2 false, .step 2 false]

/-- An exchange checked before the generations came round changes a key of the present owner, and a lease
that expired a round of the clock ago shows its keys again. -/
theorem auto_type_lease_recurs :
    (¬ ∀ acts : List (Act (Fin 3)), (init.run acts).StaleHarmless) ∧
    (¬ ∀ acts : List (Act (Fin 1)), (init.run acts).ExpiredSilent) := by
  constructor
  · intro h
    obtain ⟨acts, hacts⟩ := run_cycles (s := init.run reusePrefix) (i := 0) (2 ^ 32 - 3)
      (by decide) (by decide) (by decide)
    have hstale := (h (reusePrefix ++ acts ++ reuseSuffix)) 1 false 2
    simp only [run, List.foldl_append] at hstale hacts
    rw [hacts] at hstale
    obtain ⟨-, hkeys⟩ := hstale (by decide) (by decide)
    exact absurd (hkeys 30 100) (by decide)
  · intro h
    have hround := h [.call 0 (.beginAutoType 100), .step 0 false, .step 0 false, .step 0 false,
      .call 0 (.setAutoTypeKey 1 30 0x80), .step 0 false, .step 0 false, .step 0 false, .step 0 false]
      100 (2 ^ 32 + 100) ⟨by decide, by decide⟩ 30
    exact absurd hround (by decide)

/-- The second owner takes the lease while the first stands before the exchange for its key. -/
def overtaken : List (Act (Fin 2)) :=
  [.call 0 (.beginAutoType 100), .step 0 false, .step 0 false, .step 0 false,
    .call 0 (.setAutoTypeKey 1 30 0x80), .step 0 false, .step 0 false,
    .call 1 (.beginAutoType 200), .step 1 false, .step 1 false]

/-- The second owner has the lease, presses its key, and is about to retire. -/
def pressed : List (Act (Fin 2)) :=
  overtaken ++ [.step 1 false, .call 1 (.setAutoTypeKey 2 31 0x80), .step 1 false, .step 1 false, .step 1 false, .step 1 false,
    .call 1 (.retireAutoType 2), .step 1 false]

/-- The exchange of the first owner, left behind, changes nothing of the second; the key of the second is effective until
the clock passes the time-out or the second retires. -/
theorem auto_type_lease_safe_overtaken :
    (init.run overtaken).generation < ((init.run overtaken).next (.step 1 false)).generation ∧
    (init.run pressed).memory.autoTypeKeyIsPressed 31 200 = true ∧
    ((init.run pressed).next (.step 0 false)).memory.autoTypeKeyIsPressed 30 200 = false ∧
    ((init.run pressed).next (.step 0 false)).memory.autoTypeKeyIsPressed 31 200 = true ∧
    (init.run pressed).memory.autoTypeKeyIsPressed 31 701 = false ∧
    ((init.run pressed).next (.step 1 false)).memory.autoTypeKeyIsPressed 31 200 = false := by
  have hready (acts : List (Act (Fin 2))) (h0 : (init.run acts).owner 0 ≠ .panicked) (h1 : (init.run acts).owner 1 ≠ .panicked) :
      (init.run acts).Unexhausted := fun i => by
    match i with
    | 0 => exact h0
    | 1 => exact h1
  obtain ⟨-, htakes, -, -⟩ := auto_type_lease_safe overtaken (hready _ (by decide) (by decide))
  obtain ⟨hstale, -, hretired, hexpired⟩ := auto_type_lease_safe pressed (hready _ (by decide) (by decide))
  obtain ⟨-, hkeys⟩ := hstale 0 false 1 (by decide) (by decide)
  exact ⟨htakes (.step 1 false) ⟨2, 200, (init.run overtaken).memory.autoTypeLease, by decide, by decide, rfl, rfl⟩, by decide,
    (hkeys 30 200).trans (by decide), (hkeys 31 200).trans (by decide), hexpired 200 701 ⟨by decide, by decide⟩ (by decide) 31,
    hretired (.step 1 false) [] ⟨_, by decide, rfl, rfl⟩ trivial 31 200⟩

end System

end Stonemite.Trusik
