import Stonemite.Trusik.Owner

/-!
# The lease is safe from stale owners

A generation that is allocated and not yet published appears nowhere: not in the lease, in no key word and in no word an
owner has loaded. So an exchange that was checked under an older lease finds no key of the present generation, and the
present owner's keys stay as they are until every generation was used. `LeaseOk` is the invariant, with a lemma for a
call and one for a step (`LeaseOk.call`, `LeaseOk.step`); `StaleHarmless` and `ExpiredSilent` are read off it.
-/

namespace Stonemite.Trusik

/-- The generation is one the owner is about to write, or of a key word it has loaded. -/
def Owner.Appears (o : Owner) (g : UInt32) : Prop :=
  match o with
  | .setCheck _ _ _ current => autoKeyGeneration current = g
  | .setExchange generation _ _ current => generation = g ∨ autoKeyGeneration current = g
  | _ => False

namespace SharedKeyState

/-- The generation is that of the lease or of a key word. -/
def Appears (m : SharedKeyState) (g : UInt32) : Prop :=
  leaseGeneration m.autoTypeLease = g ∨ ∃ scan, autoKeyGeneration (m.autoTypeKeys scan) = g

end SharedKeyState

namespace System

variable {ι : Type} [DecidableEq ι]

/-- The generation is in the words or with an owner. -/
def Appears (s : System ι) (g : UInt32) : Prop := s.memory.Appears g ∨ ∃ i, (s.owner i).Appears g

/-- Allocated generations are new, and an exchange that passed its check finds no key of a later lease. -/
structure LeaseOk (s : System ι) : Prop where
  le : ∀ g, s.Appears g → g ≤ s.memory.autoTypeGeneration
  allocated_le : ∀ i g, (s.owner i).allocated = some g → g ≠ 0 ∧ g ≤ s.memory.autoTypeGeneration
  allocated_inj : ∀ i j g, (s.owner i).allocated = some g → (s.owner j).allocated = some g → i = j
  fresh : ∀ i g, (s.owner i).allocated = some g → ¬ s.Appears g
  exchange : ∀ i g scan value current, s.owner i = .setExchange g scan value current →
    s.generation = g ∨ s.generation = 0 ∨ autoKeyGeneration current ≠ s.generation

/-- A step of an operation whose generation is not the one of the lease changes neither the lease nor what
is effective. -/
def StaleHarmless (s : System ι) : Prop :=
  ∀ i spurious g, (s.owner i).carries = some g → g ≠ s.generation →
    (s.next (.step i spurious)).memory.autoTypeLease = s.memory.autoTypeLease ∧
    ∀ scan now, (s.next (.step i spurious)).memory.autoTypeKeyIsPressed scan now =
      s.memory.autoTypeKeyIsPressed scan now

/-- `now` is later than the time-out of a lease whose heartbeat is of `stamp`, both in milliseconds. -/
def Expired (s : System ι) (stamp now : Nat) : Prop :=
  leaseHeartbeat s.memory.autoTypeLease = .ofNat stamp ∧ stamp + heartbeatTimeoutMs.toNat < now

/-- Nothing is effective once the lease has expired. -/
def ExpiredSilent (s : System ι) : Prop :=
  ∀ stamp now, s.Expired stamp now → ∀ scan, s.memory.autoTypeKeyIsPressed scan (.ofNat now) = false

variable {s : System ι}

theorem Unexhausted.of_next {a : Act ι} (h : (s.next a).Unexhausted) : s.Unexhausted := by
  intro i hi
  refine h i ?_
  cases a with
  | call j c =>
    simp only [next]
    split
    · rename_i hr
      have hij : i ≠ j := by
        rintro rfl
        rw [hi] at hr
        cases hr
      simpa [Function.update_of_ne hij] using hi
    · exact hi
  | step j spurious =>
    simp only [next]
    by_cases hij : i = j
    · subst hij
      simp [hi, Owner.step]
    · simpa [Function.update_of_ne hij] using hi

omit [DecidableEq ι] in
theorem init_leaseOk : LeaseOk (init : System ι) where
  le g h := by
    have hg : g = 0 := by
      rcases h with (h | ⟨scan, h⟩) | ⟨i, h⟩
      · exact h.symm.trans leaseGeneration_zero
      · exact h.symm.trans autoKeyGeneration_zero
      · exact h.elim
    rw [hg]
    exact UInt32.zero_le
  allocated_le i g h := by cases h
  allocated_inj i j g h := by cases h
  fresh i g h := by cases h
  exchange i g scan value current h := by cases h

namespace LeaseOk

theorem move (h : LeaseOk s) {i : ι} {m : SharedKeyState} {o : Owner}
    (hcounter : m.autoTypeGeneration = s.memory.autoTypeGeneration)
    (halloc : ∀ g, o.allocated = some g → (s.owner i).allocated = some g)
    (happears : ∀ g, m.Appears g ∨ o.Appears g →
      s.Appears g ∨ g = 0 ∨ (s.owner i).allocated = some g ∧ o.allocated = none)
    (hlease : leaseGeneration m.autoTypeLease = s.generation ∨ leaseGeneration m.autoTypeLease = 0 ∨
      (s.owner i).allocated = some (leaseGeneration m.autoTypeLease))
    (hself : ∀ g scan value current, o = .setExchange g scan value current →
      s.generation = g ∧ leaseGeneration m.autoTypeLease = s.generation) :
    LeaseOk ⟨m, Function.update s.owner i o⟩ := by
  have howner : ∀ j, j ≠ i → Function.update s.owner i o j = s.owner j :=
    fun j hj => Function.update_of_ne hj _ _
  have halloc' : ∀ j g, (Function.update s.owner i o j).allocated = some g → (s.owner j).allocated = some g := by
    intro j g hj
    by_cases hji : j = i
    · subst hji
      rw [Function.update_self] at hj
      exact halloc g hj
    · rwa [howner j hji] at hj
  have happears' : ∀ g, Appears ⟨m, Function.update s.owner i o⟩ g →
      s.Appears g ∨ g = 0 ∨ (s.owner i).allocated = some g ∧ o.allocated = none := by
    rintro g (hg | ⟨j, hg⟩)
    · exact happears g (.inl hg)
    · by_cases hji : j = i
      · subst hji
        exact happears g (.inr (by simpa using hg))
      · exact .inl (.inr ⟨j, by rw [← howner j hji]; exact hg⟩)
  refine ⟨?_, ?_, ?_, ?_, ?_⟩
  · intro g hg
    show g ≤ m.autoTypeGeneration
    rw [hcounter]
    rcases happears' g hg with hg | rfl | ⟨hg, -⟩
    · exact h.le g hg
    · exact UInt32.zero_le
    · exact (h.allocated_le i g hg).2
  · intro j g hj
    show g ≠ 0 ∧ g ≤ m.autoTypeGeneration
    rw [hcounter]
    exact h.allocated_le j g (halloc' j g hj)
  · intro j k g hj hk
    exact h.allocated_inj j k g (halloc' j g hj) (halloc' k g hk)
  · intro j g hj hg
    have hjs := halloc' j g hj
    rcases happears' g hg with hg | rfl | ⟨hi, hnone⟩
    · exact h.fresh j g hjs hg
    · exact (h.allocated_le j 0 hjs).1 rfl
    · -- the published generation was `i`'s, and `i` no longer counts as allocating it
      have hji := h.allocated_inj j i g hjs hi
      subst hji
      simp only [Function.update_self] at hj
      rw [hnone] at hj
      cases hj
  · intro j g scan value current hj
    show leaseGeneration m.autoTypeLease = g ∨ leaseGeneration m.autoTypeLease = 0 ∨
      autoKeyGeneration current ≠ leaseGeneration m.autoTypeLease
    by_cases hji : j = i
    · subst hji
      obtain ⟨hg, hm⟩ := hself g scan value current (by simpa using hj)
      exact .inl (hm.trans hg)
    · simp only [howner j hji] at hj
      rcases hlease with hl | hl | hl
      · rw [hl]
        exact h.exchange j g scan value current hj
      · exact .inr (.inl hl)
      · refine .inr (.inr fun hc => h.fresh i _ hl (.inr ⟨j, ?_⟩))
        rw [hj]
        exact .inr hc

theorem retouch (h : LeaseOk s) {i : ι} {o : Owner}
    (halloc : ∀ g, o.allocated = some g → (s.owner i).allocated = some g)
    (happears : ∀ g, o.Appears g → s.Appears g)
    (hself : ∀ g scan value current, o = .setExchange g scan value current → s.generation = g) :
    LeaseOk ⟨s.memory, Function.update s.owner i o⟩ := by
  refine h.move rfl halloc ?_ (.inl rfl) ?_
  · rintro g (hg | hg)
    · exact .inl (.inl hg)
    · exact .inl (happears g hg)
  · intro g scan value current ho
    exact ⟨hself g scan value current ho, rfl⟩

theorem settle (h : LeaseOk s) {i : ι} {o : Owner} (hnone : o.allocated = none) (happ : ∀ g, ¬ o.Appears g)
    (hset : ∀ g scan value current, o ≠ .setExchange g scan value current) :
    LeaseOk ⟨s.memory, Function.update s.owner i o⟩ := by
  refine h.retouch ?_ (fun g hg => (happ g hg).elim) (fun g scan value current ho => (hset g scan value current ho).elim)
  intro g hg
  rw [hnone] at hg
  cases hg

theorem fetch (h : LeaseOk s) {i : ι} {now : UInt32} (hne : s.memory.autoTypeGeneration + 1 ≠ 0)
    (hi : s.owner i = .beginFetch now) :
    LeaseOk ⟨{ s.memory with autoTypeGeneration := s.memory.autoTypeGeneration + 1 },
      Function.update s.owner i (.beginLoad (s.memory.autoTypeGeneration + 1) now)⟩ := by
  have hlt : s.memory.autoTypeGeneration < s.memory.autoTypeGeneration + 1 := by
    have hlt := s.memory.autoTypeGeneration.toNat_lt
    have hne' : (s.memory.autoTypeGeneration + 1).toNat ≠ 0 := fun h0 => hne (UInt32.toNat_inj.mp h0)
    rw [UInt32.lt_iff_toNat_lt]
    rw [UInt32.toNat_add] at hne' ⊢
    simp at hne' ⊢
    omega
  have hle : ∀ g, g ≤ s.memory.autoTypeGeneration → g ≤ s.memory.autoTypeGeneration + 1 ∧
      g ≠ s.memory.autoTypeGeneration + 1 := by
    intro g hg
    have hg' := UInt32.lt_of_le_of_lt hg hlt
    exact ⟨UInt32.le_of_lt hg', UInt32.ne_of_lt hg'⟩
  have hcases : ∀ j g, (Function.update s.owner i (.beginLoad (s.memory.autoTypeGeneration + 1) now) j).allocated
      = some g → j = i ∧ g = s.memory.autoTypeGeneration + 1 ∨ j ≠ i ∧ (s.owner j).allocated = some g := by
    intro j g hj
    by_cases hji : j = i
    · subst hji
      rw [Function.update_self] at hj
      cases hj
      exact .inl ⟨rfl, rfl⟩
    · rw [Function.update_of_ne hji] at hj
      exact .inr ⟨hji, hj⟩
  have happears : ∀ g, Appears ⟨{ s.memory with autoTypeGeneration := s.memory.autoTypeGeneration + 1 },
      Function.update s.owner i (.beginLoad (s.memory.autoTypeGeneration + 1) now)⟩ g → s.Appears g := by
    rintro g (hg | ⟨j, hg⟩)
    · exact .inl hg
    · by_cases hji : j = i
      · subst hji
        simp [Owner.Appears] at hg
      · simp only [Function.update_of_ne hji] at hg
        exact .inr ⟨j, hg⟩
  refine ⟨?_, ?_, ?_, ?_, ?_⟩
  · intro g hg
    exact (hle g (h.le g (happears g hg))).1
  · intro j g hj
    rcases hcases j g hj with ⟨-, rfl⟩ | ⟨-, hj⟩
    · exact ⟨hne, UInt32.le_refl _⟩
    · exact ⟨(h.allocated_le j g hj).1, (hle g (h.allocated_le j g hj).2).1⟩
  · intro j k g hj hk
    rcases hcases j g hj with ⟨rfl, hg⟩ | ⟨-, hjs⟩ <;> rcases hcases k g hk with ⟨rfl, hg'⟩ | ⟨-, hks⟩
    · rfl
    · exact ((hle g (h.allocated_le k g hks).2).2 hg).elim
    · exact ((hle g (h.allocated_le j g hjs).2).2 hg').elim
    · exact h.allocated_inj j k g hjs hks
  · intro j g hj hg
    rcases hcases j g hj with ⟨-, rfl⟩ | ⟨-, hj⟩
    · exact (hle _ (h.le _ (happears _ hg))).2 rfl
    · exact h.fresh j g hj (happears g hg)
  · intro j g scan value current hj
    have hji : j ≠ i := by
      rintro rfl
      simp at hj
    simp only [Function.update_of_ne hji] at hj
    exact h.exchange j g scan value current hj

end LeaseOk

theorem compareExchangeWeak_eq_some {word current replacement new : UInt64} {spurious : Bool} :
    compareExchangeWeak word current replacement spurious = some new ↔
      (word = current ∧ spurious = false) ∧ replacement = new := by
  unfold compareExchangeWeak
  split <;> simp_all

theorem LeaseOk.step (h : LeaseOk s) (i : ι) (spurious : Bool) (hx : (s.next (.step i spurious)).Unexhausted) :
    LeaseOk (s.next (.step i spurious)) := by
  have hself := hx i
  simp only [next, Function.update_self] at hself ⊢
  match hi : s.owner i with
  | .idle => exact h.settle rfl (fun _ => id) (by simp [Owner.step])
  | .returned outcome => exact h.settle rfl (fun _ => id) (by simp [Owner.step])
  | .panicked => exact h.settle rfl (fun _ => id) (by simp [Owner.step])
  | .setConfirm g => exact h.settle rfl (fun _ => id) (by simp [Owner.step])
  | .refreshLoad g now => exact h.settle rfl (fun _ => id) (by simp [Owner.step])
  | .retireLoad g => exact h.settle rfl (fun _ => id) (by simp [Owner.step])
  | .beginFetch now =>
    simp only [hi, Owner.step] at hself ⊢
    by_cases hne : s.memory.autoTypeGeneration + 1 = 0
    · simp [hne] at hself
    · simp only [hne, if_false]
      exact h.fetch hne hi
  | .beginLoad g now =>
    refine h.retouch ?_ (fun _ => False.elim) (by simp [Owner.step])
    simp [Owner.step, Owner.allocated, hi]
  | .beginLoop g now current =>
    simp only [Owner.step]
    split
    · exact h.settle rfl (fun _ => id) (by simp)
    · split
      · rename_i lease hce
        obtain ⟨-, rfl⟩ := compareExchangeWeak_eq_some.mp hce
        have halloc : (s.owner i).allocated = some g := by rw [hi]; rfl
        refine h.move rfl (by simp [Owner.allocated]) ?_ (.inr (.inr (by simpa using halloc))) (by simp)
        rintro g' ((hg | hg) | hg)
        · obtain rfl : g = g' := by simpa using hg
          exact .inr (.inr ⟨halloc, rfl⟩)
        · exact .inl (.inl (.inr hg))
        · exact hg.elim
      · refine h.retouch ?_ (fun _ => False.elim) (by simp)
        simp [Owner.allocated, hi]
  | .setLoad g scan value =>
    refine h.retouch (by simp [Owner.step, Owner.allocated]) ?_ (by simp [Owner.step])
    intro g' hg
    exact .inl (.inr ⟨scan, hg⟩)
  | .setCheck g scan value current =>
    simp only [Owner.step]
    split
    · exact h.settle rfl (fun _ => id) (by simp)
    · rename_i hcheck
      push Not at hcheck
      refine h.retouch (by simp [Owner.allocated]) ?_ ?_
      · rintro g' (rfl | hg)
        · exact .inl (.inl hcheck.1)
        · exact .inr ⟨i, by rw [hi]; exact hg⟩
      · rintro g' scan' value' current' ⟨⟩
        exact hcheck.1
  | .setExchange g scan value current =>
    simp only [Owner.step]
    split
    · rename_i key hce
      obtain ⟨-, rfl⟩ := compareExchangeWeak_eq_some.mp hce
      refine h.move rfl (by simp [Owner.allocated]) ?_ (.inl rfl) (by simp)
      rintro g' ((hg | ⟨scan', hg⟩) | hg)
      · exact .inl (.inl (.inl hg))
      · by_cases hs : scan' = scan
        · subst hs
          obtain rfl : g = g' := by simpa using hg
          exact .inl (.inr ⟨i, by rw [hi]; exact .inl rfl⟩)
        · simp only [Function.update_of_ne hs] at hg
          exact .inl (.inl (.inr ⟨scan', hg⟩))
      · exact hg.elim
    · refine h.retouch (by simp [Owner.allocated]) ?_ (by simp)
      intro g' hg
      exact .inl (.inr ⟨scan, hg⟩)
  | .refreshLoop g now lease =>
    simp only [Owner.step]
    split
    · exact h.settle rfl (fun _ => id) (by simp)
    · rename_i hg
      push Not at hg
      split
      · rename_i new hce
        obtain ⟨⟨hl, -⟩, rfl⟩ := compareExchangeWeak_eq_some.mp hce
        have hgen : s.generation = g := by rw [← hg, ← hl]; rfl
        refine h.move rfl (by simp [Owner.allocated]) ?_ (.inl (by simpa using hgen.symm)) (by simp)
        rintro g' ((hg' | hg') | hg')
        · obtain rfl : g = g' := by simpa using hg'
          exact .inl (.inl (.inl hgen))
        · exact .inl (.inl (.inr hg'))
        · exact hg'.elim
      · exact h.settle rfl (fun _ => id) (by simp)
  | .retireLoop g lease =>
    simp only [Owner.step]
    split
    · exact h.settle rfl (fun _ => id) (by simp)
    · split
      · rename_i new hce
        obtain ⟨-, rfl⟩ := compareExchangeWeak_eq_some.mp hce
        refine h.move rfl (by simp [Owner.allocated]) ?_ (.inr (.inl (by simp))) (by simp)
        rintro g' ((hg' | hg') | hg')
        · exact .inr (.inl (by simpa using hg'.symm))
        · exact .inl (.inl (.inr hg'))
        · exact hg'.elim
      · exact h.settle rfl (fun _ => id) (by simp)

theorem LeaseOk.call (h : LeaseOk s) (i : ι) (c : Call) : LeaseOk (s.next (.call i c)) := by
  simp only [next]
  split
  · cases c with
    | setAutoTypeKey g scan value =>
      simp only [Owner.call]
      split
      · exact h.settle rfl (fun _ => id) (by simp)
      · exact h.settle rfl (fun _ => id) (by simp)
    | _ => exact h.settle rfl (fun _ => id) (by simp [Owner.call])
  · exact h

theorem run_leaseOk (acts : List (Act ι)) (h : (init.run acts : System ι).Unexhausted) :
    LeaseOk (init.run acts : System ι) := by
  induction acts using List.reverseRecOn with
  | nil => exact init_leaseOk
  | append_singleton acts a ih =>
    simp only [run, List.foldl_append, List.foldl_cons, List.foldl_nil] at h ih ⊢
    have hok := ih h.of_next
    cases a with
    | call i c => exact hok.call i c
    | step i spurious => exact hok.step i spurious h

end System

end Stonemite.Trusik
