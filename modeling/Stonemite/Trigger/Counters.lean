import Stonemite.Trigger.Literal
import Stonemite.Lib.Run

/-!
# Counters and the values that are shown

A counter goes on from the number that it keeps itself; the text that is shown only starts it. The two agree as long as
no value is set over a counter that would count on differently. `Shown` is the invariant, kept by every change that
spares the counters (`Shown.change`, `Shown.run`); `countsOn_iff_spares` adds that a change which does not is noticed at
once.
-/

open Std

namespace Stonemite.Triggers

variable {P : Platform}

/-! ### What happens to the variables -/

/-- The calls that change the variables of a character. -/
inductive VariableChange (P : Platform)
  | act (line : Str) (captures previousMatches : MatchMap) (now : EngineMillis) (action : VariableAction P)
  | endClear (entry : Str)
  | expire (now : EngineMillis)

/-- The text that a `SetValue` writes. -/
def VariableAction.writes (action : VariableAction P) (store : VariableStore P) (line : Str)
    (captures previousMatches : MatchMap) : Str :=
  let resolved := replaceFromMatches P action.value (some captures)
  let resolved := replaceFromMatches P resolved (some previousMatches)
  let resolved := replaceLineCode resolved line
  replaceTokens P resolved store.asMatchMap.get

/-- When the value of an action ends. -/
def VariableAction.expiresAt (action : VariableAction P) (now : EngineMillis) : Option EngineMillis :=
  if P.positive action.timeToLiveSeconds then some (addMillis now (P.millis action.timeToLiveSeconds)) else none

/-- The text that is set goes on like the counter: it is a number, and whatever is added to it shows as the same sum. -/
def Resumes (P : Platform) (text : Str) (counter : P.F64) : Prop :=
  ∃ number, P.parse text = some number ∧ ∀ step, P.formatNumber (P.add number step) = P.formatNumber (P.add counter step)

namespace VariableStore

def change (store : VariableStore P) : VariableChange P → VariableStore P
  | .act line captures previousMatches now action => store.applyAction line captures previousMatches now action
  | .endClear entry => if (clearedName entry).isEmpty then store else store.clear (clearedName entry)
  | .expire now => store.expire now

/-- A counter counts on from its visible number, or from the initial value without one. -/
def CountsOn (store : VariableStore P) : Prop :=
  ∀ (line : Str) (captures previousMatches : MatchMap) (now : EngineMillis) (action : VariableAction P),
    action.op = .setCounter → action.name.trim ≠ [] →
      (store.applyAction line captures previousMatches now action).get action.name.trim =
        some (P.formatNumber (P.add (((store.get action.name.trim).bind P.parse).getD action.initialValue) action.step))

/-- No value is set over a counter, unless it goes on like the counter. -/
def Spares (store : VariableStore P) : VariableChange P → Prop
  | .act line captures previousMatches _ action =>
    action.op = .setValue → action.name.trim ≠ [] → action.value ≠ [] →
      ∀ counter, store.counters[key action.name.trim]? = some counter →
        Resumes P (action.writes store line captures previousMatches) counter
  | _ => True

/-- Every counter is shown. -/
def Shown (store : VariableStore P) : Prop :=
  ∀ (k : Str) (counter : P.F64), store.counters[k]? = some counter → ∃ text, store.values[k]? = some text ∧ Resumes P text counter

variable {store : VariableStore P}

theorem get_set (name value : Str) (expiresAt : Option EngineMillis) : (store.set name value expiresAt).get name = some value :=
  ExtTreeMap.getElem?_insert_self

/-! ### The actions -/

section actions
variable (line : Str) (captures previousMatches : MatchMap) (now : EngineMillis) {action : VariableAction P}

theorem applyAction_unnamed (hname : action.name.trim = []) :
    store.applyAction line captures previousMatches now action = store := by
  unfold applyAction
  dsimp only
  rw [if_pos (by rw [hname]; rfl)]

theorem applyAction_clear (hop : action.op = .clear) (hname : action.name.trim ≠ []) :
    store.applyAction line captures previousMatches now action = store.clear action.name.trim := by
  unfold applyAction
  dsimp only
  rw [if_neg (by rwa [List.isEmpty_iff]), hop]

theorem applyAction_setValue_nil (hop : action.op = .setValue) (hvalue : action.value = []) :
    store.applyAction line captures previousMatches now action = store := by
  unfold applyAction
  dsimp only
  rw [hop, hvalue]
  exact ite_self store

theorem applyAction_setCounter (hop : action.op = .setCounter) (hname : action.name.trim ≠ []) :
    let updated := P.add ((store.counters[key action.name.trim]?).getD
      (((store.get action.name.trim).bind P.parse).getD action.initialValue)) action.step
    store.applyAction line captures previousMatches now action =
      { store with counters := store.counters.insert (key action.name.trim) updated }.set action.name.trim
        (P.formatNumber updated) (action.expiresAt now) := by
  unfold applyAction
  dsimp only
  rw [if_neg (by rwa [List.isEmpty_iff]), hop]
  dsimp only
  cases store.counters[key action.name.trim]? <;> rfl

theorem applyAction_setValue (hop : action.op = .setValue) (hname : action.name.trim ≠ []) (hvalue : action.value ≠ []) :
    store.applyAction line captures previousMatches now action =
      store.set action.name.trim (action.writes store line captures previousMatches) (action.expiresAt now) := by
  unfold applyAction
  dsimp only
  rw [if_neg (by rwa [List.isEmpty_iff]), hop]
  dsimp only
  rw [if_neg (by rwa [List.isEmpty_iff])]
  rfl

theorem get_applyAction_setCounter (hop : action.op = .setCounter) (hname : action.name.trim ≠ []) :
    (store.applyAction line captures previousMatches now action).get action.name.trim =
      some (P.formatNumber (P.add ((store.counters[key action.name.trim]?).getD
        (((store.get action.name.trim).bind P.parse).getD action.initialValue)) action.step)) := by
  rw [applyAction_setCounter line captures previousMatches now hop hname, get_set]

end actions

/-! ### What is shown of a counter -/

/-- Where every counter is shown, a `SetCounter` goes on from what is shown. -/
theorem Shown.countsOn (h : store.Shown) : store.CountsOn := by
  intro line captures previousMatches now action hop hname
  rw [get_applyAction_setCounter line captures previousMatches now hop hname]
  cases hcounter : store.counters[key action.name.trim]? with
  | none => rfl
  | some counter =>
    obtain ⟨text, htext, number, hparse, hsame⟩ := h _ counter hcounter
    have hvisible : (store.get action.name.trim).bind P.parse = some number := by
      rw [get, htext]
      exact hparse
    rw [hvisible, Option.getD_some, Option.getD_some, hsame]

theorem Shown.clearKey (h : store.Shown) (k : Str) : (store.clearKey k).Shown := by
  intro k' counter hcounter
  have hcounter : (store.counters.erase k)[k']? = some counter := hcounter
  rw [ExtTreeMap.getElem?_erase_ite] at hcounter
  split at hcounter
  · cases hcounter
  · rename_i hne
    obtain ⟨text, htext, hresumes⟩ := h k' counter hcounter
    refine ⟨text, ?_, hresumes⟩
    show (store.values.erase k)[k']? = some text
    rw [ExtTreeMap.getElem?_erase_ite, if_neg hne]
    exact htext

/-- A text is written, and a counter with it that the text goes on like. -/
theorem Shown.write (h : store.Shown) (name text : Str) (expiresAt : Option EngineMillis) (counters : ExtTreeMap Str P.F64)
    (hothers : ∀ k, k ≠ key name → counters[k]? = store.counters[k]?)
    (hnew : ∀ counter, counters[key name]? = some counter → Resumes P text counter) :
    ({ store with counters := counters }.set name text expiresAt).Shown := by
  intro k counter hcounter
  have hcounter : counters[k]? = some counter := hcounter
  show ∃ shown, (store.values.insert (key name) text)[k]? = some shown ∧ Resumes P shown counter
  by_cases hk : k = key name
  · subst hk
    exact ⟨text, ExtTreeMap.getElem?_insert_self, hnew counter hcounter⟩
  · rw [hothers k hk] at hcounter
    rw [ExtTreeMap.getElem?_insert_of_ne (Ne.symm hk)]
    exact h k counter hcounter

theorem Shown.change (hrender : ∀ x : P.F64, Resumes P (P.formatNumber x) x) (h : store.Shown) {c : VariableChange P}
    (hspares : store.Spares c) : (store.change c).Shown := by
  cases c with
  | endClear entry =>
    dsimp only [VariableStore.change]
    split
    · exact h
    · exact h.clearKey _
  | expire now => exact foldl_invariant (I := Shown) (fun store k hstore => Shown.clearKey hstore k) _ h
  | act line captures previousMatches now action =>
    dsimp only [VariableStore.change]
    by_cases hname : action.name.trim = []
    · rw [applyAction_unnamed line captures previousMatches now hname]
      exact h
    · cases hop : action.op with
      | clear =>
        rw [applyAction_clear line captures previousMatches now hop hname]
        exact h.clearKey _
      | setCounter =>
        rw [applyAction_setCounter line captures previousMatches now hop hname]
        refine h.write _ _ _ _ (fun k hk => ExtTreeMap.getElem?_insert_of_ne (Ne.symm hk) _) fun counter hcounter => ?_
        rw [ExtTreeMap.getElem?_insert_self, Option.some.injEq] at hcounter
        exact hcounter ▸ hrender _
      | setValue =>
        by_cases hvalue : action.value = []
        · rw [applyAction_setValue_nil line captures previousMatches now hop hvalue]
          exact h
        · rw [applyAction_setValue line captures previousMatches now hop hname hvalue]
          exact h.write _ _ _ store.counters (fun _ _ => rfl) (hspares hop hname hvalue)

/-- A value that is set over a counter is where a `SetCounter` must go on from, so it goes on like the counter. -/
theorem CountsOn.spares (hdistinct : ∀ x : P.F64, ∃ initial step, P.formatNumber (P.add initial step) ≠ P.formatNumber (P.add x step))
    {c : VariableChange P} (h : (store.change c).CountsOn) : store.Spares c := by
  cases c with
  | endClear entry => trivial
  | expire now => trivial
  | act line captures previousMatches now action =>
    intro hop hname hvalue counter hcounter
    have hafter : store.change (.act line captures previousMatches now action) =
        store.set action.name.trim (action.writes store line captures previousMatches) (action.expiresAt now) :=
      applyAction_setValue line captures previousMatches now hop hname hvalue
    rw [hafter] at h
    -- the next `SetCounter` of the same variable
    have hnext (initial step : P.F64) : P.formatNumber (P.add counter step) =
        P.formatNumber (P.add ((P.parse (action.writes store line captures previousMatches)).getD initial) step) := by
      have hcount := h line captures previousMatches now ⟨.setCounter, action.name, [], step, initial, P.zero⟩ rfl hname
      rw [@get_applyAction_setCounter P _ line captures previousMatches now ⟨.setCounter, action.name, [], step, initial, P.zero⟩
        rfl hname, get_set] at hcount
      have hsame : (store.set action.name.trim (action.writes store line captures previousMatches)
          (action.expiresAt now)).counters[key action.name.trim]? = some counter := hcounter
      dsimp only at hcount
      rw [hsame] at hcount
      exact Option.some.inj hcount
    cases hparse : P.parse (action.writes store line captures previousMatches) with
    | none =>
      obtain ⟨initial, step, hne⟩ := hdistinct counter
      rw [hparse] at hnext
      exact absurd (hnext initial step).symm hne
    | some number =>
      rw [hparse] at hnext
      exact ⟨number, hparse, fun step => (hnext P.zero step).symm⟩

theorem Shown.empty : (VariableStore.empty : VariableStore P).Shown := by
  intro k counter hcounter
  have hcounter : (∅ : ExtTreeMap Str P.F64)[k]? = some counter := hcounter
  rw [ExtTreeMap.getElem?_empty] at hcounter
  cases hcounter

theorem Shown.run (hrender : ∀ x : P.F64, Resumes P (P.formatNumber x) x) {changes : List (VariableChange P)}
    (h : store.Shown) (hspares : Along Spares VariableStore.change store changes) :
    (changes.foldl VariableStore.change store).Shown := by
  induction changes generalizing store with
  | nil => exact h
  | cons c changes ih => exact ih (h.change hrender hspares.1) hspares.2

/-- In all states of a run of changes the counters count on from what is shown, exactly when no step sets a value over a counter
that would not go on like it. -/
theorem countsOn_iff_spares (hrender : ∀ x : P.F64, Resumes P (P.formatNumber x) x)
    (hdistinct : ∀ x : P.F64, ∃ initial step, P.formatNumber (P.add initial step) ≠ P.formatNumber (P.add x step))
    (changes : List (VariableChange P)) :
    (∀ done, done <+: changes → (done.foldl change .empty).CountsOn) ↔ Along Spares change .empty changes := by
  constructor
  · intro h
    refine Along.iff_forall.mpr fun pre c post hchanges => CountsOn.spares hdistinct ?_
    have hprefix : pre ++ [c] <+: changes := ⟨post, by rw [hchanges, List.append_assoc]; rfl⟩
    have hcounts := h _ hprefix
    rwa [List.foldl_append] at hcounts
  · rintro h done ⟨rest, rfl⟩
    exact (Shown.run hrender .empty h.prefix_of_append).countsOn

end VariableStore

/-! ### A stack of buffs -/

namespace Literal

/-- The platform of literals with natural numbers, which it reads in decimal. -/
def counting : Platform := { platform with
  F64 := Nat
  ofNat := fun n => n
  add := fun a b => a + b
  sub := fun a b => a - b
  mul := fun a b => a * b
  lt := fun a b => decide (a < b)
  le := fun a b => decide (a ≤ b)
  eq := fun a b => decide (a = b)
  abs := fun a => a
  fract := fun _ => 0
  round := fun a => a
  isFinite := fun _ => true
  toU64 := fun a => a
  toI64 := fun a => a
  parse := fun text => if text.isEmpty || !text.all Str.isAsciiDigit then none else some (Nat.ofDigitChars 10 text 0)
  display := fun a => Str.decimal (a : Nat) }

theorem counting_formatNumber (n : Nat) : counting.formatNumber n = Str.decimal n := ite_self _

theorem counting_parse (n : Nat) : counting.parse (counting.formatNumber n) = some n := by
  have hdigits : ((Nat.toDigits 10 n).isEmpty || !(Nat.toDigits 10 n).all Str.isAsciiDigit) = false := by
    have hne : (Nat.toDigits 10 n).isEmpty = false := by
      rw [Bool.eq_false_iff, Ne, List.isEmpty_iff]
      exact Nat.toDigits_ne_nil
    rw [hne, List.all_eq_true.mpr fun c hc => Str.isAsciiDigit_of_mem_toDigits hc]
    rfl
  rw [counting_formatNumber, Str.decimal_natCast]
  show (if (Nat.toDigits 10 n).isEmpty || !(Nat.toDigits 10 n).all Str.isAsciiDigit then none
    else some (Nat.ofDigitChars 10 (Nat.toDigits 10 n) 0)) = some n
  rw [if_neg (by rw [hdigits]; exact Bool.false_ne_true), Nat.ofDigitChars_ten_toDigits]

theorem counting_resumes (n : Nat) : Resumes counting (counting.formatNumber n) n :=
  ⟨n, counting_parse n, fun _ => rfl⟩

theorem counting_distinct (n : Nat) :
    ∃ initial step : Nat, counting.formatNumber (counting.add initial step) ≠ counting.formatNumber (counting.add n step) := by
  refine ⟨n + 1, 0, fun h => ?_⟩
  have hparse := counting_parse (n + 1)
  rw [show counting.formatNumber (n + 1) = counting.formatNumber n from h, counting_parse] at hparse
  exact absurd (Option.some.inj hparse) (Nat.ne_of_lt (Nat.lt_succ_self n))

def gainsStack : VariableChange counting :=
  .act "You gain a stack".toList .new .new 0 ⟨.setCounter, "stacks".toList, [], (1 : Nat), (0 : Nat), (0 : Nat)⟩

/-- A line sets the variable of the same name. -/
def setsStacks : VariableChange counting :=
  .act "You gain ten stacks".toList .new .new 0 ⟨.setValue, "stacks".toList, "10".toList, (0 : Nat), (0 : Nat), (0 : Nat)⟩

/-- A line confirms the eleven stacks that are shown. -/
def confirmsStacks : VariableChange counting :=
  .act "You have eleven stacks".toList .new .new 0 ⟨.setValue, "stacks".toList, "11".toList, (0 : Nat), (0 : Nat), (0 : Nat)⟩

/-- Ten stacks before the first is counted, one more that is confirmed, another one, and the end of them all. -/
def stackChanges : List (VariableChange counting) :=
  [setsStacks, gainsStack, confirmsStacks, gainsStack, .endClear "stacks".toList, setsStacks]

end Literal

namespace VariableStore
open Literal

/-- No value is set over a counter that it does not confirm, so all of them are counted on from what is shown. -/
theorem countsOn_stacks :
    (∀ done, done <+: stackChanges → (done.foldl change .empty).CountsOn) ∧
      ((stackChanges.take 4).foldl change .empty).get "stacks".toList = some "12".toList := by
  refine ⟨(countsOn_iff_spares counting_resumes counting_distinct stackChanges).mpr ?_, by decide +kernel⟩
  refine ⟨?unset, nofun, ?confirmed, nofun, trivial, ?cleared, trivial⟩
  case unset =>
    intro _ _ _ counter hcounter
    have hnone : (VariableStore.empty : VariableStore counting).counters[key "stacks".toList]? = none := by decide +kernel
    exact absurd (hnone.symm.trans hcounter) nofun
  case confirmed =>
    intro _ _ _ counter hcounter
    have hcount : @Eq (Option Nat) (([setsStacks, gainsStack].foldl change .empty).counters[key "stacks".toList]?) (some 11) := by
      decide +kernel
    obtain rfl : (11 : Nat) = counter := Option.some.inj (hcount.symm.trans hcounter)
    exact counting_resumes 11
  case cleared =>
    intro _ _ _ counter hcounter
    have hnone : ((stackChanges.take 5).foldl change .empty).counters[key "stacks".toList]? = none := by decide +kernel
    exact absurd (hnone.symm.trans hcounter) nofun

/-- One stack, set to ten: the next one is shown as the second. -/
theorem not_countsOn_after_set :
    ¬ ∀ changes : List (VariableChange counting), (changes.foldl change .empty).CountsOn := by
  intro h
  have hnext := h [gainsStack, setsStacks] "You gain a stack".toList .new .new 0
    ⟨.setCounter, "stacks".toList, [], (1 : Nat), (0 : Nat), (0 : Nat)⟩ rfl (by decide)
  revert hnext
  decide +kernel

end VariableStore

end Stonemite.Triggers
