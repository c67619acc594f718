import Stonemite.Combat.RoutingInv
import Stonemite.Combat.BookInv
import Stonemite.Combat.LedgerInv

/-!
# Held encounters are immutable

While facts are routed to live encounters only, a held encounter keeps its facts, its phase and its
snapshot in every call that neither reaches the end of its hold nor withdraws the ledger (`kept_still`),
and the book shows exactly its frozen snapshot (`Still.shows`). The first call that does either removes it:
at the end of its hold it is gone from the map and the book (`gone_step`), and a withdrawal leaves only
facts of the record that caused it (`ofRecord_of_withdrawals`).
-/

open Std

namespace Stonemite.Combat
namespace CombatEngine

/-- The encounter `a` of `id` is still there. -/
def Still (id : EncounterId) (a : EncounterState) (e : CombatEngine) : Prop :=
  ∃ a' : EncounterState, e.encounters[id]? = some a' ∧ SameFacts a a'

section
variable {e e' : CombatEngine} {index : Nat} {fact : LedgerFact} {v : DamageView} {id k : EncounterId}
  {a : EncounterState}

theorem Still.of_eq (h : Still id a e) (he : e'.encounters = e.encounters) : Still id a e' := by
  unfold Still
  rw [he]
  exact h

theorem Still.ne (h : Still id a e) (ha : a.phase.isHeld = true) (hl : e.LiveAt k) : k ≠ id := by
  rintro rfl
  obtain ⟨b, hb, hs⟩ := h
  obtain ⟨c, hc, hlc⟩ := hl
  obtain rfl := Option.some.inj (hb.symm.trans hc)
  rw [hs.phase, ha] at hlc
  cases hlc

theorem Still.modify (h : Still id a e) (hne : k ≠ id) {f : EncounterState → EncounterState}
    (hm : e'.encounters = e.encounters.modify k f) : Still id a e' := by
  unfold Still
  rw [hm, ExtTreeMap.getElem?_modify_of_ne hne]
  exact h

theorem Still.absorb (h : Still id a e) {chosenId otherId : EncounterId} {chosen other : EncounterState}
    (hc : chosenId ≠ id) (ho : otherId ≠ id) : Still id a (e.absorb chosenId otherId chosen other) := by
  obtain ⟨b, hb, hs⟩ := h
  exact ⟨b, by rw [absorb_lookup_of_ne hc ho, hb], hs⟩

theorem Still.route (h : Still id a e) (ha : a.phase.isHeld = true) (hr : e.Routed) {o : Option EncounterId}
    (hs : RouteSpec e fact v e' o) : Still id a e' := by
  cases hs with
  | fresh | joined | current => exact h
  | @merged left right hs hc hne =>
    have hl := h.ne ha (hr.live hs)
    have hr := h.ne ha (correlated_live hc)
    have hm := mergeEncounters_spec e hne
    generalize e.mergeEncounters left right = merged at hm ⊢
    obtain ⟨e', k⟩ := merged
    dsimp only at hm ⊢
    cases hm with
    | alone => exact h
    | absorbed hids =>
      obtain ⟨rfl, rfl⟩ | ⟨rfl, rfl⟩ := hids
      exacts [h.absorb hl hr, h.absorb hr hl]

theorem Still.place (h : Still id a e) (ha : a.phase.isHeld = true) (hr : e.Routed) {o : Option EncounterId}
    (hp : PlaceSpec e fact v e' o) : Still id a e' := by
  refine hp.keeps (fun hs => h.route ha hr hs) ?_ (fun _ h => h.of_eq rfl) ?_
  · intro e' k hs _ h
    exact h.modify (h.ne ha (hs.live hr)) rfl
  · rintro e' - hn ⟨b, hb, hs⟩
    refine ⟨b, (ExtTreeMap.getElem?_insert_of_ne (fun hk => ?_) _).trans hb, hs⟩
    rw [hk, hb] at hn
    cases hn

theorem Still.list (h : Still id a e) (hne : k ≠ id) : Still id a (e.listDamage index fact v k) := by
  rw [listDamage_eq]
  exact h.modify hne rfl

theorem Still.promoteFact (h : Still id a e) (hne : k ≠ id) : Still id a (e.promoteFact k index) := by
  cases hf : e.ledger[index]? with
  | none => simpa [CombatEngine.promoteFact, hf] using h
  | some fact =>
    rw [promoteFact_eq hf]
    exact h.modify hne rfl

theorem Still.damage (h : Still id a e) (ha : a.phase.isHeld = true) (hr : e.Routed) (hl : OpensLive e fact v)
    (hd : DamageSpec e index fact v e') : Still id a e' := by
  cases hd with
  | dropped hp => exact h.place ha hr hp
  | ignored hp => exact h.place ha hr hp
  | listed hp =>
    have hk := h.place ha hr hp
    exact hk.list (hk.ne ha (hp.live hr hl))
  | promoted hp =>
    have hk := h.place ha hr hp
    have hne := hk.ne ha (hp.live hr hl)
    exact promotePriorFacts_keeps (fun _ h => h.promoteFact hne) (hk.list hne)

end

/-! ### One call -/

/-- A call that spares held encounters and neither withdraws the ledger nor reaches `til`. -/
def keepsHeld (til : MonoTime) : Conditions where
  reduction := Reduction.SparesHeld
  withdrawing _ := False
  expiring _ now := now < til

theorem kept_still {id : EncounterId} {a : EncounterState} {reason : EndReason} {til : MonoTime}
    (hp : a.phase = .held reason til) : Kept (fun e => e.Routed ∧ Still id a e) (keepsHeld til) :=
  have ha : a.phase.isHeld = true := by rw [hp]; rfl
  { same := fun e e' hs h => ⟨kept_routed.same e e' hs h.1, h.2.of_eq hs.encounters⟩
    retouch := fun e f hf hl h => by
      obtain ⟨hr, b, hb, hs⟩ := h
      exact ⟨kept_routed.retouch e f hf hl hr, f id b, by rw [ExtTreeMap.getElem?_map, hb]; rfl, hs.trans (hf id b)⟩
    withdraw := fun e message hw => hw.elim
    push := fun r event _ _ h => h
    damage := fun r damage hok he h hd => ⟨kept_routed.damage r damage hok he h.1 hd,
      Still.damage (e := r.pushed _) h.2 ha h.1 (hok.opensLive he) hd⟩
    attempt := fun r attempt k encounter hok he h hd => by
      refine ⟨kept_routed.attempt r attempt k encounter hok he h.1 hd, ?_⟩
      rw [hd.result]
      exact h.2.modify (h.2.ne ha (h.1.live hd.active)) rfl
    slain := fun r slain k encounter targetId hok he h hd => by
      refine ⟨kept_routed.slain r slain k encounter targetId hok he h.1 hd, ?_⟩
      rw [hd.result]
      exact h.2.modify (h.2.ne ha (hd.live.elim h.1.live fun hl => ⟨encounter, hd.found, hl⟩)) rfl
    endInactive := fun e k now cutoff h => by
      refine ⟨kept_routed.endInactive e k now cutoff h.1, ?_⟩
      obtain ⟨b, hb, hs⟩ := h.2
      by_cases hk : k = id
      · -- only an active encounter ends
        refine ⟨b, ?_, hs⟩
        show (e.encounters.modify k _)[id]? = some b
        rw [ExtTreeMap.getElem?_modify_ite, if_pos hk, hb]
        unfold EncounterState.enterEnding
        rw [Option.map_some, hs.phase, hp]
      · exact h.2.modify hk rfl
    finalize := fun f hf hdue h => by
      refine ⟨kept_routed.finalize f trivial hdue h.1, ?_⟩
      unfold Finalizing.result
      rw [finalizeDue_eq]
      obtain ⟨b, enteredAt, closure, hb, hph, -⟩ := hdue
      exact h.2.modify (h.2.ne ha ⟨b, hb, by rw [hph]; rfl⟩) rfl
    expire := fun e now hlt h => by
      refine ⟨kept_routed.expire e now trivial h.1, ?_⟩
      obtain ⟨b, hb, hs⟩ := h.2
      refine ⟨b, ?_, hs⟩
      rw [(e.expireHeld_spec now).1, if_neg, hb]
      intro hx
      obtain ⟨c, reason', til', hc, hpc, hle⟩ := mem_expired.mp hx
      obtain rfl := Option.some.inj (hb.symm.trans hc)
      rw [hs.phase, hp] at hpc
      cases hpc
      exact absurd hle (Nat.not_le_of_lt hlt) }

/-! ### The call that removes it -/

/-- Neither the map nor the book has an encounter `id`. -/
structure Gone (id : EncounterId) (e : CombatEngine) : Prop where
  absent : e.encounters[id]? = none
  book : ∀ s ∈ e.currentBook.encounters, s.id ≠ id

theorem BookSound.published_id {e : CombatEngine} (hs : e.BookSound) {k : EncounterId} {c : EncounterState}
    (hk : e.encounters[k]? = some c) {s : EncounterSnapshot} (hp : c.published = some s) : s.id = k := by
  unfold EncounterState.published at hp
  cases hf : c.frozen with
  | none => exact (hs k c hk).snapshot s (by simpa [hf] using hp)
  | some frozen =>
    obtain rfl : frozen = s := by simpa [hf] using hp
    exact (hs k c hk).snapshot _ ((hs k c hk).frozen _ hf).1

section
variable {e : CombatEngine} {call : Call} {id : EncounterId} {a : EncounterState} {reason : EndReason} {til : MonoTime}

theorem Still.finalized (hp : a.phase = .held reason til) (h : Still id a e) (hr : e.Routed)
    (hok : ∀ r ∈ e.reductions call, r.SparesHeld) (hw : e.withdrawals call = []) :
    Still id a ((e.ended call).finalizeEnding (e.handled call).now) := by
  have k : Kept (fun e => e.Routed ∧ Still id a e) (keepsHeld til) := kept_still hp
  have hhandled := (k.handled call hok (fun w hm => by rw [hw] at hm; exact absurd hm List.not_mem_nil) ⟨hr, h⟩).2
  exact (k.finalized call (fun _ _ => trivial) hhandled).2.2

/-- A call that reaches the end of the hold leaves the encounters of the other ids. -/
theorem settled_of_due (hp : a.phase = .held reason til)
    (h : Still id a ((e.ended call).finalizeEnding (e.handled call).now)) (hle : til ≤ (e.handled call).now) :
    (e.settled call).encounters[id]? = none ∧
      ∀ (k : EncounterId) (b : EncounterState), (e.settled call).encounters[k]? = some b →
        k ≠ id ∧ ((e.ended call).finalizeEnding (e.handled call).now).encounters[k]? = some b := by
  obtain ⟨a', ha, hs⟩ := h
  have hx : id ∈ ((e.ended call).finalizeEnding (e.handled call).now).expired (e.handled call).now :=
    mem_expired.mpr ⟨a', reason, til, ha, hs.phase.trans hp, hle⟩
  have hlookup := (((e.ended call).finalizeEnding (e.handled call).now).expireHeld_spec (e.handled call).now).1
  refine ⟨(hlookup id).trans (if_pos hx), fun k b hb => ?_⟩
  rw [show (e.settled call).encounters[k]? = _ from hlookup k] at hb
  split_ifs at hb with hk
  exact ⟨fun heq => hk (heq ▸ hx), hb⟩

theorem gone_step (hs : e.BookSound) (h : (e.settled call).encounters[id]? = none) : Gone id (e.step call) := by
  have habsent : (e.step call).encounters[id]? = none := by
    rw [step_eq, (rebuildBook_spec (e.settled call)).1, ExtTreeMap.getElem?_map, h]
    rfl
  refine ⟨habsent, fun s hm hid => ?_⟩
  obtain ⟨k, b, hb, hpub⟩ := (bookShows_step e call s).mp hm
  have hsound : (e.step call).BookSound := kept_bookSound.step call (Kept.callOk_trivial e call) hs
  rw [← hsound.published_id hb hpub, hid, habsent] at hb
  cases hb

/-- From the end of the hold on, and until the ledger is cleared, no encounter lists a fact of the one that was held. -/
theorem disjoint_of_due {policy : CombatPolicy} {pre rest : List Call} (hp : a.phase = .held reason til)
    (hstill : Still id a ((init policy).run pre))
    (h : Still id a ((((init policy).run pre).ended call).finalizeEnding (((init policy).run pre).handled call).now))
    (hle : til ≤ (((init policy).run pre).handled call).now)
    (hkeeps : Along (Kept.CallOk keepsLedger) step ((init policy).run pre) (call :: rest)) {k : EncounterId}
    {b : EncounterState} (hb : ((init policy).run (pre ++ call :: rest)).encounters[k]? = some b) :
    a.facts.Disjoint b.facts := fun f hfa hfb => by
  have hsame : (init policy).run (pre ++ call :: rest) = ((init policy).run (pre ++ [call])).run rest := by
    rw [List.append_cons]
    exact List.foldl_append ..
  have hstep : (init policy).run (pre ++ [call]) = ((init policy).run pre).step call := List.foldl_concat ..
  obtain ⟨a', ha', hs'⟩ := hstill
  have hassigned : ((init policy).run pre).Assigned f := by
    unfold Assigned
    rw [(ledgerOk_run policy pre).assigned id a' ha' f (hs'.facts ▸ hfa)]
    rfl
  have hassigned' : ((init policy).run (pre ++ [call])).Assigned f := by
    rw [hstep]
    exact ((kept_assigned f).step call hkeeps.1 ⟨ledgerOk_run policy pre, hassigned⟩).2
  -- the others did not list it before the expiry either
  have hunlisted : ((init policy).run (pre ++ [call])).Unlisted f := by
    rw [hstep, step_eq]
    have hok := (kept_ledgerOk.finalized call (fun _ _ => trivial)
      (kept_ledgerOk.handled call (fun _ _ => trivial) (fun _ _ => trivial) (ledgerOk_run policy pre)).2).2
    have hsettled := (settled_of_due hp h hle).2
    obtain ⟨c, hc, hsc⟩ := h
    intro m d hd hfd
    rw [(rebuildBook_spec _).1, ExtTreeMap.getElem?_map] at hd
    obtain ⟨d', hd', rfl⟩ := Option.map_eq_some_iff.mp hd
    obtain ⟨hne, hbefore⟩ := hsettled m d' hd'
    rw [(sameFacts_refresh _ d').facts] at hfd
    exact hok.disjoint hc hbefore hne.symm (hsc.facts ▸ hfa) hfd
  rw [hsame] at hb
  exact (assigned_run (hstep ▸ hkeeps.2) hassigned').2 hunlisted k b hb hfb

end

/-! ### Withdrawals -/

/-- Every fact of the ledger is of the record. -/
def OfRecord (record : SourceRecordId) (e : CombatEngine) : Prop := e.EachFact fun fact => fact.record = record

/-- A call that withdraws the ledger is a record, whose facts alone are in the ledger afterwards. -/
theorem ofRecord_of_withdrawals {e : CombatEngine} {call : Call} (h : e.withdrawals call ≠ []) :
    ∃ now record, call = .apply now (.record record) ∧ OfRecord record.id (e.step call) := by
  cases call with
  | tick now => exact absurd rfl h
  | apply now input =>
    cases input with
    | sourceRegistered | sourceRemoved | sourceGap | sourceStableEof => exact absurd rfl h
    | record record =>
      refine ⟨now, record, rfl, ?_⟩
      have k := kept_eachFact fun fact => fact.record = record.id
      have hhandled : OfRecord record.id (e.handled (.apply now (.record record))) := by
        unfold withdrawals recordWithdrawals at h
        unfold handled handle applyRecord
        dsimp only at h ⊢
        generalize (e.clock now).accept record now = admitted at h ⊢
        obtain ⟨e1, accepted⟩ := admitted
        cases accepted with
        | false => exact absurd rfl h
        | true =>
          dsimp only at h ⊢
          generalize e1.datable record = dated at h ⊢
          obtain ⟨e2, eqTime⟩ := dated
          cases eqTime with
          | none => exact absurd rfl h
          | some eqTime =>
            dsimp only at h ⊢
            split_ifs at h with hfull
            · -- the ledger was emptied before the events
              have hempty : OfRecord record.id (e2.reserve record) := fun fact hm => by
                unfold reserve at hm
                rw [if_pos hfull] at hm
                exact absurd hm List.not_mem_nil
              exact (k.events record eqTime now record.events
                (fun r hr _ _ => congrArg CombatRecord.id (mem_reductionsFrom hr).1) hempty).2
            · exact absurd rfl h
      rw [step_eq]
      exact k.rebuildBook (fun _ _ => trivial) (k.expire _ _ trivial (k.finalized _ (fun _ _ => trivial) hhandled).2)

/-- How a call removes the held encounter of `id`: at the end of its hold it is gone, and where the ledger is withdrawn
every encounter there is lists facts of the withdrawing record only. -/
inductive Removes (id : EncounterId) (til : MonoTime) (e : CombatEngine) : Call → Prop
  | expired {call : Call} (due : til ≤ (e.handled call).now) (gone : Gone id (e.step call)) : Removes id til e call
  | withdrawn {now : MonoTime} {record : CombatRecord} (full : e.withdrawals (.apply now (.record record)) ≠ [])
      (anew : ∀ (k : EncounterId) (b : EncounterState), (e.step (.apply now (.record record))).encounters[k]? = some b →
        ∀ f ∈ b.facts, ∃ fact, (e.step (.apply now (.record record))).ledger[f]? = some fact ∧ fact.record = record.id) :
      Removes id til e (.apply now (.record record))

/-! ### What the book shows of it -/

end CombatEngine

/-! ### Runs -/

namespace CombatEngine

/-- The encounter `a` is still at `id`, and the book shows its frozen snapshot and nothing else under
its id. -/
structure Shows (id : EncounterId) (a : EncounterState) (e : CombatEngine) : Prop where
  still : Still id a e
  book : ∀ s, s ∈ e.currentBook.encounters ∧ s.id = id ↔ a.frozen = some s

theorem Still.shows {id : EncounterId} {a : EncounterState} {e : CombatEngine} (h : Still id a e)
    (ha : a.phase.isHeld = true) (hc : a.Clean) (hb : e.BookShows) (hs : e.BookSound) : Shows id a e := by
  obtain ⟨b, hbe, hsame⟩ := h
  -- what is published is the frozen snapshot
  have hpub : b.published = a.frozen := by
    unfold EncounterState.published
    rw [hsame.frozen, hsame.heldSnapshot ha]
    cases hf : a.frozen with
    | none => rw [hc hf]; rfl
    | some s => rfl
  refine ⟨⟨b, hbe, hsame⟩, fun s => ⟨?_, fun hf => ?_⟩⟩
  · rintro ⟨hm, rfl⟩
    obtain ⟨k, c, hk, hp⟩ := (hb s).mp hm
    obtain rfl := hs.published_id hk hp
    obtain rfl := Option.some.inj (hbe.symm.trans hk)
    exact hpub ▸ hp
  · rw [← hpub] at hf
    exact ⟨(hb s).mpr ⟨id, b, hbe, hf⟩, hs.published_id hbe hf⟩

/-- A run that takes no held encounter by its derived id and finalizes every encounter with its
projection: a held encounter stays in the book with the snapshot frozen for it, up to a call that
reaches the end of its hold or withdraws the ledger. That call removes it, and until the ledger is cleared
no encounter lists a fact of it again. -/
theorem held_immutable (policy : CombatPolicy) (calls : List Call)
    (h : Along (Kept.CallOk { reduction := Reduction.SparesHeld, finalizing := Finalizing.Projects }) step
      (init policy) calls) (pre mid post : List Call) (hcalls : calls = pre ++ mid ++ post)
    {id : EncounterId} {a : EncounterState} {reason : EndReason} {til : MonoTime}
    (ha : ((init policy).run pre).encounters[id]? = some a) (hp : a.phase = .held reason til) :
    (∀ s, a.frozen = some s → s.id = id ∧ s.phase = .held ∧ s.heldUntil = some til) ∧
      (Shows id a ((init policy).run (pre ++ mid)) ∨
        ∃ mid₁ call mid₂, mid = mid₁ ++ call :: mid₂ ∧ Shows id a ((init policy).run (pre ++ mid₁)) ∧
          Removes id til ((init policy).run (pre ++ mid₁)) call ∧
          (Along (Kept.CallOk keepsLedger) step ((init policy).run (pre ++ mid₁)) (call :: mid₂) →
            ∀ (k : EncounterId) (b : EncounterState), ((init policy).run (pre ++ mid)).encounters[k]? = some b →
              a.facts.Disjoint b.facts)) := by
  have hheld : a.phase.isHeld = true := by rw [hp]; rfl
  subst hcalls
  have hall := (Along.append_iff.mp h.prefix_of_append)
  have hclean := keptEach_clean.run (hall.1.mono fun e call hc => ⟨fun _ _ => trivial, hc.2.1, fun _ _ => trivial, trivial,
    fun _ _ => trivial⟩)
  have hrouted : ((init policy).run pre).Routed :=
    kept_routed.run (hall.1.mono fun e call hc => ⟨hc.1, fun _ _ => trivial, fun _ _ => trivial, trivial,
      fun _ _ => trivial⟩)
      fun s id hs => by simp [init] at hs
  have shows_ (l : List Call) (hl : Still id a ((init policy).run (pre ++ l))) :
      Shows id a ((init policy).run (pre ++ l)) :=
    hl.shows hheld (hclean id a ha hheld) (bookShows_run policy _) (bookSound_run policy _)
  have hrun (l : List Call) : (init policy).run (pre ++ l) = ((init policy).run pre).run l := List.foldl_append ..
  refine ⟨fun s hs => ?_, ?_⟩
  · obtain ⟨hl, reason', til', hph, h1, -, h2⟩ := ((bookSound_run policy pre) id a ha).frozen s hs
    rw [hp] at hph
    cases hph
    exact ⟨((bookSound_run policy pre) id a ha).snapshot s hl, h1, h2⟩
  · -- up to the first call that may remove it
    obtain hend | ⟨mid₁, call, mid₂, rfl, hstill, hout⟩ :=
      Along.invariant_until (P := Kept.CallOk (keepsHeld til)) (fun e call hI hc => (kept_still hp).step call hc hI) mid
        (⟨hrouted, a, ha, SameFacts.refl a⟩ : ((init policy).run pre).Routed ∧ Still id a ((init policy).run pre))
    · exact .inl (shows_ mid (by rw [hrun]; exact hend.2))
    · have hmid : mid₁.foldl step ((init policy).run pre) = (init policy).run (pre ++ mid₁) := (hrun mid₁).symm
      have hok : ∀ r ∈ ((init policy).run (pre ++ mid₁)).reductions call, r.SparesHeld := hmid ▸ hall.2.at_step.1
      rw [hmid] at hstill hout
      refine .inr ⟨mid₁, call, mid₂, rfl, shows_ mid₁ hstill.2, ?_⟩
      by_cases hw : ((init policy).run (pre ++ mid₁)).withdrawals call = []
      · have hle : til ≤ (((init policy).run (pre ++ mid₁)).handled call).now := by
          by_contra hlt
          refine hout ⟨hok, fun _ _ => trivial, ?_, Nat.lt_of_not_le hlt, fun _ _ => trivial⟩
          rw [hw]
          exact fun w hmem => absurd hmem List.not_mem_nil
        have hfinal := hstill.2.finalized hp hstill.1 hok hw
        refine ⟨.expired hle (gone_step (bookSound_run policy _) (settled_of_due hp hfinal hle).1), fun hkeeps k b hb => ?_⟩
        rw [← List.append_assoc] at hb
        exact disjoint_of_due hp hstill.2 hfinal hle hkeeps hb
      · obtain ⟨now, record, rfl, hof⟩ := ofRecord_of_withdrawals hw
        refine ⟨.withdrawn hw fun k b hb f hf => ?_, fun hkeeps => ?_⟩
        · have hledger := kept_ledgerOk.step (.apply now (.record record)) (Kept.callOk_trivial _ _)
            (ledgerOk_run policy (pre ++ mid₁))
          obtain ⟨fact, hfact⟩ := hledger.found hb hf
          exact ⟨fact, hfact, hof fact (List.mem_of_getElem? hfact)⟩
        · -- the ledger is not kept
          obtain ⟨w, hmem⟩ := List.exists_mem_of_ne_nil _ hw
          exact (hkeeps.1.2.2.1 w hmem).elim

/-- The reason and the end of a hold. -/
def heldFor : PhaseState → Option (EndReason × MonoTime)
  | .held reason til => some (reason, til)
  | _ => none

/-- The encounter of `A` is held until 10010. -/
def heldCalls : List Call :=
  Sample.register ['A', 'C', 'D'] ++
    [Sample.line 'A' 0 500 0 (Sample.hit Sample.you "r" 10), Sample.line 'A' 1 501 10 (Sample.slain "r"),
      .tick 2010]

/-- The held encounter is shown at 5000 and gone at 10010. -/
theorem held_immutable_ticks :
    ∃ a : EncounterState, ((init .mvpV1).run heldCalls).encounters["x:500:r:a".toList]? = some a ∧
      Shows "x:500:r:a".toList a ((init .mvpV1).run (heldCalls ++ [.tick 5000])) ∧
      Gone "x:500:r:a".toList ((init .mvpV1).run (heldCalls ++ [.tick 5000, .tick 10010])) := by
  have hphase : (((init .mvpV1).run heldCalls).encounters["x:500:r:a".toList]?).any (fun a =>
      heldFor a.phase = some (.allTargetsTerminal, 10010)) = true := by decide +kernel
  obtain ⟨a, ha, hp⟩ := (Option.any_eq_true _ _).mp hphase
  have hheld : a.phase = .held .allTargetsTerminal 10010 := by
    have hfor := of_decide_eq_true hp
    unfold heldFor at hfor
    split at hfor
    · next hphase =>
      cases hfor
      exact hphase
    · cases hfor
  have hmeets : Along (Kept.CallOk { reduction := Reduction.SparesHeld, finalizing := Finalizing.Projects }) step
      (init .mvpV1) (heldCalls ++ [.tick 5000, .tick 10010]) := by decide +kernel
  have honly {c call : Call} {mid₁ mid₂ : List Call} (h : [c] = mid₁ ++ call :: mid₂) : mid₁ = [] ∧ c = call := by
    obtain ⟨rfl, h⟩ | ⟨-, h⟩ := List.singleton_eq_append_iff.mp h
    · exact ⟨rfl, (List.cons.inj h).1⟩
    · cases h
  have hshows : Shows "x:500:r:a".toList a ((init .mvpV1).run (heldCalls ++ [.tick 5000])) := by
    refine (held_immutable .mvpV1 _ hmeets heldCalls [.tick 5000] [.tick 10010] rfl ha hheld).2.resolve_right ?_
    rintro ⟨mid₁, call, mid₂, hmid, -, hremoves, -⟩
    obtain ⟨rfl, rfl⟩ := honly hmid
    cases hremoves with
    | expired due => exact absurd due (by decide +kernel)
  refine ⟨a, ha, hshows, ?_⟩
  obtain ⟨b, hb, hsame⟩ := hshows.still
  obtain hshows | ⟨mid₁, call, mid₂, hmid, -, hremoves, -⟩ :=
    (held_immutable .mvpV1 _ hmeets (heldCalls ++ [.tick 5000]) [.tick 10010] [] rfl hb (hsame.phase.trans hheld)).2
  · have hremoved : (((init .mvpV1).run (heldCalls ++ [.tick 5000] ++ [.tick 10010])).encounters["x:500:r:a".toList]?).isNone =
        true := by decide +kernel
    obtain ⟨c, hc, -⟩ := hshows.still
    rw [Option.isNone_iff_eq_none.mp hremoved] at hc
    cases hc
  · obtain ⟨rfl, rfl⟩ := honly hmid
    cases hremoves with
    | expired _ gone => exact gone

/-- `C` reports a hit of `A` under the id of the held encounter, then one of `D`. -/
def heldMerged : List Call :=
  [Sample.line 'C' 0 500 3000 (Sample.hit (Sample.named "A") "r" 7),
    Sample.line 'D' 0 505 3010 (Sample.hit Sample.you "s" 5),
    Sample.line 'C' 1 505 3020 (Sample.hit (Sample.named "D") "s" 5)]

/-- A snapshot held until 10010 is gone from the book at 3020, where its encounter is active again. -/
theorem held_snapshot_merged :
    ∃ s ∈ ((init .mvpV1).run heldCalls).currentBook.encounters, s.phase = .held ∧ s.heldUntil = some 10010 ∧
      s ∉ ((init .mvpV1).run (heldCalls ++ heldMerged)).currentBook.encounters ∧
      ∃ a : EncounterState, ((init .mvpV1).run (heldCalls ++ heldMerged)).encounters[s.id]? = some a ∧
        a.phase.shown = .active := by
  have h : ((init .mvpV1).run heldCalls).currentBook.encounters.any (fun s =>
      decide (s.phase = .held) && decide (s.heldUntil = some 10010) &&
      decide (s ∉ ((init .mvpV1).run (heldCalls ++ heldMerged)).currentBook.encounters) &&
      (((init .mvpV1).run (heldCalls ++ heldMerged)).encounters[s.id]?).any
        (fun a => decide (a.phase.shown = .active))) = true := by decide +kernel
  obtain ⟨s, hs, h⟩ := List.any_eq_true.mp h
  simp only [Bool.and_eq_true, decide_eq_true_eq, Option.any_eq_true] at h
  obtain ⟨⟨⟨h1, h2⟩, h3⟩, a, ha, hp⟩ := h
  exact ⟨s, hs, h1, h2, h3, a, ha, hp⟩

end CombatEngine
end Stonemite.Combat
