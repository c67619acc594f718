import Stonemite.Trushar.State
import Stonemite.Lib.TreeMap
import Stonemite.Lib.Run
import Stonemite.Lib.Lists

/-!
# Client ids

The mapper gives each source client an id for as long as it is loaded. The number of the last id given out is above that
of every id in use or retired (`SnapshotMapper.Ok`), so an id is never given out twice while the counter can still count.
`Live` says what a run of rosters gives a client that stays, and `ids_stable` collects the three parts.
-/

open Std

namespace Stonemite.Trushar

/-- A client as the tray knows it, under its private key. -/
structure SourceClient where
  privateKey : Nat
  character : Option Str
  server : Option Str
  classCode : Option Str
  windowNumber : Nat
  active : Bool
  activatable : Bool
  inputReady : Bool
deriving DecidableEq, Repr

/-- The retired ids are kept in order, the latest 256 of them. -/
structure SnapshotMapper where
  ids : ExtTreeMap Nat ClientId
  retiredIds : List ClientId
  nextId : Nat

/-- `client-{:016x}`. -/
def formatClientId (n : Nat) : ClientId :=
  "client-".toList ++ (List.replicate (16 - (Nat.toDigits 16 n).length) '0' ++ Nat.toDigits 16 n)

namespace SnapshotMapper

def default : SnapshotMapper := ⟨∅, [], 0⟩

/-- The id of a source that is no longer loaded is retired. -/
def retire (mapper : SnapshotMapper) (key : Nat) : SnapshotMapper :=
  match mapper.ids[key]? with
  | none => mapper
  | some id =>
    let retired := mapper.retiredIds ++ [id]
    { mapper with
      ids := mapper.ids.erase key
      retiredIds := if retired.length > 256 then retired.drop 1 else retired }

/-- The id of a source, a new one if it has none. -/
def idFor (mapper : SnapshotMapper) (key : Nat) : SnapshotMapper × ClientId :=
  match mapper.ids[key]? with
  | some id => (mapper, id)
  | none =>
    let nextId := min (mapper.nextId + 1) (2 ^ 64 - 1)
    ({ mapper with ids := mapper.ids.insert key (formatClientId nextId), nextId := nextId }, formatClientId nextId)

/-- The state of a client as it is published, under its opaque id. -/
def clientOf (source : SourceClient) (id : ClientId) : ClientState where
  id := id
  character := source.character
  server := source.server
  classCode := source.classCode
  windowNumber := source.windowNumber
  active := source.active
  activatable := source.activatable
  inputReady := source.inputReady
  xtarget := {}

/-- The sources that are no longer loaded are retired in the order of their keys, where the source leaves the order
open. -/
def retireGone (mapper : SnapshotMapper) (sources : List SourceClient) : SnapshotMapper :=
  ((mapper.ids.toList.map (·.1)).filter fun key => !(sources.map (·.privateKey)).contains key).foldl retire mapper

/-- One client is given its id and added to the list. -/
def mapSource (s : SnapshotMapper × List ClientState) (source : SourceClient) : SnapshotMapper × List ClientState :=
  let (mapper, id) := s.1.idFor source.privateKey
  (mapper, s.2 ++ [clientOf source id])

/-- `map`: the ids of the clients that are there, with their states. -/
def map (mapper : SnapshotMapper) (sources : List SourceClient) (broadcast : BroadcastState) :
    SnapshotMapper × StateData :=
  let (mapper, clients) := sources.foldl mapSource (mapper.retireGone sources, [])
  let clients := sortBy (fun a b => compare a.windowNumber b.windowNumber) clients
  let inputAvailable := broadcast.available && clients.any (·.inputReady)
  (mapper, {
    clients := clients
    broadcast := broadcast
    mouseClutch := .unavailable
    capabilities := {
      activate := true
      swapWindowNumbers := true
      setBroadcast := broadcast.available
      setMouseClutch := false
      sendText := inputAvailable
      sendKeys := inputAvailable
      eqActions := .available inputAvailable } })

end SnapshotMapper

/-! ### Ids -/

/-- The value of a hexadecimal digit. -/
def hexValue (c : Char) : Nat := if c.isDigit then c.toNat - '0'.toNat else c.toNat - 'a'.toNat + 10

/-- The number a text of hexadecimal digits stands for. -/
def ofHex (s : Str) : Nat := s.foldl (fun n c => 16 * n + hexValue c) 0

theorem hexValue_digitChar : ∀ d < 16, hexValue (Nat.digitChar d) = d := by decide

theorem ofHex_toDigits (n : Nat) : ofHex (Nat.toDigits 16 n) = n := by
  induction n using Nat.strongRecOn with
  | ind n ih =>
    rw [Nat.toDigits_eq_if (by decide)]
    split
    · rename_i hlt
      simp [ofHex, hexValue_digitChar n hlt]
    · have hdigit := hexValue_digitChar (n % 16) (Nat.mod_lt _ (by decide))
      have hrest := ih (n / 16) (by omega)
      rw [ofHex] at hrest ⊢
      rw [List.foldl_append, hrest, List.foldl_cons, List.foldl_nil, hdigit]
      omega

theorem ofHex_zeros (k : Nat) (s : Str) : ofHex (List.replicate k '0' ++ s) = ofHex s := by
  induction k with
  | zero => rfl
  | succ k ih =>
    rw [List.replicate_succ, List.cons_append, ← ih]
    rfl

theorem formatClientId_injective {m n : Nat} (h : formatClientId m = formatClientId n) : m = n := by
  have hdigits := List.append_cancel_left h
  have hvalue := congrArg ofHex hdigits
  rwa [ofHex_zeros, ofHex_zeros, ofHex_toDigits, ofHex_toDigits] at hvalue

/-! ### What a snapshot does to the ids -/

namespace SnapshotMapper
variable {m m' m'' : SnapshotMapper} {key key' : Nat} {id : ClientId} {live : List Nat}

/-- Ids in use have numbers the counter has reached, and no two sources have the same. -/
structure Ok (m : SnapshotMapper) : Prop where
  issued : ∀ (key : Nat) (id : ClientId), m.ids[key]? = some id → ∃ n ≤ m.nextId, id = formatClientId n
  inj : ∀ (key key' : Nat) (id : ClientId), m.ids[key]? = some id → m.ids[key']? = some id → key = key'

/-- A number given out before is in use only where it was. -/
structure Later (m m' : SnapshotMapper) : Prop where
  nextId : m.nextId ≤ m'.nextId
  old : ∀ key : Nat, ∀ n ≤ m.nextId, m'.ids[key]? = some (formatClientId n) → m.ids[key]? = some (formatClientId n)

theorem Later.refl (m : SnapshotMapper) : m.Later m := ⟨le_rfl, fun _ _ _ h => h⟩

theorem Later.trans (h : m.Later m') (h' : m'.Later m'') : m.Later m'' :=
  ⟨h.nextId.trans h'.nextId, fun key n hn hid => h.old key n hn (h'.old key n (hn.trans h.nextId) hid)⟩

/-- The sources that have an id. -/
def Live (m : SnapshotMapper) (live : List Nat) : Prop := ∀ key, key ∈ live ↔ ∃ id, m.ids[key]? = some id

theorem retire_ids (m : SnapshotMapper) (key key' : Nat) :
    (m.retire key).ids[key']? = if key = key' then none else m.ids[key']? := by
  unfold retire
  cases hid : m.ids[key]? with
  | none =>
    by_cases hkey : key = key'
    · rw [if_pos hkey, ← hkey]
      exact hid
    · exact (if_neg hkey).symm
  | some id => exact ExtTreeMap.getElem?_erase_ite key key'

theorem retire_nextId (m : SnapshotMapper) (key : Nat) : (m.retire key).nextId = m.nextId := by
  unfold retire
  split <;> rfl

theorem foldl_retire_ids (keys : List Nat) (m : SnapshotMapper) (key : Nat) :
    (keys.foldl retire m).ids[key]? = if key ∈ keys then none else m.ids[key]? := by
  induction keys generalizing m with
  | nil => simp
  | cons k keys ih =>
    rw [List.foldl_cons, ih, retire_ids]
    by_cases hk : k = key
    · simp [hk]
    · simp [hk, Ne.symm hk]

theorem foldl_retire_nextId (keys : List Nat) (m : SnapshotMapper) : (keys.foldl retire m).nextId = m.nextId := by
  induction keys generalizing m with
  | nil => rfl
  | cons k keys ih => rw [List.foldl_cons, ih, retire_nextId]

theorem retireGone_ids (m : SnapshotMapper) (sources : List SourceClient) (key : Nat) :
    (m.retireGone sources).ids[key]? = if key ∈ sources.map (·.privateKey) then m.ids[key]? else none := by
  rw [retireGone, foldl_retire_ids]
  by_cases hkey : key ∈ sources.map (·.privateKey)
  · have hnot : key ∉ (m.ids.toList.map (·.1)).filter fun key => !(sources.map (·.privateKey)).contains key := by
      intro hmem
      have hgone := (List.mem_filter.mp hmem).2
      rw [List.contains_iff_mem.mpr hkey] at hgone
      cases hgone
    rw [if_neg hnot, if_pos hkey]
  · rw [if_neg hkey]
    cases hid : m.ids[key]? with
    | none => split <;> rfl
    | some id =>
      refine if_pos (List.mem_filter.mpr ⟨List.mem_map.mpr ⟨(key, id), ExtTreeMap.mem_toList_of_lookup hid, rfl⟩, ?_⟩)
      rw [Bool.not_eq_true', ← Bool.not_eq_true, List.contains_iff_mem]
      exact hkey

theorem retireGone_nextId (m : SnapshotMapper) (sources : List SourceClient) :
    (m.retireGone sources).nextId = m.nextId := foldl_retire_nextId _ _

theorem retireGone_later (m : SnapshotMapper) (sources : List SourceClient) : m.Later (m.retireGone sources) := by
  refine ⟨(retireGone_nextId m sources).ge, fun key n _ hid => ?_⟩
  rw [retireGone_ids] at hid
  split at hid
  · exact hid
  · cases hid

theorem Ok.retireGone (h : m.Ok) (sources : List SourceClient) : (m.retireGone sources).Ok := by
  have hsub (key : Nat) (id : ClientId) (hid : (m.retireGone sources).ids[key]? = some id) : m.ids[key]? = some id := by
    rw [retireGone_ids] at hid
    split at hid
    · exact hid
    · cases hid
  refine ⟨fun key id hid => ?_, fun key key' id hid hid' => h.inj key key' id (hsub _ _ hid) (hsub _ _ hid')⟩
  rw [retireGone_nextId]
  exact h.issued key id (hsub _ _ hid)

/-- How many of the keys are not live when they come. -/
def arrivals : List Nat → List Nat → Nat
  | _, [] => 0
  | live, key :: keys => if key ∈ live then arrivals live keys else arrivals (key :: live) keys + 1

/-- What the ids are after the sources have been mapped. -/
structure Mapped (m : SnapshotMapper) (live : List Nat) (sources : List SourceClient) (result : SnapshotMapper × List ClientState)
    (clients : List ClientState) : Prop where
  ok : result.1.Ok
  later : m.Later result.1
  nextId : result.1.nextId = m.nextId + arrivals live (sources.map (·.privateKey))
  keeps : ∀ (key : Nat) (id : ClientId), m.ids[key]? = some id → result.1.ids[key]? = some id
  live : result.1.Live (live ++ sources.map (·.privateKey))
  clients : result.2 = clients ++ sources.map fun source => clientOf source ((result.1.ids[source.privateKey]?).getD [])

theorem idFor_of_live (h : m.ids[key]? = some id) : m.idFor key = (m, id) := by
  unfold idFor
  rw [h]

/-- A new source gets the next number, while the counter can count. -/
theorem idFor_of_new (h : m.ids[key]? = none) (hnext : m.nextId < 2 ^ 64 - 1) :
    m.idFor key = ({ m with
      ids := m.ids.insert key (formatClientId (m.nextId + 1))
      nextId := m.nextId + 1 }, formatClientId (m.nextId + 1)) := by
  have hmin : min (m.nextId + 1) (2 ^ 64 - 1) = m.nextId + 1 := min_eq_left hnext
  unfold idFor
  rw [h]
  dsimp only
  rw [hmin]

theorem new_ok (h : m.Ok) (key : Nat) : Ok { m with
    ids := m.ids.insert key (formatClientId (m.nextId + 1))
    nextId := m.nextId + 1 } := by
  have hfresh (key' : Nat) (hid : m.ids[key']? = some (formatClientId (m.nextId + 1))) : False := by
    obtain ⟨n, hn, hformat⟩ := h.issued key' _ hid
    have heq := formatClientId_injective hformat
    omega
  constructor
  · intro key' id hid
    rw [ExtTreeMap.getElem?_insert_ite] at hid
    split at hid
    · cases hid
      exact ⟨_, le_rfl, rfl⟩
    · obtain ⟨n, hn, hformat⟩ := h.issued key' id hid
      exact ⟨n, Nat.le_succ_of_le hn, hformat⟩
  · intro a b id ha hb
    rw [ExtTreeMap.getElem?_insert_ite] at ha hb
    split at ha
    · cases ha
      split at hb
      · rename_i h1 h2
        exact h1.symm.trans h2
      · exact absurd hb (hfresh b)
    · split at hb
      · cases hb
        exact absurd ha (hfresh a)
      · exact h.inj a b id ha hb

theorem new_later (m : SnapshotMapper) (key : Nat) : m.Later { m with
    ids := m.ids.insert key (formatClientId (m.nextId + 1))
    nextId := m.nextId + 1 } := by
  refine ⟨Nat.le_succ _, fun key' n hn hid => ?_⟩
  rw [ExtTreeMap.getElem?_insert_ite] at hid
  split at hid
  · have heq := formatClientId_injective (Option.some.inj hid)
    omega
  · exact hid

theorem mapped {m : SnapshotMapper} {live : List Nat} (sources : List SourceClient) (h : m.Ok) (hlive : m.Live live)
    (hbound : m.nextId + arrivals live (sources.map (·.privateKey)) ≤ 2 ^ 64 - 1) (clients : List ClientState) :
    Mapped m live sources (sources.foldl mapSource (m, clients)) clients := by
  induction sources generalizing m live clients with
  | nil => exact ⟨h, .refl m, rfl, fun _ _ hid => hid, by simpa using hlive, by simp⟩
  | cons source sources ih =>
    rw [List.foldl_cons]
    rw [List.map_cons, arrivals] at hbound
    by_cases hmem : source.privateKey ∈ live
    · obtain ⟨id, hid⟩ := (hlive _).mp hmem
      have hstep : mapSource (m, clients) source = (m, clients ++ [clientOf source id]) := by
        rw [mapSource, idFor_of_live hid]
      rw [if_pos hmem] at hbound
      rw [hstep]
      have ih := ih h hlive hbound (clients ++ [clientOf source id])
      refine ⟨ih.ok, ih.later, ?_, ih.keeps, fun key => ?_, ?_⟩
      · rw [ih.nextId, List.map_cons, arrivals, if_pos hmem]
      · rw [← ih.live key, List.map_cons, List.mem_append, List.mem_append, List.mem_cons]
        constructor
        · rintro (hkey | rfl | hkey)
          · exact .inl hkey
          · exact .inl hmem
          · exact .inr hkey
        · rintro (hkey | hkey)
          · exact .inl hkey
          · exact .inr (.inr hkey)
      · rw [ih.clients, List.map_cons, ih.keeps _ _ hid, List.append_assoc]
        rfl
    · have hnone : m.ids[source.privateKey]? = none := by
        by_contra hsome
        exact hmem ((hlive _).mpr (Option.ne_none_iff_exists'.mp hsome))
      rw [if_neg hmem] at hbound
      have hnext : m.nextId < 2 ^ 64 - 1 := by omega
      have hstep : mapSource (m, clients) source = ({ m with
          ids := m.ids.insert source.privateKey (formatClientId (m.nextId + 1))
          nextId := m.nextId + 1 }, clients ++ [clientOf source (formatClientId (m.nextId + 1))]) := by
        rw [mapSource, idFor_of_new hnone hnext]
      have hnew := new_later m source.privateKey
      have hok := new_ok h source.privateKey
      rw [hstep]
      generalize hm : ({ m with
        ids := m.ids.insert source.privateKey (formatClientId (m.nextId + 1))
        nextId := m.nextId + 1 } : SnapshotMapper) = m' at hnew hok ⊢
      have hids (key : Nat) : m'.ids[key]? =
          if source.privateKey = key then some (formatClientId (m.nextId + 1)) else m.ids[key]? := by
        rw [← hm]
        exact ExtTreeMap.getElem?_insert_ite _ _ _
      have hnextId : m'.nextId = m.nextId + 1 := by rw [← hm]
      have hlive' : m'.Live (source.privateKey :: live) := fun key => by
        rw [hids, List.mem_cons]
        by_cases hkey : source.privateKey = key
        · rw [if_pos hkey]
          exact ⟨fun _ => ⟨_, rfl⟩, fun _ => .inl hkey.symm⟩
        · rw [if_neg hkey, ← hlive key]
          exact ⟨fun hor => hor.resolve_left (Ne.symm hkey), .inr⟩
      have ih := ih hok hlive' (by omega) (clients ++ [clientOf source (formatClientId (m.nextId + 1))])
      have hself : m'.ids[source.privateKey]? = some (formatClientId (m.nextId + 1)) := by rw [hids, if_pos rfl]
      refine ⟨ih.ok, hnew.trans ih.later, ?_, fun key id hid => ih.keeps key id ?_, fun key => ?_, ?_⟩
      · rw [ih.nextId, List.map_cons, arrivals, if_neg hmem, hnextId]
        omega
      · have hkey : source.privateKey ≠ key := by
          rintro rfl
          rw [hnone] at hid
          cases hid
        rw [hids, if_neg hkey]
        exact hid
      · rw [← ih.live key, List.map_cons, List.mem_append, List.mem_append, List.mem_cons, List.mem_cons]
        tauto
      · rw [ih.clients, List.map_cons, ih.keeps _ _ hself, List.append_assoc]
        rfl

/-! ### Runs -/

/-- A roster with the broadcast state it is published with. -/
abbrev Roster := List SourceClient × BroadcastState

/-- The private keys of the clients of a roster. -/
def Roster.keys (roster : Roster) : List Nat := roster.1.map (·.privateKey)

def mapRoster (m : SnapshotMapper) (roster : Roster) : SnapshotMapper := (m.map roster.1 roster.2).1

/-- How many ids the rosters ask for: one for each source that was not in the roster before. -/
def issued : List Nat → List Roster → Nat
  | _, [] => 0
  | live, roster :: rosters =>
    arrivals (live.filter fun key => roster.keys.contains key) roster.keys + issued roster.keys rosters

/-- What a roster does to the ids. -/
structure Step (m : SnapshotMapper) (roster : Roster) : Prop where
  ok : (m.mapRoster roster).Ok
  later : m.Later (m.mapRoster roster)
  live : (m.mapRoster roster).Live roster.keys
  keeps : ∀ (key : Nat) (id : ClientId), m.ids[key]? = some id → key ∈ roster.keys →
    (m.mapRoster roster).ids[key]? = some id
  clients : (m.map roster.1 roster.2).2.clients.Perm
    (roster.1.map fun source => clientOf source (((m.mapRoster roster).ids[source.privateKey]?).getD []))

theorem step (h : m.Ok) (hlive : m.Live live) (roster : Roster)
    (hbound : m.nextId + arrivals (live.filter fun key => roster.keys.contains key) roster.keys ≤ 2 ^ 64 - 1) :
    m.Step roster ∧
      (m.mapRoster roster).nextId = m.nextId + arrivals (live.filter fun key => roster.keys.contains key) roster.keys := by
  have hids (key : Nat) : (m.retireGone roster.1).ids[key]? = if key ∈ roster.keys then m.ids[key]? else none :=
    retireGone_ids m roster.1 key
  have hgone : (m.retireGone roster.1).Live (live.filter fun key => roster.keys.contains key) := fun key => by
    rw [hids, List.mem_filter, List.contains_iff_mem]
    by_cases hkey : key ∈ roster.keys
    · rw [if_pos hkey, ← hlive key]
      exact ⟨fun h => h.1, fun h => ⟨h, hkey⟩⟩
    · rw [if_neg hkey]
      exact ⟨fun h => absurd h.2 hkey, fun ⟨id, hid⟩ => nomatch hid⟩
  have hmapped := mapped roster.1 (h.retireGone roster.1) hgone (by rw [retireGone_nextId]; exact hbound) []
  refine ⟨⟨hmapped.ok, (retireGone_later m roster.1).trans hmapped.later, fun key => ?_, fun key id hid hkey => ?_, ?_⟩, ?_⟩
  · refine Iff.trans ?_ (hmapped.live key)
    rw [List.mem_append, List.mem_filter, List.contains_iff_mem]
    exact ⟨.inr, fun hor => hor.elim (·.2) id⟩
  · refine hmapped.keeps key id ?_
    rw [hids, if_pos hkey]
    exact hid
  · refine (sortBy_perm _).trans ?_
    rw [hmapped.clients]
    exact .refl _
  · rw [← retireGone_nextId m roster.1]
    exact hmapped.nextId

/-- The mapper after the rosters, one after the other. -/
def run (rosters : List Roster) : SnapshotMapper := rosters.foldl mapRoster default

theorem run_later {m : SnapshotMapper} {live : List Nat} (rosters : List Roster) (h : m.Ok) (hlive : m.Live live)
    (hbound : m.nextId + issued live rosters ≤ 2 ^ 64 - 1) :
    (rosters.foldl mapRoster m).Ok ∧ m.Later (rosters.foldl mapRoster m) ∧
      (rosters.foldl mapRoster m).nextId = m.nextId + issued live rosters ∧
      (rosters.foldl mapRoster m).Live ((rosters.getLast?.map Roster.keys).getD live) ∧
      ∀ (key : Nat) (id : ClientId), m.ids[key]? = some id →
        ((rosters.foldl mapRoster m).ids[key]? = some id ↔ ∀ roster ∈ rosters, key ∈ roster.keys) := by
  induction rosters generalizing m live with
  | nil => exact ⟨h, .refl m, rfl, hlive, fun key id hid => ⟨fun _ _ hmem => (List.not_mem_nil hmem).elim, fun _ => hid⟩⟩
  | cons roster rosters ih =>
    rw [issued] at hbound
    obtain ⟨hstep, hnext⟩ := step h hlive roster (by omega)
    obtain ⟨hok, hlater, hnextId, hlast, hkeep⟩ := ih hstep.ok hstep.live (by omega)
    rw [List.foldl_cons]
    refine ⟨hok, hstep.later.trans hlater, ?_, ?_, fun key id hid => ⟨fun hafter => ?_, fun hall => ?_⟩⟩
    · rw [hnextId, hnext, issued]
      omega
    · cases hrosters : rosters.getLast? with
      | none =>
        rw [hrosters] at hlast
        rw [List.getLast?_eq_none_iff.mp hrosters]
        rw [List.getLast?_eq_none_iff.mp hrosters] at hlast
        exact hlast
      | some last =>
        rw [hrosters] at hlast
        rw [List.getLast?_cons, hrosters]
        exact hlast
    · obtain ⟨n, hn, rfl⟩ := h.issued key id hid
      have hmid := hlater.old key n (hn.trans hstep.later.nextId) hafter
      have hall := (hkeep key _ hmid).mp hafter
      exact List.forall_mem_cons.mpr ⟨(hstep.live key).mpr ⟨_, hmid⟩, hall⟩
    · obtain ⟨hkey, hall⟩ := List.forall_mem_cons.mp hall
      exact (hkeep key id (hstep.keeps key id hid hkey)).mpr hall

theorem issued_append (live : List Nat) (l l' : List Roster) :
    issued live (l ++ l') = issued live l + issued ((l.getLast?.map Roster.keys).getD live) l' := by
  induction l generalizing live with
  | nil => exact (Nat.zero_add _).symm
  | cons roster l ih =>
    have hlast : (((roster :: l).getLast?.map Roster.keys).getD live) = (l.getLast?.map Roster.keys).getD roster.keys := by
      cases hl : l.getLast? with
      | none =>
        rw [List.getLast?_eq_none_iff.mp hl]
        rfl
      | some last =>
        rw [List.getLast?_cons, hl]
        rfl
    rw [List.cons_append, issued, issued, ih, hlast, Nat.add_assoc]

theorem default_ok : default.Ok := by
  have hempty (key : Nat) (id : ClientId) (hid : default.ids[key]? = some id) : False := by
    have hid : (∅ : ExtTreeMap Nat ClientId)[key]? = some id := hid
    rw [ExtTreeMap.getElem?_empty] at hid
    cases hid
  exact ⟨fun key id hid => (hempty key id hid).elim, fun key _ id hid => (hempty key id hid).elim⟩

theorem default_live : default.Live [] := by
  intro key
  have hnone : default.ids[key]? = none := ExtTreeMap.getElem?_empty
  rw [hnone]
  exact ⟨fun hmem => (List.not_mem_nil hmem).elim, fun ⟨id, hid⟩ => nomatch hid⟩

/-- Ids over a run that asks for no more than the counter can count: two clients with the same id, at the same time
or one after the other, are one client that was in every roster between; such a client keeps its id; and each
client of a snapshot is published with the id of its source. -/
theorem ids_stable (before between : List Roster) (hbound : issued [] (before ++ between) ≤ 2 ^ 64 - 1) :
    (∀ (key key' : Nat) (id : ClientId), (run before).ids[key]? = some id →
      (run (before ++ between)).ids[key']? = some id → key = key' ∧ ∀ roster ∈ between, key ∈ roster.keys) ∧
    (∀ (key : Nat) (id : ClientId), (run before).ids[key]? = some id → (∀ roster ∈ between, key ∈ roster.keys) →
      (run (before ++ between)).ids[key]? = some id) ∧
    ∀ rest roster, before = rest ++ [roster] →
      (∀ key : Nat, key ∈ roster.keys ↔ ∃ id, (run before).ids[key]? = some id) ∧
      ((run rest).map roster.1 roster.2).2.clients.Perm
        (roster.1.map fun source => clientOf source (((run before).ids[source.privateKey]?).getD [])) := by
  rw [issued_append] at hbound
  have hzero : default.nextId = 0 := rfl
  obtain ⟨hok, -, hnextId, hlive, -⟩ := run_later before default_ok default_live (by omega)
  have hbetween := run_later between hok hlive (by omega)
  rw [← List.foldl_append] at hbetween
  obtain ⟨-, hlater, -, -, hkeep⟩ := hbetween
  refine ⟨fun key key' id hid hid' => ?_, fun key id hid hall => (hkeep key id hid).mpr hall, ?_⟩
  · obtain ⟨n, hn, rfl⟩ := hok.issued key id hid
    have hold := hlater.old key' n hn hid'
    obtain rfl := hok.inj key key' _ hid hold
    exact ⟨rfl, (hkeep key _ hid).mp hid'⟩
  · rintro rest roster rfl
    have hbound' : default.nextId + issued [] (rest ++ [roster]) ≤ 2 ^ 64 - 1 := by omega
    rw [issued_append, issued, issued, Nat.add_zero] at hbound'
    obtain ⟨hok', -, hnextId', hlive', -⟩ := run_later rest default_ok default_live (by omega)
    obtain ⟨hstep, -⟩ := step hok' hlive' roster (by omega)
    rw [run, List.foldl_append]
    exact ⟨hstep.live, hstep.clients⟩

/-- One client leaves, another stays and a third comes. -/
theorem ids_stable_three :
    let source (key : Nat) : SourceClient := ⟨key, none, none, none, key, true, true, true⟩
    (run [([source 1, source 2], ⟨true, false⟩), ([source 2, source 3], ⟨true, false⟩)]).ids[2]? =
      (run [([source 1, source 2], ⟨true, false⟩)]).ids[2]? := by
  intro source
  have hstable := ids_stable [([source 1, source 2], ⟨true, false⟩)] [([source 2, source 3], ⟨true, false⟩)] (by decide)
  have hid : (run [([source 1, source 2], ⟨true, false⟩)]).ids[2]? = some "client-0000000000000002".toList := by decide
  rw [hid]
  exact hstable.2.1 2 _ hid (by decide)

/-! ### The end of the counter -/

/-- A client of which nothing but the key is known. -/
def lone (key : Nat) : SourceClient := ⟨key, none, none, none, 1, true, true, true⟩

/-- A roster of one client. -/
def single (key : Nat) : Roster := ([lone key], ⟨true, false⟩)

/-- Two clients by turns. -/
def byTurns (n : Nat) : List Roster := (List.range n).map fun i => single (i % 2)

theorem byTurns_succ (n : Nat) : byTurns (n + 1) = byTurns n ++ [single (n % 2)] := by
  rw [byTurns, List.range_succ, List.map_append]
  rfl

/-- A client that was not there before gets the number after the last one, or the last one there is. -/
theorem mapRoster_single (hnew : m.ids[key]? = none) :
    (m.mapRoster (single key)).nextId = min (m.nextId + 1) (2 ^ 64 - 1) ∧
      ∀ key' : Nat, (m.mapRoster (single key)).ids[key']? =
        if key = key' then some (formatClientId (min (m.nextId + 1) (2 ^ 64 - 1))) else none := by
  have hids (key' : Nat) : (m.retireGone (single key).1).ids[key']? = none := by
    rw [retireGone_ids]
    split
    · rename_i hmem
      obtain rfl := List.mem_singleton.mp hmem
      exact hnew
    · rfl
  have hmap : m.mapRoster (single key) = (mapSource (m.retireGone (single key).1, []) (lone key)).1 := rfl
  rw [hmap, mapSource, idFor]
  have hself : (m.retireGone (single key).1).ids[(lone key).privateKey]? = none := hids _
  rw [hself]
  dsimp only
  rw [retireGone_nextId]
  refine ⟨rfl, fun key' => ?_⟩
  rw [ExtTreeMap.getElem?_insert_ite, hids]
  rfl

/-- Each of the two gets a new number at every turn, until the counter stays where it is. -/
theorem run_byTurns (n : Nat) : (run (byTurns n)).nextId = min n (2 ^ 64 - 1) ∧
    ∀ key : Nat, (run (byTurns n)).ids[key]? =
      if 0 < n ∧ key = (n + 1) % 2 then some (formatClientId (min n (2 ^ 64 - 1))) else none := by
  induction n with
  | zero =>
    refine ⟨rfl, fun key => ?_⟩
    rw [if_neg (fun h => absurd h.1 (by decide))]
    exact ExtTreeMap.getElem?_empty
  | succ n ih =>
    obtain ⟨hnext, hids⟩ := ih
    have hnew : (run (byTurns n)).ids[n % 2]? = none := by
      rw [hids, if_neg]
      omega
    obtain ⟨hnext', hids'⟩ := mapRoster_single hnew
    have hrun : run (byTurns (n + 1)) = (run (byTurns n)).mapRoster (single (n % 2)) := by
      rw [byTurns_succ, run, List.foldl_append]
      rfl
    have hmin : min (min n (2 ^ 64 - 1) + 1) (2 ^ 64 - 1) = min (n + 1) (2 ^ 64 - 1) := by omega
    rw [hrun, hnext', hnext, hmin]
    refine ⟨rfl, fun key => ?_⟩
    rw [hids', hnext, hmin]
    have hkey : n % 2 = key ↔ 0 < n + 1 ∧ key = (n + 1 + 1) % 2 := by omega
    rw [if_congr hkey rfl rfl]

/-- When the counter is at its end, a new client gets the id of the client that just left. -/
theorem ids_reissued : ∃ id : ClientId, (run (byTurns (2 ^ 64 - 1))).ids[0]? = some id ∧
    (run (byTurns (2 ^ 64 - 1) ++ [single 1])).ids[1]? = some id := by
  have hbefore := (run_byTurns (2 ^ 64 - 1)).2 0
  have hafter := (run_byTurns (2 ^ 64 - 1 + 1)).2 1
  rw [byTurns_succ] at hafter
  have hzero : (0 : Nat) < 2 ^ 64 - 1 ∧ 0 = (2 ^ 64 - 1 + 1) % 2 := by omega
  have hone : (0 : Nat) < 2 ^ 64 - 1 + 1 ∧ 1 = (2 ^ 64 - 1 + 1 + 1) % 2 := by omega
  have hparity : (2 ^ 64 - 1) % 2 = 1 := by omega
  have hmin : min (2 ^ 64 - 1 + 1) (2 ^ 64 - 1) = min (2 ^ 64 - 1) (2 ^ 64 - 1) := by omega
  rw [if_pos hzero] at hbefore
  rw [if_pos hone, hparity, hmin] at hafter
  exact ⟨_, hbefore, hafter⟩

end SnapshotMapper

end Stonemite.Trushar
