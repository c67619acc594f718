import Stonemite.Trigger.Eqlp
import Stonemite.Lib.Parsing

/-!
# Loading the trigger library

A library file that does not decode as a whole is salvaged: each list field record by record, with what does not decode
put aside in `quarantine/`. The JSON reader and the decoders are parameters. The document lists its members as the text
has them; of two of one name the last counts. `NothingLost` is the promise and `Salvageable` the condition on the
document; the loop over the fields keeps what was salvaged before, and `salvage_loses_nothing_iff` is the equivalence.
-/

namespace Stonemite.Triggers

def schemaVersion : Nat := 1

/-- The six record lists of a library file. -/
inductive RecordKind
  | folder
  | trigger
  | profile
  | textOverlay
  | timerOverlay
  | asset
deriving DecidableEq, Repr

namespace RecordKind

def field : RecordKind → String
  | folder => "folders"
  | trigger => "triggers"
  | profile => "profiles"
  | textOverlay => "textOverlays"
  | timerOverlay => "timerOverlays"
  | asset => "assets"

/-- The kinds in the order in which they are salvaged. -/
def all : List RecordKind := [folder, trigger, profile, textOverlay, timerOverlay, asset]

end RecordKind

structure StoredLibrary (Record : RecordKind → Type) where
  schemaVersion : Nat
  records : ∀ kind, List (Record kind)

/-- The JSON of the library and its records. -/
structure StoreCodec (N : Type) (Record : RecordKind → Type) where
  parse : Str → Option (Json N)
  decodeLibrary : Str → Option (StoredLibrary Record)
  decode : ∀ kind, Json N → Except Str (Record kind)
  asU64 : N → Option Nat
  pretty : Json N → Str

/-- What the file system and the clock answer: the time at which the record at a position of a field is put aside, and whether
a file of `quarantine/` can be written; the answers of the backups, the newest first. -/
structure StoreAnswers where
  clock : Str → Nat → Nat
  writable : Str → Bool
  backups : List (Str × Except Str (Option Str))
  damagedAt : Nat

/-- `written` are the files of `quarantine/` that the load has written, with their text. -/
structure LoadOutcome (Record : RecordKind → Type) where
  library : StoredLibrary Record
  issues : List CompatIssue := []
  written : List (Str × Str) := []

variable {N : Type} {Record : RecordKind → Type}

/-- All members of a name. -/
def Json.members (document : List (Str × Json N)) (name : Str) : List (Json N) :=
  (document.filter fun member => member.1 = name).map (·.2)

/-- The member of the name, the last one where there are several. -/
def Json.member (document : List (Str × Json N)) (name : Str) : Option (Json N) := (Json.members document name).getLast?

def StoredLibrary.new : StoredLibrary Record := ⟨Triggers.schemaVersion, fun _ => []⟩

def LoadOutcome.report (outcome : LoadOutcome Record) (severity : CompatSeverity) (subject : Str) (code : String)
    (detail : Str) : LoadOutcome Record :=
  { outcome with issues := outcome.issues ++ [⟨severity, subject, code, detail⟩] }

def migrate (outcome : LoadOutcome Record) (library : StoredLibrary Record) : LoadOutcome Record :=
  let library := if library.schemaVersion = 0 then { library with schemaVersion := 1 } else library
  if library.schemaVersion > schemaVersion then
    { outcome.report .warning "library.json".toList "newer-schema"
        ("the library was written by a newer Stonemite (schema ".toList ++ Nat.toDigits 10 library.schemaVersion ++
          " > ".toList ++ Nat.toDigits 10 schemaVersion ++ "); unknown fields are preserved but invisible".toList) with
      library := { library with schemaVersion := schemaVersion } }
  else { outcome with library := library }

/-- Milliseconds in 17 digits. -/
def timestamp (millis : Nat) : Str := List.replicate (17 - (Nat.toDigits 10 millis).length) '0' ++ Nat.toDigits 10 millis

/-- The name of a record, for the report. -/
def recordName (record : Json N) : Str :=
  ((record.asObject.bind fun members => Json.member members "name".toList).bind (·.asStr)).getD "unnamed".toList

/-- The file that a record is moved to. -/
def quarantineName (field : Str) (position : Nat) (name : Str) (millis : Nat) : Str :=
  let safe := (name.filter fun c => c.isAlphanum || c = '-' || c = '_').take 40
  field ++ '-' :: (Nat.toDigits 10 position ++ '-' :: (safe ++ '-' :: (timestamp millis ++ ".json".toList)))

section

variable (codec : StoreCodec N Record) (answers : StoreAnswers)

/-- A file is written, if it can be. -/
def LoadOutcome.write (outcome : LoadOutcome Record) (name text : Str) : LoadOutcome Record :=
  if answers.writable name then { outcome with written := outcome.written ++ [(name, text)] } else outcome

def quarantineRecord (field : Str) (position : Nat) (name : Str) (record : Json N) (outcome : LoadOutcome Record) :
    LoadOutcome Record :=
  outcome.write answers (quarantineName field position name (answers.clock field position)) (codec.pretty record)

/-- One record of a list. -/
def salvageRecord (kind : RecordKind) (outcome : LoadOutcome Record) (entry : Json N × Nat) : LoadOutcome Record :=
  let (record, position) := entry
  match codec.decode kind record with
  | .ok value =>
    { outcome with library := { outcome.library with
        records := Function.update outcome.library.records kind (outcome.library.records kind ++ [value]) } }
  | .error error =>
    let name := recordName record
    let field := kind.field.toList
    (quarantineRecord codec answers field position name record outcome).report .error
      (field ++ '[' :: (Nat.toDigits 10 position ++ "] (".toList ++ name ++ ")".toList)) "quarantined-record"
      ("moved to quarantine/: ".toList ++ error)

/-- The records of a field, those that do not decode moved out. -/
def salvageList (document : List (Str × Json N)) (outcome : LoadOutcome Record) (kind : RecordKind) :
    LoadOutcome Record :=
  match Json.member document kind.field.toList with
  | some (.array records) => records.zipIdx.foldl (salvageRecord codec answers kind) outcome
  | _ => outcome

def loadBackupFallback (outcome : LoadOutcome Record) : LoadOutcome Record :=
  match answers.backups.findSome? fun backup => match backup.2 with
    | .ok (some text) => (codec.decodeLibrary text).map fun library => (backup.1, library)
    | _ => none with
  | some (path, library) =>
    migrate (outcome.report .warning path "backup-restored" "the library was restored from this backup".toList) library
  | none => outcome

def salvage (text : Str) (outcome : LoadOutcome Record) : LoadOutcome Record :=
  match codec.parse text with
  | some (.object document) =>
    let library : StoredLibrary Record := match (Json.member document "schemaVersion".toList).bind (·.asNumber) with
      | some version => match codec.asU64 version with
        | some version => { StoredLibrary.new with schemaVersion := version % 2 ^ 32 }
        | none => .new
      | none => .new
    let salvaged := RecordKind.all.foldl (salvageList codec answers document) { outcome with library := library }
    migrate { salvaged with library := outcome.library } salvaged.library
  | _ =>
    let outcome := outcome.report .error "library.json".toList "corrupt-library"
      "the library file is not valid JSON; falling back to the newest backup".toList
    let outcome := outcome.write answers ("library-damaged-".toList ++ timestamp answers.damagedAt ++ ".json".toList) text
    loadBackupFallback codec answers outcome

/-- `read` is what reading `library.json` gives: an error, no file, or its text. -/
def load (read : Except Str (Option Str)) : LoadOutcome Record :=
  let outcome : LoadOutcome Record := { library := .new }
  match read with
  | .ok (some text) =>
    match codec.decodeLibrary text with
    | some library => migrate outcome library
    | none => salvage codec answers text outcome
  | .ok none => outcome
  | .error error =>
    loadBackupFallback codec answers (outcome.report .error "library.json".toList "unreadable-library" error)

/-- What a save that succeeds leaves: the library of `library.json`, and the files of `quarantine/`. -/
def saved (outcome : LoadOutcome Record) : StoredLibrary Record × List (Str × Str) :=
  ({ outcome.library with schemaVersion := schemaVersion }, outcome.written)

/-! ### What is lost -/

/-- The records of a list field, of all its members that are arrays. -/
def records (document : List (Str × Json N)) (kind : RecordKind) : List (Json N) :=
  (Json.members document kind.field.toList).flatMap fun value => value.asArray.getD []

/-- What of a list field cannot be loaded: records that do not decode, and members that are no array. -/
def rejected (document : List (Str × Json N)) (kind : RecordKind) : List (Json N) :=
  (records document kind).filter (fun record => !(codec.decode kind record).isOk) ++
    (Json.members document kind.field.toList).filter fun value => value.asArray.isNone

/-- The issue is an error about the list field. -/
def IsAbout (kind : RecordKind) (issue : CompatIssue) : Prop :=
  issue.severity = .error ∧ kind.field.toList <+: issue.subject

instance (kind : RecordKind) (issue : CompatIssue) : Decidable (IsAbout kind issue) :=
  inferInstanceAs (Decidable (_ ∧ _))

/-- What decodes is loaded, and what does not is moved out and reported. -/
structure NothingLost (document : List (Str × Json N)) (outcome : LoadOutcome Record) : Prop where
  loaded : ∀ kind, outcome.library.records kind =
    (records document kind).filterMap fun record => (codec.decode kind record).toOption
  kept : ((RecordKind.all.flatMap (rejected codec document)).map codec.pretty).Subperm (outcome.written.map (·.2))
  names : (outcome.written.map (·.1)).Nodup
  reported : ∀ kind, (rejected codec document kind).length ≤ outcome.issues.countP fun issue => IsAbout kind issue
  saved : ∀ kind, ∀ record ∈ records document kind,
    (∃ value, codec.decode kind record = .ok value ∧ value ∈ (saved outcome).1.records kind) ∨
      codec.pretty record ∈ (saved outcome).2.map (·.2)

/-- The list fields are arrays, of two members of one name all but the last are empty, and what does not decode can be
written. -/
structure Salvageable (document : List (Str × Json N)) : Prop where
  arrays : ∀ kind : RecordKind, ∀ value ∈ Json.members document kind.field.toList, value.asArray.isSome
  single : ∀ kind : RecordKind, ∀ value ∈ (Json.members document kind.field.toList).dropLast, value = .array []
  writable : ∀ kind : RecordKind, ∀ list, Json.member document kind.field.toList = some (.array list) →
    ∀ entry ∈ list.zipIdx, (codec.decode kind entry.1).isOk = false → answers.writable
      (quarantineName kind.field.toList entry.2 (recordName entry.1) (answers.clock kind.field.toList entry.2))

end

/-! ### Names -/

theorem dash_notMem_toDigits (n : Nat) : '-' ∉ Nat.toDigits 10 n := by
  intro h
  have hdigit := Str.isAsciiDigit_of_mem_toDigits h
  revert hdigit
  decide

/-- The name of a file of `quarantine/` has the field and the position in it. -/
theorem quarantineName_inj {field field' name name' : Str} {position position' millis millis' : Nat} (hfield : '-' ∉ field)
    (hfield' : '-' ∉ field')
    (h : quarantineName field position name millis = quarantineName field' position' name' millis') :
    field = field' ∧ position = position' := by
  have hcut := congrArg (Str.splitOnce '-') h
  unfold quarantineName at hcut
  rw [Str.splitOnce_append _ hfield, Str.splitOnce_append _ hfield'] at hcut
  obtain ⟨hsame, hrest⟩ := Prod.mk.inj (Option.some.inj hcut)
  have hdigits := congrArg (Str.splitOnce '-') hrest
  rw [Str.splitOnce_append _ (dash_notMem_toDigits position), Str.splitOnce_append _ (dash_notMem_toDigits position')]
    at hdigits
  refine ⟨hsame, ?_⟩
  rw [← Nat.ofDigitChars_ten_toDigits (n := position), (Prod.mk.inj (Option.some.inj hdigits)).1,
    Nat.ofDigitChars_ten_toDigits]

theorem dash_notMem_field (kind : RecordKind) : '-' ∉ kind.field.toList := by cases kind <;> decide

theorem field_injective {kind kind' : RecordKind} (h : kind.field.toList = kind'.field.toList) : kind = kind' := by
  cases kind <;> cases kind' <;> first | rfl | (revert h; decide)

/-! ### The effect of a salvage -/

section
variable {codec : StoreCodec N Record} {answers : StoreAnswers} {document : List (Str × Json N)}
  {outcome : LoadOutcome Record} {kind : RecordKind}

variable (codec) in
def bad (kind : RecordKind) (record : Json N) : Bool := !(codec.decode kind record).isOk

/-- The records of the last member of a list field. -/
def lastList (document : List (Str × Json N)) (kind : RecordKind) : List (Json N) :=
  ((Json.member document kind.field.toList).bind (·.asArray)).getD []

variable (codec answers) in
/-- The file for a record. -/
def quarantineFile (kind : RecordKind) (entry : Json N × Nat) : Str × Str :=
  (quarantineName kind.field.toList entry.2 (recordName entry.1) (answers.clock kind.field.toList entry.2),
    codec.pretty entry.1)

variable (codec answers) in
/-- The files that are written for a list field. -/
def filesOf (document : List (Str × Json N)) (kind : RecordKind) : List (Str × Str) :=
  (((lastList document kind).zipIdx.filter fun entry => bad codec kind entry.1).map
    (quarantineFile codec answers kind)).filter fun file => answers.writable file.1

theorem salvageRecord_of_ok {value : Record kind} {record : Json N} {position : Nat}
    (h : codec.decode kind record = .ok value) : salvageRecord codec answers kind outcome (record, position) =
      { outcome with library := { outcome.library with
          records := Function.update outcome.library.records kind (outcome.library.records kind ++ [value]) } } := by
  simp only [salvageRecord, h]

variable (answers outcome) in
theorem salvageRecord_of_bad {record : Json N} {position : Nat} (h : bad codec kind record = true) :
    (salvageRecord codec answers kind outcome (record, position)).library = outcome.library ∧
    (salvageRecord codec answers kind outcome (record, position)).written = outcome.written ++
      [quarantineFile codec answers kind (record, position)].filter (fun file => answers.writable file.1) ∧
    ∃ issue, (salvageRecord codec answers kind outcome (record, position)).issues = outcome.issues ++ [issue] ∧
      IsAbout kind issue := by
  cases hdecode : codec.decode kind record with
  | ok value => simp [bad, hdecode, Except.isOk, Except.toBool] at h
  | error error =>
    by_cases hw : answers.writable (quarantineName kind.field.toList position (recordName record)
        (answers.clock kind.field.toList position)) = true
    · simp only [salvageRecord, hdecode, LoadOutcome.report, quarantineRecord, LoadOutcome.write, quarantineFile, hw, if_true,
        List.filter_cons_of_pos, List.filter_nil, true_and]
      exact ⟨_, rfl, rfl, List.prefix_append _ _⟩
    · simp only [salvageRecord, hdecode, LoadOutcome.report, quarantineRecord, LoadOutcome.write, quarantineFile, hw,
        Bool.false_eq_true, if_false, List.filter_nil, List.filter_cons, List.append_nil, true_and]
      exact ⟨_, rfl, rfl, List.prefix_append _ _⟩

theorem countP_zipIdx (p : Json N → Bool) (records : List (Json N)) :
    (records.zipIdx.countP fun entry => p entry.1) = records.countP p := by
  have := @List.countP_map _ _ p Prod.fst records.zipIdx
  rw [List.zipIdx_map_fst] at this
  exact this.symm

variable (codec answers) in
theorem foldl_salvageRecord (entries : List (Json N × Nat)) (outcome : LoadOutcome Record) :
    (entries.foldl (salvageRecord codec answers kind) outcome).library.records =
      Function.update outcome.library.records kind (outcome.library.records kind ++
        entries.filterMap fun entry => (codec.decode kind entry.1).toOption) ∧
    (entries.foldl (salvageRecord codec answers kind) outcome).written = outcome.written ++
      ((entries.filter fun entry => bad codec kind entry.1).map (quarantineFile codec answers kind)).filter
        (fun file => answers.writable file.1) ∧
    ∃ more, (entries.foldl (salvageRecord codec answers kind) outcome).issues = outcome.issues ++ more ∧
      more.length = entries.countP (fun entry => bad codec kind entry.1) ∧ ∀ issue ∈ more, IsAbout kind issue := by
  induction entries generalizing outcome with
  | nil => exact ⟨by simp, by simp, [], by simp, rfl, nofun⟩
  | cons entry entries ih =>
    obtain ⟨record, position⟩ := entry
    obtain ⟨hrecords, hwritten, more, hissues, hlength, habout⟩ :=
      ih (salvageRecord codec answers kind outcome (record, position))
    rw [List.foldl_cons, hrecords, hwritten, hissues]
    cases hdecode : codec.decode kind record with
    | ok value =>
      have hgood : ¬bad codec kind record = true := by simp [bad, hdecode, Except.isOk, Except.toBool]
      have hskip : (((record, position) :: entries).filter fun entry => bad codec kind entry.1) =
          entries.filter fun entry => bad codec kind entry.1 := List.filter_cons_of_neg hgood
      rw [salvageRecord_of_ok hdecode, hskip]
      refine ⟨?_, rfl, more, rfl, ?_, habout⟩
      · simp [hdecode, Except.toOption]
      · rw [hlength]
        exact (@List.countP_cons_of_neg _ (fun entry : Json N × Nat => bad codec kind entry.1) (record, position) entries
          hgood).symm
    | error error =>
      have hbad : bad codec kind record = true := by simp [bad, hdecode, Except.isOk, Except.toBool]
      obtain ⟨hsame, hfile, issue, hissue, hkind⟩ := salvageRecord_of_bad answers outcome hbad
      have htake : (((record, position) :: entries).filter fun entry => bad codec kind entry.1) =
          (record, position) :: entries.filter fun entry => bad codec kind entry.1 := List.filter_cons_of_pos hbad
      rw [hsame, hfile, hissue, htake]
      refine ⟨?_, ?_, issue :: more, by simp, ?_, ?_⟩
      · simp [hdecode, Except.toOption]
      · rw [List.map_cons, List.append_assoc, ← List.filter_append, List.singleton_append]
      · rw [List.length_cons, hlength]
        exact (@List.countP_cons_of_pos _ (fun entry : Json N × Nat => bad codec kind entry.1) (record, position) entries
          hbad).symm
      · intro other hother
        rcases List.mem_cons.mp hother with rfl | hother
        · exact hkind
        · exact habout other hother

variable (codec) in
/-- What of a list field loads. -/
def loadable (records : List (Json N)) (kind : RecordKind) : List (Record kind) :=
  records.filterMap fun record => (codec.decode kind record).toOption

theorem salvageList_eq (document : List (Str × Json N)) (outcome : LoadOutcome Record) (kind : RecordKind) :
    salvageList codec answers document outcome kind =
      (lastList document kind).zipIdx.foldl (salvageRecord codec answers kind) outcome := by
  unfold salvageList lastList
  rcases Json.member document kind.field.toList with _ | value
  · rfl
  · cases value <;> rfl

variable (codec answers) in
theorem salvageList_spec (document : List (Str × Json N)) (outcome : LoadOutcome Record) (kind : RecordKind) :
    (salvageList codec answers document outcome kind).library.records =
      Function.update outcome.library.records kind
        (outcome.library.records kind ++ loadable codec (lastList document kind) kind) ∧
    (salvageList codec answers document outcome kind).written = outcome.written ++ filesOf codec answers document kind ∧
    ∃ more, (salvageList codec answers document outcome kind).issues = outcome.issues ++ more ∧
      more.length = (lastList document kind).countP (bad codec kind) ∧ ∀ issue ∈ more, IsAbout kind issue := by
  obtain ⟨hrecords, hwritten, more, hissues, hlength, habout⟩ :=
    @foldl_salvageRecord _ _ codec answers kind (lastList document kind).zipIdx outcome
  rw [salvageList_eq]
  refine ⟨?_, hwritten, more, hissues, ?_, habout⟩
  · rw [hrecords]
    have hfirst : (lastList document kind).zipIdx.filterMap (fun entry => (codec.decode kind entry.1).toOption) =
        ((lastList document kind).zipIdx.map Prod.fst).filterMap fun record => (codec.decode kind record).toOption := by
      rw [List.filterMap_map]
      rfl
    rw [hfirst, List.zipIdx_map_fst]
    rfl
  · rw [hlength, countP_zipIdx]

variable (codec answers) in
theorem foldl_salvageList (document : List (Str × Json N)) {kinds : List RecordKind} (h : kinds.Nodup)
    (outcome : LoadOutcome Record) :
    (∀ kind, (kinds.foldl (salvageList codec answers document) outcome).library.records kind =
      outcome.library.records kind ++ if kind ∈ kinds then loadable codec (lastList document kind) kind else []) ∧
    (kinds.foldl (salvageList codec answers document) outcome).written =
      outcome.written ++ kinds.flatMap (filesOf codec answers document) ∧
    ∀ kind, (outcome.issues.countP fun issue => IsAbout kind issue) +
        (if kind ∈ kinds then (lastList document kind).countP (bad codec kind) else 0) ≤
      (kinds.foldl (salvageList codec answers document) outcome).issues.countP fun issue => IsAbout kind issue := by
  induction kinds generalizing outcome with
  | nil => simp
  | cons first kinds ih =>
    obtain ⟨hfirst, hkinds⟩ := List.nodup_cons.mp h
    obtain ⟨hrecords, hwritten, hissues⟩ := ih hkinds (salvageList codec answers document outcome first)
    obtain ⟨hrecords', hwritten', more, hissues', hlength, habout⟩ :=
      salvageList_spec codec answers document outcome first
    refine ⟨fun kind => ?_, ?_, fun kind => ?_⟩
    · rw [List.foldl_cons, hrecords kind, hrecords']
      by_cases hkind : kind = first
      · subst hkind
        simp [hfirst]
      · simp [hkind]
    · rw [List.foldl_cons, hwritten, hwritten', List.flatMap_cons, List.append_assoc]
    · refine le_trans ?_ (hissues kind)
      rw [hissues', List.countP_append]
      by_cases hkind : kind = first
      · subst hkind
        have hall : (more.countP fun issue => IsAbout kind issue) = more.length :=
          List.countP_eq_length.mpr fun issue hissue => decide_eq_true (habout issue hissue)
        simp only [List.mem_cons, true_or, if_true, hfirst, if_false]
        omega
      · simp only [List.mem_cons, hkind, false_or]
        omega

theorem nodup_all : RecordKind.all.Nodup := by decide

theorem mem_all (kind : RecordKind) : kind ∈ RecordKind.all := by cases kind <;> decide

theorem migrate_spec (outcome : LoadOutcome Record) (library : StoredLibrary Record) :
    (migrate outcome library).library.records = library.records ∧ (migrate outcome library).written = outcome.written ∧
    ∃ more, (migrate outcome library).issues = outcome.issues ++ more := by
  unfold migrate
  by_cases hzero : library.schemaVersion = 0
  · rw [if_pos hzero]
    exact ⟨rfl, rfl, [], (List.append_nil _).symm⟩
  · rw [if_neg hzero]
    dsimp only
    split_ifs
    · exact ⟨rfl, rfl, _, rfl⟩
    · exact ⟨rfl, rfl, [], (List.append_nil _).symm⟩

variable (answers) in
/-- What loading a file does that is an object and does not decode as a whole. -/
theorem load_spec {text : Str} (hparse : codec.parse text = some (.object document))
    (hwhole : codec.decodeLibrary text = none) :
    (∀ kind, (load codec answers (.ok (some text))).library.records kind =
      loadable codec (lastList document kind) kind) ∧
    (load codec answers (.ok (some text))).written = RecordKind.all.flatMap (filesOf codec answers document) ∧
    ∀ kind, (lastList document kind).countP (bad codec kind) ≤
      (load codec answers (.ok (some text))).issues.countP fun issue => IsAbout kind issue := by
  simp only [load, hwhole, salvage, hparse]
  generalize hstart : ({ library := _ } : LoadOutcome Record) = start
  obtain ⟨hempty, hnone⟩ : (∀ kind, start.library.records kind = []) ∧ start.written = [] := by
    subst hstart
    refine ⟨fun kind => ?_, rfl⟩
    dsimp only
    split
    · split <;> rfl
    · rfl
  obtain ⟨hrecords, hwritten, hissues⟩ := foldl_salvageList codec answers document nodup_all start
  generalize RecordKind.all.foldl (salvageList codec answers document) start = salvaged at *
  obtain ⟨hsame, hfiles, more, hmore⟩ :=
    migrate_spec { salvaged with library := (StoredLibrary.new : StoredLibrary Record) } salvaged.library
  refine ⟨fun kind => ?_, ?_, fun kind => ?_⟩
  · rw [hsame, hrecords, hempty, if_pos (mem_all kind), List.nil_append]
  · rw [hfiles]
    exact hwritten.trans (by rw [hnone, List.nil_append])
  · have := hissues kind
    rw [if_pos (mem_all kind)] at this
    rw [hmore, List.countP_append]
    dsimp only
    omega

/-! ### When nothing is lost -/

/-- The records of the members of a list field that a later member hides. -/
def hidden (document : List (Str × Json N)) (kind : RecordKind) : List (Json N) :=
  (Json.members document kind.field.toList).dropLast.flatMap fun value => value.asArray.getD []

theorem records_eq (document : List (Str × Json N)) (kind : RecordKind) :
    records document kind = hidden document kind ++ lastList document kind := by
  unfold records hidden lastList Json.member
  generalize Json.members document kind.field.toList = members
  rcases List.eq_nil_or_concat members with rfl | ⟨front, last, rfl⟩
  · rfl
  · simp

variable (codec) in
theorem length_rejected (document : List (Str × Json N)) (kind : RecordKind) :
    (rejected codec document kind).length = (hidden document kind).countP (bad codec kind) +
      (lastList document kind).countP (bad codec kind) +
        (Json.members document kind.field.toList).countP fun value => value.asArray.isNone := by
  have hbad : ((records document kind).filter fun record => !(codec.decode kind record).isOk).length =
      (records document kind).countP (bad codec kind) := List.countP_eq_length_filter.symm
  rw [rejected, List.length_append, hbad, records_eq, List.countP_append]
  exact congrArg _ List.countP_eq_length_filter.symm

variable (codec answers) in
theorem length_filesOf_le (document : List (Str × Json N)) (kind : RecordKind) :
    (filesOf codec answers document kind).length ≤ (lastList document kind).countP (bad codec kind) := by
  unfold filesOf
  refine (List.length_filter_le _ _).trans ?_
  rw [List.length_map, ← countP_zipIdx, List.countP_eq_length_filter]

theorem filesOf_eq_of_length (h : (filesOf codec answers document kind).length =
    (lastList document kind).countP (bad codec kind)) {entry : Json N × Nat} (hentry : entry ∈ (lastList document kind).zipIdx)
    (hbad : bad codec kind entry.1 = true) : answers.writable (quarantineFile codec answers kind entry).1 = true := by
  unfold filesOf at h
  rw [← countP_zipIdx, List.countP_eq_length_filter, ← List.length_map (quarantineFile codec answers kind)] at h
  have hall := List.length_filter_eq_length_iff.mp h
  exact hall _ (List.mem_map_of_mem (List.mem_filter.mpr ⟨hentry, hbad⟩))

variable (codec) in
theorem length_loadable (records : List (Json N)) (kind : RecordKind) :
    (loadable codec records kind).length + records.countP (bad codec kind) = records.length := by
  induction records with
  | nil => rfl
  | cons record records ih =>
    unfold loadable bad at *
    cases hdecode : codec.decode kind record with
    | ok value =>
      simp only [List.filterMap_cons, List.countP_cons, hdecode, Except.toOption, Except.isOk, Except.toBool, List.length_cons]
      simp only [Except.isOk, Except.toBool, Except.toOption] at ih
      simp only [Bool.not_true, Bool.false_eq_true, if_false]
      omega
    | error error =>
      simp only [List.filterMap_cons, List.countP_cons, hdecode, Except.toOption, Except.isOk, Except.toBool, List.length_cons]
      simp only [Except.isOk, Except.toBool, Except.toOption] at ih
      simp only [Bool.not_false, if_true]
      omega

theorem salvageable_of_nothingLost {text : Str} (hparse : codec.parse text = some (.object document))
    (hwhole : codec.decodeLibrary text = none)
    (h : NothingLost codec document (load codec answers (.ok (some text)))) : Salvageable codec answers document := by
  obtain ⟨hloaded, hwritten, -⟩ := load_spec answers hparse hwhole
  -- as many files as rejected values, and of each field no more
  have hle : ∀ kind, (filesOf codec answers document kind).length ≤ (rejected codec document kind).length := by
    intro kind
    have := length_filesOf_le codec answers document kind
    have := length_rejected codec document kind
    omega
  have htotal : (RecordKind.all.flatMap (rejected codec document)).length ≤
      (RecordKind.all.flatMap (filesOf codec answers document)).length := by
    have := h.kept.length_le
    rwa [hwritten, List.length_map, List.length_map] at this
  have heach : ∀ kind, (filesOf codec answers document kind).length = (rejected codec document kind).length := by
    simp only [RecordKind.all, List.flatMap_cons, List.flatMap_nil, List.length_append, List.length_nil] at htotal
    have hfolder := hle .folder
    have htrigger := hle .trigger
    have hprofile := hle .profile
    have htext := hle .textOverlay
    have htimer := hle .timerOverlay
    have hasset := hle .asset
    intro kind
    cases kind <;> omega
  have hcount : ∀ kind, (hidden document kind).countP (bad codec kind) = 0 ∧
      ((Json.members document kind.field.toList).countP fun value => value.asArray.isNone) = 0 ∧
      (filesOf codec answers document kind).length = (lastList document kind).countP (bad codec kind) := by
    intro kind
    have := length_filesOf_le codec answers document kind
    have := length_rejected codec document kind
    have := heach kind
    omega
  have harrays : ∀ kind : RecordKind, ∀ value ∈ Json.members document kind.field.toList, value.asArray.isSome := by
    intro kind value hvalue
    have := List.countP_eq_zero.mp (hcount kind).2.1 value hvalue
    simpa [Option.isSome_iff_ne_none] using this
  refine ⟨harrays, fun kind value hvalue => ?_, fun kind list hlist entry hentry hbad => ?_⟩
  · -- nothing of a hidden member loads, and none of its records is bad
    have hload := congrArg List.length ((hloaded kind).symm.trans (h.loaded kind))
    have hall := length_loadable codec (records document kind) kind
    have hlast := length_loadable codec (lastList document kind) kind
    have hnone := (hcount kind).1
    unfold loadable at hall hlast hload
    rw [records_eq, List.countP_append, List.length_append] at hall
    rw [records_eq] at hload
    have hempty : (hidden document kind) = [] := List.length_eq_zero_iff.mp (by omega)
    have hitems := List.flatMap_eq_nil_iff.mp hempty value hvalue
    have hisSome := harrays kind value (List.dropLast_subset _ hvalue)
    cases value with
    | array items => exact congrArg Json.array hitems
    | _ => cases hisSome
  · have hlastList : lastList document kind = list := by
      rw [lastList, hlist]
      rfl
    exact filesOf_eq_of_length (hcount kind).2.2 (hlastList ▸ hentry) (by simpa [bad] using hbad)

theorem nodup_names : ((RecordKind.all.flatMap (filesOf codec answers document)).map (·.1)).Nodup := by
  rw [List.map_flatMap, List.nodup_flatMap]
  have hname : ∀ {kind : RecordKind} {name : Str}, name ∈ (filesOf codec answers document kind).map (·.1) →
      ∃ (position : Nat) (record : Json N), name = quarantineName kind.field.toList position (recordName record)
        (answers.clock kind.field.toList position) := by
    intro kind name hname
    obtain ⟨file, hfile, rfl⟩ := List.mem_map.mp hname
    obtain ⟨entry, -, rfl⟩ := List.mem_map.mp (List.mem_filter.mp hfile).1
    exact ⟨entry.2, entry.1, rfl⟩
  refine ⟨fun kind _ => ?_, ?_⟩
  · have hpositions : ((lastList document kind).zipIdx.map Prod.snd).Nodup := by
      rw [List.zipIdx_map_snd]
      exact List.nodup_range'
    have hall : ((lastList document kind).zipIdx.map fun entry => (quarantineFile codec answers kind entry).1).Nodup := by
      refine List.pairwise_map.mpr ((List.pairwise_map.mp hpositions).imp ?_)
      intro entry other hne hsame
      exact hne (quarantineName_inj (dash_notMem_field kind) (dash_notMem_field kind) hsame).2
    refine hall.sublist ?_
    rw [show ((lastList document kind).zipIdx.map fun entry => (quarantineFile codec answers kind entry).1) =
      ((lastList document kind).zipIdx.map (quarantineFile codec answers kind)).map (·.1) from (List.map_map ..).symm]
    exact ((List.filter_sublist.trans (List.filter_sublist.map _))).map _
  · refine nodup_all.imp ?_
    intro kind other hne name hkind hother
    obtain ⟨position, record, rfl⟩ := hname hkind
    obtain ⟨position', record', hsame⟩ := hname hother
    exact hne (field_injective
      (quarantineName_inj (dash_notMem_field kind) (dash_notMem_field other) hsame).1)

theorem files_of_salvageable (h : Salvageable codec answers document) (kind : RecordKind) :
    (filesOf codec answers document kind).map (·.2) = (rejected codec document kind).map codec.pretty ∧
      records document kind = lastList document kind := by
  have hhidden : hidden document kind = [] := by
    refine List.flatMap_eq_nil_iff.mpr fun value hvalue => ?_
    rw [h.single kind value hvalue]
    rfl
  have hrecords : records document kind = lastList document kind := by rw [records_eq, hhidden, List.nil_append]
  have hwritable : ∀ file ∈ ((lastList document kind).zipIdx.filter fun entry => bad codec kind entry.1).map
      (quarantineFile codec answers kind), answers.writable file.1 = true := by
    intro file hfile
    obtain ⟨entry, hentry, rfl⟩ := List.mem_map.mp hfile
    obtain ⟨hentry, hbad⟩ := List.mem_filter.mp hentry
    have hlist : ∃ list, Json.member document kind.field.toList = some (.array list) ∧
        lastList document kind = list := by
      unfold lastList at hentry ⊢
      rcases hmember : Json.member document kind.field.toList with _ | value <;> rw [hmember] at hentry
      · exact absurd hentry List.not_mem_nil
      · cases value with
        | array list => exact ⟨list, rfl, rfl⟩
        | _ => exact absurd hentry List.not_mem_nil
    obtain ⟨list, hmember, hlist⟩ := hlist
    exact h.writable kind list hmember entry (hlist ▸ hentry) (by simpa [bad] using hbad)
  have hnone : ((Json.members document kind.field.toList).filter fun value => value.asArray.isNone) = [] := by
    refine List.filter_eq_nil_iff.mpr fun value hvalue => ?_
    have := h.arrays kind value hvalue
    simpa [Option.isSome_iff_ne_none] using this
  refine ⟨?_, hrecords⟩
  have hfirst : ((lastList document kind).zipIdx.filter fun entry => bad codec kind entry.1).map Prod.fst =
      (lastList document kind).filter (bad codec kind) := by
    have := List.filter_map (p := bad codec kind) (f := Prod.fst) (l := (lastList document kind).zipIdx)
    rw [List.zipIdx_map_fst] at this
    exact this.symm
  unfold filesOf rejected
  rw [List.filter_eq_self.mpr hwritable, hnone, List.append_nil, hrecords, List.map_map]
  have hbad : ((lastList document kind).filter fun record => !(codec.decode kind record).isOk) =
      (lastList document kind).filter (bad codec kind) := rfl
  rw [hbad, ← hfirst, List.map_map]
  rfl

theorem nothingLost_of_salvageable {text : Str} (hparse : codec.parse text = some (.object document))
    (hwhole : codec.decodeLibrary text = none) (h : Salvageable codec answers document) :
    NothingLost codec document (load codec answers (.ok (some text))) := by
  obtain ⟨hloaded, hwritten, hissues⟩ := load_spec answers hparse hwhole
  have hloaded' : ∀ kind, (load codec answers (.ok (some text))).library.records kind =
      loadable codec (records document kind) kind := by
    intro kind
    rw [hloaded, (files_of_salvageable h kind).2]
  have hkept : (load codec answers (.ok (some text))).written.map (·.2) =
      (RecordKind.all.flatMap (rejected codec document)).map codec.pretty := by
    rw [hwritten, List.map_flatMap, List.map_flatMap]
    exact congrArg (List.flatMap · RecordKind.all) (funext fun kind => (files_of_salvageable h kind).1)
  refine ⟨hloaded', hkept ▸ List.Subperm.refl _, hwritten ▸ nodup_names, fun kind => ?_, fun kind record hrecord => ?_⟩
  · refine le_trans ?_ (hissues kind)
    have hnone : ((Json.members document kind.field.toList).countP fun value => value.asArray.isNone) = 0 := by
      refine List.countP_eq_zero.mpr fun value hvalue => ?_
      simpa [Option.isSome_iff_ne_none] using h.arrays kind value hvalue
    have hhidden := (records_eq document kind).symm.trans (files_of_salvageable h kind).2
    rw [length_rejected, hnone, List.append_left_eq_self.mp hhidden]
    simp
  · cases hdecode : codec.decode kind record with
    | ok value =>
      refine .inl ⟨value, rfl, ?_⟩
      show value ∈ (load codec answers (.ok (some text))).library.records kind
      rw [hloaded']
      exact List.mem_filterMap.mpr ⟨record, hrecord, by rw [hdecode]; rfl⟩
    | error error =>
      refine .inr ?_
      show codec.pretty record ∈ (load codec answers (.ok (some text))).written.map (·.2)
      rw [hkept]
      refine List.mem_map_of_mem (List.mem_flatMap.mpr ⟨kind, mem_all kind, List.mem_append_left _ ?_⟩)
      exact List.mem_filter.mpr ⟨hrecord, by rw [hdecode]; rfl⟩

end

/-- A load loses nothing of a file that is salvaged if and only if its list fields are arrays and the files of `quarantine/` can
be written. -/
theorem salvage_loses_nothing_iff (codec : StoreCodec N Record) (answers : StoreAnswers) {text : Str}
    {document : List (Str × Json N)} (hparse : codec.parse text = some (.object document))
    (hwhole : codec.decodeLibrary text = none) :
    NothingLost codec document (load codec answers (.ok (some text))) ↔ Salvageable codec answers document :=
  ⟨salvageable_of_nothingLost hparse hwhole, nothingLost_of_salvageable hparse hwhole⟩

/-- What the readers answer for two files, with records that are read for their name. -/
def sampleCodec : StoreCodec Nat fun _ => Str where
  parse text :=
    [("\x7b\"triggers\":\x7b\x7d\x7d".toList, Json.object [("triggers".toList, .object [])]),
      ("\x7b\"folders\":[\x7b\"name\":3\x7d]\x7d".toList,
        .object [("folders".toList, .array [.object [("name".toList, .number 3)]])])].lookup text
  decodeLibrary _ := none
  decode _ value := match (value.asObject.getD []).lookup "name".toList with
    | none => .ok []
    | some (.string name) => .ok name
    | some _ => .error "invalid type: integer, expected a string".toList
  asU64 := some
  pretty
    | .object [(_, .number _)] => "\x7b\n  \"name\": 3\n\x7d".toList
    | _ => "\x7b\x7d".toList

/-- A clock, a directory that can be written, and no backup. -/
def sampleAnswers : StoreAnswers := ⟨fun _ _ => 1700000000000, fun _ => true, [], 1700000000000⟩

/-- A record in the place of a list is neither loaded nor put aside nor reported. -/
theorem object_field_lost :
    let text := "\x7b\"triggers\":\x7b\x7d\x7d".toList
    let document : List (Str × Json Nat) := [("triggers".toList, .object [])]
    sampleCodec.parse text = some (.object document) ∧ sampleCodec.decodeLibrary text = none ∧
      (load sampleCodec sampleAnswers (.ok (some text))).written = [] ∧
      (load sampleCodec sampleAnswers (.ok (some text))).issues = [] ∧
      ¬NothingLost sampleCodec document (load sampleCodec sampleAnswers (.ok (some text))) := by
  intro text document
  have hparse : sampleCodec.parse text = some (.object document) := rfl
  refine ⟨hparse, rfl, rfl, rfl, fun h => ?_⟩
  exact absurd ((salvageable_of_nothingLost hparse rfl h).arrays .trigger (.object []) (List.mem_singleton_self _)) (by decide)

theorem bad_record_kept :
    let text := "\x7b\"folders\":[\x7b\"name\":3\x7d]\x7d".toList
    let document : List (Str × Json Nat) := [("folders".toList, .array [.object [("name".toList, .number 3)]])]
    NothingLost sampleCodec document (load sampleCodec sampleAnswers (.ok (some text))) := by
  refine (salvage_loses_nothing_iff sampleCodec sampleAnswers rfl rfl).mpr ⟨?_, ?_, ?_⟩
  · intro kind value hvalue
    cases kind with
    | folder => exact List.mem_singleton.mp hvalue ▸ rfl
    | _ => exact absurd hvalue List.not_mem_nil
  · intro kind value hvalue
    cases kind <;> exact absurd hvalue List.not_mem_nil
  · intros
    rfl

end Stonemite.Triggers
