import Stonemite.Lib.Parsing
import Stonemite.Lib.TextLines

/-!
# Values in an INI file

A value is written into a section of an INI file of the game, or read from it. The writer and the reader each have their
own rule for the line of a key. A file that is no UTF-8 is written as if it were empty. `WritesKey` is the rule of the
writer, `IsSection` that of both; `UpdateLocal` is what the write should leave, and `updateLocal_iff` says for which
files it does.
-/

namespace Stonemite.Settings

def iniHeader (sectionName : Str) : Str := '[' :: (sectionName ++ [']'])

def iniLine (key value : Str) : Str := key ++ '=' :: value

/-- The line is the header of the section. -/
def IsSection (sectionName line : Str) : Prop := line.trim.eqIgnoreAsciiCase (iniHeader sectionName) = true

instance (sectionName line : Str) : Decidable (IsSection sectionName line) := inferInstanceAs (Decidable (_ = true))

/-- The line begins some section. -/
def OpensSection (line : Str) : Prop := line.trim.head? = some '['

instance (line : Str) : Decidable (OpensSection line) := inferInstanceAs (Decidable (_ = _))

/-- The writer takes the line for that of the key. -/
def WritesKey (key line : Str) : Prop := (key ++ ['=']) <+: line.trim ∨ (key ++ [' ', '=']) <+: line.trim

instance (key line : Str) : Decidable (WritesKey key line) := inferInstanceAs (Decidable (_ ∨ _))

/-- The value that the reader takes from a line of the key. -/
def keyValue (key line : Str) : Option Str :=
  (line.trim.stripPrefix key).bind fun rest => (Str.stripPrefix (rest.dropWhile Str.isWhitespace) ['=']).map Str.trim

/-- The position of the line of the key in the lines after the header. -/
def keyIndex (key : Str) : List Str → Option Nat
  | [] => none
  | line :: lines =>
    if OpensSection line then none
    else if WritesKey key line then some 0
    else (keyIndex key lines).map (· + 1)

section
variable (sectionName key value : Str)

/-- The lines with the key set: replaced, inserted below the header, or appended with it. -/
def updateLines (lines : List Str) : List Str :=
  match lines.findIdx? fun line => IsSection sectionName line with
  | some secIdx =>
    match keyIndex key (lines.drop (secIdx + 1)) with
    | some ki => lines.set (secIdx + 1 + ki) (iniLine key value)
    | none => lines.insertIdx (secIdx + 1) (iniLine key value)
  | none => lines ++ [[], iniHeader sectionName, iniLine key value]

/-- The bytes of the file after the write. -/
def writeIniValue (content : List UInt8) : List UInt8 :=
  let lines := ((Str.ofBytes content).getD []).lines
  Str.bytes (List.intercalate ['\r', '\n'] (updateLines sectionName key value lines))

/-- The first line of the key below the section's header. -/
def readLines (sectionName key : Str) (inSection : Bool) : List Str → Option Str
  | [] => none
  | line :: lines =>
    if IsSection sectionName line then readLines sectionName key true lines
    else if OpensSection line then if inSection then none else readLines sectionName key inSection lines
    else if inSection then
      match keyValue key line with
      | some value => some value
      | none => readLines sectionName key inSection lines
    else readLines sectionName key inSection lines

def readIniValue (content : List UInt8) : Option Str :=
  (Str.ofBytes content).bind fun text => readLines sectionName key false text.lines

end

/-- `entries` are the files of the game's directory, by name. -/
def readServerFromIni (entries : List (Str × List UInt8)) : Option Str :=
  (entries.lookup "eqlsPlayerData.ini".toList).bind (readIniValue "MISC".toList "LastServerName".toList)

/-- `LastServerName` is written to every settings file of the directory. -/
def writeServerToIni (server : Str) (entries : List (Str × List UInt8)) : List (Str × List UInt8) :=
  if server.isEmpty then entries
  else entries.map fun (name, content) =>
    if "eqlsPlayerData".toList <+: name ∧ ".ini".toList <:+ name then
      (name, writeIniValue "MISC".toList "LastServerName".toList server content)
    else (name, content)

/-! ### What an update keeps -/

/-- Of the lines of a file, only the line of the key in its section is replaced, or it is inserted there, or it comes behind
the last line under a new header. -/
inductive LinesUpdated (sectionName key value : Str) : List (List UInt8) → List (List UInt8) → Prop
  | replaced (before between after : List (List UInt8)) (header old : Str) (hheader : IsSection sectionName header)
      (hbetween : ∀ line : Str, line.bytes ∈ between → ¬OpensSection line) (hold : (keyValue key old).isSome) :
      LinesUpdated sectionName key value (before ++ header.bytes :: (between ++ old.bytes :: after))
        (before ++ header.bytes :: (between ++ (iniLine key value).bytes :: after))
  | inserted (before between after : List (List UInt8)) (header : Str) (hheader : IsSection sectionName header)
      (hbetween : ∀ line : Str, line.bytes ∈ between → ¬OpensSection line) :
      LinesUpdated sectionName key value (before ++ header.bytes :: (between ++ after))
        (before ++ header.bytes :: (between ++ (iniLine key value).bytes :: after))
  | appended (before : List (List UInt8)) : LinesUpdated sectionName key value before
      (before ++ [[], (iniHeader sectionName).bytes, (iniLine key value).bytes])

/-- The update is local and its value is read back. -/
structure UpdateLocal (sectionName key value : Str) (content content' : List UInt8) : Prop where
  lines : LinesUpdated sectionName key value (textLines 10 13 content) (textLines 10 13 content')
  readBack : readIniValue sectionName key content' = some value.trim

/-- A key that a line can begin with. -/
def KeyFits (key : Str) : Prop := ∀ c, key.head? = some c → Str.isWhitespace c = false ∧ c ≠ '['

/-- The value that the reader finds before the line that the writer replaces. -/
def spacedValue (sectionName key : Str) (lines : List Str) : Option Str :=
  let rest := (lines.dropWhile fun line => ¬IsSection sectionName line).tail
  (keyIndex key rest).bind fun ki => (rest.take ki).findSome? (keyValue key)

/-- The names are on one line; the key begins with neither a space nor a bracket; if the file has the section, its last line is
not empty, and no line of the key that only the reader knows stands with another value before the one that is replaced. -/
structure IniFits (sectionName key value text : Str) : Prop where
  sectionLine : '\n' ∉ sectionName
  keyLine : '\n' ∉ key
  keyFits : KeyFits key
  lastLine : (∃ line ∈ text.lines, IsSection sectionName line) → text.lines.getLast? ≠ some []
  spaced : ∀ old, spacedValue sectionName key text.lines = some old → old = value.trim

/-! ### Lines -/

section
variable {sectionName key value line : Str} {lines : List Str}

theorem eq_of_toLower_eq {c d : Char} (h : c.toLower = d) (hd : d.toNat < 97) : c = d := by
  unfold Char.toLower at h
  split at h
  · rename_i hupper
    exfalso
    have hlow : 65 ≤ c.toNat := UInt32.le_iff_toNat_le.mp hupper.1
    have hhigh : c.toNat ≤ 90 := UInt32.le_iff_toNat_le.mp hupper.2
    have hval := congrArg Char.toNat h
    have hadd : (c.val + ('a'.val - 'A'.val)).toNat = (c.toNat + 32) % 2 ^ 32 := UInt32.toNat_add _ _
    have hsum : (c.val + ('a'.val - 'A'.val)).toNat = d.toNat := hval
    omega
  · exact h

theorem opensSection_of_isSection (h : IsSection sectionName line) : OpensSection line := by
  have hlower := Str.eqIgnoreAsciiCase_iff.mp h
  unfold OpensSection
  unfold Str.toAsciiLowercase iniHeader at hlower
  cases htrim : line.trim with
  | nil => simp [htrim] at hlower
  | cons c rest =>
    rw [htrim, List.map_cons, List.map_cons] at hlower
    have hc : c.toLower = '[' := (List.cons.inj hlower).1
    rw [List.head?_cons, eq_of_toLower_eq hc (by decide)]

theorem isSection_iniHeader (sectionName : Str) : IsSection sectionName (iniHeader sectionName) := by
  have htrim : (iniHeader sectionName).trim = iniHeader sectionName := by
    refine Str.trim_of_trimmed ⟨fun c hc => ?_, fun c hc => ?_⟩
    · rw [iniHeader, List.head?_cons] at hc
      exact Option.some.inj hc ▸ by decide
    · rw [iniHeader, ← List.cons_append, List.getLast?_concat] at hc
      exact Option.some.inj hc ▸ by decide
  rw [IsSection, htrim]
  exact Str.eqIgnoreAsciiCase_self _

theorem notMem_sectionName {c : Char} (h : IsSection sectionName line) (hc : c.toLower = c) (hsmall : c.toNat < 97)
    (hline : c ∉ line) : c ∉ sectionName := by
  intro hmem
  have hlower := Str.eqIgnoreAsciiCase_iff.mp h
  have hheader : c ∈ (iniHeader sectionName).toAsciiLowercase :=
    List.mem_map.mpr ⟨c, by simp [iniHeader, hmem], hc⟩
  rw [← hlower] at hheader
  obtain ⟨d, hd, hd'⟩ := List.mem_map.mp hheader
  exact hline (eq_of_toLower_eq hd' hsmall ▸ (Str.trim_sublist line).subset hd)

/-! ### The line of a key -/

theorem keyValue_nil (key : Str) : keyValue key [] = none := by
  unfold keyValue
  cases key <;> rfl

theorem bytes_ne_nil_of_keyValue (h : (keyValue key line).isSome) : line.bytes ≠ [] := by
  intro hnil
  have hline : line = [] := Str.utf8_keepsLines.flatMap_eq_nil hnil
  rw [hline, keyValue_nil] at h
  cases h

theorem isSome_keyValue_of_writesKey (h : WritesKey key line) : (keyValue key line).isSome := by
  unfold keyValue
  rcases h with ⟨rest, hrest⟩ | ⟨rest, hrest⟩
  · have hstrip : line.trim.stripPrefix key = some ('=' :: rest) := Str.stripPrefix_eq_some.mpr (by simp [← hrest])
    rw [hstrip]
    rfl
  · have hstrip : line.trim.stripPrefix key = some (' ' :: '=' :: rest) := Str.stripPrefix_eq_some.mpr (by simp [← hrest])
    rw [hstrip]
    rfl

/-- Of a key that does not fit the reader takes no line that begins no section. -/
theorem keyValue_of_not_fits (hkey : ¬KeyFits key) (hline : ¬OpensSection line) : keyValue key line = none := by
  unfold KeyFits at hkey
  push Not at hkey
  obtain ⟨c, hc, hbad⟩ := hkey
  cases hstrip : line.trim.stripPrefix key with
  | none => rw [keyValue, hstrip]; rfl
  | some rest =>
    exfalso
    have htrim := Str.stripPrefix_eq_some.mp hstrip
    have hhead : line.trim.head? = some c := by rw [htrim, List.head?_append, hc]; rfl
    have hspace := (Str.trimmed_trim line).1 c hhead
    exact hline (hhead.trans (congrArg some (hbad hspace)))

theorem trim_iniLine (hkey : KeyFits key) (value : Str) :
    (iniLine key value).trim = key ++ '=' :: value.rdropWhile Str.isWhitespace := by
  have hhead : (iniLine key value).dropWhile Str.isWhitespace = iniLine key value := by
    refine Str.dropWhile_of_head fun c hc => ?_
    cases key with
    | nil => exact Option.some.inj hc ▸ by decide
    | cons d key => exact (hkey c hc).1
  rw [Str.trim_eq, hhead, iniLine]
  have hmid : key ++ '=' :: value = (key ++ ['=']) ++ value := by simp
  rw [hmid]
  clear hhead hmid
  induction value using List.reverseRecOn with
  | nil => rw [List.append_nil, List.rdropWhile_concat_neg _ _ _ (by decide)]; simp
  | append_singleton value c ih =>
    by_cases hc : Str.isWhitespace c = true
    · rw [← List.append_assoc, List.rdropWhile_concat_pos _ _ _ hc, List.rdropWhile_concat_pos _ _ _ hc, ih]
    · rw [← List.append_assoc, List.rdropWhile_concat_neg _ _ _ hc, List.rdropWhile_concat_neg _ _ _ hc]
      simp

theorem trim_concat {c : Char} (hc : Str.isWhitespace c = true) (s : Str) : Str.trim (s ++ [c]) = s.trim := by
  rw [Str.trim_eq, Str.trim_eq, List.dropWhile_append]
  by_cases hempty : (s.dropWhile Str.isWhitespace).isEmpty = true
  · rw [if_pos hempty, List.dropWhile_cons_of_pos hc, List.isEmpty_iff.mp hempty]
    rfl
  · rw [if_neg hempty, List.rdropWhile_concat_pos _ _ _ hc]

theorem trim_rdropWhile (s : Str) : Str.trim (s.rdropWhile Str.isWhitespace) = s.trim := by
  induction s using List.reverseRecOn with
  | nil => rfl
  | append_singleton s c ih =>
    by_cases hc : Str.isWhitespace c = true
    · rw [List.rdropWhile_concat_pos _ _ _ hc, ih, trim_concat hc]
    · rw [List.rdropWhile_concat_neg _ _ _ hc]

theorem keyValue_iniLine (hkey : KeyFits key) (value : Str) : keyValue key (iniLine key value) = some value.trim := by
  have hstrip : (iniLine key value).trim.stripPrefix key = some ('=' :: value.rdropWhile Str.isWhitespace) :=
    Str.stripPrefix_eq_some.mpr (trim_iniLine hkey value)
  rw [keyValue, hstrip, ← trim_rdropWhile value]
  rfl

theorem not_opensSection_iniLine (hkey : KeyFits key) (value : Str) : ¬OpensSection (iniLine key value) := by
  unfold OpensSection
  rw [trim_iniLine hkey]
  intro hhead
  cases key with
  | nil => exact absurd (Option.some.inj hhead) (by decide)
  | cons d key => exact (hkey '[' hhead).2 rfl

/-! ### Reading -/

theorem readLines_append_of_not_section {front : List Str} (h : ∀ line ∈ front, ¬IsSection sectionName line)
    (lines : List Str) : readLines sectionName key false (front ++ lines) = readLines sectionName key false lines := by
  induction front with
  | nil => rfl
  | cons line front ih =>
    rw [List.cons_append, readLines, if_neg (h line List.mem_cons_self),
      ih fun other hother => h other (List.mem_cons_of_mem _ hother)]
    simp

theorem readLines_section (h : IsSection sectionName line) (inSection : Bool) :
    readLines sectionName key inSection (line :: lines) = readLines sectionName key true lines := by
  rw [readLines, if_pos h]

theorem readLines_append {front : List Str} (h : ∀ line ∈ front, ¬OpensSection line) (lines : List Str) :
    readLines sectionName key true (front ++ lines) =
      (front.findSome? (keyValue key)).or (readLines sectionName key true lines) := by
  induction front with
  | nil => rfl
  | cons line front ih =>
    have hline := h line List.mem_cons_self
    rw [List.cons_append, readLines, if_neg fun hsection => hline (opensSection_of_isSection hsection), if_neg hline,
      if_pos rfl, List.findSome?_cons, ih fun other hother => h other (List.mem_cons_of_mem _ hother)]
    cases keyValue key line <;> rfl

theorem readLines_cons_key {found : Str} (hopen : ¬OpensSection line) (hfound : keyValue key line = some found) :
    readLines sectionName key true (line :: lines) = some found := by
  rw [readLines, if_neg fun hsection => hopen (opensSection_of_isSection hsection), if_neg hopen, if_pos rfl, hfound]

theorem readLines_of_not_fits (hkey : ¬KeyFits key) (inSection : Bool) (lines : List Str) :
    readLines sectionName key inSection lines = none := by
  induction lines generalizing inSection with
  | nil => rfl
  | cons line lines ih =>
    rw [readLines]
    split_ifs with hsection hopen
    · exact ih true
    · rfl
    · exact ih _
    · rw [keyValue_of_not_fits hkey hopen]
      exact ih _
    · exact ih _

theorem readLines_concat_nil (inSection : Bool) (lines : List Str) :
    readLines sectionName key inSection (lines ++ [[]]) = readLines sectionName key inSection lines := by
  induction lines generalizing inSection with
  | nil =>
    have hopen : ¬OpensSection [] := by decide
    have hsection : ¬IsSection sectionName [] := fun h => hopen (opensSection_of_isSection h)
    simp [readLines, hsection, hopen, keyValue_nil]
  | cons line lines ih =>
    rw [List.cons_append, readLines, readLines, ih, ih]

/-! ### Writing -/

theorem split_section (sectionName : Str) (lines : List Str) : (∀ line ∈ lines, ¬IsSection sectionName line) ∨
    ∃ front header rest, lines = front ++ header :: rest ∧ (∀ line ∈ front, ¬IsSection sectionName line) ∧
      IsSection sectionName header := by
  induction lines with
  | nil => exact .inl nofun
  | cons line lines ih =>
    by_cases hline : IsSection sectionName line
    · exact .inr ⟨[], line, lines, rfl, nofun, hline⟩
    · rcases ih with hnone | ⟨front, header, rest, rfl, hfront, hheader⟩
      · exact .inl (List.forall_mem_cons.mpr ⟨hline, hnone⟩)
      · exact .inr ⟨line :: front, header, rest, rfl, List.forall_mem_cons.mpr ⟨hline, hfront⟩, hheader⟩

theorem keyIndex_eq_some {ki : Nat} (h : keyIndex key lines = some ki) : ∃ front old rest,
    lines = front ++ old :: rest ∧ front.length = ki ∧ (∀ line ∈ front, ¬OpensSection line) ∧ ¬OpensSection old ∧
      WritesKey key old := by
  induction lines generalizing ki with
  | nil => cases h
  | cons line lines ih =>
    rw [keyIndex] at h
    split_ifs at h with hopen hwrites
    · exact ⟨[], line, lines, rfl, Option.some.inj h, nofun, hopen, hwrites⟩
    · obtain ⟨ki', hki, rfl⟩ := Option.map_eq_some_iff.mp h
      obtain ⟨front, old, rest, rfl, rfl, hfront, hold⟩ := ih hki
      exact ⟨line :: front, old, rest, rfl, rfl, List.forall_mem_cons.mpr ⟨hopen, hfront⟩, hold⟩

theorem findIdx?_section {front rest : List Str} {header : Str} (hfront : ∀ line ∈ front, ¬IsSection sectionName line)
    (hheader : IsSection sectionName header) :
    (front ++ header :: rest).findIdx? (fun line => IsSection sectionName line) = some front.length := by
  induction front with
  | nil => simp [List.findIdx?_cons, hheader]
  | cons line front ih =>
    rw [List.cons_append, List.findIdx?_cons, if_neg (by simpa using hfront line List.mem_cons_self),
      ih fun other hother => hfront other (List.mem_cons_of_mem _ hother)]
    rfl

theorem updateLines_of_none (h : ∀ line ∈ lines, ¬IsSection sectionName line) :
    updateLines sectionName key value lines = lines ++ [[], iniHeader sectionName, iniLine key value] := by
  have hnone : lines.findIdx? (fun line => IsSection sectionName line) = none :=
    List.findIdx?_eq_none_iff.mpr fun line hline => by simpa using h line hline
  rw [updateLines, hnone]

theorem updateLines_insert {front rest : List Str} {header : Str} (hfront : ∀ line ∈ front, ¬IsSection sectionName line)
    (hheader : IsSection sectionName header) (hnone : keyIndex key rest = none) :
    updateLines sectionName key value (front ++ header :: rest) = front ++ header :: iniLine key value :: rest := by
  have hdrop : (front ++ header :: rest).drop (front.length + 1) = rest := by simp [List.drop_append]
  rw [updateLines, findIdx?_section hfront hheader]
  dsimp only
  rw [hdrop, hnone]
  dsimp only
  induction front with
  | nil => rfl
  | cons line front ih =>
    exact congrArg (line :: ·) (ih (fun other hother => hfront other (List.mem_cons_of_mem _ hother))
      (by simp [List.drop_append]))

theorem updateLines_replace {front between rest : List Str} {header old : Str}
    (hfront : ∀ line ∈ front, ¬IsSection sectionName line) (hheader : IsSection sectionName header)
    (hsome : keyIndex key (between ++ old :: rest) = some between.length) :
    updateLines sectionName key value (front ++ header :: (between ++ old :: rest)) =
      front ++ header :: (between ++ iniLine key value :: rest) := by
  have hdrop : (front ++ header :: (between ++ old :: rest)).drop (front.length + 1) = between ++ old :: rest := by
    simp [List.drop_append]
  rw [updateLines, findIdx?_section hfront hheader]
  dsimp only
  rw [hdrop, hsome]
  dsimp only
  rw [List.set_append_right _ _ (by omega)]
  have hindex : front.length + 1 + between.length - front.length = between.length + 1 := by omega
  rw [hindex, List.set_cons_succ, List.set_append_right _ _ (by omega), Nat.sub_self, List.set_cons_zero]

/-- What an update does to the lines. -/
inductive Updated (sectionName key value : Str) (lines : List Str) : List Str → Prop
  | appended (hnone : ∀ line ∈ lines, ¬IsSection sectionName line) (hspaced : spacedValue sectionName key lines = none) :
      Updated sectionName key value lines (lines ++ [[], iniHeader sectionName, iniLine key value])
  | inserted (front rest : List Str) (header : Str) (hlines : lines = front ++ header :: rest)
      (hfront : ∀ line ∈ front, ¬IsSection sectionName line) (hheader : IsSection sectionName header)
      (hspaced : spacedValue sectionName key lines = none) :
      Updated sectionName key value lines (front ++ header :: iniLine key value :: rest)
  | replaced (front between rest : List Str) (header old : Str) (hlines : lines = front ++ header :: (between ++ old :: rest))
      (hfront : ∀ line ∈ front, ¬IsSection sectionName line) (hheader : IsSection sectionName header)
      (hbetween : ∀ line ∈ between, ¬OpensSection line) (hold : WritesKey key old)
      (hspaced : spacedValue sectionName key lines = between.findSome? (keyValue key)) :
      Updated sectionName key value lines (front ++ header :: (between ++ iniLine key value :: rest))

theorem updated_updateLines (sectionName key value : Str) (lines : List Str) :
    Updated sectionName key value lines (updateLines sectionName key value lines) := by
  rcases split_section sectionName lines with hnone | ⟨front, header, rest, rfl, hfront, hheader⟩
  · rw [updateLines_of_none hnone]
    refine .appended hnone ?_
    have hdrop : lines.dropWhile (fun line => ¬IsSection sectionName line) = [] :=
      List.dropWhile_eq_nil_iff.mpr fun line hline => by simpa using hnone line hline
    rw [spacedValue, hdrop]
    rfl
  · have hdrop : (front ++ header :: rest).dropWhile (fun line => ¬IsSection sectionName line) = header :: rest := by
      rw [List.dropWhile_append_of_pos fun line hline => by simpa using hfront line hline,
        List.dropWhile_cons_of_neg (by simpa using hheader)]
    have hspaced : spacedValue sectionName key (front ++ header :: rest) =
        (keyIndex key rest).bind fun ki => (rest.take ki).findSome? (keyValue key) := by
      rw [spacedValue, hdrop]
      rfl
    cases hindex : keyIndex key rest with
    | none =>
      rw [updateLines_insert hfront hheader hindex]
      exact .inserted front rest header rfl hfront hheader (by rw [hspaced, hindex]; rfl)
    | some ki =>
      obtain ⟨between, old, after, rfl, rfl, hbetween, -, hold⟩ := keyIndex_eq_some hindex
      rw [updateLines_replace hfront hheader hindex]
      refine .replaced front between after header old rfl hfront hheader hbetween hold ?_
      rw [hspaced, hindex, Option.bind_some, List.take_left']
      rfl

/-- The lines of the file after the write. -/
def savedLines (sectionName key value : Str) (lines : List Str) : List Str :=
  Str.lines (List.intercalate ['\r', '\n'] (updateLines sectionName key value lines))

theorem textLines_bytes (text : Str) : textLines 10 13 text.bytes = text.lines.map Str.bytes :=
  Str.utf8_keepsLines.textLines_flatMap text

theorem textLines_writeIniValue (content : List UInt8) :
    textLines 10 13 (writeIniValue sectionName key value content) =
      (savedLines sectionName key value (Str.lines ((Str.ofBytes content).getD []))).map Str.bytes :=
  textLines_bytes _

theorem readIniValue_writeIniValue (content : List UInt8) :
    readIniValue sectionName key (writeIniValue sectionName key value content) =
      readLines sectionName key false (savedLines sectionName key value (Str.lines ((Str.ofBytes content).getD []))) := by
  rw [readIniValue, writeIniValue, Str.ofBytes_bytes, Option.bind_some, savedLines]

theorem notMem_of_mem_lines {text : Str} (h : line ∈ text.lines) : '\n' ∉ line :=
  @notMem_of_mem_textLines _ _ '\n' '\r' text line h

theorem lines_intercalate {xs : List Str} {last : Str} (h : ∀ line ∈ xs ++ [last], '\n' ∉ line) :
    Str.lines (List.intercalate ['\r', '\n'] (xs ++ [last])) = xs ++ if last.isEmpty then [] else [last] :=
  textLines_intercalate (by decide) (fun line hline => h line (List.mem_append_left _ hline))
    (h last (List.mem_append_right _ (List.mem_singleton_self _)))

theorem newline_notMem_updateLines (hsection : '\n' ∉ sectionName) (hkey : '\n' ∉ key) (hvalue : '\n' ∉ value)
    {lines : List Str} (hlines : ∀ line ∈ lines, '\n' ∉ line) :
    ∀ line ∈ updateLines sectionName key value lines, '\n' ∉ line := by
  have hline : '\n' ∉ iniLine key value := by
    simp only [iniLine, List.mem_append, List.mem_cons, not_or]
    exact ⟨hkey, by decide, hvalue⟩
  have hheader : '\n' ∉ iniHeader sectionName := by
    simp only [iniHeader, List.mem_append, List.mem_cons, not_or]
    exact ⟨by decide, hsection, by decide, nofun⟩
  intro line hmem
  have hall : line ∈ lines ∨ line = [] ∨ line = iniHeader sectionName ∨ line = iniLine key value := by
    have hupdated := updated_updateLines sectionName key value lines
    generalize updateLines sectionName key value lines = updated at hmem hupdated
    cases hupdated with
    | appended => simpa [or_assoc] using hmem
    | inserted front rest header hlines =>
      subst hlines
      simp only [List.mem_append, List.mem_cons] at hmem ⊢
      tauto
    | replaced front between rest header old hlines =>
      subst hlines
      simp only [List.mem_append, List.mem_cons] at hmem ⊢
      tauto
  rcases hall with hall | rfl | rfl | rfl
  · exact hlines line hall
  · exact List.not_mem_nil
  · exact hheader
  · exact hline

/-- The reader does not see the empty last line that the write loses. -/
theorem readLines_savedLines (hsection : '\n' ∉ sectionName) (hkey : '\n' ∉ key) (hvalue : '\n' ∉ value) (text : Str) :
    readLines sectionName key false (savedLines sectionName key value text.lines) =
      readLines sectionName key false (updateLines sectionName key value text.lines) := by
  have hall := newline_notMem_updateLines hsection hkey hvalue fun line (hline : line ∈ text.lines) => notMem_of_mem_lines hline
  rw [savedLines]
  rcases List.eq_nil_or_concat (updateLines sectionName key value text.lines) with hnil | ⟨xs, last, hconcat⟩
  · rw [hnil]
    rfl
  · rw [List.concat_eq_append] at hconcat
    rw [hconcat] at hall ⊢
    rw [lines_intercalate hall]
    cases last with
    | nil => rw [List.isEmpty_nil, if_pos rfl, List.append_nil, readLines_concat_nil]
    | cons c last => rfl

theorem readLines_updateLines (hkey : KeyFits key) (lines : List Str) :
    readLines sectionName key false (updateLines sectionName key value lines) =
      (spacedValue sectionName key lines).or (some value.trim) := by
  have hupdated := updated_updateLines sectionName key value lines
  generalize updateLines sectionName key value lines = updated at hupdated ⊢
  have hopen := not_opensSection_iniLine hkey value
  have hvalue := keyValue_iniLine hkey value
  cases hupdated with
  | appended hnone hspaced =>
    have hempty : ∀ line ∈ lines ++ [[]], ¬IsSection sectionName line := by
      simp only [List.mem_append, List.mem_singleton]
      rintro line (hline | rfl)
      · exact hnone line hline
      · exact fun h => absurd (opensSection_of_isSection h) (by decide)
    rw [hspaced, Option.none_or, show lines ++ [[], iniHeader sectionName, iniLine key value] =
      (lines ++ [[]]) ++ [iniHeader sectionName, iniLine key value] by simp,
      readLines_append_of_not_section hempty, readLines_section (isSection_iniHeader sectionName),
      readLines_cons_key hopen hvalue]
  | inserted front rest header _ hfront hheader hspaced =>
    rw [hspaced, Option.none_or, readLines_append_of_not_section hfront, readLines_section hheader,
      readLines_cons_key hopen hvalue]
  | replaced front between rest header old _ hfront hheader hbetween hold hspaced =>
    rw [hspaced, readLines_append_of_not_section hfront, readLines_section hheader, readLines_append hbetween,
      readLines_cons_key hopen hvalue]

theorem savedLines_eq (hsection : '\n' ∉ sectionName) (hkey : '\n' ∉ key) (hvalue : '\n' ∉ value) {text : Str}
    {xs : List Str} {last : Str} (h : updateLines sectionName key value text.lines = xs ++ [last]) :
    savedLines sectionName key value text.lines = xs ++ if last.isEmpty then [] else [last] := by
  have hall := newline_notMem_updateLines hsection hkey hvalue fun line (hline : line ∈ text.lines) => notMem_of_mem_lines hline
  rw [h] at hall
  rw [savedLines, h, lines_intercalate hall]

theorem savedLines_of_last (hsection : '\n' ∉ sectionName) (hkey : '\n' ∉ key) (hvalue : '\n' ∉ value) {text : Str}
    (h : (updateLines sectionName key value text.lines).getLast? ≠ some []) :
    savedLines sectionName key value text.lines = updateLines sectionName key value text.lines := by
  rcases List.eq_nil_or_concat (updateLines sectionName key value text.lines) with hnil | ⟨xs, last, hconcat⟩
  · rw [savedLines, hnil]
    rfl
  · rw [List.concat_eq_append] at hconcat
    rw [savedLines_eq hsection hkey hvalue hconcat, hconcat]
    rw [hconcat, List.getLast?_concat] at h
    cases last with
    | nil => exact absurd rfl h
    | cons c last => rfl

theorem iniLine_ne_nil (key value : Str) : iniLine key value ≠ [] := by simp [iniLine]

theorem ne_nil_of_isSection (h : IsSection sectionName line) : line ≠ [] := by
  rintro rfl
  exact absurd (opensSection_of_isSection h) (by decide)

theorem ne_nil_of_writesKey (h : WritesKey key line) : line ≠ [] := by
  rintro rfl
  have := isSome_keyValue_of_writesKey h
  rw [keyValue_nil] at this
  cases this

theorem getLast?_append_cons {α : Type} (xs : List α) (x : α) (ys : List α) :
    (xs ++ x :: ys).getLast? = some (ys.getLast?.getD x) := by
  rw [List.getLast?_append, List.getLast?_cons]
  rfl

/-- With an empty last line the update of a section that is there loses it. -/
theorem countP_savedLines (hsection : '\n' ∉ sectionName) (hkey : '\n' ∉ key) (hvalue : '\n' ∉ value) {text : Str}
    (hthere : ∃ line ∈ text.lines, IsSection sectionName line) (hlast : text.lines.getLast? = some []) :
    (savedLines sectionName key value text.lines).countP (·.isEmpty) < text.lines.countP (·.isEmpty) := by
  have hupdated := updated_updateLines sectionName key value text.lines
  have hsaved := @savedLines_eq sectionName key value hsection hkey hvalue text
  generalize updateLines sectionName key value text.lines = updated at hupdated hsaved
  have hrest : ∀ {front rest : List Str} {x : Str}, text.lines = front ++ x :: rest → x ≠ [] → ∃ r, rest = r ++ [[]] := by
    intro front rest x hlines hx
    rw [hlines, getLast?_append_cons] at hlast
    rcases List.eq_nil_or_concat rest with rfl | ⟨r, last, rfl⟩
    · exact absurd (Option.some.inj hlast) hx
    · rw [List.concat_eq_append, List.getLast?_concat] at hlast
      have hnil : last = [] := Option.some.inj hlast
      exact ⟨r, by rw [List.concat_eq_append, hnil]⟩
  have hline : (iniLine key value).isEmpty = false := by simp [iniLine]
  cases hupdated with
  | appended hnone =>
    obtain ⟨line, hmem, hline⟩ := hthere
    exact absurd hline (hnone line hmem)
  | inserted front rest header hlines _ hheader =>
    obtain ⟨r, rfl⟩ := hrest hlines (ne_nil_of_isSection hheader)
    rw [@hsaved (front ++ header :: iniLine key value :: r) [] (by simp), hlines]
    simp [List.countP_append, List.countP_cons, hline]
  | replaced front between rest header old hlines _ _ _ hold =>
    have hlines' : text.lines = (front ++ header :: between) ++ old :: rest := by rw [hlines]; simp
    obtain ⟨r, rfl⟩ := hrest hlines' (ne_nil_of_writesKey hold)
    rw [@hsaved (front ++ header :: (between ++ iniLine key value :: r)) [] (by simp), hlines]
    simp [List.countP_append, List.countP_cons, hline]
    omega

end

/-! ### When an update is local -/

theorem bytes_injective {s t : Str} (h : s.bytes = t.bytes) : s = t := by
  have := congrArg Str.ofBytes h
  rwa [Str.ofBytes_bytes, Str.ofBytes_bytes, Option.some_inj] at this

theorem newline_notMem_of_bytes {s : Str} (h : (10 : UInt8) ∉ s.bytes) : '\n' ∉ s := by
  intro hmem
  exact h (List.mem_flatMap.mpr ⟨'\n', hmem, by decide⟩)

namespace LinesUpdated
variable {sectionName key value : Str} {before after : List (List UInt8)}

theorem line_mem (h : LinesUpdated sectionName key value before after) : (iniLine key value).bytes ∈ after := by
  cases h <;> simp

theorem header_mem (h : LinesUpdated sectionName key value before after) :
    ∃ header : Str, IsSection sectionName header ∧ header.bytes ∈ after := by
  cases h with
  | replaced _ _ _ header _ hheader => exact ⟨header, hheader, by simp⟩
  | inserted _ _ _ header hheader => exact ⟨header, hheader, by simp⟩
  | appended => exact ⟨_, isSection_iniHeader sectionName, by simp⟩

theorem of_mem (h : LinesUpdated sectionName key value before after) {line : List UInt8} (hline : line ∈ before) :
    line ∈ after ∨ ∃ text : Str, line = text.bytes := by
  cases h with
  | replaced before between after header old =>
    simp only [List.mem_append, List.mem_cons] at hline ⊢
    rcases hline with hline | rfl | hline | rfl | hline
    · exact .inl (.inl hline)
    · exact .inr ⟨header, rfl⟩
    · exact .inl (.inr (.inr (.inl hline)))
    · exact .inr ⟨old, rfl⟩
    · exact .inl (.inr (.inr (.inr (.inr hline))))
  | inserted =>
    simp only [List.mem_append, List.mem_cons] at hline ⊢
    tauto
  | appended => exact .inl (List.mem_append_left _ hline)

theorem countP_le (h : LinesUpdated sectionName key value before after) :
    before.countP (·.isEmpty) ≤ after.countP (·.isEmpty) := by
  cases h with
  | replaced before between after header old hheader hbetween hold =>
    have hempty : old.bytes.isEmpty = false := by simpa using bytes_ne_nil_of_keyValue hold
    simp only [List.countP_append, List.countP_cons, hempty]
    simp
  | inserted =>
    simp only [List.countP_append, List.countP_cons]
    omega
  | appended => simp only [List.countP_append, Nat.le_add_right]

end LinesUpdated

section
variable {sectionName key value : Str}

theorem iniFits_of_updateLocal (hvalue : '\n' ∉ value) {content : List UInt8}
    (h : UpdateLocal sectionName key value content (writeIniValue sectionName key value content)) :
    ∃ text, Str.ofBytes content = some text ∧ IniFits sectionName key value text := by
  obtain ⟨hlines, hread⟩ := h
  have hline : '\n' ∉ iniLine key value := newline_notMem_of_bytes (notMem_of_mem_textLines hlines.line_mem)
  have hkey : '\n' ∉ key := fun hmem => hline (List.mem_append_left _ hmem)
  have hsection : '\n' ∉ sectionName := by
    obtain ⟨header, hheader, hmem⟩ := hlines.header_mem
    exact notMem_sectionName hheader (by decide) (by decide) (newline_notMem_of_bytes (notMem_of_mem_textLines hmem))
  -- each line of the file is a text, so the file is one
  obtain ⟨text, rfl⟩ : ∃ text : Str, content = text.bytes := by
    refine Str.utf8_keepsLines.exists_flatMap fun line hmem => ?_
    rcases hlines.of_mem hmem with hafter | htext
    · rw [textLines_writeIniValue] at hafter
      obtain ⟨text, -, rfl⟩ := List.mem_map.mp hafter
      exact ⟨text, rfl⟩
    · exact htext
  rw [readIniValue_writeIniValue, Str.ofBytes_bytes, Option.getD_some] at hread
  have hfits : KeyFits key := by
    by_contra hbad
    rw [readLines_of_not_fits hbad] at hread
    cases hread
  refine ⟨text, Str.ofBytes_bytes text, hsection, hkey, hfits, fun hthere hlast => ?_, fun old hold => ?_⟩
  · have hle := hlines.countP_le
    rw [textLines_writeIniValue, Str.ofBytes_bytes, Option.getD_some, textLines_bytes] at hle
    have hempty : ∀ lines : List Str, (lines.map Str.bytes).countP (·.isEmpty) = lines.countP (·.isEmpty) := by
      intro lines
      rw [List.countP_map]
      refine List.countP_congr fun line _ => ?_
      simp only [Function.comp_apply, List.isEmpty_iff]
      exact ⟨Str.utf8_keepsLines.flatMap_eq_nil, fun hnil => hnil ▸ rfl⟩
    rw [hempty, hempty] at hle
    exact absurd (countP_savedLines hsection hkey hvalue hthere hlast) (not_lt.mpr hle)
  · rw [readLines_savedLines hsection hkey hvalue, readLines_updateLines hfits, hold] at hread
    exact Option.some.inj hread

theorem updateLocal_of_iniFits (hvalue : '\n' ∉ value) {text : Str} (h : IniFits sectionName key value text) :
    UpdateLocal sectionName key value text.bytes (writeIniValue sectionName key value text.bytes) := by
  obtain ⟨hsection, hkey, hfits, hlast, hspaced⟩ := h
  refine ⟨?_, ?_⟩
  · rw [textLines_writeIniValue, Str.ofBytes_bytes, Option.getD_some, textLines_bytes]
    have hsaved := @savedLines_of_last sectionName key value hsection hkey hvalue text
    have hupdated := updated_updateLines sectionName key value text.lines
    generalize updateLines sectionName key value text.lines = updated at hupdated hsaved
    cases hupdated with
    | appended =>
      have hne : (text.lines ++ [[], iniHeader sectionName, iniLine key value]).getLast? ≠ some [] := by
        rw [show text.lines ++ [[], iniHeader sectionName, iniLine key value] =
          (text.lines ++ [[], iniHeader sectionName]) ++ [iniLine key value] by simp, List.getLast?_concat]
        simpa using iniLine_ne_nil key value
      rw [hsaved hne, List.map_append]
      exact .appended _
    | inserted front rest header hlines hfront hheader =>
      have hne : (front ++ header :: iniLine key value :: rest).getLast? ≠ some [] := by
        have hlast' := hlast ⟨header, by simp [hlines], hheader⟩
        rw [hlines, getLast?_append_cons] at hlast'
        rw [getLast?_append_cons, List.getLast?_cons, Option.getD_some]
        cases hrest : rest.getLast? with
        | none => simpa [hrest] using iniLine_ne_nil key value
        | some last => simpa [hrest] using hlast'
      rw [hsaved hne, hlines, List.map_append, List.map_append]
      exact .inserted (front.map Str.bytes) [] (rest.map Str.bytes) header hheader (fun _ h => nomatch h)
    | replaced front between rest header old hlines hfront hheader hbetween hold =>
      have hne : (front ++ header :: (between ++ iniLine key value :: rest)).getLast? ≠ some [] := by
        have hlast' := hlast ⟨header, by simp [hlines], hheader⟩
        rw [hlines, ← List.cons_append, ← List.append_assoc, getLast?_append_cons] at hlast'
        rw [← List.cons_append, ← List.append_assoc, getLast?_append_cons]
        cases hrest : rest.getLast? with
        | none => simpa [hrest] using iniLine_ne_nil key value
        | some last => simpa [hrest] using hlast'
      rw [hsaved hne, hlines]
      simp only [List.map_append, List.map_cons]
      refine .replaced (front.map Str.bytes) (between.map Str.bytes) (rest.map Str.bytes) header old hheader ?_
        (isSome_keyValue_of_writesKey hold)
      intro line hmem
      obtain ⟨line', hline', heq⟩ := List.mem_map.mp hmem
      exact bytes_injective heq ▸ hbetween line' hline'
  · rw [readIniValue_writeIniValue, Str.ofBytes_bytes, Option.getD_some, readLines_savedLines hsection hkey hvalue,
      readLines_updateLines hfits]
    cases hold : spacedValue sectionName key text.lines with
    | none => rfl
    | some old => rw [hspaced old hold, Option.some_or]

/-- An update is local and read back if and only if the file is UTF-8, the names fit on their lines, no empty last line is lost
and no line that the writer does not know hides the value. -/
theorem updateLocal_iff (hvalue : '\n' ∉ value) (content : List UInt8) :
    UpdateLocal sectionName key value content (writeIniValue sectionName key value content) ↔
      ∃ text, Str.ofBytes content = some text ∧ IniFits sectionName key value text := by
  refine ⟨iniFits_of_updateLocal hvalue, ?_⟩
  rintro ⟨text, htext, hfits⟩
  rw [Str.bytes_of_ofBytes htext]
  exact updateLocal_of_iniFits hvalue hfits

end

theorem lt_of_getLast?_bytes {s : Str} {b : UInt8} (h : s.bytes.getLast? = some b) : b.toNat < 192 := by
  rcases List.eq_nil_or_concat s with rfl | ⟨front, c, rfl⟩
  · cases h
  · rw [List.concat_eq_append, Str.bytes, List.flatMap_append, List.flatMap_singleton,
      List.getLast?_append_of_ne_nil _ String.utf8EncodeChar_ne_nil] at h
    unfold String.utf8EncodeChar at h
    dsimp only at h
    have hval : c.toNat = c.val.toNat := rfl
    split_ifs at h <;> simp only [List.getLast?_cons_cons, List.getLast?_singleton, Option.some.injEq] at h <;> subst h <;>
      simp <;> omega

/-- A file in another encoding, with the name `é`. -/
def latinFile : List UInt8 := Str.bytes "[A]\r\nName=".toList ++ [0xE9]

/-- All of a file in another encoding is lost. -/
theorem latinFile_lost :
    writeIniValue "MISC".toList "LastServerName".toList "x".toList latinFile =
        Str.bytes "\r\n[MISC]\r\nLastServerName=x".toList ∧
      ¬UpdateLocal "MISC".toList "LastServerName".toList "x".toList latinFile
        (writeIniValue "MISC".toList "LastServerName".toList "x".toList latinFile) := by
  have hnone : Str.ofBytes latinFile = none := by
    cases h : Str.ofBytes latinFile with
    | none => rfl
    | some text =>
      have hlast : text.bytes.getLast? = some 0xE9 := by
        rw [← Str.bytes_of_ofBytes h, latinFile, List.getLast?_concat]
      exact absurd (lt_of_getLast?_bytes hlast) (by decide)
  refine ⟨?_, fun h => ?_⟩
  · rw [writeIniValue, hnone]
    decide +kernel
  · obtain ⟨text, htext, -⟩ := iniFits_of_updateLocal (by decide) h
    rw [hnone] at htext
    cases htext

theorem server_replaced :
    UpdateLocal "MISC".toList "LastServerName".toList "x".toList
      (Str.bytes "[A]\r\nName=1\r\n\r\n[misc]\r\nLastServerName=old\r\n".toList)
      (writeIniValue "MISC".toList "LastServerName".toList "x".toList
        (Str.bytes "[A]\r\nName=1\r\n\r\n[misc]\r\nLastServerName=old\r\n".toList)) := by
  refine (updateLocal_iff (by decide) _).mpr ⟨_, Str.ofBytes_bytes _, by decide, by decide, ?_, fun _ => by decide +kernel, ?_⟩
  · intro c hc
    exact Option.some.inj hc ▸ by decide
  · have hnone : spacedValue "MISC".toList "LastServerName".toList
        (Str.lines "[A]\r\nName=1\r\n\r\n[misc]\r\nLastServerName=old\r\n".toList) = none := by decide +kernel
    rw [hnone]
    exact fun _ => by nofun

/-- Of the game's directory only the files of player data are written. -/
theorem writeServerToIni_eq_of_other (server : Str) {entries : List (Str × List UInt8)}
    (h : ∀ entry ∈ entries, ¬("eqlsPlayerData".toList <+: entry.1 ∧ ".ini".toList <:+ entry.1)) :
    writeServerToIni server entries = entries := by
  unfold writeServerToIni
  split
  · rfl
  · refine List.map_congr_left (fun entry hentry => ?_) |>.trans (List.map_id _)
    exact if_neg (h entry hentry)

end Stonemite.Settings
