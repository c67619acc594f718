import Stonemite.Trigger.Substitute

/-!
# The tokens of a template

What the static token pattern matches, read by hand: a text falls into tokens and other characters from left to right.
Replacing tokens fills them in. `Platform.Tokens` is this assumption on the pattern; `fill` is the replacement on the
pieces of `scan`.
-/

namespace Stonemite

namespace Str

theorem len_append (s t : Str) : Str.len (s ++ t) = Str.len s + Str.len t := by
  simp [Str.len, Str.bytes]

theorem len_cons (c : Char) (s : Str) : Str.len (c :: s) = (String.utf8EncodeChar c).length + Str.len s := by
  simp [Str.len, Str.bytes]

theorem utf8EncodeChar_length_pos (c : Char) : 0 < (String.utf8EncodeChar c).length :=
  List.length_pos_iff.mpr String.utf8EncodeChar_ne_nil

theorem dropBytes_zero (s : Str) : Str.dropBytes 0 s = s := by
  cases s with
  | nil => rfl
  | cons c s => rw [dropBytes, if_pos rfl]

theorem takeBytes_zero (s : Str) : Str.takeBytes 0 s = [] := by
  cases s with
  | nil => rfl
  | cons c s => rw [takeBytes, if_pos rfl]

theorem dropBytes_append (s t : Str) : Str.dropBytes (Str.len s) (s ++ t) = t := by
  induction s with
  | nil => exact dropBytes_zero t
  | cons c s ih =>
    have := utf8EncodeChar_length_pos c
    rw [len_cons, List.cons_append, dropBytes, if_neg (by omega), Nat.add_sub_cancel_left, ih]

theorem takeBytes_append (s t : Str) : Str.takeBytes (Str.len s) (s ++ t) = s := by
  induction s with
  | nil => exact takeBytes_zero t
  | cons c s ih =>
    have := utf8EncodeChar_length_pos c
    rw [len_cons, List.cons_append, takeBytes, if_neg (by omega), Nat.add_sub_cancel_left, ih]

theorem slice_append (a b c : Str) : Str.slice (a ++ b ++ c) (Str.len a) (Str.len (a ++ b)) = b := by
  rw [Str.slice, List.append_assoc, dropBytes_append, len_append, Nat.add_sub_cancel_left, takeBytes_append]

end Str

namespace Triggers

/-- A token `${name.modifier:arg}`; the dollar, the modifier and its argument may be left out. -/
structure TemplateToken where
  dollar : Bool
  name : Str
  modifier : Option Str
  arg : Option Str
deriving DecidableEq, Repr

namespace TemplateToken

/-- A letter, a digit or an underscore. -/
def isWord (c : Char) : Bool := Str.isAsciiAlphanumeric c || c = '_'

def suffix (t : TemplateToken) : Str :=
  match t.modifier with
  | none => ['\x7d']
  | some modifier => '.' :: (modifier ++ match t.arg with
    | none => ['\x7d']
    | some arg => ':' :: (arg ++ ['\x7d']))

def text (t : TemplateToken) : Str := (if t.dollar then ['$'] else []) ++ '\x7b' :: (t.name ++ t.suffix)

/-- The token after the opening brace. -/
def readName (dollar : Bool) (s : Str) : Option (TemplateToken × Str) :=
  let name := s.takeWhile isWord
  if name = [] then none
  else match s.dropWhile isWord with
    | '\x7d' :: rest => some (⟨dollar, name, none, none⟩, rest)
    | '.' :: s =>
      let modifier := s.takeWhile isWord
      if modifier = [] then none
      else match s.dropWhile isWord with
        | '\x7d' :: rest => some (⟨dollar, name, some modifier, none⟩, rest)
        | ':' :: s =>
          match s.dropWhile (· ≠ '\x7d') with
          | '\x7d' :: rest => some (⟨dollar, name, some modifier, some (s.takeWhile (· ≠ '\x7d'))⟩, rest)
          | _ => none
        | _ => none
    | _ => none

/-- The token at the front of a text. -/
def read : Str → Option (TemplateToken × Str)
  | '$' :: '\x7b' :: s => readName true s
  | '\x7b' :: s => readName false s
  | _ => none

variable {t : TemplateToken} {dollar : Bool} {s rest : Str}

theorem of_readName (h : readName dollar s = some (t, rest)) : t.dollar = dollar ∧ s = t.name ++ t.suffix ++ rest := by
  unfold readName at h
  dsimp only at h
  have hname := List.takeWhile_append_dropWhile (p := isWord) (l := s)
  split_ifs at h
  split at h
  · rename_i heq
    obtain ⟨rfl, rfl⟩ := Prod.mk.inj (Option.some.inj h)
    rw [heq] at hname
    exact ⟨rfl, hname.symm.trans (by simp [suffix])⟩
  · rename_i s' heq
    have hmodifier := List.takeWhile_append_dropWhile (p := isWord) (l := s')
    split_ifs at h
    split at h
    · rename_i heq'
      obtain ⟨rfl, rfl⟩ := Prod.mk.inj (Option.some.inj h)
      rw [heq'] at hmodifier
      rw [heq, ← hmodifier] at hname
      exact ⟨rfl, hname.symm.trans (by simp [suffix])⟩
    · rename_i s'' heq'
      have harg := List.takeWhile_append_dropWhile (p := (· ≠ '\x7d')) (l := s'')
      split at h
      · rename_i heq''
        obtain ⟨rfl, rfl⟩ := Prod.mk.inj (Option.some.inj h)
        rw [heq''] at harg
        rw [heq', ← harg] at hmodifier
        rw [heq, ← hmodifier] at hname
        exact ⟨rfl, hname.symm.trans (by simp [suffix])⟩
      · cases h
    · cases h
  · cases h

theorem of_read (h : read s = some (t, rest)) : s = t.text ++ rest := by
  unfold read at h
  split at h
  · obtain ⟨hdollar, hs⟩ := of_readName h
    simp [text, hdollar, hs]
  · obtain ⟨hdollar, hs⟩ := of_readName h
    simp [text, hdollar, hs]
  · cases h

theorem text_ne_nil (t : TemplateToken) : t.text ≠ [] := by simp [text]

end TemplateToken

/-! ### Scanning -/

/-- A character outside the tokens, or a token. -/
inductive Piece
  | char (c : Char)
  | token (t : TemplateToken)
deriving DecidableEq, Repr

def Piece.text : Piece → Str
  | char c => [c]
  | token t => t.text

/-- The pieces of a text, with fuel for each. -/
def scanLoop : Nat → Str → List Piece
  | 0, _ => []
  | _ + 1, [] => []
  | n + 1, c :: s =>
    match TemplateToken.read (c :: s) with
    | some (t, rest) => .token t :: scanLoop n rest
    | none => .char c :: scanLoop n s

/-- The tokens of a text and the characters between them. -/
def scan (s : Str) : List Piece := scanLoop s.length s

theorem scanLoop_eq {n : Nat} {s : Str} (h : s.length ≤ n) : scanLoop n s = scan s := by
  have key : ∀ (m n : Nat) (s : Str), s.length ≤ m → s.length ≤ n → scanLoop m s = scanLoop n s := by
    intro m
    induction m with
    | zero =>
      intro n s hm hn
      obtain rfl := List.length_eq_zero_iff.mp (Nat.le_zero.mp hm)
      cases n <;> rfl
    | succ m ih =>
      intro n s hm hn
      cases s with
      | nil => cases n <;> rfl
      | cons c s =>
        obtain ⟨n, rfl⟩ : ∃ k, n = k + 1 := ⟨n - 1, by simp at hn; omega⟩
        rw [scanLoop, scanLoop]
        cases hread : TemplateToken.read (c :: s) with
        | none => exact congrArg _ (ih n s (by simpa using hm) (by simpa using hn))
        | some found =>
          obtain ⟨t, rest⟩ := found
          have hlength := congrArg List.length (TemplateToken.of_read hread)
          have hpos := List.length_pos_iff.mpr t.text_ne_nil
          rw [List.length_append] at hlength
          exact congrArg _ (ih n rest (by omega) (by omega))
  exact key n s.length s h le_rfl

@[simp] theorem scan_nil : scan [] = [] := rfl

theorem scan_of_token {s rest : Str} {t : TemplateToken} (h : TemplateToken.read s = some (t, rest)) :
    scan s = .token t :: scan rest := by
  cases s with
  | nil => cases h
  | cons c s =>
    have hlength := congrArg List.length (TemplateToken.of_read h)
    have hpos := List.length_pos_iff.mpr t.text_ne_nil
    rw [List.length_append, List.length_cons] at hlength
    rw [scan, List.length_cons, scanLoop, h]
    exact congrArg _ (scanLoop_eq (by omega))

theorem scan_of_none {c : Char} {s : Str} (h : TemplateToken.read (c :: s) = none) :
    scan (c :: s) = .char c :: scan s := by
  rw [scan, List.length_cons, scanLoop, h]
  rfl

theorem scan_induction {motive : Str → Prop} (nil : motive [])
    (char : ∀ c s, TemplateToken.read (c :: s) = none → motive s → motive (c :: s))
    (token : ∀ t s rest, TemplateToken.read s = some (t, rest) → motive rest → motive s) (s : Str) : motive s := by
  induction hn : s.length using Nat.strong_induction_on generalizing s with
  | _ n ih =>
    cases s with
    | nil => exact nil
    | cons c s =>
      cases hread : TemplateToken.read (c :: s) with
      | none => exact char c s hread (ih s.length (by rw [← hn, List.length_cons]; omega) s rfl)
      | some found =>
        obtain ⟨t, rest⟩ := found
        have hlength := congrArg List.length (TemplateToken.of_read hread)
        have hpos := List.length_pos_iff.mpr t.text_ne_nil
        rw [List.length_append] at hlength
        exact token t _ rest hread (ih rest.length (by omega) rest rfl)

theorem flatMap_scan (s : Str) : (scan s).flatMap Piece.text = s := by
  induction s using scan_induction with
  | nil => rfl
  | char c s h ih => rw [scan_of_none h, List.flatMap_cons, ih]; rfl
  | token t s rest h ih => rw [scan_of_token h, List.flatMap_cons, ih, TemplateToken.of_read h]; rfl

theorem scan_of_notMem {s : Str} (h : '\x7b' ∉ s) : scan s = s.map .char := by
  induction s with
  | nil => rfl
  | cons c s ih =>
    rw [List.mem_cons, not_or] at h
    have hread : TemplateToken.read (c :: s) = none := by
      unfold TemplateToken.read
      split
      · rename_i heq
        exact absurd (by rw [(List.cons.inj heq).2]; exact List.mem_cons_self) h.2
      · rename_i heq
        exact absurd (List.cons.inj heq).1.symm h.1
      · rfl
    rw [scan_of_none hread, ih h.2]
    rfl

/-! ### Filling in -/

/-- The tokens that `resolve` gives a text are replaced. -/
def fill (resolve : TemplateToken → Option Str) (pieces : List Piece) : Str :=
  pieces.flatMap fun
    | .char c => [c]
    | .token t => (resolve t).getD t.text

theorem fill_none (pieces : List Piece) : fill (fun _ => none) pieces = pieces.flatMap Piece.text := by
  unfold fill
  congr 1

theorem fill_chars (resolve : TemplateToken → Option Str) (s : Str) : fill resolve (s.map .char) = s := by
  induction s with
  | nil => rfl
  | cons c s ih => exact congrArg (c :: ·) ih

def captureGroup (start : Nat) (text : Str) : Option Group := some ⟨start, start + Str.len text, text⟩

/-- The captures of a token that begins at a byte. -/
def TemplateToken.captures (start : Nat) (t : TemplateToken) : Captures :=
  let name := start + (if t.dollar then 1 else 0) + 1
  let modifier := name + Str.len t.name + 1
  let arg := modifier + Str.len (t.modifier.getD []) + 1
  [captureGroup start t.text, captureGroup name t.name, t.modifier.bind (captureGroup modifier),
    t.arg.bind (captureGroup arg)]

/-- The captures of the tokens of a text that begins at a byte. -/
def tokenCaptures : Nat → List Piece → List Captures
  | _, [] => []
  | start, .char c :: pieces => tokenCaptures (start + Str.len [c]) pieces
  | start, .token t :: pieces => t.captures start :: tokenCaptures (start + Str.len t.text) pieces

/-- The token pattern matches the tokens, from left to right. -/
def Platform.Tokens (P : Platform) : Prop := ∀ text, P.capturesIter tokenRegex text = tokenCaptures 0 (scan text)

variable {P : Platform}

/-- A token as a value by its name, with the modifier applied. -/
def resolveName (P : Platform) (value : Str → Option Str) (t : TemplateToken) : Option Str :=
  (value t.name).map fun value => applyModifier P value t.modifier t.arg

theorem replaceToken_captures (text : Str) (value : Str → Option Str) (result : Str) (last start : Nat)
    (t : TemplateToken) :
    replaceToken P text value (result, last) (t.captures start) =
      (result ++ text.slice last start ++ (resolveName P value t).getD t.text, start + Str.len t.text) := by
  have hname : Captures.at (t.captures start) 1 = t.name := rfl
  have hmodifier : Captures.get (t.captures start) 2 = t.modifier := by
    obtain ⟨dollar, name, modifier, arg⟩ := t
    cases modifier <;> rfl
  have harg : Captures.get (t.captures start) 3 = t.arg := by
    obtain ⟨dollar, name, modifier, arg⟩ := t
    cases arg <;> rfl
  have hshape : ∃ groups, t.captures start = some ⟨start, start + Str.len t.text, t.text⟩ :: groups := ⟨_, rfl⟩
  obtain ⟨groups, hgroups⟩ := hshape
  rw [hgroups] at hname hmodifier harg ⊢
  simp only [replaceToken, hname, hmodifier, harg, resolveName]
  cases value t.name <;> rfl

theorem foldl_replaceToken (value : Str → Option Str) (pieces : List Piece) (done pending result text : Str)
    (htext : text = done ++ pending ++ pieces.flatMap Piece.text) :
    let filled := (tokenCaptures (Str.len (done ++ pending)) pieces).foldl (replaceToken P text value) (result, Str.len done)
    filled.1 ++ text.dropBytes filled.2 = result ++ pending ++ fill (resolveName P value) pieces := by
  induction pieces generalizing done pending result with
  | nil =>
    rw [List.flatMap_nil, List.append_nil] at htext
    simp only [tokenCaptures, List.foldl_nil, fill, List.flatMap_nil, List.append_nil]
    rw [htext, Str.dropBytes_append]
  | cons piece pieces ih =>
    cases piece with
    | char c =>
      have := ih done (pending ++ [c]) result (by rw [htext]; simp [Piece.text])
      rw [← List.append_assoc, Str.len_append] at this
      rw [tokenCaptures]
      refine this.trans ?_
      simp [fill]
    | token t =>
      have := ih (done ++ pending ++ t.text) [] (result ++ pending ++ (resolveName P value t).getD t.text)
        (by rw [htext]; simp [Piece.text])
      rw [List.append_nil, Str.len_append (done ++ pending)] at this
      rw [tokenCaptures, List.foldl_cons, replaceToken_captures]
      have hslice : text.slice (Str.len done) (Str.len (done ++ pending)) = pending := by
        rw [htext, Str.slice_append]
      rw [hslice]
      refine this.trans ?_
      simp [fill]

theorem replaceTokens_eq (h : P.Tokens) (text : Str) (value : Str → Option Str) :
    replaceTokens P text value = fill (resolveName P value) (scan text) := by
  unfold replaceTokens
  by_cases hbrace : '\x7b' ∈ text
  · rw [if_neg (by simpa using hbrace), h text]
    have := foldl_replaceToken (P := P) value (scan text) [] [] [] text (by rw [flatMap_scan]; rfl)
    exact this
  · rw [if_pos (by simpa using hbrace), scan_of_notMem hbrace, fill_chars]

theorem replaceFromMatches_eq (h : P.Tokens) (text : Str) (captures : Option MatchMap) :
    replaceFromMatches P text captures = fill (resolveName P fun name => captures.bind (·.get name)) (scan text) := by
  cases captures with
  | none =>
    have hnone : (resolveName P fun name => (none : Option MatchMap).bind (·.get name)) = fun _ => none := rfl
    rw [hnone, fill_none, flatMap_scan]
    rfl
  | some captures =>
    rw [replaceFromMatches]
    by_cases hempty : text.isEmpty
    · rw [if_pos hempty, List.isEmpty_iff.mp hempty]
      rfl
    · rw [if_neg hempty, replaceTokens_eq h]
      rfl

end Triggers
end Stonemite
