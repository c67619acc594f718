import Stonemite.Lib.Parsing

/-!
# Socket addresses

`SocketAddr::from_str`: an IPv4 or IPv6 address with a port. Each reader takes the characters it reads off the front of a text.
-/

namespace Stonemite

/-- An address of either version. -/
inductive IpAddr
  | v4 (octets : List Nat)
  | v6 (groups : List Nat)
deriving DecidableEq, Repr

/-- The address is one of the computer itself. -/
def IpAddr.isLoopback : IpAddr → Bool
  | v4 octets => octets.head? = some 127
  | v6 groups => groups = [0, 0, 0, 0, 0, 0, 0, 1]

structure SocketAddr where
  ip : IpAddr
  port : Nat
deriving DecidableEq, Repr

namespace SocketAddr

/-- `char::to_digit`. -/
def toDigit (radix : Nat) (c : Char) : Option Nat :=
  let digit :=
    if Str.isAsciiDigit c then c.toNat - '0'.toNat
    else if 'a' ≤ c ∧ c ≤ 'z' then c.toNat - 'a'.toNat + 10
    else if 'A' ≤ c ∧ c ≤ 'Z' then c.toNat - 'A'.toNat + 10
    else radix
  if digit < radix then some digit else none

/-- The digits at the front. -/
def readDigits (radix : Nat) : Str → List Nat × Str
  | [] => ([], [])
  | c :: s =>
    match toDigit radix c with
    | some digit => (digit :: (readDigits radix s).1, (readDigits radix s).2)
    | none => ([], c :: s)

/-- A number under `bound` of at most `maxDigits` digits, with zeros before it only if `zeroPrefix`. -/
def readNumber (radix : Nat) (maxDigits : Option Nat) (zeroPrefix : Bool) (bound : Nat) (s : Str) : Option (Nat × Str) :=
  let (digits, rest) := readDigits radix s
  let value := digits.foldl (fun n digit => n * radix + digit) 0
  if digits = [] ∨ (maxDigits.any fun max => max < digits.length) ∨ bound ≤ value ∨
      (zeroPrefix = false ∧ digits.head? = some 0 ∧ 1 < digits.length) then none
  else some (value, rest)

/-- The rest after this character. -/
def readChar (c : Char) : Str → Option Str
  | [] => none
  | d :: s => if d = c then some s else none

/-- An item, after a separator unless it is the first one. -/
def readSeparator {α : Type} (c : Char) (index : Nat) (inner : Str → Option (α × Str)) (s : Str) : Option (α × Str) :=
  if index = 0 then inner s else (readChar c s).bind inner

def readIpv4Addr (s : Str) : Option (List Nat × Str) := do
  let octet := readNumber 10 (some 3) false 256
  let (a, s) ← readSeparator '.' 0 octet s
  let (b, s) ← readSeparator '.' 1 octet s
  let (c, s) ← readSeparator '.' 2 octet s
  let (d, s) ← readSeparator '.' 3 octet s
  return ([a, b, c, d], s)

/-- At most `room` groups from the group `i` on, and whether they end in an IPv4 address. -/
def readGroups (i : Nat) (s : Str) : Nat → List Nat × Bool × Str
  | 0 => ([], false, s)
  | room + 1 =>
    let ipv4 := if room = 0 then none else readSeparator ':' i readIpv4Addr s
    match ipv4 with
    | some (octets, s) =>
      ([octets.getD 0 0 * 256 + octets.getD 1 0, octets.getD 2 0 * 256 + octets.getD 3 0], true, s)
    | none =>
      match readSeparator ':' i (readNumber 16 (some 4) true (2 ^ 16)) s with
      | some (group, s) =>
        let (groups, ipv4, s) := readGroups (i + 1) s room
        (group :: groups, ipv4, s)
      | none => ([], false, s)

/-- Eight groups, of which a run of zeros may be left out. -/
def readIpv6Addr (s : Str) : Option (List Nat × Str) := do
  let (head, ipv4, s) := readGroups 0 s 8
  if head.length = 8 then return (head, s)
  -- no IPv4 part before `::`
  if ipv4 then none
  let s ← readChar ':' s
  let s ← readChar ':' s
  let (tail, _, s) := readGroups 0 s (8 - (head.length + 1))
  return (head ++ List.replicate (8 - head.length - tail.length) 0 ++ tail, s)

def readPort (s : Str) : Option (Nat × Str) := (readChar ':' s).bind (readNumber 10 none true (2 ^ 16))

/-- A scope after its percent sign. -/
def readScopeId (s : Str) : Option (Nat × Str) := (readChar '%' s).bind (readNumber 10 none true (2 ^ 32))

/-- An address of version 4 with its port. -/
def readSocketAddrV4 (s : Str) : Option (SocketAddr × Str) := do
  let (octets, s) ← readIpv4Addr s
  let (port, s) ← readPort s
  return (⟨.v4 octets, port⟩, s)

/-- An address of version 6 in brackets, with its port. -/
def readSocketAddrV6 (s : Str) : Option (SocketAddr × Str) := do
  let s ← readChar '[' s
  let (groups, s) ← readIpv6Addr s
  let s := ((readScopeId s).map (·.2)).getD s
  let s ← readChar ']' s
  let (port, s) ← readPort s
  return (⟨.v6 groups, port⟩, s)

/-- The address that the whole text is. -/
def parse (s : Str) : Option SocketAddr :=
  match (readSocketAddrV4 s).or (readSocketAddrV6 s) with
  | some (address, []) => some address
  | _ => none

example : parse "[::1]:19720".toList = some ⟨.v6 [0, 0, 0, 0, 0, 0, 0, 1], 19720⟩ := by decide +kernel

/-! ### Reading what is written -/

theorem toDigit_of_isAsciiDigit {c : Char} (h : Str.isAsciiDigit c = true) : toDigit 10 c = some (c.toNat - '0'.toNat) := by
  unfold toDigit
  rw [if_pos h]
  have hle : c.toNat ≤ '9'.toNat := by
    simp only [Str.isAsciiDigit, Bool.and_eq_true, decide_eq_true_eq] at h
    exact h.2
  have hlt : c.toNat - '0'.toNat < 10 := by
    have h9 : '9'.toNat = 57 := rfl
    have h0 : '0'.toNat = 48 := rfl
    omega
  simp only [hlt, if_true]

theorem readDigits_append {s rest : Str} (hs : ∀ c ∈ s, Str.isAsciiDigit c = true)
    (hrest : ∀ c, rest.head? = some c → toDigit 10 c = none) :
    readDigits 10 (s ++ rest) = (s.map fun c => c.toNat - '0'.toNat, rest) := by
  induction s with
  | nil =>
    cases rest with
    | nil => rfl
    | cons c rest => simp [readDigits, hrest c rfl]
  | cons c s ih =>
    rw [List.cons_append, readDigits, toDigit_of_isAsciiDigit (hs c List.mem_cons_self),
      ih fun d hd => hs d (List.mem_cons_of_mem _ hd)]
    rfl

theorem value_toDigits (n : Nat) :
    ((Nat.toDigits 10 n).map fun c => c.toNat - '0'.toNat).foldl (fun n digit => n * 10 + digit) 0 = n := by
  have hvalue := Nat.ofDigitChars_ten_toDigits (n := n)
  rw [Nat.ofDigitChars_eq_foldl] at hvalue
  rw [List.foldl_map]
  refine Eq.trans ?_ hvalue
  congr 1
  funext m c
  rw [Nat.mul_comm]

theorem readNumber_append {maxDigits : Option Nat} {zeroPrefix : Bool} {bound n : Nat} {rest : Str}
    (hbound : n < bound) (hmax : ∀ max, maxDigits = some max → (Nat.toDigits 10 n).length ≤ max)
    (hzero : zeroPrefix = false → (Nat.toDigits 10 n).head? = some '0' → (Nat.toDigits 10 n).length ≤ 1)
    (hrest : ∀ c, rest.head? = some c → toDigit 10 c = none) :
    readNumber 10 maxDigits zeroPrefix bound (Nat.toDigits 10 n ++ rest) = some (n, rest) := by
  have hall : ∀ c ∈ Nat.toDigits 10 n, Str.isAsciiDigit c = true := fun c hc => Str.isAsciiDigit_of_mem_toDigits hc
  rw [readNumber, readDigits_append hall hrest]
  dsimp only
  rw [value_toDigits, if_neg]
  rintro (hnil | hlong | hbig | ⟨hlead, hhead, hone⟩)
  · exact Nat.toDigits_ne_nil (List.map_eq_nil_iff.mp hnil)
  · rw [Option.any_eq_true] at hlong
    obtain ⟨max, hmax', hlt⟩ := hlong
    have := hmax max hmax'
    simp only [List.length_map, decide_eq_true_eq] at hlt
    omega
  · omega
  · rw [List.length_map] at hone
    have hfirst : (Nat.toDigits 10 n).head? = some '0' := by
      cases hdigits : Nat.toDigits 10 n with
      | nil => exact absurd hdigits Nat.toDigits_ne_nil
      | cons c digits =>
        have hc := hall c (by rw [hdigits]; exact List.mem_cons_self)
        rw [hdigits] at hhead
        have hzero' : c.toNat - '0'.toNat = 0 := Option.some.inj hhead
        simp only [Str.isAsciiDigit, Bool.and_eq_true, decide_eq_true_eq] at hc
        have hle : '0'.toNat ≤ c.toNat := hc.1
        rw [List.head?_cons, Char.toNat_inj.mp (show c.toNat = '0'.toNat by omega)]
    have := hzero hlead hfirst
    omega

theorem octet_digits : ∀ n < 256, (Nat.toDigits 10 n).length ≤ 3 ∧
    ((Nat.toDigits 10 n).head? = some '0' → (Nat.toDigits 10 n).length ≤ 1) := by
  decide +kernel

/-- An IPv4 address with a port, as it is written. -/
def format (a b c d port : Nat) : Str :=
  Nat.toDigits 10 a ++ '.' :: (Nat.toDigits 10 b ++ '.' :: (Nat.toDigits 10 c ++ '.' :: (Nat.toDigits 10 d ++
    ':' :: Nat.toDigits 10 port)))

theorem parse_format {a b c d port : Nat} (ha : a < 256) (hb : b < 256) (hc : c < 256) (hd : d < 256) (hport : port < 2 ^ 16) :
    parse (format a b c d port) = some ⟨.v4 [a, b, c, d], port⟩ := by
  have hoctet : ∀ {n : Nat} (e : Char) (rest : Str), n < 256 → toDigit 10 e = none →
      readNumber 10 (some 3) false 256 (Nat.toDigits 10 n ++ e :: rest) = some (n, e :: rest) := by
    intro n e rest hn he
    refine readNumber_append hn ?_ (fun _ => (octet_digits n hn).2) fun c hc => Option.some.inj hc ▸ he
    rintro max ⟨⟩
    exact (octet_digits n hn).1
  have hlast : readNumber 10 none true (2 ^ 16) (Nat.toDigits 10 port) = some (port, []) := by
    have := @readNumber_append none true (2 ^ 16) port [] hport nofun (fun h => nomatch h) nofun
    rwa [List.append_nil] at this
  have hdot : toDigit 10 '.' = none := by decide
  have hcolon : toDigit 10 ':' = none := by decide
  have hread : readSocketAddrV4 (format a b c d port) = some (⟨.v4 [a, b, c, d], port⟩, []) := by
    simp only [readSocketAddrV4, readIpv4Addr, format, readSeparator, readChar, readPort, if_true, hoctet '.' _ ha hdot,
      hoctet '.' _ hb hdot, hoctet '.' _ hc hdot, hoctet ':' _ hd hcolon, hlast, Option.bind_eq_bind, Option.bind_some,
      if_false, Nat.succ_ne_zero, OfNat.ofNat_ne_zero, pure]
  rw [parse, hread]
  rfl

theorem readNumber_lt {radix : Nat} {maxDigits : Option Nat} {zeroPrefix : Bool} {bound n : Nat} {s rest : Str}
    (h : readNumber radix maxDigits zeroPrefix bound s = some (n, rest)) : n < bound := by
  unfold readNumber at h
  dsimp only at h
  split_ifs at h with hbad
  obtain ⟨rfl, -⟩ := Prod.mk.inj (Option.some.inj h)
  rw [not_or, not_or, not_or] at hbad
  exact not_le.mp hbad.2.2.1

theorem port_lt {s : Str} {address : SocketAddr} (h : parse s = some address) : address.port < 2 ^ 16 := by
  have hport : ∀ {s : Str} {n : Nat} {rest : Str}, readPort s = some (n, rest) → n < 2 ^ 16 := by
    intro s n rest h
    obtain ⟨s', -, h⟩ := Option.bind_eq_some_iff.mp h
    exact readNumber_lt h
  unfold parse at h
  split at h
  · rename_i address' hread
    obtain rfl := Option.some.inj h
    rcases Option.or_eq_some_iff.mp hread with hread | ⟨-, hread⟩
    · simp only [readSocketAddrV4, Option.bind_eq_bind, Option.bind_eq_some_iff, pure, Option.some.injEq, Prod.mk.injEq] at hread
      obtain ⟨_, _, ⟨port, _⟩, hread', rfl, -⟩ := hread
      exact hport hread'
    · simp only [readSocketAddrV6, Option.bind_eq_bind, Option.bind_eq_some_iff, pure, Option.some.injEq, Prod.mk.injEq] at hread
      obtain ⟨_, _, _, _, _, _, ⟨port, _⟩, hread', rfl, -⟩ := hread
      exact hport hread'
  · cases h

end SocketAddr

end Stonemite
