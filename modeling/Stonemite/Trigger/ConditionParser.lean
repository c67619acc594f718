import Stonemite.Trigger.ConditionGrammar
import Stonemite.Trigger.Literal

/-!
# The recursive descent parser

The parser with its index into the tokens and the depth it shares between negations and groups. Every call takes one from
its fuel. With enough fuel it does what the parser on the tokens that are left does. `Simulates` relates the two parsers
call by call, by induction on the fuel; `parse_iff_derives` combines it with the grammar.
-/

namespace Stonemite.Triggers

/-- Why there is no condition: the source returns `None`, or the fuel is used up. -/
inductive Stop
  | invalid
  | fuel
deriving DecidableEq, Repr

/-- `Parser`, with the place in the tokens and the depth of nesting. -/
structure TokenParser (P : Platform) where
  tokens : List (Token P)
  index : Nat
  depth : Nat

/-- A primary is an operand or an expression in parentheses. -/
inductive Primary (P : Platform)
  | operand (operand : Operand P)
  | expression (condition : Condition P)

namespace TokenParser
variable {P : Platform}

/-- The token at the place, `End` past the last one. -/
def current (p : TokenParser P) : Token P := (p.tokens[p.index]?).getD .finish

/-- The next token, but for the last one. -/
def advance (p : TokenParser P) : TokenParser P :=
  if p.index < p.tokens.length - 1 then { p with index := p.index + 1 } else p

def deeper (p : TokenParser P) : TokenParser P := { p with depth := p.depth + 1 }

def shallower (p : TokenParser P) : TokenParser P := { p with depth := p.depth - 1 }

def parsePrimaryOperand (p : TokenParser P) : Except Stop (Operand P × TokenParser P) :=
  match p.current with
  | .operand value => .ok (value, p.advance)
  | _ => .error .invalid

mutual

def parseOr : Nat → TokenParser P → Except Stop (Condition P × TokenParser P)
  | 0, _ => .error .fuel
  | fuel + 1, p => do
    let (node, p) ← parseAnd fuel p
    orWhile fuel node p

/-- The loop of `parse_or`. -/
def orWhile : Nat → Condition P → TokenParser P → Except Stop (Condition P × TokenParser P)
  | 0, _, _ => .error .fuel
  | fuel + 1, node, p =>
    match p.current with
    | .or => do
      let (right, p) ← parseAnd fuel p.advance
      orWhile fuel (.or node right) p
    | _ => .ok (node, p)

def parseAnd : Nat → TokenParser P → Except Stop (Condition P × TokenParser P)
  | 0, _ => .error .fuel
  | fuel + 1, p => do
    let (node, p) ← parseUnary fuel p
    andWhile fuel node p

/-- The loop of `parse_and`. -/
def andWhile : Nat → Condition P → TokenParser P → Except Stop (Condition P × TokenParser P)
  | 0, _, _ => .error .fuel
  | fuel + 1, node, p =>
    match p.current with
    | .and => do
      let (right, p) ← parseUnary fuel p.advance
      andWhile fuel (.and node right) p
    | _ => .ok (node, p)

def parseUnary : Nat → TokenParser P → Except Stop (Condition P × TokenParser P)
  | 0, _ => .error .fuel
  | fuel + 1, p =>
    match p.current with
    | .not =>
      if maxNestingDepth < p.deeper.depth then .error .invalid
      else do
        let (operand, p) ← parseUnary fuel p.deeper.advance
        .ok (.not operand, p.shallower)
    | _ => parseComparison fuel p

def parseComparison : Nat → TokenParser P → Except Stop (Condition P × TokenParser P)
  | 0, _ => .error .fuel
  | fuel + 1, p => do
    let (left, p) ← parsePrimary fuel p
    match p.current with
    | .op op =>
      let (right, p) ← p.advance.parsePrimaryOperand
      match left with
      | .operand left => .ok (.compare left op right, p)
      -- an expression in parentheses is no operand of a comparison
      | .expression _ => .error .invalid
    | _ =>
      match left with
      | .operand operand => .ok (.truthy operand, p)
      | .expression condition => .ok (condition, p)

def parsePrimary : Nat → TokenParser P → Except Stop (Primary P × TokenParser P)
  | 0, _ => .error .fuel
  | fuel + 1, p =>
    match p.current with
    | .leftParen =>
      if maxNestingDepth < p.deeper.depth then .error .invalid
      else do
        let (node, p) ← parseOr fuel p.deeper.advance
        match p.current with
        | .rightParen => .ok (.expression node, p.advance.shallower)
        | _ => .error .invalid
    | _ => do
      let (operand, p) ← p.parsePrimaryOperand
      .ok (.operand operand, p)

end

/-- The condition of a sequence of tokens, all of which it takes. -/
def parseTokens (fuel : Nat) (tokens : List (Token P)) : Except Stop (Condition P) := do
  let (node, p) ← parseOr fuel ⟨tokens, 0, 0⟩
  match p.current with
  | .finish => .ok node
  | _ => .error .invalid

variable (P) in
/-- `parse`. -/
def parse (fuel : Nat) (expression : Str) : Except Stop (Condition P) :=
  if expression.trim.isEmpty then .error .invalid
  else
    match tokenize P expression with
    | none => .error .invalid
    | some tokens => parseTokens fuel tokens

/-! ### The tokens that are left -/

/-- The tokens from the place on. -/
def rest (p : TokenParser P) : Parser P := p.tokens.drop p.index

/-- The parser with the tokens `l` left. -/
def leave (p : TokenParser P) (l : Parser P) : TokenParser P := { p with index := p.tokens.length - l.length }

/-- The outcome of the parser on the tokens that are left. -/
def outcome (p : TokenParser P) : Option (Condition P × Parser P) → Except Stop (Condition P × TokenParser P)
  | none => .error .invalid
  | some (c, l) => .ok (c, p.leave l)

variable {p : TokenParser P}

theorem current_eq : p.current = p.rest.current := by
  rw [current, rest, Parser.current, List.headD_eq_head?_getD, List.head?_drop]

/-- So many tokens are left, and the nesting is within its limit. -/
structure Ready (n : Nat) (p : TokenParser P) : Prop where
  ended : Ended p.rest
  length : p.rest.length = n
  depth : p.depth ≤ maxNestingDepth

namespace Ready
variable {n : Nat}

theorem rest_leave {s : List (Token P)} {l : Parser P} (hrest : p.rest = s ++ l) : (p.leave l).rest = l := by
  have hsuffix : l <:+ p.tokens := (hrest ▸ List.suffix_append s l).trans (List.drop_suffix _ _)
  exact (List.suffix_iff_eq_drop.mp hsuffix).symm

theorem leave (h : p.Ready n) {s : List (Token P)} {l : Parser P} (hrest : p.rest = s ++ l) (hended : Ended l) :
    (p.leave l).Ready l.length := by
  have hleave := rest_leave hrest
  exact ⟨by rwa [hleave], by rw [hleave], h.depth⟩

theorem leave_rest (h : p.Ready n) : p.leave p.rest = p := by
  have hpos := List.length_pos_iff.mpr h.ended.ne_nil
  rw [rest, List.length_drop] at hpos
  have hindex : p.tokens.length - (p.tokens.length - p.index) = p.index := by omega
  rw [TokenParser.leave, rest, List.length_drop, hindex]

theorem advance {t : Token P} {l : Parser P} (hrest : p.rest = t :: l) (hended : Ended l) :
    p.advance = p.leave l := by
  have hpos := List.length_pos_iff.mpr hended.ne_nil
  have hlen := congrArg List.length hrest
  rw [rest, List.length_drop, List.length_cons] at hlen
  rw [TokenParser.advance, if_pos (by omega), TokenParser.leave]
  have hindex : p.index + 1 = p.tokens.length - l.length := by omega
  rw [hindex]

end Ready

/-! ### The same outcome -/

/-- With so many tokens left and fuel for them the parser does what the one on the tokens that are left does. -/
structure Simulates (P : Platform) (n : Nat) : Prop where
  unary : ∀ (p : TokenParser P) fuel, p.Ready n → 5 * n + 3 ≤ fuel →
    parseUnary fuel p = p.outcome (Parser.unary (maxNestingDepth - p.depth) p.rest)
  and : ∀ (p : TokenParser P) fuel, p.Ready n → 5 * n + 4 ≤ fuel →
    parseAnd fuel p = p.outcome (Parser.andExpression (Parser.unary (maxNestingDepth - p.depth)) p.rest)
  andWhile : ∀ (p : TokenParser P) fuel m node, p.Ready n → 5 * n + 1 ≤ fuel → n ≤ m →
    andWhile fuel node p = p.outcome (Parser.andLoop (Parser.unary (maxNestingDepth - p.depth)) m node p.rest)
  or : ∀ (p : TokenParser P) fuel, p.Ready n → 5 * n + 5 ≤ fuel →
    parseOr fuel p = p.outcome (Parser.orExpression (Parser.unary (maxNestingDepth - p.depth)) p.rest)
  orWhile : ∀ (p : TokenParser P) fuel m node, p.Ready n → 5 * n + 1 ≤ fuel → n ≤ m →
    orWhile fuel node p = p.outcome (Parser.orLoop (Parser.unary (maxNestingDepth - p.depth)) m node p.rest)

/-- A first parse is followed by what goes on with the tokens it leaves, fewer than before. -/
theorem outcome_bind {n : Nat} {q : TokenParser P} {level : Level} {depth : Nat}
    {parse : Parser P → Option (Condition P × Parser P)} (hsound : Parser.Sound level depth parse) (hq : q.Ready n)
    {tokens : Parser P} (hrest : q.rest = tokens)
    {k : Condition P × TokenParser P → Except Stop (Condition P × TokenParser P)}
    {g : Condition P × Parser P → Option (Condition P × Parser P)}
    (hk : ∀ c l, l.length < n → (q.leave l).Ready l.length → (q.leave l).rest = l → k (c, q.leave l) = p.outcome (g (c, l))) :
    (q.outcome (parse tokens) >>= k) = p.outcome ((parse tokens).bind g) := by
  subst hrest
  cases hparse : parse q.rest with
  | none => rfl
  | some result =>
    obtain ⟨c, l⟩ := result
    obtain ⟨hended, s, hs, hderives⟩ := hsound q.rest c l hq.ended hparse
    have hlen := hq.length
    rw [hs, List.length_append] at hlen
    have hpos := List.length_pos_iff.mpr hderives.ne_nil
    exact hk c l (by omega) (hq.leave hs hended) (Ready.rest_leave hs)

theorem andWhile_stop {fuel : Nat} {node : Condition P} (h : p.current ≠ .and) : andWhile (fuel + 1) node p = .ok (node, p) := by
  rw [andWhile]
  split
  · rename_i hand
    exact absurd hand h
  · rfl

theorem orWhile_stop {fuel : Nat} {node : Condition P} (h : p.current ≠ .or) : orWhile (fuel + 1) node p = .ok (node, p) := by
  rw [orWhile]
  split
  · rename_i hor
    exact absurd hor h
  · rfl

theorem parseComparison_of_primary {p q : TokenParser P} {fuel : Nat} {value : Operand P}
    (h : parsePrimary fuel p = .ok (.operand value, q)) : parseComparison (fuel + 1) p =
      match q.current with
      | .op op => do
        let (right, p) ← q.advance.parsePrimaryOperand
        Except.ok (Condition.compare value op right, p)
      | _ => .ok (Condition.truthy value, q) := by
  rw [parseComparison, h]
  rfl

theorem operand_simulates (p : TokenParser P) (fuel : Nat) {value : Operand P} {l : Parser P}
    (hl : p.rest = .operand value :: l) (hended : Ended l) :
    parseComparison (fuel + 2) p = p.outcome (Parser.comparisonFrom value l) := by
  have hrest : p.rest = [Token.operand value] ++ l := hl
  have hoperand : p.parsePrimaryOperand = .ok (value, p.leave l) := by
    rw [parsePrimaryOperand, current_eq, hl, Parser.current_cons]
    exact congrArg (fun q => Except.ok (value, q)) (Ready.advance hl hended)
  have hprimary : parsePrimary (fuel + 1) p = .ok (.operand value, p.leave l) := by
    rw [parsePrimary, current_eq, hl, Parser.current_cons]
    dsimp only
    rw [hoperand]
    rfl
  have hcurrent : (p.leave l).current = l.current := by rw [current_eq, Ready.rest_leave hrest]
  rw [parseComparison_of_primary hprimary, hcurrent, Parser.comparisonFrom]
  cases ht : l.current with
  | op op =>
    obtain ⟨l', rfl, hadvance, hended'⟩ := hended.of_current ht (by simp)
    have hleave : (p.leave (.op op :: l')).advance = p.leave l' := Ready.advance (Ready.rest_leave hrest) hended'
    have hrest' : p.rest = [Token.operand value, Token.op op] ++ l' := hl
    dsimp only
    rw [hadvance, hleave, parsePrimaryOperand, current_eq, Ready.rest_leave hrest', Parser.operand]
    cases ht' : Parser.current l' with
    | operand right =>
      obtain ⟨l'', rfl, hadvance', hended''⟩ := hended'.of_current ht' (by simp)
      have hleave' : (p.leave (.operand right :: l'')).advance = p.leave l'' := Ready.advance (Ready.rest_leave hrest') hended''
      dsimp only
      rw [hadvance', hleave']
      rfl
    | op | and | or | not | leftParen | rightParen | finish => rfl
  | operand | and | or | not | leftParen | rightParen | finish => rfl

section
variable {n : Nat} (hless : ∀ m < n, Simulates P m)
include hless

theorem andWhile_simulates (p : TokenParser P) (fuel m : Nat) (node : Condition P) (h : p.Ready n) (hfuel : 5 * n + 1 ≤ fuel)
    (hm : n ≤ m) :
    andWhile fuel node p = p.outcome (Parser.andLoop (Parser.unary (maxNestingDepth - p.depth)) m node p.rest) := by
  obtain ⟨fuel, rfl⟩ := Nat.exists_eq_succ_of_ne_zero (Nat.ne_zero_of_lt hfuel)
  have hpos := List.length_pos_iff.mpr h.ended.ne_nil
  rw [h.length] at hpos
  obtain ⟨m, rfl⟩ := Nat.exists_eq_succ_of_ne_zero (Nat.ne_zero_of_lt (hpos.trans_le hm))
  by_cases hand : p.rest.current = .and
  · obtain ⟨l, hl, hadvance, hended⟩ := h.ended.of_current hand nofun
    have hlen : n = l.length + 1 := by rw [← h.length, hl, List.length_cons]
    have hrest : p.rest = [Token.and] ++ l := hl
    have hready := h.leave hrest hended
    have hunary := (hless l.length (by omega)).unary (p.leave l) fuel hready (by omega)
    rw [Ready.rest_leave hrest] at hunary
    rw [andWhile, Parser.andLoop, current_eq, hand]
    dsimp only
    rw [hadvance, Ready.advance hl hended, hunary]
    refine outcome_bind (Parser.unary_sound _) hready (Ready.rest_leave hrest) fun right l' hlt hready' hrest' => ?_
    have hnext := (hless l'.length (by omega)).andWhile _ fuel m (.and node right) hready' (by omega) (by omega)
    rw [hrest'] at hnext
    exact hnext
  · rw [Parser.andLoop_stop _ hand, andWhile_stop (by rwa [current_eq]), outcome, h.leave_rest]

theorem orWhile_simulates (p : TokenParser P) (fuel m : Nat) (node : Condition P) (h : p.Ready n) (hfuel : 5 * n + 1 ≤ fuel)
    (hm : n ≤ m) :
    orWhile fuel node p = p.outcome (Parser.orLoop (Parser.unary (maxNestingDepth - p.depth)) m node p.rest) := by
  obtain ⟨fuel, rfl⟩ := Nat.exists_eq_succ_of_ne_zero (Nat.ne_zero_of_lt hfuel)
  have hpos := List.length_pos_iff.mpr h.ended.ne_nil
  rw [h.length] at hpos
  obtain ⟨m, rfl⟩ := Nat.exists_eq_succ_of_ne_zero (Nat.ne_zero_of_lt (hpos.trans_le hm))
  by_cases hor : p.rest.current = .or
  · obtain ⟨l, hl, hadvance, hended⟩ := h.ended.of_current hor nofun
    have hlen : n = l.length + 1 := by rw [← h.length, hl, List.length_cons]
    have hrest : p.rest = [Token.or] ++ l := hl
    have hready := h.leave hrest hended
    have hand := (hless l.length (by omega)).and (p.leave l) fuel hready (by omega)
    rw [Ready.rest_leave hrest] at hand
    rw [orWhile, Parser.orLoop, current_eq, hor]
    dsimp only
    rw [hadvance, Ready.advance hl hended, hand]
    refine outcome_bind (Parser.andExpression_sound (Parser.unary_sound _)) hready (Ready.rest_leave hrest)
      fun right l' hlt hready' hrest' => ?_
    have hnext := (hless l'.length (by omega)).orWhile _ fuel m (.or node right) hready' (by omega) (by omega)
    rw [hrest'] at hnext
    exact hnext
  · rw [Parser.orLoop_stop _ hor, orWhile_stop (by rwa [current_eq]), outcome, h.leave_rest]

theorem group_simulates (p : TokenParser P) (fuel : Nat) (h : p.Ready n) (hfuel : 5 * n ≤ fuel) {l : Parser P}
    (hl : p.rest = .leftParen :: l) (hended : Ended l) (hdepth : p.depth < maxNestingDepth) :
    parseOr fuel p.deeper.advance =
      p.deeper.outcome (Parser.orExpression (Parser.unary (maxNestingDepth - (p.depth + 1))) l) := by
  have hlen : n = l.length + 1 := by rw [← h.length, hl, List.length_cons]
  have hdeeper : p.deeper.Ready n := ⟨h.ended, h.length, hdepth⟩
  have hrest : p.deeper.rest = [Token.leftParen] ++ l := hl
  have hor := (hless l.length (by omega)).or (p.deeper.leave l) fuel (hdeeper.leave hrest hended) (by omega)
  rw [Ready.rest_leave hrest] at hor
  have hadvance : p.deeper.advance = p.deeper.leave l := Ready.advance (p := p.deeper) hl hended
  rw [hadvance]
  exact hor

/-- A comparison; in a functional parser of the given depth a group has one level less. -/
theorem comparison_simulates (p : TokenParser P) (fuel : Nat) (h : p.Ready n) (hfuel : 5 * n + 2 ≤ fuel)
    (hnot : p.rest.current ≠ .not) :
    parseComparison fuel p = p.outcome (Parser.unary (maxNestingDepth - p.depth) p.rest) := by
  obtain ⟨fuel, rfl⟩ := Nat.exists_eq_add_of_le' (Nat.le_of_add_left_le hfuel)
  cases ht : p.rest.current with
  | operand value =>
    obtain ⟨l, hl, -, hended⟩ := h.ended.of_current ht (by simp)
    rw [operand_simulates p fuel hl hended, hl, Parser.unary_operand hended.ne_nil]
  | leftParen =>
    obtain ⟨l, hl, hadvance, hended⟩ := h.ended.of_current ht (by simp)
    have hrest : p.deeper.rest = [Token.leftParen] ++ l := hl
    by_cases hdepth : p.depth < maxNestingDepth
    · have hallowed : ¬ maxNestingDepth < p.deeper.depth := Nat.not_lt.mpr hdepth
      have hgroup := group_simulates hless p fuel h (by omega) hl hended hdepth
      have hbudget : maxNestingDepth - p.depth = maxNestingDepth - (p.depth + 1) + 1 := by omega
      have hsound := Parser.orExpression_sound (Parser.unary_sound (P := P) (maxNestingDepth - (p.depth + 1)))
      rw [parseComparison, parsePrimary, current_eq, ht, hbudget, Parser.unary, ht]
      dsimp only
      unfold Parser.comparison
      rw [ht]
      dsimp only
      rw [if_neg hallowed, hgroup, hadvance]
      cases hparse : Parser.orExpression (Parser.unary (maxNestingDepth - (p.depth + 1))) l with
      | none => rfl
      | some result =>
        obtain ⟨node, l'⟩ := result
        obtain ⟨hended', s, rfl, -⟩ := hsound l node l' hended hparse
        have hrest' : p.deeper.rest = (.leftParen :: s) ++ l' := hl
        have hcurrent : (p.deeper.leave l').current = Parser.current l' := by rw [current_eq, Ready.rest_leave hrest']
        have hok {α β : Type} (a : α) (k : α → Except Stop β) : (Except.ok a >>= k) = k a := rfl
        rw [outcome, hok, hcurrent]
        dsimp only
        cases hclose : Parser.current l' with
        | rightParen =>
          obtain ⟨l'', rfl, hadvance', hended''⟩ := hended'.of_current hclose (by simp)
          have hleave : (p.deeper.leave (.rightParen :: l'')).advance = p.deeper.leave l'' :=
            Ready.advance (Ready.rest_leave hrest') hended''
          have hshallower : (p.deeper.leave l'').shallower = p.leave l'' := rfl
          have hrest'' : p.rest = (Token.leftParen :: (s ++ [Token.rightParen])) ++ l'' := by rw [hl]; simp
          have hcurrent' : (p.leave l'').current = Parser.current l'' := by rw [current_eq, Ready.rest_leave hrest'']
          dsimp only
          rw [hleave, hshallower, hadvance', hok]
          dsimp only
          rw [hcurrent']
          cases hnext : Parser.current l'' with
          | op op =>
            dsimp only
            rw [parsePrimaryOperand]
            cases ((p.leave l'').advance).current <;> rfl
          | operand | and | or | not | leftParen | rightParen | finish => rfl
        | op | operand | and | or | not | leftParen | finish => rfl
    · have hbudget : maxNestingDepth - p.depth = 0 := by omega
      have hdeep : maxNestingDepth < p.deeper.depth := by
        have hdepth' : p.deeper.depth = p.depth + 1 := rfl
        omega
      rw [parseComparison, parsePrimary, current_eq, ht, hbudget, Parser.unary, ht]
      dsimp only
      unfold Parser.comparison
      rw [ht]
      dsimp only
      rw [if_pos hdeep]
      rfl
  | not => exact absurd ht hnot
  | op | and | or | rightParen | finish =>
    have hcomparison (group : Option (Parser P → Option (Condition P × Parser P))) : Parser.comparison group p.rest = none := by
      unfold Parser.comparison
      rw [ht]
      dsimp only
      rw [Parser.operand, ht]
    have hparse (depth : Nat) : Parser.unary depth p.rest = none := by
      cases depth with
      | zero =>
        rw [Parser.unary, ht]
        exact hcomparison _
      | succ depth =>
        rw [Parser.unary, ht]
        exact hcomparison _
    rw [parseComparison, parsePrimary, current_eq, ht, hparse]
    dsimp only
    rw [parsePrimaryOperand, current_eq, ht]
    rfl

theorem unary_simulates (p : TokenParser P) (fuel : Nat) (h : p.Ready n) (hfuel : 5 * n + 3 ≤ fuel) :
    parseUnary fuel p = p.outcome (Parser.unary (maxNestingDepth - p.depth) p.rest) := by
  obtain ⟨fuel, rfl⟩ := Nat.exists_eq_succ_of_ne_zero (Nat.ne_zero_of_lt hfuel)
  by_cases hnot : p.rest.current = .not
  · obtain ⟨l, hl, hadvance, hended⟩ := h.ended.of_current hnot nofun
    have hlen : n = l.length + 1 := by rw [← h.length, hl, List.length_cons]
    have hrest : p.deeper.rest = [Token.not] ++ l := hl
    have hdeeper : p.deeper.advance = p.deeper.leave l := Ready.advance (p := p.deeper) hl hended
    rw [parseUnary, current_eq, hnot]
    dsimp only
    by_cases hdepth : p.depth < maxNestingDepth
    · have hready : p.deeper.Ready n := ⟨h.ended, h.length, hdepth⟩
      have hunary := (hless l.length (by omega)).unary (p.deeper.leave l) fuel (hready.leave hrest hended) (by omega)
      rw [Ready.rest_leave hrest] at hunary
      have hbudget : maxNestingDepth - p.depth = maxNestingDepth - (p.deeper.leave l).depth + 1 := by
        have hdepth' : (p.deeper.leave l).depth = p.depth + 1 := rfl
        omega
      have hallowed : ¬ maxNestingDepth < p.deeper.depth := Nat.not_lt.mpr hdepth
      rw [if_neg hallowed, hdeeper, hunary, hbudget, Parser.unary, hnot]
      dsimp only
      rw [hadvance]
      cases Parser.unary (maxNestingDepth - (p.deeper.leave l).depth) l <;> rfl
    · have hbudget : maxNestingDepth - p.depth = 0 := by omega
      have hdeep : maxNestingDepth < p.deeper.depth := by
        have hdepth' : p.deeper.depth = p.depth + 1 := rfl
        omega
      rw [if_pos hdeep, hbudget, Parser.unary, hnot]
      rfl
  · have hcomparison : parseUnary (fuel + 1) p = parseComparison fuel p := by
      rw [parseUnary, current_eq]
      split
      · rename_i hnot'
        exact absurd hnot' hnot
      · rfl
    rw [hcomparison]
    exact comparison_simulates hless p fuel h (by omega) hnot

theorem and_simulates (p : TokenParser P) (fuel : Nat) (h : p.Ready n) (hfuel : 5 * n + 4 ≤ fuel) :
    parseAnd fuel p = p.outcome (Parser.andExpression (Parser.unary (maxNestingDepth - p.depth)) p.rest) := by
  obtain ⟨fuel, rfl⟩ := Nat.exists_eq_succ_of_ne_zero (Nat.ne_zero_of_lt hfuel)
  rw [parseAnd, unary_simulates hless p fuel h (by omega)]
  refine outcome_bind (Parser.unary_sound _) h rfl fun node l hlt hready hrest => ?_
  have hnext := (hless l.length hlt).andWhile _ fuel l.length node hready (by omega) le_rfl
  rw [hrest] at hnext
  exact hnext

theorem or_simulates (p : TokenParser P) (fuel : Nat) (h : p.Ready n) (hfuel : 5 * n + 5 ≤ fuel) :
    parseOr fuel p = p.outcome (Parser.orExpression (Parser.unary (maxNestingDepth - p.depth)) p.rest) := by
  obtain ⟨fuel, rfl⟩ := Nat.exists_eq_succ_of_ne_zero (Nat.ne_zero_of_lt hfuel)
  rw [parseOr, and_simulates hless p fuel h (by omega)]
  refine outcome_bind (Parser.andExpression_sound (Parser.unary_sound _)) h rfl fun node l hlt hready hrest => ?_
  have hnext := (hless l.length hlt).orWhile _ fuel l.length node hready (by omega) le_rfl
  rw [hrest] at hnext
  exact hnext

end

theorem simulates (n : Nat) : Simulates P n := by
  induction n using Nat.strong_induction_on with
  | _ n hless =>
    exact ⟨unary_simulates hless, and_simulates hless, andWhile_simulates hless, or_simulates hless, orWhile_simulates hless⟩

/-! ### The condition of a sequence of tokens -/

section
variable {tokens : List (Token P)} {fuel : Nat}

/-- With fuel for its tokens the whole parse is the one of the conditions. -/
theorem parseTokens_eq (hended : Ended tokens) (hfuel : 5 * tokens.length + 5 ≤ fuel) :
    parseTokens fuel tokens =
      match Parser.orExpression (Parser.unary maxNestingDepth) tokens with
      | some (c, l) =>
        match Parser.current l with
        | .finish => Except.ok c
        | _ => Except.error Stop.invalid
      | none => Except.error Stop.invalid := by
  have hready : Ready tokens.length (⟨tokens, 0, 0⟩ : TokenParser P) := ⟨hended, rfl, Nat.zero_le _⟩
  have hrest : (⟨tokens, 0, 0⟩ : TokenParser P).rest = tokens := rfl
  have hor := (simulates tokens.length).or ⟨tokens, 0, 0⟩ fuel hready hfuel
  rw [hrest] at hor
  rw [parseTokens, hor]
  dsimp only [Nat.sub_zero]
  cases hparse : Parser.orExpression (Parser.unary maxNestingDepth) tokens with
  | none => rfl
  | some result =>
    obtain ⟨c, l⟩ := result
    obtain ⟨-, s, hs, -⟩ := Parser.orExpression_sound (Parser.unary_sound _) tokens c l hended hparse
    have hcurrent : ((⟨tokens, 0, 0⟩ : TokenParser P).leave l).current = Parser.current l := by
      rw [current_eq, Ready.rest_leave (hrest.trans hs)]
    dsimp only
    rw [← hcurrent]
    rfl

theorem parseTokens_ne_fuel (hended : Ended tokens) (hfuel : 5 * tokens.length + 5 ≤ fuel) :
    parseTokens fuel tokens ≠ .error .fuel := by
  rw [parseTokens_eq hended hfuel]
  split
  · split <;> nofun
  · nofun

/-- A condition is found for the tokens that the grammar derives, up to the end token. -/
theorem parseTokens_eq_ok_iff {body : List (Token P)} {c : Condition P} (hbody : Token.finish ∉ body)
    (hfuel : 5 * (body ++ [Token.finish]).length + 5 ≤ fuel) :
    parseTokens fuel (body ++ [Token.finish]) = .ok c ↔ Derives .or maxNestingDepth body c := by
  have hended : Ended (body ++ [Token.finish] : Parser P) := ⟨body, rfl, hbody⟩
  rw [parseTokens_eq hended hfuel, ← Parser.orExpression_eq_iff hbody]
  cases hparse : Parser.orExpression (Parser.unary maxNestingDepth) (body ++ [Token.finish]) with
  | none => exact iff_of_false nofun nofun
  | some result =>
    obtain ⟨c', l⟩ := result
    obtain ⟨hended', -⟩ := Parser.orExpression_sound (Parser.unary_sound _) _ c' l hended hparse
    dsimp only
    by_cases hfinish : Parser.current l = .finish
    · obtain rfl := hended'.of_current_finish hfinish
      constructor
      · intro h
        obtain rfl := Except.ok.inj h
        rfl
      · intro h
        obtain rfl := (Prod.mk.inj (Option.some.inj h)).1
        rfl
    · refine iff_of_false ?_ fun h => ?_
      · split
        · rename_i h
          exact absurd h hfinish
        · nofun
      · obtain ⟨-, rfl⟩ := Prod.mk.inj (Option.some.inj h)
        exact hfinish rfl

theorem parse_toOption (expression : Str) (htokens : tokenize P expression = some tokens)
    (hfuel : 5 * tokens.length + 5 ≤ fuel) : (parse P fuel expression).toOption = Condition.parse P expression := by
  rw [parse, Condition.parse]
  split
  · rfl
  · rw [htokens]
    dsimp only
    rw [parseTokens_eq (tokenize_ended htokens) hfuel]
    cases Parser.orExpression (Parser.unary maxNestingDepth) tokens with
    | none => rfl
    | some result => cases hcurrent : Parser.current result.2 <;> simp only [hcurrent] <;> rfl

/-- Without a token before the end there is no condition, so the check for an empty expression changes nothing. -/
theorem parse_eq_parseTokens (expression : Str) (htokens : tokenize P expression = some tokens)
    (hfuel : 5 * tokens.length + 5 ≤ fuel) : parse P fuel expression = parseTokens fuel tokens := by
  rw [parse]
  split
  · rename_i hempty
    obtain rfl : tokens = [.finish] := tokenize_of_trim_eq_nil (List.isEmpty_iff.mp hempty) htokens
    have hparse : Parser.orExpression (Parser.unary (P := P) maxNestingDepth) [.finish] = none := rfl
    rw [parseTokens_eq .finish hfuel, hparse]
  · rw [htokens]

end

/-- The tokens of an expression are parsed to the end with any fuel from some on; they are a condition if the grammar derives
it from them within the nesting, which is then the only one, and every condition that is nested as deeply at most is parsed
from its rendering. -/
theorem parse_iff_derives (expression : Str) (tokens : List (Token P)) (h : tokenize P expression = some tokens) :
    ∃ body, tokens = body ++ [.finish] ∧
      (∀ fuel, 5 * tokens.length + 5 ≤ fuel → parse P fuel expression = parseTokens fuel tokens ∧
        parseTokens fuel tokens ≠ .error .fuel ∧
        ∀ c, parseTokens fuel tokens = .ok c ↔ Derives .or maxNestingDepth body c) ∧
      (∀ depth depth' c c', Derives .or depth body c → Derives .or depth' body c' → c = c') ∧
      ∀ (c : Condition P) fuel, c.depth ≤ maxNestingDepth → 5 * (c.render.length + 1) + 5 ≤ fuel →
        parseTokens fuel (c.render ++ [.finish]) = .ok c := by
  obtain ⟨body, rfl, hbody⟩ := tokenize_ended h
  refine ⟨body, rfl, fun fuel hfuel => ⟨?_, ?_, fun c => ?_⟩, fun _ _ c c' hc hc' => hc.unique hc', fun c fuel hdepth hfuel => ?_⟩
  · exact parse_eq_parseTokens expression h hfuel
  · exact parseTokens_ne_fuel ⟨body, rfl, hbody⟩ hfuel
  · exact parseTokens_eq_ok_iff hbody hfuel
  · have hlen : 5 * (c.render ++ [Token.finish]).length + 5 ≤ fuel := by rwa [List.length_append, List.length_singleton]
    exact (parseTokens_eq_ok_iff c.derives_render.finish_notMem hlen).mpr (c.derives_render.mono hdepth)

theorem parse_iff_derives_negation :
    tokenize Literal.platform "not a".toList = some [.not, .operand (.str ['a']), .finish] ∧
      parse Literal.platform 20 "not a".toList = .ok (.not (.truthy (.str ['a']))) := by
  have htokens : tokenize Literal.platform "not a".toList = some [.not, .operand (.str ['a']), .finish] := rfl
  obtain ⟨body, hbody, hparse, -⟩ := parse_iff_derives "not a".toList _ htokens
  obtain rfl : [.not, .operand (.str ['a'])] = body := (List.append_left_inj [Token.finish]).mp hbody
  obtain ⟨hsame, -, hiff⟩ := hparse 20 le_rfl
  exact ⟨htokens, hsame.trans ((hiff _).mpr (Derives.truthy _).not.single.conjunction)⟩

end TokenParser

end Stonemite.Triggers
