import Stonemite.Trigger.Netregex

/-!
# Conditions

The condition language of a trigger: its tokens, its parser and its evaluation.
-/

namespace Stonemite.Triggers

def maxNestingDepth : Nat := 10

inductive CompareOp
  | eq
  | ne
  | gt
  | ge
  | lt
  | le
  | contains
deriving DecidableEq, Repr

inductive Operand (P : Platform)
  | variable (name : Str)
  | str (text : Str)
  | number (value : P.F64)
  | bool (value : Bool)
  | null

inductive Condition (P : Platform)
  | or (left right : Condition P)
  | and (left right : Condition P)
  | not (inner : Condition P)
  | compare (left : Operand P) (op : CompareOp) (right : Operand P)
  | truthy (operand : Operand P)

inductive Token (P : Platform)
  | operand (value : Operand P)
  | op (op : CompareOp)
  | and
  | or
  | not
  | leftParen
  | rightParen
  | finish

section
variable (P : Platform)

def wordToken (word : Str) : Option (Token P) :=
  match String.ofList word.toAsciiLowercase with
  | "eq" => some (.op .eq)
  | "neq" => some (.op .ne)
  | "gt" => some (.op .gt)
  | "ge" | "gte" => some (.op .ge)
  | "lt" => some (.op .lt)
  | "le" | "lte" => some (.op .le)
  | "contains" => some (.op .contains)
  | "and" => some .and
  | "or" => some .or
  | "not" => some .not
  | "true" => some (.operand (.bool true))
  | "false" => some (.operand (.bool false))
  | "null" => some (.operand .null)
  | _ => none

/-- The text up to the first `c`, and what follows it. -/
def delimited (c : Char) (s : Str) : Option (Str × Str) := s.splitOnce c

/-- The length of the number that `s` begins with. -/
def numberLength (s : Str) : Nat :=
  let sign := if ['-'].isPrefixOf s then 1 else 0
  let whole := ((s.drop sign).takeWhile (fun c => '0' ≤ c && c ≤ '9')).length
  let rest := s.drop (sign + whole)
  if ['.'].isPrefixOf rest then
    sign + whole + 1 + ((rest.drop 1).takeWhile (fun c => '0' ≤ c && c ≤ '9')).length
  else sign + whole

/-- The token of an operator, with its length. -/
def symbolToken (s : Str) : Option (Token P × Nat) :=
  match s with
  | '=' :: '=' :: _ => some (.op .eq, 2)
  | '!' :: '=' :: _ => some (.op .ne, 2)
  | '<' :: '>' :: _ => some (.op .ne, 2)
  | '>' :: '=' :: _ => some (.op .ge, 2)
  | '<' :: '=' :: _ => some (.op .le, 2)
  | '&' :: '&' :: _ => some (.and, 2)
  | '|' :: '|' :: _ => some (.or, 2)
  | '=' :: _ => some (.op .eq, 1)
  | '>' :: _ => some (.op .gt, 1)
  | '<' :: _ => some (.op .lt, 1)
  | '!' :: _ => some (.not, 1)
  | _ => none

/-- The token that `c :: s` begins with, if `c` is no space, and what follows it. -/
def nextToken (c : Char) (s : Str) : Option (Token P × Str) :=
  if c = '{' then (delimited '}' s).map fun part => (.operand (.variable part.1), part.2)
  else if c = '$' ∧ ['{'].isPrefixOf s then
    (delimited '}' (s.drop 1)).map fun part => (.operand (.variable part.1), part.2)
  else if c = '"' ∨ c = '\'' then (delimited c s).map fun part => (.operand (.str part.1), part.2)
  else if c = '(' then some (.leftParen, s)
  else if c = ')' then some (.rightParen, s)
  else if ('0' ≤ c ∧ c ≤ '9') ∨ (c = '-' ∧ s.head?.any fun d => '0' ≤ d && d ≤ '9') then
    let n := numberLength (c :: s)
    (P.parse ((c :: s).take n)).map fun value => (.operand (.number value), (c :: s).drop n)
  else if "=!<>&|".toList.contains c then
    (symbolToken P (c :: s)).map fun part => (part.1, (c :: s).drop part.2)
  else if P.isAlphabetic c ∨ c = '_' then
    let word := (c :: s).takeWhile fun d => P.isAlphanumeric d || d == '_' || d == '.'
    some ((wordToken P word).getD (.operand (.str word)), (c :: s).drop word.length)
  else none

/-- The tokens of `s`, which takes at most `fuel` steps. -/
def tokenizeLoop : Nat → Str → Option (List (Token P))
  | _, [] => some [.finish]
  | 0, _ => none
  | fuel + 1, c :: s =>
    if Str.isWhitespace c then tokenizeLoop fuel s
    else
      match nextToken P c s with
      | none => none
      | some (token, rest) => (tokenizeLoop fuel rest).map (token :: ·)

def tokenize (input : Str) : Option (List (Token P)) := tokenizeLoop P input.length input

/-! ### The parser, which holds the tokens from its index on -/

abbrev Parser := List (Token P)

namespace Parser
variable {P}

def current (p : Parser P) : Token P := p.headD .finish

/-- The tokens after the next one, but for the last. -/
def advance (p : Parser P) : Parser P :=
  match p with
  | _ :: token :: rest => token :: rest
  | _ => p

def operand (p : Parser P) : Option (Operand P × Parser P) :=
  match p.current with
  | .operand value => some (value, p.advance)
  | _ => none

/-- The comparison after its left operand. -/
def comparisonFrom (left : Operand P) (p : Parser P) : Option (Condition P × Parser P) :=
  match p.current with
  | .op op => p.advance.operand.map fun right => (.compare left op right.1, right.2)
  | _ => some (.truthy left, p)

/-- A comparison; `group` parses what stands in parentheses, if they may be nested deeper. -/
def comparison (group : Option (Parser P → Option (Condition P × Parser P))) (p : Parser P) :
    Option (Condition P × Parser P) :=
  match p.current with
  | .leftParen =>
    match group with
    | none => none
    | some group =>
      match group p.advance with
      | none => none
      | some (node, p) =>
        match p.current with
        | .rightParen =>
          let p := p.advance
          match p.current with
          -- a group is no operand of a comparison
          | .op _ => none
          | _ => some (node, p)
        | _ => none
  | _ =>
    match p.operand with
    | none => none
    | some (left, p) => comparisonFrom left p

/-- Further operands of `and`, at most `fuel` of them. -/
def andLoop (unary : Parser P → Option (Condition P × Parser P)) :
    Nat → Condition P → Parser P → Option (Condition P × Parser P)
  | 0, node, p => some (node, p)
  | fuel + 1, node, p =>
    match p.current with
    | .and => (unary p.advance).bind fun right => andLoop unary fuel (.and node right.1) right.2
    | _ => some (node, p)

def andExpression (unary : Parser P → Option (Condition P × Parser P)) (p : Parser P) :
    Option (Condition P × Parser P) :=
  (unary p).bind fun first => andLoop unary first.2.length first.1 first.2

/-- Further operands of `or`, at most `fuel` of them. -/
def orLoop (unary : Parser P → Option (Condition P × Parser P)) :
    Nat → Condition P → Parser P → Option (Condition P × Parser P)
  | 0, node, p => some (node, p)
  | fuel + 1, node, p =>
    match p.current with
    | .or => (andExpression unary p.advance).bind fun right => orLoop unary fuel (.or node right.1) right.2
    | _ => some (node, p)

def orExpression (unary : Parser P → Option (Condition P × Parser P)) (p : Parser P) :
    Option (Condition P × Parser P) :=
  (andExpression unary p).bind fun first => orLoop unary first.2.length first.1 first.2

/-- A negation or a comparison, with `depth` further levels of negation or parentheses allowed. -/
def unary : Nat → Parser P → Option (Condition P × Parser P)
  | 0, p =>
    match p.current with
    | .not => none
    | _ => comparison none p
  | depth + 1, p =>
    match p.current with
    | .not => (unary depth p.advance).map fun operand => (.not operand.1, operand.2)
    | _ => comparison (some (orExpression (unary depth))) p

end Parser

def Condition.parse (expression : Str) : Option (Condition P) :=
  if expression.trim.isEmpty then none
  else
    match tokenize P expression with
    | none => none
    | some tokens =>
      match Parser.orExpression (Parser.unary maxNestingDepth) tokens with
      | some (node, p) =>
        match Parser.current p with
        | .finish => some node
        | _ => none
      | none => none

/-! ### Evaluation -/

def operandValue (resolve : Str → Option Str) : Operand P → Option Str
  | .variable name => resolve name
  | .str text => some text
  | .number value => some (P.formatNumber value)
  | .bool value => some (if value then "true".toList else "false".toList)
  | .null => none

def Operand.isNull : Operand P → Bool
  | .null => true
  | _ => false

def parseNumber (text : Str) : Option P.F64 :=
  let text := text.trim
  if text.isEmpty then none else (P.parse text).filter P.isFinite

/-- The comparison of two values for equality. -/
def equals (left : Option Str) (leftOperand : Operand P) (right : Option Str) (rightOperand : Operand P) : Bool :=
  match left, right with
  | some left, some right => left.eqIgnoreAsciiCase right
  | _, _ => (leftOperand.isNull || rightOperand.isNull) && left.isNone && right.isNone

/-- An ordering comparison; an unset variable is zero. -/
def ordered (left right : Option Str) (holds : P.F64 → P.F64 → Bool) : Bool :=
  let number (value : Option Str) := match value with
    | none => some P.zero
    | some value => parseNumber P value
  match number left, number right with
  | some left, some right => holds left right
  | _, _ => false

/-- The comparison of two values. -/
def compareValues (left : Option Str) (leftOperand : Operand P) (op : CompareOp) (right : Option Str)
    (rightOperand : Operand P) : Bool :=
  match op with
  | .eq => equals P left leftOperand right rightOperand
  | .ne => !equals P left leftOperand right rightOperand
  | .contains => match left, right with
    | some left, some right => containsIgnoreCase left right
    | _, _ => false
  | .gt => ordered P left right fun l r => P.lt r l
  | .ge => ordered P left right fun l r => P.le r l
  | .lt => ordered P left right P.lt
  | .le => ordered P left right P.le

def Condition.evaluate (resolve : Str → Option Str) : Condition P → Bool
  | .or left right => left.evaluate resolve || right.evaluate resolve
  | .and left right => left.evaluate resolve && right.evaluate resolve
  | .not inner => !inner.evaluate resolve
  | .truthy (.variable name) => (resolve name).any fun value => !value.isEmpty
  | .truthy (.bool value) => value
  | .truthy .null => false
  | .truthy _ => true
  | .compare left op right => compareValues P (operandValue P resolve left) left op (operandValue P resolve right) right

end

end Stonemite.Triggers
