import Pseudocode.Program.Parser

/-! Expressions. Operators bind in five ranks, the tightest first: products, sums and `&`,
comparisons, AND, OR; within a rank they group to the left. NOT takes everything up to comparisons,
a minus sign one operand. An expression stays on one line. `room` is the number of further operands
that may be nested, so nesting decides by itself how deep the reading goes. -/
namespace Pseudocode.Parse

/-- The operator of a token with its rank. -/
def operator? : TokenKind → Option (BinaryOp × Nat)
  | .sign .times => some (.times, 1)
  | .sign .slash => some (.divide, 1)
  | .keyword .DIV => some (.div, 1)
  | .keyword .MOD => some (.mod, 1)
  | .sign .plus => some (.plus, 2)
  | .sign .minus => some (.minus, 2)
  | .sign .ampersand => some (.join, 2)
  | .sign .equal => some (.equal, 3)
  | .sign .notEqual => some (.notEqual, 3)
  | .sign .less => some (.less, 3)
  | .sign .greater => some (.greater, 3)
  | .sign .lessEqual => some (.lessEqual, 3)
  | .sign .greaterEqual => some (.greaterEqual, 3)
  | .keyword .AND => some (.and, 4)
  | .keyword .OR => some (.or, 5)
  | _ => none

/-- The rank of whole expressions. -/
def fullRank : Nat := 5

/-- The rank of what NOT applies to. -/
def notRank : Nat := 3

/-- Counts one more operator of the expression. -/
def countOperator (token : Token) : Parse Unit := do
  modify fun s => { s with operators := s.operators + 1 }
  if (← get).operators > SyntaxError.maxOperators then fail token.position .tooManyOperators

/-- Operands joined to `left` by operators of one rank. -/
def chain (line rank : Nat) (operand : Parse Expr) : (fuel : Nat) → Expr → Parse Expr
  | 0, left => return left
  | fuel + 1, left => do
    let token ← current
    match operator? token.kind with
    | none => return left
    | some (op, opRank) =>
      if opRank = rank ∧ token.line = line then
        countOperator token
        discard advance
        let right ← operand
        chain line rank operand fuel (.binary token.position op left right)
      else return left

/-- An expression of operators up to the given rank. -/
def ranked (line : Nat) (operand : Parse Expr) : (rank : Nat) → Parse Expr
  | 0 => operand
  | rank + 1 => do
    let left ← ranked line operand rank
    chain line (rank + 1) (ranked line operand rank) (← remaining) left

/-- Reads the token that closes the delimiter `opened`, which must be on the same line. -/
def close (closer : Sign) (opened : Token) : Parse Unit := do
  let token ← current
  if token.kind = .sign closer ∧ token.line = opened.line then discard advance
  else
    let column := opened.position.column
    fail opened.position (if closer = .closeParen then .unclosedParenthesis column
      else .unclosedBracket column)

/-- Index groups behind a name, one list for all of them. -/
def indexGroups (line : Nat) (item : Parse Expr) : (fuel : Nat) → Parse (List Expr)
  | 0 => return []
  | fuel + 1 => do
    let token ← current
    if token.kind = .sign .openBracket ∧ token.line = line then
      discard advance
      let group ← commaSeparated item
      close .closeBracket token
      return group ++ (← indexGroups line item fuel)
    else return []

/-- The arguments of a call in their parentheses. -/
def argumentList (item : Parse Expr) : Parse (List Expr) := do
  let opened ← advance
  let arguments ← if ← nextIs (.sign .closeParen) then pure [] else commaSeparated item
  close .closeParen opened
  return arguments

/-- Whether the next token is directly followed by an opening parenthesis. -/
def startsCall : Parse Bool := do
  let next ← following
  return next.kind == .sign .openParen && next.line == (← current).line

def literal? : TokenKind → Option Literal
  | .integer n => some (.integer n)
  | .real x => some (.real x)
  | .string s => some (.string s)
  | .char s => some (.char s)
  | .truth b => some (.boolean b)
  | .null => some .null
  | _ => none

/-- A minus sign in front of a numeric literal is part of the literal. -/
def negated (position : Position) : Expr → Expr
  | .literal _ (.integer n) => .literal position (.integer (-n))
  | .literal _ (.real x) => .literal position (.real x.neg)
  | operand => .unary position .minus operand

/-- An operand without an operator in front. `inner` reads an operand inside delimiters; `enclosed`
says whether the operand itself is inside some. -/
def primary (line : Nat) (inner : Parse Expr) (enclosed : Bool) : Parse Expr := do
  let token ← current
  if token.line ≠ line ∨ token.kind = .endOfInput then
    let anchor := (← previous).getD token
    fail anchor.ending (.expectedExpression anchor.describe)
  else
    match token.kind with
    | .invalid _ => throw .reported
    | .sign .openParen =>
      discard advance
      let e ← ranked line inner fullRank
      close .closeParen token
      return e
    | .identifier =>
      if ← startsCall then
        discard advance
        return .call token.position token.lexeme (← argumentList (ranked line inner fullRank))
      else
        discard advance
        match ← indexGroups line (ranked line inner fullRank) (← remaining) with
        | [] => return .name token.position token.lexeme
        | indices => return .element token.position token.lexeme indices
    | kind =>
      match literal? kind with
      | some value =>
        discard advance
        return .literal token.position value
      | none =>
        if (kind = .sign .closeParen ∨ kind = .sign .closeBracket) ∧ !enclosed then
          fail token.position (.unmatchedDelimiter token.lexeme)
        else fail token.position (.unexpectedInExpression token.describe)

/-- An operand with the operators in front of it. -/
def operand (line : Nat) : (room : Nat) → (enclosed : Bool) → Parse Expr
  | 0, _ => do fail (← current).position .expressionTooDeep
  | room + 1, enclosed => do
    let token ← current
    if token.kind = .keyword .NOT ∧ token.line = line then
      discard advance
      return .unary token.position .not (← ranked line (operand line room enclosed) notRank)
    else if token.kind = .sign .minus ∧ token.line = line then
      discard advance
      return negated token.position (← operand line room enclosed)
    else primary line (operand line room true) enclosed

/-- An expression inside delimiters that were opened on `line`. -/
def enclosedExpression (room line : Nat) : Parse Expr :=
  ranked line (operand line room true) fullRank

/-- A complete expression, on the line of the token before it. -/
def expression (room : Nat) : Parse Expr := do
  let line := ((← previous).getD (← current)).line
  modify fun s => { s with operators := 0 }
  ranked line (operand line room false) fullRank

end Pseudocode.Parse
