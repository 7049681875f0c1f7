import Pseudocode.Program
import Pseudocode.Token.Scan

/-! What the productions of the grammar share. A production reads tokens from the front of `rest`; it
fails with a `SyntaxFault`, which is recorded at the next statement boundary, where reading goes on.
The errors of a text are kept in the order found, and the same error is recorded once. -/
namespace Pseudocode

/-- What is wrong at some place of a program text. -/
inductive SyntaxError where
  | expected (text context : String)
  | expectedExpression (after : String)
  | missingTerminator (word : Keyword) (context : String) (startLine : Nat)
  | unmatchedCloser (token : String)
  | unexpectedStart (token : String)
  | unexpectedInExpression (token : String)
  | unmatchedDelimiter (lexeme : String)
  | unclosedBounds (column : Nat)
  | unclosedParameters (routine : String)
  | unclosedParenthesis (column : Nat)
  | unclosedBracket (column : Nat)
  | boundNotInteger
  | recordType
  | counterMismatch (name counter : String)
  | nestedRoutine (keyword : String)
  | statementsTooDeep
  | expressionTooDeep
  | tooManyOperators
  deriving DecidableEq, Repr

namespace SyntaxError

/-- Open blocks and nested operands together may reach this depth. -/
def maxNesting : Nat := 100

/-- The most operators in one expression. -/
def maxOperators : Nat := 200

def code : SyntaxError → Code
  | .missingTerminator .. => .missingTerminator
  | .unmatchedDelimiter _ | .unclosedBounds _ | .unclosedParameters _ | .unclosedParenthesis _
  | .unclosedBracket _ => .unbalancedDelimiter
  | _ => .syntaxError

def message : SyntaxError → String
  | .expected text context => s!"Expected '{text}' after {context}"
  | .expectedExpression after => s!"Expected expression after {after}"
  | .missingTerminator word context startLine =>
    s!"Expected '{word.text}' after {context} starting on line {startLine}"
  | .unmatchedCloser token => s!"Unexpected {token} without a matching opening statement"
  | .unexpectedStart token => s!"Unexpected {token} at start of statement"
  | .unexpectedInExpression token => s!"Unexpected {token} in expression"
  | .unmatchedDelimiter lexeme => s!"Unmatched '{lexeme}'"
  | .unclosedBounds column =>
    s!"Unbalanced brackets - '[' opened at column {column} is not closed"
  | .unclosedParameters routine =>
    s!"Unbalanced parentheses - parameter list of '{routine}' is not closed"
  | .unclosedParenthesis column =>
    s!"Unbalanced parentheses - '(' opened at column {column} is not closed by ')'"
  | .unclosedBracket column =>
    s!"Unbalanced brackets - '[' opened at column {column} is not closed by ']'"
  | .boundNotInteger => "Array bounds must be integer literals"
  | .recordType => "Record types (TYPE ... ENDTYPE) are not supported"
  | .counterMismatch name counter =>
    s!"NEXT variable '{name}' does not match FOR variable '{counter}'"
  | .nestedRoutine keyword => s!"{keyword} declarations are only allowed at the top level"
  | .statementsTooDeep => "Statements nested too deeply"
  | .expressionTooDeep => "Expression nested too deeply"
  | .tooManyOperators => s!"Expression has more than {maxOperators} operators"

def diagnostic (e : SyntaxError) (p : Position) : Diagnostic :=
  .atLine p.line p.column e.code .error s!"Syntax Error - {e.message}"

end SyntaxError

/-- Why a production fails. An invalid token has been reported by the scanner. -/
inductive SyntaxFault where
  | reported
  | found (position : Position) (error : SyntaxError)
  deriving DecidableEq, Repr

/-- The state of reading: the tokens still to come, the end of input behind them, the token read
last, the operators counted in the current expression and the errors so far. -/
structure Reader where
  rest : List Token
  finish : Token
  previous : Option Token
  operators : Nat
  errors : Array Diagnostic

abbrev Parse := EStateM SyntaxFault Reader

namespace Parse

/-- The next token, which is the end of input when none is left. -/
def current : Parse Token := return (← get).rest.head?.getD (← get).finish

/-- The token after the next one. -/
def following : Parse Token := return (← get).rest.tail.head?.getD (← get).finish

def previous : Parse (Option Token) := return (← get).previous

def advance : Parse Token := do
  let token ← current
  modify fun s => { s with rest := s.rest.tail, previous := some token }
  return token

/-- The number of tokens left, which bounds every loop that reads one each time. -/
def remaining : Parse Nat := return (← get).rest.length

def atEnd : Parse Bool := return (← get).rest.isEmpty

def fail (position : Position) (error : SyntaxError) : Parse α := throw (.found position error)

/-- Fails because something else should follow what was read last. -/
def failExpected (text context : String) : Parse α := do
  let token ← current
  match token.kind with
  | .invalid _ => throw .reported
  | _ => fail ((← previous).getD token).ending (.expected text context)

def nextIs (kind : TokenKind) : Parse Bool := return (← current).kind == kind

/-- Reads a token of the given kind if it is next. -/
def accept (kind : TokenKind) : Parse Bool := do
  if ← nextIs kind then
    discard advance
    return true
  else return false

def acceptWord (word : Keyword) : Parse Bool := accept (.keyword word)

def acceptSign (sign : Sign) : Parse Bool := accept (.sign sign)

/-- Reads an assignment sign, written as an arrow or as `=`, if one is next. -/
def acceptAssign : Parse Bool := do
  if ← acceptSign .assign then return true else acceptSign .equal

def expectWord (word : Keyword) (context : String) : Parse Token := do
  if ← nextIs (.keyword word) then advance else failExpected word.text context

def expectSign (sign : Sign) (context : String) : Parse Token := do
  if ← nextIs (.sign sign) then advance else failExpected sign.text context

def expectIdentifier (context : String) : Parse Token := do
  if ← nextIs .identifier then advance else failExpected "identifier" context

/-- Further items, each after a comma; `fuel` is at least the number of tokens left. -/
def afterCommas (item : Parse α) : (fuel : Nat) → Parse (List α)
  | 0 => return []
  | fuel + 1 => do
    if ← acceptSign .comma then
      let first ← item
      return first :: (← afterCommas item fuel)
    else return []

/-- Items separated by commas. -/
def commaSeparated (item : Parse α) : Parse (List α) := do
  let first ← item
  return first :: (← afterCommas item (← remaining))

/-- Keeps an error unless it is there already. -/
def record (fault : SyntaxFault) : Parse Unit :=
  match fault with
  | .reported => return
  | .found position error => modify fun s =>
    let d := error.diagnostic position
    if s.errors.contains d then s else { s with errors := s.errors.push d }

/-- Words at which reading goes on after an error. -/
def isBoundary (token : Token) : Bool :=
  match token.kind with
  | .keyword word => word.startsStatement || word.closesBlock
  | _ => false

/-- Skips to the next line, statement or end of a block. -/
def synchronize : Parse Unit := do
  let line := ((← previous).getD (← current)).line
  modify fun s =>
    let skip (token : Token) : Bool := token.line ≤ line && !isBoundary token
    { s with
      rest := s.rest.dropWhile skip
      previous := (s.rest.takeWhile skip).getLast?.or s.previous }

/-- Reads the header of a block; on failure the rest of the line is skipped and the header is
missing. -/
def header (production : Parse α) : Parse (Option α) := do
  try
    return some (← production)
  catch fault =>
    record fault
    synchronize
    return none

/-- Reads one item; on failure it is skipped, at least one token of it. -/
def orSkip (production : Parse α) (instead : α) : Parse α := do
  let before ← remaining
  try
    production
  catch fault =>
    record fault
    if (← remaining) = before then discard advance
    synchronize
    return instead

/-- Reads the word that ends the block opened by `start`, or reports that it is missing. -/
def expectTerminator (word : Keyword) (context : String) (start : Token) : Parse Bool := do
  if ← acceptWord word then return true
  let anchor := (← previous).getD start
  let error : SyntaxError := .missingTerminator word context start.line
  modify fun s => { s with errors := s.errors.push (error.diagnostic anchor.position) }
  return false

end Parse

end Pseudocode
