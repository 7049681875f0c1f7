import Pseudocode.Program.Expression

/-! Statements and whole programs. A block is read up to a word that closes it or a block around it,
so a missing end is noticed at the first word that belongs further out. `Nest` says how many more
blocks may be opened and which words close an open one. -/
namespace Pseudocode

/-- Where a statement stands: the number of further blocks that may be opened around it, and the
words that close the open ones. -/
structure Nest where
  room : Nat
  closers : List Keyword

namespace Nest

/-- The place of the statements of a program. -/
def top : Nest := ⟨SyntaxError.maxNesting - 1, []⟩

def isTop (nest : Nest) : Bool := nest.room + 1 == SyntaxError.maxNesting

/-- The place inside one more block. -/
def deeper (nest : Nest) (closers : List Keyword) : Nest := ⟨nest.room - 1, closers ++ nest.closers⟩

end Nest

namespace Parse

/-- The word a token is, if it closes some kind of block. -/
def closer? (token : Token) : Option Keyword :=
  match token.kind with
  | .keyword word => if word.closesBlock then some word else none
  | _ => none

/-- Statements up to the end of the block; `fuel` is at least the number of tokens left. -/
def statements (one : Parse (List Stmt)) (closers : List Keyword) : (fuel : Nat) → Parse (List Stmt)
  | 0 => return []
  | fuel + 1 => do
    let token ← current
    if ← atEnd then return []
    match closer? token with
    | some word =>
      if closers.contains word then return []
      else
        record (.found token.position (.unmatchedCloser token.describe))
        discard advance
        statements one closers fuel
    | none =>
      let first ← orSkip one []
      return first ++ (← statements one closers fuel)

/-- A block inside `nest` that ends at one of `closers`. -/
def block (statement : Nest → Parse (List Stmt)) (nest : Nest) (closers : List Keyword) :
    Parse (List Stmt) := do
  if nest.room = 0 then fail (← current).position .statementsTooDeep
  else
    let inner := nest.deeper closers
    statements (statement inner) inner.closers (← remaining)

/-- A type word or any identifier; whether the type exists is checked later. -/
def typeName (context : String) : Parse String := do
  match (← current).kind with
  | .typeName _ | .identifier => return (← advance).lexeme
  | _ => failExpected "type name" context

def boundLiteral : Parse Int := do
  let negative ← acceptSign .minus
  let token ← current
  match token.kind with
  | .integer n =>
    discard advance
    return if negative then -n else n
  | _ => fail token.position .boundNotInteger

/-- `lower:upper`, or `upper` alone for a bound from one. -/
def bound : Parse Bound := do
  let first ← boundLiteral
  if ← acceptSign .colon then return ⟨first, ← boundLiteral⟩ else return ⟨1, first⟩

def arrayBounds : Parse (List Bound) := do
  let opened ← expectSign .openBracket "ARRAY"
  let bounds ← commaSeparated bound
  if ← acceptSign .closeBracket then return bounds
  else fail opened.position (.unclosedBounds opened.position.column)

def declaration (start : Token) : Parse (List Stmt) := do
  let first ← expectIdentifier "DECLARE"
  let others ← afterCommas (expectIdentifier "','") (← remaining)
  let names := (first :: others).map Token.lexeme
  discard <| expectSign .colon s!"variable name '{(others.getLast?.getD first).lexeme}'"
  if ← accept (.typeName .ARRAY) then
    let bounds ← arrayBounds
    discard <| expectWord .OF "array bounds"
    let elementType ← typeName "OF"
    return names.map (.declareArray start.position · bounds elementType)
  else
    let type ← typeName "':'"
    return names.map (.declare start.position · type)

def constantDeclaration (room : Nat) (start : Token) : Parse (List Stmt) := do
  let name := (← expectIdentifier "CONSTANT").lexeme
  unless ← acceptAssign do
    failExpected "=" s!"constant name '{name}'"
  return [.constant start.position name (some (← expression room))]

/-- A variable or an array element. The operators of its indices add to those counted last. -/
def target (room : Nat) : Parse Target := do
  let context := ((← previous).map Token.describe).getD "statement start"
  let name ← expectIdentifier context
  match ← indexGroups name.line (enclosedExpression room name.line) (← remaining) with
  | [] => return .variable name.position name.lexeme
  | indices => return .element name.position name.lexeme indices

def targetName : Target → String
  | .variable _ name | .element _ name _ => name
  | .stray _ node => node

def setStatement (room : Nat) (start : Token) : Parse (List Stmt) := do
  let destination ← target room
  discard <| expectWord .TO s!"SET {targetName destination}"
  return [.assign start.position destination (← expression room)]

/-- Further values of an OUTPUT statement, on the line it starts on. -/
def moreValues (room line : Nat) : (fuel : Nat) → Parse (List Expr)
  | 0 => return []
  | fuel + 1 => do
    let token ← current
    if token.kind = .sign .comma ∧ token.line = line then
      discard advance
      let value ← expression room
      return value :: (← moreValues room line fuel)
    else return []

def outputStatement (room : Nat) (start : Token) : Parse (List Stmt) := do
  let first ← expression room
  let others ← moreValues room start.line (← remaining)
  return [.output start.position (first :: others)]

/-- An assignment or a call without the word CALL. -/
def assignmentOrCall (room : Nat) : Parse (List Stmt) := do
  let start ← current
  if ← startsCall then
    discard advance
    let arguments ← argumentList (enclosedExpression room start.line)
    return [.call start.position start.position start.lexeme arguments]
  else
    let destination ← target room
    unless ← acceptAssign do
      failExpected Sign.assign.text s!"'{start.lexeme}'"
    return [.assign start.position destination (← expression room)]

def callStatement (room : Nat) (start : Token) : Parse (List Stmt) := do
  let name ← expectIdentifier "CALL"
  let next ← current
  let arguments ←
    if next.kind = .sign .openParen ∧ next.line = name.line then
      argumentList (enclosedExpression room name.line)
    else pure []
  return [.call start.position name.position name.lexeme arguments]

/-- RETURN with a value if one starts on the same line. -/
def returnStatement (room : Nat) (start : Token) : Parse (List Stmt) := do
  let next ← current
  if (← atEnd) || next.line != start.line || isBoundary next then
    return [.giveBack start.position none]
  else return [.giveBack start.position (some (← expression room))]

def ifStatement (statement : Nest → Parse (List Stmt)) (nest : Nest) (start : Token) :
    Parse (List Stmt) := do
  let condition ← header do
    let condition ← expression nest.room
    discard <| expectWord .THEN "IF condition"
    return condition
  let thenBranch ← block statement nest [.ELSE, .ENDIF]
  let elseBranch ←
    if ← acceptWord .ELSE then some <$> block statement nest [.ENDIF] else pure none
  discard <| expectTerminator .ENDIF "IF block" start
  return [.ifThen start.position condition thenBranch elseBranch]

def whileStatement (statement : Nest → Parse (List Stmt)) (nest : Nest) (start : Token) :
    Parse (List Stmt) := do
  let condition ← header do
    let condition ← expression nest.room
    discard <| acceptWord .DO
    return condition
  let body ← block statement nest [.ENDWHILE]
  discard <| expectTerminator .ENDWHILE "WHILE loop" start
  return [.whileDo start.position condition body]

def repeatStatement (statement : Nest → Parse (List Stmt)) (nest : Nest) (start : Token) :
    Parse (List Stmt) := do
  let body ← block statement nest [.UNTIL]
  let condition ←
    if ← expectTerminator .UNTIL "REPEAT loop" start then header (expression nest.room)
    else pure none
  return [.repeatUntil start.position body condition]

/-- The step of a FOR loop, if it states one. -/
def forStep (room : Nat) : Parse (Option Expr) := do
  if ← acceptWord .STEP then return some (← expression room) else return none

/-- The header of a FOR loop: counter, first and last value and an optional step. -/
def forHeader (room : Nat) : Parse (String × Expr × Expr × Option Expr) := do
  let name := (← expectIdentifier "FOR").lexeme
  unless ← acceptAssign do
    failExpected Sign.assign.text s!"FOR {name}"
  let first ← expression room
  discard <| expectWord .TO "FOR start value"
  let last ← expression room
  return (name, first, last, ← forStep room)

/-- A name behind NEXT on its line must be the counter; otherwise it is reported and the loop kept. -/
def checkNextName (counter : Option String) : Parse Unit := do
  let name ← current
  let line := ((← previous).getD name).line
  if name.kind = .identifier ∧ name.line = line then
    discard advance
    match counter with
    | none => return
    | some counter =>
      if name.lexeme ≠ counter then
        record (.found name.position (.counterMismatch name.lexeme counter))

def forStatement (statement : Nest → Parse (List Stmt)) (nest : Nest) (start : Token) :
    Parse (List Stmt) := do
  let read ← header (forHeader nest.room)
  let counter := read.map (·.1)
  let body ← block statement nest [.ENDFOR, .NEXT]
  if ← acceptWord .NEXT then checkNextName counter
  else discard <| expectTerminator .ENDFOR "FOR loop" start
  return [.forLoop start.position counter (read.map (·.2.1)) (read.map (·.2.2.1))
    (read.bind (·.2.2.2)) body]

def caseHeader (room : Nat) : Parse Expr := do
  if ← acceptWord .OF then expression room
  else
    let selector ← expression room
    discard <| expectWord .OF "CASE selector"
    return selector

/-- A label of a CASE branch: an operand or a range of two. -/
def caseLabel (room : Nat) : Parse Expr := do
  let line := (← current).line
  modify fun s => { s with operators := 0 }
  let low ← operand line room false
  if ← acceptWord .TO then return .range low.position low (← operand line room false)
  else return low

/-- Whether the next tokens look like a label, which ends the branch before. -/
def startsLabel : Parse Bool := do
  let token ← current
  let next ← following
  match token.kind with
  | .sign .minus => return next.kind.isNumber
  | .identifier =>
    return next.kind == .sign .colon || next.kind == .keyword .TO || next.kind == .sign .comma
  | kind => return kind.isLiteral

def branchBody (one : Parse (List Stmt)) : (fuel : Nat) → Parse (List Stmt)
  | 0 => return []
  | fuel + 1 => do
    if (← atEnd) || (closer? (← current)).isSome || (← startsLabel) then return []
    else
      let first ← orSkip one []
      return first ++ (← branchBody one fuel)

def caseBranch (statement : Nest → Parse (List Stmt)) (nest : Nest) : Parse (Branch Stmt) := do
  let line := (← current).line
  let labels ← commaSeparated (caseLabel nest.room)
  discard <| expectSign .colon "CASE label"
  return ⟨labels, ← branchBody (statement nest) (← remaining), line⟩

/-- The branches of a CASE statement and its OTHERWISE part. -/
def caseBranches (statement : Nest → Parse (List Stmt)) (nest : Nest) :
    (fuel : Nat) → Parse (List (Branch Stmt) × Option (List Stmt))
  | 0 => return ([], none)
  | fuel + 1 => do
    let token ← current
    if ← atEnd then return ([], none)
    match closer? token with
    | some .OTHERWISE =>
      discard advance
      discard <| acceptSign .colon
      return ([], some (← block statement nest [.ENDCASE]))
    | some _ => return ([], none)
    | none =>
      let branch ← orSkip (some <$> caseBranch statement nest) none
      let (branches, otherwise) ← caseBranches statement nest fuel
      return (branch.toList ++ branches, otherwise)

def caseStatement (statement : Nest → Parse (List Stmt)) (nest : Nest) (start : Token) :
    Parse (List Stmt) := do
  let selector ← header (caseHeader nest.room)
  let inner := nest.deeper [.ENDCASE, .OTHERWISE]
  let (branches, otherwise) ← caseBranches statement inner (← remaining)
  discard <| expectTerminator .ENDCASE "CASE statement" start
  return [.caseOf start.position selector branches otherwise]

/-- How parameters are passed from here on: as BYREF or BYVAL says, or as before. -/
def passMode (mode : PassMode) : Parse PassMode := do
  if ← acceptWord .BYREF then return .byReference
  else
    if ← acceptWord .BYVAL then return .byValue else return mode

/-- The type of a parameter with the type of its elements, if it is an array that says so. -/
def parameterType (name : String) : Parse (String × Option String) := do
  if ← accept (.typeName .ARRAY) then
    if ← nextIs (.sign .openBracket) then discard arrayBounds
    if ← acceptWord .OF then return (TypeWord.ARRAY.text, some (← typeName "OF"))
    else return (TypeWord.ARRAY.text, none)
  else return (← typeName s!"parameter '{name}'", none)

/-- Parameters; BYREF and BYVAL hold for those that follow too. -/
def parameters (mode : PassMode) : (fuel : Nat) → Parse (List Param)
  | 0 => return []
  | fuel + 1 => do
    let mode ← passMode mode
    let name := (← expectIdentifier "parameter list").lexeme
    discard <| expectSign .colon s!"parameter '{name}'"
    let (type, elementType) ← parameterType name
    let param : Param := ⟨name, type, mode, elementType⟩
    if ← acceptSign .comma then return param :: (← parameters mode fuel)
    else return [param]

/-- The parameters of a routine in their parentheses, which a routine without any may leave out. -/
def parameterList (routine : Token) : Parse (List Param) := do
  if ← acceptSign .openParen then
    let params ←
      if ← nextIs (.sign .closeParen) then pure []
      else parameters .byValue ((← remaining) + 1)
    if ← acceptSign .closeParen then return params
    else fail routine.position (.unclosedParameters routine.lexeme)
  else return []

/-- The type of the result, which a function has to state. -/
def resultType (kind : RoutineKind) (name : String) : Parse (Option String) :=
  match kind with
  | .procedure => return none
  | .function => do
    discard <| expectWord .RETURNS s!"FUNCTION {name} header"
    return some (← typeName "RETURNS")

def routineHeader (kind : RoutineKind) : Parse (String × List Param × Option String) := do
  let name ← expectIdentifier (((← previous).map Token.lexeme).getD kind.keyword)
  let params ← parameterList name
  return (name.lexeme, params, ← resultType kind name.lexeme)

/-- A routine; one that is not at the top level is reported and dropped. -/
def routineDeclaration (statement : Nest → Parse (List Stmt)) (nest : Nest) (start : Token)
    (kind : RoutineKind) : Parse (List Stmt) := do
  let read ← header (routineHeader kind)
  let ending : Keyword := match kind with
    | .function => .ENDFUNCTION
    | .procedure => .ENDPROCEDURE
  let body ← block statement nest [ending]
  discard <| expectTerminator ending kind.keyword start
  if nest.isTop then
    return [.routine ⟨start.position, kind, read.map (·.1), (read.map (·.2.1)).getD [],
      read.bind (·.2.2), body⟩]
  else
    record (.found start.position (.nestedRoutine start.lexeme))
    return []

/-- One statement, which may declare several names. -/
def statement : (fuel : Nat) → Nest → Parse (List Stmt)
  | 0, _ => do fail (← current).position .statementsTooDeep
  | fuel + 1, nest => do
    let start ← current
    let room := nest.room
    match start.kind with
    | .identifier => assignmentOrCall room
    | .keyword .DECLARE => discard advance; declaration start
    | .keyword .CONSTANT => discard advance; constantDeclaration room start
    | .keyword .SET => discard advance; setStatement room start
    | .keyword .INPUT => discard advance; return [.input start.position (← target room)]
    | .keyword .OUTPUT => discard advance; outputStatement room start
    | .keyword .IF => discard advance; ifStatement (statement fuel) nest start
    | .keyword .CASE => discard advance; caseStatement (statement fuel) nest start
    | .keyword .WHILE => discard advance; whileStatement (statement fuel) nest start
    | .keyword .REPEAT => discard advance; repeatStatement (statement fuel) nest start
    | .keyword .FOR => discard advance; forStatement (statement fuel) nest start
    | .keyword .PROCEDURE => discard advance; routineDeclaration (statement fuel) nest start .procedure
    | .keyword .FUNCTION => discard advance; routineDeclaration (statement fuel) nest start .function
    | .keyword .CALL => discard advance; callStatement room start
    | .keyword .RETURN => discard advance; returnStatement room start
    | .keyword .TYPE => fail start.position .recordType
    | .invalid _ => throw .reported
    | .sign .closeParen | .sign .closeBracket =>
      fail start.position (.unmatchedDelimiter start.lexeme)
    | _ => fail start.position (.unexpectedStart start.describe)

/-- All statements of a program. Nesting never reaches the fuel, which is one more than the blocks
that can be open. -/
def program : Parse (List Stmt) := do
  statements (statement (SyntaxError.maxNesting + 1) .top) [] (← remaining)

end Parse

/-- A program with the errors found while reading it; parts that could not be read are left out. -/
structure Reading where
  program : Program
  errors : List Diagnostic

/-- Reads the tokens of a program text. -/
def Reading.ofTokens (tokens : List Token) (finish : Token) : Reading :=
  match Parse.program.run ⟨tokens, finish, none, 0, #[]⟩ with
  | .ok body reader => ⟨⟨body⟩, reader.errors.toList⟩
  | .error _ reader => ⟨⟨[]⟩, reader.errors.toList⟩

def Reading.ofScan (scan : Scan) : Reading := .ofTokens scan.tokens scan.endToken

end Pseudocode
