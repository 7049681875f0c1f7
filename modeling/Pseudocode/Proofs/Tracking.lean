import Pseudocode.Program.Statement

/-! The grammar, read with stacks. A production of `Parse` takes its tokens from the front of a list,
and what is open around it comes to it as arguments. Here the same productions share one state: all
tokens with an index among them, the stack of open blocks, that of open delimiters, and the line and the
depth of the expression. Everything that might be wrong with such a state breaks the reading down, and
so does a loop or a nesting that goes on too long. -/
namespace Pseudocode

/-- Why a production is left: for an error of the text, which is recorded where reading goes on, or
because the state is not what the production relies on. -/
inductive Breakdown where
  | fault (fault : SyntaxFault)
  /-- The index is not that of a token. -/
  | noToken
  /-- No token has been read, though one is asked for. -/
  | noPrevious
  /-- A block is left where none is open. -/
  | noBlock
  /-- A delimiter is closed where none is open. -/
  | noDelimiter
  /-- The innermost open delimiter is not the one that is closed. -/
  | otherDelimiter
  /-- A loop takes more rounds, or a nesting is deeper, than the limit says. -/
  | endless

/-- The state of reading with stacks. Of both stacks the innermost entry comes first: the words that
close a block, and a delimiter with its token. -/
structure Cursor where
  tokens : List Token
  pos : Nat
  previous : Option Token
  blocks : List (List Keyword)
  delimiters : List (Sign × Token)
  line : Nat
  depth : Nat
  operators : Nat
  errors : Array Diagnostic

/-- In front of all tokens, nothing is open. -/
def Cursor.start (tokens : List Token) : Cursor := ⟨tokens, 0, none, [], [], 0, 0, 0, #[]⟩

abbrev Tracking := EStateM Breakdown Cursor

namespace Tracking

open Parse (closer? isBoundary literal? negated operator? fullRank notRank targetName)

/-- The token at an index. -/
def tokenAt (index : Nat) : Tracking Token := do
  match (← get).tokens[index]? with
  | some token => return token
  | none => throw .noToken

def current : Tracking Token := do tokenAt (← get).pos

/-- The token after the next one, or the last. -/
def following : Tracking Token := do
  let s ← get
  tokenAt (min (s.pos + 1) (s.tokens.length - 1))

def previous : Tracking (Option Token) := return (← get).previous

def advance : Tracking Token := do
  let token ← current
  if token.kind ≠ .endOfInput then
    let next := (← get).pos + 1
    discard <| tokenAt next
    modify fun s => { s with pos := next }
  modify fun s => { s with previous := some token }
  return token

def atEnd : Tracking Bool := return (← current).kind == .endOfInput

def fail (position : Position) (error : SyntaxError) : Tracking α :=
  throw (.fault (.found position error))

def failExpected (text context : String) : Tracking α := do
  let token ← current
  match token.kind with
  | .invalid _ => throw (.fault .reported)
  | _ => fail ((← previous).getD token).ending (.expected text context)

def nextIs (kind : TokenKind) : Tracking Bool := return (← current).kind == kind

def accept (kind : TokenKind) : Tracking Bool := do
  if ← nextIs kind then
    discard advance
    return true
  else return false

def acceptWord (word : Keyword) : Tracking Bool := accept (.keyword word)

def acceptSign (sign : Sign) : Tracking Bool := accept (.sign sign)

def acceptAssign : Tracking Bool := do
  if ← acceptSign .assign then return true else acceptSign .equal

def expect (kind : TokenKind) (text context : String) : Tracking Token := do
  if ← nextIs kind then advance else failExpected text context

def expectWord (word : Keyword) (context : String) : Tracking Token :=
  expect (.keyword word) word.text context

def expectSign (sign : Sign) (context : String) : Tracking Token :=
  expect (.sign sign) sign.text context

def expectIdentifier (context : String) : Tracking Token := expect .identifier "identifier" context

def afterCommas (item : Tracking α) : (rounds : Nat) → Tracking (List α)
  | 0 => throw .endless
  | rounds + 1 => do
    if ← acceptSign .comma then
      let first ← item
      return first :: (← afterCommas item rounds)
    else return []

def record (fault : SyntaxFault) : Tracking Unit :=
  match fault with
  | .reported => return
  | .found position error => modify fun s =>
    let d := error.diagnostic position
    if s.errors.contains d then s else { s with errors := s.errors.push d }

/-- Goes on to the next line, statement or end of a block, token by token. -/
def skipLine (line : Nat) : (rounds : Nat) → Tracking Unit
  | 0 => throw .endless
  | rounds + 1 => do
    let token ← current
    if token.kind = .endOfInput ∨ ¬token.line ≤ line ∨ isBoundary token then return
    else
      discard advance
      skipLine line rounds

/-- Errors of the text are handled, a breakdown of the state is not. -/
def recover (production : Tracking α) (handle : SyntaxFault → Tracking α) : Tracking α :=
  tryCatch production fun
    | .fault fault => handle fault
    | broken => throw broken

/-- Whatever comes of the production, `last` is done in the end. -/
def ending (last : Tracking Unit) (production : Tracking α) : Tracking α := do
  let a ← tryCatch production fun broken => do
    last
    throw broken
  last
  return a

def expectTerminator (word : Keyword) (context : String) (start : Token) : Tracking Bool := do
  if ← acceptWord word then return true
  let anchor := (← previous).getD start
  let error : SyntaxError := .missingTerminator word context start.line
  modify fun s => { s with errors := s.errors.push (error.diagnostic anchor.position) }
  return false

def openBlock (closers : List Keyword) : Tracking Unit :=
  modify fun s => { s with blocks := closers :: s.blocks }

def closeBlock : Tracking Unit := do
  match (← get).blocks with
  | [] => throw .noBlock
  | _ :: others => modify fun s => { s with blocks := others }

/-- The block is open while the production reads, and no longer. -/
def inBlock (closers : List Keyword) (production : Tracking α) : Tracking α := do
  openBlock closers
  ending closeBlock production

def countOperator (token : Token) : Tracking Unit := do
  modify fun s => { s with operators := s.operators + 1 }
  if (← get).operators > SyntaxError.maxOperators then fail token.position .tooManyOperators

/-- Reads a delimiter, which is open from then on. -/
def openDelimiter (sign : Sign) : Tracking Token := do
  let token ← advance
  modify fun s => { s with delimiters := (sign, token) :: s.delimiters }
  return token

def closing : Sign → Sign
  | .openParen => .closeParen
  | _ => .closeBracket

/-- Reads the token that closes the innermost delimiter, which has to be `opened`. -/
def close (sign : Sign) (opened : Token) : Tracking Unit := do
  match (← get).delimiters with
  | [] => throw .noDelimiter
  | innermost :: others =>
    if innermost ≠ (sign, opened) then throw .otherDelimiter
    else
      let token ← current
      if token.kind = .sign (closing sign) ∧ token.line = opened.line then
        discard advance
        modify fun s => { s with delimiters := others }
      else
        let column := opened.position.column
        fail opened.position (if sign = .openParen then .unclosedParenthesis column
          else .unclosedBracket column)

def startsCall : Tracking Bool := do
  let next ← following
  return next.kind == .sign .openParen && next.line == (← current).line

section Limited

variable (limit : Nat)

def synchronize : Tracking Unit := do
  let line := ((← previous).getD (← current)).line
  skipLine line limit

def header (production : Tracking α) : Tracking (Option α) :=
  recover (some <$> production) fun fault => do
    record fault
    synchronize limit
    return none

/-- Goes on after an item that could not be read and that starts at an index. -/
def itemMissing (start : Nat) (instead : α) (fault : SyntaxFault) : Tracking α := do
  record fault
  if (← get).pos = start then discard advance else pure ()
  synchronize limit
  return instead

def orSkip (production : Tracking α) (instead : α) : Tracking α := do
  let start := (← get).pos
  recover production (itemMissing limit start instead)

def commaSeparated (item : Tracking α) : Tracking (List α) := do
  let first ← item
  return first :: (← afterCommas item limit)

def chain (rank : Nat) (operand : Tracking Expr) : (rounds : Nat) → Expr → Tracking Expr
  | 0, _ => throw .endless
  | rounds + 1, left => do
    let token ← current
    match operator? token.kind with
    | none => return left
    | some (op, opRank) =>
      if opRank = rank ∧ token.line = (← get).line then
        countOperator token
        discard advance
        let right ← operand
        chain rank operand rounds (.binary token.position op left right)
      else return left

def ranked (operand : Tracking Expr) : (rank : Nat) → Tracking Expr
  | 0 => operand
  | rank + 1 => do
    let left ← ranked operand rank
    chain (rank + 1) (ranked operand rank) limit left

def indexGroups (item : Tracking Expr) : (rounds : Nat) → Tracking (List Expr)
  | 0 => throw .endless
  | rounds + 1 => do
    let token ← current
    if token.kind = .sign .openBracket ∧ token.line = (← get).line then
      let opened ← openDelimiter .openBracket
      let group ← commaSeparated limit item
      close .openBracket opened
      return group ++ (← indexGroups item rounds)
    else return []

def argumentList (item : Tracking Expr) : Tracking (List Expr) := do
  let opened ← openDelimiter .openParen
  let arguments ← if ← nextIs (.sign .closeParen) then pure [] else commaSeparated limit item
  close .openParen opened
  return arguments

/-- A call is read on the line of its name. -/
def callArguments (name : Token) (item : Tracking Expr) : Tracking (List Expr) := do
  modify fun s => { s with line := name.line }
  argumentList limit item

def primary (inner : Tracking Expr) : Tracking Expr := do
  let token ← current
  if token.line ≠ (← get).line ∨ token.kind = .endOfInput then
    let anchor := (← previous).getD token
    fail anchor.ending (.expectedExpression anchor.describe)
  else
    match token.kind with
    | .invalid _ => throw (.fault .reported)
    | .sign .openParen =>
      let opened ← openDelimiter .openParen
      let e ← ranked limit inner fullRank
      close .openParen opened
      return e
    | .identifier =>
      if ← startsCall then
        discard advance
        return .call token.position token.lexeme
          (← callArguments limit token (ranked limit inner fullRank))
      else
        discard advance
        match ← indexGroups limit (ranked limit inner fullRank) limit with
        | [] => return .name token.position token.lexeme
        | indices => return .element token.position token.lexeme indices
    | kind =>
      match literal? kind with
      | some value =>
        discard advance
        return .literal token.position value
      | none =>
        if (kind = .sign .closeParen ∨ kind = .sign .closeBracket) ∧ (← get).delimiters.isEmpty then
          fail token.position (.unmatchedDelimiter token.lexeme)
        else fail token.position (.unexpectedInExpression token.describe)

/-- The operand is one deeper while it is read. -/
def operand : (nesting : Nat) → Tracking Expr
  | 0 => throw .endless
  | nesting + 1 => do
    modify fun s => { s with depth := s.depth + 1 }
    ending (modify fun s => { s with depth := s.depth - 1 }) do
      let s ← get
      let token ← current
      if s.depth + s.blocks.length > SyntaxError.maxNesting then
        fail token.position .expressionTooDeep
      else if token.kind = .keyword .NOT ∧ token.line = s.line then
        discard advance
        return .unary token.position .not (← ranked limit (operand nesting) notRank)
      else if token.kind = .sign .minus ∧ token.line = s.line then
        discard advance
        return negated token.position (← operand nesting)
      else primary limit (operand nesting)

/-- An expression begins on a line, with no delimiter open. -/
def beginAt (line : Nat) : Tracking Unit := modify fun s => { s with line, delimiters := [] }

def uncount : Tracking Unit := modify fun s => { s with operators := 0 }

/-- What stands between delimiters in a target or a call. -/
def enclosedExpression : Tracking Expr := ranked limit (operand limit limit) fullRank

def expression : Tracking Expr := do
  beginAt ((← previous).getD (← current)).line
  uncount
  ranked limit (operand limit limit) fullRank

/-- Statements up to a word that closes an open block. -/
def statements (one : Tracking (List Stmt)) : (rounds : Nat) → Tracking (List Stmt)
  | 0 => throw .endless
  | rounds + 1 => do
    let token ← current
    if ← atEnd then return []
    match closer? token with
    | some word =>
      if (← get).blocks.any (·.contains word) then return []
      else
        record (.found token.position (.unmatchedCloser token.describe))
        discard advance
        statements one rounds
    | none =>
      let first ← orSkip limit one []
      return first ++ (← statements one rounds)

def block (statement : Tracking (List Stmt)) (closers : List Keyword) : Tracking (List Stmt) := do
  if (← get).blocks.length ≥ SyntaxError.maxNesting then fail (← current).position .statementsTooDeep
  else inBlock closers (statements limit statement limit)

def typeName (context : String) : Tracking String := do
  match (← current).kind with
  | .typeName _ | .identifier => return (← advance).lexeme
  | _ => failExpected "type name" context

def boundLiteral : Tracking Int := do
  let negative ← acceptSign .minus
  let token ← current
  match token.kind with
  | .integer n =>
    discard advance
    return if negative then -n else n
  | _ => fail token.position .boundNotInteger

def bound : Tracking Bound := do
  let first ← boundLiteral
  if ← acceptSign .colon then return ⟨first, ← boundLiteral⟩ else return ⟨1, first⟩

def arrayBounds : Tracking (List Bound) := do
  let opened ← expectSign .openBracket "ARRAY"
  let bounds ← commaSeparated limit bound
  if ← acceptSign .closeBracket then return bounds
  else fail opened.position (.unclosedBounds opened.position.column)

def declaration (start : Token) : Tracking (List Stmt) := do
  let first ← expectIdentifier "DECLARE"
  let others ← afterCommas (expectIdentifier "','") limit
  let names := (first :: others).map Token.lexeme
  discard <| expectSign .colon s!"variable name '{(others.getLast?.getD first).lexeme}'"
  if ← accept (.typeName .ARRAY) then
    let bounds ← arrayBounds limit
    discard <| expectWord .OF "array bounds"
    let elementType ← typeName "OF"
    return names.map (.declareArray start.position · bounds elementType)
  else
    let type ← typeName "':'"
    return names.map (.declare start.position · type)

def constantDeclaration (start : Token) : Tracking (List Stmt) := do
  let name := (← expectIdentifier "CONSTANT").lexeme
  unless ← acceptAssign do
    failExpected "=" s!"constant name '{name}'"
  return [.constant start.position name (some (← expression limit))]

def target : Tracking Target := do
  let context := ((← previous).map Token.describe).getD "statement start"
  let name ← expectIdentifier context
  beginAt name.line
  match ← indexGroups limit (enclosedExpression limit) limit with
  | [] => return .variable name.position name.lexeme
  | indices => return .element name.position name.lexeme indices

def setStatement (start : Token) : Tracking (List Stmt) := do
  let destination ← target limit
  discard <| expectWord .TO s!"SET {targetName destination}"
  return [.assign start.position destination (← expression limit)]

def moreValues (line : Nat) : (rounds : Nat) → Tracking (List Expr)
  | 0 => throw .endless
  | rounds + 1 => do
    let token ← current
    if token.kind = .sign .comma ∧ token.line = line then
      discard advance
      let value ← expression limit
      return value :: (← moreValues line rounds)
    else return []

def outputStatement (start : Token) : Tracking (List Stmt) := do
  let first ← expression limit
  let others ← moreValues limit start.line limit
  return [.output start.position (first :: others)]

def assignmentOrCall : Tracking (List Stmt) := do
  let start ← current
  if ← startsCall then
    discard advance
    beginAt start.line
    let arguments ← argumentList limit (enclosedExpression limit)
    return [.call start.position start.position start.lexeme arguments]
  else
    let destination ← target limit
    unless ← acceptAssign do
      failExpected Sign.assign.text s!"'{start.lexeme}'"
    return [.assign start.position destination (← expression limit)]

def callStatement (start : Token) : Tracking (List Stmt) := do
  let name ← expectIdentifier "CALL"
  let next ← current
  let arguments ←
    if next.kind = .sign .openParen ∧ next.line = name.line then
      beginAt name.line
      argumentList limit (enclosedExpression limit)
    else pure []
  return [.call start.position name.position name.lexeme arguments]

def returnStatement (start : Token) : Tracking (List Stmt) := do
  let next ← current
  if (← atEnd) || next.line != start.line || isBoundary next then
    return [.giveBack start.position none]
  else return [.giveBack start.position (some (← expression limit))]

def ifStatement (statement : Tracking (List Stmt)) (start : Token) : Tracking (List Stmt) := do
  let condition ← header limit do
    let condition ← expression limit
    discard <| expectWord .THEN "IF condition"
    return condition
  let thenBranch ← block limit statement [.ELSE, .ENDIF]
  let elseBranch ←
    if ← acceptWord .ELSE then some <$> block limit statement [.ENDIF] else pure none
  discard <| expectTerminator .ENDIF "IF block" start
  return [.ifThen start.position condition thenBranch elseBranch]

def whileStatement (statement : Tracking (List Stmt)) (start : Token) : Tracking (List Stmt) := do
  let condition ← header limit do
    let condition ← expression limit
    discard <| acceptWord .DO
    return condition
  let body ← block limit statement [.ENDWHILE]
  discard <| expectTerminator .ENDWHILE "WHILE loop" start
  return [.whileDo start.position condition body]

def repeatStatement (statement : Tracking (List Stmt)) (start : Token) : Tracking (List Stmt) := do
  let body ← block limit statement [.UNTIL]
  let condition ←
    if ← expectTerminator .UNTIL "REPEAT loop" start then header limit (expression limit)
    else pure none
  return [.repeatUntil start.position body condition]

def forStep : Tracking (Option Expr) := do
  if ← acceptWord .STEP then return some (← expression limit) else return none

def forHeader : Tracking (String × Expr × Expr × Option Expr) := do
  let name := (← expectIdentifier "FOR").lexeme
  unless ← acceptAssign do
    failExpected Sign.assign.text s!"FOR {name}"
  let first ← expression limit
  discard <| expectWord .TO "FOR start value"
  let last ← expression limit
  return (name, first, last, ← forStep limit)

/-- What is behind NEXT is looked at on the line of NEXT, which must have been read. -/
def checkNextName (counter : Option String) : Tracking Unit := do
  let name ← current
  match ← previous with
  | none => throw .noPrevious
  | some next =>
    if name.kind = .identifier ∧ name.line = next.line then
      discard advance
      match counter with
      | none => return
      | some counter =>
        if name.lexeme ≠ counter then
          record (.found name.position (.counterMismatch name.lexeme counter))

def forStatement (statement : Tracking (List Stmt)) (start : Token) : Tracking (List Stmt) := do
  let read ← header limit (forHeader limit)
  let counter := read.map (·.1)
  let body ← block limit statement [.ENDFOR, .NEXT]
  if ← acceptWord .NEXT then checkNextName counter
  else discard <| expectTerminator .ENDFOR "FOR loop" start
  return [.forLoop start.position counter (read.map (·.2.1)) (read.map (·.2.2.1))
    (read.bind (·.2.2.2)) body]

def caseHeader : Tracking Expr := do
  if ← acceptWord .OF then expression limit
  else
    let selector ← expression limit
    discard <| expectWord .OF "CASE selector"
    return selector

def caseLabel : Tracking Expr := do
  beginAt (← current).line
  uncount
  let low ← operand limit limit
  if ← acceptWord .TO then return .range low.position low (← operand limit limit)
  else return low

def startsLabel : Tracking Bool := do
  let token ← current
  let next ← following
  match token.kind with
  | .sign .minus => return next.kind.isNumber
  | .identifier =>
    return next.kind == .sign .colon || next.kind == .keyword .TO || next.kind == .sign .comma
  | kind => return kind.isLiteral

def branchBody (one : Tracking (List Stmt)) : (rounds : Nat) → Tracking (List Stmt)
  | 0 => throw .endless
  | rounds + 1 => do
    if (← atEnd) || (closer? (← current)).isSome || (← startsLabel) then return []
    else
      let first ← orSkip limit one []
      return first ++ (← branchBody one rounds)

def caseBranch (statement : Tracking (List Stmt)) : Tracking (Branch Stmt) := do
  let line := (← current).line
  let labels ← commaSeparated limit (caseLabel limit)
  discard <| expectSign .colon "CASE label"
  return ⟨labels, ← branchBody limit statement limit, line⟩

def caseBranches (statement : Tracking (List Stmt)) :
    (rounds : Nat) → Tracking (List (Branch Stmt) × Option (List Stmt))
  | 0 => throw .endless
  | rounds + 1 => do
    let token ← current
    if ← atEnd then return ([], none)
    match closer? token with
    | some .OTHERWISE =>
      discard advance
      discard <| acceptSign .colon
      return ([], some (← block limit statement [.ENDCASE]))
    | some _ => return ([], none)
    | none =>
      let branch ← orSkip limit (some <$> caseBranch limit statement) none
      let (branches, otherwise) ← caseBranches statement rounds
      return (branch.toList ++ branches, otherwise)

/-- The branches stand in a block that is opened without a look at the number of open blocks. -/
def caseStatement (statement : Tracking (List Stmt)) (start : Token) : Tracking (List Stmt) := do
  let selector ← header limit (caseHeader limit)
  let (branches, otherwise) ← inBlock [.ENDCASE, .OTHERWISE] (caseBranches limit statement limit)
  discard <| expectTerminator .ENDCASE "CASE statement" start
  return [.caseOf start.position selector branches otherwise]

def passMode (mode : PassMode) : Tracking PassMode := do
  if ← acceptWord .BYREF then return .byReference
  else
    if ← acceptWord .BYVAL then return .byValue else return mode

def parameterType (name : String) : Tracking (String × Option String) := do
  if ← accept (.typeName .ARRAY) then
    if ← nextIs (.sign .openBracket) then discard (arrayBounds limit)
    if ← acceptWord .OF then return (TypeWord.ARRAY.text, some (← typeName "OF"))
    else return (TypeWord.ARRAY.text, none)
  else return (← typeName s!"parameter '{name}'", none)

def parameters (mode : PassMode) : (rounds : Nat) → Tracking (List Param)
  | 0 => throw .endless
  | rounds + 1 => do
    let mode ← passMode mode
    let name := (← expectIdentifier "parameter list").lexeme
    discard <| expectSign .colon s!"parameter '{name}'"
    let (type, elementType) ← parameterType limit name
    let param : Param := ⟨name, type, mode, elementType⟩
    if ← acceptSign .comma then return param :: (← parameters mode rounds)
    else return [param]

def parameterList (routine : Token) : Tracking (List Param) := do
  if ← acceptSign .openParen then
    let params ←
      if ← nextIs (.sign .closeParen) then pure []
      else parameters limit .byValue limit
    if ← acceptSign .closeParen then return params
    else fail routine.position (.unclosedParameters routine.lexeme)
  else return []

def resultType (kind : RoutineKind) (name : String) : Tracking (Option String) :=
  match kind with
  | .procedure => return none
  | .function => do
    discard <| expectWord .RETURNS s!"FUNCTION {name} header"
    return some (← typeName "RETURNS")

/-- The word in front of the name must have been read. -/
def routineHeader (kind : RoutineKind) : Tracking (String × List Param × Option String) := do
  match ← previous with
  | none => throw .noPrevious
  | some word =>
    let name ← expectIdentifier word.lexeme
    let params ← parameterList limit name
    return (name.lexeme, params, ← resultType kind name.lexeme)

def routineDeclaration (statement : Tracking (List Stmt)) (start : Token) (kind : RoutineKind) :
    Tracking (List Stmt) := do
  let read ← header limit (routineHeader limit kind)
  let ending : Keyword := match kind with
    | .function => .ENDFUNCTION
    | .procedure => .ENDPROCEDURE
  let body ← block limit statement [ending]
  discard <| expectTerminator ending kind.keyword start
  if (← get).blocks.length > 1 then
    record (.found start.position (.nestedRoutine start.lexeme))
    return []
  else
    return [.routine ⟨start.position, kind, read.map (·.1), (read.map (·.2.1)).getD [],
      read.bind (·.2.2), body⟩]

def statement : (nesting : Nat) → Tracking (List Stmt)
  | 0 => throw .endless
  | nesting + 1 => do
    let start ← current
    match start.kind with
    | .identifier => assignmentOrCall limit
    | .keyword .DECLARE => discard advance; declaration limit start
    | .keyword .CONSTANT => discard advance; constantDeclaration limit start
    | .keyword .SET => discard advance; setStatement limit start
    | .keyword .INPUT => discard advance; return [.input start.position (← target limit)]
    | .keyword .OUTPUT => discard advance; outputStatement limit start
    | .keyword .IF => discard advance; ifStatement limit (statement nesting) start
    | .keyword .CASE => discard advance; caseStatement limit (statement nesting) start
    | .keyword .WHILE => discard advance; whileStatement limit (statement nesting) start
    | .keyword .REPEAT => discard advance; repeatStatement limit (statement nesting) start
    | .keyword .FOR => discard advance; forStatement limit (statement nesting) start
    | .keyword .PROCEDURE =>
      discard advance; routineDeclaration limit (statement nesting) start .procedure
    | .keyword .FUNCTION =>
      discard advance; routineDeclaration limit (statement nesting) start .function
    | .keyword .CALL => discard advance; callStatement limit start
    | .keyword .RETURN => discard advance; returnStatement limit start
    | .keyword .TYPE => fail start.position .recordType
    | .invalid _ => throw (.fault .reported)
    | .sign .closeParen | .sign .closeBracket =>
      fail start.position (.unmatchedDelimiter start.lexeme)
    | _ => fail start.position (.unexpectedStart start.describe)

def program : Tracking (List Stmt) := block limit (statement limit limit) []

end Limited

end Tracking

end Pseudocode
