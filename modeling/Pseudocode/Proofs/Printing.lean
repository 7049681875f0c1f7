import Pseudocode.Proofs.Tidy

/-! Programs as texts again. A program is printed as lines of words, one line for each simple statement,
block header and end of a block; every operator has its operands and itself in parentheses. A style
says which of the forms that mean the same is printed. What a program must be like to be printed, how
deep it nests and how many operators it has is decided by recursion on its tree. -/
namespace Pseudocode

/-- A token without its place. -/
structure Word where
  kind : TokenKind
  lexeme : String
  deriving DecidableEq, Repr

/-- A word on a line. -/
structure Mark where
  word : Word
  line : Nat
  deriving DecidableEq, Repr

def Token.mark (t : Token) : Mark := ⟨⟨t.kind, t.lexeme⟩, t.line⟩

/-- A token of the mark, which may stand anywhere on its line. -/
def Mark.token (k : Mark) : Token := ⟨k.word.kind, k.word.lexeme, ⟨k.line, 1⟩⟩

theorem marks_of_tokens (marks : List Mark) : (marks.map Mark.token).map Token.mark = marks := by
  rw [List.map_map]
  exact List.map_id marks

def onLine (line : Nat) (words : List Word) : List Mark := words.map (⟨·, line⟩)

/-- Lines of words, the first on the given line and each of the others on the next. -/
def fromLine (line : Nat) : List (List Word) → List Mark
  | [] => []
  | words :: rest => onLine line words ++ fromLine (line + 1) rest

/-- How a FOR loop ends. -/
inductive LoopEnd where
  | endfor
  | next
  | nextCounter
  deriving DecidableEq, Repr

/-- Which of the forms that mean the same is printed. -/
structure Style where
  /-- The sign `=` in place of an arrow. -/
  equals : Bool := false
  /-- Assignments as SET … TO. -/
  setTo : Bool := false
  /-- Brackets of its own for each index. -/
  groups : Bool := false
  /-- An array bound from one by its upper bound alone. -/
  upperAlone : Bool := false
  /-- The word CALL in front of a call. -/
  callWord : Bool := true
  /-- No empty parentheses where none are needed. -/
  bare : Bool := false
  /-- BYREF and BYVAL only where they change what holds. -/
  sticky : Bool := false
  /-- The word DO behind the condition of a WHILE loop. -/
  doWord : Bool := false
  /-- CASE OF in place of CASE … OF. -/
  ofFirst : Bool := true
  /-- A colon behind OTHERWISE. -/
  colon : Bool := false
  loopEnd : LoopEnd := .nextCounter
  deriving Repr

namespace Word

def sign (s : Sign) : Word := ⟨.sign s, s.text⟩

def keyword (word : Keyword) : Word := ⟨.keyword word, word.text⟩

def name (text : String) : Word := ⟨.identifier, text⟩

/-- A name where a type is expected. -/
def type (text : String) : Word := ⟨((TypeWord.ofText? text).map .typeName).getD .identifier, text⟩

def integer (n : Int) : Word := ⟨.integer n, toString n⟩

def real (x : Binary64) : Word := ⟨.real x, x.text⟩

end Word

/-- The sign between what is stored into and the value. -/
def Style.assignment (style : Style) : Word := .sign (if style.equals then .equal else .assign)

/-- Words one after the other with a separator in between. -/
def separated (separator : List Word) : List (List Word) → List Word
  | [] => []
  | first :: rest => first ++ rest.flatMap (separator ++ ·)

def parenthesised (words : List Word) : List Word :=
  .sign .openParen :: (words ++ [.sign .closeParen])

def bracketed (words : List Word) : List Word :=
  .sign .openBracket :: (words ++ [.sign .closeBracket])

/-- An integer, with a minus sign in front if it is negative. -/
def integerWords (n : Int) : List Word :=
  if n < 0 then [.sign .minus, .integer (-n)] else [.integer n]

def Binary64.isNegative : Binary64 → Bool
  | .nan => false
  | .infinite negative | .finite negative _ _ => negative

def Literal.words : Literal → List Word
  | .integer n => integerWords n
  | .real x => if x.isNegative then [.sign .minus, .real x.neg] else [.real x]
  | .string s => [⟨.string s, s!"\"{s}\""⟩]
  | .char s => [⟨.char s, s!"'{s}'"⟩]
  | .boolean b => [⟨.truth b, if b then "TRUE" else "FALSE"⟩]
  | .null => [⟨.null, "NULL"⟩]

def BinaryOp.word : BinaryOp → Word
  | .or => .keyword .OR
  | .and => .keyword .AND
  | .equal => .sign .equal
  | .notEqual => .sign .notEqual
  | .less => .sign .less
  | .greater => .sign .greater
  | .lessEqual => .sign .lessEqual
  | .greaterEqual => .sign .greaterEqual
  | .plus => .sign .plus
  | .minus => .sign .minus
  | .join => .sign .ampersand
  | .times => .sign .times
  | .divide => .sign .slash
  | .div => .keyword .DIV
  | .mod => .keyword .MOD
  | .unknown name => .name name

def UnaryOp.word : UnaryOp → Word
  | .not => .keyword .NOT
  | .minus => .sign .minus
  | .unknown name => .name name

def PassMode.word : PassMode → Word
  | .byValue => .keyword .BYVAL
  | .byReference => .keyword .BYREF

def RoutineKind.opening : RoutineKind → Keyword
  | .function => .FUNCTION
  | .procedure => .PROCEDURE

def RoutineKind.closing : RoutineKind → Keyword
  | .function => .ENDFUNCTION
  | .procedure => .ENDPROCEDURE

section Words

variable (style : Style)

/-- A name with indices in brackets. -/
def elementWords (array : String) (indices : List (List Word)) : List Word :=
  .name array :: if style.groups then indices.flatMap bracketed
    else bracketed (separated [.sign .comma] indices)

mutual

/-- An expression, in parentheses if it has an operator. -/
def Expr.words : Expr → List Word
  | .literal _ value => value.words
  | .name _ name => [.name name]
  | .element _ array indices => elementWords style array (exprsWords indices)
  | .binary _ op left right => parenthesised (left.words ++ op.word :: right.words)
  | .unary _ op operand => parenthesised (op.word :: operand.words)
  | .call _ callee arguments => .name callee :: parenthesised (separated [.sign .comma] (exprsWords arguments))
  | .range _ low high => low.words ++ .keyword .TO :: high.words
  | .stray .. => []

def exprsWords : List Expr → List (List Word)
  | [] => []
  | e :: rest => e.words :: exprsWords rest

end

def Target.words : Target → List Word
  | .variable _ name => [.name name]
  | .element _ array indices => elementWords style array (exprsWords style indices)
  | .stray .. => []

/-- The words of an expression that may be missing. -/
def optionWords (e : Option Expr) : List Word := (e.map (Expr.words style)).getD []

@[simp] theorem optionWords_some (e : Expr) : optionWords style (some e) = e.words style := rfl

def Bound.words (b : Bound) : List Word :=
  if style.upperAlone ∧ b.lower = 1 then integerWords b.upper
  else integerWords b.lower ++ .sign .colon :: integerWords b.upper

def callWords (callee : String) (arguments : List Expr) : List Word :=
  let listed := parenthesised (separated [.sign .comma] (exprsWords style arguments))
  if style.callWord then
    .keyword .CALL :: .name callee :: if style.bare ∧ arguments.isEmpty then [] else listed
  else .name callee :: listed

/-- A parameter behind others that are passed in the given mode. -/
def Param.words (mode : PassMode) (p : Param) : List Word :=
  (if style.sticky ∧ p.mode = mode then [] else [p.mode.word]) ++
    .name p.name :: .sign .colon :: .type p.typeName ::
      (p.elementType.map fun type => [.keyword .OF, .type type]).getD []

def paramsWords (mode : PassMode) : List Param → List (List Word)
  | [] => []
  | p :: rest => p.words style mode :: paramsWords p.mode rest

def routineWords (kind : RoutineKind) (name : Option String) (params : List Param)
    (returns : Option String) : List Word :=
  let listed := parenthesised (separated [.sign .comma] (paramsWords style .byValue params))
  .keyword kind.opening :: .name (name.getD "") ::
    ((if style.bare ∧ params.isEmpty then [] else listed) ++
      (returns.map fun type => [.keyword .RETURNS, .type type]).getD [])

def loopEndWords (counter : Option String) : List Word :=
  match style.loopEnd with
  | .endfor => [.keyword .ENDFOR]
  | .next => [.keyword .NEXT]
  | .nextCounter => .keyword .NEXT :: (counter.map fun name => [.name name]).getD []

def caseWords (selector : Option Expr) : List Word :=
  if style.ofFirst then .keyword .CASE :: .keyword .OF :: optionWords style selector
  else .keyword .CASE :: (optionWords style selector ++ [.keyword .OF])

def otherwiseWords : List Word := .keyword .OTHERWISE :: if style.colon then [.sign .colon] else []

mutual

/-- The lines of a statement. -/
def Stmt.lines : Stmt → List (List Word)
  | .declare _ name type => [[.keyword .DECLARE, .name name, .sign .colon, .type type]]
  | .declareArray _ name bounds type =>
    [.keyword .DECLARE :: .name name :: .sign .colon :: .type TypeWord.ARRAY.text ::
      (bracketed (separated [.sign .comma] (bounds.map (Bound.words style))) ++
        [.keyword .OF, .type type])]
  | .constant _ name value =>
    [.keyword .CONSTANT :: .name name :: style.assignment :: optionWords style value]
  | .assign _ target value =>
    if style.setTo then [.keyword .SET :: (target.words style ++ .keyword .TO :: value.words style)]
    else [target.words style ++ style.assignment :: value.words style]
  | .ifThen _ condition thenBranch elseBranch =>
    (.keyword .IF :: (optionWords style condition ++ [.keyword .THEN])) ::
      (blockLines thenBranch ++ (otherwiseLines [.keyword .ELSE] elseBranch ++ [[.keyword .ENDIF]]))
  | .whileDo _ condition body =>
    (.keyword .WHILE :: (optionWords style condition ++ if style.doWord then [.keyword .DO] else [])) ::
      (blockLines body ++ [[.keyword .ENDWHILE]])
  | .repeatUntil _ body condition =>
    [.keyword .REPEAT] :: (blockLines body ++ [.keyword .UNTIL :: optionWords style condition])
  | .forLoop _ counter start stop step body =>
    (.keyword .FOR :: .name (counter.getD "") :: style.assignment ::
      (optionWords style start ++ .keyword .TO :: (optionWords style stop ++
        (step.map fun e => .keyword .STEP :: e.words style).getD []))) ::
      (blockLines body ++ [loopEndWords style counter])
  | .caseOf _ selector branches otherwise =>
    caseWords style selector :: (branchesLines branches ++
      (otherwiseLines (otherwiseWords style) otherwise ++ [[.keyword .ENDCASE]]))
  | .routine ⟨_, kind, name, params, returns, body⟩ =>
    routineWords style kind name params returns :: (blockLines body ++ [[.keyword kind.closing]])
  | .giveBack _ value => [.keyword .RETURN :: optionWords style value]
  | .call _ _ callee arguments => [callWords style callee arguments]
  | .output _ values => [.keyword .OUTPUT :: separated [.sign .comma] (exprsWords style values)]
  | .input _ target => [.keyword .INPUT :: target.words style]
  | .strayCall .. | .stray .. => []

def blockLines : List Stmt → List (List Word)
  | [] => []
  | s :: rest => s.lines ++ blockLines rest

/-- The block that runs when no other does, below a line that announces it. -/
def otherwiseLines (head : List Word) : Option (List Stmt) → List (List Word)
  | none => []
  | some block => head :: blockLines block

def branchesLines : List (Branch Stmt) → List (List Word)
  | [] => []
  | ⟨labels, body, _⟩ :: rest =>
    (separated [.sign .comma] (exprsWords style labels) ++ [.sign .colon]) ::
      (blockLines body ++ branchesLines rest)

end

def Program.lines (p : Program) : List (List Word) := blockLines style p.body

end Words

section Normal

def Literal.isNumber : Literal → Bool
  | .integer _ | .real _ => true
  | _ => false

def Expr.isNumber : Expr → Bool
  | .literal _ value => value.isNumber
  | _ => false

mutual

/-- The expression is one that reading gives: a minus sign in front of a number is part of the number,
and what has indices has at least one. -/
def Expr.normal : Expr → Bool
  | .literal .. | .name .. => true
  | .element _ _ indices => !indices.isEmpty && exprsNormal indices
  | .binary _ op left right => op.isKnown && left.normal && right.normal
  | .unary _ op operand => op.isKnown && operand.normal && !(op == .minus && operand.isNumber)
  | .call _ _ arguments => exprsNormal arguments
  | .range .. | .stray .. => false

def exprsNormal : List Expr → Bool
  | [] => true
  | e :: rest => e.normal && exprsNormal rest

end

/-- A label by itself is a literal, which may be negative, or a name. -/
def Expr.isLabel : Expr → Bool
  | .literal .. | .name .. => true
  | _ => false

def Expr.normalLabel : Expr → Bool
  | .range _ low high => low.isLabel && high.isLabel
  | e => e.isLabel

def Target.normal : Target → Bool
  | .variable .. => true
  | .element _ _ indices => !indices.isEmpty && exprsNormal indices
  | .stray .. => false

/-- Only an array says what type its elements have. -/
def Param.normal (p : Param) : Bool := p.elementType.isNone || p.typeName == TypeWord.ARRAY.text

mutual

/-- The statement is one that reading gives where routines may be declared at the top level only. -/
def Stmt.normal (top : Bool) : Stmt → Bool
  | .declare _ _ type => type != TypeWord.ARRAY.text
  | .declareArray _ _ bounds _ => !bounds.isEmpty
  | .constant _ _ value => value.any Expr.normal
  | .assign _ target value => target.normal && value.normal
  | .ifThen _ condition thenBranch elseBranch =>
    condition.any Expr.normal && blockNormal false thenBranch && otherwiseNormal elseBranch
  | .whileDo _ condition body => condition.any Expr.normal && blockNormal false body
  | .repeatUntil _ body condition => blockNormal false body && condition.any Expr.normal
  | .forLoop _ counter start stop step body =>
    counter.isSome && start.any Expr.normal && stop.any Expr.normal && step.all Expr.normal &&
      blockNormal false body
  | .caseOf _ selector branches otherwise =>
    selector.any Expr.normal && branchesNormal branches && otherwiseNormal otherwise
  | .routine ⟨_, kind, name, params, returns, body⟩ =>
    top && name.isSome && params.all Param.normal && returns.isSome == (kind == .function) &&
      blockNormal false body
  | .giveBack _ value => value.all Expr.normal
  | .call _ _ _ arguments => exprsNormal arguments
  | .output _ values => !values.isEmpty && exprsNormal values
  | .input _ target => target.normal
  | .strayCall .. | .stray .. => false

def blockNormal (top : Bool) : List Stmt → Bool
  | [] => true
  | s :: rest => s.normal top && blockNormal top rest

def otherwiseNormal : Option (List Stmt) → Bool
  | none => true
  | some block => blockNormal false block

def branchesNormal : List (Branch Stmt) → Bool
  | [] => true
  | ⟨labels, body, _⟩ :: rest =>
    !labels.isEmpty && labels.all Expr.normalLabel && blockNormal false body && branchesNormal rest

end

def Program.normal (p : Program) : Bool := blockNormal true p.body

end Normal

section Depth

def Literal.isNegative : Literal → Bool
  | .integer n => n < 0
  | .real x => x.isNegative
  | _ => false

mutual

/-- How deep operands are nested in the expression as it is printed. -/
def Expr.depth : Expr → Nat
  | .literal _ value => if value.isNegative then 2 else 1
  | .name .. => 1
  | .element _ _ operands | .call _ _ operands => exprsDepth operands + 1
  | .binary _ _ left right => max left.depth right.depth + 1
  | .unary _ _ operand => operand.depth + 2
  | .range _ low high => max low.depth high.depth
  | .stray .. => 0

def exprsDepth : List Expr → Nat
  | [] => 0
  | e :: rest => max e.depth (exprsDepth rest)

end

def optionDepth (e : Option Expr) : Nat := (e.map Expr.depth).getD 0

@[simp] theorem optionDepth_some (e : Expr) : optionDepth (some e) = e.depth := rfl

def Target.depth : Target → Nat
  | .element _ _ indices => exprsDepth indices
  | _ => 0

mutual

/-- How deep blocks and operands are nested in the statement. -/
def Stmt.depth : Stmt → Nat
  | .constant _ _ value => optionDepth value
  | .assign _ target value => max target.depth value.depth
  | .ifThen _ condition thenBranch elseBranch =>
    max (optionDepth condition) (max (blockDepth thenBranch + 1) (otherwiseDepth elseBranch))
  | .whileDo _ condition body => max (optionDepth condition) (blockDepth body + 1)
  | .repeatUntil _ body condition => max (blockDepth body + 1) (optionDepth condition)
  | .forLoop _ _ start stop step body =>
    max (max (optionDepth start) (max (optionDepth stop) (optionDepth step))) (blockDepth body + 1)
  | .caseOf _ selector branches otherwise =>
    max (optionDepth selector) (max (branchesDepth branches) (otherwiseDepth otherwise) + 1)
  | .routine ⟨_, _, _, _, _, body⟩ => blockDepth body + 1
  | .giveBack _ value => optionDepth value
  | .call _ _ _ arguments => exprsDepth arguments
  | .output _ values => exprsDepth values
  | .input _ target => target.depth
  | _ => 0

def blockDepth : List Stmt → Nat
  | [] => 0
  | s :: rest => max s.depth (blockDepth rest)

def otherwiseDepth : Option (List Stmt) → Nat
  | none => 0
  | some block => blockDepth block + 1

def branchesDepth : List (Branch Stmt) → Nat
  | [] => 0
  | ⟨labels, body, _⟩ :: rest => max (exprsDepth labels) (max (blockDepth body) (branchesDepth rest))

end

def Program.depth (p : Program) : Nat := blockDepth p.body

end Depth

section Operators

mutual

/-- The number of operators between two operands. -/
def Expr.operators : Expr → Nat
  | .element _ _ operands | .call _ _ operands => exprsOperators operands
  | .binary _ _ left right => left.operators + (right.operators + 1)
  | .unary _ _ operand => operand.operators
  | .range _ low high => low.operators + high.operators
  | .literal .. | .name .. | .stray .. => 0

def exprsOperators : List Expr → Nat
  | [] => 0
  | e :: rest => e.operators + exprsOperators rest

end

def optionOperators (e : Option Expr) : Nat := (e.map Expr.operators).getD 0

@[simp] theorem optionOperators_some (e : Expr) : optionOperators (some e) = e.operators := rfl

def Target.operators : Target → Nat
  | .element _ _ indices => exprsOperators indices
  | _ => 0

mutual

def Stmt.operators : Stmt → Nat
  | .constant _ _ value => optionOperators value
  | .assign _ target value => target.operators + value.operators
  | .ifThen _ condition thenBranch elseBranch =>
    optionOperators condition + (blockOperators thenBranch + otherwiseOperators elseBranch)
  | .whileDo _ condition body => optionOperators condition + blockOperators body
  | .repeatUntil _ body condition => blockOperators body + optionOperators condition
  | .forLoop _ _ start stop step body =>
    optionOperators start + (optionOperators stop + (optionOperators step + blockOperators body))
  | .caseOf _ selector branches otherwise =>
    optionOperators selector + (branchesOperators branches + otherwiseOperators otherwise)
  | .routine ⟨_, _, _, _, _, body⟩ => blockOperators body
  | .giveBack _ value => optionOperators value
  | .call _ _ _ arguments => exprsOperators arguments
  | .output _ values => exprsOperators values
  | .input _ target => target.operators
  | _ => 0

def blockOperators : List Stmt → Nat
  | [] => 0
  | s :: rest => s.operators + blockOperators rest

def otherwiseOperators : Option (List Stmt) → Nat
  | none => 0
  | some block => blockOperators block

def branchesOperators : List (Branch Stmt) → Nat
  | [] => 0
  | ⟨labels, body, _⟩ :: rest => exprsOperators labels + (blockOperators body + branchesOperators rest)

end

def Program.operators (p : Program) : Nat := blockOperators p.body

end Operators

end Pseudocode
