import Pseudocode.Check.Expression
import Pseudocode.Check.LateGlobals

/-! Checking statements and whole programs. Routines are registered first, so that a call may stand
before the declaration; then the main program is checked, then the body of each routine against the
global names that the main program leaves. -/
namespace Pseudocode

mutual

/-- Whether every path through a statement ends in RETURN. -/
def Stmt.terminates : Stmt → Bool
  | .giveBack .. => true
  | .ifThen _ _ thenBranch elseBranch =>
    blockTerminates thenBranch && otherwiseTerminates elseBranch
  | .caseOf _ _ branches otherwise => branchesTerminate branches && otherwiseTerminates otherwise
  | _ => false

/-- Whether some statement of a list ends every path in RETURN. -/
def blockTerminates : List Stmt → Bool
  | [] => false
  | s :: rest => s.terminates || blockTerminates rest

/-- Whether there is a block for all other cases that ends every path in RETURN. -/
def otherwiseTerminates : Option (List Stmt) → Bool
  | none => false
  | some block => blockTerminates block

def branchesTerminate : List (Branch Stmt) → Bool
  | [] => true
  | ⟨_, body, _⟩ :: rest => blockTerminates body && branchesTerminate rest

end

/-- What makes two labels of a CASE statement the same. -/
inductive LabelKey where
  | value (category : String) (value : Value)
  | range (low high : Value)
  deriving DecidableEq, Repr

def LabelKey.same : LabelKey → LabelKey → Bool
  | .value c v, .value d w => c == d && v.sameScalar w
  | .range a b, .range c d => a.sameScalar c && b.sameScalar d
  | _, _ => false

namespace Check

def incomplete (position : Position) (what : String) : Check Unit :=
  report position (.incomplete what)

def checkDeclaration (position : Position) (name typeName : String) : Check Unit := do
  let type ← namedType position typeName
  discard <| declare position { name, kind := .variable, type, line := position.line }

def checkArrayDeclaration (limit : Int) (position : Position) (name : String) (bounds : List Bound)
    (elementType : String) : Check Unit := do
  bounds.forM fun b => do
    if b.upper < b.lower then report position (.reversedBounds b name)
  let size := ArrayCell.elementCount bounds
  if bounds.all (fun b => b.lower ≤ b.upper) ∧ limit < size then
    report position (.arrayTooLarge name size limit)
  let elementType ← namedType position elementType
  discard <| declare position
    { name, kind := .array, type := some .array, line := position.line, elementType,
      bounds := some bounds }

def checkConstant (position : Position) (name : String) (value : Option Expr) : Check Unit := do
  let inferred ← match value with
    | none => pure Inferred.unknown
    | some e => infer e
  discard <| declare position
    { name, kind := .constant, type := inferred.type, line := position.line,
      constantValue := inferred.literal }

def checkTargetElement (position : Position) (array : String) (indices : List Expr) :
    Check (Option DataType) := do
  let inferred ← inferAll indices
  checkElement position array ((indices.map Expr.position).zip inferred) false

/-- A name that is stored into without a declaration is declared by it. -/
def declareImplicitly (position : Position) (name : String) : Check Unit :=
  discard <| declare position { name, kind := .variable, line := position.line }

def checkAssignment (position : Position) (target : Target) (value : Expr) : Check Unit := do
  let value ← infer value
  match target with
  | .element place array indices =>
    let type ← checkTargetElement place array indices
    checkAssignable position type value s!"element of '{array}'" none
  | .stray _ node => throw (.noPart node "name")
  | .variable _ name =>
    match ← lookup name with
    | none => declareImplicitly position name
    | some ⟨symbol, _⟩ =>
      if symbol.kind = .constant then report position (.assignedConstant name)
      else if symbol.kind.isRoutine then report position (.assignedRoutine symbol.kind name)
      else checkAssignable position symbol.type value s!"'{name}'" (some symbol)

def checkInput (position : Position) (target : Target) : Check Unit := do
  match target with
  | .element place array indices => discard <| checkTargetElement place array indices
  | .stray _ node => throw (.noPart node "name")
  | .variable _ name =>
    match ← lookup name with
    | none => declareImplicitly position name
    | some ⟨symbol, _⟩ =>
      if symbol.kind = .constant then report position (.inputConstant name)
      else if symbol.type = some .array then report position (.inputArray name)
      else if symbol.kind.isRoutine then report position (.inputRoutine symbol.kind name)

/-- A condition must be BOOLEAN; a condition without a line is reported on that of its statement. -/
def checkCondition (position : Position) (keyword : Keyword) (condition : Option Expr) :
    Check Unit := do
  match condition with
  | none => incomplete position keyword.text
  | some e =>
    match (← infer e).type with
    | none | some .boolean => return
    | some type =>
      let line := if e.line = 0 then position.line else e.line
      report ⟨line, e.position.column⟩ (.conditionType keyword type)

def isZeroLiteral (value : Inferred) : Bool :=
  value.literal.any fun literal => (Value.ofLiteral literal).sameScalar (.integer 0)

/-- A bound of a FOR loop; answers its type. -/
def checkForBound (part : ForPart) (e : Expr) : Check (Option DataType) := do
  let value ← infer e
  match value.type with
  | none => pure ()
  | some type => if !type.isNumeric then report e.position (.forBoundType part type)
  if part = .step ∧ isZeroLiteral value then report e.position .zeroStep
  return value.type

/-- The labels of a CASE statement must be of the kind of its selector. -/
def checkLabelType (position : Position) (label selector : Inferred) : Check Unit :=
  match label.type, selector.type with
  | some l, some s =>
    if l.category ≠ s.category then report position (.labelType l s) else return
  | _, _ => return

/-- Checks a label; answers its key if it is known by value. -/
def checkLabel (selector : Inferred) (label : Expr) : Check (Option LabelKey) := do
  match label with
  | .range position low high =>
    let low ← infer low
    let high ← infer high
    checkLabelType position low selector
    checkLabelType position high selector
    match low.literal, high.literal with
    | some a, some b => return some (.range (.ofLiteral a) (.ofLiteral b))
    | _, _ => return none
  | _ =>
    let value ← infer label
    checkLabelType label.position value selector
    match value.literal, value.type with
    | some literal, some type => return some (.value type.category (.ofLiteral literal))
    | _, _ => return none

/-- Checks the labels of a branch, given the keys of earlier labels with their lines. -/
def checkLabels (selector : Inferred) (line : Nat) :
    List Expr → List (LabelKey × Nat) → Check (List (LabelKey × Nat))
  | [], seen => return seen
  | label :: rest, seen => do
    match ← checkLabel selector label with
    | none => checkLabels selector line rest seen
    | some key =>
      match seen.find? fun (other, _) => other.same key with
      | some (_, first) =>
        let shown := if line = 0 then label.line else line
        report ⟨shown, label.position.column⟩ (.duplicateLabel first)
        checkLabels selector line rest seen
      | none => checkLabels selector line rest (seen ++ [(key, line)])

def checkReturn (position : Position) (value : Option Expr) : Check Unit := do
  let value ← match value with
    | none => pure none
    | some e => some <$> infer e
  match (← get).routine, value with
  | none, _ => report position .returnOutside
  | some routine, none =>
    if routine.kind = .function then report position (.functionWithoutValue routine.name)
  | some routine, some value =>
    if routine.kind = .procedure then report position (.procedureValue routine.name)
    else checkAssignable position routine.type value s!"return value of '{routine.name}'" none

/-- Reports a statement that cannot be reached. -/
def reportUnreachable (s : Stmt) : Check Unit :=
  if s.isMissing then throw (.noPart missingNode "line") else report s.position .unreachable

/-- How far a block can be reached: still, not any more, or not any more and reported. -/
inductive Reach where
  | live
  | ended
  | reported
  deriving DecidableEq

mutual

def checkStatement (limit : Int) : Stmt → Check Unit
  | .declare position name typeName => checkDeclaration position name typeName
  | .declareArray position name bounds elementType =>
    checkArrayDeclaration limit position name bounds elementType
  | .constant position name value => checkConstant position name value
  | .assign position target value => checkAssignment position target value
  | .ifThen position condition thenBranch elseBranch => do
    checkCondition position .IF condition
    checkBlock limit .live thenBranch
    checkOtherwise limit elseBranch
  | .whileDo position condition body => do
    checkCondition position .WHILE condition
    checkBlock limit .live body
  | .repeatUntil position body condition => do
    checkBlock limit .live body
    checkCondition position .UNTIL condition
  | .forLoop position counter start stop step body => do
    match counter, start, stop with
    | some counter, some start, some stop =>
      let startType ← checkForBound .start start
      discard <| checkForBound .stop stop
      let stepType ← match step with
        | none => pure none
        | some step => checkForBound .step step
      let type := if startType = some .real ∨ stepType = some .real then .real else .integer
      enterScope
      discard <| declare position
        { name := counter, kind := .variable, type := some type, line := position.line, used := true }
    | _, _, _ =>
      incomplete position Keyword.FOR.text
      enterScope
    checkBlock limit .live body
    leaveScope
  | .caseOf position selector branches otherwise => do
    let selector ← match selector with
      | none => do
        incomplete position Keyword.CASE.text
        pure Inferred.unknown
      | some e => infer e
    checkBranches limit selector [] branches
    checkOtherwise limit otherwise
  | .routine r => if r.name.isNone then incomplete r.position r.kind.keyword else return
  | .giveBack position value => checkReturn position value
  | .call _ position callee arguments =>
    discard <| checkCall false position callee arguments.length (inferAll arguments)
      fun params => inferArguments callee 1 params arguments
  | .strayCall _ node => throw (.noPart node "callee")
  | .output _ values => discard <| inferAll values
  | .input position target => checkInput position target
  | .stray _ node => throw (.noRule node)

/-- Checks statements in order; the first that cannot be reached is reported. -/
def checkBlock (limit : Int) : Reach → List Stmt → Check Unit
  | _, [] => return
  | reach, s :: rest => do
    if reach = .ended then reportUnreachable s
    let reach := if reach = .ended then .reported else reach
    checkStatement limit s
    checkBlock limit (if reach = .live ∧ s.terminates then .ended else reach) rest

/-- Checks the block that runs when no other does, if there is one. -/
def checkOtherwise (limit : Int) : Option (List Stmt) → Check Unit
  | none => return
  | some block => checkBlock limit .live block

def checkBranches (limit : Int) (selector : Inferred) (seen : List (LabelKey × Nat)) :
    List (Branch Stmt) → Check Unit
  | [] => return
  | ⟨labels, body, line⟩ :: rest => do
    let seen ← checkLabels selector line labels seen
    checkBlock limit .live body
    checkBranches limit selector seen rest

end

/-- Declares a routine in the global scope; answers its symbol if the name was free. -/
def register (r : Routine Stmt) : Check (Option Symbol) := do
  match r.name with
  | none => return none
  | some name =>
    let type ← match r.kind with
      | .function => optionalType r.position r.returns
      | .procedure => pure none
    let symbol : Symbol :=
      { name, kind := .ofRoutine r.kind, type, line := r.position.line, params := r.params,
        used := true }
    return if ← declare r.position symbol then some symbol else none

def checkParam (position : Position) (p : Param) : Check Unit := do
  let type ← namedType position p.typeName
  let elementType ← optionalType position p.elementType
  discard <| declare position
    { name := p.name, kind := .parameter, type, line := position.line, elementType, used := true }

/-- Checks the body of a routine in a scope of its own. A routine that could not be registered is
checked all the same, with nothing known of its result. -/
def checkRoutine (limit : Int) (r : Routine Stmt) (registered : Option Symbol) : Check Unit := do
  let symbol := registered.getD
    { name := r.name.getD "?", kind := .ofRoutine r.kind, line := r.position.line,
      params := r.params }
  modify fun s => { s with routine := some symbol }
  enterScope
  r.params.forM (checkParam r.position)
  checkBlock limit .live r.body
  if symbol.kind = .function ∧ !blockTerminates r.body then
    report r.position (.missingReturn symbol.name)
  leaveScope
  modify fun s => { s with routine := none }

def checkProgram (limit : Int) (p : Program) : Check Unit := do
  let registered ← p.routines.mapM register
  checkBlock limit .live p.body
  (p.routines.zip registered).forM fun (r, symbol) => checkRoutine limit r symbol
  reportLateGlobals
  reportUnused (← get).symbols.globals

end Check

/-- What a check of a program has found, in the order found. -/
structure Review where
  reports : List Report

namespace Review

/-- Checks a program whose arrays may have at most `limit` elements. -/
def ofProgram (limit : Int) (p : Program) : Except CheckFault Review :=
  match (Check.checkProgram limit p).run .initial with
  | .ok _ s => .ok ⟨s.reports.toList⟩
  | .error fault _ => .error fault

def errors (r : Review) : List Diagnostic :=
  (r.reports.map Report.diagnostic).filter Diagnostic.isError

def warnings (r : Review) : List Diagnostic :=
  (r.reports.map Report.diagnostic).filter fun d => !d.isError

end Review

end Pseudocode
