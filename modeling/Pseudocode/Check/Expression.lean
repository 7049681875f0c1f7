import Pseudocode.Builtin
import Pseudocode.Check.Basic

/-! Types of expressions. A type that cannot be known is `none` and is never complained about. A
literal, or a constant with a literal value, is known by value; the name of an array carries its
symbol, so that two arrays can be compared in shape. -/
namespace Pseudocode

/-- What is known of the value of an expression. -/
structure Inferred where
  type : Option DataType
  literal : Option Literal := none
  array : Option Symbol := none

namespace Inferred

def unknown : Inferred := { type := none }

def of (type : DataType) : Inferred := { type := some type }

end Inferred

/-- Types whose values always fit another type. -/
def DataType.widensTo (source target : DataType) : Bool :=
  match source, target with
  | .integer, .real | .char, .string => true
  | _, _ => false

/-- Types some of whose values fit another type. -/
def DataType.narrowsTo (source target : DataType) : Bool :=
  match source, target with
  | .real, .integer | .string, .char => true
  | _, _ => false

/-- Whether values of one type can be stored under another: always, for some values, or never. -/
inductive Fit where
  | always
  | sometimes (source target : DataType)
  | never (source target : DataType)
  deriving DecidableEq, Repr

/-- How a value fits a type; of a literal the value itself decides. -/
def Inferred.fit (value : Inferred) (target : Option DataType) : Fit :=
  match target, value.type with
  | none, _ | _, none => .always
  | some target, some source =>
    if source = .null ∨ source = target ∨ source.widensTo target then .always
    else
      match value.literal with
      | some literal =>
        match (Value.ofLiteral literal).coerce (some target) with
        | .ok _ => .always
        | .error _ => .never source target
      | none => if source.narrowsTo target then .sometimes source target else .never source target

namespace Check

/-- Two arrays assigned to each other must agree in shape and element type where both are known. -/
def checkShapes (position : Position) (target source : Symbol) (what : String) : Check Unit :=
  match target.bounds, source.bounds with
  | some targetBounds, some sourceBounds => do
    if targetBounds.map Bound.extent ≠ sourceBounds.map Bound.extent ∨
        target.elementType ≠ source.elementType then
      report position (.arrayShape source.name what)
  | _, _ => return

/-- Checks that a value can be stored in `what`, which has type `target`; `holder` is the symbol of a
variable that is assigned as a whole. -/
def checkAssignable (position : Position) (target : Option DataType) (value : Inferred)
    (what : String) (holder : Option Symbol) : Check Unit :=
  match value.fit target with
  | .sometimes source target => report position (.possibleMismatch source target what)
  | .never source target => report position (.notAssignable source target what)
  | .always =>
    match value.type, holder, value.array with
    | some .array, some holder, some source => checkShapes position holder source what
    | _, _, _ => return

/-- The value of a name that is read. -/
def inferName (position : Position) (name : String) : Check Inferred := do
  match ← lookup name with
  | none =>
    report position (.undeclared name)
    return .unknown
  | some found =>
    noteRead position found
    let symbol := found.symbol
    if symbol.kind.isRoutine then
      report position (.routineWithoutCall name symbol.kind)
      return .unknown
    else
      match symbol.kind, symbol.constantValue with
      | .constant, some .null => return { type := symbol.type }
      | .constant, some value => return { type := symbol.type, literal := some value }
      | _, _ =>
        if symbol.type = some .array then return { type := some .array, array := some symbol }
        else return { type := symbol.type }

/-- Checks one index of an array against the bound of its dimension. -/
def checkIndex (array : String) (position : Position) (index : Inferred) (bound : Bound) :
    Check Unit :=
  match index.type with
  | none => return
  | some .integer =>
    match index.literal with
    | some (.integer n) => do
      if n < bound.lower ∨ bound.upper < n then report position (.indexOutside n bound array)
    | _ => return
  | some type =>
    if index.literal.isSome ∨ type ≠ .real then report position (.indexType type)
    else report position .realIndex

/-- Checks an array element, whose indices were inferred, and gives its type. -/
def checkElement (position : Position) (array : String) (indices : List (Position × Inferred))
    (reading : Bool) : Check (Option DataType) := do
  match ← lookup array with
  | none =>
    report position (.undeclared array)
    return none
  | some found =>
    if reading then noteRead position found
    let symbol := found.symbol
    match symbol.type with
    | none => return none
    | some .array =>
      if symbol.kind = .parameter then return symbol.elementType
      match symbol.bounds with
      | none => throw .unknownBounds
      | some bounds =>
        if indices.length ≠ bounds.length then
          report position (.indexCount array bounds.length indices.length)
        else
          (indices.zip bounds).forM fun ((place, index), bound) => checkIndex array place index bound
        return symbol.elementType
    | some _ =>
      report position (.notArray array)
      return none

def inferUnary (position : Position) (op : UnaryOp) (operand : Inferred) : Check Inferred :=
  match op, operand.type with
  | .not, none | .not, some .null | .not, some .boolean => return .of .boolean
  | .not, some type => do
    report position (.notOperand type)
    return .of .boolean
  | _, none | _, some .null => return .unknown
  | _, some type => do
    if type.isNumeric then return .of type
    else
      report position (.minusOperand type)
      return .unknown

def checkComparison (position : Position) (op : BinaryOp) (left right : Option DataType) :
    Check Unit :=
  match left, right with
  | some left, some right =>
    if left = .null ∨ right = .null then
      if op.isEquality then return else report position (.nullOrder op)
    else if left = .array ∨ right = .array then report position .arrayComparison
    else if left.category ≠ right.category then report position (.comparison left right)
    else if left = .boolean ∧ !op.isEquality then report position (.booleanOrder op)
    else return
  | _, _ => return

def inferArithmetic (position : Position) (op : BinaryOp) (left right : Option DataType) :
    Check Inferred :=
  match left, right with
  | some left, some right =>
    if op = .plus ∧ left.isText ∧ right.isText then return .of .string
    else if !left.isNumeric || !right.isNumeric then do
      report position (.operatorTypes op left right)
      return .unknown
    else if op = .divide then return .of .real
    else if op = .div then return .of .integer
    else if left = .integer ∧ right = .integer then return .of .integer
    else return .of .real
  | _, _ => return if op = .divide then .of .real else .unknown

def checkLogical (position : Position) (op : BinaryOp) (side : Option DataType) : Check Unit :=
  match side with
  | none | some .boolean => return
  | some type => report position (.logicalOperand op type)

def inferBinary (position : Position) (op : BinaryOp) (left right : Option DataType) :
    Check Inferred :=
  if op = .join then return .of .string
  else if op.isLogical then do
    checkLogical position op left
    checkLogical position op right
    return .of .boolean
  else if op.isComparison then do
    checkComparison position op left right
    return .of .boolean
  else inferArithmetic position op left right

/-- A BYREF argument must be a name. -/
def checkReference (callee : String) (number : Nat) (param : Param) (argument : Expr) : Check Unit :=
  match param.mode, argument with
  | .byValue, _ | _, .name .. => return
  | .byReference, _ =>
    if argument.isMissing then throw (.noPart missingNode "line")
    else report argument.position (.referenceArgument number callee)

/-- Checks the value of an argument against its parameter. -/
def checkArgument (callee : String) (param : Param) (position : Position) (value : Inferred) :
    Check Unit :=
  let what := s!"parameter '{param.name}' of '{callee}'"
  let type := DataType.ofName? param.typeName
  if type = some .array then
    match value.type with
    | none | some .array | some .null =>
      match value.array, param.elementType with
      | some array, some elementName =>
        match DataType.ofName? elementName, array.elementType with
        | some expected, some given =>
          if given ≠ expected then report position (.elementTypeExpected what elementName)
          else return
        | _, _ => return
      | _, _ => return
    | some given => report position (.arrayExpected what given)
  else if value.type = some .array then
    if type.isSome then report position (.arrayArgument what) else return
  else checkAssignable position type value what none

def checkCount (position : Position) (kind : SymbolKind) (callee : String) (expected given : Nat) :
    Check Unit := do
  if expected ≠ given then report position (.argumentCount kind callee expected given)

/-- Checks a call and gives the type of its result. `plain` infers the arguments by themselves,
`matched` against parameters. -/
def checkCall (asValue : Bool) (position : Position) (callee : String) (count : Nat)
    (plain : Check (List Inferred)) (matched : List Param → Check Unit) :
    Check (Option DataType) := do
  match ← lookup callee with
  | none =>
    discard plain
    match Builtin.ofName? callee with
    | some f =>
      checkCount position .function callee f.arity count
      return f.returns
    | none =>
      report position (.undefinedFunction callee)
      return none
  | some ⟨symbol, _⟩ =>
    if symbol.kind.isRoutine then
      noteCall callee position.line
      if asValue ∧ symbol.kind = .procedure then report position (.procedureAsValue callee)
      checkCount position symbol.kind callee symbol.params.length count
      matched symbol.params
      return symbol.type
    else
      discard plain
      report position (.notRoutine callee)
      return none

mutual

/-- The type of an expression, with everything that is wrong in it reported. -/
def infer : Expr → Check Inferred
  | .literal _ value => return { type := some (Value.ofLiteral value).type, literal := some value }
  | .name position name => inferName position name
  | .element position array indices => do
    let inferred ← inferAll indices
    return { type := ← checkElement position array ((indices.map Expr.position).zip inferred) true }
  | .unary position op operand => do inferUnary position op (← infer operand)
  | .binary position op left right => do
    let l ← infer left
    let r ← infer right
    inferBinary position op l.type r.type
  | .call position callee arguments => do
    let type ← checkCall true position callee arguments.length (inferAll arguments)
      fun params => inferArguments callee 1 params arguments
    return { type }
  | .range .. => throw (.noRule "RangeExpr")
  | .stray _ node => throw (.noRule node)

def inferAll : List Expr → Check (List Inferred)
  | [] => return []
  | e :: rest => do
    let first ← infer e
    return first :: (← inferAll rest)

/-- Arguments against parameters, from argument `number` on; arguments without a parameter are
inferred by themselves. -/
def inferArguments (callee : String) : (number : Nat) → List Param → List Expr → Check Unit
  | _, _, [] => return
  | number, [], argument :: rest => do
    discard <| infer argument
    inferArguments callee number [] rest
  | number, param :: params, argument :: rest => do
    checkReference callee number param argument
    checkArgument callee param argument.position (← infer argument)
    inferArguments callee (number + 1) params rest

end

end Check

end Pseudocode
