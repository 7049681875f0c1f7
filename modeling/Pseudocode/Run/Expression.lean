import Pseudocode.Run.State

/-! Values of expressions. Operands are evaluated from left to right; AND and OR leave out the right
one when the left decides. A call evaluates its arguments in the environment of the caller, then the
body of the routine in a frame of its own on top of the global one. How a body is run is a parameter
here, so an expression is evaluated by recursion on its structure alone. -/
namespace Pseudocode

/-- How a statement ends: it goes on to the next, or leaves the routine with a value. -/
inductive Completion where
  | normal
  | returned (value : Value) (line : Nat)
  deriving DecidableEq, Repr

/-- Runs the body of a routine, called on a line, with its parameters bound in order. -/
abbrev Enter := (line : Nat) → Routine Stmt → List BindingId → Run Completion

/-- Whether a comparison holds for two values in this order; unordered values only differ. -/
def BinaryOp.holds (op : BinaryOp) (order : Option Ordering) : Bool :=
  match op with
  | .equal => order == some .eq
  | .notEqual => order != some .eq
  | .less => order == some .lt
  | .greater => order == some .gt
  | .lessEqual => order == some .lt || order == some .eq
  | .greaterEqual => order == some .gt || order == some .eq
  | _ => false

/-- The order of two texts, by the codes of their characters. -/
def compareText (s t : String) : Ordering := if s < t then .lt else if s = t then .eq else .gt

/-- Compares two values. NULL equals only itself, truth values are equal or not, numbers and texts are
ordered among themselves. -/
def compareValues (op : BinaryOp) (left right : Value) : Except RunFault Bool :=
  if left = .null ∨ right = .null then
    if op.isEquality then .ok (op.holds (if left = right then some .eq else none))
    else .error (.nullOrder op)
  else
    match left.number?, right.number?, left.text?, right.text?, left, right with
    | some m, some n, _, _, _, _ => .ok (op.holds (m.compare? n))
    | _, _, some s, some t, _, _ => .ok (op.holds (some (compareText s t)))
    | _, _, _, _, .boolean a, .boolean b =>
      if op.isEquality then .ok (op.holds (if a = b then some .eq else none))
      else .error (.comparison .boolean .boolean op)
    | _, _, _, _, _, _ => .error (.comparison left.type right.type op)

namespace Run

def ofNumberFault (line : Nat) : NumberFault → Stop
  | .overflow _ => .fault line .overflow
  | .nanToInteger => .engine .nanToInteger

def liftNumber (line : Nat) (result : Except NumberFault Number) : Run Value :=
  match result with
  | .ok n => return .ofNumber n
  | .error fault => throw (ofNumberFault line fault)

def liftOverflow (line : Nat) (result : Except Overflow Number) : Run Value :=
  liftNumber line (result.mapError .overflow)

/-- Two texts one after the other. -/
def joinText (ctx : RunContext) (line : Nat) (s t : String) : Run Value := do
  checkLength ctx line (s.length + t.length)
  return .string (s ++ t)

/-- An operator on numbers; `+` also joins texts. -/
def arithmetic (ctx : RunContext) (line : Nat) (op : BinaryOp) (left right : Value) : Run Value :=
  match op, left.text?, right.text? with
  | .plus, some s, some t => joinText ctx line s t
  | _, _, _ =>
    match left.number?, right.number? with
    | some m, some n =>
      match op with
      | .plus => liftOverflow line (m.add n)
      | .minus => liftOverflow line (m.sub n)
      | .times => liftOverflow line (m.mul n)
      | _ =>
        if n.isZero then stop line .divisionByZero
        else
          match op with
          | .divide => liftOverflow line ((m.divide n).map .real)
          | .div => liftNumber line ((m.quotient n).map .integer)
          | .mod => liftNumber line (m.remainder n)
          | _ => throw (.engine (.unknownOperator op.text))
    | _, _ => stop line (.operatorTypes op left.type right.type)

/-- `&` joins the texts of any two values; a number without a text is an overflow of the operator. -/
def join (ctx : RunContext) (line : Nat) (left right : Value) : Run Value := fun s =>
  match (do joinText ctx line (← shown ctx line left) (← shown ctx line right) : Run Value) s with
  | .error .overflow s => .error (.fault line .overflow) s
  | result => result

def binary (ctx : RunContext) (line : Nat) (op : BinaryOp) (left right : Value) : Run Value :=
  if op.isComparison then
    match compareValues op left right with
    | .ok b => return .boolean b
    | .error fault => stop line fault
  else if op = .join then join ctx line left right
  else arithmetic ctx line op left right

/-- An operand of a logical operator. -/
def truth (op : String) (line : Nat) : Value → Run Bool
  | .boolean b => return b
  | value => stop line (.logicalOperand op value.type)

def unary (line : Nat) (op : UnaryOp) (value : Value) : Run Value :=
  match op with
  | .minus =>
    match value.number? with
    | some n => return .ofNumber n.neg
    | none => stop line (.minusOperand value.type)
  | .not => return .boolean !(← truth op.text line value)
  | .unknown name => throw (.engine (.unknownUnary name))

def nameValue (ctx : RunContext) (line : Nat) (name : String) : Run Value := do
  match ← lookup name with
  | some binding => return binding.value
  | none =>
    if (ctx.routine? name).isSome then stop line (.routineWithoutCall name)
    else stop line (.undeclared name)

/-- An index must be an INTEGER. -/
def indexValue (line : Nat) : Value → Run Int
  | .integer n => return n
  | value => stop line (.indexType value.type)

def elementValue (line : Nat) (id : ArrayId) (indices : List Int) : Run Value := do
  let memory := (← get).memory
  match (memory.arrays[id]?).map (fun (cell : ArrayCell) => cell.get indices) with
  | some (.ok value) => return value
  | some (.error fault) => storeFailed line .store fault
  | none => return .null

/-- A binding of its own for a value that is stored under a type; `report` words a failure. -/
def storeFresh (line : Nat) (declared : Option DataType) (value : Value)
    (report : StoreFault → RunFault) : Run BindingId := do
  match (← get).memory.accept ⟨.null, declared, false⟩ value with
  | .ok kept => withMemory (·.addBinding ⟨kept, declared, false⟩)
  | .error fault => storeFailed line report fault

/-- The binding of a BYREF argument, shared with the caller. -/
def bindReference (line : Nat) (callee : String) (param : Param) (argument : Expr) : Run BindingId :=
  match argument with
  | .name _ name => do
    match ← findBinding name with
    | none => stop line (.undeclared name)
    | some id =>
      match DataType.ofName? param.typeName, ((← get).memory.binding? id).bind (·.declared) with
      | some expected, some given =>
        if given = expected then return id
        else stop line (.referenceType param.name expected name given)
      | _, _ => return id
  | _ => stop line (.referenceArgument param.name callee)

/-- A value for an ARRAY parameter must be an array with the right elements. -/
def checkArrayArgument (line : Nat) (callee : String) (param : Param) (value : Value) : Run Unit := do
  match value with
  | .null => return
  | .array id =>
    let memory := (← get).memory
    match param.elementType.bind DataType.ofName?, (memory.arrays[id]?).map ArrayCell.elementType with
    | some expected, some (some given) =>
      if given = expected then return
      else stop line (.elementTypeExpected param.name callee expected given)
    | some _, some none => throw (.engine .namelessType)
    | _, _ => return
  | _ => stop line (.arrayExpected param.name callee value.type)

/-- The binding of a BYVAL argument, which holds a copy of an array for an ARRAY parameter. -/
def bindValue (line : Nat) (callee : String) (param : Param) (value : Value) : Run BindingId := do
  match DataType.ofName? param.typeName with
  | some .array =>
    checkArrayArgument line callee param value
    withMemory fun memory =>
      let (copy, memory) := memory.copyValue value
      memory.addBinding ⟨copy, some .array, false⟩
  | declared => storeFresh line declared value fun fault => .argumentStore fault param.name callee

/-- The binding of one argument; the value of a BYREF argument is not asked for. -/
def bindArgument (line : Nat) (callee : String) (param : Param) (argument : Expr)
    (value : Run Value) : Run BindingId :=
  match param.mode with
  | .byReference => bindReference line callee param argument
  | .byValue => do bindValue line callee param (← value)

/-- The result of a built-in function; the random numbers move on even if it fails. -/
def callBuiltin (line : Nat) (name : String) (arguments : List Value) : Run Value := do
  let result ← modifyGet fun s =>
    let (result, random) := Builtin.call name arguments s.random
    (result, { s with random })
  match result with
  | .ok value => return value
  | .error (.arithmetic fault) => throw (ofNumberFault line fault)
  | .error fault => stop line (.builtin fault)

/-- The value that a routine answers with, converted to its result type. -/
def resultOf (line : Nat) (r : Routine Stmt) (name : String) : Completion → Run Value
  | completion =>
    match r.kind, completion with
    | .procedure, _ => return .null
    | .function, .normal => stop line (.missingReturn name)
    | .function, .returned value returnLine => do
      let declared := r.returns.bind DataType.ofName?
      match (← get).memory.accept ⟨.null, declared, false⟩ value with
      | .ok kept => return kept
      | .error fault => storeFailed returnLine .store fault

/-- Calls a routine or a built-in function. `plain` evaluates the arguments, `bound` binds them to
parameters. -/
def call (ctx : RunContext) (enter : Enter) (asValue : Bool) (line : Nat) (callee : String)
    (count : Nat) (plain : Run (List Value)) (bound : List Param → Run (List BindingId)) :
    Run Value := do
  match ctx.routine? callee with
  | none =>
    if (Builtin.ofName? callee).isSome then callBuiltin line callee (← plain)
    else stop line (.undefinedFunction callee)
  | some r =>
    if asValue ∧ r.kind = .procedure then stop line (.procedureAsValue callee)
    if count ≠ r.params.length then stop line (.argumentCount callee r.params.length count)
    let bindings ← bound r.params
    resultOf line r callee (← enter line r bindings)

mutual

def eval (ctx : RunContext) (enter : Enter) : Expr → Run Value
  | .literal _ value => return .ofLiteral value
  | .name position name => nameValue ctx position.line name
  | .element position array indices => do
    let id ← arrayNamed position.line array
    elementValue position.line id (← evalIndices ctx enter position.line indices)
  | .binary position op left right => do
    if op.isLogical then
      let l ← truth op.text position.line (← eval ctx enter left)
      if l = (op = .or) then return .boolean l
      else return .boolean (← truth op.text position.line (← eval ctx enter right))
    else
      let l ← eval ctx enter left
      let r ← eval ctx enter right
      binary ctx position.line op l r
  | .unary position op operand => do unary position.line op (← eval ctx enter operand)
  | .call position callee arguments =>
    call ctx enter true position.line callee arguments.length (evalAll ctx enter arguments)
      fun params => bindArguments ctx enter position.line callee params arguments
  | .range .. => throw (.engine (.noExpression "RangeExpr"))
  | .stray _ node => throw (.engine (.noExpression node))

def evalAll (ctx : RunContext) (enter : Enter) : List Expr → Run (List Value)
  | [] => return []
  | e :: rest => do
    let first ← eval ctx enter e
    return first :: (← evalAll ctx enter rest)

def evalIndices (ctx : RunContext) (enter : Enter) (line : Nat) : List Expr → Run (List Int)
  | [] => return []
  | e :: rest => do
    let first ← indexValue line (← eval ctx enter e)
    return first :: (← evalIndices ctx enter line rest)

/-- Bindings for arguments, one parameter after the other. -/
def bindArguments (ctx : RunContext) (enter : Enter) (line : Nat) (callee : String) :
    List Param → List Expr → Run (List BindingId)
  | param :: params, argument :: rest => do
    let first ← bindArgument line callee param argument (eval ctx enter argument)
    return first :: (← bindArguments ctx enter line callee params rest)
  | _, _ => return []

end

/-- The value of an expression that may be missing. -/
def evalPresent (ctx : RunContext) (enter : Enter) : Option Expr → Run Value
  | none => throw (.engine (.noExpression missingNode))
  | some e => eval ctx enter e

end Run

end Pseudocode
