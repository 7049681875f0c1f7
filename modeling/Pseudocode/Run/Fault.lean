import Pseudocode.Builtin

/-! Why a run stops before its end. A fault of the program is reported with its line; a number that is
too large for its place, or an array that contains itself, is reported on the line being executed; an
engine fault is none of the program's doing. -/
namespace Pseudocode

/-- Faults of a running program. -/
inductive RunFault where
  | stepLimit
  | timeout
  | cancelled
  | stackOverflow
  | overflow
  | arrayTooLarge (name : String) (size : Int) (limit : Nat)
  | textTooLong (limit : Nat)
  | store (fault : StoreFault)
  | assignedConstant (name : String)
  | noInput
  | inputArray (name : String)
  | inputFormat (raw : String) (type : DataType)
  | inputChar (raw : String)
  | conditionType (keyword : Keyword) (type : DataType)
  | forBoundType (part : ForPart) (type : DataType)
  | zeroStep
  | returnOutside
  | undefinedFunction (name : String)
  | procedureAsValue (name : String)
  | argumentCount (name : String) (expected given : Nat)
  | referenceArgument (param callee : String)
  | referenceType (param : String) (expected : DataType) (argument : String) (given : DataType)
  | argumentStore (fault : StoreFault) (param callee : String)
  | arrayExpected (param callee : String) (given : DataType)
  | elementTypeExpected (param callee : String) (expected given : DataType)
  | missingReturn (name : String)
  | builtin (fault : BuiltinFault)
  | undeclared (name : String)
  | routineWithoutCall (name : String)
  | notArray (name : String)
  | indexType (type : DataType)
  | logicalOperand (op : String) (type : DataType)
  | nullOrder (op : BinaryOp)
  | comparison (left right : DataType) (op : BinaryOp)
  | operatorTypes (op : BinaryOp) (left right : DataType)
  | minusOperand (type : DataType)
  | divisionByZero
  deriving DecidableEq, Repr

namespace RunFault

def code : RunFault → Code
  | .stepLimit => .stepLimitExceeded
  | .timeout => .timeout
  | .cancelled => .cancelled
  | .stackOverflow => .stackOverflow
  | .overflow => .numericOverflow
  | .arrayTooLarge .. | .textTooLong _ => .memoryLimit
  | .store fault => if fault.isMismatch then .typeMismatch else .indexOutOfRange
  | .assignedConstant _ => .constantReassignment
  | .noInput => .inputExhausted
  | .zeroStep => .zeroStep
  | .returnOutside => .returnOutsideFunction
  | .undefinedFunction _ => .undefinedFunction
  | .procedureAsValue _ | .routineWithoutCall _ => .notAFunction
  | .argumentCount .. => .argumentCountMismatch
  | .referenceArgument .. => .invalidByrefArgument
  | .missingReturn _ => .missingReturn
  | .builtin _ => .runtimeError
  | .undeclared _ => .undeclaredVariable
  | .notArray _ => .notAnArray
  | .divisionByZero => .divisionByZero
  | .inputArray _ | .inputFormat .. | .inputChar _ | .conditionType .. | .forBoundType ..
  | .referenceType .. | .argumentStore .. | .arrayExpected .. | .elementTypeExpected ..
  | .indexType _ | .logicalOperand .. | .nullOrder _ | .comparison .. | .operatorTypes ..
  | .minusOperand _ => .typeMismatch

def message : RunFault → String
  | .stepLimit | .timeout => "Execution timed out"
  | .cancelled => "Execution cancelled"
  | .stackOverflow => "Stack overflow"
  | .overflow => "Numeric overflow"
  | .arrayTooLarge name size limit => s!"Array '{name}' has {size} elements; the limit is {limit}"
  | .textTooLong limit => s!"String exceeds the limit of {limit} characters"
  | .store fault => fault.message
  | .assignedConstant name => s!"Cannot assign to constant '{name}'"
  | .noInput => "No more input available"
  | .inputArray name => s!"Cannot INPUT into the whole array '{name}'"
  | .inputFormat raw type => s!"Cannot convert input '{raw}' to {type.text}"
  | .inputChar raw => s!"CHAR requires exactly one character, got '{raw}'"
  | .conditionType keyword type => s!"{keyword.text} condition must be BOOLEAN, got {type.text}"
  | .forBoundType part type => s!"FOR {part.text} value must be numeric, got {type.text}"
  | .zeroStep => "FOR loop STEP cannot be zero"
  | .returnOutside => "RETURN outside of a function or procedure"
  | .undefinedFunction name => s!"Function '{name}' is not defined"
  | .procedureAsValue name => s!"Procedure '{name}' does not return a value"
  | .argumentCount name expected given => s!"'{name}' expects {expected} argument(s), got {given}"
  | .referenceArgument param callee => s!"BYREF parameter '{param}' of '{callee}' needs a variable"
  | .referenceType param expected argument given =>
    s!"Type mismatch: BYREF parameter '{param}' is {expected.text} but '{argument}' is {given.text}"
  | .argumentStore fault param callee => s!"{fault.message} (parameter '{param}' of '{callee}')"
  | .arrayExpected param callee given =>
    s!"Type mismatch: parameter '{param}' of '{callee}' expects an ARRAY, got {given.text}"
  | .elementTypeExpected param callee expected given =>
    let wanted := s!"Type mismatch: parameter '{param}' of '{callee}' expects ARRAY OF {expected.text}"
    s!"{wanted}, got ARRAY OF {given.text}"
  | .missingReturn name => s!"Function '{name}' ended without a RETURN"
  | .builtin fault => fault.message
  | .undeclared name => s!"Variable '{name}' used before declaration"
  | .routineWithoutCall name => s!"'{name}' must be called with parentheses"
  | .notArray name => s!"'{name}' is not an array"
  | .indexType type => s!"Array index must be an INTEGER, got {type.text}"
  | .logicalOperand op type => s!"{op} requires BOOLEAN operands, got {type.text}"
  | .nullOrder op => s!"Cannot order NULL with '{op.text}'"
  | .comparison left right op =>
    s!"Cannot compare {left.text} with {right.text} using '{op.text}'"
  | .operatorTypes op left right =>
    s!"Operator '{op.text}' cannot be applied to {left.text} and {right.text}"
  | .minusOperand type => s!"Unary minus requires a numeric operand, got {type.text}"
  | .divisionByZero => "Division by zero"

end RunFault

/-- Faults that the language has no rule for. -/
inductive EngineFault where
  | noStatement (node : String)
  | noExpression (node : String)
  | unknownOperator (name : String)
  | unknownUnary (name : String)
  | nullCounter (realStep : Bool)
  | nanToInteger
  | namelessType
  | noPart (node part : String)
  deriving DecidableEq, Repr

def EngineFault.message : EngineFault → String
  | .noStatement node => s!"InternalError: No visit method for {node}"
  | .noExpression node => s!"InternalError: No evaluate method for {node}"
  | .unknownOperator name => s!"InternalError: Unknown operator {name}"
  | .unknownUnary name => s!"InternalError: Unknown unary operator {name}"
  | .nullCounter realStep =>
    let step := if realStep then "float" else "int"
    s!"TypeError: unsupported operand type(s) for +: 'NoneType' and '{step}'"
  | .nanToInteger => s!"ValueError: {NumberFault.nanToInteger.message}"
  | .namelessType => "AttributeError: 'NoneType' object has no attribute 'name'"
  | .noPart node part => s!"AttributeError: '{node}' object has no attribute '{part}'"

/-- Why a run stops. -/
inductive Stop where
  | fault (line : Nat) (fault : RunFault)
  | overflow
  | endless
  | engine (fault : EngineFault)
  deriving DecidableEq, Repr

end Pseudocode
