import Pseudocode.Diagnostic
import Pseudocode.Program
import Pseudocode.Symbol

/-! Findings: what a check of a program can report, as causes. Each finding is an error or a warning,
has a code, and its wording is in `message`. -/
namespace Pseudocode

inductive Finding where
  | unsupportedType (name : String)
  | unknownType (name : String)
  | redeclaredIdentifier (name : String) (line : Nat)
  | redeclaredVariable (name : String) (line : Nat)
  | reversedBounds (bound : Bound) (name : String)
  | arrayTooLarge (name : String) (size : Int) (limit : Int)
  | assignedConstant (name : String)
  | assignedRoutine (kind : SymbolKind) (name : String)
  | notAssignable (source target : DataType) (what : String)
  | arrayShape (source : String) (what : String)
  | conditionType (keyword : Keyword) (type : DataType)
  | forBoundType (part : ForPart) (type : DataType)
  | zeroStep
  | labelType (label selector : DataType)
  | procedureValue (name : String)
  | functionWithoutValue (name : String)
  | inputConstant (name : String)
  | inputArray (name : String)
  | inputRoutine (kind : SymbolKind) (name : String)
  | undeclared (name : String)
  | routineWithoutCall (name : String) (kind : SymbolKind)
  | notArray (name : String)
  | indexCount (name : String) (dimensions given : Nat)
  | indexType (type : DataType)
  | notOperand (type : DataType)
  | minusOperand (type : DataType)
  | logicalOperand (op : BinaryOp) (type : DataType)
  | nullOrder (op : BinaryOp)
  | arrayComparison
  | comparison (left right : DataType)
  | booleanOrder (op : BinaryOp)
  | operatorTypes (op : BinaryOp) (left right : DataType)
  | undefinedFunction (name : String)
  | notRoutine (name : String)
  | procedureAsValue (name : String)
  | argumentCount (kind : SymbolKind) (name : String) (expected given : Nat)
  | referenceArgument (position : Nat) (callee : String)
  | arrayExpected (what : String) (type : DataType)
  | elementTypeExpected (what elementType : String)
  | arrayArgument (what : String)
  | naming (name : String)
  | unreachable
  | incomplete (what : String)
  | possibleMismatch (source target : DataType) (what : String)
  | duplicateLabel (line : Nat)
  | missingReturn (name : String)
  | returnOutside
  | unused (name : String)
  | lateGlobal (name : String) (line : Nat) (routine : String) (callLine : Nat)
  | indexOutside (index : Int) (bound : Bound) (name : String)
  | realIndex
  deriving DecidableEq, Repr

namespace Finding

def severity : Finding → Severity
  | .naming _ | .unreachable | .incomplete _ | .possibleMismatch .. | .duplicateLabel _
  | .missingReturn _ | .returnOutside | .unused _ | .lateGlobal .. | .indexOutside .. | .realIndex =>
    .warning
  | _ => .error

def code : Finding → Code
  | .unsupportedType _ => .unsupportedType
  | .unknownType _ => .unknownType
  | .redeclaredIdentifier .. => .redeclaredIdentifier
  | .redeclaredVariable .. => .redeclaredVariable
  | .reversedBounds .. | .arrayTooLarge .. => .invalidArrayBounds
  | .assignedConstant _ | .inputConstant _ => .constantReassignment
  | .assignedRoutine .. | .notAssignable .. | .arrayShape .. | .conditionType .. | .forBoundType ..
  | .labelType .. | .inputArray _ | .inputRoutine .. | .indexType _ | .notOperand _
  | .minusOperand _ | .logicalOperand .. | .nullOrder _ | .arrayComparison | .comparison ..
  | .booleanOrder _ | .operatorTypes .. | .arrayExpected .. | .elementTypeExpected ..
  | .arrayArgument _ => .typeMismatch
  | .zeroStep => .zeroStep
  | .procedureValue _ | .functionWithoutValue _ => .invalidReturn
  | .undeclared _ => .undeclaredVariable
  | .routineWithoutCall .. | .procedureAsValue _ => .notAFunction
  | .notArray _ => .notAnArray
  | .indexCount .. => .indexCountMismatch
  | .undefinedFunction _ | .notRoutine _ => .undefinedFunction
  | .argumentCount .. => .argumentCountMismatch
  | .referenceArgument .. => .invalidByrefArgument
  | .naming _ => .namingConvention
  | .unreachable => .unreachableCode
  | .incomplete _ => .incompleteStatement
  | .possibleMismatch .. | .realIndex => .possibleTypeMismatch
  | .duplicateLabel _ => .duplicateCaseLabel
  | .missingReturn _ => .missingReturn
  | .returnOutside => .returnOutsideFunction
  | .unused _ => .unusedVariable
  | .lateGlobal .. => .possibleUndeclaredVariable
  | .indexOutside .. => .indexOutOfBounds

def message : Finding → String
  | .unsupportedType name => s!"Type '{name}' is not supported"
  | .unknownType name => s!"Unknown type '{name}'"
  | .redeclaredIdentifier name line => s!"Identifier '{name}' is already defined (line {line})"
  | .redeclaredVariable name line =>
    s!"Variable '{name}' already declared in this scope (line {line})"
  | .reversedBounds bound name =>
    s!"Invalid array bounds {bound.lower}:{bound.upper} for '{name}'"
  | .arrayTooLarge name size limit => s!"Array '{name}' has {size} elements; the limit is {limit}"
  | .assignedConstant name => s!"Cannot assign to constant '{name}'"
  | .assignedRoutine kind name => s!"Cannot assign to {kind.text} '{name}'"
  | .notAssignable source target what =>
    s!"Type mismatch: cannot assign {source.text} to {target.text} {what}"
  | .arrayShape source what =>
    s!"Type mismatch: array '{source}' does not match the dimensions and element type of {what}"
  | .conditionType keyword type =>
    s!"{keyword.text} condition must be BOOLEAN, got {type.text}"
  | .forBoundType part type => s!"FOR {part.text} value must be numeric, got {type.text}"
  | .zeroStep => "FOR loop STEP cannot be zero"
  | .labelType label selector =>
    s!"CASE label of type {label.text} cannot match a {selector.text} selector"
  | .procedureValue name => s!"Procedure '{name}' cannot return a value"
  | .functionWithoutValue name => s!"Function '{name}' must return a value"
  | .inputConstant name => s!"Cannot INPUT into constant '{name}'"
  | .inputArray name => s!"Cannot INPUT into the whole array '{name}'"
  | .inputRoutine kind name => s!"Cannot INPUT into {kind.text} '{name}'"
  | .undeclared name => s!"Variable '{name}' used before declaration"
  | .routineWithoutCall name kind => s!"'{name}' is a {kind.text}; call it with parentheses"
  | .notArray name => s!"'{name}' is not an array"
  | .indexCount name dimensions given =>
    s!"Array '{name}' has {dimensions} dimension(s) but {given} index(es) were given"
  | .indexType type => s!"Array index must be INTEGER, got {type.text}"
  | .notOperand type => s!"NOT requires a BOOLEAN operand, got {type.text}"
  | .minusOperand type => s!"Unary minus requires a numeric operand, got {type.text}"
  | .logicalOperand op type => s!"{op.text} requires BOOLEAN operands, got {type.text}"
  | .nullOrder op => s!"Cannot order NULL with '{op.text}'"
  | .arrayComparison => "Arrays cannot be compared"
  | .comparison left right => s!"Cannot compare {left.text} with {right.text}"
  | .booleanOrder op => s!"Cannot order BOOLEAN values with '{op.text}'"
  | .operatorTypes op left right =>
    s!"Operator '{op.text}' cannot be applied to {left.text} and {right.text}"
  | .undefinedFunction name => s!"Function '{name}' is not defined"
  | .notRoutine name => s!"'{name}' is not a function or procedure"
  | .procedureAsValue name => s!"Procedure '{name}' does not return a value"
  | .argumentCount kind name expected given =>
    let title := if kind = .procedure then "Procedure" else "Function"
    s!"{title} '{name}' expects {expected} argument(s), got {given}"
  | .referenceArgument position callee =>
    s!"Argument {position} of '{callee}' is passed BYREF and must be a variable name"
  | .arrayExpected what type => s!"Type mismatch: {what} expects an ARRAY, got {type.text}"
  | .elementTypeExpected what elementType =>
    s!"Type mismatch: {what} expects ARRAY OF {elementType}"
  | .arrayArgument what => s!"Type mismatch: cannot pass ARRAY to {what}"
  | .naming name => s!"Variable name '{name}' should start with a lowercase letter"
  | .unreachable => "Unreachable code"
  | .incomplete what => s!"Incomplete {what} statement skipped"
  | .possibleMismatch source target what =>
    s!"Possible type mismatch: {source.text} value assigned to {target.text} {what}"
  | .duplicateLabel line => s!"Duplicate CASE label (first used on line {line})"
  | .missingReturn name => s!"Function '{name}' may reach ENDFUNCTION without a RETURN"
  | .returnOutside => "RETURN outside of a function or procedure"
  | .unused name => s!"Variable '{name}' is declared but never used"
  | .lateGlobal name line routine callLine =>
    s!"Global '{name}' is declared on line {line}, after '{routine}' is first called on line {callLine}"
  | .indexOutside index bound name =>
    s!"Array index {index} is outside the bounds {bound.lower}:{bound.upper} of '{name}'"
  | .realIndex => "Possible type mismatch: REAL value used as array index"

def diagnostic (f : Finding) (p : Position) : Diagnostic :=
  .atLine p.line p.column f.code f.severity f.message

end Finding

end Pseudocode
