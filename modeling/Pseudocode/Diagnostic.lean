/-! Diagnostics: what scanning, parsing and checking report about a text. Each has a position, a code
for programs and a message for people; the message starts with the line it is about. A report lists
them by position, and those at one position in the order in which they were found. -/
namespace Pseudocode

/-- A place in a text: line and column, both counted from one; zero means that it is not known. -/
structure Position where
  line : Nat
  column : Nat
  deriving DecidableEq, Repr, Inhabited

inductive Severity where
  | error
  | warning
  deriving DecidableEq, Repr

def Severity.text : Severity → String
  | .error => "error"
  | .warning => "warning"

/-- The kind of a problem. A host may add codes of its own. -/
inductive Code where
  | invalidCharacter
  | unterminatedString
  | invalidNumber
  | syntaxError
  | missingTerminator
  | unbalancedDelimiter
  | undeclaredVariable
  | redeclaredVariable
  | redeclaredIdentifier
  | typeMismatch
  | possibleTypeMismatch
  | unknownType
  | unsupportedType
  | constantReassignment
  | notAnArray
  | indexCountMismatch
  | indexOutOfBounds
  | invalidArrayBounds
  | undefinedFunction
  | argumentCountMismatch
  | notAFunction
  | invalidByrefArgument
  | zeroStep
  | invalidReturn
  | returnOutsideFunction
  | missingReturn
  | unreachableCode
  | unusedVariable
  | duplicateCaseLabel
  | incompleteStatement
  | possibleUndeclaredVariable
  | namingConvention
  | runtimeError
  | divisionByZero
  | indexOutOfRange
  | stepLimitExceeded
  | timeout
  | cancelled
  | stackOverflow
  | inputExhausted
  | outputLimit
  | numericOverflow
  | memoryLimit
  | internalError
  | custom (name : String)
  deriving DecidableEq, Repr

def Code.text : Code → String
  | .invalidCharacter => "INVALID_CHARACTER"
  | .unterminatedString => "UNTERMINATED_STRING"
  | .invalidNumber => "INVALID_NUMBER"
  | .syntaxError => "SYNTAX_ERROR"
  | .missingTerminator => "MISSING_TERMINATOR"
  | .unbalancedDelimiter => "UNBALANCED_DELIMITER"
  | .undeclaredVariable => "UNDECLARED_VARIABLE"
  | .redeclaredVariable => "REDECLARED_VARIABLE"
  | .redeclaredIdentifier => "REDECLARED_IDENTIFIER"
  | .typeMismatch => "TYPE_MISMATCH"
  | .possibleTypeMismatch => "POSSIBLE_TYPE_MISMATCH"
  | .unknownType => "UNKNOWN_TYPE"
  | .unsupportedType => "UNSUPPORTED_TYPE"
  | .constantReassignment => "CONSTANT_REASSIGNMENT"
  | .notAnArray => "NOT_AN_ARRAY"
  | .indexCountMismatch => "INDEX_COUNT_MISMATCH"
  | .indexOutOfBounds => "INDEX_OUT_OF_BOUNDS"
  | .invalidArrayBounds => "INVALID_ARRAY_BOUNDS"
  | .undefinedFunction => "UNDEFINED_FUNCTION"
  | .argumentCountMismatch => "ARGUMENT_COUNT_MISMATCH"
  | .notAFunction => "NOT_A_FUNCTION"
  | .invalidByrefArgument => "INVALID_BYREF_ARGUMENT"
  | .zeroStep => "ZERO_STEP"
  | .invalidReturn => "INVALID_RETURN"
  | .returnOutsideFunction => "RETURN_OUTSIDE_FUNCTION"
  | .missingReturn => "MISSING_RETURN"
  | .unreachableCode => "UNREACHABLE_CODE"
  | .unusedVariable => "UNUSED_VARIABLE"
  | .duplicateCaseLabel => "DUPLICATE_CASE_LABEL"
  | .incompleteStatement => "INCOMPLETE_STATEMENT"
  | .possibleUndeclaredVariable => "POSSIBLE_UNDECLARED_VARIABLE"
  | .namingConvention => "NAMING_CONVENTION"
  | .runtimeError => "RUNTIME_ERROR"
  | .divisionByZero => "DIVISION_BY_ZERO"
  | .indexOutOfRange => "INDEX_OUT_OF_RANGE"
  | .stepLimitExceeded => "STEP_LIMIT_EXCEEDED"
  | .timeout => "TIMEOUT"
  | .cancelled => "CANCELLED"
  | .stackOverflow => "STACK_OVERFLOW"
  | .inputExhausted => "INPUT_EXHAUSTED"
  | .outputLimit => "OUTPUT_LIMIT"
  | .numericOverflow => "NUMERIC_OVERFLOW"
  | .memoryLimit => "MEMORY_LIMIT"
  | .internalError => "INTERNAL_ERROR"
  | .custom name => name

structure Diagnostic where
  line : Int
  column : Int
  code : Code
  severity : Severity
  message : String
  deriving DecidableEq, Repr

namespace Diagnostic

def isError (d : Diagnostic) : Bool := d.severity == .error

/-- A diagnostic whose message names its line. -/
def atLine (line : Nat) (column : Nat) (code : Code) (severity : Severity) (detail : String) :
    Diagnostic :=
  { line, column, code, severity, message := s!"Line {line}: {detail}" }

def notAfter (a b : Diagnostic) : Bool :=
  a.line < b.line || (a.line == b.line && a.column ≤ b.column)

/-- Ordered by position; diagnostics at one position keep their order. -/
def sort (ds : List Diagnostic) : List Diagnostic := ds.mergeSort notAfter

/-- The message followed by the source line and a mark under the column, as far as they are known. -/
def withContext (d : Diagnostic) (source : String) : String :=
  let lines := source.toList.splitOn '\n'
  if d.line < 1 then d.message
  else match lines[d.line.toNat - 1]? with
    | none => d.message
    | some line =>
      let shown := s!"{d.message}\n  {String.ofList line}"
      let margin := String.ofList (List.replicate (d.column.toNat - 1) ' ')
      if d.column < 1 then shown else s!"{shown}\n  {margin}^"

end Diagnostic

end Pseudocode
