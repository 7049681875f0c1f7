import Pseudocode.Number
import Pseudocode.Program
import Pseudocode.Token

/-! Values and their types. Arrays live in a memory and a value names one by its number there, so two
variables can hold the same array. A value is converted when it is stored: an integer fits a REAL, a
whole REAL an INTEGER, a CHAR a STRING and a STRING of one character a CHAR. NULL fits every type. -/
namespace Pseudocode

inductive DataType where
  | integer | real | string | boolean | char | array | null
  deriving DecidableEq, Repr

namespace DataType

def text : DataType → String
  | .integer => "INTEGER" | .real => "REAL" | .string => "STRING" | .boolean => "BOOLEAN"
  | .char => "CHAR" | .array => "ARRAY" | .null => "NULL"

/-- The types that a program can name. -/
def declarable : List DataType := [.integer, .real, .string, .boolean, .char, .array]

def ofName? (name : String) : Option DataType := declarable.find? (·.text == name)

def isNumeric : DataType → Bool
  | .integer | .real => true
  | _ => false

def isText : DataType → Bool
  | .string | .char => true
  | _ => false

/-- The group of types whose values can be compared with each other. -/
def category (type : DataType) : String :=
  if type.isNumeric then "numeric" else if type.isText then "text" else type.text

end DataType

/-- Names of types that are reserved but not supported. -/
def unsupportedTypeNames : List String := [TypeWord.DATE.text, TypeWord.RECORD.text]

/-- The number of an array in the memory. -/
abbrev ArrayId := Nat

/-- A value. The text of a CHAR has one character, or none before it is first set; changing its case
can make it longer. -/
inductive Value where
  | null
  | boolean (value : Bool)
  | integer (value : Int)
  | real (value : Binary64)
  | string (value : String)
  | char (value : String)
  | array (id : ArrayId)
  deriving DecidableEq, Repr, Inhabited

namespace Value

def type : Value → DataType
  | .null => .null
  | .boolean _ => .boolean
  | .integer _ => .integer
  | .real _ => .real
  | .string _ => .string
  | .char _ => .char
  | .array _ => .array

def ofLiteral : Literal → Value
  | .null => .null
  | .boolean b => .boolean b
  | .integer n => .integer n
  | .real x => .real x
  | .string s => .string s
  | .char s => .char s

def ofNumber : Number → Value
  | .integer n => .integer n
  | .real x => .real x

def number? : Value → Option Number
  | .integer n => some (.integer n)
  | .real x => some (.real x)
  | _ => none

/-- The characters of a STRING or CHAR. -/
def text? : Value → Option String
  | .string s => some s
  | .char s => some s
  | _ => none

/-- The value of a variable that has not been set. -/
def initial : Option DataType → Value
  | some .integer => .integer 0
  | some .real => .real (.zero false)
  | some .string => .string ""
  | some .char => .char ""
  | some .boolean => .boolean false
  | _ => .null

/-- A number, or a truth value taken as zero or one. -/
def quantity? : Value → Option Number
  | .boolean b => some (.integer (if b then 1 else 0))
  | value => value.number?

/-- Equality of values that are not arrays, across types: numbers and truth values by quantity, texts
by their characters. -/
def sameScalar (a b : Value) : Bool :=
  match a.quantity?, b.quantity? with
  | some m, some n => m.compare? n == some .eq
  | none, none =>
    match a.text?, b.text? with
    | some s, some t => s == t
    | none, none => a.type == .null && b.type == .null
    | _, _ => false
  | _, _ => false

end Value

/-- Why a value cannot be stored or an element cannot be reached. -/
inductive StoreFault where
  | mismatch (source target : DataType)
  | fractional (value : Binary64)
  | scalarToArray
  | arraysDiffer
  | constant (shown : String)
  | indexCount (expected given : Nat)
  | indexOutOfBounds
  | overflow (cause : Overflow)
  | endless
  deriving DecidableEq, Repr

def StoreFault.message : StoreFault → String
  | .mismatch source target => s!"Type mismatch: cannot assign {source.text} to {target.text}"
  | .fractional value => s!"Type mismatch: cannot assign REAL value {value.text} to INTEGER"
  | .scalarToArray => "Type mismatch: cannot assign a scalar to an ARRAY"
  | .arraysDiffer => "Type mismatch: array dimensions or element types differ"
  | .constant shown => s!"Cannot modify constant value (currently {shown})"
  | .indexCount expected given =>
    s!"Incorrect number of indices: expected {expected}, got {given}"
  | .indexOutOfBounds => "Array index out of bounds"
  | .overflow cause => cause.message
  | .endless => "maximum recursion depth exceeded"

/-- Whether a store is refused because of the type of the value. -/
def StoreFault.isMismatch : StoreFault → Bool
  | .mismatch .. | .fractional _ | .scalarToArray | .arraysDiffer => true
  | _ => false

/-- The value as a slot of the given type keeps it; a slot without a type keeps every value. -/
def Value.coerce (value : Value) (target : Option DataType) : Except StoreFault Value :=
  match value, target with
  | .null, _ | _, none => .ok value
  | _, some type =>
    if value.type = type then .ok value
    else
      match value, type with
      | .integer n, .real => ((Number.integer n).toReal.map .real).mapError .overflow
      | .real x, .integer =>
        match x.isIntegral, x.truncate with
        | true, .ok n => .ok (.integer n)
        | _, _ => .error (.fractional x)
      | .char s, .string => .ok (.string s)
      | .string s, .char => if s.length = 1 then .ok (.char s) else .error (.mismatch .string .char)
      | _, _ => .error (.mismatch value.type type)

end Pseudocode
