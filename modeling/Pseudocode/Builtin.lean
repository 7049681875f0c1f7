import Pseudocode.Memory
import Pseudocode.Numeral
import Pseudocode.Random
import Pseudocode.Text.Case

/-! The built-in functions. A call is checked for its name, then for the number of its arguments, then
argument by argument from left to right. RAND takes a number from the generator before it looks at
its argument. -/
namespace Pseudocode

inductive Builtin where
  | LENGTH | UCASE | LCASE | LEFT | RIGHT | MID | INT | ROUND | SQRT
  | NUM_TO_STR | STR_TO_NUM | ASC | CHR | RAND
  deriving DecidableEq, Repr

/-- Why a call of a built-in function fails. -/
inductive BuiltinFault where
  | unknown (name : String)
  | argumentCount (name : String) (expected given : Nat)
  | notText (name : String) (type : DataType)
  | notNumber (name : String) (type : DataType)
  | notCount (name : String)
  | startNotPositive
  | negativeRoot
  | unreadable (text : String)
  | emptyText
  | noSuchCharacter (code : Int)
  | arithmetic (cause : NumberFault)
  deriving DecidableEq, Repr

def BuiltinFault.message : BuiltinFault → String
  | .unknown name => s!"Unknown built-in function: {name}"
  | .argumentCount name expected given => s!"{name} expects {expected} argument(s), got {given}"
  | .notText name type => s!"{name} expects a STRING argument, got {type.text}"
  | .notNumber name type => s!"{name} expects a numeric argument, got {type.text}"
  | .notCount name => s!"{name} expects a non-negative INTEGER count"
  | .startNotPositive => "MID start position must be 1 or more"
  | .negativeRoot => "SQRT of a negative number"
  | .unreadable text => s!"STR_TO_NUM cannot convert {Text.quoted text} to a number"
  | .emptyText => "ASC of an empty string"
  | .noSuchCharacter code => s!"CHR code {code} is not a valid character"
  | .arithmetic cause => cause.message

namespace Builtin

def name : Builtin → String
  | .LENGTH => "LENGTH" | .UCASE => "UCASE" | .LCASE => "LCASE" | .LEFT => "LEFT"
  | .RIGHT => "RIGHT" | .MID => "MID" | .INT => "INT" | .ROUND => "ROUND" | .SQRT => "SQRT"
  | .NUM_TO_STR => "NUM_TO_STR" | .STR_TO_NUM => "STR_TO_NUM" | .ASC => "ASC" | .CHR => "CHR"
  | .RAND => "RAND"

/-- All built-in functions, by name. -/
def all : List Builtin :=
  [.ASC, .CHR, .INT, .LCASE, .LEFT, .LENGTH, .MID, .NUM_TO_STR, .RAND, .RIGHT, .ROUND, .SQRT,
    .STR_TO_NUM, .UCASE]

def ofName? (name : String) : Option Builtin := all.find? (·.name == name)

def arity : Builtin → Nat
  | .LEFT | .RIGHT | .ROUND => 2
  | .MID => 3
  | _ => 1

/-- The type of the result; `none` when it depends on the argument. -/
def returns : Builtin → Option DataType
  | .LENGTH | .INT | .ASC => some .integer
  | .UCASE | .LCASE | .LEFT | .RIGHT | .MID | .NUM_TO_STR => some .string
  | .ROUND | .SQRT | .RAND => some .real
  | .CHR => some .char
  | .STR_TO_NUM => none

def textArgument (f : Builtin) (value : Value) : Except BuiltinFault String :=
  match value.text? with
  | some s => .ok s
  | none => .error (.notText f.name value.type)

def numberArgument (f : Builtin) (value : Value) : Except BuiltinFault Number :=
  match value.number? with
  | some n => .ok n
  | none => .error (.notNumber f.name value.type)

def countArgument (f : Builtin) (value : Value) : Except BuiltinFault Nat :=
  match value with
  | .integer n => if n < 0 then .error (.notCount f.name) else .ok n.toNat
  | _ => .error (.notCount f.name)

/-- A text changed in case has the type of the text it came from. -/
def recased (change : String → String) (value : Value) (text : String) : Value :=
  match value with
  | .char _ => .char (change text)
  | _ => .string (change text)

def ofOverflow (result : Except Overflow α) : Except BuiltinFault α :=
  result.mapError fun cause => .arithmetic (.overflow cause)

def left (count : Nat) (text : String) : String := String.ofList (text.toList.take count)

def right (count : Nat) (text : String) : String :=
  let chars := text.toList
  String.ofList (chars.drop (chars.length - count))

def mid (start count : Nat) (text : String) : String :=
  String.ofList ((text.toList.drop (start - 1)).take count)

/-- The number that a text writes: a real if it has a point, otherwise an integer. -/
def readNumber (text : String) : Except BuiltinFault Value :=
  let trimmed := Text.trim text
  if trimmed.toList.contains '.' then
    match Numeral.real? trimmed with
    | some x => .ok (.real x)
    | none => .error (.unreadable trimmed)
  else
    match Numeral.integer? trimmed with
    | some n => do return .integer (← ofOverflow (checkSize n))
    | none => .error (.unreadable trimmed)

/-- The text of a number. -/
def writeNumber (n : Number) : Except BuiltinFault Value :=
  match (Value.ofNumber n).scalarText with
  | .ok text => .ok (.string text)
  | .error _ => .error (.arithmetic (.overflow .integerSize))

def integerPart : Number → Except BuiltinFault Value
  | .integer n => .ok (.integer n)
  | .real x =>
    match Number.truncateReal x with
    | .ok n => .ok (.integer n)
    | .error cause => .error (.arithmetic cause)

def rounded (places : Nat) : Number → Except BuiltinFault Value
  | .integer n => do return .real (← ofOverflow (Number.integer n).toReal)
  | .real x => .ok (.real (x.roundTo places))

def squareRoot (n : Number) : Except BuiltinFault Value :=
  if n.compare? (.integer 0) = some .lt then .error .negativeRoot
  else do return .real (← ofOverflow n.toReal).sqrt

/-- The result of a call that needs no random number. -/
def apply (f : Builtin) (arguments : List Value) : Except BuiltinFault Value :=
  match f, arguments with
  | .LENGTH, [a] => do return .integer (← f.textArgument a).length
  | .UCASE, [a] => do return recased Text.upper a (← f.textArgument a)
  | .LCASE, [a] => do return recased Text.lower a (← f.textArgument a)
  | .LEFT, [a, n] => do
    let text ← f.textArgument a
    return .string (left (← f.countArgument n) text)
  | .RIGHT, [a, n] => do
    let text ← f.textArgument a
    return .string (right (← f.countArgument n) text)
  | .MID, [a, start, n] => do
    let text ← f.textArgument a
    let first ← f.countArgument start
    if first < 1 then .error .startNotPositive
    else return .string (mid first (← f.countArgument n) text)
  | .INT, [a] => do integerPart (← f.numberArgument a)
  | .ROUND, [a, n] => do
    let number ← f.numberArgument a
    rounded (← f.countArgument n) number
  | .SQRT, [a] => do squareRoot (← f.numberArgument a)
  | .NUM_TO_STR, [a] => do writeNumber (← f.numberArgument a)
  | .STR_TO_NUM, [a] => do readNumber (← f.textArgument a)
  | .ASC, [a] => do
    match (← f.textArgument a).toList with
    | [] => .error .emptyText
    | c :: _ => return .integer c.toNat
  | .CHR, [a] => do
    let code ← f.countArgument a
    if code > 0x10FFFF then .error (.noSuchCharacter code)
    else return .char (String.singleton (Char.ofNat code))
  | _, _ => .error (.argumentCount f.name f.arity arguments.length)

/-- A random number from zero up to the argument. -/
def scaled (fraction : Binary64) (value : Value) : Except BuiltinFault Value := do
  let number ← numberArgument .RAND value
  return .real (fraction.mul (← ofOverflow number.toReal))

/-- Calls a built-in function by name; the generator moves on when the function uses it. -/
def call (name : String) (arguments : List Value) (random : Random) :
    Except BuiltinFault Value × Random :=
  match ofName? name with
  | none => (.error (.unknown name), random)
  | some f =>
    if arguments.length ≠ f.arity then
      (.error (.argumentCount name f.arity arguments.length), random)
    else
      match f, arguments with
      | .RAND, [value] =>
        let (fraction, random) := random.fraction
        (scaled fraction value, random)
      | _, _ => (f.apply arguments, random)

end Builtin

end Pseudocode
