import Pseudocode.Binary64.Arithmetic
import Pseudocode.Binary64.Decimal

/-! Numbers of the language: integers of any size up to a limit on their bits, and binary64 reals.
An operation on two integers is exact and the size of its result is then checked; as soon as one
operand is a real the other is converted to the nearest real, which fails beyond the finite range.
Comparison converts nothing: both numbers have a place on the line of units. -/
namespace Pseudocode

/-- The most bits an INTEGER may have. -/
def maxIntegerBits : Nat := 13000

/-- The most digits an integer literal may have. -/
def maxLiteralDigits : Nat := 3900

/-- The most digits of an integer that is written as text or read from it. -/
def maxTextDigits : Nat := 4300

/-- Ways in which a number can be too large. -/
inductive Overflow where
  | integerSize
  | integerToReal
  | quotientToReal
  | infinityToInteger
  deriving DecidableEq, Repr

def Overflow.message : Overflow → String
  | .integerSize => "Numeric overflow"
  | .integerToReal => "int too large to convert to float"
  | .quotientToReal => "integer division result too large for a float"
  | .infinityToInteger => "cannot convert float infinity to integer"

/-- Ways in which arithmetic on numbers can fail. -/
inductive NumberFault where
  | overflow (cause : Overflow)
  | nanToInteger
  deriving DecidableEq, Repr

def NumberFault.message : NumberFault → String
  | .overflow cause => cause.message
  | .nanToInteger => "cannot convert float NaN to integer"

/-- The number of bits of the magnitude. -/
def bitLength (n : Int) : Nat := if n = 0 then 0 else n.natAbs.log2 + 1

def checkSize (n : Int) : Except Overflow Int :=
  if bitLength n > maxIntegerBits then .error .integerSize else .ok n

inductive Number where
  | integer (value : Int)
  | real (value : Binary64)
  deriving DecidableEq, Repr

namespace Number

def isReal : Number → Bool
  | .real _ => true
  | .integer _ => false

def toReal : Number → Except Overflow Binary64
  | .real x => .ok x
  | .integer n =>
    match Binary64.ofInt? n with
    | some x => .ok x
    | none => .error .integerToReal

def place? : Number → Option Binary64.Place
  | .integer n => some (Binary64.placeOfInt n)
  | .real x => x.place?

/-- The exact order of two numbers; `none` when one of them is NaN. -/
def compare? (a b : Number) : Option Ordering :=
  match a.place?, b.place? with
  | some p, some q => some (p.compare q)
  | _, _ => none

def isZero : Number → Bool
  | .integer n => n == 0
  | .real x => x.isZero

/-- Applies an operation to two integers as they are and to any other pair as reals. -/
def combine (onIntegers : Int → Int → Int) (onReals : Binary64 → Binary64 → Binary64)
    (a b : Number) : Except Overflow Number :=
  match a, b with
  | .integer m, .integer n => .ok (.integer (onIntegers m n))
  | _, _ => do return .real (onReals (← a.toReal) (← b.toReal))

/-- Refuses an integer with too many bits. -/
def checked (n : Number) : Except Overflow Number :=
  match n with
  | .integer m => do return .integer (← checkSize m)
  | .real _ => .ok n

def addExact : Number → Number → Except Overflow Number := combine (· + ·) Binary64.add

def subExact : Number → Number → Except Overflow Number := combine (· - ·) Binary64.sub

def mulExact : Number → Number → Except Overflow Number := combine (· * ·) Binary64.mul

def add (a b : Number) : Except Overflow Number := a.addExact b >>= checked

def sub (a b : Number) : Except Overflow Number := a.subExact b >>= checked

def mul (a b : Number) : Except Overflow Number := a.mulExact b >>= checked

def neg : Number → Number
  | .integer n => .integer (-n)
  | .real x => .real x.neg

/-- Division with a real result. The quotient of two integers is rounded once, from the exact
fraction, and must be finite. -/
def divide (a b : Number) : Except Overflow Binary64 :=
  match a, b with
  | .integer m, .integer n =>
    match Binary64.ofRatio ((m < 0) != (n < 0)) m.natAbs n.natAbs with
    | .infinite _ => .error .quotientToReal
    | x => .ok x
  | _, _ => do return (← a.toReal).div (← b.toReal)

/-- The integer part of a real, rounded toward zero. -/
def truncateReal (x : Binary64) : Except NumberFault Int :=
  match x.truncate with
  | .ok n => .ok n
  | .error .infinite => .error (.overflow .infinityToInteger)
  | .error .nan => .error .nanToInteger

/-- The quotient rounded toward zero; of two integers it is exact, otherwise it is the integer part
of the real quotient. -/
def quotient (a b : Number) : Except NumberFault Int :=
  match a, b with
  | .integer m, .integer n => .ok (m.tdiv n)
  | _, _ => do truncateReal (← (a.divide b).mapError .overflow)

/-- What is left of `a` after taking `b` away `quotient a b` times. -/
def remainder (a b : Number) : Except NumberFault Number := do
  let q ← a.quotient b
  let product ← (mulExact (.integer q) b).mapError .overflow
  (a.subExact product).mapError .overflow

def text : Number → String
  | .integer n => toString n
  | .real x => x.text

end Number

end Pseudocode
