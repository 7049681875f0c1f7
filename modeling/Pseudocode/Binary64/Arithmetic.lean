import Pseudocode.Binary64

/-! Arithmetic of binary64 numbers. Each operation forms its exact result in units, or a fraction of
units, and rounds once; signs of zero, infinities and NaN follow the usual rules of the format. -/
namespace Pseudocode.Binary64

def neg : Binary64 → Binary64
  | .nan => .nan
  | .infinite negative => .infinite !negative
  | .finite negative exponent fraction => .finite (!negative) exponent fraction

/-- A sum that cancels is a positive zero unless both terms are negative zeros. -/
def add : Binary64 → Binary64 → Binary64
  | .nan, _ | _, .nan => .nan
  | .infinite a, .infinite b => if a = b then .infinite a else .nan
  | .infinite a, .finite .. => .infinite a
  | .finite .., .infinite b => .infinite b
  | .finite a e f, .finite b g h =>
    let sum := signed a (units e f) + signed b (units g h)
    if sum = 0 then zero (a && b) else ofSignedUnits sum

def sub (x y : Binary64) : Binary64 := x.add y.neg

def mul : Binary64 → Binary64 → Binary64
  | .nan, _ | _, .nan => .nan
  | .infinite a, .infinite b => .infinite (a ^^ b)
  | .infinite a, .finite b g h => if units g h = 0 then .nan else .infinite (a ^^ b)
  | .finite a e f, .infinite b => if units e f = 0 then .nan else .infinite (a ^^ b)
  | .finite a e f, .finite b g h => ofUnits (a ^^ b) (units e f * units g h) unitsPerOne

def div : Binary64 → Binary64 → Binary64
  | .nan, _ | _, .nan => .nan
  | .infinite _, .infinite _ => .nan
  | .infinite a, .finite b .. => .infinite (a ^^ b)
  | .finite a .., .infinite b => zero (a ^^ b)
  | .finite a e f, .finite b g h =>
    if units g h = 0 then
      if units e f = 0 then .nan else .infinite (a ^^ b)
    else ofUnits (a ^^ b) (units e f * unitsPerOne) (units g h)

/-- The square root of a number that is not negative. The whole part of the root in units decides
the rounding together with one mark below it that says whether anything is left over. -/
def sqrt : Binary64 → Binary64
  | .nan => .nan
  | .infinite negative => if negative then .nan else .infinite false
  | .finite negative exponent fraction =>
    let square := units exponent fraction * unitsPerOne
    let root := square.sqrt
    if square = 0 then zero negative
    else if negative then .nan
    else ofUnits false (2 * root + if root * root = square then 0 else 1) 2

/-- Rounds to `places` decimal places, a tie of the exact value to the even digit. Past 323 places a
number is its own rounding. -/
def roundTo (x : Binary64) (places : Nat) : Binary64 :=
  match x with
  | .finite negative exponent fraction =>
    if places > 323 then x
    else
      let scale := Nat.pow 10 places
      ofRatio negative (halfEven (units exponent fraction * scale) unitsPerOne) scale
  | _ => x

end Pseudocode.Binary64
