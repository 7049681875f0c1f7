/-! Binary64 numbers with exact integer arithmetic. Every finite number is a whole multiple of one
unit, 2⁻¹⁰⁷⁴, so a magnitude is a natural number of units and an operation is an exact computation
on such numbers followed by one rounding. `ofUnits` is that rounding: to the nearest number, a tie
to the even significand, and to an infinity past the largest finite number. -/
namespace Pseudocode

/-- A binary64 number; the exponent and fraction fields are those of its 64-bit encoding. -/
inductive Binary64 where
  | nan
  | infinite (negative : Bool)
  | finite (negative : Bool) (exponent : Fin 2047) (fraction : Fin 4503599627370496)
  deriving DecidableEq, Repr

namespace Binary64

/-- The weight of the hidden bit of a significand. -/
def hiddenBit : Nat := 4503599627370496

/-- The number of units in one. -/
def unitsPerOne : Nat := Nat.pow 2 1074

/-- The magnitude of a finite number in units. -/
def units (exponent : Fin 2047) (fraction : Fin 4503599627370496) : Nat :=
  if exponent.val = 0 then fraction.val
  else (hiddenBit + fraction.val) * Nat.pow 2 (exponent.val - 1)

def signed (negative : Bool) (magnitude : Nat) : Int :=
  if negative then -(magnitude : Int) else magnitude

def zero (negative : Bool) : Binary64 := .finite negative 0 0

/-- The quotient rounded to the nearest whole number, a tie to the even one. -/
def halfEven (num den : Nat) : Nat :=
  let quotient := num / den
  let twice := 2 * (num % den)
  if den < twice ∨ (twice = den ∧ quotient % 2 = 1) then quotient + 1 else quotient

/-- The number with the given significand, which is at most `2 * hiddenBit`, times `2 ^ shift` units. -/
def pack (negative : Bool) (shift significand : Nat) : Binary64 :=
  if small : significand < 4503599627370496 then .finite negative 0 ⟨significand, small⟩
  else if fits : significand - 4503599627370496 < 4503599627370496 then
    if inside : shift + 1 < 2047 then
      .finite negative ⟨shift + 1, inside⟩ ⟨significand - 4503599627370496, fits⟩
    else .infinite negative
  else if inside : shift + 2 < 2047 then .finite negative ⟨shift + 2, inside⟩ 0
  else .infinite negative

/-- The number nearest to `num / den` units. -/
def ofUnits (negative : Bool) (num den : Nat) : Binary64 :=
  let shift := (num / den).log2 - 52
  pack negative shift (halfEven num (den * Nat.pow 2 shift))

def ofSignedUnits (value : Int) : Binary64 := ofUnits (value < 0) value.natAbs 1

/-- The number nearest to the quotient of two natural numbers. -/
def ofRatio (negative : Bool) (num den : Nat) : Binary64 := ofUnits negative (num * unitsPerOne) den

/-- The number nearest to `digits * 10 ^ exponent`. Exponents that leave no doubt about the result
are answered without computing the power. -/
def ofDecimal (negative : Bool) (digits : Nat) (exponent : Int) : Binary64 :=
  if digits = 0 ∨ exponent < -(digits.log2 + 400 : Int) then zero negative
  else if exponent > 400 then .infinite negative
  else if 0 ≤ exponent then ofRatio negative (digits * Nat.pow 10 exponent.toNat) 1
  else ofRatio negative digits (Nat.pow 10 (-exponent).toNat)

/-- The nearest number to an integer, `none` when the integer is beyond the finite range. -/
def ofInt? (value : Int) : Option Binary64 :=
  match ofRatio (value < 0) value.natAbs 1 with
  | .infinite _ => none
  | x => some x

/-- Where a number stands on the line of units with its two ends; `none` for NaN. -/
inductive Place where
  | below
  | within (units : Int)
  | above
  deriving DecidableEq, Repr

def Place.compare : Place → Place → Ordering
  | .below, .below | .above, .above => .eq
  | .below, _ | _, .above => .lt
  | .above, _ | _, .below => .gt
  | .within a, .within b => Ord.compare a b

def place? : Binary64 → Option Place
  | .nan => none
  | .infinite negative => some (if negative then .below else .above)
  | .finite negative exponent fraction => some (.within (signed negative (units exponent fraction)))

def placeOfInt (value : Int) : Place := .within (value * unitsPerOne)

def isFinite : Binary64 → Bool
  | .finite .. => true
  | _ => false

def isZero : Binary64 → Bool
  | .finite _ exponent fraction => units exponent fraction == 0
  | _ => false

/-- Why a number has no integer part. -/
inductive NoInteger where
  | infinite
  | nan
  deriving DecidableEq, Repr

/-- The integer part, rounded toward zero. -/
def truncate : Binary64 → Except NoInteger Int
  | .nan => .error .nan
  | .infinite _ => .error .infinite
  | .finite negative exponent fraction =>
    .ok (signed negative (units exponent fraction / unitsPerOne))

def isIntegral : Binary64 → Bool
  | .finite _ exponent fraction => units exponent fraction % unitsPerOne == 0
  | _ => false

end Binary64

end Pseudocode
