import Pseudocode.Binary64

/-! The text of a binary64 number: the fewest digits that read back as the number, of several the
nearest to it. A half is five tenths, so every finite number has an exact decimal expansion, and its
neighbours with few digits are quotients of that. Whether a neighbour reads back is asked of the
reader itself. -/
namespace Pseudocode.Binary64

/-- A decimal `digits * 10 ^ exponent`. -/
structure Decimal where
  digits : Nat
  exponent : Int
  deriving DecidableEq, Repr

/-- The exact value of a finite magnitude. -/
def exactDecimal (exponent : Fin 2047) (fraction : Fin 4503599627370496) : Decimal :=
  let significand := if exponent.val = 0 then fraction.val else hiddenBit + fraction.val
  let shift := exponent.val - 1
  if 1074 ≤ shift then ⟨significand * Nat.pow 2 (shift - 1074), 0⟩
  else ⟨significand * Nat.pow 5 (1074 - shift), shift - 1074⟩

/-- The two neighbours with `count` digits of a decimal that has `length` digits, the nearer first
and the even one of two equally near. -/
def Decimal.neighbours (value : Decimal) (length count : Nat) : List Decimal :=
  let step := Nat.pow 10 (length - count)
  let lower := value.digits / step
  let twice := 2 * (value.digits % step)
  let exponent := value.exponent + (length - count : Nat)
  if twice < step ∨ (twice = step ∧ lower % 2 = 0) then [⟨lower, exponent⟩, ⟨lower + 1, exponent⟩]
  else [⟨lower + 1, exponent⟩, ⟨lower, exponent⟩]

/-- The shortest decimal that reads back as the number with the given magnitude; the exact value if
no neighbour with at most 17 digits does. -/
def shortestDecimal (exponent : Fin 2047) (fraction : Fin 4503599627370496) : Decimal :=
  let exact := exactDecimal exponent fraction
  let length := (Nat.toDigits 10 exact.digits).length
  let readsBack (d : Decimal) : Bool :=
    decide (ofDecimal false d.digits d.exponent = .finite false exponent fraction)
  let candidate? (count : Nat) : Option Decimal :=
    (exact.neighbours length (count + 1)).find? readsBack
  ((List.range 17).findSome? candidate?).getD exact

/-- How the text of a number is laid out: positional for decimal exponents from `leastPositional`
up to but not including `leastScientific`, otherwise with a signed exponent of at least
`exponentWidth` digits. -/
structure DecimalLayout where
  leastPositional : Int
  leastScientific : Int
  exponentWidth : Nat

/-- The layout of REAL values. -/
def realLayout : DecimalLayout := ⟨-4, 16, 2⟩

/-- A row of digits without the zeros at its end. -/
def dropTrailingZeros (digits : List Char) : List Char := (digits.reverse.dropWhile (· == '0')).reverse

def padLeft (width : Nat) (digits : List Char) : List Char :=
  List.replicate (width - digits.length) '0' ++ digits

/-- Digits with the decimal point after the first `point` of them; a number without a fraction keeps
one zero behind the point. -/
def positional (digits : List Char) (point : Int) : List Char :=
  if point ≤ 0 then '0' :: '.' :: List.replicate (-point).toNat '0' ++ digits
  else
    let whole := digits.take point.toNat ++ List.replicate (point.toNat - digits.length) '0'
    match digits.drop point.toNat with
    | [] => whole ++ ['.', '0']
    | fraction => whole ++ '.' :: fraction

def scientific (layout : DecimalLayout) (digits : List Char) (exponent : Int) : List Char :=
  let mantissa := match digits with
    | first :: second :: rest => first :: '.' :: second :: rest
    | short => short
  let sign := if exponent < 0 then '-' else '+'
  mantissa ++ 'e' :: sign :: padLeft layout.exponentWidth (Nat.toDigits 10 exponent.natAbs)

def Decimal.layOut (layout : DecimalLayout) (value : Decimal) : List Char :=
  let all := Nat.toDigits 10 value.digits
  let point : Int := all.length + value.exponent
  let digits := dropTrailingZeros all
  if layout.leastPositional ≤ point - 1 ∧ point - 1 < layout.leastScientific then
    positional digits point
  else scientific layout digits (point - 1)

def chars : Binary64 → List Char
  | .nan => ['n', 'a', 'n']
  | .infinite negative => (if negative then ['-'] else []) ++ ['i', 'n', 'f']
  | .finite negative exponent fraction =>
    let magnitude :=
      if units exponent fraction = 0 then ['0', '.', '0']
      else (shortestDecimal exponent fraction).layOut realLayout
    (if negative then ['-'] else []) ++ magnitude

def text (x : Binary64) : String := String.ofList x.chars

end Pseudocode.Binary64
