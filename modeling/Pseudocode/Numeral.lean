import Pseudocode.Binary64
import Pseudocode.Number
import Pseudocode.Text.Blank
import Pseudocode.Text.Digit

/-! Reading numbers from text. White space around the numeral is ignored and the digits may be those of
any script, with single underscores between them. An integer is a sign and digits; a real may also
have a point, an exponent, or be one of the words for infinity and NaN. -/
namespace Pseudocode.Numeral

open Text

/-- Takes a leading sign off; `true` means a minus. -/
def takeSign : List Char → Bool × List Char
  | '-' :: rest => (true, rest)
  | '+' :: rest => (false, rest)
  | rest => (false, rest)

/-- Removes the underscores from a text, each of which must stand between two digits. `afterDigit`
says whether a digit stands in front. -/
def ungroup? (afterDigit : Bool) : List Char → Option (List Char)
  | [] => some []
  | '_' :: rest =>
    if afterDigit && rest.head?.any isDigit then ungroup? false rest else none
  | c :: rest => (ungroup? (isDigit c) rest).map (c :: ·)

/-- The integer that a text writes; `none` also when it has more than `maxTextDigits` digits. -/
def integerChars? (text : List Char) : Option Int :=
  let (negative, body) := takeSign (trimWhile isSpace text)
  match ungroup? false body with
  | none => none
  | some digits =>
    if digits.isEmpty || !digits.all isDigit || digits.length > maxTextDigits then none
    else
      let magnitude := digitsValue digits
      some (if negative then -(magnitude : Int) else magnitude)

def integer? (text : String) : Option Int := integerChars? text.toList

/-- The value of a decimal with the given digits before and after the point, times a power of ten. -/
def decimal (negative : Bool) (whole fraction : List Char) (exponent : Int) : Binary64 :=
  Binary64.ofDecimal negative (digitsValue (whole ++ fraction)) (exponent - fraction.length)

/-- What may follow the digits of a real: nothing, or `e` and a signed integer. -/
def exponent? : List Char → Option Int
  | [] => some 0
  | c :: rest =>
    if c = 'e' ∨ c = 'E' then
      let (negative, digits) := takeSign rest
      if digits.isEmpty || !digits.all isDigit then none
      else some (Binary64.signed negative (digitsValue digits))
    else none

def word? (negative : Bool) (text : List Char) : Option Binary64 :=
  let lowered := String.ofList (text.map Char.toLower)
  if lowered = "inf" ∨ lowered = "infinity" then some (.infinite negative)
  else if lowered = "nan" then some .nan
  else none

def unsignedReal? (negative : Bool) (text : List Char) : Option Binary64 := do
  let body ← ungroup? false text
  let whole := body.takeWhile isDigit
  let afterWhole := body.dropWhile isDigit
  let (fraction, rest) := match afterWhole with
    | '.' :: behind => (behind.takeWhile isDigit, behind.dropWhile isDigit)
    | _ => ([], afterWhole)
  if whole.isEmpty && fraction.isEmpty then none
  else return decimal negative whole fraction (← exponent? rest)

def realChars? (text : List Char) : Option Binary64 :=
  let (negative, body) := takeSign (trimWhile isSpace text)
  match word? negative body with
  | some x => some x
  | none => unsignedReal? negative body

def real? (text : String) : Option Binary64 := realChars? text.toList

end Pseudocode.Numeral
