import Pseudocode.Run.Fault
import Pseudocode.Text.Case

/-! What an INPUT statement makes of a text. A target with a type takes the text as a value of that
type; a target without one takes a truth value, an integer or a real if the text reads as one, and the
text itself otherwise. Blanks around a truth value or a number do not count. -/
namespace Pseudocode.Input

/-- The truth value that a text writes, in any case of letters. -/
def boolean? (raw : String) : Option Bool :=
  let word := Text.upper (Text.trim raw)
  if word = "TRUE" then some true else if word = "FALSE" then some false else none

/-- The integer that a text writes, unless it has too many bits. -/
def integer? (raw : String) : Option (Except Stop Value) :=
  (Numeral.integer? (Text.trim raw)).map fun n =>
    match checkSize n with
    | .ok n => .ok (.integer n)
    | .error _ => .error .overflow

/-- The real that a text writes. -/
def real? (raw : String) : Option Binary64 := Numeral.real? (Text.trim raw)

def typed (line : Nat) (raw : String) (type : DataType) : Except Stop Value :=
  let refused : Except Stop Value := .error (.fault line (.inputFormat raw type))
  match type with
  | .integer => (integer? raw).getD refused
  | .real => ((real? raw).map (.ok ∘ Value.real)).getD refused
  | .boolean => ((boolean? raw).map (.ok ∘ Value.boolean)).getD refused
  | .char => if raw.length = 1 then .ok (.char raw) else .error (.fault line (.inputChar raw))
  | _ => .ok (.string raw)

def untyped (raw : String) : Except Stop Value :=
  match boolean? raw, integer? raw, real? raw with
  | some b, _, _ => .ok (.boolean b)
  | none, some result, _ => result
  | none, none, some x => .ok (.real x)
  | none, none, none => .ok (.string raw)

def value (line : Nat) (raw : String) : Option DataType → Except Stop Value
  | some type => typed line raw type
  | none => untyped raw

end Pseudocode.Input
