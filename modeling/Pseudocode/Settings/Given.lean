import Pseudocode.Binary64.Decimal
import Pseudocode.Settings
import Pseudocode.Text.Blank
import Pseudocode.Text.Quoted

/-! Settings as a host gives them: names with values of any kind. Every setting has two names, of which
the first wins; unknown names are ignored and a missing setting has its default. All settings are read
before the faults are reported, in the order of the settings. -/
namespace Pseudocode

/-- A value that a host gives for a setting. -/
inductive Given where
  | null
  | boolean (value : Bool)
  | integer (value : Int)
  | real (value : Binary64)
  | text (value : String)
  | list (items : List Given)
  | table (entries : List (String × Given))

namespace Given

mutual

/-- The text of a value inside another, where texts are quoted. -/
def inner : Given → String
  | .null => "None"
  | .boolean b => if b then "True" else "False"
  | .integer n => toString n
  | .real x => x.text
  | .text s => Text.quoted s
  | .list items => "[" ++ ", ".intercalate (innerItems items) ++ "]"
  | .table entries => "\x7b" ++ ", ".intercalate (innerEntries entries) ++ "\x7d"

def innerItems : List Given → List String
  | [] => []
  | item :: rest => item.inner :: innerItems rest

def innerEntries : List (String × Given) → List String
  | [] => []
  | (name, value) :: rest => (Text.quoted name ++ ": " ++ value.inner) :: innerEntries rest

end

/-- The text of a value, which is itself if it is a text. -/
def shown : Given → String
  | .text s => s
  | other => other.inner

end Given

/-- What is wrong with the value of a setting. -/
inductive SettingFault where
  | notInteger
  | unreadableInteger
  | integerTooLarge
  | fractional
  | notFinite
  | tooSmall
  | notText
  | notList
  | notCallable
  deriving DecidableEq, Repr

/-- A fault with the name under which the setting was given. -/
structure SettingError where
  name : String
  fault : SettingFault
  deriving DecidableEq, Repr

namespace Given

/-- Drops zeros and underscores in front of an unsigned numeral, keeping its last character and the
one before a point. -/
def dropLeadingZeros : List Char → Option (List Char)
  | '0' :: rest => go '0' rest
  | c :: rest => if c = '-' ∨ ('1' ≤ c ∧ c ≤ '9') then some (c :: rest) else none
  | [] => none
where
  go (before : Char) : List Char → Option (List Char)
    | [] => some [before]
    | '.' :: rest => some (before :: '.' :: rest)
    | c :: rest =>
      if c = '0' ∨ c = '_' then go c rest
      else if '1' ≤ c ∧ c ≤ '9' then some (c :: rest)
      else none

/-- Drops a fraction of one or more zeros. -/
def dropZeroFraction (text : List Char) : List Char :=
  match text.dropWhile (· ≠ '.') with
  | '.' :: '0' :: zeros => if zeros.all (· = '0') then text.takeWhile (· ≠ '.') else text
  | _ => text

/-- Drops underscores, unless one stands at an end or next to another. -/
def dropUnderscores (text : List Char) : List Char :=
  let alone := (text.zip (text.drop 1)).all fun (a, b) => a ≠ '_' ∨ b ≠ '_'
  if text.head? = some '_' ∨ text.getLast? = some '_' ∨ ¬alone then text
  else text.filter (· ≠ '_')

/-- An integer without leading zeros, with or without a minus. -/
def plainInteger? : List Char → Option Int
  | '-' :: digits => (magnitude? digits).map fun n => -(n : Int)
  | digits => (magnitude? digits).map fun n => (n : Int)
where
  magnitude? (digits : List Char) : Option Nat :=
    if digits.isEmpty ∨ ¬digits.all Char.isDigit ∨ (digits.head? = some '0' ∧ digits.length > 1) then
      none
    else some (digits.foldl (fun n d => 10 * n + (d.toNat - '0'.toNat)) 0)

/-- The numeral in the text of a setting: without white space around it, a plus, leading zeros, a
fraction of zeros and underscores between digits. -/
def numeral? (text : String) : Option (List Char) :=
  let unsigned := match Text.trimWhile Text.isSpace text.toList with
    | '+' :: '-' :: _ => []
    | '+' :: rest => rest
    | other => other
  (dropLeadingZeros unsigned).map fun digits => dropUnderscores (dropZeroFraction digits)

/-- The number of characters of the integer at the start of a numeral, with its sign. -/
def integerLength : List Char → Nat
  | '-' :: digits => 1 + run digits
  | digits => run digits
where
  run : List Char → Nat
    | '0' :: _ => 1
    | digits => (digits.takeWhile Char.isDigit).length

/-- The longest integer that is read from a text. -/
def maxIntegerLength : Nat := 4300

/-- The integer that the text of a setting writes. -/
def integerText (text : String) : Except SettingFault Int :=
  match numeral? text with
  | none => .error .unreadableInteger
  | some numeral =>
    if integerLength numeral > maxIntegerLength then .error .integerTooLarge
    else
      match plainInteger? numeral with
      | some n => .ok n
      | none => .error .unreadableInteger

/-- A whole real number becomes an integer if it fits into 64 bits. -/
def wholeReal (x : Binary64) : Except SettingFault Int :=
  match x.truncate with
  | .error _ => .error .notFinite
  | .ok n =>
    if !x.isIntegral then .error .fractional
    else if n.natAbs < Nat.pow 2 63 then .ok n
    else .error .integerTooLarge

def toInteger : Given → Except SettingFault Int
  | .integer n => .ok n
  | .boolean b => .ok (if b then 1 else 0)
  | .real x => wholeReal x
  | .text s => integerText s
  | _ => .error .notInteger

/-- A limit is at least one. -/
def toLimit (value : Given) : Except SettingFault Nat := do
  let n ← value.toInteger
  if n < 1 then .error .tooSmall else .ok n.toNat

/-- One text is one input; a list gives the texts of its items. -/
def toInputs : Given → Except SettingFault (List String)
  | .text s => .ok [s]
  | .list items => .ok (items.map shown)
  | _ => .error .notList

def toText : Given → Except SettingFault String
  | .text s => .ok s
  | _ => .error .notText

def toSeed : Given → Except SettingFault (Option Int)
  | .null => .ok none
  | value => value.toInteger.map some

/-- Only a host can watch for a request to stop; a given value can only leave that out. -/
def toWatch : Given → Except SettingFault Unit
  | .null => .ok ()
  | _ => .error .notCallable

end Given

/-- A setting after reading: its value and what was wrong with it. -/
structure Setting (α : Type) where
  value : α
  errors : List SettingError

/-- Reads the setting with the given names. -/
def Setting.read (given : List (String × Given)) (names : List String) (fallback : α)
    (convert : Given → Except SettingFault α) : Setting α :=
  match names.findSome? fun name => (given.lookup name).map (name, ·) with
  | none => ⟨fallback, []⟩
  | some (name, value) =>
    match convert value with
    | .ok v => ⟨v, []⟩
    | .error fault => ⟨fallback, [⟨name, fault⟩]⟩

namespace Settings

/-- The settings that a host gives, or everything that is wrong with them. -/
def ofGiven (given : List (String × Given)) : Except (List SettingError) Settings :=
  let d : Settings := {}
  let limit (names : List String) (fallback : Nat) := Setting.read given names fallback Given.toLimit
  let maxSteps := limit ["maxSteps", "max_steps"] d.limits.maxSteps
  let timeoutMs := limit ["timeoutMs", "timeout_ms"] d.limits.timeoutMs
  let maxCallDepth := limit ["maxCallDepth", "max_call_depth"] d.limits.maxCallDepth
  let maxOutputEvents := limit ["maxOutputEvents", "max_output_events"] d.limits.maxOutputEvents
  let maxArrayElements := limit ["maxArrayElements", "max_array_elements"] d.limits.maxArrayElements
  let maxStringLength := limit ["maxStringLength", "max_string_length"] d.limits.maxStringLength
  let inputs := Setting.read given ["inputs"] d.inputs Given.toInputs
  let separator :=
    Setting.read given ["outputSeparator", "output_separator"] d.outputSeparator Given.toText
  let seed := Setting.read given ["randomSeed", "random_seed"] d.randomSeed Given.toSeed
  let watch := Setting.read given ["cancelCheck", "cancel_check"] () Given.toWatch
  let errors := maxSteps.errors ++ timeoutMs.errors ++ maxCallDepth.errors ++
    maxOutputEvents.errors ++ maxArrayElements.errors ++ maxStringLength.errors ++ inputs.errors ++
    separator.errors ++ seed.errors ++ watch.errors
  if errors.isEmpty then
    .ok {
      limits := {
        maxSteps := maxSteps.value, timeoutMs := timeoutMs.value
        maxCallDepth := maxCallDepth.value, maxOutputEvents := maxOutputEvents.value
        maxArrayElements := maxArrayElements.value, maxStringLength := maxStringLength.value }
      inputs := inputs.value, outputSeparator := separator.value, randomSeed := seed.value }
  else .error errors

/-- The settings that a client gives, with limits no higher than the defaults. -/
def ofClient (given : List (String × Given)) : Except (List SettingError) Settings := do
  let s ← ofGiven given
  return { s with limits := s.limits.clamp {} }

end Settings

end Pseudocode
