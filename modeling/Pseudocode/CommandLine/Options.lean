import Pseudocode.Numeral
import Pseudocode.Settings

/-! The options of the command line. A long option can be shortened as long as only one begins that
way, and its value can be attached with an equals sign; short options can be written together. A
negative number and a text with a space are values, not options. After `--` nothing is an option. -/
namespace Pseudocode.CommandLine

inductive Flag where
  | help | check | inputs | maxSteps | timeoutMs | maxDepth | json | verbose
  deriving DecidableEq, Repr

namespace Flag

def all : List Flag := [.help, .check, .inputs, .maxSteps, .timeoutMs, .maxDepth, .json, .verbose]

def long : Flag → String
  | .help => "--help" | .check => "--check" | .inputs => "--inputs" | .maxSteps => "--max-steps"
  | .timeoutMs => "--timeout-ms" | .maxDepth => "--max-depth" | .json => "--json"
  | .verbose => "--verbose"

def short? : Flag → Option Char
  | .help => some 'h'
  | .verbose => some 'v'
  | _ => none

def takesValue : Flag → Bool
  | .inputs | .maxSteps | .timeoutMs | .maxDepth => true
  | _ => false

def ofShort? (letter : Char) : Option Flag := all.find? (·.short? == some letter)

/-- The flag with exactly this long name. -/
def named? (name : List Char) : Option Flag := all.find? (·.long.toList == name)

/-- The flags whose long name begins like this. -/
def beginning (start : List Char) : List Flag := all.filter fun f => start.isPrefixOf f.long.toList

end Flag

/-- What the user asks for. -/
structure Options where
  file : Option String := none
  check : Bool := false
  inputs : Option String := none
  maxSteps : Option Int := none
  timeoutMs : Option Int := none
  maxDepth : Option Int := none
  json : Bool := false
  verbose : Bool := false
  deriving DecidableEq, Repr

/-- An argument by its form: a long flag with the value attached to it, one or more short flags written
together, something that looks like a flag but is none or could be several, or a plain value. -/
inductive Argument where
  | long (flag : Flag) (attached : Option (List Char))
  | short (letters : List Char)
  | unknown
  | ambiguous
  | plain (text : String)

/-- The name before an equals sign and the text behind it, if there is one. -/
def splitValue (text : List Char) : List Char × Option (List Char) :=
  match text.dropWhile (· ≠ '=') with
  | _ :: value => (text.takeWhile (· ≠ '='), some value)
  | [] => (text, none)

/-- A text without the line feed at its end. -/
def dropLineEnd (text : List Char) : List Char :=
  if text.getLast? = some '\n' then text.dropLast else text

/-- A minus and digits, with or without a point, on a line. -/
def isNegativeNumber (text : List Char) : Bool :=
  match dropLineEnd text with
  | '-' :: number =>
    match number.dropWhile Text.isDigit with
    | [] => !number.isEmpty
    | '.' :: fraction => !fraction.isEmpty && fraction.all Text.isDigit
    | _ => false
  | _ => false

namespace Argument

/-- What an argument that no flag begins like is: a value or a mistake. -/
def other (text : String) : Argument :=
  if isNegativeNumber text.toList || text.contains ' ' then .plain text else .unknown

/-- The letters of short flags. Behind the first an equals sign may stand if another one follows. -/
def lettersOf : List Char → List Char
  | letter :: '=' :: next :: rest => letter :: next :: rest
  | letters => letters

/-- An argument that begins with two dashes. -/
def ofLong (text : String) : Argument :=
  let (name, attached) := splitValue text.toList
  match Flag.named? name, Flag.beginning name with
  | some flag, _ | none, [flag] => .long flag attached
  | none, [] => other text
  | none, _ => .ambiguous

def ofText (text : String) : Argument :=
  match text.toList with
  | '-' :: '-' :: _ => ofLong text
  | '-' :: letter :: rest =>
    if (Flag.ofShort? letter).isSome then .short (lettersOf (letter :: rest)) else other text
  | _ => .plain text

def isAmbiguous : Argument → Bool
  | .ambiguous => true
  | _ => false

/-- The argument as a value of the flag in front of it. -/
def value? (text : String) : Option String :=
  if text = "--" then none
  else match ofText text with
    | .plain value => some value
    | _ => none

end Argument

/-- What the arguments come to. -/
inductive Request where
  | help
  | misuse
  | run (options : Options)
  deriving DecidableEq, Repr

namespace Options

/-- Sets a flag that takes no value. -/
def raise (o : Options) : Flag → Options
  | .check => { o with check := true }
  | .json => { o with json := true }
  | .verbose => { o with verbose := true }
  | _ => o

/-- Sets a flag that takes a value; `none` if the value must be an integer and is none. -/
def set? (o : Options) (flag : Flag) (value : String) : Option Options :=
  match flag with
  | .inputs => some { o with inputs := some value }
  | .maxSteps => (Numeral.integer? value).map fun n => { o with maxSteps := some n }
  | .timeoutMs => (Numeral.integer? value).map fun n => { o with timeoutMs := some n }
  | .maxDepth => (Numeral.integer? value).map fun n => { o with maxDepth := some n }
  | _ => none

/-- Gives a flag an empty value: no inputs at all, or a limit below the least one. -/
def clear (o : Options) : Flag → Options
  | .inputs => { o with inputs := some "" }
  | .maxSteps => { o with maxSteps := some 0 }
  | .timeoutMs => { o with timeoutMs := some 0 }
  | .maxDepth => { o with maxDepth := some 0 }
  | _ => o

end Options

/-- How far the arguments have been read. `waiting` is a flag whose value comes next, `stray` says that
an argument had no meaning, `atFile` that the file has just been read, and `closed` that `--` has. -/
structure Progress where
  options : Options := {}
  waiting : Option Flag := none
  stray : Bool := false
  atFile : Bool := false
  closed : Bool := false

namespace Progress

/-- A plain argument is the file, of which there is at most one. -/
def takeFile (p : Progress) (file : String) : Progress :=
  if p.options.file.isSome then { p with stray := true }
  else { p with options := { p.options with file := some file }, atFile := true }

/-- Gives a flag its value. -/
def takeValue (p : Progress) (flag : Flag) (value : String) : Except Request Progress :=
  match p.options.set? flag value with
  | some options => .ok { p with options, waiting := none }
  | none => .error .misuse

/-- Gives a flag the value attached to it; two dashes are an empty value. -/
def takeAttached (p : Progress) (flag : Flag) (value : String) : Except Request Progress :=
  if value = "--" then .ok { p with options := p.options.clear flag } else p.takeValue flag value

/-- A flag without a value. -/
def takeFlag (p : Progress) (flag : Flag) : Except Request Progress :=
  if flag = .help then .error .help else .ok { p with options := p.options.raise flag }

def takeLong (p : Progress) (flag : Flag) (attached : Option (List Char)) :
    Except Request Progress :=
  match attached, flag.takesValue with
  | some value, true => p.takeAttached flag (String.ofList value)
  | none, true => .ok { p with waiting := some flag }
  | some _, false => .error .misuse
  | none, false => p.takeFlag flag

/-- Short flags written together, all of which must be known before the first takes effect. -/
def takeShort (p : Progress) (letters : List Char) : Except Request Progress :=
  match letters.mapM Flag.ofShort? with
  | none => .error .misuse
  | some flags => flags.foldlM takeFlag p

/-- Reads the next argument; a mistake or a request for help ends the reading. The mark `--` has a
meaning only as long as there is no file, or directly behind it. -/
def step (p : Progress) (text : String) : Except Request Progress :=
  let q := { p with atFile := false }
  if p.closed then .ok (q.takeFile text)
  else
    match p.waiting with
    | some flag =>
      match Argument.value? text with
      | some value => q.takeValue flag value
      | none => .error .misuse
    | none =>
      if text = "--" then
        .ok { q with closed := true, stray := p.stray || (p.options.file.isSome && !p.atFile) }
      else
        match Argument.ofText text with
        | .plain file => .ok (q.takeFile file)
        | .long flag attached => q.takeLong flag attached
        | .short letters => q.takeShort letters
        | .unknown | .ambiguous => .ok { q with stray := true }

end Progress

/-- Reads the arguments of the command line. An ambiguous one is a mistake wherever it stands. -/
def Request.ofArguments (arguments : List String) : Request :=
  if (arguments.takeWhile (· ≠ "--")).any fun text => (Argument.ofText text).isAmbiguous then .misuse
  else
    match arguments.foldlM Progress.step {} with
    | .error request => request
    | .ok p => if p.waiting.isSome || p.stray then .misuse else .run p.options

namespace Options

/-- A limit from the command line, which must be at least one. -/
def limit (given : Option Int) (fallback : Nat) : Nat × Nat :=
  match given with
  | none => (fallback, 0)
  | some n => if n < 1 then (fallback, 1) else (n.toNat, 0)

/-- The settings that the options ask for, or the number of limits that are too small. -/
def settings (o : Options) (inputs : List String) : Except Nat Settings :=
  let d : Limits := {}
  let (maxSteps, badSteps) := limit o.maxSteps d.maxSteps
  let (timeoutMs, badTimeout) := limit o.timeoutMs d.timeoutMs
  let (maxCallDepth, badDepth) := limit o.maxDepth d.maxCallDepth
  let bad := badSteps + badTimeout + badDepth
  if bad = 0 then .ok { limits := { d with maxSteps, timeoutMs, maxCallDepth }, inputs }
  else .error bad

end Options

end Pseudocode.CommandLine
