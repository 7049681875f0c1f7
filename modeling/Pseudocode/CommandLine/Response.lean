import Pseudocode.CommandLine.Options
import Pseudocode.Json.Result

/-! What the command line answers: pieces of text for the two output streams and an exit status. -/
namespace Pseudocode.CommandLine

/-- A piece of text for standard output or for the error stream. -/
inductive Write where
  | out (text : String)
  | err (text : String)
  deriving DecidableEq, Repr

namespace Write

/-- The whole text on standard output. -/
def outText (writes : List Write) : String :=
  writes.foldl (fun text w => match w with | .out more => text ++ more | .err _ => text) ""

/-- The whole text on the error stream. -/
def errText (writes : List Write) : String :=
  writes.foldl (fun text w => match w with | .err more => text ++ more | .out _ => text) ""

def outLine (line : String) : Write := .out (line ++ "\n")

def errLine (line : String) : Write := .err (line ++ "\n")

end Write

/-- Exit statuses: all is well, the program has or made an error, the command line is wrong. -/
inductive Status where
  | fine
  | failed
  | misuse
  deriving DecidableEq, Repr

def Status.code : Status → Nat
  | .fine => 0
  | .failed => 1
  | .misuse => 2

def Status.ofSuccess (success : Bool) : Status := if success then .fine else .failed

structure Response where
  writes : List Write
  status : Status

/-- Inputs as one text: values between commas, trimmed, empty ones left out. -/
def splitInputs (raw : String) : List String :=
  ((raw.toList.splitOn ',').map fun part => Text.trim (String.ofList part)).filter (!·.isEmpty)

def Options.givenInputs (o : Options) : List String := (o.inputs.map splitInputs).getD []

/-- The number of INPUT statements in a text. -/
def countInputs (scan : Scan) : Nat := scan.tokens.countP fun t => t.kind == .keyword .INPUT

/-- Lines about the phases of the work, for a user who asked for them. -/
def Options.log (o : Options) (lines : List String) : List Write :=
  if o.verbose then lines.map Write.errLine else []

def scanLog (scan : Scan) : String :=
  s!"lexer: Tokenized {scan.allTokens.length} tokens ({scan.errors.length} lexical errors)"

/-- The log of an analysis. -/
def analysisLog (a : Analysis) : List String :=
  let statements := a.reading.program.body.length
  let syntaxErrors := a.reading.errors.length
  let lexicalErrors := a.scan.errors.length
  [scanLog a.scan, s!"parser: Parsed {statements} top-level statements ({syntaxErrors} syntax errors)"]
    ++ match a.review with
      | .error _ => ["engine: Validation fault"]
      | .ok review =>
        let errors := review.errors.length
        let warnings := review.warnings.length
        let counts := s!"{lexicalErrors} lexical, {syntaxErrors} syntax, {errors} semantic errors"
        [s!"validator: Validation finished: {errors} errors, {warnings} warnings",
          s!"engine: Analysis: {counts}, {warnings} warnings"]

/-- The log of a run. -/
def runLog (a : Analysis) (t : Trace) : List String :=
  let result := if t.success then "ok" else "failed"
  let finished :=
    s!"interpreter: Run finished after {t.steps} steps ({t.events.length} events, {result})"
  if a.isValid then [finished] else []

/-- The answer to a request to check a text. -/
def Options.checkResponse (o : Options) (source : String) : Response :=
  let a := Analysis.ofText {} source
  let report :=
    if o.json then [.outLine a.toJson.render]
    else
      (a.errors ++ a.warnings).map (fun d => Write.errLine (d.withContext source)) ++
        if a.isValid then [.outLine s!"OK ({a.warnings.length} warning(s))"] else []
  ⟨o.log (analysisLog a) ++ report, .ofSuccess a.isValid⟩

def eventWrite (e : Event) : Write :=
  if e.kind = .output then .outLine e.text else .errLine e.text

/-- The answer to a request to run a text, from its trace and the milliseconds it took. -/
def Options.runResponse (o : Options) (a : Analysis) (t : Trace) (elapsed : String) : Response :=
  let report :=
    if o.json then [.outLine (t.toJson elapsed).render] else t.events.map eventWrite
  ⟨o.log (analysisLog a ++ runLog a t) ++ report, .ofSuccess t.success⟩

end Pseudocode.CommandLine
