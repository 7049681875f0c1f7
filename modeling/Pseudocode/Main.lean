import Pseudocode.CommandLine.Session

/-! The program on the command line: sessions in the real world. Everything that is decided is decided
by the functions of a session; here files and lines are read, pieces of text are written, and the
clock is looked at. -/
namespace Pseudocode.CommandLine

/-- Writes a piece of text at once. -/
def Write.perform : Write → IO Unit
  | .out text => do
    let stream ← IO.getStdout
    stream.putStr text
    stream.flush
  | .err text => do
    let stream ← IO.getStderr
    stream.putStr text
    stream.flush

/-- A host that lets a run go on for `budget` steps and then ends its time. -/
def budgetHost (timeoutMs budget : Nat) : Host where
  elapsedMs := fun step => if step ≤ budget then 0 else timeoutMs + 1

/-- Runs with the real time limit. A run is a function of the steps it may take, so it is repeated
with twice as many until it ends by itself or the time is over. -/
partial def runTimed (a : Analysis) (settings : Settings) (started budget : Nat) :
    IO (Except Overflow Trace) := do
  let timeoutMs := settings.limits.timeoutMs
  match a.execute settings (budgetHost timeoutMs budget) with
  | .error cause => return .error cause
  | .ok trace =>
    let cutOff := (trace.events.getLast?.bind (·.code)) == some .timeout
    if cutOff && (← IO.monoMsNow) - started ≤ timeoutMs then
      runTimed a settings started (2 * budget)
    else return .ok trace

/-- Checks or runs a text and writes the result. -/
def perform (o : Options) (inputs : List String) (source : String) : IO Status := do
  let finish (response : Response) : IO Status := do
    response.writes.forM Write.perform
    return response.status
  if o.check then finish (o.checkResponse source)
  else
    let settings := (o.settings inputs).toOption.getD {}
    let settings := { settings with randomSeed := some (← IO.rand 0 (Nat.pow 2 62)) }
    let started ← IO.monoMsNow
    let a := Analysis.ofText settings.limits source
    match ← runTimed a settings started 10000 with
    | .ok trace => finish (o.runResponse a trace (toString ((← IO.monoMsNow) - started)))
    | .error cause =>
      Write.perform (.errLine cause.message)
      return .failed

/-- A line of standard input without its line break; `none` at the end. -/
def readLine? : IO (Option String) := do
  let line ← (← IO.getStdin).getLine
  if line.isEmpty then return none
  else return some (String.ofList (line.toList.takeWhile (· ≠ '\n')))

/-- Why a file cannot be read. -/
def readingFault : IO.Error → String
  | .noFileOrDirectory .. => "No such file or directory"
  | .permissionDenied .. => "Permission denied"
  | .inappropriateType .. => "Is a directory"
  | other => toString other

def performFile (o : Options) (file : String) : IO Status := do
  match ← (IO.FS.readFile file).toBaseIO with
  | .error fault =>
    Write.perform (.errLine (unreadableFile file (readingFault fault)))
    return .misuse
  | .ok contents =>
    let source := sourceOf contents
    let scan := Scan.ofText source
    (o.log [scanLog scan]).forM Write.perform
    let count := countInputs scan
    if o.asksForInputs count (← (← IO.getStdin).isTty) then
      Write.perform (.outLine (foundInputs count))
      Write.perform (.out inputsPrompt)
      perform o (splitInputs ((← readLine?).getD "")) source
    else perform o o.givenInputs source

/-- Reads blocks and runs them until the user leaves. -/
partial def performBlocks (o : Options) (pending : Pending) : IO Status := do
  Write.perform (.out pending.prompt)
  match ← readLine? with
  | none =>
    if !pending.isEmpty then discard <| perform o o.givenInputs pending.text
    return .fine
  | some line =>
    match LineEffect.of pending line with
    | .exit => return .fine
    | .more pending => performBlocks o pending
    | .skip => performBlocks o []
    | .finish text =>
      discard <| perform o o.givenInputs text
      performBlocks o []

def usage : String :=
  "usage: [-h] [--check] [--inputs INPUTS] [--max-steps N] [--timeout-ms N] [--max-depth N] " ++
    "[--json] [-v] [file]"

/-- A session with the given arguments. -/
def start (arguments : List String) : IO Status := do
  match Request.ofArguments arguments with
  | .help =>
    Write.perform (.outLine usage)
    return .fine
  | .misuse =>
    Write.perform (.errLine usage)
    return .misuse
  | .run o =>
    match o.settings [], o.file with
    | .error count, _ =>
      Write.perform (.errLine (invalidLimits count))
      return .misuse
    | .ok _, none | .ok _, some "" =>
      Write.perform (.outLine greeting)
      performBlocks o []
    | .ok _, some file => performFile o file

end Pseudocode.CommandLine

def main (arguments : List String) : IO UInt32 := do
  return (← Pseudocode.CommandLine.start arguments).code.toUInt32
