import Pseudocode.Run.Fault
import Pseudocode.Settings

/-! The state of a run and the steps it is made of. Every statement, and every return of a loop to its
condition, is one step; a step is refused beyond the limit, after the time limit, or when the host
asks to stop. The state is kept when a run stops, so that what it has put out is not lost. -/
namespace Pseudocode

/-- A line of output and the line of the statement that made it. -/
structure Output where
  text : String
  line : Nat
  deriving DecidableEq, Repr

structure RunState where
  memory : Memory
  env : Environment
  steps : Nat
  line : Nat
  inputs : List String
  outputs : Array Output
  dropped : Nat
  random : Random

/-- What stays the same during a run. -/
structure RunContext where
  settings : Settings
  host : Host
  routines : List (Routine Stmt)

/-- The routine that a name calls, which is the last one declared with it. -/
def RunContext.routine? (ctx : RunContext) (name : String) : Option (Routine Stmt) :=
  ctx.routines.reverse.find? (·.name == some name)

abbrev Run := EStateM Stop RunState

namespace Run

def stop (line : Nat) (fault : RunFault) : Run α := throw (.fault line fault)

/-- Counts one step and enforces the limits on them. -/
def tick (ctx : RunContext) (line : Nat) : Run Unit := do
  modify fun s => { s with steps := s.steps + 1 }
  let step := (← get).steps
  if step > ctx.settings.limits.maxSteps then stop line .stepLimit
  else if ctx.host.elapsedMs step > ctx.settings.limits.timeoutMs then stop line .timeout
  else if ctx.host.isCancelled step then stop line .cancelled

/-- The number of times that a loop can come around: each time is a step. -/
def roundsLeft (ctx : RunContext) : Run Nat :=
  return ctx.settings.limits.maxSteps + 1 - (← get).steps

/-- Runs in another environment and comes back to this one, however it ends. -/
def inEnvironment (env : Environment) (body : Run α) : Run α := fun s =>
  let outer := s.env
  match body { s with env } with
  | .ok a s => .ok a { s with env := outer }
  | .error e s => .error e { s with env := outer }

/-- Continues on a line after `body`, however it ends. -/
def thenAtLine (line : Nat) (body : Run α) : Run α := fun s =>
  match body s with
  | .ok a s => .ok a { s with line }
  | .error e s => .error e { s with line }

/-- Changes the memory and answers something about the change. -/
def withMemory (change : Memory → α × Memory) : Run α :=
  modifyGet fun s =>
    let memory := s.memory
    let (a, memory) := change memory
    (a, { s with memory })

def findBinding (name : String) : Run (Option BindingId) := do
  let s ← get
  return s.memory.find s.env name

def lookup (name : String) : Run (Option Binding) := do
  let s ← get
  return s.memory.lookup s.env name

/-- Defines a name in the innermost frame. -/
def define (name : String) (binding : Binding) : Run BindingId := do
  let env := (← get).env
  withMemory (·.define env name binding)

/-- Refuses a text that is too long. -/
def checkLength (ctx : RunContext) (line length : Nat) : Run Unit := do
  let limit := ctx.settings.limits.maxStringLength
  if length > limit then stop line (.textTooLong limit)

/-- The text of a value, under the limit on texts. -/
def shown (ctx : RunContext) (line : Nat) (value : Value) : Run String := do
  let memory := (← get).memory
  let limit := ctx.settings.limits.maxStringLength
  match memory.textWithin limit memory.arrays.size value with
  | .ok text => return text
  | .error .tooLong => stop line (.textTooLong limit)
  | .error (.noText (.overflow _)) => throw .overflow
  | .error (.noText .endless) => throw .endless

/-- Stops because of a store that failed: a number that does not fit is reported where the run is,
anything else as `report` says. -/
def storeFailed (line : Nat) (report : StoreFault → RunFault) : StoreFault → Run α
  | .overflow _ => throw .overflow
  | .endless => throw .endless
  | fault => stop line (report fault)

/-- The array that a name holds. -/
def arrayNamed (line : Nat) (name : String) : Run ArrayId := do
  match ← lookup name with
  | none => stop line (.undeclared name)
  | some binding =>
    match binding.value with
    | .array id => return id
    | _ => stop line (.notArray name)

def assign (line : Nat) (name : String) (value : Value) : Run Unit := do
  let env := (← get).env
  match ← withMemory (·.assign env name value) with
  | .ok _ => return
  | .error fault =>
    storeFailed line (fun
      | .constant _ => .assignedConstant name
      | other => .store other) fault

def assignElement (line : Nat) (id : ArrayId) (indices : List Int) (value : Value) : Run Unit := do
  let failed : Option StoreFault ← withMemory fun (memory : Memory) =>
    match (memory.arrays[id]?).map (fun (cell : ArrayCell) => cell.place indices value) with
    | some (.ok (offset, kept)) => (none, memory.setElement id offset kept)
    | some (.error fault) => (some fault, memory)
    | none => (none, memory)
  match failed with
  | none => return
  | some fault => storeFailed line .store fault

end Run

end Pseudocode
