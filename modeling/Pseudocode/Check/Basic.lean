import Pseudocode.Finding
import Pseudocode.Table
import Pseudocode.Text.Case

/-! What a check of a program keeps track of: the symbols in scope, the findings so far, the routine
being checked, and for each routine where it is called and which global names it reads. Nothing stops
at the first finding; a `CheckFault` arises only from a tree that no text can give, or from indexing
an array whose bounds are not known. -/
namespace Pseudocode

/-- Why a program cannot be checked to its end. -/
inductive CheckFault where
  | noRule (node : String)
  | unknownBounds
  | noPart (node part : String)
  deriving DecidableEq, Repr

/-- What an error that is no one's fault but the checker's is called. -/
def CheckFault.kind : CheckFault → String
  | .noRule _ | .unknownBounds => "TypeError"
  | .noPart .. => "AttributeError"

def CheckFault.message : CheckFault → String
  | .noRule node => s!"No validator for {node}"
  | .unknownBounds => "object of type 'NoneType' has no len()"
  | .noPart node part => s!"'{node}' object has no attribute '{part}'"

/-- A finding with the place it is about. -/
structure Report where
  position : Position
  finding : Finding
  deriving DecidableEq, Repr

def Report.diagnostic (r : Report) : Diagnostic := r.finding.diagnostic r.position

/-- The first place where a routine reads a global name, and the line of the name's declaration. -/
structure GlobalRead where
  declaredLine : Nat
  position : Position
  deriving DecidableEq, Repr

structure CheckState where
  symbols : SymbolTable
  reports : Array Report
  routine : Option Symbol
  firstCalls : Table Nat
  callers : Table (List String)
  globalReads : Table (Table GlobalRead)

def CheckState.initial : CheckState := ⟨.empty, #[], none, [], [], []⟩

abbrev Check := EStateM CheckFault CheckState

namespace Check

def report (position : Position) (finding : Finding) : Check Unit :=
  modify fun s => { s with reports := s.reports.push ⟨position, finding⟩ }

def lookup (name : String) : Check (Option Found) := return (← get).symbols.lookup name

/-- The type with the given name; an unknown or unsupported name is reported. -/
def namedType (position : Position) (name : String) : Check (Option DataType) := do
  if unsupportedTypeNames.contains name then
    report position (.unsupportedType name)
    return none
  match DataType.ofName? name with
  | some type => return some type
  | none =>
    report position (.unknownType name)
    return none

def optionalType (position : Position) : Option String → Check (Option DataType)
  | none => return none
  | some name => namedType position name

/-- Variables are expected to start with a small letter. -/
def checkName (position : Position) (symbol : Symbol) : Check Unit := do
  let isVariable := symbol.kind = .variable ∨ symbol.kind = .array ∨ symbol.kind = .parameter
  if isVariable ∧ Text.startsUpper symbol.name then report position (.naming symbol.name)

/-- Declares a symbol in the innermost scope; answers whether the name was free. -/
def declare (position : Position) (symbol : Symbol) : Check Bool := do
  checkName position symbol
  let s ← get
  match s.symbols.lookupLocal symbol.name with
  | none =>
    set { s with symbols := s.symbols.setCurrent (s.symbols.current ++ [symbol]) }
    return true
  | some existing =>
    report position
      (if existing.kind.isRoutine || symbol.kind.isRoutine then
        .redeclaredIdentifier symbol.name existing.line
      else .redeclaredVariable symbol.name existing.line)
    return false

def enterScope : Check Unit := modify fun s => { s with symbols := s.symbols.enter }

/-- Reports the variables of a scope that were never read. -/
def reportUnused (scope : List Symbol) : Check Unit :=
  scope.forM fun symbol => do
    if (symbol.kind = .variable ∨ symbol.kind = .array) ∧ !symbol.used then
      report ⟨symbol.line, 0⟩ (.unused symbol.name)

def leaveScope : Check Unit := do
  let s ← get
  match s.symbols.exit with
  | .error _ => return
  | .ok (scope, symbols) =>
    set { s with symbols }
    reportUnused scope

/-- Notes that a name is read: its symbol is used, and a global name read inside a routine is
remembered with the first place. -/
def noteRead (position : Position) (found : Found) : Check Unit := do
  let name := found.symbol.name
  modify fun s =>
    let s := { s with symbols := s.symbols.use name }
    match s.routine with
    | some routine =>
      if found.isGlobal ∧ !found.symbol.kind.isRoutine then
        let reads := (s.globalReads.get? routine.name).getD []
        let read := (reads.get? name).getD ⟨found.symbol.line, position⟩
        { s with globalReads := s.globalReads.set routine.name (reads.set name read) }
      else s
    | none => s

/-- Notes a call of a routine: its line in the main program, or the routine that makes it. -/
def noteCall (callee : String) (line : Nat) : Check Unit :=
  modify fun s =>
    match s.routine with
    | none =>
      { s with firstCalls := s.firstCalls.set callee (min line ((s.firstCalls.get? callee).getD line)) }
    | some routine =>
      let known := (s.callers.get? callee).getD []
      let known := if known.contains routine.name then known else known ++ [routine.name]
      { s with callers := s.callers.set callee known }

end Check

end Pseudocode
