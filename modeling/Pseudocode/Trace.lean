import Pseudocode.Run.Statement

/-! The trace of a run: its lines of output, then a notice if some were dropped, then the event that
ended the run early if there was one. -/
namespace Pseudocode

inductive EventKind where
  | output
  | error
  | system
  deriving DecidableEq, Repr

def EventKind.text : EventKind → String
  | .output => "output"
  | .error => "error"
  | .system => "system"

structure Event where
  kind : EventKind
  text : String
  line : Option Int
  code : Option Code
  deriving DecidableEq, Repr

namespace Event

def ofOutput (o : Output) : Event := ⟨.output, o.text, some o.line, none⟩

def ofFault (line : Nat) (fault : RunFault) : Event :=
  ⟨.error, s!"Line {line}: Runtime Error - {fault.message}", some line, some fault.code⟩

/-- The event that ends a run, which was at a line when it stopped. -/
def ofStop (line : Nat) : Stop → Event
  | .fault faultLine fault => ofFault faultLine fault
  | .overflow => ofFault line .overflow
  | .endless => ofFault line .stackOverflow
  | .engine fault => ⟨.system, s!"Internal error: {fault.message}", none, some .internalError⟩

/-- The notice that lines of output were dropped. -/
def outputLimit (limit dropped : Nat) : Event :=
  let notice := s!"Output limit of {limit} events reached; {dropped} further OUTPUT event(s) dropped"
  ⟨.system, notice, none, some .outputLimit⟩

end Event

structure Trace where
  events : List Event
  success : Bool
  steps : Nat
  deriving DecidableEq, Repr

/-- How a run went: what it put out, how much of that was dropped, and why it stopped early if it
did, with the line it was at. -/
structure Outcome where
  outputs : List Output
  dropped : Nat
  stop : Option Stop
  line : Nat
  steps : Nat

namespace Outcome

def ofState (stop : Option Stop) (s : RunState) : Outcome :=
  ⟨s.outputs.toList, s.dropped, stop, s.line, s.steps⟩

def events (o : Outcome) (limit : Nat) : List Event :=
  o.outputs.map Event.ofOutput ++
    (if o.dropped = 0 then [] else [Event.outputLimit limit o.dropped]) ++
    (o.stop.map (Event.ofStop o.line)).toList

def trace (o : Outcome) (limit : Nat) : Trace := ⟨o.events limit, o.stop.isNone, o.steps⟩

end Outcome

/-- The state in which a program starts. -/
def RunState.initial (settings : Settings) : RunState where
  memory := .initial
  env := Memory.globals
  steps := 0
  line := 0
  inputs := settings.inputs
  outputs := #[]
  dropped := 0
  random := .ofSeed (settings.randomSeed.getD 0)

namespace Program

def outcome (p : Program) (settings : Settings) (host : Host) : Outcome :=
  match Run.program ⟨settings, host, p.routines⟩ p (.initial settings) with
  | .ok _ s => .ofState none s
  | .error stop s => .ofState (some stop) s

/-- Runs a program. The time limit must be a number of seconds. -/
def run (p : Program) (settings : Settings) (host : Host) : Except Overflow Trace :=
  if settings.hasDeadline then
    .ok ((p.outcome settings host).trace settings.limits.maxOutputEvents)
  else .error .quotientToReal

end Program

end Pseudocode
