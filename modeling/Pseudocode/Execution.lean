import Pseudocode.Analysis
import Pseudocode.Trace

/-! Execution of a program text. Only a text without errors is run; otherwise each error is an event of
the trace and no statement is executed. -/
namespace Pseudocode

/-- An error of the analysis as an event. -/
def Event.ofDiagnostic (d : Diagnostic) : Event where
  kind := if d.code = .internalError then .system else .error
  text := d.message
  line := if d.line = 0 then none else some d.line
  code := some d.code

/-- The trace of a text with errors. -/
def Trace.rejected (errors : List Diagnostic) : Trace := ⟨errors.map Event.ofDiagnostic, false, 0⟩

namespace Analysis

/-- Runs an analysed program if it is valid. -/
def execute (a : Analysis) (settings : Settings) (host : Host) : Except Overflow Trace :=
  if a.isValid then a.reading.program.run settings host else .ok (.rejected a.errors)

end Analysis

/-- Analyses a text and runs it if it is valid. -/
def execute (source : String) (settings : Settings) (host : Host) : Except Overflow Trace :=
  (Analysis.ofText settings.limits source).execute settings host

end Pseudocode
