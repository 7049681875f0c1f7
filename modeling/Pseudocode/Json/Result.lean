import Pseudocode.Execution
import Pseudocode.Json

/-! Results as JSON documents. What is not known is left out. -/
namespace Pseudocode

def Diagnostic.toJson (d : Diagnostic) : Json :=
  .record ([("lineNumber", .number (toString d.line)), ("message", .text d.message),
    ("code", .text d.code.text), ("severity", .text d.severity.text)] ++
    if d.column = 0 then [] else [("column", .number (toString d.column))])

def Analysis.toJson (a : Analysis) : Json :=
  .record [("isValid", .truth a.isValid), ("errors", .list (a.errors.map Diagnostic.toJson)),
    ("warnings", .list (a.warnings.map Diagnostic.toJson))]

def Event.toJson (e : Event) : Json :=
  .record ([("kind", .text e.kind.text), ("text", .text e.text)] ++
    (e.line.map fun line => ("line", Json.number (toString line))).toList ++
    (e.code.map fun code => ("code", Json.text code.text)).toList)

/-- A trace with the milliseconds that it took. -/
def Trace.toJson (t : Trace) (elapsed : String) : Json :=
  .record [("success", .truth t.success), ("events", .list (t.events.map Event.toJson)),
    ("executionTimeMs", .number elapsed), ("steps", .number (toString t.steps))]

end Pseudocode
