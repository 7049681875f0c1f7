import Pseudocode.Check.Statement
import Pseudocode.Program.Statement
import Pseudocode.Settings

/-! Analysis of a program text: scanning, reading and checking, with everything they report in the
order of the text. -/
namespace Pseudocode

/-- The tokens of a text, the program read from them, and the review of it or why there is none. -/
structure Analysis where
  scan : Scan
  reading : Reading
  review : Except CheckFault Review

namespace Analysis

/-- Analyses a text under the limit on the elements of arrays. -/
def ofText (limits : Limits) (source : String) : Analysis :=
  let scan := Scan.ofText source
  let reading := Reading.ofScan scan
  ⟨scan, reading, Review.ofProgram limits.maxArrayElements reading.program⟩

theorem reading_ofText (limits : Limits) (source : String) :
    (ofText limits source).reading = .ofScan (.ofText source) := by
  rw [ofText]

theorem review_ofText (limits : Limits) (source : String) :
    (ofText limits source).review =
      Review.ofProgram limits.maxArrayElements (Reading.ofScan (.ofText source)).program := by
  rw [ofText]

/-- The one error of an analysis that could not be carried out. -/
def internalError (fault : CheckFault) : Diagnostic :=
  { line := 0, column := 0, code := .internalError, severity := .error
    message := s!"Internal error: {fault.kind}: {fault.message}" }

def errors (a : Analysis) : List Diagnostic :=
  match a.review with
  | .ok review => Diagnostic.sort (a.scan.errors ++ a.reading.errors ++ review.errors)
  | .error fault => [internalError fault]

def warnings (a : Analysis) : List Diagnostic :=
  match a.review with
  | .ok review => Diagnostic.sort review.warnings
  | .error _ => []

def isValid (a : Analysis) : Bool := a.errors.isEmpty

end Analysis

end Pseudocode
