import Pseudocode.Check.Basic

/-! Global names that a routine may read too early. A routine is first called on the least line of the
main program with a call of some routine from which it can be reached; `firstLines` finds that line by
passing lines on from callers to callees until they have gone through every routine. -/
namespace Pseudocode

/-- Passes the line of one caller on to a callee. -/
def passLine (lines : Table Nat) (callee caller : String) : Table Nat :=
  match lines.get? caller with
  | none => lines
  | some line =>
    match lines.get? callee with
    | none => lines.set callee line
    | some known => if line < known then lines.set callee line else lines

/-- Passes every known line on by one call. -/
def passLines (callers : Table (List String)) (lines : Table Nat) : Table Nat :=
  callers.foldl (fun lines (callee, names) =>
    names.foldl (fun lines caller => passLine lines callee caller) lines) lines

/-- The first line of the main program from which each routine can be reached. A shortest way from the
main program to a routine passes each callee once, so as many rounds as there are callees are enough. -/
def firstLines (firstCalls : Table Nat) (callers : Table (List String)) : Table Nat :=
  callers.length.repeat (passLines callers) firstCalls

namespace Check

/-- Reports global names that are declared after the first call of a routine that reads them. -/
def reportLateGlobals : Check Unit := do
  let s ← get
  let lines := firstLines s.firstCalls s.callers
  s.globalReads.forM fun (routine, reads) =>
    match lines.get? routine with
    | none => pure ()
    | some callLine => reads.forM fun (name, read) => do
      if callLine < read.declaredLine then
        report read.position (.lateGlobal name read.declaredLine routine callLine)

end Check

end Pseudocode
