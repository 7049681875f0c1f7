import Pseudocode.Binary64

/-! Settings of a run: its limits, the texts that INPUT statements consume, the separator of OUTPUT
values and the seed of random numbers. The host adds what only it can know, the time and whether the
run has been cancelled, each as it stands at a step. -/
namespace Pseudocode

structure Limits where
  maxSteps : Nat := 100000
  timeoutMs : Nat := 5000
  maxCallDepth : Nat := 64
  maxOutputEvents : Nat := 1000
  maxArrayElements : Nat := 100000
  maxStringLength : Nat := 100000
  deriving DecidableEq, Repr

/-- Each limit at most that of `bound`. -/
def Limits.clamp (limits bound : Limits) : Limits where
  maxSteps := min limits.maxSteps bound.maxSteps
  timeoutMs := min limits.timeoutMs bound.timeoutMs
  maxCallDepth := min limits.maxCallDepth bound.maxCallDepth
  maxOutputEvents := min limits.maxOutputEvents bound.maxOutputEvents
  maxArrayElements := min limits.maxArrayElements bound.maxArrayElements
  maxStringLength := min limits.maxStringLength bound.maxStringLength

structure Settings where
  limits : Limits := {}
  inputs : List String := []
  outputSeparator : String := " "
  randomSeed : Option Int := none
  deriving DecidableEq, Repr

/-- A time limit in seconds must be a finite real number. -/
def Settings.hasDeadline (s : Settings) : Bool :=
  (Binary64.ofRatio false s.limits.timeoutMs 1000).isFinite

/-- What a host observes at each step: milliseconds since the start, and a request to stop. -/
structure Host where
  elapsedMs : Nat → Nat := fun _ => 0
  isCancelled : Nat → Bool := fun _ => false

end Pseudocode
