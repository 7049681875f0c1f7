import Pseudocode.Analysis
import Pseudocode.Proofs.ReviewedCode
import Pseudocode.Proofs.Traversal

/-! Checks that a run makes again. A call looks for its callee, counts its arguments and wants names
where they are passed by reference, and a declaration counts the elements of its array, although the
check of the program has done so before. In a program without errors none of these ever fails. -/
namespace Pseudocode

theorem Analysis.review_of_valid {a : Analysis} (valid : a.isValid = true) :
    ∃ review, a.review = .ok review ∧ review.errors = [] := by
  have none : a.errors = [] := List.isEmpty_iff.mp valid
  unfold Analysis.errors at none
  split at none
  next review reviewed =>
    refine ⟨review, reviewed, ?_⟩
    have sorted := List.mergeSort_perm (a.scan.errors ++ a.reading.errors ++ review.errors)
      Diagnostic.notAfter
    rw [show List.mergeSort _ _ = [] from none] at sorted
    exact (List.append_eq_nil_iff.mp sorted.symm.eq_nil).2
  next => cases none

/-- In a program that obeys what a check makes sure of, a run fails at no check of its calls, if every
loop is whole, and at no check of the size of an array. -/
theorem Program.outcome_reviewed {p : Program} {settings : Settings} {host : Host} {whole : Prop}
    (obeys : p.Obeys (.reviewed (p.context settings host) whole settings.limits.maxArrayElements))
    {stop : Stop} (stopped : (p.outcome settings host).stop = some stop) :
    (whole → stop.isCallFault = false) ∧ stop.isArrayFault = false := by
  have conducts := Run.program_conducts obeys settings host
  unfold Program.outcome at stopped
  split at stopped
  next => cases stopped
  next e s ran =>
    cases stopped
    obtain ⟨-, -, due⟩ := conducts.of_error ran
    refine ⟨fun holds => Bool.eq_false_iff.mpr fun blamed => ?_, Bool.eq_false_iff.mpr fun blamed => ?_⟩
    · obtain ⟨asValue, callee, arguments, permitted, misfit⟩ := due.call blamed
      exact misfit (permitted holds)
    · obtain ⟨bounds, elementType, ⟨-, small, -⟩, large⟩ := due.array blamed
      exact absurd small (Int.not_le.mpr large)

/-- A run of a valid text never fails at a check that the analysis has made before it: whatever the
limits, the inputs, the seed and the host, no callee is missing, is a procedure where a value is wanted,
is given the wrong number of arguments or no name for a BYREF parameter, and no array is too large. -/
theorem valid_run_repeats_no_failure (source : String) (settings : Settings) (host : Host)
    (valid : (Analysis.ofText settings.limits source).isValid = true) :
    ∀ stop ∈ ((Analysis.ofText settings.limits source).reading.program.outcome settings host).stop,
      stop.isCallFault = false ∧ stop.isArrayFault = false := by
  intro stop stopped
  obtain ⟨review, reviewed, errors⟩ := Analysis.review_of_valid valid
  rw [Analysis.review_ofText] at reviewed
  rw [Analysis.reading_ofText] at stopped
  have obeys := Review.obeys reviewed errors (Program.context _ settings host)
    (Program.context_routines _ settings host)
  obtain ⟨calls, arrays⟩ := Program.outcome_reviewed obeys stopped
  exact ⟨calls (Reading.whole _ _), arrays⟩

/-- A text with a call by reference. -/
def referenceCall : String := "PROCEDURE p(BYREF x : REAL)\nENDPROCEDURE\nn <- 1\nCALL p(n)"

theorem referenceCall_repeats_no_failure : (Analysis.ofText {} referenceCall).isValid = true ∧
    ∀ stop ∈ ((Analysis.ofText {} referenceCall).reading.program.outcome {} {}).stop,
      stop.isCallFault = false ∧ stop.isArrayFault = false := by
  have valid : (Analysis.ofText {} referenceCall).isValid = true := by decide +kernel
  exact ⟨valid, valid_run_repeats_no_failure referenceCall {} {} valid⟩

end Pseudocode
