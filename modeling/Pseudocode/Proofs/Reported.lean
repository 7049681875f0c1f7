import Pseudocode.Check.Basic
import Pseudocode.Proofs.Ends

/-! What a check reports. Some checks do nothing but report; what they do is said by the list of their
reports. -/
namespace Pseudocode

/-- The state after more reports. -/
def CheckState.reporting (s : CheckState) (more : List Report) : CheckState :=
  { s with reports := s.reports ++ more.toArray }

namespace CheckState

theorem reporting_nil (s : CheckState) : s.reporting [] = s := by
  simp [reporting]

theorem reporting_append (s : CheckState) (first second : List Report) :
    (s.reporting first).reporting second = s.reporting (first ++ second) := by
  simp [reporting, Array.append_assoc]

theorem reporting_inj {s : CheckState} {first second : List Report} (same : s.reporting first = s.reporting second) :
    first = second := by
  have reports := congrArg (fun t => t.reports.toList) same
  simpa [reporting] using reports

end CheckState

namespace Check

/-- The check issues the reports, in this order, and does nothing else. -/
def Issues (m : Check Unit) (more : List Report) : Prop := ∀ s, m s = .ok ⟨⟩ (s.reporting more)

section Laws

variable {m n : Check Unit} {first second more : List Report} {α : Type}

theorem issues_pure : Issues (pure ⟨⟩) [] := fun s => congrArg _ s.reporting_nil.symm

theorem issues_report (place : Position) (finding : Finding) :
    Issues (report place finding) [⟨place, finding⟩] := by
  intro s
  show EStateM.Result.ok _ _ = _
  simp [CheckState.reporting]

theorem Issues.bind (before : Issues m first) (after : Issues n second) :
    Issues (m >>= fun _ => n) (first ++ second) := by
  intro s
  rw [bind_of_ok (before s), after, CheckState.reporting_append]

theorem issues_ite {c : Prop} [Decidable c] (reports : Issues m more) :
    Issues (if c then m else pure ⟨⟩) (if c then more else []) := by
  split
  · exact reports
  · exact issues_pure

theorem issues_forM {f : α → Check PUnit} {reports : α → List Report}
    (each : ∀ a, Issues (f a) (reports a)) (all : List α) :
    Issues (all.forM f) (all.flatMap reports) := by
  induction all with
  | nil => exact issues_pure
  | cons a rest ih =>
    rw [List.flatMap_cons]
    exact (each a).bind ih

/-- What a check reports is determined. -/
theorem Issues.unique (reports : Issues m first) (others : Issues m second) : first = second := by
  have same := (reports .initial).symm.trans (others .initial)
  exact CheckState.reporting_inj (EStateM.Result.ok.inj same).2

end Laws

end Check

end Pseudocode
