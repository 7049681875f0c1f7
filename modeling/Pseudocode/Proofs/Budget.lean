import Pseudocode.Proofs.Parts

/-! The budget of a run. No program runs for ever: what it does leads from part to part only finitely
often, with never more calls active than the limit allows, and the steps that are counted stay within
their limit but for the one that ends the run. -/
namespace Pseudocode

/-- Only a stop at the limit on steps is reported as such. -/
theorem Event.ofStop_stepLimit (line : Nat) (e : Stop) :
    (Event.ofStop line e).code = some .stepLimitExceeded ↔ e.isStepLimit = true := by
  cases e with
  | fault faultLine cause =>
    cases cause with
    | store fault =>
      simp only [Event.ofStop, Event.ofFault, RunFault.code, Stop.isStepLimit]
      split <;> simp
    | _ => simp [Event.ofStop, Event.ofFault, RunFault.code, Stop.isStepLimit]
  | _ => simp [Event.ofStop, Event.ofFault, RunFault.code, Stop.isStepLimit]

/-- The run failed, and its last event says that the steps ran out. -/
def Trace.OutOfSteps (t : Trace) : Prop :=
  t.success = false ∧ ∃ event ∈ t.events.getLast?, event.code = some .stepLimitExceeded

theorem Outcome.trace_outOfSteps (o : Outcome) (limit : Nat) :
    (o.trace limit).OutOfSteps ↔ ∃ e ∈ o.stop, e.isStepLimit = true := by
  unfold Trace.OutOfSteps Outcome.trace Outcome.events
  cases o.stop with
  | none => simp
  | some e => simp [Event.ofStop_stepLimit]

/-- The step beyond the limit is counted exactly when the run stops for want of steps. -/
theorem Program.outcome_steps (p : Program) (settings : Settings) (host : Host) :
    (p.outcome settings host).steps ≤ settings.limits.maxSteps + 1 ∧
      ((p.outcome settings host).steps = settings.limits.maxSteps + 1 ↔
        ∃ e ∈ (p.outcome settings host).stop, e.isStepLimit = true) := by
  have conducts := Run.program_conducts p.obeys_free settings host
  unfold Program.outcome
  split
  next c s ran =>
    obtain ⟨-, -, ready, -⟩ := conducts.of_ok ran
    have within : s.steps ≤ settings.limits.maxSteps := ready.steps
    refine ⟨Nat.le_succ_of_le within, ?_⟩
    simp only [Outcome.ofState, Option.mem_def, reduceCtorEq, false_and, exists_false, iff_false]
    omega
  next e s ran =>
    obtain ⟨-, -, due⟩ := conducts.of_error ran
    have limit : e.isStepLimit = true ↔ s.steps = settings.limits.maxSteps + 1 := due.limit
    exact ⟨due.steps, by simpa [Outcome.ofState] using limit.symm⟩

/-- Every run ends within its budget, whatever the program, the limits, the inputs and the host.
Nothing it does goes on for ever, at no moment are more calls active than the limit allows, and it
answers with a trace unless its time limit is no number of seconds. The trace counts at most one step
beyond the limit, and that one exactly when the run failed for want of steps. -/
theorem run_within_budget (p : Program) (settings : Settings) (host : Host) :
    Acc (fun b a => Activity.Leads (p.context settings host) a b) (.start p settings) ∧
    (∀ a, Activity.Reaches (p.context settings host) (.start p settings) a →
      a.calls.length ≤ settings.limits.maxCallDepth) ∧
    (settings.hasDeadline = true → ∃ trace, p.run settings host = .ok trace) ∧
    ∀ trace, p.run settings host = .ok trace →
      trace.steps ≤ settings.limits.maxSteps + 1 ∧
      (trace.steps = settings.limits.maxSteps + 1 ↔ trace.OutOfSteps) := by
  have sound := Activity.start_sound p.obeys_free settings host
  refine ⟨sound.accessible p.obeys_free.routines, fun a reaches => ?_, fun deadline => ?_, ?_⟩
  · exact (Activity.Reaches.sound p.obeys_free.routines reaches sound).depth
  · exact ⟨_, if_pos deadline⟩
  · intro trace ran
    unfold Program.run at ran
    split at ran
    · cases ran
      obtain ⟨bounded, counted⟩ := p.outcome_steps settings host
      exact ⟨bounded, counted.trans (Outcome.trace_outOfSteps _ _).symm⟩
    · cases ran

end Pseudocode
