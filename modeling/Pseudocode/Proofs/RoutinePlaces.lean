import Pseudocode.Proofs.Budget
import Pseudocode.Proofs.CheckFaults
import Pseudocode.Proofs.Resources
import Pseudocode.Proofs.RoutineChecks
import Pseudocode.Proofs.SideBySide

/-! Where routines are declared is no matter to a program. A call finds its routine wherever it stands, so
a declaration is nothing but a step of its own; if there are steps enough, two programs with the same
statements and the same routines put out the same and end alike. What the checks of both report differs
at most in its order. -/
namespace Pseudocode

/-- The same program, but for the places of its routines, which have different names. -/
structure Program.Rearranged (p p' : Program) : Prop where
  statements : p.body.filter (·.routine?.isNone) = p'.body.filter (·.routine?.isNone)
  routines : p.routines.Perm p'.routines
  distinct : (p.routines.map (·.name)).Nodup

/-- The same lines were put out and as many dropped. -/
def Tally.SameOutput (t t' : Tally) : Prop := t'.outputs = t.outputs ∧ t'.dropped = t.dropped

/-- The states differ at most in the steps so far and in the line of the last statement. -/
def RunState.Level (s t : RunState) : Prop := RunState.Abreast Tally.SameOutput { s with line := t.line } t

namespace Run

/-- Two ends of runs at the top level: the same completion, or the same failure with the same event, unless
one of the two ran out of steps. -/
def SameEnd : EStateM.Result Stop RunState Completion → EStateM.Result Stop RunState Completion → Prop
  | .ok c s, .ok c' s' => c' = c ∧ s.Level s'
  | .error e s, .error e' s' => e.isStepLimit = true ∨ e'.isStepLimit = true ∨
      e' = e ∧ Event.ofStop s'.line e' = Event.ofStop s.line e ∧ s.tally.SameOutput s'.tally
  | .ok .., .error e' _ => e'.isStepLimit = true
  | .error e _, .ok .. => e.isStepLimit = true

theorem sameEnd_left {e : Stop} (out : e.isStepLimit = true) (s : RunState)
    (other : EStateM.Result Stop RunState Completion) : SameEnd (.error e s) other := by
  cases other with
  | ok => exact out
  | error => exact .inl out

theorem sameEnd_right {e : Stop} (out : e.isStepLimit = true) (s : RunState)
    (other : EStateM.Result Stop RunState Completion) : SameEnd other (.error e s) := by
  cases other with
  | ok => exact out
  | error => exact .inr (.inl out)

variable {ctx ctx' : RunContext}

theorem tick_idle {settings : Settings} {host : Host} (idle : host.Idle settings)
    (rs : List (Routine Stmt)) (line : Nat) (s : RunState) :
    tick ⟨settings, host, rs⟩ line s = if s.steps + 1 > settings.limits.maxSteps then
        .error (.fault line .stepLimit) { s with steps := s.steps + 1 }
      else .ok () { s with steps := s.steps + 1 } := by
  show (if s.steps + 1 > settings.limits.maxSteps then stop line .stepLimit
    else if host.elapsedMs (s.steps + 1) > settings.limits.timeoutMs then stop line .timeout
    else if host.isCancelled (s.steps + 1) then stop line .cancelled
    else pure () : Run Unit) { s with steps := s.steps + 1 } = _
  rw [if_neg (Nat.not_lt.mpr (idle.inTime _)), idle.goesOn]
  split <;> rfl

/-- A declared routine is a step of its own and nothing else. -/
theorem execBlock_routine (idle : ctx.host.Idle ctx.settings) (enter : Enter) (inRoutine : Bool)
    (r : Routine Stmt) (rest : List Stmt) (s : RunState) :
    execBlock ctx enter inRoutine (.routine r :: rest) s =
      if s.steps + 1 > ctx.settings.limits.maxSteps then
        .error (.fault r.position.line .stepLimit) { s with line := r.position.line, steps := s.steps + 1 }
      else execBlock ctx enter inRoutine rest { s with line := r.position.line, steps := s.steps + 1 } := by
  have begun : begins ctx (.routine r) s = if s.steps + 1 > ctx.settings.limits.maxSteps then
      .error (.fault r.position.line .stepLimit) { s with line := r.position.line, steps := s.steps + 1 }
    else .ok () { s with line := r.position.line, steps := s.steps + 1 } :=
    tick_idle idle ctx.routines r.position.line { s with line := r.position.line }
  rw [execBlock]
  split at begun
  next beyond =>
    rw [if_pos beyond]
    refine bind_of_error ?_
    rw [exec.eq_def]
    exact bind_of_error begun
  next within =>
    rw [if_neg within]
    have ran : exec ctx enter inRoutine (.routine r) s =
        .ok .normal { s with line := r.position.line, steps := s.steps + 1 } := by
      rw [exec.eq_def]
      exact bind_of_ok begun
    exact bind_of_ok ran

/-- A statement says on which line it is, if it is there. -/
theorem exec_line (enter : Enter) (inRoutine : Bool) {stmt : Stmt} (present : stmt.isMissing = false)
    (s : RunState) (line : Nat) :
    exec ctx enter inRoutine stmt { s with line } = exec ctx enter inRoutine stmt s := by
  have begun : begins ctx stmt { s with line } = begins ctx stmt s := by
    unfold begins
    rw [present]
    rfl
  rw [exec.eq_def]
  cases ran : begins ctx stmt s with
  | ok _ t => rw [bind_of_ok ran, bind_of_ok (begun.trans ran)]
  | error e t => rw [bind_of_error ran, bind_of_error (begun.trans ran)]

theorem exec_missing (enter : Enter) (inRoutine : Bool) {stmt : Stmt} (missing : stmt.isMissing = true)
    (s : RunState) :
    exec ctx enter inRoutine stmt s = .error (.engine (.noPart missingNode "line")) s := by
  have begun : begins ctx stmt s = .error (.engine (.noPart missingNode "line")) s := by
    unfold begins
    rw [if_pos missing]
    rfl
  rw [exec.eq_def]
  exact bind_of_error begun

/-- Two contexts with the same routines under a host that never stops a run match, as far as there are
steps. -/
theorem places_matches {settings : Settings} {host : Host} (idle : host.Idle settings)
    {rs rs' : List (Routine Stmt)}
    (routine : ∀ name, RunContext.routine? ⟨settings, host, rs'⟩ name =
      RunContext.routine? ⟨settings, host, rs⟩ name) :
    RunContext.Matches Tally.SameOutput (·.isStepLimit = true) ⟨settings, host, rs⟩
      ⟨settings, host, rs'⟩ where
  length := rfl
  elements := rfl
  separator := rfl
  routine := routine
  ticks line := by
    intro s s' abreast
    have counted : RunState.Abreast Tally.SameOutput { s with steps := s.steps + 1 }
        { s' with steps := s'.steps + 1 } :=
      ⟨abreast.memory, abreast.env, abreast.line, abreast.inputs, abreast.random, abreast.tally⟩
    unfold Ends
    rw [tick_idle idle rs, tick_idle idle rs']
    by_cases left : s.steps + 1 > settings.limits.maxSteps <;>
      by_cases right : s'.steps + 1 > settings.limits.maxSteps <;> simp only [left, right, if_true, if_false]
    · exact .inl rfl
    · rfl
    · rfl
    · exact ⟨trivial, counted⟩
  emits line text := by
    intro s s' abreast
    obtain ⟨outputs, dropped⟩ : s'.outputs = s.outputs ∧ s'.dropped = s.dropped := abreast.tally
    unfold emit
    rw [ends_modify, ends_modify, outputs, dropped]
    refine ⟨rfl, ?_⟩
    split
    · exact ⟨abreast.memory, abreast.env, abreast.line, abreast.inputs, abreast.random, rfl, rfl⟩
    · exact ⟨abreast.memory, abreast.env, abreast.line, abreast.inputs, abreast.random, rfl, rfl⟩
  rounds _ := .inr fun _ => rfl

variable {enter enter' : Enter}

theorem execBlock_places (matched : ctx.Matches Tally.SameOutput (·.isStepLimit = true) ctx')
    (idle : ctx.host.Idle ctx.settings) (idle' : ctx'.host.Idle ctx'.settings)
    (enters : EnterLockstep Tally.SameOutput (·.isStepLimit = true) enter enter')
    {body body' : List Stmt} (same : SameStatements body body') :
    ∀ s s' : RunState, s.Level s' →
      SameEnd (execBlock ctx enter false body s) (execBlock ctx' enter' false body' s') := by
  induction same with
  | nil => exact fun s s' level => ⟨rfl, level⟩
  | left r _ ih =>
    intro s s' level
    rw [execBlock_routine idle]
    split
    · exact sameEnd_left rfl _ _
    · exact ih _ s' ⟨level.memory, level.env, rfl, level.inputs, level.random, level.tally⟩
  | right r _ ih =>
    intro s s' level
    rw [execBlock_routine idle']
    split
    · exact sameEnd_right rfl _ _
    · exact ih s _ ⟨level.memory, level.env, rfl, level.inputs, level.random, level.tally⟩
  | both stmt _ ih =>
    intro s s' level
    rw [execBlock, execBlock]
    cases missing : stmt.isMissing with
    | true =>
      rw [bind_of_error (exec_missing enter false missing s),
        bind_of_error (exec_missing enter' false missing s')]
      exact .inr (.inr ⟨rfl, rfl, level.tally⟩)
    | false =>
      have ends := exec_lockstep matched enters false stmt { s with line := s'.line } s' level
      rw [ends_congr (exec_line enter false missing s s'.line)] at ends
      unfold Ends at ends
      cases ran : exec ctx enter false stmt s <;> cases ran' : exec ctx' enter' false stmt s' <;>
        simp only [ran, ran'] at ends
      case ok.ok c t c' t' =>
        obtain ⟨rfl, abreast⟩ := ends
        have level : t.Level t' :=
          ⟨abreast.memory, abreast.env, rfl, abreast.inputs, abreast.random, abreast.tally⟩
        rw [bind_of_ok ran, bind_of_ok ran']
        cases c' with
        | normal => exact ih t t' level
        | returned value line => exact ⟨rfl, level⟩
      case ok.error c t e' t' =>
        rw [bind_of_error ran']
        exact sameEnd_right ends _ _
      case error.ok e t c' t' =>
        rw [bind_of_error ran]
        exact sameEnd_left ends _ _
      case error.error e t e' t' =>
        rw [bind_of_error ran, bind_of_error ran']
        exact ends.imp_right fun known => known.imp_right fun ⟨same, abreast⟩ =>
          ⟨same, by rw [same, abreast.line], abreast.tally⟩

end Run

namespace Program

variable {p p' : Program} {settings : Settings} {host : Host}

theorem outcome_of_ok (ran : Run.program ⟨settings, host, p.routines⟩ p (.initial settings) = .ok c s) :
    p.outcome settings host = .ofState none s := by
  unfold outcome
  rw [ran]

theorem outcome_of_error (failed : Run.program ⟨settings, host, p.routines⟩ p (.initial settings) = .error e s) :
    p.outcome settings host = .ofState (some e) s := by
  unfold outcome
  rw [failed]

/-- Two runs with steps enough put out the same and end alike. -/
theorem outcome_places (rearranged : p.Rearranged p') (idle : host.Idle settings)
    (enough : (p.outcome settings host).steps ≤ settings.limits.maxSteps)
    (enough' : (p'.outcome settings host).steps ≤ settings.limits.maxSteps) :
    (p'.outcome settings host).outputs = (p.outcome settings host).outputs ∧
    (p'.outcome settings host).dropped = (p.outcome settings host).dropped ∧
    (p'.outcome settings host).stop.map (Event.ofStop (p'.outcome settings host).line) =
      (p.outcome settings host).stop.map (Event.ofStop (p.outcome settings host).line) := by
  obtain ⟨statements, routines, distinct⟩ := rearranged
  have routine (name : String) : RunContext.routine? ⟨settings, host, p'.routines⟩ name =
      RunContext.routine? ⟨settings, host, p.routines⟩ name := by
    have turned : p.routines.reverse.Perm p'.routines.reverse :=
      (List.reverse_perm _).trans (routines.trans (List.reverse_perm _).symm)
    exact (find?_perm (·.name) turned (by rw [List.map_reverse]; exact List.nodup_reverse.mpr distinct)
      (some name)).symm
  have matched := Run.places_matches idle routine
  have ends : Run.SameEnd (Run.program ⟨settings, host, p.routines⟩ p (.initial settings))
      (Run.program ⟨settings, host, p'.routines⟩ p' (.initial settings)) :=
    Run.execBlock_places matched idle idle (Run.enter_lockstep matched settings.limits.maxCallDepth)
      (.of_filter statements) _ _ ⟨rfl, rfl, rfl, rfl, rfl, rfl, rfl⟩
  -- A run that fails for want of steps counts one beyond the limit.
  have limited {q : Program} {e : Stop} {s : RunState}
      (within : (q.outcome settings host).steps ≤ settings.limits.maxSteps)
      (failed : Run.program ⟨settings, host, q.routines⟩ q (.initial settings) = .error e s) :
      ¬e.isStepLimit = true := fun out => by
    have beyond := (q.outcome_steps settings host).2.mpr ⟨e, by rw [outcome_of_error failed]; rfl, out⟩
    omega
  cases ran : Run.program ⟨settings, host, p.routines⟩ p (.initial settings) <;>
    cases ran' : Run.program ⟨settings, host, p'.routines⟩ p' (.initial settings) <;>
    rw [ran, ran'] at ends
  case ok.ok c s c' s' =>
    obtain ⟨-, level⟩ := ends
    obtain ⟨outputs, dropped⟩ : s'.outputs = s.outputs ∧ s'.dropped = s.dropped := level.tally
    rw [outcome_of_ok ran, outcome_of_ok ran']
    exact ⟨congrArg Array.toList outputs, dropped, rfl⟩
  case ok.error c s e' s' => exact absurd ends (limited enough' ran')
  case error.ok e s c' s' => exact absurd ends (limited enough ran)
  case error.error e s e' s' =>
    obtain ⟨rfl, event, outputs, dropped⟩ :=
      (ends.resolve_left (limited enough ran)).resolve_left (limited enough' ran')
    rw [outcome_of_error ran, outcome_of_error ran']
    exact ⟨congrArg Array.toList outputs, dropped, congrArg some event⟩

/-- A rearranged program is as tidy. -/
theorem Rearranged.tidy (rearranged : p.Rearranged p') (tidy : p.Tidy) : p'.Tidy := by
  obtain ⟨statements, routines, -⟩ := rearranged
  refine blockTidy_iff.mpr fun s member => blockTidy_iff.mp tidy s ?_
  cases plain : s.routine?.isNone with
  | true =>
    have kept : s ∈ p.body.filter (·.routine?.isNone) := by
      rw [statements]
      exact List.mem_filter.mpr ⟨member, plain⟩
    exact (List.mem_filter.mp kept).1
  | false =>
    obtain ⟨r, rfl⟩ := Stmt.routine_of_routine? plain
    have declared : r ∈ p.routines := routines.mem_iff.mpr (List.mem_filterMap.mpr ⟨_, member, rfl⟩)
    obtain ⟨s, member, found⟩ := List.mem_filterMap.mp declared
    cases s with
    | routine q => cases found; exact member
    | _ => cases found

end Program

/-- The errors of a review are those that were reported, in the same order. -/
theorem Review.errors_of_check {p : Program} {s : CheckState}
    (checked : Check.checkProgram limit p .initial = .ok ⟨⟩ s) :
    ∃ review, Review.ofProgram limit p = .ok review ∧
      review.errors = (s.reports.toList.filter (·.finding.severity = .error)).map Report.diagnostic := by
  refine ⟨⟨s.reports.toList⟩, ?_, ?_⟩
  · unfold ofProgram EStateM.run
    rw [checked]
  · unfold errors
    rw [List.filter_map]
    rfl

theorem Review.error_of_check {p : Program} (failed : Check.checkProgram limit p .initial = .error e s) :
    Review.ofProgram limit p = .error e := by
  unfold ofProgram EStateM.run
  rw [failed]

/-- A function that doubles a number. -/
def doubling : Routine Stmt where
  position := ⟨1, 1⟩
  kind := .function
  name := some "Double"
  params := [⟨"n", "INTEGER", .byValue, none⟩]
  returns := some "INTEGER"
  body := [.giveBack ⟨2, 2⟩ (some (.binary ⟨2, 11⟩ .times (.name ⟨2, 9⟩ "n") (.literal ⟨2, 13⟩ (.integer 2))))]

/-- A procedure that puts out a global number, doubled. -/
def telling : Routine Stmt where
  position := ⟨4, 1⟩
  kind := .procedure
  name := some "Tell"
  params := []
  returns := none
  body := [.output ⟨5, 2⟩ [.call ⟨5, 9⟩ "Double" [.name ⟨5, 16⟩ "x"]]]

/-- A program that stores a number and has it told. -/
def tellDouble : Program where
  body := [.routine doubling, .routine telling,
    .assign ⟨7, 1⟩ (.variable ⟨7, 1⟩ "x") (.literal ⟨7, 6⟩ (.integer 21)), .call ⟨8, 1⟩ ⟨8, 6⟩ "Tell" []]

/-- The same, with its routines among and behind the other statements. -/
def tellDoubleLate : Program where
  body := [.assign ⟨7, 1⟩ (.variable ⟨7, 1⟩ "x") (.literal ⟨7, 6⟩ (.integer 21)), .routine telling,
    .call ⟨8, 1⟩ ⟨8, 6⟩ "Tell" [], .routine doubling]

end Pseudocode
