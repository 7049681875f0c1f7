import Pseudocode.Proofs.SideBySide
import Pseudocode.Proofs.Traversal

/-! The limit on lines of output. Runs of a program under different limits keep in lockstep: each has put out the
first of the same lines, as many as its limit allows, and has counted the others. So the limit decides
how much of the output is seen, and nothing else. -/
namespace Pseudocode

/-- The settings with another limit on lines of output. -/
def Settings.withCap (settings : Settings) (limit : Nat) : Settings :=
  { settings with limits := { settings.limits with maxOutputEvents := limit } }

theorem Settings.withCap_hasDeadline (settings : Settings) (limit : Nat) :
    (settings.withCap limit).hasDeadline = settings.hasDeadline := by
  unfold hasDeadline
  exact congrArg (fun ms => (Binary64.ofRatio false ms 1000).isFinite) rfl

/-- Of all lines of output, the first are put out and the others dropped. -/
def Capped (limit : Nat) (all outputs : List Output) (dropped : Nat) : Prop :=
  outputs = all.take limit ∧ dropped = all.length - limit

theorem Capped.none_dropped {limit dropped : Nat} {all outputs : List Output}
    (capped : Capped limit all outputs dropped) (none : dropped = 0) : outputs = all := by
  have within : all.length ≤ limit := Nat.le_of_sub_eq_zero (capped.2.symm.trans none)
  rw [capped.1, List.take_of_length_le within]

/-- One more line is put out, or dropped if there are too many already. -/
theorem Capped.more {limit dropped : Nat} {all : List Output} {outputs : Array Output}
    (capped : Capped limit all outputs.toList dropped) (line : Output) :
    (outputs.size ≥ limit → Capped limit (all ++ [line]) outputs.toList (dropped + 1)) ∧
      (¬outputs.size ≥ limit → Capped limit (all ++ [line]) (outputs.push line).toList dropped) := by
  obtain ⟨shown, count⟩ := capped
  have size : outputs.size = min limit all.length := by
    rw [← Array.length_toList, shown, List.length_take]
  refine ⟨fun full => ⟨?_, ?_⟩, fun room => ⟨?_, ?_⟩⟩
  · rw [shown, List.take_append_of_le_length (by omega)]
  · rw [List.length_append, count, List.length_singleton]
    omega
  · rw [Array.toList_push, shown, List.take_of_length_le (by omega), List.take_of_length_le]
    rw [List.length_append, List.length_singleton]
    omega
  · rw [List.length_append, count, List.length_singleton]
    omega

/-- The same steps were counted, and of the same lines of output as many put out as the limits allow. -/
def Tally.Capped (limit limit' : Nat) (t t' : Tally) : Prop :=
  t'.steps = t.steps ∧ ∃ all : List Output,
    Pseudocode.Capped limit all t.outputs.toList t.dropped ∧
    Pseudocode.Capped limit' all t'.outputs.toList t'.dropped

namespace Run

variable (ctx : RunContext) (limit limit' : Nat) {waived : Stop → Prop}

theorem tick_capped (line : Nat) :
    Lockstep (Tally.Capped limit limit') waived (tick ctx line) (tick ctx line) := by
  have counted : Lockstep (Tally.Capped limit limit') waived
      (modify fun s : RunState => { s with steps := s.steps + 1 } : Run PUnit)
      (modify fun s : RunState => { s with steps := s.steps + 1 }) := fun s s' abreast =>
    ⟨rfl, abreast.memory, abreast.env, abreast.line, abreast.inputs, abreast.random,
      congrArg (· + 1) abreast.tally.1, abreast.tally.2⟩
  refine counted.bind fun _ => lockstep_get fun s s' abreast => ?_
  have steps : s'.steps = s.steps := abreast.tally.1
  rw [steps]
  dsimp only
  split
  · exact lockstep_stop _ _
  · split
    · exact lockstep_stop _ _
    · split
      · exact lockstep_stop _ _
      · exact lockstep_pure _

theorem emit_capped (ctx' : RunContext) (line : Nat) (text : String) :
    Lockstep (Tally.Capped ctx.settings.limits.maxOutputEvents ctx'.settings.limits.maxOutputEvents) waived
      (emit ctx line text) (emit ctx' line text) := by
  intro s s' abreast
  obtain ⟨steps, all, first, second⟩ := abreast.tally
  unfold emit
  rw [ends_modify, ends_modify]
  have first := first.more ⟨text, line⟩
  have second := second.more ⟨text, line⟩
  have abreast {o o' : Array Output} {d d' : Nat}
      (capped : Capped ctx.settings.limits.maxOutputEvents (all ++ [⟨text, line⟩]) o.toList d)
      (capped' : Capped ctx'.settings.limits.maxOutputEvents (all ++ [⟨text, line⟩]) o'.toList d') :
      RunState.Abreast
        (Tally.Capped ctx.settings.limits.maxOutputEvents ctx'.settings.limits.maxOutputEvents)
        { s with outputs := o, dropped := d } { s' with outputs := o', dropped := d' } :=
    ⟨abreast.memory, abreast.env, abreast.line, abreast.inputs, abreast.random, steps, _, capped, capped'⟩
  refine ⟨rfl, ?_⟩
  split
  next full =>
    split
    next full' => exact abreast (first.1 full) (second.1 full')
    next room' => exact abreast (first.1 full) (second.2 room')
  next room =>
    split
    next full' => exact abreast (first.2 room) (second.1 full')
    next room' => exact abreast (first.2 room) (second.2 room')

end Run

namespace Program

variable (p : Program) (settings : Settings) (host : Host)

theorem withCap_matches (limit limit' : Nat) (waived : Stop → Prop) :
    RunContext.Matches (Tally.Capped limit limit') waived (p.context (settings.withCap limit) host)
      (p.context (settings.withCap limit') host) where
  length := rfl
  elements := rfl
  separator := rfl
  routine _ := rfl
  ticks line := Run.tick_capped (p.context (settings.withCap limit) host) limit limit' line
  emits line text := Run.emit_capped (p.context (settings.withCap limit) host)
    (p.context (settings.withCap limit') host) line text
  rounds abreast := .inl (congrArg (settings.limits.maxSteps + 1 - ·) abreast.tally.1.symm)

/-- How a run goes depends on the limit only in how many lines are put out. -/
theorem outcome_capped (limit limit' : Nat) :
    (p.outcome (settings.withCap limit') host).stop = (p.outcome (settings.withCap limit) host).stop ∧
    (p.outcome (settings.withCap limit') host).line = (p.outcome (settings.withCap limit) host).line ∧
    (p.outcome (settings.withCap limit') host).steps = (p.outcome (settings.withCap limit) host).steps ∧
    ∃ all : List Output,
      Capped limit all (p.outcome (settings.withCap limit) host).outputs
        (p.outcome (settings.withCap limit) host).dropped ∧
      Capped limit' all (p.outcome (settings.withCap limit') host).outputs
        (p.outcome (settings.withCap limit') host).dropped := by
  have matched := withCap_matches p settings host limit limit' fun _ => False
  have start : RunState.Abreast (Tally.Capped limit limit') (.initial (settings.withCap limit))
      (.initial (settings.withCap limit')) :=
    ⟨rfl, rfl, rfl, rfl, rfl, rfl, [], by simp [Capped, RunState.initial, RunState.tally],
      by simp [Capped, RunState.initial, RunState.tally]⟩
  have keeps := Run.execBlock_lockstep matched
    (Run.enter_lockstep matched settings.limits.maxCallDepth) false p.body _ _ start
  have program (limit : Nat) : Run.program ⟨settings.withCap limit, host, p.routines⟩ p =
      Run.execBlock (p.context (settings.withCap limit) host)
        (Run.enter (p.context (settings.withCap limit) host) settings.limits.maxCallDepth) false p.body := rfl
  unfold outcome
  rw [program, program]
  unfold Ends at keeps
  split
  next c t ran =>
    rw [ran] at keeps
    split
    next c' t' ran' =>
      simp only [ran'] at keeps
      have tally := keeps.2.tally
      exact ⟨rfl, keeps.2.line, tally.1, tally.2⟩
    next failed' => simp only [failed'] at keeps
  next e t failed =>
    rw [failed] at keeps
    split
    next ran' => simp only [ran'] at keeps
    next e' t' failed' =>
      simp only [failed', false_or] at keeps
      have tally := keeps.2.tally
      exact ⟨congrArg some keeps.1, keeps.2.line, tally.1, tally.2⟩

end Program

/-- A run under a limit on lines of output, of which all are given, with the failure that ended it if
there was one: as many lines as the limit allows, a notice if some were dropped that says how many,
then the failure. -/
def Trace.capped (limit : Nat) (lines : List Output) (failure : Option Event) (steps : Nat) : Trace where
  events := (lines.take limit).map Event.ofOutput ++
    (if lines.length ≤ limit then [] else [Event.outputLimit limit (lines.length - limit)]) ++
    failure.toList
  success := failure.isNone
  steps := steps

theorem Outcome.trace_capped {o : Outcome} {limit : Nat} {all : List Output}
    (capped : Capped limit all o.outputs o.dropped) :
    o.trace limit = .capped limit all (o.stop.map (Event.ofStop o.line)) o.steps := by
  obtain ⟨shown, count⟩ := capped
  unfold trace events Trace.capped
  rw [shown, count, Option.isNone_map]
  simp only [Nat.sub_eq_zero_iff_le]

theorem Event.ofStop_reports (line : Nat) (e : Stop) :
    (Event.ofStop line e).kind ≠ .output ∧ (Event.ofStop line e).code ≠ some .outputLimit := by
  refine ⟨by cases e <;> nofun, ?_⟩
  cases e with
  | fault faultLine cause =>
    cases cause with
    | store fault =>
      simp only [ofStop, ofFault, RunFault.code]
      split <;> simp
    | _ => simp [ofStop, ofFault, RunFault.code]
  | _ => simp [ofStop, ofFault, RunFault.code]

end Pseudocode
