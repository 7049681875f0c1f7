import Pseudocode.Proofs.MemoryOnly

/-! Two runs in lockstep. They have the same memory, stand on the same line, and have the same inputs
before them; what they have counted and put out so far agrees in a way that is a parameter. A pair of computations keeps
in lockstep if it leads from such states to such states with the same answer, or fails for the same
reason, unless one of the two fails for a reason that is waived. -/
namespace Pseudocode

/-- What a run counts: its steps, and the lines that it has put out and dropped. -/
structure Tally where
  steps : Nat
  outputs : Array Output
  dropped : Nat

def RunState.tally (s : RunState) : Tally := ⟨s.steps, s.outputs, s.dropped⟩

/-- The states differ at most in what they have counted, and agree in that. -/
structure RunState.Abreast (agree : Tally → Tally → Prop) (s t : RunState) : Prop where
  memory : t.memory = s.memory
  env : t.env = s.env
  line : t.line = s.line
  inputs : t.inputs = s.inputs
  random : t.random = s.random
  tally : agree s.tally t.tally

namespace Run

variable {α β : Type} {agree : Tally → Tally → Prop} {waived : Stop → Prop} {m m' : Run α}
  {s s' : RunState}

/-- The second computation does what the first does, unless one of the two fails for a waived reason. -/
def Lockstep (agree : Tally → Tally → Prop) (waived : Stop → Prop) (m m' : Run α) : Prop :=
  ∀ s s' : RunState, s.Abreast agree s' → Ends m s
    (fun a t => Ends m' s' (fun a' t' => a' = a ∧ t.Abreast agree t') (fun e' _ => waived e'))
    (fun e t => Ends m' s' (fun _ _ => waived e)
      (fun e' t' => waived e ∨ waived e' ∨ e' = e ∧ t.Abreast agree t'))

section Laws

theorem lockstep_pure (a : α) : Lockstep agree waived (pure a : Run α) (pure a) :=
  fun _ _ abreast => ⟨rfl, abreast⟩

theorem lockstep_throw (e : Stop) : Lockstep agree waived (throw e : Run α) (throw e) :=
  fun _ _ abreast => .inr (.inr ⟨rfl, abreast⟩)

theorem lockstep_stop (line : Nat) (fault : RunFault) :
    Lockstep agree waived (stop line fault : Run α) (stop line fault) := lockstep_throw _

/-- Whatever the second computation does is as good as a waived failure. -/
theorem lockstep_waived {e : Stop} (waives : waived e) : Lockstep agree waived (throw e : Run α) m' :=
  fun _ _ _ => ends_throw.mpr (ends_of_forall (fun _ _ => waives) fun _ _ => .inl waives)

theorem lockstep_waived_right {e : Stop} (waives : waived e) :
    Lockstep agree waived m (throw e : Run α) :=
  fun _ _ _ => ends_of_forall (fun _ _ => waives) fun _ _ => .inr (.inl waives)

theorem Lockstep.bind {next next' : α → Run β} (first : Lockstep agree waived m m')
    (rest : ∀ a, Lockstep agree waived (next a) (next' a)) :
    Lockstep agree waived (m >>= next) (m' >>= next') := by
  intro s s' abreast
  rw [ends_bind]
  refine (first s s' abreast).mono (fun a t inner => ?_) fun e t inner => ?_
  · cases ran : m' s' with
    | ok a' t' =>
      obtain ⟨rfl, between⟩ := inner.of_ok ran
      exact (rest a' t t' between).mono (fun b u known => (ends_congr (bind_of_ok ran)).mpr known)
        fun e u known => (ends_congr (bind_of_ok ran)).mpr known
    | error e' t' =>
      have waives := inner.of_error ran
      have failed : (m' >>= next') s' = (throw e' : Run β) t' := bind_of_error ran
      exact ends_of_forall (fun b u => (ends_congr failed).mpr waives)
        fun e u => (ends_congr failed).mpr (.inr (.inl waives))
  · cases ran : m' s' with
    | ok a' t' =>
      have waives := inner.of_ok ran
      exact ends_of_forall (fun _ _ => waives) fun _ _ => .inl waives
    | error e' t' =>
      have failed : (m' >>= next') s' = (throw e' : Run β) t' := bind_of_error ran
      exact (ends_congr failed).mpr (inner.of_error ran)

theorem Lockstep.discarded (first : Lockstep agree waived m m') :
    Lockstep agree waived (discard m) (discard m') := by
  rw [show discard m = m >>= fun _ => pure () from (bind_pure_comp _ m).symm,
    show discard m' = m' >>= fun _ => pure () from (bind_pure_comp _ m').symm]
  exact first.bind fun _ => lockstep_pure ()

/-- Each of the two looks at its own state. -/
theorem lockstep_get {f f' : RunState → Run α}
    (each : ∀ s s' : RunState, s.Abreast agree s' → Lockstep agree waived (f s) (f' s')) :
    Lockstep agree waived (get >>= f) (get >>= f') :=
  fun s s' abreast => each s s' abreast s s' abreast

theorem Abreast.withMemory (abreast : s.Abreast agree s') (after : Memory) :
    RunState.Abreast agree { s with memory := after } { s' with memory := after } :=
  ⟨rfl, abreast.env, abreast.line, abreast.inputs, abreast.random, abreast.tally⟩

/-- What touches nothing but the memory does the same in both. -/
theorem Edits.lockstep (edits : Edits m) : Lockstep agree waived m m := by
  intro s s' abreast
  obtain ⟨after, -, ⟨a, ran⟩ | ⟨e, failed⟩⟩ := edits s.env s.memory
  · refine ends_iff.mpr ⟨fun b t here => ?_, fun e t here => ?_⟩
    · cases (ran s rfl rfl).symm.trans here
      exact (ends_congr (n := pure a) (ran s' abreast.env abreast.memory)).mpr
        ⟨rfl, Abreast.withMemory abreast after⟩
    · cases (ran s rfl rfl).symm.trans here
  · refine ends_iff.mpr ⟨fun b t here => ?_, fun e' t here => ?_⟩
    · cases (failed s rfl rfl).symm.trans here
    · cases (failed s rfl rfl).symm.trans here
      exact (ends_congr (n := throw e) (failed s' abreast.env abreast.memory)).mpr
        (.inr (.inr ⟨rfl, Abreast.withMemory abreast after⟩))

theorem Looks.lockstep (looks : Looks m) : Lockstep agree waived m m := looks.edits.lockstep

theorem Lockstep.inEnvironment (inner : Lockstep agree waived m m') (env : Environment) :
    Lockstep agree waived (inEnvironment env m) (inEnvironment env m') := by
  intro s s' abreast
  have inside : RunState.Abreast agree { s with env } { s' with env } :=
    ⟨abreast.memory, rfl, abreast.line, abreast.inputs, abreast.random, abreast.tally⟩
  have outside {t t' : RunState} (here : t.Abreast agree t') :
      RunState.Abreast agree { t with env := s.env } { t' with env := s'.env } :=
    ⟨here.memory, abreast.env, here.line, here.inputs, here.random, here.tally⟩
  have known := inner _ _ inside
  unfold Ends Run.inEnvironment at *
  cases ran : m { s with env } <;> cases ran' : m' { s' with env } <;> simp only [ran, ran'] at known ⊢
  · exact ⟨known.1, outside known.2⟩
  · exact known
  · exact known
  · exact known.imp_right fun known => known.imp_right fun known => ⟨known.1, outside known.2⟩

theorem Lockstep.thenAtLine (inner : Lockstep agree waived m m') (line : Nat) :
    Lockstep agree waived (thenAtLine line m) (thenAtLine line m') := by
  intro s s' abreast
  have outside {t t' : RunState} (here : t.Abreast agree t') :
      RunState.Abreast agree { t with line } { t' with line } :=
    ⟨here.memory, here.env, rfl, here.inputs, here.random, here.tally⟩
  have known := inner _ _ abreast
  unfold Ends Run.thenAtLine at *
  cases ran : m s <;> cases ran' : m' s' <;> simp only [ran, ran'] at known ⊢
  · exact ⟨known.1, outside known.2⟩
  · exact known
  · exact known
  · exact known.imp_right fun known => known.imp_right fun known => ⟨known.1, outside known.2⟩

theorem giveBack_lockstep (inRoutine : Bool) (line : Nat) {value value' : Run Value}
    (values : Lockstep agree waived value value') :
    Lockstep agree waived (giveBack inRoutine line value) (giveBack inRoutine line value') := by
  unfold giveBack
  split
  · exact values.bind fun _ => lockstep_pure _
  · exact lockstep_stop _ _

end Laws

end Run

/-- Two contexts in which code does the same: they agree on everything that code reads of them, but for
what it counts. -/
structure RunContext.Matches (agree : Tally → Tally → Prop) (waived : Stop → Prop)
    (ctx ctx' : RunContext) : Prop where
  length : ctx'.settings.limits.maxStringLength = ctx.settings.limits.maxStringLength
  elements : ctx'.settings.limits.maxArrayElements = ctx.settings.limits.maxArrayElements
  separator : ctx'.settings.outputSeparator = ctx.settings.outputSeparator
  routine : ∀ name, ctx'.routine? name = ctx.routine? name
  ticks : ∀ line, Run.Lockstep agree waived (Run.tick ctx line) (Run.tick ctx' line)
  emits : ∀ line text, Run.Lockstep agree waived (Run.emit ctx line text) (Run.emit ctx' line text)
  /-- Loops may come around equally often, or it does not matter which of the two runs out of steps. -/
  rounds : ∀ {s s' : RunState}, s.Abreast agree s' →
    ctx.settings.limits.maxSteps + 1 - s.steps = ctx'.settings.limits.maxSteps + 1 - s'.steps ∨
      ∀ line, waived (.fault line .stepLimit)

namespace Run

section Primitives

variable {agree : Tally → Tally → Prop} {waived : Stop → Prop} {ctx ctx' : RunContext}

theorem callBuiltin_lockstep (line : Nat) (name : String) (arguments : List Value) :
    Lockstep agree waived (callBuiltin line name arguments) (callBuiltin line name arguments) := by
  have moves : Lockstep agree waived
      (modifyGet fun s : RunState => ((Builtin.call name arguments s.random).1,
        { s with random := (Builtin.call name arguments s.random).2 }))
      (modifyGet fun s : RunState => ((Builtin.call name arguments s.random).1,
        { s with random := (Builtin.call name arguments s.random).2 })) := by
    intro s s' abreast
    rw [ends_modifyGet, ends_modifyGet, abreast.random]
    exact ⟨rfl, abreast.memory, abreast.env, abreast.line, abreast.inputs, rfl, abreast.tally⟩
  refine moves.bind fun result => ?_
  split
  · exact lockstep_pure _
  · exact lockstep_throw _
  · exact lockstep_stop _ _

theorem takeInput_lockstep (line : Nat) :
    Lockstep agree waived (takeInput line) (takeInput line) := by
  refine lockstep_get fun s s' abreast => ?_
  rw [abreast.inputs]
  split
  · exact lockstep_stop _ _
  next raw rest _ =>
    have taken : Lockstep agree waived
        (modify fun s : RunState => { s with inputs := rest } : Run PUnit)
        (modify fun s : RunState => { s with inputs := rest }) := fun s s' abreast =>
      ⟨rfl, abreast.memory, abreast.env, abreast.line, rfl, abreast.random, abreast.tally⟩
    exact taken.bind fun _ => lockstep_pure _

variable (matched : ctx.Matches agree waived ctx')

include matched

theorem begins_lockstep (stmt : Stmt) :
    Lockstep agree waived (begins ctx stmt) (begins ctx' stmt) := by
  have moved : Lockstep agree waived
      (modify fun state : RunState => { state with line := stmt.line } : Run PUnit)
      (modify fun state : RunState => { state with line := stmt.line }) := fun s s' abreast =>
    ⟨rfl, abreast.memory, abreast.env, rfl, abreast.inputs, abreast.random, abreast.tally⟩
  unfold begins
  split
  · exact lockstep_throw _
  · exact moved.bind fun _ => matched.ticks stmt.line

theorem checkLength_same (line length : Nat) : checkLength ctx' line length = checkLength ctx line length := by
  unfold checkLength
  rw [matched.length]

theorem shown_same (line : Nat) (value : Value) : shown ctx' line value = shown ctx line value := by
  unfold shown
  rw [matched.length]

theorem arithmetic_same (line : Nat) (op : BinaryOp) (left right : Value) :
    arithmetic ctx' line op left right = arithmetic ctx line op left right := by
  unfold arithmetic joinText
  simp only [checkLength_same matched]

theorem join_same (line : Nat) (left right : Value) :
    join ctx' line left right = join ctx line left right := by
  unfold join joinText
  simp only [checkLength_same matched, shown_same matched]
  rfl

theorem shown_lockstep (line : Nat) (value : Value) :
    Lockstep agree waived (shown ctx line value) (shown ctx' line value) := by
  rw [shown_same matched]
  exact (shown_looks ctx line value).lockstep

theorem binary_lockstep (line : Nat) (op : BinaryOp) (left right : Value) :
    Lockstep agree waived (binary ctx line op left right) (binary ctx' line op left right) := by
  have same : binary ctx' line op left right = binary ctx line op left right := by
    unfold binary
    rw [arithmetic_same matched, join_same matched]
  rw [same]
  exact (binary_looks ctx line op left right).lockstep

theorem nameValue_lockstep (line : Nat) (name : String) :
    Lockstep agree waived (nameValue ctx line name) (nameValue ctx' line name) := by
  have same : nameValue ctx' line name = nameValue ctx line name := by
    unfold nameValue
    rw [matched.routine]
  rw [same]
  exact (nameValue_looks ctx line name).lockstep

theorem declareArray_lockstep (line : Nat) (name : String) (bounds : List Bound) (elementType : String) :
    Lockstep agree waived (declareArray ctx line name bounds elementType)
      (declareArray ctx' line name bounds elementType) := by
  have same : declareArray ctx' line name bounds elementType =
      declareArray ctx line name bounds elementType := by
    unfold declareArray
    rw [matched.elements]
  rw [same]
  exact (declareArray_edits line ctx name bounds elementType).lockstep

theorem readInput_lockstep (line : Nat) (target : Target) :
    Lockstep agree waived (readInput ctx line target) (readInput ctx' line target) := by
  unfold readInput
  rw [funext (checkLength_same matched line)]
  refine (takeInput_lockstep line).bind fun raw => ?_
  refine (checkLength_looks ctx line raw.length).lockstep.bind fun _ => ?_
  refine (inputType_looks line target).lockstep.bind fun (name, type) => ?_
  dsimp only
  split
  · exact lockstep_stop _ _
  · split
    · exact lockstep_pure _
    · exact lockstep_throw _

theorem lockstep_roundsLeft {α : Type} {f f' : Nat → Run α}
    (each : ∀ rounds rounds', rounds = rounds' ∨ (∀ line, waived (.fault line .stepLimit)) →
      Lockstep agree waived (f rounds) (f' rounds')) :
    Lockstep agree waived (roundsLeft ctx >>= f) (roundsLeft ctx' >>= f') :=
  fun s s' abreast => each _ _ (matched.rounds abreast) s s' abreast

end Primitives

end Run

end Pseudocode
