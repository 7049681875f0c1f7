import Pseudocode.Proofs.Resources
import Pseudocode.Proofs.Traversal

/-! More resources never change what a program does. The two runs are followed side by side through
every expression, statement and call, by recursion on the structure; loops and calls, which the second
run may repeat and nest further, by induction on what the second run may still do. -/
namespace Pseudocode

namespace Run

-- What the theorems of a mutual block use of the hypotheses, they use through each other.
set_option linter.unusedSectionVars false

variable {more : List String} {ctx ctx' : RunContext} {enter enter' : Enter} {α : Type}

/-- Whatever routine is entered and whatever it is called with. -/
def EnterOutlasts (more : List String) (enter enter' : Enter) : Prop :=
  ∀ line r bindings, Outlasts more (enter line r bindings) (enter' line r bindings)

section Framing

variable {m m' : Run α}

theorem Outlasts.inEnvironment (inner : Outlasts more m m') (env : Environment) :
    Outlasts more (inEnvironment env m) (inEnvironment env m') := by
  have leaves {s : RunState} {outputs : List Output}
      (left : Leaves m' { s with env } fun t => outputs <+: t.outputs.toList) :
      Leaves (Run.inEnvironment env m') s fun t => outputs <+: t.outputs.toList := by
    unfold Leaves Ends Run.inEnvironment at *
    dsimp only
    split at left
    next ran => simpa only [ran] using left
    next failed => simpa only [failed] using left
  refine ⟨fun s => leaves (inner.keeps { s with env }), fun s => ?_⟩
  have agrees := inner.agrees { s with env }
  have moved : RunState.supplied more { s with env } = { s.supplied more with env } := rfl
  rw [moved] at agrees
  unfold Ends at agrees ⊢
  unfold Run.inEnvironment
  dsimp only
  split at agrees
  next a t ran =>
    simp only [ran, agrees]
    rfl
  next e t failed =>
    simp only [failed]
    refine agrees.imp (fun same => ?_) fun ⟨short, left⟩ => ⟨short, leaves left⟩
    simp only [same]
    rfl

theorem Outlasts.thenAtLine (inner : Outlasts more m m') (line : Nat) :
    Outlasts more (thenAtLine line m) (thenAtLine line m') := by
  have leaves {s : RunState} {outputs : List Output}
      (left : Leaves m' s fun t => outputs <+: t.outputs.toList) :
      Leaves (Run.thenAtLine line m') s fun t => outputs <+: t.outputs.toList := by
    unfold Leaves Ends Run.thenAtLine at *
    split at left
    next ran => simpa only [ran] using left
    next failed => simpa only [failed] using left
  refine ⟨fun s => leaves (inner.keeps s), fun s => ?_⟩
  have agrees := inner.agrees s
  unfold Ends at agrees ⊢
  unfold Run.thenAtLine
  split at agrees
  next a t ran =>
    simp only [ran, agrees]
    rfl
  next e t failed =>
    simp only [failed]
    refine agrees.imp (fun same => ?_) fun ⟨short, left⟩ => ⟨short, leaves left⟩
    simp only [same]
    rfl

theorem giveBack_outlasts (inRoutine : Bool) (line : Nat) {value value' : Run Value}
    (values : Outlasts more value value') :
    Outlasts more (giveBack inRoutine line value) (giveBack inRoutine line value') := by
  unfold giveBack
  split
  · exact values.bind fun _ => outlasts_pure _
  · exact outlasts_throw _

end Framing

section

variable (within : ctx.Within ctx')

include within

theorem routine_within (name : String) : ctx'.routine? name = ctx.routine? name := by
  unfold RunContext.routine?
  rw [within.routines]

theorem nameValue_outlasts (line : Nat) (name : String) :
    Outlasts more (nameValue ctx line name) (nameValue ctx' line name) := by
  have same : nameValue ctx' line name = nameValue ctx line name := by
    unfold nameValue
    rw [routine_within within]
  rw [same]
  exact (nameValue_steady ctx line name).outlasts

variable (enters : EnterOutlasts more enter enter')

include enters

theorem call_outlasts (asValue : Bool) (line : Nat) (callee : String) (count : Nat)
    {plain plain' : Run (List Value)} (plains : Outlasts more plain plain')
    {bound bound' : List Param → Run (List BindingId)}
    (bounds : ∀ params, Outlasts more (bound params) (bound' params)) :
    Outlasts more (call ctx enter asValue line callee count plain bound)
      (call ctx' enter' asValue line callee count plain' bound') := by
  have entered (r : Routine Stmt) : Outlasts more
      (do
        let bindings ← bound r.params
        resultOf line r callee (← enter line r bindings))
      (do
        let bindings ← bound' r.params
        resultOf line r callee (← enter' line r bindings)) :=
    (bounds r.params).bind fun bindings => (enters line r bindings).bind fun c =>
      (resultOf_steady line r callee c).outlasts
  unfold call
  rw [routine_within within]
  cases ctx.routine? callee with
  | none =>
    dsimp only
    split
    · exact plains.bind fun values => (callBuiltin_steady line callee values).outlasts
    · exact outlasts_throw _
  | some r =>
    dsimp only
    split
    · exact outlasts_throw _
    · split
      · exact outlasts_throw _
      · exact entered r

mutual

theorem eval_outlasts : ∀ e : Expr, Outlasts more (eval ctx enter e) (eval ctx' enter' e)
  | .literal _ value => by
    rw [eval, eval]
    exact outlasts_pure _
  | .name place name => by
    rw [eval, eval]
    exact nameValue_outlasts within place.line name
  | .element place array indices => by
    rw [eval, eval]
    refine (arrayNamed_steady place.line array).outlasts.bind fun id => ?_
    refine (evalIndices_outlasts place.line indices).bind fun is => ?_
    exact (elementValue_steady place.line id is).outlasts
  | .binary place op left right => by
    rw [eval, eval]
    split
    · refine (eval_outlasts left).bind fun v => ?_
      refine (truth_steady op.text place.line v).outlasts.bind fun l => ?_
      split
      · exact outlasts_pure _
      · refine (eval_outlasts right).bind fun w => ?_
        exact (truth_steady op.text place.line w).outlasts.bind fun _ => outlasts_pure _
    · refine (eval_outlasts left).bind fun l => (eval_outlasts right).bind fun r => ?_
      exact binary_outlasts within place.line op l r
  | .unary place op operand => by
    rw [eval, eval]
    exact (eval_outlasts operand).bind fun v => (unary_steady place.line op v).outlasts
  | .call place callee arguments => by
    rw [eval, eval]
    exact call_outlasts within enters true place.line callee _ (evalAll_outlasts arguments)
      fun params => bindArguments_outlasts place.line callee params arguments
  | .range .. => by
    rw [eval, eval]
    exact outlasts_throw _
  | .stray .. => by
    rw [eval, eval]
    exact outlasts_throw _

theorem evalAll_outlasts : ∀ es : List Expr,
    Outlasts more (evalAll ctx enter es) (evalAll ctx' enter' es)
  | [] => by
    rw [evalAll, evalAll]
    exact outlasts_pure _
  | e :: rest => by
    rw [evalAll, evalAll]
    exact (eval_outlasts e).bind fun _ => (evalAll_outlasts rest).bind fun _ => outlasts_pure _

theorem evalIndices_outlasts (line : Nat) : ∀ es : List Expr,
    Outlasts more (evalIndices ctx enter line es) (evalIndices ctx' enter' line es)
  | [] => by
    rw [evalIndices, evalIndices]
    exact outlasts_pure _
  | e :: rest => by
    rw [evalIndices, evalIndices]
    refine (eval_outlasts e).bind fun v => (indexValue_steady line v).outlasts.bind fun _ => ?_
    exact (evalIndices_outlasts line rest).bind fun _ => outlasts_pure _

theorem bindArguments_outlasts (line : Nat) (callee : String) :
    ∀ (params : List Param) (es : List Expr),
      Outlasts more (bindArguments ctx enter line callee params es)
        (bindArguments ctx' enter' line callee params es)
  | [], es => by
    rw [bindArguments, bindArguments]
    · exact outlasts_pure _
    · nofun
    · nofun
  | param :: params, [] => by
    rw [bindArguments, bindArguments]
    · exact outlasts_pure _
    · nofun
    · nofun
  | param :: params, e :: rest => by
    have bound : Outlasts more (bindArgument line callee param e (eval ctx enter e))
        (bindArgument line callee param e (eval ctx' enter' e)) := by
      unfold bindArgument
      split
      · exact (bindReference_steady line callee param e).outlasts
      · exact (eval_outlasts e).bind fun v => (bindValue_steady line callee param v).outlasts
    rw [bindArguments, bindArguments]
    exact bound.bind fun _ => (bindArguments_outlasts line callee params rest).bind fun _ =>
      outlasts_pure _

end

theorem evalPresent_outlasts (value : Option Expr) :
    Outlasts more (evalPresent ctx enter value) (evalPresent ctx' enter' value) := by
  cases value with
  | none => exact outlasts_throw _
  | some e => exact eval_outlasts within enters e

theorem evalShown_outlasts (line : Nat) (es : List Expr) :
    Outlasts more (evalShown ctx enter line es) (evalShown ctx' enter' line es) := by
  induction es with
  | nil => exact outlasts_pure _
  | cons e rest ih =>
    refine (eval_outlasts within enters e).bind fun v => (shown_outlasts within line v).bind fun _ => ?_
    exact ih.bind fun _ => outlasts_pure _

theorem store_outlasts (line : Nat) (target : Target) (value : Value) :
    Outlasts more (store ctx enter line target value) (store ctx' enter' line target value) := by
  unfold store
  split
  · exact (assign_steady _ _ _).outlasts
  · refine (arrayNamed_steady _ _).outlasts.bind fun id => ?_
    exact (evalIndices_outlasts within enters line _).bind fun is =>
      (assignElement_steady _ _ _ _).outlasts
  · exact outlasts_throw _

theorem labelMatches_outlasts (line : Nat) (selector : Value) (label : Expr) :
    Outlasts more (labelMatches ctx enter line selector label)
      (labelMatches ctx' enter' line selector label) := by
  unfold labelMatches
  split
  · refine (eval_outlasts within enters _).bind fun low => ?_
    refine (eval_outlasts within enters _).bind fun high => ?_
    split
    · exact outlasts_throw _
    · exact outlasts_pure _
    · split
      · exact outlasts_throw _
      · exact outlasts_pure _
  · refine (eval_outlasts within enters _).bind fun v => ?_
    split
    · exact outlasts_throw _
    · exact outlasts_pure _

theorem anyLabelMatches_outlasts (line : Nat) (selector : Value) (labels : List Expr) :
    Outlasts more (anyLabelMatches ctx enter line selector labels)
      (anyLabelMatches ctx' enter' line selector labels) := by
  induction labels with
  | nil => exact outlasts_pure _
  | cons label rest ih =>
    refine (labelMatches_outlasts within enters line selector label).bind fun taken => ?_
    split
    · exact outlasts_pure _
    · exact ih

end

section Loops

variable (within : ctx.Within ctx') (line : Nat) {test test' : Run Bool}
  {body body' : Run Completion}

include within

-- The induction is on the rounds of the second run. A first run without rounds left is short of
-- steps, and what the second does in its next round is kept because it is one more round.

theorem whileLoop_outlasts (tests : Outlasts more test test') (bodies : Outlasts more body body')
    {rounds rounds' : Nat} (less : rounds ≤ rounds') :
    Outlasts more (whileLoop ctx line test body rounds)
      (whileLoop ctx' line test' body' rounds') := by
  induction rounds' generalizing rounds with
  | zero =>
    cases Nat.le_zero.mp less
    exact outlasts_throw _
  | succ rounds' ih =>
    have round {rounds : Nat} (less : rounds ≤ rounds') :
        Outlasts more (whileLoop ctx line test body (rounds + 1))
          (whileLoop ctx' line test' body' (rounds' + 1)) := by
      refine tests.bind fun holds => ?_
      split
      · refine bodies.bind fun c => ?_
        split
        · exact outlasts_pure _
        · exact (tick_outlasts within line).bind fun _ => ih less
      · exact outlasts_pure _
    cases rounds with
    | zero => exact outlasts_shortage rfl (round (Nat.zero_le _)).keeps
    | succ rounds => exact round (Nat.le_of_succ_le_succ less)

theorem repeatLoop_outlasts (bodies : Outlasts more body body') (tests : Outlasts more test test')
    {rounds rounds' : Nat} (less : rounds ≤ rounds') :
    Outlasts more (repeatLoop ctx line body test rounds)
      (repeatLoop ctx' line body' test' rounds') := by
  induction rounds' generalizing rounds with
  | zero =>
    cases Nat.le_zero.mp less
    exact outlasts_throw _
  | succ rounds' ih =>
    have round {rounds : Nat} (less : rounds ≤ rounds') :
        Outlasts more (repeatLoop ctx line body test (rounds + 1))
          (repeatLoop ctx' line body' test' (rounds' + 1)) := by
      refine bodies.bind fun c => ?_
      split
      · exact outlasts_pure _
      · refine (tick_outlasts within line).bind fun _ => tests.bind fun holds => ?_
        split
        · exact outlasts_pure _
        · exact ih less
    cases rounds with
    | zero => exact outlasts_shortage rfl (round (Nat.zero_le _)).keeps
    | succ rounds => exact round (Nat.le_of_succ_le_succ less)

theorem forLoop_outlasts (counter : BindingId) (last step : Number)
    (bodies : Outlasts more body body') {rounds rounds' : Nat} (less : rounds ≤ rounds') :
    Outlasts more (forLoop ctx line counter last step body rounds)
      (forLoop ctx' line counter last step body' rounds') := by
  induction rounds' generalizing rounds with
  | zero =>
    cases Nat.le_zero.mp less
    exact outlasts_throw _
  | succ rounds' ih =>
    have round {rounds : Nat} (less : rounds ≤ rounds') :
        Outlasts more (forLoop ctx line counter last step body (rounds + 1))
          (forLoop ctx' line counter last step body' (rounds' + 1)) := by
      refine (counterValue_steady counter).outlasts.bind fun value => ?_
      split
      · exact outlasts_pure _
      · refine bodies.bind fun c => ?_
        split
        · exact outlasts_pure _
        · refine (tick_outlasts within line).bind fun _ => ?_
          exact (advance_steady line counter step).outlasts.bind fun _ => ih less
    cases rounds with
    | zero => exact outlasts_shortage rfl (round (Nat.zero_le _)).keeps
    | succ rounds => exact round (Nat.le_of_succ_le_succ less)

theorem countedLoop_outlasts (counter : Option String) (start last step : Number)
    (bodies : Outlasts more body body') :
    Outlasts more (countedLoop ctx line counter start last step body)
      (countedLoop ctx' line counter start last step body') := by
  have loops (frame : FrameId) (id : BindingId) (env : Environment) : Outlasts more
      (inEnvironment (frame :: env) do forLoop ctx line id last step body (← roundsLeft ctx))
      (inEnvironment (frame :: env) do forLoop ctx' line id last step body' (← roundsLeft ctx')) :=
    Outlasts.inEnvironment (outlasts_roundsLeft within fun _ _ less =>
      forLoop_outlasts within line id last step bodies less) _
  refine (openCounter_steady line counter start step).outlasts.bind fun (frame, id) => ?_
  exact outlasts_get (fun s => (loops frame id s.env).keeps) fun s => loops frame id s.env

end Loops

section

variable (within : ctx.Within ctx') (enters : EnterOutlasts more enter enter') (inRoutine : Bool)

include within enters

mutual

theorem exec_outlasts : ∀ stmt : Stmt,
    Outlasts more (exec ctx enter inRoutine stmt) (exec ctx' enter' inRoutine stmt) := by
  intro stmt
  rw [exec.eq_def, exec.eq_def ctx']
  refine (begins_outlasts within stmt).bind fun _ => ?_
  have present := evalPresent_outlasts within enters
  have tested (keyword : Keyword) (line : Nat) (condition : Option Expr) : Outlasts more
      (do conditionValue keyword line (← evalPresent ctx enter condition))
      (do conditionValue keyword line (← evalPresent ctx' enter' condition)) :=
    (present condition).bind fun v => (conditionValue_steady keyword line v).outlasts
  cases stmt with
  | declare place name typeName =>
    exact (declareVariable_steady name typeName).outlasts.bind fun _ => outlasts_pure _
  | declareArray place name bounds elementType =>
    exact (declareArray_outlasts within place.line name bounds elementType).bind fun _ =>
      outlasts_pure _
  | constant place name value =>
    refine (present value).bind fun v => ?_
    exact (defineConstant_steady name v).outlasts.bind fun _ => outlasts_pure _
  | assign place target value =>
    refine (eval_outlasts within enters value).bind fun v => ?_
    exact (store_outlasts within enters place.line target v).bind fun _ => outlasts_pure _
  | ifThen place condition thenBranch elseBranch =>
    refine (present condition).bind fun v => ?_
    refine (conditionValue_steady .IF place.line v).outlasts.bind fun holds => ?_
    split
    · exact execBlock_outlasts thenBranch
    · exact execOtherwise_outlasts elseBranch
  | whileDo place condition body =>
    exact outlasts_roundsLeft within fun _ _ less =>
      whileLoop_outlasts within place.line (tested .WHILE place.line condition)
        (execBlock_outlasts body) less
  | repeatUntil place body condition =>
    exact outlasts_roundsLeft within fun _ _ less =>
      repeatLoop_outlasts within place.line (execBlock_outlasts body)
        (tested .UNTIL place.line condition) less
  | forLoop place counter start stop step body =>
    have looped (first last stride : Number) :=
      countedLoop_outlasts within place.line counter first last stride (execBlock_outlasts body)
    refine (present start).bind fun v => (forBound_steady _ _ v).outlasts.bind fun first => ?_
    refine (present stop).bind fun v => (forBound_steady _ _ v).outlasts.bind fun last => ?_
    cases step with
    | none => exact looped first last (.integer 1)
    | some e =>
      refine (eval_outlasts within enters e).bind fun v => ?_
      exact (forBound_steady _ _ v).outlasts.bind fun stride => looped first last stride
  | caseOf place selector branches otherwise =>
    refine (present selector).bind fun v => ?_
    refine (execBranches_outlasts place.line v branches).bind fun taken => ?_
    cases taken with
    | some c => exact outlasts_pure _
    | none => exact execOtherwise_outlasts otherwise
  | routine r => exact outlasts_pure _
  | giveBack place value =>
    refine giveBack_outlasts inRoutine place.line ?_
    cases value with
    | none => exact outlasts_pure _
    | some e => exact eval_outlasts within enters e
  | call place callPlace callee arguments =>
    refine Outlasts.bind (Outlasts.discard ?_) fun _ => outlasts_pure _
    exact call_outlasts within enters false callPlace.line callee _
      (evalAll_outlasts within enters arguments)
      fun params => bindArguments_outlasts within enters callPlace.line callee params arguments
  | strayCall place node => exact outlasts_throw _
  | output place values =>
    rw [within.settings.separator]
    refine (evalShown_outlasts within enters place.line values).bind fun parts => ?_
    exact (emit_outlasts within place.line _).bind fun _ => outlasts_pure _
  | input place target =>
    refine Outlasts.bind ?_ fun _ => outlasts_pure _
    exact (readInput_outlasts within place.line target).bind fun v =>
      store_outlasts within enters place.line target v
  | stray place node => exact outlasts_throw _

theorem execBlock_outlasts : ∀ block : List Stmt,
    Outlasts more (execBlock ctx enter inRoutine block) (execBlock ctx' enter' inRoutine block)
  | [] => by
    rw [execBlock, execBlock]
    exact outlasts_pure _
  | stmt :: rest => by
    rw [execBlock, execBlock]
    refine (exec_outlasts stmt).bind fun c => ?_
    split
    · exact outlasts_pure _
    · exact execBlock_outlasts rest

theorem execOtherwise_outlasts : ∀ otherwise : Option (List Stmt),
    Outlasts more (execOtherwise ctx enter inRoutine otherwise)
      (execOtherwise ctx' enter' inRoutine otherwise)
  | none => by
    rw [execOtherwise, execOtherwise]
    exact outlasts_pure _
  | some block => by
    rw [execOtherwise, execOtherwise]
    exact execBlock_outlasts block

theorem execBranches_outlasts (line : Nat) (selector : Value) : ∀ branches : List (Branch Stmt),
    Outlasts more (execBranches ctx enter inRoutine line selector branches)
      (execBranches ctx' enter' inRoutine line selector branches)
  | [] => by
    rw [execBranches, execBranches]
    exact outlasts_pure _
  | ⟨labels, body, branchLine⟩ :: rest => by
    rw [execBranches, execBranches]
    refine (anyLabelMatches_outlasts within enters _ selector labels).bind fun taken => ?_
    split
    · exact (execBlock_outlasts body).bind fun _ => outlasts_pure _
    · exact execBranches_outlasts line selector rest

end

end

/-- The induction is on the calls that the second run may still make, as for loops on its rounds. -/
theorem enter_outlasts (within : ctx.Within ctx') {depth depth' : Nat} (less : depth ≤ depth') :
    EnterOutlasts more (Run.enter ctx depth) (Run.enter ctx' depth') := by
  induction depth' generalizing depth with
  | zero =>
    cases Nat.le_zero.mp less
    exact fun line r bindings => outlasts_throw _
  | succ depth' ih =>
    have entered {depth : Nat} (less : depth ≤ depth') :
        EnterOutlasts more (Run.enter ctx (depth + 1)) (Run.enter ctx' (depth' + 1)) := by
      intro line r bindings
      refine (openFrame_steady r.params bindings).outlasts.bind fun frame => ?_
      refine Outlasts.thenAtLine (Outlasts.inEnvironment ?_ _) line
      exact execBlock_outlasts within (ih less) true r.body
    cases depth with
    | zero =>
      exact fun line r bindings =>
        outlasts_shortage rfl (entered (Nat.zero_le _) line r bindings).keeps
    | succ depth => exact entered (Nat.le_of_succ_le_succ less)

theorem program_outlasts (within : ctx.Within ctx') (p : Program) :
    Outlasts more (program ctx p) (program ctx' p) :=
  execBlock_outlasts within (enter_outlasts within within.settings.calls) false p.body

end Run

/-- The reports of a run that was short of something. -/
def Code.isShortage (code : Code) : Bool :=
  code = .stepLimitExceeded ∨ code = .stackOverflow ∨ code = .memoryLimit ∨ code = .inputExhausted

namespace Trace

/-- The events of a trace that are lines of output. -/
def outputs (t : Trace) : List Event := t.events.filter (·.kind = .output)

/-- The run failed, and its last event says that it was short of something. -/
def Short (t : Trace) : Prop :=
  t.success = false ∧ ∃ event ∈ t.events.getLast?,
    event.kind = .error ∧ ∃ code ∈ event.code, code.isShortage = true

end Trace

theorem Event.ofStop_shortage (line : Nat) {e : Stop} (short : e.isShortage = true) :
    (ofStop line e).kind = .error ∧ ∃ code ∈ (ofStop line e).code, code.isShortage = true := by
  unfold Stop.isShortage at short
  split at short
  case h_6 => cases short
  all_goals exact ⟨rfl, _, rfl, rfl⟩

namespace Outcome

theorem trace_outputs (o : Outcome) (limit : Nat) :
    (o.trace limit).outputs = o.outputs.map Event.ofOutput := by
  have lines : (o.outputs.map Event.ofOutput).filter (·.kind = .output) =
      o.outputs.map Event.ofOutput :=
    List.filter_eq_self.mpr (by simp [Event.ofOutput])
  have notice : (if o.dropped = 0 then [] else [Event.outputLimit limit o.dropped]).filter
      (·.kind = .output) = [] := by
    split <;> rfl
  have last : ((o.stop.map (Event.ofStop o.line)).toList).filter (·.kind = .output) = [] := by
    cases o.stop with
    | none => rfl
    | some e => cases e <;> rfl
  simp only [Trace.outputs, trace, events, List.filter_append, lines, notice, last, List.append_nil]

theorem trace_short {o : Outcome} (limit : Nat) {e : Stop} (stopped : o.stop = some e)
    (short : e.isShortage = true) : (o.trace limit).Short := by
  refine ⟨by simp [trace, stopped], Event.ofStop o.line e, ?_, Event.ofStop_shortage o.line short⟩
  simp [trace, events, stopped]

end Outcome

/-- What the second run can come to, seen from the first. -/
theorem Program.outcome_outlasts (p : Program) {settings settings' : Settings} {host host' : Host}
    (within : settings.Within settings') (idle : host.Idle settings) (idle' : host'.Idle settings') :
    p.outcome settings host = p.outcome settings' host' ∨
      ∃ e, (p.outcome settings host).stop = some e ∧ e.isShortage = true ∧
        (p.outcome settings host).outputs <+: (p.outcome settings' host').outputs := by
  obtain ⟨more, inputs⟩ := within.inputs
  have start : (RunState.initial settings).supplied more = .initial settings' := by
    simp only [RunState.initial, RunState.supplied, inputs, within.seed]
  have contexts : RunContext.Within ⟨settings, host, p.routines⟩ ⟨settings', host', p.routines⟩ :=
    ⟨within, rfl, idle, idle'⟩
  have outlasts : Run.Outlasts more _ _ := Run.program_outlasts contexts p
  have agrees := outlasts.agrees (.initial settings)
  rw [start] at agrees
  unfold Program.outcome
  unfold Ends at agrees
  split at agrees
  next c s ran =>
    simp only [ran, agrees]
    exact .inl rfl
  next e s failed =>
    simp only [failed]
    obtain same | ⟨short, left⟩ := agrees
    · simp only [same]
      exact .inl rfl
    · refine .inr ⟨e, rfl, short, ?_⟩
      unfold Run.Leaves Ends at left
      split at left
      next ran => simpa only [ran, Outcome.ofState] using left
      next failed' => simpa only [failed', Outcome.ofState] using left

/-- A program that reads and puts out two texts. -/
def echoTwice : Program where
  body :=
    [.declare ⟨1, 1⟩ "x" "STRING",
    .input ⟨2, 1⟩ (.variable ⟨2, 7⟩ "x"), .output ⟨3, 1⟩ [.name ⟨3, 8⟩ "x"],
    .input ⟨4, 1⟩ (.variable ⟨4, 7⟩ "x"), .output ⟨5, 1⟩ [.name ⟨5, 8⟩ "x"]]

end Pseudocode
