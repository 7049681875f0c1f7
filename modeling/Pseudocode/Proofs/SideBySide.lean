import Pseudocode.Proofs.Lockstep

/-! Code in two contexts that match. Every expression, statement and call keeps in lockstep with itself,
by recursion on the structure; loops by induction on their rounds, calls on how many more of them may be
active. -/
namespace Pseudocode.Run

variable {agree : Tally → Tally → Prop} {waived : Stop → Prop} {ctx ctx' : RunContext}
  {enter enter' : Enter} {α : Type}

/-- Whatever routine is entered and whatever it is called with. -/
def EnterLockstep (agree : Tally → Tally → Prop) (waived : Stop → Prop) (enter enter' : Enter) : Prop :=
  ∀ line r bindings, Lockstep agree waived (enter line r bindings) (enter' line r bindings)

section Loops

variable (matched : ctx.Matches agree waived ctx') (line : Nat) {test test' : Run Bool}
  {body body' : Run Completion}

include matched

theorem whileLoop_lockstep (tests : Lockstep agree waived test test')
    (bodies : Lockstep agree waived body body') {rounds rounds' : Nat}
    (equal : rounds = rounds' ∨ ∀ line, waived (.fault line .stepLimit)) :
    Lockstep agree waived (whileLoop ctx line test body rounds)
      (whileLoop ctx' line test' body' rounds') := by
  induction rounds generalizing rounds' with
  | zero =>
    rcases equal with rfl | waives
    · exact lockstep_stop _ _
    · exact lockstep_waived (waives line)
  | succ rounds ih =>
    cases rounds' with
    | zero => exact lockstep_waived_right (equal.resolve_left (Nat.succ_ne_zero _) line)
    | succ rounds' =>
      refine tests.bind fun holds => ?_
      split
      · refine bodies.bind fun c => ?_
        split
        · exact lockstep_pure _
        · exact (matched.ticks line).bind fun _ => ih (equal.imp_left Nat.succ.inj)
      · exact lockstep_pure _

theorem repeatLoop_lockstep (bodies : Lockstep agree waived body body')
    (tests : Lockstep agree waived test test') {rounds rounds' : Nat}
    (equal : rounds = rounds' ∨ ∀ line, waived (.fault line .stepLimit)) :
    Lockstep agree waived (repeatLoop ctx line body test rounds)
      (repeatLoop ctx' line body' test' rounds') := by
  induction rounds generalizing rounds' with
  | zero =>
    rcases equal with rfl | waives
    · exact lockstep_stop _ _
    · exact lockstep_waived (waives line)
  | succ rounds ih =>
    cases rounds' with
    | zero => exact lockstep_waived_right (equal.resolve_left (Nat.succ_ne_zero _) line)
    | succ rounds' =>
      refine bodies.bind fun c => ?_
      split
      · exact lockstep_pure _
      · refine (matched.ticks line).bind fun _ => tests.bind fun holds => ?_
        split
        · exact lockstep_pure _
        · exact ih (equal.imp_left Nat.succ.inj)

theorem forLoop_lockstep (counter : BindingId) (last step : Number)
    (bodies : Lockstep agree waived body body') {rounds rounds' : Nat}
    (equal : rounds = rounds' ∨ ∀ line, waived (.fault line .stepLimit)) :
    Lockstep agree waived (forLoop ctx line counter last step body rounds)
      (forLoop ctx' line counter last step body' rounds') := by
  induction rounds generalizing rounds' with
  | zero =>
    rcases equal with rfl | waives
    · exact lockstep_stop _ _
    · exact lockstep_waived (waives line)
  | succ rounds ih =>
    cases rounds' with
    | zero => exact lockstep_waived_right (equal.resolve_left (Nat.succ_ne_zero _) line)
    | succ rounds' =>
      refine (counterValue_looks counter).lockstep.bind fun value => ?_
      split
      · exact lockstep_pure _
      · refine bodies.bind fun c => ?_
        split
        · exact lockstep_pure _
        · refine (matched.ticks line).bind fun _ => ?_
          exact (advance_edits line counter step).lockstep.bind fun _ => ih (equal.imp_left Nat.succ.inj)

theorem countedLoop_lockstep (counter : Option String) (start last step : Number)
    (bodies : Lockstep agree waived body body') :
    Lockstep agree waived (countedLoop ctx line counter start last step body)
      (countedLoop ctx' line counter start last step body') := by
  refine (openCounter_edits line counter start step).lockstep.bind fun (frame, id) => ?_
  refine lockstep_get fun s s' abreast => ?_
  rw [abreast.env]
  refine Lockstep.inEnvironment (lockstep_roundsLeft matched fun _ _ equal => ?_) _
  exact forLoop_lockstep matched line id last step bodies equal

end Loops

-- What the theorems of a mutual block use of the hypotheses, they use through each other.
set_option linter.unusedSectionVars false

section Expressions

variable (matched : ctx.Matches agree waived ctx') (enters : EnterLockstep agree waived enter enter')

include matched enters

theorem call_lockstep (asValue : Bool) (line : Nat) (callee : String) (count : Nat)
    {plain plain' : Run (List Value)} (plains : Lockstep agree waived plain plain')
    {bound bound' : List Param → Run (List BindingId)}
    (bounds : ∀ params, Lockstep agree waived (bound params) (bound' params)) :
    Lockstep agree waived (call ctx enter asValue line callee count plain bound)
      (call ctx' enter' asValue line callee count plain' bound') := by
  unfold call
  rw [matched.routine]
  split
  · split
    · exact plains.bind fun values => callBuiltin_lockstep line callee values
    · exact lockstep_stop _ _
  next r _ =>
    dsimp only
    split
    · exact lockstep_throw _
    · split
      · exact lockstep_throw _
      · exact (bounds r.params).bind fun bindings => (enters line r bindings).bind fun c =>
          (resultOf_looks line r callee c).lockstep

mutual

theorem eval_lockstep : ∀ e : Expr, Lockstep agree waived (eval ctx enter e) (eval ctx' enter' e)
  | .literal _ value => by
    rw [eval, eval]
    exact lockstep_pure _
  | .name place name => by
    rw [eval, eval]
    exact nameValue_lockstep matched place.line name
  | .element place array indices => by
    rw [eval, eval]
    refine (arrayNamed_looks place.line array).lockstep.bind fun id => ?_
    refine (evalIndices_lockstep place.line indices).bind fun is => ?_
    exact (elementValue_looks place.line id is).lockstep
  | .binary place op left right => by
    rw [eval, eval]
    split
    · refine (eval_lockstep left).bind fun v => ?_
      refine (truth_looks place.line op.text v).lockstep.bind fun l => ?_
      split
      · exact lockstep_pure _
      · refine (eval_lockstep right).bind fun w => ?_
        exact (truth_looks place.line op.text w).lockstep.bind fun _ => lockstep_pure _
    · refine (eval_lockstep left).bind fun l => (eval_lockstep right).bind fun r => ?_
      exact binary_lockstep matched place.line op l r
  | .unary place op operand => by
    rw [eval, eval]
    exact (eval_lockstep operand).bind fun v => (unary_looks place.line op v).lockstep
  | .call place callee arguments => by
    rw [eval, eval]
    exact call_lockstep matched enters true place.line callee _ (evalAll_lockstep arguments)
      fun params => bindArguments_lockstep place.line callee params arguments
  | .range .. => by
    rw [eval, eval]
    exact lockstep_throw _
  | .stray .. => by
    rw [eval, eval]
    exact lockstep_throw _

theorem evalAll_lockstep : ∀ es : List Expr,
    Lockstep agree waived (evalAll ctx enter es) (evalAll ctx' enter' es)
  | [] => by
    rw [evalAll, evalAll]
    exact lockstep_pure _
  | e :: rest => by
    rw [evalAll, evalAll]
    exact (eval_lockstep e).bind fun _ => (evalAll_lockstep rest).bind fun _ => lockstep_pure _

theorem evalIndices_lockstep (line : Nat) : ∀ es : List Expr,
    Lockstep agree waived (evalIndices ctx enter line es) (evalIndices ctx' enter' line es)
  | [] => by
    rw [evalIndices, evalIndices]
    exact lockstep_pure _
  | e :: rest => by
    rw [evalIndices, evalIndices]
    refine (eval_lockstep e).bind fun v => (indexValue_looks line v).lockstep.bind fun _ => ?_
    exact (evalIndices_lockstep line rest).bind fun _ => lockstep_pure _

theorem bindArguments_lockstep (line : Nat) (callee : String) :
    ∀ (params : List Param) (es : List Expr),
      Lockstep agree waived (bindArguments ctx enter line callee params es)
        (bindArguments ctx' enter' line callee params es)
  | [], es => by
    rw [bindArguments, bindArguments]
    · exact lockstep_pure _
    · nofun
    · nofun
  | param :: params, [] => by
    rw [bindArguments, bindArguments]
    · exact lockstep_pure _
    · nofun
    · nofun
  | param :: params, e :: rest => by
    have bound : Lockstep agree waived (bindArgument line callee param e (eval ctx enter e))
        (bindArgument line callee param e (eval ctx' enter' e)) := by
      unfold bindArgument
      split
      · exact (bindReference_looks line callee param e).lockstep
      · exact (eval_lockstep e).bind fun v => (bindValue_edits line callee param v).lockstep
    rw [bindArguments, bindArguments]
    exact bound.bind fun _ => (bindArguments_lockstep line callee params rest).bind fun _ =>
      lockstep_pure _

end

theorem evalPresent_lockstep (value : Option Expr) :
    Lockstep agree waived (evalPresent ctx enter value) (evalPresent ctx' enter' value) := by
  cases value with
  | none => exact lockstep_throw _
  | some e => exact eval_lockstep matched enters e

theorem evalShown_lockstep (line : Nat) (es : List Expr) :
    Lockstep agree waived (evalShown ctx enter line es) (evalShown ctx' enter' line es) := by
  induction es with
  | nil => exact lockstep_pure _
  | cons e rest ih =>
    refine (eval_lockstep matched enters e).bind fun v => (shown_lockstep matched line v).bind fun _ => ?_
    exact ih.bind fun _ => lockstep_pure _

theorem store_lockstep (line : Nat) (target : Target) (value : Value) :
    Lockstep agree waived (store ctx enter line target value)
      (store ctx' enter' line target value) := by
  unfold store
  split
  · exact (assign_edits _ _ _).lockstep
  · refine (arrayNamed_looks _ _).lockstep.bind fun id => ?_
    exact (evalIndices_lockstep matched enters line _).bind fun is =>
      (assignElement_edits _ _ _ _).lockstep
  · exact lockstep_throw _

theorem labelMatches_lockstep (line : Nat) (selector : Value) (label : Expr) :
    Lockstep agree waived (labelMatches ctx enter line selector label)
      (labelMatches ctx' enter' line selector label) := by
  unfold labelMatches
  split
  · refine (eval_lockstep matched enters _).bind fun low => ?_
    refine (eval_lockstep matched enters _).bind fun high => ?_
    split
    · exact lockstep_stop _ _
    · exact lockstep_pure _
    · split
      · exact lockstep_stop _ _
      · exact lockstep_pure _
  · refine (eval_lockstep matched enters _).bind fun v => ?_
    split
    · exact lockstep_stop _ _
    · exact lockstep_pure _

theorem anyLabelMatches_lockstep (line : Nat) (selector : Value) (labels : List Expr) :
    Lockstep agree waived (anyLabelMatches ctx enter line selector labels)
      (anyLabelMatches ctx' enter' line selector labels) := by
  induction labels with
  | nil => exact lockstep_pure _
  | cons label rest ih =>
    refine (labelMatches_lockstep matched enters line selector label).bind fun taken => ?_
    split
    · exact lockstep_pure _
    · exact ih

end Expressions

section Statements

variable (matched : ctx.Matches agree waived ctx') (enters : EnterLockstep agree waived enter enter')
  (inRoutine : Bool)

include matched enters

mutual

theorem exec_lockstep : ∀ stmt : Stmt,
    Lockstep agree waived (exec ctx enter inRoutine stmt) (exec ctx' enter' inRoutine stmt) := by
  intro stmt
  rw [exec.eq_def, exec.eq_def ctx']
  refine (begins_lockstep matched stmt).bind fun _ => ?_
  have present := evalPresent_lockstep matched enters
  have tested (keyword : Keyword) (line : Nat) (condition : Option Expr) : Lockstep agree waived
      (do conditionValue keyword line (← evalPresent ctx enter condition))
      (do conditionValue keyword line (← evalPresent ctx' enter' condition)) :=
    (present condition).bind fun v => (conditionValue_looks line keyword v).lockstep
  cases stmt with
  | declare place name typeName =>
    exact (declareVariable_edits name typeName).lockstep.bind fun _ => lockstep_pure _
  | declareArray place name bounds elementType =>
    exact (declareArray_lockstep matched place.line name bounds elementType).bind fun _ =>
      lockstep_pure _
  | constant place name value =>
    refine (present value).bind fun v => ?_
    exact (defineConstant_edits name v).lockstep.bind fun _ => lockstep_pure _
  | assign place target value =>
    refine (eval_lockstep matched enters value).bind fun v => ?_
    exact (store_lockstep matched enters place.line target v).bind fun _ => lockstep_pure _
  | ifThen place condition thenBranch elseBranch =>
    refine (present condition).bind fun v => ?_
    refine (conditionValue_looks place.line .IF v).lockstep.bind fun holds => ?_
    split
    · exact execBlock_lockstep thenBranch
    · exact execOtherwise_lockstep elseBranch
  | whileDo place condition body =>
    exact lockstep_roundsLeft matched fun _ _ equal =>
      whileLoop_lockstep matched place.line (tested .WHILE place.line condition)
        (execBlock_lockstep body) equal
  | repeatUntil place body condition =>
    exact lockstep_roundsLeft matched fun _ _ equal =>
      repeatLoop_lockstep matched place.line (execBlock_lockstep body)
        (tested .UNTIL place.line condition) equal
  | forLoop place counter start stop step body =>
    have looped (first last stride : Number) :=
      countedLoop_lockstep matched place.line counter first last stride (execBlock_lockstep body)
    refine (present start).bind fun v => (forBound_looks _ _ v).lockstep.bind fun first => ?_
    refine (present stop).bind fun v => (forBound_looks _ _ v).lockstep.bind fun last => ?_
    cases step with
    | none => exact looped first last (.integer 1)
    | some e =>
      refine (eval_lockstep matched enters e).bind fun v => ?_
      exact (forBound_looks _ _ v).lockstep.bind fun stride => looped first last stride
  | caseOf place selector branches otherwise =>
    refine (present selector).bind fun v => ?_
    refine (execBranches_lockstep place.line v branches).bind fun taken => ?_
    cases taken with
    | some c => exact lockstep_pure _
    | none => exact execOtherwise_lockstep otherwise
  | routine r => exact lockstep_pure _
  | giveBack place value =>
    refine giveBack_lockstep inRoutine place.line ?_
    cases value with
    | none => exact lockstep_pure _
    | some e => exact eval_lockstep matched enters e
  | call place callPlace callee arguments =>
    refine Lockstep.bind (Lockstep.discarded ?_) fun _ => lockstep_pure _
    exact call_lockstep matched enters false callPlace.line callee _
      (evalAll_lockstep matched enters arguments)
      fun params => bindArguments_lockstep matched enters callPlace.line callee params arguments
  | strayCall place node => exact lockstep_throw _
  | output place values =>
    rw [matched.separator]
    refine (evalShown_lockstep matched enters place.line values).bind fun parts => ?_
    exact (matched.emits place.line _).bind fun _ => lockstep_pure _
  | input place target =>
    refine Lockstep.bind ?_ fun _ => lockstep_pure _
    exact (readInput_lockstep matched place.line target).bind fun v =>
      store_lockstep matched enters place.line target v
  | stray place node => exact lockstep_throw _

theorem execBlock_lockstep : ∀ block : List Stmt, Lockstep agree waived
    (execBlock ctx enter inRoutine block) (execBlock ctx' enter' inRoutine block)
  | [] => by
    rw [execBlock, execBlock]
    exact lockstep_pure _
  | stmt :: rest => by
    rw [execBlock, execBlock]
    refine (exec_lockstep stmt).bind fun c => ?_
    split
    · exact lockstep_pure _
    · exact execBlock_lockstep rest

theorem execOtherwise_lockstep : ∀ otherwise : Option (List Stmt), Lockstep agree waived
    (execOtherwise ctx enter inRoutine otherwise) (execOtherwise ctx' enter' inRoutine otherwise)
  | none => by
    rw [execOtherwise, execOtherwise]
    exact lockstep_pure _
  | some block => by
    rw [execOtherwise, execOtherwise]
    exact execBlock_lockstep block

theorem execBranches_lockstep (line : Nat) (selector : Value) : ∀ branches : List (Branch Stmt),
    Lockstep agree waived (execBranches ctx enter inRoutine line selector branches)
      (execBranches ctx' enter' inRoutine line selector branches)
  | [] => by
    rw [execBranches, execBranches]
    exact lockstep_pure _
  | ⟨labels, body, branchLine⟩ :: rest => by
    rw [execBranches, execBranches]
    refine (anyLabelMatches_lockstep matched enters _ selector labels).bind fun taken => ?_
    split
    · exact (execBlock_lockstep body).bind fun _ => lockstep_pure _
    · exact execBranches_lockstep line selector rest

end

end Statements

/-- The induction is on the calls that may still be made. -/
theorem enter_lockstep (matched : ctx.Matches agree waived ctx') (depth : Nat) :
    EnterLockstep agree waived (Run.enter ctx depth) (Run.enter ctx' depth) := by
  induction depth with
  | zero => exact fun line r bindings => lockstep_stop _ _
  | succ depth ih =>
    intro line r bindings
    refine (openFrame_edits r.params bindings).lockstep.bind fun frame => ?_
    refine Lockstep.thenAtLine (Lockstep.inEnvironment ?_ _) line
    exact execBlock_lockstep matched ih true r.body

end Pseudocode.Run
