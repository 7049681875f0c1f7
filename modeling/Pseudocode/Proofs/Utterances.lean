import Pseudocode.Proofs.SizedRun
import Pseudocode.Proofs.Wording

/-! No code leaves a wording. Expressions, statements, loops and calls utter good texts alone, by recursion
on their structure, and so does whatever comes before a piece of code within another. Hence the texts that
are held are good whenever a run comes to a piece of code, and when it leaves it again. -/
namespace Pseudocode.Run

variable {ctx : RunContext} (W : Wording ctx) {enter : Enter}

/-- However a routine is entered, what its body utters is good. -/
def EnterUtters (enter : Enter) : Prop :=
  ∀ line, ∀ r ∈ ctx.routines, ∀ bindings, Utters W.good (enter line r bindings) (Completion.Worded W.good)

variable {W}

theorem call_utters (enters : EnterUtters W enter) {asValue : Bool} {line : Nat} {callee : String} {count : Nat}
    (permitted : W.callee callee) {plain : Run (List Value)}
    (plains : Utters W.good plain fun vs => ∀ v ∈ vs, v.Worded W.good)
    {bound : List Param → Run (List BindingId)} (bounds : ∀ params, Utters W.good (bound params) fun _ => True) :
    Utters W.good (call ctx enter asValue line callee count plain bound) (Value.Worded W.good) := by
  unfold call
  split
  · split
    · exact plains.bind fun vs known => callBuiltin_utters W permitted known
    · exact utters_stop _ _
  next r found =>
    dsimp only
    split
    · exact utters_throw _
    · split
      · exact utters_throw _
      · refine (bounds r.params).bind fun bindings _ => ?_
        exact (enters line r (routine_mem found) bindings).bind fun c known => resultOf_utters r callee known

mutual

theorem eval_utters (enters : EnterUtters W enter) : ∀ e : Expr, e.Grounded W.ground →
    Utters W.good (eval ctx enter e) (Value.Worded W.good)
  | .literal _ value, .literal _ known => by
    rw [eval]
    refine utters_pure ?_
    intro text held
    cases value <;> cases held <;> exact known
  | .name place name, _ => by
    rw [eval]
    exact nameValue_utters name
  | .element place array indices, .element _ known => by
    rw [eval]
    refine (arrayNamed_looks place.line array).utters.bind fun id _ => ?_
    exact (evalIndices_utters enters place.line indices known).bind fun is _ => elementValue_utters id is
  | .binary place op left right, .binary _ first second => by
    rw [eval]
    split
    · refine (eval_utters enters left first).bind fun l _ => ?_
      refine (truth_looks place.line op.text l).utters.bind fun b _ => ?_
      split
      · exact utters_pure (Value.worded_of_none rfl)
      · refine (eval_utters enters right second).bind fun r _ => ?_
        exact (truth_looks place.line op.text r).utters.bind fun _ _ => utters_pure (Value.worded_of_none rfl)
    · refine (eval_utters enters left first).bind fun l _ => ?_
      exact (eval_utters enters right second).bind fun r _ => binary_utters W op l r
  | .unary place op operand, .unary _ known => by
    rw [eval]
    exact (eval_utters enters operand known).bind fun v _ => unary_utters op v
  | .call place callee arguments, .call _ permitted known => by
    rw [eval]
    exact call_utters enters permitted (evalAll_utters enters arguments known) fun params =>
      bindArguments_utters enters place.line callee params arguments known
  | .range .., _ => by
    rw [eval]
    exact utters_throw _
  | .stray .., _ => by
    rw [eval]
    exact utters_throw _

theorem evalAll_utters (enters : EnterUtters W enter) : ∀ es : List Expr, (∀ e ∈ es, e.Grounded W.ground) →
    Utters W.good (evalAll ctx enter es) fun vs => ∀ v ∈ vs, v.Worded W.good
  | [], _ => by
    rw [evalAll]
    exact utters_pure (List.forall_mem_nil _)
  | e :: rest, known => by
    rw [evalAll]
    refine (eval_utters enters e (known e (.head _))).bind fun v first => ?_
    exact (evalAll_utters enters rest fun e member => known e (.tail _ member)).bind fun vs others =>
      utters_pure (List.forall_mem_cons.mpr ⟨first, others⟩)

theorem evalIndices_utters (enters : EnterUtters W enter) (line : Nat) :
    ∀ es : List Expr, (∀ e ∈ es, e.Grounded W.ground) →
      Utters W.good (evalIndices ctx enter line es) fun _ => True
  | [], _ => by
    rw [evalIndices]
    exact utters_pure trivial
  | e :: rest, known => by
    rw [evalIndices]
    refine (eval_utters enters e (known e (.head _))).bind fun v _ => ?_
    refine (indexValue_looks line v).utters.bind fun i _ => ?_
    exact (evalIndices_utters enters line rest fun e member => known e (.tail _ member)).bind fun _ _ =>
      utters_pure trivial

theorem bindArguments_utters (enters : EnterUtters W enter) (line : Nat) (callee : String) :
    ∀ (params : List Param) (es : List Expr), (∀ e ∈ es, e.Grounded W.ground) →
      Utters W.good (bindArguments ctx enter line callee params es) fun _ => True
  | [], es, _ => by
    rw [bindArguments]
    · exact utters_pure trivial
    · nofun
  | param :: params, [], _ => by
    rw [bindArguments]
    · exact utters_pure trivial
    · nofun
  | param :: params, e :: rest, known => by
    rw [bindArguments]
    refine (bindArgument_utters callee param e (eval_utters enters e (known e (.head _)))).bind fun i _ => ?_
    exact (bindArguments_utters enters line callee params rest fun e member => known e (.tail _ member)).bind
      fun _ _ => utters_pure trivial

end

section Pieces

variable (enters : EnterUtters W enter) {line : Nat}

include enters

theorem evalPresent_utters {value : Option Expr} (known : ∀ e ∈ value, e.Grounded W.ground) :
    Utters W.good (evalPresent ctx enter value) (Value.Worded W.good) := by
  cases value with
  | none => exact utters_throw _
  | some e => exact eval_utters enters e (known e rfl)

theorem evalShown_utters {es : List Expr} (known : ∀ e ∈ es, e.Grounded W.ground) :
    Utters W.good (evalShown ctx enter line es) fun _ => True := by
  induction es with
  | nil => exact utters_pure trivial
  | cons e rest ih =>
    rw [evalShown]
    refine (eval_utters enters e (known e (.head _))).bind fun v _ => ?_
    refine (shown_looks ctx line v).utters.bind fun text _ => ?_
    exact (ih fun e member => known e (.tail _ member)).bind fun _ _ => utters_pure trivial

theorem labelMatches_utters {selector : Value} {label : Expr} (known : label.Grounded W.ground) :
    Utters W.good (labelMatches ctx enter line selector label) fun _ => True := by
  unfold labelMatches
  split
  · cases known with
    | range _ low high =>
      refine (eval_utters enters _ low).bind fun l _ => (eval_utters enters _ high).bind fun h _ => ?_
      split
      · exact utters_stop _ _
      · exact utters_pure trivial
      · split
        · exact utters_stop _ _
        · exact utters_pure trivial
  · refine (eval_utters enters _ known).bind fun v _ => ?_
    split
    · exact utters_stop _ _
    · exact utters_pure trivial

theorem anyLabelMatches_utters {selector : Value} {labels : List Expr}
    (known : ∀ e ∈ labels, e.Grounded W.ground) :
    Utters W.good (anyLabelMatches ctx enter line selector labels) fun _ => True := by
  induction labels with
  | nil => exact utters_pure trivial
  | cons label rest ih =>
    rw [anyLabelMatches]
    refine (labelMatches_utters enters (known label (.head _))).bind fun taken _ => ?_
    split
    · exact utters_pure trivial
    · exact ih fun e member => known e (.tail _ member)

theorem store_utters {target : Target} (known : target.Grounded W.ground) {v : Value}
    (worded : v.Worded W.good) : Utters W.good (store ctx enter line target v) fun _ => True := by
  unfold store
  split
  · exact assign_utters _ worded
  next indices =>
    cases known with
    | element _ inner =>
      refine (arrayNamed_looks line _).utters.bind fun id _ => ?_
      exact (evalIndices_utters enters line indices inner).bind fun is _ => assignElement_utters id is worded
  · exact utters_throw _

theorem test_utters (keyword : Keyword) {condition : Option Expr} (known : ∀ e ∈ condition, e.Grounded W.ground) :
    Utters W.good (do conditionValue keyword line (← evalPresent ctx enter condition)) fun _ => True :=
  (evalPresent_utters enters known).bind fun v _ => (conditionValue_looks line keyword v).utters

theorem bound_utters (part : ForPart) {e : Option Expr} (known : ∀ e' ∈ e, e'.Grounded W.ground) :
    Utters W.good (do forBound line part (← evalPresent ctx enter e)) fun _ => True :=
  (evalPresent_utters enters known).bind fun v _ => (forBound_looks line part v).utters

end Pieces

section Loops

variable {good : String → Prop} {line rounds : Nat} {test : Run Bool} {body : Run Completion}

theorem whileLoop_utters (tests : Utters good test fun _ => True) (bodies : Utters good body (Completion.Worded good)) :
    Utters good (whileLoop ctx line test body rounds) (Completion.Worded good) := by
  induction rounds with
  | zero => exact utters_stop _ _
  | succ rounds ih =>
    rw [whileLoop]
    refine tests.bind fun holds _ => ?_
    split
    · refine bodies.bind fun c known => ?_
      cases c with
      | returned => exact utters_pure known
      | normal => exact tick_utters.bind fun _ _ => ih
    · exact utters_pure trivial

theorem repeatLoop_utters (tests : Utters good test fun _ => True)
    (bodies : Utters good body (Completion.Worded good)) :
    Utters good (repeatLoop ctx line body test rounds) (Completion.Worded good) := by
  induction rounds with
  | zero => exact utters_stop _ _
  | succ rounds ih =>
    rw [repeatLoop]
    refine bodies.bind fun c known => ?_
    cases c with
    | returned => exact utters_pure known
    | normal =>
      refine tick_utters.bind fun _ _ => tests.bind fun holds _ => ?_
      split
      · exact utters_pure trivial
      · exact ih

theorem forLoop_utters (counter : BindingId) (last step : Number)
    (bodies : Utters good body (Completion.Worded good)) :
    Utters good (forLoop ctx line counter last step body rounds) (Completion.Worded good) := by
  induction rounds with
  | zero => exact utters_stop _ _
  | succ rounds ih =>
    rw [forLoop]
    refine (counterValue_looks counter).utters.bind fun v _ => ?_
    split
    · exact utters_pure trivial
    · refine bodies.bind fun c known => ?_
      cases c with
      | returned => exact utters_pure known
      | normal => exact tick_utters.bind fun _ _ => (advance_utters counter step).bind fun _ _ => ih

theorem countedLoop_utters (counter : Option String) (start last step : Number)
    (bodies : Utters good body (Completion.Worded good)) :
    Utters good (countedLoop ctx line counter start last step body) (Completion.Worded good) := by
  refine (openCounter_utters counter start step).bind fun opened _ => utters_get fun s _ => ?_
  exact inEnvironment_utters (utters_get fun t _ => forLoop_utters opened.2 last step bodies) _

theorem giveBack_utters (inRoutine : Bool) {value : Run Value} (values : Utters good value (Value.Worded good)) :
    Utters good (giveBack inRoutine line value) (Completion.Worded good) := by
  unfold giveBack
  split
  · exact values.bind fun v known => utters_pure known
  · exact utters_stop _ _

end Loops

mutual

theorem exec_utters (enters : EnterUtters W enter) (inRoutine : Bool) : ∀ stmt : Stmt, stmt.Grounded W.ground →
    Utters W.good (exec ctx enter inRoutine stmt) (Completion.Worded W.good) := by
  intro stmt known
  have short : W.good "" := W.short (Nat.zero_le _)
  rw [exec.eq_def]
  refine (begins_utters stmt).bind fun _ _ => ?_
  cases known with
  | declare => exact (declareVariable_utters short _ _).bind fun _ _ => utters_pure trivial
  | declareArray => exact (declareArray_utters short _ _ _).bind fun _ _ => utters_pure trivial
  | constant _ value =>
    refine (evalPresent_utters enters value).bind fun v worded => ?_
    exact (defineConstant_utters _ worded).bind fun _ _ => utters_pure trivial
  | assign _ target value =>
    refine (eval_utters enters _ value).bind fun v worded => ?_
    exact (store_utters enters target worded).bind fun _ _ => utters_pure trivial
  | ifThen _ condition thens elses =>
    refine (evalPresent_utters enters condition).bind fun v _ => ?_
    refine (conditionValue_looks _ .IF v).utters.bind fun holds _ => ?_
    split
    · exact execBlock_utters enters inRoutine _ thens
    · exact execOtherwise_utters enters inRoutine _ elses
  | whileDo _ condition body =>
    exact utters_get fun s _ => whileLoop_utters (test_utters enters .WHILE condition)
      (execBlock_utters enters inRoutine _ body)
  | repeatUntil _ body condition =>
    exact utters_get fun s _ => repeatLoop_utters (test_utters enters .UNTIL condition)
      (execBlock_utters enters inRoutine _ body)
  | @forLoop place start stop step body counter _ starts stops steps bodies =>
    have looped (first last stride : Number) : Utters W.good
        (countedLoop ctx place.line counter first last stride (execBlock ctx enter inRoutine body))
        (Completion.Worded W.good) :=
      countedLoop_utters counter first last stride (execBlock_utters enters inRoutine body bodies)
    refine (evalPresent_utters enters starts).bind fun v _ => ?_
    refine (forBound_looks _ .start v).utters.bind fun first _ => ?_
    refine (evalPresent_utters enters stops).bind fun v _ => ?_
    refine (forBound_looks _ .stop v).utters.bind fun last _ => ?_
    cases step with
    | none => exact looped first last (.integer 1)
    | some e =>
      refine (eval_utters enters e (steps e rfl)).bind fun v _ => ?_
      exact (forBound_looks _ .step v).utters.bind fun stride _ => looped first last stride
  | caseOf _ selector _ labels bodies otherwise =>
    refine (evalPresent_utters enters selector).bind fun v _ => ?_
    refine (execBranches_utters enters inRoutine _ v _ labels bodies).bind fun taken known => ?_
    cases taken with
    | some c => exact utters_pure (known c rfl)
    | none => exact execOtherwise_utters enters inRoutine _ otherwise
  | routine => exact utters_pure trivial
  | @giveBack place value _ given =>
    refine giveBack_utters inRoutine ?_
    cases value with
    | none => exact utters_pure (Value.worded_of_none rfl)
    | some e => exact eval_utters enters e (given e rfl)
  | call _ _ permitted arguments =>
    refine Utters.bind (call_utters enters permitted (evalAll_utters enters _ arguments) fun params =>
      bindArguments_utters enters _ _ params _ arguments).discard fun _ _ => utters_pure trivial
  | strayCall => exact utters_throw _
  | output _ values =>
    refine (evalShown_utters enters values).bind fun parts _ => ?_
    exact (emit_utters _).bind fun _ _ => utters_pure trivial
  | input _ target =>
    refine Utters.bind (Utters.bind (readInput_utters W _) fun v worded => store_utters enters target worded)
      fun _ _ => utters_pure trivial
  | stray => exact utters_throw _

theorem execBlock_utters (enters : EnterUtters W enter) (inRoutine : Bool) :
    ∀ block : List Stmt, BlockGrounded W.ground block →
      Utters W.good (execBlock ctx enter inRoutine block) (Completion.Worded W.good)
  | [], _ => by
    rw [execBlock]
    exact utters_pure trivial
  | stmt :: rest, known => by
    rw [execBlock]
    refine (exec_utters enters inRoutine stmt (known stmt (.head _))).bind fun c worded => ?_
    cases c with
    | returned => exact utters_pure worded
    | normal => exact execBlock_utters enters inRoutine rest fun s member => known s (.tail _ member)

theorem execOtherwise_utters (enters : EnterUtters W enter) (inRoutine : Bool) :
    ∀ otherwise : Option (List Stmt), (∀ block ∈ otherwise, ∀ s ∈ block, s.Grounded W.ground) →
      Utters W.good (execOtherwise ctx enter inRoutine otherwise) (Completion.Worded W.good)
  | none, _ => by
    rw [execOtherwise]
    exact utters_pure trivial
  | some block, known => by
    rw [execOtherwise]
    exact execBlock_utters enters inRoutine block (known block rfl)

theorem execBranches_utters (enters : EnterUtters W enter) (inRoutine : Bool) (line : Nat) (selector : Value) :
    ∀ branches : List (Branch Stmt), (∀ b ∈ branches, ∀ e ∈ b.labels, e.Grounded W.ground) →
      (∀ b ∈ branches, ∀ s ∈ b.body, s.Grounded W.ground) →
      Utters W.good (execBranches ctx enter inRoutine line selector branches)
        fun taken => ∀ c ∈ taken, c.Worded W.good
  | [], _, _ => by
    rw [execBranches]
    exact utters_pure nofun
  | ⟨labels, body, branchLine⟩ :: rest, known, bodies => by
    rw [execBranches]
    refine (anyLabelMatches_utters enters (known _ (.head _))).bind fun taken _ => ?_
    split
    · refine (execBlock_utters enters inRoutine body (bodies _ (.head _))).bind fun c worded => utters_pure ?_
      rintro _ ⟨⟩
      exact worded
    · exact execBranches_utters enters inRoutine line selector rest (fun b member => known b (.tail _ member))
        fun b member => bodies b (.tail _ member)

end

theorem enter_utters (routines : ∀ r ∈ ctx.routines, BlockGrounded W.ground r.body) (depth : Nat) :
    EnterUtters W (Run.enter ctx depth) := by
  induction depth with
  | zero => exact fun line r _ bindings => utters_stop _ _
  | succ depth enters =>
    intro line r member bindings
    unfold Run.enter
    refine (openFrame_utters r.params bindings).bind fun frame _ => ?_
    exact thenAtLine_utters (inEnvironment_utters (execBlock_utters enters true r.body (routines r member)) _) line

end Pseudocode.Run
