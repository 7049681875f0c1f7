import Pseudocode.Proofs.EmbeddedStatements
import Pseudocode.Proofs.MoreResources
import Pseudocode.Proofs.Tidy

/-! Engine faults of a run. The language has a rule for every node of a tree that is tidy and complete,
so what runs it can only stop outside the rules where a number is no integer, where the counter of a
loop is NULL, or where an array has no element type. -/
namespace Pseudocode

/-- The engine faults that a well-formed tree leaves possible in a memory. -/
def EngineFault.Residual (m : Memory) : EngineFault → Prop
  | .nullCounter _ | .nanToInteger => True
  | .namelessType => ∃ cell ∈ m.arrays, cell.elementType = none
  | _ => False

/-- An engine fault, if the stop is one, is among those left possible. -/
def Stop.Residual (m : Memory) : Stop → Prop
  | .engine cause => cause.Residual m
  | .fault .. | .overflow | .endless => True

namespace Run

/-- The computation stops with no engine fault but those left possible. -/
class Guarded (m : Run α) : Prop where
  ends : ∀ s, Ends m s (fun _ _ => True) (fun e t => e.Residual t.memory)

section Laws

variable {α β : Type} {m : Run α}

instance : Guarded (pure a : Run α) := ⟨fun _ => trivial⟩

instance : Guarded (get : Run RunState) := ⟨fun _ => trivial⟩

instance : Guarded (modify f : Run PUnit) := ⟨fun _ => trivial⟩

instance {f : RunState → α × RunState} : Guarded (modifyGet f : Run α) := ⟨fun _ => trivial⟩

instance : Guarded (stop line fault : Run α) := ⟨fun _ => trivial⟩

instance : Guarded (throw .overflow : Run α) := ⟨fun _ => trivial⟩

instance : Guarded (throw .endless : Run α) := ⟨fun _ => trivial⟩

theorem guarded_bind {next : α → Run β} [Guarded m] (rest : ∀ a, Guarded (next a)) :
    Guarded (m >>= next) := by
  refine ⟨fun s => ?_⟩
  rw [ends_bind]
  exact (Guarded.ends s).mono (fun a t _ => (rest a).ends t) fun _ _ failed => failed

instance {next : α → Run β} [Guarded m] [∀ a, Guarded (next a)] : Guarded (m >>= next) :=
  guarded_bind inferInstance

instance {f : α → β} [Guarded m] : Guarded (f <$> m) :=
  ⟨fun s => (ends_map f).mpr (Guarded.ends s)⟩

instance [Guarded m] : Guarded (discard m) := ⟨fun s => ends_discard.mpr (Guarded.ends s)⟩

instance [Decidable c] {n : Run α} [Guarded m] [Guarded n] : Guarded (if c then m else n) := by
  split <;> infer_instance

theorem guarded_first [Decidable c] {first : Run Unit} [Guarded first] (guarded : Guarded m) :
    Guarded (if c then first >>= fun _ => m else m) := by
  split <;> infer_instance

theorem guarded_throw {e : Stop} (residual : ∀ m, e.Residual m) : Guarded (throw e : Run α) :=
  ⟨fun _ => residual _⟩

instance [Guarded m] : Guarded (inEnvironment env m) := by
  refine ⟨fun s => ?_⟩
  have ends := Guarded.ends (m := m) { s with env }
  unfold Ends inEnvironment at *
  cases ran : m { s with env } with
  | ok a t => trivial
  | error e t =>
    rw [ran] at ends
    exact ends

instance [Guarded m] : Guarded (thenAtLine line m) := by
  refine ⟨fun s => ?_⟩
  have ends := Guarded.ends (m := m) s
  unfold Ends thenAtLine at *
  cases ran : m s with
  | ok a t => trivial
  | error e t =>
    rw [ran] at ends
    exact ends

end Laws

section Primitives

variable {ctx : RunContext}

instance {change : Memory → α × Memory} : Guarded (withMemory change) := by
  unfold withMemory
  infer_instance

instance : Guarded (tick ctx line) := by
  unfold tick
  infer_instance

instance : Guarded (roundsLeft ctx) := by unfold roundsLeft; infer_instance

instance : Guarded (findBinding name) := by unfold findBinding; infer_instance

instance : Guarded (lookup name) := by unfold lookup; infer_instance

instance : Guarded (define name binding) := by unfold define; infer_instance

instance : Guarded (checkLength ctx line length) := by unfold checkLength; infer_instance

instance : Guarded (shown ctx line value) := by
  unfold shown
  refine guarded_bind fun s => ?_
  dsimp only
  split <;> infer_instance

instance {report : StoreFault → RunFault} : Guarded (storeFailed line report fault : Run α) := by
  unfold storeFailed
  split <;> infer_instance

instance : Guarded (arrayNamed line name) := by
  unfold arrayNamed
  refine guarded_bind fun found => ?_
  split
  · infer_instance
  · split <;> infer_instance

instance : Guarded (assign line name value) := by
  unfold assign
  refine guarded_bind fun s => guarded_bind fun stored => ?_
  split <;> infer_instance

instance : Guarded (assignElement line i indices value) := by
  unfold assignElement
  refine guarded_bind fun failed => ?_
  split <;> infer_instance

instance : Guarded (throw (ofNumberFault line fault) : Run α) :=
  guarded_throw fun m => by cases fault <;> trivial

instance : Guarded (liftNumber line result) := by
  unfold liftNumber
  split <;> infer_instance

instance : Guarded (liftOverflow line result) := inferInstanceAs (Guarded (liftNumber line _))

instance : Guarded (joinText ctx line left right) := by unfold joinText; infer_instance

instance : Guarded (join ctx line left right) := by
  have joined : Guarded (do joinText ctx line (← shown ctx line left) (← shown ctx line right)) :=
    inferInstance
  refine ⟨fun s => ?_⟩
  have ends := joined.ends s
  unfold Ends join at *
  split at ends
  next ran =>
    rw [ran]
    trivial
  next e t ran =>
    rw [ran]
    cases e <;> exact ends

/-- An operator that is known and neither logical nor a comparison nor `&` works on numbers. -/
theorem numeric_of_known {op : BinaryOp} (known : op.isKnown = true) (number : op.isLogical = false)
    (compares : op.isComparison = false) (joins : op ≠ .join) :
    op ∈ [BinaryOp.plus, .minus, .times, .divide, .div, .mod] := by
  cases op with
  | join => exact absurd rfl joins
  | unknown name => cases known
  | _ => first | decide | (cases number <;> cases compares)

theorem arithmetic_guarded (numeric : op ∈ [BinaryOp.plus, .minus, .times, .divide, .div, .mod])
    (line : Nat) (left right : Value) : Guarded (arithmetic ctx line op left right) := by
  simp only [List.mem_cons, List.not_mem_nil, or_false] at numeric
  unfold arithmetic
  rcases numeric with rfl | rfl | rfl | rfl | rfl | rfl
  all_goals
    split
    · infer_instance
    · split
      · dsimp only
        infer_instance
      · infer_instance

theorem binary_guarded (ctx : RunContext) {op : BinaryOp} (known : op.isKnown = true)
    (number : op.isLogical = false) (line : Nat) (left right : Value) :
    Guarded (binary ctx line op left right) := by
  unfold binary
  split
  · split <;> infer_instance
  next compares =>
    split
    · infer_instance
    next joins =>
      have numeric := numeric_of_known known number (Bool.eq_false_iff.mpr compares) joins
      exact arithmetic_guarded numeric line left right

instance : Guarded (truth op line value) := by
  unfold truth
  split <;> infer_instance

theorem unary_guarded {op : UnaryOp} (known : op.isKnown = true) (line : Nat) (value : Value) :
    Guarded (unary line op value) := by
  unfold unary
  split
  · split <;> infer_instance
  · infer_instance
  · cases known

instance : Guarded (nameValue ctx line name) := by
  unfold nameValue
  refine guarded_bind fun found => ?_
  split <;> infer_instance

instance : Guarded (indexValue line value) := by
  unfold indexValue
  split <;> infer_instance

instance : Guarded (elementValue line i indices) := by
  unfold elementValue
  refine guarded_bind fun s => ?_
  dsimp only
  split <;> infer_instance

instance {report : StoreFault → RunFault} : Guarded (storeFresh line declared value report) := by
  unfold storeFresh
  refine guarded_bind fun s => ?_
  split <;> infer_instance

instance : Guarded (bindReference line callee param argument) := by
  unfold bindReference
  split
  · refine guarded_bind fun found => ?_
    split
    · infer_instance
    · refine guarded_bind fun s => ?_
      split <;> infer_instance
  · infer_instance

instance : Guarded (checkArrayArgument line callee param value) := by
  unfold checkArrayArgument
  split
  · infer_instance
  · -- An array without an element type is itself what is left.
    refine ⟨fun s => ?_⟩
    rw [ends_bind, ends_get]
    dsimp only
    split
    · split <;> trivial
    next i _ _ _ nameless =>
      obtain ⟨cell, held, none⟩ := Option.map_eq_some_iff.mp nameless
      exact ⟨cell, Array.mem_of_getElem? held, none⟩
    · trivial
  · infer_instance

instance : Guarded (bindValue line callee param value) := by
  unfold bindValue
  split <;> infer_instance

theorem bindArgument_guarded (value : Run Value) [Guarded value] (line : Nat) (callee : String)
    (param : Param) (argument : Expr) : Guarded (bindArgument line callee param argument value) := by
  unfold bindArgument
  split <;> infer_instance

instance : Guarded (callBuiltin line name arguments) := by
  unfold callBuiltin
  refine guarded_bind fun result => ?_
  split <;> infer_instance

instance : Guarded (resultOf line r name completion) := by
  unfold resultOf
  dsimp only
  split
  · infer_instance
  · infer_instance
  · refine guarded_bind fun s => ?_
    split <;> infer_instance

end Primitives

section Expressions

variable {ctx : RunContext} {enter : Enter}

/-- Every routine of the program is guarded wherever it is entered. -/
def Enters (ctx : RunContext) (enter : Enter) : Prop :=
  ∀ line r bindings, r ∈ ctx.routines → Guarded (enter line r bindings)

theorem call_guarded (enters : Enters ctx enter) (plain : Run (List Value))
    (bound : List Param → Run (List BindingId)) [Guarded plain] [∀ params, Guarded (bound params)]
    (asValue : Bool) (line : Nat) (callee : String) (count : Nat) :
    Guarded (call ctx enter asValue line callee count plain bound) := by
  unfold call
  split
  · infer_instance
  next r found =>
    have entered := fun bindings => enters line r bindings (routine_mem found)
    exact guarded_first (guarded_first inferInstance)

mutual

theorem eval_guarded (enters : Enters ctx enter) :
    ∀ e : Expr, e.tidy = true → Guarded (eval ctx enter e)
  | .literal .., _ => by unfold eval; infer_instance
  | .name .., _ => by unfold eval; infer_instance
  | .element position _ indices, tidy => by
    have := evalIndices_guarded enters position.line indices (by simpa only [Expr.tidy] using tidy)
    unfold eval
    infer_instance
  | .binary position op left right, tidy => by
    simp only [Expr.tidy, Bool.and_eq_true] at tidy
    have := eval_guarded enters left tidy.1.2
    have := eval_guarded enters right tidy.2
    unfold eval
    split
    · infer_instance
    next number =>
      have := binary_guarded ctx tidy.1.1 (Bool.eq_false_iff.mpr number) position.line
      infer_instance
  | .unary position op operand, tidy => by
    simp only [Expr.tidy, Bool.and_eq_true] at tidy
    have := unary_guarded tidy.1 position.line
    have := eval_guarded enters operand tidy.2
    unfold eval
    infer_instance
  | .call position callee arguments, tidy => by
    have known : exprsTidy arguments = true := by simpa only [Expr.tidy] using tidy
    have := evalAll_guarded enters arguments known
    have := fun params =>
      bindArguments_guarded enters position.line callee params arguments known
    unfold eval
    exact call_guarded enters _ _ true position.line callee arguments.length
  | .range .., tidy => by cases tidy
  | .stray .., tidy => by cases tidy

theorem evalAll_guarded (enters : Enters ctx enter) :
    ∀ es : List Expr, exprsTidy es = true → Guarded (evalAll ctx enter es)
  | [], _ => by unfold evalAll; infer_instance
  | e :: rest, tidy => by
    simp only [exprsTidy, Bool.and_eq_true] at tidy
    have := eval_guarded enters e tidy.1
    have := evalAll_guarded enters rest tidy.2
    unfold evalAll
    infer_instance

theorem evalIndices_guarded (enters : Enters ctx enter) (line : Nat) :
    ∀ es : List Expr, exprsTidy es = true → Guarded (evalIndices ctx enter line es)
  | [], _ => by unfold evalIndices; infer_instance
  | e :: rest, tidy => by
    simp only [exprsTidy, Bool.and_eq_true] at tidy
    have := eval_guarded enters e tidy.1
    have := evalIndices_guarded enters line rest tidy.2
    unfold evalIndices
    infer_instance

theorem bindArguments_guarded (enters : Enters ctx enter) (line : Nat) (callee : String) :
    ∀ (params : List Param) (es : List Expr), exprsTidy es = true →
      Guarded (bindArguments ctx enter line callee params es)
  | param :: params, e :: rest, tidy => by
    simp only [exprsTidy, Bool.and_eq_true] at tidy
    have := eval_guarded enters e tidy.1
    have := bindArgument_guarded (eval ctx enter e) line callee param e
    have := bindArguments_guarded enters line callee params rest tidy.2
    unfold bindArguments
    infer_instance
  | [], _, _ => by unfold bindArguments; infer_instance
  | _ :: _, [], _ => by unfold bindArguments; infer_instance

end

/-- An expression that is there can be evaluated. -/
theorem evalPresent_guarded (enters : Enters ctx enter) {e : Option Expr}
    (tidy : e.all Expr.tidy = true) (present : e.isSome = true) :
    Guarded (evalPresent ctx enter e) := by
  unfold evalPresent
  cases e with
  | none => cases present
  | some e => exact eval_guarded enters e tidy

end Expressions

theorem integerRefused_residual (m : Memory) (read : Input.integer? raw = some (.error e)) :
    e.Residual m := by
  unfold Input.integer? at read
  obtain ⟨n, -, same⟩ := Option.map_eq_some_iff.mp read
  cases size : checkSize n with
  | ok n =>
    rw [size] at same
    cases same
  | error _ =>
    rw [size] at same
    cases same
    trivial

/-- An input is refused as a fault of the program or as a number that is too large. -/
theorem inputRefused_residual (m : Memory) (refused : Input.value line raw type = .error e) :
    e.Residual m := by
  cases type with
  | none =>
    unfold Input.value Input.untyped at refused
    dsimp only at refused
    split at refused
    · cases refused
    next read =>
      rw [refused] at read
      exact integerRefused_residual m read
    · cases refused
    · cases refused
  | some type =>
    unfold Input.value Input.typed at refused
    cases type with
    | integer =>
      dsimp only at refused
      cases read : Input.integer? raw with
      | none =>
        rw [read] at refused
        cases refused
        trivial
      | some answer =>
        rw [read, Option.getD_some] at refused
        rw [refused] at read
        exact integerRefused_residual m read
    | real =>
      dsimp only at refused
      cases read : Input.real? raw with
      | none =>
        rw [read] at refused
        cases refused
        trivial
      | some x =>
        rw [read] at refused
        cases refused
    | boolean =>
      dsimp only at refused
      cases read : Input.boolean? raw with
      | none =>
        rw [read] at refused
        cases refused
        trivial
      | some b =>
        rw [read] at refused
        cases refused
    | char =>
      dsimp only at refused
      split at refused
      · cases refused
      · cases refused
        trivial
    | _ => cases refused

section Statements

variable {ctx : RunContext} {enter : Enter}

instance : Guarded (conditionValue keyword line value) := by
  unfold conditionValue
  split <;> infer_instance

instance : Guarded (declareVariable name typeName) := by unfold declareVariable; infer_instance

instance : Guarded (declareArray ctx line name bounds elementType) := by
  unfold declareArray
  exact guarded_first inferInstance

instance : Guarded (defineConstant name value) := by unfold defineConstant; infer_instance

theorem store_guarded (enters : Enters ctx enter) {target : Target} (tidy : target.tidy = true)
    (line : Nat) (value : Value) : Guarded (store ctx enter line target value) := by
  unfold store
  cases target with
  | element position name indices =>
    have := evalIndices_guarded enters line indices tidy
    infer_instance
  | stray => cases tidy
  | _ => infer_instance

instance : Guarded (emit ctx line text) := by unfold emit; infer_instance

theorem evalShown_guarded (enters : Enters ctx enter) (line : Nat) {es : List Expr}
    (tidy : exprsTidy es = true) : Guarded (evalShown ctx enter line es) := by
  induction es with
  | nil => unfold evalShown; infer_instance
  | cons e rest ih =>
    simp only [exprsTidy, Bool.and_eq_true] at tidy
    have := eval_guarded enters e tidy.1
    have := ih tidy.2
    unfold evalShown
    infer_instance

instance : Guarded (takeInput line) := by
  unfold takeInput
  refine guarded_bind fun s => ?_
  split <;> infer_instance

theorem readInput_guarded (ctx : RunContext) {target : Target} (tidy : target.tidy = true)
    (line : Nat) : Guarded (readInput ctx line target) := by
  have asks : Guarded (inputType line target) := by
    unfold inputType
    cases target with
    | stray => cases tidy
    | _ => infer_instance
  unfold readInput
  refine guarded_bind fun raw => guarded_bind fun _ => guarded_bind fun asked => ?_
  refine guarded_first ?_
  split
  · infer_instance
  next refused => exact guarded_throw fun m => inputRefused_residual m refused

theorem input_guarded (enters : Enters ctx enter) {target : Target} (tidy : target.tidy = true)
    (line : Nat) : Guarded (input ctx enter line target) := by
  have := readInput_guarded ctx tidy line
  have := store_guarded enters tidy line
  unfold input
  infer_instance

theorem labelMatches_guarded (enters : Enters ctx enter) {label : Expr}
    (tidy : label.tidyLabel = true) (line : Nat) (selector : Value) :
    Guarded (labelMatches ctx enter line selector label) := by
  unfold labelMatches
  split
  next place low high =>
    simp only [Expr.tidyLabel, Bool.and_eq_true] at tidy
    have := eval_guarded enters low tidy.1
    have := eval_guarded enters high tidy.2
    refine guarded_bind fun low => guarded_bind fun high => ?_
    split
    · infer_instance
    · infer_instance
    · split <;> infer_instance
  next other =>
    have plain : label.tidy = true := by
      cases label with
      | range place low high => exact absurd rfl (other place low high)
      | _ => exact tidy
    have := eval_guarded enters label plain
    refine guarded_bind fun value => ?_
    split <;> infer_instance

theorem anyLabelMatches_guarded (enters : Enters ctx enter) {labels : List Expr}
    (tidy : labels.all Expr.tidyLabel = true) (line : Nat) (selector : Value) :
    Guarded (anyLabelMatches ctx enter line selector labels) := by
  induction labels with
  | nil => unfold anyLabelMatches; infer_instance
  | cons label rest ih =>
    simp only [List.all_cons, Bool.and_eq_true] at tidy
    have := labelMatches_guarded enters tidy.1 line selector
    have := ih tidy.2
    unfold anyLabelMatches
    infer_instance

instance : Guarded (forBound line part value) := by
  unfold forBound
  split <;> infer_instance

theorem whileLoop_guarded {condition : Run Bool} {body : Run Completion} [Guarded condition]
    [Guarded body] (line rounds : Nat) : Guarded (whileLoop ctx line condition body rounds) := by
  induction rounds with
  | zero => unfold whileLoop; infer_instance
  | succ rounds ih =>
    unfold whileLoop
    refine guarded_bind fun holds => ?_
    split
    · refine guarded_bind fun completion => ?_
      split <;> infer_instance
    · infer_instance

theorem repeatLoop_guarded {condition : Run Bool} {body : Run Completion} [Guarded condition]
    [Guarded body] (line rounds : Nat) : Guarded (repeatLoop ctx line body condition rounds) := by
  induction rounds with
  | zero => unfold repeatLoop; infer_instance
  | succ rounds ih =>
    unfold repeatLoop
    refine guarded_bind fun completion => ?_
    split <;> infer_instance

instance : Guarded (counterValue counter) := by unfold counterValue; infer_instance

instance : Guarded (advance line counter step) := by
  unfold advance
  refine guarded_bind fun value => ?_
  split
  · exact guarded_throw fun _ => trivial
  · split
    · infer_instance
    · refine guarded_bind fun s => ?_
      dsimp only
      split
      · infer_instance
      · split <;> infer_instance

theorem forLoop_guarded (ctx : RunContext) (body : Run Completion) [Guarded body] (line : Nat)
    (counter : BindingId) (last step : Number) (rounds : Nat) :
    Guarded (forLoop ctx line counter last step body rounds) := by
  induction rounds with
  | zero => unfold forLoop; infer_instance
  | succ rounds ih =>
    unfold forLoop
    refine guarded_bind fun value => ?_
    split
    · infer_instance
    · refine guarded_bind fun completion => ?_
      split <;> infer_instance

instance : Guarded (openCounter line counter start step) := by
  unfold openCounter
  refine guarded_first ?_
  dsimp only
  split
  · infer_instance
  · refine guarded_bind fun frame => guarded_bind fun id => ?_
    split <;> infer_instance

theorem countedLoop_guarded (ctx : RunContext) (body : Run Completion) [Guarded body] (line : Nat)
    (counter : Option String) (start last step : Number) :
    Guarded (countedLoop ctx line counter start last step body) := by
  have := fun counter rounds => forLoop_guarded ctx body line counter last step rounds
  unfold countedLoop
  infer_instance

instance {value : Run Value} [Guarded value] : Guarded (giveBack inRoutine line value) := by
  unfold giveBack
  infer_instance

/-- A statement that is there can begin. -/
theorem begins_guarded (ctx : RunContext) {s : Stmt} (tidy : s.tidy = true) : Guarded (begins ctx s) := by
  have present : s.isMissing = false := by
    cases s with
    | stray => cases tidy
    | _ => rfl
  unfold begins
  rw [present, if_neg Bool.false_ne_true]
  infer_instance

mutual

theorem exec_guarded (enters : Enters ctx enter) (inRoutine : Bool) :
    ∀ s : Stmt, s.tidy = true → s.complete = true → Guarded (exec ctx enter inRoutine s)
  | .declare .., tidy, _ => by
    have := begins_guarded ctx tidy
    unfold exec
    infer_instance
  | .declareArray .., tidy, _ => by
    have := begins_guarded ctx tidy
    unfold exec
    infer_instance
  | .constant position name value, tidy, whole => by
    have := begins_guarded ctx tidy
    simp only [Stmt.tidy] at tidy
    simp only [Stmt.complete] at whole
    have := evalPresent_guarded enters tidy whole
    unfold exec
    infer_instance
  | .assign position target value, tidy, _ => by
    have := begins_guarded ctx tidy
    simp only [Stmt.tidy, Bool.and_eq_true] at tidy
    have := eval_guarded enters value tidy.2
    have := store_guarded enters tidy.1 position.line
    unfold exec
    infer_instance
  | .ifThen position condition thenBranch elseBranch, tidy, whole => by
    have := begins_guarded ctx tidy
    simp only [Stmt.tidy, Bool.and_eq_true] at tidy
    simp only [Stmt.complete, Bool.and_eq_true] at whole
    have := evalPresent_guarded enters tidy.1.1 whole.1.1
    have := execBlock_guarded enters inRoutine thenBranch tidy.1.2 whole.1.2
    have := execOtherwise_guarded enters inRoutine elseBranch tidy.2 whole.2
    unfold exec
    infer_instance
  | .whileDo position condition body, tidy, whole => by
    have := begins_guarded ctx tidy
    simp only [Stmt.tidy, Bool.and_eq_true] at tidy
    simp only [Stmt.complete, Bool.and_eq_true] at whole
    have := evalPresent_guarded enters tidy.1 whole.1
    have := execBlock_guarded enters inRoutine body tidy.2 whole.2
    unfold exec
    refine guarded_bind fun _ => guarded_bind fun rounds => ?_
    exact whileLoop_guarded position.line rounds
  | .repeatUntil position body condition, tidy, whole => by
    have := begins_guarded ctx tidy
    simp only [Stmt.tidy, Bool.and_eq_true] at tidy
    simp only [Stmt.complete, Bool.and_eq_true] at whole
    have := evalPresent_guarded enters tidy.2 whole.2
    have := execBlock_guarded enters inRoutine body tidy.1 whole.1
    unfold exec
    refine guarded_bind fun _ => guarded_bind fun rounds => ?_
    exact repeatLoop_guarded position.line rounds
  | .forLoop position counter start last step body, tidy, whole => by
    have := begins_guarded ctx tidy
    simp only [Stmt.tidy, Bool.and_eq_true] at tidy
    simp only [Stmt.complete, Bool.and_eq_true] at whole
    have := evalPresent_guarded enters tidy.1.1.1 whole.1.1.2
    have := evalPresent_guarded enters tidy.1.1.2 whole.1.2
    have := execBlock_guarded enters inRoutine body tidy.2 whole.2
    have := countedLoop_guarded ctx (execBlock ctx enter inRoutine body) position.line counter
    unfold exec
    cases step with
    | none => infer_instance
    | some step =>
      have := eval_guarded enters step tidy.1.2
      infer_instance
  | .caseOf position selector branches otherwise, tidy, whole => by
    have := begins_guarded ctx tidy
    simp only [Stmt.tidy, Bool.and_eq_true] at tidy
    simp only [Stmt.complete, Bool.and_eq_true] at whole
    have := evalPresent_guarded enters tidy.1.1 whole.1.1
    have := fun v => execBranches_guarded enters inRoutine position.line v branches tidy.1.2 whole.1.2
    have := execOtherwise_guarded enters inRoutine otherwise tidy.2 whole.2
    unfold exec
    refine guarded_bind fun _ => guarded_bind fun v => guarded_bind fun chosen => ?_
    split <;> infer_instance
  | .routine r, tidy, _ => by
    have := begins_guarded ctx tidy
    unfold exec
    infer_instance
  | .giveBack position value, tidy, _ => by
    have := begins_guarded ctx tidy
    simp only [Stmt.tidy] at tidy
    unfold exec
    cases value with
    | none => infer_instance
    | some e =>
      have := eval_guarded enters e tidy
      infer_instance
  | .call _ position callee arguments, tidy, _ => by
    have := begins_guarded ctx tidy
    have known : exprsTidy arguments = true := by simpa only [Stmt.tidy] using tidy
    have := evalAll_guarded enters arguments known
    have := fun params =>
      bindArguments_guarded enters position.line callee params arguments known
    have := call_guarded enters (evalAll ctx enter arguments)
      (fun params => bindArguments ctx enter position.line callee params arguments)
      false position.line callee arguments.length
    unfold exec
    infer_instance
  | .output position values, tidy, _ => by
    have := begins_guarded ctx tidy
    have := evalShown_guarded enters position.line (by simpa only [Stmt.tidy] using tidy)
    unfold exec
    infer_instance
  | .input position target, tidy, _ => by
    have := begins_guarded ctx tidy
    have := input_guarded enters (by simpa only [Stmt.tidy] using tidy) position.line
    unfold exec
    infer_instance
  | .strayCall .., tidy, _ => by cases tidy
  | .stray .., tidy, _ => by cases tidy

theorem execBlock_guarded (enters : Enters ctx enter) (inRoutine : Bool) : ∀ block : List Stmt,
    blockTidy block = true → blockComplete block = true →
      Guarded (execBlock ctx enter inRoutine block)
  | [], _, _ => by unfold execBlock; infer_instance
  | s :: rest, tidy, whole => by
    simp only [blockTidy, Bool.and_eq_true] at tidy
    simp only [blockComplete, Bool.and_eq_true] at whole
    have := exec_guarded enters inRoutine s tidy.1 whole.1
    have := execBlock_guarded enters inRoutine rest tidy.2 whole.2
    unfold execBlock
    refine guarded_bind fun completion => ?_
    split <;> infer_instance

theorem execOtherwise_guarded (enters : Enters ctx enter) (inRoutine : Bool) :
    ∀ block : Option (List Stmt), otherwiseTidy block = true → otherwiseComplete block = true →
      Guarded (execOtherwise ctx enter inRoutine block)
  | none, _, _ => by unfold execOtherwise; infer_instance
  | some block, tidy, whole => by
    simp only [otherwiseTidy] at tidy
    simp only [otherwiseComplete] at whole
    have := execBlock_guarded enters inRoutine block tidy whole
    unfold execOtherwise
    infer_instance

theorem execBranches_guarded (enters : Enters ctx enter) (inRoutine : Bool) (line : Nat)
    (selector : Value) : ∀ branches : List (Branch Stmt), branchesTidy branches = true →
      branchesComplete branches = true →
        Guarded (execBranches ctx enter inRoutine line selector branches)
  | [], _, _ => by unfold execBranches; infer_instance
  | ⟨labels, body, branchLine⟩ :: rest, tidy, whole => by
    simp only [branchesTidy, Bool.and_eq_true] at tidy
    simp only [branchesComplete, Bool.and_eq_true] at whole
    have := fun line => anyLabelMatches_guarded enters tidy.1.1 line selector
    have := execBlock_guarded enters inRoutine body tidy.1.2 whole.1
    have := execBranches_guarded enters inRoutine line selector rest tidy.2 whole.2
    unfold execBranches
    infer_instance

end

theorem bindParams_guarded (frame : FrameId) (params : List Param) (bindings : List BindingId) :
    Guarded (bindParams frame params bindings) := by
  induction params generalizing bindings with
  | nil => unfold bindParams; infer_instance
  | cons param params ih => cases bindings with
    | nil => unfold bindParams; infer_instance
    | cons id rest =>
      have := ih rest
      unfold bindParams
      infer_instance

instance : Guarded (openFrame params bindings) := by
  have := bindParams_guarded
  unfold openFrame
  infer_instance

/-- Every body that can be entered is tidy and complete, so all calls are guarded, by induction on
how many more can be active. -/
theorem enter_enters (tidy : ∀ r ∈ ctx.routines, blockTidy r.body = true)
    (whole : ∀ r ∈ ctx.routines, blockComplete r.body = true) (depth : Nat) :
    Enters ctx (Run.enter ctx depth) := by
  induction depth with
  | zero => exact fun _ _ _ _ => by unfold Run.enter; infer_instance
  | succ depth ih =>
    intro line r bindings member
    have := execBlock_guarded ih true r.body (tidy r member) (whole r member)
    unfold Run.enter
    infer_instance

end Statements

theorem program_guarded {p : Program} (tidy : p.Tidy) (whole : blockComplete p.body = true)
    (settings : Settings) (host : Host) :
    Guarded (program (p.context settings host) p) := by
  have routines : ∀ r ∈ p.routines, blockComplete r.body = true := by
    intro r member
    obtain ⟨s, stated, same⟩ := List.mem_filterMap.mp member
    have known := blockComplete_iff.mp whole s stated
    cases s with
    | routine q =>
      cases same
      simp only [Stmt.complete, Bool.and_eq_true] at known
      exact known.2
    | _ => cases same
  exact execBlock_guarded (enter_enters tidy.routines routines _) false p.body tidy whole

end Run

end Pseudocode
