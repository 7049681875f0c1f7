import Pseudocode.Proofs.Parts
import Pseudocode.Proofs.SizedSteps

/-! Sizes of INTEGERs in the pieces of a run. What a piece of code does is put together from what its
parts do: if whatever begins as a part stays within the admissible sizes, then so does the piece. Each
part is known by the computation that comes before it, so a proof follows the text of the piece and takes
up its parts where they begin. -/
namespace Pseudocode

/-- Code in which every integer has an admissible size. -/
def Ground.sizes : Ground where
  place _ := True
  integer := Sized
  neg := Sized.neg

/-- The code of the task is grounded. -/
def Task.Grounded (G : Ground) : Task → Prop
  | .expr e => e.Grounded G
  | .exprs es | .indices _ es | .arguments _ _ _ es | .shown _ es | .labels _ _ es => ∀ e ∈ es, e.Grounded G
  | .call _ _ callee es => G.callee callee ∧ ∀ e ∈ es, e.Grounded G
  | .stmt s => s.Grounded G
  | .block ss => BlockGrounded G ss
  | .branches _ _ bs => ∀ b ∈ bs, b.Grounded G
  | .whileLoop _ condition body | .repeatLoop _ body condition =>
    (∀ e ∈ condition, e.Grounded G) ∧ BlockGrounded G body
  | .forLoop _ _ _ _ body => BlockGrounded G body

/-- All that the task can find in a state has an admissible size, but for the counter of a loop that
is past its end. -/
def Task.Finds (s : RunState) : Task → Prop
  | .forLoop _ counter last step _ => s.memory.SizedIn (some counter) s.env ∧ last.Sized ∧
      s.memory.CounterSized counter last step
  | _ => s.Sized

open Run Parts in
/-- Carried out from a state, the task keeps values of an admissible size and makes only such values. -/
def Task.Stays (ctx : RunContext) (calls : List (Routine Stmt)) (s : RunState) : Task → Prop
  | .expr e => Run.Stays s (eval ctx (enterAt ctx calls) e) fun v _ => v.Sized ∧ v.Short
  | .exprs es => Run.Stays s (evalAll ctx (enterAt ctx calls) es) fun vs _ => ∀ v ∈ vs, v.Sized ∧ v.Short
  | .indices line es => Run.Stays s (evalIndices ctx (enterAt ctx calls) line es) fun _ _ => True
  | .arguments line callee params es =>
    Run.Stays s (bindArguments ctx (enterAt ctx calls) line callee params es) fun bindings t =>
      ∀ i ∈ bindings, t.memory.SizedAt i
  | .call asValue line callee es => Run.Stays s (callHere ctx calls asValue line callee es) fun v _ => v.Sized
  | .shown line es => Run.Stays s (evalShown ctx (enterAt ctx calls) line es) fun _ _ => True
  | .labels line selector es =>
    Run.Stays s (anyLabelMatches ctx (enterAt ctx calls) line selector es) fun _ _ => True
  | .stmt code => Run.Stays s (exec ctx (enterAt ctx calls) (!calls.isEmpty) code) fun c _ => c.Sized
  | .block ss => Run.Stays s (execBlock ctx (enterAt ctx calls) (!calls.isEmpty) ss) fun c _ => c.Sized
  | .branches line selector bs =>
    Run.Stays s (execBranches ctx (enterAt ctx calls) (!calls.isEmpty) line selector bs) fun taken _ =>
      ∀ c ∈ taken, c.Sized
  | .whileLoop line condition body => ∀ rounds, Run.Stays s (Run.whileLoop ctx line
      (test ctx calls .WHILE line condition) (execBlock ctx (enterAt ctx calls) (!calls.isEmpty) body) rounds)
      fun c _ => c.Sized
  | .repeatLoop line body condition => ∀ rounds, Run.Stays s (Run.repeatLoop ctx line
      (execBlock ctx (enterAt ctx calls) (!calls.isEmpty) body) (test ctx calls .UNTIL line condition) rounds)
      fun c _ => c.Sized
  | .forLoop line counter last step body => ∀ rounds c t, Run.forLoop ctx line counter last step
      (execBlock ctx (enterAt ctx calls) (!calls.isEmpty) body) rounds s = .ok c t →
      s.KeepsSizes (some counter) t ∧ c.Sized

namespace Activity

/-- An activity that begins within the admissible sizes. -/
structure Sized (a : Activity) : Prop where
  code : a.task.Grounded .sizes
  finds : a.task.Finds a.state

/-- An activity that stays within the admissible sizes. -/
abbrev Stays (ctx : RunContext) (a : Activity) : Prop := a.task.Stays ctx a.calls a.state

end Activity

namespace Parts

open Run

/-- Whatever begins as this part, carried out from the state, is as described. -/
def Yields (good : Activity → Prop) (s : RunState) (part : Run (Option Entry)) : Prop :=
  ∀ entry t, part s = .ok (some entry) t → good ⟨entry.calls, entry.task, { t with env := entry.env }⟩

variable {ctx : RunContext} {calls : List (Routine Stmt)} {good : Activity → Prop} {s t : RunState} {α : Type}
  {m : Run α} {next : α → Run (Option Entry)} {task : Task} {line : Nat}

section Laws

theorem yields_none : Yields good s (pure none) := by
  rintro entry t ⟨⟩

theorem yields_some {entry : Entry} : Yields good s (pure (some entry)) ↔
    good ⟨entry.calls, entry.task, { s with env := entry.env }⟩ := by
  refine ⟨fun yields => yields entry s rfl, fun known other t began => ?_⟩
  cases began
  exact known

theorem yields_here : Yields good s (here calls task) ↔ good ⟨calls, task, s⟩ := yields_some

theorem yields_bind : Yields good s (m >>= next) ↔ ∀ x t, m s = .ok x t → Yields good t (next x) := by
  refine ⟨fun yields x t ran entry u began => ?_, fun yields entry u began => ?_⟩
  · exact yields entry u ((bind_of_ok ran).trans began)
  · obtain ⟨x, t, ran, began⟩ := bind_eq_ok.mp began
    exact yields x t ran entry u began

theorem discard_of_ok (ran : m s = .ok x t) : discard m s = .ok ⟨⟩ t :=
  (congrFun (bind_pure_comp _ m) s).symm.trans (bind_of_ok ran)

/-- A part begins after what comes before it. -/
theorem Yields.after (yields : Yields good s (m >>= next)) (ran : m s = .ok x t) : Yields good t (next x) :=
  yields_bind.mp yields x t ran

theorem Yields.past {next : PUnit → Run (Option Entry)} (yields : Yields good s (discard m >>= next))
    (ran : m s = .ok x t) : Yields good t (next ⟨⟩) :=
  yields.after (discard_of_ok ran)

end Laws

variable {v : Value}

theorem evalPresent_stays {value : Option Expr} (part : Yields (Activity.Stays ctx) s (present calls value)) :
    Stays s (evalPresent ctx (enterAt ctx calls) value) fun v _ => v.Sized := by
  cases value with
  | none => exact stays_throw _
  | some e => exact (yields_here.mp part).weaken fun v _ known => known.1

theorem test_of_ok {keyword : Keyword} {condition : Option Expr}
    (evaluated : evalPresent ctx (enterAt ctx calls) condition s = .ok v t)
    (judged : conditionValue keyword line v t = .ok b t) :
      test ctx calls keyword line condition s = .ok b t :=
  (bind_of_ok evaluated).trans judged

theorem bound_of_ok {part : ForPart} {e : Option Expr}
    (evaluated : evalPresent ctx (enterAt ctx calls) e s = .ok v t)
    (numeric : forBound line part v t = .ok n t) :
    (do forBound line part (← evalPresent ctx (enterAt ctx calls) e) : Run Number) s = .ok n t :=
  (bind_of_ok evaluated).trans numeric

theorem test_stays (sized : s.Sized) {keyword : Keyword} {condition : Option Expr}
    (part : Yields (Activity.Stays ctx) s (present calls condition)) :
    Stays s (test ctx calls keyword line condition) fun _ _ => True :=
  Stays.bind sized (evalPresent_stays part) fun _ _ _ _ _ _ => (conditionValue_looks _ _ _).stays

section Expressions

theorem eval_stays {e : Expr} (sized : s.Sized) (grounded : e.Grounded .sizes)
    (parts : ∀ part ∈ exprParts ctx calls e, Yields (Activity.Stays ctx) s part) :
    Stays s (eval ctx (enterAt ctx calls) e) fun v _ => v.Sized := by
  cases grounded with
  | @literal place value _ whole =>
    rw [eval]
    refine stays_pure ?_
    cases value with
    | integer n => exact Value.sized_integer whole
    | _ => rintro _ ⟨⟩
  | @name place word =>
    rw [eval]
    exact nameValue_stays sized word
  | @element place indices array _ inner =>
    rw [eval]
    refine (arrayNamed_looks place.line array).stays_bind fun id named => ?_
    have evaluated := yields_here.mp ((parts _ (.head _)).past named)
    exact Stays.bind sized evaluated fun is t _ _ sizedT _ => elementValue_stays sizedT id is
  | @binary place left right op _ first second =>
    rw [eval]
    have leftStays := yields_here.mp (parts _ (.head _))
    have rightPart := parts _ (.tail _ (.head _))
    split
    next logical =>
      refine Stays.bind sized leftStays fun l t ran _ sizedT _ => ?_
      refine (truth_looks place.line op.text l).stays_bind fun b judged => ?_
      split
      · exact stays_pure (Value.sized_boolean _)
      -- The second operand is a part only where the first one has left the answer open.
      next open_ =>
        have begun := rightPart.after ran
        rw [if_pos logical] at begun
        have begun := begun.after judged
        rw [if_neg open_] at begun
        refine Stays.bind sizedT (yields_here.mp begun) fun r u _ _ _ _ => ?_
        exact (truth_looks place.line op.text r).stays_bind fun _ _ => stays_pure (Value.sized_boolean _)
    next plain =>
      refine Stays.bind sized leftStays fun l t ran _ sizedT known => ?_
      have begun := rightPart.after ran
      rw [if_neg plain] at begun
      exact Stays.bind sizedT (yields_here.mp begun) fun r u _ _ _ _ => binary_stays op known.1
  | @unary place operand op _ inner =>
    rw [eval]
    exact Stays.bind sized (yields_here.mp (parts _ (.head _))) fun v t _ _ _ known => unary_stays op known.1
  | @call place callee arguments _ _ inner =>
    rw [eval]
    exact yields_here.mp (parts _ (.head _))
  | range => exact stays_throw _
  | stray => exact stays_throw _

theorem evalAll_stays {es : List Expr} (sized : s.Sized)
    (parts : ∀ part ∈ all ctx calls (.exprs es), Yields (Activity.Stays ctx) s part) :
    Stays s (evalAll ctx (enterAt ctx calls) es) fun vs _ => ∀ v ∈ vs, v.Sized ∧ v.Short := by
  cases es with
  | nil => exact stays_pure (List.forall_mem_nil _)
  | cons e rest =>
    rw [evalAll]
    refine Stays.bind sized (yields_here.mp (parts _ (.head _))) fun v t ran _ sizedT first => ?_
    have others := yields_here.mp ((parts _ (.tail _ (.head _))).past ran)
    exact Stays.bind sizedT others fun vs u _ _ _ known =>
      stays_pure (List.forall_mem_cons.mpr ⟨first, known⟩)

theorem evalIndices_stays {es : List Expr} (sized : s.Sized)
    (parts : ∀ part ∈ all ctx calls (.indices line es), Yields (Activity.Stays ctx) s part) :
    Stays s (evalIndices ctx (enterAt ctx calls) line es) fun _ _ => True := by
  cases es with
  | nil => exact stays_pure trivial
  | cons e rest =>
    rw [evalIndices]
    refine Stays.bind sized (yields_here.mp (parts _ (.head _))) fun v t ran _ sizedT _ => ?_
    refine (indexValue_looks line v).stays_bind fun i indexed => ?_
    have others := yields_here.mp (((parts _ (.tail _ (.head _))).after ran).past indexed)
    exact Stays.bind sizedT others fun _ _ _ _ _ _ => stays_pure trivial

/-- The binding of one argument, which is evaluated unless it is passed by reference. -/
theorem argument_stays {param : Param} {e : Expr} (callee : String) (sized : s.Sized)
    (part : Yields (Activity.Stays ctx) s
      (if param.mode = .byReference then return none else here calls (.expr e))) :
    Stays s (bindArgument line callee param e (eval ctx (enterAt ctx calls) e)) fun i t =>
      t.memory.SizedAt i := by
  refine bindArgument_stays sized callee param e fun mode => ?_
  rw [if_neg mode] at part
  exact (yields_here.mp part).weaken fun v _ known => known.1

theorem bindArguments_stays {callee : String} {params : List Param} {es : List Expr} (sized : s.Sized)
    (parts : ∀ part ∈ all ctx calls (.arguments line callee params es), Yields (Activity.Stays ctx) s part) :
    Stays s (bindArguments ctx (enterAt ctx calls) line callee params es) fun bindings t =>
      ∀ i ∈ bindings, t.memory.SizedAt i := by
  cases params with
  | nil =>
    rw [bindArguments]
    · exact stays_pure (List.forall_mem_nil _)
    · rintro _ _ _ _ ⟨⟩
  | cons param params =>
    cases es with
    | nil =>
      rw [bindArguments]
      · exact stays_pure (List.forall_mem_nil _)
      · rintro _ _ _ _ - ⟨⟩
    | cons e rest =>
      rw [bindArguments]
      refine Stays.bind sized (argument_stays callee sized (parts _ (.head _)))
        fun i t ran _ sizedT first => ?_
      have others := yields_here.mp ((parts _ (.tail _ (.head _))).past ran)
      refine Stays.bind sizedT others fun is u _ keeps _ known => stays_pure ?_
      exact List.forall_mem_cons.mpr ⟨keeps.memory.sizedAt first, known⟩

/-- A routine is entered with bindings of an admissible size. -/
theorem enterAt_stays (sized : s.Sized) {r : Routine Stmt} {bindings : List BindingId}
    (known : ∀ i ∈ bindings, s.memory.SizedAt i)
    (part : calls.length < ctx.settings.limits.maxCallDepth → Yields (Activity.Stays ctx) s (do
      let frame ← openFrame r.params bindings
      return some ⟨r :: calls, frame :: Memory.globals, .block r.body⟩)) :
    Stays s (enterAt ctx calls line r bindings) fun c _ => c.Sized := by
  unfold enterAt
  cases room : ctx.settings.limits.maxCallDepth - calls.length with
  | zero => exact stays_stop _ _
  | succ depth =>
    have opens : Stays s (openFrame r.params bindings) fun _ _ => True :=
      fun frame t opened => ⟨(openFrame_sized sized r.params known opened).1, trivial⟩
    unfold enter
    refine Stays.bind sized opens fun frame t opened _ _ _ => thenAtLine_stays (inEnvironment_stays ?_)
    have begun : Stays { t with env := frame :: Memory.globals }
        (execBlock ctx (enterAt ctx (r :: calls)) (!(r :: calls).isEmpty) r.body) fun c _ => c.Sized :=
      yields_some.mp ((part (by omega)).after opened)
    have same : enterAt ctx (r :: calls) = enter ctx depth := by
      unfold enterAt
      rw [List.length_cons, show ctx.settings.limits.maxCallDepth - (calls.length + 1) = depth by omega]
    rwa [same] at begun

theorem call_stays {asValue : Bool} {callee : String} {es : List Expr} (sized : s.Sized)
    (parts : ∀ part ∈ callParts ctx calls asValue line callee es, Yields (Activity.Stays ctx) s part) :
    Stays s (callHere ctx calls asValue line callee es) fun v _ => v.Sized := by
  unfold callHere call
  unfold callParts at parts
  cases found : ctx.routine? callee with
  | none =>
    simp only [found] at parts ⊢
    split
    next known =>
      rw [if_pos known] at parts
      exact Stays.bind sized (yields_here.mp (parts _ (.head _))) fun vs _ _ _ _ all =>
        callBuiltin_stays callee all
    next => exact stays_stop _ _
  | some r =>
    simp only [found] at parts ⊢
    split
    · exact stays_stop _ _
    next value =>
      show Stays s (if es.length ≠ r.params.length then _ else _) _
      split
      · exact stays_stop _ _
      next count =>
        rw [if_neg (not_or.mpr ⟨value, count⟩)] at parts
        refine Stays.bind sized (yields_here.mp (parts _ (.head _))) fun is t bound _ sizedT known => ?_
        have body := (parts _ (.tail _ (.head _))).after bound
        refine Stays.bind sizedT (enterAt_stays sizedT known fun room => ?_) fun c u _ _ _ ended =>
          resultOf_stays r callee ended
        rwa [if_pos room] at body

theorem evalShown_stays {es : List Expr} (sized : s.Sized)
    (parts : ∀ part ∈ all ctx calls (.shown line es), Yields (Activity.Stays ctx) s part) :
    Stays s (evalShown ctx (enterAt ctx calls) line es) fun _ _ => True := by
  cases es with
  | nil => exact stays_pure trivial
  | cons e rest =>
    rw [evalShown]
    refine Stays.bind sized (yields_here.mp (parts _ (.head _))) fun v t ran _ sizedT _ => ?_
    refine (shown_looks ctx line v).stays_bind fun text made => ?_
    have others := yields_here.mp (((parts _ (.tail _ (.head _))).after ran).past made)
    exact Stays.bind sizedT others fun _ _ _ _ _ _ => stays_pure trivial

theorem equals_stays (selector : Value) {e : Expr} (sized : s.Sized)
    (evaluated : Stays s (eval ctx (enterAt ctx calls) e) fun v _ => v.Sized ∧ v.Short) :
    Stays s (do
      match compareValues .equal selector (← eval ctx (enterAt ctx calls) e) with
      | .error fault => stop line fault
      | .ok b => return b) fun _ _ => True := by
  refine Stays.bind sized evaluated fun v t _ _ _ _ => ?_
  split
  · exact stays_stop _ _
  · exact stays_pure trivial

theorem labelMatches_stays (selector : Value) {label : Expr} (sized : s.Sized)
    (parts : ∀ part ∈ labelParts ctx calls label, Yields (Activity.Stays ctx) s part) :
    Stays s (labelMatches ctx (enterAt ctx calls) line selector label) fun _ _ => True := by
  cases label with
  | range place low high =>
    refine Stays.bind sized (yields_here.mp (parts _ (.head _))) fun l t ran _ sizedT _ => ?_
    have second := yields_here.mp ((parts _ (.tail _ (.head _))).past ran)
    refine Stays.bind sizedT second fun h u _ _ _ _ => ?_
    split
    · exact stays_stop _ _
    · exact stays_pure trivial
    · split
      · exact stays_stop _ _
      · exact stays_pure trivial
  | _ => exact equals_stays selector sized (yields_here.mp (parts _ (.head _)))

theorem anyLabelMatches_stays {selector : Value} {es : List Expr} (sized : s.Sized)
    (parts : ∀ part ∈ all ctx calls (.labels line selector es), Yields (Activity.Stays ctx) s part) :
    Stays s (anyLabelMatches ctx (enterAt ctx calls) line selector es) fun _ _ => True := by
  cases es with
  | nil => exact stays_pure trivial
  | cons label rest =>
    rw [anyLabelMatches]
    have first : Stays s (labelMatches ctx (enterAt ctx calls) line selector label) fun _ _ => True :=
      labelMatches_stays selector sized fun part member => parts part (List.mem_append_left _ member)
    refine Stays.bind sized first fun taken t ran _ _ _ => ?_
    have others := (parts _ (List.mem_append_right _ (.head _))).after ran
    split
    · exact stays_pure trivial
    next other =>
      rw [if_neg other] at others
      exact yields_here.mp others

end Expressions

section Statements

theorem store_stays {target : Target} (sized : s.Sized) (known : v.Sized)
    (part : Yields (Activity.Stays ctx) s (targetParts calls line target)) :
    Stays s (store ctx (enterAt ctx calls) line target v) fun _ _ => True := by
  unfold store
  split
  next place name => exact assign_stays sized name known
  next place name es =>
    refine (arrayNamed_looks line name).stays_bind fun id named => ?_
    have indices := yields_here.mp (part.past named)
    exact Stays.bind sized indices fun is t _ _ sizedT _ => assignElement_stays sizedT id is known
  next => exact stays_throw _

theorem execOtherwise_stays {block : Option (List Stmt)}
    (part : Yields (Activity.Stays ctx) s (otherwise calls block)) :
    Stays s (execOtherwise ctx (enterAt ctx calls) (!calls.isEmpty) block) fun c _ => c.Sized := by
  cases block with
  | none =>
    rw [execOtherwise]
    exact stays_pure trivial
  | some block =>
    rw [execOtherwise]
    exact yields_here.mp part

/-- The loop of a FOR statement has a counter of its own, which has no name outside of it. -/
theorem countedLoop_stays {name : Option String} {first last stride : Number} {body : List Stmt}
    (sized : s.Sized) (known : first.Sized)
    (part : Yields (Activity.Stays ctx) s (do
      let (frame, id) ← openCounter line name first stride
      return some ⟨calls, frame :: (← get).env, .forLoop line id last stride body⟩)) :
    Stays s (countedLoop ctx line name first last stride
      (execBlock ctx (enterAt ctx calls) (!calls.isEmpty) body)) fun c _ => c.Sized := by
  intro c u ran
  unfold countedLoop at ran
  obtain ⟨⟨frame, id⟩, t, opened, ran⟩ := bind_eq_ok.mp ran
  have loop : Task.Stays ctx calls { t with env := frame :: t.env } (.forLoop line id last stride body) :=
    part.after opened ⟨calls, frame :: t.env, _⟩ t rfl
  have kept : t.memory.KeepsSizes (some id) u.memory ∧ u.env = t.env ∧ c.Sized := by
    change inEnvironment (frame :: t.env) _ t = _ at ran
    unfold inEnvironment at ran
    dsimp only at ran
    split at ran
    next rounds _ _ returned =>
      cases ran
      obtain ⟨keeps, ended⟩ := loop _ _ _ returned
      exact ⟨keeps.memory, rfl, ended⟩
    next => cases ran
  obtain ⟨env, more, new, -⟩ := openCounter_sized sized known opened
  exact ⟨⟨kept.2.1.trans env, more.within new kept.1⟩, kept.2.2⟩

/-- The parts of a FOR statement begin one after the other: its bounds from left to right, and the loop. -/
theorem forLoop_stays {place : Position} {counter : Option String} {start stop step : Option Expr}
    {body : List Stmt} (sized : s.Sized)
    (parts : ∀ part ∈ stmtParts ctx calls (.forLoop place counter start stop step body),
      Yields (Activity.Stays ctx) s part) :
    Stays s (do
      let start ← forBound place.line .start (← evalPresent ctx (enterAt ctx calls) start)
      let last ← forBound place.line .stop (← evalPresent ctx (enterAt ctx calls) stop)
      let step ← match step with
        | none => pure (.integer 1)
        | some step => do forBound place.line .step (← eval ctx (enterAt ctx calls) step)
      countedLoop ctx place.line counter start last step
        (execBlock ctx (enterAt ctx calls) (!calls.isEmpty) body)) fun c _ => c.Sized := by
  have stopPart := parts _ (.tail _ (.head _))
  have stepPart := parts _ (.tail _ (.tail _ (.head _)))
  have loopPart := parts _ (.tail _ (.tail _ (.tail _ (.head _))))
  refine Stays.bind sized (evalPresent_stays (parts _ (.head _))) fun v t ran _ sizedT known => ?_
  refine (forBound_looks place.line .start v).stays_bind fun first numeric => ?_
  have firstSized : first.Sized := (forBound_stays .start known first t numeric).2
  have started := bound_of_ok ran numeric
  refine Stays.bind sizedT (evalPresent_stays (stopPart.past started)) fun v u ran _ sizedU _ => ?_
  refine (forBound_looks place.line .stop v).stays_bind fun last numeric => ?_
  have stopped := bound_of_ok ran numeric
  have loopPart := (loopPart.after started).after stopped
  cases step with
  | none => exact countedLoop_stays sizedU firstSized loopPart
  | some e =>
    have evaluated := evalPresent_stays ((stepPart.past started).past stopped)
    refine Stays.bind sizedU evaluated fun v w ran _ sizedW _ => ?_
    refine (forBound_looks place.line .step v).stays_bind fun stride numeric => ?_
    exact countedLoop_stays sizedW firstSized (loopPart.after (bound_of_ok ran numeric))

theorem exec_stays {stmt : Stmt} (sized : s.Sized)
    (parts : ∀ part ∈ all ctx calls (.stmt stmt), Yields (Activity.Stays ctx) s part) :
    Stays s (exec ctx (enterAt ctx calls) (!calls.isEmpty) stmt) fun c _ => c.Sized := by
  rw [exec.eq_def]
  refine Stays.bind sized (begins_stays stmt) fun _ t begun _ sizedT _ => ?_
  have parts : ∀ part ∈ stmtParts ctx calls stmt, Yields (Activity.Stays ctx) t part := by
    intro part member
    have whole := parts _ (List.mem_map_of_mem member)
    rw [seqRight_eq_bind] at whole
    exact whole.after begun
  cases stmt with
  | declare place name typeName =>
    exact Stays.bind sizedT (declareVariable_stays name typeName) fun _ _ _ _ _ _ => stays_pure trivial
  | declareArray place name bounds elementType =>
    exact Stays.bind sizedT (declareArray_stays sizedT name bounds elementType) fun _ _ _ _ _ _ =>
      stays_pure trivial
  | constant place name value =>
    refine Stays.bind sizedT (evalPresent_stays (parts _ (.head _))) fun v u _ _ sizedU known => ?_
    exact Stays.bind sizedU (defineConstant_stays sizedU name known) fun _ _ _ _ _ _ => stays_pure trivial
  | assign place target value =>
    refine Stays.bind sizedT (yields_here.mp (parts _ (.head _))) fun v u ran _ sizedU known => ?_
    have stored := store_stays sizedU known.1 ((parts _ (.tail _ (.head _))).past ran)
    exact Stays.bind sizedU stored fun _ _ _ _ _ _ => stays_pure trivial
  | ifThen place condition thenBranch elseBranch =>
    refine Stays.bind sizedT (evalPresent_stays (parts _ (.head _))) fun v u ran _ sizedU _ => ?_
    refine (conditionValue_looks place.line .IF v).stays_bind fun b judged => ?_
    have branch := (parts _ (.tail _ (.head _))).after (test_of_ok ran judged)
    split
    next holds =>
      rw [if_pos holds] at branch
      exact yields_here.mp branch
    next fails =>
      rw [if_neg fails] at branch
      exact execOtherwise_stays branch
  | whileDo place condition body => exact stays_get (yields_here.mp (parts _ (.head _)) _)
  | repeatUntil place body condition => exact stays_get (yields_here.mp (parts _ (.head _)) _)
  | forLoop place counter start stop step body => exact forLoop_stays sizedT parts
  | caseOf place selector branches alternative =>
    refine Stays.bind sizedT (evalPresent_stays (parts _ (.head _))) fun v u ran _ sizedU _ => ?_
    have taken := yields_here.mp ((parts _ (.tail _ (.head _))).after ran)
    refine Stays.bind sizedU taken fun answer w chosen _ _ known => ?_
    have other := ((parts _ (.tail _ (.tail _ (.head _)))).after ran).after chosen
    cases answer with
    | some c => exact stays_pure (known c rfl)
    | none => exact execOtherwise_stays other
  | routine r => exact stays_pure trivial
  | giveBack place value =>
    refine giveBack_stays sizedT fun inside => ?_
    have outside : ¬calls.isEmpty = true := by simpa using inside
    dsimp only [stmtParts] at parts
    rw [if_neg outside] at parts
    have given := parts _ (.head _)
    cases value with
    | none => exact stays_pure Value.sized_null
    | some e => exact evalPresent_stays given
  | call place callPlace callee arguments =>
    exact Stays.bind sizedT (Stays.discard (yields_here.mp (parts _ (.head _)))) fun _ _ _ _ _ _ =>
      stays_pure trivial
  | strayCall => exact stays_throw _
  | output place values =>
    refine Stays.bind sizedT (yields_here.mp (parts _ (.head _))) fun texts u _ _ sizedU _ => ?_
    exact Stays.bind sizedU (emit_stays _) fun _ _ _ _ _ _ => stays_pure trivial
  | input place target =>
    have taken : Stays t (input ctx (enterAt ctx calls) place.line target) fun _ _ => True := by
      refine Stays.bind sizedT (readInput_stays sizedT target) fun v u ran _ sizedU known => ?_
      exact store_stays sizedU known ((parts _ (.head _)).past ran)
    exact Stays.bind sizedT taken fun _ _ _ _ _ _ => stays_pure trivial
  | stray => exact stays_throw _

theorem execBlock_stays {ss : List Stmt} (sized : s.Sized)
    (parts : ∀ part ∈ all ctx calls (.block ss), Yields (Activity.Stays ctx) s part) :
    Stays s (execBlock ctx (enterAt ctx calls) (!calls.isEmpty) ss) fun c _ => c.Sized := by
  cases ss with
  | nil =>
    rw [execBlock]
    exact stays_pure trivial
  | cons stmt rest =>
    rw [execBlock]
    refine Stays.bind sized (yields_here.mp (parts _ (.head _))) fun c t ran _ _ known => ?_
    have others := (parts _ (.tail _ (.head _))).after ran
    cases c with
    | returned v line => exact stays_pure known
    | normal => exact yields_here.mp others

theorem execBranches_stays {selector : Value} {bs : List (Branch Stmt)} (sized : s.Sized)
    (parts : ∀ part ∈ all ctx calls (.branches line selector bs), Yields (Activity.Stays ctx) s part) :
    Stays s (execBranches ctx (enterAt ctx calls) (!calls.isEmpty) line selector bs) fun taken _ =>
      ∀ c ∈ taken, c.Sized := by
  cases bs with
  | nil =>
    rw [execBranches]
    exact stays_pure (forall_mem_none _)
  | cons b rest =>
    obtain ⟨labels, body, branchLine⟩ := b
    rw [execBranches]
    refine Stays.bind sized (yields_here.mp (parts _ (.head _))) fun taken t ran _ sizedT _ => ?_
    have chosen := (parts _ (.tail _ (.head _))).after ran
    split
    next takes =>
      rw [if_pos takes] at chosen
      refine Stays.bind sizedT (yields_here.mp chosen) fun c _ _ _ _ known => stays_pure ?_
      rintro _ ⟨⟩
      exact known
    next other =>
      rw [if_neg other] at chosen
      exact yields_here.mp chosen

end Statements

/-! The rounds of a loop: each leads to the next, so there is no induction on their number here. -/

section Rounds

variable {condition : Option Expr} {body : List Stmt}

theorem whileLoop_stays (sized : s.Sized)
    (parts : ∀ part ∈ all ctx calls (.whileLoop line condition body), Yields (Activity.Stays ctx) s part) :
    Task.Stays ctx calls s (.whileLoop line condition body) := by
  intro rounds
  cases rounds with
  | zero => exact stays_stop _ _
  | succ rounds =>
    rw [whileLoop]
    refine Stays.bind sized (test_stays sized (parts _ (.head _))) fun b t ran _ sizedT _ => ?_
    have bodyPart := (parts _ (.tail _ (.head _))).after ran
    have nextPart := (parts _ (.tail _ (.tail _ (.head _)))).after ran
    split
    next holds =>
      rw [if_pos holds] at bodyPart nextPart
      refine Stays.bind sizedT (yields_here.mp bodyPart) fun c u executed _ sizedU known => ?_
      have nextPart := nextPart.after executed
      cases c with
      | returned v line => exact stays_pure known
      | normal =>
        refine Stays.bind sizedU tick_stays fun _ w counted _ _ _ => ?_
        exact yields_here.mp (nextPart.after counted) rounds
    next => exact stays_pure trivial

theorem repeatLoop_stays (sized : s.Sized)
    (parts : ∀ part ∈ all ctx calls (.repeatLoop line body condition), Yields (Activity.Stays ctx) s part) :
    Task.Stays ctx calls s (.repeatLoop line body condition) := by
  intro rounds
  cases rounds with
  | zero => exact stays_stop _ _
  | succ rounds =>
    rw [repeatLoop]
    refine Stays.bind sized (yields_here.mp (parts _ (.head _))) fun c t executed _ sizedT known => ?_
    have testPart := (parts _ (.tail _ (.head _))).after executed
    have nextPart := (parts _ (.tail _ (.tail _ (.head _)))).after executed
    cases c with
    | returned v line => exact stays_pure known
    | normal =>
      refine Stays.bind sizedT tick_stays fun _ u counted _ sizedU _ => ?_
      refine Stays.bind sizedU (test_stays sizedU (testPart.after counted)) fun b w ran _ _ _ => ?_
      have nextPart := (nextPart.after counted).after ran
      split
      · exact stays_pure trivial
      next fails =>
        rw [if_neg fails] at nextPart
        exact yields_here.mp nextPart rounds

/-- Where the counter has not passed the end, its value has an admissible size. -/
theorem counter_going {counter : BindingId} {last step : Number}
    (known : s.memory.CounterSized counter last step)
    (going : ¬(((s.memory.binding? counter).map Binding.value).getD .null).number?.any (pastEnd · last step)) :
    s.memory.SizedAt counter := by
  obtain ⟨b, held, sized⟩ := known
  rw [held] at going
  exact ⟨b, held, sized (Bool.not_eq_true _ ▸ going)⟩

theorem rounds_stay {counter : BindingId} {last step : Number}
    (finds : (Task.forLoop line counter last step body).Finds s)
    (finite : ∀ x, last = .real x → x.isFinite = true)
    (parts : ∀ part ∈ all ctx calls (.forLoop line counter last step body),
      Yields (Activity.Stays ctx) s part) :
    Task.Stays ctx calls s (.forLoop line counter last step body) := by
  obtain ⟨sized, bound, known⟩ := finds
  intro rounds c t ran
  cases rounds with
  | zero => cases ran
  | succ rounds =>
    rw [forLoop] at ran
    obtain ⟨v, _, looked, ran⟩ := bind_eq_ok.mp ran
    cases looked
    split at ran
    next =>
      cases ran
      exact ⟨.refl s, trivial⟩
    next going =>
      have still : s.memory.SizedAt counter := counter_going known going
      have bodyPart := (parts _ (.head _)).after rfl
      have nextPart := (parts _ (.tail _ (.head _))).after rfl
      rw [if_neg going] at bodyPart nextPart
      obtain ⟨c, u, executed, ran⟩ := bind_eq_ok.mp ran
      obtain ⟨kept, ended⟩ := yields_here.mp bodyPart c u executed
      have nextPart := nextPart.after executed
      cases c with
      | returned v line =>
        cases ran
        exact ⟨kept.but, ended⟩
      | normal =>
        obtain ⟨_, w, counted, ran⟩ := bind_eq_ok.mp ran
        obtain ⟨_, x, advanced, ran⟩ := bind_eq_ok.mp ran
        have before : s.KeepsSizes none w := kept.andThen (tick_stays _ w counted).1
        -- The counter may pass the end now. Until the next test it is left out of what is kept.
        obtain ⟨moved, -⟩ := advance_sized (before.memory.sizedAt still) bound finite advanced
        obtain ⟨onward, ended⟩ := yields_here.mp ((nextPart.after counted).after advanced) rounds _ t ran
        have there : ∀ i ∈ some counter, i < s.memory.bindings.size := by
          rintro _ ⟨⟩
          exact still.lt
        exact ⟨(before.but.trans there moved).trans there onward, ended⟩

end Rounds

/-- A piece of code stays within the admissible sizes if all of its parts do. What cannot be had from the
parts is that no end of a loop is infinite or NaN, and that a text is short. -/
theorem stays_of_parts (finds : task.Finds s) (code : task.Grounded .sizes)
    (finite : ∀ line counter last step body, task = .forLoop line counter last step body →
      ∀ x, last = .real x → x.isFinite = true)
    (short : ∀ e v t, task = .expr e → eval ctx (enterAt ctx calls) e s = .ok v t → v.Short)
    (parts : ∀ part ∈ all ctx calls task, Yields (Activity.Stays ctx) s part) : task.Stays ctx calls s := by
  cases task with
  | expr e =>
    intro v t ran
    obtain ⟨keeps, sized⟩ := eval_stays finds code parts v t ran
    exact ⟨keeps, sized, short e v t rfl ran⟩
  | exprs es => exact evalAll_stays finds parts
  | indices line es => exact evalIndices_stays finds parts
  | arguments line callee params es => exact bindArguments_stays finds parts
  | call asValue line callee es => exact call_stays finds parts
  | shown line es => exact evalShown_stays finds parts
  | labels line selector es => exact anyLabelMatches_stays finds parts
  | stmt stmt => exact exec_stays finds parts
  | block ss => exact execBlock_stays finds parts
  | branches line selector bs => exact execBranches_stays finds parts
  | whileLoop line condition body => exact whileLoop_stays finds parts
  | repeatLoop line body condition => exact repeatLoop_stays finds parts
  | forLoop line counter last step body => exact rounds_stay finds (finite _ _ _ _ _ rfl) parts

end Parts

end Pseudocode
