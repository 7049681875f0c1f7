import Pseudocode.Proofs.Utterances

/-! The texts that are held while a run goes on. What comes before a part of a piece of code leaves no
wording, and the part is code that the wording knows. So the texts in memory are good whenever an activity
begins, and however it ends. -/
namespace Pseudocode

namespace Parts

open Run

variable {ctx : RunContext} {W : Wording ctx} {calls : List (Routine Stmt)}

/-- What is done before a part leaves good texts, and the part is code that the wording knows. -/
def Utters (W : Wording ctx) (part : Run (Option Entry)) : Prop :=
  Run.Utters W.good part fun next => ∀ entry ∈ next, entry.task.Grounded W.ground

theorem none_utters : Utters W (pure none) := utters_pure (forall_mem_none _)

theorem some_utters {entry : Entry} (known : entry.task.Grounded W.ground) : Utters W (pure (some entry)) := by
  apply utters_pure
  rintro _ ⟨⟩
  exact known

theorem here_utters {task : Task} (known : task.Grounded W.ground) : Utters W (here calls task) :=
  utters_get fun _ _ => some_utters known

theorem present_utters {value : Option Expr} (known : ∀ e ∈ value, e.Grounded W.ground) :
    Utters W (present calls value) := by
  cases value with
  | none => exact none_utters
  | some e => exact here_utters (known e rfl)

theorem otherwise_utters {block : Option (List Stmt)} (known : ∀ ss ∈ block, ∀ s ∈ ss, s.Grounded W.ground) :
    Utters W (otherwise calls block) := by
  cases block with
  | none => exact none_utters
  | some ss => exact here_utters (known ss rfl)

theorem targetParts_utters (line : Nat) {target : Target} (known : target.Grounded W.ground) :
    Utters W (targetParts calls line target) := by
  cases known with
  | element _ inner => exact (arrayNamed_looks line _).utters.discard.bind fun _ _ => here_utters inner
  | _ => exact none_utters

section

variable (routines : ∀ r ∈ ctx.routines, BlockGrounded W.ground r.body)

include routines

theorem enterAt_utters (calls : List (Routine Stmt)) : EnterUtters W (enterAt ctx calls) :=
  enter_utters routines _

theorem exprParts_utter {e : Expr} (known : e.Grounded W.ground) : ∀ part ∈ exprParts ctx calls e, Utters W part := by
  have enters : EnterUtters W (enterAt ctx calls) := enterAt_utters routines calls
  cases known with
  | literal | name | range | stray => exact List.forall_mem_nil _
  | element _ inner =>
    rintro part (_ | ⟨_, ⟨⟩⟩)
    exact (arrayNamed_looks _ _).utters.discard.bind fun _ _ => here_utters inner
  | binary _ first second =>
    rintro part (_ | ⟨_, _ | ⟨_, ⟨⟩⟩⟩)
    · exact here_utters first
    · refine (eval_utters enters _ first).bind fun l _ => ?_
      split
      · refine (truth_looks _ _ l).utters.bind fun b _ => ?_
        split
        · exact none_utters
        · exact here_utters second
      · exact here_utters second
  | unary _ inner =>
    rintro part (_ | ⟨_, ⟨⟩⟩)
    exact here_utters inner
  | call _ permitted inner =>
    rintro part (_ | ⟨_, ⟨⟩⟩)
    exact here_utters ⟨permitted, inner⟩

theorem callParts_utter {asValue : Bool} {line : Nat} {callee : String} {es : List Expr}
    (inner : ∀ e ∈ es, e.Grounded W.ground) :
    ∀ part ∈ callParts ctx calls asValue line callee es, Utters W part := by
  unfold callParts
  split
  · split
    · rintro part (_ | ⟨_, ⟨⟩⟩)
      exact here_utters inner
    · exact List.forall_mem_nil _
  next r found =>
    split
    · exact List.forall_mem_nil _
    · rintro part (_ | ⟨_, _ | ⟨_, ⟨⟩⟩⟩)
      · exact here_utters inner
      · refine (bindArguments_utters (enterAt_utters routines calls) line callee r.params es inner).bind
          fun bindings _ => ?_
        split
        · refine (openFrame_utters r.params bindings).bind fun frame _ => ?_
          exact some_utters (routines r (routine_mem found))
        · exact none_utters

theorem labelParts_utter {label : Expr} (known : label.Grounded W.ground) :
    ∀ part ∈ labelParts ctx calls label, Utters W part := by
  unfold labelParts
  split
  · cases known with
    | range _ low high =>
      rintro part (_ | ⟨_, _ | ⟨_, ⟨⟩⟩⟩)
      · exact here_utters low
      · exact (eval_utters (enterAt_utters routines calls) _ low).discard.bind fun _ _ => here_utters high
  · rintro part (_ | ⟨_, ⟨⟩⟩)
    exact here_utters known

/-- The parts of a FOR statement: what its header is made of, one after the other, and its loop. -/
theorem forParts_utter {place : Position} {counter : Option String} {start stop step : Option Expr}
    {body : List Stmt} (starts : ∀ e ∈ start, e.Grounded W.ground) (stops : ∀ e ∈ stop, e.Grounded W.ground)
    (steps : ∀ e ∈ step, e.Grounded W.ground) (bodies : BlockGrounded W.ground body) :
    ∀ part ∈ stmtParts ctx calls (.forLoop place counter start stop step body), Utters W part := by
  have enters : EnterUtters W (enterAt ctx calls) := enterAt_utters routines calls
  have looped (first last stride : Number) : Utters W (do
      let opened ← openCounter place.line counter first stride
      return some ⟨calls, opened.1 :: (← get).env, .forLoop place.line opened.2 last stride body⟩) :=
    (openCounter_utters counter first stride).bind fun _ _ => utters_get fun _ _ => some_utters bodies
  rintro part (_ | ⟨_, _ | ⟨_, _ | ⟨_, _ | ⟨_, ⟨⟩⟩⟩⟩⟩)
  · exact present_utters starts
  · exact (bound_utters enters .start starts).discard.bind fun _ _ => present_utters stops
  · refine (bound_utters enters .start starts).discard.bind fun _ _ => ?_
    exact (bound_utters enters .stop stops).discard.bind fun _ _ => present_utters steps
  · refine (bound_utters enters .start starts).bind fun first _ => ?_
    refine (bound_utters enters .stop stops).bind fun last _ => ?_
    cases step with
    | none => exact looped first last (.integer 1)
    | some e => exact (bound_utters enters .step steps).bind fun stride _ => looped first last stride

theorem stmtParts_utter {stmt : Stmt} (known : stmt.Grounded W.ground) :
    ∀ part ∈ stmtParts ctx calls stmt, Utters W part := by
  have enters : EnterUtters W (enterAt ctx calls) := enterAt_utters routines calls
  cases known with
  | declare | declareArray | routine | strayCall | stray => exact List.forall_mem_nil _
  | constant _ value =>
    rintro part (_ | ⟨_, ⟨⟩⟩)
    exact present_utters value
  | assign _ target value =>
    rintro part (_ | ⟨_, _ | ⟨_, ⟨⟩⟩⟩)
    · exact here_utters value
    · exact (eval_utters enters _ value).discard.bind fun _ _ => targetParts_utters _ target
  | ifThen _ condition thens elses =>
    rintro part (_ | ⟨_, _ | ⟨_, ⟨⟩⟩⟩)
    · exact present_utters condition
    · refine (test_utters enters .IF condition).bind fun holds _ => ?_
      split
      · exact here_utters thens
      · exact otherwise_utters elses
  | whileDo _ condition body =>
    rintro part (_ | ⟨_, ⟨⟩⟩)
    exact here_utters ⟨condition, body⟩
  | repeatUntil _ body condition =>
    rintro part (_ | ⟨_, ⟨⟩⟩)
    exact here_utters ⟨condition, body⟩
  | forLoop _ starts stops steps bodies => exact forParts_utter routines starts stops steps bodies
  | caseOf _ selector lines labels bodies otherwise =>
    rintro part (_ | ⟨_, _ | ⟨_, _ | ⟨_, ⟨⟩⟩⟩⟩)
    · exact present_utters selector
    · refine (evalPresent_utters enters selector).bind fun v _ => here_utters fun b member => ?_
      exact ⟨lines b member, labels b member, bodies b member⟩
    · refine (evalPresent_utters enters selector).bind fun v _ => ?_
      refine (execBranches_utters enters _ _ v _ labels bodies).bind fun taken _ => ?_
      cases taken with
      | some c => exact none_utters
      | none => exact otherwise_utters otherwise
  | giveBack _ value =>
    dsimp only [stmtParts]
    split
    · exact List.forall_mem_nil _
    · rintro part (_ | ⟨_, ⟨⟩⟩)
      exact present_utters value
  | call _ _ permitted arguments =>
    rintro part (_ | ⟨_, ⟨⟩⟩)
    exact here_utters ⟨permitted, arguments⟩
  | output _ values =>
    rintro part (_ | ⟨_, ⟨⟩⟩)
    exact here_utters values
  | input _ target =>
    rintro part (_ | ⟨_, ⟨⟩⟩)
    exact (readInput_utters W _).discard.bind fun _ _ => targetParts_utters _ target

/-- A round of a loop, and what follows it unless the body gives back a value. -/
theorem round_utters {line : Nat} {body : List Stmt} (bodies : BlockGrounded W.ground body)
    {next : Run (Option Entry)} (follows : Utters W next) : Utters W (do
      match ← execBlock ctx (enterAt ctx calls) (!calls.isEmpty) body with
      | .returned .. => return none
      | .normal =>
        tick ctx line
        next) := by
  refine (execBlock_utters (enterAt_utters routines calls) _ body bodies).bind fun c _ => ?_
  cases c with
  | returned => exact none_utters
  | normal => exact tick_utters.bind fun _ _ => follows

section Loops

variable {condition : Option Expr} {body : List Stmt} {line : Nat} (tests : ∀ e ∈ condition, e.Grounded W.ground)
  (bodies : BlockGrounded W.ground body)

include tests bodies

theorem whileParts_utter : ∀ part ∈ all ctx calls (.whileLoop line condition body), Utters W part := by
  have tested : Run.Utters W.good (test ctx calls .WHILE line condition) fun _ => True :=
    test_utters (enterAt_utters routines calls) .WHILE tests
  rintro part (_ | ⟨_, _ | ⟨_, _ | ⟨_, ⟨⟩⟩⟩⟩)
  · exact present_utters tests
  · refine tested.bind fun holds _ => ?_
    split
    · exact here_utters bodies
    · exact none_utters
  · refine tested.bind fun holds _ => ?_
    split
    · exact round_utters routines bodies (here_utters ⟨tests, bodies⟩)
    · exact none_utters

theorem repeatParts_utter : ∀ part ∈ all ctx calls (.repeatLoop line body condition), Utters W part := by
  rintro part (_ | ⟨_, _ | ⟨_, _ | ⟨_, ⟨⟩⟩⟩⟩)
  · exact here_utters bodies
  · exact round_utters routines bodies (present_utters tests)
  · refine round_utters routines bodies ?_
    refine (test_utters (enterAt_utters routines calls) .UNTIL tests).bind fun holds _ => ?_
    split
    · exact none_utters
    · exact here_utters ⟨tests, bodies⟩

end Loops

theorem countedParts_utter {line : Nat} (counter : BindingId) (last step : Number) {body : List Stmt}
    (bodies : BlockGrounded W.ground body) :
    ∀ part ∈ all ctx calls (.forLoop line counter last step body), Utters W part := by
  rintro part (_ | ⟨_, _ | ⟨_, ⟨⟩⟩⟩)
  · refine utters_get fun s _ => ?_
    split
    · exact none_utters
    · exact here_utters bodies
  · refine utters_get fun s _ => ?_
    split
    · exact none_utters
    · refine round_utters routines bodies ?_
      exact (advance_utters counter step).bind fun _ _ => here_utters bodies

/-- No part of an activity leaves the wording. -/
theorem all_utter {task : Task} (known : task.Grounded W.ground) : ∀ part ∈ all ctx calls task, Utters W part := by
  have enters : EnterUtters W (enterAt ctx calls) := enterAt_utters routines calls
  cases task with
  | expr e => exact exprParts_utter routines known
  | exprs es =>
    cases es with
    | nil => exact List.forall_mem_nil _
    | cons e rest =>
      rintro part (_ | ⟨_, _ | ⟨_, ⟨⟩⟩⟩)
      · exact here_utters (known e (.head _))
      · exact (eval_utters enters e (known e (.head _))).discard.bind fun _ _ =>
          here_utters fun e member => known e (.tail _ member)
  | indices line es =>
    cases es with
    | nil => exact List.forall_mem_nil _
    | cons e rest =>
      rintro part (_ | ⟨_, _ | ⟨_, ⟨⟩⟩⟩)
      · exact here_utters (known e (.head _))
      · refine (eval_utters enters e (known e (.head _))).bind fun v _ => ?_
        exact (indexValue_looks line v).utters.discard.bind fun _ _ =>
          here_utters fun e member => known e (.tail _ member)
  | arguments line callee params es =>
    cases params with
    | nil => exact List.forall_mem_nil _
    | cons param params =>
      cases es with
      | nil => exact List.forall_mem_nil _
      | cons e rest =>
        rintro part (_ | ⟨_, _ | ⟨_, ⟨⟩⟩⟩)
        · split
          · exact none_utters
          · exact here_utters (known e (.head _))
        · refine (bindArgument_utters callee param e (eval_utters enters e (known e (.head _)))).discard.bind
            fun _ _ => ?_
          exact here_utters fun e member => known e (.tail _ member)
  | call asValue line callee es => exact callParts_utter routines known.2
  | shown line es =>
    cases es with
    | nil => exact List.forall_mem_nil _
    | cons e rest =>
      rintro part (_ | ⟨_, _ | ⟨_, ⟨⟩⟩⟩)
      · exact here_utters (known e (.head _))
      · refine (eval_utters enters e (known e (.head _))).bind fun v _ => ?_
        exact (shown_looks ctx line v).utters.discard.bind fun _ _ =>
          here_utters fun e member => known e (.tail _ member)
  | labels line selector es =>
    cases es with
    | nil => exact List.forall_mem_nil _
    | cons label rest =>
      have first := known label (.head _)
      intro part member
      rcases List.mem_append.mp member with inLabel | last
      · exact labelParts_utter routines first part inLabel
      · cases List.mem_singleton.mp last
        refine (labelMatches_utters enters first).bind fun taken _ => ?_
        split
        · exact none_utters
        · exact here_utters fun e member => known e (.tail _ member)
  | stmt stmt =>
    intro part member
    obtain ⟨rest, inStmt, rfl⟩ := List.mem_map.mp member
    rw [seqRight_eq_bind]
    exact (begins_utters stmt).bind fun _ _ => stmtParts_utter routines known rest inStmt
  | block ss =>
    cases ss with
    | nil => exact List.forall_mem_nil _
    | cons stmt rest =>
      rintro part (_ | ⟨_, _ | ⟨_, ⟨⟩⟩⟩)
      · exact here_utters (known stmt (.head _))
      · refine (exec_utters enters _ stmt (known stmt (.head _))).bind fun c _ => ?_
        cases c with
        | returned => exact none_utters
        | normal => exact here_utters fun s member => known s (.tail _ member)
  | branches line selector bs =>
    cases bs with
    | nil => exact List.forall_mem_nil _
    | cons b rest =>
      obtain ⟨labels, body, branchLine⟩ := b
      have first := known _ (.head _)
      rintro part (_ | ⟨_, _ | ⟨_, ⟨⟩⟩⟩)
      · exact here_utters first.labels
      · refine (anyLabelMatches_utters enters first.labels).bind fun taken _ => ?_
        split
        · exact here_utters first.body
        · exact here_utters fun b member => known b (.tail _ member)
  | whileLoop line condition body => exact whileParts_utter routines known.1 known.2
  | repeatLoop line body condition => exact repeatParts_utter routines known.1 known.2
  | forLoop line counter last step body => exact countedParts_utter routines counter last step known

end

end Parts

open Run Parts in
/-- The code utters what the computations utter that it is carried out with. -/
theorem Task.run_utters {ctx : RunContext} {W : Wording ctx}
    (routines : ∀ r ∈ ctx.routines, BlockGrounded W.ground r.body) (calls : List (Routine Stmt)) {task : Task}
    (known : task.Grounded W.ground) : Run.Utters W.good (task.run ctx calls) fun _ => True := by
  have enters : EnterUtters W (enterAt ctx calls) := enterAt_utters routines calls
  cases task with
  | expr e => exact (eval_utters enters e known).discard
  | exprs es => exact (evalAll_utters enters es known).discard
  | indices line es => exact (evalIndices_utters enters line es known).discard
  | arguments line callee params es => exact (bindArguments_utters enters line callee params es known).discard
  | call asValue line callee es =>
    exact (call_utters enters known.1 (evalAll_utters enters es known.2) fun params =>
      bindArguments_utters enters line callee params es known.2).discard
  | shown line es => exact (evalShown_utters enters known).discard
  | labels line selector es => exact (anyLabelMatches_utters enters known).discard
  | stmt stmt => exact (exec_utters enters _ stmt known).discard
  | block ss => exact (execBlock_utters enters _ ss known).discard
  | branches line selector bs =>
    exact (execBranches_utters enters _ line selector bs (fun b member => (known b member).labels)
      fun b member => (known b member).body).discard
  | whileLoop line condition body =>
    exact utters_get fun s _ => (whileLoop_utters (test_utters enters .WHILE known.1)
      (execBlock_utters enters _ body known.2)).discard
  | repeatLoop line body condition =>
    exact utters_get fun s _ => (repeatLoop_utters (test_utters enters .UNTIL known.1)
      (execBlock_utters enters _ body known.2)).discard
  | forLoop line counter last step body =>
    exact utters_get fun s _ => (forLoop_utters counter last step (execBlock_utters enters _ body known)).discard

namespace Activity

/-- The texts in memory are good before the activity, and however it ends. -/
structure Worded (ctx : RunContext) (good : String → Prop) (a : Activity) : Prop where
  before : a.state.memory.Worded good
  after : Ends (a.task.run ctx a.calls) a.state (fun _ t => t.memory.Worded good) fun _ t => t.memory.Worded good

variable {p : Program} {settings : Settings} {host : Host} {a : Activity}

theorem Worded.weaken {ctx : RunContext} {good weaker : String → Prop} (worded : a.Worded ctx good)
    (weakens : ∀ text, good text → weaker text) : a.Worded ctx weaker where
  before := worded.before.weaken weakens
  after := worded.after.mono (fun _ _ known => known.weaken weakens) fun _ _ known => known.weaken weakens

theorem Reaches.worded (W : Wording (p.context settings host)) (known : p.Grounded W.ground)
    (reached : Reaches (p.context settings host) (.start p settings) a) :
    a.Worded (p.context settings host) W.good := by
  have routines : ∀ r ∈ (p.context settings host).routines, BlockGrounded W.ground r.body :=
    fun r member => (known.routines r member).2
  have begins : a.state.memory.Worded W.good ∧ a.task.Grounded W.ground := by
    induction reached with
    | refl => exact ⟨Memory.initial_worded, known.body⟩
    | tail _ leads ih =>
      obtain ⟨part, member, entry, t, began, rfl⟩ := leads
      exact ((Parts.all_utter routines ih.2 part member _ ih.1).of_ok began).imp_right fun each => each entry rfl
  refine ⟨begins.1, ?_⟩
  exact (Task.run_utters routines a.calls begins.2 a.state begins.1).mono (fun _ _ => And.left) fun _ _ => id

end Activity

end Pseudocode
