import Mathlib.Data.Prod.Lex
import Pseudocode.Proofs.Activity

/-! The conduct of the parts of an activity. Whatever begins as a part finds the state in order, obeys
the policy that the whole obeys, and has less before it: fewer calls may still be made, or fewer steps
are left, or there is less code. Hence no activity goes on for ever. -/
namespace Pseudocode

/-- What begins in a state as a part of an activity obeys the policy and can define names, and one more
call is active, or steps have been counted, or there is less code to carry out. -/
structure Entry.Follows (P : Policy) (ctx : RunContext) (a : Activity) (t : RunState) (entry : Entry) :
    Prop where
  obeys : entry.task.Obeys P ctx
  opens : t.memory.Opens entry.env
  less : entry.calls.length = a.calls.length + 1 ∧
      entry.calls.length ≤ ctx.settings.limits.maxCallDepth ∨
    entry.calls = a.calls ∧ (a.state.steps < t.steps ∨ entry.task.size < a.task.size)

theorem sizeOf_head [SizeOf α] (a : α) (rest : List α) : sizeOf a < sizeOf (a :: rest) :=
  List.sizeOf_lt_of_mem (.head _)

theorem sizeOf_tail [SizeOf α] (a : α) (rest : List α) : sizeOf rest < sizeOf (a :: rest) := by
  rw [List.cons.sizeOf_spec]
  omega

theorem sizeOf_indices (place : Position) (array : String) (es : List Expr) :
    sizeOf es < sizeOf (Expr.element place array es) := by
  rw [Expr.element.sizeOf_spec]
  omega

theorem sizeOf_sides (place : Position) (op : BinaryOp) (left right : Expr) :
    sizeOf left < sizeOf (Expr.binary place op left right) ∧
      sizeOf right < sizeOf (Expr.binary place op left right) := by
  rw [Expr.binary.sizeOf_spec]
  omega

theorem sizeOf_operand (place : Position) (op : UnaryOp) (operand : Expr) :
    sizeOf operand < sizeOf (Expr.unary place op operand) := by
  rw [Expr.unary.sizeOf_spec]
  omega

theorem sizeOf_arguments (place : Position) (callee : String) (es : List Expr) :
    sizeOf es + 1 < sizeOf (Expr.call place callee es) := by
  obtain ⟨line, column⟩ := place
  rw [Expr.call.sizeOf_spec, Position.mk.sizeOf_spec]
  omega

theorem sizeOf_body (condition : Option Expr) (body : List Stmt) :
    sizeOf body < sizeOf condition + sizeOf body := by
  cases condition with
  | none => exact Nat.lt_add_of_pos_left Nat.one_pos
  | some e =>
    rw [Option.some.sizeOf_spec]
    omega

namespace Parts

open Run

variable {P : Policy} {ctx : RunContext} {a : Activity} {s t : RunState}

/-- A part of an activity conducts itself and what it begins follows from the activity. -/
def Conducts (P : Policy) (ctx : RunContext) (a : Activity) (s : RunState)
    (part : Run (Option Entry)) : Prop :=
  Run.Conducts P ctx s part (fun next t => ∀ entry ∈ next, entry.Follows P ctx a t)

theorem none_conducts (ready : s.Ready P ctx) : Conducts P ctx a s (pure none) :=
  conducts_pure ready nofun

theorem here_conducts (ready : s.Ready P ctx) {task : Task} (obeys : task.Obeys P ctx)
    (less : a.state.steps < s.steps ∨ task.size < a.task.size) :
    Conducts P ctx a s (here a.calls task) := by
  refine conducts_get (conducts_pure ready ?_)
  rintro entry ⟨⟩
  exact ⟨obeys, ready.opens, .inr ⟨rfl, less⟩⟩

theorem present_conducts (ready : s.Ready P ctx) {value : Option Expr}
    (obeys : ∀ e ∈ value, e.Obeys P)
    (less : a.state.steps < s.steps ∨ sizeOf value ≤ a.task.size) :
    Conducts P ctx a s (present a.calls value) := by
  cases value with
  | none => exact none_conducts ready
  | some e =>
    refine here_conducts ready (obeys e rfl) (less.imp_right fun small => ?_)
    simp only [Option.some.sizeOf_spec] at small
    exact Nat.lt_of_lt_of_le (Nat.lt_add_of_pos_left Nat.one_pos) small

theorem otherwise_conducts (ready : s.Ready P ctx) {block : Option (List Stmt)}
    (obeys : ∀ ss ∈ block, ∀ s ∈ ss, s.Obeys P) (counted : a.state.steps < s.steps) :
    Conducts P ctx a s (otherwise a.calls block) := by
  cases block with
  | none => exact none_conducts ready
  | some block => exact here_conducts ready (obeys block rfl) (.inl counted)

/-- Steps that have been counted stay counted. -/
theorem counted_later (counted : a.state.steps < s.steps) (later : s.Later P ctx t) :
    a.state.steps < t.steps :=
  Nat.lt_of_lt_of_le counted later.steps

theorem counted_tick (later : a.state.Later P ctx s) (count : t.steps = s.steps + 1) :
    a.state.steps < t.steps := by
  have steps := later.steps
  omega

theorem targetParts_conducts (ready : s.Ready P ctx) (line : Nat) {target : Target}
    (obeys : target.Obeys P) (counted : a.state.steps < s.steps) :
    Conducts P ctx a s (targetParts a.calls line target) := by
  cases target with
  | element place name es =>
    refine (arrayNamed_conducts ready line name).discard.bind fun _ t later _ readyT _ => ?_
    exact here_conducts readyT obeys (.inl (counted_later counted later))
  | _ => exact none_conducts ready

section

variable (routines : ∀ r ∈ ctx.routines, ∀ stmt ∈ r.body, stmt.Obeys P)

include routines

theorem enterAt_conducts (calls : List (Routine Stmt)) : EnterConducts P ctx (enterAt ctx calls) :=
  enter_conducts routines _

theorem test_conducts (ready : s.Ready P ctx) (calls : List (Routine Stmt)) (keyword : Keyword)
    (line : Nat) {condition : Option Expr} (obeys : ∀ e ∈ condition, e.Obeys P) :
    Run.Conducts P ctx s (test ctx calls keyword line condition) (fun _ _ => True) :=
  (evalPresent_conducts (enterAt_conducts routines calls) ready obeys).bind fun v _ _ _ readyT _ =>
    conditionValue_conducts readyT keyword line v

theorem exprParts_conduct {e : Expr} (same : a.task = .expr e) (ready : s.Ready P ctx)
    (obeys : e.Obeys P) : ∀ part ∈ exprParts ctx a.calls e, Conducts P ctx a s part := by
  have size : a.task.size = sizeOf e := by rw [same]; rfl
  cases obeys with
  | literal | name | range | stray => nofun
  | @element es place array inner =>
    rintro part (_ | ⟨_, ⟨⟩⟩)
    refine (arrayNamed_conducts ready place.line array).discard.bind fun _ t later _ readyT _ => ?_
    exact here_conducts readyT inner (.inr (size ▸ sizeOf_indices place array es))
  | @binary left right place op leftObeys rightObeys =>
    have leftLess : (Task.expr left).size < a.task.size := size ▸ (sizeOf_sides place op left right).1
    have rightLess : (Task.expr right).size < a.task.size := size ▸ (sizeOf_sides place op left right).2
    rintro part (_ | ⟨_, _ | ⟨_, ⟨⟩⟩⟩)
    · exact here_conducts ready leftObeys (.inr leftLess)
    · refine (eval_conducts (enterAt_conducts routines a.calls) left ready leftObeys).bind
        fun l t _ _ readyT _ => ?_
      split
      · refine (truth_conducts readyT op.text place.line l).bind fun b u _ _ readyU _ => ?_
        split
        · exact none_conducts readyU
        · exact here_conducts readyU rightObeys (.inr rightLess)
      · exact here_conducts readyT rightObeys (.inr rightLess)
  | @unary operand place op inner =>
    rintro part (_ | ⟨_, ⟨⟩⟩)
    exact here_conducts ready inner (.inr (size ▸ sizeOf_operand place op operand))
  | @call callee es place permitted inner =>
    rintro part (_ | ⟨_, ⟨⟩⟩)
    exact here_conducts ready ⟨permitted, inner⟩ (.inr (size ▸ sizeOf_arguments place callee es))

omit routines in
/-- An argument that is passed by reference is a name, or the policy permits a call that does not fit. -/
theorem references_named {asValue : Bool} {callee : String} {es : List Expr} {r : Routine Stmt}
    (permitted : P.call asValue callee es) (found : ctx.routine? callee = some r) :
    ∀ pair ∈ r.params.zip es, pair.1.mode = .byReference → pair.2.isName = true ∨ ctx.Misfit P := by
  have judged : ctx.CallFits asValue callee es ∨ ctx.Misfit P :=
    Classical.or_iff_not_imp_left.mpr fun misfit => ⟨asValue, callee, es, permitted, misfit⟩
  simp only [RunContext.CallFits, found] at judged
  exact fun pair member reference => judged.imp_left fun fits => fits.2.2 pair member reference

theorem callParts_conduct {asValue : Bool} {line : Nat} {callee : String} {es : List Expr}
    (same : a.task = .call asValue line callee es) (ready : s.Ready P ctx)
    (permitted : P.call asValue callee es) (inner : ∀ e ∈ es, e.Obeys P) :
    ∀ part ∈ callParts ctx a.calls asValue line callee es, Conducts P ctx a s part := by
  have size : a.task.size = sizeOf es + 1 := by rw [same]; rfl
  unfold callParts
  cases found : ctx.routine? callee with
  | none =>
    dsimp only
    split
    · rintro part (_ | ⟨_, ⟨⟩⟩)
      exact here_conducts ready inner (.inr (size ▸ Nat.lt_succ_self _))
    · exact List.forall_mem_nil _
  | some r =>
    dsimp only
    split
    · exact List.forall_mem_nil _
    · have passed := references_named permitted found
      rintro part (_ | ⟨_, _ | ⟨_, ⟨⟩⟩⟩)
      · exact here_conducts ready ⟨inner, passed⟩ (.inr (size ▸ Nat.lt_succ_self _))
      · refine (bindArguments_conducts (enterAt_conducts routines a.calls) line callee r.params es ready
          inner passed).bind fun bindings t _ _ readyT bound => ?_
        split
        next room =>
          refine (openFrame_conducts readyT r.params bound).bind fun frame u _ _ readyU inside => ?_
          refine conducts_pure readyU ?_
          rintro entry ⟨⟩
          exact ⟨routines r (routine_mem found), ⟨frame, _, rfl, inside⟩, .inl ⟨rfl, room⟩⟩
        next => exact none_conducts readyT

/-- The parts of a FOR statement: what its header is made of, one after the other, and its loop. -/
theorem forParts_conduct {place : Position} {counter : Option String} {start stop step : Option Expr}
    {body : List Stmt} (ready : s.Ready P ctx) (counted : a.state.steps < s.steps)
    (startObeys : ∀ e ∈ start, e.Obeys P) (stopObeys : ∀ e ∈ stop, e.Obeys P)
    (stepObeys : ∀ e ∈ step, e.Obeys P) (bodyObeys : ∀ stmt ∈ body, stmt.Obeys P) :
    ∀ part ∈ stmtParts ctx a.calls (.forLoop place counter start stop step body),
      Conducts P ctx a s part := by
  have bound (part : ForPart) {e : Option Expr} (inner : ∀ e' ∈ e, e'.Obeys P) {t : RunState}
      (readyT : t.Ready P ctx) : Run.Conducts P ctx t (do
        forBound place.line part (← evalPresent ctx (enterAt ctx a.calls) e)) (fun _ _ => True) :=
    (evalPresent_conducts (enterAt_conducts routines a.calls) readyT inner).bind
      fun v _ _ _ readyU _ => forBound_conducts readyU place.line part v
  have looped (last stride first : Number) {t : RunState} (readyT : t.Ready P ctx)
      (counted : a.state.steps < t.steps) :
      Conducts P ctx a t (do
        let opened ← openCounter place.line counter first stride
        return some ⟨a.calls, opened.1 :: (← get).env,
          .forLoop place.line opened.2 last stride body⟩) := by
    refine (openCounter_conducts readyT place.line counter first stride).bind
      fun opened u later _ readyU inside => conducts_get (conducts_pure readyU ?_)
    rintro entry ⟨⟩
    exact ⟨bodyObeys, ⟨opened.1, _, rfl, inside⟩, .inr ⟨rfl, .inl (counted_later counted later)⟩⟩
  rintro part (_ | ⟨_, _ | ⟨_, _ | ⟨_, _ | ⟨_, ⟨⟩⟩⟩⟩⟩)
  · exact present_conducts ready startObeys (.inl counted)
  · refine (bound .start startObeys ready).discard.bind fun _ t later _ readyT _ => ?_
    exact present_conducts readyT stopObeys (.inl (counted_later counted later))
  · refine (bound .start startObeys ready).discard.bind fun _ t laterT _ readyT _ => ?_
    refine (bound .stop stopObeys readyT).discard.bind fun _ u laterU _ readyU _ => ?_
    exact present_conducts readyU stepObeys (.inl (counted_later counted (laterT.trans laterU)))
  · refine (bound .start startObeys ready).bind fun first t laterT _ readyT _ => ?_
    refine (bound .stop stopObeys readyT).bind fun last u laterU _ readyU _ => ?_
    have counted := counted_later counted (laterT.trans laterU)
    cases step with
    | none => exact looped last (.integer 1) first readyU counted
    | some e =>
      refine (bound .step stepObeys readyU).bind fun stride w laterW _ readyW _ => ?_
      exact looped last stride first readyW (counted_later counted laterW)

theorem stmtParts_conduct {stmt : Stmt} (ready : s.Ready P ctx) (obeys : stmt.Obeys P)
    (counted : a.state.steps < s.steps) :
    ∀ part ∈ stmtParts ctx a.calls stmt, Conducts P ctx a s part := by
  have enters : EnterConducts P ctx (enterAt ctx a.calls) := enterAt_conducts routines a.calls
  cases obeys with
  | declare | declareArray | routine | strayCall | stray => exact List.forall_mem_nil _
  | @constant value place name inner =>
    rintro part (_ | ⟨_, ⟨⟩⟩)
    exact present_conducts ready inner (.inl counted)
  | @assign place target value targetObeys valueObeys =>
    rintro part (_ | ⟨_, _ | ⟨_, ⟨⟩⟩⟩)
    · exact here_conducts ready valueObeys (.inl counted)
    · refine (eval_conducts enters value ready valueObeys).discard.bind fun _ t later _ readyT _ => ?_
      exact targetParts_conducts readyT place.line targetObeys (counted_later counted later)
  | @ifThen condition thenBranch elseBranch place inner thenObeys elseObeys =>
    rintro part (_ | ⟨_, _ | ⟨_, ⟨⟩⟩⟩)
    · exact present_conducts ready inner (.inl counted)
    · refine (test_conducts routines ready a.calls .IF place.line inner).bind
        fun holds t later _ readyT _ => ?_
      have counted := counted_later counted later
      cases holds with
      | true => exact here_conducts readyT thenObeys (.inl counted)
      | false => exact otherwise_conducts readyT elseObeys counted
  | @whileDo condition body place inner bodyObeys =>
    rintro part (_ | ⟨_, ⟨⟩⟩)
    exact here_conducts ready ⟨inner, bodyObeys⟩ (.inl counted)
  | @repeatUntil body condition place bodyObeys inner =>
    rintro part (_ | ⟨_, ⟨⟩⟩)
    exact here_conducts ready ⟨inner, bodyObeys⟩ (.inl counted)
  | forLoop startObeys stopObeys stepObeys bodyObeys =>
    exact forParts_conduct routines ready counted startObeys stopObeys stepObeys bodyObeys
  | @caseOf selector branches otherwise place inner labelsObey branchesObey otherwiseObeys =>
    rintro part (_ | ⟨_, _ | ⟨_, _ | ⟨_, ⟨⟩⟩⟩⟩)
    · exact present_conducts ready inner (.inl counted)
    · refine (evalPresent_conducts enters ready inner).bind fun v t later _ readyT _ => ?_
      exact here_conducts readyT ⟨labelsObey, branchesObey⟩ (.inl (counted_later counted later))
    · refine (evalPresent_conducts enters ready inner).bind fun v t laterT _ readyT _ => ?_
      refine (execBranches_conducts enters _ place.line v branches readyT labelsObey
        branchesObey).bind fun taken u laterU _ readyU _ => ?_
      cases taken with
      | some c => exact none_conducts readyU
      | none =>
        exact otherwise_conducts readyU otherwiseObeys (counted_later counted (laterT.trans laterU))
  | @giveBack value place inner =>
    dsimp only [stmtParts]
    split
    · exact List.forall_mem_nil _
    · rintro part (_ | ⟨_, ⟨⟩⟩)
      exact present_conducts ready inner (.inl counted)
  | @call callee arguments place callPlace permitted inner =>
    rintro part (_ | ⟨_, ⟨⟩⟩)
    exact here_conducts ready ⟨permitted, inner⟩ (.inl counted)
  | @output values place inner =>
    rintro part (_ | ⟨_, ⟨⟩⟩)
    exact here_conducts ready inner (.inl counted)
  | @input place target inner =>
    rintro part (_ | ⟨_, ⟨⟩⟩)
    refine (readInput_conducts ready place.line target).discard.bind fun _ t later _ readyT _ => ?_
    exact targetParts_conducts readyT place.line inner (counted_later counted later)

theorem labelParts_conduct {label : Expr} {rest : List Expr} (ready : s.Ready P ctx)
    (same : a.task = .labels line selector (label :: rest)) (obeys : label.Obeys P) :
    ∀ part ∈ labelParts ctx a.calls label, Conducts P ctx a s part := by
  have size : sizeOf label < a.task.size := by
    rw [same]
    exact sizeOf_head label rest
  unfold labelParts
  split
  next place low high =>
    rw [Expr.range.sizeOf_spec] at size
    cases obeys with
    | range lowObeys highObeys =>
      rintro part (_ | ⟨_, _ | ⟨_, ⟨⟩⟩⟩)
      · exact here_conducts ready lowObeys (.inr (show sizeOf low < _ by omega))
      · refine (eval_conducts (enterAt_conducts routines a.calls) low ready lowObeys).discard.bind
          fun _ t _ _ readyT _ => ?_
        exact here_conducts readyT highObeys (.inr (show sizeOf high < _ by omega))
  next =>
    rintro part (_ | ⟨_, ⟨⟩⟩)
    exact here_conducts ready obeys (.inr size)

/-- A round of a loop: unless the body gives back a value, a step is counted before it goes on. -/
theorem round_conducts (ready : s.Ready P ctx) (later : a.state.Later P ctx s) (line : Nat)
    {body : List Stmt} (bodyObeys : ∀ stmt ∈ body, stmt.Obeys P) {next : Run (Option Entry)}
    (follows : ∀ t, t.Ready P ctx → a.state.steps < t.steps → Conducts P ctx a t next) :
    Conducts P ctx a s (do
      match ← execBlock ctx (enterAt ctx a.calls) (!a.calls.isEmpty) body with
      | .returned .. => return none
      | .normal =>
        tick ctx line
        next) := by
  refine (execBlock_conducts (enterAt_conducts routines a.calls) _ body ready bodyObeys).bind
    fun c t laterT _ readyT _ => ?_
  cases c with
  | returned => exact none_conducts readyT
  | normal =>
    refine (tick_conducts readyT line).bind fun _ u _ _ readyU count => ?_
    exact follows u readyU (counted_tick (later.trans laterT) count)

section Loops

variable (ready : a.state.Ready P ctx) {condition : Option Expr} {body : List Stmt}

include ready

theorem whileParts_conduct (same : a.task = .whileLoop line condition body)
    (inner : ∀ e ∈ condition, e.Obeys P) (bodyObeys : ∀ stmt ∈ body, stmt.Obeys P) :
    ∀ part ∈ all ctx a.calls (.whileLoop line condition body), Conducts P ctx a a.state part := by
  have size : a.task.size = sizeOf condition + sizeOf body := by rw [same]; rfl
  have tests := test_conducts routines ready a.calls .WHILE line inner
  rintro part (_ | ⟨_, _ | ⟨_, _ | ⟨_, ⟨⟩⟩⟩⟩)
  · exact present_conducts ready inner (.inr (size ▸ Nat.le_add_right ..))
  · refine tests.bind fun holds t _ _ readyT _ => ?_
    cases holds with
    | false => exact none_conducts readyT
    | true => exact here_conducts readyT bodyObeys (.inr (size ▸ sizeOf_body condition body))
  · refine tests.bind fun holds t later _ readyT _ => ?_
    cases holds with
    | false => exact none_conducts readyT
    | true =>
      refine round_conducts routines readyT later line bodyObeys fun u readyU counted => ?_
      exact here_conducts readyU ⟨inner, bodyObeys⟩ (.inl counted)

theorem repeatParts_conduct (same : a.task = .repeatLoop line body condition)
    (inner : ∀ e ∈ condition, e.Obeys P) (bodyObeys : ∀ stmt ∈ body, stmt.Obeys P) :
    ∀ part ∈ all ctx a.calls (.repeatLoop line body condition), Conducts P ctx a a.state part := by
  have size : a.task.size = sizeOf condition + sizeOf body := by rw [same]; rfl
  rintro part (_ | ⟨_, _ | ⟨_, _ | ⟨_, ⟨⟩⟩⟩⟩)
  · exact here_conducts ready bodyObeys (.inr (size ▸ sizeOf_body condition body))
  · refine round_conducts routines ready (.refl _) line bodyObeys fun t readyT counted => ?_
    exact present_conducts readyT inner (.inl counted)
  · refine round_conducts routines ready (.refl _) line bodyObeys fun t readyT counted => ?_
    refine (test_conducts routines readyT a.calls .UNTIL line inner).bind
      fun holds u later _ readyU _ => ?_
    cases holds with
    | true => exact none_conducts readyU
    | false => exact here_conducts readyU ⟨inner, bodyObeys⟩ (.inl (counted_later counted later))

theorem countedParts_conduct (same : a.task = .forLoop line counter last step body)
    (bodyObeys : ∀ stmt ∈ body, stmt.Obeys P) :
    ∀ part ∈ all ctx a.calls (.forLoop line counter last step body),
      Conducts P ctx a a.state part := by
  have size : a.task.size = sizeOf body + 1 := by rw [same]; rfl
  rintro part (_ | ⟨_, _ | ⟨_, ⟨⟩⟩⟩)
  · refine conducts_get ?_
    split
    · exact none_conducts ready
    · exact here_conducts ready bodyObeys (.inr (size ▸ Nat.lt_succ_self _))
  · refine conducts_get ?_
    split
    · exact none_conducts ready
    · refine round_conducts routines ready (.refl _) line bodyObeys fun t readyT counted => ?_
      refine (advance_conducts readyT line counter step).bind fun _ u later _ readyU _ => ?_
      exact here_conducts readyU bodyObeys (.inl (counted_later counted later))

end Loops

/-- Whatever is done before a part of an activity begins, the part follows from the activity. -/
theorem all_conduct (ready : a.state.Ready P ctx) (obeys : a.task.Obeys P ctx) :
    ∀ part ∈ all ctx a.calls a.task, Conducts P ctx a a.state part := by
  have enters : EnterConducts P ctx (enterAt ctx a.calls) := enterAt_conducts routines a.calls
  obtain ⟨calls, task, s⟩ := a
  cases task with
  | expr e => exact exprParts_conduct routines rfl ready obeys
  | exprs es =>
    cases es with
    | nil => nofun
    | cons e rest =>
      have first := obeys e (.head _)
      rintro part (_ | ⟨_, _ | ⟨_, ⟨⟩⟩⟩)
      · exact here_conducts ready first (.inr (sizeOf_head e rest))
      · refine (eval_conducts enters e ready first).discard.bind fun _ t _ _ readyT _ => ?_
        exact here_conducts readyT (fun e member => obeys e (.tail _ member))
          (.inr (sizeOf_tail e rest))
  | indices line es =>
    cases es with
    | nil => nofun
    | cons e rest =>
      have first := obeys e (.head _)
      rintro part (_ | ⟨_, _ | ⟨_, ⟨⟩⟩⟩)
      · exact here_conducts ready first (.inr (sizeOf_head e rest))
      · refine (eval_conducts enters e ready first).bind fun v t _ _ readyT _ => ?_
        refine (indexValue_conducts readyT line v).discard.bind fun _ u _ _ readyU _ => ?_
        exact here_conducts readyU (fun e member => obeys e (.tail _ member))
          (.inr (sizeOf_tail e rest))
  | arguments line callee params es =>
    obtain ⟨inner, passed⟩ := obeys
    cases params with
    | nil => nofun
    | cons param params =>
      cases es with
      | nil => nofun
      | cons e rest =>
        have first := inner e (.head _)
        rintro part (_ | ⟨_, _ | ⟨_, ⟨⟩⟩⟩)
        · split
          · exact none_conducts ready
          · exact here_conducts ready first (.inr (sizeOf_head e rest))
        · refine (bindArgument_conducts ready line callee param (passed (param, e) (.head _))
            (eval_conducts enters e ready first)).discard.bind fun _ t _ _ readyT _ => ?_
          exact here_conducts readyT ⟨fun e member => inner e (.tail _ member),
            fun pair member => passed pair (.tail _ member)⟩ (.inr (sizeOf_tail e rest))
  | call asValue line callee es =>
    exact callParts_conduct routines rfl ready obeys.1 obeys.2
  | shown line es =>
    cases es with
    | nil => nofun
    | cons e rest =>
      have first := obeys e (.head _)
      rintro part (_ | ⟨_, _ | ⟨_, ⟨⟩⟩⟩)
      · exact here_conducts ready first (.inr (sizeOf_head e rest))
      · refine (eval_conducts enters e ready first).bind fun v t _ _ readyT lives => ?_
        refine (shown_conducts readyT lives line).discard.bind fun _ u _ _ readyU _ => ?_
        exact here_conducts readyU (fun e member => obeys e (.tail _ member))
          (.inr (sizeOf_tail e rest))
  | labels line selector es =>
    cases es with
    | nil => nofun
    | cons label rest =>
      have first := obeys label (.head _)
      intro part member
      obtain inLabel | last := List.mem_append.mp member
      · exact labelParts_conduct routines ready rfl first part inLabel
      · cases List.mem_singleton.mp last
        refine (labelMatches_conducts enters ready line selector first).bind
          fun taken t _ _ readyT _ => ?_
        cases taken with
        | true => exact none_conducts readyT
        | false =>
          exact here_conducts readyT (fun e member => obeys e (.tail _ member))
            (.inr (sizeOf_tail label rest))
  | stmt stmt =>
    intro part member
    obtain ⟨rest, inStmt, rfl⟩ := List.mem_map.mp member
    rw [seqRight_eq_bind]
    refine (begins_conducts ready stmt).bind fun _ t _ _ readyT counted => ?_
    exact stmtParts_conduct routines readyT obeys counted rest inStmt
  | block ss =>
    cases ss with
    | nil => nofun
    | cons stmt rest =>
      have first := obeys stmt (.head _)
      rintro part (_ | ⟨_, _ | ⟨_, ⟨⟩⟩⟩)
      · exact here_conducts ready first (.inr (sizeOf_head stmt rest))
      · refine (exec_conducts enters _ stmt ready first).bind fun c t _ _ readyT _ => ?_
        cases c with
        | returned => exact none_conducts readyT
        | normal =>
          exact here_conducts readyT (fun s member => obeys s (.tail _ member))
            (.inr (sizeOf_tail stmt rest))
  | branches line selector bs =>
    obtain ⟨labelsObey, bodiesObey⟩ := obeys
    cases bs with
    | nil => nofun
    | cons b rest =>
      have smaller : sizeOf b < sizeOf (b :: rest) := sizeOf_head b rest
      obtain ⟨labels, body, branchLine⟩ := b
      rw [Branch.mk.sizeOf_spec] at smaller
      rintro part (_ | ⟨_, _ | ⟨_, ⟨⟩⟩⟩)
      · exact here_conducts ready (labelsObey _ (.head _)) (.inr (show sizeOf labels < _ by
          exact Nat.lt_of_le_of_lt (by omega) smaller))
      · refine (anyLabelMatches_conducts enters _ selector labels ready (labelsObey _ (.head _))).bind
          fun taken t _ _ readyT _ => ?_
        cases taken with
        | true =>
          exact here_conducts readyT (bodiesObey _ (.head _)) (.inr (show sizeOf body < _ by
            exact Nat.lt_of_le_of_lt (by omega) smaller))
        | false =>
          exact here_conducts readyT ⟨fun b member => labelsObey b (.tail _ member),
            fun b member => bodiesObey b (.tail _ member)⟩ (.inr (sizeOf_tail _ rest))
  | whileLoop line condition body =>
    exact whileParts_conduct routines ready rfl obeys.1 obeys.2
  | repeatLoop line body condition =>
    exact repeatParts_conduct routines ready rfl obeys.1 obeys.2
  | forLoop line counter last step body =>
    exact countedParts_conduct routines ready rfl obeys

end

end Parts

namespace Task

open Run Parts

variable {P : Policy} {ctx : RunContext} {s : RunState}

/-- The code conducts itself like the computations that it is carried out with. -/
theorem run_conducts (routines : ∀ r ∈ ctx.routines, ∀ stmt ∈ r.body, stmt.Obeys P)
    (calls : List (Routine Stmt)) (ready : s.Ready P ctx) {task : Task} (obeys : task.Obeys P ctx) :
    Run.Conducts P ctx s (task.run ctx calls) (fun _ _ => True) := by
  have enters : EnterConducts P ctx (enterAt ctx calls) := enterAt_conducts routines calls
  have bodies {body : List Stmt} (bodyObeys : ∀ stmt ∈ body, stmt.Obeys P) :
      BodyConducts P ctx s (execBlock ctx (enterAt ctx calls) (!calls.isEmpty) body) :=
    fun t _ _ readyT => execBlock_conducts enters _ body readyT bodyObeys
  have tests (keyword : Keyword) (line : Nat) {condition : Option Expr}
      (inner : ∀ e ∈ condition, e.Obeys P) :
      TestConducts P ctx s (test ctx calls keyword line condition) :=
    fun t _ _ readyT => test_conducts routines readyT calls keyword line inner
  cases task with
  | expr e => exact (eval_conducts enters e ready obeys).discard
  | exprs es => exact (evalAll_conducts enters es ready obeys).discard
  | indices line es => exact (evalIndices_conducts enters line es ready obeys).discard
  | arguments line callee params es =>
    exact (bindArguments_conducts enters line callee params es ready obeys.1 obeys.2).discard
  | call asValue line callee es =>
    exact (call_conducts enters ready obeys.1 line (evalAll_conducts enters es ready obeys.2)
      fun params => bindArguments_conducts enters line callee params es ready obeys.2).discard
  | shown line es => exact (evalShown_conducts enters line es ready obeys).discard
  | labels line selector es =>
    exact (anyLabelMatches_conducts enters line selector es ready obeys).discard
  | stmt stmt => exact (exec_conducts enters _ stmt ready obeys).discard
  | block ss => exact (execBlock_conducts enters _ ss ready obeys).discard
  | branches line selector bs =>
    exact (execBranches_conducts enters _ line selector bs ready obeys.1 obeys.2).discard
  | whileLoop line condition body =>
    exact conducts_roundsLeft fun enough =>
      (whileLoop_conducts ready (tests .WHILE line obeys.1) (bodies obeys.2) enough).discard
  | repeatLoop line body condition =>
    exact conducts_roundsLeft fun enough =>
      (repeatLoop_conducts ready (tests .UNTIL line obeys.1) (bodies obeys.2) enough).discard
  | forLoop line counter last step body =>
    exact conducts_roundsLeft fun enough =>
      (forLoop_conducts ready counter last step (bodies obeys) enough).discard

end Task

namespace Activity

variable {P : Policy} {ctx : RunContext} {a b : Activity}

/-- An activity of a run that is in order. -/
structure Sound (P : Policy) (ctx : RunContext) (a : Activity) : Prop where
  ready : a.state.Ready P ctx
  obeys : a.task.Obeys P ctx
  depth : a.calls.length ≤ ctx.settings.limits.maxCallDepth

theorem Sound.stmt (sound : a.Sound P ctx) {stmt : Stmt} (task : a.task = .stmt stmt) :
    stmt.Obeys P := by
  have obeys := sound.obeys
  rw [task] at obeys
  exact obeys

/-- What an activity has before it: calls that may still be made, steps that are left, and code. -/
noncomputable def measure (ctx : RunContext) (a : Activity) : Nat ×ₗ Nat ×ₗ Nat :=
  toLex (ctx.settings.limits.maxCallDepth - a.calls.length,
    toLex (ctx.settings.limits.maxSteps - a.state.steps, a.task.size))

section

variable (routines : ∀ r ∈ ctx.routines, ∀ stmt ∈ r.body, stmt.Obeys P)

include routines

/-- What an activity leads to. -/
theorem Leads.cases (leads : Leads ctx a b) (sound : a.Sound P ctx) :
    b.state.Ready P ctx ∧ a.state.Later P ctx b.state ∧ b.task.Obeys P ctx ∧
      (b.calls.length = a.calls.length + 1 ∧ b.calls.length ≤ ctx.settings.limits.maxCallDepth ∨
        b.calls = a.calls ∧ (a.state.steps < b.state.steps ∨ b.task.size < a.task.size)) := by
  obtain ⟨part, member, entry, t, began, rfl⟩ := leads
  obtain ⟨later, -, ready, follows⟩ :=
    (Parts.all_conduct routines sound.ready sound.obeys part member).of_ok began
  have follows := follows entry rfl
  exact ⟨⟨ready.memory, follows.opens, ready.steps⟩, ⟨later.memory, later.steps⟩, follows.obeys, follows.less⟩

theorem Leads.sound (leads : Leads ctx a b) (sound : a.Sound P ctx) : b.Sound P ctx := by
  obtain ⟨ready, -, obeys, ⟨-, deep⟩ | ⟨same, -⟩⟩ := leads.cases routines sound
  · exact ⟨ready, obeys, deep⟩
  · exact ⟨ready, obeys, same ▸ sound.depth⟩

theorem Leads.later (leads : Leads ctx a b) (sound : a.Sound P ctx) : a.state.Later P ctx b.state :=
  (leads.cases routines sound).2.1

theorem Leads.measure_lt (leads : Leads ctx a b) (sound : a.Sound P ctx) :
    b.measure ctx < a.measure ctx := by
  obtain ⟨ready, later, -, less⟩ := leads.cases routines sound
  have within := ready.steps
  have steps := later.steps
  simp only [measure, Prod.Lex.toLex_lt_toLex]
  obtain ⟨deeper, deep⟩ | ⟨same, counted | smaller⟩ := less
  · exact .inl (by omega)
  · exact .inr ⟨by rw [same], .inl (by omega)⟩
  · refine .inr ⟨by rw [same], ?_⟩
    by_cases counted : a.state.steps < b.state.steps
    · exact .inl (by omega)
    · exact .inr ⟨by omega, smaller⟩

theorem Reaches.sound (reaches : Reaches ctx a b) (sound : a.Sound P ctx) : b.Sound P ctx := by
  induction reaches with
  | refl => exact sound
  | tail _ leads ih => exact leads.sound routines ih

theorem Reaches.later (reaches : Reaches ctx a b) (sound : a.Sound P ctx) :
    a.state.Later P ctx b.state := by
  induction reaches with
  | refl => exact .refl _
  | tail reached leads ih =>
    exact ih.trans (leads.later routines (Reaches.sound routines reached sound))

/-- An activity cannot lead from part to part for ever. -/
theorem Sound.accessible (sound : a.Sound P ctx) : Acc (fun b a => Leads ctx a b) a := by
  induction measured : a.measure ctx using WellFoundedLT.induction generalizing a with
  | ind size ih =>
    refine .intro a fun b leads => ?_
    exact ih _ (measured ▸ leads.measure_lt routines sound) (leads.sound routines sound) rfl

end

theorem start_sound {p : Program} (obeys : p.Obeys P) (settings : Settings) (host : Host) :
    (start p settings).Sound P (p.context settings host) where
  ready := Run.initial_ready settings host p
  obeys := obeys.body
  depth := Nat.zero_le _

end Activity

end Pseudocode
