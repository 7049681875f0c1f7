import Pseudocode.Proofs.Traversal

/-! What a run is doing at a moment. An activity is a piece of code that is being carried out, with the
state in which that began and the routines that were active then. `Parts.all` lists the pieces of a
piece: for each what is done before it begins, which may leave it out. Loops have no bound here, a round
leads to the next. -/
namespace Pseudocode

/-- A piece of code that is carried out as a whole. -/
inductive Task where
  | expr (e : Expr)
  | exprs (es : List Expr)
  | indices (line : Nat) (es : List Expr)
  | arguments (line : Nat) (callee : String) (params : List Param) (es : List Expr)
  | call (asValue : Bool) (line : Nat) (callee : String) (arguments : List Expr)
  | shown (line : Nat) (es : List Expr)
  | labels (line : Nat) (selector : Value) (es : List Expr)
  | stmt (s : Stmt)
  | block (ss : List Stmt)
  | branches (line : Nat) (selector : Value) (bs : List (Branch Stmt))
  | whileLoop (line : Nat) (condition : Option Expr) (body : List Stmt)
  | repeatLoop (line : Nat) (body : List Stmt) (condition : Option Expr)
  | forLoop (line : Nat) (counter : BindingId) (last step : Number) (body : List Stmt)

/-- A piece of code about to begin, with the active calls and the environment it begins in. -/
structure Entry where
  calls : List (Routine Stmt)
  env : Environment
  task : Task

namespace Parts

open Run

variable (ctx : RunContext) (calls : List (Routine Stmt))

/-- Entering routines while these calls are active. -/
def enterAt : Enter := enter ctx (ctx.settings.limits.maxCallDepth - calls.length)

/-- The piece begins here. -/
def here (task : Task) : Run (Option Entry) := return some ⟨calls, (← get).env, task⟩

/-- The expression is evaluated, if it is there. -/
def present : Option Expr → Run (Option Entry)
  | none => return none
  | some e => here calls (.expr e)

/-- The block is executed, if it is there. -/
def otherwise : Option (List Stmt) → Run (Option Entry)
  | none => return none
  | some block => here calls (.block block)

/-- The indices of an element that is stored into. -/
def targetParts (line : Nat) : Target → Run (Option Entry)
  | .element _ name es => do
    discard <| arrayNamed line name
    here calls (.indices line es)
  | _ => return none

def test (keyword : Keyword) (line : Nat) (condition : Option Expr) : Run Bool := do
  conditionValue keyword line (← evalPresent ctx (enterAt ctx calls) condition)

/-- The parts of an expression. -/
def exprParts : Expr → List (Run (Option Entry))
  | .element place array es => [do
      discard <| arrayNamed place.line array
      here calls (.indices place.line es)]
  | .binary place op left right =>
    [here calls (.expr left), do
      let l ← eval ctx (enterAt ctx calls) left
      if op.isLogical then
        if (← truth op.text place.line l) = (op = .or) then return none
        else here calls (.expr right)
      else here calls (.expr right)]
  | .unary _ _ operand => [here calls (.expr operand)]
  | .call place callee arguments => [here calls (.call true place.line callee arguments)]
  | _ => []

/-- The parts of a call: its arguments, and the body of the routine in a frame of its own. -/
def callParts (asValue : Bool) (line : Nat) (callee : String) (arguments : List Expr) :
    List (Run (Option Entry)) :=
  match ctx.routine? callee with
  | none => if (Builtin.ofName? callee).isSome then [here calls (.exprs arguments)] else []
  | some r =>
    if asValue ∧ r.kind = .procedure ∨ arguments.length ≠ r.params.length then []
    else
      [here calls (.arguments line callee r.params arguments), do
        let bindings ← bindArguments ctx (enterAt ctx calls) line callee r.params arguments
        if calls.length < ctx.settings.limits.maxCallDepth then
          let frame ← openFrame r.params bindings
          return some ⟨r :: calls, frame :: Memory.globals, .block r.body⟩
        else return none]

/-- A call that is made here. -/
def callHere (asValue : Bool) (line : Nat) (callee : String) (arguments : List Expr) : Run Value :=
  Run.call ctx (enterAt ctx calls) asValue line callee arguments.length
    (evalAll ctx (enterAt ctx calls) arguments)
    fun params => bindArguments ctx (enterAt ctx calls) line callee params arguments

/-- The parts of a label of a CASE statement. -/
def labelParts : Expr → List (Run (Option Entry))
  | .range _ low high =>
    [here calls (.expr low), do
      discard <| eval ctx (enterAt ctx calls) low
      here calls (.expr high)]
  | label => [here calls (.expr label)]

/-- The parts of a statement that has begun. -/
def stmtParts : Stmt → List (Run (Option Entry))
  | .constant _ _ value => [present calls value]
  | .assign place target value =>
    [here calls (.expr value), do
      discard <| eval ctx (enterAt ctx calls) value
      targetParts calls place.line target]
  | .ifThen place condition thenBranch elseBranch =>
    [present calls condition, do
      if ← test ctx calls .IF place.line condition then here calls (.block thenBranch)
      else otherwise calls elseBranch]
  | .whileDo place condition body => [here calls (.whileLoop place.line condition body)]
  | .repeatUntil place body condition => [here calls (.repeatLoop place.line body condition)]
  | .forLoop place counter start last step body =>
    let bound (part : ForPart) (e : Option Expr) : Run Number := do
      forBound place.line part (← evalPresent ctx (enterAt ctx calls) e)
    [present calls start, do
      discard <| bound .start start
      present calls last, do
      discard <| bound .start start
      discard <| bound .stop last
      present calls step, do
      let first ← bound .start start
      let last ← bound .stop last
      let stride ← match step with
        | none => pure (.integer 1)
        | some e => bound .step (some e)
      let (frame, id) ← openCounter place.line counter first stride
      return some ⟨calls, frame :: (← get).env, .forLoop place.line id last stride body⟩]
  | .caseOf place selector branches alternative =>
    [present calls selector, do
      let v ← evalPresent ctx (enterAt ctx calls) selector
      here calls (.branches place.line v branches), do
      let v ← evalPresent ctx (enterAt ctx calls) selector
      match ← execBranches ctx (enterAt ctx calls) (!calls.isEmpty) place.line v branches with
      | some _ => return none
      | none => otherwise calls alternative]
  | .giveBack _ value => if calls.isEmpty then [] else [present calls value]
  | .call _ place callee arguments => [here calls (.call false place.line callee arguments)]
  | .output place values => [here calls (.shown place.line values)]
  | .input place target => [do
      discard <| readInput ctx place.line target
      targetParts calls place.line target]
  | _ => []

/-- The parts of a piece of code, each as what is done before it begins. -/
def all : Task → List (Run (Option Entry))
  | .expr e => exprParts ctx calls e
  | .exprs (e :: es) =>
    [here calls (.expr e), do
      discard <| eval ctx (enterAt ctx calls) e
      here calls (.exprs es)]
  | .indices line (e :: es) =>
    [here calls (.expr e), do
      discard <| indexValue line (← eval ctx (enterAt ctx calls) e)
      here calls (.indices line es)]
  | .arguments line callee (param :: params) (e :: es) =>
    [if param.mode = .byReference then return none else here calls (.expr e), do
      discard <| bindArgument line callee param e (eval ctx (enterAt ctx calls) e)
      here calls (.arguments line callee params es)]
  | .call asValue line callee arguments => callParts ctx calls asValue line callee arguments
  | .shown line (e :: es) =>
    [here calls (.expr e), do
      discard <| Run.shown ctx line (← eval ctx (enterAt ctx calls) e)
      here calls (.shown line es)]
  | .labels line selector (label :: rest) =>
    labelParts ctx calls label ++ [do
      if ← labelMatches ctx (enterAt ctx calls) line selector label then return none
      else here calls (.labels line selector rest)]
  | .stmt s => (stmtParts ctx calls s).map (begins ctx s *> ·)
  | .block (s :: rest) =>
    [here calls (.stmt s), do
      match ← exec ctx (enterAt ctx calls) (!calls.isEmpty) s with
      | .returned .. => return none
      | .normal => here calls (.block rest)]
  | .branches line selector (⟨labels, body, branchLine⟩ :: rest) =>
    let labelLine := if branchLine = 0 then line else branchLine
    [here calls (.labels labelLine selector labels), do
      if ← anyLabelMatches ctx (enterAt ctx calls) labelLine selector labels then
        here calls (.block body)
      else here calls (.branches line selector rest)]
  | .whileLoop line condition body =>
    [present calls condition, do
      if ← test ctx calls .WHILE line condition then here calls (.block body) else return none, do
      if ← test ctx calls .WHILE line condition then
        match ← execBlock ctx (enterAt ctx calls) (!calls.isEmpty) body with
        | .returned .. => return none
        | .normal =>
          tick ctx line
          here calls (.whileLoop line condition body)
      else return none]
  | .repeatLoop line body condition =>
    [here calls (.block body), do
      match ← execBlock ctx (enterAt ctx calls) (!calls.isEmpty) body with
      | .returned .. => return none
      | .normal =>
        tick ctx line
        present calls condition, do
      match ← execBlock ctx (enterAt ctx calls) (!calls.isEmpty) body with
      | .returned .. => return none
      | .normal =>
        tick ctx line
        if ← test ctx calls .UNTIL line condition then return none
        else here calls (.repeatLoop line body condition)]
  | .forLoop line counter last step body =>
    let ended : Run Bool := return (← counterValue counter).number?.any (pastEnd · last step)
    [do if ← ended then return none else here calls (.block body), do
      if ← ended then return none
      else
        match ← execBlock ctx (enterAt ctx calls) (!calls.isEmpty) body with
        | .returned .. => return none
        | .normal =>
          tick ctx line
          advance line counter step
          here calls (.forLoop line counter last step body)]
  | _ => []

end Parts

/-- A piece of code being carried out: the active calls, innermost first, the code, and the state in
which it began. -/
structure Activity where
  calls : List (Routine Stmt)
  task : Task
  state : RunState

namespace Activity

/-- One activity is carried out as a part of another. -/
def Leads (ctx : RunContext) (a b : Activity) : Prop :=
  ∃ part ∈ Parts.all ctx a.calls a.task, ∃ entry t, part a.state = .ok (some entry) t ∧
    b = ⟨entry.calls, entry.task, { t with env := entry.env }⟩

/-- One activity is carried out in the course of another. -/
abbrev Reaches (ctx : RunContext) : Activity → Activity → Prop := Relation.ReflTransGen (Leads ctx)

/-- The activity of running a program. -/
def start (p : Program) (settings : Settings) : Activity := ⟨[], .block p.body, .initial settings⟩

end Activity

namespace Task

/-- The size of the code, which is less for each part of it. -/
noncomputable def size : Task → Nat
  | .expr e => sizeOf e
  | .exprs es | .indices _ es | .arguments _ _ _ es | .shown _ es | .labels _ _ es => sizeOf es
  | .call _ _ _ es => sizeOf es + 1
  | .stmt s => sizeOf s
  | .block ss => sizeOf ss
  | .branches _ _ bs => sizeOf bs
  | .whileLoop _ condition body | .repeatLoop _ body condition => sizeOf condition + sizeOf body
  | .forLoop _ _ _ _ body => sizeOf body + 1

open Run Parts in
/-- Carries out the code, whatever it answers. -/
def run (ctx : RunContext) (calls : List (Routine Stmt)) : Task → Run Unit
  | .expr e => discard <| eval ctx (enterAt ctx calls) e
  | .exprs es => discard <| evalAll ctx (enterAt ctx calls) es
  | .indices line es => discard <| evalIndices ctx (enterAt ctx calls) line es
  | .arguments line callee params es =>
    discard <| bindArguments ctx (enterAt ctx calls) line callee params es
  | .call asValue line callee es => discard <| callHere ctx calls asValue line callee es
  | .shown line es => discard <| evalShown ctx (enterAt ctx calls) line es
  | .labels line selector es => discard <| anyLabelMatches ctx (enterAt ctx calls) line selector es
  | .stmt s => discard <| exec ctx (enterAt ctx calls) (!calls.isEmpty) s
  | .block ss => discard <| execBlock ctx (enterAt ctx calls) (!calls.isEmpty) ss
  | .branches line selector bs =>
    discard <| execBranches ctx (enterAt ctx calls) (!calls.isEmpty) line selector bs
  | .whileLoop line condition body => do
    discard <| Run.whileLoop ctx line (test ctx calls .WHILE line condition)
      (execBlock ctx (enterAt ctx calls) (!calls.isEmpty) body) (← roundsLeft ctx)
  | .repeatLoop line body condition => do
    discard <| Run.repeatLoop ctx line (execBlock ctx (enterAt ctx calls) (!calls.isEmpty) body)
      (test ctx calls .UNTIL line condition) (← roundsLeft ctx)
  | .forLoop line counter last step body => do
    discard <| Run.forLoop ctx line counter last step
      (execBlock ctx (enterAt ctx calls) (!calls.isEmpty) body) (← roundsLeft ctx)

/-- The code obeys a policy. -/
def Obeys (P : Policy) (ctx : RunContext) : Task → Prop
  | .expr e => e.Obeys P
  | .exprs es | .indices _ es | .shown _ es | .labels _ _ es => ∀ e ∈ es, e.Obeys P
  | .arguments _ _ params es => (∀ e ∈ es, e.Obeys P) ∧
      ∀ pair ∈ params.zip es, pair.1.mode = .byReference → pair.2.isName = true ∨ ctx.Misfit P
  | .call asValue _ callee es => P.call asValue callee es ∧ ∀ e ∈ es, e.Obeys P
  | .stmt s => s.Obeys P
  | .block ss => ∀ s ∈ ss, s.Obeys P
  | .branches _ _ bs => (∀ b ∈ bs, ∀ e ∈ b.labels, e.Obeys P) ∧ ∀ b ∈ bs, ∀ s ∈ b.body, s.Obeys P
  | .whileLoop _ condition body | .repeatLoop _ body condition =>
    (∀ e ∈ condition, e.Obeys P) ∧ ∀ s ∈ body, s.Obeys P
  | .forLoop _ _ _ _ body => ∀ s ∈ body, s.Obeys P

end Task

end Pseudocode
