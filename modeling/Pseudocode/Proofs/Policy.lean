import Pseudocode.Run.Statement

/-! Policies on the code of a program. A policy says which calls and which array declarations may
stand in code. Code obeys it when every call and every array declaration that an execution of the code
can come to is permitted; routines declared inside a block are never executed and are left out. -/
namespace Pseudocode

/-- Which calls and which array declarations code may contain. -/
structure Policy where
  call : (asValue : Bool) → (callee : String) → (arguments : List Expr) → Prop
  array : (bounds : List Bound) → (elementType : String) → Prop

/-- The policy that permits everything. -/
def Policy.free : Policy := ⟨fun _ _ _ => True, fun _ _ => True⟩

inductive Expr.Obeys (P : Policy) : Expr → Prop
  | literal : Obeys P (.literal place value)
  | name : Obeys P (.name place word)
  | element : (∀ e ∈ indices, Obeys P e) → Obeys P (.element place array indices)
  | binary : Obeys P left → Obeys P right → Obeys P (.binary place op left right)
  | unary : Obeys P operand → Obeys P (.unary place op operand)
  | call : P.call true callee arguments → (∀ e ∈ arguments, Obeys P e) →
      Obeys P (.call place callee arguments)
  | range : Obeys P low → Obeys P high → Obeys P (.range place low high)
  | stray : Obeys P (.stray place node)

def Target.Obeys (P : Policy) : Target → Prop
  | .element _ _ indices => ∀ e ∈ indices, e.Obeys P
  | _ => True

inductive Stmt.Obeys (P : Policy) : Stmt → Prop
  | declare : Obeys P (.declare place name typeName)
  | declareArray : P.array bounds elementType →
      Obeys P (.declareArray place name bounds elementType)
  | constant : (∀ e ∈ value, e.Obeys P) → Obeys P (.constant place name value)
  | assign : target.Obeys P → value.Obeys P → Obeys P (.assign place target value)
  | ifThen : (∀ e ∈ condition, e.Obeys P) → (∀ s ∈ thenBranch, Obeys P s) →
      (∀ block ∈ elseBranch, ∀ s ∈ block, Obeys P s) →
      Obeys P (.ifThen place condition thenBranch elseBranch)
  | whileDo : (∀ e ∈ condition, e.Obeys P) → (∀ s ∈ body, Obeys P s) →
      Obeys P (.whileDo place condition body)
  | repeatUntil : (∀ s ∈ body, Obeys P s) → (∀ e ∈ condition, e.Obeys P) →
      Obeys P (.repeatUntil place body condition)
  | forLoop : (∀ e ∈ start, e.Obeys P) → (∀ e ∈ stop, e.Obeys P) → (∀ e ∈ step, e.Obeys P) →
      (∀ s ∈ body, Obeys P s) → Obeys P (.forLoop place counter start stop step body)
  | caseOf : (∀ e ∈ selector, e.Obeys P) →
      (∀ b ∈ branches, ∀ e ∈ b.labels, e.Obeys P) → (∀ b ∈ branches, ∀ s ∈ b.body, Obeys P s) →
      (∀ block ∈ otherwise, ∀ s ∈ block, Obeys P s) →
      Obeys P (.caseOf place selector branches otherwise)
  | routine : Obeys P (.routine r)
  | giveBack : (∀ e ∈ value, e.Obeys P) → Obeys P (.giveBack place value)
  | call : P.call false callee arguments → (∀ e ∈ arguments, e.Obeys P) →
      Obeys P (.call place callPlace callee arguments)
  | strayCall : Obeys P (.strayCall place node)
  | output : (∀ e ∈ values, e.Obeys P) → Obeys P (.output place values)
  | input : target.Obeys P → Obeys P (.input place target)
  | stray : Obeys P (.stray place node)

section Lax

variable {P : Policy}

mutual

theorem Expr.obeys_lax (lax : ∀ asValue callee arguments, P.call asValue callee arguments) :
    ∀ e : Expr, e.Obeys P
  | .literal .. => .literal
  | .name .. => .name
  | .element _ _ indices => .element (exprs_obey_lax lax indices)
  | .binary _ _ left right => .binary (left.obeys_lax lax) (right.obeys_lax lax)
  | .unary _ _ operand => .unary (operand.obeys_lax lax)
  | .call _ callee arguments => .call (lax true callee arguments) (exprs_obey_lax lax arguments)
  | .range _ low high => .range (low.obeys_lax lax) (high.obeys_lax lax)
  | .stray .. => .stray

theorem exprs_obey_lax (lax : ∀ asValue callee arguments, P.call asValue callee arguments) :
    ∀ es : List Expr, ∀ e ∈ es, e.Obeys P
  | [], _, member => nomatch member
  | e :: _, _, .head _ => e.obeys_lax lax
  | _ :: rest, e, .tail _ member => exprs_obey_lax lax rest e member

end

theorem Target.obeys_lax (lax : ∀ asValue callee arguments, P.call asValue callee arguments)
    (target : Target) : target.Obeys P := by
  cases target with
  | element place array indices => exact exprs_obey_lax lax indices
  | _ => trivial

mutual

theorem Stmt.obeys_free : ∀ s : Stmt, s.Obeys .free
  | .declare .. => .declare
  | .declareArray .. => .declareArray trivial
  | .constant .. => .constant fun e _ => e.obeys_lax fun _ _ _ => trivial
  | .assign _ target value =>
    .assign (target.obeys_lax fun _ _ _ => trivial) (value.obeys_lax fun _ _ _ => trivial)
  | .ifThen _ _ thenBranch elseBranch =>
    .ifThen (fun e _ => e.obeys_lax fun _ _ _ => trivial) (block_obeys_free thenBranch)
      (otherwise_obeys_free elseBranch)
  | .whileDo _ _ body =>
    .whileDo (fun e _ => e.obeys_lax fun _ _ _ => trivial) (block_obeys_free body)
  | .repeatUntil _ body _ =>
    .repeatUntil (block_obeys_free body) fun e _ => e.obeys_lax fun _ _ _ => trivial
  | .forLoop _ _ _ _ _ body =>
    .forLoop (fun e _ => e.obeys_lax fun _ _ _ => trivial)
      (fun e _ => e.obeys_lax fun _ _ _ => trivial) (fun e _ => e.obeys_lax fun _ _ _ => trivial)
      (block_obeys_free body)
  | .caseOf _ _ branches otherwise =>
    .caseOf (fun e _ => e.obeys_lax fun _ _ _ => trivial)
      (fun _ _ e _ => e.obeys_lax fun _ _ _ => trivial) (branches_obey_free branches)
      (otherwise_obeys_free otherwise)
  | .routine _ => .routine
  | .giveBack .. => .giveBack fun e _ => e.obeys_lax fun _ _ _ => trivial
  | .call .. => .call trivial fun e _ => e.obeys_lax fun _ _ _ => trivial
  | .strayCall .. => .strayCall
  | .output .. => .output fun e _ => e.obeys_lax fun _ _ _ => trivial
  | .input _ target => .input (target.obeys_lax fun _ _ _ => trivial)
  | .stray .. => .stray

theorem block_obeys_free : ∀ block : List Stmt, ∀ s ∈ block, s.Obeys .free
  | [], _, member => nomatch member
  | s :: _, _, .head _ => s.obeys_free
  | _ :: rest, s, .tail _ member => block_obeys_free rest s member

theorem otherwise_obeys_free :
    ∀ otherwise : Option (List Stmt), ∀ block ∈ otherwise, ∀ s ∈ block, s.Obeys .free
  | some block, _, rfl => block_obeys_free block

theorem branches_obey_free :
    ∀ branches : List (Branch Stmt), ∀ b ∈ branches, ∀ s ∈ b.body, s.Obeys .free
  | [], _, member => nomatch member
  | ⟨_, body, _⟩ :: _, _, .head _ => block_obeys_free body
  | _ :: rest, b, .tail _ member => branches_obey_free rest b member

end

end Lax

/-- Whether an argument can be passed by reference. -/
def Expr.isName : Expr → Bool
  | .name .. => true
  | _ => false

/-- A call with a callee that exists and can be called so, the right number of arguments, and names
where arguments are passed by reference. -/
def RunContext.CallFits (ctx : RunContext) (asValue : Bool) (callee : String)
    (arguments : List Expr) : Prop :=
  match ctx.routine? callee with
  | some r => (asValue = true → r.kind = .function) ∧ arguments.length = r.params.length ∧
      ∀ pair ∈ r.params.zip arguments, pair.1.mode = .byReference → pair.2.isName = true
  | none => ∃ f, Builtin.ofName? callee = some f ∧ arguments.length = f.arity

/-- The policy permits a call that does not fit. -/
def RunContext.Misfit (ctx : RunContext) (P : Policy) : Prop :=
  ∃ asValue callee arguments, P.call asValue callee arguments ∧
    ¬ctx.CallFits asValue callee arguments

/-- The main program and the body of every routine obey the policy. -/
structure Program.Obeys (P : Policy) (p : Program) : Prop where
  body : ∀ s ∈ p.body, s.Obeys P
  routines : ∀ r ∈ p.routines, ∀ s ∈ r.body, s.Obeys P

/-- Every program obeys the policy that permits everything. -/
theorem Program.obeys_free (p : Program) : p.Obeys .free :=
  ⟨block_obeys_free p.body, fun r _ => block_obeys_free r.body⟩

end Pseudocode
