import Pseudocode.Program

/-! Trees in other places. Only positions are replaced: everything else about a tree stays, so two
trees that are the same once all their positions are replaced by one position differ only in where
they were written. -/
namespace Pseudocode

/-- The position some lines further down. -/
def Position.down (lines : Nat) (p : Position) : Position := { p with line := p.line + lines }

section

variable (place : Position → Position)

mutual

/-- The expression with all positions replaced. -/
def Expr.moved : Expr → Expr
  | .literal p value => .literal (place p) value
  | .name p name => .name (place p) name
  | .element p array indices => .element (place p) array (exprsMoved indices)
  | .binary p op left right => .binary (place p) op left.moved right.moved
  | .unary p op operand => .unary (place p) op operand.moved
  | .call p callee arguments => .call (place p) callee (exprsMoved arguments)
  | .range p low high => .range (place p) low.moved high.moved
  | .stray p node => .stray (place p) node

def exprsMoved : List Expr → List Expr
  | [] => []
  | e :: rest => e.moved :: exprsMoved rest

end

@[simp] theorem exprsMoved_eq (es : List Expr) : exprsMoved place es = es.map (Expr.moved place) := by
  induction es with
  | nil => rw [exprsMoved, List.map_nil]
  | cons e rest ih => rw [exprsMoved, List.map_cons, ih]

@[simp] theorem Expr.position_moved (e : Expr) : (e.moved place).position = place e.position := by
  cases e <;> simp only [Expr.moved, Expr.position]

def Target.moved : Target → Target
  | .variable p name => .variable (place p) name
  | .element p array indices => .element (place p) array (indices.map (Expr.moved place))
  | .stray p node => .stray (place p) node

/-- The line of a branch, as the line of a position at its start. -/
def lineMoved (line : Nat) : Nat := (place ⟨line, 1⟩).line

mutual

/-- The statement with all positions replaced. -/
def Stmt.moved : Stmt → Stmt
  | .declare p name typeName => .declare (place p) name typeName
  | .declareArray p name bounds elementType => .declareArray (place p) name bounds elementType
  | .constant p name value => .constant (place p) name (value.map (Expr.moved place))
  | .assign p target value => .assign (place p) (target.moved place) (value.moved place)
  | .ifThen p condition thenBranch elseBranch =>
    .ifThen (place p) (condition.map (Expr.moved place)) (blockMoved thenBranch) (otherwiseMoved elseBranch)
  | .whileDo p condition body => .whileDo (place p) (condition.map (Expr.moved place)) (blockMoved body)
  | .repeatUntil p body condition =>
    .repeatUntil (place p) (blockMoved body) (condition.map (Expr.moved place))
  | .forLoop p counter start stop step body =>
    .forLoop (place p) counter (start.map (Expr.moved place)) (stop.map (Expr.moved place))
      (step.map (Expr.moved place)) (blockMoved body)
  | .caseOf p selector branches otherwise =>
    .caseOf (place p) (selector.map (Expr.moved place)) (branchesMoved branches) (otherwiseMoved otherwise)
  | .routine ⟨p, kind, name, params, returns, body⟩ =>
    .routine ⟨place p, kind, name, params, returns, blockMoved body⟩
  | .giveBack p value => .giveBack (place p) (value.map (Expr.moved place))
  | .call p callPlace callee arguments =>
    .call (place p) (place callPlace) callee (arguments.map (Expr.moved place))
  | .strayCall p node => .strayCall (place p) node
  | .output p values => .output (place p) (values.map (Expr.moved place))
  | .input p target => .input (place p) (target.moved place)
  | .stray p node => .stray (place p) node

def blockMoved : List Stmt → List Stmt
  | [] => []
  | s :: rest => s.moved :: blockMoved rest

def otherwiseMoved : Option (List Stmt) → Option (List Stmt)
  | none => none
  | some block => some (blockMoved block)

def branchesMoved : List (Branch Stmt) → List (Branch Stmt)
  | [] => []
  | ⟨labels, body, line⟩ :: rest =>
    ⟨labels.map (Expr.moved place), blockMoved body, lineMoved place line⟩ :: branchesMoved rest

end

@[simp] theorem blockMoved_eq (block : List Stmt) : blockMoved place block = block.map (Stmt.moved place) := by
  induction block with
  | nil => rw [blockMoved, List.map_nil]
  | cons s rest ih => rw [blockMoved, List.map_cons, ih]

@[simp] theorem otherwiseMoved_eq (otherwise : Option (List Stmt)) :
    otherwiseMoved place otherwise = otherwise.map (List.map (Stmt.moved place)) := by
  cases otherwise with
  | none => rw [otherwiseMoved, Option.map_none]
  | some block => rw [otherwiseMoved, Option.map_some, blockMoved_eq]

def Branch.moved (b : Branch Stmt) : Branch Stmt :=
  ⟨b.labels.map (Expr.moved place), b.body.map (Stmt.moved place), lineMoved place b.line⟩

@[simp] theorem branchesMoved_eq (branches : List (Branch Stmt)) :
    branchesMoved place branches = branches.map (Branch.moved place) := by
  induction branches with
  | nil => rw [branchesMoved, List.map_nil]
  | cons b rest ih => rw [branchesMoved, List.map_cons, ih, blockMoved_eq, Branch.moved]

/-- The program with all positions replaced. -/
def Program.moved (p : Program) : Program := ⟨p.body.map (Stmt.moved place)⟩

end

section Unmoved

mutual

theorem Expr.moved_id : ∀ e : Expr, e.moved id = e
  | .literal .. | .name .. | .stray .. => by simp only [Expr.moved, id_eq]
  | .element _ _ indices => by simp only [Expr.moved, id_eq, exprsMoved_id indices]
  | .binary _ _ left right => by
    simp only [Expr.moved, id_eq, left.moved_id, right.moved_id]
  | .unary _ _ operand => by simp only [Expr.moved, id_eq, operand.moved_id]
  | .call _ _ arguments => by simp only [Expr.moved, id_eq, exprsMoved_id arguments]
  | .range _ low high => by simp only [Expr.moved, id_eq, low.moved_id, high.moved_id]

theorem exprsMoved_id : ∀ es : List Expr, exprsMoved id es = es
  | [] => by rw [exprsMoved]
  | e :: rest => by rw [exprsMoved, e.moved_id, exprsMoved_id rest]

end

theorem map_moved_id (es : List Expr) : es.map (Expr.moved id) = es := by
  rw [← exprsMoved_eq, exprsMoved_id]

theorem option_moved_id (e : Option Expr) : e.map (Expr.moved id) = e := by
  cases e with
  | none => rfl
  | some e => rw [Option.map_some, e.moved_id]

theorem Target.moved_id (target : Target) : target.moved id = target := by
  cases target <;> simp only [Target.moved, id_eq, map_moved_id]

mutual

theorem Stmt.moved_id : ∀ s : Stmt, s.moved id = s
  | .declare .. | .declareArray .. | .strayCall .. | .stray .. => by simp only [Stmt.moved, id_eq]
  | .constant .. | .giveBack .. => by simp only [Stmt.moved, id_eq, option_moved_id]
  | .assign .. => by
    simp only [Stmt.moved, id_eq, Target.moved_id, Expr.moved_id]
  | .ifThen _ _ thenBranch elseBranch => by
    simp only [Stmt.moved, id_eq, option_moved_id, blockMoved_id thenBranch,
      otherwiseMoved_id elseBranch]
  | .whileDo _ _ body => by
    simp only [Stmt.moved, id_eq, option_moved_id, blockMoved_id body]
  | .repeatUntil _ body _ => by
    simp only [Stmt.moved, id_eq, option_moved_id, blockMoved_id body]
  | .forLoop _ _ _ _ _ body => by
    simp only [Stmt.moved, id_eq, option_moved_id, blockMoved_id body]
  | .caseOf _ _ branches otherwise => by
    simp only [Stmt.moved, id_eq, option_moved_id, branchesMoved_id branches,
      otherwiseMoved_id otherwise]
  | .routine ⟨_, _, _, _, _, body⟩ => by simp only [Stmt.moved, id_eq, blockMoved_id body]
  | .call .. | .output .. => by simp only [Stmt.moved, id_eq, map_moved_id]
  | .input .. => by simp only [Stmt.moved, id_eq, Target.moved_id]

theorem blockMoved_id : ∀ block : List Stmt, blockMoved id block = block
  | [] => by rw [blockMoved]
  | s :: rest => by rw [blockMoved, s.moved_id, blockMoved_id rest]

theorem otherwiseMoved_id : ∀ otherwise : Option (List Stmt),
    otherwiseMoved id otherwise = otherwise
  | none => by rw [otherwiseMoved]
  | some block => by rw [otherwiseMoved, blockMoved_id block]

theorem branchesMoved_id : ∀ branches : List (Branch Stmt), branchesMoved id branches = branches
  | [] => by rw [branchesMoved]
  | ⟨labels, body, line⟩ :: rest => by
    rw [branchesMoved, blockMoved_id body, branchesMoved_id rest,
      map_moved_id, lineMoved, id_eq]

end

end Unmoved

end Pseudocode
