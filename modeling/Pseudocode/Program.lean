import Pseudocode.Diagnostic
import Pseudocode.Number

/-! Programs as trees. A child that a reader of damaged text may have to leave out is an `Option`.
A tree can also be built by hand, and then a node may stand where it has no meaning or an operator
may be unknown; `stray`, `strayCall` and `unknown` hold what messages say about those. -/
namespace Pseudocode

/-- A constant written in a program. -/
inductive Literal where
  | integer (value : Int)
  | real (value : Binary64)
  | string (value : String)
  | char (value : String)
  | boolean (value : Bool)
  | null
  deriving DecidableEq, Repr

inductive BinaryOp where
  | or | and
  | equal | notEqual | less | greater | lessEqual | greaterEqual
  | plus | minus | join
  | times | divide | div | mod
  | unknown (name : String)
  deriving DecidableEq, Repr

namespace BinaryOp

def text : BinaryOp → String
  | .or => "OR" | .and => "AND"
  | .equal => "=" | .notEqual => "<>" | .less => "<" | .greater => ">"
  | .lessEqual => "<=" | .greaterEqual => ">="
  | .plus => "+" | .minus => "-" | .join => "&"
  | .times => "*" | .divide => "/" | .div => "DIV" | .mod => "MOD"
  | .unknown name => name

def all : List BinaryOp :=
  [.or, .and, .equal, .notEqual, .less, .greater, .lessEqual, .greaterEqual, .plus, .minus, .join,
    .times, .divide, .div, .mod]

def ofText (name : String) : BinaryOp := (all.find? (·.text == name)).getD (.unknown name)

def isLogical : BinaryOp → Bool
  | .or | .and => true
  | _ => false

def isEquality : BinaryOp → Bool
  | .equal | .notEqual => true
  | _ => false

def isComparison : BinaryOp → Bool
  | .equal | .notEqual | .less | .greater | .lessEqual | .greaterEqual => true
  | _ => false

end BinaryOp

inductive UnaryOp where
  | not
  | minus
  | unknown (name : String)
  deriving DecidableEq, Repr

namespace UnaryOp

def text : UnaryOp → String
  | .not => "NOT"
  | .minus => "-"
  | .unknown name => name

def ofText (name : String) : UnaryOp :=
  if name = "NOT" then .not else if name = "-" then .minus else .unknown name

end UnaryOp

/-- What messages call a child that is left out. -/
def missingNode : String := "NoneType"

inductive Expr where
  | literal (position : Position) (value : Literal)
  | name (position : Position) (name : String)
  | element (position : Position) (array : String) (indices : List Expr)
  | binary (position : Position) (op : BinaryOp) (left right : Expr)
  | unary (position : Position) (op : UnaryOp) (operand : Expr)
  | call (position : Position) (callee : String) (arguments : List Expr)
  | range (position : Position) (low high : Expr)
  | stray (position : Position) (node : String)
  deriving Repr

namespace Expr

def position : Expr → Position
  | .literal p _ | .name p _ | .element p _ _ | .binary p _ _ _ | .unary p _ _ | .call p _ _
  | .range p _ _ | .stray p _ => p

def line (e : Expr) : Nat := e.position.line

/-- The name that messages use for a node of this kind. -/
def nodeName : Expr → String
  | .literal .. => "Literal"
  | .name .. => "Identifier"
  | .element .. => "ArrayAccess"
  | .binary .. => "BinaryExpr"
  | .unary .. => "UnaryExpr"
  | .call .. => "CallExpr"
  | .range .. => "RangeExpr"
  | .stray _ node => node

/-- Whether there is nothing where the expression should be. -/
def isMissing : Expr → Bool
  | .stray _ node => node == missingNode
  | _ => false

end Expr

/-- Where a value is stored: a variable or an array element. -/
inductive Target where
  | variable (position : Position) (name : String)
  | element (position : Position) (array : String) (indices : List Expr)
  | stray (position : Position) (node : String)
  deriving Repr

/-- The lower and upper bound of one dimension of an array. -/
structure Bound where
  lower : Int
  upper : Int
  deriving DecidableEq, Repr

/-- The number of indices within a bound; not positive when the bound is reversed. -/
def Bound.extent (b : Bound) : Int := b.upper - b.lower + 1

inductive PassMode where
  | byValue
  | byReference
  deriving DecidableEq, Repr

structure Param where
  name : String
  typeName : String
  mode : PassMode
  elementType : Option String
  deriving DecidableEq, Repr

inductive RoutineKind where
  | function
  | procedure
  deriving DecidableEq, Repr

def RoutineKind.keyword : RoutineKind → String
  | .function => "FUNCTION"
  | .procedure => "PROCEDURE"

/-- A routine with statements of type `S`; `returns` is the name of the result type. -/
structure Routine (S : Type) where
  position : Position
  kind : RoutineKind
  name : Option String
  params : List Param
  returns : Option String
  body : List S
  deriving Repr

/-- A branch of a CASE statement. -/
structure Branch (S : Type) where
  labels : List Expr
  body : List S
  line : Nat
  deriving Repr

inductive Stmt where
  | declare (position : Position) (name typeName : String)
  | declareArray (position : Position) (name : String) (bounds : List Bound) (elementType : String)
  | constant (position : Position) (name : String) (value : Option Expr)
  | assign (position : Position) (target : Target) (value : Expr)
  | ifThen (position : Position) (condition : Option Expr) (thenBranch : List Stmt)
      (elseBranch : Option (List Stmt))
  | whileDo (position : Position) (condition : Option Expr) (body : List Stmt)
  | repeatUntil (position : Position) (body : List Stmt) (condition : Option Expr)
  | forLoop (position : Position) (counter : Option String) (start stop step : Option Expr)
      (body : List Stmt)
  | caseOf (position : Position) (selector : Option Expr) (branches : List (Branch Stmt))
      (otherwise : Option (List Stmt))
  | routine (routine : Routine Stmt)
  | giveBack (position : Position) (value : Option Expr)
  | call (position callPosition : Position) (callee : String) (arguments : List Expr)
  | strayCall (position : Position) (node : String)
  | output (position : Position) (values : List Expr)
  | input (position : Position) (target : Target)
  | stray (position : Position) (node : String)
  deriving Repr

namespace Stmt

def position : Stmt → Position
  | .declare p .. | .declareArray p .. | .constant p .. | .assign p .. | .ifThen p .. | .whileDo p ..
  | .repeatUntil p .. | .forLoop p .. | .caseOf p .. | .giveBack p .. | .call p ..
  | .strayCall p .. | .output p .. | .input p .. | .stray p .. => p
  | .routine r => r.position

def line (s : Stmt) : Nat := s.position.line

/-- Whether there is nothing where the statement should be. -/
def isMissing : Stmt → Bool
  | .stray _ node => node == missingNode
  | _ => false

def routine? : Stmt → Option (Routine Stmt)
  | .routine r => some r
  | _ => none

end Stmt

/-- The three values that a FOR loop is given. -/
inductive ForPart where
  | start
  | stop
  | step
  deriving DecidableEq, Repr

def ForPart.text : ForPart → String
  | .start => "start"
  | .stop => "end"
  | .step => "step"

structure Program where
  body : List Stmt
  deriving Repr

/-- The routines declared at the top level, in order. -/
def Program.routines (p : Program) : List (Routine Stmt) := p.body.filterMap Stmt.routine?

end Pseudocode
