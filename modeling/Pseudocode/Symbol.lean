import Pseudocode.Value

/-! Symbols: what a check of a program knows about each name. Scopes nest as the frames of a run do,
with the global scope outermost; symbols of a scope stand in the order of their declaration. -/
namespace Pseudocode

inductive SymbolKind where
  | variable | constant | array | parameter | function | procedure
  deriving DecidableEq, Repr

namespace SymbolKind

def text : SymbolKind → String
  | .variable => "variable" | .constant => "constant" | .array => "array"
  | .parameter => "parameter" | .function => "function" | .procedure => "procedure"

def all : List SymbolKind := [.variable, .constant, .array, .parameter, .function, .procedure]

def ofText? (name : String) : Option SymbolKind := all.find? (·.text == name)

def isRoutine : SymbolKind → Bool
  | .function | .procedure => true
  | _ => false

def ofRoutine : RoutineKind → SymbolKind
  | .function => .function
  | .procedure => .procedure

end SymbolKind

structure Symbol where
  name : String
  kind : SymbolKind
  type : Option DataType := none
  line : Nat := 0
  elementType : Option DataType := none
  bounds : Option (List Bound) := none
  params : List Param := []
  constantValue : Option Literal := none
  used : Bool := false
  deriving DecidableEq, Repr

/-- Scopes inside the global one, innermost first, and the global scope. -/
structure SymbolTable where
  inner : List (List Symbol)
  globals : List Symbol

/-- A symbol with the scope it was found in. -/
structure Found where
  symbol : Symbol
  isGlobal : Bool

/-- Why an operation on a symbol table fails. -/
inductive SymbolFault where
  | redeclared (name : String) (line : Nat)
  | globalScope
  deriving DecidableEq, Repr

def SymbolFault.message : SymbolFault → String
  | .redeclared name line => s!"'{name}' already declared in current scope at line {line}"
  | .globalScope => "Cannot exit global scope"

namespace SymbolTable

def empty : SymbolTable := ⟨[], []⟩

/-- The number of scopes inside the global one. -/
def level (t : SymbolTable) : Nat := t.inner.length

def findIn (scope : List Symbol) (name : String) : Option Symbol := scope.find? (·.name == name)

/-- The innermost scope. -/
def current (t : SymbolTable) : List Symbol := t.inner.head?.getD t.globals

def setCurrent (t : SymbolTable) (scope : List Symbol) : SymbolTable :=
  match t.inner with
  | [] => { t with globals := scope }
  | _ :: outer => { t with inner := scope :: outer }

def enter (t : SymbolTable) : SymbolTable := { t with inner := [] :: t.inner }

/-- Leaves the innermost scope and gives its symbols. -/
def exit (t : SymbolTable) : Except SymbolFault (List Symbol × SymbolTable) :=
  match t.inner with
  | [] => .error .globalScope
  | scope :: outer => .ok (scope, { t with inner := outer })

def lookupLocal (t : SymbolTable) (name : String) : Option Symbol := findIn t.current name

def declare (t : SymbolTable) (symbol : Symbol) : Except SymbolFault SymbolTable :=
  match t.lookupLocal symbol.name with
  | some previous => .error (.redeclared symbol.name previous.line)
  | none => .ok (t.setCurrent (t.current ++ [symbol]))

/-- The symbol of a name in the innermost scope that has it. -/
def lookup (t : SymbolTable) (name : String) : Option Found :=
  match t.inner.findSome? (findIn · name) with
  | some symbol => some ⟨symbol, false⟩
  | none => (findIn t.globals name).map (⟨·, true⟩)

def useIn (scope : List Symbol) (name : String) : List Symbol :=
  scope.map fun s => if s.name = name then { s with used := true } else s

/-- Marks the symbol that `lookup` finds as used. -/
def use (t : SymbolTable) (name : String) : SymbolTable :=
  let rec inScopes : List (List Symbol) → Option (List (List Symbol))
    | [] => none
    | scope :: outer =>
      if (findIn scope name).isSome then some (useIn scope name :: outer)
      else (inScopes outer).map (scope :: ·)
  match inScopes t.inner with
  | some inner => { t with inner }
  | none => { t with globals := useIn t.globals name }

end SymbolTable

end Pseudocode
