import Pseudocode.Run.Expression
import Pseudocode.Run.Input

/-! Execution of statements. A statement is executed by recursion on its structure; a loop comes around
at most as often as there are steps left, and a routine is entered at most as deep as the limit on
active calls allows, so every run ends. -/
namespace Pseudocode

namespace Run

/-- A condition must be a truth value. -/
def conditionValue (keyword : Keyword) (line : Nat) : Value → Run Bool
  | .boolean b => return b
  | value => stop line (.conditionType keyword value.type)

def declareVariable (name typeName : String) : Run Unit :=
  let type := DataType.ofName? typeName
  discard <| define name ⟨.initial type, type, false⟩

def declareArray (ctx : RunContext) (line : Nat) (name : String) (bounds : List Bound)
    (elementType : String) : Run Unit := do
  let size := ArrayCell.elementCount bounds
  let limit := ctx.settings.limits.maxArrayElements
  if size > limit then stop line (.arrayTooLarge name size limit)
  let id ← withMemory (·.addArray (.fresh bounds (DataType.ofName? elementType)))
  discard <| define name ⟨.array id, some .array, false⟩

/-- Defines a constant, which holds a copy of an array and has the type of its value. -/
def defineConstant (name : String) (value : Value) : Run Unit := do
  let copy ← withMemory (·.copyValue value)
  let type := if value = .null then none else some value.type
  discard <| define name ⟨copy, type, true⟩

/-- Stores a value; the array of an element is found before its indices are evaluated. -/
def store (ctx : RunContext) (enter : Enter) (line : Nat) (target : Target) (value : Value) :
    Run Unit := do
  match target with
  | .variable _ name => assign line name value
  | .element _ name indices =>
    let id ← arrayNamed line name
    assignElement line id (← evalIndices ctx enter line indices) value
  | .stray _ node => throw (.engine (.noPart node "name"))

/-- Adds a line of output, or counts it as dropped when there are too many. -/
def emit (ctx : RunContext) (line : Nat) (text : String) : Run Unit :=
  modify fun s =>
    if s.outputs.size ≥ ctx.settings.limits.maxOutputEvents then { s with dropped := s.dropped + 1 }
    else { s with outputs := s.outputs.push ⟨text, line⟩ }

/-- The texts of values, each made before the next value is evaluated. -/
def evalShown (ctx : RunContext) (enter : Enter) (line : Nat) : List Expr → Run (List String)
  | [] => return []
  | e :: rest => do
    let first ← shown ctx line (← eval ctx enter e)
    return first :: (← evalShown ctx enter line rest)

def takeInput (line : Nat) : Run String := do
  match (← get).inputs with
  | [] => stop line .noInput
  | raw :: rest =>
    modify fun s => { s with inputs := rest }
    return raw

/-- The type that an INPUT target asks for and the name that messages give it. -/
def inputType (line : Nat) : Target → Run (String × Option DataType)
  | .variable _ name => return (name, (← lookup name).bind (·.declared))
  | .element _ name _ => do
    let id ← arrayNamed line name
    let memory := (← get).memory
    return (name, (memory.arrays[id]?).bind ArrayCell.elementType)
  | .stray _ node => throw (.engine (.noPart node "name"))

/-- The next input as a value for a target. -/
def readInput (ctx : RunContext) (line : Nat) (target : Target) : Run Value := do
  let raw ← takeInput line
  checkLength ctx line raw.length
  let (name, type) ← inputType line target
  if type = some .array then stop line (.inputArray name)
  match Input.value line raw type with
  | .ok value => return value
  | .error reason => throw reason

def input (ctx : RunContext) (enter : Enter) (line : Nat) (target : Target) : Run Unit := do
  store ctx enter line target (← readInput ctx line target)

/-- Whether a CASE label takes the selector; a range is taken from both ends. -/
def labelMatches (ctx : RunContext) (enter : Enter) (line : Nat) (selector : Value) :
    Expr → Run Bool
  | .range _ low high => do
    let low ← eval ctx enter low
    let high ← eval ctx enter high
    match compareValues .greaterEqual selector low with
    | .error fault => stop line fault
    | .ok false => return false
    | .ok true =>
      match compareValues .lessEqual selector high with
      | .error fault => stop line fault
      | .ok b => return b
  | label => do
    match compareValues .equal selector (← eval ctx enter label) with
    | .error fault => stop line fault
    | .ok b => return b

def anyLabelMatches (ctx : RunContext) (enter : Enter) (line : Nat) (selector : Value) :
    List Expr → Run Bool
  | [] => return false
  | label :: rest => do
    if ← labelMatches ctx enter line selector label then return true
    else anyLabelMatches ctx enter line selector rest

def forBound (line : Nat) (part : ForPart) (value : Value) : Run Number :=
  match value.number? with
  | some n => return n
  | none => stop line (.forBoundType part value.type)

/-- Runs a WHILE loop: the condition, then the body, then one step. -/
def whileLoop (ctx : RunContext) (line : Nat) (condition : Run Bool) (body : Run Completion) :
    (rounds : Nat) → Run Completion
  | 0 => stop line .stepLimit
  | rounds + 1 => do
    if ← condition then
      match ← body with
      | .returned value returnLine => return .returned value returnLine
      | .normal =>
        tick ctx line
        whileLoop ctx line condition body rounds
    else return .normal

/-- Runs a REPEAT loop: the body, then one step, then the condition. -/
def repeatLoop (ctx : RunContext) (line : Nat) (body : Run Completion) (condition : Run Bool) :
    (rounds : Nat) → Run Completion
  | 0 => stop line .stepLimit
  | rounds + 1 => do
    match ← body with
    | .returned value returnLine => return .returned value returnLine
    | .normal =>
      tick ctx line
      if ← condition then return .normal
      else repeatLoop ctx line body condition rounds

/-- Whether a counter has passed the end of its FOR loop, in the direction of the step. -/
def pastEnd (counter last step : Number) : Bool :=
  match step.compare? (.integer 0) with
  | some .gt => counter.compare? last == some .gt
  | some .lt => counter.compare? last == some .lt
  | _ => false

def counterValue (counter : BindingId) : Run Value := do
  let memory := (← get).memory
  return ((memory.binding? counter).map Binding.value).getD .null

/-- Adds the step to the counter of a FOR loop. -/
def advance (line : Nat) (counter : BindingId) (step : Number) : Run Unit := do
  match (← counterValue counter).number? with
  | none => throw (.engine (.nullCounter step.isReal))
  | some current =>
    match current.addExact step with
    | .error _ => throw .overflow
    | .ok next =>
      let memory := (← get).memory
      match memory.binding? counter with
      | none => return
      | some binding =>
        match memory.accept binding (.ofNumber next) with
        | .ok kept => withMemory fun memory => ((), memory.setValue counter kept)
        | .error fault => storeFailed line .store fault

/-- Runs a FOR loop from where its counter stands: the test, the body, one step, the next value. -/
def forLoop (ctx : RunContext) (line : Nat) (counter : BindingId) (last step : Number)
    (body : Run Completion) : (rounds : Nat) → Run Completion
  | 0 => stop line .stepLimit
  | rounds + 1 => do
    if (← counterValue counter).number?.any (pastEnd · last step) then return .normal
    else
      match ← body with
      | .returned value returnLine => return .returned value returnLine
      | .normal =>
        tick ctx line
        advance line counter step
        forLoop ctx line counter last step body rounds

/-- Makes the frame of a FOR loop, which holds its counter. -/
def openCounter (line : Nat) (counter : Option String) (start step : Number) :
    Run (FrameId × BindingId) := do
  if step.isZero then stop line .zeroStep
  let type : DataType := if start.isReal ∨ step.isReal then .real else .integer
  match (Value.ofNumber start).coerce (some type) with
  | .error fault => storeFailed line .store fault
  | .ok first =>
    let frame ← withMemory (·.addFrame)
    let id ← withMemory (·.addBinding ⟨first, some type, false⟩)
    match counter with
    | none => return (frame, id)
    | some name =>
      withMemory fun memory => ((), memory.bind frame name id)
      return (frame, id)

/-- Runs a FOR loop in a frame of its own that holds the counter. -/
def countedLoop (ctx : RunContext) (line : Nat) (counter : Option String)
    (start last step : Number) (body : Run Completion) : Run Completion := do
  let (frame, id) ← openCounter line counter start step
  let env := (← get).env
  inEnvironment (frame :: env) do
    forLoop ctx line id last step body (← roundsLeft ctx)

/-- A RETURN statement; outside of a routine it fails before its value is evaluated. -/
def giveBack (inRoutine : Bool) (line : Nat) (value : Run Value) : Run Completion := do
  if inRoutine then return .returned (← value) line
  else stop line .returnOutside

/-- Begins a statement: one step on its line. -/
def begins (ctx : RunContext) (s : Stmt) : Run Unit := do
  if s.isMissing then throw (.engine (.noPart missingNode "line"))
  modify fun state => { state with line := s.line }
  tick ctx s.line

mutual

/-- Executes a statement, which is one step. -/
def exec (ctx : RunContext) (enter : Enter) (inRoutine : Bool) (s : Stmt) : Run Completion := do
  begins ctx s
  match s with
  | .declare _ name typeName =>
    declareVariable name typeName
    return .normal
  | .declareArray position name bounds elementType =>
    declareArray ctx position.line name bounds elementType
    return .normal
  | .constant _ name value =>
    defineConstant name (← evalPresent ctx enter value)
    return .normal
  | .assign position target value =>
    store ctx enter position.line target (← eval ctx enter value)
    return .normal
  | .ifThen position condition thenBranch elseBranch =>
    if ← conditionValue .IF position.line (← evalPresent ctx enter condition) then
      execBlock ctx enter inRoutine thenBranch
    else execOtherwise ctx enter inRoutine elseBranch
  | .whileDo position condition body =>
    let test : Run Bool := do
      conditionValue .WHILE position.line (← evalPresent ctx enter condition)
    whileLoop ctx position.line test (execBlock ctx enter inRoutine body) (← roundsLeft ctx)
  | .repeatUntil position body condition =>
    let test : Run Bool := do
      conditionValue .UNTIL position.line (← evalPresent ctx enter condition)
    repeatLoop ctx position.line (execBlock ctx enter inRoutine body) test (← roundsLeft ctx)
  | .forLoop position counter start last step body =>
    let start ← forBound position.line .start (← evalPresent ctx enter start)
    let last ← forBound position.line .stop (← evalPresent ctx enter last)
    let step ← match step with
      | none => pure (.integer 1)
      | some step => do forBound position.line .step (← eval ctx enter step)
    countedLoop ctx position.line counter start last step (execBlock ctx enter inRoutine body)
  | .caseOf position selector branches otherwise =>
    let selector ← evalPresent ctx enter selector
    match ← execBranches ctx enter inRoutine position.line selector branches with
    | some completion => return completion
    | none => execOtherwise ctx enter inRoutine otherwise
  | .routine _ => return .normal
  | .giveBack position value =>
    giveBack inRoutine position.line <| match value with
      | none => return .null
      | some e => eval ctx enter e
  | .call _ position callee arguments =>
    discard <| call ctx enter false position.line callee arguments.length
      (evalAll ctx enter arguments)
      fun params => bindArguments ctx enter position.line callee params arguments
    return .normal
  | .strayCall _ node => throw (.engine (.noPart node "callee"))
  | .output position values =>
    let parts ← evalShown ctx enter position.line values
    emit ctx position.line (ctx.settings.outputSeparator.intercalate parts)
    return .normal
  | .input position target =>
    input ctx enter position.line target
    return .normal
  | .stray _ node => throw (.engine (.noStatement node))

/-- Executes statements in order until one returns. -/
def execBlock (ctx : RunContext) (enter : Enter) (inRoutine : Bool) : List Stmt → Run Completion
  | [] => return .normal
  | s :: rest => do
    match ← exec ctx enter inRoutine s with
    | .returned value line => return .returned value line
    | .normal => execBlock ctx enter inRoutine rest

/-- Executes the block that runs when no other does, if there is one. -/
def execOtherwise (ctx : RunContext) (enter : Enter) (inRoutine : Bool) :
    Option (List Stmt) → Run Completion
  | none => return .normal
  | some block => execBlock ctx enter inRoutine block

/-- Executes the first branch with a label that takes the selector; `none` if there is none. -/
def execBranches (ctx : RunContext) (enter : Enter) (inRoutine : Bool) (line : Nat)
    (selector : Value) : List (Branch Stmt) → Run (Option Completion)
  | [] => return none
  | ⟨labels, body, branchLine⟩ :: rest => do
    let labelLine := if branchLine = 0 then line else branchLine
    if ← anyLabelMatches ctx enter labelLine selector labels then
      return some (← execBlock ctx enter inRoutine body)
    else execBranches ctx enter inRoutine line selector rest

end

/-- Names parameters for their bindings in a frame. -/
def bindParams (frame : FrameId) : List Param → List BindingId → Run Unit
  | param :: params, id :: rest => do
    withMemory fun memory => ((), memory.bind frame param.name id)
    bindParams frame params rest
  | _, _ => return

/-- Makes the frame of a call, with its parameters bound in order. -/
def openFrame (params : List Param) (bindings : List BindingId) : Run FrameId := do
  let frame ← withMemory (·.addFrame)
  bindParams frame params bindings
  return frame

/-- Enters routines when `depth` more calls may be active: the body runs in a frame of its own on top
of the global one. -/
def enter (ctx : RunContext) : (depth : Nat) → Enter
  | 0, line, _, _ => stop line .stackOverflow
  | depth + 1, line, r, bindings => do
    let frame ← openFrame r.params bindings
    thenAtLine line <| inEnvironment (frame :: Memory.globals) <|
      execBlock ctx (enter ctx depth) true r.body

/-- Executes a whole program. -/
def program (ctx : RunContext) (p : Program) : Run Completion :=
  execBlock ctx (enter ctx ctx.settings.limits.maxCallDepth) false p.body

end Run

end Pseudocode
