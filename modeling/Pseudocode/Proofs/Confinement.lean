import Pseudocode.Proofs.Locality

/-! All code is confined to what it can reach, by recursion on its structure. A statement gives the
names that it declares and those that nothing in its environment has; what is in a FOR loop or in the
body of a routine gives names in a frame of its own. How a routine is entered is a parameter of the
recursion, as in the conduct of runs. -/
namespace Pseudocode

/-- Execution of the statement can declare the name in the environment of the statement: with DECLARE,
DECLARE ARRAY or CONSTANT, and not inside of a FOR loop or a routine. -/
inductive Stmt.Declares (name : String) : Stmt → Prop
  | declare : Declares name (.declare place name typeName)
  | declareArray : Declares name (.declareArray place name bounds elementType)
  | constant : Declares name (.constant place name value)
  | thenBranch : s ∈ thenBranch → Declares name s →
      Declares name (.ifThen place condition thenBranch elseBranch)
  | elseBranch : elseBranch = some block → s ∈ block → Declares name s →
      Declares name (.ifThen place condition thenBranch elseBranch)
  | whileDo : s ∈ body → Declares name s → Declares name (.whileDo place condition body)
  | repeatUntil : s ∈ body → Declares name s → Declares name (.repeatUntil place body condition)
  | branch : b ∈ branches → s ∈ b.body → Declares name s →
      Declares name (.caseOf place selector branches otherwise)
  | otherwise : otherwise = some block → s ∈ block → Declares name s →
      Declares name (.caseOf place selector branches otherwise)

/-- Execution of the statement can declare the name in the environment of the statement as one of this type. A
constant has the type of its value, which can be any. -/
inductive Stmt.DeclaresAs (name : String) : Option DataType → Stmt → Prop
  | declare : DeclaresAs name (DataType.ofName? typeName) (.declare place name typeName)
  | declareArray : DeclaresAs name (some .array) (.declareArray place name bounds elementType)
  | constant : DeclaresAs name type (.constant place name value)
  | thenBranch : s ∈ thenBranch → DeclaresAs name type s →
      DeclaresAs name type (.ifThen place condition thenBranch elseBranch)
  | elseBranch : elseBranch = some block → s ∈ block → DeclaresAs name type s →
      DeclaresAs name type (.ifThen place condition thenBranch elseBranch)
  | whileDo : s ∈ body → DeclaresAs name type s → DeclaresAs name type (.whileDo place condition body)
  | repeatUntil : s ∈ body → DeclaresAs name type s → DeclaresAs name type (.repeatUntil place body condition)
  | branch : b ∈ branches → s ∈ b.body → DeclaresAs name type s →
      DeclaresAs name type (.caseOf place selector branches otherwise)
  | otherwise : otherwise = some block → s ∈ block → DeclaresAs name type s →
      DeclaresAs name type (.caseOf place selector branches otherwise)

theorem Stmt.DeclaresAs.declares {s : Stmt} {name : String} {type : Option DataType}
    (declares : s.DeclaresAs name type) : s.Declares name := by
  induction declares with
  | declare => exact .declare
  | declareArray => exact .declareArray
  | constant => exact .constant
  | thenBranch member _ ih => exact .thenBranch member ih
  | elseBranch taken member _ ih => exact .elseBranch taken member ih
  | whileDo member _ ih => exact .whileDo member ih
  | repeatUntil member _ ih => exact .repeatUntil member ih
  | branch taken member _ ih => exact .branch taken member ih
  | otherwise taken member _ ih => exact .otherwise taken member ih

theorem Stmt.Declares.typed {s : Stmt} {name : String} (declares : s.Declares name) :
    ∃ type, s.DeclaresAs name type := by
  induction declares with
  | declare => exact ⟨_, .declare⟩
  | declareArray => exact ⟨_, .declareArray⟩
  | constant => exact ⟨none, .constant⟩
  | thenBranch member _ ih => exact ih.imp fun _ => .thenBranch member
  | elseBranch taken member _ ih => exact ih.imp fun _ => .elseBranch taken member
  | whileDo member _ ih => exact ih.imp fun _ => .whileDo member
  | repeatUntil member _ ih => exact ih.imp fun _ => .repeatUntil member
  | branch taken member _ ih => exact ih.imp fun _ => .branch taken member
  | otherwise taken member _ ih => exact ih.imp fun _ => .otherwise taken member

namespace Run

variable {given : String → Option DataType → Prop} {kept : BindingId → Prop} {ctx : RunContext} {enter : Enter}
  {s t : RunState} {α β : Type}

/-- However a routine is entered, only the globals and the bindings it is handed are within its reach. -/
def EnterConfines (enter : Enter) : Prop :=
  ∀ {kept : BindingId → Prop} {s : RunState} (line : Nat) (r : Routine Stmt) (bindings : List BindingId),
    s.memory.Hides kept Memory.globals → (∀ frame ∈ s.env, frame < s.memory.frames.size) →
    (∀ i ∈ bindings, ¬kept i) → ∀ given, Confines given kept s (enter line r bindings) (fun _ _ => True)

section Parts

/-- From the state in which code began, a part of it has kept within its bounds, however it ended. -/
abbrev KeepsTo (given : String → Option DataType → Prop) (kept : BindingId → Prop) (s t : RunState) (part : Run α) : Prop :=
  Ends part t (fun _ u => s.Local given kept u) (fun _ u => s.Local given kept u)

theorem KeepsTo.thenAtLine {part : Run α} (keeps : KeepsTo given kept s t part) (line : Nat) :
    KeepsTo given kept s t (thenAtLine line part) := by
  unfold KeepsTo Ends Run.thenAtLine at *
  split at keeps
  next ran =>
    rw [ran]
    exact ⟨keeps.env, keeps.memory⟩
  next failed =>
    rw [failed]
    exact ⟨keeps.env, keeps.memory⟩

/-- What is done in a frame that was just made gives no names where the code began. -/
theorem keepsTo_inEnvironment {frame : FrameId} {sub : Environment} {part : Run α}
    (opened : s.Local (fun _ _ => False) kept t) (fresh : s.memory.frames.size ≤ frame)
    (inside : ∀ f ∈ s.env, f < s.memory.frames.size)
    (inner : Confines (fun _ _ => True) kept { t with env := frame :: sub } part (fun _ _ => True)) :
    KeepsTo given kept s t (inEnvironment (frame :: sub) part) := by
  unfold KeepsTo Ends inEnvironment
  cases ran : part { t with env := frame :: sub } with
  | ok a u => exact ⟨opened.env, opened.memory.within fresh inside (inner.of_ok ran).1.memory⟩
  | error e u => exact ⟨opened.env, opened.memory.within fresh inside (inner.of_error ran).memory⟩

theorem Confines.opens {first : Run β} {rest : β → Run α} {result : β → RunState → Prop}
    (opens : Confines (fun _ _ => False) kept s first result)
    (keeps : ∀ a t, s.Local (fun _ _ => False) kept t → result a t → KeepsTo given kept s t (rest a)) :
    Confines given kept s (first >>= rest) (fun _ _ => True) := by
  refine ends_bind.mpr (opens.mono (fun a t known => ?_) fun e t failed => ?_)
  · exact (keeps a t known.1 known.2).mono (fun _ _ here => ⟨here, trivial⟩) fun _ _ here => here
  · exact ⟨failed.env, failed.memory.mono fun _ _ never => never.elim⟩

/-- What a loop needs of its parts in every state that it can come to. -/
def PartConfines (given : String → Option DataType → Prop) (kept : BindingId → Prop) (s : RunState) (part : Run α) :
    Prop :=
  ∀ t, s.Local given kept t → Confines given kept t part (fun _ _ => True)

theorem PartConfines.later {part : Run α} (confines : PartConfines given kept s part)
    (here : s.Local given kept t) : PartConfines given kept t part :=
  fun u further => confines u (here.trans further)

/-- The bounds of a FOR loop and its step, each evaluated once. -/
def forBounds (ctx : RunContext) (enter : Enter) (line : Nat) (start last step : Option Expr) :
    Run (Number × Number × Number) := do
  let first ← forBound line .start (← evalPresent ctx enter start)
  let final ← forBound line .stop (← evalPresent ctx enter last)
  let stride ← match step with
    | none => pure (.integer 1)
    | some step => do forBound line .step (← eval ctx enter step)
  return (first, final, stride)

/-- A FOR statement evaluates its bounds and then runs its loop. -/
theorem exec_forLoop (ctx : RunContext) (enter : Enter) (inRoutine : Bool) (place : Position)
    (counter : Option String) (start last step : Option Expr) (body : List Stmt) :
    exec ctx enter inRoutine (.forLoop place counter start last step body) =
      (begins ctx (.forLoop place counter start last step body) >>= fun _ =>
        forBounds ctx enter place.line start last step >>= fun bounds =>
          countedLoop ctx place.line counter bounds.1 bounds.2.1 bounds.2.2
            (execBlock ctx enter inRoutine body)) := by
  rw [exec.eq_def]
  unfold forBounds
  cases step <;> simp only [bind_assoc, pure_bind]

theorem giveBack_confines (inRoutine : Bool) (line : Nat) {value : Run Value}
    (inner : Confines given kept s value (fun _ _ => True)) :
    Confines given kept s (giveBack inRoutine line value) (fun _ _ => True) := by
  unfold giveBack
  split
  · exact inner.bind fun _ _ _ _ => confines_pure trivial
  · exact confines_throw _

theorem whileLoop_confines (line : Nat) {test : Run Bool} {body : Run Completion} {rounds : Nat}
    (tests : PartConfines given kept s test) (bodies : PartConfines given kept s body) :
    Confines given kept s (whileLoop ctx line test body rounds) (fun _ _ => True) := by
  induction rounds generalizing s with
  | zero => exact confines_throw _
  | succ rounds ih =>
    rw [whileLoop]
    refine (tests s (.refl s)).bind fun holds t here _ => ?_
    split
    · refine (bodies t here).bind fun c u there _ => ?_
      split
      · exact confines_pure trivial
      · refine (tick_confines ctx line).bind fun _ w further _ => ?_
        have later := (here.trans there).trans further
        exact ih (tests.later later) (bodies.later later)
    · exact confines_pure trivial

theorem repeatLoop_confines (line : Nat) {test : Run Bool} {body : Run Completion} {rounds : Nat}
    (tests : PartConfines given kept s test) (bodies : PartConfines given kept s body) :
    Confines given kept s (repeatLoop ctx line body test rounds) (fun _ _ => True) := by
  induction rounds generalizing s with
  | zero => exact confines_throw _
  | succ rounds ih =>
    rw [repeatLoop]
    refine (bodies s (.refl s)).bind fun c t here _ => ?_
    split
    · exact confines_pure trivial
    · refine (tick_confines ctx line).bind fun _ u there _ => ?_
      refine (tests u (here.trans there)).bind fun holds w further _ => ?_
      have later := (here.trans there).trans further
      split
      · exact confines_pure trivial
      · exact ih (tests.later later) (bodies.later later)

theorem forLoop_confines (hides : s.Hides kept) (line : Nat) {counter : BindingId}
    (free : ¬kept counter) (last step : Number) {body : Run Completion} {rounds : Nat}
    (bodies : PartConfines given kept s body) :
    Confines given kept s (forLoop ctx line counter last step body rounds) (fun _ _ => True) := by
  induction rounds generalizing s with
  | zero => exact confines_throw _
  | succ rounds ih =>
    rw [forLoop]
    refine ((counterValue_looks counter).confines s).bind fun v t _ same => ?_
    subst same
    split
    · exact confines_pure trivial
    · refine (bodies t (.refl t)).bind fun c u here _ => ?_
      split
      · exact confines_pure trivial
      · refine (tick_confines ctx line).bind fun _ w there _ => ?_
        have between := here.trans there
        refine (advance_confines (between.hides hides) line free step).bind fun _ x further _ => ?_
        have later := between.trans further
        exact ih (later.hides hides) (bodies.later later)

/-- The body of a FOR loop gives names in the frame of the loop alone. -/
theorem countedLoop_confines (hides : s.Hides kept) (line : Nat) (counter : Option String)
    (start last step : Number) {body : Run Completion}
    (bodies : ∀ t : RunState, t.Hides kept → Confines (fun _ _ => True) kept t body (fun _ _ => True)) :
    Confines given kept s (countedLoop ctx line counter start last step body) (fun _ _ => True) := by
  have inside := fun f member => hides.inside f (.tail _ member)
  refine (openCounter_confines hides line counter start step).opens fun opened t here known => ?_
  obtain ⟨frame, i⟩ := opened
  obtain ⟨rfl, opened⟩ := known
  have free : ¬kept s.memory.bindings.size := Memory.Hides.new hides
  have hidesIn : t.memory.Hides kept (frame :: t.env) :=
    (here.hides hides).opened opened.inside fun name i found => (opened.named name i found).2 ▸ free
  refine keepsTo_inEnvironment here opened.fresh inside ?_
  exact forLoop_confines hidesIn line free last step fun u there => bodies u (there.hides hidesIn)

end Parts

theorem call_confines (enters : EnterConfines enter) (hides : s.Hides kept) (asValue : Bool) (line : Nat) (callee : String)
    (count : Nat) {plain : Run (List Value)} (plains : Confines given kept s plain (fun _ _ => True))
    {bound : List Param → Run (List BindingId)}
    (bounds : ∀ params, Confines given kept s (bound params) (fun is _ => ∀ i ∈ is, ¬kept i)) :
    Confines given kept s (call ctx enter asValue line callee count plain bound) (fun _ _ => True) := by
  unfold call
  split
  · split
    · exact plains.bind fun vs t _ _ => callBuiltin_confines line callee vs
    · exact confines_throw _
  next r found =>
    dsimp only
    split
    · exact confines_throw _
    · split
      · exact confines_throw _
      · refine (bounds r.params).bind fun bindings t here free => ?_
        have hidesT := here.hides hides
        have inside := fun f member => hidesT.inside f (.tail _ member)
        refine (enters line r bindings hidesT.globals inside free given).bind fun c u _ _ => ?_
        exact ((resultOf_looks line r callee c).confines u).weaken fun _ _ _ _ => trivial

mutual

theorem eval_confines (enters : EnterConfines enter) :
    ∀ (e : Expr) {s : RunState}, s.Hides kept →
      Confines given kept s (eval ctx enter e) (fun _ _ => True)
  | .literal .., s, _ => by
    rw [eval]
    exact confines_pure trivial
  | .name place name, s, _ => by
    rw [eval]
    exact ((nameValue_looks ctx place.line name).confines s).weaken fun _ _ _ _ => trivial
  | .element place array indices, s, hides => by
    rw [eval]
    refine ((arrayNamed_looks place.line array).confines s).bind fun id t here _ => ?_
    refine (evalIndices_confines enters place.line indices (here.hides hides)).bind fun is u _ _ => ?_
    exact ((elementValue_looks place.line id is).confines u).weaken fun _ _ _ _ => trivial
  | .binary place op left right, s, hides => by
    rw [eval]
    split
    · refine (eval_confines enters left hides).bind fun l t here _ => ?_
      refine ((truth_looks place.line op.text l).confines t).bind fun b u there _ => ?_
      split
      · exact confines_pure trivial
      · refine (eval_confines enters right ((here.trans there).hides hides)).bind fun r w _ _ => ?_
        refine ((truth_looks place.line op.text r).confines w).bind fun _ _ _ _ => ?_
        exact confines_pure trivial
    · refine (eval_confines enters left hides).bind fun l t here _ => ?_
      refine (eval_confines enters right (here.hides hides)).bind fun r u _ _ => ?_
      exact ((binary_looks ctx place.line op l r).confines u).weaken fun _ _ _ _ => trivial
  | .unary place op operand, s, hides => by
    rw [eval]
    refine (eval_confines enters operand hides).bind fun v t _ _ => ?_
    exact ((unary_looks place.line op v).confines t).weaken fun _ _ _ _ => trivial
  | .call place callee arguments, s, hides => by
    rw [eval]
    refine call_confines enters hides true place.line callee arguments.length
      (evalAll_confines enters arguments hides) fun params => ?_
    exact (bindArguments_confines enters place.line callee params arguments hides).weaken
      fun _ _ _ known i member => (known i member).1
  | .range .., s, _ => by
    rw [eval]
    exact confines_throw _
  | .stray .., s, _ => by
    rw [eval]
    exact confines_throw _

theorem evalAll_confines (enters : EnterConfines enter) :
    ∀ (es : List Expr) {s : RunState}, s.Hides kept →
      Confines given kept s (evalAll ctx enter es) (fun _ _ => True)
  | [], s, _ => by
    rw [evalAll]
    exact confines_pure trivial
  | e :: rest, s, hides => by
    rw [evalAll]
    refine (eval_confines enters e hides).bind fun v t here _ => ?_
    exact (evalAll_confines enters rest (here.hides hides)).bind fun _ _ _ _ => confines_pure trivial

theorem evalIndices_confines (enters : EnterConfines enter) (line : Nat) :
    ∀ (es : List Expr) {s : RunState}, s.Hides kept →
      Confines given kept s (evalIndices ctx enter line es) (fun _ _ => True)
  | [], s, _ => by
    rw [evalIndices]
    exact confines_pure trivial
  | e :: rest, s, hides => by
    rw [evalIndices]
    refine (eval_confines enters e hides).bind fun v t here _ => ?_
    refine ((indexValue_looks line v).confines t).bind fun i u there _ => ?_
    refine (evalIndices_confines enters line rest ((here.trans there).hides hides)).bind fun _ _ _ _ => ?_
    exact confines_pure trivial

/-- Arguments are bound to what the caller can find, those that are passed by value to new bindings. -/
theorem bindArguments_confines (enters : EnterConfines enter) (line : Nat) (callee : String) :
    ∀ (params : List Param) (es : List Expr) {s : RunState}, s.Hides kept →
      Confines given kept s (bindArguments ctx enter line callee params es) (fun is _ =>
        ∀ i ∈ is, ¬kept i ∧ ∃ param, (param, i) ∈ params.zip is ∧
          (param.mode = .byValue → s.memory.bindings.size ≤ i))
  | [], es, s, _ => by
    rw [bindArguments]
    · exact confines_pure nofun
    · nofun
  | param :: params, [], s, _ => by
    rw [bindArguments]
    · exact confines_pure nofun
    · nofun
  | param :: params, e :: rest, s, hides => by
    rw [bindArguments]
    refine (bindArgument_confines hides line callee param e (eval_confines enters e hides)).bind
      fun i t here first => ?_
    refine (bindArguments_confines enters line callee params rest (here.hides hides)).bind
      fun is u _ others => confines_pure ?_
    intro j member
    rcases List.mem_cons.mp member with rfl | member
    · exact ⟨first.1, param, .head _, first.2⟩
    · obtain ⟨free, other, paired, new⟩ := others j member
      exact ⟨free, other, .tail _ paired,
        fun value => Nat.le_trans here.memory.bindings (new value)⟩

end

theorem evalPresent_confines (enters : EnterConfines enter) (hides : s.Hides kept) (value : Option Expr) :
    Confines given kept s (evalPresent ctx enter value) (fun _ _ => True) := by
  cases value with
  | none => exact confines_throw _
  | some e => exact eval_confines enters e hides

theorem forBounds_confines (enters : EnterConfines enter) (hides : s.Hides kept) (line : Nat)
    (start last step : Option Expr) :
    Confines given kept s (forBounds ctx enter line start last step) (fun _ _ => True) := by
  refine (evalPresent_confines enters hides start).bind fun v t here _ => ?_
  refine ((forBound_looks line .start v).confines t).bind fun first u there _ => ?_
  have hides := (here.trans there).hides hides
  refine (evalPresent_confines enters hides last).bind fun v t here _ => ?_
  refine ((forBound_looks line .stop v).confines t).bind fun final u there _ => ?_
  have hides := (here.trans there).hides hides
  cases step with
  | none => exact confines_pure trivial
  | some e =>
    refine (eval_confines enters e hides).bind fun v t here _ => ?_
    exact ((forBound_looks line .step v).confines t).bind fun stride u _ _ => confines_pure trivial

theorem evalShown_confines (enters : EnterConfines enter) (line : Nat) (es : List Expr) (hides : s.Hides kept) :
    Confines given kept s (evalShown ctx enter line es) (fun _ _ => True) := by
  induction es generalizing s with
  | nil => exact confines_pure trivial
  | cons e rest ih =>
    rw [evalShown]
    refine (eval_confines enters e hides).bind fun v t here _ => ?_
    refine ((shown_looks ctx line v).confines t).bind fun text u there _ => ?_
    exact (ih ((here.trans there).hides hides)).bind fun _ _ _ _ => confines_pure trivial

theorem labelMatches_confines (enters : EnterConfines enter) (line : Nat) (selector : Value) (label : Expr) (hides : s.Hides kept) :
    Confines given kept s (labelMatches ctx enter line selector label) (fun _ _ => True) := by
  unfold labelMatches
  split
  · refine (eval_confines enters _ hides).bind fun l t here _ => ?_
    refine (eval_confines enters _ (here.hides hides)).bind fun h u _ _ => ?_
    split
    · exact confines_throw _
    · exact confines_pure trivial
    · split
      · exact confines_throw _
      · exact confines_pure trivial
  · refine (eval_confines enters _ hides).bind fun v t _ _ => ?_
    split
    · exact confines_throw _
    · exact confines_pure trivial

theorem anyLabelMatches_confines (enters : EnterConfines enter) (line : Nat) (selector : Value) (labels : List Expr)
    (hides : s.Hides kept) :
    Confines given kept s (anyLabelMatches ctx enter line selector labels) (fun _ _ => True) := by
  induction labels generalizing s with
  | nil => exact confines_pure trivial
  | cons label rest ih =>
    rw [anyLabelMatches]
    refine (labelMatches_confines enters line selector label hides).bind fun taken t here _ => ?_
    split
    · exact confines_pure trivial
    · exact ih (here.hides hides)

/-- A store gives its name only if nothing has it. -/
theorem store_confines (enters : EnterConfines enter) (hides : s.Hides kept) (admits : s.Admits given) (line : Nat) (target : Target)
    (v : Value) : Confines given kept s (store ctx enter line target v) (fun _ _ => True) := by
  unfold store
  split
  · exact assign_confines hides admits line _ v
  next indices =>
    refine ((arrayNamed_looks line _).confines s).bind fun id t here _ => ?_
    refine (evalIndices_confines enters line indices (here.hides hides)).bind fun is u there _ => ?_
    exact assignElement_confines ((here.trans there).hides hides) line id is v
  · exact confines_throw _

theorem input_confines (enters : EnterConfines enter) (hides : s.Hides kept) (admits : s.Admits given) (line : Nat) (target : Target) :
    Confines given kept s (input ctx enter line target) (fun _ _ => True) :=
  (readInput_confines ctx line target).bind fun v _ here _ =>
    store_confines enters (here.hides hides) (here.admits hides admits) line target v

mutual

theorem exec_confines (enters : EnterConfines enter) (inRoutine : Bool) :
    ∀ (stmt : Stmt) {given : String → Option DataType → Prop} {s : RunState}, s.Hides kept → s.Admits given →
      (∀ name type, stmt.DeclaresAs name type → given name type) →
      Confines given kept s (exec ctx enter inRoutine stmt) (fun _ _ => True) := by
  intro stmt given s₀ hides₀ admits₀ declared
  rw [exec.eq_def]
  refine (begins_confines ctx stmt).bind fun _ s here _ => ?_
  have hides := here.hides hides₀
  have admits := here.admits hides₀ admits₀
  cases stmt with
  | declare place name typeName =>
    exact (declareVariable_confines hides (declared name _ .declare)).bind fun _ _ _ _ =>
      confines_pure trivial
  | declareArray place name bounds elementType =>
    exact (declareArray_confines hides ctx place.line (declared name _ .declareArray) bounds
      elementType).bind fun _ _ _ _ => confines_pure trivial
  | constant place name value =>
    refine (evalPresent_confines enters hides value).bind fun v t here _ => ?_
    exact (defineConstant_confines (here.hides hides) (fun _ => declared name _ .constant) v).bind fun _ _ _ _ =>
      confines_pure trivial
  | assign place target value =>
    refine (eval_confines enters value hides).bind fun v t here _ => ?_
    exact (store_confines enters (here.hides hides) (here.admits hides admits) place.line target v).bind
      fun _ _ _ _ => confines_pure trivial
  | ifThen place condition thenBranch elseBranch =>
    refine (evalPresent_confines enters hides condition).bind fun v t here _ => ?_
    refine ((conditionValue_looks place.line .IF v).confines t).bind fun holds u there _ => ?_
    have further := here.trans there
    split
    · exact execBlock_confines enters inRoutine thenBranch (further.hides hides) (further.admits hides admits)
        fun stmt member name type declares => declared name type (.thenBranch member declares)
    · exact execOtherwise_confines enters inRoutine elseBranch (further.hides hides) (further.admits hides admits)
        fun block taken stmt member name type declares => declared name type (.elseBranch taken member declares)
  | whileDo place condition body =>
    refine confines_get ?_
    refine whileLoop_confines place.line (fun t here => ?_) fun t here => ?_
    · refine (evalPresent_confines enters (here.hides hides) condition).bind fun v u _ _ => ?_
      exact ((conditionValue_looks place.line .WHILE v).confines u).weaken fun _ _ _ _ => trivial
    · exact execBlock_confines enters inRoutine body (here.hides hides) (here.admits hides admits)
        fun stmt member name type declares => declared name type (.whileDo member declares)
  | repeatUntil place body condition =>
    refine confines_get ?_
    refine repeatLoop_confines place.line (fun t here => ?_) fun t here => ?_
    · refine (evalPresent_confines enters (here.hides hides) condition).bind fun v u _ _ => ?_
      exact ((conditionValue_looks place.line .UNTIL v).confines u).weaken fun _ _ _ _ => trivial
    · exact execBlock_confines enters inRoutine body (here.hides hides) (here.admits hides admits)
        fun stmt member name type declares => declared name type (.repeatUntil member declares)
  | forLoop place counter start last step body =>
    suffices whole : Confines given kept s (forBounds ctx enter place.line start last step >>= fun bounds =>
        countedLoop ctx place.line counter bounds.1 bounds.2.1 bounds.2.2 (execBlock ctx enter inRoutine body))
        (fun _ _ => True) by
      unfold forBounds at whole
      cases step <;> simpa only [bind_assoc, pure_bind] using whole
    refine (forBounds_confines enters hides place.line start last step).bind fun bounds t here _ => ?_
    -- The body can give any name, in a frame that nothing outside of the loop can see.
    exact countedLoop_confines (here.hides hides) place.line counter _ _ _ fun u hides =>
      execBlock_confines enters inRoutine body hides (fun _ _ => trivial) fun _ _ _ _ _ => trivial
  | caseOf place selector branches otherwise =>
    refine (evalPresent_confines enters hides selector).bind fun v t here _ => ?_
    refine (execBranches_confines enters inRoutine place.line v branches (here.hides hides) (here.admits hides admits)
      fun b taken stmt member name type declares => declared name type (.branch taken member declares)).bind
      fun taken u there _ => ?_
    have further := here.trans there
    split
    · exact confines_pure trivial
    · exact execOtherwise_confines enters inRoutine otherwise (further.hides hides) (further.admits hides admits)
        fun block taken stmt member name type declares => declared name type (.otherwise taken member declares)
  | routine => exact confines_pure trivial
  | giveBack place value =>
    refine giveBack_confines inRoutine place.line ?_
    cases value with
    | none => exact confines_pure trivial
    | some e => exact eval_confines enters e hides
  | call place callPlace callee arguments =>
    refine Confines.bind (Confines.discard (call_confines enters hides false callPlace.line callee
      arguments.length (evalAll_confines enters arguments hides) fun params => ?_))
      fun _ _ _ _ => confines_pure trivial
    exact (bindArguments_confines enters callPlace.line callee params arguments hides).weaken
      fun _ _ _ known i member => (known i member).1
  | strayCall => exact confines_throw _
  | output place values =>
    refine (evalShown_confines enters place.line values hides).bind fun parts t _ _ => ?_
    exact (emit_confines ctx place.line _).bind fun _ _ _ _ => confines_pure trivial
  | input place target =>
    exact (input_confines enters hides admits place.line target).bind fun _ _ _ _ =>
      confines_pure trivial
  | stray => exact confines_throw _

theorem execBlock_confines (enters : EnterConfines enter) (inRoutine : Bool) :
    ∀ (block : List Stmt) {given : String → Option DataType → Prop} {s : RunState}, s.Hides kept → s.Admits given →
      (∀ stmt ∈ block, ∀ name type, stmt.DeclaresAs name type → given name type) →
      Confines given kept s (execBlock ctx enter inRoutine block) (fun _ _ => True)
  | [], given, s, _, _, _ => by
    rw [execBlock]
    exact confines_pure trivial
  | stmt :: rest, given, s, hides, admits, declared => by
    rw [execBlock]
    refine (exec_confines enters inRoutine stmt hides admits (declared stmt (.head _))).bind fun c t here _ => ?_
    split
    · exact confines_pure trivial
    · exact execBlock_confines enters inRoutine rest (here.hides hides) (here.admits hides admits)
        fun stmt member => declared stmt (.tail _ member)

theorem execOtherwise_confines (enters : EnterConfines enter) (inRoutine : Bool) :
    ∀ (otherwise : Option (List Stmt)) {given : String → Option DataType → Prop} {s : RunState}, s.Hides kept →
      s.Admits given → (∀ block, otherwise = some block → ∀ stmt ∈ block, ∀ name type,
        stmt.DeclaresAs name type → given name type) →
      Confines given kept s (execOtherwise ctx enter inRoutine otherwise) (fun _ _ => True)
  | none, given, s, _, _, _ => by
    rw [execOtherwise]
    exact confines_pure trivial
  | some block, given, s, hides, admits, declared => by
    rw [execOtherwise]
    exact execBlock_confines enters inRoutine block hides admits (declared block rfl)

theorem execBranches_confines (enters : EnterConfines enter) (inRoutine : Bool) (line : Nat) (selector : Value) :
    ∀ (branches : List (Branch Stmt)) {given : String → Option DataType → Prop} {s : RunState}, s.Hides kept →
      s.Admits given → (∀ b ∈ branches, ∀ stmt ∈ b.body, ∀ name type,
        stmt.DeclaresAs name type → given name type) →
      Confines given kept s (execBranches ctx enter inRoutine line selector branches) (fun _ _ => True)
  | [], given, s, _, _, _ => by
    rw [execBranches]
    exact confines_pure trivial
  | ⟨labels, body, branchLine⟩ :: rest, given, s, hides, admits, declared => by
    rw [execBranches]
    refine (anyLabelMatches_confines enters _ selector labels hides).bind fun taken t here _ => ?_
    split
    · exact (execBlock_confines enters inRoutine body (here.hides hides) (here.admits hides admits)
        (declared _ (.head _))).bind fun _ _ _ _ => confines_pure trivial
    · exact execBranches_confines enters inRoutine line selector rest (here.hides hides) (here.admits hides admits)
        fun b member => declared b (.tail _ member)

end

/-- A FOR statement gives no name in its environment. -/
theorem exec_forLoop_confines (enters : EnterConfines enter) (inRoutine : Bool) {place : Position}
    {counter : Option String} {start last step : Option Expr} {body : List Stmt} (hides : s.Hides kept) :
    Confines given kept s (exec ctx enter inRoutine (.forLoop place counter start last step body))
      (fun _ _ => True) := by
  rw [exec_forLoop]
  refine (begins_confines ctx _).bind fun _ t here _ => ?_
  refine (forBounds_confines enters (here.hides hides) place.line start last step).bind fun _ u there _ => ?_
  exact countedLoop_confines (there.hides (here.hides hides)) place.line counter _ _ _ fun _ hides =>
    execBlock_confines enters inRoutine body hides (fun _ _ => trivial) fun _ _ _ _ _ => trivial

/-- Entering a routine, however deep. -/
theorem enter_confines (ctx : RunContext) (depth : Nat) : EnterConfines (Run.enter ctx depth) := by
  induction depth with
  | zero => exact fun line r bindings _ _ _ given => confines_throw _
  | succ depth enters =>
    intro kept s line r bindings hides inside free given
    unfold Run.enter
    refine (openFrame_confines inside r.params bindings).opens fun frame t here opened => ?_
    have hidesNow : t.memory.Hides kept Memory.globals := by
      refine ⟨fun f member => Nat.lt_of_lt_of_le (hides.inside f member) here.memory.frames,
        fun f member name i found => ?_,
        fun i keeps => Nat.lt_of_lt_of_le (hides.known i keeps) here.memory.bindings⟩
      rw [here.memory.untouched (hides.inside f member)] at found
      exact hides.free f member name i found
    have hidesIn : t.memory.Hides kept (frame :: Memory.globals) := by
      refine hidesNow.opened opened.inside fun name i found => ?_
      obtain ⟨param, paired, -⟩ := opened.named name i found
      exact free i (List.of_mem_zip paired).2
    refine (keepsTo_inEnvironment here opened.fresh inside ?_).thenAtLine line
    exact execBlock_confines enters true r.body hidesIn (fun _ _ => trivial) fun _ _ _ _ _ => trivial

end Run

end Pseudocode
