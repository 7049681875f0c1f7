import Pseudocode.Proofs.Forward
import Pseudocode.Proofs.WholeLoops

/-! Trees as the reader builds them. Whatever is wrong with a text, no node of its tree stands where it
has no meaning: every operator is known, a range is a label of a CASE branch, and what cannot be read is
left out. -/
namespace Pseudocode

def BinaryOp.isKnown : BinaryOp → Bool
  | .unknown _ => false
  | _ => true

def UnaryOp.isKnown : UnaryOp → Bool
  | .unknown _ => false
  | _ => true

mutual

/-- Every node of the expression has a meaning as a part of it. -/
def Expr.tidy : Expr → Bool
  | .literal .. | .name .. => true
  | .element _ _ indices => exprsTidy indices
  | .binary _ op left right => op.isKnown && left.tidy && right.tidy
  | .unary _ op operand => op.isKnown && operand.tidy
  | .call _ _ arguments => exprsTidy arguments
  | .range .. | .stray .. => false

def exprsTidy : List Expr → Bool
  | [] => true
  | e :: rest => e.tidy && exprsTidy rest

end

/-- The expression is tidy, or a range from one tidy expression to another. -/
def Expr.tidyLabel : Expr → Bool
  | .range _ low high => low.tidy && high.tidy
  | e => e.tidy

def Target.tidy : Target → Bool
  | .variable .. => true
  | .element _ _ indices => exprsTidy indices
  | .stray .. => false

mutual

/-- Every node of the statement has a meaning as a part of it. -/
def Stmt.tidy : Stmt → Bool
  | .declare .. | .declareArray .. => true
  | .constant _ _ value => value.all Expr.tidy
  | .assign _ target value => target.tidy && value.tidy
  | .ifThen _ condition thenBranch elseBranch =>
    condition.all Expr.tidy && blockTidy thenBranch && otherwiseTidy elseBranch
  | .whileDo _ condition body => condition.all Expr.tidy && blockTidy body
  | .repeatUntil _ body condition => blockTidy body && condition.all Expr.tidy
  | .forLoop _ _ start stop step body =>
    start.all Expr.tidy && stop.all Expr.tidy && step.all Expr.tidy && blockTidy body
  | .caseOf _ selector branches otherwise =>
    selector.all Expr.tidy && branchesTidy branches && otherwiseTidy otherwise
  | .routine ⟨_, _, _, _, _, body⟩ => blockTidy body
  | .giveBack _ value => value.all Expr.tidy
  | .call _ _ _ arguments => exprsTidy arguments
  | .output _ values => exprsTidy values
  | .input _ target => target.tidy
  | .strayCall .. | .stray .. => false

def blockTidy : List Stmt → Bool
  | [] => true
  | s :: rest => s.tidy && blockTidy rest

def otherwiseTidy : Option (List Stmt) → Bool
  | none => true
  | some block => blockTidy block

def branchesTidy : List (Branch Stmt) → Bool
  | [] => true
  | ⟨labels, body, _⟩ :: rest => labels.all Expr.tidyLabel && blockTidy body && branchesTidy rest

end

theorem exprsTidy_iff {es : List Expr} : exprsTidy es = true ↔ ∀ e ∈ es, e.tidy = true := by
  induction es with
  | nil => simp [exprsTidy]
  | cons e rest ih => simp [exprsTidy, ih]

theorem blockTidy_iff {block : List Stmt} : blockTidy block = true ↔ ∀ s ∈ block, s.tidy = true := by
  induction block with
  | nil => simp [blockTidy]
  | cons s rest ih => simp [blockTidy, ih]

theorem blockTidy_append (first rest : List Stmt) :
    blockTidy (first ++ rest) = (blockTidy first && blockTidy rest) := by
  induction first with
  | nil => rfl
  | cons s first ih => simp [blockTidy, ih, Bool.and_assoc]

theorem branchesTidy_append (first rest : List (Branch Stmt)) :
    branchesTidy (first ++ rest) = (branchesTidy first && branchesTidy rest) := by
  induction first with
  | nil => rfl
  | cons b first ih => simp [branchesTidy, ih, Bool.and_assoc]

theorem Expr.tidyLabel_of_tidy {e : Expr} (tidy : e.tidy = true) : e.tidyLabel = true := by
  cases e with
  | range => cases tidy
  | _ => exact tidy

/-- No statement of the program holds a node without a meaning. -/
def Program.Tidy (p : Program) : Prop := blockTidy p.body = true

theorem Program.Tidy.routines {p : Program} (tidy : p.Tidy) :
    ∀ r ∈ p.routines, blockTidy r.body = true := by
  intro r member
  obtain ⟨s, stated, same⟩ := List.mem_filterMap.mp member
  cases s with
  | routine q =>
    cases same
    simpa only [Stmt.tidy] using blockTidy_iff.mp tidy _ stated
  | _ => cases same

namespace Parse

abbrev Tidies (production : Parse Expr) : Prop := Yields production (fun e => e.tidy = true)

section Expressions

theorem isKnown_of_operator (found : operator? kind = some (op, rank)) : op.isKnown = true := by
  unfold operator? at found
  split at found
  all_goals cases found <;> rfl

theorem chain_tidy {operand : Parse Expr} (each : Tidies operand) (line rank fuel : Nat) {left : Expr}
    (tidy : left.tidy = true) : Tidies (chain line rank operand fuel left) := by
  induction fuel generalizing left with
  | zero => exact yields_pure tidy
  | succ fuel ih =>
    unfold chain
    refine .after fun token => ?_
    split
    · exact yields_pure tidy
    next op opRank found =>
      split
      · refine .after fun _ => .after fun _ => each.bind fun right known => ih ?_
        simp [Expr.tidy, isKnown_of_operator found, tidy, known]
      · exact yields_pure tidy

theorem ranked_tidy {operand : Parse Expr} (each : Tidies operand) (line rank : Nat) :
    Tidies (ranked line operand rank) := by
  induction rank with
  | zero => exact each
  | succ rank ih =>
    unfold ranked
    exact ih.bind fun left tidy => .after fun fuel => chain_tidy ih line _ fuel tidy

theorem afterCommas_yields {good : α → Prop} {one : Parse α} (each : Yields one good) (fuel : Nat) :
    Yields (afterCommas one fuel) (fun all => ∀ a ∈ all, good a) := by
  induction fuel with
  | zero => exact yields_pure nofun
  | succ fuel ih =>
    unfold afterCommas
    refine .after fun more => ?_
    split
    · exact each.bind fun first known => ih.bind fun rest all =>
        yields_pure (List.forall_mem_cons.mpr ⟨known, all⟩)
    · exact yields_pure nofun

theorem commaSeparated_yields {good : α → Prop} {one : Parse α} (each : Yields one good) :
    Yields (commaSeparated one) (fun all => ∀ a ∈ all, good a) := by
  unfold commaSeparated
  exact each.bind fun first known => .after fun fuel => (afterCommas_yields each fuel).bind
    fun rest all => yields_pure (List.forall_mem_cons.mpr ⟨known, all⟩)

/-- Expressions that are all tidy. -/
abbrev TidiesAll (production : Parse (List Expr)) : Prop :=
  Yields production (fun es => ∀ e ∈ es, e.tidy = true)

theorem indexGroups_tidy {item : Parse Expr} (each : Tidies item) (line fuel : Nat) :
    TidiesAll (indexGroups line item fuel) := by
  induction fuel with
  | zero => exact yields_pure nofun
  | succ fuel ih =>
    unfold indexGroups
    refine .after fun token => ?_
    split
    · refine .after fun _ => (commaSeparated_yields each).bind fun group known => .after fun _ => ?_
      exact ih.bind fun rest all => yields_pure (List.forall_mem_append.mpr ⟨known, all⟩)
    · exact yields_pure nofun

theorem argumentList_tidy {item : Parse Expr} (each : Tidies item) : TidiesAll (argumentList item) := by
  have closed (opened : Token) {arguments : List Expr} (known : ∀ e ∈ arguments, e.tidy = true) :
      TidiesAll (close .closeParen opened >>= fun _ => pure arguments) :=
    .after fun _ => yields_pure known
  unfold argumentList
  refine .after fun opened => .after fun empty => ?_
  dsimp only
  split
  · exact closed opened nofun
  · exact (commaSeparated_yields each).bind fun arguments known => closed opened known

theorem primary_tidy {inner : Parse Expr} (each : Tidies inner) (line : Nat) (enclosed : Bool) :
    Tidies (primary line inner enclosed) := by
  have full : Tidies (ranked line inner fullRank) := ranked_tidy each line fullRank
  unfold primary
  refine .after fun token => ?_
  split
  · exact .after fun _ => yields_throw _
  · split
    · exact yields_throw _
    · exact .after fun _ => full.bind fun e tidy => .after fun _ => yields_pure tidy
    · refine .after fun starts => ?_
      split
      · exact .after fun _ => (argumentList_tidy full).bind fun arguments known =>
          yields_pure (exprsTidy_iff.mpr known)
      · refine .after fun _ => .after fun fuel => (indexGroups_tidy full line fuel).bind
          fun indices known => ?_
        split
        · exact yields_pure rfl
        · exact yields_pure (exprsTidy_iff.mpr known)
    · split
      · exact .after fun _ => yields_pure rfl
      · split <;> exact yields_throw _

theorem negated_tidy {e : Expr} (tidy : e.tidy = true) (p : Position) :
    (negated p e).tidy = true := by
  cases e with
  | literal place value => cases value <;> rfl
  | _ => exact tidy

theorem operand_tidy (line room : Nat) (enclosed : Bool) : Tidies (operand line room enclosed) := by
  induction room generalizing enclosed with
  | zero => exact .after fun _ => yields_throw _
  | succ room ih =>
    unfold operand
    refine .after fun token => ?_
    split
    · exact .after fun _ => (ranked_tidy (ih enclosed) line notRank).bind fun e tidy =>
        yields_pure tidy
    · split
      · exact .after fun _ => (ih enclosed).bind fun e tidy =>
          yields_pure (negated_tidy tidy token.position)
      · exact primary_tidy (ih true) line enclosed

theorem enclosedExpression_tidy (room line : Nat) : Tidies (enclosedExpression room line) :=
  ranked_tidy (operand_tidy line room true) line fullRank

theorem expression_tidy (room : Nat) : Tidies (expression room) := by
  unfold expression
  exact .after fun token => .after fun before => .after fun _ =>
    ranked_tidy (operand_tidy _ room false) _ fullRank

end Expressions

section Simple

/-- Statements that are all tidy. -/
abbrev TidiesBlock (production : Parse (List Stmt)) : Prop :=
  Yields production (fun block => blockTidy block = true)

theorem tidy_single {s : Stmt} (tidy : s.tidy = true) : blockTidy [s] = true := by
  simp [blockTidy, tidy]

theorem declaration_tidy (start : Token) : TidiesBlock (declaration start) := by
  have all (names : List String) (make : String → Stmt) (each : ∀ name, (make name).tidy = true) :
      blockTidy (names.map make) = true := by
    refine blockTidy_iff.mpr fun s member => ?_
    obtain ⟨name, -, rfl⟩ := List.mem_map.mp member
    exact each name
  unfold declaration
  refine .after fun first => .after fun fuel => .after fun others => .after fun _ =>
    .after fun array => ?_
  split
  · exact .after fun bounds => .after fun _ => .after fun elementType =>
      yields_pure (all _ _ fun name => rfl)
  · exact .after fun type => yields_pure (all _ _ fun name => rfl)

theorem constantDeclaration_tidy (room : Nat) (start : Token) :
    TidiesBlock (constantDeclaration room start) := by
  have value (name : String) : TidiesBlock (expression room >>= fun e =>
      pure [.constant start.position name (some e)]) :=
    (expression_tidy room).bind fun e tidy => yields_pure (tidy_single tidy)
  unfold constantDeclaration
  refine .after fun token => .after fun assigned => ?_
  split
  · exact value _
  · exact .after fun _ => value _

theorem target_tidy (room : Nat) : Yields (target room) (fun t => t.tidy = true) := by
  unfold target
  refine .after fun before => .after fun name => .after fun fuel => ?_
  refine (indexGroups_tidy (enclosedExpression_tidy room name.line) name.line fuel).bind
    fun indices known => ?_
  split
  · exact yields_pure rfl
  · exact yields_pure (exprsTidy_iff.mpr known)

theorem setStatement_tidy (room : Nat) (start : Token) : TidiesBlock (setStatement room start) := by
  unfold setStatement
  refine (target_tidy room).bind fun destination tidy => .after fun _ => ?_
  exact (expression_tidy room).bind fun e tidy' =>
    yields_pure (tidy_single (by simp [Stmt.tidy, tidy, tidy']))

theorem moreValues_tidy (room line fuel : Nat) : TidiesAll (moreValues room line fuel) := by
  induction fuel with
  | zero => exact yields_pure nofun
  | succ fuel ih =>
    unfold moreValues
    refine .after fun token => ?_
    split
    · exact .after fun _ => (expression_tidy room).bind fun e tidy => ih.bind fun rest all =>
        yields_pure (List.forall_mem_cons.mpr ⟨tidy, all⟩)
    · exact yields_pure nofun

theorem outputStatement_tidy (room : Nat) (start : Token) :
    TidiesBlock (outputStatement room start) := by
  unfold outputStatement
  refine (expression_tidy room).bind fun e tidy => .after fun fuel => ?_
  exact (moreValues_tidy room start.line fuel).bind fun rest all =>
    yields_pure (tidy_single (exprsTidy_iff.mpr (List.forall_mem_cons.mpr ⟨tidy, all⟩)))

theorem assignmentOrCall_tidy (room : Nat) : TidiesBlock (assignmentOrCall room) := by
  have value (start : Token) {destination : Target} (tidy : destination.tidy = true) :
      TidiesBlock (expression room >>= fun e => pure [.assign start.position destination e]) :=
    (expression_tidy room).bind fun e tidy' =>
      yields_pure (tidy_single (by simp [Stmt.tidy, tidy, tidy']))
  unfold assignmentOrCall
  refine .after fun start => .after fun starts => ?_
  split
  · exact .after fun _ => (argumentList_tidy (enclosedExpression_tidy room _)).bind
      fun arguments known => yields_pure (tidy_single (exprsTidy_iff.mpr known))
  · refine (target_tidy room).bind fun destination tidy => .after fun assigned => ?_
    split
    · exact value start tidy
    · exact .after fun _ => value start tidy

theorem callStatement_tidy (room : Nat) (start : Token) : TidiesBlock (callStatement room start) := by
  have made (name : Token) {arguments : List Expr} (known : ∀ e ∈ arguments, e.tidy = true) :
      TidiesBlock (pure [.call start.position name.position name.lexeme arguments]) :=
    yields_pure (tidy_single (exprsTidy_iff.mpr known))
  unfold callStatement
  refine .after fun name => .after fun next => ?_
  split
  · exact (argumentList_tidy (enclosedExpression_tidy room _)).bind fun arguments known =>
      made name known
  · exact made name nofun

theorem returnStatement_tidy (room : Nat) (start : Token) :
    TidiesBlock (returnStatement room start) := by
  unfold returnStatement
  refine .after fun next => .after fun ended => ?_
  split
  · exact yields_pure (tidy_single rfl)
  · exact (expression_tidy room).bind fun e tidy => yields_pure (tidy_single tidy)

end Simple

section Blocks

/-- A header that is missing, or as described. -/
abbrev Heads (production : Parse (Option Expr)) : Prop :=
  Yields production (fun e => e.all Expr.tidy = true)

theorem yields_header {m : Parse α} {good : α → Prop} (each : Yields m good) :
    Yields (header m) (fun a => ∀ b ∈ a, good b) := by
  have missing (fault : SyntaxFault) : Yields (headerMissing fault : Parse (Option α))
      (fun a => ∀ b ∈ a, good b) := by
    unfold headerMissing
    exact .after fun _ => .after fun _ => yields_pure nofun
  rw [header_eq]
  refine yields_tryCatch (each.map fun a known b same => ?_) missing
  cases same
  exact known

theorem header_tidy {m : Parse Expr} (each : Tidies m) : Heads (header m) := by
  intro s
  refine (yields_header each s).mono (fun e _ known => ?_) fun _ _ _ => trivial
  cases e with
  | none => rfl
  | some e => exact known e rfl

theorem statements_tidy {one : Parse (List Stmt)} (each : TidiesBlock one) (closers : List Keyword)
    (fuel : Nat) : TidiesBlock (statements one closers fuel) := by
  induction fuel with
  | zero => exact yields_pure rfl
  | succ fuel ih =>
    unfold statements
    refine .after fun token => .after fun ended => ?_
    split
    · exact yields_pure rfl
    · split
      · split
        · exact yields_pure rfl
        · exact .after fun _ => .after fun _ => ih
      · refine (yields_orSkip each rfl).bind fun first tidy => ih.bind fun rest tidy' => ?_
        exact yields_pure (by rw [blockTidy_append, tidy, tidy']; rfl)

variable {statement : Nest → Parse (List Stmt)}

theorem block_tidy (each : ∀ nest, TidiesBlock (statement nest)) (nest : Nest)
    (closers : List Keyword) : TidiesBlock (block statement nest closers) := by
  unfold block
  split
  · exact .after fun _ => yields_throw _
  · exact .after fun _ => statements_tidy (each _) _ _

theorem ifStatement_tidy (each : ∀ nest, TidiesBlock (statement nest)) (nest : Nest)
    (start : Token) : TidiesBlock (ifStatement statement nest start) := by
  have condition : Tidies (do
      let condition ← expression nest.room
      discard <| expectWord .THEN "IF condition"
      return condition) :=
    (expression_tidy _).bind fun e tidy => .after fun _ => yields_pure tidy
  unfold ifStatement
  refine (header_tidy condition).bind fun condition tidy => ?_
  refine (block_tidy each nest _).bind fun thenBranch tidyThen => .after fun found => ?_
  have finished (elseBranch : Option (List Stmt)) (tidyElse : otherwiseTidy elseBranch = true) :
      TidiesBlock (do
        discard <| expectTerminator .ENDIF "IF block" start
        return [.ifThen start.position condition thenBranch elseBranch]) :=
    .after fun _ => yields_pure (tidy_single (by simp [Stmt.tidy, tidy, tidyThen, tidyElse]))
  split
  · have elseBranch : Yields (some <$> block statement nest [.ENDIF])
        (fun otherwise => otherwiseTidy otherwise = true) :=
      (block_tidy each nest _).map fun block tidy => tidy
    exact elseBranch.bind finished
  · exact (yields_pure (by rfl)).bind finished

theorem whileStatement_tidy (each : ∀ nest, TidiesBlock (statement nest)) (nest : Nest)
    (start : Token) : TidiesBlock (whileStatement statement nest start) := by
  have condition : Tidies (do
      let condition ← expression nest.room
      discard <| acceptWord .DO
      return condition) :=
    (expression_tidy _).bind fun e tidy => .after fun _ => yields_pure tidy
  unfold whileStatement
  refine (header_tidy condition).bind fun condition tidy => ?_
  refine (block_tidy each nest _).bind fun body tidyBody => .after fun _ => ?_
  exact yields_pure (tidy_single (by simp [Stmt.tidy, tidy, tidyBody]))

theorem repeatStatement_tidy (each : ∀ nest, TidiesBlock (statement nest)) (nest : Nest)
    (start : Token) : TidiesBlock (repeatStatement statement nest start) := by
  unfold repeatStatement
  refine (block_tidy each nest _).bind fun body tidyBody => .after fun ended => ?_
  have finished (condition : Option Expr) (tidy : condition.all Expr.tidy = true) :
      TidiesBlock (pure [.repeatUntil start.position body condition]) :=
    yields_pure (tidy_single (by simp [Stmt.tidy, tidy, tidyBody]))
  split
  · exact (header_tidy (expression_tidy _)).bind finished
  · exact (yields_pure (by rfl)).bind finished

theorem forStep_tidy (room : Nat) : Heads (forStep room) := by
  unfold forStep
  refine .after fun found => ?_
  split
  · exact (expression_tidy room).bind fun e tidy => yields_pure tidy
  · exact yields_pure rfl

theorem forHeader_tidy (room : Nat) : Yields (forHeader room) (fun read =>
    read.2.1.tidy = true ∧ read.2.2.1.tidy = true ∧ read.2.2.2.all Expr.tidy = true) := by
  unfold forHeader
  refine .after fun name => ?_
  dsimp only
  have bounds : Yields (do
      let first ← expression room
      discard <| expectWord .TO "FOR start value"
      let last ← expression room
      return (name.lexeme, first, last, ← forStep room)) (fun read =>
        read.2.1.tidy = true ∧ read.2.2.1.tidy = true ∧ read.2.2.2.all Expr.tidy = true) :=
    (expression_tidy room).bind fun first tidy => .after fun _ => (expression_tidy room).bind
      fun last tidy' => (forStep_tidy room).bind fun step tidy'' => yields_pure ⟨tidy, tidy', tidy''⟩
  refine .after fun assigned => ?_
  split
  · exact bounds
  · exact .after fun _ => bounds

theorem forStatement_tidy (each : ∀ nest, TidiesBlock (statement nest)) (nest : Nest)
    (start : Token) : TidiesBlock (forStatement statement nest start) := by
  unfold forStatement
  refine (yields_header (forHeader_tidy nest.room)).bind fun read known => ?_
  refine (block_tidy each nest _).bind fun body tidyBody => .after fun found => ?_
  have finished : blockTidy [.forLoop start.position (read.map (·.1)) (read.map (·.2.1))
      (read.map (·.2.2.1)) (read.bind (·.2.2.2)) body] = true := by
    apply tidy_single
    cases read with
    | none => simp [Stmt.tidy, tidyBody]
    | some read =>
      obtain ⟨tidy, tidy', tidy''⟩ := known read rfl
      simp [Stmt.tidy, tidyBody, tidy, tidy', tidy'']
  split
  · exact .after fun _ => yields_pure finished
  · exact .after fun _ => yields_pure finished

theorem caseHeader_tidy (room : Nat) : Tidies (caseHeader room) := by
  unfold caseHeader
  refine .after fun found => ?_
  split
  · exact expression_tidy room
  · exact (expression_tidy room).bind fun e tidy => .after fun _ => yields_pure tidy

theorem caseLabel_tidy (room : Nat) : Yields (caseLabel room) (fun e => e.tidyLabel = true) := by
  unfold caseLabel
  refine .after fun token => .after fun _ => (operand_tidy _ room false).bind fun low tidy => ?_
  refine .after fun found => ?_
  split
  · exact (operand_tidy _ room false).bind fun high tidy' =>
      yields_pure (by simp [Expr.tidyLabel, tidy, tidy'])
  · exact yields_pure (Expr.tidyLabel_of_tidy tidy)

theorem branchBody_tidy {one : Parse (List Stmt)} (each : TidiesBlock one) (fuel : Nat) :
    TidiesBlock (branchBody one fuel) := by
  induction fuel with
  | zero => exact yields_pure rfl
  | succ fuel ih =>
    unfold branchBody
    refine .after fun ended => .after fun token => .after fun starts => ?_
    split
    · exact yields_pure rfl
    · refine (yields_orSkip each rfl).bind fun first tidy => ih.bind fun rest tidy' => ?_
      exact yields_pure (by rw [blockTidy_append, tidy, tidy']; rfl)

theorem caseBranch_tidy (each : ∀ nest, TidiesBlock (statement nest)) (nest : Nest) :
    Yields (caseBranch statement nest) (fun b => branchesTidy [b] = true) := by
  unfold caseBranch
  refine .after fun _ => (commaSeparated_yields (caseLabel_tidy nest.room)).bind fun labels known => ?_
  refine .after fun _ => .after fun fuel => (branchBody_tidy (each nest) fuel).bind fun body tidy => ?_
  refine yields_pure ?_
  simp only [branchesTidy, tidy, Bool.and_true, List.all_eq_true]
  exact known

theorem caseBranches_tidy (each : ∀ nest, TidiesBlock (statement nest)) (nest : Nest) (fuel : Nat) :
    Yields (caseBranches statement nest fuel)
      (fun read => branchesTidy read.1 = true ∧ otherwiseTidy read.2 = true) := by
  induction fuel with
  | zero => exact yields_pure ⟨rfl, rfl⟩
  | succ fuel ih =>
    unfold caseBranches
    refine .after fun token => .after fun ended => ?_
    split
    · exact yields_pure ⟨rfl, rfl⟩
    · split
      · exact .after fun _ => .after fun _ => (block_tidy each nest _).bind fun block tidy =>
          yields_pure ⟨rfl, tidy⟩
      · exact yields_pure ⟨rfl, rfl⟩
      · have first : Yields (some <$> caseBranch statement nest)
            (fun branch => branchesTidy branch.toList = true) :=
          (caseBranch_tidy each nest).map fun b tidy => tidy
        refine (yields_orSkip first rfl).bind fun branch tidy => ih.bind fun read both => ?_
        exact yields_pure ⟨by rw [branchesTidy_append, tidy, both.1]; rfl, both.2⟩

theorem caseStatement_tidy (each : ∀ nest, TidiesBlock (statement nest)) (nest : Nest)
    (start : Token) : TidiesBlock (caseStatement statement nest start) := by
  unfold caseStatement
  refine (header_tidy (caseHeader_tidy nest.room)).bind fun selector tidy => .after fun fuel => ?_
  refine (caseBranches_tidy each _ fuel).bind fun read both => .after fun _ => ?_
  exact yields_pure (tidy_single (by simp [Stmt.tidy, tidy, both]))

theorem routineDeclaration_tidy (each : ∀ nest, TidiesBlock (statement nest)) (nest : Nest)
    (start : Token) (kind : RoutineKind) :
    TidiesBlock (routineDeclaration statement nest start kind) := by
  unfold routineDeclaration
  refine .after fun read => (block_tidy each nest _).bind fun body tidy => .after fun _ => ?_
  split
  · exact yields_pure (tidy_single (by simp [Stmt.tidy, tidy]))
  · exact .after fun _ => yields_pure rfl

theorem statement_tidy (fuel : Nat) : ∀ nest, TidiesBlock (Parse.statement fuel nest) := by
  induction fuel with
  | zero => exact fun nest => .after fun _ => yields_throw _
  | succ fuel each =>
    intro nest
    unfold Parse.statement
    refine .after fun start => ?_
    dsimp only
    split
    · exact assignmentOrCall_tidy _
    · exact .after fun _ => declaration_tidy start
    · exact .after fun _ => constantDeclaration_tidy _ start
    · exact .after fun _ => setStatement_tidy _ start
    · exact .after fun _ => (target_tidy _).bind fun target tidy => yields_pure (tidy_single tidy)
    · exact .after fun _ => outputStatement_tidy _ start
    · exact .after fun _ => ifStatement_tidy each nest start
    · exact .after fun _ => caseStatement_tidy each nest start
    · exact .after fun _ => whileStatement_tidy each nest start
    · exact .after fun _ => repeatStatement_tidy each nest start
    · exact .after fun _ => forStatement_tidy each nest start
    · exact .after fun _ => routineDeclaration_tidy each nest start _
    · exact .after fun _ => routineDeclaration_tidy each nest start _
    · exact .after fun _ => callStatement_tidy _ start
    · exact .after fun _ => returnStatement_tidy _ start
    all_goals exact yields_throw _

end Blocks

end Parse

/-- Whatever the text, every node that is read has a meaning where it stands. -/
theorem Reading.tidy (tokens : List Token) (finish : Token) :
    (Reading.ofTokens tokens finish).program.Tidy := by
  have yields : Parse.TidiesBlock Parse.program :=
    .after fun fuel => Parse.statements_tidy (Parse.statement_tidy _ _) _ _
  have ends := yields ⟨tokens, finish, none, 0, #[]⟩
  unfold Reading.ofTokens EStateM.run
  split
  next ran => exact ends.of_ok ran
  next => exact rfl

end Pseudocode
