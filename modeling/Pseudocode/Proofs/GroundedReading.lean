import Pseudocode.Proofs.Grounded

/-! The productions of the grammar are grounded, one after the other. What a production takes from the
start token of its statement or from an opening delimiter is handed to it grounded. -/
namespace Pseudocode.Parse

variable {G : Ground}

/-- An expression is read that is grounded. -/
abbrev GroundsExpr (G : Ground) (m : Parse Expr) : Prop := Grounds G m (Expr.Grounded G)

/-- Expressions are read that are grounded. -/
abbrev GroundsExprs (G : Ground) (m : Parse (List Expr)) : Prop :=
  Grounds G m fun es => ∀ e ∈ es, e.Grounded G

section Expressions

theorem countOperator_grounds {token : Token} (grounded : token.Grounded G) : Steady G (countOperator token) := by
  have counts : Steady G (modify fun s : Reader => { s with operators := s.operators + 1 } : Parse PUnit) :=
    steady_modify fun s known => ⟨known.rest, known.finish, known.previous, known.errors⟩
  refine ⟨?_⟩
  unfold countOperator
  refine .after fun _ => ?_
  have reads : Steady G (get : Parse Reader) := ⟨fun s known => ⟨known, trivial⟩⟩
  refine .after fun s => ?_
  split
  · exact grounds_fail grounded.position _
  · exact grounds_pure trivial

variable {operand inner item : Parse Expr}

theorem chain_grounds (each : GroundsExpr G operand) (line rank fuel : Nat) {left : Expr}
    (known : left.Grounded G) : GroundsExpr G (chain line rank operand fuel left) := by
  induction fuel generalizing left with
  | zero => exact grounds_pure known
  | succ fuel ih =>
    unfold chain
    refine current_grounds.bind fun token grounded => ?_
    split
    · exact grounds_pure known
    · split
      · have := countOperator_grounds grounded
        exact .after fun _ => .after fun _ => each.bind fun right known' =>
          ih (.binary grounded.position known known')
      · exact grounds_pure known

theorem ranked_grounds (each : GroundsExpr G operand) (line rank : Nat) :
    GroundsExpr G (ranked line operand rank) := by
  induction rank with
  | zero => exact each
  | succ rank ih =>
    unfold ranked
    exact ih.bind fun left known => .after fun fuel => chain_grounds ih line _ fuel known

theorem close_grounds (closer : Sign) {opened : Token} (grounded : opened.Grounded G) :
    Steady G (close closer opened) := by
  refine ⟨?_⟩
  unfold close
  refine .after fun token => ?_
  dsimp only
  split
  · exact Steady.grounds
  · exact grounds_fail grounded.position _

theorem indexGroups_grounds (each : GroundsExpr G item) (line fuel : Nat) :
    GroundsExprs G (indexGroups line item fuel) := by
  induction fuel with
  | zero => exact grounds_pure (List.forall_mem_nil _)
  | succ fuel ih =>
    unfold indexGroups
    refine current_grounds.bind fun token grounded => ?_
    split
    · have := close_grounds .closeBracket grounded
      exact .after fun _ => (commaSeparated_grounds each).bind fun group known => .after fun _ =>
        ih.bind fun rest all => grounds_pure (List.forall_mem_append.mpr ⟨known, all⟩)
    · exact grounds_pure (List.forall_mem_nil _)

theorem argumentList_grounds (each : GroundsExpr G item) : GroundsExprs G (argumentList item) := by
  have closed {opened : Token} (grounded : opened.Grounded G) {arguments : List Expr}
      (known : ∀ e ∈ arguments, e.Grounded G) :
      GroundsExprs G (close .closeParen opened >>= fun _ => pure arguments) :=
    have := close_grounds .closeParen grounded
    .after fun _ => grounds_pure known
  unfold argumentList
  refine advance_grounds.bind fun opened grounded => .after fun empty => ?_
  dsimp only
  split
  · exact closed grounded (List.forall_mem_nil _)
  · exact (commaSeparated_grounds each).bind fun arguments known => closed grounded known

instance : Steady G startsCall := by unfold startsCall; infer_instance

theorem literal?_grounded {token : Token} (grounded : token.Grounded G)
    (found : literal? token.kind = some value) : value.Grounded G := by
  cases kind : token.kind <;> rw [kind] at found <;> cases found
  case integer n => exact grounded.integer n kind
  case string s => exact grounded.text s (.inl kind)
  case char s => exact grounded.text s (.inr kind)
  all_goals trivial

theorem primary_grounds (each : GroundsExpr G inner) (line : Nat) (enclosed : Bool) :
    GroundsExpr G (primary line inner enclosed) := by
  have full : GroundsExpr G (ranked line inner fullRank) := ranked_grounds each line fullRank
  unfold primary
  refine current_grounds.bind fun token grounded => ?_
  split
  · exact previous_grounds.bind fun last known => grounds_fail (getD_grounded known grounded).ending _
  · split
    · exact grounds_reported
    · have := close_grounds .closeParen grounded
      exact .after fun _ => full.bind fun e known => .after fun _ => grounds_pure known
    · refine .after fun starts => ?_
      split
      · exact .after fun _ => (argumentList_grounds full).bind fun arguments known =>
          grounds_pure (.call grounded.position grounded.lexeme known)
      · refine .after fun _ => .after fun fuel => (indexGroups_grounds full line fuel).bind
          fun indices known => ?_
        split
        · exact grounds_pure (.name grounded.position)
        · exact grounds_pure (.element grounded.position known)
    · split
      next value found =>
        exact .after fun _ => grounds_pure (.literal grounded.position (literal?_grounded grounded found))
      · split <;> exact grounds_fail grounded.position _

theorem negated_grounded {e : Expr} (known : e.Grounded G) {place : Position} (here : G.place place) :
    (negated place e).Grounded G := by
  cases known with
  | literal there value =>
    rename_i v
    cases v with
    | integer n => exact .literal here (G.neg value)
    | real x => exact .literal here trivial
    | _ => exact .unary here (.literal there value)
  | name there => exact .unary here (.name there)
  | element there inner => exact .unary here (.element there inner)
  | binary there left right => exact .unary here (.binary there left right)
  | unary there inner => exact .unary here (.unary there inner)
  | call there callee inner => exact .unary here (.call there callee inner)
  | range there low high => exact .unary here (.range there low high)
  | stray there => exact .unary here (.stray there)

theorem operand_grounds (line room : Nat) (enclosed : Bool) :
    GroundsExpr G (Parse.operand line room enclosed) := by
  induction room generalizing enclosed with
  | zero => exact current_grounds.bind fun token grounded => grounds_fail grounded.position _
  | succ room ih =>
    unfold Parse.operand
    refine current_grounds.bind fun token grounded => ?_
    split
    · exact .after fun _ => (ranked_grounds (ih enclosed) line notRank).bind fun e known =>
        grounds_pure (.unary grounded.position known)
    · split
      · exact .after fun _ => (ih enclosed).bind fun e known =>
          grounds_pure (negated_grounded known grounded.position)
      · exact primary_grounds (ih true) line enclosed

theorem enclosedExpression_grounds (room line : Nat) : GroundsExpr G (enclosedExpression room line) :=
  ranked_grounds (operand_grounds line room true) line fullRank

theorem resets_steady : Steady G (modify fun s : Reader => { s with operators := 0 } : Parse PUnit) :=
  steady_modify fun _ known => ⟨known.rest, known.finish, known.previous, known.errors⟩

theorem expression_grounds (room : Nat) : GroundsExpr G (expression room) := by
  have := resets_steady (G := G)
  unfold expression
  exact .after fun last => .after fun token => .after fun _ =>
    ranked_grounds (operand_grounds _ room false) _ fullRank

end Expressions

section Simple

/-- A block is read that is grounded. -/
abbrev GroundsBlock (G : Ground) (m : Parse (List Stmt)) : Prop := Grounds G m (BlockGrounded G)

theorem grounded_single {s : Stmt} (known : s.Grounded G) : BlockGrounded G [s] :=
  List.forall_mem_singleton.mpr known

instance : Steady G (typeName context) := by
  refine ⟨?_⟩
  unfold typeName
  refine .after fun token => ?_
  split
  · exact Steady.grounds
  · exact Steady.grounds
  · exact failExpected_grounds _ _

instance : Steady G boundLiteral := by
  refine ⟨?_⟩
  unfold boundLiteral
  refine .after fun negative => current_grounds.bind fun token grounded => ?_
  split
  · exact Steady.grounds
  · exact grounds_fail grounded.position _

instance : Steady G bound := by unfold bound; infer_instance

instance : Steady G arrayBounds := by
  refine ⟨?_⟩
  unfold arrayBounds
  refine (expectSign_grounds _ _).bind fun opened grounded => ?_
  refine (commaSeparated_grounds (Steady.grounds (m := bound))).bind fun bounds _ => .after fun closed => ?_
  split
  · exact grounds_pure trivial
  · exact grounds_fail grounded.position _

instance : Steady G (afterCommas (expectIdentifier context) fuel) :=
  (afterCommas_grounds (expectIdentifier_grounds context) fuel).steady

instance : Steady G (expectIdentifier context) := (expectIdentifier_grounds context).steady

variable {start : Token} {room : Nat}

theorem declaration_grounds (grounded : start.Grounded G) : GroundsBlock G (declaration start) := by
  have all (names : List String) (make : String → Stmt) (each : ∀ name, (make name).Grounded G) :
      BlockGrounded G (names.map make) :=
    List.forall_mem_map.mpr fun name _ => each name
  unfold declaration
  refine .after fun first => .after fun fuel => .after fun others => .after fun _ => .after fun array => ?_
  split
  · exact .after fun bounds => .after fun _ => .after fun elementType =>
      grounds_pure (all _ _ fun name => .declareArray grounded.position)
  · exact .after fun type => grounds_pure (all _ _ fun name => .declare grounded.position)

theorem constantDeclaration_grounds (grounded : start.Grounded G) :
    GroundsBlock G (constantDeclaration room start) := by
  have value (name : String) : GroundsBlock G (expression room >>= fun e =>
      pure [.constant start.position name (some e)]) :=
    (expression_grounds room).bind fun e known =>
      grounds_pure (grounded_single (.constant grounded.position (by rintro _ ⟨⟩; exact known)))
  unfold constantDeclaration
  refine .after fun token => .after fun assigned => ?_
  split
  · exact value _
  · exact .after fun _ => value _

theorem target_grounds (room : Nat) : Grounds G (target room) (Target.Grounded G) := by
  unfold target
  refine .after fun before => (expectIdentifier_grounds _).bind fun name grounded => .after fun fuel => ?_
  refine (indexGroups_grounds (enclosedExpression_grounds room name.line) name.line fuel).bind
    fun indices known => ?_
  split
  · exact grounds_pure (.variable grounded.position)
  · exact grounds_pure (.element grounded.position known)

theorem setStatement_grounds (grounded : start.Grounded G) : GroundsBlock G (setStatement room start) := by
  unfold setStatement
  exact (target_grounds room).bind fun destination known => .after fun _ =>
    (expression_grounds room).bind fun e known' =>
      grounds_pure (grounded_single (.assign grounded.position known known'))

theorem moreValues_grounds (room line fuel : Nat) : GroundsExprs G (moreValues room line fuel) := by
  induction fuel with
  | zero => exact grounds_pure (List.forall_mem_nil _)
  | succ fuel ih =>
    unfold moreValues
    refine .after fun token => ?_
    split
    · exact .after fun _ => (expression_grounds room).bind fun e known => ih.bind fun rest all =>
        grounds_pure (List.forall_mem_cons.mpr ⟨known, all⟩)
    · exact grounds_pure (List.forall_mem_nil _)

theorem outputStatement_grounds (grounded : start.Grounded G) :
    GroundsBlock G (outputStatement room start) := by
  unfold outputStatement
  refine (expression_grounds room).bind fun e known => .after fun fuel => ?_
  exact (moreValues_grounds room start.line fuel).bind fun rest all =>
    grounds_pure (grounded_single (.output grounded.position (List.forall_mem_cons.mpr ⟨known, all⟩)))

theorem assignmentOrCall_grounds : GroundsBlock G (assignmentOrCall room) := by
  have value {start : Token} (grounded : start.Grounded G) {destination : Target}
      (known : destination.Grounded G) :
      GroundsBlock G (expression room >>= fun e => pure [.assign start.position destination e]) :=
    (expression_grounds room).bind fun e known' =>
      grounds_pure (grounded_single (.assign grounded.position known known'))
  unfold assignmentOrCall
  refine current_grounds.bind fun start grounded => .after fun starts => ?_
  split
  · exact .after fun _ => (argumentList_grounds (enclosedExpression_grounds room _)).bind
      fun arguments known => grounds_pure
        (grounded_single (.call grounded.position grounded.position grounded.lexeme known))
  · refine (target_grounds room).bind fun destination known => .after fun assigned => ?_
    split
    · exact value grounded known
    · exact .after fun _ => value grounded known

theorem callStatement_grounds (grounded : start.Grounded G) : GroundsBlock G (callStatement room start) := by
  have made {name : Token} (known : name.Grounded G) {arguments : List Expr}
      (inner : ∀ e ∈ arguments, e.Grounded G) :
      GroundsBlock G (pure [.call start.position name.position name.lexeme arguments]) :=
    grounds_pure (grounded_single (.call grounded.position known.position known.lexeme inner))
  unfold callStatement
  refine (expectIdentifier_grounds _).bind fun name known => .after fun next => ?_
  split
  · exact (argumentList_grounds (enclosedExpression_grounds room _)).bind fun arguments inner =>
      made known inner
  · exact made known (List.forall_mem_nil _)

theorem returnStatement_grounds (grounded : start.Grounded G) :
    GroundsBlock G (returnStatement room start) := by
  unfold returnStatement
  refine .after fun next => .after fun ended => ?_
  split
  · exact grounds_pure (grounded_single (.giveBack grounded.position (forall_mem_none _)))
  · exact (expression_grounds room).bind fun e known =>
      grounds_pure (grounded_single (.giveBack grounded.position (by rintro _ ⟨⟩; exact known)))

end Simple

section Blocks

/-- A header is read that is missing or grounded. -/
abbrev GroundsHeader (G : Ground) (m : Parse (Option Expr)) : Prop :=
  Grounds G m fun o => ∀ e ∈ o, e.Grounded G

theorem statements_grounds {one : Parse (List Stmt)} (each : GroundsBlock G one) (closers : List Keyword)
    (fuel : Nat) : GroundsBlock G (statements one closers fuel) := by
  induction fuel with
  | zero => exact grounds_pure (List.forall_mem_nil _)
  | succ fuel ih =>
    unfold statements
    refine current_grounds.bind fun token grounded => .after fun ended => ?_
    split
    · exact grounds_pure (List.forall_mem_nil _)
    · split
      · split
        · exact grounds_pure (List.forall_mem_nil _)
        · exact (record_found_grounds grounded.position _).bind fun _ _ => .after fun _ => ih
      · exact (orSkip_grounds each (List.forall_mem_nil _)).bind fun first known => ih.bind fun rest all =>
          grounds_pure (List.forall_mem_append.mpr ⟨known, all⟩)

variable {statement : Nest → Parse (List Stmt)} {nest : Nest} {start : Token}

theorem block_grounds (each : ∀ nest, GroundsBlock G (statement nest)) (nest : Nest)
    (closers : List Keyword) : GroundsBlock G (block statement nest closers) := by
  unfold block
  split
  · exact current_grounds.bind fun token grounded => grounds_fail grounded.position _
  · exact .after fun _ => statements_grounds (each _) _ _

theorem ifStatement_grounds (each : ∀ nest, GroundsBlock G (statement nest)) (grounded : start.Grounded G) :
    GroundsBlock G (ifStatement statement nest start) := by
  have condition : GroundsExpr G (do
      let condition ← expression nest.room
      discard <| expectWord .THEN "IF condition"
      return condition) :=
    (expression_grounds _).bind fun e known => .after fun _ => grounds_pure known
  have ends := expectTerminator_grounds .ENDIF "IF block" grounded
  unfold ifStatement
  refine (header_grounds condition).bind fun condition known => ?_
  refine (block_grounds each nest _).bind fun thenBranch inner => .after fun found => ?_
  have finished (elseBranch : Option (List Stmt)) (other : ∀ block ∈ elseBranch, BlockGrounded G block) :
      GroundsBlock G (do
        discard <| expectTerminator .ENDIF "IF block" start
        return [.ifThen start.position condition thenBranch elseBranch]) :=
    .after fun _ => grounds_pure (grounded_single (.ifThen grounded.position known inner other))
  split
  · have elseBranch : Grounds G (some <$> block statement nest [.ENDIF])
        (fun otherwise => ∀ block ∈ otherwise, BlockGrounded G block) :=
      (block_grounds each nest _).map fun block known b same => by
        cases same
        exact known
    exact elseBranch.bind finished
  · exact finished none (forall_mem_none _)

theorem whileStatement_grounds (each : ∀ nest, GroundsBlock G (statement nest)) (grounded : start.Grounded G) :
    GroundsBlock G (whileStatement statement nest start) := by
  have condition : GroundsExpr G (do
      let condition ← expression nest.room
      discard <| acceptWord .DO
      return condition) :=
    (expression_grounds _).bind fun e known => .after fun _ => grounds_pure known
  have ends := expectTerminator_grounds .ENDWHILE "WHILE loop" grounded
  unfold whileStatement
  refine (header_grounds condition).bind fun condition known => ?_
  refine (block_grounds each nest _).bind fun body inner => .after fun _ => ?_
  exact grounds_pure (grounded_single (.whileDo grounded.position known inner))

theorem repeatStatement_grounds (each : ∀ nest, GroundsBlock G (statement nest)) (grounded : start.Grounded G) :
    GroundsBlock G (repeatStatement statement nest start) := by
  have ends := expectTerminator_grounds .UNTIL "REPEAT loop" grounded
  unfold repeatStatement
  refine (block_grounds each nest _).bind fun body inner => .after fun ended => ?_
  have finished (condition : Option Expr) (known : ∀ e ∈ condition, e.Grounded G) :
      GroundsBlock G (pure [.repeatUntil start.position body condition]) :=
    grounds_pure (grounded_single (.repeatUntil grounded.position inner known))
  split
  · exact (header_grounds (expression_grounds _)).bind finished
  · exact finished none (forall_mem_none _)

theorem forStep_grounds (room : Nat) : GroundsHeader G (forStep room) := by
  unfold forStep
  refine .after fun found => ?_
  split
  · exact (expression_grounds room).bind fun e known => grounds_pure (by rintro _ ⟨⟩; exact known)
  · exact grounds_pure (forall_mem_none _)

theorem forHeader_grounds (room : Nat) : Grounds G (forHeader room) (fun read =>
    read.2.1.Grounded G ∧ read.2.2.1.Grounded G ∧ ∀ e ∈ read.2.2.2, e.Grounded G) := by
  unfold forHeader
  refine .after fun name => ?_
  dsimp only
  have bounds : Grounds G (do
      let first ← expression room
      discard <| expectWord .TO "FOR start value"
      let last ← expression room
      return (name.lexeme, first, last, ← forStep room)) (fun read =>
        read.2.1.Grounded G ∧ read.2.2.1.Grounded G ∧ ∀ e ∈ read.2.2.2, e.Grounded G) :=
    (expression_grounds room).bind fun first known => .after fun _ => (expression_grounds room).bind
      fun last known' => (forStep_grounds room).bind fun step known'' => grounds_pure ⟨known, known', known''⟩
  refine .after fun assigned => ?_
  split
  · exact bounds
  · exact .after fun _ => bounds

instance : Steady G (checkNextName counter) := by
  refine ⟨?_⟩
  unfold checkNextName
  refine current_grounds.bind fun name grounded => .after fun last => ?_
  dsimp only
  split
  · refine .after fun _ => ?_
    split
    · exact grounds_pure trivial
    · split
      · exact record_found_grounds grounded.position _
      · exact grounds_pure trivial
  · exact grounds_pure trivial

theorem forStatement_grounds (each : ∀ nest, GroundsBlock G (statement nest)) (grounded : start.Grounded G) :
    GroundsBlock G (forStatement statement nest start) := by
  have ends := expectTerminator_grounds .ENDFOR "FOR loop" grounded
  unfold forStatement
  refine (header_grounds (forHeader_grounds nest.room)).bind fun read known => ?_
  refine (block_grounds each nest _).bind fun body inner => .after fun found => ?_
  have finished : BlockGrounded G [.forLoop start.position (read.map (·.1)) (read.map (·.2.1))
      (read.map (·.2.2.1)) (read.bind (·.2.2.2)) body] := by
    apply grounded_single
    cases read with
    | none => exact .forLoop grounded.position (forall_mem_none _) (forall_mem_none _) (forall_mem_none _) inner
    | some read =>
      obtain ⟨first, last, step⟩ := known read rfl
      refine .forLoop grounded.position ?_ ?_ step inner
      · rintro _ ⟨⟩
        exact first
      · rintro _ ⟨⟩
        exact last
  split
  · exact .after fun _ => grounds_pure finished
  · exact .after fun _ => grounds_pure finished

theorem caseHeader_grounds (room : Nat) : GroundsExpr G (caseHeader room) := by
  unfold caseHeader
  refine .after fun found => ?_
  split
  · exact expression_grounds room
  · exact (expression_grounds room).bind fun e known => .after fun _ => grounds_pure known

theorem caseLabel_grounds (room : Nat) : GroundsExpr G (caseLabel room) := by
  have := resets_steady (G := G)
  unfold caseLabel
  refine .after fun token => .after fun _ => (operand_grounds _ room false).bind fun low known => ?_
  refine .after fun found => ?_
  split
  · exact (operand_grounds _ room false).bind fun high known' =>
      grounds_pure (.range known.place known known')
  · exact grounds_pure known

instance : Steady G startsLabel := by
  unfold startsLabel
  refine ⟨.after fun token => .after fun next => ?_⟩
  split <;> exact Steady.grounds

theorem branchBody_grounds {one : Parse (List Stmt)} (each : GroundsBlock G one) (fuel : Nat) :
    GroundsBlock G (branchBody one fuel) := by
  induction fuel with
  | zero => exact grounds_pure (List.forall_mem_nil _)
  | succ fuel ih =>
    unfold branchBody
    refine .after fun ended => .after fun token => .after fun starts => ?_
    split
    · exact grounds_pure (List.forall_mem_nil _)
    · exact (orSkip_grounds each (List.forall_mem_nil _)).bind fun first known => ih.bind fun rest all =>
        grounds_pure (List.forall_mem_append.mpr ⟨known, all⟩)

theorem caseBranch_grounds (each : ∀ nest, GroundsBlock G (statement nest)) (nest : Nest) :
    Grounds G (caseBranch statement nest) (Branch.Grounded G) := by
  unfold caseBranch
  refine current_grounds.bind fun token grounded => ?_
  refine (commaSeparated_grounds (caseLabel_grounds nest.room)).bind fun labels known => ?_
  refine .after fun _ => .after fun fuel => (branchBody_grounds (each nest) fuel).bind fun body inner => ?_
  exact grounds_pure ⟨⟨_, grounded.position, rfl⟩, known, inner⟩

theorem caseBranches_grounds (each : ∀ nest, GroundsBlock G (statement nest)) (nest : Nest) (fuel : Nat) :
    Grounds G (caseBranches statement nest fuel) (fun read =>
      (∀ b ∈ read.1, b.Grounded G) ∧ ∀ block ∈ read.2, BlockGrounded G block) := by
  induction fuel with
  | zero => exact grounds_pure ⟨List.forall_mem_nil _, forall_mem_none _⟩
  | succ fuel ih =>
    unfold caseBranches
    refine .after fun token => .after fun ended => ?_
    split
    · exact grounds_pure ⟨List.forall_mem_nil _, forall_mem_none _⟩
    · split
      · exact .after fun _ => .after fun _ => (block_grounds each nest _).bind fun block known =>
          grounds_pure ⟨List.forall_mem_nil _, by rintro _ ⟨⟩; exact known⟩
      · exact grounds_pure ⟨List.forall_mem_nil _, forall_mem_none _⟩
      · have first : Grounds G (some <$> caseBranch statement nest)
            (fun branch => ∀ b ∈ branch.toList, b.Grounded G) :=
          (caseBranch_grounds each nest).map fun b known => by simpa using known
        exact (orSkip_grounds first (List.forall_mem_nil _)).bind fun branch known => ih.bind fun read both =>
          grounds_pure ⟨List.forall_mem_append.mpr ⟨known, both.1⟩, both.2⟩

theorem caseStatement_grounds (each : ∀ nest, GroundsBlock G (statement nest)) (grounded : start.Grounded G) :
    GroundsBlock G (caseStatement statement nest start) := by
  have ends := expectTerminator_grounds .ENDCASE "CASE statement" grounded
  unfold caseStatement
  refine (header_grounds (caseHeader_grounds nest.room)).bind fun selector known => .after fun fuel => ?_
  refine (caseBranches_grounds each _ fuel).bind fun read both => .after fun _ => ?_
  exact grounds_pure (grounded_single (.caseOf grounded.position known (fun b member => (both.1 b member).line)
    (fun b member => (both.1 b member).labels) (fun b member => (both.1 b member).body) both.2))

instance : Steady G (passMode mode) := by unfold passMode; infer_instance

instance : Steady G (parameterType name) := by
  unfold parameterType
  refine ⟨.after fun isArray => ?_⟩
  dsimp only
  split
  · refine .after fun bounded => ?_
    split <;> exact Steady.grounds
  · exact Steady.grounds

instance : Steady G (parameters mode fuel) := by
  induction fuel generalizing mode with
  | zero => unfold parameters; infer_instance
  | succ fuel ih =>
    unfold parameters
    refine ⟨.after fun mode => .after fun name => .after fun _ => .after fun type => ?_⟩
    exact Steady.grounds

theorem parameterList_grounds {routine : Token} (grounded : routine.Grounded G) :
    Steady G (parameterList routine) := by
  have closes (params : List Param) : Grounds G (do
      if ← acceptSign .closeParen then return params
      else fail routine.position (.unclosedParameters routine.lexeme)) (fun _ => True) := by
    refine .after fun closed => ?_
    split
    · exact grounds_pure trivial
    · exact grounds_fail grounded.position _
  refine ⟨?_⟩
  unfold parameterList
  refine .after fun opened => ?_
  dsimp only
  split
  · refine .after fun empty => ?_
    split
    · exact .after fun params => closes params
    · exact .after fun left => .after fun params => closes params
  · exact grounds_pure trivial

instance : Steady G (resultType kind name) := by cases kind <;> (unfold resultType; infer_instance)

instance : Steady G (routineHeader kind) := by
  unfold routineHeader
  refine ⟨.after fun last => (expectIdentifier_grounds _).bind fun name grounded => ?_⟩
  have := parameterList_grounds grounded
  exact Steady.grounds

theorem routineDeclaration_grounds (each : ∀ nest, GroundsBlock G (statement nest))
    (grounded : start.Grounded G) (kind : RoutineKind) :
    GroundsBlock G (routineDeclaration statement nest start kind) := by
  have ends (word : Keyword) := expectTerminator_grounds word kind.keyword grounded
  unfold routineDeclaration
  refine (header_grounds (Steady.grounds (m := routineHeader kind))).bind fun read _ => ?_
  dsimp only
  refine (block_grounds each nest _).bind fun body inner => .after fun _ => ?_
  split
  · exact grounds_pure (grounded_single (.routine grounded.position inner))
  · exact (record_found_grounds grounded.position _).bind fun _ _ => grounds_pure (List.forall_mem_nil _)

theorem statement_grounds (fuel : Nat) : ∀ nest, GroundsBlock G (Parse.statement fuel nest) := by
  induction fuel with
  | zero => exact fun nest => current_grounds.bind fun token grounded => grounds_fail grounded.position _
  | succ fuel each =>
    intro nest
    unfold Parse.statement
    refine current_grounds.bind fun start grounded => ?_
    dsimp only
    split
    · exact assignmentOrCall_grounds
    · exact .after fun _ => declaration_grounds grounded
    · exact .after fun _ => constantDeclaration_grounds grounded
    · exact .after fun _ => setStatement_grounds grounded
    · exact .after fun _ => (target_grounds _).bind fun target known =>
        grounds_pure (grounded_single (.input grounded.position known))
    · exact .after fun _ => outputStatement_grounds grounded
    · exact .after fun _ => ifStatement_grounds each grounded
    · exact .after fun _ => caseStatement_grounds each grounded
    · exact .after fun _ => whileStatement_grounds each grounded
    · exact .after fun _ => repeatStatement_grounds each grounded
    · exact .after fun _ => forStatement_grounds each grounded
    · exact .after fun _ => routineDeclaration_grounds each grounded _
    · exact .after fun _ => routineDeclaration_grounds each grounded _
    · exact .after fun _ => callStatement_grounds grounded
    · exact .after fun _ => returnStatement_grounds grounded
    · exact grounds_fail grounded.position _
    · exact grounds_reported
    all_goals exact grounds_fail grounded.position _

end Blocks

end Pseudocode.Parse

namespace Pseudocode

/-- What is read from grounded tokens is grounded, and so are the errors. -/
theorem Reading.grounded {G : Ground} {tokens : List Token} {finish : Token}
    (known : ∀ t ∈ tokens, t.Grounded G) (last : finish.Grounded G) :
    (ofTokens tokens finish).program.Grounded G ∧ ∀ d ∈ (ofTokens tokens finish).errors,
      ∃ (p : Position) (e : SyntaxError), G.place p ∧ d = e.diagnostic p := by
  have grounds : Parse.GroundsBlock G Parse.program :=
    .after fun fuel => Parse.statements_grounds (Parse.statement_grounds _ _) _ _
  have noErrors (d : Diagnostic) (member : d ∈ #[]) : ∃ (p : Position) (e : SyntaxError),
      G.place p ∧ d = e.diagnostic p := absurd member (Array.not_mem_empty d)
  have ends := grounds ⟨tokens, finish, none, 0, #[]⟩ ⟨known, last, forall_mem_none _, noErrors⟩
  unfold Reading.ofTokens EStateM.run
  split
  next ran =>
    obtain ⟨still, body⟩ := ends.of_ok ran
    exact ⟨Program.grounded body, fun d member => still.errors d (Array.mem_toList_iff.mp member)⟩
  next failed =>
    obtain ⟨still, -⟩ := ends.of_error failed
    exact ⟨Program.grounded (List.forall_mem_nil _), fun d member => still.errors d (Array.mem_toList_iff.mp member)⟩

end Pseudocode
