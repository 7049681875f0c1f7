import Pseudocode.Proofs.ReadLines

/-! Statements that hold blocks are read back. A header is followed to the end of its line, each block to
the word that ends it; the words that may be left out are told from the first word of the next line. -/
namespace Pseudocode.Parse

variable {n m : Nat} {line : Option Nat} {words : List Word} {lines : List (List Word)}
  {follows : List Token → Prop} {tokens : List Token} {t : Token} {style : Style} {start : Token}
  {p : Position} {inside : Nest → Parse (List Stmt)} {nest : Nest} {body : List Stmt} {e : Expr}

/-- Each statement of a block is read back inside one more block. -/
abbrev Body (style : Style) (inside : Nest → Parse (List Stmt)) (nest : Nest) (closers : List Keyword)
    (block : List Stmt) : Prop :=
  ∀ s ∈ block, ReadsBack style (inside (nest.deeper closers)) s

/-- A block and the line that ends it. -/
theorem reads_body {β : Type} {closers : List Keyword} {word : Keyword} {next : List Stmt → Parse β}
    {cost : Nat} {good : β → Prop} (room : nest.room ≠ 0) (all : Body style inside nest closers body)
    (member : word ∈ closers) (closing : word.closesBlock = true)
    (rest : ∀ line other, SameBlock body other → Reads line (next other)
      (fromLine (m + (blockLines style body).length) ((.keyword word :: words) :: lines)) cost follows good) :
    Reads line (block inside nest closers >>= next)
      (fromLine m (blockLines style body ++ (.keyword word :: words) :: lines))
      (blockOperators body + cost) follows good := by
  rw [fromLine_append]
  exact (reads_block room all).bind (fun _ => closes_of_ahead member closing) fun other same => rest _ other same

/-- The last block of a statement and the line that ends it. -/
theorem reads_lastBody {β : Type} {closers : List Keyword} {word : Keyword} {next : List Stmt → Parse β}
    {good : β → Prop} (room : nest.room ≠ 0) (all : Body style inside nest closers body)
    (member : word ∈ closers) (closing : word.closesBlock = true)
    (rest : ∀ line other, SameBlock body other → Reads line (next other)
      (fromLine (m + (blockLines style body).length) ((.keyword word :: words) :: lines)) 0 follows good) :
    Reads line (block inside nest closers >>= next)
      (fromLine m (blockLines style body ++ (.keyword word :: words) :: lines)) (blockOperators body)
      follows good :=
  reads_body room all member closing rest

/-- The word that ends a block, on a line of its own. -/
theorem reads_end {α : Type} {next : Bool → Parse α} {word : Keyword} {context : String} {good : α → Prop}
    (rest : Reads (some m) (next true) [] 0 follows good) :
    Reads line (expectTerminator word context start >>= next) (fromLine m [[.keyword word]]) 0 follows good :=
  reads_expectTerminator rfl rest

section Conditions

variable {thenBranch : List Stmt} {elseBranch : Option (List Stmt)}

theorem reads_ifHeader (normal : e.normal = true) (deep : e.depth ≤ nest.room) :
    Reads (some n) (do
        let condition ← expression nest.room
        discard <| expectWord .THEN "IF condition"
        return condition) (onLine n (e.words style ++ [Word.keyword .THEN])) e.operators follows e.Same :=
  (reads_expression normal deep).followed (fun _ => stops_cons rfl) fun _ same =>
    reads_discard (reads_word rfl fun _ _ => reads_pure same)

theorem sameBlock_if {c : Expr} {first : List Stmt} {second : Option (List Stmt)} (same : e.Same c)
    (same' : SameBlock thenBranch first)
    (same'' : second.map (List.map (Stmt.moved nowhere)) = elseBranch.map (List.map (Stmt.moved nowhere))) :
    SameBlock [.ifThen p (some e) thenBranch elseBranch] [.ifThen start.position (some c) first second] := by
  refine sameBlock_one ?_
  simp only [Stmt.moved, Option.map_some, blockMoved_eq, otherwiseMoved_eq]
  rw [same, same', same'']
  rfl

theorem reads_ifStatement (normal : e.normal = true) (deep : e.depth ≤ nest.room) (room : nest.room ≠ 0)
    (all : Body style inside nest [.ELSE, .ENDIF] thenBranch)
    (others : ∀ block ∈ elseBranch, Body style inside nest [.ENDIF] block) :
    Reads (some n) (ifStatement inside nest start)
      (fromLine n ((e.words style ++ [Word.keyword .THEN]) :: (blockLines style thenBranch ++
        (otherwiseLines style [.keyword .ELSE] elseBranch ++ [[Word.keyword .ENDIF]]))))
      (e.operators + (blockOperators thenBranch + otherwiseOperators elseBranch)) follows
      (SameBlock [.ifThen p (some e) thenBranch elseBranch]) := by
  unfold ifStatement
  refine (reads_ifHeader normal deep).header.above (fun _ _ => trivial) ?_
  rintro _ ⟨c, rfl, same⟩
  cases elseBranch with
  | none =>
    refine reads_body room all (by simp) rfl fun line first same' => ?_
    refine reads_decline (fun t facing => ?_) ?_
    · rw [show t.kind = .keyword .ENDIF from congrArg (·.word.kind) (facing_cons facing)]
      nofun
    · exact reads_discard (reads_end (reads_pure (sameBlock_if same same' rfl)))
  | some block =>
    refine reads_body room all (by simp) rfl fun line first same' => ?_
    refine reads_accept rfl ?_
    rw [if_pos rfl, bind_map_left]
    refine reads_lastBody room (others block rfl) (.head _) rfl fun line second same'' => ?_
    exact reads_discard (reads_end (reads_pure (sameBlock_if same same' (congrArg some same''))))

end Conditions

section Loops

/-- What stands behind a header whose last part may be left out. -/
def Starting (n : Nat) (tokens : List Token) : Prop := Below (n + 1) tokens ∧ Opens tokens

theorem starting_of_ahead {word : Keyword} {closers : List Keyword} (closing : word.closesBlock = true)
    (all : Body style inside nest closers body)
    (after : ∀ more, follows more → Below (n + 1 + (blockLines style body).length + lines.length + 1) more)
    (ahead : Ahead (fromLine (n + 1) (blockLines style body ++ (.keyword word :: words) :: lines)) follows
      tokens) : Starting n tokens := by
  refine ⟨below_of_ahead ahead fun more known => (after more known).less ?_, opens_below closing all ahead⟩
  rw [List.length_append, List.length_cons]
  omega

theorem starting_kind {kind : TokenKind} (facing : Facing [] (Starting n) t) (name : kind ≠ .identifier)
    (ends : kind ≠ .endOfInput)
    (inside : ∀ word, kind = .keyword word → (word.startsStatement || word.closesBlock) = false) :
    t.kind ≠ kind :=
  Opens.other facing (fun _ ahead => (ahead_nil.mp ahead).2) name ends inside

theorem Starting.stops {rank : Nat} (starting : Starting n tokens) : Stops n rank tokens :=
  starting.1.stops (Nat.lt_succ_self n)

theorem reads_whileHeader (normal : e.normal = true) (deep : e.depth ≤ nest.room) :
    Reads (some n) (do
        let condition ← expression nest.room
        discard <| acceptWord .DO
        return condition) (onLine n (e.words style ++ if style.doWord then [Word.keyword .DO] else []))
      e.operators (Starting n) e.Same := by
  cases style.doWord with
  | true =>
    exact (reads_expression normal deep).followed (fun _ => stops_cons rfl) fun _ same =>
      reads_discard (reads_accept rfl (reads_pure same))
  | false =>
    rw [if_neg Bool.false_ne_true, List.append_nil]
    refine (reads_expression normal deep).last (fun _ => Starting.stops) fun _ same => reads_discard ?_
    refine reads_decline (fun t facing => starting_kind facing nofun nofun ?_) (reads_pure same)
    rintro _ same
    cases same
    rfl

theorem reads_whileStatement (normal : e.normal = true) (deep : e.depth ≤ nest.room) (room : nest.room ≠ 0)
    (all : Body style inside nest [.ENDWHILE] body) :
    Reads (some n) (whileStatement inside nest start)
      (fromLine n ((e.words style ++ if style.doWord then [Word.keyword .DO] else []) ::
        (blockLines style body ++ [[Word.keyword .ENDWHILE]])))
      (e.operators + blockOperators body) (Below (n + 1 + (blockLines style body).length + 1))
      (SameBlock [.whileDo p (some e) body]) := by
  unfold whileStatement
  refine (reads_whileHeader normal deep).header.above (fun _ => starting_of_ahead rfl all fun _ below => below) ?_
  rintro _ ⟨c, rfl, same⟩
  refine reads_lastBody room all (.head _) rfl fun line block same' => ?_
  refine reads_discard (reads_end (reads_pure (sameBlock_one ?_)))
  simp only [Stmt.moved, Option.map_some, blockMoved_eq]
  rw [same, same']
  rfl

theorem reads_repeatStatement (normal : e.normal = true) (deep : e.depth ≤ nest.room) (room : nest.room ≠ 0)
    (all : Body style inside nest [.UNTIL] body) :
    Reads (some n) (repeatStatement inside nest start)
      (fromLine n ([] :: (blockLines style body ++ [.keyword .UNTIL :: e.words style])))
      (blockOperators body + e.operators) (Below (n + 1 + (blockLines style body).length + 1))
      (SameBlock [.repeatUntil p body (some e)]) := by
  unfold repeatStatement
  refine reads_body room all (.head _) rfl fun line block same => ?_
  rw [fromLine, fromLine, List.append_nil]
  refine reads_expectTerminator rfl ?_
  rw [if_pos rfl]
  refine (reads_expression normal deep).header.last (fun _ below => below.stops (Nat.lt_succ_self _)) ?_
  rintro _ ⟨c, rfl, same'⟩
  refine reads_pure (sameBlock_one ?_)
  simp only [Stmt.moved, Option.map_some, blockMoved_eq]
  rw [same, same']
  rfl

variable {counter : String} {first last : Expr} {step : Option Expr}

theorem reads_forStep (normal : step.all Expr.normal = true) (deep : optionDepth step ≤ nest.room) :
    Reads (some n) (forStep nest.room)
      (onLine n ((step.map fun e => .keyword .STEP :: e.words style).getD [])) (optionOperators step)
      (Starting n) (fun o => o.map (Expr.moved nowhere) = step.map (Expr.moved nowhere)) := by
  unfold forStep
  cases step with
  | none =>
    refine reads_decline (fun t facing => starting_kind facing nofun nofun ?_) (reads_pure rfl)
    rintro _ same
    cases same
    rfl
  | some e =>
    refine reads_accept rfl ?_
    rw [if_pos rfl]
    exact (reads_expression normal deep).last (fun _ => Starting.stops) fun _ same =>
      reads_pure (congrArg some same)

/-- What a FOR loop says in front of its body. -/
def SameHeader (counter : String) (first last : Expr) (step : Option Expr)
    (header : String × Expr × Expr × Option Expr) : Prop :=
  header.1 = counter ∧ first.Same header.2.1 ∧ last.Same header.2.2.1 ∧
    header.2.2.2.map (Expr.moved nowhere) = step.map (Expr.moved nowhere)

theorem stops_step (ahead : Ahead (onLine n ((step.map fun e => .keyword .STEP :: e.words style).getD []))
    (Starting n) tokens) {rank : Nat} : Stops n rank tokens := by
  cases step with
  | none => exact (ahead_nil.mp ahead).stops
  | some e => exact stops_cons rfl ahead

theorem reads_forHeader (normal : first.normal = true) (normal' : last.normal = true)
    (normal'' : step.all Expr.normal = true) (deep : first.depth ≤ nest.room) (deep' : last.depth ≤ nest.room)
    (deep'' : optionDepth step ≤ nest.room) :
    Reads line (forHeader nest.room)
      (onLine n (.name counter :: style.assignment :: (first.words style ++ .keyword .TO ::
        (last.words style ++ (step.map fun e => .keyword .STEP :: e.words style).getD []))))
      (first.operators + (last.operators + optionOperators step)) (Starting n)
      (SameHeader counter first last step) := by
  unfold forHeader
  refine reads_identifier rfl fun t same => reads_assign (assigns_assignment style) ?_
  rw [show t.lexeme = counter from congrArg (·.word.lexeme) same]
  refine (reads_expression normal deep).follow (fun _ => stops_cons rfl) fun a known => ?_
  refine reads_discard (reads_word rfl fun _ _ => ?_)
  refine (reads_expression normal' deep').follow (fun _ ahead => stops_step ahead) fun b known' => ?_
  exact (reads_forStep normal'' deep'').last (fun _ known => known) fun o known'' =>
    reads_pure ⟨rfl, known, known', known''⟩

/-- A name behind NEXT is read if it stands on the line, and is the counter. -/
theorem reads_checkNextName {α : Type} {next : PUnit → Parse α} {good : α → Prop} (named : Bool)
    (rest : Reads (some m) (next ⟨⟩) [] 0 (Below (m + 1)) good) :
    Reads (some m) (checkNextName (some counter) >>= next) (onLine m (if named then [.name counter] else [])) 0
      (Below (m + 1)) good := by
  unfold checkNextName
  rw [bind_assoc]
  refine reads_current fun t facing => ?_
  rw [bind_assoc]
  refine reads_previous fun before printed => ?_
  obtain ⟨u, rfl, here⟩ := Option.map_eq_some_iff.mp printed
  rw [Option.getD_some, here]
  dsimp only
  cases named with
  | false =>
    have far : ¬(t.kind = .identifier ∧ t.line = m) := by
      rintro ⟨name, here⟩
      obtain ⟨more, below, first | ⟨-, ends⟩⟩ := facing_nil facing
      · have := below t first
        omega
      · cases name.symm.trans ends
    rw [if_neg far, pure_bind]
    exact rest
  | true =>
    have same := facing_cons facing
    have name : t.kind = .identifier := congrArg (·.word.kind) same
    have line : t.line = m := congrArg Mark.line same
    have text : t.lexeme = counter := congrArg (·.word.lexeme) same
    rw [if_pos (And.intro name line), bind_assoc]
    refine reads_skip ?_
    rw [if_neg fun differs => differs text, pure_bind]
    exact rest

/-- The end of a FOR loop, in whichever way it is written. -/
theorem reads_loopEnd {α : Type} {next : PUnit → Parse α} {good : α → Prop}
    (rest : Reads (some m) (next ⟨⟩) [] 0 (Below (m + 1)) good) :
    Reads line (acceptWord .NEXT >>= fun byNext =>
        if byNext then checkNextName (some counter) >>= next
        else discard (expectTerminator .ENDFOR "FOR loop" start) >>= next)
      (fromLine m [loopEndWords style (some counter)]) 0 (Below (m + 1)) good := by
  unfold loopEndWords
  cases style.loopEnd with
  | endfor =>
    refine reads_decline (fun t facing => ?_) (reads_discard (reads_end rest))
    rw [show t.kind = .keyword .ENDFOR from congrArg (·.word.kind) (facing_cons facing)]
    nofun
  | next =>
    exact reads_accept rfl (reads_checkNextName false rest)
  | nextCounter =>
    exact reads_accept rfl (reads_checkNextName true rest)

theorem loopEnd_start (style : Style) (counter : Option String) : ∃ word rest,
    loopEndWords style counter = .keyword word :: rest ∧ word ∈ [Keyword.ENDFOR, .NEXT] ∧
      word.closesBlock = true := by
  unfold loopEndWords
  cases style.loopEnd with
  | endfor => exact ⟨_, _, rfl, .head _, rfl⟩
  | next => exact ⟨_, _, rfl, .tail _ (.head _), rfl⟩
  | nextCounter => exact ⟨_, _, rfl, .tail _ (.head _), rfl⟩

theorem reads_forStatement (normal : first.normal = true) (normal' : last.normal = true)
    (normal'' : step.all Expr.normal = true) (deep : first.depth ≤ nest.room) (deep' : last.depth ≤ nest.room)
    (deep'' : optionDepth step ≤ nest.room) (room : nest.room ≠ 0)
    (all : Body style inside nest [.ENDFOR, .NEXT] body) :
    Reads (some n) (forStatement inside nest start)
      (fromLine n ((.name counter :: style.assignment :: (first.words style ++ .keyword .TO ::
        (last.words style ++ (step.map fun e => .keyword .STEP :: e.words style).getD []))) ::
          (blockLines style body ++ [loopEndWords style (some counter)])))
      (first.operators + (last.operators + optionOperators step) + blockOperators body)
      (Below (n + 1 + (blockLines style body).length + 1))
      (SameBlock [.forLoop p (some counter) (some first) (some last) step body]) := by
  obtain ⟨word, rest, printed, member, closing⟩ := loopEnd_start style (some counter)
  rw [printed]
  unfold forStatement
  refine (reads_forHeader normal normal' normal'' deep deep' deep'').header.above
    (fun _ => starting_of_ahead closing all fun _ below => below) ?_
  rintro _ ⟨⟨_, a, b, o⟩, rfl, rfl, known, known', known''⟩
  refine reads_lastBody room all member closing fun line block same => ?_
  rw [← printed]
  refine reads_loopEnd (reads_pure (sameBlock_one ?_))
  simp only [Stmt.moved, Option.map_some, Option.bind_some, blockMoved_eq]
  rw [known, known', known'', same]
  rfl

end Loops

section Cases

variable {branches : List (Branch Stmt)} {otherwise : Option (List Stmt)}

theorem reads_caseHeader (normal : e.normal = true) (deep : e.depth ≤ nest.room) :
    Reads (some n) (caseHeader nest.room)
      (onLine n (if style.ofFirst then .keyword .OF :: e.words style else e.words style ++ [Word.keyword .OF]))
      e.operators (Below (n + 1)) e.Same := by
  unfold caseHeader
  cases style.ofFirst with
  | true =>
    refine reads_accept rfl ?_
    exact (reads_expression normal deep).narrow fun _ below => below.stops (Nat.lt_succ_self n)
  | false =>
    refine reads_decline (fun t facing => ?_) ?_
    · obtain ⟨word, rest, printed, operand⟩ := words_start e normal
      rw [if_neg Bool.false_ne_true, printed] at facing
      rw [show t.kind = word.kind from congrArg (·.word.kind) (facing_cons facing)]
      rintro same
      rw [same] at operand
      cases operand
    · exact (reads_expression normal deep).followed (fun _ => stops_cons rfl) fun _ same =>
        reads_discard (reads_word rfl fun _ _ => reads_pure same)

theorem reads_caseStatement (normal : e.normal = true) (deep : e.depth ≤ nest.room)
    (all : ∀ b ∈ branches, BranchBack style inside (nest.deeper [.ENDCASE, .OTHERWISE]) b)
    (room : otherwiseDepth otherwise ≤ nest.room - 1)
    (others : ∀ block ∈ otherwise, Body style inside (nest.deeper [.ENDCASE, .OTHERWISE]) [.ENDCASE] block) :
    Reads (some n) (caseStatement inside nest start)
      (fromLine n ((if style.ofFirst then .keyword .OF :: e.words style else e.words style ++ [Word.keyword .OF]) ::
        (branchesLines style branches ++ (otherwiseLines style (otherwiseWords style) otherwise ++
          [[Word.keyword .ENDCASE]]))))
      (e.operators + (branchesOperators branches + otherwiseOperators otherwise))
      (Below (n + 1 + (branchesLines style branches ++
        otherwiseLines style (otherwiseWords style) otherwise).length + 1))
      (SameBlock [.caseOf p (some e) branches otherwise]) := by
  unfold caseStatement
  rw [← List.append_assoc]
  refine (reads_caseHeader normal deep).header.above (fun _ ahead => ?_) ?_
  · refine below_of_ahead ahead fun _ below => below.less ?_
    rw [List.length_append, List.length_singleton]
    omega
  rintro _ ⟨c, rfl, same⟩
  refine reads_remaining fun fuel enough => ?_
  rw [fromLine_append] at enough ⊢
  rw [List.length_append] at enough
  refine (reads_caseBranches all room others (Nat.le_of_add_right_le enough)).onto
    (fun _ => closes_of_ahead (.head _) rfl) ?_
  rintro ⟨found, other⟩ ⟨same', same''⟩
  refine reads_discard (reads_end (reads_pure (sameBlock_one ?_)))
  simp only [Stmt.moved, Option.map_some, branchesMoved_eq, otherwiseMoved_eq]
  rw [same, same', same'']
  rfl

end Cases

section Routines

variable {kind : RoutineKind} {name : String} {params : List Param} {returns : Option String}

theorem reads_routineHeader (normal : params.all Param.normal = true)
    (stated : (returns.isSome == (kind == .function)) = true) :
    Reads line (routineHeader kind)
      (onLine n (.name name :: ((if style.bare ∧ params.isEmpty then []
        else parenthesised (separated [.sign .comma] (paramsWords style .byValue params))) ++
          (returns.map fun type => [Word.keyword .RETURNS, .type type]).getD []))) 0 (Starting n)
      (· = (name, params, returns)) := by
  unfold routineHeader
  refine reads_previous fun before _ => reads_identifier rfl fun t same => ?_
  rw [show t.lexeme = name from congrArg (·.word.lexeme) same]
  have unopened : ∀ u, Facing [] (Ahead (onLine n ((returns.map fun type =>
      [.keyword .RETURNS, .type type]).getD [])) (Starting n)) u → u.kind ≠ .sign .openParen := by
    rintro u facing
    obtain ⟨more, ahead, first⟩ := facing_nil facing
    cases returns with
    | none => exact starting_kind ⟨more, ahead, first⟩ nofun nofun nofun
    | some type =>
      rw [show u.kind = .keyword .RETURNS from congrArg (·.word.kind) (facing_cons ⟨more, ahead, first⟩)]
      nofun
  refine (reads_parameterList normal unopened).followed (fun _ ahead => ahead) ?_
  · rintro _ rfl
    refine (reads_resultType stated).last (fun _ known => known) ?_
    rintro _ rfl
    exact reads_pure rfl

theorem reads_routine (normal : params.all Param.normal = true)
    (stated : (returns.isSome == (kind == .function)) = true) (room : nest.room ≠ 0)
    (top : nest.isTop = true) (all : Body style inside nest [kind.closing] body) :
    Reads (some n) (routineDeclaration inside nest start kind)
      (fromLine n ((.name name :: ((if style.bare ∧ params.isEmpty then []
        else parenthesised (separated [.sign .comma] (paramsWords style .byValue params))) ++
          (returns.map fun type => [Word.keyword .RETURNS, .type type]).getD [])) ::
            (blockLines style body ++ [[Word.keyword kind.closing]])))
      (blockOperators body) (Below (n + 1 + (blockLines style body).length + 1))
      (SameBlock [.routine ⟨p, kind, some name, params, returns, body⟩]) := by
  have closing : kind.closing.closesBlock = true := by cases kind <;> rfl
  unfold routineDeclaration
  refine ((reads_routineHeader normal stated).header.above
    (fun _ => starting_of_ahead closing all fun _ below => below) ?_).mono (Nat.le_of_eq (Nat.zero_add _))
      (fun _ below => below) fun _ same => same
  rintro _ ⟨_, rfl, rfl⟩
  refine reads_lastBody room all (.head _) closing fun line block same => ?_
  refine reads_discard (reads_end ?_)
  rw [if_pos top]
  refine reads_pure (sameBlock_one ?_)
  simp only [Stmt.moved, blockMoved_eq]
  rw [same]
  rfl

end Routines

end Pseudocode.Parse
