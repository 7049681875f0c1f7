import Pseudocode.Proofs.EmbeddedStatements

/-! Blocks of a text that stands in a longer one, and with them statements of every form. Each loop
over the statements of a block takes a token in every round, so the tokens left bound it in both
readings. -/
namespace Pseudocode.Embedding

open Parse

variable {E : Embedding} {s s' : Reader} {α β : Type} {rel : α → α → Prop} {cut : Reader → Prop}

theorem agrees_atEnd {next next' : Bool → Parse α} (joins : E.Joins s s') (left : s.rest = t :: r)
    (rest : E.Agrees s s' (next false) (next' false) rel cut) :
    E.Agrees s s' (atEnd >>= next) (atEnd >>= next') rel cut := by
  have answer : (atEnd >>= next) s = next s.rest.isEmpty s := rfl
  have answer' : (atEnd >>= next') s' = next' s'.rest.isEmpty s' := rfl
  rw [left] at answer
  rw [joins.rest, left] at answer'
  exact Agrees.congr answer answer' rest

/-- A loop that is done where the tokens are used up agrees, or is cut. -/
theorem agrees_done {m m' : Parse α} (joins : E.Joins s s') (left : s.rest = [])
    (done : m s = .ok a s) (done' : s'.rest = [] → m' s' = .ok b s') (known : rel a b) :
    E.Agrees s s' m m' rel E.Cut := by
  by_cases more : E.below = []
  · exact agrees_stop joins done (done' (by rw [joins.rest, left, more]; rfl)) known
  · intro c t ran _
    rw [done] at ran
    cases ran
    exact .inl ⟨left, more⟩

theorem statements_done (one : Parse (List Stmt)) (closers : List Keyword) (fuel : Nat)
    (left : s.rest = []) : statements one closers fuel s = .ok [] s := by
  cases fuel with
  | zero => rfl
  | succ fuel =>
    unfold statements
    rw [current_bind]
    show (if s.rest.isEmpty then _ else _ : Parse (List Stmt)) s = _
    rw [left]
    rfl

/-- Whenever the production succeeds it takes a token, if there is one. -/
def Shrinks (one : Parse α) : Prop :=
  ∀ s : Reader, Ends one s (fun _ t => t.rest.length ≤ s.rest.length - 1) (fun _ _ => True)

theorem statements_agrees {one : Parse (List Stmt)} [Forward one]
    (ones : ∀ {s s'}, E.Joins s s' → s.rest ≠ [] → E.Agrees s s' one one E.SameBlock)
    (shrinks : Shrinks one) (closers : List Keyword) (joins : E.Joins s s') {fuel fuel' : Nat}
    (enough : s.rest.length ≤ fuel) (enough' : s'.rest.length ≤ fuel') :
    E.Agrees s s' (statements one closers fuel) (statements one closers fuel') E.SameBlock E.Cut := by
  have stops {s s' : Reader} (joins : E.Joins s s') (left : s.rest = []) (fuel fuel' : Nat) :
      E.Agrees s s' (statements one closers fuel) (statements one closers fuel') E.SameBlock E.Cut :=
    agrees_done joins left (statements_done one closers fuel left)
      (statements_done one closers fuel') ⟨rfl, rfl⟩
  induction fuel generalizing fuel' s s' with
  | zero => exact stops joins (List.eq_nil_of_length_eq_zero (Nat.le_zero.mp enough)) _ _
  | succ fuel ih =>
    cases left : s.rest with
    | nil => exact stops joins left _ _
    | cons t r =>
      have long := joins.length
      have some : s.rest ≠ [] := by rw [left]; nofun
      have positive := List.length_pos_iff.mpr some
      obtain ⟨fuel', rfl⟩ : ∃ n, fuel' = n + 1 := ⟨fuel' - 1, by omega⟩
      unfold statements
      refine agrees_current joins (fun done => absurd done some) fun t r left holds => ?_
      refine agrees_atEnd joins left ?_
      have same : closer? (t.down E.above) = closer? t := rfl
      rw [same]
      rw [if_neg Bool.false_ne_true, if_neg Bool.false_ne_true]
      split
      · split
        · exact agrees_pure joins ⟨rfl, rfl⟩
        · exact agrees_record _ _
      · refine (orSkip_agrees joins (ones joins some)).bind fun first first' u u' ran joinsU known => ?_
        have shorter := (shrinks s).of_ok (orSkip_ok joins.legible ran joinsU.clean)
        have long' := joinsU.length
        refine (ih joinsU (by omega) (by omega)).follow inferInstance inferInstance
          fun rest rest' v v' _ joinsV knowns => ?_
        exact agrees_pure joinsV (known.append knowns)

/-- What is known of the statements inside a block. -/
structure Statements (E : Embedding) (statement : Nest → Parse (List Stmt)) : Prop where
  agrees : ∀ nest {s s'}, E.Joins s s' → s.rest ≠ [] →
    E.Agrees s s' (statement nest) (statement nest) E.SameBlock
  shrinks : ∀ nest, Shrinks (statement nest)

section

variable {statement : Nest → Parse (List Stmt)} [∀ nest, Forward (statement nest)]

theorem block_agrees (inner : E.Statements statement) (joins : E.Joins s s') (nest : Nest)
    (closers : List Keyword) :
    E.Agrees s s' (block statement nest closers) (block statement nest closers) E.SameBlock E.Cut := by
  unfold block
  split
  · exact agrees_of_error rfl
  · refine agrees_remaining ?_
    exact statements_agrees (inner.agrees _) (inner.shrinks _) _ joins (Nat.le_refl _) (Nat.le_refl _)

theorem ifStatement_agrees (proper : E.Proper) (inner : E.Statements statement)
    (joins : E.Joins s s') (nest : Nest) {start start' : Token} (begun : E.SameToken start start') :
    E.Agrees s s' (ifStatement statement nest start) (ifStatement statement nest start')
      E.SameBlock := by
  obtain ⟨_, rfl⟩ := begun
  have condition : E.Agrees s s'
      (do
        let condition ← expression nest.room
        discard <| expectWord .THEN "IF condition"
        return condition)
      (do
        let condition ← expression nest.room
        discard <| expectWord .THEN "IF condition"
        return condition) E.SameExpr :=
    (expression_agrees proper nest.room joins).bind fun e f t t' _ joinsT same =>
      (expectWord_agrees joinsT _ _ _).discard.bind fun _ _ u u' _ joinsU _ => agrees_pure joinsU same
  unfold ifStatement
  refine (header_agrees joins condition).bind fun _ _ t t' _ joinsT same => ?_
  obtain ⟨e, _, rfl, rfl, rfl⟩ := same
  have ended (thenBranch : List Stmt) (elseBranch : Option (List Stmt)) : Dead (do
      discard <| expectTerminator .ENDIF "IF block" start
      return [Stmt.ifThen start.position (some e) thenBranch elseBranch]) :=
    (expectTerminator_dead _ _ _).discard.bind
  refine (block_agrees inner joinsT nest _).closed joinsT
    (fun thenBranch => dead_accept nofun (ended thenBranch none))
    fun thenBranch _ u u' _ joinsU known => ?_
  have closes {v v' : Reader} (joinsV : E.Joins v v') (other other' : Option (List Stmt))
      (same : other' = other.map (List.map (Stmt.moved (.down E.above))))
      (complete : otherwiseComplete other = true) : E.Agrees v v'
      (do
        discard <| expectTerminator .ENDIF "IF block" start
        return [Stmt.ifThen start.position (some e) thenBranch other])
      (do
        discard <| expectTerminator .ENDIF "IF block" (start.down E.above)
        return [Stmt.ifThen (start.down E.above).position (some (e.moved (.down E.above)))
          (thenBranch.map (Stmt.moved (.down E.above))) other']) E.SameBlock := by
    refine (expectTerminator_agrees proper joinsV rfl _ _ _).discard.bind fun _ _ w w' _ joinsW _ => ?_
    refine agrees_pure joinsW (same_single ?_ ?_)
    · simp [Stmt.moved, same]
    · simp [Stmt.complete, known.complete, complete]
  obtain ⟨rfl, _⟩ := known
  refine agrees_accept joinsU proper (by decide) (fun _ _ v v' _ _ joinsV _ _ => ?_) ?_
  · have other : E.Agrees v v' (some <$> block statement nest [.ENDIF])
        (some <$> block statement nest [.ENDIF]) (SameHeader E.SameBlock) E.Cut :=
      (block_agrees inner joinsV nest _).map fun a b same => ⟨a, b, rfl, rfl, same⟩
    refine other.closed joinsV (fun other => ended thenBranch other)
      fun _ _ w w' _ joinsW same => ?_
    obtain ⟨block, _, rfl, rfl, same⟩ := same
    exact closes joinsW _ _ (by rw [same.same]; rfl) same.complete
  · exact closes joinsU none none rfl rfl

theorem whileStatement_agrees (proper : E.Proper) (inner : E.Statements statement)
    (joins : E.Joins s s') (nest : Nest) {start start' : Token} (begun : E.SameToken start start') :
    E.Agrees s s' (whileStatement statement nest start) (whileStatement statement nest start')
      E.SameBlock := by
  obtain ⟨_, rfl⟩ := begun
  have condition : E.Agrees s s'
      (do
        let condition ← expression nest.room
        discard <| acceptWord .DO
        return condition)
      (do
        let condition ← expression nest.room
        discard <| acceptWord .DO
        return condition) E.SameExpr :=
    (expression_agrees proper nest.room joins).bind fun e f t t' _ joinsT same =>
      (accept_agrees proper joinsT (by decide)).discard.bind fun _ _ u u' _ joinsU _ =>
        agrees_pure joinsU same
  unfold whileStatement
  refine (header_agrees joins condition).bind fun _ _ t t' _ joinsT same => ?_
  obtain ⟨e, _, rfl, rfl, rfl⟩ := same
  refine (block_agrees inner joinsT nest _).closed joinsT
    (fun body => (expectTerminator_dead _ _ _).discard.bind) fun body _ u u' _ joinsU known => ?_
  refine (expectTerminator_agrees proper joinsU rfl _ _ _).discard.bind fun _ _ v v' _ joinsV _ => ?_
  refine agrees_pure joinsV (same_single ?_ ?_)
  · simp [Stmt.moved, known.same]
  · simp [Stmt.complete, known.complete]

theorem repeatStatement_agrees (proper : E.Proper) (inner : E.Statements statement)
    (joins : E.Joins s s') (nest : Nest) {start start' : Token} (begun : E.SameToken start start') :
    E.Agrees s s' (repeatStatement statement nest start) (repeatStatement statement nest start')
      E.SameBlock := by
  obtain ⟨_, rfl⟩ := begun
  unfold repeatStatement
  refine (block_agrees inner joins nest _).closed joins
    (fun body => (expectTerminator_dead _ _ _).bind) fun body _ t t' _ joinsT known => ?_
  refine (expectTerminator_agrees proper joinsT rfl _ _ _).bind fun _ _ u u' _ joinsU same => ?_
  obtain ⟨rfl, rfl⟩ := same
  refine (header_agrees joinsU (expression_agrees proper nest.room joinsU)).bind
    fun _ _ v v' _ joinsV same => ?_
  obtain ⟨e, _, rfl, rfl, rfl⟩ := same
  refine agrees_pure joinsV (same_single ?_ ?_)
  · simp [Stmt.moved, known.same]
  · simp [Stmt.complete, known.complete]

/-- The headers of a FOR loop in the two readings. -/
def SameCounting (E : Embedding) (a b : String × Expr × Expr × Option Expr) : Prop :=
  b = (a.1, a.2.1.moved (.down E.above), a.2.2.1.moved (.down E.above),
    a.2.2.2.map (Expr.moved (.down E.above)))

theorem forStep_agrees (proper : E.Proper) (joins : E.Joins s s') (room : Nat) :
    E.Agrees s s' (forStep room) (forStep room) fun a b =>
      b = a.map (Expr.moved (.down E.above)) := by
  unfold forStep
  refine agrees_accept joins proper (by decide) (fun _ _ t t' _ _ joinsT _ _ => ?_) ?_
  · refine (expression_agrees proper room joinsT).bind fun e f u u' _ joinsU same => ?_
    exact agrees_pure joinsU (by rw [same]; rfl)
  · exact agrees_pure joins rfl

theorem forHeader_agrees (proper : E.Proper) (joins : E.Joins s s') (room : Nat) :
    E.Agrees s s' (forHeader room) (forHeader room) E.SameCounting := by
  unfold forHeader
  refine (expectIdentifier_agrees joins _ _).andThen (fun _ => ?_) (fun _ => ?_)
    fun name _ t t' _ joinsT same => ?_
  · dsimp only
    infer_instance
  · dsimp only
    infer_instance
  · obtain ⟨_, rfl⟩ := same
    dsimp only
    refine (acceptAssign_agrees proper joinsT).bind fun assigned _ u u' _ joinsU same => ?_
    cases same
    cases assigned with
    | true =>
      refine (expression_agrees proper room joinsU).bind fun first _ v v' _ joinsV same => ?_
      cases same
      refine (expectWord_agrees joinsV _ _ _).discard.bind fun _ _ w w' _ joinsW _ => ?_
      refine (expression_agrees proper room joinsW).bind fun last _ x x' _ joinsX same => ?_
      cases same
      refine (forStep_agrees proper joinsX room).bind fun step _ y y' _ joinsY same => ?_
      cases same
      exact agrees_pure joinsY rfl
    | false => exact failExpected_agrees _ _ _

/-- The token behind the text is not a name on a line of the text. -/
theorem Proper.next_name (proper : E.Proper) {last : Token} (placed : E.Holds last) :
    ¬(E.next.kind = .identifier ∧ E.next.line = last.line + E.above) := by
  rintro ⟨name, there⟩
  obtain ⟨none, ends⟩ | ⟨_, behind⟩ := proper
  · rw [next, none] at name
    cases ends.symm.trans name
  · have := placed.last
    omega

theorem checkNextName_agrees (proper : E.Proper) (joins : E.Joins s s') {last : Token}
    (before : s.previous = some last) (counter : Option String) :
    E.Agrees s s' (checkNextName counter) (checkNextName counter) fun _ _ => True := by
  have placed := joins.before last before
  have before' : s'.previous = some (last.down E.above) := by rw [joins.previous, before]; rfl
  unfold checkNextName
  refine agrees_current joins (fun done => agrees_previous ?_) fun t r rest holds => agrees_previous ?_
  · rw [before, before']
    dsimp only [Option.getD_some]
    rw [if_neg (by rw [joins.ends]; nofun), Token.line_down, if_neg (proper.next_name placed)]
    exact agrees_pure joins trivial
  · rw [before, before']
    dsimp only [Option.getD_some]
    by_cases here : t.kind = .identifier ∧ t.line = last.line
    · rw [if_pos here, if_pos ⟨here.1, by simp [here.2]⟩]
      refine agrees_skip joins rest fun u u' joinsU _ => ?_
      cases counter with
      | none => exact agrees_pure joinsU trivial
      | some counter =>
        dsimp only
        rw [Token.lexeme_down]
        split
        · rw [← bind_pure (record _)]
          exact agrees_record _ _
        · exact agrees_pure joinsU trivial
    · rw [if_neg here, if_neg fun there => here ⟨there.1, Nat.add_right_cancel there.2⟩]
      exact agrees_pure joins trivial

theorem forStatement_agrees (proper : E.Proper) (inner : E.Statements statement)
    (joins : E.Joins s s') (nest : Nest) {start start' : Token} (begun : E.SameToken start start') :
    E.Agrees s s' (forStatement statement nest start) (forStatement statement nest start')
      E.SameBlock := by
  obtain ⟨_, rfl⟩ := begun
  unfold forStatement
  refine (header_agrees joins (forHeader_agrees proper joins nest.room)).andThen (fun _ => ?_)
    (fun _ => ?_) fun _ _ t t' _ joinsT same => ?_
  · dsimp only
    infer_instance
  · dsimp only
    infer_instance
  · obtain ⟨read, _, rfl, rfl, rfl⟩ := same
    dsimp only [Option.map_some, Option.bind_some]
    refine (block_agrees inner joinsT nest _).closed joinsT
      (fun body => dead_accept nofun (expectTerminator_dead _ _ _).discard.bind)
      fun body _ u u' _ joinsU known => ?_
    have made {v v' : Reader} (joinsV : E.Joins v v') {body' : List Stmt} (known : E.SameBlock body body') :
        E.Agrees v v' (pure [.forLoop start.position (some read.1) (some read.2.1) (some read.2.2.1)
            read.2.2.2 body])
          (pure [.forLoop (start.down E.above).position (some read.1)
            (some (read.2.1.moved (.down E.above))) (some (read.2.2.1.moved (.down E.above)))
            (read.2.2.2.map (Expr.moved (.down E.above))) body']) E.SameBlock := by
      refine agrees_pure joinsV (same_single ?_ ?_)
      · simp [Stmt.moved, known.same]
      · simp [Stmt.complete, known.complete]
    refine agrees_accept joinsU proper (by decide) (fun _ _ v v' _ _ joinsV _ before => ?_) ?_
    · exact (checkNextName_agrees proper joinsV before _).bind fun _ _ w w' _ joinsW _ =>
        made joinsW known
    · exact (expectTerminator_agrees proper joinsU rfl _ _ _).discard.bind fun _ _ w w' _ joinsW _ =>
        made joinsW known

theorem caseHeader_agrees (proper : E.Proper) (joins : E.Joins s s') (room : Nat) :
    E.Agrees s s' (caseHeader room) (caseHeader room) E.SameExpr := by
  unfold caseHeader
  refine agrees_accept joins proper (by decide) (fun _ _ t t' _ _ joinsT _ _ => ?_) ?_
  · exact expression_agrees proper room joinsT
  · exact (expression_agrees proper room joins).bind fun e f t t' _ joinsT same =>
      (expectWord_agrees joinsT _ _ _).discard.bind fun _ _ u u' _ joinsU _ => agrees_pure joinsU same

theorem agrees_modify {f f' : Reader → Reader} {next next' : PUnit → Parse α}
    (rest : E.Agrees (f s) (f' s') (next ⟨⟩) (next' ⟨⟩) rel cut) :
    E.Agrees s s' (modify f >>= next) (modify f' >>= next') rel cut := rest

theorem caseLabel_agrees (proper : E.Proper) (joins : E.Joins s s') (room : Nat) :
    E.Agrees s s' (caseLabel room) (caseLabel room) E.SameExpr := by
  have fresh : E.Joins { s with operators := 0 } { s' with operators := 0 } :=
    { joins with operators := .inl rfl }
  unfold caseLabel
  refine agrees_current joins (fun done => agrees_modify ?_) fun t r rest holds => agrees_modify ?_
  · have ends : s.current.kind = .endOfInput := by rw [(joins.current_end done).1, joins.ends]
    obtain ⟨e, failed⟩ := operand_end (s := { s with operators := 0 }) ends s.finish.line room false
    exact agrees_of_error (bind_of_error failed)
  · refine (operand_agrees proper t.line fresh false).bind fun low _ u u' _ joinsU same => ?_
    cases same
    refine agrees_accept joinsU proper (by decide) (fun _ _ v v' _ _ joinsV _ _ => ?_) ?_
    · refine (operand_agrees proper t.line joinsV false).bind fun high _ w w' _ joinsW same => ?_
      cases same
      exact agrees_pure joinsW (by simp [SameExpr, Expr.moved])
    · exact agrees_pure joinsU rfl

/-- Whether two tokens in a row look like a label. -/
def labelAt (first second : TokenKind) : Bool :=
  if first = .sign .minus then second.isNumber
  else if first = .identifier then
    second == .sign .colon || second == .keyword .TO || second == .sign .comma
  else first.isLiteral

/-- The token after the next one. -/
def second (s : Reader) : Token := s.rest.tail.head?.getD s.finish

theorem startsLabel_eq : startsLabel =
    current >>= fun token => following >>= fun next => pure (labelAt token.kind next.kind) := by
  unfold startsLabel
  refine congrArg _ (funext fun token => congrArg _ (funext fun next => ?_))
  split
  next minus => rw [minus]; rfl
  next name => rw [name]; rfl
  next kind minus name => rw [labelAt, if_neg minus, if_neg name]

theorem startsLabel_apply (s : Reader) :
    startsLabel s = .ok (labelAt s.current.kind (second s).kind) s := by
  rw [startsLabel_eq]
  rfl

theorem Joins.labelAt (joins : E.Joins s s') (proper : E.Proper) (left : s.rest = t :: r) :
    Embedding.labelAt s'.current.kind (second s').kind =
      Embedding.labelAt s.current.kind (second s).kind := by
  obtain ⟨here, here', -⟩ := joins.current_inside left
  rw [here, here', Token.kind_down]
  cases r with
  | nil =>
    have past : second s = s.finish := by rw [second, left]; rfl
    have past' : second s' = E.next := by rw [second, joins.rest, joins.finish, left]; rfl
    have number : E.next.kind.isNumber = false := by
      obtain opens | ends := proper.next_kind
      · cases kind : E.next.kind <;> first | rfl | (rw [kind] at opens; cases opens)
      · rw [ends]; rfl
    have other (kind : TokenKind) (inner : Inner kind) : (E.next.kind == kind) = false :=
      beq_eq_false_iff_ne.mpr (proper.next_ne inner)
    rw [past, past', joins.ends, Embedding.labelAt, Embedding.labelAt, number,
      other _ (by decide), other _ (by decide), other _ (by decide)]
    rfl
  | cons u r =>
    have past : second s = u := by rw [second, left]; rfl
    have past' : second s' = u.down E.above := by rw [second, joins.rest, left]; rfl
    rw [past, past', Token.kind_down]

/-- Whether the statements of a branch are over. -/
def endsBranch (s : Reader) : Bool :=
  s.rest.isEmpty || (closer? s.current).isSome || labelAt s.current.kind (second s).kind

theorem branchBody_step (one : Parse (List Stmt)) (fuel : Nat) (s : Reader) :
    branchBody one (fuel + 1) s = (if endsBranch s then pure [] else
      orSkip one [] >>= fun first => branchBody one fuel >>= fun rest => pure (first ++ rest)) s := by
  show (startsLabel >>= fun starts => if _ || starts then _ else _ : Parse (List Stmt)) s = _
  rw [bind_of_ok (startsLabel_apply s)]
  rfl

theorem branchBody_done (one : Parse (List Stmt)) (fuel : Nat) (left : s.rest = []) :
    branchBody one fuel s = .ok [] s := by
  cases fuel with
  | zero => rfl
  | succ fuel =>
    rw [branchBody_step, if_pos (by rw [endsBranch, left]; rfl)]
    rfl

theorem branchBody_agrees {one : Parse (List Stmt)} [Forward one] (proper : E.Proper)
    (ones : ∀ {s s'}, E.Joins s s' → s.rest ≠ [] → E.Agrees s s' one one E.SameBlock)
    (shrinks : Shrinks one) (joins : E.Joins s s') {fuel fuel' : Nat}
    (enough : s.rest.length ≤ fuel) (enough' : s'.rest.length ≤ fuel') :
    E.Agrees s s' (branchBody one fuel) (branchBody one fuel') E.SameBlock E.Cut := by
  have stops {s s' : Reader} (joins : E.Joins s s') (left : s.rest = []) (fuel fuel' : Nat) :
      E.Agrees s s' (branchBody one fuel) (branchBody one fuel') E.SameBlock E.Cut :=
    agrees_done joins left (branchBody_done one fuel left) (branchBody_done one fuel') ⟨rfl, rfl⟩
  induction fuel generalizing fuel' s s' with
  | zero => exact stops joins (List.eq_nil_of_length_eq_zero (Nat.le_zero.mp enough)) _ _
  | succ fuel ih =>
    cases left : s.rest with
    | nil => exact stops joins left _ _
    | cons t r =>
      have long := joins.length
      have some : s.rest ≠ [] := by rw [left]; nofun
      have positive := List.length_pos_iff.mpr some
      obtain ⟨fuel', rfl⟩ : ∃ n, fuel' = n + 1 := ⟨fuel' - 1, by omega⟩
      have same : endsBranch s' = endsBranch s := by
        obtain ⟨here, here', -⟩ := joins.current_inside left
        have closes : closer? (t.down E.above) = closer? t := rfl
        rw [endsBranch, endsBranch, joins.labelAt proper left, here, here', closes, joins.rest, left]
        rfl
      refine Agrees.congr (branchBody_step ..) (branchBody_step ..) ?_
      rw [same]
      split
      · exact agrees_pure joins ⟨rfl, rfl⟩
      · refine (orSkip_agrees joins (ones joins some)).bind fun first first' u u' ran joinsU known => ?_
        have shorter := (shrinks s).of_ok (orSkip_ok joins.legible ran joinsU.clean)
        have long' := joinsU.length
        refine (ih joinsU (by omega) (by omega)).follow inferInstance inferInstance
          fun rest rest' v v' _ joinsV knowns => ?_
        exact agrees_pure joinsV (known.append knowns)

/-- The branches that a production returns in the two readings. -/
structure SameBranch (E : Embedding) (a b : Branch Stmt) : Prop where
  same : b = a.moved (.down E.above)
  complete : blockComplete a.body = true

theorem caseBranch_agrees (proper : E.Proper) (inner : E.Statements statement) (joins : E.Joins s s')
    (nest : Nest) (left : s.rest ≠ []) :
    E.Agrees s s' (caseBranch statement nest) (caseBranch statement nest) E.SameBranch E.Cut := by
  unfold caseBranch
  refine agrees_current joins (fun done => absurd done left) fun t r rest holds => ?_
  refine (commaSeparated_agrees proper (fun joins => caseLabel_agrees proper joins nest.room)
    joins).bind fun labels _ u u' _ joinsU same => ?_
  cases map_of_same same
  refine (expectSign_agrees joinsU _ _ _).discard.bind fun _ _ v v' _ joinsV _ => ?_
  refine agrees_remaining ?_
  refine (branchBody_agrees proper (inner.agrees nest) (inner.shrinks nest) joinsV (Nat.le_refl _)
    (Nat.le_refl _)).follow inferInstance inferInstance fun body body' w w' _ joinsW known => ?_
  exact agrees_pure joinsW ⟨by rw [known.same]; rfl, known.complete⟩

section Shrinking

variable {m : Parse α} {next : α → Parse β}

theorem Shrinks.first (shrinks : Shrinks m) (rest : ∀ a, Forward (next a) := by infer_instance) :
    Shrinks (m >>= next) := by
  intro s
  rw [ends_bind]
  refine (shrinks s).mono (fun a t shorter => ?_) fun _ _ _ => trivial
  exact ((rest a).ends t).mono
    (fun _ _ onward => Nat.le_trans onward.rest.length_le shorter) fun _ _ _ => trivial

theorem Shrinks.second [Forward m] (shrinks : ∀ a, Shrinks (next a)) : Shrinks (m >>= next) := by
  intro s
  rw [ends_bind]
  refine (Forward.ends s).mono (fun a t first => ?_) fun _ _ _ => trivial
  exact (shrinks a t).mono
    (fun _ _ shorter => Nat.le_trans shorter (Nat.sub_le_sub_right first.rest.length_le 1))
    fun _ _ _ => trivial

theorem Shrinks.discard (shrinks : Shrinks m) : Shrinks (discard m) :=
  fun s => ends_discard.mpr (shrinks s)

theorem Shrinks.map {f : α → β} (shrinks : Shrinks m) : Shrinks (f <$> m) :=
  fun s => (ends_map f).mpr (shrinks s)

theorem advance_shrinks : Shrinks advance := fun _ => Nat.le_of_eq (List.length_tail ..)

theorem expect_shrinks (kind : TokenKind) (text context : String) :
    Shrinks (expect kind text context) := by
  intro s
  refine ends_iff.mpr ⟨fun a t ran => ?_, fun _ _ _ => trivial⟩
  obtain ⟨_, _, rfl⟩ := expect_ok ran
  exact (advance_shrinks s).of_ok (a := s.current) rfl

theorem caseBranch_shrinks (nest : Nest) : Shrinks (caseBranch statement nest) := by
  unfold caseBranch
  exact .second fun _ => .second fun _ => (expect_shrinks _ _ _).discard.first

end Shrinking

/-- The branches of a CASE statement and its OTHERWISE part in the two readings. -/
structure SameBranches (E : Embedding) (a b : List (Branch Stmt) × Option (List Stmt)) : Prop where
  branches : b.1 = a.1.map (Branch.moved (.down E.above))
  otherwise : b.2 = a.2.map (List.map (Stmt.moved (.down E.above)))
  complete : branchesComplete a.1 = true ∧ otherwiseComplete a.2 = true

theorem caseBranches_done (statement : Nest → Parse (List Stmt)) (nest : Nest) (fuel : Nat)
    (left : s.rest = []) : caseBranches statement nest fuel s = .ok ([], none) s := by
  cases fuel with
  | zero => rfl
  | succ fuel =>
    unfold caseBranches
    rw [current_bind]
    show (if s.rest.isEmpty then _ else _ : Parse (List (Branch Stmt) × Option (List Stmt))) s = _
    rw [left]
    rfl

theorem caseBranches_agrees (proper : E.Proper) (inner : E.Statements statement)
    (joins : E.Joins s s') (nest : Nest) {fuel fuel' : Nat} (enough : s.rest.length ≤ fuel)
    (enough' : s'.rest.length ≤ fuel') :
    E.Agrees s s' (caseBranches statement nest fuel) (caseBranches statement nest fuel')
      E.SameBranches E.Cut := by
  have none : E.SameBranches ([], none) ([], none) := ⟨rfl, rfl, rfl, rfl⟩
  have stops {s s' : Reader} (joins : E.Joins s s') (left : s.rest = []) (fuel fuel' : Nat) :
      E.Agrees s s' (caseBranches statement nest fuel) (caseBranches statement nest fuel')
        E.SameBranches E.Cut :=
    agrees_done joins left (caseBranches_done statement nest fuel left)
      (caseBranches_done statement nest fuel') none
  induction fuel generalizing fuel' s s' with
  | zero => exact stops joins (List.eq_nil_of_length_eq_zero (Nat.le_zero.mp enough)) _ _
  | succ fuel ih =>
    cases left : s.rest with
    | nil => exact stops joins left _ _
    | cons t r =>
      have long := joins.length
      have some : s.rest ≠ [] := by rw [left]; nofun
      have positive := List.length_pos_iff.mpr some
      obtain ⟨fuel', rfl⟩ : ∃ n, fuel' = n + 1 := ⟨fuel' - 1, by omega⟩
      unfold caseBranches
      refine agrees_current joins (fun done => absurd done some) fun t r left holds => ?_
      refine agrees_atEnd joins left ?_
      have same : closer? (t.down E.above) = closer? t := rfl
      rw [same, if_neg Bool.false_ne_true, if_neg Bool.false_ne_true]
      split
      · refine agrees_skip joins left fun u u' joinsU _ => ?_
        refine (accept_agrees proper joinsU (by decide)).discard.bind fun _ _ v v' _ joinsV _ => ?_
        refine (block_agrees inner joinsV nest _).follow inferInstance inferInstance
          fun body body' w w' _ joinsW known => ?_
        exact agrees_pure joinsW ⟨rfl, by rw [known.same]; rfl, rfl, known.complete⟩
      · exact agrees_pure joins none
      · have read : E.Agrees s s' (Option.some <$> caseBranch statement nest)
            (Option.some <$> caseBranch statement nest) (SameHeader E.SameBranch) E.Cut :=
          (caseBranch_agrees proper inner joins nest some).map fun a b same => ⟨a, b, rfl, rfl, same⟩
        refine (orSkip_agrees joins read).follow (fun _ => ?_) (fun _ => ?_)
          fun _ _ u u' ran joinsU known => ?_
        · exact forward_bind fun _ => by split; infer_instance
        · exact forward_bind fun _ => by split; infer_instance
        · obtain ⟨branch, _, rfl, rfl, known⟩ := known
          have shorter := ((caseBranch_shrinks nest).map s).of_ok
            (orSkip_ok joins.legible ran joinsU.clean)
          have long' := joinsU.length
          refine (ih joinsU (by omega) (by omega)).follow (fun _ => by split; infer_instance)
            (fun _ => by split; infer_instance) fun others others' v v' _ joinsV knowns => ?_
          refine agrees_pure joinsV ⟨?_, knowns.otherwise, ?_, knowns.complete.2⟩
          · simp [known.same, knowns.branches]
          · simp [branchesComplete, known.complete, knowns.complete.1]

theorem caseStatement_agrees (proper : E.Proper) (inner : E.Statements statement)
    (joins : E.Joins s s') (nest : Nest) {start start' : Token} (begun : E.SameToken start start') :
    E.Agrees s s' (caseStatement statement nest start) (caseStatement statement nest start')
      E.SameBlock := by
  obtain ⟨_, rfl⟩ := begun
  unfold caseStatement
  refine (header_agrees joins (caseHeader_agrees proper joins nest.room)).andThen (fun _ => ?_)
    (fun _ => ?_) fun _ _ t t' _ joinsT same => ?_
  · dsimp only
    infer_instance
  · dsimp only
    infer_instance
  · obtain ⟨e, _, rfl, rfl, rfl⟩ := same
    dsimp only
    refine agrees_remaining ?_
    refine (caseBranches_agrees proper inner joinsT _ (Nat.le_refl _) (Nat.le_refl _)).closed joinsT
      (fun read => (expectTerminator_dead _ _ _).discard.bind) fun read read' u u' _ joinsU known => ?_
    refine (expectTerminator_agrees proper joinsU rfl _ _ _).discard.bind fun _ _ v v' _ joinsV _ => ?_
    refine agrees_pure joinsV (same_single ?_ ?_)
    · simp [Stmt.moved, known.branches, known.otherwise]
    · simp [Stmt.complete, known.complete]

end

section Routines

theorem passMode_agrees (proper : E.Proper) (joins : E.Joins s s') (mode : PassMode) :
    E.Agrees s s' (passMode mode) (passMode mode) Eq := by
  unfold passMode
  refine agrees_accept joins proper (by decide) (fun _ _ t t' _ _ joinsT _ _ => ?_) ?_
  · exact agrees_pure joinsT rfl
  · refine agrees_accept joins proper (by decide) (fun _ _ t t' _ _ joinsT _ _ => ?_) ?_
    · exact agrees_pure joinsT rfl
    · exact agrees_pure joins rfl

theorem parameterType_agrees (proper : E.Proper) (joins : E.Joins s s') (name : String) :
    E.Agrees s s' (parameterType name) (parameterType name) Eq := by
  unfold parameterType
  refine agrees_accept joins proper (by decide) (fun _ _ t t' _ _ joinsT _ _ => ?_) ?_
  · have element {u u' : Reader} (joinsU : E.Joins u u') : E.Agrees u u'
        (do if ← acceptWord .OF then return (TypeWord.ARRAY.text, some (← typeName "OF"))
            else return (TypeWord.ARRAY.text, none))
        (do if ← acceptWord .OF then return (TypeWord.ARRAY.text, some (← typeName "OF"))
            else return (TypeWord.ARRAY.text, none)) Eq := by
      refine agrees_accept joinsU proper (by decide) (fun _ _ v v' _ _ joinsV _ _ => ?_) ?_
      · refine (typeName_agrees joinsV _).bind fun type _ w w' _ joinsW same => ?_
        cases same
        exact agrees_pure joinsW rfl
      · exact agrees_pure joinsU rfl
    dsimp only
    refine agrees_nextIs joinsT proper (by decide) fun bounded => ?_
    cases bounded with
    | true => exact (arrayBounds_agrees proper joinsT).discard.bind fun _ _ u u' _ joinsU _ => element joinsU
    | false => exact element joinsT
  · refine (typeName_agrees joins _).bind fun type _ t t' _ joinsT same => ?_
    cases same
    exact agrees_pure joinsT rfl

theorem parameters_agrees (proper : E.Proper) (joins : E.Joins s s') (mode : PassMode)
    {fuel fuel' : Nat} (enough : s.rest.length < fuel) (enough' : s'.rest.length < fuel') :
    E.Agrees s s' (parameters mode fuel) (parameters mode fuel') Eq := by
  induction fuel generalizing fuel' s s' mode with
  | zero => cases enough
  | succ fuel ih =>
    obtain ⟨fuel', rfl⟩ : ∃ n, fuel' = n + 1 := ⟨fuel' - 1, by omega⟩
    unfold parameters
    refine (passMode_agrees proper joins mode).andThen ?_ ?_ fun mode _ t t' ran joinsT same => ?_
    · exact fun _ => forward_bind fun _ => forward_bind fun _ => forward_bind fun _ => inferInstance
    · exact fun _ => forward_bind fun _ => forward_bind fun _ => forward_bind fun _ => inferInstance
    cases same
    have shorter := (Forward.of_ok ran).rest.length_le
    have long := joinsT.length
    have long' := joins.length
    refine (expectIdentifier_agrees joinsT _ _).andThen ?_ ?_ fun name _ u u' ran' joinsU same => ?_
    · exact fun _ => forward_bind fun _ => forward_bind fun _ => inferInstance
    · exact fun _ => forward_bind fun _ => forward_bind fun _ => inferInstance
    obtain ⟨_, rfl⟩ := same
    have shorter' := (expect_shrinks _ _ _ t).of_ok ran'
    refine (expectSign_agrees joinsU _ _ _).discard.andThen ?_ ?_ fun _ _ v v' ran' joinsV _ => ?_
    · exact fun _ => forward_bind fun _ => inferInstance
    · exact fun _ => forward_bind fun _ => inferInstance
    have behind := (Forward.of_ok ran').rest.length_le
    refine (parameterType_agrees proper joinsV _).bind fun type _ w w' ran' joinsW same => ?_
    cases same
    have behind' := (Forward.of_ok ran').rest.length_le
    dsimp only
    refine agrees_accept joinsW proper (by decide) (fun _ r x x' left _ joinsX more _ => ?_) ?_
    · have long := joinsX.length
      rw [left, List.length_cons, ← more] at behind'
      refine (ih joinsX mode (by omega) (by omega)).bind fun rest _ y y' _ joinsY same => ?_
      cases same
      exact agrees_pure joinsY rfl
    · exact agrees_pure joinsW rfl

theorem parameterList_agrees (proper : E.Proper) (joins : E.Joins s s') (routine routine' : Token) :
    E.Agrees s s' (parameterList routine) (parameterList routine') Eq := by
  unfold parameterList
  refine agrees_accept joins proper (by decide) (fun _ _ t t' _ _ joinsT _ _ => ?_) ?_
  · have closes {u u' : Reader} (joinsU : E.Joins u u') (params : List Param) : E.Agrees u u'
        (do if ← acceptSign .closeParen then return params
            else fail routine.position (.unclosedParameters routine.lexeme))
        (do if ← acceptSign .closeParen then return params
            else fail routine'.position (.unclosedParameters routine'.lexeme)) Eq := by
      refine agrees_accept joinsU proper (by decide) (fun _ _ v v' _ _ joinsV _ _ => ?_) ?_
      · exact agrees_pure joinsV rfl
      · exact agrees_of_error rfl
    dsimp only
    refine agrees_nextIs joinsT proper (by decide) fun empty => ?_
    cases empty with
    | true => exact closes joinsT []
    | false =>
      refine agrees_remaining ?_
      refine (parameters_agrees proper joinsT .byValue (Nat.lt_succ_self _) (Nat.lt_succ_self _)).bind
        fun params _ u u' _ joinsU same => ?_
      cases same
      exact closes joinsU params
  · exact agrees_pure joins rfl

/-- The result types that are read: the same, and there is one if there has to be. -/
def SameResult (kind : RoutineKind) (a b : Option String) : Prop :=
  a = b ∧ (kind == .procedure || a.isSome) = true

theorem resultType_agrees (joins : E.Joins s s') (kind : RoutineKind) (name : String) :
    E.Agrees s s' (resultType kind name) (resultType kind name) (SameResult kind) := by
  cases kind with
  | procedure => exact agrees_pure joins ⟨rfl, rfl⟩
  | function =>
    unfold resultType
    refine (expectWord_agrees joins _ _ _).discard.bind fun _ _ t t' _ joinsT _ => ?_
    refine (typeName_agrees joinsT _).bind fun type _ u u' _ joinsU same => ?_
    cases same
    exact agrees_pure joinsU ⟨rfl, rfl⟩

theorem routineHeader_agrees (proper : E.Proper) (joins : E.Joins s s') (kind : RoutineKind) :
    E.Agrees s s' (routineHeader kind) (routineHeader kind) fun a b =>
      a = b ∧ (kind == .procedure || a.2.2.isSome) = true := by
  unfold routineHeader
  refine agrees_previous ?_
  refine (expectIdentifier_agrees joins _ _).bind fun name _ t t' _ joinsT same => ?_
  obtain ⟨_, rfl⟩ := same
  refine (parameterList_agrees proper joinsT _ _).bind fun params _ u u' _ joinsU same => ?_
  cases same
  refine (resultType_agrees joinsU kind _).bind fun returns _ v v' _ joinsV same => ?_
  obtain ⟨rfl, known⟩ := same
  exact agrees_pure joinsV ⟨rfl, known⟩

theorem routineDeclaration_agrees {statement : Nest → Parse (List Stmt)}
    [∀ nest, Forward (statement nest)] (proper : E.Proper) (inner : E.Statements statement)
    (joins : E.Joins s s') (nest : Nest) (kind : RoutineKind) {start start' : Token}
    (begun : E.SameToken start start') :
    E.Agrees s s' (routineDeclaration statement nest start kind)
      (routineDeclaration statement nest start' kind) E.SameBlock := by
  obtain ⟨_, rfl⟩ := begun
  unfold routineDeclaration
  refine (header_agrees joins (routineHeader_agrees proper joins kind)).andThen (fun _ => ?_)
    (fun _ => ?_) fun _ _ t t' _ joinsT same => ?_
  · dsimp only
    infer_instance
  · dsimp only
    infer_instance
  · obtain ⟨read, _, rfl, rfl, rfl, returns⟩ := same
    dsimp only [Option.map_some, Option.bind_some, Option.getD_some]
    refine (block_agrees inner joinsT nest _).closed joinsT
      (fun body => (expectTerminator_dead _ _ _).discard.bind) fun body _ u u' _ joinsU known => ?_
    refine (expectTerminator_agrees proper joinsU (by cases kind <;> rfl) _ _ _).discard.bind
      fun _ _ v v' _ joinsV _ => ?_
    split
    · refine agrees_pure joinsV (same_single ?_ ?_)
      · simp [Stmt.moved, known.same]
      · simp [Stmt.complete, known.complete, returns]
    · exact agrees_record _ _

end Routines

theorem target_shrinks (room : Nat) : Shrinks (target room) := by
  unfold target
  refine .second fun before => (expect_shrinks _ _ _).first fun name => ?_
  refine forward_bind fun left => forward_bind fun indices => ?_
  split <;> infer_instance

theorem assignmentOrCall_shrinks (room : Nat) : Shrinks (assignmentOrCall room) := by
  unfold assignmentOrCall
  refine .second fun start => .second fun calls => ?_
  split
  · exact advance_shrinks.discard.first
  · exact (target_shrinks room).first

theorem statement_shrinks (fuel : Nat) (nest : Nest) : Shrinks (statement fuel nest) := by
  cases fuel with
  | zero => exact fun s => trivial
  | succ fuel =>
    unfold statement
    refine .second fun start => ?_
    dsimp only
    split
    case h_1 => exact assignmentOrCall_shrinks _
    case h_16 | h_17 | h_18 | h_19 | h_20 => exact fun s => trivial
    all_goals exact advance_shrinks.discard.first

theorem statement_agrees (proper : E.Proper) (fuel : Nat) : E.Statements (statement fuel) := by
  refine ⟨?_, statement_shrinks fuel⟩
  induction fuel with
  | zero => exact fun nest s s' joins left => agrees_of_error rfl
  | succ fuel ih =>
    intro nest s s' joins left
    have inner : E.Statements (statement fuel) := ⟨ih, statement_shrinks fuel⟩
    unfold statement
    refine agrees_current joins (fun done => absurd done left) fun t r rest holds => ?_
    have begun : E.SameToken t (t.down E.above) := ⟨holds, rfl⟩
    -- Each form takes the word it starts with, but for an assignment or a call without a word.
    have word {m m' : Parse (List Stmt)} (agrees : ∀ {u u'}, E.Joins u u' →
        E.Agrees u u' m m' E.SameBlock) : E.Agrees s s' (discard advance >>= fun _ => m)
          (discard advance >>= fun _ => m') E.SameBlock :=
      agrees_skip joins rest fun u u' joinsU _ => agrees joinsU
    rw [Token.kind_down]
    dsimp only
    split
    · exact assignmentOrCall_agrees proper joins _ left
    · exact word fun joins => declaration_agrees proper joins begun
    · exact word fun joins => constantDeclaration_agrees proper joins _ begun
    · exact word fun joins => setStatement_agrees proper joins _ begun
    · exact word fun joins => (target_agrees proper joins _).bind fun target _ u u' _ joinsU same =>
        agrees_pure joinsU (same_single (by cases same; rfl) rfl)
    · exact word fun joins => outputStatement_agrees proper joins _ begun
    · exact word fun joins => ifStatement_agrees proper inner joins _ begun
    · exact word fun joins => caseStatement_agrees proper inner joins _ begun
    · exact word fun joins => whileStatement_agrees proper inner joins _ begun
    · exact word fun joins => repeatStatement_agrees proper inner joins _ begun
    · exact word fun joins => forStatement_agrees proper inner joins _ begun
    · exact word fun joins => routineDeclaration_agrees proper inner joins _ _ begun
    · exact word fun joins => routineDeclaration_agrees proper inner joins _ _ begun
    · exact word fun joins => callStatement_agrees proper joins _ begun
    · exact word fun joins => returnStatement_agrees proper joins _ begun
    all_goals exact agrees_of_error rfl

end Pseudocode.Embedding
