import Pseudocode.Proofs.ReadBlocks

/-! Statements on one line are read back. Each production is followed along the words that it was printed
as; what stands further down neither goes on with an expression nor with a list of arguments. -/
namespace Pseudocode.Parse

variable {α : Type} {n room cost : Nat} {line : Option Nat} {marks : List Mark} {words : List Word}
  {follows : List Token → Prop} {good : α → Prop} {style : Style} {one : Parse (List Stmt)} {s : Stmt}
  {start : Token} {p : Position}

/-- A statement on a line of its own. -/
theorem readsBack_line (printed : s.lines style = [words]) (starts : Starts words)
    (reads : ∀ line n, Reads line one (onLine n words) s.operators (Below (n + 1)) (SameBlock [s])) :
    ReadsBack style one s := by
  refine ⟨⟨words, [], printed, starts⟩, fun line n => ?_⟩
  rw [printed, fromLine, fromLine, List.append_nil]
  exact reads line n

section Declarations

/-- The only name of a declaration. -/
theorem reads_declaredName {next : Token → List Token → Parse α} {name context context' : String}
    (rest : ∀ t, t.lexeme = name → Reads (some n) (next t []) (⟨.sign .colon, n⟩ :: marks) cost follows good) :
    Reads line (expectIdentifier context >>= fun first => remaining >>= fun fuel =>
      afterCommas (expectIdentifier context') fuel >>= next first)
      (⟨.name name, n⟩ :: ⟨.sign .colon, n⟩ :: marks) cost follows good := by
  refine reads_identifier rfl fun t same => reads_remaining fun fuel _ => ?_
  have none : Reads (some n) (afterCommas (expectIdentifier context') fuel) [] 0 (Closed n .colon) (· = []) := by
    cases fuel with
    | zero => exact reads_pure rfl
    | succ fuel =>
      unfold afterCommas
      refine reads_decline (fun u facing => ?_) (reads_pure rfl)
      rw [closed_kind facing]
      nofun
  refine none.before (fun _ => closed_of_ahead) ?_
  rintro _ rfl
  exact rest t (congrArg (·.word.lexeme) same)

theorem reads_declare {name type : String} (other : type ≠ TypeWord.ARRAY.text) :
    Reads line (declaration start) (onLine n [.name name, .sign .colon, .type type]) 0 follows
      (SameBlock [.declare p name type]) := by
  unfold declaration
  refine reads_declaredName fun t same => reads_discard (reads_sign rfl fun _ _ => ?_)
  refine reads_decline (fun u facing => ?_) ?_
  · rw [show u.kind = (Word.type type).kind from congrArg (·.word.kind) (facing_cons facing)]
    exact type_array other
  · refine reads_typeName.finally (fun _ known => known) ?_
    rintro _ rfl
    refine reads_pure ?_
    rw [List.map_cons, same]
    rfl

theorem reads_declareArray {name type : String} {bounds : List Bound} (present : bounds ≠ []) :
    Reads line (declaration start)
      (onLine n (.name name :: .sign .colon :: .type TypeWord.ARRAY.text ::
        (bracketed (separated [.sign .comma] (bounds.map (Bound.words style))) ++
          [Word.keyword .OF, .type type]))) 0 follows
      (SameBlock [.declareArray p name bounds type]) := by
  unfold declaration
  refine reads_declaredName fun t same => reads_discard (reads_sign rfl fun _ _ => ?_)
  refine reads_accept rfl ?_
  rw [if_pos rfl]
  refine (reads_arrayBounds present).followed (fun _ _ => trivial) ?_
  rintro _ rfl
  refine reads_discard (reads_word rfl fun _ _ => ?_)
  refine reads_typeName.finally (fun _ known => known) ?_
  rintro _ rfl
  refine reads_pure ?_
  rw [List.map_cons, same]
  rfl

theorem reads_constant {name : String} {e : Expr} (normal : e.normal = true) (deep : e.depth ≤ room) :
    Reads line (constantDeclaration room start) (onLine n (.name name :: style.assignment :: e.words style))
      e.operators (Stops n fullRank) (SameBlock [.constant p name (some e)]) := by
  unfold constantDeclaration
  refine reads_identifier rfl fun t same => reads_assign (assigns_assignment style) ?_
  rw [show t.lexeme = name from congrArg (·.word.lexeme) same]
  refine (reads_expression normal deep).last (fun _ known => known) fun other same => reads_pure ?_
  refine sameBlock_one ?_
  simp only [Stmt.moved, Option.map_some]
  rw [same]
  rfl

end Declarations

section Assignments

variable {target : Target} {value : Expr}

theorem sameBlock_assign {other : Target} {other' : Expr} (same : target.Same other) (same' : value.Same other') :
    SameBlock [.assign p target value] [.assign start.position other other'] := by
  refine sameBlock_one ?_
  simp only [Stmt.moved]
  rw [same, same']
  rfl

theorem reads_setStatement (normal : target.normal = true) (normal' : value.normal = true)
    (deep : target.depth ≤ room) (deep' : value.depth ≤ room) :
    Reads (some n) (setStatement room start)
      (onLine n (target.words style ++ .keyword .TO :: value.words style))
      (target.operators + value.operators) (Stops n fullRank) (SameBlock [.assign p target value]) := by
  unfold setStatement
  refine (reads_target normal deep).follow (fun _ => stops_cons rfl) fun other same => ?_
  refine reads_discard (reads_word rfl fun _ _ => ?_)
  exact (reads_expression normal' deep').last (fun _ known => known) fun other' same' =>
    reads_pure (sameBlock_assign same same')

theorem stops_assignment {word : Word} (assigns : Assigns word)
    (ahead : Ahead (onLine n (word :: words)) follows tokens) : Stops n 0 tokens := by
  obtain ⟨t, rest, rfl, same, -⟩ := ahead_cons.mp ahead
  intro u first _
  cases first
  rw [show t.kind = word.kind from congrArg (·.word.kind) same]
  obtain arrow | equal := assigns
  · rw [arrow]
    exact ⟨nofun, nofun, nofun⟩
  · rw [equal]
    exact ⟨nofun, nofun, fun op r found => by cases found; decide⟩

theorem target_start (style : Style) (normal : target.normal = true) (rest : List Word) :
    ∃ name sign more, target.words style ++ style.assignment :: rest = .name name :: .sign sign :: more ∧
      sign ∈ [.assign, .equal, .openBracket, .openParen] := by
  cases target with
  | «variable» p name =>
    unfold Target.words Style.assignment
    cases style.equals with
    | false => exact ⟨name, .assign, rest, rfl, by decide⟩
    | true => exact ⟨name, .equal, rest, rfl, by decide⟩
  | element p array indices =>
    simp only [Target.normal, Bool.and_eq_true, Bool.not_eq_true', List.isEmpty_eq_false_iff] at normal
    obtain ⟨words, printed⟩ := indices_start style (mt List.map_eq_nil_iff.mp normal.1)
    rw [Target.words, elementWords, exprsWords_eq, printed]
    exact ⟨array, .openBracket, _, rfl, by decide⟩
  | stray => cases normal

/-- Behind the first name of a target stands no parenthesis. -/
theorem target_second (style : Style) (normal : target.normal = true) {word : Word} (assigns : Assigns word)
    (rest : List Word) : ∃ first second more, target.words style ++ word :: rest = first :: second :: more ∧
      second.kind ≠ .sign .openParen := by
  cases target with
  | «variable» p name =>
    refine ⟨_, word, rest, rfl, ?_⟩
    obtain kind | kind := assigns <;> rw [kind] <;> decide
  | element p array indices =>
    simp only [Target.normal, Bool.and_eq_true, Bool.not_eq_true', List.isEmpty_eq_false_iff] at normal
    obtain ⟨words, printed⟩ := indices_start style (mt List.map_eq_nil_iff.mp normal.1)
    rw [Target.words, elementWords, exprsWords_eq, printed]
    exact ⟨_, _, _, rfl, by decide⟩
  | stray => cases normal

/-- An assignment is told from a call by the sign behind its first name, whatever its value is read from. -/
theorem reads_assigned {word : Word} {words : List Word} (assigns : Assigns word)
    (normal : target.normal = true) (deep : target.depth ≤ room)
    (reads : Reads (some n) (expression room) (onLine n words) cost (Stops n fullRank) value.Same) :
    Reads line (assignmentOrCall room) (onLine n (target.words style ++ word :: words))
      (target.operators + cost) (Stops n fullRank) (SameBlock [.assign p target value]) := by
  unfold assignmentOrCall
  obtain ⟨first, second, more, printed, unopened⟩ := target_second style normal assigns words
  refine reads_current fun t _ => ?_
  rw [printed]
  refine reads_startsCall fun u facing => ?_
  have other : (u.kind == .sign .openParen) = false := by
    rw [show u.kind = second.kind from congrArg (·.word.kind) (facing_cons facing)]
    exact beq_false_of_ne unopened
  rw [other, Bool.false_and, if_neg Bool.false_ne_true]
  show Reads line _ (onLine n (first :: second :: more)) _ _ _
  rw [← printed, onLine_append]
  refine (reads_target normal deep).bind (fun _ => stops_assignment assigns) fun other same =>
    reads_assign assigns ?_
  exact reads.last (fun _ known => known) fun other' same' => reads_pure (sameBlock_assign same same')

/-- A statement that starts with a name is an assignment or a call. -/
theorem reads_named {name : String} {fuel : Nat} {nest : Nest} {good : List Stmt → Prop}
    (reads : Reads line (assignmentOrCall nest.room) (onLine n (.name name :: words)) cost follows good) :
    Reads line (statement (fuel + 1) nest) (onLine n (.name name :: words)) cost follows good := by
  unfold statement
  refine reads_current fun start facing => ?_
  rw [show start.kind = .identifier from congrArg (·.word.kind) (facing_cons facing)]
  exact reads

theorem reads_assignment (normal : target.normal = true) (normal' : value.normal = true)
    (deep : target.depth ≤ room) (deep' : value.depth ≤ room) :
    Reads line (assignmentOrCall room)
      (onLine n (target.words style ++ style.assignment :: value.words style))
      (target.operators + value.operators) (Stops n fullRank) (SameBlock [.assign p target value]) :=
  reads_assigned (assigns_assignment style) normal deep (reads_expression normal' deep')

theorem reads_input (normal : target.normal = true) (deep : target.depth ≤ room) :
    Reads line (do return [.input start.position (← Parse.target room)]) (onLine n (target.words style))
      target.operators (Stops n 0) (SameBlock [.input p target]) := by
  refine (reads_target normal deep).finally (fun _ known => known) fun other same => reads_pure ?_
  refine sameBlock_one ?_
  simp only [Stmt.moved]
  rw [same]
  rfl

end Assignments

section Calls

variable {callee : String} {arguments : List Expr}

theorem sameBlock_call {p' : Position} {q : Position} {others : List Expr} (same : SameAll arguments others) :
    SameBlock [.call p p' callee arguments] [.call start.position q callee others] := by
  refine sameBlock_one ?_
  simp only [Stmt.moved]
  rw [same]
  rfl

theorem reads_arguments (normal : exprsNormal arguments = true) (deep : exprsDepth arguments ≤ room) :
    Reads (some n) (argumentList (enclosedExpression room n))
      (onLine n (parenthesised (separated [.sign .comma] (exprsWords style arguments))))
      (exprsOperators arguments) follows (SameAll arguments) := by
  rw [exprsWords_eq]
  exact reads_argumentList follows (reads_items arguments normal deep) fun e member =>
    words_start e (exprsNormal_iff.mp normal e member)

theorem reads_call {p' : Position} (normal : exprsNormal arguments = true)
    (deep : exprsDepth arguments ≤ room) :
    Reads line (callStatement room start)
      (onLine n (.name callee :: if style.bare ∧ arguments.isEmpty then []
        else parenthesised (separated [.sign .comma] (exprsWords style arguments))))
      (exprsOperators arguments) (Below (n + 1)) (SameBlock [.call p p' callee arguments]) := by
  unfold callStatement
  refine reads_identifier rfl fun t same => reads_current fun u facing => ?_
  rw [show t.lexeme = callee from congrArg (·.word.lexeme) same,
    show t.line = n from congrArg Mark.line same]
  by_cases bare : style.bare ∧ arguments.isEmpty
  · rw [if_pos bare] at facing ⊢
    have far : ¬(u.kind = .sign .openParen ∧ u.line = n) := by
      rintro ⟨paren, here⟩
      obtain ⟨more, below, first | ⟨-, ends⟩⟩ := facing_nil facing
      · have := below u first
        omega
      · cases paren.symm.trans ends
    rw [if_neg far, List.isEmpty_iff.mp bare.2]
    exact reads_pure (sameBlock_call rfl)
  · rw [if_neg bare] at facing ⊢
    have same' := facing_cons facing
    have paren : u.kind = .sign .openParen := congrArg (·.word.kind) same'
    have here : u.line = n := congrArg Mark.line same'
    rw [if_pos (And.intro paren here)]
    exact (reads_arguments normal deep).last (fun _ known => known) fun others same =>
      reads_pure (sameBlock_call same)

theorem reads_bareCall {p' : Position} (normal : exprsNormal arguments = true)
    (deep : exprsDepth arguments ≤ room) :
    Reads line (assignmentOrCall room)
      (onLine n (.name callee :: parenthesised (separated [.sign .comma] (exprsWords style arguments))))
      (exprsOperators arguments) follows (SameBlock [.call p p' callee arguments]) := by
  unfold assignmentOrCall
  refine reads_current fun t facing => reads_startsCall fun u facing' => ?_
  have same := facing_cons facing
  have same' := facing_cons facing'
  rw [show t.lexeme = callee from congrArg (·.word.lexeme) same,
    show t.line = n from congrArg Mark.line same,
    show u.kind = .sign .openParen from congrArg (·.word.kind) same',
    show u.line = n from congrArg Mark.line same', beq_self_eq_true, beq_self_eq_true, Bool.and_self, if_pos rfl]
  refine reads_skip ?_
  exact (reads_arguments normal deep).last (fun _ known => known) fun others same =>
    reads_pure (sameBlock_call same)

end Calls

section Values

variable {values : List Expr}

theorem commaOr_below (ends : CommaOr n (Below (n + 1)) tokens) : Stops n rank tokens := by
  obtain comma | below := ends
  · exact stops_cons (show ending (.sign .comma) = true by decide) comma
  · exact below.stops (Nat.lt_succ_self n)

theorem reads_moreValues (normal : exprsNormal values = true) (deep : exprsDepth values ≤ room)
    (enough : (onLine n (values.flatMap fun e => .sign .comma :: e.words style)).length ≤ fuel) :
    Reads (some n) (moreValues room n fuel) (onLine n (values.flatMap fun e => .sign .comma :: e.words style))
      (exprsOperators values) (Below (n + 1)) (SameAll values) := by
  induction values generalizing fuel with
  | nil =>
    cases fuel with
    | zero => exact reads_pure rfl
    | succ fuel =>
      unfold moreValues
      refine reads_current fun t facing => ?_
      have far : ¬(t.kind = .sign .comma ∧ t.line = n) := by
        rintro ⟨comma, here⟩
        obtain ⟨more, below, first | ⟨-, ends⟩⟩ := facing_nil facing
        · have := below t first
          omega
        · cases comma.symm.trans ends
      rw [if_neg far]
      exact reads_pure rfl
  | cons e rest ih =>
    simp only [exprsNormal, Bool.and_eq_true] at normal
    simp only [exprsDepth] at deep
    rw [List.flatMap_cons] at enough ⊢
    cases fuel with
    | zero => cases enough
    | succ fuel =>
      have shorter : (onLine n (rest.flatMap fun e => .sign .comma :: e.words style)).length ≤ fuel := by
        simp only [onLine, List.length_map, List.length_cons, List.length_append] at enough ⊢
        omega
      unfold moreValues
      refine reads_current fun t facing => ?_
      have same := facing_cons facing
      have comma : t.kind = .sign .comma := congrArg (·.word.kind) same
      have here : t.line = n := congrArg Mark.line same
      rw [if_pos (And.intro comma here)]
      refine reads_skip ?_
      refine (reads_expression normal.1 (by omega)).follow
        (fun _ ahead => commaOr_below (commaOr_of_ahead ahead)) fun other same => ?_
      rw [bind_pure_comp]
      refine (ih normal.2 (by omega) shorter).map _ fun others same' => ?_
      rw [SameAll, List.map_cons, List.map_cons, same, same']

theorem reads_output (here : start.line = n) (present : values ≠ []) (normal : exprsNormal values = true)
    (deep : exprsDepth values ≤ room) :
    Reads (some n) (outputStatement room start)
      (onLine n (separated [.sign .comma] (exprsWords style values))) (exprsOperators values)
      (Below (n + 1)) (SameBlock [.output p values]) := by
  obtain ⟨e, rest, rfl⟩ := List.exists_cons_of_ne_nil present
  simp only [exprsNormal, Bool.and_eq_true] at normal
  simp only [exprsDepth] at deep
  rw [exprsWords_eq, separated_map]
  unfold outputStatement
  refine (reads_expression normal.1 (by omega)).follow
    (fun _ ahead => commaOr_below (commaOr_of_ahead ahead)) fun other same => ?_
  refine reads_remaining fun fuel enough => ?_
  rw [here]
  refine (reads_moreValues normal.2 (by omega) enough).last (fun _ known => known) fun others same' =>
    reads_pure (sameBlock_one ?_)
  simp only [Stmt.moved, List.map_cons]
  rw [same, same']
  rfl

end Values

section Results

/-- RETURN alone gives back nothing if the line ends behind it. -/
theorem reads_giveNothing (here : start.line = n) :
    Reads line (returnStatement room start) [] 0 (Below (n + 1)) (SameBlock [.giveBack p none]) := by
  have known : SameBlock [.giveBack p none] [.giveBack start.position none] := sameBlock_one rfl
  refine reads_nothing (fun s below clear => ?_) known
  unfold returnStatement
  rw [current_bind, atEnd_bind]
  cases left : s.rest with
  | nil => rfl
  | cons t rest =>
    have far := below t (congrArg List.head? left)
    have elsewhere : (t.line != start.line) = true := bne_iff_ne.mpr (by omega)
    rw [show s.current = t by rw [Reader.current, left]; rfl, elsewhere, Bool.or_true, Bool.true_or, if_pos rfl]
    rfl

theorem reads_giveBack {e : Expr} (here : start.line = n) (normal : e.normal = true) (deep : e.depth ≤ room) :
    Reads (some n) (returnStatement room start) (onLine n (e.words style)) e.operators (Stops n fullRank)
      (SameBlock [.giveBack p (some e)]) := by
  unfold returnStatement
  refine reads_current fun t facing => reads_atEnd fun tokens ahead => ?_
  obtain ⟨word, rest, printed, operand⟩ := words_start e normal
  rw [printed] at facing ahead
  obtain ⟨u, others, rfl, -⟩ := ahead_cons.mp ahead
  obtain ⟨kind, line, -⟩ := operand_there operand facing
  have inside : isBoundary t = false := by
    rw [isBoundary, kind]
    cases same : word.kind with
    | keyword =>
      rw [same] at operand
      obtain rfl : _ = Keyword.NOT := by simpa [startsOperand, TokenKind.isLiteral] using operand
      rfl
    | _ => rfl
  rw [line, here, bne_self_eq_false, inside, List.isEmpty_cons, Bool.or_self, Bool.or_self, if_neg Bool.false_ne_true]
  refine (reads_expression normal deep).last (fun _ known => known) fun other same =>
    reads_pure (sameBlock_one ?_)
  simp only [Stmt.moved, Option.map_some]
  rw [same]
  rfl

end Results

end Pseudocode.Parse
