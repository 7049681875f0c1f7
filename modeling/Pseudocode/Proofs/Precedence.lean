import Pseudocode.Proofs.RoundTrip

/-! Precedence. An expression is printed with parentheses only where an operand binds less tightly than
its place requires, and is read back as it was. How far reading goes depends on what follows, so the
induction says of every expression how it is read where nothing goes on with it, and how it is read as
the first operand where more operators of the same rank are joined to it. -/
namespace Pseudocode

section Printing

/-- How tightly the operator binds. -/
def BinaryOp.precedence : BinaryOp → Nat
  | .or => 10
  | .and => 20
  | .equal | .notEqual | .less | .greater | .lessEqual | .greaterEqual => 30
  | .plus | .minus | .join => 40
  | .times | .divide | .div | .mod => 50
  | .unknown _ => 0

def UnaryOp.precedence : UnaryOp → Nat
  | .not => 25
  | .minus => 60
  | .unknown _ => 0

/-- What has no operator outside of its delimiters binds as tightly as a minus sign. -/
def Expr.precedence : Expr → Nat
  | .binary _ op .. => op.precedence
  | .unary _ op _ => op.precedence
  | _ => 60

/-- Words where some precedence is required, in parentheses if theirs is below it. -/
def placed (required precedence : Nat) (words : List Word) : List Word :=
  if precedence < required then parenthesised words else words

/-- The depth of words in their place. -/
def placedDepth (required precedence depth : Nat) : Nat :=
  if precedence < required then depth + 1 else depth

variable (style : Style)

mutual

/-- An expression with no more parentheses than it needs. The right operand of an operator has to bind
more tightly than the operator, which groups to the left. -/
def Expr.sparse : Expr → List Word
  | .literal _ value => value.words
  | .name _ name => [.name name]
  | .element _ array indices => elementWords style array (exprsSparse indices)
  | .binary _ op left right =>
    placed op.precedence left.precedence left.sparse ++
      op.word :: placed (op.precedence + 1) right.precedence right.sparse
  | .unary _ op operand => op.word :: placed op.precedence operand.precedence operand.sparse
  | .call _ callee arguments =>
    .name callee :: parenthesised (separated [.sign .comma] (exprsSparse arguments))
  | .range .. | .stray .. => []

def exprsSparse : List Expr → List (List Word)
  | [] => []
  | e :: rest => e.sparse :: exprsSparse rest

end

mutual

/-- How deep operands are nested in the expression as it is printed with few parentheses. -/
def Expr.nesting : Expr → Nat
  | .literal _ value => if value.isNegative then 2 else 1
  | .name .. => 1
  | .element _ _ operands | .call _ _ operands => exprsNesting operands + 1
  | .binary _ op left right =>
    max (placedDepth op.precedence left.precedence left.nesting)
      (placedDepth (op.precedence + 1) right.precedence right.nesting)
  | .unary _ op operand => placedDepth op.precedence operand.precedence operand.nesting + 1
  | .range .. | .stray .. => 0

def exprsNesting : List Expr → Nat
  | [] => 0
  | e :: rest => max e.nesting (exprsNesting rest)

end

theorem exprsSparse_eq (es : List Expr) : exprsSparse style es = es.map (Expr.sparse style) := by
  induction es with
  | nil => rfl
  | cons e rest ih => rw [exprsSparse, ih, List.map_cons]

theorem Expr.precedence_pos {e : Expr} (normal : e.normal = true) : 0 < e.precedence := by
  cases e with
  | binary p op left right =>
    cases op with
    | unknown => cases normal
    | _ => exact Nat.succ_pos _
  | unary p op operand =>
    cases op with
    | unknown => cases normal
    | _ => exact Nat.succ_pos _
  | _ => exact Nat.succ_pos _

end Printing

namespace Parse

variable {n rank cost : Nat} {words : List Word} {operand : Parse Expr} {good : Expr → Prop} {style : Style}

section Ranks

/-- Each rank of operators binds by ten less than the one below it. -/
theorem precedence_of_rank {op : BinaryOp} (found : operator? op.word.kind = some (op, rank)) :
    op.precedence + 10 * rank = 60 := by
  cases op with
  | unknown => cases found
  | _ => cases found; rfl

/-- Operators of the rank above are joined to what is read from the words: if joining them goes on well
from there, all of it is read as an expression of that rank. -/
def Leads (n : Nat) (operand : Parse Expr) (rank : Nat) (words : List Word) (cost : Nat)
    (good : Expr → Prop) : Prop :=
  ∀ (words' : List Word) (cost' : Nat) (follows : List Token → Prop) (good' : Expr → Prop),
    (∀ tokens, Ahead (onLine n words') follows tokens → Stops n rank tokens) →
    (∀ first, good first → ∀ fuel, words'.length ≤ fuel →
      Reads (some n) (chain n (rank + 1) (ranked n operand rank) fuel first) (onLine n words') cost'
        follows good') →
    Reads (some n) (ranked n operand (rank + 1)) (onLine n (words ++ words')) (cost + cost') follows good'

/-- How words of some precedence are read: as a whole where the operators joined bind at most as tightly
and none follows, and as a first operand of the operators that bind no more tightly. -/
structure ReadsRanked (n : Nat) (operand : Parse Expr) (words : List Word) (precedence cost : Nat)
    (good : Expr → Prop) : Prop where
  whole : ∀ rank, 50 < precedence + 10 * rank →
    Reads (some n) (ranked n operand rank) (onLine n words) cost (Stops n rank) good
  first : ∀ rank, 50 ≤ precedence + 10 * rank → Leads n operand rank words cost good

theorem leads_of_reads (reads : Reads (some n) (ranked n operand rank) (onLine n words) cost (Stops n rank) good) :
    Leads n operand rank words cost good := by
  intro words' cost' follows good' stops more
  unfold ranked
  refine reads.follow stops fun e known => reads_remaining fun fuel enough => ?_
  rw [onLine, List.length_map] at enough
  exact more e known fuel enough

/-- Behind the first operand the words may end. -/
theorem Leads.reads (leads : Leads n operand rank words cost good) :
    Reads (some n) (ranked n operand (rank + 1)) (onLine n words) cost (Stops n (rank + 1)) good := by
  have reads : Reads (some n) (ranked n operand (rank + 1)) (onLine n (words ++ [])) (cost + 0)
      (Stops n (rank + 1)) good := by
    refine leads _ _ _ _ (fun tokens ahead => (ahead_nil.mp ahead).less (Nat.le_succ rank)) fun e known fuel _ => ?_
    refine (reads_chain_stop fuel e).weaken ?_
    rintro _ rfl
    exact known
  rwa [List.append_nil] at reads

/-- A whole expression of some rank is one of every higher rank. -/
theorem reads_higher {higher : Nat}
    (reads : Reads (some n) (ranked n operand rank) (onLine n words) cost (Stops n rank) good)
    (above : rank ≤ higher) :
    Reads (some n) (ranked n operand higher) (onLine n words) cost (Stops n higher) good :=
  (reads.narrow fun _ stops => stops.less above).raised (fun _ stops => stops) above

theorem ReadsRanked.of_reads {precedence : Nat}
    (reads : Reads (some n) (ranked n operand rank) (onLine n words) cost (Stops n rank) good)
    (least : ∀ rank', 50 ≤ precedence + 10 * rank' → rank ≤ rank') :
    ReadsRanked n operand words precedence cost good :=
  ⟨fun rank' above => reads_higher reads (least rank' (Nat.le_of_lt above)),
    fun rank' above => leads_of_reads (reads_higher reads (least rank' above))⟩

theorem ReadsRanked.of_leads {precedence : Nat} (leads : Leads n operand rank words cost good)
    (own : precedence + 10 * (rank + 1) = 60) : ReadsRanked n operand words precedence cost good := by
  refine ⟨fun rank' above => reads_higher leads.reads (by omega), fun rank' above => ?_⟩
  by_cases same : rank' = rank
  · exact same ▸ leads
  · exact leads_of_reads (reads_higher leads.reads (by omega))

theorem ReadsRanked.less {precedence precedence' : Nat} (reads : ReadsRanked n operand words precedence cost good)
    (less : precedence' ≤ precedence) : ReadsRanked n operand words precedence' cost good :=
  ⟨fun rank above => reads.whole rank (by omega), fun rank above => reads.first rank (by omega)⟩

/-- One more operator of the rank above is joined to the first operand. -/
theorem Leads.join {op : BinaryOp} {words' : List Word} {cost' : Nat} {good' : Expr → Prop}
    (leads : Leads n operand rank words cost good) (known : op.isKnown = true)
    (found : operator? op.word.kind = some (op, rank + 1))
    (right : Reads (some n) (ranked n operand rank) (onLine n words') cost' (Stops n rank) good') :
    Leads n operand rank (words ++ op.word :: words') (cost + (cost' + 1))
      fun e => ∃ p a b, e = .binary p op a b ∧ good a ∧ good' b := by
  intro words'' cost'' follows good'' stops more
  rw [List.append_assoc, List.cons_append, Nat.add_assoc]
  obtain ⟨-, -, -, -, paren, bracket⟩ := operator_word known
  refine leads _ _ _ _ (fun tokens ahead => ?_) fun first goodFirst fuel enough => ?_
  · obtain ⟨t, rest, rfl, same, -⟩ := ahead_cons.mp ahead
    intro u head _
    cases head
    rw [show t.kind = op.word.kind from congrArg (·.word.kind) same]
    refine ⟨paren, bracket, fun op' rank' found' => ?_⟩
    rw [found] at found'
    cases found'
    exact Nat.lt_succ_self rank
  · obtain ⟨fuel, rfl⟩ : ∃ f, fuel = f + 1 := ⟨fuel - 1, by rw [List.length_cons] at enough; omega⟩
    have enough : words''.length ≤ fuel := by
      rw [List.length_cons, List.length_append] at enough
      omega
    unfold chain
    refine reads_current fun t facing => ?_
    have same := facing_cons facing
    rw [show t.kind = op.word.kind from congrArg (·.word.kind) same, found]
    dsimp only
    rw [if_pos ⟨rfl, congrArg Mark.line same⟩, Nat.add_right_comm]
    refine reads_countOperator t (reads_skip ?_)
    exact right.follow stops fun second goodSecond =>
      more _ ⟨_, first, second, rfl, goodFirst, goodSecond⟩ fuel enough

end Ranks

section Expressions

theorem Leads.weaken {good' : Expr → Prop} (leads : Leads n operand rank words cost good)
    (weaker : ∀ e, good e → good' e) : Leads n operand rank words cost good' :=
  fun _ _ _ _ stops more => leads _ _ _ _ stops fun first known => more first (weaker first known)

/-- What is read as an operand by itself is read wherever an operand may stand. -/
theorem ReadsRanked.of_operand {precedence : Nat}
    (reads : Reads (some n) operand (onLine n words) cost (Stops n 0) good) :
    ReadsRanked n operand words precedence cost good :=
  .of_reads (show Reads (some n) (ranked n operand 0) _ _ _ _ from reads) fun _ _ => Nat.zero_le _

theorem ReadsRanked.complete {precedence : Nat} (reads : ReadsRanked n operand words precedence cost good)
    (positive : 0 < precedence) :
    Reads (some n) (ranked n operand fullRank) (onLine n words) cost (Stops n fullRank) good :=
  reads.whole fullRank (by unfold fullRank; omega)

/-- An expression is read in its place, where it has parentheses if it binds less tightly than required. -/
theorem reads_placed {e : Expr} {required room : Nat} (normal : e.normal = true)
    (reads : ∀ {room : Nat}, e.nesting ≤ room → ∀ enclosed : Bool,
      ReadsRanked n (Parse.operand n room enclosed) (e.sparse style) e.precedence e.operators e.Same)
    (deep : placedDepth required e.precedence e.nesting ≤ room) (enclosed : Bool) :
    ReadsRanked n (Parse.operand n room enclosed) (placed required e.precedence (e.sparse style)) required
      e.operators e.Same := by
  unfold placedDepth at deep
  unfold placed
  split at deep
  next below =>
    obtain ⟨room, rfl⟩ : ∃ r, room = r + 1 := ⟨room - 1, by omega⟩
    have inside := (reads (Nat.le_of_succ_le_succ deep) true).complete (Expr.precedence_pos normal)
    rw [if_pos below]
    exact .of_operand (reads_operand_primary (reads_primary_paren inside) (by decide) (by decide))
  next enough =>
    rw [if_neg enough]
    exact (reads deep enclosed).less (Nat.not_lt.mp enough)

theorem placed_start (required precedence : Nat)
    (starts : ∃ word rest, words = word :: rest ∧ startsOperand word.kind = true) :
    ∃ word rest, placed required precedence words = word :: rest ∧ startsOperand word.kind = true := by
  unfold placed
  split
  · exact ⟨_, _, rfl, rfl⟩
  · exact starts

theorem sparse_start : ∀ e : Expr, e.normal = true →
    ∃ word rest, e.sparse style = word :: rest ∧ startsOperand word.kind = true
  | .literal p value, _ => (words_start (.literal p value) rfl :
    ∃ word rest, (Expr.literal p value).words style = word :: rest ∧ _)
  | .name .., _ => ⟨_, _, rfl, rfl⟩
  | .element .., _ => ⟨_, _, rfl, rfl⟩
  | .binary _ op left right, normal => by
    simp only [Expr.normal, Bool.and_eq_true] at normal
    obtain ⟨word, rest, printed, starts⟩ := placed_start op.precedence left.precedence
      (sparse_start left normal.1.2)
    exact ⟨word, _, by rw [Expr.sparse, printed]; rfl, starts⟩
  | .unary _ op _, normal => by
    cases op with
    | unknown => cases normal
    | _ => exact ⟨_, _, rfl, rfl⟩
  | .call .., _ => ⟨_, _, rfl, rfl⟩
  | .range .., normal => by cases normal
  | .stray .., normal => by cases normal

mutual

/-- Every expression is read back from its words, at every rank of operators that it may be read at. -/
theorem reads_sparse : ∀ (e : Expr) {room : Nat}, e.normal = true → e.nesting ≤ room → ∀ enclosed : Bool,
    ReadsRanked n (Parse.operand n room enclosed) (e.sparse style) e.precedence e.operators e.Same
  | .literal p value, room, _, deep, enclosed => by
    refine .of_operand ((reads_operand_literal value deep).weaken ?_)
    rintro _ ⟨q, rfl⟩
    rfl
  | .name p word, 0, _, deep, _ => by cases deep
  | .name p word, room + 1, _, _, enclosed => by
    refine .of_operand ((reads_operand_primary (reads_primary_name word) nofun nofun).weaken ?_)
    rintro _ ⟨q, rfl⟩
    rfl
  | .element p array indices, 0, _, deep, _ => by cases deep
  | .element p array indices, room + 1, normal, deep, enclosed => by
    simp only [Expr.normal, Bool.and_eq_true, Bool.not_eq_true', List.isEmpty_eq_false_iff] at normal
    have items := reads_sparseItems indices normal.2 (Nat.le_of_succ_le_succ deep)
    rw [Expr.sparse, exprsSparse_eq]
    refine .of_operand ((reads_operand_primary (reads_primary_element normal.1 items) nofun nofun).weaken ?_)
    rintro _ ⟨q, es, rfl, same⟩
    exact same_element same
  | .binary p op left right, room, normal, deep, enclosed => by
    simp only [Expr.normal, Bool.and_eq_true] at normal
    simp only [Expr.nesting, Nat.max_le] at deep
    obtain ⟨rank, positive, -, found, -⟩ := operator_word normal.1.1
    obtain ⟨rank, rfl⟩ : ∃ r, rank = r + 1 := ⟨rank - 1, by omega⟩
    have own := precedence_of_rank found
    have first := reads_placed normal.1.2 (reads_sparse left normal.1.2) deep.1 enclosed
    have second := reads_placed normal.2 (reads_sparse right normal.2) deep.2 enclosed
    have joined := (first.first rank (by omega)).join normal.1.1 found (second.whole rank (by omega))
    refine .of_leads (joined.weaken ?_) own
    rintro _ ⟨q, a, b, rfl, same, same'⟩
    exact same_binary same same'
  | .unary p op inner, 0, _, deep, _ => by simp [Expr.nesting] at deep
  | .unary p .not inner, room + 1, normal, deep, enclosed => by
    simp only [Expr.normal, Bool.and_eq_true] at normal
    have reads := reads_placed normal.1.2 (reads_sparse inner normal.1.2)
      (Nat.le_of_succ_le_succ deep) enclosed
    have unary : Reads (some n) _ _ _ _ _ := reads_operand_not (reads.whole notRank (by decide))
    refine .of_reads ((unary.chained fun _ stops => stops).weaken ?_) fun rank above => ?_
    · rintro _ ⟨q, a, rfl, same⟩
      exact same_unary same
    · simp only [Expr.precedence, UnaryOp.precedence] at above
      unfold notRank
      omega
  | .unary p .minus inner, room + 1, normal, deep, enclosed => by
    simp only [Expr.normal, Bool.and_eq_true, Bool.not_eq_true'] at normal
    have reads := reads_placed normal.1.2 (reads_sparse inner normal.1.2)
      (Nat.le_of_succ_le_succ deep) enclosed
    refine .of_operand (reads_operand_minus (reads.whole 0 (by decide)) fun q a same => ?_)
    have other : a.isNumber = false := (Expr.isNumber_same same).trans normal.2
    rw [negated_other q other]
    exact same_unary same
  | .unary p (.unknown _) inner, room + 1, normal, _, _ => by cases normal
  | .call p callee arguments, 0, _, deep, _ => by cases deep
  | .call p callee arguments, room + 1, normal, deep, enclosed => by
    have items := reads_sparseItems arguments normal (Nat.le_of_succ_le_succ deep)
    rw [Expr.sparse, exprsSparse_eq]
    refine .of_operand ((reads_operand_primary (reads_primary_call items fun e member => ?_) nofun nofun).weaken ?_)
    · exact sparse_start e (exprsNormal_iff.mp normal e member)
    · rintro _ ⟨q, es, rfl, same⟩
      exact same_call same
  | .range .., _, normal, _, _ => by cases normal
  | .stray .., _, normal, _, _ => by cases normal

theorem reads_sparseItems : ∀ (es : List Expr) {room : Nat}, exprsNormal es = true → exprsNesting es ≤ room →
    Items n (Expr.sparse style) (ranked n (Parse.operand n room true) fullRank) es
  | [], _, _, _ => fun _ member => nomatch member
  | e :: rest, room, normal, deep => by
    simp only [exprsNormal, Bool.and_eq_true] at normal
    simp only [exprsNesting, Nat.max_le] at deep
    have first := (reads_sparse e normal.1 deep.1 true).complete (Expr.precedence_pos normal.1)
    have others := reads_sparseItems rest normal.2 deep.2
    exact fun e' member => (List.mem_cons.mp member).elim (fun same => same ▸ first) (others e')

end

theorem reads_sparseExpression {e : Expr} {room : Nat} (normal : e.normal = true) (deep : e.nesting ≤ room) :
    Reads (some n) (expression room) (onLine n (e.sparse style)) e.operators (Stops n fullRank) e.Same :=
  reads_complete ((reads_sparse e normal deep false).complete (Expr.precedence_pos normal))

end Expressions

section Statements

variable {line : Option Nat} {one : Parse (List Stmt)} {s : Stmt}

/-- A statement that starts with a name is read up to the end of the text. -/
theorem reads_alone {x : String} {rest : List Word}
    (reads : Reads line one (onLine n (.name x :: rest)) cost (Below (n + 1)) (SameBlock [s])) (fuel : Nat) :
    Reads line (statements one [] (fuel + 1)) (onLine n (.name x :: rest)) cost (· = []) (SameBlock [s]) := by
  unfold statements
  refine reads_current fun t facing => reads_atEnd fun tokens ahead => ?_
  obtain ⟨u, others, rfl, -⟩ := ahead_cons.mp ahead
  have inside : closer? t = none := by
    rw [closer?, show t.kind = .identifier from congrArg (·.word.kind) (facing_cons facing)]
  rw [List.isEmpty_cons, if_neg Bool.false_ne_true, inside]
  refine (reads.orSkip []).finally (fun tokens none => ?_) fun first same => ?_
  · rw [none]
    intro u there
    cases there
  · have ends : Reads (lineAfter line (onLine n (.name x :: rest))) (statements one [] fuel) [] 0 (· = [])
        (· = []) := by
      refine reads_nothing (fun s none _ => ?_) rfl
      cases fuel with
      | zero => rfl
      | succ fuel =>
        unfold statements
        rw [current_bind, atEnd_bind, none]
        rfl
    rw [bind_pure_comp]
    refine ends.map _ ?_
    rintro _ rfl
    rwa [List.append_nil]

/-- The assignment of an expression to a variable, up to the end of the text. -/
theorem reads_sparseAssignment {e : Expr} {x : String} {sign : Word} {p q : Position} (assigns : Assigns sign)
    (normal : e.normal = true) (shallow : e.nesting < SyntaxError.maxNesting) :
    Reads line program (onLine n (.name x :: sign :: e.sparse style)) (0 + e.operators) (· = [])
      (SameBlock [.assign p (.variable q x) e]) := by
  unfold program
  refine reads_remaining fun fuel enough => ?_
  obtain ⟨fuel, rfl⟩ : ∃ f, fuel = f + 1 := ⟨fuel - 1, by simp [onLine] at enough; omega⟩
  have value : Reads (some n) (expression Nest.top.room) (onLine n (e.sparse style)) e.operators
      (Stops n fullRank) e.Same :=
    reads_sparseExpression normal (Nat.le_pred_of_lt shallow)
  have assigned : Reads line (assignmentOrCall Nest.top.room)
      (onLine n ((Target.variable q x).words style ++ sign :: e.sparse style))
      ((Target.variable q x).operators + e.operators) (Stops n fullRank)
      (SameBlock [.assign p (.variable q x) e]) :=
    reads_assigned assigns rfl (Nat.zero_le _) value
  exact reads_alone ((reads_named assigned).narrow fun _ below => below.stops (Nat.lt_succ_self n)) fuel

end Statements

end Parse

/-- Precedence and associativity are read as they are written. An expression in the normal form of the
reader, with no more operators than it allows, is printed on one line as the value of an assignment, with
parentheses only where an operand binds less tightly than its place requires. If the text nests no deeper
than the reader allows, it is read without an error, as the assignment of the same expression in the
places where the tokens stand. -/
theorem precedence_read {e : Expr} {x : String} {sign : Word} {style : Style} {p q : Position} {line : Nat}
    {tokens : List Token} {finish : Token} (normal : e.normal = true)
    (few : e.operators ≤ SyntaxError.maxOperators) (shallow : e.nesting < SyntaxError.maxNesting)
    (assigns : sign.kind = .sign .assign)
    (printed : tokens.map Token.mark = onLine line (.name x :: sign :: e.sparse style))
    (ends : finish.kind = .endOfInput) :
    (Reading.ofTokens tokens finish).errors = [] ∧
      (Reading.ofTokens tokens finish).program.moved nowhere =
        (Program.mk [.assign p (.variable q x) e]).moved nowhere := by
  obtain ⟨body, read, same⟩ := ofTokens_of_reads (Parse.reads_sparseAssignment (.inl assigns) normal shallow)
    (Nat.zero_add _ ▸ few) printed ends
  rw [read]
  exact ⟨rfl, congrArg Program.mk same⟩

section Sample

/-- NOT between AND and the comparisons, groups to the right and to the left, a minus sign in front of a
sum and of a negated element, and a negative number behind an operator. -/
def mixed : Expr :=
  .binary here .or
    (.binary here .and (.unary here .not (.binary here .less (.name here "a") (.literal here (.integer (-1)))))
      (.unary here .not (.unary here .not (.name here "b"))))
    (.binary here .equal
      (.binary here .minus (.binary here .minus (.name here "a") (.name here "b"))
        (.binary here .minus (.name here "c")
          (.unary here .minus (.binary here .plus (.name here "a") (.literal here (.integer 2))))))
      (.binary here .times
        (.call here "Max" [.element here "grid" [.name here "i", .binary here .mod (.name here "j") (.literal here (.integer 2))],
          .unary here .not (.name here "b")])
        (.binary here .divide (.unary here .minus (.unary here .minus (.name here "a")))
          (.binary here .join (.name here "b") (.literal here (.string "x"))))))

def mixedLine : List Mark := onLine 1 (.name "x" :: ⟨.sign .assign, "<-"⟩ :: mixed.sparse {})

theorem mixed_read : mixed.normal = true ∧ mixed.operators ≤ SyntaxError.maxOperators ∧
    mixed.nesting < SyntaxError.maxNesting ∧
    (Reading.ofTokens (mixedLine.map Mark.token) ⟨.endOfInput, "", ⟨2, 1⟩⟩).errors = [] ∧
    (Reading.ofTokens (mixedLine.map Mark.token) ⟨.endOfInput, "", ⟨2, 1⟩⟩).program.moved nowhere =
      (Program.mk [.assign here (.variable here "x") mixed]).moved nowhere :=
  ⟨by decide, by decide, by decide,
    precedence_read (by decide) (by decide) (by decide) rfl (marks_of_tokens _) rfl⟩

/-- The line is what the text of the assignment is scanned as. -/
example : (Scan.ofText ("x <- NOT a < -1 AND NOT NOT b OR a - b - (c - -(a + 2)) = " ++
    "Max(grid[i, j MOD 2], NOT b) * (--a / (b & \"x\"))")).tokens.map Token.mark = mixedLine := by
  simp only [Scan.ofText, String.toList_append, String.reduceToList]
  decide +kernel

end Sample

end Pseudocode
