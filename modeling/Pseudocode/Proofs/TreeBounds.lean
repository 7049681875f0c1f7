import Pseudocode.Proofs.Printing
import Pseudocode.Proofs.Walk

/-! Trees are bounded. Nesting and operators are limited while a text is read, whatever is wrong with
it: a production is given the room that is left for further operands, and counts the operators it
comes to. So an expression is no higher than its operators and its room together, and a statement is
no deeper than its place. -/
namespace Pseudocode

mutual

/-- The number of nodes on the longest path from the root of the expression to a leaf. -/
def Expr.height : Expr → Nat
  | .literal .. | .name .. | .stray .. => 1
  | .element _ _ operands | .call _ _ operands => exprsHeight operands + 1
  | .binary _ _ left right | .range _ left right => max left.height right.height + 1
  | .unary _ _ operand => operand.height + 1

def exprsHeight : List Expr → Nat
  | [] => 0
  | e :: rest => max e.height (exprsHeight rest)

end

theorem exprsOperators_append (first rest : List Expr) :
    exprsOperators (first ++ rest) = exprsOperators first + exprsOperators rest := by
  induction first with
  | nil => simp [exprsOperators]
  | cons e first ih => simp [exprsOperators, ih, Nat.add_assoc]

theorem exprsHeight_append (first rest : List Expr) :
    exprsHeight (first ++ rest) = max (exprsHeight first) (exprsHeight rest) := by
  induction first with
  | nil => simp [exprsHeight]
  | cons e first ih => simp [exprsHeight, ih, Nat.max_assoc]

/-- The target as an expression. -/
def Target.expression : Target → Expr
  | .variable p name => .name p name
  | .element p array indices => .element p array indices
  | .stray p node => .stray p node

/-- The expressions of a statement that are part of no other expression. -/
def Stmt.expressions : Stmt → List Expr
  | .constant _ _ value | .giveBack _ value => value.toList
  | .assign _ target value => [target.expression, value]
  | .ifThen _ condition _ _ | .whileDo _ condition _ | .repeatUntil _ _ condition => condition.toList
  | .forLoop _ _ start stop step _ => start.toList ++ stop.toList ++ step.toList
  | .caseOf _ selector branches _ => selector.toList ++ branches.flatMap Branch.labels
  | .call _ place callee arguments => [.call place callee arguments]
  | .output _ values => values
  | .input _ target => [target.expression]
  | _ => []

/-- The expression keeps the limit on operators, and has room for so many nested operands. -/
def Expr.Bounded (room : Nat) (e : Expr) : Prop :=
  e.operators ≤ SyntaxError.maxOperators ∧ e.height ≤ SyntaxError.maxOperators + room

namespace Reader

/-- Some operators have been counted from one state to another, and the limit is kept. -/
structure Counts (operators : Nat) (s t : Reader) : Prop where
  counted : t.operators = s.operators + operators
  kept : operators = 0 ∨ t.operators ≤ SyntaxError.maxOperators

variable {s t u : Reader}

theorem Counts.none (same : t.operators = s.operators) : Counts 0 s t := ⟨same, .inl rfl⟩

theorem Counts.trans (first : Counts m s t) (second : Counts n t u) : Counts (m + n) s u := by
  obtain ⟨counted, kept⟩ := first
  obtain ⟨counted', kept'⟩ := second
  constructor <;> omega

theorem Counts.le (counts : Counts n s t) : n ≤ SyntaxError.maxOperators := by
  obtain ⟨counted, kept⟩ := counts
  omega

end Reader

/-- Trees with operators and a height. -/
class HasSize (α : Type) where
  operators : α → Nat
  height : α → Nat

instance : HasSize Expr := ⟨Expr.operators, Expr.height⟩

instance : HasSize (List Expr) := ⟨exprsOperators, exprsHeight⟩

namespace Parse

open Reader (Counts)

section Counting

variable {α β : Type} {m : Parse α}

/-- The production counts no operators. -/
class Uncounted (m : Parse α) : Prop where
  ends : ∀ s, Ends m s (fun _ t => t.operators = s.operators) (fun _ _ => True)

instance : Uncounted (pure a : Parse α) := ⟨fun _ => rfl⟩

instance : Uncounted current := ⟨fun _ => rfl⟩

instance : Uncounted remaining := ⟨fun _ => rfl⟩

instance : Uncounted advance := ⟨fun _ => rfl⟩

instance : Uncounted startsCall := ⟨fun _ => rfl⟩

instance : Uncounted (nextIs kind) := ⟨fun _ => rfl⟩

instance : Uncounted (fail place error : Parse α) := ⟨fun _ => trivial⟩

instance [Uncounted m] : Uncounted (discard m) := ⟨fun s => ends_discard.mpr (Uncounted.ends s)⟩

instance {next : α → Parse β} [Uncounted m] [∀ a, Uncounted (next a)] : Uncounted (m >>= next) := by
  refine ⟨fun s => ?_⟩
  rw [ends_bind]
  refine (Uncounted.ends s).mono (fun a t same => ?_) fun _ _ _ => trivial
  exact (Uncounted.ends t).mono (fun _ _ same' => same'.trans same) fun _ _ _ => trivial

instance [Decidable c] {n : Parse α} [Uncounted m] [Uncounted n] : Uncounted (if c then m else n) := by
  split <;> infer_instance

instance : Uncounted (accept kind) := by unfold accept; infer_instance

instance : Uncounted (close closer opened) := by unfold close; infer_instance

variable [HasSize α] [HasSize β]

/-- What the production returns is no higher than its operators and the room. Of its operators,
`before` have been counted already. -/
def Sizes (room before : Nat) (m : Parse α) : Prop :=
  ∀ s, Ends m s
    (fun a t => HasSize.height a ≤ HasSize.operators a + room ∧
      ∃ more, HasSize.operators a = before + more ∧ Counts more s t)
    (fun _ _ => True)

variable {room before : Nat}

theorem sizes_pure {a : α} (counted : HasSize.operators a = before)
    (low : HasSize.height a ≤ HasSize.operators a + room) : Sizes room before (pure a) :=
  fun _ => ⟨low, 0, counted, .none rfl⟩

theorem sizes_throw (fault : SyntaxFault) : Sizes room before (throw fault : Parse α) :=
  fun _ => trivial

theorem Sizes.weaken {room' : Nat} (sizes : Sizes room before m) (more : room ≤ room') :
    Sizes room' before m := by
  intro s
  refine (sizes s).mono (fun a t known => ⟨?_, known.2⟩) fun _ _ _ => trivial
  exact Nat.le_trans known.1 (Nat.add_le_add_left more _)

theorem Sizes.bind {inner : Nat} {next : α → Parse β} (first : Sizes inner 0 m)
    (rest : ∀ a, HasSize.height a ≤ HasSize.operators a + inner →
      Sizes room (before + HasSize.operators a) (next a)) : Sizes room before (m >>= next) := by
  intro s
  rw [ends_bind]
  refine (first s).mono (fun a t known => ?_) fun _ _ _ => trivial
  obtain ⟨low, more, total, counts⟩ := known
  refine (rest a low t).mono (fun b u known => ?_) fun _ _ _ => trivial
  obtain ⟨low', more', total', counts'⟩ := known
  exact ⟨low', more + more', by omega, counts.trans counts'⟩

theorem Sizes.after {γ : Type} {m : Parse γ} [Uncounted m] {next : γ → Parse β}
    (rest : ∀ a, Sizes room before (next a)) : Sizes room before (m >>= next) := by
  intro s
  rw [ends_bind]
  refine (Uncounted.ends s).mono (fun a t same => ?_) fun _ _ _ => trivial
  refine (rest a t).mono (fun b u known => ?_) fun _ _ _ => trivial
  obtain ⟨low, more, total, counts⟩ := known
  exact ⟨low, more, total, (Nat.zero_add more) ▸ (Counts.none same).trans counts⟩

/-- One more operator has been counted for what is read next. -/
theorem Sizes.count {next : Unit → Parse β} {token : Token} (rest : Sizes room (before + 1) (next ())) :
    Sizes room before (countOperator token >>= next) := by
  intro s
  have counting := countOperator_apply token s
  by_cases past : s.operators + 1 > SyntaxError.maxOperators
  · rw [if_pos past] at counting
    unfold Ends
    rw [bind_of_error counting]
    trivial
  · rw [if_neg past] at counting
    rw [ends_congr (bind_of_ok counting)]
    have counted : Counts 1 s s.counted := ⟨rfl, .inr (Nat.not_lt.mp past)⟩
    refine (rest s.counted).mono (fun b u known => ?_) fun _ _ _ => trivial
    obtain ⟨low, more, total, counts⟩ := known
    exact ⟨low, 1 + more, by omega, counted.trans counts⟩

/-- The limit on operators holds for whatever the production returns. -/
theorem Sizes.yields (sizes : Sizes room 0 m) : Yields m (fun a =>
    HasSize.operators a ≤ SyntaxError.maxOperators ∧
      HasSize.height a ≤ SyntaxError.maxOperators + room) := by
  intro s
  refine (sizes s).mono (fun a t known => ?_) fun _ _ _ => trivial
  obtain ⟨low, more, total, counts⟩ := known
  have := counts.le
  constructor <;> omega

end Counting

section Expressions

variable {room : Nat}

theorem chain_sizes {operand : Parse Expr} (each : Sizes room 0 operand) (line rank fuel : Nat)
    {left : Expr} (low : left.height ≤ left.operators + room) :
    Sizes room left.operators (chain line rank operand fuel left) := by
  induction fuel generalizing left with
  | zero => exact sizes_pure rfl low
  | succ fuel ih =>
    unfold chain
    refine .after fun token => ?_
    split
    · exact sizes_pure rfl low
    next op opRank found =>
      split
      · refine .count (.after fun _ => each.bind fun right low' => ?_)
        have total : left.operators + 1 + right.operators =
            (Expr.binary token.position op left right).operators := by
          rw [Expr.operators]
          omega
        refine total ▸ ih ?_
        change right.height ≤ right.operators + room at low'
        rw [Expr.height, Expr.operators]
        omega
      · exact sizes_pure rfl low

theorem ranked_sizes {operand : Parse Expr} (each : Sizes room 0 operand) (line rank : Nat) :
    Sizes room 0 (ranked line operand rank) := by
  induction rank with
  | zero => exact each
  | succ rank ih =>
    unfold ranked
    refine ih.bind fun left low => .after fun fuel => ?_
    rw [Nat.zero_add]
    exact chain_sizes ih line _ fuel low

theorem exprsHeight_cons {e : Expr} {rest : List Expr} (low : e.height ≤ e.operators + room)
    (low' : exprsHeight rest ≤ exprsOperators rest + room) :
    exprsHeight (e :: rest) ≤ exprsOperators (e :: rest) + room := by
  rw [exprsHeight, exprsOperators]
  omega

theorem afterCommas_sizes {item : Parse Expr} (each : Sizes room 0 item) (fuel : Nat) :
    Sizes room 0 (afterCommas item fuel) := by
  induction fuel with
  | zero => exact sizes_pure rfl (Nat.zero_le _)
  | succ fuel ih =>
    unfold afterCommas acceptSign
    refine .after fun more => ?_
    split
    · refine each.bind fun e low => ih.bind fun rest low' => ?_
      exact sizes_pure (by simp [HasSize.operators, exprsOperators]) (exprsHeight_cons low low')
    · exact sizes_pure rfl (Nat.zero_le _)

theorem commaSeparated_sizes {item : Parse Expr} (each : Sizes room 0 item) :
    Sizes room 0 (commaSeparated item) := by
  unfold commaSeparated
  refine each.bind fun e low => .after fun fuel => (afterCommas_sizes each fuel).bind fun rest low' => ?_
  exact sizes_pure (by simp [HasSize.operators, exprsOperators]) (exprsHeight_cons low low')

theorem indexGroups_sizes {item : Parse Expr} (each : Sizes room 0 item) (line fuel : Nat) :
    Sizes room 0 (indexGroups line item fuel) := by
  induction fuel with
  | zero => exact sizes_pure rfl (Nat.zero_le _)
  | succ fuel ih =>
    unfold indexGroups
    refine .after fun token => ?_
    split
    · refine .after fun _ => (commaSeparated_sizes each).bind fun group low => .after fun _ => ?_
      refine ih.bind fun rest low' => sizes_pure ?_ ?_
      · change exprsOperators (group ++ rest) = 0 + exprsOperators group + exprsOperators rest
        rw [exprsOperators_append, Nat.zero_add]
      · change exprsHeight group ≤ exprsOperators group + room at low
        change exprsHeight rest ≤ exprsOperators rest + room at low'
        show exprsHeight (group ++ rest) ≤ exprsOperators (group ++ rest) + room
        rw [exprsHeight_append, exprsOperators_append]
        omega
    · exact sizes_pure rfl (Nat.zero_le _)

theorem argumentList_sizes {item : Parse Expr} (each : Sizes room 0 item) :
    Sizes room 0 (argumentList item) := by
  have closed (opened : Token) {arguments : List Expr}
      (low : exprsHeight arguments ≤ exprsOperators arguments + room) :
      Sizes room (exprsOperators arguments) (close .closeParen opened >>= fun _ => pure arguments) :=
    .after fun _ => sizes_pure rfl low
  unfold argumentList
  refine .after fun opened => .after fun empty => ?_
  dsimp only
  split
  · exact closed opened (Nat.zero_le _)
  · refine (commaSeparated_sizes each).bind fun arguments low => ?_
    rw [Nat.zero_add]
    exact closed opened low

theorem primary_sizes {inner : Parse Expr} (each : Sizes room 0 inner) (line : Nat)
    (enclosed : Bool) : Sizes (room + 1) 0 (primary line inner enclosed) := by
  have full : Sizes room 0 (ranked line inner fullRank) := ranked_sizes each line fullRank
  unfold primary
  refine .after fun token => ?_
  split
  · exact fun _ => trivial
  · split
    · exact sizes_throw _
    · refine .after fun _ => (full.weaken (Nat.le_succ room)).bind fun e low => .after fun _ => ?_
      exact sizes_pure (Nat.zero_add _).symm low
    · refine .after fun calls => ?_
      split
      · refine .after fun _ => (argumentList_sizes full).bind fun arguments low => ?_
        refine sizes_pure (Nat.zero_add _).symm ?_
        exact Nat.succ_le_succ low
      · refine .after fun _ => .after fun fuel => (indexGroups_sizes full line fuel).bind
          fun indices low => ?_
        split
        · exact sizes_pure rfl (Nat.succ_le_succ (Nat.zero_le _))
        · exact sizes_pure (Nat.zero_add _).symm (Nat.succ_le_succ low)
    · split
      · exact .after fun _ => sizes_pure rfl (Nat.succ_le_succ (Nat.zero_le _))
      · split <;> exact fun _ => trivial

theorem operators_negated (p : Position) (e : Expr) : (negated p e).operators = e.operators := by
  cases e with
  | literal place value => cases value <;> rfl
  | _ => rfl

theorem height_negated (p : Position) (e : Expr) : (negated p e).height ≤ e.height + 1 := by
  cases e with
  | literal place value => cases value <;> simp [negated, Expr.height]
  | _ => exact Nat.le_refl _

/-- An operand is no higher than its operators and the operands that may be nested in it, itself
included. -/
theorem operand_sizes (line room : Nat) (enclosed : Bool) :
    Sizes room 0 (operand line room enclosed) := by
  induction room generalizing enclosed with
  | zero => exact fun _ => trivial
  | succ room ih =>
    unfold operand
    refine .after fun token => ?_
    split
    · refine .after fun _ => (ranked_sizes (ih enclosed) line notRank).bind fun e low => ?_
      exact sizes_pure (Nat.zero_add _).symm (Nat.succ_le_succ low)
    · split
      · refine .after fun _ => (ih enclosed).bind fun e low => ?_
        refine sizes_pure ?_ ?_
        · exact (operators_negated _ e).trans (Nat.zero_add _).symm
        · show (negated token.position e).height ≤ (negated token.position e).operators + (room + 1)
          rw [operators_negated]
          exact Nat.le_trans (height_negated _ e) (Nat.succ_le_succ low)
      · exact primary_sizes (ih true) line enclosed

theorem expression_bounds (room : Nat) : Yields (expression room) (Expr.Bounded room) := by
  unfold expression
  refine .after fun token => .after fun before => .after fun _ => ?_
  exact (ranked_sizes (operand_sizes _ room false) _ fullRank).yields

theorem enclosedExpression_sizes (room line : Nat) : Sizes room 0 (enclosedExpression room line) :=
  ranked_sizes (operand_sizes line room true) line fullRank

theorem target_bounds (room : Nat) :
    Yields (target room) (fun t => t.expression.Bounded (room + 1)) := by
  unfold target
  refine .after fun before => .after fun name => .after fun fuel => ?_
  have groups := indexGroups_sizes (enclosedExpression_sizes room name.line) name.line fuel
  refine groups.yields.bind fun indices known => ?_
  split
  · exact yields_pure ⟨Nat.zero_le _, Nat.le_add_left 1 _⟩
  · exact yields_pure ⟨known.1, Nat.succ_le_succ known.2⟩

theorem callArguments_bounds (room line : Nat) (p : Position) (callee : String) :
    Yields (argumentList (enclosedExpression room line))
      (fun arguments => Expr.Bounded (room + 1) (.call p callee arguments)) := by
  intro s
  refine ((argumentList_sizes (enclosedExpression_sizes room line)).yields s).mono
    (fun arguments _ known => ?_) fun _ _ _ => trivial
  exact ⟨known.1, Nat.succ_le_succ known.2⟩

/-- A label is read only where there is room for an operand. -/
theorem caseLabel_bounds (room : Nat) :
    Yields (caseLabel room) (fun e => room ≠ 0 ∧ e.Bounded (room + 1)) := by
  cases room with
  | zero => exact fun s => trivial
  | succ room =>
    have low (line : Nat) : Sizes (room + 1) 0 (operand line (room + 1) false) :=
      operand_sizes line (room + 1) false
    have label (line : Nat) : Sizes (room + 2) 0 (do
        let low ← operand line (room + 1) false
        if ← acceptWord .TO then
          return .range low.position low (← operand line (room + 1) false)
        else return low) := by
      unfold acceptWord
      refine (low line).bind fun e known => .after fun found => ?_
      change e.height ≤ e.operators + (room + 1) at known
      split
      · refine (low line).bind fun f known' => ?_
        change f.height ≤ f.operators + (room + 1) at known'
        refine sizes_pure (congrArg (· + f.operators) (Nat.zero_add _).symm) ?_
        show max e.height f.height + 1 ≤ e.operators + f.operators + (room + 2)
        omega
      · exact sizes_pure (Nat.zero_add _).symm (Nat.le_succ_of_le known)
    unfold caseLabel
    refine .after fun token => .after fun _ => ?_
    intro s
    exact ((label token.line).yields s).mono (fun e _ known => ⟨Nat.succ_ne_zero _, known⟩)
      fun _ _ _ => trivial

theorem caseLabels_bounds (room : Nat) : Yields (commaSeparated (caseLabel room))
    (fun labels => room ≠ 0 ∧ ∀ e ∈ labels, e.Bounded (room + 1)) := by
  unfold commaSeparated
  refine (caseLabel_bounds room).bind fun first known => .after fun fuel => ?_
  refine (afterCommas_yields (caseLabel_bounds room) fuel).bind fun rest all => yields_pure ?_
  exact ⟨known.1, List.forall_mem_cons.mpr ⟨known.2, fun e member => (all e member).2⟩⟩

end Expressions

end Parse

/-- A part that a statement may lack. -/
inductive Slot where
  | value
  | condition
  | counter
  | start
  | stop
  | selector
  | routineName
  | resultType
  deriving DecidableEq, Repr

/-- Reading may leave the part out when it goes on after an error. -/
def Slot.recoverable : Slot → Bool
  | .value => false
  | _ => true

/-- The part, if it is left out. -/
def Slot.ofMissing (slot : Slot) (part : Option α) : List Slot := if part.isNone then [slot] else []

/-- The parts that are left out in the statement itself. -/
def Stmt.blanks : Stmt → List Slot
  | .constant _ _ value => Slot.value.ofMissing value
  | .ifThen _ condition _ _ | .whileDo _ condition _ | .repeatUntil _ _ condition =>
    Slot.condition.ofMissing condition
  | .forLoop _ counter start stop _ _ =>
    Slot.counter.ofMissing counter ++ Slot.start.ofMissing start ++ Slot.stop.ofMissing stop
  | .caseOf _ selector _ _ => Slot.selector.ofMissing selector
  | .routine ⟨_, .function, name, _, returns, _⟩ =>
    Slot.routineName.ofMissing name ++ Slot.resultType.ofMissing returns
  | .routine ⟨_, .procedure, name, _, _, _⟩ => Slot.routineName.ofMissing name
  | _ => []

/-- What is known of a statement that has been read inside of `depth` others. -/
structure Stmt.AsRead (depth : Nat) (s : Stmt) : Prop where
  shallow : depth < SyntaxError.maxNesting
  bounded : ∀ e ∈ s.expressions, e.Bounded SyntaxError.maxNesting
  blanks : ∀ slot ∈ s.blanks, slot.recoverable = true
  top : s.routine?.isSome → depth = 0

/-- The statements of the place are inside of `depth` others. That an OTHERWISE part takes the room of
two blocks is why this is no equation. -/
def Nest.At (depth : Nat) (nest : Nest) : Prop := depth + nest.room + 1 ≤ SyntaxError.maxNesting

theorem Nest.At.deeper {nest : Nest} (placed : nest.At depth) (more : nest.room ≠ 0)
    (closers : List Keyword) : (nest.deeper closers).At (depth + 1) := by
  unfold Nest.At Nest.deeper at *
  dsimp only
  omega

/-- The part of a CASE statement after OTHERWISE is opened inside of the block for the branches. -/
theorem Nest.At.inner {nest : Nest} (placed : nest.At depth) (closers : List Keyword) :
    (nest.deeper closers).At depth := by
  unfold Nest.At Nest.deeper at *
  dsimp only
  omega

theorem Nest.At.shallow {nest : Nest} (placed : nest.At depth) : depth < SyntaxError.maxNesting := by
  unfold Nest.At at placed
  omega

theorem Expr.Bounded.weaken {e : Expr} {more : Nat} (bounded : e.Bounded room)
    (le : room ≤ more) : e.Bounded more :=
  ⟨bounded.1, Nat.le_trans bounded.2 (Nat.add_le_add_left le _)⟩

section Statements

variable {nest : Nest} {depth : Nat} {s : Stmt}

/-- An expression that is read at a place, perhaps below a name, has room. -/
theorem Nest.At.bounded (placed : nest.At depth) {e : Expr} (bounded : e.Bounded (nest.room + 1)) :
    e.Bounded SyntaxError.maxNesting := by
  unfold Nest.At at placed
  exact bounded.weaken (by omega)

theorem Nest.At.bounded' (placed : nest.At depth) {e : Expr} (bounded : e.Bounded nest.room) :
    e.Bounded SyntaxError.maxNesting :=
  placed.bounded (bounded.weaken (Nat.le_succ _))

/-- A statement that is no routine and lacks no value. -/
theorem Nest.At.asRead (placed : nest.At depth)
    (bounded : ∀ e ∈ s.expressions, e.Bounded SyntaxError.maxNesting)
    (blanks : ∀ slot ∈ s.blanks, slot.recoverable = true) (other : s.routine? = none) :
    s.AsRead depth :=
  ⟨placed.shallow, bounded, blanks, by simp [other]⟩

end Statements

theorem Slot.of_mem {slot other : Slot} {part : Option α} (member : other ∈ slot.ofMissing part) :
    other = slot := by
  unfold Slot.ofMissing at member
  split at member
  · exact List.mem_singleton.mp member
  · cases member

/-- Whatever a statement lacks but the value of a constant may be left out. -/
theorem Stmt.blanks_recoverable {s : Stmt} (other : ∀ p name, s ≠ .constant p name none) :
    ∀ slot ∈ s.blanks, slot.recoverable = true := by
  intro slot member
  cases s with
  | constant p name value =>
    cases value with
    | none => exact absurd rfl (other p name)
    | some e => cases member
  | ifThen | whileDo | repeatUntil | caseOf => rw [Slot.of_mem member]; rfl
  | forLoop =>
    simp only [Stmt.blanks, List.mem_append] at member
    rcases member with (member | member) | member <;> (rw [Slot.of_mem member]; rfl)
  | routine r =>
    obtain ⟨p, kind, name, params, returns, body⟩ := r
    cases kind with
    | function =>
      simp only [Stmt.blanks, List.mem_append] at member
      rcases member with member | member <;> (rw [Slot.of_mem member]; rfl)
    | procedure => rw [Slot.of_mem member]; rfl
  | _ => cases member

namespace Parse

/-- Every statement that the production returns, and every statement inside, is as it has to be. -/
abbrev ReadsAt (depth : Nat) (m : Parse (List Stmt)) : Prop :=
  Yields m (Throughout Stmt.AsRead depth)

section Simple

variable {nest : Nest} {depth : Nat}

theorem declaration_reads (placed : nest.At depth) (start : Token) :
    ReadsAt depth (declaration start) := by
  unfold declaration
  refine .after fun first => .after fun fuel => .after fun others => .after fun _ =>
    .after fun array => ?_
  split
  · refine .after fun bounds => .after fun _ => .after fun elementType => yields_pure ?_
    exact throughout_map (fun name => placed.asRead nofun nofun rfl) fun name => rfl
  · refine .after fun type => yields_pure ?_
    exact throughout_map (fun name => placed.asRead nofun nofun rfl) fun name => rfl

theorem constantDeclaration_reads (placed : nest.At depth) (start : Token) :
    ReadsAt depth (constantDeclaration nest.room start) := by
  have value (name : String) : ReadsAt depth (expression nest.room >>= fun e =>
      pure [.constant start.position name (some e)]) := by
    refine (expression_bounds _).bind fun e bounded => yields_pure (throughout_plain ?_ rfl)
    refine placed.asRead ?_ nofun rfl
    simpa [Stmt.expressions] using placed.bounded' bounded
  unfold constantDeclaration
  refine .after fun token => .after fun assigned => ?_
  split
  · exact value _
  · exact .after fun _ => value _

theorem assign_reads (placed : nest.At depth) (p : Position) {target : Target} {value : Expr}
    (bounded : target.expression.Bounded (nest.room + 1)) (bounded' : value.Bounded nest.room) :
    Throughout Stmt.AsRead depth [.assign p target value] := by
  refine throughout_plain (placed.asRead ?_ nofun rfl) rfl
  simp [Stmt.expressions, placed.bounded bounded, placed.bounded' bounded']

theorem setStatement_reads (placed : nest.At depth) (start : Token) :
    ReadsAt depth (setStatement nest.room start) := by
  unfold setStatement
  refine (target_bounds _).bind fun destination bounded => .after fun _ => ?_
  exact (expression_bounds _).bind fun e bounded' => yields_pure (assign_reads placed _ bounded bounded')

theorem inputStatement_reads (placed : nest.At depth) (start : Token) :
    ReadsAt depth (target nest.room >>= fun t => pure [.input start.position t]) := by
  refine (target_bounds _).bind fun destination bounded => yields_pure (throughout_plain ?_ rfl)
  refine placed.asRead ?_ nofun rfl
  simpa [Stmt.expressions] using placed.bounded bounded

theorem moreValues_bounds (room line fuel : Nat) :
    Yields (moreValues room line fuel) (fun es => ∀ e ∈ es, e.Bounded room) := by
  induction fuel with
  | zero => exact yields_pure (List.forall_mem_nil _)
  | succ fuel ih =>
    unfold moreValues
    refine .after fun token => ?_
    split
    · exact .after fun _ => (expression_bounds room).bind fun e bounded => ih.bind fun rest all =>
        yields_pure (List.forall_mem_cons.mpr ⟨bounded, all⟩)
    · exact yields_pure (List.forall_mem_nil _)

theorem outputStatement_reads (placed : nest.At depth) (start : Token) :
    ReadsAt depth (outputStatement nest.room start) := by
  unfold outputStatement
  refine (expression_bounds _).bind fun e bounded => .after fun fuel => ?_
  refine (moreValues_bounds _ start.line fuel).bind fun rest all => yields_pure ?_
  refine throughout_plain (placed.asRead ?_ nofun rfl) rfl
  intro f member
  exact placed.bounded' (List.forall_mem_cons.mpr ⟨bounded, all⟩ f member)

theorem call_reads (placed : nest.At depth) (p place : Position) {callee : String}
    {arguments : List Expr} (bounded : Expr.Bounded (nest.room + 1) (.call place callee arguments)) :
    Throughout Stmt.AsRead depth [.call p place callee arguments] := by
  refine throughout_plain (placed.asRead ?_ nofun rfl) rfl
  simpa [Stmt.expressions] using placed.bounded bounded

theorem assignmentOrCall_reads (placed : nest.At depth) :
    ReadsAt depth (assignmentOrCall nest.room) := by
  have value (start : Token) {destination : Target}
      (bounded : destination.expression.Bounded (nest.room + 1)) :
      ReadsAt depth (expression nest.room >>= fun e => pure [.assign start.position destination e]) :=
    (expression_bounds _).bind fun e bounded' => yields_pure (assign_reads placed _ bounded bounded')
  unfold assignmentOrCall
  refine .after fun start => .after fun calls => ?_
  split
  · exact .after fun _ => (callArguments_bounds _ _ start.position start.lexeme).bind
      fun arguments bounded => yields_pure (call_reads placed _ _ bounded)
  · refine (target_bounds _).bind fun destination bounded => .after fun assigned => ?_
    split
    · exact value start bounded
    · exact .after fun _ => value start bounded

theorem callStatement_reads (placed : nest.At depth) (start : Token) :
    ReadsAt depth (callStatement nest.room start) := by
  unfold callStatement
  refine .after fun name => .after fun next => ?_
  split
  · exact (callArguments_bounds _ _ name.position name.lexeme).bind fun arguments bounded =>
      yields_pure (call_reads placed _ _ bounded)
  · exact yields_pure (call_reads placed _ _ ⟨Nat.zero_le _, Nat.le_add_left 1 _⟩)

theorem returnStatement_reads (placed : nest.At depth) (start : Token) :
    ReadsAt depth (returnStatement nest.room start) := by
  unfold returnStatement
  refine .after fun next => .after fun ended => ?_
  split
  · exact yields_pure (throughout_plain (placed.asRead nofun nofun rfl) rfl)
  · refine (expression_bounds _).bind fun e bounded => yields_pure (throughout_plain ?_ rfl)
    refine placed.asRead ?_ nofun rfl
    simpa [Stmt.expressions] using placed.bounded' bounded

end Simple

section Blocks

variable {statement : Nest → Parse (List Stmt)} {nest : Nest} {depth : Nat}

/-- What is known of the statements of the blocks inside. -/
abbrev ReadsAll (statement : Nest → Parse (List Stmt)) : Prop :=
  ∀ {depth nest}, nest.At depth → ReadsAt depth (statement nest)

theorem statements_reads {one : Parse (List Stmt)} (each : ReadsAt depth one)
    (closers : List Keyword) (fuel : Nat) : ReadsAt depth (statements one closers fuel) := by
  induction fuel with
  | zero => exact yields_pure throughout_nil
  | succ fuel ih =>
    unfold statements
    refine .after fun token => .after fun ended => ?_
    split
    · exact yields_pure throughout_nil
    · split
      · split
        · exact yields_pure throughout_nil
        · exact .after fun _ => .after fun _ => ih
      · exact (yields_orSkip each throughout_nil).bind fun first before => ih.bind fun rest after =>
          yields_pure (before.append after)

theorem block_reads (each : ReadsAll statement) (placed : nest.At depth) (closers : List Keyword) :
    ReadsAt (depth + 1) (block statement nest closers) := by
  unfold block
  split
  · exact .after fun _ => yields_throw _
  next more => exact .after fun _ => statements_reads (each (placed.deeper more closers)) _ _

/-- A statement with one block, which is no routine. -/
theorem compound_reads {s : Stmt} (placed : nest.At depth)
    (bounded : ∀ e ∈ s.expressions, e.Bounded nest.room)
    (recoverable : ∀ slot ∈ s.blanks, slot.recoverable = true) (other : s.routine? = none)
    (inside : ∀ part ∈ s.parts, Throughout Stmt.AsRead (depth + 1) part) :
    Throughout Stmt.AsRead depth [s] :=
  throughout_single (placed.asRead (fun e member => placed.bounded' (bounded e member)) recoverable
    other) inside

theorem ifStatement_reads (each : ReadsAll statement) (placed : nest.At depth) (start : Token) :
    ReadsAt depth (ifStatement statement nest start) := by
  have condition : Yields (do
      let condition ← expression nest.room
      discard <| expectWord .THEN "IF condition"
      return condition) (Expr.Bounded nest.room) :=
    (expression_bounds _).bind fun e bounded => .after fun _ => yields_pure bounded
  unfold ifStatement
  refine (yields_header condition).bind fun condition bounded => ?_
  refine (block_reads each placed _).bind fun thenBranch inside => .after fun found => ?_
  have finished (elseBranch : Option (List Stmt))
      (inside' : ∀ block ∈ elseBranch, Throughout Stmt.AsRead (depth + 1) block) :
      ReadsAt depth (do
        discard <| expectTerminator .ENDIF "IF block" start
        return [.ifThen start.position condition thenBranch elseBranch]) := by
    refine .after fun _ => yields_pure ?_
    refine compound_reads placed (by simpa [Stmt.expressions] using bounded)
      (Stmt.blanks_recoverable (by simp)) rfl ?_
    simp only [Stmt.parts, Stmt.blocks, List.mem_cons, Option.mem_toList]
    rintro part (rfl | given)
    · exact inside
    · exact inside' part given
  split
  · have elseBranch : Yields (some <$> block statement nest [.ENDIF])
        (fun otherwise => ∀ block ∈ otherwise, Throughout Stmt.AsRead (depth + 1) block) := by
      refine (block_reads each placed _).map fun block inside other same => ?_
      cases same
      exact inside
    exact elseBranch.bind finished
  · exact (yields_pure (by simp)).bind finished

theorem whileStatement_reads (each : ReadsAll statement) (placed : nest.At depth) (start : Token) :
    ReadsAt depth (whileStatement statement nest start) := by
  have condition : Yields (do
      let condition ← expression nest.room
      discard <| acceptWord .DO
      return condition) (Expr.Bounded nest.room) :=
    (expression_bounds _).bind fun e bounded => .after fun _ => yields_pure bounded
  unfold whileStatement
  refine (yields_header condition).bind fun condition bounded => ?_
  refine (block_reads each placed _).bind fun body inside => .after fun _ => yields_pure ?_
  refine compound_reads placed (by simpa [Stmt.expressions] using bounded)
    (Stmt.blanks_recoverable (by simp)) rfl ?_
  simpa [Stmt.parts, Stmt.blocks] using inside

theorem repeatStatement_reads (each : ReadsAll statement) (placed : nest.At depth) (start : Token) :
    ReadsAt depth (repeatStatement statement nest start) := by
  unfold repeatStatement
  refine (block_reads each placed _).bind fun body inside => .after fun ended => ?_
  have finished (condition : Option Expr) (bounded : ∀ e ∈ condition, e.Bounded nest.room) :
      ReadsAt depth (pure [.repeatUntil start.position body condition]) := by
    refine yields_pure (compound_reads placed (by simpa [Stmt.expressions] using bounded)
      (Stmt.blanks_recoverable (by simp)) rfl ?_)
    simpa [Stmt.parts, Stmt.blocks] using inside
  split
  · exact (yields_header (expression_bounds _)).bind finished
  · exact (yields_pure (by simp)).bind finished

theorem forStep_bounds (room : Nat) :
    Yields (forStep room) (fun step => ∀ e ∈ step, e.Bounded room) := by
  unfold forStep
  refine .after fun found => ?_
  split
  · refine (expression_bounds room).bind fun e bounded => yields_pure fun f same => ?_
    cases same
    exact bounded
  · exact yields_pure (by simp)

theorem forHeader_bounds (room : Nat) : Yields (forHeader room) (fun read =>
    read.2.1.Bounded room ∧ read.2.2.1.Bounded room ∧ ∀ e ∈ read.2.2.2, e.Bounded room) := by
  unfold forHeader
  refine .after fun name => ?_
  dsimp only
  have bounds : Yields (do
      let first ← expression room
      discard <| expectWord .TO "FOR start value"
      let last ← expression room
      return (name.lexeme, first, last, ← forStep room)) (fun read =>
        read.2.1.Bounded room ∧ read.2.2.1.Bounded room ∧ ∀ e ∈ read.2.2.2, e.Bounded room) :=
    (expression_bounds room).bind fun first bounded => .after fun _ => (expression_bounds room).bind
      fun last bounded' => (forStep_bounds room).bind fun step bounded'' =>
        yields_pure ⟨bounded, bounded', bounded''⟩
  refine .after fun assigned => ?_
  split
  · exact bounds
  · exact .after fun _ => bounds

theorem forStatement_reads (each : ReadsAll statement) (placed : nest.At depth) (start : Token) :
    ReadsAt depth (forStatement statement nest start) := by
  unfold forStatement
  refine (yields_header (forHeader_bounds nest.room)).bind fun read known => ?_
  refine (block_reads each placed _).bind fun body inside => .after fun found => ?_
  have finished : Throughout Stmt.AsRead depth [.forLoop start.position (read.map (·.1))
      (read.map (·.2.1)) (read.map (·.2.2.1)) (read.bind (·.2.2.2)) body] := by
    refine compound_reads placed ?_ (Stmt.blanks_recoverable (by simp)) rfl ?_
    · cases read with
      | none => simp [Stmt.expressions]
      | some read =>
        obtain ⟨bounded, bounded', bounded''⟩ := known read rfl
        simpa [Stmt.expressions, or_imp, forall_and] using ⟨bounded, bounded', bounded''⟩
    · simpa [Stmt.parts, Stmt.blocks] using inside
  split
  · exact .after fun _ => yields_pure finished
  · exact .after fun _ => yields_pure finished

theorem caseHeader_bounds (room : Nat) : Yields (caseHeader room) (Expr.Bounded room) := by
  unfold caseHeader
  refine .after fun found => ?_
  split
  · exact expression_bounds room
  · exact (expression_bounds room).bind fun e bounded => .after fun _ => yields_pure bounded

theorem branchBody_reads {one : Parse (List Stmt)} (each : ReadsAt depth one) (fuel : Nat) :
    ReadsAt depth (branchBody one fuel) := by
  induction fuel with
  | zero => exact yields_pure throughout_nil
  | succ fuel ih =>
    unfold branchBody
    refine .after fun ended => .after fun token => .after fun starts => ?_
    split
    · exact yields_pure throughout_nil
    · exact (yields_orSkip each throughout_nil).bind fun first before => ih.bind fun rest after =>
        yields_pure (before.append after)

/-- What is known of the branches of a statement that is inside of `depth` others. -/
def BranchesRead (depth : Nat) (branches : List (Branch Stmt)) : Prop :=
  ∀ b ∈ branches, (∀ e ∈ b.labels, e.Bounded SyntaxError.maxNesting) ∧
    Throughout Stmt.AsRead (depth + 1) b.body

theorem branchesRead_nil : BranchesRead depth [] := List.forall_mem_nil _

/-- Where no block fits any more, no label does, so there is no branch. -/
theorem caseBranch_reads (each : ReadsAll statement) (placed : nest.At depth) (closers : List Keyword) :
    Yields (caseBranch statement (nest.deeper closers)) (fun b => BranchesRead depth [b]) := by
  unfold caseBranch
  refine .after fun token => (caseLabels_bounds _).bind fun labels known => .after fun _ =>
    .after fun fuel => ?_
  obtain ⟨below, bounded⟩ := known
  have more : nest.room ≠ 0 := fun none => below (by rw [Nest.deeper, none])
  have inside := branchBody_reads (each (placed.deeper more closers)) fuel
  refine inside.bind fun body inside => yields_pure ?_
  intro b member
  cases List.mem_singleton.mp member
  exact ⟨fun e member => (placed.inner closers).bounded (bounded e member), inside⟩

theorem caseBranches_reads (each : ReadsAll statement) (placed : nest.At depth)
    (closers : List Keyword) (fuel : Nat) :
    Yields (caseBranches statement (nest.deeper closers) fuel) (fun read => BranchesRead depth read.1 ∧
      ∀ block ∈ read.2, Throughout Stmt.AsRead (depth + 1) block) := by
  induction fuel with
  | zero => exact yields_pure ⟨branchesRead_nil, by simp⟩
  | succ fuel ih =>
    unfold caseBranches
    refine .after fun token => .after fun ended => ?_
    split
    · exact yields_pure ⟨branchesRead_nil, by simp⟩
    · split
      · refine .after fun _ => .after fun _ => ?_
        refine (block_reads each (placed.inner closers) _).bind fun block inside => ?_
        refine yields_pure ⟨branchesRead_nil, fun other same => ?_⟩
        cases same
        exact inside
      · exact yields_pure ⟨branchesRead_nil, by simp⟩
      · have first : Yields (some <$> caseBranch statement (nest.deeper closers))
            (fun branch => BranchesRead depth branch.toList) :=
          (caseBranch_reads each placed closers).map fun b known => known
        have skipped : BranchesRead depth (none : Option (Branch Stmt)).toList := branchesRead_nil
        refine (yields_orSkip first skipped).bind fun branch known => ih.bind fun read both => ?_
        exact yields_pure ⟨List.forall_mem_append.mpr ⟨known, both.1⟩, both.2⟩

theorem caseStatement_reads (each : ReadsAll statement) (placed : nest.At depth) (start : Token) :
    ReadsAt depth (caseStatement statement nest start) := by
  unfold caseStatement
  refine (yields_header (caseHeader_bounds nest.room)).bind fun selector bounded => .after fun fuel => ?_
  refine (caseBranches_reads each placed _ fuel).bind fun read known => .after fun _ => yields_pure ?_
  obtain ⟨branches, otherwise⟩ := known
  refine throughout_single (placed.asRead ?_ (Stmt.blanks_recoverable (by simp)) rfl) ?_
  · simp only [Stmt.expressions, List.mem_append, Option.mem_toList, List.mem_flatMap]
    rintro e (given | ⟨b, member, given⟩)
    · exact placed.bounded' (bounded e given)
    · exact (branches b member).1 e given
  · simp only [Stmt.parts, Stmt.blocks, List.mem_append, List.mem_map, Option.mem_toList]
    rintro part (⟨b, member, rfl⟩ | given)
    · exact (branches b member).2
    · exact otherwise part given

/-- A routine is kept only at the top level. -/
theorem routineDeclaration_reads (each : ReadsAll statement) (placed : nest.At depth) (start : Token)
    (kind : RoutineKind) : ReadsAt depth (routineDeclaration statement nest start kind) := by
  unfold routineDeclaration
  refine .after fun read => (block_reads each placed _).bind fun body inside => .after fun _ => ?_
  split
  next top =>
    have outermost : depth = 0 := by
      rw [Nest.isTop, beq_iff_eq] at top
      unfold Nest.At at placed
      omega
    refine yields_pure (throughout_single ⟨placed.shallow, nofun, ?_, fun _ => outermost⟩ ?_)
    · exact Stmt.blanks_recoverable (by simp)
    · simpa [Stmt.parts] using inside
  · exact .after fun _ => yields_pure throughout_nil

theorem statement_reads (fuel : Nat) : ReadsAll (Parse.statement fuel) := by
  induction fuel with
  | zero => exact fun placed => .after fun _ => yields_throw _
  | succ fuel each =>
    intro depth nest placed
    unfold Parse.statement
    refine .after fun start => ?_
    dsimp only
    split
    · exact assignmentOrCall_reads placed
    · exact .after fun _ => declaration_reads placed start
    · exact .after fun _ => constantDeclaration_reads placed start
    · exact .after fun _ => setStatement_reads placed start
    · exact .after fun _ => inputStatement_reads placed start
    · exact .after fun _ => outputStatement_reads placed start
    · exact .after fun _ => ifStatement_reads each placed start
    · exact .after fun _ => caseStatement_reads each placed start
    · exact .after fun _ => whileStatement_reads each placed start
    · exact .after fun _ => repeatStatement_reads each placed start
    · exact .after fun _ => forStatement_reads each placed start
    · exact .after fun _ => routineDeclaration_reads each placed start _
    · exact .after fun _ => routineDeclaration_reads each placed start _
    · exact .after fun _ => callStatement_reads placed start
    · exact .after fun _ => returnStatement_reads placed start
    all_goals exact yields_throw _

end Blocks

end Parse

/-- Whatever the tokens, every statement that is read is as it has to be. -/
theorem Reading.asRead (tokens : List Token) (finish : Token) :
    ∀ v ∈ (Reading.ofTokens tokens finish).program.walk, v.stmt.AsRead v.depth := by
  have placed : Nest.top.At 0 := Nat.le_refl _
  have yields : Parse.ReadsAt 0 Parse.program :=
    .after fun fuel => Parse.statements_reads (Parse.statement_reads _ placed) _ _
  have ends := yields ⟨tokens, finish, none, 0, #[]⟩
  unfold Reading.ofTokens EStateM.run
  split
  next ran => exact ends.of_ok ran
  next => exact throughout_nil

/-- Whatever the text, no statement of the program is inside of more than 99 others, and no expression
has more than 200 operators or a path of more than 300 nodes. -/
theorem read_trees_bounded (source : String) :
    ∀ v ∈ (Reading.ofScan (.ofText source)).program.walk,
      v.depth ≤ 99 ∧ ∀ e ∈ v.stmt.expressions, e.operators ≤ 200 ∧ e.height ≤ 300 := by
  intro v member
  have read := Reading.asRead _ _ v member
  exact ⟨Nat.le_of_lt_succ read.shallow, read.bounded⟩

def loopedSum : String := "WHILE TRUE DO\nOUTPUT 1 + 2\nENDWHILE"

theorem loopedSum_bounded : ∃ v ∈ (Reading.ofScan (.ofText loopedSum)).program.walk,
    v.depth = 1 ∧ v.stmt.expressions.map Expr.operators = [1] ∧
      v.depth ≤ 99 ∧ ∀ e ∈ v.stmt.expressions, e.operators ≤ 200 ∧ e.height ≤ 300 := by
  have found : (Reading.ofScan (.ofText loopedSum)).program.walk.any (fun v =>
      v.depth == 1 && v.stmt.expressions.map Expr.operators == [1]) = true := by decide +kernel
  obtain ⟨v, member, known⟩ := List.any_eq_true.mp found
  rw [Bool.and_eq_true, beq_iff_eq, beq_iff_eq] at known
  exact ⟨v, member, known.1, known.2, read_trees_bounded loopedSum v member⟩

end Pseudocode
