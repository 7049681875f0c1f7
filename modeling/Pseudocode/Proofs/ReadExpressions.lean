import Mathlib
import Pseudocode.Proofs.Moved
import Pseudocode.Proofs.Reads

/-! Expressions that were printed are read back. Whatever the ranks of the operators, an operand in
parentheses ends where its parentheses do, and a name where neither an index nor an argument follows;
so each operand is read as it stands, and what stands between two of them is the operator. -/
namespace Pseudocode

/-- Where trees are put whose places do not matter. -/
def nowhere : Position → Position := fun _ => ⟨0, 0⟩

/-- The other expression is the same in some place. -/
def Expr.Same (e other : Expr) : Prop := other.moved nowhere = e.moved nowhere

namespace Parse

/-- Nothing in front of the reader goes on with an operand of the line, nor with an expression of
operators up to the rank. -/
def Stops (n rank : Nat) (tokens : List Token) : Prop :=
  ∀ t ∈ tokens.head?, t.line = n → t.kind ≠ .sign .openParen ∧ t.kind ≠ .sign .openBracket ∧
    ∀ op r, operator? t.kind = some (op, r) → rank < r

variable {α : Type} {n rank cost : Nat} {line : Option Nat} {m : Parse α} {words words' : List Word} {marks : List Mark}
  {follows : List Token → Prop} {good : α → Prop} {tokens : List Token} {t : Token}

section Stops

theorem Stops.less {rank' : Nat} (stops : Stops n rank tokens) (less : rank' ≤ rank) :
    Stops n rank' tokens := by
  intro t first here
  obtain ⟨paren, bracket, operators⟩ := stops t first here
  exact ⟨paren, bracket, fun op r found => Nat.lt_of_le_of_lt less (operators op r found)⟩

theorem Stops.of_facing (facing : Facing [] (Stops n rank) t) (here : t.line = n) :
    t.kind ≠ .sign .openParen ∧ t.kind ≠ .sign .openBracket ∧
      ∀ op r, operator? t.kind = some (op, r) → rank < r := by
  obtain ⟨more, stops, first | ⟨-, ends⟩⟩ := facing_nil facing
  · exact stops t first here
  · rw [ends]
    exact ⟨nofun, nofun, nofun⟩

/-- Words that end every expression. -/
def ending (kind : TokenKind) : Bool :=
  (operator? kind).isNone && kind != .sign .openParen && kind != .sign .openBracket

theorem stops_cons {k : Mark} (ends : ending k.word.kind = true)
    (ahead : Ahead (k :: marks) follows tokens) : Stops n rank tokens := by
  obtain ⟨t, rest, rfl, rfl, -⟩ := ahead_cons.mp ahead
  intro u first _
  cases first
  simp only [ending, Token.mark, Bool.and_eq_true, Option.isNone_iff_eq_none, bne_iff_ne] at ends
  refine ⟨ends.1.2, ends.2, fun op r found => ?_⟩
  rw [ends.1.1] at found
  cases found

end Stops

section Lines

theorem onLine_append (words words' : List Word) :
    onLine n (words ++ words') = onLine n words ++ onLine n words' :=
  List.map_append

/-- One production after another on a line. -/
theorem Reads.follow {β : Type} {next : α → Parse β} {cost' : Nat} {follows' : List Token → Prop}
    {good' : β → Prop} (first : Reads (some n) m (onLine n words) cost follows good)
    (onward : ∀ tokens, Ahead (onLine n words') follows' tokens → follows tokens)
    (rest : ∀ a, good a → Reads (some n) (next a) (onLine n words') cost' follows' good') :
    Reads (some n) (m >>= next) (onLine n (words ++ words')) (cost + cost') follows' good' := by
  rw [onLine_append]
  refine first.bind onward fun a known => ?_
  rw [lineAfter_onLine]
  exact rest a known

/-- Behind the production no more operators are counted on the line. -/
theorem Reads.followed {β : Type} {next : α → Parse β} {follows' : List Token → Prop}
    {good' : β → Prop} (first : Reads (some n) m (onLine n words) cost follows good)
    (onward : ∀ tokens, Ahead (onLine n words') follows' tokens → follows tokens)
    (rest : ∀ a, good a → Reads (some n) (next a) (onLine n words') 0 follows' good') :
    Reads (some n) (m >>= next) (onLine n (words ++ words')) cost follows' good' :=
  first.follow onward rest

/-- The last production on a line. -/
theorem Reads.last {β : Type} {next : α → Parse β} {follows' : List Token → Prop}
    {good' : β → Prop} (first : Reads (some n) m (onLine n words) cost follows good)
    (onward : ∀ tokens, follows' tokens → follows tokens)
    (rest : ∀ a, good a → Reads (some n) (next a) [] 0 follows' good') :
    Reads (some n) (m >>= next) (onLine n words) cost follows' good' := by
  have reads : Reads (some n) (m >>= next) (onLine n (words ++ [])) (cost + 0) follows' good' :=
    first.follow (fun _ ahead => onward _ (ahead_nil.mp ahead)) rest
  rwa [List.append_nil] at reads

end Lines

section Operators

variable {operand : Parse Expr}

theorem reads_chain_stop (fuel : Nat) (left : Expr) :
    Reads (some n) (chain n (rank + 1) operand fuel left) [] 0 (Stops n (rank + 1)) (· = left) := by
  cases fuel with
  | zero => exact reads_pure rfl
  | succ fuel =>
    unfold chain
    refine reads_current fun t facing => ?_
    split
    · exact reads_pure rfl
    next op opRank found =>
      split
      next same =>
        have above := (Stops.of_facing facing same.2).2.2 op opRank found
        omega
      next => exact reads_pure rfl

/-- An expression of some rank is one of every higher rank if what follows does not go on with it. -/
theorem Reads.raised {least : Nat} {good : Expr → Prop}
    (reads : Reads (some n) (ranked n operand least) (onLine n words) cost follows good)
    (ends : ∀ tokens, follows tokens → Stops n rank tokens) (higher : least ≤ rank) :
    Reads (some n) (ranked n operand rank) (onLine n words) cost follows good := by
  induction rank, higher using Nat.le_induction with
  | base => exact reads
  | succ rank _ ih =>
    unfold Parse.ranked
    refine (ih fun tokens known => (ends tokens known).less (Nat.le_succ _)).last (fun _ known => known)
      fun left known => ?_
    refine reads_remaining fun fuel _ => ?_
    refine ((reads_chain_stop fuel left).narrow ends).weaken ?_
    rintro _ rfl
    exact known

/-- An operand is an expression of any rank if what follows does not go on with it. -/
theorem Reads.chained {good : Expr → Prop} (reads : Reads (some n) operand (onLine n words) cost follows good)
    (ends : ∀ tokens, follows tokens → Stops n rank tokens) :
    Reads (some n) (ranked n operand rank) (onLine n words) cost follows good :=
  Reads.raised (show Reads (some n) (Parse.ranked n operand 0) _ _ _ _ from reads) ends (Nat.zero_le rank)

/-- Operands that are read as they stand are read at every rank. -/
theorem Reads.ranked {good : Expr → Prop}
    (reads : Reads (some n) operand (onLine n words) cost (Stops n 0) good) (rank : Nat) :
    Reads (some n) (ranked n operand rank) (onLine n words) cost (Stops n rank) good :=
  (reads.narrow fun _ stops => stops.less (Nat.zero_le _)).chained fun _ stops => stops

theorem operator_word (known : op.isKnown = true) : ∃ r, 1 ≤ r ∧ r ≤ fullRank ∧
    operator? op.word.kind = some (op, r) ∧ op.word.kind ≠ .sign .openParen ∧
      op.word.kind ≠ .sign .openBracket := by
  cases op with
  | unknown => cases known
  | _ => exact ⟨_, by decide, by decide, rfl, nofun, nofun⟩

/-- Two operands with an operator between them. -/
theorem reads_pair {op : BinaryOp} {r cost' : Nat} {left right : Expr → Prop}
    (reads : Reads (some n) operand (onLine n words) cost (Stops n 0) left)
    (reads' : Reads (some n) operand (onLine n words') cost' (Stops n 0) right)
    (found : operator? op.word.kind = some (op, r)) (paren : op.word.kind ≠ .sign .openParen)
    (bracket : op.word.kind ≠ .sign .openBracket) (positive : 1 ≤ r) (above : r ≤ rank) :
    Reads (some n) (ranked n operand rank) (onLine n (words ++ op.word :: words')) (cost + (cost' + 1))
      (Stops n rank) fun e => ∃ p a b, e = .binary p op a b ∧ left a ∧ right b := by
  induction rank with
  | zero => omega
  | succ rank ih =>
    unfold Parse.ranked
    by_cases within : r ≤ rank
    · refine (ih within).last (fun _ stops => stops.less (Nat.le_succ _)) fun e known => ?_
      refine reads_remaining fun fuel _ => (reads_chain_stop fuel e).weaken ?_
      rintro _ rfl
      exact known
    · have here : r = rank + 1 := by omega
      refine (reads.ranked rank).follow (fun tokens ahead => ?_) fun a known => ?_
      · obtain ⟨t, rest, rfl, same, -⟩ := ahead_cons.mp ahead
        have kind : t.kind = op.word.kind := congrArg (·.word.kind) same
        intro u first _
        cases first
        rw [kind]
        refine ⟨paren, bracket, fun op' r' found' => ?_⟩
        rw [found] at found'
        cases found'
        omega
      · refine reads_remaining fun fuel enough => ?_
        obtain ⟨fuel, rfl⟩ : ∃ f, fuel = f + 1 := by
          cases fuel with
          | zero => cases enough
          | succ fuel => exact ⟨fuel, rfl⟩
        unfold chain
        refine reads_current fun t facing => ?_
        have same := facing_cons facing
        have kind : t.kind = op.word.kind := congrArg (·.word.kind) same
        have line : t.line = n := congrArg Mark.line same
        rw [kind, found]
        dsimp only
        rw [if_pos ⟨here, line⟩]
        refine reads_countOperator t (reads_skip ?_)
        refine (reads'.ranked rank).last (fun _ stops => stops.less (Nat.le_succ _)) fun b known' => ?_
        refine (reads_chain_stop fuel _).weaken ?_
        rintro _ rfl
        exact ⟨_, a, b, rfl, known, known'⟩

end Operators

section Lists

variable {X γ : Type} {item : Parse α} {price : X → Nat} {print : X → List Word} {erase : α → γ}
  {target : X → γ}

/-- Behind an item stands a comma or what follows all of them. -/
def CommaOr (n : Nat) (follows : List Token → Prop) (tokens : List Token) : Prop :=
  Ahead [⟨.sign .comma, n⟩] (fun _ => True) tokens ∨ follows tokens

theorem commaOr_of_ahead {xs : List X}
    (ahead : Ahead (onLine n (xs.flatMap fun x => .sign .comma :: print x)) follows tokens) :
    CommaOr n follows tokens := by
  cases xs with
  | nil => exact .inr (ahead_nil.mp ahead)
  | cons x rest =>
    obtain ⟨t, others, rfl, same, -⟩ := ahead_cons.mp ahead
    exact .inl (ahead_cons.mpr ⟨t, others, rfl, same, ahead_nil.mpr trivial⟩)

theorem separated_map (x : X) (rest : List X) :
    separated [.sign .comma] ((x :: rest).map print) =
      print x ++ rest.flatMap fun x => .sign .comma :: print x := by
  rw [List.map_cons, separated, List.flatMap_map]
  rfl

theorem reads_afterCommas {xs : List X}
    (each : ∀ x ∈ xs, Reads (some n) item (onLine n (print x)) (price x) (CommaOr n follows)
      (fun a => erase a = target x))
    (other : ∀ t, Facing [] follows t → t.kind ≠ .sign .comma) {fuel : Nat}
    (enough : (onLine n (xs.flatMap fun x => .sign .comma :: print x)).length ≤ fuel) :
    Reads (some n) (afterCommas item fuel) (onLine n (xs.flatMap fun x => .sign .comma :: print x))
      (xs.map price).sum follows (fun all => all.map erase = xs.map target) := by
  induction xs generalizing fuel with
  | nil =>
    cases fuel with
    | zero => exact reads_pure rfl
    | succ fuel =>
      unfold afterCommas
      exact reads_decline other (reads_pure rfl)
  | cons x rest ih =>
    cases fuel with
    | zero => cases enough
    | succ fuel =>
      unfold afterCommas
      rw [List.flatMap_cons] at enough ⊢
      refine reads_accept rfl ?_
      rw [if_pos rfl]
      refine (each x (.head _)).follow (fun _ => commaOr_of_ahead) fun a known => ?_
      have shorter : (onLine n (rest.flatMap fun x => .sign .comma :: print x)).length ≤ fuel := by
        simp only [onLine, List.length_map, List.length_cons, List.length_append] at enough ⊢
        omega
      have others := ih (fun y member => each y (.tail _ member)) shorter
      rw [bind_pure_comp]
      exact others.map _ fun all same => by rw [List.map_cons, List.map_cons, known, same]

/-- The first item may start the line. -/
theorem reads_commaSeparated {x : X} {rest : List X}
    (first : Reads line item (onLine n (print x)) (price x) (CommaOr n follows)
      (fun a => erase a = target x))
    (there : lineAfter line (onLine n (print x)) = some n)
    (each : ∀ y ∈ rest, Reads (some n) item (onLine n (print y)) (price y) (CommaOr n follows)
      (fun a => erase a = target y))
    (other : ∀ t, Facing [] follows t → t.kind ≠ .sign .comma) :
    Reads line (commaSeparated item) (onLine n (separated [.sign .comma] ((x :: rest).map print)))
      ((x :: rest).map price).sum follows (fun all => all.map erase = (x :: rest).map target) := by
  rw [separated_map, onLine_append]
  unfold commaSeparated
  refine first.bind (fun _ => commaOr_of_ahead) fun a known => ?_
  rw [there]
  refine reads_remaining fun fuel enough => ?_
  have others := reads_afterCommas each other enough
  rw [bind_pure_comp]
  exact others.map _ fun all same => by rw [List.map_cons, List.map_cons, known, same]

/-- Items that are read just as they were printed, without operators. -/
theorem reads_plain {xs : List α} {print : α → List Word} (present : xs ≠ [])
    (each : ∀ x ∈ xs, Reads (some n) item (onLine n (print x)) 0 (CommaOr n follows) (· = x))
    (other : ∀ t, Facing [] follows t → t.kind ≠ .sign .comma) :
    Reads (some n) (commaSeparated item) (onLine n (separated [.sign .comma] (xs.map print))) 0 follows
      (· = xs) := by
  obtain ⟨x, rest, rfl⟩ := List.exists_cons_of_ne_nil present
  have reads : Reads (some n) (commaSeparated item)
      (onLine n (separated [.sign .comma] ((x :: rest).map print))) ((x :: rest).map fun _ => 0).sum follows
      (fun all => all.map id = (x :: rest).map id) :=
    reads_commaSeparated (each x (.head _)) (lineAfter_onLine n _) (fun y member => each y (.tail _ member))
      other
  rw [List.map_const', List.sum_replicate_nat, Nat.mul_zero] at reads
  refine reads.weaken fun all same => ?_
  rwa [List.map_id, List.map_id] at same

end Lists

section Delimiters

variable {style : Style} {print : Expr → List Word} {item : Parse Expr} {es : List Expr}

theorem exprsWords_eq (style : Style) (es : List Expr) : exprsWords style es = es.map (Expr.words style) := by
  induction es with
  | nil => rfl
  | cons e rest ih => rw [exprsWords, ih, List.map_cons]

theorem exprsNormal_iff {es : List Expr} : exprsNormal es = true ↔ ∀ e ∈ es, e.normal = true := by
  induction es with
  | nil => simp [exprsNormal]
  | cons e rest ih => simp [exprsNormal, ih]

theorem exprsOperators_eq (es : List Expr) : exprsOperators es = (es.map Expr.operators).sum := by
  induction es with
  | nil => rfl
  | cons e rest ih => rw [exprsOperators, ih, List.map_cons, List.sum_cons]

/-- The sign is next that closes what was opened on the line. -/
def Closed (n : Nat) (closer : Sign) (tokens : List Token) : Prop :=
  ∃ t rest, tokens = t :: rest ∧ t.mark = ⟨.sign closer, n⟩

theorem closed_of_ahead {closer : Sign}
    (ahead : Ahead (⟨.sign closer, n⟩ :: marks) follows tokens) : Closed n closer tokens := by
  obtain ⟨t, rest, same, kind, -⟩ := ahead_cons.mp ahead
  exact ⟨t, rest, same, kind⟩

theorem reads_close {k : Mark} {next : PUnit → Parse α} {closer : Sign}
    {opened : Token} (found : k.word.kind = .sign closer) (here : k.line = opened.line)
    (rest : Reads (some k.line) (next ⟨⟩) marks cost follows good) :
    Reads line (close closer opened >>= next) (k :: marks) cost follows good := by
  refine reads_take (fun _ => PUnit.unit) (fun s _ same => ?_) fun _ _ => rest
  have kind : s.current.kind = .sign closer := by rw [← found, ← same]; rfl
  have line : s.current.line = opened.line := by rw [← here, ← same]; rfl
  unfold close
  rw [current_bind, if_pos ⟨kind, line⟩]
  rfl

/-- Each of the expressions is read as an item from the words it is printed as. -/
def Items (n : Nat) (print : Expr → List Word) (item : Parse Expr) (es : List Expr) : Prop :=
  ∀ e ∈ es, Reads (some n) item (onLine n (print e)) e.operators (Stops n fullRank) e.Same

/-- The other expressions are the same in some places. -/
def SameAll (es others : List Expr) : Prop :=
  others.map (Expr.moved nowhere) = es.map (Expr.moved nowhere)

theorem commaOr_stops {closer : Sign} (closes : ending (.sign closer) = true)
    (ends : CommaOr n (Closed n closer) tokens) : Stops n rank tokens := by
  obtain comma | ⟨t, rest, rfl, kind⟩ := ends
  · exact stops_cons (show ending (.sign .comma) = true by decide) comma
  · have ahead : Ahead [t.mark] (fun _ => True) (t :: rest) :=
      ahead_cons.mpr ⟨t, rest, rfl, rfl, ahead_nil.mpr trivial⟩
    exact stops_cons (by rw [kind]; exact closes) ahead

/-- Items in front of the sign that closes their list. -/
theorem reads_listed (closer : Sign) (present : es ≠ []) (items : Items n print item es)
    (closes : ending (.sign closer) = true) (other : closer ≠ .comma) :
    Reads (some n) (commaSeparated item) (onLine n (separated [.sign .comma] (es.map print)))
      (exprsOperators es) (Closed n closer) (SameAll es) := by
  obtain ⟨e, rest, rfl⟩ := List.exists_cons_of_ne_nil present
  rw [exprsOperators_eq]
  refine reads_commaSeparated ((items e (.head _)).narrow fun _ => commaOr_stops closes)
    (lineAfter_onLine n _) (fun f member => (items f (.tail _ member)).narrow fun _ => commaOr_stops closes) ?_
  · intro t facing
    obtain ⟨_, ⟨u, rest, rfl, same⟩, first⟩ := facing_nil facing
    obtain first | ⟨none, -⟩ := first
    · cases first
      rw [show t.kind = .sign closer from congrArg (·.word.kind) same]
      exact fun comma => other (TokenKind.sign.inj comma)
    · cases none

theorem reads_indexGroups_stop (fuel : Nat) :
    Reads (some n) (indexGroups n item fuel) [] 0 (Stops n 0) (· = []) := by
  cases fuel with
  | zero => exact reads_pure rfl
  | succ fuel =>
    unfold indexGroups
    refine reads_current fun t facing => ?_
    rw [if_neg fun ⟨bracket, here⟩ => (Stops.of_facing facing here).2.1 bracket]
    exact reads_pure rfl

/-- One group of indices and then the others. -/
theorem reads_group (present : es ≠ []) (items : Items n print item es) {fuel cost : Nat}
    {good : List Expr → Prop}
    (others : Reads (some n) (indexGroups n item fuel) (onLine n words) cost follows good) :
    Reads (some n) (indexGroups n item (fuel + 1))
      (onLine n (bracketed (separated [.sign .comma] (es.map print)) ++ words))
      (exprsOperators es + cost) follows
      (fun all => ∃ group rest, all = group ++ rest ∧ SameAll es group ∧ good rest) := by
  unfold indexGroups bracketed
  refine reads_current fun t facing => ?_
  have same := facing_cons facing
  have line : t.line = n := congrArg Mark.line same
  rw [if_pos ⟨congrArg (·.word.kind) same, line⟩, List.cons_append, List.append_assoc]
  refine reads_skip ?_
  refine (reads_listed .closeBracket present items (by decide) (by decide)).follow (fun _ => closed_of_ahead)
    fun group known => ?_
  refine reads_close rfl line.symm ?_
  rw [bind_pure_comp]
  exact others.map _ fun rest known' => ⟨group, rest, rfl, known, known'⟩

/-- Indices in whichever way they are grouped. -/
theorem reads_indices (present : es ≠ []) (items : Items n print item es) {fuel : Nat}
    (enough : es.length ≤ fuel) :
    Reads (some n) (indexGroups n item fuel)
      (onLine n (if style.groups then (es.map print).flatMap bracketed
        else bracketed (separated [.sign .comma] (es.map print))))
      (exprsOperators es) (Stops n 0) (SameAll es) := by
  have long := List.length_pos_iff.mpr present
  obtain ⟨fuel, rfl⟩ : ∃ f, fuel = f + 1 := ⟨fuel - 1, by omega⟩
  split
  · induction es generalizing fuel with
    | nil => exact absurd rfl present
    | cons e rest ih =>
      have others : Reads (some n) (indexGroups n item fuel)
          (onLine n ((rest.map print).flatMap bracketed)) (exprsOperators rest) (Stops n 0)
          (SameAll rest) := by
        by_cases more : rest = []
        · subst more
          refine (reads_indexGroups_stop fuel).weaken ?_
          rintro _ rfl
          rfl
        · have long := List.length_pos_iff.mpr more
          have enough := Nat.le_of_succ_le_succ enough
          obtain ⟨fuel, rfl⟩ : ∃ f, fuel = f + 1 := ⟨fuel - 1, by omega⟩
          exact ih more (fun y member => items y (.tail _ member)) long fuel enough
      have one : Items n print item [e] := fun y member =>
        items y (List.mem_singleton.mp member ▸ .head _)
      have reads := reads_group (List.cons_ne_nil e []) one others
      simp only [List.map_cons, List.map_nil, separated, exprsOperators, List.flatMap_nil, List.append_nil,
        Nat.add_zero] at reads
      refine Reads.weaken reads ?_
      rintro _ ⟨group, tail, rfl, same, same'⟩
      unfold SameAll at same same' ⊢
      rw [List.map_append, same, same']
      rfl
  · have none : Reads (some n) (indexGroups n item fuel) (onLine n []) 0 (Stops n 0) (· = []) :=
      reads_indexGroups_stop fuel
    have reads := reads_group present items none
    rw [List.append_nil] at reads
    refine Reads.weaken reads ?_
    rintro _ ⟨group, _, rfl, same, rfl⟩
    rwa [List.append_nil]

/-- Words that an operand starts with. -/
def startsOperand (kind : TokenKind) : Bool :=
  kind == .identifier || kind == .sign .minus || kind == .keyword .NOT || kind == .sign .openParen ||
    kind.isLiteral

/-- The arguments of a call in their parentheses. -/
theorem reads_argumentList (follows : List Token → Prop) (items : Items n print item es)
    (starts : ∀ e ∈ es, ∃ word rest, print e = word :: rest ∧ startsOperand word.kind = true) :
    Reads (some n) (argumentList item)
      (onLine n (parenthesised (separated [.sign .comma] (es.map print))))
      (exprsOperators es) follows (SameAll es) := by
  unfold argumentList parenthesised
  refine reads_advance fun opened same => ?_
  have here : n = opened.line := (congrArg Mark.line same).symm
  refine reads_nextIs fun t facing => ?_
  cases es with
  | nil =>
    rw [show t.kind = .sign .closeParen from congrArg (·.word.kind) (facing_cons facing)]
    exact reads_close rfl here (reads_pure rfl)
  | cons e rest =>
    obtain ⟨word, others, printed, operand⟩ := starts e (.head _)
    have kind : t.kind = word.kind := by
      rw [List.map_cons, printed] at facing
      exact congrArg (·.word.kind) (facing_cons facing)
    have other : t.kind ≠ .sign .closeParen := by
      rw [kind]
      rintro same
      rw [same] at operand
      cases operand
    rw [beq_false_of_ne other, if_neg Bool.false_ne_true]
    refine (reads_listed .closeParen (List.cons_ne_nil e rest) items (by decide) (by decide)).followed
      (fun _ => closed_of_ahead) fun all known => ?_
    exact reads_close rfl here (reads_pure known)

end Delimiters

section Operands

variable {style : Style} {print : Expr → List Word}

theorem literal_words (value : Literal) (plain : value.isNegative = false) :
    ∃ word, value.words = [word] ∧ literal? word.kind = some value ∧ word.kind.isLiteral = true := by
  cases value with
  | integer k =>
    have positive : ¬k < 0 := by simpa [Literal.isNegative] using plain
    exact ⟨.integer k, by rw [Literal.words, integerWords, if_neg positive], rfl, rfl⟩
  | real x =>
    have positive : ¬x.isNegative = true := by simpa [Literal.isNegative] using plain
    exact ⟨.real x, by rw [Literal.words, if_neg positive], rfl, rfl⟩
  | _ => exact ⟨_, rfl, rfl, rfl⟩

/-- A negative number is printed as a minus sign and the number without it. -/
theorem negative_words (value : Literal) (negative : value.isNegative = true) :
    ∃ positive, value.words = .sign .minus :: positive.words ∧ positive.isNegative = false ∧
      ∀ p q, negated p (.literal q positive) = .literal p value := by
  cases value with
  | integer k =>
    have below : k < 0 := by simpa [Literal.isNegative] using negative
    refine ⟨.integer (-k), ?_, ?_, fun p q => ?_⟩
    · simp only [Literal.words, integerWords, if_pos below]
      rw [if_neg (by omega)]
    · simp only [Literal.isNegative, decide_eq_false_iff_not]
      omega
    · rw [negated, Int.neg_neg]
  | real x =>
    refine ⟨.real x.neg, ?_, ?_, fun p q => ?_⟩
    · have plain : x.neg.isNegative = false := by
        cases x <;> simp_all [Literal.isNegative, Binary64.isNegative, Binary64.neg]
      simp only [Literal.isNegative] at negative
      simp [Literal.words, negative, plain]
    · cases x <;> simp_all [Literal.isNegative, Binary64.isNegative, Binary64.neg]
    · rw [negated]
      cases x <;> simp [Binary64.neg]
  | _ => cases negative

theorem words_start : ∀ e : Expr, e.normal = true →
    ∃ word rest, e.words style = word :: rest ∧ startsOperand word.kind = true
  | .literal _ value, _ => by
    cases negative : value.isNegative with
    | false =>
      obtain ⟨word, printed, -, literal⟩ := literal_words value negative
      exact ⟨word, [], by rw [Expr.words, printed], by simp [startsOperand, literal]⟩
    | true =>
      obtain ⟨positive, printed, -⟩ := negative_words value negative
      exact ⟨.sign .minus, positive.words, by rw [Expr.words, printed], rfl⟩
  | .name .., _ => ⟨_, _, rfl, rfl⟩
  | .element .., _ => ⟨_, _, rfl, rfl⟩
  | .binary .., _ => ⟨_, _, rfl, rfl⟩
  | .unary .., _ => ⟨_, _, rfl, rfl⟩
  | .call .., _ => ⟨_, _, rfl, rfl⟩
  | .range .., normal => by cases normal
  | .stray .., normal => by cases normal

variable {inner : Parse Expr} {enclosed : Bool}

theorem reads_primary_literal {value : Literal} {word : Word} (found : literal? word.kind = some value) :
    Reads line (primary n inner enclosed) (onLine n [word]) 0 follows
      (fun e => ∃ p, e = .literal p value) := by
  unfold primary
  refine reads_current fun t facing => ?_
  have same := facing_cons facing
  have kind : t.kind = word.kind := congrArg (·.word.kind) same
  have here : t.line = n := congrArg Mark.line same
  rw [← kind] at found
  have inside : ¬(t.line ≠ n ∨ t.kind = .endOfInput) := by
    rintro (elsewhere | ends)
    · exact elsewhere here
    · rw [ends] at found
      cases found
  rw [if_neg inside]
  split
  next invalid => rw [invalid] at found; cases found
  next paren => rw [paren] at found; cases found
  next name => rw [name] at found; cases found
  next =>
    rw [found]
    exact reads_skip (reads_pure ⟨_, rfl⟩)

/-- The token that an operand starts with is on its line, and so is there. -/
theorem operand_there {word : Word} {rest : List Mark} (operand : startsOperand word.kind = true)
    (facing : Facing (⟨word, n⟩ :: rest) follows t) :
    t.kind = word.kind ∧ t.line = n ∧ ¬(t.line ≠ n ∨ t.kind = .endOfInput) := by
  have same := facing_cons facing
  have kind : t.kind = word.kind := congrArg (·.word.kind) same
  have here : t.line = n := congrArg Mark.line same
  refine ⟨kind, here, ?_⟩
  rintro (elsewhere | ends)
  · exact elsewhere here
  · rw [← kind, ends] at operand
    cases operand

theorem reads_primary_name (name : String) :
    Reads line (primary n inner enclosed) (onLine n [.name name]) 0 (Stops n 0)
      (fun e => ∃ p, e = .name p name) := by
  unfold primary
  refine reads_current fun t facing => ?_
  obtain ⟨kind, here, inside⟩ := operand_there rfl facing
  have text : t.lexeme = name := congrArg (·.word.lexeme) (facing_cons facing)
  rw [if_neg inside, kind]
  dsimp only [Word.name]
  refine reads_startsCall fun u facing => ?_
  have none : (u.kind == .sign .openParen && u.line == n) = false := by
    by_cases same : u.line = n
    · simp [(Stops.of_facing facing same).1]
    · simp [same]
  rw [none, if_neg Bool.false_ne_true]
  refine reads_skip (reads_remaining fun fuel _ => ?_)
  refine (reads_indexGroups_stop fuel).before (fun _ ahead => ahead_nil.mp ahead) ?_
  rintro _ rfl
  exact reads_pure ⟨_, by rw [text]⟩

/-- The word of an index list is an opening bracket. -/
theorem indices_start (style : Style) {items : List (List Word)} (present : items ≠ []) :
    ∃ rest, (if style.groups then items.flatMap bracketed
      else bracketed (separated [.sign .comma] items)) = .sign .openBracket :: rest := by
  obtain ⟨words, rest, rfl⟩ := List.exists_cons_of_ne_nil present
  split
  · exact ⟨_, rfl⟩
  · exact ⟨_, rfl⟩

theorem length_separated (comma : Word) (items : List (List Word)) :
    items.length ≤ (separated [comma] items).length + 1 := by
  cases items with
  | nil => exact Nat.zero_le _
  | cons first rest =>
    have commas : rest.length ≤ (rest.flatMap ([comma] ++ ·)).length := by
      induction rest with
      | nil => exact Nat.zero_le _
      | cons item rest ih =>
        simp only [List.flatMap_cons, List.length_append, List.length_cons, List.length_nil]
        omega
    rw [separated, List.length_append, List.length_cons]
    omega

/-- An index list has at least one word for each index. -/
theorem length_indices (style : Style) (items : List (List Word)) :
    items.length ≤ (if style.groups then items.flatMap bracketed
      else bracketed (separated [.sign .comma] items)).length := by
  split
  · induction items with
    | nil => exact Nat.zero_le _
    | cons words rest ih =>
      simp only [List.flatMap_cons, List.length_append, List.length_cons, bracketed]
      omega
  · have many := length_separated (.sign .comma) items
    rw [bracketed, List.length_cons, List.length_append]
    omega

theorem reads_primary_element {array : String} {indices : List Expr} (present : indices ≠ [])
    (items : Items n print (ranked n inner fullRank) indices) :
    Reads (some n) (primary n inner enclosed)
      (onLine n (elementWords style array (indices.map print))) (exprsOperators indices) (Stops n 0)
      (fun e => ∃ p es, e = .element p array es ∧ SameAll indices es) := by
  unfold primary elementWords
  refine reads_current fun t facing => ?_
  obtain ⟨kind, here, inside⟩ := operand_there rfl facing
  have text : t.lexeme = array := congrArg (·.word.lexeme) (facing_cons facing)
  obtain ⟨words, printed⟩ := indices_start style (mt List.map_eq_nil_iff.mp present)
  rw [if_neg inside, kind]
  dsimp only [Word.name]
  refine reads_startsCall fun u facing => ?_
  have bracket : u.kind = .sign .openBracket := by
    rw [printed] at facing
    exact congrArg (·.word.kind) (facing_cons facing)
  rw [bracket, show (TokenKind.sign .openBracket == .sign .openParen) = false from rfl, Bool.false_and,
    if_neg Bool.false_ne_true]
  refine reads_skip (reads_remaining fun fuel enough => ?_)
  rw [List.length_map] at enough
  have many := Nat.le_trans (length_indices style (indices.map print)) enough
  rw [List.length_map] at many
  refine (reads_indices present items many).last (fun _ stops => stops) fun es same => ?_
  cases es with
  | nil => exact absurd (List.map_eq_nil_iff.mp same.symm) present
  | cons e rest => exact reads_pure ⟨_, _, by rw [text], same⟩

theorem reads_primary_call {callee : String} {arguments : List Expr}
    (items : Items n print (ranked n inner fullRank) arguments)
    (starts : ∀ e ∈ arguments, ∃ word rest, print e = word :: rest ∧ startsOperand word.kind = true) :
    Reads (some n) (primary n inner enclosed)
      (onLine n (.name callee :: parenthesised (separated [.sign .comma] (arguments.map print))))
      (exprsOperators arguments) follows (fun e => ∃ p es, e = .call p callee es ∧ SameAll arguments es) := by
  unfold primary
  refine reads_current fun t facing => ?_
  obtain ⟨kind, here, inside⟩ := operand_there rfl facing
  have text : t.lexeme = callee := congrArg (·.word.lexeme) (facing_cons facing)
  rw [if_neg inside, kind]
  dsimp only [Word.name]
  refine reads_startsCall fun u facing => ?_
  have same := facing_cons facing
  have paren : u.kind = .sign .openParen := congrArg (·.word.kind) same
  have line : u.line = n := congrArg Mark.line same
  rw [paren, line, beq_self_eq_true, beq_self_eq_true, Bool.and_self, if_pos rfl]
  refine reads_skip ?_
  refine (reads_argumentList follows items starts).last (fun _ known => known) fun es same => ?_
  exact reads_pure ⟨_, es, by rw [text], same⟩

theorem reads_primary_paren {good : Expr → Prop}
    (reads : Reads (some n) (ranked n inner fullRank) (onLine n words) cost (Stops n fullRank) good) :
    Reads (some n) (primary n inner enclosed) (onLine n (parenthesised words)) cost follows good := by
  unfold primary parenthesised
  refine reads_current fun t facing => ?_
  obtain ⟨kind, here, inside⟩ := operand_there rfl facing
  rw [if_neg inside, kind]
  refine reads_skip ?_
  refine reads.followed (fun _ => stops_cons rfl) fun e known => ?_
  exact reads_close rfl here.symm (reads_pure known)

theorem reads_operand_primary {room : Nat} {good : Expr → Prop} {word : Word} {rest : List Word}
    (reads : Reads line (primary n (operand n room true) enclosed) (onLine n (word :: rest)) cost
      follows good)
    (other : word.kind ≠ .keyword .NOT) (positive : word.kind ≠ .sign .minus) :
    Reads line (operand n (room + 1) enclosed) (onLine n (word :: rest)) cost follows good := by
  unfold operand
  refine reads_current fun t facing => ?_
  have kind : t.kind = word.kind := congrArg (·.word.kind) (facing_cons facing)
  rw [if_neg fun ⟨same, _⟩ => other (kind.symm.trans same),
    if_neg fun ⟨same, _⟩ => positive (kind.symm.trans same)]
  exact reads

/-- A minus sign and what it is in front of. -/
theorem reads_operand_minus {room : Nat} {good good' : Expr → Prop}
    (reads : Reads (some n) (operand n room enclosed) (onLine n words) cost follows good)
    (known : ∀ p e, good e → good' (negated p e)) :
    Reads line (operand n (room + 1) enclosed) (onLine n (.sign .minus :: words)) cost follows good' := by
  unfold operand
  refine reads_current fun t facing => ?_
  have same := facing_cons facing
  have kind : t.kind = .sign .minus := congrArg (·.word.kind) same
  have here : t.line = n := congrArg Mark.line same
  have positive : ¬(t.kind = .keyword .NOT ∧ t.line = n) := by
    rintro ⟨other, -⟩
    cases kind.symm.trans other
  rw [if_neg positive, if_pos (And.intro kind here)]
  refine reads_skip ?_
  rw [bind_pure_comp]
  exact reads.map _ fun e good => known _ e good

theorem reads_operand_not {room : Nat} {good : Expr → Prop}
    (reads : Reads (some n) (ranked n (operand n room enclosed) notRank) (onLine n words) cost
      (Stops n notRank) good) :
    Reads line (operand n (room + 1) enclosed) (onLine n (.keyword .NOT :: words)) cost
      (Stops n notRank) (fun e => ∃ p a, e = .unary p .not a ∧ good a) := by
  unfold operand
  refine reads_current fun t facing => ?_
  have same := facing_cons facing
  have kind : t.kind = .keyword .NOT := congrArg (·.word.kind) same
  have here : t.line = n := congrArg Mark.line same
  rw [if_pos (And.intro kind here)]
  refine reads_skip ?_
  rw [bind_pure_comp]
  exact reads.map _ fun a known => ⟨_, a, rfl, known⟩

theorem negated_other (p : Position) {e : Expr} (other : e.isNumber = false) :
    negated p e = .unary p .minus e := by
  cases e with
  | literal q value =>
    cases value with
    | integer | real => cases other
    | _ => rfl
  | _ => rfl

theorem Expr.isNumber_same {e other : Expr} (same : e.Same other) : other.isNumber = e.isNumber := by
  cases other <;> cases e <;> simp_all [Expr.Same, Expr.moved, Expr.isNumber]

/-- An operator in front of its operand. -/
theorem reads_unary {room : Nat} {op : UnaryOp} {e : Expr} (known : op.isKnown = true)
    (plain : (op == .minus && e.isNumber) = false)
    (reads : Reads (some n) (operand n room enclosed) (onLine n words) cost (Stops n 0) e.Same) :
    Reads (some n) (operand n (room + 1) enclosed) (onLine n (op.word :: words)) cost (Stops n notRank)
      (fun f => ∃ p a, f = .unary p op a ∧ e.Same a) := by
  cases op with
  | not => exact reads_operand_not (reads.ranked notRank)
  | minus =>
    refine reads_operand_minus (reads.narrow fun _ stops => stops.less (Nat.zero_le _)) fun p a same => ?_
    have other : a.isNumber = false := (Expr.isNumber_same same).trans plain
    exact ⟨p, a, negated_other p other, same⟩
  | unknown => cases known

theorem reads_operand_literal {room : Nat} (value : Literal)
    (deep : (if value.isNegative then 2 else 1) ≤ room) :
    Reads line (operand n room enclosed) (onLine n value.words) 0 follows
      (fun e => ∃ p, e = .literal p value) := by
  have plain {value : Literal} {line : Option Nat} (positive : value.isNegative = false) (room : Nat) :
      Reads line (operand n (room + 1) enclosed) (onLine n value.words) 0 follows
        (fun e => ∃ p, e = .literal p value) := by
    obtain ⟨word, printed, found, literal⟩ := literal_words value positive
    rw [printed]
    refine reads_operand_primary (reads_primary_literal found) ?_ ?_
    · rintro same
      rw [same] at found
      cases found
    · rintro same
      rw [same] at found
      cases found
  cases negative : value.isNegative with
  | false =>
    rw [negative] at deep
    obtain ⟨room, rfl⟩ : ∃ r, room = r + 1 := ⟨room - 1, by simp at deep; omega⟩
    exact plain negative room
  | true =>
    rw [negative] at deep
    obtain ⟨room, rfl⟩ : ∃ r, room = r + 2 := ⟨room - 2, by simp at deep; omega⟩
    obtain ⟨positive, printed, plainly, back⟩ := negative_words value negative
    rw [printed]
    refine reads_operand_minus (plain plainly room) ?_
    rintro p _ ⟨q, rfl⟩
    exact ⟨p, back p q⟩

end Operands

section Same

theorem same_element {p q : Position} {array : String} {indices es : List Expr} (same : SameAll indices es) :
    (Expr.element p array indices).Same (.element q array es) := by
  simp only [Expr.Same, Expr.moved, exprsMoved_eq]
  rw [same]
  rfl

theorem same_call {p q : Position} {callee : String} {arguments es : List Expr} (same : SameAll arguments es) :
    (Expr.call p callee arguments).Same (.call q callee es) := by
  simp only [Expr.Same, Expr.moved, exprsMoved_eq]
  rw [same]
  rfl

theorem same_binary {p q : Position} {op : BinaryOp} {left right a b : Expr} (first : left.Same a)
    (second : right.Same b) : (Expr.binary p op left right).Same (.binary q op a b) := by
  simp only [Expr.Same, Expr.moved] at *
  rw [first, second]
  rfl

theorem same_unary {p q : Position} {op : UnaryOp} {e a : Expr} (same : e.Same a) :
    (Expr.unary p op e).Same (.unary q op a) := by
  simp only [Expr.Same, Expr.moved] at *
  rw [same]
  rfl

end Same

section Expressions

variable {style : Style}

mutual

/-- An operand is read back from its words, whatever may follow an operand on the line. -/
theorem reads_operand : ∀ (e : Expr) {room : Nat}, e.normal = true → e.depth ≤ room → ∀ enclosed : Bool,
    Reads (some n) (operand n room enclosed) (onLine n (e.words style)) e.operators (Stops n 0) e.Same
  | .literal p value, room, _, deep, enclosed => by
    refine (reads_operand_literal value deep).weaken ?_
    rintro _ ⟨q, rfl⟩
    rfl
  | .name p word, 0, _, deep, _ => by cases deep
  | .name p word, room + 1, _, _, enclosed => by
    refine (reads_operand_primary (reads_primary_name word) nofun nofun).weaken ?_
    rintro _ ⟨q, rfl⟩
    rfl
  | .element p array indices, 0, _, deep, _ => by cases deep
  | .element p array indices, room + 1, normal, deep, enclosed => by
    simp only [Expr.normal, Bool.and_eq_true, Bool.not_eq_true', List.isEmpty_eq_false_iff] at normal
    have items := reads_items indices normal.2 (Nat.le_of_succ_le_succ deep)
    rw [Expr.words, exprsWords_eq]
    refine (reads_operand_primary (reads_primary_element normal.1 items) nofun nofun).weaken ?_
    rintro _ ⟨q, es, rfl, same⟩
    exact same_element same
  | .binary p op left right, 0, _, deep, _ => by cases deep
  | .binary p op left right, room + 1, normal, deep, enclosed => by
    simp only [Expr.normal, Bool.and_eq_true] at normal
    simp only [Expr.depth] at deep
    obtain ⟨r, positive, above, found, paren, bracket⟩ := operator_word normal.1.1
    have pair := reads_pair (reads_operand left normal.1.2 (show left.depth ≤ room by omega) true)
      (reads_operand right normal.2 (by omega) true) found paren bracket positive above
    refine (reads_operand_primary (reads_primary_paren pair) nofun nofun).weaken ?_
    rintro _ ⟨q, a, b, rfl, first, second⟩
    exact same_binary first second
  | .unary p op inner, 0, _, deep, _ => by cases deep
  | .unary p op inner, 1, _, deep, _ => by simp [Expr.depth] at deep
  | .unary p op inner, room + 2, normal, deep, enclosed => by
    simp only [Expr.normal, Bool.and_eq_true, Bool.not_eq_true'] at normal
    simp only [Expr.depth] at deep
    have unary := reads_unary normal.1.1 normal.2
      (reads_operand inner normal.1.2 (show inner.depth ≤ room by omega) true)
    have whole := (unary.narrow fun _ stops => stops.less (show notRank ≤ fullRank by decide)).chained fun _ stops => stops
    refine (reads_operand_primary (reads_primary_paren whole) nofun nofun).weaken ?_
    rintro _ ⟨q, a, rfl, same⟩
    exact same_unary same
  | .call p callee arguments, 0, _, deep, _ => by cases deep
  | .call p callee arguments, room + 1, normal, deep, enclosed => by
    have items := reads_items arguments normal (Nat.le_of_succ_le_succ deep)
    rw [Expr.words, exprsWords_eq]
    refine (reads_operand_primary (reads_primary_call items fun e member => ?_) nofun nofun).weaken ?_
    · exact words_start e (exprsNormal_iff.mp normal e member)
    · rintro _ ⟨q, es, rfl, same⟩
      exact same_call same
  | .range .., _, normal, _, _ => by cases normal
  | .stray .., _, normal, _, _ => by cases normal

theorem reads_items : ∀ (es : List Expr) {room : Nat}, exprsNormal es = true → exprsDepth es ≤ room →
    Items n (Expr.words style) (ranked n (operand n room true) fullRank) es
  | [], _, _, _ => fun _ member => nomatch member
  | e :: rest, room, normal, deep => by
    simp only [exprsNormal, Bool.and_eq_true] at normal
    simp only [exprsDepth] at deep
    have first := (reads_operand e normal.1 (show e.depth ≤ room by omega) true).ranked fullRank
    have others := reads_items rest normal.2 (show exprsDepth rest ≤ room by omega)
    exact fun e' member => (List.mem_cons.mp member).elim (fun same => same ▸ first) (others e')

end

end Expressions

end Parse

end Pseudocode
