import Mathlib.Data.List.Forall2
import Pseudocode.Proofs.Embedding

/-! Expressions of a text that stands in a longer one. An expression stays on its line, so the token
behind the text, which is on a line of its own or the end, never continues one. -/
namespace Pseudocode.Embedding

open Parse

variable {E : Embedding} {s s' : Reader} {α : Type} {rel : α → α → Prop} {cut : Reader → Prop}

/-- The expressions that a production returns in the two readings. -/
def SameExpr (E : Embedding) (a b : Expr) : Prop := b = a.moved (.down E.above)

theorem map_of_same {es fs : List Expr} (same : List.Forall₂ E.SameExpr es fs) :
    fs = es.map (Expr.moved (.down E.above)) := by
  induction same with
  | nil => rfl
  | cons first _ ih => rw [first, ih, List.map_cons]

theorem Joins.length (joins : E.Joins s s') : s'.rest.length = s.rest.length + E.below.length := by
  rw [joins.rest, List.length_append, List.length_map]

theorem agrees_remaining {next next' : Nat → Parse α}
    (rest : E.Agrees s s' (next s.rest.length) (next' s'.rest.length) rel cut) :
    E.Agrees s s' (remaining >>= next) (remaining >>= next') rel cut := rest

theorem afterCommas_stop (other : s.current.kind ≠ .sign .comma) (item : Parse α) (fuel : Nat) :
    afterCommas item fuel s = .ok [] s := by
  cases fuel with
  | zero => rfl
  | succ fuel =>
    have left : acceptSign .comma s = .ok false s := by
      rw [acceptSign, accept_apply, if_neg (by simpa using other)]
    unfold afterCommas
    rw [bind_of_ok left]
    rfl

theorem Joins.other_kind (joins : E.Joins s s') (left : s.rest = []) (kind : TokenKind)
    (inner : Inner kind) : s.current.kind ≠ kind := by
  rw [(joins.current_end left).1, joins.ends]
  exact fun same => inner.2 same.symm

section Lists

variable {item item' : Parse α} [Forward item] [Forward item']

theorem afterCommas_agrees (proper : E.Proper)
    (items : ∀ {s s'}, E.Joins s s' → E.Agrees s s' item item' rel) (joins : E.Joins s s')
    {fuel fuel' : Nat} (enough : s.rest.length ≤ fuel) (enough' : s'.rest.length ≤ fuel') :
    E.Agrees s s' (afterCommas item fuel) (afterCommas item' fuel') (List.Forall₂ rel) := by
  have stops {s s' : Reader} (joins : E.Joins s s') (other : s.current.kind ≠ .sign .comma)
      (fuel fuel' : Nat) :
      E.Agrees s s' (afterCommas item fuel) (afterCommas item' fuel') (List.Forall₂ rel) :=
    agrees_stop joins (afterCommas_stop other item fuel)
      (afterCommas_stop ((joins.same_kind proper (by decide)).not.mpr other) item' fuel') .nil
  induction fuel generalizing fuel' s s' with
  | zero =>
    have left : s.rest = [] := List.eq_nil_of_length_eq_zero (Nat.le_zero.mp enough)
    exact stops joins (joins.other_kind left _ (by decide)) _ _
  | succ fuel ih =>
    by_cases comma : s.current.kind = .sign .comma
    · obtain ⟨t, r, left⟩ := joins.inside (comma ▸ nofun)
      have long := joins.length
      rw [left, List.length_cons] at long enough
      obtain ⟨fuel', rfl⟩ : ∃ n, fuel' = n + 1 := ⟨fuel' - 1, by omega⟩
      unfold afterCommas
      refine agrees_accept joins proper (by decide) (fun _ r u u' left' _ joinsU behind _ => ?_) ?_
      · rw [left] at left'
        cases left'
        refine (items joinsU).bind fun a b v v' ran joinsV first => ?_
        have shorter := (Forward.of_ok ran).rest.length_le
        have long' := joinsV.length
        rw [behind] at shorter
        refine (ih joinsV (by omega) (by omega)).bind fun as bs w w' _ joinsW rest => ?_
        exact agrees_pure joinsW (.cons first rest)
      · exact agrees_pure joins .nil
    · exact stops joins comma _ _

theorem commaSeparated_agrees (proper : E.Proper)
    (items : ∀ {s s'}, E.Joins s s' → E.Agrees s s' item item' rel) (joins : E.Joins s s') :
    E.Agrees s s' (commaSeparated item) (commaSeparated item') (List.Forall₂ rel) := by
  unfold commaSeparated
  refine (items joins).bind fun a b t t' _ joinsT first => agrees_remaining ?_
  refine (afterCommas_agrees proper items joinsT (Nat.le_refl _) (Nat.le_refl _)).bind
    fun as bs u u' _ joinsU rest => ?_
  exact agrees_pure joinsU (.cons first rest)

end Lists

theorem operator_of_opens (opens : kind.opens = true) : operator? kind = none := by
  cases kind with
  | keyword word => cases word <;> first | rfl | cases opens
  | identifier => rfl
  | _ => cases opens

theorem Proper.next_operator (proper : E.Proper) : operator? E.next.kind = none := by
  obtain opens | ends := proper.next_kind
  · exact operator_of_opens opens
  · rw [ends]
    rfl

theorem chain_stop (none : operator? s.current.kind = none) (line rank : Nat) (operand : Parse Expr)
    (fuel : Nat) (left : Expr) : chain line rank operand fuel left s = .ok left s := by
  cases fuel with
  | zero => rfl
  | succ fuel =>
    unfold chain
    rw [current_bind, none]
    rfl

section Operators

variable {operand operand' : Parse Expr} [Forward operand] [Forward operand'] {line : Nat}

theorem chain_agrees (proper : E.Proper)
    (operands : ∀ {s s'}, E.Joins s s' → E.Agrees s s' operand operand' E.SameExpr)
    (rank : Nat) (joins : E.Joins s s') {fuel fuel' : Nat} (enough : s.rest.length ≤ fuel)
    (enough' : s'.rest.length ≤ fuel') {left left' : Expr} (same : E.SameExpr left left') :
    E.Agrees s s' (chain line rank operand fuel left)
      (chain (line + E.above) rank operand' fuel' left') E.SameExpr := by
  have stops {s s' : Reader} (joins : E.Joins s s') (done : s.rest = []) (fuel fuel' : Nat)
      {left left' : Expr} (same : E.SameExpr left left') :
      E.Agrees s s' (chain line rank operand fuel left)
        (chain (line + E.above) rank operand' fuel' left') E.SameExpr := by
    obtain ⟨here, here'⟩ := joins.current_end done
    refine agrees_stop joins (chain_stop ?_ ..) (chain_stop ?_ ..) same
    · rw [here, joins.ends]
      rfl
    · rw [here']
      exact proper.next_operator
  induction fuel generalizing fuel' s s' left left' with
  | zero => exact stops joins (List.eq_nil_of_length_eq_zero (Nat.le_zero.mp enough)) _ _ same
  | succ fuel ih =>
    cases rest : s.rest with
    | nil => exact stops joins rest _ _ same
    | cons t r =>
      have long := joins.length
      rw [rest, List.length_cons] at long enough
      obtain ⟨fuel', rfl⟩ : ∃ n, fuel' = n + 1 := ⟨fuel' - 1, by omega⟩
      unfold chain
      refine agrees_current joins (fun done => ?_) fun t r rest' holds => ?_
      · rw [done] at rest
        cases rest
      · rw [Token.kind_down]
        split
        · exact agrees_pure joins same
        next op opRank _ =>
          by_cases here : opRank = rank ∧ t.line = line
          · rw [if_pos here, if_pos ⟨here.1, by rw [Token.line_down, here.2]⟩]
            refine agrees_countOperator joins holds fun u u' joinsU behind => ?_
            refine agrees_skip joinsU (behind.trans rest') fun v v' joinsV behind' => ?_
            refine (operands joinsV).bind fun e e' w w' ran joinsW right => ?_
            have shorter := (Forward.of_ok ran).rest.length_le
            have long' := joinsW.length
            rw [rest'] at rest
            cases rest
            rw [behind'] at shorter
            refine ih joinsW (by omega) (by omega) ?_
            rw [SameExpr, Expr.moved, ← same, ← right]
            rfl
          · rw [if_neg here, if_neg fun there => here ⟨there.1, Nat.add_right_cancel there.2⟩]
            exact agrees_pure joins same

theorem ranked_agrees (proper : E.Proper)
    (operands : ∀ {s s'}, E.Joins s s' → E.Agrees s s' operand operand' E.SameExpr)
    (rank : Nat) (joins : E.Joins s s') :
    E.Agrees s s' (ranked line operand rank) (ranked (line + E.above) operand' rank) E.SameExpr := by
  induction rank generalizing s s' with
  | zero => exact operands joins
  | succ rank ih =>
    unfold ranked
    refine (ih joins).bind fun left left' t t' _ joinsT same => agrees_remaining ?_
    exact chain_agrees proper (fun joins => ih joins) _ joinsT (Nat.le_refl _) (Nat.le_refl _) same

end Operators

theorem close_agrees (joins : E.Joins s s') (closer : Sign) {opened opened' : Token}
    (same : E.SameToken opened opened') :
    E.Agrees s s' (close closer opened) (close closer opened') fun _ _ => True := by
  obtain ⟨_, rfl⟩ := same
  unfold close
  refine agrees_current joins (fun done => ?_) fun t r rest holds => ?_
  · rw [if_neg (by rw [joins.ends]; nofun)]
    exact agrees_of_error rfl
  · by_cases here : t.kind = .sign closer ∧ t.line = opened.line
    · rw [if_pos here, if_pos ⟨here.1, by simp [here.2]⟩]
      exact skip_agrees joins rest
    · rw [if_neg here]
      exact agrees_of_error rfl

/-- The lists of expressions that a production returns in the two readings. -/
def SameExprs (E : Embedding) (a b : List Expr) : Prop := b = a.map (Expr.moved (.down E.above))

theorem indexGroups_stop (other : ¬(s.current.kind = .sign .openBracket ∧ s.current.line = line))
    (item : Parse Expr) (fuel : Nat) : indexGroups line item fuel s = .ok [] s := by
  cases fuel with
  | zero => rfl
  | succ fuel =>
    unfold indexGroups
    rw [current_bind, if_neg other]
    rfl

/-- Both readings see the same where a call may start. -/
theorem agrees_startsCall {next next' : Bool → Parse α} (proper : E.Proper) (joins : E.Joins s s')
    (left : s.rest = t :: r)
    (yes : ∀ u r', r = u :: r' → E.Agrees s s' (next true) (next' true) rel cut)
    (no : E.Agrees s s' (next false) (next' false) rel cut) :
    E.Agrees s s' (startsCall >>= next) (startsCall >>= next') rel cut := by
  obtain ⟨here, here', -⟩ := joins.current_inside left
  have answer : (startsCall >>= next) s = next ((s.rest.tail.head?.getD s.finish).kind ==
      .sign .openParen && (s.rest.tail.head?.getD s.finish).line == s.current.line) s := rfl
  have answer' : (startsCall >>= next') s' = next' ((s'.rest.tail.head?.getD s'.finish).kind ==
      .sign .openParen && (s'.rest.tail.head?.getD s'.finish).line == s'.current.line) s' := rfl
  refine Agrees.congr answer answer' ?_
  rw [here, here', joins.rest, joins.finish, left]
  cases r with
  | nil =>
    have other : (E.next.kind == .sign .openParen) = false :=
      beq_eq_false_iff_ne.mpr (proper.next_ne (by decide))
    have other' : (s.finish.kind == .sign .openParen) = false := by rw [joins.ends]; rfl
    show E.Agrees s s' (next (s.finish.kind == _ && _)) (next' (E.next.kind == _ && _)) rel cut
    rw [other, other', Bool.false_and, Bool.false_and]
    exact no
  | cons u r =>
    have lines : (u.line + E.above == t.line + E.above) = (u.line == t.line) := by
      rw [Bool.eq_iff_iff, beq_iff_eq, beq_iff_eq, Nat.add_right_cancel_iff]
    simp only [List.map_cons, List.cons_append, List.tail_cons, List.head?_cons, Option.getD_some,
      Token.kind_down, Token.line_down, lines]
    cases (u.kind == .sign .openParen && u.line == t.line) with
    | true => exact yes u r rfl
    | false => exact no

section Delimiters

variable {item item' : Parse Expr} [Forward item] [Forward item'] {line : Nat}

theorem indexGroups_agrees (proper : E.Proper)
    (items : ∀ {s s'}, E.Joins s s' → E.Agrees s s' item item' E.SameExpr)
    (joins : E.Joins s s') {fuel fuel' : Nat} (enough : s.rest.length ≤ fuel)
    (enough' : s'.rest.length ≤ fuel') :
    E.Agrees s s' (indexGroups line item fuel) (indexGroups (line + E.above) item' fuel')
      E.SameExprs := by
  have stops {s s' : Reader} (joins : E.Joins s s') (done : s.rest = []) (fuel fuel' : Nat) :
      E.Agrees s s' (indexGroups line item fuel) (indexGroups (line + E.above) item' fuel')
        E.SameExprs := by
    have other : s.current.kind ≠ .sign .openBracket := joins.other_kind done _ (by decide)
    refine agrees_stop joins (indexGroups_stop (fun here => other here.1) ..)
      (indexGroups_stop (fun here => other ?_) ..) rfl
    exact (joins.same_kind proper (by decide)).mp here.1
  induction fuel generalizing fuel' s s' with
  | zero => exact stops joins (List.eq_nil_of_length_eq_zero (Nat.le_zero.mp enough)) _ _
  | succ fuel ih =>
    cases rest : s.rest with
    | nil => exact stops joins rest _ _
    | cons t r =>
      have long := joins.length
      rw [rest, List.length_cons] at long enough
      obtain ⟨fuel', rfl⟩ : ∃ n, fuel' = n + 1 := ⟨fuel' - 1, by omega⟩
      unfold indexGroups
      refine agrees_current joins (fun done => ?_) fun t r rest' holds => ?_
      · rw [done] at rest
        cases rest
      · by_cases here : t.kind = .sign .openBracket ∧ t.line = line
        · rw [if_pos here, if_pos ⟨here.1, by rw [Token.line_down, here.2]⟩]
          refine agrees_skip joins rest' fun u u' joinsU behind => ?_
          refine (commaSeparated_agrees proper items joinsU).bind
            fun group group' v v' ran joinsV same => ?_
          refine (close_agrees joinsV _ ⟨holds, rfl⟩).bind fun _ _ w w' ran' joinsW _ => ?_
          have shorter := (Forward.of_ok ran).rest.length_le
          have shorter' := (Forward.of_ok ran').rest.length_le
          have long' := joinsW.length
          rw [rest'] at rest
          cases rest
          rw [behind] at shorter
          refine (ih joinsW (by omega) (by omega)).bind fun more more' x x' _ joinsX sames => ?_
          refine agrees_pure joinsX ?_
          rw [SameExprs, map_of_same same, sames, List.map_append]
        · rw [if_neg here, if_neg fun there => here ⟨there.1, Nat.add_right_cancel there.2⟩]
          exact agrees_pure joins rfl

theorem argumentList_agrees (proper : E.Proper)
    (items : ∀ {s s'}, E.Joins s s' → E.Agrees s s' item item' E.SameExpr)
    (joins : E.Joins s s') (left : s.rest = t :: r) :
    E.Agrees s s' (argumentList item) (argumentList item') E.SameExprs := by
  have holds := (joins.current_inside left).2.2
  have closes {u u' : Reader} (joinsU : E.Joins u u') {es fs : List Expr} (same : E.SameExprs es fs) :
      E.Agrees u u' (close .closeParen t >>= fun _ => pure es)
        (close .closeParen (t.down E.above) >>= fun _ => pure fs) E.SameExprs :=
    (close_agrees joinsU _ ⟨holds, rfl⟩).bind fun _ _ v v' _ joinsV _ => agrees_pure joinsV same
  unfold argumentList
  refine agrees_advance joins left fun u u' joinsU _ => ?_
  refine agrees_nextIs joinsU proper (by decide) fun empty => ?_
  cases empty with
  | true => exact closes joinsU rfl
  | false =>
    exact (commaSeparated_agrees proper items joinsU).bind fun es fs v v' _ joinsV same =>
      closes joinsV (map_of_same same)

theorem primary_agrees (proper : E.Proper)
    (items : ∀ {s s'}, E.Joins s s' → E.Agrees s s' item item' E.SameExpr)
    (joins : E.Joins s s') (enclosed : Bool) :
    E.Agrees s s' (primary line item enclosed) (primary (line + E.above) item' enclosed)
      E.SameExpr := by
  have inner {s s' : Reader} (joins : E.Joins s s') :
      E.Agrees s s' (ranked line item fullRank) (ranked (line + E.above) item' fullRank) E.SameExpr :=
    ranked_agrees proper items fullRank joins
  unfold primary
  refine agrees_current joins (fun done => ?_) fun t r rest holds => ?_
  · rw [if_pos (.inr joins.ends)]
    exact agrees_of_error rfl
  · by_cases away : t.line ≠ line ∨ t.kind = .endOfInput
    · rw [if_pos away]
      exact agrees_of_error rfl
    · have away' : ¬((t.down E.above).line ≠ line + E.above ∨ (t.down E.above).kind = .endOfInput) := by
        simpa using away
      rw [if_neg away, if_neg away', Token.kind_down]
      split
      · exact agrees_of_error rfl
      · refine agrees_skip joins rest fun u u' joinsU _ => ?_
        refine (inner joinsU).bind fun e e' v v' _ joinsV same => ?_
        refine (close_agrees joinsV _ ⟨holds, rfl⟩).bind fun _ _ w w' _ joinsW _ => ?_
        exact agrees_pure joinsW same
      · refine agrees_startsCall proper joins rest (fun u r' more => ?_) ?_
        · refine agrees_skip joins rest fun v v' joinsV behind => ?_
          refine (argumentList_agrees proper inner joinsV (behind.trans more)).bind
            fun es fs w w' _ joinsW same => agrees_pure joinsW ?_
          simp [SameExpr, Expr.moved, same.symm]
        · refine agrees_skip joins rest fun v v' joinsV _ => agrees_remaining ?_
          refine (indexGroups_agrees proper inner joinsV (Nat.le_refl _) (Nat.le_refl _)).andThen
            (fun es => by split <;> infer_instance) (fun fs => by split <;> infer_instance)
            fun es fs w w' _ joinsW same => ?_
          cases same
          cases es with
          | nil => exact agrees_pure joinsW rfl
          | cons e es => exact agrees_pure joinsW (by simp [SameExpr, Expr.moved])
      · split
        · refine agrees_skip joins rest fun u u' joinsU _ => ?_
          exact agrees_pure joinsU (by rw [SameExpr, Expr.moved]; rfl)
        · split <;> exact agrees_of_error rfl

end Delimiters

theorem negated_same {e f : Expr} (same : E.SameExpr e f) (p : Position) :
    E.SameExpr (negated p e) (negated (p.down E.above) f) := by
  cases same
  cases e with
  | literal place value => cases value <;> simp [SameExpr, negated, Expr.moved]
  | _ => simp [SameExpr, negated, Expr.moved]

theorem operand_agrees (proper : E.Proper) (line : Nat) {room : Nat} (joins : E.Joins s s')
    (enclosed : Bool) :
    E.Agrees s s' (operand line room enclosed) (operand (line + E.above) room enclosed)
      E.SameExpr := by
  induction room generalizing s s' enclosed with
  | zero => exact agrees_of_error rfl
  | succ room ih =>
    have plain : E.Agrees s s' (primary line (operand line room true) enclosed)
        (primary (line + E.above) (operand (line + E.above) room true) enclosed) E.SameExpr :=
      primary_agrees proper (fun joins => ih joins true) joins enclosed
    unfold operand
    refine agrees_current joins (fun done => ?_) fun t r rest holds => ?_
    · have next : E.next.kind ≠ .keyword .NOT ∧ E.next.kind ≠ .sign .minus :=
        ⟨proper.next_ne (by decide), proper.next_ne (by decide)⟩
      rw [if_neg (by rw [joins.ends]; nofun), if_neg (by rw [joins.ends]; nofun),
        if_neg fun here => next.1 here.1, if_neg fun here => next.2 here.1]
      exact plain
    · have same (kind : TokenKind) : (t.down E.above).kind = kind ∧
          (t.down E.above).line = line + E.above ↔ t.kind = kind ∧ t.line = line := by
        simp
      simp only [same]
      split
      · refine agrees_skip joins rest fun u u' joinsU _ => ?_
        refine (ranked_agrees proper (fun joins => ih joins enclosed) _ joinsU).bind
          fun e f v v' _ joinsV known => agrees_pure joinsV ?_
        rw [SameExpr, Expr.moved, ← known]
        rfl
      · split
        · refine agrees_skip joins rest fun u u' joinsU _ => ?_
          refine (ih joinsU enclosed).bind fun e f v v' _ joinsV known => ?_
          exact agrees_pure joinsV (negated_same known t.position)
        · exact plain

theorem enclosedExpression_agrees (proper : E.Proper) (room line : Nat) (joins : E.Joins s s') :
    E.Agrees s s' (enclosedExpression room line) (enclosedExpression room (line + E.above))
      E.SameExpr :=
  ranked_agrees proper (fun joins => operand_agrees proper line joins true) _ joins

/-- No operand is read at the end of the text. -/
theorem operand_end (ends : s.current.kind = .endOfInput) (line room : Nat) (enclosed : Bool) :
    ∃ e, operand line room enclosed s = .error e s := by
  cases room with
  | zero => exact ⟨_, rfl⟩
  | succ room =>
    unfold operand primary
    rw [current_bind, if_neg (by rw [ends]; nofun), if_neg (by rw [ends]; nofun), current_bind,
      if_pos (.inr ends)]
    exact ⟨_, rfl⟩

theorem ranked_error {operand : Parse Expr} (failed : operand s = .error e s) (line rank : Nat) :
    ranked line operand rank s = .error e s := by
  induction rank with
  | zero => exact failed
  | succ rank ih =>
    unfold ranked
    exact bind_of_error ih

theorem expression_agrees (proper : E.Proper) (room : Nat) (joins : E.Joins s s') :
    E.Agrees s s' (expression room) (expression room) E.SameExpr := by
  have fresh : E.Joins { s with operators := 0 } { s' with operators := 0 } :=
    { joins with operators := .inl rfl }
  have starts : expression room s = ranked (s.previous.getD s.current).line
    (operand (s.previous.getD s.current).line room false) fullRank { s with operators := 0 } := rfl
  have starts' : expression room s' = ranked (s'.previous.getD s'.current).line
    (operand (s'.previous.getD s'.current).line room false) fullRank { s' with operators := 0 } := rfl
  cases left : s.rest with
  | nil =>
    have ends : s.current.kind = .endOfInput := by rw [(joins.current_end left).1, joins.ends]
    obtain ⟨e, failed⟩ := operand_end (s := { s with operators := 0 }) ends _ room false
    exact agrees_of_error (starts.trans (ranked_error failed _ _))
  | cons t r =>
    obtain ⟨here, here', -⟩ := joins.current_inside left
    have line : (s'.previous.getD s'.current).line = (s.previous.getD s.current).line + E.above := by
      rw [joins.previous, here, here']
      cases s.previous <;> rfl
    rw [line] at starts'
    refine Agrees.congr starts starts' ?_
    exact ranked_agrees proper (fun joins => operand_agrees proper _ joins false) _ fresh

end Pseudocode.Embedding
