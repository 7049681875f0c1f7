import Pseudocode.Proofs.Tracked

/-! Expressions, read with stacks. Whoever closes a delimiter has opened it, so the stack of delimiters
is what it was in front of each operand; and as many operands may be nested as there is room for. -/
namespace Pseudocode.Tracking

open Parse (Forward operator? literal? negated fullRank notRank)

namespace Standing

/-- The number of further operands that may be nested. -/
def room (here : Standing) : Nat := SyntaxError.maxNesting - (here.blocks.length + here.depth)

/-- Inside one more operand. -/
abbrev deeper (here : Standing) : Standing := { here with depth := here.depth + 1 }

theorem room_below (here : Standing) : here.room < here.limit := by
  have long := here.long
  have bounded : here.room ≤ SyntaxError.maxNesting := Nat.sub_le ..
  omega

end Standing

section Delimiters

variable {here : Standing} {line : Nat} {ds : List (Sign × Token)} {s : Reader} {c : Cursor}
  {α β : Type}

theorem Mirrors.sameLine (mirrors : Mirrors here (some (line, ds)) s c) : c.line = line :=
  (mirrors.within _ rfl).1

theorem Mirrors.sameDelimiters (mirrors : Mirrors here (some (line, ds)) s c) : c.delimiters = ds :=
  (mirrors.within _ rfl).2

theorem Mirrors.delimit (mirrors : Mirrors here (some (line, ds)) s c) (others : List (Sign × Token)) :
    Mirrors here (some (line, others)) s { c with delimiters := others } :=
  { mirrors with within := by simp [mirrors.sameLine] }

/-- Only the delimiter that has been opened last is closed. -/
theorem close_agrees {sign : Sign} {opened : Token}
    (mirrors : Mirrors here (some (line, (sign, opened) :: ds)) s c)
    (opens : sign = .openParen ∨ sign = .openBracket) :
    Agrees here (some (line, ds)) (Parse.close (closing sign) opened s)
      (Tracking.close sign opened c) := by
  unfold Tracking.close
  rw [get_bind, mirrors.sameDelimiters]
  dsimp only
  rw [if_neg (by simp), bind_of_ok mirrors.current]
  unfold Parse.close
  rw [Parse.current_bind]
  by_cases closes : s.current.kind = .sign (closing sign) ∧ s.current.line = opened.line
  · obtain ⟨d, ran, mirrors⟩ := mirrors.advance
    rw [if_pos closes, if_pos closes, bind_of_ok (discard_of_ok ran)]
    exact .ok (mirrors.delimit ds)
  · rw [if_neg closes, if_neg closes]
    obtain rfl | rfl := opens
    · exact .error mirrors.leave
    · exact .error mirrors.leave

/-- What stands between delimiters is read with one more open, and the rest with as many as before. -/
theorem delimited_agrees {m : Parse α} {n : Tracking α} {next : α → Parse β} {next' : α → Tracking β}
    (sign : Sign) (opens : sign = .openParen ∨ sign = .openBracket) [Forward m]
    [∀ d ds, Tracks here (some (line, d :: ds)) m n] (mirrors : Mirrors here (some (line, ds)) s c)
    (rest : ∀ a t d, t.rest.length ≤ s.advanced.rest.length → Mirrors here (some (line, ds)) t d →
      Agrees here (some (line, ds)) (next a t) (next' a d)) :
    Agrees here (some (line, ds))
      ((do
        let a ← m
        Parse.close (closing sign) s.current
        next a : Parse β) s.advanced)
      ((do
        let opened ← openDelimiter sign
        let a ← n
        Tracking.close sign opened
        next' a : Tracking β) c) := by
  obtain ⟨d, ran, mirrorsD⟩ := mirrors.advance
  have opened : openDelimiter sign c =
      .ok s.current { d with delimiters := (sign, s.current) :: d.delimiters } := by
    unfold openDelimiter
    rw [bind_of_ok ran]
    rfl
  rw [bind_of_ok opened, mirrorsD.sameDelimiters]
  refine (Tracks.agrees (mirrorsD.delimit _)).bind fun a t e ran mirrors => ?_
  have onward := (Forward.of_ok ran).rest.length_le
  refine (close_agrees mirrors opens).bind fun _ u f ran mirrors => ?_
  have onward' := (Forward.of_ok ran).rest.length_le
  exact rest a u f (by omega) mirrors

end Delimiters

section Operators

variable {here : Standing} {line : Nat} {ds : List (Sign × Token)} {s : Reader} {c : Cursor}

theorem chain_agrees {operand : Parse Expr} {operand' : Tracking Expr} [Forward operand]
    [Tracks here (some (line, ds)) operand operand'] (rank : Nat) {rounds fuel : Nat} (left : Expr)
    (mirrors : Mirrors here (some (line, ds)) s c) (enough : s.rest.length ≤ fuel)
    (fewer : s.rest.length < rounds) :
    Agrees here (some (line, ds)) (Parse.chain line rank operand fuel left s)
      (Tracking.chain rank operand' rounds left c) := by
  induction rounds generalizing fuel left s c with
  | zero => cases fewer
  | succ rounds ih =>
    unfold Tracking.chain
    rw [bind_of_ok mirrors.current]
    cases fuel with
    | zero =>
      rw [mirrors.exhausted enough]
      exact .ok mirrors
    | succ fuel =>
      unfold Parse.chain
      rw [Parse.current_bind]
      cases found : operator? s.current.kind with
      | none => exact .ok mirrors
      | some operator =>
        show Agrees here _ ((if operator.2 = rank ∧ s.current.line = line then _ else _ : Parse Expr) s)
          ((if operator.2 = rank ∧ s.current.line = c.line then _ else _ : Tracking Expr) c)
        rw [mirrors.sameLine]
        split
        next =>
          have positive := mirrors.shorter fun ended => by simp [ended, operator?] at found
          refine (Tracks.agrees mirrors).bind fun _ t d ran mirrors => ?_
          have kept := (Forward.of_ok ran).rest.length_le
          refine (Tracks.agrees mirrors).bind fun _ t d ran mirrors => ?_
          have taken := (Embedding.advance_shrinks.discard _).of_ok ran
          refine (Tracks.agrees mirrors).bind fun right t d ran mirrors => ?_
          have onward := (Forward.of_ok ran).rest.length_le
          exact ih _ mirrors (by omega) (by omega)
        next => exact .ok mirrors

instance {operand : Parse Expr} {operand' : Tracking Expr} [Forward operand]
    [Tracks here (some (line, ds)) operand operand'] :
    Tracks here (some (line, ds)) (Parse.ranked line operand rank)
      (Tracking.ranked here.limit operand' rank) := by
  induction rank with
  | zero => assumption
  | succ rank ih =>
    exact tracks_bind fun left => tracks_remaining fun mirrors =>
      chain_agrees _ left mirrors (Nat.le_refl _) mirrors.below

end Operators

section Enclosed

variable {here : Standing} {line : Nat} {ds : List (Sign × Token)} {s : Reader} {c : Cursor}
  {item : Parse Expr} {item' : Tracking Expr} [Forward item]
  [∀ d ds, Tracks here (some (line, d :: ds)) item item']

theorem indexGroups_agrees {rounds fuel : Nat} (mirrors : Mirrors here (some (line, ds)) s c)
    (enough : s.rest.length ≤ fuel) (fewer : s.rest.length < rounds) :
    Agrees here (some (line, ds)) (Parse.indexGroups line item fuel s)
      (Tracking.indexGroups here.limit item' rounds c) := by
  induction rounds generalizing fuel s c with
  | zero => cases fewer
  | succ rounds ih =>
    unfold Tracking.indexGroups
    rw [bind_of_ok mirrors.current]
    rw [get_bind, mirrors.sameLine]
    cases fuel with
    | zero =>
      rw [mirrors.exhausted enough, if_neg (by simp)]
      exact .ok mirrors
    | succ fuel =>
      unfold Parse.indexGroups
      rw [Parse.current_bind]
      by_cases opens : s.current.kind = .sign .openBracket ∧ s.current.line = line
      · rw [if_pos opens, if_pos opens]
        have taken := mirrors.shorter (by simp [opens.1])
        rw [Parse.skip_bind]
        refine delimited_agrees .openBracket (.inr rfl) mirrors fun group t d onward mirrors => ?_
        refine (ih mirrors (by omega) (by omega)).bind fun others u e _ mirrors => ?_
        exact .ok mirrors
      · rw [if_neg opens, if_neg opens]
        exact .ok mirrors

instance : Tracks here (some (line, ds))
    (Parse.remaining >>= fun left => Parse.indexGroups line item left)
    (Tracking.indexGroups here.limit item' here.limit) :=
  tracks_remaining fun mirrors => indexGroups_agrees mirrors (Nat.le_refl _) mirrors.below

instance : Tracks here (some (line, ds)) (Parse.argumentList item)
    (Tracking.argumentList here.limit item') where
  agrees {s c} mirrors := by
    -- Both look for arguments before they read them, between the delimiters as well.
    have regrouped : Parse.argumentList item = (do
        let opened ← Parse.advance
        let arguments ← Parse.nextIs (.sign .closeParen) >>= fun empty =>
          if empty then pure [] else Parse.commaSeparated item
        Parse.close .closeParen opened
        return arguments) := by
      rw [bind_congr fun _ => bind_assoc _ _ _]
      refine bind_congr fun opened => bind_congr fun empty => ?_
      cases empty <;> rfl
    have regrouped' : Tracking.argumentList here.limit item' = (do
        let opened ← openDelimiter .openParen
        let arguments ← Tracking.nextIs (.sign .closeParen) >>= fun empty =>
          if empty then pure [] else Tracking.commaSeparated here.limit item'
        Tracking.close .openParen opened
        return arguments) := by
      rw [bind_congr fun _ => bind_assoc _ _ _]
      refine bind_congr fun opened => bind_congr fun empty => ?_
      cases empty <;> rfl
    rw [regrouped, regrouped', Parse.advance_bind]
    exact delimited_agrees .openParen (.inl rfl) mirrors fun _ _ _ _ mirrors => .ok mirrors

/-- A call stays on the line of its expression. -/
theorem callArguments_tracks {name : Token} (onLine : name.line = line) :
    Tracks here (some (line, ds)) (Parse.argumentList item) (callArguments here.limit name item') where
  agrees {s c} mirrors := by
    have placed : Mirrors here (some (line, ds)) s { c with line := name.line } :=
      { mirrors with within := by simp [onLine, mirrors.sameDelimiters] }
    show Agrees here _ _ (Tracking.argumentList here.limit item' { c with line := name.line })
    exact Tracks.agrees placed

end Enclosed

section Operands

variable {here : Standing} {within : Within} {line : Nat} {ds : List (Sign × Token)} {s : Reader}
  {c : Cursor}

instance : Tracks here within Parse.startsCall Tracking.startsCall := by
  unfold Parse.startsCall Tracking.startsCall
  infer_instance

/-- What is neither enclosed nor named is a literal, or no operand. -/
theorem plain_agrees (token : Token) (mirrors : Mirrors here (some (line, ds)) s c) :
    Agrees here (some (line, ds))
      ((match literal? token.kind with
        | some value => do
          discard Parse.advance
          return .literal token.position value
        | none =>
          if (token.kind = .sign .closeParen ∨ token.kind = .sign .closeBracket) ∧ !(!ds.isEmpty) then
            Parse.fail token.position (.unmatchedDelimiter token.lexeme)
          else Parse.fail token.position (.unexpectedInExpression token.describe) : Parse Expr) s)
      ((match literal? token.kind with
        | some value => do
          discard Tracking.advance
          return .literal token.position value
        | none => do
          if (token.kind = .sign .closeParen ∨ token.kind = .sign .closeBracket) ∧
              (← get).delimiters.isEmpty then
            Tracking.fail token.position (.unmatchedDelimiter token.lexeme)
          else Tracking.fail token.position (.unexpectedInExpression token.describe) :
            Tracking Expr) c) := by
  cases literal? token.kind with
  | some value =>
    have reads : Tracks here (some (line, ds))
        (do discard Parse.advance; pure (.literal token.position value) : Parse Expr)
        (do discard Tracking.advance; pure (.literal token.position value)) := inferInstance
    exact reads.agrees mirrors
  | none =>
    dsimp only
    rw [get_bind, mirrors.sameDelimiters, Bool.not_not]
    exact Tracks.agrees mirrors

theorem primary_agrees {inner : Parse Expr} {inner' : Tracking Expr} [Forward inner]
    [∀ d ds, Tracks here (some (line, d :: ds)) inner inner']
    (mirrors : Mirrors here (some (line, ds)) s c) :
    Agrees here (some (line, ds)) (Parse.primary line inner (!ds.isEmpty) s)
      (Tracking.primary here.limit inner' c) := by
  unfold Parse.primary Tracking.primary
  rw [Parse.current_bind, bind_of_ok mirrors.current]
  rw [get_bind, mirrors.sameLine]
  by_cases away : s.current.line ≠ line ∨ s.current.kind = .endOfInput
  · rw [if_pos away, if_pos away]
    exact Tracks.agrees mirrors
  · rw [if_neg away, if_neg away]
    have sameLine : s.current.line = line := by simpa using (not_or.mp away).1
    have plain := plain_agrees s.current mirrors
    cases kind : s.current.kind with
    | invalid fault => exact .error mirrors.leave
    | identifier =>
      dsimp only
      refine (Tracks.agrees mirrors).bind fun calls t d _ mirrors => ?_
      cases calls with
      | true =>
        refine (Tracks.agrees mirrors).bind fun _ t d _ mirrors => ?_
        exact ((callArguments_tracks sameLine).agrees mirrors).bind fun _ _ _ _ mirrors => .ok mirrors
      | false =>
        refine (Tracks.agrees mirrors).bind fun _ t d _ mirrors => ?_
        rw [← bind_assoc]
        refine (Tracks.agrees mirrors).bind fun indices t d _ mirrors => ?_
        cases indices <;> exact .ok mirrors
    | sign sign =>
      cases sign with
      | openParen =>
        dsimp only
        rw [Parse.skip_bind]
        exact delimited_agrees .openParen (.inl rfl) mirrors fun _ _ _ _ mirrors => .ok mirrors
      | _ =>
        rw [kind] at plain
        exact plain
    | _ =>
      rw [kind] at plain
      exact plain

theorem ending_of_ok {n : Tracking α} {last : Tracking Unit} (went : n c = .ok a d)
    (ended : last d = .ok ⟨⟩ e) : ending last n c = .ok a e := by
  have tried : (tryCatch n fun broken => do last; throw broken : Tracking α) c = .ok a d := by
    show EStateM.tryCatch n _ c = _
    rw [EStateM.tryCatch, went]
  unfold ending
  rw [bind_of_ok tried, bind_of_ok ended]
  rfl

theorem ending_of_error {n : Tracking α} {last : Tracking Unit} (failed : n c = .error broken d)
    (ended : last d = .ok ⟨⟩ e) : ending last n c = .error broken e := by
  have tried : (tryCatch n fun broken => do last; throw broken : Tracking α) c = .error broken e := by
    show EStateM.tryCatch n _ c = _
    rw [EStateM.tryCatch, failed]
    exact (bind_of_ok ended).trans rfl
  unfold ending
  rw [bind_of_error tried]

/-- What a production opens is closed again, whatever comes of it. -/
theorem Agrees.ending {there : Standing} {m : Parse α} {n : Tracking α} {last : Tracking Unit}
    (first : Agrees there within (m s) (n c))
    (restores : ∀ within t d, Mirrors there within t d →
      ∃ e, last d = .ok ⟨⟩ e ∧ Mirrors here within t e) :
    Agrees here within (m s) (ending last n c) := by
  revert first
  cases m s <;> cases went : n c <;> intro first <;> cases first
  case ok.ok.ok mirrors =>
    obtain ⟨e, ended, mirrors⟩ := restores _ _ _ mirrors
    exact ending_of_ok went ended ▸ .ok mirrors
  case error.error.error mirrors =>
    obtain ⟨e, ended, mirrors⟩ := restores _ _ _ mirrors
    exact ending_of_error went ended ▸ .error mirrors

theorem operand_tracks (line : Nat) (nesting : Nat) :
    ∀ (here : Standing) (ds : List (Sign × Token)), here.room < nesting →
      Tracks here (some (line, ds)) (Parse.operand line here.room (!ds.isEmpty))
        (Tracking.operand here.limit nesting) := by
  induction nesting with
  | zero => exact fun _ _ fewer => absurd fewer (Nat.not_lt_zero _)
  | succ nesting ih =>
    intro here ds fewer
    refine ⟨fun {s c} mirrors => ?_⟩
    unfold Tracking.operand
    have deeper : Mirrors here.deeper (some (line, ds)) s { c with depth := c.depth + 1 } :=
      { mirrors with depth := congrArg (· + 1) mirrors.depth }
    show Agrees here _ _ (ending _ _ { c with depth := c.depth + 1 })
    generalize { c with depth := c.depth + 1 } = d at deeper ⊢
    refine Agrees.ending ?_ fun within t d (mirrors : Mirrors here.deeper within t d) =>
      ⟨_, rfl, { mirrors with depth := ?_ }⟩
    · show Agrees here.deeper _ _ ((Tracking.current >>= fun token =>
        if d.depth + d.blocks.length > SyntaxError.maxNesting then _ else _ : Tracking Expr) _)
      rw [bind_of_ok deeper.current]
      have depth : d.depth + d.blocks.length = here.depth + 1 + here.blocks.length := by
        rw [deeper.depth, deeper.blocks]
      have room : here.room = SyntaxError.maxNesting - (here.blocks.length + here.depth) := rfl
      cases room_eq : here.room with
      | zero =>
        rw [if_pos (by omega)]
        exact .error deeper.leave
      | succ room =>
        have fits : here.deeper.room = room := by
          unfold Standing.room at room_eq ⊢
          dsimp only
          omega
        have inner (ds : List (Sign × Token)) : Tracks here.deeper (some (line, ds))
            (Parse.operand line room (!ds.isEmpty)) (Tracking.operand here.limit nesting) :=
          fits ▸ ih here.deeper ds (by omega)
        have enclosed (d : Sign × Token) (ds : List (Sign × Token)) :
            Tracks here.deeper (some (line, d :: ds)) (Parse.operand line room true) (Tracking.operand here.limit nesting) := inner (d :: ds)
        have same := inner ds
        rw [if_neg (by omega)]
        unfold Parse.operand
        rw [Parse.current_bind]
        show Agrees here.deeper _ _ ((if s.current.kind = .keyword .NOT ∧ s.current.line = d.line then _
          else if s.current.kind = .sign .minus ∧ s.current.line = d.line then _
          else _ : Tracking Expr) _)
        rw [deeper.sameLine]
        by_cases negates : s.current.kind = .keyword .NOT ∧ s.current.line = line
        · rw [if_pos negates, if_pos negates]
          exact Tracks.agrees deeper
        · rw [if_neg negates, if_neg negates]
          by_cases subtracts : s.current.kind = .sign .minus ∧ s.current.line = line
          · rw [if_pos subtracts, if_pos subtracts]
            exact Tracks.agrees deeper
          · rw [if_neg subtracts, if_neg subtracts]
            exact primary_agrees deeper
    · show d.depth - 1 = _
      rw [mirrors.depth]
      rfl

instance : Tracks here (some (line, [])) (Parse.operand line here.room false)
    (Tracking.operand here.limit here.limit) :=
  operand_tracks line here.limit here [] here.room_below

instance : Tracks here (some (line, d :: ds)) (Parse.operand line here.room true)
    (Tracking.operand here.limit here.limit) :=
  operand_tracks line here.limit here (d :: ds) here.room_below

instance : Tracks here (some (line, d :: ds)) (Parse.enclosedExpression here.room line)
    (Tracking.enclosedExpression here.limit) := by
  unfold Parse.enclosedExpression Tracking.enclosedExpression
  infer_instance

/-- On its line an expression is read with no delimiter open, whatever an earlier one has left. -/
theorem tracks_begin {m : Parse α} {n : Tracking α} (reads : Tracks here (some (line, [])) m n) :
    Tracks here none m (beginAt line >>= fun _ => n) where
  agrees {s c} mirrors := by
    have begun : Mirrors here (some (line, [])) s { c with line, delimiters := [] } :=
      { mirrors with within := by simp }
    exact (reads.agrees begun).leave

instance {m : Parse α} {n : Tracking α} [Tracks here (some (line, [])) m n] :
    Tracks here none m (beginAt line >>= fun _ => n) := tracks_begin inferInstance

instance :
    Tracks here within (modify fun s : Reader => { s with operators := 0 } : Parse PUnit) uncount :=
  tracks_modify fun mirrors => { mirrors with operators := rfl }

instance : Tracks here none (Parse.expression here.room) (Tracking.expression here.limit) := by
  unfold Parse.expression Tracking.expression
  infer_instance

end Operands

end Pseudocode.Tracking
