import Pseudocode.Proofs.Announcements
import Pseudocode.Proofs.EmbeddedStatements

/-! Productions that read no statement. Without an error an expression, a header or the end of a block
takes no token that leads, so the words that announce statements are left to them. A reading with an
error is of no interest here, and the laws below leave it aside. -/
namespace Pseudocode

namespace Reader

/-- Tokens are taken that stand beside the given statements. -/
def Reads (s t : Reader) (visits : List Visit) : Prop :=
  ∃ taken, s.rest = taken ++ t.rest ∧ Traced taken visits

/-- The tokens that are left are good, and the end of input is behind them. -/
structure Ready (s : Reader) : Prop where
  legible : s.Legible
  finish : s.finish.kind = .endOfInput

variable {s t u : Reader} {visits others : List Visit}

theorem Onward.ready (onward : s.Onward t) (ready : s.Ready) : t.Ready :=
  ⟨onward.legible ready.legible, onward.finish ▸ ready.finish⟩

theorem Reads.of_rest (same : t.rest = s.rest) : s.Reads t [] := ⟨[], same.symm, .nil⟩

theorem Reads.trans (first : s.Reads t visits) (second : t.Reads u others) :
    s.Reads u (visits ++ others) := by
  obtain ⟨taken, same, traced⟩ := first
  obtain ⟨more, same', traced'⟩ := second
  exact ⟨taken ++ more, by rw [same, same', List.append_assoc], traced.append traced'⟩

theorem Reads.advanced (quiet : s.current.kind.leads = false) : s.Reads s.advanced [] := by
  cases left : s.rest with
  | nil => exact .of_rest (by rw [Reader.advanced, left]; rfl)
  | cons t rest =>
    have here : s.current = t := by rw [current, left]; rfl
    exact ⟨[t], by rw [Reader.advanced, left]; rfl, .quiet (here ▸ quiet) .nil⟩

end Reader

/-- A token of this kind starts no statement. -/
class TokenKind.Plain (kind : TokenKind) : Prop where
  quiet : kind.leads = false

namespace TokenKind

instance : Plain (.sign s) := ⟨rfl⟩

instance : Plain .identifier := ⟨rfl⟩

instance : Plain (.typeName word) := ⟨rfl⟩

instance : Plain (.keyword .OF) := ⟨rfl⟩

instance : Plain (.keyword .THEN) := ⟨rfl⟩

instance : Plain (.keyword .ELSE) := ⟨rfl⟩

instance : Plain (.keyword .ENDIF) := ⟨rfl⟩

instance : Plain (.keyword .DO) := ⟨rfl⟩

instance : Plain (.keyword .ENDWHILE) := ⟨rfl⟩

instance : Plain (.keyword .UNTIL) := ⟨rfl⟩

instance : Plain (.keyword .TO) := ⟨rfl⟩

instance : Plain (.keyword .STEP) := ⟨rfl⟩

instance : Plain (.keyword .NEXT) := ⟨rfl⟩

instance : Plain (.keyword .ENDFOR) := ⟨rfl⟩

instance : Plain (.keyword .ENDCASE) := ⟨rfl⟩

instance : Plain (.keyword .ENDPROCEDURE) := ⟨rfl⟩

instance : Plain (.keyword .ENDFUNCTION) := ⟨rfl⟩

instance : Plain (.keyword .BYREF) := ⟨rfl⟩

instance : Plain (.keyword .BYVAL) := ⟨rfl⟩

instance : Plain (.keyword .RETURNS) := ⟨rfl⟩

end TokenKind

namespace Parse

open Reader (Ready)

variable {α β : Type} {m : Parse α} {s t : Reader}

/-- Without an error, a run takes tokens that stand beside statements, and these are as described. -/
def Tells (m : Parse α) (good : α → List Visit → Prop) : Prop :=
  ∀ s, s.Ready → ∀ a t, m s = .ok a t → t.errors = #[] → ∃ visits, s.Reads t visits ∧ good a visits

/-- The same where `token` is next. -/
def TellsAt (token : Token) (m : Parse α) (good : α → List Visit → Prop) : Prop :=
  ∀ s, s.Ready → s.current = token → ∀ a t, m s = .ok a t → t.errors = #[] →
    ∃ visits, s.Reads t visits ∧ good a visits

/-- The production reads no statement. -/
class Quiet (m : Parse α) : Prop extends Forward m where
  tells : Tells m fun _ visits => visits = []

abbrev QuietAt (token : Token) (m : Parse α) : Prop := TellsAt token m fun _ visits => visits = []

/-- The production takes no tokens. -/
class Still (m : Parse α) : Prop where
  ends : ∀ s, Ends m s (fun _ t => t.rest = s.rest ∧ t.finish = s.finish) fun _ _ => True

section Laws

variable {good : α → List Visit → Prop} {goodNext : β → List Visit → Prop} {next : α → Parse β}
  {token : Token}

theorem tells_pure (known : good a []) : Tells (pure a) good := by
  intro s ready b t ran clean
  cases ran
  exact ⟨[], .of_rest rfl, known⟩

theorem tells_fail : Tells (fail place error) good := by
  intro s ready a t ran
  cases ran

theorem Tells.at (tells : Tells m good) : TellsAt token m good :=
  fun s ready _ => tells s ready

theorem Tells.mono {good' : α → List Visit → Prop} (tells : Tells m good)
    (well : ∀ a visits, good a visits → good' a visits) : Tells m good' := by
  intro s ready a t ran clean
  obtain ⟨visits, reads, known⟩ := tells s ready a t ran clean
  exact ⟨visits, reads, well a visits known⟩

theorem tells_of_at (tells : ∀ token, TellsAt token m good) : Tells m good :=
  fun s ready => tells s.current s ready rfl

theorem TellsAt.bind [Forward m] [∀ a, Forward (next a)] (first : TellsAt token m good)
    (rest : ∀ a visits, good a visits →
      Tells (next a) fun b others => goodNext b (visits ++ others)) :
    TellsAt token (m >>= next) goodNext := by
  intro s ready here c u ran clean
  obtain ⟨a, t, early, later⟩ := bind_eq_ok.mp ran
  have between : t.errors = #[] := (Forward.of_ok later).clean clean
  obtain ⟨visits, reads, known⟩ := first s ready here a t early between
  have ready' := (Forward.of_ok early).ready ready
  obtain ⟨others, reads', known'⟩ := rest a visits known t ready' c u later clean
  exact ⟨visits ++ others, reads.trans reads', known'⟩

theorem Tells.bind [Forward m] [∀ a, Forward (next a)] (first : Tells m good)
    (rest : ∀ a visits, good a visits →
      Tells (next a) fun b others => goodNext b (visits ++ others)) :
    Tells (m >>= next) goodNext :=
  tells_of_at fun _ => first.at.bind rest

theorem tells_after [Quiet m] (onward : ∀ a, Forward (next a))
    (rest : ∀ a, Tells (next a) goodNext) : Tells (m >>= next) goodNext := by
  refine Quiet.tells.bind fun a visits none => ?_
  rw [none]
  exact rest a

/-- What is read first may be read without a statement. -/
theorem Tells.after [∀ a, Forward (next a)] [Quiet m] (rest : ∀ a, Tells (next a) goodNext) :
    Tells (m >>= next) goodNext :=
  tells_after inferInstance rest

theorem Tells.map {f : α → β} (tells : Tells m good)
    (known : ∀ a visits, good a visits → goodNext (f a) visits) : Tells (f <$> m) goodNext := by
  intro s ready b t ran clean
  rw [← bind_pure_comp] at ran
  obtain ⟨a, t, early, later⟩ := bind_eq_ok.mp ran
  cases later
  obtain ⟨visits, reads, here⟩ := tells s ready a t early clean
  exact ⟨visits, reads, known a visits here⟩

/-- A choice that the next token decides. -/
theorem tells_current {next : Token → Parse β} (rest : ∀ token, TellsAt token (next token) goodNext) :
    Tells (current >>= next) goodNext :=
  fun s ready b t ran clean => rest s.current s ready rfl b t ran clean

theorem TellsAt.current {next : Token → Parse β} (rest : TellsAt token (next token) goodNext) :
    TellsAt token (current >>= next) goodNext := by
  rintro s ready rfl
  exact rest s ready rfl

theorem TellsAt.still [Still m] (rest : ∀ a, TellsAt token (next a) goodNext) :
    TellsAt token (m >>= next) goodNext := by
  intro s ready here c u ran clean
  obtain ⟨a, t, early, later⟩ := bind_eq_ok.mp ran
  obtain ⟨same, same'⟩ := (Still.ends s).of_ok early
  have ready' : t.Ready := by
    constructor
    · rw [Reader.Legible, same, same']
      exact ready.legible
    · rw [same']
      exact ready.finish
  have here' : t.current = token := by rw [← here, Reader.current, same, same']; rfl
  obtain ⟨visits, reads, known⟩ := rest a t ready' here' c u later clean
  exact ⟨visits, (Reader.Reads.of_rest same).trans reads, known⟩

theorem TellsAt.skip {next : PUnit → Parse β} (quiet : token.kind.leads = false)
    (rest : Tells (next ⟨⟩) goodNext) : TellsAt token (discard advance >>= next) goodNext := by
  rintro s ready rfl c u ran clean
  have onward : s.Onward s.advanced := .of_rest (List.tail_suffix _) rfl rfl
  obtain ⟨visits, reads, known⟩ := rest _ (onward.ready ready) c u ran clean
  exact ⟨visits, (Reader.Reads.advanced quiet).trans reads, known⟩

theorem TellsAt.take {next : Token → Parse β} (quiet : token.kind.leads = false)
    (rest : Tells (next token) goodNext) : TellsAt token (advance >>= next) goodNext := by
  have skipped : TellsAt token (discard advance >>= fun _ => next token) goodNext := .skip quiet rest
  rintro s ready rfl
  exact skipped s ready rfl

theorem quietAt_skip (quiet : token.kind.leads = false) : QuietAt token (discard advance) := by
  rintro s ready rfl a t ran clean
  cases ran
  exact ⟨[], .advanced quiet, rfl⟩

/-- A name in front of an opening parenthesis is skipped. -/
theorem TellsAt.call {m : PUnit → Parse β} {n : Parse β} (quiet : token.kind.leads = false)
    (called : ∀ opened, opened.kind = .sign .openParen → TellsAt opened (m ⟨⟩) goodNext)
    (other : TellsAt token n goodNext) :
    TellsAt token (startsCall >>= fun calls => if calls = true then discard advance >>= m else n)
      goodNext := by
  rintro s ready rfl b t ran clean
  by_cases opens : (s.advanced.current.kind == .sign .openParen &&
      s.advanced.current.line == s.current.line) = true
  · have ran : m ⟨⟩ s.advanced = .ok b t := by
      rw [← ran]
      show _ = (if (s.advanced.current.kind == .sign .openParen &&
        s.advanced.current.line == s.current.line) = true then discard advance >>= m else n) s
      rw [if_pos opens]
      rfl
    have onward : s.Onward s.advanced := .of_rest (List.tail_suffix _) rfl rfl
    have found : s.advanced.current.kind = .sign .openParen :=
      beq_iff_eq.mp (Bool.and_eq_true_iff.mp opens).1
    obtain ⟨visits, reads, known⟩ := called _ found _ (onward.ready ready) rfl b t ran clean
    exact ⟨visits, (Reader.Reads.advanced quiet).trans reads, known⟩
  · have ran : n s = .ok b t := by
      rw [← ran]
      show _ = (if (s.advanced.current.kind == .sign .openParen &&
        s.advanced.current.line == s.current.line) = true then discard advance >>= m else n) s
      rw [if_neg opens]
    exact other s ready rfl b t ran clean

theorem tells_ite [Decidable c] {n : Parse α} (yes : c → Tells m good) (no : ¬c → Tells n good) :
    Tells (if c then m else n) good := by
  split
  · exact yes ‹_›
  · exact no ‹_›

/-- Where an error is recorded nothing is said. -/
theorem tells_record {next : PUnit → Parse β} [∀ a, Forward (next a)] (place : Position)
    (error : SyntaxError) : Tells (record (.found place error) >>= next) goodNext := by
  intro s ready b t ran clean
  obtain ⟨u, recorded, found⟩ := record_found place error s
  rw [bind_of_ok recorded] at ran
  have onward : u.Onward t := Forward.of_ok ran
  rw [onward.clean clean] at found
  exact absurd found (Array.not_mem_empty _)

theorem Tells.header [Forward m] (tells : Tells m good) :
    Tells (header m) fun read visits => ∃ a, read = some a ∧ good a visits := by
  intro s ready a t ran clean
  rw [header_eq] at ran
  have early := Embedding.recover_ok ready.legible ran clean
  have known : Tells (some <$> m) fun read visits => ∃ a, read = some a ∧ good a visits :=
    tells.map fun a visits known => ⟨a, rfl, known⟩
  exact known s ready a t early clean

theorem Tells.orSkip [Forward m] (tells : Tells m good) : Tells (orSkip m instead) good :=
  fun s ready a t ran clean => tells s ready a t (Embedding.orSkip_ok ready.legible ran clean) clean

end Laws

section Tokens

instance : Still (pure a : Parse α) := ⟨fun _ => ⟨rfl, rfl⟩⟩

instance : Still (throw fault : Parse α) := ⟨fun _ => trivial⟩

instance : Still (fail place error : Parse α) := ⟨fun _ => trivial⟩

instance : Still (failExpected text context : Parse α) :=
  ⟨fun s => (failExpected_fails text context s).mono (fun _ _ never => never.elim) fun _ _ _ => trivial⟩

instance : Still current := ⟨fun _ => ⟨rfl, rfl⟩⟩

instance : Still following := ⟨fun _ => ⟨rfl, rfl⟩⟩

instance : Still previous := ⟨fun _ => ⟨rfl, rfl⟩⟩

instance : Still remaining := ⟨fun _ => ⟨rfl, rfl⟩⟩

instance : Still atEnd := ⟨fun _ => ⟨rfl, rfl⟩⟩

instance : Still (nextIs kind) := ⟨fun _ => ⟨rfl, rfl⟩⟩

instance : Still startsCall := ⟨fun _ => ⟨rfl, rfl⟩⟩

instance : Still startsLabel := by
  refine ⟨fun s => ?_⟩
  unfold startsLabel current following
  simp only [ends_bind, ends_get, ends_pure]
  split <;> exact ⟨rfl, rfl⟩

instance : Still (modify fun s => { s with operators := 0 } : Parse PUnit) := ⟨fun _ => ⟨rfl, rfl⟩⟩

instance : Still (countOperator token) := by
  refine ⟨fun s => ?_⟩
  unfold Ends
  rw [countOperator_apply]
  by_cases past : s.operators + 1 > SyntaxError.maxOperators
  · rw [if_pos past]
    trivial
  · rw [if_neg past]
    exact ⟨rfl, rfl⟩

instance : Still (record fault) := by
  refine ⟨fun s => ?_⟩
  cases fault with
  | reported => exact ⟨rfl, rfl⟩
  | found place error =>
    show Reader.rest (if _ then _ else _) = s.rest ∧ Reader.finish (if _ then _ else _) = s.finish
    split <;> exact ⟨rfl, rfl⟩

theorem quiet_of_tells [Forward m] (tells : Tells m fun _ visits => visits = []) : Quiet m :=
  { (inferInstance : Forward m) with tells }

instance [Forward m] [Still m] : Quiet m := by
  refine quiet_of_tells fun s _ a t ran _ => ⟨[], .of_rest ?_, rfl⟩
  exact ((Still.ends s).of_ok ran).1

variable {next : α → Parse β}

theorem quiet_bind [Quiet m] (rest : ∀ a, Quiet (next a)) : Quiet (m >>= next) :=
  quiet_of_tells (.after fun _ => Quiet.tells)

instance [Quiet m] [∀ a, Quiet (next a)] : Quiet (m >>= next) := quiet_bind inferInstance

instance {f : α → β} [Quiet m] : Quiet (f <$> m) :=
  quiet_of_tells (Quiet.tells.map fun _ _ silent => silent)

instance [Quiet m] : Quiet (discard m) := quiet_of_tells (Quiet.tells.map fun _ _ silent => silent)

instance [Decidable c] {n : Parse α} [Quiet m] [Quiet n] : Quiet (if c then m else n) :=
  quiet_of_tells (tells_ite (fun _ => Quiet.tells) fun _ => Quiet.tells)

instance [Quiet m] : Quiet (header m) :=
  quiet_of_tells (Tells.mono (Tells.header Quiet.tells) fun _ _ ⟨_, _, silent⟩ => silent)

instance [TokenKind.Plain kind] : Quiet (accept kind) := by
  refine quiet_of_tells fun s _ a t ran _ => ?_
  rw [accept_apply] at ran
  split at ran
  next found =>
    cases ran
    exact ⟨[], .advanced (beq_iff_eq.mp found ▸ TokenKind.Plain.quiet), rfl⟩
  next =>
    cases ran
    exact ⟨[], .of_rest rfl, rfl⟩

instance [TokenKind.Plain (.keyword word)] : Quiet (acceptWord word) := by
  unfold acceptWord
  infer_instance

instance : Quiet (acceptSign sign) := by unfold acceptSign; infer_instance

instance : Quiet acceptAssign := by unfold acceptAssign; infer_instance

instance : Forward (expect kind text context) := by unfold expect; infer_instance

instance [TokenKind.Plain kind] : Quiet (expect kind text context) := by
  refine quiet_of_tells fun s _ a t ran _ => ?_
  obtain ⟨found, -, rfl⟩ := expect_ok ran
  exact ⟨[], .advanced (found ▸ TokenKind.Plain.quiet), rfl⟩

instance [TokenKind.Plain (.keyword word)] : Quiet (expectWord word context) :=
  inferInstanceAs (Quiet (expect (.keyword word) _ _))

instance : Quiet (expectSign sign context) := inferInstanceAs (Quiet (expect (.sign sign) _ _))

instance : Quiet (expectIdentifier context) := inferInstanceAs (Quiet (expect .identifier _ _))

instance {item : Parse α} [Quiet item] : Quiet (afterCommas item fuel) := by
  induction fuel with
  | zero => unfold afterCommas; infer_instance
  | succ fuel ih => unfold afterCommas; infer_instance

instance {item : Parse α} [Quiet item] : Quiet (commaSeparated item) := by
  unfold commaSeparated
  infer_instance

instance [TokenKind.Plain (.keyword word)] : Quiet (expectTerminator word context start) := by
  have reports (place : Position) (error : SyntaxError) : Still (modify fun s : Reader =>
      { s with errors := s.errors.push (error.diagnostic place) }) := ⟨fun _ => ⟨rfl, rfl⟩⟩
  have onward (place : Position) (error : SyntaxError) : Forward (modify fun s : Reader =>
      { s with errors := s.errors.push (error.diagnostic place) }) :=
    forward_modify fun s => ⟨List.suffix_rfl, rfl, [(place, error)], Array.toList_push⟩
  unfold expectTerminator
  infer_instance

end Tokens

section Expressions

theorem leads_of_operator {kind : TokenKind} (found : operator? kind = some op) :
    kind.leads = false := by
  unfold operator? at found
  split at found <;> first | rfl | cases found

instance {operand : Parse Expr} [Quiet operand] :
    Quiet (chain line rank operand fuel left) := by
  induction fuel generalizing left with
  | zero => unfold chain; infer_instance
  | succ fuel ih =>
    refine quiet_of_tells ?_
    unfold chain
    refine tells_current fun token => ?_
    split
    · exact Quiet.tells.at
    next op opRank found =>
      split
      · exact .still fun _ => .skip (leads_of_operator found) Quiet.tells
      · exact Quiet.tells.at

instance {operand : Parse Expr} [Quiet operand] :
    Quiet (ranked line operand rank) := by
  induction rank with
  | zero => unfold ranked; infer_instance
  | succ rank ih => unfold ranked; infer_instance

instance : Quiet (close closer opened) := by
  refine quiet_of_tells ?_
  unfold close
  refine tells_current fun token => ?_
  split
  next found => exact quietAt_skip (found.1 ▸ rfl)
  · exact Quiet.tells.at

instance {item : Parse Expr} [Quiet item] : Quiet (indexGroups line item fuel) := by
  induction fuel with
  | zero => unfold indexGroups; infer_instance
  | succ fuel ih =>
    refine quiet_of_tells ?_
    unfold indexGroups
    refine tells_current fun token => ?_
    split
    next found => exact .skip (found.1 ▸ rfl) Quiet.tells
    · exact Quiet.tells.at

theorem argumentList_quiet {item : Parse Expr} [Quiet item] {token : Token}
    (opened : token.kind = .sign .openParen) : QuietAt token (argumentList item) := by
  unfold argumentList
  exact .take (opened ▸ rfl) Quiet.tells

theorem leads_of_literal {kind : TokenKind} (found : literal? kind = some value) :
    kind.leads = false := by
  unfold literal? at found
  split at found <;> first | rfl | cases found

instance {inner : Parse Expr} [Quiet inner] : Quiet (primary line inner enclosed) := by
  refine quiet_of_tells ?_
  unfold primary
  refine tells_current fun token => ?_
  split
  · exact Quiet.tells.at
  · split
    · intro s _ _ a t ran
      cases ran
    next found => exact .skip (found ▸ rfl) Quiet.tells
    next found =>
      refine .call (found ▸ rfl) (fun opened parenthesis => ?_) (.skip (found ▸ rfl) ?_)
      · refine (argumentList_quiet parenthesis).bind fun arguments visits none => ?_
        rw [none]
        exact Quiet.tells
      · refine (quiet_bind fun left => quiet_bind fun indices => ?_).tells
        split <;> infer_instance
    next =>
      split
      next found => exact .skip (leads_of_literal found) Quiet.tells
      next => split <;> exact Quiet.tells.at

instance : Quiet (operand line room enclosed) := by
  induction room generalizing enclosed with
  | zero => unfold operand; infer_instance
  | succ room ih =>
    refine quiet_of_tells ?_
    unfold operand
    refine tells_current fun token => ?_
    split
    next found => exact .skip (found.1 ▸ rfl) Quiet.tells
    · split
      next found => exact .skip (found.1 ▸ rfl) Quiet.tells
      · exact Quiet.tells.at

instance : Quiet (enclosedExpression room line) := by unfold enclosedExpression; infer_instance

instance : Quiet (expression room) := by
  have resets : Forward (modify fun s : Reader => { s with operators := 0 }) :=
    forward_modify fun s => .of_rest List.suffix_rfl rfl rfl
  unfold expression
  infer_instance

end Expressions

section Parts

instance : Quiet (typeName context) := by
  refine quiet_of_tells ?_
  unfold typeName
  refine tells_current fun token => ?_
  split
  next found => exact .take (found ▸ rfl) Quiet.tells
  next found => exact .take (found ▸ rfl) Quiet.tells
  next => exact Quiet.tells.at

instance : Quiet boundLiteral := by
  refine quiet_of_tells ?_
  unfold boundLiteral
  refine tells_after (fun negative => forward_bind fun token => ?_) fun negative =>
    tells_current fun token => ?_
  · split <;> infer_instance
  · split
    next found => exact .skip (found ▸ rfl) Quiet.tells
    next => exact Quiet.tells.at

instance : Quiet bound := by unfold bound; infer_instance

instance : Quiet arrayBounds := by unfold arrayBounds; infer_instance

instance : Quiet (target room) := by
  unfold target
  refine quiet_bind fun before => quiet_bind fun name => quiet_bind fun left =>
    quiet_bind fun indices => ?_
  split <;> infer_instance

instance : Quiet (moreValues room line fuel) := by
  induction fuel with
  | zero => unfold moreValues; infer_instance
  | succ fuel ih =>
    refine quiet_of_tells ?_
    unfold moreValues
    refine tells_current fun token => ?_
    split
    next found => exact .skip (found.1 ▸ rfl) Quiet.tells
    next => exact Quiet.tells.at

instance : Quiet (forStep room) := by unfold forStep; infer_instance

instance : Quiet (forHeader room) := by
  unfold forHeader
  dsimp only
  infer_instance

/-- Whatever is behind NEXT, only a name is read there. -/
instance : Quiet (checkNextName counter) := by
  refine quiet_of_tells ?_
  unfold checkNextName
  refine tells_current fun token => .still fun before => ?_
  dsimp only
  split
  next found =>
    refine .skip (found.1 ▸ rfl) ?_
    split
    · exact Quiet.tells
    · split <;> exact Quiet.tells
  next => exact Quiet.tells.at

instance : Quiet (caseHeader room) := by unfold caseHeader; infer_instance

instance : Quiet (caseLabel room) := by
  have resets : Forward (modify fun s : Reader => { s with operators := 0 }) :=
    forward_modify fun s => .of_rest List.suffix_rfl rfl rfl
  unfold caseLabel
  dsimp only
  infer_instance

instance : Quiet (passMode mode) := by unfold passMode; infer_instance

instance : Quiet (parameterType name) := by
  unfold parameterType
  refine quiet_bind fun isArray => ?_
  dsimp only
  split <;> infer_instance

instance : Quiet (parameters mode fuel) := by
  induction fuel generalizing mode with
  | zero => unfold parameters; infer_instance
  | succ fuel ih =>
    unfold parameters
    infer_instance

instance : Quiet (parameterList routine) := by
  unfold parameterList
  refine quiet_bind fun opened => ?_
  dsimp only
  split
  · refine quiet_bind fun empty => ?_
    split <;> infer_instance
  · infer_instance

instance : Quiet (resultType kind name) := by cases kind <;> (unfold resultType; infer_instance)

instance : Quiet (routineHeader kind) := by unfold routineHeader; infer_instance

end Parts

end Parse

end Pseudocode
