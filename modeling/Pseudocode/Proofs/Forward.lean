import Pseudocode.Program.Statement
import Pseudocode.Proofs.Ends

/-! Reading goes forward. Whatever a production does, it takes tokens from the front only, drops no
error and adds none but those of syntax, and gives up without a report only in front of a token that the
scanner has reported. -/
namespace Pseudocode

def TokenKind.isInvalid : TokenKind → Bool
  | .invalid _ => true
  | _ => false

namespace Reader

/-- No token that is still to come is invalid. -/
def Legible (s : Reader) : Prop :=
  s.finish.kind.isInvalid = false ∧ ∀ t ∈ s.rest, t.kind.isInvalid = false

/-- A later state of the same reading. -/
structure Onward (s t : Reader) : Prop where
  rest : t.rest <:+ s.rest
  finish : t.finish = s.finish
  added : ∃ found : List (Position × SyntaxError),
    t.errors.toList = s.errors.toList ++ found.map fun e => e.2.diagnostic e.1

variable {s t u : Reader}

theorem Onward.errors (onward : s.Onward t) : s.errors.toList <+: t.errors.toList :=
  let ⟨_, same⟩ := onward.added
  ⟨_, same.symm⟩

/-- Only tokens are taken. -/
theorem Onward.of_rest (rest : t.rest <:+ s.rest) (finish : t.finish = s.finish)
    (same : t.errors = s.errors) : s.Onward t :=
  ⟨rest, finish, [], by simp [same]⟩

theorem Onward.refl (s : Reader) : s.Onward s := .of_rest List.suffix_rfl rfl rfl

theorem Onward.trans (first : s.Onward t) (second : t.Onward u) : s.Onward u := by
  obtain ⟨found, same⟩ := first.added
  obtain ⟨more, same'⟩ := second.added
  refine ⟨second.rest.trans first.rest, second.finish.trans first.finish, found ++ more, ?_⟩
  rw [same', same, List.map_append, List.append_assoc]

theorem Onward.legible (onward : s.Onward t) (legible : s.Legible) : t.Legible :=
  ⟨onward.finish ▸ legible.1, fun token member => legible.2 token (onward.rest.mem member)⟩

theorem Onward.clean (onward : s.Onward t) (clean : t.errors = #[]) : s.errors = #[] := by
  have none : s.errors.toList <+: [] := by simpa [clean] using onward.errors
  exact Array.toList_eq_nil_iff.mp (List.prefix_nil.mp none)

/-- The token that is next. -/
def current (s : Reader) : Token := s.rest.head?.getD s.finish

/-- The state behind the next token. -/
def advanced (s : Reader) : Reader := { s with rest := s.rest.tail, previous := some s.current }

/-- The state with one more operator counted. -/
def counted (s : Reader) : Reader := { s with operators := s.operators + 1 }

end Reader

namespace Parse

theorem tryCatch_of_ok {m : Parse α} {handle : SyntaxFault → Parse α} {s t : Reader}
    (ran : m s = .ok a t) : (tryCatch m handle : Parse α) s = .ok a t := by
  show EStateM.tryCatch m handle s = _
  unfold EStateM.tryCatch
  rw [ran]

theorem tryCatch_of_error {m : Parse α} {handle : SyntaxFault → Parse α} {s t : Reader}
    (failed : m s = .error e t) : (tryCatch m handle : Parse α) s = handle e t := by
  show EStateM.tryCatch m handle s = _
  unfold EStateM.tryCatch
  rw [failed]
  rfl

section Steps

theorem current_bind (next : Token → Parse α) (s : Reader) :
    (current >>= next) s = next s.current s := rfl

theorem advance_bind (next : Token → Parse α) (s : Reader) :
    (advance >>= next) s = next s.current s.advanced := rfl

theorem skip_bind (next : PUnit → Parse α) (s : Reader) :
    (discard advance >>= next) s = next ⟨⟩ s.advanced := rfl

theorem accept_apply (kind : TokenKind) (s : Reader) :
    accept kind s = if s.current.kind == kind then .ok true s.advanced else .ok false s := by
  show (if s.current.kind == kind then _ else _ : Parse Bool) s = _
  split <;> rfl

theorem failExpected_fails (text context : String) (s : Reader) :
    Ends (failExpected text context : Parse α) s (fun _ _ => False) (fun _ _ => True) := by
  unfold failExpected current
  simp only [ends_bind, ends_get, ends_pure]
  split <;> trivial

/-- What the productions that expect a token of one kind have in common. -/
def expect (kind : TokenKind) (text context : String) : Parse Token := do
  if ← nextIs kind then advance else failExpected text context

theorem expect_apply (found : s.current.kind = kind) (text context : String) :
    expect kind text context s = .ok s.current s.advanced := by
  show (if s.current.kind == kind then _ else _ : Parse Token) s = _
  rw [found, beq_self_eq_true, if_pos rfl]
  rfl

theorem expect_ok (ran : expect kind text context s = .ok a t) :
    s.current.kind = kind ∧ a = s.current ∧ t = s.advanced := by
  by_cases found : s.current.kind = kind
  · rw [expect_apply found] at ran
    cases ran
    exact ⟨found, rfl, rfl⟩
  · have failed : expect kind text context s = failExpected text context s := by
      show (if s.current.kind == kind then _ else _ : Parse Token) s = _
      rw [if_neg (by simpa using found)]
    exact ((failExpected_fails text context s).of_ok (failed ▸ ran)).elim

/-- An error that is recorded is there afterwards. -/
theorem record_found (place : Position) (error : SyntaxError) (s : Reader) :
    ∃ t, record (.found place error) s = .ok ⟨⟩ t ∧ error.diagnostic place ∈ t.errors := by
  refine ⟨_, rfl, ?_⟩
  show _ ∈ (if _ then _ else _ : Reader).errors
  split
  next known => exact Array.contains_iff_mem.mp known
  next => exact Array.mem_push_self

theorem countOperator_apply (token : Token) (s : Reader) :
    countOperator token s = if s.operators + 1 > SyntaxError.maxOperators then
      .error (.found token.position .tooManyOperators) s.counted else .ok () s.counted := by
  show (if _ then _ else _ : Parse Unit) s.counted = _
  split <;> rfl

end Steps

/-- The production goes forward from every state. -/
class Forward (m : Parse α) : Prop where
  ends : ∀ s, Ends m s (fun _ t => s.Onward t)
    (fun e t => s.Onward t ∧ (s.Legible → e ≠ .reported))

section Laws

variable {α β : Type} {m : Parse α} {s t : Reader}

theorem Forward.of_ok [Forward m] (ran : m s = .ok a t) : s.Onward t := (Forward.ends s).of_ok ran

theorem Forward.of_error [Forward m] (failed : m s = .error e t) :
    s.Onward t ∧ (s.Legible → e ≠ .reported) := (Forward.ends s).of_error failed

instance : Forward (pure a : Parse α) := ⟨fun s => .refl s⟩

instance : Forward (throw (.found place error) : Parse α) := ⟨fun s => ⟨.refl s, nofun⟩⟩

instance : Forward (get : Parse Reader) := ⟨fun s => .refl s⟩

theorem forward_bind {next : α → Parse β} [Forward m] (rest : ∀ a, Forward (next a)) :
    Forward (m >>= next) := by
  refine ⟨fun s => ?_⟩
  rw [ends_bind]
  refine (Forward.ends s).mono (fun a t first => ?_) fun e t failed => failed
  exact ((rest a).ends t).mono (fun _ _ second => first.trans second) fun _ _ ⟨second, loud⟩ =>
    ⟨first.trans second, fun legible => loud (first.legible legible)⟩

instance {next : α → Parse β} [Forward m] [∀ a, Forward (next a)] : Forward (m >>= next) :=
  forward_bind inferInstance

instance {f : α → β} [Forward m] : Forward (f <$> m) :=
  ⟨fun s => (ends_map f).mpr (Forward.ends s)⟩

instance [Forward m] : Forward (discard m) := ⟨fun s => ends_discard.mpr (Forward.ends s)⟩

instance [Decidable c] {n : Parse α} [Forward m] [Forward n] : Forward (if c then m else n) := by
  split <;> infer_instance

theorem forward_modify {f : Reader → Reader} (onward : ∀ s : Reader, s.Onward (f s)) :
    Forward (modify f : Parse PUnit) := ⟨onward⟩

instance {handle : SyntaxFault → Parse α} [Forward m] [rest : ∀ e, Forward (handle e)] :
    Forward (tryCatch m handle) := by
  refine ⟨fun s => ?_⟩
  show Ends (EStateM.tryCatch m handle) s _ _
  unfold Ends EStateM.tryCatch
  cases ran : m s with
  | ok a t => exact Forward.of_ok ran
  | error e t =>
    have first := (Forward.of_error ran).1
    exact ((rest e).ends t).mono (fun _ _ second => first.trans second) fun _ _ ⟨second, loud⟩ =>
      ⟨first.trans second, fun legible => loud (first.legible legible)⟩

end Laws

instance : Forward current := by unfold current; infer_instance

instance : Forward following := by unfold following; infer_instance

instance : Forward previous := by unfold previous; infer_instance

instance : Forward remaining := by unfold remaining; infer_instance

instance : Forward atEnd := by unfold atEnd; infer_instance

instance : Forward (fail place error : Parse α) := by unfold fail; infer_instance

instance : Forward advance := by
  have takes (token : Token) : Forward
      (modify fun s : Reader => { s with rest := s.rest.tail, previous := some token }) :=
    forward_modify fun s => .of_rest (List.tail_suffix _) rfl rfl
  unfold advance
  infer_instance

/-- Giving up without a report, in front of a token that is invalid. -/
theorem forward_current {next : Token → Parse α}
    (rest : ∀ t, Forward (next t) ∨ t.kind.isInvalid = true ∧ next t = throw .reported) :
    Forward (current >>= next) := by
  refine ⟨fun s => ?_⟩
  show Ends (next (s.rest.head?.getD s.finish)) s _ _
  obtain forward | ⟨invalid, same⟩ := rest (s.rest.head?.getD s.finish)
  · exact forward.ends s
  · rw [same, ends_throw]
    refine ⟨.refl s, fun legible => absurd invalid (Bool.eq_false_iff.mp ?_)⟩
    cases left : s.rest with
    | nil => exact legible.1
    | cons t r => exact legible.2 t (by simp [left])

instance : Forward (failExpected text context : Parse α) := by
  unfold failExpected
  refine forward_current fun token => ?_
  split
  next invalid => exact .inr ⟨by rw [invalid]; rfl, rfl⟩
  next => exact .inl inferInstance

instance : Forward (nextIs kind) := by unfold nextIs; infer_instance

instance : Forward (accept kind) := by unfold accept; infer_instance

instance : Forward (acceptWord word) := by unfold acceptWord; infer_instance

instance : Forward (acceptSign sign) := by unfold acceptSign; infer_instance

instance : Forward acceptAssign := by unfold acceptAssign; infer_instance

instance : Forward (expectWord word context) := by unfold expectWord; infer_instance

instance : Forward (expectSign sign context) := by unfold expectSign; infer_instance

instance : Forward (expectIdentifier context) := by unfold expectIdentifier; infer_instance

instance {item : Parse α} [Forward item] : Forward (afterCommas item fuel) := by
  induction fuel with
  | zero => unfold afterCommas; infer_instance
  | succ fuel ih => unfold afterCommas; infer_instance

instance {item : Parse α} [Forward item] : Forward (commaSeparated item) := by
  unfold commaSeparated
  infer_instance

instance : Forward (record fault) := by
  unfold record
  split
  · infer_instance
  · refine forward_modify fun s => ?_
    dsimp only
    split
    · exact .refl s
    · exact ⟨List.suffix_rfl, rfl, [(_, _)], Array.toList_push⟩

instance : Forward synchronize := by
  have skips (line : Nat) : Forward (modify fun s : Reader =>
      let skip (token : Token) : Bool := token.line ≤ line && !isBoundary token
      { s with
        rest := s.rest.dropWhile skip
        previous := (s.rest.takeWhile skip).getLast?.or s.previous }) :=
    forward_modify fun s => .of_rest (List.dropWhile_suffix _) rfl rfl
  unfold synchronize
  infer_instance

/-- Goes on after a header that could not be read. -/
def headerMissing (fault : SyntaxFault) : Parse (Option α) := do
  record fault
  synchronize
  return none

theorem header_eq (production : Parse α) :
    header production = tryCatch (some <$> production) headerMissing := by
  funext s
  unfold header headerMissing
  simp only [bind, tryCatch, tryCatchThe, MonadExceptOf.tryCatch, Functor.map]
  unfold EStateM.tryCatch
  simp only [EStateM.bind, EStateM.map]
  cases production s with
  | ok a t => rfl
  | error e t =>
    dsimp only
    cases record e _ with
    | error e u => rfl
    | ok a u =>
      dsimp only
      cases synchronize u <;> rfl

/-- Goes on after an item that could not be read, in front of which `before` tokens were left. -/
def itemMissing (before : Nat) (instead : α) (fault : SyntaxFault) : Parse α := do
  record fault
  let left ← remaining
  if left = before then discard advance else pure ()
  synchronize
  return instead

theorem orSkip_eq (production : Parse α) (instead : α) :
    orSkip production instead =
      remaining >>= fun before => tryCatch production (itemMissing before instead) := by
  funext s
  unfold orSkip itemMissing
  simp only [bind, tryCatch, tryCatchThe, MonadExceptOf.tryCatch]
  unfold EStateM.tryCatch
  simp only [EStateM.bind]
  cases remaining s with
  | error e t => rfl
  | ok before s =>
    dsimp only
    cases production s with
    | ok a t => rfl
    | error e t =>
      dsimp only
      cases record e _ with
      | error e u => rfl
      | ok a u =>
        dsimp only
        cases remaining u with
        | error e u => rfl
        | ok left u =>
          dsimp only
          by_cases same : left = before
          · simp only [if_pos same, EStateM.bind]
            cases (discard advance : Parse Unit) u with
            | error e v => rfl
            | ok a v =>
              dsimp only
              cases synchronize v <;> rfl
          · simp only [if_neg same, EStateM.bind]
            cases synchronize u <;> rfl

instance : Forward (headerMissing fault : Parse (Option α)) := by
  unfold headerMissing
  infer_instance

instance {production : Parse α} [Forward production] : Forward (header production) := by
  rw [header_eq]
  infer_instance

instance : Forward (itemMissing before instead fault : Parse α) := by
  unfold itemMissing
  infer_instance

instance {production : Parse α} [Forward production] : Forward (orSkip production instead) := by
  rw [orSkip_eq]
  infer_instance

instance : Forward (expectTerminator word context start) := by
  have reports (place : Position) (error : SyntaxError) : Forward (modify fun s : Reader =>
      { s with errors := s.errors.push (error.diagnostic place) }) :=
    forward_modify fun s => ⟨List.suffix_rfl, rfl, [(place, error)], Array.toList_push⟩
  unfold expectTerminator
  infer_instance

instance : Forward (countOperator token) := by
  have counts : Forward (modify fun s : Reader => { s with operators := s.operators + 1 }) :=
    forward_modify fun s => .of_rest List.suffix_rfl rfl rfl
  unfold countOperator
  infer_instance

instance {operand : Parse Expr} [Forward operand] : Forward (chain line rank operand fuel left) := by
  induction fuel generalizing left with
  | zero => unfold chain; infer_instance
  | succ fuel ih =>
    unfold chain
    refine forward_bind fun token => ?_
    split <;> infer_instance

instance {operand : Parse Expr} [Forward operand] : Forward (ranked line operand rank) := by
  induction rank with
  | zero => unfold ranked; infer_instance
  | succ rank ih => unfold ranked; infer_instance

instance : Forward (close closer opened) := by unfold close; infer_instance

instance {item : Parse Expr} [Forward item] : Forward (indexGroups line item fuel) := by
  induction fuel with
  | zero => unfold indexGroups; infer_instance
  | succ fuel ih => unfold indexGroups; infer_instance

instance {item : Parse Expr} [Forward item] : Forward (argumentList item) := by
  unfold argumentList
  infer_instance

instance : Forward startsCall := by unfold startsCall; infer_instance

instance {inner : Parse Expr} [Forward inner] : Forward (primary line inner enclosed) := by
  unfold primary
  refine forward_current fun token => ?_
  split
  · exact .inl inferInstance
  · split
    next invalid => exact .inr ⟨by rw [invalid]; rfl, rfl⟩
    next => exact .inl inferInstance
    next =>
      refine .inl (forward_bind fun calls => ?_)
      split
      · infer_instance
      · refine forward_bind fun _ => forward_bind fun left => forward_bind fun indices => ?_
        split <;> infer_instance
    next =>
      refine .inl ?_
      split <;> infer_instance

instance : Forward (operand line room enclosed) := by
  induction room generalizing enclosed with
  | zero => unfold operand; infer_instance
  | succ room ih => unfold operand; infer_instance

instance : Forward (enclosedExpression room line) := by unfold enclosedExpression; infer_instance

instance : Forward (expression room) := by
  have resets : Forward (modify fun s : Reader => { s with operators := 0 }) :=
    forward_modify fun s => .of_rest List.suffix_rfl rfl rfl
  unfold expression
  infer_instance

instance {one : Parse (List Stmt)} [Forward one] : Forward (statements one closers fuel) := by
  induction fuel with
  | zero => unfold statements; infer_instance
  | succ fuel ih =>
    unfold statements
    refine forward_bind fun token => forward_bind fun ended => ?_
    split
    · infer_instance
    · split <;> infer_instance

instance : Forward (typeName context) := by
  unfold typeName
  refine forward_bind fun token => ?_
  split <;> infer_instance

instance : Forward boundLiteral := by
  unfold boundLiteral
  refine forward_bind fun negative => forward_bind fun token => ?_
  split <;> infer_instance

instance : Forward bound := by unfold bound; infer_instance

instance : Forward arrayBounds := by unfold arrayBounds; infer_instance

instance : Forward (declaration start) := by
  unfold declaration
  exact forward_bind fun first => forward_bind fun left => forward_bind fun others => inferInstance

instance : Forward (constantDeclaration room start) := by unfold constantDeclaration; infer_instance

instance : Forward (target room) := by
  unfold target
  refine forward_bind fun before => forward_bind fun name => forward_bind fun left =>
    forward_bind fun indices => ?_
  split <;> infer_instance

instance : Forward (setStatement room start) := by unfold setStatement; infer_instance

instance : Forward (moreValues room line fuel) := by
  induction fuel with
  | zero => unfold moreValues; infer_instance
  | succ fuel ih => unfold moreValues; infer_instance

instance : Forward (outputStatement room start) := by unfold outputStatement; infer_instance

instance : Forward (assignmentOrCall room) := by unfold assignmentOrCall; infer_instance

instance : Forward (callStatement room start) := by unfold callStatement; infer_instance

instance : Forward (returnStatement room start) := by unfold returnStatement; infer_instance

section Blocks

variable {statement : Nest → Parse (List Stmt)} [∀ nest, Forward (statement nest)]

instance : Forward (block statement nest closers) := by unfold block; infer_instance

instance : Forward (ifStatement statement nest start) := by unfold ifStatement; infer_instance

instance : Forward (whileStatement statement nest start) := by unfold whileStatement; infer_instance

instance : Forward (repeatStatement statement nest start) := by
  unfold repeatStatement
  infer_instance

instance : Forward (forStep room) := by unfold forStep; infer_instance

instance : Forward (forHeader room) := by
  unfold forHeader
  dsimp only
  infer_instance

instance : Forward (checkNextName counter) := by
  unfold checkNextName
  refine forward_bind fun name => forward_bind fun before => ?_
  dsimp only
  split
  · refine forward_bind fun _ => ?_
    split <;> infer_instance
  · infer_instance

instance : Forward (forStatement statement nest start) := by
  unfold forStatement
  dsimp only
  infer_instance

instance : Forward (caseHeader room) := by unfold caseHeader; infer_instance

instance : Forward (caseLabel room) := by
  have resets : Forward (modify fun s : Reader => { s with operators := 0 }) :=
    forward_modify fun s => .of_rest List.suffix_rfl rfl rfl
  unfold caseLabel
  dsimp only
  infer_instance

instance : Forward startsLabel := by
  unfold startsLabel
  refine forward_bind fun token => forward_bind fun next => ?_
  split <;> infer_instance

instance {one : Parse (List Stmt)} [Forward one] : Forward (branchBody one fuel) := by
  induction fuel with
  | zero => unfold branchBody; infer_instance
  | succ fuel ih => unfold branchBody; infer_instance

instance : Forward (caseBranch statement nest) := by
  unfold caseBranch
  infer_instance

instance : Forward (caseBranches statement nest fuel) := by
  induction fuel with
  | zero => unfold caseBranches; infer_instance
  | succ fuel ih =>
    unfold caseBranches
    refine forward_bind fun token => forward_bind fun ended => ?_
    split
    · infer_instance
    · split <;> infer_instance

instance : Forward (caseStatement statement nest start) := by
  unfold caseStatement
  dsimp only
  infer_instance

instance : Forward (passMode mode) := by unfold passMode; infer_instance

instance : Forward (parameterType name) := by
  unfold parameterType
  refine forward_bind fun isArray => ?_
  dsimp only
  split <;> infer_instance

instance : Forward (parameters mode fuel) := by
  induction fuel generalizing mode with
  | zero => unfold parameters; infer_instance
  | succ fuel ih =>
    unfold parameters
    refine forward_bind fun mode => forward_bind fun name => forward_bind fun _ =>
      forward_bind fun type => ?_
    infer_instance

instance : Forward (parameterList routine) := by
  unfold parameterList
  dsimp only
  infer_instance

instance : Forward (resultType kind name) := by cases kind <;> (unfold resultType; infer_instance)

instance : Forward (routineHeader kind) := by unfold routineHeader; infer_instance

instance : Forward (routineDeclaration statement nest start kind) := by
  unfold routineDeclaration
  dsimp only
  infer_instance

end Blocks

instance : Forward (statement fuel nest) := by
  induction fuel generalizing nest with
  | zero => unfold statement; infer_instance
  | succ fuel ih =>
    unfold statement
    refine forward_current fun start => ?_
    dsimp only
    split
    case h_17 invalid => exact .inr ⟨by rw [invalid]; rfl, rfl⟩
    all_goals exact .inl inferInstance

instance : Forward program := by unfold program; infer_instance

end Parse

end Pseudocode
