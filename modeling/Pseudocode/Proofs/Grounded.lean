import Pseudocode.Proofs.Forward

/-! What reading takes from the tokens. If something holds of the place of every token and of the place
behind it, and of every integer, text or name that a token writes, then it holds of every place, every
literal and every name of a call in the tree that is read, and of the place of every error. `Grounds` says
so of one production. -/
namespace Pseudocode

theorem forall_mem_none (good : α → Prop) : ∀ a ∈ (none : Option α), good a :=
  fun a absent => absurd absent (Option.not_mem_none a)

/-- What is asked of the places in a tree, of the integers and texts written in it and of the names that are
called. A minus sign in front of an integer makes no difference. -/
structure Ground where
  place : Position → Prop
  integer : Int → Prop
  neg : ∀ {n}, integer n → integer (-n)
  text : String → Prop := fun _ => True
  callee : String → Prop := fun _ => True

variable (G : Ground)

def Literal.Grounded : Literal → Prop
  | .integer n => G.integer n
  | .string text | .char text => G.text text
  | _ => True

inductive Expr.Grounded : Expr → Prop
  | literal : G.place place → value.Grounded G → Grounded (.literal place value)
  | name : G.place place → Grounded (.name place word)
  | element : G.place place → (∀ e ∈ indices, Grounded e) → Grounded (.element place array indices)
  | binary : G.place place → Grounded left → Grounded right → Grounded (.binary place op left right)
  | unary : G.place place → Grounded operand → Grounded (.unary place op operand)
  | call : G.place place → G.callee callee → (∀ e ∈ arguments, Grounded e) →
      Grounded (.call place callee arguments)
  | range : G.place place → Grounded low → Grounded high → Grounded (.range place low high)
  | stray : G.place place → Grounded (.stray place node)

inductive Target.Grounded : Target → Prop
  | variable : G.place place → Grounded (.variable place name)
  | element : G.place place → (∀ e ∈ indices, e.Grounded G) → Grounded (.element place array indices)
  | stray : G.place place → Grounded (.stray place node)

/-- The line is that of some place. -/
def Ground.Line (line : Nat) : Prop := ∃ p, G.place p ∧ p.line = line

inductive Stmt.Grounded : Stmt → Prop
  | declare : G.place place → Grounded (.declare place name typeName)
  | declareArray : G.place place → Grounded (.declareArray place name bounds elementType)
  | constant : G.place place → (∀ e ∈ value, e.Grounded G) → Grounded (.constant place name value)
  | assign : G.place place → target.Grounded G → value.Grounded G →
      Grounded (.assign place target value)
  | ifThen : G.place place → (∀ e ∈ condition, e.Grounded G) → (∀ s ∈ thenBranch, Grounded s) →
      (∀ block ∈ elseBranch, ∀ s ∈ block, Grounded s) →
      Grounded (.ifThen place condition thenBranch elseBranch)
  | whileDo : G.place place → (∀ e ∈ condition, e.Grounded G) → (∀ s ∈ body, Grounded s) →
      Grounded (.whileDo place condition body)
  | repeatUntil : G.place place → (∀ s ∈ body, Grounded s) → (∀ e ∈ condition, e.Grounded G) →
      Grounded (.repeatUntil place body condition)
  | forLoop : G.place place → (∀ e ∈ start, e.Grounded G) → (∀ e ∈ stop, e.Grounded G) →
      (∀ e ∈ step, e.Grounded G) → (∀ s ∈ body, Grounded s) →
      Grounded (.forLoop place counter start stop step body)
  | caseOf : G.place place → (∀ e ∈ selector, e.Grounded G) → (∀ b ∈ branches, G.Line b.line) →
      (∀ b ∈ branches, ∀ e ∈ b.labels, e.Grounded G) → (∀ b ∈ branches, ∀ s ∈ b.body, Grounded s) →
      (∀ block ∈ otherwise, ∀ s ∈ block, Grounded s) →
      Grounded (.caseOf place selector branches otherwise)
  | routine : G.place r.position → (∀ s ∈ r.body, Grounded s) → Grounded (.routine r)
  | giveBack : G.place place → (∀ e ∈ value, e.Grounded G) → Grounded (.giveBack place value)
  | call : G.place place → G.place callPlace → G.callee callee → (∀ e ∈ arguments, e.Grounded G) →
      Grounded (.call place callPlace callee arguments)
  | strayCall : G.place place → Grounded (.strayCall place node)
  | output : G.place place → (∀ e ∈ values, e.Grounded G) → Grounded (.output place values)
  | input : G.place place → target.Grounded G → Grounded (.input place target)
  | stray : G.place place → Grounded (.stray place node)

/-- A block of grounded statements. -/
abbrev BlockGrounded (block : List Stmt) : Prop := ∀ s ∈ block, s.Grounded G

structure Branch.Grounded (b : Branch Stmt) : Prop where
  line : G.Line b.line
  labels : ∀ e ∈ b.labels, e.Grounded G
  body : BlockGrounded G b.body

variable {G}

theorem Expr.Grounded.place {e : Expr} (grounded : e.Grounded G) : G.place e.position := by
  cases grounded <;> assumption

theorem Stmt.Grounded.place {s : Stmt} (grounded : s.Grounded G) : G.place s.position := by
  cases grounded <;> assumption

/-- The main program and the body of every routine. -/
structure Program.Grounded (G : Ground) (p : Program) : Prop where
  body : BlockGrounded G p.body
  routines : ∀ r ∈ p.routines, G.place r.position ∧ BlockGrounded G r.body

theorem Program.grounded {p : Program} (body : BlockGrounded G p.body) : p.Grounded G := by
  refine ⟨body, fun r member => ?_⟩
  obtain ⟨s, stated, same⟩ := List.mem_filterMap.mp member
  cases s with
  | routine q =>
    cases same
    cases body _ stated with
    | routine place inner => exact ⟨place, inner⟩
  | _ => cases same

variable (G)

structure Token.Grounded (t : Token) : Prop where
  position : G.place t.position
  ending : G.place t.ending
  integer : ∀ n, t.kind = .integer n → G.integer n
  text : ∀ s, t.kind = .string s ∨ t.kind = .char s → G.text s
  lexeme : G.callee t.lexeme

def SyntaxFault.Grounded : SyntaxFault → Prop
  | .reported => True
  | .found place _ => G.place place

/-- A reading of grounded tokens, with errors at grounded places. -/
structure Reader.Grounded (s : Reader) : Prop where
  rest : ∀ t ∈ s.rest, t.Grounded G
  finish : s.finish.Grounded G
  previous : ∀ t ∈ s.previous, t.Grounded G
  errors : ∀ d ∈ s.errors, ∃ (p : Position) (e : SyntaxError), G.place p ∧ d = e.diagnostic p

section Reader

variable {G} {s : Reader}

theorem Reader.Grounded.current (grounded : s.Grounded G) : s.current.Grounded G := by
  unfold Reader.current
  cases left : s.rest with
  | nil => exact grounded.finish
  | cons t rest => exact grounded.rest t (left ▸ .head rest)

theorem Reader.Grounded.push (grounded : s.Grounded G) {place : Position}
    (known : G.place place) (error : SyntaxError) :
    ({ s with errors := s.errors.push (error.diagnostic place) } : Reader).Grounded G := by
  refine ⟨grounded.rest, grounded.finish, grounded.previous, fun d member => ?_⟩
  rcases Array.mem_push.mp member with old | rfl
  · exact grounded.errors d old
  · exact ⟨place, error, known, rfl⟩

end Reader

namespace Parse

/-- The production keeps the reading grounded, fails at grounded places only, and returns what is as
described. -/
def Grounds (m : Parse α) (good : α → Prop) : Prop :=
  ∀ s, s.Grounded G → Ends m s (fun a t => t.Grounded G ∧ good a) (fun e t => t.Grounded G ∧ e.Grounded G)

/-- Nothing is said of what the production returns. -/
class Steady (m : Parse α) : Prop where
  grounds : Grounds G m fun _ => True

variable {G}

section Laws

variable {α β : Type} {m : Parse α} {good : α → Prop} {goodNext : β → Prop}

theorem grounds_pure (known : good a) : Grounds G (pure a) good := by
  intro s grounded
  exact ⟨grounded, known⟩

theorem grounds_fail {place : Position} (known : G.place place) (error : SyntaxError) :
    Grounds G (fail place error) good := by
  intro s grounded
  exact ⟨grounded, known⟩

theorem grounds_reported : Grounds G (throw .reported) good := by
  intro s grounded
  exact ⟨grounded, trivial⟩

theorem Grounds.bind {next : α → Parse β} (first : Grounds G m good)
    (rest : ∀ a, good a → Grounds G (next a) goodNext) : Grounds G (m >>= next) goodNext := by
  intro s grounded
  rw [ends_bind]
  exact (first s grounded).mono (fun a t ⟨still, known⟩ => rest a known t still) fun _ _ failed => failed

/-- A production of which nothing has to be known comes first. -/
theorem Grounds.after [steady : Steady G m] {next : α → Parse β} (rest : ∀ a, Grounds G (next a) goodNext) :
    Grounds G (m >>= next) goodNext :=
  steady.grounds.bind fun a _ => rest a

theorem Grounds.weaken {weaker : α → Prop} (first : Grounds G m good) (weakens : ∀ a, good a → weaker a) :
    Grounds G m weaker :=
  fun s grounded => (first s grounded).mono (fun a _ ⟨still, known⟩ => ⟨still, weakens a known⟩)
    fun _ _ failed => failed

theorem Grounds.steady (first : Grounds G m good) : Steady G m :=
  ⟨first.weaken fun _ _ => trivial⟩

theorem Grounds.map {f : α → β} (first : Grounds G m good) (known : ∀ a, good a → goodNext (f a)) :
    Grounds G (f <$> m) goodNext := by
  intro s grounded
  rw [ends_map]
  exact (first s grounded).mono (fun a _ ⟨still, here⟩ => ⟨still, known a here⟩) fun _ _ failed => failed

theorem grounds_tryCatch {handle : SyntaxFault → Parse α} (first : Grounds G m good)
    (rest : ∀ fault, fault.Grounded G → Grounds G (handle fault) good) :
    Grounds G (tryCatch m handle) good := by
  intro s grounded
  show Ends (EStateM.tryCatch m handle) s _ _
  unfold Ends EStateM.tryCatch
  cases ran : m s with
  | ok a t => exact (first s grounded).of_ok ran
  | error fault t =>
    obtain ⟨still, known⟩ := (first s grounded).of_error ran
    exact rest fault known t still

/-- A change of the state that keeps it grounded. -/
theorem steady_modify {f : Reader → Reader} (keeps : ∀ s : Reader, s.Grounded G → (f s).Grounded G) :
    Steady G (modify f : Parse PUnit) :=
  ⟨fun s grounded => ⟨keeps s grounded, trivial⟩⟩

instance : Steady G (pure a : Parse α) := ⟨grounds_pure trivial⟩

instance {next : α → Parse β} [Steady G m] [rest : ∀ a, Steady G (next a)] : Steady G (m >>= next) :=
  ⟨.after fun a => (rest a).grounds⟩

instance [Steady G m] : Steady G (discard m) :=
  ⟨(Steady.grounds (m := m)).map fun _ _ => trivial⟩

instance [Decidable c] {n : Parse α} [Steady G m] [Steady G n] : Steady G (if c then m else n) := by
  split <;> infer_instance

end Laws

section Steps

theorem current_grounds : Grounds G current (Token.Grounded G) := by
  intro s grounded
  exact ⟨grounded, grounded.current⟩

theorem following_grounds : Grounds G following (Token.Grounded G) := by
  intro s grounded
  refine ⟨grounded, ?_⟩
  cases left : s.rest.tail with
  | nil => exact grounded.finish
  | cons t rest => exact grounded.rest t (List.mem_of_mem_tail (left ▸ .head rest))

theorem advance_grounds : Grounds G advance (Token.Grounded G) := by
  intro s grounded
  have first := grounded.current
  refine ⟨⟨fun t member => grounded.rest t (List.mem_of_mem_tail member), grounded.finish, ?_,
    grounded.errors⟩, first⟩
  rintro t ⟨⟩
  exact first

theorem previous_grounds : Grounds G previous (fun o => ∀ t ∈ o, t.Grounded G) := by
  intro s grounded
  exact ⟨grounded, grounded.previous⟩

/-- The token read last, or the next one where nothing has been read. -/
theorem getD_grounded {last : Option Token} (known : ∀ t ∈ last, t.Grounded G) {token : Token}
    (grounded : token.Grounded G) : (last.getD token).Grounded G := by
  cases last with
  | none => exact grounded
  | some t => exact known t rfl

instance : Steady G current := current_grounds.steady

instance : Steady G following := following_grounds.steady

instance : Steady G advance := advance_grounds.steady

instance : Steady G previous := previous_grounds.steady

instance : Steady G remaining := ⟨fun _ grounded => ⟨grounded, trivial⟩⟩

instance : Steady G atEnd := ⟨fun _ grounded => ⟨grounded, trivial⟩⟩

instance : Steady G (nextIs kind) := by unfold nextIs; infer_instance

instance : Steady G (accept kind) := by unfold accept; infer_instance

instance : Steady G (acceptWord word) := by unfold acceptWord; infer_instance

instance : Steady G (acceptSign sign) := by unfold acceptSign; infer_instance

instance : Steady G acceptAssign := by unfold acceptAssign; infer_instance

theorem failExpected_grounds {good : α → Prop} (text context : String) :
    Grounds G (failExpected text context) good := by
  unfold failExpected
  refine current_grounds.bind fun token grounded => ?_
  split
  · exact grounds_reported
  · exact previous_grounds.bind fun last known => grounds_fail (getD_grounded known grounded).ending _

instance {text context : String} : Steady G (failExpected text context : Parse α) :=
  ⟨failExpected_grounds text context⟩

theorem expect_grounds (kind : TokenKind) (text context : String) :
    Grounds G (expect kind text context) (Token.Grounded G) := by
  unfold expect
  refine .after fun found => ?_
  split
  · exact advance_grounds
  · exact failExpected_grounds _ _

theorem expectWord_grounds (word : Keyword) (context : String) :
    Grounds G (expectWord word context) (Token.Grounded G) := expect_grounds _ _ _

theorem expectSign_grounds (sign : Sign) (context : String) :
    Grounds G (expectSign sign context) (Token.Grounded G) := expect_grounds _ _ _

theorem expectIdentifier_grounds (context : String) :
    Grounds G (expectIdentifier context) (Token.Grounded G) := expect_grounds _ _ _

instance : Steady G (expectWord word context) := (expectWord_grounds word context).steady

instance : Steady G (expectSign sign context) := (expectSign_grounds sign context).steady

theorem record_grounds {fault : SyntaxFault} (known : fault.Grounded G) :
    Grounds G (record fault) fun _ => True := by
  cases fault with
  | reported => exact grounds_pure trivial
  | found place error =>
    refine (steady_modify fun s grounded => ?_).grounds
    dsimp only
    split
    · exact grounded
    · exact grounded.push known error

/-- A fault that is found at a place of the text is recorded there. -/
theorem record_found_grounds (known : G.place place) (error : SyntaxError) :
    Grounds G (record (.found place error)) fun _ => True := record_grounds known

instance : Steady G synchronize := by
  have skips (line : Nat) : Steady G (modify fun s : Reader =>
      let skip (token : Token) : Bool := token.line ≤ line && !isBoundary token
      { s with
        rest := s.rest.dropWhile skip
        previous := (s.rest.takeWhile skip).getLast?.or s.previous } : Parse PUnit) := by
    refine steady_modify fun s grounded => ⟨fun t member => ?_, grounded.finish, fun t member => ?_,
      grounded.errors⟩
    · exact grounded.rest t ((List.dropWhile_suffix _).mem member)
    · rcases Option.or_eq_some_iff.mp member with last | ⟨-, last⟩
      · exact grounded.rest t (List.takeWhile_subset _ (List.mem_of_getLast? last))
      · exact grounded.previous t last
  unfold synchronize
  infer_instance

theorem header_grounds {m : Parse α} {good : α → Prop} (each : Grounds G m good) :
    Grounds G (header m) (fun o => ∀ a ∈ o, good a) := by
  rw [header_eq]
  refine grounds_tryCatch (each.map fun a known b same => ?_) fun fault known => ?_
  · cases same
    exact known
  · unfold headerMissing
    exact (record_grounds known).bind fun _ _ => .after fun _ => grounds_pure (forall_mem_none _)

theorem orSkip_grounds {m : Parse α} {good : α → Prop} (each : Grounds G m good) (known : good instead) :
    Grounds G (orSkip m instead) good := by
  rw [orSkip_eq]
  refine .after fun before => grounds_tryCatch each fun fault at_ => ?_
  unfold itemMissing
  refine (record_grounds at_).bind fun _ _ => .after fun left => ?_
  dsimp only
  split
  · exact .after fun _ => .after fun _ => grounds_pure known
  · exact .after fun _ => grounds_pure known

theorem expectTerminator_grounds (word : Keyword) (context : String) {start : Token}
    (grounded : start.Grounded G) : Steady G (expectTerminator word context start) := by
  have reports {place : Position} (known : G.place place) (error : SyntaxError) : Steady G
      (modify fun s : Reader => { s with errors := s.errors.push (error.diagnostic place) } : Parse PUnit) :=
    steady_modify fun s before => before.push known error
  refine ⟨?_⟩
  unfold expectTerminator
  refine .after fun found => ?_
  dsimp only
  split
  · exact grounds_pure trivial
  · refine previous_grounds.bind fun last known => ?_
    have := reports (getD_grounded known grounded).position (.missingTerminator word context start.line)
    exact .after fun _ => grounds_pure trivial

variable {item : Parse α} {good : α → Prop}

theorem afterCommas_grounds (each : Grounds G item good) (fuel : Nat) :
    Grounds G (afterCommas item fuel) (fun all => ∀ a ∈ all, good a) := by
  induction fuel with
  | zero => exact grounds_pure (List.forall_mem_nil _)
  | succ fuel ih =>
    unfold afterCommas
    refine .after fun more => ?_
    split
    · exact each.bind fun first known => ih.bind fun rest all =>
        grounds_pure (List.forall_mem_cons.mpr ⟨known, all⟩)
    · exact grounds_pure (List.forall_mem_nil _)

theorem commaSeparated_grounds (each : Grounds G item good) :
    Grounds G (commaSeparated item) (fun all => ∀ a ∈ all, good a) := by
  unfold commaSeparated
  exact each.bind fun first known => .after fun fuel => (afterCommas_grounds each fuel).bind
    fun rest all => grounds_pure (List.forall_mem_cons.mpr ⟨known, all⟩)

end Steps

end Parse

end Pseudocode
