import Pseudocode.Proofs.Forward
import Pseudocode.Proofs.Moved

/-! A text that stands in a longer one. It is read by itself and, further down and with more tokens
behind it, as a part of the longer text. As long as the first reading has no errors the second does
the same, unless it runs into the limit on operators: the operators that were counted last above the
text can still count in it. `Agrees` says so of one production in both readings. -/
namespace Pseudocode

def Token.down (lines : Nat) (t : Token) : Token := { t with position := t.position.down lines }

@[simp] theorem Token.kind_down (lines : Nat) (t : Token) : (t.down lines).kind = t.kind := rfl

@[simp] theorem Token.lexeme_down (lines : Nat) (t : Token) : (t.down lines).lexeme = t.lexeme := rfl

@[simp] theorem Token.line_down (lines : Nat) (t : Token) :
    (t.down lines).line = t.line + lines := rfl

@[simp] theorem Token.position_down (lines : Nat) (t : Token) :
    (t.down lines).position = t.position.down lines := rfl

/-- Tokens that can start a statement. -/
def TokenKind.opens : TokenKind → Bool
  | .identifier => true
  | .keyword word => word.startsStatement
  | _ => false

/-- How a text stands in a longer one: the lines above it, its own lines, the tokens below it and the
end of the longer text, and whether operators may have been counted above it. -/
structure Embedding where
  above : Nat
  height : Nat
  below : List Token
  finish : Token
  inherits : Prop

namespace Embedding

variable (E : Embedding)

/-- The token behind the text. -/
def next : Token := E.below.head?.getD E.finish

/-- Behind the text the longer one ends, or a statement starts on a line of its own. -/
def Proper : Prop :=
  E.below = [] ∧ E.finish.kind = .endOfInput ∨
    E.next.kind.opens = true ∧ E.above + E.height < E.next.line

/-- What can be said of every token of the text. -/
structure Holds (t : Token) : Prop where
  first : 1 ≤ t.line
  last : t.line ≤ E.height
  valid : t.kind.isInvalid = false

/-- The two readings stand at the same token of the text, so far without errors. -/
structure Joins (s s' : Reader) : Prop where
  rest : s'.rest = s.rest.map (Token.down E.above) ++ E.below
  ends : s.finish.kind = .endOfInput
  finish : s'.finish = E.finish
  previous : s'.previous = s.previous.map (Token.down E.above)
  operators : s'.operators = s.operators ∨ E.inherits
  tokens : ∀ t ∈ s.rest, E.Holds t
  before : ∀ t ∈ s.previous, E.Holds t
  clean : s.errors = #[]
  clean' : s'.errors = #[]

/-- The limit on operators has been reported for a line of the text. -/
def Overfull (t : Reader) : Prop :=
  ∃ p : Position, E.above < p.line ∧ SyntaxError.tooManyOperators.diagnostic p ∈ t.errors

/-- The limit on operators is about to be reported for a line of the text. -/
def Exceeds (fault : SyntaxFault) : Prop :=
  ∃ p : Position, E.above < p.line ∧ fault = .found p .tooManyOperators

/-- The production runs into the limit on operators, some of which were counted above. -/
def Overflows (m : Parse α) (s : Reader) : Prop :=
  E.inherits ∧ Ends m s (fun _ t => E.Overfull t) (fun e t => E.Exceeds e ∨ E.Overfull t)

/-- In the longer text the production gets to where the first reading stands at `t`, with a result as
described of its result `a`, or runs into the limit on operators. -/
def Matched (s' : Reader) (m' : Parse α) (rel : α → α → Prop) (a : α) (t : Reader) : Prop :=
  E.Overflows m' s' ∨ ∃ b t', m' s' = .ok b t' ∧ E.Joins t t' ∧ rel a b

/-- The text has come to its end, but the longer one goes on. -/
def Cut (t : Reader) : Prop := t.rest = [] ∧ E.below ≠ []

/-- A production that succeeds without errors where the text is read by itself also succeeds in the
longer text, with a result as described, unless it runs into the limit on operators. A block that is
not closed ends with the text: nothing is said where the first reading comes to such a `cut`. -/
def Agrees (s s' : Reader) (m m' : Parse α) (rel : α → α → Prop)
    (cut : Reader → Prop := fun _ => False) : Prop :=
  ∀ a t, m s = .ok a t → t.errors = #[] → cut t ∨ E.Matched s' m' rel a t

/-- What is cut stays so, however the reading goes on. -/
class Lasting (cut : Reader → Prop) : Prop where
  onward : ∀ {s t : Reader}, s.Onward t → cut s → cut t

instance : Lasting fun _ => False := ⟨fun _ never => never⟩

instance : Lasting E.Cut :=
  ⟨fun onward ⟨past, more⟩ => ⟨List.suffix_nil.mp (past ▸ onward.rest), more⟩⟩

end Embedding

open Parse

variable {E : Embedding} {s s' : Reader} {α β : Type} {m m' : Parse α}

namespace Embedding

section Laws

variable {t t' : Reader} {rel : α → α → Prop} {cut : Reader → Prop}

theorem Overfull.onward (full : E.Overfull s) (onward : s.Onward t) : E.Overfull t := by
  obtain ⟨p, low, found⟩ := full
  exact ⟨p, low, Array.mem_toList_iff.mp (onward.errors.mem (Array.mem_toList_iff.mpr found))⟩

theorem Overfull.ends [Forward m] (full : E.Overfull s) :
    Ends m s (fun _ t => E.Overfull t) (fun e t => E.Exceeds e ∨ E.Overfull t) :=
  (Forward.ends s).mono (fun _ _ onward => full.onward onward)
    fun _ _ failed => .inr (full.onward failed.1)

theorem Overflows.andThen {next : α → Parse β} (past : E.Overflows m s)
    (rest : ∀ a, Forward (next a)) : E.Overflows (m >>= next) s := by
  refine ⟨past.1, ?_⟩
  rw [ends_bind]
  exact past.2.mono (fun a t full => full.ends) fun _ _ failed => failed

theorem agrees_pure (joins : E.Joins s s') (known : rel a b) :
    E.Agrees s s' (pure a) (pure b) rel cut := by
  intro c t ran _
  cases ran
  exact .inr (.inr ⟨b, s', rfl, joins, known⟩)

/-- Nothing is said where the first reading fails. -/
theorem agrees_of_error (failed : m s = .error e t) : E.Agrees s s' m m' rel cut := by
  intro a u ran
  rw [failed] at ran
  cases ran

/-- Nor is anything said where the first reading reports an error. -/
theorem agrees_of_report (reports : Ends m s (fun _ t => t.errors ≠ #[]) (fun _ _ => True)) :
    E.Agrees s s' m m' rel cut :=
  fun _ _ ran clean => absurd clean (reports.of_ok ran)

theorem Agrees.mono {rel' : α → α → Prop} (agrees : E.Agrees s s' m m' rel cut)
    (weaker : ∀ a b, rel a b → rel' a b) : E.Agrees s s' m m' rel' cut := by
  intro a t ran clean
  refine (agrees a t ran clean).imp_right (Or.imp_right ?_)
  rintro ⟨b, t', ran', joins, known⟩
  exact ⟨b, t', ran', joins, weaker a b known⟩

theorem Agrees.weaken (agrees : E.Agrees s s' m m' rel) : E.Agrees s s' m m' rel cut :=
  fun a t ran clean => .inr ((agrees a t ran clean).resolve_left id)

theorem Matched.bind {gone : Prop} {u : Reader} {rel' : β → β → Prop} {next' : α → Parse β}
    (first : E.Matched s' m' rel a t) (forward' : ∀ b, Forward (next' b))
    (rest : ∀ b t', E.Joins t t' → rel a b → gone ∨ E.Matched t' (next' b) rel' c u) :
    gone ∨ E.Matched s' (m' >>= next') rel' c u := by
  obtain past | ⟨b, t', early', joins, known⟩ := first
  · exact .inr (.inl (past.andThen forward'))
  · refine (rest b t' joins known).imp_right (Or.imp (fun past => ⟨past.1, ?_⟩) ?_)
    · rw [ends_congr (bind_of_ok early')]
      exact past.2
    · rintro ⟨d, u', later', joins', known'⟩
      exact ⟨d, u', (bind_of_ok early').trans later', joins', known'⟩

theorem Agrees.follow [Lasting cut] {rel' : β → β → Prop} {next next' : α → Parse β}
    (first : E.Agrees s s' m m' rel cut) (forward : ∀ a, Forward (next a))
    (forward' : ∀ b, Forward (next' b))
    (rest : ∀ a b t t', m s = .ok a t → E.Joins t t' → rel a b →
      E.Agrees t t' (next a) (next' b) rel' cut) :
    E.Agrees s s' (m >>= next) (m' >>= next') rel' cut := by
  intro c u ran clean
  obtain ⟨a, t, early, later⟩ := bind_eq_ok.mp ran
  have onward := (forward a).of_ok later
  obtain gone | matched := first a t early (onward.clean clean)
  · exact .inl (Lasting.onward onward gone)
  · exact matched.bind forward' fun b t' joins known => rest a b t t' early joins known c u later clean

theorem Agrees.andThen [Lasting cut] {rel' : β → β → Prop} {next next' : α → Parse β}
    (first : E.Agrees s s' m m' rel) (forward : ∀ a, Forward (next a))
    (forward' : ∀ b, Forward (next' b))
    (rest : ∀ a b t t', m s = .ok a t → E.Joins t t' → rel a b →
      E.Agrees t t' (next a) (next' b) rel' cut) :
    E.Agrees s s' (m >>= next) (m' >>= next') rel' cut :=
  first.weaken.follow forward forward' rest

theorem Agrees.bind [Lasting cut] {rel' : β → β → Prop} {next next' : α → Parse β}
    [∀ a, Forward (next a)] [∀ b, Forward (next' b)] (first : E.Agrees s s' m m' rel)
    (rest : ∀ a b t t', m s = .ok a t → E.Joins t t' → rel a b →
      E.Agrees t t' (next a) (next' b) rel' cut) :
    E.Agrees s s' (m >>= next) (m' >>= next') rel' cut :=
  first.andThen inferInstance inferInstance rest

theorem Agrees.map [Lasting cut] {rel' : β → β → Prop} {f f' : α → β}
    (first : E.Agrees s s' m m' rel cut) (known : ∀ a b, rel a b → rel' (f a) (f' b)) :
    E.Agrees s s' (f <$> m) (f' <$> m') rel' cut := by
  rw [← bind_pure_comp, ← bind_pure_comp]
  exact first.follow inferInstance inferInstance fun a b t t' _ joins here =>
    agrees_pure joins (known a b here)

theorem Agrees.discard (first : E.Agrees s s' m m' rel) :
    E.Agrees s s' (discard m) (discard m') fun _ _ => True :=
  first.map fun _ _ _ => trivial

/-- What both productions do first may be done before. -/
theorem Agrees.congr {n n' : Parse α} (same : m s = n t) (same' : m' s' = n' t')
    (agrees : E.Agrees t t' n n' rel cut) : E.Agrees s s' m m' rel cut := by
  unfold Agrees Matched Overflows Ends at *
  rw [same, same']
  exact agrees

/-- Both readings are done where they stand. -/
theorem agrees_stop (joins : E.Joins s s') (done : m s = .ok a s) (done' : m' s' = .ok b s')
    (known : rel a b) : E.Agrees s s' m m' rel cut := by
  intro c t ran _
  rw [done] at ran
  cases ran
  exact .inr (.inr ⟨b, s', done', joins, known⟩)

end Laws

section Tokens

variable {rel : α → α → Prop} {cut : Reader → Prop} {t : Token} {r : List Token}

theorem Joins.current_end (joins : E.Joins s s') (left : s.rest = []) :
    s.current = s.finish ∧ s'.current = E.next := by
  refine ⟨by rw [Reader.current, left]; rfl, ?_⟩
  rw [Reader.current, joins.rest, joins.finish, left]
  rfl

theorem Joins.current_inside (joins : E.Joins s s') (left : s.rest = t :: r) :
    s.current = t ∧ s'.current = t.down E.above ∧ E.Holds t := by
  refine ⟨by rw [Reader.current, left]; rfl, ?_, joins.tokens t (by simp [left])⟩
  rw [Reader.current, joins.rest, left]
  rfl

theorem Joins.advanced (joins : E.Joins s s') (left : s.rest = t :: r) :
    E.Joins s.advanced s'.advanced := by
  obtain ⟨here, here', holds⟩ := joins.current_inside left
  constructor
  case rest => simp [Reader.advanced, joins.rest, left]
  case ends => exact joins.ends
  case finish => exact joins.finish
  case previous => simp [Reader.advanced, here, here']
  case operators => exact joins.operators
  case tokens =>
    intro u member
    exact joins.tokens u (List.mem_of_mem_tail member)
  case before =>
    intro u same
    cases same
    exact here ▸ holds
  case clean => exact joins.clean
  case clean' => exact joins.clean'

theorem Joins.legible (joins : E.Joins s s') : s.Legible :=
  ⟨by rw [joins.ends]; rfl, fun t member => (joins.tokens t member).valid⟩

/-- A token that is not the end of input is one of the text. -/
theorem Joins.inside (joins : E.Joins s s') (found : s.current.kind ≠ .endOfInput) :
    ∃ t r, s.rest = t :: r := by
  cases left : s.rest with
  | nil =>
    rw [(joins.current_end left).1, joins.ends] at found
    cases found rfl
  | cons t r => exact ⟨t, r, rfl⟩

theorem agrees_current {next next' : Token → Parse α} (joins : E.Joins s s')
    (atEnd : s.rest = [] → E.Agrees s s' (next s.finish) (next' E.next) rel cut)
    (inside : ∀ t r, s.rest = t :: r → E.Holds t →
      E.Agrees s s' (next t) (next' (t.down E.above)) rel cut) :
    E.Agrees s s' (current >>= next) (current >>= next') rel cut := by
  refine Agrees.congr (current_bind next s) (current_bind next' s') ?_
  cases left : s.rest with
  | nil =>
    obtain ⟨here, here'⟩ := joins.current_end left
    rw [here, here']
    exact atEnd left
  | cons t r =>
    obtain ⟨here, here', holds⟩ := joins.current_inside left
    rw [here, here']
    exact inside t r left holds

theorem agrees_advance {next next' : Token → Parse α} (joins : E.Joins s s') (left : s.rest = t :: r)
    (rest : ∀ u u', E.Joins u u' → u.rest = r →
      E.Agrees u u' (next t) (next' (t.down E.above)) rel cut) :
    E.Agrees s s' (advance >>= next) (advance >>= next') rel cut := by
  obtain ⟨here, here', _⟩ := joins.current_inside left
  refine Agrees.congr (advance_bind next s) (advance_bind next' s') ?_
  rw [here, here']
  exact rest _ _ (joins.advanced left) (by rw [Reader.advanced, left]; rfl)

theorem agrees_skip {next next' : PUnit → Parse α} (joins : E.Joins s s') (left : s.rest = t :: r)
    (rest : ∀ u u', E.Joins u u' → u.rest = r → E.Agrees u u' (next ⟨⟩) (next' ⟨⟩) rel cut) :
    E.Agrees s s' (discard advance >>= next) (discard advance >>= next') rel cut :=
  Agrees.congr (skip_bind next s) (skip_bind next' s')
    (rest _ _ (joins.advanced left) (by rw [Reader.advanced, left]; rfl))

theorem skip_agrees (joins : E.Joins s s') (left : s.rest = t :: r) :
    E.Agrees s s' (discard advance) (discard advance) fun _ _ => True := by
  intro a u ran _
  cases ran
  exact .inr (.inr ⟨⟨⟩, _, rfl, joins.advanced left, trivial⟩)

/-- The tokens that a production returns in the two readings. -/
def SameToken (E : Embedding) (a b : Token) : Prop := E.Holds a ∧ b = a.down E.above

theorem expect_agrees (joins : E.Joins s s') (inner : kind ≠ .endOfInput) :
    E.Agrees s s' (expect kind text context) (expect kind text' context') E.SameToken := by
  intro a t ran _
  obtain ⟨found, rfl, rfl⟩ := expect_ok ran
  obtain ⟨t, r, left⟩ := joins.inside (found ▸ inner)
  obtain ⟨here, here', holds⟩ := joins.current_inside left
  have found' : s'.current.kind = kind := by
    rw [here', Token.kind_down, ← here, found]
  exact .inr (.inr ⟨_, _, expect_apply found' _ _, joins.advanced left, here ▸ ⟨holds, here'⟩⟩)

theorem expectWord_agrees (joins : E.Joins s s') (word : Keyword) (context context' : String) :
    E.Agrees s s' (expectWord word context) (expectWord word context') E.SameToken :=
  expect_agrees joins nofun

theorem expectSign_agrees (joins : E.Joins s s') (sign : Sign) (context context' : String) :
    E.Agrees s s' (expectSign sign context) (expectSign sign context') E.SameToken :=
  expect_agrees joins nofun

theorem expectIdentifier_agrees (joins : E.Joins s s') (context context' : String) :
    E.Agrees s s' (expectIdentifier context) (expectIdentifier context') E.SameToken :=
  expect_agrees joins nofun

theorem agrees_previous {next next' : Option Token → Parse α}
    (rest : E.Agrees s s' (next s.previous) (next' s'.previous) rel cut) :
    E.Agrees s s' (previous >>= next) (previous >>= next') rel cut := rest

end Tokens

section Lookahead

variable {rel : α → α → Prop} {cut : Reader → Prop} {t : Token}

/-- Kinds of tokens that neither start a statement nor end a text. -/
def Inner (kind : TokenKind) : Prop := kind.opens = false ∧ kind ≠ .endOfInput

instance : Decidable (Inner kind) := inferInstanceAs (Decidable (_ ∧ _))

theorem Proper.next_kind (proper : E.Proper) : E.next.kind.opens = true ∨ E.next.kind = .endOfInput := by
  obtain ⟨none, ends⟩ | ⟨opens, _⟩ := proper
  · rw [next, none]
    exact .inr ends
  · exact .inl opens

theorem Proper.next_ne (proper : E.Proper) (inner : Inner kind) : E.next.kind ≠ kind := by
  rintro rfl
  obtain opens | ends := proper.next_kind
  · rw [inner.1] at opens
    cases opens
  · exact inner.2 ends

theorem Joins.same_kind (joins : E.Joins s s') (proper : E.Proper) (inner : Inner kind) :
    s'.current.kind = kind ↔ s.current.kind = kind := by
  cases left : s.rest with
  | nil =>
    obtain ⟨here, here'⟩ := joins.current_end left
    rw [here, here', joins.ends]
    exact iff_of_false (proper.next_ne inner) fun same => inner.2 same.symm
  | cons t r =>
    obtain ⟨here, here', _⟩ := joins.current_inside left
    rw [here, here', Token.kind_down]

/-- A token of an inner kind is taken by both readings or by neither. -/
theorem agrees_accept {next next' : Bool → Parse α} (joins : E.Joins s s') (proper : E.Proper)
    (inner : Inner kind)
    (yes : ∀ t r u u', s.rest = t :: r → t.kind = kind → E.Joins u u' → u.rest = r →
      u.previous = some t → E.Agrees u u' (next true) (next' true) rel cut)
    (no : E.Agrees s s' (next false) (next' false) rel cut) :
    E.Agrees s s' (accept kind >>= next) (accept kind >>= next') rel cut := by
  have same := joins.same_kind proper inner
  by_cases found : s.current.kind = kind
  · obtain ⟨t, r, left⟩ := joins.inside (found ▸ inner.2)
    have taken : accept kind s = .ok true s.advanced := by
      rw [accept_apply, if_pos (by simpa using found)]
    have taken' : accept kind s' = .ok true s'.advanced := by
      rw [accept_apply, if_pos (by simpa using same.mpr found)]
    refine Agrees.congr (bind_of_ok taken) (bind_of_ok taken')
      (yes t r _ _ left ?_ (joins.advanced left) ?_ ?_)
    · rw [← (joins.current_inside left).1, found]
    · rw [Reader.advanced, left]
      rfl
    · rw [Reader.advanced, (joins.current_inside left).1]
  · have left : accept kind s = .ok false s := by
      rw [accept_apply, if_neg (by simpa using found)]
    have left' : accept kind s' = .ok false s' := by
      rw [accept_apply, if_neg (by simpa using fun same' => found (same.mp same'))]
    exact Agrees.congr (bind_of_ok left) (bind_of_ok left') no

theorem agrees_nextIs {next next' : Bool → Parse α} (joins : E.Joins s s') (proper : E.Proper)
    (inner : Inner kind) (each : ∀ b, E.Agrees s s' (next b) (next' b) rel cut) :
    E.Agrees s s' (nextIs kind >>= next) (nextIs kind >>= next') rel cut := by
  have same : (s'.current.kind == kind) = (s.current.kind == kind) := by
    rw [Bool.eq_iff_iff, beq_iff_eq, beq_iff_eq]
    exact joins.same_kind proper inner
  have answer : (nextIs kind >>= next) s = next (s.current.kind == kind) s := rfl
  have answer' : (nextIs kind >>= next') s' = next' (s'.current.kind == kind) s' := rfl
  rw [same] at answer'
  exact Agrees.congr answer answer' (each _)

theorem agrees_countOperator {next next' : Unit → Parse α} [∀ a, Forward (next' a)]
    (joins : E.Joins s s') (holds : E.Holds t)
    (rest : ∀ u u', E.Joins u u' → u.rest = s.rest → E.Agrees u u' (next ()) (next' ()) rel cut) :
    E.Agrees s s' (countOperator t >>= next) (countOperator (t.down E.above) >>= next') rel cut := by
  by_cases many : s.operators + 1 > SyntaxError.maxOperators
  · have failed : countOperator t s = .error (.found t.position .tooManyOperators) s.counted := by
      rw [countOperator_apply, if_pos many]
    exact agrees_of_error (bind_of_error failed)
  · by_cases many' : s'.operators + 1 > SyntaxError.maxOperators
    · have inherits : E.inherits := by
        refine joins.operators.resolve_left fun same => ?_
        rw [same] at many'
        exact many many'
      intro a u _ _
      refine .inr (.inl (Overflows.andThen ⟨inherits, ?_⟩ inferInstance))
      unfold Ends
      rw [countOperator_apply, if_pos many']
      refine .inl ⟨_, ?_, rfl⟩
      have := holds.first
      show E.above < t.line + E.above
      omega
    · have counts : countOperator t s = .ok () s.counted := by
        rw [countOperator_apply, if_neg many]
      have counts' : countOperator (t.down E.above) s' = .ok () s'.counted := by
        rw [countOperator_apply, if_neg many']
      refine Agrees.congr (bind_of_ok counts) (bind_of_ok counts') (rest _ _ ?_ rfl)
      exact { joins with operators := joins.operators.imp_left (congrArg (· + 1)) }

end Lookahead

end Embedding

end Pseudocode
