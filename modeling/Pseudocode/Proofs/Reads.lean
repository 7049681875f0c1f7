import Pseudocode.Proofs.Forward
import Pseudocode.Proofs.Printing

/-! Reading words that are there. `Reads` says that a production takes exactly the given marks from in
front of the reader, reports nothing and returns what is described, as long as what follows does not go
on with it. A production is followed word by word: the laws match its steps with the marks. -/
namespace Pseudocode

/-- Nothing was reported so far. -/
structure Reader.Clear (s : Reader) : Prop where
  ends : s.finish.kind = .endOfInput
  clean : s.errors = #[]

namespace Parse

/-- The tokens are those of the marks, and behind them something that may follow. -/
def Ahead (marks : List Mark) (follows : List Token → Prop) (tokens : List Token) : Prop :=
  ∃ own more, tokens = own ++ more ∧ own.map Token.mark = marks ∧ follows more

/-- The token may be the next one, or the end of input if there is none. -/
def Facing (marks : List Mark) (follows : List Token → Prop) (t : Token) : Prop :=
  ∃ tokens, Ahead marks follows tokens ∧ (tokens.head? = some t ∨ tokens = [] ∧ t.kind = .endOfInput)

/-- The line of the last token once the marks are read. -/
def lineAfter (line : Option Nat) (marks : List Mark) : Option Nat :=
  (marks.getLast?.map Mark.line).or line

/-- Behind a token on `line`, the production takes the marks, counts at most `cost` operators and
returns something good. -/
def Reads (line : Option Nat) (m : Parse α) (marks : List Mark) (cost : Nat)
    (follows : List Token → Prop) (good : α → Prop) : Prop :=
  ∀ s own more, s.rest = own ++ more → own.map Token.mark = marks → follows more → s.Clear →
    s.previous.map Token.line = line → s.operators + cost ≤ SyntaxError.maxOperators →
    ∃ a t, m s = .ok a t ∧ good a ∧ t.rest = more ∧ t.Clear ∧
      t.previous.map Token.line = lineAfter line marks ∧ t.operators ≤ s.operators + cost

variable {α β : Type} {line : Option Nat} {m : Parse α} {marks : List Mark} {k : Mark} {cost : Nat}
  {follows : List Token → Prop} {good : α → Prop}

section Ahead

theorem ahead_nil : Ahead [] follows tokens ↔ follows tokens := by
  constructor
  · rintro ⟨own, more, rfl, none, known⟩
    rw [List.map_eq_nil_iff.mp none]
    exact known
  · exact fun known => ⟨[], tokens, rfl, rfl, known⟩

theorem ahead_cons : Ahead (k :: marks) follows tokens ↔
    ∃ t rest, tokens = t :: rest ∧ t.mark = k ∧ Ahead marks follows rest := by
  constructor
  · rintro ⟨own, more, rfl, same, known⟩
    obtain ⟨t, own, rfl, rfl, rfl⟩ := List.map_eq_cons_iff.mp same
    exact ⟨t, own ++ more, rfl, rfl, own, more, rfl, rfl, known⟩
  · rintro ⟨t, rest, rfl, rfl, own, more, rfl, rfl, known⟩
    exact ⟨t :: own, more, rfl, rfl, known⟩

theorem ahead_append {marks' : List Mark} :
    Ahead (marks ++ marks') follows tokens ↔ Ahead marks (Ahead marks' follows) tokens := by
  induction marks generalizing tokens with
  | nil => exact ahead_nil.symm
  | cons k rest ih =>
    rw [List.cons_append, ahead_cons, ahead_cons]
    simp only [ih]

theorem facing_cons (facing : Facing (k :: marks) follows t) : t.mark = k := by
  obtain ⟨tokens, ahead, first⟩ := facing
  obtain ⟨u, rest, rfl, same, -⟩ := ahead_cons.mp ahead
  obtain first | ⟨none, -⟩ := first
  · cases first
    exact same
  · cases none

theorem facing_nil (facing : Facing [] follows t) : ∃ more, follows more ∧
    (more.head? = some t ∨ more = [] ∧ t.kind = .endOfInput) := by
  obtain ⟨tokens, ahead, first⟩ := facing
  exact ⟨tokens, ahead_nil.mp ahead, first⟩

@[simp] theorem lineAfter_nil (line : Option Nat) : lineAfter line [] = line := rfl

@[simp] theorem lineAfter_cons (line : Option Nat) (k : Mark) (marks : List Mark) :
    lineAfter line (k :: marks) = lineAfter (some k.line) marks := by
  unfold lineAfter
  rw [List.getLast?_cons]
  cases marks.getLast? <;> rfl

theorem lineAfter_append (line : Option Nat) (first rest : List Mark) :
    lineAfter line (first ++ rest) = lineAfter (lineAfter line first) rest := by
  induction first generalizing line with
  | nil => rfl
  | cons k first ih => rw [List.cons_append, lineAfter_cons, lineAfter_cons, ih]

theorem lineAfter_onLine (n : Nat) (words : List Word) :
    lineAfter (some n) (onLine n words) = some n := by
  induction words with
  | nil => rfl
  | cons word rest ih => exact (lineAfter_cons _ _ _).trans ih

end Ahead

section Laws

theorem reads_pure (known : good a) : Reads line (pure a) [] 0 follows good := by
  intro s own more rest same after clear before few
  rw [List.map_eq_nil_iff.mp same] at rest
  exact ⟨a, s, rfl, known, rest, clear, before, Nat.le_refl _⟩

/-- Less has to be known of what is read, more of what follows, and more operators may be counted. -/
theorem Reads.mono {cost' : Nat} {follows' : List Token → Prop} {good' : α → Prop}
    (reads : Reads line m marks cost follows good) (less : cost ≤ cost')
    (narrower : ∀ more, follows' more → follows more) (weaker : ∀ a, good a → good' a) :
    Reads line m marks cost' follows' good' := by
  intro s own more rest same after clear before few
  obtain ⟨a, t, ran, known, left, clear', before', few'⟩ :=
    reads s own more rest same (narrower _ after) clear before (by omega)
  exact ⟨a, t, ran, weaker a known, left, clear', before', by omega⟩

theorem Reads.weaken {good' : α → Prop} (reads : Reads line m marks cost follows good)
    (weaker : ∀ a, good a → good' a) : Reads line m marks cost follows good' :=
  reads.mono (Nat.le_refl _) (fun _ known => known) weaker

theorem Reads.narrow {follows' : List Token → Prop} (reads : Reads line m marks cost follows good)
    (narrower : ∀ more, follows' more → follows more) : Reads line m marks cost follows' good :=
  reads.mono (Nat.le_refl _) narrower fun _ known => known

theorem Reads.bind {next : α → Parse β} {marks' : List Mark} {cost' : Nat}
    {follows' : List Token → Prop} {good' : β → Prop} (first : Reads line m marks cost follows good)
    (onward : ∀ tokens, Ahead marks' follows' tokens → follows tokens)
    (rest : ∀ a, good a → Reads (lineAfter line marks) (next a) marks' cost' follows' good') :
    Reads line (m >>= next) (marks ++ marks') (cost + cost') follows' good' := by
  intro s own more left same after clear before few
  obtain ⟨own, own', rfl, rfl, rfl⟩ := List.map_eq_append_iff.mp same
  rw [List.append_assoc] at left
  obtain ⟨a, t, ran, known, left', clear', before', few'⟩ :=
    first s own _ left rfl (onward _ ⟨own', more, rfl, rfl, after⟩) clear before (by omega)
  obtain ⟨b, u, ran', known', left'', clear'', before'', few''⟩ :=
    rest a known t own' more left' rfl after clear' before' (by omega)
  refine ⟨b, u, (bind_of_ok ran).trans ran', known', left'', clear'', ?_, by omega⟩
  rw [before'', lineAfter_append]

/-- A production that takes nothing, and another after it. -/
theorem Reads.before {next : α → Parse β} {follows' : List Token → Prop} {good' : β → Prop}
    (first : Reads line m [] 0 follows good)
    (onward : ∀ tokens, Ahead marks follows' tokens → follows tokens)
    (rest : ∀ a, good a → Reads line (next a) marks cost follows' good') :
    Reads line (m >>= next) marks cost follows' good' := by
  have reads := first.bind onward rest
  rwa [List.nil_append, Nat.zero_add] at reads

theorem Reads.map {good' : β → Prop} (reads : Reads line m marks cost follows good) (f : α → β)
    (known : ∀ a, good a → good' (f a)) : Reads line (f <$> m) marks cost follows good' := by
  intro s own more rest same after clear before few
  obtain ⟨a, t, ran, known', left⟩ := reads s own more rest same after clear before few
  refine ⟨f a, t, ?_, known a known', left⟩
  rw [← bind_pure_comp]
  exact bind_of_ok ran

end Laws

/-- The reader is in front of the marks. -/
structure Stands (line : Option Nat) (marks : List Mark) (follows : List Token → Prop) (s : Reader) :
    Prop where
  ahead : Ahead marks follows s.rest
  clear : s.Clear
  before : s.previous.map Token.line = line

theorem Stands.facing (stands : Stands line marks follows s) : Facing marks follows s.current := by
  refine ⟨s.rest, stands.ahead, ?_⟩
  unfold Reader.current
  cases s.rest with
  | nil => exact .inr ⟨rfl, stands.clear.ends⟩
  | cons t rest => exact .inl rfl

section Looking

variable {next : β → Parse α}

/-- A step that only looks at where the reader stands. -/
theorem reads_look {look : Parse β} (answer : Reader → β) (looks : ∀ s, look s = .ok (answer s) s)
    (rest : ∀ s, Stands line marks follows s → Reads line (next (answer s)) marks cost follows good) :
    Reads line (look >>= next) marks cost follows good := by
  intro s own more left same after clear before few
  rw [bind_of_ok (looks s)]
  exact rest s ⟨⟨own, more, left, same, after⟩, clear, before⟩ s own more left same after clear before few

theorem reads_current {next : Token → Parse α}
    (rest : ∀ t, Facing marks follows t → Reads line (next t) marks cost follows good) :
    Reads line (current >>= next) marks cost follows good :=
  reads_look Reader.current (fun _ => rfl) fun _ stands => rest _ stands.facing

theorem reads_previous {next : Option Token → Parse α}
    (rest : ∀ p, p.map Token.line = line → Reads line (next p) marks cost follows good) :
    Reads line (previous >>= next) marks cost follows good :=
  reads_look Reader.previous (fun _ => rfl) fun _ stands => rest _ stands.before

theorem reads_remaining {next : Nat → Parse α}
    (rest : ∀ left, marks.length ≤ left → Reads line (next left) marks cost follows good) :
    Reads line (remaining >>= next) marks cost follows good := by
  refine reads_look (fun s => s.rest.length) (fun _ => rfl) fun s stands => rest _ ?_
  obtain ⟨own, more, left, rfl, -⟩ := stands.ahead
  simp [left]

theorem reads_atEnd {next : Bool → Parse α}
    (rest : ∀ tokens, Ahead marks follows tokens →
      Reads line (next tokens.isEmpty) marks cost follows good) :
    Reads line (atEnd >>= next) marks cost follows good :=
  reads_look (fun s => s.rest.isEmpty) (fun _ => rfl) fun _ stands => rest _ stands.ahead

theorem reads_nextIs {next : Bool → Parse α} {kind : TokenKind}
    (rest : ∀ t, Facing marks follows t →
      Reads line (next (t.kind == kind)) marks cost follows good) :
    Reads line (nextIs kind >>= next) marks cost follows good :=
  reads_look (fun s => s.current.kind == kind) (fun _ => rfl) fun _ stands => rest _ stands.facing

theorem reads_startsCall {next : Bool → Parse α}
    (rest : ∀ t, Facing marks follows t →
      Reads line (next (t.kind == .sign .openParen && t.line == k.line)) (k :: marks) cost follows good) :
    Reads line (startsCall >>= next) (k :: marks) cost follows good := by
  intro s own more left same after clear before few
  obtain ⟨t, rest', rfl, rfl, rfl⟩ := List.map_eq_cons_iff.mp same
  have looks : startsCall s = .ok ((s.advanced.current.kind == .sign .openParen &&
      s.advanced.current.line == s.current.line)) s := rfl
  have here : s.current = t := by rw [Reader.current, left]; rfl
  have stands : Stands (some t.line) (rest'.map Token.mark) follows s.advanced :=
    ⟨⟨rest', more, by rw [Reader.advanced, left]; rfl, rfl, after⟩, ⟨clear.ends, clear.clean⟩,
      by rw [Reader.advanced, here]; rfl⟩
  rw [bind_of_ok looks, here]
  exact rest _ stands.facing s _ more left rfl after clear before few

end Looking

section Taking

/-- A step that takes one token. -/
theorem reads_take {take : Parse β} {next : β → Parse α} (answer : Token → β)
    (takes : ∀ s, s.rest ≠ [] → s.current.mark = k → take s = .ok (answer s.current) s.advanced)
    (rest : ∀ t, t.mark = k → Reads (some k.line) (next (answer t)) marks cost follows good) :
    Reads line (take >>= next) (k :: marks) cost follows good := by
  intro s own more left same after clear before few
  obtain ⟨t, own, rfl, rfl, rfl⟩ := List.map_eq_cons_iff.mp same
  have here : s.current = t := by rw [Reader.current, left]; rfl
  rw [bind_of_ok (takes s (by rw [left]; nofun) (by rw [here])), here, lineAfter_cons]
  refine rest t rfl s.advanced own more ?_ rfl after ⟨clear.ends, clear.clean⟩ ?_ few
  · rw [Reader.advanced, left]
    rfl
  · rw [Reader.advanced, here]
    rfl

theorem reads_skip {next : PUnit → Parse α}
    (rest : Reads (some k.line) (next ⟨⟩) marks cost follows good) :
    Reads line (discard advance >>= next) (k :: marks) cost follows good :=
  reads_take (fun _ => PUnit.unit) (fun _ _ _ => rfl) fun _ _ => rest

theorem reads_advance {next : Token → Parse α}
    (rest : ∀ t, t.mark = k → Reads (some k.line) (next t) marks cost follows good) :
    Reads line (advance >>= next) (k :: marks) cost follows good :=
  reads_take id (fun _ _ _ => rfl) rest

theorem reads_expect {next : Token → Parse α} {kind : TokenKind} {text context : String}
    (found : k.word.kind = kind)
    (rest : ∀ t, t.mark = k → Reads (some k.line) (next t) marks cost follows good) :
    Reads line (expect kind text context >>= next) (k :: marks) cost follows good :=
  reads_take id (fun _ _ same => expect_apply (by rw [← found, ← same]; rfl) ..) rest

theorem reads_accept {next : Bool → Parse α} {kind : TokenKind} (found : k.word.kind = kind)
    (rest : Reads (some k.line) (next true) marks cost follows good) :
    Reads line (accept kind >>= next) (k :: marks) cost follows good := by
  refine reads_take (fun _ => true) (fun s _ same => ?_) fun _ _ => rest
  have here : s.current.kind = kind := by rw [← found, ← same]; rfl
  rw [accept_apply, here, beq_self_eq_true, if_pos rfl]

/-- A token of a kind that is not next is not taken. -/
theorem reads_decline {next : Bool → Parse α} {kind : TokenKind}
    (other : ∀ t, Facing marks follows t → t.kind ≠ kind)
    (rest : Reads line (next false) marks cost follows good) :
    Reads line (accept kind >>= next) marks cost follows good := by
  intro s own more left same after clear before few
  have stands : Stands line marks follows s := ⟨⟨own, more, left, same, after⟩, clear, before⟩
  have left' : accept kind s = .ok false s := by
    rw [accept_apply, if_neg (by simpa using other _ stands.facing)]
  rw [bind_of_ok left']
  exact rest s own more left same after clear before few

end Taking

section Counting

theorem reads_countOperator {next : Unit → Parse α} (t : Token)
    (rest : Reads line (next ()) marks cost follows good) :
    Reads line (countOperator t >>= next) marks (cost + 1) follows good := by
  intro s own more left same after clear before few
  have counts : countOperator t s = .ok () s.counted := by
    rw [countOperator_apply, if_neg (by omega)]
  rw [bind_of_ok counts]
  have one : s.counted.operators = s.operators + 1 := rfl
  obtain ⟨a, u, ran, known, left', clear', before', few'⟩ :=
    rest s.counted own more left same after ⟨clear.ends, clear.clean⟩ before (by omega)
  exact ⟨a, u, ran, known, left', clear', before', by omega⟩

/-- The operators are counted anew. -/
theorem reads_anew {next : PUnit → Parse α} (rest : Reads line (next ⟨⟩) marks cost follows good) :
    Reads line ((modify fun s : Reader => { s with operators := 0 }) >>= next) marks cost follows good := by
  intro s own more left same after clear before few
  obtain ⟨a, u, ran, known, left', clear', before', few'⟩ :=
    rest { s with operators := 0 } own more left same after ⟨clear.ends, clear.clean⟩ before (by
      show 0 + cost ≤ _
      omega)
  refine ⟨a, u, ran, known, left', clear', before', ?_⟩
  have few' : u.operators ≤ 0 + cost := few'
  omega

end Counting

section Recovering

theorem Reads.header (reads : Reads line m marks cost follows good) :
    Reads line (header m) marks cost follows (fun o => ∃ a, o = some a ∧ good a) := by
  intro s own more left same after clear before few
  obtain ⟨a, t, ran, known, rest⟩ := reads s own more left same after clear before few
  refine ⟨some a, t, ?_, ⟨a, rfl, known⟩, rest⟩
  rw [header_eq]
  refine tryCatch_of_ok ?_
  rw [← bind_pure_comp]
  exact bind_of_ok ran

theorem Reads.orSkip (reads : Reads line m marks cost follows good) (instead : α) :
    Reads line (orSkip m instead) marks cost follows good := by
  intro s own more left same after clear before few
  obtain ⟨a, t, ran, known, rest⟩ := reads s own more left same after clear before few
  refine ⟨a, t, ?_, known, rest⟩
  rw [orSkip_eq]
  exact tryCatch_of_ok ran

theorem reads_expectTerminator {next : Bool → Parse α} {word : Keyword} {context : String}
    {start : Token} (found : k.word.kind = .keyword word)
    (rest : Reads (some k.line) (next true) marks cost follows good) :
    Reads line (expectTerminator word context start >>= next) (k :: marks) cost follows good := by
  refine reads_take (fun _ => true) (fun s _ same => ?_) fun _ _ => rest
  have here : s.current.kind = .keyword word := by rw [← found, ← same]; rfl
  have taken : acceptWord word s = .ok true s.advanced := by
    rw [acceptWord, accept_apply, here, beq_self_eq_true, if_pos rfl]
  unfold expectTerminator
  rw [bind_of_ok taken]
  rfl

end Recovering

end Parse

end Pseudocode
