import Pseudocode.CommandLine.Response
import Pseudocode.Proofs.Lines
import Pseudocode.Proofs.Walk

/-! Words that announce a statement. Each of them starts one statement and stands nowhere else, so the
tokens of a text can be set side by side with the statements on a walk through its program, and what
follows for the words of the text is read off from that. -/
namespace Pseudocode

/-- The word announces a statement that is known by it. -/
def Keyword.announces : Keyword → Bool
  | .CONSTANT | .INPUT | .OUTPUT | .IF | .CASE | .WHILE | .REPEAT | .FOR | .PROCEDURE | .FUNCTION
  | .RETURN => true
  | _ => false

/-- The token starts a statement, which only DECLARE and names may do without being set beside it. -/
def TokenKind.leads : TokenKind → Bool
  | .keyword word => word.startsStatement && word != .DECLARE
  | _ => false

/-- The word and the place of a token that announces a statement. -/
def Token.announcement (t : Token) : Option (Keyword × Position) :=
  match t.kind with
  | .keyword word => if word.announces then some (word, t.position) else none
  | _ => none

namespace Stmt

/-- The word that announces a statement of this kind. -/
def word? : Stmt → Option Keyword
  | .constant .. => some .CONSTANT
  | .input .. => some .INPUT
  | .output .. => some .OUTPUT
  | .ifThen .. => some .IF
  | .caseOf .. => some .CASE
  | .whileDo .. => some .WHILE
  | .repeatUntil .. => some .REPEAT
  | .forLoop .. => some .FOR
  | .routine ⟨_, .procedure, _, _, _, _⟩ => some .PROCEDURE
  | .routine ⟨_, .function, _, _, _, _⟩ => some .FUNCTION
  | .giveBack .. => some .RETURN
  | _ => none

/-- The word that announces the statement, at the place of the statement. -/
def announcement (s : Stmt) : Option (Keyword × Position) := s.word?.map (·, s.position)

/-- What the statement may start with. One that shares its first word with others has none. -/
def leaders : Stmt → List TokenKind
  | .assign .. => [.keyword .SET, .identifier]
  | .call .. => [.keyword .CALL, .identifier]
  | s => s.word?.toList.map .keyword

def isAssign : Stmt → Bool
  | .assign .. => true
  | _ => false

def isCall : Stmt → Bool
  | .call .. => true
  | _ => false

def isInput : Stmt → Bool
  | .input .. => true
  | _ => false

/-- The token is the first of the statement. -/
structure StartsAt (s : Stmt) (t : Token) : Prop where
  place : s.position = t.position
  leader : t.kind ∈ s.leaders

end Stmt

namespace Stmt.StartsAt

variable {s : Stmt} {t : Token}

/-- A statement is announced by its first token, if at all. -/
theorem announcement_eq (starts : s.StartsAt t) : t.announcement = s.announcement := by
  obtain ⟨place, leader⟩ := starts
  unfold Token.announcement announcement
  rw [place]
  cases s with
  | assign | call =>
    simp only [leaders, List.mem_cons, List.not_mem_nil, or_false] at leader
    rcases leader with found | found <;> (rw [found]; rfl)
  | routine r =>
    obtain ⟨p, kind, name, params, returns, body⟩ := r
    cases kind <;> (rw [List.mem_singleton.mp leader]; rfl)
  | declare | declareArray | strayCall | stray => cases leader
  | _ => rw [List.mem_singleton.mp leader]; rfl

end Stmt.StartsAt

/-- Tokens side by side with statements: every token that leads stands beside a statement that it
starts. -/
inductive Traced : List Token → List Visit → Prop
  | nil : Traced [] []
  | quiet {t tokens visits} : t.kind.leads = false → Traced tokens visits →
    Traced (t :: tokens) visits
  | unled {v tokens visits} : v.stmt.leaders = [] → Traced tokens visits → Traced tokens (v :: visits)
  | started {t v tokens visits} : v.stmt.StartsAt t → Traced tokens visits →
    Traced (t :: tokens) (v :: visits)

theorem Keyword.leads_of_announces {word : Keyword} (announces : word.announces = true) :
    (TokenKind.keyword word).leads = true := by
  cases word <;> first | rfl | cases announces

theorem Token.announcement_of_quiet {t : Token} (quiet : t.kind.leads = false) :
    t.announcement = none := by
  unfold announcement
  split
  next word found =>
    rw [found] at quiet
    refine if_neg fun announces => ?_
    rw [Keyword.leads_of_announces announces] at quiet
    cases quiet
  next => rfl

theorem Stmt.announcement_of_unled {s : Stmt} (unled : s.leaders = []) : s.announcement = none := by
  cases s with
  | assign | call => cases unled
  | _ => rw [announcement, Option.toList_eq_nil_iff.mp (List.map_eq_nil_iff.mp unled)]; rfl

/-- The statements of a kind are those that may start with the word. -/
structure Led (word : Keyword) (good : Stmt → Bool) : Prop where
  loud : (TokenKind.keyword word).leads = true
  only : ∀ s : Stmt, good s = true ↔ .keyword word ∈ s.leaders

/-- The number of statements of a kind at a place. -/
def countAt (good : Stmt → Bool) (p : Position) (visits : List Visit) : Nat :=
  visits.countP fun v => good v.stmt && v.stmt.position == p

theorem led_assign : Led .SET Stmt.isAssign := by
  refine ⟨rfl, fun s => ?_⟩
  cases s with
  | routine r => obtain ⟨_, _ | _, _, _, _, _⟩ := r <;> simp [Stmt.leaders, Stmt.word?, Stmt.isAssign]
  | _ => simp [Stmt.leaders, Stmt.word?, Stmt.isAssign]

theorem led_call : Led .CALL Stmt.isCall := by
  refine ⟨rfl, fun s => ?_⟩
  cases s with
  | routine r => obtain ⟨_, _ | _, _, _, _, _⟩ := r <;> simp [Stmt.leaders, Stmt.word?, Stmt.isCall]
  | _ => simp [Stmt.leaders, Stmt.word?, Stmt.isCall]

theorem Led.other (led : Led word good) {s : Stmt} (none : s.leaders = []) : good s ≠ true := by
  rw [Ne, led.only, none]
  exact List.not_mem_nil

namespace Traced

variable {tokens more : List Token} {visits others : List Visit}

theorem append (first : Traced tokens visits) (rest : Traced more others) :
    Traced (tokens ++ more) (visits ++ others) := by
  induction first with
  | nil => exact rest
  | quiet silent _ ih => exact .quiet silent ih
  | unled none _ ih => exact .unled none ih
  | started starts _ ih => exact .started starts ih

/-- The words that announce are those of the statements, in the same order. -/
theorem announcements_eq (traced : Traced tokens visits) :
    tokens.filterMap Token.announcement = visits.filterMap fun v => v.stmt.announcement := by
  induction traced with
  | nil => rfl
  | quiet silent _ ih => rw [List.filterMap_cons_none (Token.announcement_of_quiet silent), ih]
  | unled none _ ih => rw [ih, List.filterMap_cons, Stmt.announcement_of_unled none]
  | started starts _ ih => rw [List.filterMap_cons, List.filterMap_cons, starts.announcement_eq, ih]

theorem countInputs_eq (traced : Traced tokens visits) :
    (tokens.countP fun t => t.kind == .keyword .INPUT) = visits.countP fun v => v.stmt.isInput := by
  have counted := congrArg (List.countP fun a => a.1 == Keyword.INPUT) traced.announcements_eq
  rw [List.countP_filterMap, List.countP_filterMap] at counted
  refine Eq.trans (List.countP_congr fun t _ => ?_) (counted.trans (List.countP_congr fun v _ => ?_))
  · unfold Token.announcement
    split
    next word found =>
      rw [found]
      cases word <;> simp [Keyword.announces]
    next other => simpa using fun found => other _ found
  · cases v.stmt with
    | routine r => obtain ⟨_, _ | _, _, _, _, _⟩ := r <;> simp [Stmt.announcement, Stmt.word?, Stmt.isInput]
    | _ => simp [Stmt.announcement, Stmt.word?, Stmt.isInput]

section Counting

variable {word : Keyword} {good : Stmt → Bool} {p : Position} {v : Visit}

theorem countAt_cons_other (other : good v.stmt = true → v.stmt.position ≠ p) :
    countAt good p (v :: visits) = countAt good p visits := by
  refine List.countP_cons_of_neg ?_
  simpa using other

theorem countAt_eq_zero (led : Led word good) (traced : Traced tokens visits)
    (elsewhere : ∀ t ∈ tokens, t.position ≠ p) : countAt good p visits = 0 := by
  induction traced with
  | nil => rfl
  | quiet _ _ ih => exact ih fun t member => elsewhere t (.tail _ member)
  | unled none _ ih =>
    rw [countAt_cons_other fun here => absurd here (led.other none)]
    exact ih elsewhere
  | started starts _ ih =>
    rw [countAt_cons_other fun _ => starts.place ▸ elsewhere _ (.head _)]
    exact ih fun t member => elsewhere t (.tail _ member)

/-- Where tokens are at different places, each token with the word is the first of one statement. -/
theorem countAt_eq_one (led : Led word good) (traced : Traced tokens visits)
    (apart : tokens.Pairwise fun t u => t.position ≠ u.position) {t : Token} (member : t ∈ tokens)
    (found : t.kind = .keyword word) : countAt good t.position visits = 1 := by
  induction traced with
  | nil => cases member
  | quiet silent _ ih =>
    rcases List.mem_cons.mp member with rfl | member
    · rw [found, led.loud] at silent
      cases silent
    · exact ih apart.of_cons member
  | unled none _ ih =>
    rw [countAt_cons_other fun here => absurd here (led.other none)]
    exact ih apart member
  | started starts traced ih =>
    obtain ⟨first, apart⟩ := List.pairwise_cons.mp apart
    rcases List.mem_cons.mp member with rfl | member
    · have here := (led.only _).mpr (found ▸ starts.leader)
      have none := countAt_eq_zero led traced fun u later => (first u later).symm
      rw [countAt, List.countP_cons_of_pos (by simp [here, starts.place]), ← countAt, none]
    · rw [countAt_cons_other fun _ => starts.place ▸ first _ member]
      exact ih apart member

end Counting

end Traced

namespace Scan

/-- The tokens of a line stand behind one another. -/
theorem lineFrom_column (line fuel column : Nat) (text : List Char) :
    (∀ t ∈ lineFrom line fuel column text, column ≤ t.position.column) ∧
      (lineFrom line fuel column text).Pairwise fun t u => t.position.column < u.position.column := by
  induction fuel generalizing column text with
  | zero => exact ⟨List.forall_mem_nil _, .nil⟩
  | succ fuel ih =>
    cases text with
    | nil => exact ⟨List.forall_mem_nil _, .nil⟩
    | cons c rest =>
      simp only [lineFrom]
      obtain ⟨behind, apart⟩ := ih (column + 1 + (munch c rest).2) (rest.drop (munch c rest).2)
      split
      · exact ⟨fun t member => by have := behind t member; omega, apart⟩
      · refine ⟨?_, List.pairwise_cons.mpr ⟨fun t member => ?_, apart⟩⟩
        · refine List.forall_mem_cons.mpr ⟨Nat.le_refl _, fun t member => ?_⟩
          have := behind t member
          omega
        · have := behind t member
          dsimp only
          omega

theorem linesFrom_apart (first : Nat) (texts : List (List Char)) :
    (linesFrom first texts).Pairwise fun t u => t.position ≠ u.position := by
  induction texts generalizing first with
  | nil => exact .nil
  | cons text texts ih =>
    rw [linesFrom_cons]
    refine List.pairwise_append.mpr ⟨?_, ih (first + 1), ?_⟩
    · refine (lineFrom_column first text.length 1 text).2.imp fun before same => ?_
      rw [same] at before
      exact Nat.lt_irrefl _ before
    · intro t member u later same
      have here : t.line = first := line_of_mem member
      have below := (line_bounds later).1
      rw [Token.line, ← same, ← Token.line, here] at below
      omega

/-- No two tokens of a text are at the same place. -/
theorem apart (source : String) :
    (ofText source).tokens.Pairwise fun t u => t.position ≠ u.position :=
  linesFrom_apart 1 (lines source.toList)

end Scan

end Pseudocode
