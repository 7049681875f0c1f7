import Pseudocode.Proofs.TrackedStatements

/-! Reading is total. Whatever the tokens, reading with stacks gets to the end of input and never stands
where a production cannot go on: no index is out of range, no stack is empty when its top is asked for,
only the innermost delimiter is closed, and no loop takes more rounds than there are tokens. Behind the
last token nothing is open, and what has been read is the program that reading from a list gives. -/
namespace Pseudocode

namespace Scan

theorem number_ne_end (whole rest : List Char) : (number whole rest).1 ≠ .endOfInput := by
  have integer (digits : List Char) : number.integerKind digits ≠ .endOfInput := by
    unfold number.integerKind
    split <;> simp
  unfold number
  split
  · dsimp only
    split
    · exact integer _
    · simp
  · exact integer _

theorem wordKind_ne_end (word : String) : wordKind word ≠ .endOfInput := by
  unfold wordKind
  repeat' split
  all_goals simp

theorem munch_ne_end (c : Char) (rest : List Char) : (munch c rest).1 ≠ some .endOfInput := by
  have number := number_ne_end (c :: rest.takeWhile Text.isDigit) (rest.dropWhile Text.isDigit)
  have word := wordKind_ne_end (String.ofList (c :: rest.takeWhile isWordPart))
  unfold munch
  split
  · simp
  split
  · simp
  split
  · simp
  split
  · simpa using number
  split
  · split <;> simp
  split
  · simpa using word
  split <;> simp

theorem lineFrom_ne_end (line fuel column : Nat) (text : List Char) :
    ∀ token ∈ lineFrom line fuel column text, token.kind ≠ .endOfInput := by
  induction fuel generalizing column text with
  | zero => simp [lineFrom]
  | succ fuel ih =>
    cases text with
    | nil => simp [lineFrom]
    | cons c rest =>
      have others := ih (column + 1 + (munch c rest).2) (rest.drop (munch c rest).2)
      simp only [lineFrom]
      split
      · exact others
      next kind munched =>
        refine List.forall_mem_cons.mpr ⟨fun ended => ?_, others⟩
        exact munch_ne_end c rest (munched.trans (congrArg some ended))

/-- The end of input is no part of a line. -/
theorem tokens_ne_end (source : String) :
    ∀ token ∈ (ofText source).tokens, token.kind ≠ .endOfInput := by
  intro token member
  obtain ⟨line, _, member⟩ := List.mem_flatMap.mp member
  exact lineFrom_ne_end _ _ _ _ token member

end Scan

namespace Tracking

/-- Started in front of all tokens, reading with stacks comes to the end of input with nothing open, and
has read what reading from a list reads. -/
def Completes (tokens : List Token) (finish : Token) (limit : Nat) : Prop :=
  ∃ final : Cursor,
    Tracking.program limit (.start (tokens ++ [finish])) =
      .ok (Reading.ofTokens tokens finish).program.body final ∧
    final.errors.toList = (Reading.ofTokens tokens finish).errors ∧
    final.pos = tokens.length ∧ final.blocks = [] ∧ final.depth = 0

variable {here : Standing}

theorem program_tracks (start : here.blocks = []) (alone : here.depth = 0) :
    Tracks here none Parse.program (Tracking.program here.limit) where
  agrees {s c} mirrors := by
    have outermost : (here.inside []).nest = Nest.top := by
      simp [Standing.nest, Standing.room, Nest.top, start, alone]
    have one : Tracks (here.inside []) none (Parse.statement (SyntaxError.maxNesting + 1) .top)
        (Tracking.statement here.limit here.limit) :=
      outermost ▸ statement_tracks here.limit (SyntaxError.maxNesting + 1) (here.inside []) alone
        (List.cons_ne_nil _ _) (Nat.lt_succ_of_le (Nat.sub_le ..)) (here.inside []).room_below
    have reads : Tracks (here.inside []) none Parse.program
        (Tracking.statements here.limit (Tracking.statement here.limit here.limit) here.limit) := by
      refine tracks_remaining fun {s c} mirrors => ?_
      have agrees : Agrees (here.inside []) none
          (Parse.statements (Parse.statement (SyntaxError.maxNesting + 1) .top)
            (here.inside []).blocks.flatten s.rest.length s)
          (Tracking.statements here.limit (Tracking.statement here.limit here.limit) here.limit c) :=
        statements_agrees (Embedding.statement_shrinks _ _) mirrors (Nat.le_refl _) mirrors.below
      rwa [List.flatten_cons, start] at agrees
    unfold Tracking.program Tracking.block
    rw [get_bind, mirrors.blocks, start, if_neg (by decide)]
    exact (tracks_inBlock reads).agrees mirrors

theorem start_mirrors (start : here.blocks = []) (alone : here.depth = 0) :
    Mirrors here none ⟨here.stream.tokens, here.stream.finish, none, 0, #[]⟩
      (.start here.stream.all) where
  tokens := rfl
  bounded := Nat.zero_le _
  rest := rfl
  finish := rfl
  previous := rfl
  operators := rfl
  errors := rfl
  blocks := start.symm
  depth := alone.symm
  within := by simp

theorem completes (stream : TokenStream) (limit : Nat)
    (long : stream.tokens.length + SyntaxError.maxNesting + 2 ≤ limit) :
    Completes stream.tokens stream.finish limit := by
  let here : Standing := ⟨stream, limit, long, [], 0⟩
  have tracks : Tracks here none Parse.program (Tracking.program limit) := program_tracks rfl rfl
  have mirrors : Mirrors here none _ (.start stream.all) := start_mirrors rfl rfl
  have agrees : Agrees here none (Parse.program _) (Tracking.program limit (.start stream.all)) :=
    tracks.agrees mirrors
  have ended := Parse.program_exhausts ⟨stream.tokens, stream.finish, none, 0, #[]⟩
  generalize went : Tracking.program limit (.start stream.all) = result at agrees
  cases ran : Parse.program ⟨stream.tokens, stream.finish, none, 0, #[]⟩ with
  | error e t => exact (ended.of_error ran).elim
  | ok body t =>
    have left : t.rest = [] := ended.of_ok ran
    have read : Reading.ofTokens stream.tokens stream.finish = ⟨⟨body⟩, t.errors.toList⟩ := by
      unfold Reading.ofTokens EStateM.run
      rw [ran]
    rw [ran] at agrees
    cases agrees with
    | ok mirrors =>
      rename_i final
      rw [Completes, read]
      refine ⟨final, went, congrArg Array.toList mirrors.errors, ?_, mirrors.blocks, mirrors.depth⟩
      have length := mirrors.length
      rw [left, List.length_nil, Nat.zero_add] at length
      exact length

/-- Reading completes for all tokens with one end of input, the last, and so for those of every text.
Since nothing but an error of the text is ever handled, no breakdown has happened on the way. The program
read does not depend on how many rounds and nestings are allowed, if there are enough. -/
theorem reading_completes :
    (∀ (tokens : List Token) (finish : Token) (limit : Nat), finish.kind = .endOfInput →
      (∀ token ∈ tokens, token.kind ≠ .endOfInput) →
      tokens.length + SyntaxError.maxNesting + 2 ≤ limit → Completes tokens finish limit) ∧
    ∀ (source : String) (limit : Nat),
      (Scan.ofText source).tokens.length + SyntaxError.maxNesting + 2 ≤ limit →
      Completes (Scan.ofText source).tokens (Scan.ofText source).endToken limit := by
  constructor
  · intro tokens finish limit ends only long
    exact completes ⟨tokens, finish, ends, only⟩ limit long
  · intro source limit long
    exact completes ⟨_, _, rfl, Scan.tokens_ne_end source⟩ limit long

/-- Delimiters and blocks are left open, and a word closes nothing. -/
def tornSource : String := "IF (a[1 THEN\nENDWHILE\nCASE b OF\n1: OUTPUT ("

theorem tornSource_completes :
    (∀ token ∈ (Scan.ofText tornSource).tokens, token.kind ≠ .endOfInput) ∧
    (Scan.ofText tornSource).tokens.length = 14 ∧
    (Reading.ofScan (.ofText tornSource)).errors.length = 5 ∧
    Completes (Scan.ofText tornSource).tokens (Scan.ofText tornSource).endToken 116 := by
  have only : ∀ token ∈ (Scan.ofText tornSource).tokens, token.kind ≠ .endOfInput := by decide +kernel
  refine ⟨only, by decide +kernel, by decide +kernel, ?_⟩
  exact reading_completes.1 _ _ _ rfl only (by decide +kernel)

end Tracking

end Pseudocode
