import Pseudocode.Proofs.EmbeddedBlocks
import Pseudocode.Proofs.Lines

/-! Texts one below the other. Statements are read one after the other, and the only thing that a
statement leaves behind for the next one, the tokens read aside, is the number of operators counted
last. So a text below another one reads as it does by itself, further down, or runs into the limit on
operators with some of those of the text above. -/
namespace Pseudocode

namespace Parse

/-- What is read next does not depend on the token read last. -/
def Fresh (m : Parse α) (s : Reader) : Prop := ∀ before, m { s with previous := before } = m s

theorem fresh_skip (next : PUnit → Parse α) (s : Reader) : Fresh (discard advance >>= next) s :=
  fun _ => rfl

theorem fresh_target (name : s.current.kind = .identifier) (room : Nat) : Fresh (target room) s := by
  intro before
  -- The token before goes into the text of an error only, and there is none.
  have same (context context' : String) (next : Token → Parse Target) :
      (expectIdentifier context >>= next) { s with previous := before } =
        (expectIdentifier context' >>= next) s := by
    have found : expectIdentifier context { s with previous := before } = .ok s.current s.advanced :=
      expect_apply (s := { s with previous := before }) name _ _
    have found' : expectIdentifier context' s = .ok s.current s.advanced := expect_apply name _ _
    rw [bind_of_ok found, bind_of_ok found']
  have looks (u : Reader) (next : Option Token → Parse Target) :
      (previous >>= next) u = next u.previous u := rfl
  unfold target
  rw [looks, looks]
  exact same _ _ _

theorem Fresh.bind {m : Parse α} (fresh : Fresh m s) (next : α → Parse β) : Fresh (m >>= next) s := by
  intro before
  show EStateM.bind m next _ = EStateM.bind m next s
  unfold EStateM.bind
  rw [fresh before]

theorem fresh_assignmentOrCall (name : s.current.kind = .identifier) (room : Nat) :
    Fresh (assignmentOrCall room) s := by
  have looks (start : Token) {next : Bool → Parse (List Stmt)} (rest : ∀ b, Fresh (next b) s) :
      Fresh (startsCall >>= next) s := fun before => rest _ before
  have starts {next : Token → Parse (List Stmt)} (rest : ∀ t, Fresh (next t) s) :
      Fresh (current >>= next) s := fun before => rest _ before
  unfold assignmentOrCall
  refine starts fun start => looks start fun calls => ?_
  split
  · exact fresh_skip _ s
  · exact (fresh_target name room).bind _

/-- Only a word that starts a statement, and not TYPE, starts one that can be read. -/
theorem statement_starts (fuel : Nat) (nest : Nest) (s : Reader) : Ends (statement fuel nest) s
    (fun _ _ => s.current.kind.opens = true ∧ s.current.kind ≠ .keyword .TYPE) (fun _ _ => True) := by
  cases fuel with
  | zero => trivial
  | succ fuel =>
    unfold statement
    rw [ends_congr (current_bind _ s)]
    dsimp only
    split
    case h_16 | h_17 | h_18 | h_19 | h_20 => trivial
    all_goals
      rename_i kind
      rw [kind]
      exact ends_of_forall (fun _ _ => by decide) fun _ _ => trivial

theorem fresh_statement (opens : s.current.kind.opens = true) (plain : s.current.kind ≠ .keyword .TYPE)
    (fuel : Nat) (nest : Nest) : Fresh (statement (fuel + 1) nest) s := by
  have starts {next : Token → Parse (List Stmt)} (rest : Fresh (next s.current) s) :
      Fresh (current >>= next) s := rest
  unfold statement
  refine starts ?_
  dsimp only
  split
  case h_1 name => exact fresh_assignmentOrCall name _
  case h_16 type => exact absurd type plain
  case h_17 kind | h_18 kind | h_19 kind =>
    rw [kind] at opens
    cases opens
  case h_20 =>
    cases kind : s.current.kind with
    | identifier => exact absurd kind (by assumption)
    | keyword word =>
      cases word <;> first | exact absurd kind (by assumption) | (rw [kind] at opens; cases opens)
    | _ => rw [kind] at opens; cases opens
  all_goals exact fresh_skip _ s

theorem statements_cons {one : Parse (List Stmt)} (left : s.rest ≠ []) (inner : closer? s.current = none)
    (closers : List Keyword) (fuel : Nat) : statements one closers (fuel + 1) s =
      (orSkip one [] >>= fun first => (first ++ ·) <$> statements one closers fuel) s := by
  have ends (next : Bool → Parse (List Stmt)) : (atEnd >>= next) s = next s.rest.isEmpty s := rfl
  have more : s.rest.isEmpty = false := by simpa using left
  rw [statements, current_bind, ends, more, inner, if_neg Bool.false_ne_true]
  simp only [bind_pure_comp]

/-- The production never fails. -/
def Total (m : Parse α) : Prop := ∀ s, Ends m s (fun _ _ => True) (fun _ _ => False)

theorem Total.bind {m : Parse α} {next : α → Parse β} (total : Total m) (rest : ∀ a, Total (next a)) :
    Total (m >>= next) :=
  fun s => ends_bind.mpr ((total s).mono (fun a t _ => rest a t) fun _ _ never => never)

theorem record_total (fault : SyntaxFault) : Total (record fault) := by
  intro s
  cases fault <;> trivial

theorem orSkip_total (production : Parse α) (instead : α) : Total (orSkip production instead) := by
  have recovers (before : Nat) (fault : SyntaxFault) : Total (itemMissing before instead fault) := by
    unfold itemMissing
    refine (record_total fault).bind fun _ => Total.bind (fun _ => trivial) fun left => ?_
    have resumes : Total (synchronize >>= fun _ => pure instead) :=
      Total.bind (fun _ => trivial) fun _ _ => trivial
    split
    · exact Total.bind (fun _ => trivial) fun _ => resumes
    · exact Total.bind (fun _ => trivial) fun _ => resumes
  intro s
  rw [orSkip_eq]
  show Ends (tryCatch production (itemMissing s.rest.length instead)) s _ _
  cases early : production s with
  | ok a t =>
    unfold Ends
    rw [tryCatch_of_ok early]
    trivial
  | error e t =>
    rw [ends_congr (tryCatch_of_error early)]
    exact recovers _ e t

/-- Reading the statements of a block always comes to an end, whatever is wrong with them. -/
theorem statements_total (one : Parse (List Stmt)) (closers : List Keyword) (fuel : Nat) :
    Total (statements one closers fuel) := by
  induction fuel with
  | zero => exact fun _ => trivial
  | succ fuel ih =>
    unfold statements
    refine Total.bind (fun _ => trivial) fun token => Total.bind (fun _ => trivial) fun ended => ?_
    split
    · exact fun _ => trivial
    · split
      · split
        · exact fun _ => trivial
        · exact (record_total _).bind fun _ => Total.bind (fun _ => trivial) fun _ => ih
      · exact (orSkip_total one []).bind fun first => ih.bind fun rest _ => trivial

theorem fresh_orSkip {production : Parse α} (fresh : Fresh production s) (instead : α) :
    Fresh (orSkip production instead) s := by
  intro before
  rw [orSkip_eq]
  show EStateM.tryCatch production (itemMissing s.rest.length instead) _ =
    EStateM.tryCatch production (itemMissing s.rest.length instead) s
  unfold EStateM.tryCatch
  rw [fresh before]

theorem fresh_statements (opens : s.current.kind.opens = true)
    (plain : s.current.kind ≠ .keyword .TYPE) (left : s.rest ≠ []) (depth : Nat) (nest : Nest)
    (closers : List Keyword) (fuel : Nat) :
    Fresh (statements (statement (depth + 1) nest) closers (fuel + 1)) s := by
  have inner : closer? s.current = none := by
    unfold closer?
    split
    next word kind =>
      rw [kind] at opens
      cases word <;> first | rfl | cases opens
    next => rfl
  intro before
  rw [statements_cons left inner, statements_cons (s := { s with previous := before }) left inner]
  exact (fresh_orSkip (fresh_statement opens plain depth nest) []).bind _ before

/-- A word that closes a block is out of place where none is open. -/
theorem closer_reported {one : Parse (List Stmt)} [Forward one] (left : s.rest ≠ [])
    (closes : closer? s.current = some word) (ran : statements one [] (fuel + 1) s = .ok body t) :
    t.errors ≠ #[] := by
  have ends (next : Bool → Parse (List Stmt)) : (atEnd >>= next) s = next s.rest.isEmpty s := rfl
  have more : s.rest.isEmpty = false := by simpa using left
  rw [statements, current_bind, ends, more, closes, if_neg Bool.false_ne_true] at ran
  dsimp only at ran
  rw [if_neg (by simp)] at ran
  obtain ⟨u, recorded, found⟩ := record_found s.current.position
    (.unmatchedCloser s.current.describe) s
  rw [bind_of_ok recorded] at ran
  have onward : u.Onward t := Forward.of_ok ran
  intro clean
  rw [onward.clean clean] at found
  exact absurd found (Array.not_mem_empty _)

theorem map_congr {m n : Parse α} {s t : Reader} (same : m s = n t) (f : α → β) :
    (f <$> m) s = (f <$> n) t := by
  show EStateM.map f m s = EStateM.map f n t
  unfold EStateM.map
  rw [same]

end Parse

namespace Embedding

open Parse

variable {E : Embedding} {s s' t : Reader}

/-- The text has been read up to its end at `t`, and in the longer text, after the same statements, the
reading goes on with what is below. -/
def Through (E : Embedding) (one : Parse (List Stmt)) (fuel' : Nat) (s' : Reader) (body : List Stmt)
    (t : Reader) : Prop :=
  ∃ body' t' left, E.Joins t t' ∧ t.rest = [] ∧ E.SameBlock body body' ∧ t'.rest.length ≤ left ∧
    statements one [] fuel' s' = ((body' ++ ·) <$> statements one [] left) t'

theorem statements_through {one : Parse (List Stmt)} [Forward one]
    (ones : ∀ {s s'}, E.Joins s s' → s.rest ≠ [] → E.Agrees s s' one one E.SameBlock)
    (shrinks : Shrinks one) (apart : ¬E.inherits) (joins : E.Joins s s') {fuel fuel' : Nat}
    (enough : s.rest.length ≤ fuel) (enough' : s'.rest.length ≤ fuel')
    (ran : statements one [] fuel s = .ok body t) (clean : t.errors = #[]) :
    E.Through one fuel' s' body t := by
  have stops {s s' : Reader} {fuel fuel' : Nat} {body : List Stmt} (joins : E.Joins s s')
      (left : s.rest = []) (enough' : s'.rest.length ≤ fuel')
      (ran : statements one [] fuel s = .ok body t) : E.Through one fuel' s' body t := by
    rw [statements_done one [] fuel left] at ran
    cases ran
    refine ⟨[], s', fuel', joins, left, ⟨rfl, rfl⟩, enough', ?_⟩
    simp only [List.nil_append, id_map']
  induction fuel generalizing fuel' s s' body with
  | zero => exact stops joins (List.eq_nil_of_length_eq_zero (Nat.le_zero.mp enough)) enough' ran
  | succ fuel ih =>
    by_cases left : s.rest = []
    · exact stops joins left enough' ran
    · have long := joins.length
      have positive := List.length_pos_iff.mpr left
      obtain ⟨fuel', rfl⟩ : ∃ n, fuel' = n + 1 := ⟨fuel' - 1, by omega⟩
      obtain ⟨token, r, rest⟩ := List.exists_cons_of_ne_nil left
      obtain ⟨here, here', -⟩ := joins.current_inside rest
      have inner : closer? s.current = none := by
        cases closes : closer? s.current with
        | none => rfl
        | some word => exact absurd clean (closer_reported left closes ran)
      have inner' : closer? s'.current = none := by rw [here', ← inner, here]; rfl
      have left' : s'.rest ≠ [] := by simp [joins.rest, rest]
      rw [statements_cons left inner] at ran
      obtain ⟨first, u, early, later⟩ := bind_eq_ok.mp ran
      rw [← bind_pure_comp] at later
      obtain ⟨more, v, later, ended⟩ := bind_eq_ok.mp later
      cases ended
      have onward := Forward.of_ok later
      have agrees : E.Agrees s s' (orSkip one []) (orSkip one []) E.SameBlock :=
        orSkip_agrees joins (ones joins left)
      have matched := (agrees first u early (onward.clean clean)).resolve_left id
      obtain ⟨first', u', early', joinsU, same⟩ := matched.resolve_left fun past => apart past.1
      have shorter := (shrinks s).of_ok (orSkip_ok joins.legible early joinsU.clean)
      have long' := joinsU.length
      have through : E.Through one fuel' u' more t := ih joinsU (by omega) (by omega) later
      obtain ⟨more', v', last, joinsV, past, sames, enough, continues⟩ := through
      refine ⟨first' ++ more', v', last, joinsV, past, same.append sames, enough, ?_⟩
      rw [statements_cons left' inner', bind_of_ok early', map_congr continues, Functor.map_map]
      simp only [List.append_assoc]

end Embedding

/-- The state in front of a text. -/
def Reader.ofText (source : String) : Reader :=
  ⟨(Scan.ofText source).tokens, (Scan.ofText source).endToken, none, 0, #[]⟩

/-- The text has neither lexical nor syntax errors. -/
def Readable (source : String) : Prop :=
  (Scan.ofText source).errors = [] ∧ (Reading.ofScan (.ofText source)).errors = []

instance (source : String) : Decidable (Readable source) := inferInstanceAs (Decidable (_ ∧ _))

/-- The statements of a text. -/
def bodyOf (source : String) : List Stmt := (Reading.ofScan (.ofText source)).program.body

/-- The operators that are still counted where the reading of a text ends. -/
def operatorsLeft (source : String) : Nat :=
  ((do discard Parse.program; return (← get).operators : Parse Nat).run' (.ofText source)).getD 0

theorem program_ends (source : String) : ∃ t, Parse.program (.ofText source) = .ok (bodyOf source) t ∧
    (Reading.ofScan (.ofText source)).errors = t.errors.toList ∧ operatorsLeft source = t.operators := by
  have total := Parse.statements_total (Parse.statement (SyntaxError.maxNesting + 1) .top) []
    (Reader.ofText source).rest.length (.ofText source)
  cases ran : Parse.program (.ofText source) with
  | error e t => exact (total.of_error ran).elim
  | ok body t =>
    have whole : Reading.ofScan (.ofText source) = ⟨⟨body⟩, t.errors.toList⟩ := by
      have run : Parse.program.run (.ofText source) = .ok body t := ran
      unfold Reader.ofText at run
      rw [Reading.ofScan, Reading.ofTokens, run]
    have counted : operatorsLeft source = t.operators := by
      have discarded : (discard Parse.program : Parse PUnit) (.ofText source) = .ok ⟨⟩ t := by
        show EStateM.map _ Parse.program _ = _
        rw [EStateM.map, ran]
      have read : (do discard Parse.program; return (← get).operators : Parse Nat) (.ofText source) =
          .ok t.operators t := bind_of_ok discarded
      unfold operatorsLeft EStateM.run' EStateM.run
      rw [read]
      rfl
    rw [bodyOf, whole]
    exact ⟨t, rfl, rfl, counted⟩

section Below

variable {source more : String}

theorem Readable.holds (readable : Readable source) (E : Embedding) (tall : E.height = Scan.height source)
    (member : t ∈ (Scan.ofText source).tokens) : E.Holds t := by
  have placed : 1 ≤ t.line ∧ t.line < 1 + _ := Scan.line_bounds member
  refine ⟨placed.1, ?_, Scan.valid_of_mem readable.1 member⟩
  rw [tall, Scan.height]
  omega

theorem Readable.legible (readable : Readable source) : (Reader.ofText source).Legible :=
  ⟨rfl, fun _ member => Scan.valid_of_mem readable.1 member⟩

/-- Where the reading of a text ends. -/
theorem Readable.ends (readable : Readable source) : ∃ t,
    Parse.program (.ofText source) = .ok (bodyOf source) t ∧ t.errors = #[] ∧
      operatorsLeft source = t.operators := by
  obtain ⟨t, ran, errors, counted⟩ := program_ends source
  exact ⟨t, ran, Array.toList_eq_nil_iff.mp (errors.symm.trans readable.2), counted⟩

/-- A text that is read without errors starts with a word that starts a statement, if with any. -/
theorem Readable.starts (readable : Readable source) (left : (Scan.ofText source).tokens = t :: r) :
    t.kind.opens = true ∧ t.kind ≠ .keyword .TYPE := by
  obtain ⟨u, ran, clean, -⟩ := readable.ends
  have some : (Reader.ofText source).rest ≠ [] := by rw [Reader.ofText, left]; nofun
  have first : (Reader.ofText source).current = t := by rw [Reader.current, Reader.ofText, left]; rfl
  have long : (Reader.ofText source).rest.length = r.length + 1 := by rw [Reader.ofText, left]; rfl
  have read : Parse.statements (Parse.statement (SyntaxError.maxNesting + 1) .top) [] (r.length + 1)
      (.ofText source) = .ok (bodyOf source) u := long ▸ ran
  have inner : Parse.closer? (Reader.ofText source).current = none := by
    cases closes : Parse.closer? (Reader.ofText source).current with
    | none => rfl
    | some word => exact absurd clean (Parse.closer_reported some closes read)
  rw [Parse.statements_cons some inner] at read
  obtain ⟨stmts, v, early, later⟩ := bind_eq_ok.mp read
  have onward : v.Onward u := Parse.Forward.of_ok later
  have begun := (Parse.statement_starts _ _ _).of_ok
    (Embedding.orSkip_ok readable.legible early (onward.clean clean))
  rwa [first] at begun

/-- The text above as it stands in the whole. -/
def Embedding.upper (source more : String) : Embedding where
  above := 0
  height := Scan.height source
  below := (Scan.ofText more).tokens.map (.down (Scan.height source))
  finish := (Scan.ofText (source ++ "\n" ++ more)).endToken
  inherits := False

/-- The text below as it stands in the whole. -/
def Embedding.lower (source more : String) : Embedding where
  above := Scan.height source
  height := Scan.height more
  below := []
  finish := (Scan.ofText (source ++ "\n" ++ more)).endToken
  inherits := 0 < operatorsLeft source

theorem Readable.upper_proper (readable : Readable more) : (Embedding.upper source more).Proper := by
  cases left : (Scan.ofText more).tokens with
  | nil => exact .inl ⟨by rw [Embedding.upper, left]; rfl, rfl⟩
  | cons t r =>
    have placed := (readable.holds (Embedding.lower source more) rfl (t := t) (by simp [left])).first
    have next : (Embedding.upper source more).next = t.down (Scan.height source) := by
      rw [Embedding.next, Embedding.upper, left]
      rfl
    refine .inr ⟨?_, ?_⟩
    · rw [next]
      exact (readable.starts left).1
    · rw [next, Token.line_down]
      show 0 + Scan.height source < _
      omega

theorem map_down_zero (tokens : List Token) : tokens.map (Token.down 0) = tokens :=
  List.map_id tokens

theorem Readable.upper_joins (readable : Readable source) :
    (Embedding.upper source more).Joins (.ofText source) (.ofText (source ++ "\n" ++ more)) where
  rest := by
    show (Scan.ofText (source ++ "\n" ++ more)).tokens = List.map (Token.down 0) _ ++ _
    rw [Scan.tokens_append, map_down_zero]
    rfl
  ends := rfl
  finish := rfl
  previous := rfl
  operators := .inl rfl
  tokens := fun _ => readable.holds _ rfl
  before := nofun
  clean := rfl
  clean' := rfl

theorem Readable.lower_joins (readable : Readable more) {t t' : Reader}
    (joins : (Embedding.upper source more).Joins t t') (past : t.rest = [])
    (counted : operatorsLeft source = t.operators) :
    (Embedding.lower source more).Joins (.ofText more) { t' with previous := none } where
  rest := by
    show t'.rest = (Scan.ofText more).tokens.map (.down (Scan.height source)) ++ []
    rw [joins.rest, past, List.append_nil]
    rfl
  ends := rfl
  finish := joins.finish
  previous := rfl
  operators := by
    have same : t'.operators = operatorsLeft source := by
      rw [counted]
      exact joins.operators.resolve_right id
    show t'.operators = 0 ∨ 0 < operatorsLeft source
    omega
  tokens := fun _ => readable.holds _ rfl
  before := nofun
  clean := rfl
  clean' := joins.clean'

/-- The whole text is read as the text above, and from there on as the text below in its place. -/
theorem Readable.whole (readable : Readable source) (readable' : Readable more) :
    ∃ s' left before, (Embedding.lower source more).Joins (.ofText more) s' ∧ s'.rest.length ≤ left ∧
      Parse.program (.ofText (source ++ "\n" ++ more)) =
        ((bodyOf source ++ ·) <$> Parse.statements (Parse.statement (SyntaxError.maxNesting + 1) .top)
          [] left) { s' with previous := before } := by
  obtain ⟨t, ran, clean, counted⟩ := readable.ends
  have proper : (Embedding.upper source more).Proper := readable'.upper_proper
  have stmts := Embedding.statement_agrees proper (SyntaxError.maxNesting + 1)
  obtain ⟨body', t', left, joins, past, same, enough, continues⟩ :=
    Embedding.statements_through (stmts.agrees .top) (stmts.shrinks .top) id readable.upper_joins
      (Nat.le_refl _) (Nat.le_refl _) ran clean
  have unmoved : body' = bodyOf source := by
    rw [same.same, ← blockMoved_eq]
    exact blockMoved_id _
  refine ⟨{ t' with previous := none }, left, t'.previous, readable'.lower_joins joins past counted,
    enough, ?_⟩
  rw [← unmoved]
  exact continues

/-- In its place the text below is read as by itself, or runs into the limit on operators. -/
theorem Readable.inPlace (readable : Readable more) {s' : Reader} {left : Nat}
    (joins : (Embedding.lower source more).Joins (.ofText more) s') (enough : s'.rest.length ≤ left)
    (before : Option Token) :
    ∃ body u, Parse.statements (Parse.statement (SyntaxError.maxNesting + 1) .top) [] left
      { s' with previous := before } = .ok body u ∧
      (u.errors = #[] ∧ body = (bodyOf more).map (Stmt.moved (.down (Scan.height source))) ∨
        0 < operatorsLeft source ∧ (Embedding.lower source more).Overfull u) := by
  obtain ⟨u, ran, clean, -⟩ := readable.ends
  cases tokens : (Scan.ofText more).tokens with
  | nil =>
    have past : (Reader.ofText more).rest = [] := tokens
    have past' : s'.rest = [] := by rw [joins.rest, past]; rfl
    have done := ran.symm.trans (Embedding.statements_done _ [] _ past)
    injection done with none
    refine ⟨[], _, Embedding.statements_done _ [] _ past', .inl ⟨joins.clean', ?_⟩⟩
    rw [none]
    rfl
  | cons t r =>
    have proper : (Embedding.lower source more).Proper := .inl ⟨rfl, rfl⟩
    have stmts := Embedding.statement_agrees proper (SyntaxError.maxNesting + 1)
    have here : s'.current = t.down (Scan.height source) := (joins.current_inside tokens).2.1
    have more' : s'.rest ≠ [] := by rw [joins.rest, Reader.ofText, tokens]; nofun
    have long := List.length_pos_iff.mpr more'
    obtain ⟨left, rfl⟩ : ∃ n, left = n + 1 := ⟨left - 1, by omega⟩
    obtain ⟨opens, plain⟩ := readable.starts tokens
    rw [Parse.fresh_statements (by rw [here]; exact opens) (by rw [here]; exact plain) more']
    have agrees := Embedding.statements_agrees (stmts.agrees .top) (stmts.shrinks .top) [] joins
      (Nat.le_refl _) enough
    obtain ⟨_, below⟩ | past | ⟨body, u', ran', joins', same⟩ := agrees _ u ran clean
    · cases below rfl
    · have total := Parse.statements_total (Parse.statement (SyntaxError.maxNesting + 1) .top) []
        (left + 1) s'
      cases ran' : Parse.statements (Parse.statement (SyntaxError.maxNesting + 1) .top) []
        (left + 1) s' with
      | error e u' => exact (total.of_error ran').elim
      | ok body u' => exact ⟨body, u', rfl, .inr ⟨past.1, past.2.of_ok ran'⟩⟩
    · exact ⟨body, u', ran', .inl ⟨joins'.clean', same.same⟩⟩

end Below

/-- Two texts without errors, one below the other, have no lexical error, and are read as the statements
of the first and, further down, those of the second; or the operators that the first one leaves counted
bring the second past the limit. -/
theorem readable_append (source more : String) (readable : Readable source)
    (readable' : Readable more) :
    (Scan.ofText (source ++ "\n" ++ more)).errors = [] ∧
    ((Reading.ofScan (.ofText (source ++ "\n" ++ more))).errors = [] ∧
      bodyOf (source ++ "\n" ++ more) =
        bodyOf source ++ (bodyOf more).map (Stmt.moved (.down (Scan.height source))) ∨
    0 < operatorsLeft source ∧ ∃ p : Position, Scan.height source < p.line ∧
      SyntaxError.tooManyOperators.diagnostic p ∈
        (Reading.ofScan (.ofText (source ++ "\n" ++ more))).errors) := by
  obtain ⟨s', left, before, joins, enough, continues⟩ := readable.whole readable'
  obtain ⟨v, whole, errors, -⟩ := program_ends (source ++ "\n" ++ more)
  obtain ⟨body, u, ran, outcome⟩ := readable'.inPlace joins enough before
  have mapped : ((bodyOf source ++ ·) <$> Parse.statements
      (Parse.statement (SyntaxError.maxNesting + 1) .top) [] left) { s' with previous := before } =
        .ok (bodyOf source ++ body) u := by
    rw [← bind_pure_comp]
    exact bind_of_ok ran
  have same := whole.symm.trans (continues.trans mapped)
  injection same with sameBody sameEnd
  cases sameEnd
  refine ⟨Scan.errors_append more readable.1 readable'.1, ?_⟩
  rw [errors]
  obtain ⟨clean, rfl⟩ | ⟨counted, p, low, found⟩ := outcome
  · exact .inl ⟨by rw [clean], sameBody⟩
  · exact .inr ⟨counted, p, low, Array.mem_toList_iff.mpr found⟩

/-- Declarations and a sum of two hundred operators. -/
def longSum : List Char :=
  "DECLARE a : ARRAY[1:3] OF INTEGER\nDECLARE x : INTEGER\nx <- 1".toList ++
    (List.replicate 200 ['+', '1']).flatten

/-- The limit is one for each expression, but the operators of an index add to those counted last. -/
theorem longSum_spoils : Readable (.ofList longSum) ∧ Readable "a[1+1] <- 2\nOUTPUT a[2], x" ∧
    ¬Readable (.ofList longSum ++ "\n" ++ "a[1+1] <- 2\nOUTPUT a[2], x") := by
  have above : Scan.ofText (.ofList longSum) = .ofChars longSum := by
    rw [Scan.ofText, String.toList_ofList]
  have whole : Scan.ofText (.ofList longSum ++ "\n" ++ "a[1+1] <- 2\nOUTPUT a[2], x") =
      .ofChars (longSum ++ '\n' :: "a[1+1] <- 2\nOUTPUT a[2], x".toList) := by
    rw [Scan.ofText]
    simp
  unfold Readable
  rw [above, whole]
  decide +kernel

theorem shortSum_above : Readable "x <- 1+1" ∧ Readable "a[1+1] <- 2\nOUTPUT a[2], x" ∧
    bodyOf ("x <- 1+1" ++ "\n" ++ "a[1+1] <- 2\nOUTPUT a[2], x") =
      bodyOf "x <- 1+1" ++ (bodyOf "a[1+1] <- 2\nOUTPUT a[2], x").map (Stmt.moved (.down 1)) := by
  have readable : Readable "x <- 1+1" := by decide +kernel
  have readable' : Readable "a[1+1] <- 2\nOUTPUT a[2], x" := by decide +kernel
  have clean : Readable ("x <- 1+1" ++ "\n" ++ "a[1+1] <- 2\nOUTPUT a[2], x") := by decide +kernel
  have tall : Scan.height "x <- 1+1" = 1 := by decide +kernel
  obtain ⟨_, ⟨_, same⟩ | ⟨_, p, _, found⟩⟩ := readable_append _ _ readable readable'
  · exact ⟨readable, readable', tall ▸ same⟩
  · rw [clean.2] at found
    cases found

end Pseudocode
