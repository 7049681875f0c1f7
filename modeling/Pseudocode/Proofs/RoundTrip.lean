import Pseudocode.Proofs.ReadStatements

/-! Reading undoes printing. Every statement that reading can give is read back from the lines it is
printed as, in every style: by recursion on the statement, since a block inside it is read with one level
of nesting less. -/
namespace Pseudocode

namespace Parse

variable {n fuel : Nat} {line : Option Nat} {marks : List Mark} {cost : Nat} {follows : List Token → Prop}
  {good : List Stmt → Prop} {style : Style} {nest : Nest} {s : Stmt} {word : Keyword} {words : List Word}
  {lines : List (List Word)} {e : Expr} {p : Position}

section Dispatch

/-- The first word says which production reads the statement. -/
theorem reads_dispatch (production : Token → Parse (List Stmt))
    (dispatch : ∀ s : Reader, s.current.kind = .keyword word →
      statement (fuel + 1) nest s = (discard advance >>= fun _ => production s.current) s)
    (reads : ∀ start : Token, start.line = n → Reads (some n) (production start) marks cost follows good) :
    Reads line (statement (fuel + 1) nest) (⟨.keyword word, n⟩ :: marks) cost follows good := by
  intro s own more left same after clear before few
  have stands : Stands line (⟨.keyword word, n⟩ :: marks) follows s := ⟨⟨own, more, left, same, after⟩, clear, before⟩
  have first := facing_cons stands.facing
  rw [dispatch s (congrArg (·.word.kind) first)]
  exact reads_skip (reads _ (congrArg Mark.line first)) s own more left same after clear before few

theorem readsBack_keyword (word : Keyword) (production : Token → Parse (List Stmt))
    (dispatch : ∀ s : Reader, s.current.kind = .keyword word →
      statement (fuel + 1) nest s = (discard advance >>= fun _ => production s.current) s)
    (printed : s.lines style = (.keyword word :: words) :: lines) (known : word.startsStatement = true)
    (reads : ∀ n (start : Token), start.line = n → Reads (some n) (production start)
      (fromLine n (words :: lines)) s.operators (Below (n + (lines.length + 1))) (SameBlock [s])) :
    ReadsBack style (statement (fuel + 1) nest) s := by
  refine ⟨⟨_, lines, printed, .keyword word words known⟩, fun line n => ?_⟩
  rw [printed]
  exact reads_dispatch production dispatch (reads n)

theorem readsBack_keywordLine (word : Keyword) (production : Token → Parse (List Stmt))
    (dispatch : ∀ s : Reader, s.current.kind = .keyword word →
      statement (fuel + 1) nest s = (discard advance >>= fun _ => production s.current) s)
    (printed : s.lines style = [.keyword word :: words]) (known : word.startsStatement = true)
    (reads : ∀ n (start : Token), start.line = n → Reads (some n) (production start)
      (onLine n words) s.operators (Below (n + 1)) (SameBlock [s])) :
    ReadsBack style (statement (fuel + 1) nest) s := by
  refine readsBack_keyword word production dispatch printed known fun n start here => ?_
  rw [fromLine, fromLine, List.append_nil]
  exact reads n start here

/-- A statement that starts with a name is an assignment or a call. -/
theorem readsBack_name {name : String} {sign : Sign} {rest : List Word} (printed : s.lines style = [words])
    (first : words = .name name :: .sign sign :: rest)
    (known : sign ∈ [.assign, .equal, .openBracket, .openParen])
    (reads : ∀ line n, Reads line (assignmentOrCall nest.room) (onLine n words) s.operators (Below (n + 1))
      (SameBlock [s])) : ReadsBack style (statement (fuel + 1) nest) s := by
  subst first
  exact readsBack_line printed (.name name sign rest known) fun line n => reads_named (reads line n)

end Dispatch

section Recursion

mutual

theorem readsBack : ∀ (s : Stmt) {fuel : Nat} {nest : Nest} {top : Bool}, s.normal top = true →
    (top = true → nest.isTop = true) → s.depth ≤ nest.room → nest.room < fuel →
      ReadsBack style (statement fuel nest) s
  | s, 0, _, _, _, _, _, enough => by cases enough
  | .declare p name type, fuel + 1, nest, _, normal, _, _, _ => by
    simp only [Stmt.normal, bne_iff_ne] at normal
    refine readsBack_keywordLine .DECLARE declaration (fun s kind => ?_) (by rw [Stmt.lines]) rfl
      fun n start _ => reads_declare normal
    unfold statement
    rw [current_bind, kind]
  | .declareArray p name bounds type, fuel + 1, nest, _, normal, _, _, _ => by
    simp only [Stmt.normal, Bool.not_eq_true', List.isEmpty_eq_false_iff] at normal
    refine readsBack_keywordLine .DECLARE declaration (fun s kind => ?_) (by rw [Stmt.lines]) rfl
      fun n start _ => reads_declareArray normal
    unfold statement
    rw [current_bind, kind]
  | .constant p name value, fuel + 1, nest, _, normal, _, deep, _ => by
    obtain ⟨e, rfl, normal⟩ := (Option.any_eq_true _ _).mp normal
    refine readsBack_keywordLine .CONSTANT (constantDeclaration nest.room) (fun s kind => ?_)
      (by rw [Stmt.lines]; rfl) rfl fun n start _ =>
        (reads_constant normal deep).narrow fun _ below => below.stops (Nat.lt_succ_self n)
    unfold statement
    rw [current_bind, kind]
  | .assign p target value, fuel + 1, nest, _, normal, _, deep, _ => by
    simp only [Stmt.normal, Bool.and_eq_true] at normal
    simp only [Stmt.depth] at deep
    by_cases set : style.setTo = true
    · refine readsBack_keywordLine .SET (setStatement nest.room) (fun s kind => ?_)
        (by rw [Stmt.lines, if_pos set]) rfl fun n start _ =>
          (reads_setStatement normal.1 normal.2 (by omega) (by omega)).narrow fun _ below =>
            below.stops (Nat.lt_succ_self n)
      unfold statement
      rw [current_bind, kind]
    · obtain ⟨name, sign, rest, printed, known⟩ := target_start style normal.1 (value.words style)
      exact readsBack_name (by rw [Stmt.lines, if_neg set]) printed known fun line n =>
        (reads_assignment normal.1 normal.2 (by omega) (by omega)).narrow fun _ below =>
          below.stops (Nat.lt_succ_self n)
  | .ifThen p condition thenBranch elseBranch, fuel + 1, nest, _, normal, _, deep, enough => by
    simp only [Stmt.normal, Bool.and_eq_true] at normal
    obtain ⟨e, rfl, known⟩ := (Option.any_eq_true _ _).mp normal.1.1
    simp only [Stmt.depth, optionDepth_some] at deep
    refine readsBack_keyword .IF (ifStatement (statement fuel) nest) (fun s kind => ?_)
      (by rw [Stmt.lines, optionWords_some]) rfl fun n start _ => ?_
    · unfold statement
      rw [current_bind, kind]
    · exact reads_ifStatement known (by omega) (by omega)
        (readsBack_block thenBranch _ normal.1.2 (by omega) enough)
        (readsBack_otherwise elseBranch _ normal.2 (by omega) enough)
  | .whileDo p condition body, fuel + 1, nest, _, normal, _, deep, enough => by
    simp only [Stmt.normal, Bool.and_eq_true] at normal
    obtain ⟨e, rfl, known⟩ := (Option.any_eq_true _ _).mp normal.1
    simp only [Stmt.depth, optionDepth_some] at deep
    refine readsBack_keyword .WHILE (whileStatement (statement fuel) nest) (fun s kind => ?_)
      (by rw [Stmt.lines, optionWords_some]) rfl fun n start _ => ?_
    · unfold statement
      rw [current_bind, kind]
    · refine (reads_whileStatement known (by omega) (by omega)
        (readsBack_block body _ normal.2 (by omega) enough)).narrow fun _ below => below.less ?_
      rw [List.length_append, List.length_singleton]
      omega
  | .repeatUntil p body condition, fuel + 1, nest, _, normal, _, deep, enough => by
    simp only [Stmt.normal, Bool.and_eq_true] at normal
    obtain ⟨e, rfl, known⟩ := (Option.any_eq_true _ _).mp normal.2
    simp only [Stmt.depth, optionDepth_some] at deep
    refine readsBack_keyword .REPEAT (repeatStatement (statement fuel) nest) (fun s kind => ?_)
      (by rw [Stmt.lines, optionWords_some]) rfl fun n start _ => ?_
    · unfold statement
      rw [current_bind, kind]
    · refine (reads_repeatStatement known (by omega) (by omega)
        (readsBack_block body _ normal.1 (by omega) enough)).narrow fun _ below => below.less ?_
      rw [List.length_append, List.length_singleton]
      omega
  | .forLoop p counter first last step body, fuel + 1, nest, _, normal, _, deep, enough => by
    simp only [Stmt.normal, Bool.and_eq_true] at normal
    obtain ⟨⟨⟨⟨counted, known⟩, known'⟩, known''⟩, inner⟩ := normal
    obtain ⟨counter, rfl⟩ := Option.isSome_iff_exists.mp counted
    obtain ⟨first, rfl, known⟩ := (Option.any_eq_true _ _).mp known
    obtain ⟨last, rfl, known'⟩ := (Option.any_eq_true _ _).mp known'
    simp only [Stmt.depth, optionDepth_some] at deep
    refine readsBack_keyword .FOR (forStatement (statement fuel) nest) (fun s kind => ?_)
      (by rw [Stmt.lines, optionWords_some, optionWords_some]) rfl fun n start _ => ?_
    · unfold statement
      rw [current_bind, kind]
    · refine (reads_forStatement known known' known'' (by omega) (by omega) (by omega) (by omega)
        (readsBack_block body _ inner (by omega) enough)).mono ?_ (fun _ below => below.less ?_)
          fun _ same => same
      · simp only [Stmt.operators, optionOperators_some]
        omega
      · rw [List.length_append, List.length_singleton]
        omega
  | .caseOf p selector branches otherwise, fuel + 1, nest, _, normal, _, deep, enough => by
    simp only [Stmt.normal, Bool.and_eq_true] at normal
    obtain ⟨e, rfl, known⟩ := (Option.any_eq_true _ _).mp normal.1.1
    simp only [Stmt.depth, optionDepth_some] at deep
    have printed : (Stmt.caseOf p (some e) branches otherwise).lines style =
        (.keyword .CASE :: if style.ofFirst then .keyword .OF :: e.words style
          else e.words style ++ [Word.keyword .OF]) ::
          (branchesLines style branches ++ (otherwiseLines style (otherwiseWords style) otherwise ++
            [[Word.keyword .ENDCASE]])) := by
      rw [Stmt.lines, caseWords]
      cases style.ofFirst <;> rfl
    refine readsBack_keyword .CASE (caseStatement (statement fuel) nest) (fun s kind => ?_)
      printed rfl fun n start _ => ?_
    · unfold statement
      rw [current_bind, kind]
    · have room : nest.room - 1 < fuel + 1 := by omega
      refine (reads_caseStatement known (by omega)
        (readsBack_branches branches _ normal.1.2 (by omega) enough) (by omega)
        (readsBack_otherwise otherwise _ normal.2 (show _ ≤ nest.room - 1 by omega) room)).narrow
          fun _ below => below.less ?_
      simp only [List.length_append, List.length_singleton]
      omega
  | .routine ⟨p, kind, name, params, returns, body⟩, fuel + 1, nest, top, normal, isTop, deep, enough => by
    simp only [Stmt.normal, Bool.and_eq_true] at normal
    obtain ⟨⟨⟨⟨atTop, named⟩, known⟩, stated⟩, inner⟩ := normal
    obtain ⟨name, rfl⟩ := Option.isSome_iff_exists.mp named
    simp only [Stmt.depth] at deep
    refine readsBack_keyword kind.opening (routineDeclaration (statement fuel) nest · kind) (fun s opens => ?_)
      (by rw [Stmt.lines, routineWords]) (by cases kind <;> rfl) fun n start _ => ?_
    · unfold statement
      rw [current_bind, opens]
      cases kind <;> rfl
    · refine (reads_routine known stated (by omega) (isTop atTop)
        (readsBack_block body _ inner (by omega) enough)).narrow fun _ below => below.less ?_
      rw [List.length_append, List.length_singleton]
      omega
  | .giveBack p none, fuel + 1, nest, _, _, _, _, _ => by
    refine readsBack_keywordLine .RETURN (returnStatement nest.room) (fun s kind => ?_)
      (by rw [Stmt.lines]) rfl fun n start here => reads_giveNothing here
    unfold statement
    rw [current_bind, kind]
  | .giveBack p (some e), fuel + 1, nest, _, normal, _, deep, _ => by
    refine readsBack_keywordLine .RETURN (returnStatement nest.room) (fun s kind => ?_)
      (by rw [Stmt.lines]; rfl) rfl fun n start here =>
        (reads_giveBack here normal deep).narrow fun _ below => below.stops (Nat.lt_succ_self n)
    unfold statement
    rw [current_bind, kind]
  | .call p q callee arguments, fuel + 1, nest, _, normal, _, deep, _ => by
    by_cases word : style.callWord = true
    · refine readsBack_keywordLine .CALL (callStatement nest.room) (fun s kind => ?_)
        (by rw [Stmt.lines, callWords, if_pos word]) rfl fun n start _ => reads_call normal deep
      unfold statement
      rw [current_bind, kind]
    · have printed : (Stmt.call p q callee arguments).lines style =
          [.name callee :: parenthesised (separated [.sign .comma] (exprsWords style arguments))] := by
        rw [Stmt.lines, callWords, if_neg word]
      exact readsBack_name printed rfl (by decide) fun line n => reads_bareCall normal deep
  | .output p values, fuel + 1, nest, _, normal, _, deep, _ => by
    simp only [Stmt.normal, Bool.and_eq_true, Bool.not_eq_true', List.isEmpty_eq_false_iff] at normal
    refine readsBack_keywordLine .OUTPUT (outputStatement nest.room) (fun s kind => ?_)
      (by rw [Stmt.lines]) rfl fun n start here => reads_output here normal.1 normal.2 deep
    unfold statement
    rw [current_bind, kind]
  | .input p target, fuel + 1, nest, _, normal, _, deep, _ => by
    refine readsBack_keywordLine .INPUT (fun start => do return [.input start.position (← Parse.target nest.room)])
      (fun s kind => ?_) (by rw [Stmt.lines]) rfl fun n start here =>
        (reads_input normal deep).narrow fun _ below => below.stops (Nat.lt_succ_self n)
    unfold statement
    rw [current_bind, kind]
  | .strayCall .., _, _, _, normal, _, _, _ => by cases normal
  | .stray .., _, _, _, normal, _, _, _ => by cases normal

theorem readsBack_block : ∀ (block : List Stmt) {fuel : Nat} {nest : Nest} (closers : List Keyword),
    blockNormal false block = true → blockDepth block + 1 ≤ nest.room → nest.room < fuel + 1 →
      Body style (statement fuel) nest closers block
  | [], _, _, _, _, _, _ => fun _ member => nomatch member
  | s :: rest, fuel, nest, closers, normal, deep, enough => by
    simp only [blockNormal, Bool.and_eq_true] at normal
    simp only [blockDepth] at deep
    have first : ReadsBack style (statement fuel (nest.deeper closers)) s :=
      readsBack s normal.1 nofun (show _ ≤ nest.room - 1 by omega) (show nest.room - 1 < fuel by omega)
    have others := readsBack_block rest closers normal.2 (by omega) enough
    exact fun t member => (List.mem_cons.mp member).elim (fun same => same ▸ first) (others t)

theorem readsBack_otherwise : ∀ (otherwise : Option (List Stmt)) {fuel : Nat} {nest : Nest}
    (closers : List Keyword), otherwiseNormal otherwise = true → otherwiseDepth otherwise ≤ nest.room →
      nest.room < fuel + 1 → ∀ block ∈ otherwise, Body style (statement fuel) nest closers block
  | none, _, _, _, _, _, _ => fun _ member => nomatch member
  | some block, _, _, closers, normal, deep, enough => by
    intro other same
    cases same
    exact readsBack_block block closers normal deep enough

theorem readsBack_branches : ∀ (branches : List (Branch Stmt)) {fuel : Nat} {nest : Nest}
    (closers : List Keyword), branchesNormal branches = true → branchesDepth branches + 1 ≤ nest.room →
      nest.room < fuel + 1 → ∀ b ∈ branches, BranchBack style (statement fuel) (nest.deeper closers) b
  | [], _, _, _, _, _, _ => fun _ member => nomatch member
  | ⟨labels, body, line⟩ :: rest, _, nest, closers, normal, deep, enough => by
    simp only [branchesNormal, Bool.and_eq_true, Bool.not_eq_true', List.isEmpty_eq_false_iff] at normal
    simp only [branchesDepth] at deep
    have statements := readsBack_block body closers normal.1.2 (by omega) enough
    have labelled : exprsDepth labels ≤ nest.room - 1 := by omega
    have first := branchBack (b := ⟨labels, body, line⟩) normal.1.1.1 normal.1.1.2 labelled statements
    have others := readsBack_branches rest closers normal.2 (by omega) enough
    exact fun b member => (List.mem_cons.mp member).elim (fun same => same ▸ first) (others b)

end

end Recursion

section Programs

theorem blockNormal_iff {top : Bool} {block : List Stmt} :
    blockNormal top block = true ↔ ∀ s ∈ block, s.normal top = true := by
  induction block with
  | nil => simp [blockNormal]
  | cons s rest ih => simp [blockNormal, ih]

theorem depth_of_mem_block {block : List Stmt} (member : s ∈ block) : s.depth ≤ blockDepth block := by
  induction block with
  | nil => cases member
  | cons t rest ih =>
    rw [blockDepth]
    obtain rfl | member := List.mem_cons.mp member
    · exact Nat.le_max_left _ _
    · exact Nat.le_trans (ih member) (Nat.le_max_right _ _)

/-- All statements of a program, up to the end of the text. -/
theorem reads_program {p : Program} (normal : p.normal = true) (shallow : p.depth < SyntaxError.maxNesting) :
    Reads line program (fromLine n (p.lines style)) p.operators (· = []) (SameBlock p.body) := by
  have all : ∀ s ∈ p.body, ReadsBack style (statement (SyntaxError.maxNesting + 1) .top) s := fun s member =>
    readsBack s (blockNormal_iff.mp normal s member) (fun _ => rfl)
      (Nat.le_trans (depth_of_mem_block member) (Nat.le_pred_of_lt shallow)) (by decide)
  unfold program
  refine reads_remaining fun fuel enough => (reads_statements all enough).narrow ?_
  rintro _ rfl t first
  cases first

end Programs

end Parse

/-- A program is read from its lines, and nothing is reported. -/
theorem ofTokens_of_lines {p : Program} {style : Style} {line : Nat} {tokens : List Token} {finish : Token}
    (normal : p.normal = true) (shallow : p.depth < SyntaxError.maxNesting)
    (few : p.operators ≤ SyntaxError.maxOperators)
    (printed : tokens.map Token.mark = fromLine line (p.lines style)) (ends : finish.kind = .endOfInput) :
    ∃ body, Reading.ofTokens tokens finish = ⟨⟨body⟩, []⟩ ∧ SameBlock p.body body :=
  ofTokens_of_reads (Parse.reads_program normal shallow) few printed ends

/-- Reading undoes printing. A program in the normal form of the reader, which nests no deeper and has
no more operators than the reader allows, is read from the tokens of its lines without an error, and is
the same program in the places where its tokens stand. -/
theorem reading_undoes_printing {p : Program} {style : Style} {line : Nat} {tokens : List Token}
    {finish : Token} (normal : p.normal = true) (shallow : p.depth < SyntaxError.maxNesting)
    (few : p.operators ≤ SyntaxError.maxOperators)
    (printed : tokens.map Token.mark = fromLine line (p.lines style)) (ends : finish.kind = .endOfInput) :
    (Reading.ofTokens tokens finish).errors = [] ∧
      (Reading.ofTokens tokens finish).program.moved nowhere = p.moved nowhere := by
  obtain ⟨body, read, same⟩ := ofTokens_of_lines normal shallow few printed ends
  rw [read]
  exact ⟨rfl, congrArg Program.mk same⟩

section Sample

def here : Position := ⟨1, 1⟩

/-- Branches that end in front of labels of every kind, one of them without a statement, a call without
arguments in front of an assignment, and RETURN alone at the end of a block. -/
def graded : Program := ⟨[
  .declareArray here "marks" [⟨-1, 5⟩, ⟨1, 2⟩] "INTEGER",
  .routine ⟨here, .procedure, some "grade", [⟨"m", "INTEGER", .byReference, none⟩,
    ⟨"all", "ARRAY", .byReference, some "REAL"⟩], none, [
    .ifThen here (some (.binary here .less (.name here "m") (.literal here (.integer (-1)))))
      [.giveBack here none] (some [.call here here "reset" []]),
    .assign here (.element here "marks" [.unary here .minus (.name here "m"), .literal here (.integer 1)])
      (.call here "LENGTH" [.literal here (.string "abc")])]⟩,
  .forLoop here (some "i") (some (.literal here (.integer (-1)))) (some (.name here "last"))
    (some (.literal here (.integer 2))) [
    .caseOf here (some (.name here "i")) [
      ⟨[.literal here (.integer (-1)), .name here "low"], [.call here here "reset" []], 1⟩,
      ⟨[.range here (.literal here (.integer (-5))) (.name here "high")], [], 1⟩,
      ⟨[.name here "last"], [.whileDo here (some (.literal here (.boolean true))) []], 1⟩]
      (some [.output here [.name here "i", .literal here (.char "x")]])],
  .repeatUntil here [.input here (.variable here "i")] (some (.unary here .not (.name here "done")))]⟩

def gradedStyle : Style := { upperAlone := true, callWord := false, sticky := true, colon := true }

theorem graded_read : graded.normal = true ∧ graded.depth < SyntaxError.maxNesting ∧
    graded.operators ≤ SyntaxError.maxOperators ∧
    (Reading.ofTokens ((fromLine 1 (graded.lines gradedStyle)).map Mark.token)
      ⟨.endOfInput, "", ⟨25, 1⟩⟩).errors = [] ∧
    (Reading.ofTokens ((fromLine 1 (graded.lines gradedStyle)).map Mark.token)
      ⟨.endOfInput, "", ⟨25, 1⟩⟩).program.moved nowhere = graded.moved nowhere :=
  ⟨by decide, by decide, by decide, reading_undoes_printing (by decide) (by decide) (by decide)
    (marks_of_tokens _) rfl⟩

/-- What is printed is what the text of the program is scanned as. -/
example : (Scan.ofText "IF (m < -1) THEN\nRETURN\nENDIF").tokens.map Token.mark = fromLine 1
    (Program.lines {} ⟨[.ifThen here (some (.binary here .less (.name here "m") (.literal here (.integer (-1)))))
      [.giveBack here none] none]⟩) := by
  decide +kernel

end Sample

/-- Programs that are printed the same in some styles are the same in some places. -/
theorem moved_eq_of_lines_eq {p q : Program} {style style' : Style} (normal : p.normal = true)
    (normal' : q.normal = true) (shallow : p.depth < SyntaxError.maxNesting)
    (shallow' : q.depth < SyntaxError.maxNesting) (few : p.operators ≤ SyntaxError.maxOperators)
    (few' : q.operators ≤ SyntaxError.maxOperators) (same : p.lines style = q.lines style') :
    p.moved nowhere = q.moved nowhere := by
  have ends : (⟨.endOfInput, "", ⟨1, 1⟩⟩ : Token).kind = .endOfInput := rfl
  obtain ⟨body, read, known⟩ := ofTokens_of_lines normal shallow few
    (marks_of_tokens (fromLine 1 (p.lines style))) ends
  obtain ⟨body', read', known'⟩ := ofTokens_of_lines normal' shallow' few'
    (marks_of_tokens (fromLine 1 (q.lines style'))) ends
  rw [same, read'] at read
  cases read
  exact congrArg Program.mk (known.symm.trans known')

end Pseudocode
