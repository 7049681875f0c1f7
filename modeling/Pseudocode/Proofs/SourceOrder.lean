import Pseudocode.Proofs.Exhaustion
import Pseudocode.Proofs.Printing
import Pseudocode.Proofs.Quiet

/-! Statements in the order of the text. Reading a statement without an error takes its first token, and
behind that nothing but its own parts, so a walk through a program comes to the statements in the order
of the words that announce them. -/
namespace Pseudocode

namespace Reader

variable {s t : Reader} {v : Visit}

/-- A statement without others inside starts with the token that was next. -/
theorem Reads.begun (reads : s.Reads t []) (shorter : t.rest.length < s.rest.length)
    (starts : v.stmt.StartsAt s.current) : s.Reads t [v] := by
  obtain ⟨taken, same, traced⟩ := reads
  cases taken with
  | nil =>
    rw [same] at shorter
    exact absurd shorter (Nat.lt_irrefl _)
  | cons first more =>
    have here : s.current = first := by rw [current, same]; rfl
    cases traced with
    | quiet _ rest => exact ⟨first :: more, same, .started (here ▸ starts) rest⟩

/-- The token that is next is one that is left, unless it is the end of input. -/
theorem Ready.rest_eq (ready : s.Ready) (more : s.current.kind ≠ .endOfInput) :
    s.rest = s.current :: s.advanced.rest := by
  cases left : s.rest with
  | nil =>
    have ended : s.current = s.finish := by rw [current, left]; rfl
    rw [ended] at more
    exact absurd ready.finish more
  | cons first rest => rw [current, advanced, left]; rfl

end Reader

namespace Parse

/-- All statements are met that are read. -/
abbrev Walks (depth : Nat) (stmts : List Stmt) (visits : List Visit) : Prop :=
  visits = blockWalk depth stmts

/-- One statement is read, which starts with the token, and what is inside of it is met. -/
def Inside (depth : Nat) (start : Token) (stmts : List Stmt) (visits : List Visit) : Prop :=
  ∃ s : Stmt, stmts = [s] ∧ s.StartsAt start ∧ visits = s.parts.flatMap (blockWalk (depth + 1))

variable {depth : Nat} {start : Token}

theorem inside_plain {s : Stmt} (starts : s.StartsAt start) (plain : s.parts = []) :
    Inside depth start [s] [] := ⟨s, rfl, starts, by rw [plain]; rfl⟩

theorem TellsAt.announced {next : PUnit → Parse (List Stmt)} (word : start.kind = .keyword w)
    (rest : Tells (next ⟨⟩) (Inside depth start)) :
    TellsAt start (discard advance >>= next) (Walks depth) := by
  rintro s ready rfl stmts t ran clean
  have onward : s.Onward s.advanced := .of_rest (List.tail_suffix _) rfl rfl
  obtain ⟨visits, ⟨taken, same, traced⟩, stmt, rfl, starts, rfl⟩ :=
    rest _ (onward.ready ready) stmts t ran clean
  refine ⟨_, ⟨s.current :: taken, ?_, ?_⟩, (blockWalk_single depth stmt).symm⟩
  · rw [List.cons_append, ← same]
    exact ready.rest_eq (by rw [word]; nofun)
  · rw [Stmt.walk_eq]
    exact .started starts traced

theorem tells_nothing : Tells (pure []) (Walks depth) := tells_pure rfl

/-- Statements that nothing announces. -/
theorem Tells.unled {m : Parse (List Stmt)} (tells : Tells m fun stmts visits =>
    visits = [] ∧ ∀ s ∈ stmts, s.leaders = [] ∧ s.parts = []) : Tells m (Walks depth) := by
  intro s ready stmts t ran clean
  obtain ⟨_, ⟨taken, same, traced⟩, rfl, unled⟩ := tells s ready stmts t ran clean
  refine ⟨_, ⟨taken, same, ?_⟩, rfl⟩
  clear ran
  induction stmts with
  | nil => exact traced
  | cons stmt rest ih =>
    obtain ⟨⟨none, plain⟩, others⟩ := List.forall_mem_cons.mp unled
    rw [blockWalk, Stmt.walk_eq, plain]
    exact .unled none (ih others)

section Simple

variable {room : Nat}

theorem declaration_tells : Tells (declaration start) (Walks depth) := by
  refine .unled ?_
  unfold declaration
  refine tells_after (fun _ => forward_bind fun _ => forward_bind fun _ => inferInstance) fun first =>
    tells_after (fun _ => forward_bind fun _ => inferInstance) fun left => .after fun others =>
    .after fun _ => .after fun array => ?_
  have plain {make : String → Stmt} (names : List String)
      (known : ∀ name, (make name).leaders = [] ∧ (make name).parts = []) :
      ∀ s ∈ names.map make, s.leaders = [] ∧ s.parts = [] := by
    intro s member
    obtain ⟨name, -, rfl⟩ := List.mem_map.mp member
    exact known name
  split
  · exact .after fun bounds => .after fun _ => .after fun elementType =>
      tells_pure ⟨rfl, plain _ fun _ => ⟨rfl, rfl⟩⟩
  · exact .after fun type => tells_pure ⟨rfl, plain _ fun _ => ⟨rfl, rfl⟩⟩

theorem constantDeclaration_tells (word : start.kind = .keyword .CONSTANT) :
    Tells (constantDeclaration room start) (Inside depth start) := by
  have value (name : String) : Tells (expression room >>= fun e =>
      pure [.constant start.position name (some e)]) (Inside depth start) :=
    .after fun e => tells_pure (inside_plain ⟨rfl, word ▸ .head _⟩ rfl)
  unfold constantDeclaration
  refine .after fun name => .after fun assigned => ?_
  split
  · exact value _
  · exact .after fun _ => value _

theorem setStatement_tells (word : start.kind = .keyword .SET) :
    Tells (setStatement room start) (Inside depth start) := by
  unfold setStatement
  exact .after fun _ => .after fun _ => .after fun _ =>
    tells_pure (inside_plain ⟨rfl, word ▸ .head _⟩ rfl)

theorem inputStatement_tells (word : start.kind = .keyword .INPUT) :
    Tells (target room >>= fun t => pure [.input start.position t]) (Inside depth start) :=
  .after fun _ => tells_pure (inside_plain ⟨rfl, word ▸ .head _⟩ rfl)

theorem outputStatement_tells (word : start.kind = .keyword .OUTPUT) :
    Tells (outputStatement room start) (Inside depth start) := by
  unfold outputStatement
  exact .after fun first => .after fun left => .after fun others =>
    tells_pure (inside_plain ⟨rfl, word ▸ .head _⟩ rfl)

theorem callStatement_tells (word : start.kind = .keyword .CALL) :
    Tells (callStatement room start) (Inside depth start) := by
  unfold callStatement
  refine .after fun name => tells_current fun next => ?_
  split
  next opens =>
    refine (argumentList_quiet opens.1).bind fun arguments visits none => ?_
    rw [none]
    exact tells_pure (inside_plain ⟨rfl, word ▸ .head _⟩ rfl)
  next => exact (tells_pure (inside_plain ⟨rfl, word ▸ .head _⟩ rfl)).at

theorem returnStatement_tells (word : start.kind = .keyword .RETURN) :
    Tells (returnStatement room start) (Inside depth start) := by
  unfold returnStatement
  refine .after fun next => .after fun ended => ?_
  split
  · exact tells_pure (inside_plain ⟨rfl, word ▸ .head _⟩ rfl)
  · exact .after fun e => tells_pure (inside_plain ⟨rfl, word ▸ .head _⟩ rfl)

/-- One statement is read, which starts with the token and has no others inside. -/
def Plainly (start : Token) (stmts : List Stmt) (visits : List Visit) : Prop :=
  visits = [] ∧ ∃ s : Stmt, stmts = [s] ∧ s.StartsAt start ∧ s.parts = []

theorem assignmentOrCall_tells (named : start.kind = .identifier) :
    TellsAt start (assignmentOrCall room) (Walks depth) := by
  have value (destination : Target) : Tells (expression room >>= fun e =>
      pure [.assign start.position destination e]) (Plainly start) :=
    .after fun e => tells_pure ⟨rfl, _, rfl, ⟨rfl, named ▸ .tail _ (.head _)⟩, rfl⟩
  have reads : TellsAt start (assignmentOrCall room) (Plainly start) := by
    unfold assignmentOrCall
    refine .current (.call (named ▸ rfl) (fun opened parenthesis => ?_) (Tells.at ?_))
    · refine (argumentList_quiet parenthesis).bind fun arguments visits none => ?_
      rw [none]
      exact tells_pure ⟨rfl, _, rfl, ⟨rfl, named ▸ .tail _ (.head _)⟩, rfl⟩
    · refine .after fun destination => .after fun assigned => ?_
      split
      · exact value destination
      · exact .after fun _ => value destination
  rintro s ready rfl stmts t ran clean
  obtain ⟨_, reads, rfl, stmt, rfl, starts, plain⟩ := reads s ready rfl stmts t ran clean
  have shorter : t.rest.length < s.rest.length := by
    have taken := (Embedding.assignmentOrCall_shrinks room s).of_ok ran
    rw [ready.rest_eq (by rw [named]; nofun)] at taken ⊢
    exact Nat.lt_succ_of_le taken
  refine ⟨_, reads.begun (v := ⟨depth, stmt⟩) shorter starts, ?_⟩
  rw [Walks, blockWalk_single, Stmt.walk_eq, plain]
  rfl

end Simple

section Blocks

variable {statement : Nest → Parse (List Stmt)} [∀ nest, Forward (statement nest)]
  {closers : List Keyword} {nest : Nest}

theorem statements_tells {one : Parse (List Stmt)} [Forward one] (each : Tells one (Walks depth))
    (closers : List Keyword) (fuel : Nat) : Tells (statements one closers fuel) (Walks depth) := by
  induction fuel with
  | zero => exact tells_pure rfl
  | succ fuel ih =>
    unfold statements
    refine tells_current fun token => .still fun ended => ?_
    split
    · exact tells_nothing.at
    · split
      · split
        · exact tells_nothing.at
        · exact (tells_record _ _).at
      · refine (each.orSkip.bind fun first visits same => ih.bind fun rest others same' => ?_).at
        refine tells_pure ?_
        rw [same, same', Walks, blockWalk_append, List.append_nil]

theorem block_tells (each : ∀ depth nest, Tells (statement nest) (Walks depth)) (depth : Nat)
    (nest : Nest) (closers : List Keyword) : Tells (block statement nest closers) (Walks depth) := by
  unfold block
  split
  · exact .after fun _ => tells_fail
  · exact .after fun _ => statements_tells (each depth _) _ _

theorem ifStatement_tells (each : ∀ depth nest, Tells (statement nest) (Walks depth))
    (word : start.kind = .keyword .IF) :
    Tells (ifStatement statement nest start) (Inside depth start) := by
  unfold ifStatement
  refine .after fun condition => (block_tells each (depth + 1) nest _).bind fun thenBranch visits same => ?_
  refine .after fun found => ?_
  have finished (elseBranch : Option (List Stmt)) (others : List Visit)
      (same' : others = otherwiseWalk (depth + 1) elseBranch) :
      Tells (do
        discard <| expectTerminator .ENDIF "IF block" start
        return [.ifThen start.position condition thenBranch elseBranch])
      fun stmts more => Inside depth start stmts (visits ++ (others ++ more)) := by
    refine .after fun _ => tells_pure ⟨_, rfl, ⟨rfl, word ▸ .head _⟩, ?_⟩
    simp [same, same', Stmt.parts, Stmt.blocks, otherwiseWalk_eq]
  split
  · have elseBranch : Tells (some <$> block statement nest [.ENDIF])
        (fun otherwise others => others = otherwiseWalk (depth + 1) otherwise) :=
      (block_tells each (depth + 1) nest _).map fun _ _ same => same
    exact elseBranch.bind finished
  · have elseBranch : Tells (pure none)
        (fun otherwise others => others = otherwiseWalk (depth + 1) otherwise) := tells_pure rfl
    exact elseBranch.bind finished

theorem whileStatement_tells (each : ∀ depth nest, Tells (statement nest) (Walks depth))
    (word : start.kind = .keyword .WHILE) :
    Tells (whileStatement statement nest start) (Inside depth start) := by
  unfold whileStatement
  refine .after fun condition => (block_tells each (depth + 1) nest _).bind fun body visits same => .after fun _ =>
    tells_pure ⟨_, rfl, ⟨rfl, word ▸ .head _⟩, ?_⟩
  simp [same, Stmt.parts, Stmt.blocks]

theorem repeatStatement_tells (each : ∀ depth nest, Tells (statement nest) (Walks depth))
    (word : start.kind = .keyword .REPEAT) :
    Tells (repeatStatement statement nest start) (Inside depth start) := by
  unfold repeatStatement
  refine (block_tells each (depth + 1) nest _).bind fun body visits same => .after fun ended => ?_
  have finished (condition : Option Expr) : Tells (pure [.repeatUntil start.position body condition])
      fun stmts more => Inside depth start stmts (visits ++ more) := by
    refine tells_pure ⟨_, rfl, ⟨rfl, word ▸ .head _⟩, ?_⟩
    simp [same, Stmt.parts, Stmt.blocks]
  split
  · exact .after finished
  · exact .after finished

theorem forStatement_tells (each : ∀ depth nest, Tells (statement nest) (Walks depth))
    (word : start.kind = .keyword .FOR) :
    Tells (forStatement statement nest start) (Inside depth start) := by
  unfold forStatement
  refine .after fun read => (block_tells each (depth + 1) nest _).bind fun body visits same => .after fun found => ?_
  have finished : Inside depth start [.forLoop start.position (read.map (·.1)) (read.map (·.2.1))
      (read.map (·.2.2.1)) (read.bind (·.2.2.2)) body] (visits ++ []) := by
    refine ⟨_, rfl, ⟨rfl, word ▸ .head _⟩, ?_⟩
    simp [same, Stmt.parts, Stmt.blocks]
  split
  · exact .after fun _ => tells_pure finished
  · exact .after fun _ => tells_pure finished

theorem branchBody_tells {one : Parse (List Stmt)} [Forward one] (each : Tells one (Walks depth))
    (fuel : Nat) : Tells (branchBody one fuel) (Walks depth) := by
  induction fuel with
  | zero => exact tells_nothing
  | succ fuel ih =>
    unfold branchBody
    refine .after fun ended => .after fun token => .after fun starts => ?_
    split
    · exact tells_nothing
    · refine each.orSkip.bind fun first visits same => ih.bind fun rest others same' => tells_pure ?_
      rw [same, same', Walks, blockWalk_append, List.append_nil]

theorem caseBranch_tells (each : ∀ depth nest, Tells (statement nest) (Walks depth)) (depth : Nat)
    (nest : Nest) : Tells (caseBranch statement nest) fun b visits => visits = blockWalk depth b.body := by
  unfold caseBranch
  refine .after fun token => .after fun labels => .after fun _ => .after fun fuel => ?_
  refine (branchBody_tells (each depth nest) fuel).bind fun body visits same => tells_pure ?_
  rw [same, List.append_nil]

/-- A word that closes a block starts no statement. -/
theorem leads_of_closer {token : Token} (closes : closer? token = some word) :
    token.kind.leads = false := by
  unfold closer? at closes
  split at closes
  next found =>
    rw [found]
    split at closes
    next closesBlock => cases closes; cases word <;> first | rfl | cases closesBlock
    next => cases closes
  next => cases closes

theorem caseBranches_tells (each : ∀ depth nest, Tells (statement nest) (Walks depth)) (depth : Nat)
    (nest : Nest) (fuel : Nat) : Tells (caseBranches statement nest fuel) fun read visits =>
      visits = branchesWalk depth read.1 ++ otherwiseWalk depth read.2 := by
  have nothing : Tells (pure ([], none)) fun (read : List (Branch Stmt) × Option (List Stmt)) visits =>
    visits = branchesWalk depth read.1 ++ otherwiseWalk depth read.2 := tells_pure rfl
  induction fuel with
  | zero => exact nothing
  | succ fuel ih =>
    unfold caseBranches
    refine tells_current fun token => .still fun ended => ?_
    split
    · exact nothing.at
    · split
      next closes =>
        refine .skip (leads_of_closer closes) (.after fun _ => ?_)
        refine (block_tells each depth nest _).bind fun block visits same => tells_pure ?_
        simp [same, branchesWalk, otherwiseWalk]
      · exact nothing.at
      · have first : Tells (some <$> caseBranch statement nest)
            (fun branch visits => visits = branchesWalk depth branch.toList) :=
          (caseBranch_tells each depth nest).map fun b visits same => by simp [same, branchesWalk]
        refine (first.orSkip.bind fun branch visits same => ih.bind fun read others same' => ?_).at
        refine tells_pure ?_
        simp [same, same', branchesWalk_eq]

theorem caseStatement_tells (each : ∀ depth nest, Tells (statement nest) (Walks depth))
    (word : start.kind = .keyword .CASE) :
    Tells (caseStatement statement nest start) (Inside depth start) := by
  unfold caseStatement
  refine .after fun selector => .after fun fuel => ?_
  refine (caseBranches_tells each (depth + 1) _ fuel).bind fun read visits same => .after fun _ =>
    tells_pure ⟨_, rfl, ⟨rfl, word ▸ .head _⟩, ?_⟩
  simp [same, Stmt.parts, Stmt.blocks, otherwiseWalk_eq, branchesWalk_eq]

/-- A routine that is inside of another statement is reported. -/
theorem routineDeclaration_tells (each : ∀ depth nest, Tells (statement nest) (Walks depth))
    (kind : RoutineKind) (word : start.kind = .keyword kind.opening) :
    Tells (routineDeclaration statement nest start kind) (Inside depth start) := by
  have starts (params : List Param) (name returns : Option String) (body : List Stmt) :
      (Stmt.routine ⟨start.position, kind, name, params, returns, body⟩).StartsAt start := by
    refine ⟨rfl, ?_⟩
    rw [word]
    cases kind <;> exact .head _
  unfold routineDeclaration
  refine .after fun read => (block_tells each (depth + 1) nest _).bind fun body visits same => ?_
  refine Tells.bind (?_ : Tells _ fun _ others => others = []) fun _ others none => ?_
  · cases kind <;> (dsimp only; exact Quiet.tells)
  · split
    · refine tells_pure ⟨_, rfl, starts _ _ _ body, ?_⟩
      simp [same, none, Stmt.parts]
    · exact tells_record _ _

theorem statement_tells (fuel depth : Nat) (nest : Nest) :
    Tells (Parse.statement fuel nest) (Walks depth) := by
  induction fuel generalizing depth nest with
  | zero => exact .after fun _ => tells_fail
  | succ fuel each =>
    unfold Parse.statement
    refine tells_current fun start => ?_
    dsimp only
    split
    next named => exact assignmentOrCall_tells named
    next word => exact .skip (word ▸ rfl) declaration_tells
    next word => exact .announced word (constantDeclaration_tells word)
    next word => exact .announced word (setStatement_tells word)
    next word => exact .announced word (inputStatement_tells word)
    next word => exact .announced word (outputStatement_tells word)
    next word => exact .announced word (ifStatement_tells each word)
    next word => exact .announced word (caseStatement_tells each word)
    next word => exact .announced word (whileStatement_tells each word)
    next word => exact .announced word (repeatStatement_tells each word)
    next word => exact .announced word (forStatement_tells each word)
    next word => exact .announced word (routineDeclaration_tells each .procedure word)
    next word => exact .announced word (routineDeclaration_tells each .function word)
    next word => exact .announced word (callStatement_tells word)
    next word => exact .announced word (returnStatement_tells word)
    all_goals
      intro s _ _ stmts t ran
      cases ran

end Blocks

theorem program_tells : Tells program (Walks 0) := by
  unfold program
  exact .after fun _ => statements_tells (statement_tells _ 0 _) _ _

end Parse

/-- The tokens of a text without errors stand beside the statements of its program. -/
theorem Readable.traced (readable : Readable source) :
    Traced (Scan.ofText source).tokens (Reading.ofScan (.ofText source)).program.walk := by
  obtain ⟨t, ran, clean, -⟩ := readable.ends
  have ready : (Reader.ofText source).Ready := ⟨readable.legible, rfl⟩
  obtain ⟨_, ⟨taken, same, traced⟩, rfl⟩ := Parse.program_tells _ ready _ t ran clean
  have ended : t.rest = [] := (Parse.program_exhausts (.ofText source)).of_ok ran
  have whole : (Scan.ofText source).tokens = taken := by
    rw [← List.append_nil taken, ← ended, ← same]
    rfl
  rw [whole]
  exact traced

/-- An error-free reading neither loses nor invents statements. The words that announce statements are,
in the order of the text, those of the statements on a walk through the program, each at the place of
its statement. A SET is the place of exactly one assignment and a CALL that of exactly one call, and the
count of inputs is that of the INPUT statements. -/
theorem announcements_exact (source : String) (readable : Readable source) :
    (Scan.ofText source).tokens.filterMap Token.announcement =
      (Reading.ofScan (.ofText source)).program.walk.filterMap (fun v => v.stmt.announcement) ∧
    (∀ t ∈ (Scan.ofText source).tokens, t.kind = .keyword .SET →
      countAt Stmt.isAssign t.position (Reading.ofScan (.ofText source)).program.walk = 1) ∧
    (∀ t ∈ (Scan.ofText source).tokens, t.kind = .keyword .CALL →
      countAt Stmt.isCall t.position (Reading.ofScan (.ofText source)).program.walk = 1) ∧
    CommandLine.countInputs (Scan.ofText source) =
      (Reading.ofScan (.ofText source)).program.walk.countP fun v => v.stmt.isInput := by
  have traced := readable.traced
  have apart := Scan.apart source
  refine ⟨traced.announcements_eq, ?_, ?_, ?_⟩
  · intro t member found
    exact traced.countAt_eq_one led_assign apart member found
  · intro t member found
    exact traced.countAt_eq_one led_call apart member found
  · exact traced.countInputs_eq

def guardedInput : String := "IF TRUE THEN\nINPUT x\nENDIF\nSET x TO 1\nCALL p(x)"

theorem guardedInput_exact : Readable guardedInput ∧
    (Reading.ofScan (.ofText guardedInput)).program.walk.filterMap (fun v => v.stmt.announcement) =
      [(.IF, ⟨1, 1⟩), (.INPUT, ⟨2, 1⟩)] ∧
    (∃ t ∈ (Scan.ofText guardedInput).tokens, t.kind = .keyword .SET ∧
      countAt Stmt.isAssign t.position (Reading.ofScan (.ofText guardedInput)).program.walk = 1) ∧
    (∃ t ∈ (Scan.ofText guardedInput).tokens, t.kind = .keyword .CALL ∧
      countAt Stmt.isCall t.position (Reading.ofScan (.ofText guardedInput)).program.walk = 1) ∧
    (Reading.ofScan (.ofText guardedInput)).program.walk.countP (fun v => v.stmt.isInput) = 1 := by
  have readable : Readable guardedInput := by decide +kernel
  obtain ⟨order, sets, calls, inputs⟩ := announcements_exact guardedInput readable
  have set : (⟨.keyword .SET, "SET", ⟨4, 1⟩⟩ : Token) ∈ (Scan.ofText guardedInput).tokens := by
    decide +kernel
  have call : (⟨.keyword .CALL, "CALL", ⟨5, 1⟩⟩ : Token) ∈ (Scan.ofText guardedInput).tokens := by
    decide +kernel
  refine ⟨readable, ?_, ⟨_, set, rfl, sets _ set rfl⟩, ⟨_, call, rfl, calls _ call rfl⟩, ?_⟩
  · rw [← order]
    decide +kernel
  · rw [← inputs]
    decide +kernel

end Pseudocode
