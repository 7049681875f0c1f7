import Pseudocode.Program.Statement
import Pseudocode.Proofs.Ends

/-! FOR loops as the reader leaves them. A header is read as a whole or not at all, so a loop has its
counter and both of its bounds, or nothing of a header. -/
namespace Pseudocode

mutual

/-- No FOR loop in the statement has only some parts of its header. -/
def Stmt.whole : Stmt → Bool
  | .ifThen _ _ thenBranch elseBranch => blockWhole thenBranch && otherwiseWhole elseBranch
  | .whileDo _ _ body => blockWhole body
  | .repeatUntil _ body _ => blockWhole body
  | .forLoop _ counter start stop step body =>
    (counter.isSome && start.isSome && stop.isSome ||
      counter.isNone && start.isNone && stop.isNone && step.isNone) && blockWhole body
  | .caseOf _ _ branches otherwise => branchesWhole branches && otherwiseWhole otherwise
  | .routine ⟨_, _, _, _, _, body⟩ => blockWhole body
  | _ => true

def blockWhole : List Stmt → Bool
  | [] => true
  | s :: rest => s.whole && blockWhole rest

def otherwiseWhole : Option (List Stmt) → Bool
  | none => true
  | some block => blockWhole block

def branchesWhole : List (Branch Stmt) → Bool
  | [] => true
  | ⟨_, body, _⟩ :: rest => blockWhole body && branchesWhole rest

end

theorem blockWhole_iff {block : List Stmt} : blockWhole block = true ↔ ∀ s ∈ block, s.whole = true := by
  induction block with
  | nil => simp [blockWhole]
  | cons s rest ih => simp [blockWhole, ih]

theorem branchesWhole_iff {branches : List (Branch Stmt)} :
    branchesWhole branches = true ↔ ∀ b ∈ branches, ∀ s ∈ b.body, s.whole = true := by
  induction branches with
  | nil => simp [branchesWhole]
  | cons b rest ih => simp [branchesWhole, blockWhole_iff, ih]

/-- Statements that are all whole. -/
abbrev Wholes (block : List Stmt) : Prop := ∀ s ∈ block, s.whole = true

/-- No FOR loop of the program has only some parts of its header. -/
def Program.Whole (p : Program) : Prop := Wholes p.body

theorem Program.Whole.routines {p : Program} (whole : p.Whole) : ∀ r ∈ p.routines, Wholes r.body := by
  intro r member
  obtain ⟨s, stated, same⟩ := List.mem_filterMap.mp member
  cases s with
  | routine q =>
    cases same
    have inner := whole _ stated
    exact blockWhole_iff.mp (by simpa only [Stmt.whole] using inner)
  | _ => cases same

namespace Parse

/-- Whatever the production returns is as described. -/
def Yields (production : Parse α) (good : α → Prop) : Prop :=
  ∀ s, Ends production s (fun a _ => good a) (fun _ _ => True)

variable {α β : Type} {production : Parse α} {good : α → Prop}

theorem Yields.any (production : Parse α) : Yields production (fun _ => True) :=
  fun _ => ends_of_forall (fun _ _ => trivial) fun _ _ => trivial

theorem yields_pure (known : good a) : Yields (pure a) good := fun _ => known

theorem yields_throw (fault : SyntaxFault) : Yields (throw fault) good := fun _ => trivial

theorem Yields.bind {next : α → Parse β} {goodNext : β → Prop} (first : Yields production good)
    (rest : ∀ a, good a → Yields (next a) goodNext) : Yields (production >>= next) goodNext := by
  intro s
  rw [ends_bind]
  exact (first s).mono (fun a t known => rest a known t) fun _ _ _ => trivial

/-- Anything may be read before what counts. -/
theorem Yields.after {next : α → Parse β} {goodNext : β → Prop}
    (rest : ∀ a, Yields (next a) goodNext) : Yields (production >>= next) goodNext :=
  (Yields.any production).bind fun a _ => rest a

theorem Yields.map {f : α → β} {goodNext : β → Prop} (first : Yields production good)
    (known : ∀ a, good a → goodNext (f a)) : Yields (f <$> production) goodNext := by
  intro s
  rw [ends_map]
  exact (first s).mono (fun a t here => known a here) fun _ _ _ => trivial

/-- After a failure the rest decides alone. -/
theorem yields_tryCatch {handle : SyntaxFault → Parse α} (first : Yields production good)
    (rest : ∀ fault, Yields (handle fault) good) : Yields (tryCatch production handle) good := by
  intro s
  show Ends (EStateM.tryCatch production handle) s _ _
  unfold Ends EStateM.tryCatch
  cases ran : production s with
  | ok a t => exact (first s).of_ok ran
  | error fault t => exact rest fault _

/-- Either way of leaving a block that can be left early. -/
def Settled (good : α → Prop) : Except α α → Prop
  | .ok a => good a
  | .error a => good a

theorem yields_settled {early : Parse (Except α α)} (settles : Yields early (Settled good)) :
    Yields (early >>= fun e => EarlyReturn.runK e (fun a => pure a) fun a => pure a) good := by
  refine settles.bind fun e settled => ?_
  cases e with
  | ok a => exact yields_pure settled
  | error a => exact yields_pure settled

theorem yields_orSkip (first : Yields production good) (known : good instead) :
    Yields (orSkip production instead) good := by
  have skipped : Yields (synchronize >>= fun _ => pure (.error instead)) (Settled good) :=
    .after fun _ => yields_pure known
  unfold orSkip
  refine .after fun before => yields_settled (yields_tryCatch ?_ fun fault => ?_)
  · exact first.bind fun a here => yields_pure here
  · refine .after fun _ => .after fun left => ?_
    dsimp only
    split
    · exact .after fun _ => skipped
    · exact skipped

theorem statements_whole {one : Parse (List Stmt)} (each : Yields one Wholes)
    (closers : List Keyword) (fuel : Nat) : Yields (statements one closers fuel) Wholes := by
  induction fuel with
  | zero => exact yields_pure nofun
  | succ fuel ih =>
    unfold statements
    refine .after fun token => .after fun ended => ?_
    split
    · exact yields_pure nofun
    · split
      · split
        · exact yields_pure nofun
        · exact .after fun _ => .after fun _ => ih
      · refine (yields_orSkip each (List.forall_mem_nil _)).bind fun first firstWhole => ?_
        refine ih.bind fun rest restWhole => yields_pure ?_
        exact List.forall_mem_append.mpr ⟨firstWhole, restWhole⟩

variable {statement : Nest → Parse (List Stmt)}

theorem block_whole (each : ∀ nest, Yields (statement nest) Wholes) (nest : Nest)
    (closers : List Keyword) : Yields (block statement nest closers) Wholes := by
  unfold block
  split
  · exact .after fun _ => yields_throw _
  · exact .after fun _ => statements_whole (each _) _ _

/-- One statement is whole as soon as its blocks are. -/
theorem whole_single {s : Stmt} (whole : s.whole = true) : Wholes [s] := by
  rintro _ (_ | ⟨_, ⟨⟩⟩)
  exact whole

theorem ifStatement_whole (each : ∀ nest, Yields (statement nest) Wholes) (nest : Nest)
    (start : Token) : Yields (ifStatement statement nest start) Wholes := by
  unfold ifStatement
  refine .after fun condition => (block_whole each nest _).bind fun thenBranch thenWhole => ?_
  have finished (elseBranch : Option (List Stmt)) (elseWhole : otherwiseWhole elseBranch = true) :
      Yields (do
        discard <| expectTerminator .ENDIF "IF block" start
        return [.ifThen start.position condition thenBranch elseBranch]) Wholes :=
    .after fun _ => yields_pure <| whole_single <| by
      simp [Stmt.whole, blockWhole_iff.mpr thenWhole, elseWhole]
  refine .after fun found => ?_
  split
  · have elseBranch : Yields (some <$> block statement nest [.ENDIF])
        (fun otherwise => otherwiseWhole otherwise = true) :=
      (block_whole each nest _).map fun block whole => blockWhole_iff.mpr whole
    exact elseBranch.bind finished
  · exact (yields_pure (by rfl)).bind finished

theorem whileStatement_whole (each : ∀ nest, Yields (statement nest) Wholes) (nest : Nest)
    (start : Token) : Yields (whileStatement statement nest start) Wholes := by
  unfold whileStatement
  refine .after fun condition => (block_whole each nest _).bind fun body whole => .after fun _ => ?_
  exact yields_pure (whole_single (blockWhole_iff.mpr whole))

theorem repeatStatement_whole (each : ∀ nest, Yields (statement nest) Wholes) (nest : Nest)
    (start : Token) : Yields (repeatStatement statement nest start) Wholes := by
  unfold repeatStatement
  refine (block_whole each nest _).bind fun body whole => .after fun ended => ?_
  split
  · exact .after fun _ => yields_pure (whole_single (blockWhole_iff.mpr whole))
  · exact yields_pure (whole_single (blockWhole_iff.mpr whole))

theorem forStatement_whole (each : ∀ nest, Yields (statement nest) Wholes) (nest : Nest)
    (start : Token) : Yields (forStatement statement nest start) Wholes := by
  unfold forStatement
  refine .after fun read => (block_whole each nest _).bind fun body whole => .after fun found => ?_
  have finished : Wholes [.forLoop start.position (read.map (·.1)) (read.map (·.2.1))
      (read.map (·.2.2.1)) (read.bind (·.2.2.2)) body] := by
    apply whole_single
    cases read <;> simp [Stmt.whole, blockWhole_iff.mpr whole]
  split
  · exact .after fun _ => yields_pure finished
  · exact .after fun _ => yields_pure finished

theorem branchBody_whole {one : Parse (List Stmt)} (each : Yields one Wholes) (fuel : Nat) :
    Yields (branchBody one fuel) Wholes := by
  induction fuel with
  | zero => exact yields_pure nofun
  | succ fuel ih =>
    unfold branchBody
    have further : Yields (do
        let first ← orSkip one []
        return first ++ (← branchBody one fuel)) Wholes := by
      refine (yields_orSkip each (List.forall_mem_nil _)).bind fun first firstWhole => ?_
      refine ih.bind fun rest restWhole => yields_pure ?_
      exact List.forall_mem_append.mpr ⟨firstWhole, restWhole⟩
    refine .after fun ended => .after fun token => .after fun starts => ?_
    split
    · exact yields_pure nofun
    · exact further

theorem caseBranch_whole (each : ∀ nest, Yields (statement nest) Wholes) (nest : Nest) :
    Yields (caseBranch statement nest) (fun b => Wholes b.body) := by
  unfold caseBranch
  refine .after fun _ => .after fun labels => .after fun _ => .after fun fuel => ?_
  exact (branchBody_whole (each nest) fuel).bind fun body whole => yields_pure whole

theorem caseBranches_whole (each : ∀ nest, Yields (statement nest) Wholes) (nest : Nest) (fuel : Nat) :
    Yields (caseBranches statement nest fuel)
      (fun read => branchesWhole read.1 = true ∧ otherwiseWhole read.2 = true) := by
  induction fuel with
  | zero => exact yields_pure ⟨rfl, rfl⟩
  | succ fuel ih =>
    unfold caseBranches
    refine .after fun token => .after fun ended => ?_
    split
    · exact yields_pure ⟨rfl, rfl⟩
    · split
      · refine .after fun _ => .after fun _ => ?_
        exact (block_whole each nest _).bind fun block whole =>
          yields_pure ⟨rfl, blockWhole_iff.mpr whole⟩
      · exact yields_pure ⟨rfl, rfl⟩
      · have first : Yields (some <$> caseBranch statement nest)
            (fun branch => branchesWhole branch.toList = true) :=
          (caseBranch_whole each nest).map fun b whole =>
            branchesWhole_iff.mpr fun other member => by
              cases List.mem_singleton.mp member
              exact whole
        refine (yields_orSkip first rfl).bind fun branch branchWhole => ?_
        refine ih.bind fun read whole => yields_pure ⟨?_, whole.2⟩
        exact branchesWhole_iff.mpr (List.forall_mem_append.mpr
          ⟨branchesWhole_iff.mp branchWhole, branchesWhole_iff.mp whole.1⟩)

theorem caseStatement_whole (each : ∀ nest, Yields (statement nest) Wholes) (nest : Nest)
    (start : Token) : Yields (caseStatement statement nest start) Wholes := by
  unfold caseStatement
  refine .after fun selector => .after fun fuel => ?_
  refine (caseBranches_whole each _ fuel).bind fun read ⟨branches, otherwise⟩ => .after fun _ => ?_
  exact yields_pure (whole_single (by simp [Stmt.whole, branches, otherwise]))

theorem routineDeclaration_whole (each : ∀ nest, Yields (statement nest) Wholes) (nest : Nest)
    (start : Token) (kind : RoutineKind) :
    Yields (routineDeclaration statement nest start kind) Wholes := by
  unfold routineDeclaration
  refine .after fun read => (block_whole each nest _).bind fun body whole => .after fun _ => ?_
  split
  · exact yields_pure (whole_single (by simp [Stmt.whole, blockWhole_iff.mpr whole]))
  · exact .after fun _ => yields_pure nofun

theorem declaration_whole (start : Token) : Yields (declaration start) Wholes := by
  unfold declaration
  refine .after fun first => .after fun fuel => .after fun others => .after fun _ =>
    .after fun array => ?_
  split
  · refine .after fun bounds => .after fun _ => .after fun elementType => yields_pure ?_
    intro s member
    obtain ⟨name, -, rfl⟩ := List.mem_map.mp member
    rfl
  · refine .after fun type => yields_pure ?_
    intro s member
    obtain ⟨name, -, rfl⟩ := List.mem_map.mp member
    rfl

theorem constantDeclaration_whole (room : Nat) (start : Token) :
    Yields (constantDeclaration room start) Wholes := by
  unfold constantDeclaration
  refine .after fun token => .after fun assigned => ?_
  split
  · exact .after fun value => yields_pure (whole_single rfl)
  · exact .after fun _ => .after fun value => yields_pure (whole_single rfl)

theorem assignmentOrCall_whole (room : Nat) : Yields (assignmentOrCall room) Wholes := by
  unfold assignmentOrCall
  refine .after fun start => .after fun starts => ?_
  split
  · exact .after fun _ => .after fun arguments => yields_pure (whole_single rfl)
  · refine .after fun destination => .after fun assigned => ?_
    split
    · exact .after fun value => yields_pure (whole_single rfl)
    · exact .after fun _ => .after fun value => yields_pure (whole_single rfl)

theorem callStatement_whole (room : Nat) (start : Token) :
    Yields (callStatement room start) Wholes := by
  unfold callStatement
  refine .after fun name => .after fun next => ?_
  split
  · exact .after fun arguments => yields_pure (whole_single rfl)
  · exact .after fun arguments => yields_pure (whole_single rfl)

theorem returnStatement_whole (room : Nat) (start : Token) :
    Yields (returnStatement room start) Wholes := by
  unfold returnStatement
  refine .after fun next => .after fun ended => ?_
  split
  · exact yields_pure (whole_single rfl)
  · exact .after fun value => yields_pure (whole_single rfl)

theorem statement_whole (fuel : Nat) : ∀ nest, Yields (Parse.statement fuel nest) Wholes := by
  induction fuel with
  | zero => exact fun nest => .after fun _ => yields_throw _
  | succ fuel each =>
    intro nest
    unfold Parse.statement
    refine .after fun start => ?_
    dsimp only
    split
    · exact assignmentOrCall_whole _
    · exact .after fun _ => declaration_whole start
    · exact .after fun _ => constantDeclaration_whole _ start
    · exact .after fun _ => .after fun _ => .after fun _ => .after fun _ =>
        yields_pure (whole_single rfl)
    · exact .after fun _ => .after fun _ => yields_pure (whole_single rfl)
    · exact .after fun _ => .after fun _ => .after fun _ => .after fun _ =>
        yields_pure (whole_single rfl)
    · exact .after fun _ => ifStatement_whole each nest start
    · exact .after fun _ => caseStatement_whole each nest start
    · exact .after fun _ => whileStatement_whole each nest start
    · exact .after fun _ => repeatStatement_whole each nest start
    · exact .after fun _ => forStatement_whole each nest start
    · exact .after fun _ => routineDeclaration_whole each nest start _
    · exact .after fun _ => routineDeclaration_whole each nest start _
    · exact .after fun _ => callStatement_whole _ start
    · exact .after fun _ => returnStatement_whole _ start
    all_goals exact yields_throw _

end Parse

/-- Whatever the text, every FOR loop that is read has all of its header or none of it. -/
theorem Reading.whole (tokens : List Token) (finish : Token) :
    (Reading.ofTokens tokens finish).program.Whole := by
  have yields : Parse.program.Yields Wholes :=
    .after fun fuel => Parse.statements_whole (Parse.statement_whole _ _) _ _
  have ends := yields ⟨tokens, finish, none, 0, #[]⟩
  unfold Reading.ofTokens EStateM.run
  split
  next ran => exact ends.of_ok ran
  next => exact nofun

end Pseudocode
