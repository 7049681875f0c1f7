import Pseudocode.Check.Statement
import Pseudocode.Proofs.Ends
import Pseudocode.Run.Statement

/-! Statements that end every path in RETURN. The analysis that finds them looks at the tree alone;
here it is set against execution: whatever the state and however routines are entered, such a statement
and a block with one never end normally, and nothing that stands behind one in a block has any part in
the execution of the block. -/
namespace Pseudocode

theorem blockTerminates_append (before after : List Stmt) :
    blockTerminates (before ++ after) = (blockTerminates before || blockTerminates after) := by
  induction before with
  | nil => rfl
  | cons first others ih => rw [List.cons_append, blockTerminates, blockTerminates, ih, Bool.or_assoc]

theorem exists_terminates {block : List Stmt} (ended : blockTerminates block = true) :
    ∃ (i : Nat) (inside : i < block.length), block[i].terminates = true := by
  induction block with
  | nil => cases ended
  | cons first others ih =>
    rw [blockTerminates, Bool.or_eq_true] at ended
    obtain here | later := ended
    · exact ⟨0, Nat.zero_lt_succ _, here⟩
    · obtain ⟨i, inside, terminates⟩ := ih later
      exact ⟨i + 1, Nat.succ_lt_succ inside, terminates⟩

/-- The blocks of a statement. That of a routine is executed by calls only. -/
def Stmt.blocks : Stmt → List (List Stmt)
  | .ifThen _ _ thenBranch elseBranch => thenBranch :: elseBranch.toList
  | .whileDo _ _ body | .repeatUntil _ body _ | .forLoop _ _ _ _ _ body => [body]
  | .caseOf _ _ branches otherwise => branches.map Branch.body ++ otherwise.toList
  | _ => []

/-- A block is part of a piece of code, as a whole. -/
inductive Stands (block : List Stmt) : List Stmt → Prop
  | whole : Stands block block
  | inner : stmt ∈ code → part ∈ stmt.blocks → Stands block part → Stands block code

/-- A statement stands behind one of the same block that ends every path in RETURN. -/
def Dead (stmt : Stmt) (code : List Stmt) : Prop :=
  ∃ before rest, Stands (before ++ stmt :: rest) code ∧ blockTerminates before = true

theorem Dead.inner {stmt holder : Stmt} {code part : List Stmt} (dead : Dead stmt part)
    (here : holder ∈ code) (inside : part ∈ holder.blocks) : Dead stmt code := by
  obtain ⟨before, rest, stands, ended⟩ := dead
  exact ⟨before, rest, .inner here inside stands, ended⟩

/-- Whatever is dead in the code stands at one of the places. -/
def DeadAt (places : Position → Prop) (code : List Stmt) : Prop :=
  ∀ stmt, Dead stmt code → places stmt.position

/-- The blocks that a program is made of: its own, and those of its routines. -/
inductive Program.Has (p : Program) : List Stmt → Prop
  | body : p.Has p.body
  | routine : r ∈ p.routines → p.Has r.body

namespace Run

/-- However it is started, the computation does not end normally. -/
def Exits (m : Run Completion) : Prop := ∀ s, Ends m s (fun c _ => c ≠ .normal) (fun _ _ => True)

variable {ctx : RunContext} {enter : Enter} {inRoutine : Bool} {α : Type}

theorem exits_throw (e : Stop) : Exits (throw e) := fun _ => trivial

theorem exits_returned (v : Value) (line : Nat) : Exits (pure (.returned v line)) := fun _ => nofun

theorem exits_bind {m : Run α} {next : α → Run Completion} (rest : ∀ a, Exits (next a)) :
    Exits (m >>= next) := by
  intro s
  rw [ends_bind]
  exact ends_of_forall (fun a t => rest a t) fun _ _ => trivial

/-- What matters of a computation that does not end normally is that it returned. -/
theorem Exits.bind {m : Run Completion} {next : Completion → Run Completion} (exits : Exits m)
    (rest : ∀ v line, Exits (next (.returned v line))) : Exits (m >>= next) := by
  intro s
  rw [ends_bind]
  refine (exits s).mono (fun c t left => ?_) fun _ _ _ => trivial
  cases c with
  | normal => exact absurd rfl left
  | returned v line => exact rest v line t

theorem Exits.inEnvironment {m : Run Completion} (exits : Exits m) {env : Environment} :
    Exits (inEnvironment env m) := by
  intro s
  have left := exits { s with env }
  unfold Ends Run.inEnvironment at *
  cases ran : m { s with env } with
  | ok c t => simpa only [ran] using left
  | error e t => trivial

theorem Exits.thenAtLine {m : Run Completion} (exits : Exits m) {line : Nat} :
    Exits (thenAtLine line m) := by
  intro s
  have left := exits s
  unfold Ends Run.thenAtLine at *
  cases ran : m s with
  | ok c t => simpa only [ran] using left
  | error e t => trivial

theorem giveBack_exits (inRoutine : Bool) (line : Nat) (value : Run Value) :
    Exits (giveBack inRoutine line value) := by
  unfold giveBack
  split
  · exact exits_bind fun v => exits_returned v line
  · exact exits_throw _

mutual

/-- A statement that ends every path in RETURN does not end normally. -/
theorem exec_exits : ∀ stmt : Stmt, stmt.terminates = true →
    Exits (exec ctx enter inRoutine stmt)
  | .giveBack place value, _ => by
    rw [exec.eq_def]
    exact exits_bind fun _ => giveBack_exits inRoutine place.line _
  | .ifThen place condition thenBranch elseBranch, terminates => by
    simp only [Stmt.terminates, Bool.and_eq_true] at terminates
    rw [exec]
    refine exits_bind fun _ => exits_bind fun v => exits_bind fun holds => ?_
    cases holds with
    | true => exact execBlock_exits thenBranch terminates.1
    | false => exact execOtherwise_exits elseBranch terminates.2
  | .caseOf place selector branches otherwise, terminates => by
    simp only [Stmt.terminates, Bool.and_eq_true] at terminates
    rw [exec]
    refine exits_bind fun _ => exits_bind fun v => fun s => ?_
    rw [ends_bind]
    refine (execBranches_exits place.line v branches terminates.1 s).mono (fun c t left => ?_)
      fun _ _ _ => trivial
    cases c with
    | none => exact execOtherwise_exits otherwise terminates.2 t
    | some c => exact fun same => left (congrArg some same)
  | .declare .., terminates => nomatch terminates
  | .declareArray .., terminates => nomatch terminates
  | .constant .., terminates => nomatch terminates
  | .assign .., terminates => nomatch terminates
  | .whileDo .., terminates => nomatch terminates
  | .repeatUntil .., terminates => nomatch terminates
  | .forLoop .., terminates => nomatch terminates
  | .routine .., terminates => nomatch terminates
  | .call .., terminates => nomatch terminates
  | .strayCall .., terminates => nomatch terminates
  | .output .., terminates => nomatch terminates
  | .input .., terminates => nomatch terminates
  | .stray .., terminates => nomatch terminates

theorem execBlock_exits : ∀ block : List Stmt, blockTerminates block = true →
    Exits (execBlock ctx enter inRoutine block)
  | [], terminates => nomatch terminates
  | stmt :: rest, terminates => by
    rw [execBlock]
    by_cases here : stmt.terminates = true
    · exact (exec_exits stmt here).bind exits_returned
    · have later : blockTerminates rest = true := by
        simpa only [blockTerminates, here, Bool.false_or] using terminates
      refine exits_bind fun c => ?_
      cases c with
      | normal => exact execBlock_exits rest later
      | returned v line => exact exits_returned v line

theorem execOtherwise_exits : ∀ block : Option (List Stmt), otherwiseTerminates block = true →
    Exits (execOtherwise ctx enter inRoutine block)
  | none, terminates => nomatch terminates
  | some block, terminates => by
    rw [execOtherwise]
    exact execBlock_exits block terminates

/-- Branches of which each ends every path in RETURN: one of them is left, or none is taken. -/
theorem execBranches_exits (line : Nat) (selector : Value) : ∀ branches : List (Branch Stmt),
    branchesTerminate branches = true → ∀ s, Ends (execBranches ctx enter inRoutine line selector branches)
      s (fun c _ => c ≠ some .normal) (fun _ _ => True)
  | [], _, s => by
    rw [execBranches]
    exact nofun
  | ⟨labels, body, branchLine⟩ :: rest, terminates, s => by
    simp only [branchesTerminate, Bool.and_eq_true] at terminates
    rw [execBranches, ends_bind]
    refine ends_of_forall (fun taken t => ?_) fun _ _ => trivial
    cases taken with
    | false => exact execBranches_exits line selector rest terminates.2 t
    | true =>
      simp only [if_true, ends_bind, ends_pure]
      refine (execBlock_exits body terminates.1 t).mono (fun c u left same => ?_) fun _ _ _ => trivial
      exact left (Option.some.inj same)

end

/-- What stands in a block behind a statement that ends every path in RETURN has no part in the
execution of the block. -/
theorem execBlock_cut (before rest : List Stmt) {stmt : Stmt} (terminates : stmt.terminates = true) :
    execBlock ctx enter inRoutine (before ++ stmt :: rest) =
      execBlock ctx enter inRoutine (before ++ [stmt]) := by
  induction before with
  | cons first others ih =>
    rw [List.cons_append, List.cons_append, execBlock, execBlock, ih]
  | nil =>
    funext s
    have exits : Exits (exec ctx enter inRoutine stmt) := exec_exits stmt terminates
    rw [List.nil_append, List.nil_append, execBlock, execBlock]
    simp only [bind, EStateM.bind]
    cases ran : exec ctx enter inRoutine stmt s with
    | error e t => rfl
    | ok c t =>
      cases c with
      | normal => exact absurd rfl ((exits s).of_ok ran)
      | returned v line => rfl

end Run

end Pseudocode
