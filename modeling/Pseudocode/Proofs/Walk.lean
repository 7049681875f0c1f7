import Pseudocode.Proofs.Returns

/-! The statements of a program in the order of its text. A walk comes to a statement before the
statements inside it, and notes for each how many statements it is inside of. -/
namespace Pseudocode

/-- The blocks of a statement, that of a routine too. -/
def Stmt.parts : Stmt → List (List Stmt)
  | .routine r => [r.body]
  | s => s.blocks

/-- A statement with the number of statements around it. -/
structure Visit where
  depth : Nat
  stmt : Stmt

mutual

/-- The statement itself, then those inside it. -/
def Stmt.walk (depth : Nat) : Stmt → List Visit
  | .ifThen p condition thenBranch elseBranch =>
    ⟨depth, .ifThen p condition thenBranch elseBranch⟩ ::
      (blockWalk (depth + 1) thenBranch ++ otherwiseWalk (depth + 1) elseBranch)
  | .whileDo p condition body => ⟨depth, .whileDo p condition body⟩ :: blockWalk (depth + 1) body
  | .repeatUntil p body condition =>
    ⟨depth, .repeatUntil p body condition⟩ :: blockWalk (depth + 1) body
  | .forLoop p counter start stop step body =>
    ⟨depth, .forLoop p counter start stop step body⟩ :: blockWalk (depth + 1) body
  | .caseOf p selector branches otherwise =>
    ⟨depth, .caseOf p selector branches otherwise⟩ ::
      (branchesWalk (depth + 1) branches ++ otherwiseWalk (depth + 1) otherwise)
  | .routine ⟨p, kind, name, params, returns, body⟩ =>
    ⟨depth, .routine ⟨p, kind, name, params, returns, body⟩⟩ :: blockWalk (depth + 1) body
  | s => [⟨depth, s⟩]

def blockWalk (depth : Nat) : List Stmt → List Visit
  | [] => []
  | s :: rest => s.walk depth ++ blockWalk depth rest

def otherwiseWalk (depth : Nat) : Option (List Stmt) → List Visit
  | none => []
  | some block => blockWalk depth block

def branchesWalk (depth : Nat) : List (Branch Stmt) → List Visit
  | [] => []
  | ⟨_, body, _⟩ :: rest => blockWalk depth body ++ branchesWalk depth rest

end

def Program.walk (p : Program) : List Visit := blockWalk 0 p.body

theorem blockWalk_append (depth : Nat) (first rest : List Stmt) :
    blockWalk depth (first ++ rest) = blockWalk depth first ++ blockWalk depth rest := by
  induction first with
  | nil => simp [blockWalk]
  | cons s first ih => simp [blockWalk, ih]

theorem blockWalk_single (depth : Nat) (s : Stmt) : blockWalk depth [s] = s.walk depth := by
  simp [blockWalk]

theorem otherwiseWalk_eq (depth : Nat) (block : Option (List Stmt)) :
    otherwiseWalk depth block = block.toList.flatMap (blockWalk depth) := by
  cases block <;> simp [otherwiseWalk]

theorem branchesWalk_eq (depth : Nat) (branches : List (Branch Stmt)) :
    branchesWalk depth branches = (branches.map Branch.body).flatMap (blockWalk depth) := by
  induction branches with
  | nil => simp [branchesWalk]
  | cons b rest ih => simp [branchesWalk, ih]

/-- A walk through a statement goes on through its blocks. -/
theorem Stmt.walk_eq (depth : Nat) (s : Stmt) :
    s.walk depth = ⟨depth, s⟩ :: s.parts.flatMap (blockWalk (depth + 1)) := by
  cases s with
  | ifThen | caseOf =>
    simp [Stmt.walk, Stmt.parts, Stmt.blocks, otherwiseWalk_eq, branchesWalk_eq]
  | _ => simp [Stmt.walk, Stmt.parts, Stmt.blocks]

/-- Something holds of each statement on a walk through the code, which is inside of `depth` others. -/
def Throughout (good : Nat → Stmt → Prop) (depth : Nat) (code : List Stmt) : Prop :=
  ∀ v ∈ blockWalk depth code, good v.depth v.stmt

section Throughout

variable {good : Nat → Stmt → Prop} {depth : Nat} {first rest : List Stmt} {s : Stmt}

theorem throughout_nil : Throughout good depth [] := by
  simp [Throughout, blockWalk]

theorem Throughout.append (before : Throughout good depth first) (after : Throughout good depth rest) :
    Throughout good depth (first ++ rest) := by
  intro v member
  rw [blockWalk_append, List.mem_append] at member
  exact member.elim (before v) (after v)

theorem throughout_single (here : good depth s)
    (inside : ∀ part ∈ s.parts, Throughout good (depth + 1) part) : Throughout good depth [s] := by
  intro v member
  rw [blockWalk_single, Stmt.walk_eq, List.mem_cons] at member
  rcases member with rfl | member
  · exact here
  · obtain ⟨part, given, there⟩ := List.mem_flatMap.mp member
    exact inside part given v there

/-- A statement without blocks. -/
theorem throughout_plain (here : good depth s) (plain : s.parts = []) : Throughout good depth [s] :=
  throughout_single here (by simp [plain])

theorem throughout_map {names : List α} {make : α → Stmt} (here : ∀ name, good depth (make name))
    (plain : ∀ name, (make name).parts = []) : Throughout good depth (names.map make) := by
  induction names with
  | nil => exact throughout_nil
  | cons name names ih => exact (throughout_plain (here name) (plain name)).append ih

end Throughout

theorem Stmt.sizeOf_part {s : Stmt} {part : List Stmt} (given : part ∈ s.parts) :
    sizeOf part < sizeOf s := by
  cases s with
  | ifThen p condition thenBranch elseBranch =>
    simp only [parts, blocks, List.mem_cons, Option.mem_toList] at given
    rcases given with rfl | rfl <;> simp only [ifThen.sizeOf_spec, Option.some.sizeOf_spec] <;> omega
  | whileDo | repeatUntil | forLoop =>
    simp only [parts, blocks, List.mem_singleton] at given
    subst given
    simp only [whileDo.sizeOf_spec, repeatUntil.sizeOf_spec, forLoop.sizeOf_spec]
    omega
  | caseOf p selector branches otherwise =>
    simp only [parts, blocks, List.mem_append, List.mem_map, Option.mem_toList] at given
    rcases given with ⟨⟨labels, body, line⟩, member, rfl⟩ | rfl
    · have smaller := List.sizeOf_lt_of_mem member
      simp only [Branch.mk.sizeOf_spec, caseOf.sizeOf_spec] at smaller ⊢
      omega
    · simp only [caseOf.sizeOf_spec, Option.some.sizeOf_spec]
      omega
  | routine r =>
    obtain ⟨p, kind, name, params, returns, body⟩ := r
    simp only [parts, List.mem_singleton] at given
    subst given
    simp only [routine.sizeOf_spec, Routine.mk.sizeOf_spec]
    omega
  | _ => cases given

/-- What a statement hands on to those of its blocks holds all along a walk. -/
theorem blockWalk_of_hereditary {good : Stmt → Prop}
    (inside : ∀ {s part}, good s → part ∈ s.parts → ∀ t ∈ part, good t) (depth : Nat) :
    (code : List Stmt) → (∀ s ∈ code, good s) → ∀ v ∈ blockWalk depth code, good v.stmt
  | [], _, v, member => by cases member
  | s :: rest, all, v, member => by
    obtain ⟨here, later⟩ := List.forall_mem_cons.mp all
    rw [blockWalk, Stmt.walk_eq, List.mem_append, List.mem_cons] at member
    rcases member with (rfl | member) | member
    · exact here
    · obtain ⟨part, given, there⟩ := List.mem_flatMap.mp member
      have := Stmt.sizeOf_part given
      exact blockWalk_of_hereditary inside (depth + 1) part (inside here given) v there
    · exact blockWalk_of_hereditary inside depth rest later v member
termination_by code => sizeOf code
decreasing_by all_goals (simp only [List.cons.sizeOf_spec]; omega)

end Pseudocode
