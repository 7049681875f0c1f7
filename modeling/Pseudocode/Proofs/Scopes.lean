import Pseudocode.Proofs.CheckLockstep

/-! The scopes of a check. A check of code declares names in the innermost scope alone, behind those that
are there, and marks symbols as used; it comes back to the scope that it began in. What it has reported
stays reported. -/
namespace Pseudocode

/-- But for the marks, the later table has at most more symbols at the end of its innermost scope. -/
def SymbolTable.Extends (t u : SymbolTable) : Prop :=
  ∃ added, u.plain = t.plain.setCurrent (t.plain.current ++ added)

namespace SymbolTable

variable {t u w : SymbolTable}

theorem setCurrent_current (t : SymbolTable) : t.setCurrent t.current = t := by
  obtain ⟨inner, globals⟩ := t
  cases inner <;> rfl

theorem current_setCurrent (t : SymbolTable) (scope : List Symbol) :
    (t.setCurrent scope).current = scope := by
  obtain ⟨inner, globals⟩ := t
  cases inner <;> rfl

theorem setCurrent_setCurrent (t : SymbolTable) (scope scope' : List Symbol) :
    (t.setCurrent scope).setCurrent scope' = t.setCurrent scope' := by
  obtain ⟨inner, globals⟩ := t
  cases inner <;> rfl

theorem plain_setCurrent (t : SymbolTable) (scope : List Symbol) :
    (t.setCurrent scope).plain = t.plain.setCurrent (scope.map Symbol.plain) := by
  obtain ⟨inner, globals⟩ := t
  cases inner <;> rfl

theorem plain_current (t : SymbolTable) : t.plain.current = t.current.map Symbol.plain := by
  obtain ⟨inner, globals⟩ := t
  cases inner <;> rfl

theorem Extends.of_plain (same : u.plain = t.plain) : t.Extends u :=
  ⟨[], by rw [same, List.append_nil, setCurrent_current]⟩

theorem Extends.refl (t : SymbolTable) : t.Extends t := .of_plain rfl

theorem Extends.trans (first : t.Extends u) (second : u.Extends w) : t.Extends w := by
  obtain ⟨added, grown⟩ := first
  obtain ⟨more, further⟩ := second
  refine ⟨added ++ more, ?_⟩
  rw [further, grown, current_setCurrent, setCurrent_setCurrent, List.append_assoc]

theorem extends_add (t : SymbolTable) (symbol : Symbol) :
    t.Extends (t.setCurrent (t.current ++ [symbol])) :=
  ⟨[symbol.plain], by rw [plain_setCurrent, plain_current, List.map_append]; rfl⟩

/-- What is declared in a scope is gone when the scope is left. -/
theorem Extends.exit {scope : List Symbol} (inside : t.enter.Extends u) (left : u.exit = .ok (scope, w)) :
    w.plain = t.plain := by
  obtain ⟨added, grown⟩ := inside
  obtain ⟨inner, globals⟩ := u
  cases inner with
  | nil => cases left
  | cons scope outer =>
    cases left
    simp only [enter, plain, setCurrent, List.map_cons, mk.injEq, List.cons.injEq] at grown ⊢
    exact ⟨grown.1.2, grown.2⟩

end SymbolTable

/-- A later state of a check, in the same scope: names have been declared there, and what was reported is
still reported. -/
structure CheckState.Onward (s t : CheckState) : Prop where
  symbols : s.symbols.Extends t.symbols
  kept : s.Kept t

namespace CheckState

variable {s t u : CheckState}

/-- Without errors in the end there were none before. -/
theorem Kept.clean (kept : s.Kept t) (clean : t.Clean) : s.Clean := fun r member => clean r (kept r member)

theorem Onward.refl (s : CheckState) : s.Onward s := ⟨.refl _, .refl s⟩

theorem Onward.trans (first : s.Onward t) (second : t.Onward u) : s.Onward u :=
  ⟨first.symbols.trans second.symbols, first.kept.trans second.kept⟩

theorem onward_of_same (symbols : t.symbols = s.symbols) (reports : t.reports = s.reports) : s.Onward t :=
  ⟨.of_plain (congrArg SymbolTable.plain symbols), kept_of_same reports⟩

theorem Unmoved.onward (same : s.Unmoved t) : s.Onward t := ⟨.of_plain same.symbols, same.kept⟩

end CheckState

namespace Check

/-- However it ends well, the check has come back to its scope. -/
class Scoped (m : Check α) : Prop where
  ends : ∀ s, Ends m s (fun _ t => s.Onward t) (fun _ _ => True)

section Laws

variable {α β : Type} {m : Check α} {s t u : CheckState}

instance : Scoped (pure a : Check α) := ⟨fun _ => .refl _⟩

instance : Scoped (get : Check CheckState) := ⟨fun _ => .refl _⟩

instance : Scoped (throw fault : Check α) := ⟨fun _ => trivial⟩

instance : Scoped (report place finding) :=
  ⟨fun _ => ⟨.refl _, fun _ member => Array.mem_push_of_mem _ member⟩⟩

theorem scoped_modify {f : CheckState → CheckState}
    (keeps : ∀ s, (f s).symbols = s.symbols ∧ (f s).reports = s.reports) : Scoped (modify f) :=
  ⟨fun s => CheckState.onward_of_same (keeps s).1 (keeps s).2⟩

instance {m : Check PUnit} [Quiet m] : Scoped m :=
  ⟨fun s => (Quiet.ends s).of_safe fun _ _ same => same.onward⟩

theorem scoped_bind {next : α → Check β} [Scoped m] (rest : ∀ a, Scoped (next a)) :
    Scoped (m >>= next) := by
  refine ⟨fun s => ?_⟩
  rw [ends_bind]
  have first : Ends m s (fun _ t => s.Onward t) (fun _ _ => True) := Scoped.ends s
  refine first.mono (fun a t before => ?_) fun _ _ _ => trivial
  exact ((rest a).ends t).mono (fun _ _ after => before.trans after) fun _ _ _ => trivial

/-- A check that goes on from the state it is in. -/
theorem scoped_get {next : CheckState → Check α}
    (rest : ∀ s, Ends (next s) s (fun _ t => s.Onward t) (fun _ _ => True)) :
    Scoped (get >>= next) := ⟨rest⟩

instance {next : α → Check β} [Scoped m] [∀ a, Scoped (next a)] : Scoped (m >>= next) :=
  scoped_bind inferInstance

instance {f : α → β} [Scoped m] : Scoped (f <$> m) := ⟨fun s => (ends_map f).mpr (Scoped.ends s)⟩

instance [Scoped m] : Scoped (discard m) := ⟨fun s => ends_discard.mpr (Scoped.ends s)⟩

instance [Decidable c] {n : Check α} [Scoped m] [Scoped n] : Scoped (if c then m else n) := by
  split <;> infer_instance

/-- A check that is made or left out, and what follows in both cases. -/
theorem scoped_first [Decidable c] {first : Check Unit} {rest : Check α} [Scoped first]
    (follows : Scoped rest) : Scoped (if c then first >>= fun _ => rest else rest) := inferInstance

instance {f : α → Check PUnit} [∀ a, Scoped (f a)] (all : List α) : Scoped (all.forM f) := by
  induction all with
  | nil => exact inferInstanceAs (Scoped (pure ⟨⟩ : Check PUnit))
  | cons a rest ih => exact inferInstanceAs (Scoped (f a >>= fun _ => rest.forM f))

end Laws

section Basic

instance : Scoped (lookup name) := by unfold lookup; infer_instance

instance : Scoped (namedType place name) := by
  unfold namedType
  split
  · infer_instance
  · split <;> infer_instance

instance : Scoped (optionalType place name) := by
  unfold optionalType
  split <;> infer_instance

instance : Scoped (checkName place symbol) := by
  unfold checkName
  infer_instance

instance : Scoped (declare place symbol) := by
  unfold declare
  refine scoped_bind fun _ => scoped_get fun s => ?_
  split
  · exact ⟨SymbolTable.extends_add _ _, .refl s⟩
  · split <;> exact Scoped.ends s

/-- Begun inside of a scope that was entered, a check that leaves it. -/
class Leaves (m : Check α) : Prop where
  ends : ∀ (table : SymbolTable) (s : CheckState), table.enter.Extends s.symbols →
    Ends m s (fun _ t => t.symbols.plain = table.plain ∧ s.Kept t) fun _ _ => True

instance : Leaves leaveScope := by
  refine ⟨fun table s inside => ?_⟩
  cases left : s.symbols.exit with
  | error fault =>
    obtain ⟨added, grown⟩ := inside
    unfold SymbolTable.exit at left
    split at left
    next none => simp [SymbolTable.plain, SymbolTable.enter, SymbolTable.setCurrent, none] at grown
    next => cases left
  | ok rest =>
    refine (ends_congr (leaveScope_of_ok left)).mpr ?_
    exact (Quiet.ends (m := reportUnused rest.1) _).of_safe fun _ _ same =>
      ⟨same.symbols.trans (inside.exit left), same.kept⟩

instance {next : α → Check β} [Scoped m] [∀ a, Leaves (next a)] : Leaves (m >>= next) := by
  refine ⟨fun table s inside => ends_bind.mpr ?_⟩
  refine (Scoped.ends (m := m) s).mono (fun a t after => ?_) fun _ _ _ => trivial
  exact (Leaves.ends table t (inside.trans after.symbols)).mono
    (fun _ _ back => ⟨back.1, after.kept.trans back.2⟩) fun _ _ _ => trivial

instance [Decidable c] {n : Check α} [Leaves m] [Leaves n] : Leaves (if c then m else n) := by
  split <;> infer_instance

/-- What a check comes back from can be followed by a change that is not about symbols. -/
theorem leaves_modify {f : CheckState → CheckState} [Leaves m]
    (keeps : ∀ s, (f s).symbols = s.symbols ∧ (f s).reports = s.reports) :
    Leaves (m >>= fun _ => modify f) := by
  refine ⟨fun table s inside => ends_bind.mpr ?_⟩
  refine (Leaves.ends table s inside).mono (fun a t back => ?_) fun _ _ _ => trivial
  exact ⟨(congrArg SymbolTable.plain (keeps t).1).trans back.1,
    back.2.trans (CheckState.kept_of_same (keeps t).2)⟩

/-- A check in a scope of its own comes back to where it began. -/
theorem enterScope_ends {rest : Unit → Check β} (leaves : Leaves (rest ())) (s : CheckState) :
    Ends (enterScope >>= rest) s
      (fun _ t => t.symbols.plain = s.symbols.plain ∧ s.Kept t) fun _ _ => True :=
  leaves.ends s.symbols { s with symbols := s.symbols.enter } (.refl _)

theorem scoped_enter {rest : Unit → Check β} [Leaves (rest ())] : Scoped (enterScope >>= rest) :=
  ⟨fun s => (enterScope_ends inferInstance s).mono (fun _ _ back => ⟨.of_plain back.1, back.2⟩)
    fun _ _ _ => trivial⟩

end Basic

section Expressions

instance : Scoped (checkShapes place target source what) := by
  unfold checkShapes
  split <;> infer_instance

instance : Scoped (checkAssignable place target value what holder) := by
  unfold checkAssignable
  split
  · infer_instance
  · infer_instance
  · split <;> infer_instance

instance : Scoped (inferName place name) := by
  unfold inferName
  refine scoped_bind fun found => ?_
  split
  · infer_instance
  · refine scoped_bind fun _ => ?_
    dsimp only
    split
    · infer_instance
    · split <;> infer_instance

instance : Scoped (checkIndex array place index bound) := by
  unfold checkIndex
  split
  · infer_instance
  · split <;> infer_instance
  · infer_instance

instance : Scoped (checkElement place array indices reading) := by
  unfold checkElement
  refine scoped_bind fun found => ?_
  split
  · infer_instance
  · dsimp only
    refine scoped_first ?_
    split
    · infer_instance
    · split
      · infer_instance
      · split <;> infer_instance
    · infer_instance

instance : Scoped (inferUnary place op operand) := by
  unfold inferUnary
  split <;> infer_instance

instance : Scoped (checkComparison place op left right) := by
  unfold checkComparison
  split <;> infer_instance

instance : Scoped (inferArithmetic place op left right) := by
  unfold inferArithmetic
  split <;> infer_instance

instance : Scoped (checkLogical place op side) := by
  unfold checkLogical
  split <;> infer_instance

instance : Scoped (inferBinary place op left right) := by unfold inferBinary; infer_instance

instance : Scoped (checkReference callee number param argument) := by
  unfold checkReference
  split <;> infer_instance

instance : Scoped (checkArgument callee param place value) := by
  unfold checkArgument
  dsimp only
  split
  · split
    case h_4 => infer_instance
    all_goals
      split
      · split <;> infer_instance
      · infer_instance
  · infer_instance

instance : Scoped (checkCount place kind callee expected given) := by
  unfold checkCount
  infer_instance

instance {plain : Check (List Inferred)} {matched : List Param → Check Unit}
    [Scoped plain] [∀ params, Scoped (matched params)] :
    Scoped (checkCall asValue place callee count plain matched) := by
  unfold checkCall
  refine scoped_bind fun found => ?_
  split
  · refine scoped_bind fun _ => ?_
    split <;> infer_instance
  · split
    · exact scoped_bind fun _ => scoped_first inferInstance
    · infer_instance

mutual

theorem infer_scoped : ∀ e : Expr, Scoped (infer e)
  | .literal .. => by unfold infer; infer_instance
  | .name .. => by unfold infer; infer_instance
  | .element _ _ indices => by
    have := inferAll_scoped indices
    unfold infer
    infer_instance
  | .binary _ _ left right => by
    have := infer_scoped left
    have := infer_scoped right
    unfold infer
    infer_instance
  | .unary _ _ operand => by
    have := infer_scoped operand
    unfold infer
    infer_instance
  | .call _ callee arguments => by
    have := inferAll_scoped arguments
    have := fun params => inferArguments_scoped callee 1 params arguments
    unfold infer
    infer_instance
  | .range .. => by unfold infer; infer_instance
  | .stray .. => by unfold infer; infer_instance

theorem inferAll_scoped : ∀ es : List Expr, Scoped (inferAll es)
  | [] => by unfold inferAll; infer_instance
  | e :: rest => by
    have := infer_scoped e
    have := inferAll_scoped rest
    unfold inferAll
    infer_instance

theorem inferArguments_scoped (callee : String) : ∀ (number : Nat) (params : List Param)
    (es : List Expr), Scoped (inferArguments callee number params es)
  | _, _, [] => by unfold inferArguments; infer_instance
  | number, [], e :: rest => by
    have := infer_scoped e
    have := inferArguments_scoped callee number [] rest
    unfold inferArguments
    infer_instance
  | number, param :: params, e :: rest => by
    have := infer_scoped e
    have := inferArguments_scoped callee (number + 1) params rest
    unfold inferArguments
    infer_instance

end

instance : Scoped (infer e) := infer_scoped e

instance : Scoped (inferAll es) := inferAll_scoped es

instance : Scoped (inferArguments callee number params es) := inferArguments_scoped callee number params es

end Expressions

section Statements

instance : Scoped (incomplete place what) := by unfold incomplete; infer_instance

instance : Scoped (checkDeclaration place name typeName) := by
  unfold checkDeclaration
  infer_instance

instance : Scoped (checkArrayDeclaration limit place name bounds elementType) := by
  unfold checkArrayDeclaration
  dsimp only
  infer_instance

instance : Scoped (checkConstant place name value) := by
  unfold checkConstant
  cases value <;> infer_instance

instance : Scoped (checkTargetElement place array indices) := by
  unfold checkTargetElement
  infer_instance

instance : Scoped (declareImplicitly place name) := by unfold declareImplicitly; infer_instance

instance : Scoped (checkAssignment place target value) := by
  unfold checkAssignment
  refine scoped_bind fun inferred => ?_
  split
  · infer_instance
  · infer_instance
  · refine scoped_bind fun found => ?_
    split <;> infer_instance

instance : Scoped (checkInput place target) := by
  unfold checkInput
  split
  · infer_instance
  · infer_instance
  · refine scoped_bind fun found => ?_
    split <;> infer_instance

instance : Scoped (checkCondition place keyword condition) := by
  unfold checkCondition
  cases condition with
  | none => infer_instance
  | some e =>
    refine scoped_bind fun inferred => ?_
    split <;> infer_instance

instance : Scoped (checkForBound part e) := by
  unfold checkForBound
  refine scoped_bind fun value => ?_
  dsimp only
  split <;> infer_instance

instance : Scoped (checkLabelType place label selector) := by
  unfold checkLabelType
  split <;> infer_instance

instance : Scoped (checkLabel selector label) := by
  unfold checkLabel
  split
  · refine scoped_bind fun low => scoped_bind fun high => scoped_bind fun _ => scoped_bind fun _ => ?_
    split <;> infer_instance
  · refine scoped_bind fun value => scoped_bind fun _ => ?_
    split <;> infer_instance

theorem checkLabels_scoped (selector : Inferred) (line : Nat) (labels : List Expr)
    (seen : List (LabelKey × Nat)) : Scoped (checkLabels selector line labels seen) := by
  induction labels generalizing seen with
  | nil => unfold checkLabels; infer_instance
  | cons label rest ih =>
    have := ih
    unfold checkLabels
    refine scoped_bind fun key => ?_
    split
    · infer_instance
    · split <;> infer_instance

instance : Scoped (checkLabels selector line labels seen) := checkLabels_scoped selector line labels seen

instance : Scoped (checkReturn place value) := by
  unfold checkReturn
  cases value with
  | none =>
    refine scoped_bind fun value => scoped_bind fun s => ?_
    split <;> infer_instance
  | some e =>
    refine scoped_bind fun value => scoped_bind fun s => ?_
    split <;> infer_instance

instance : Scoped (reportUnreachable stmt) := by unfold reportUnreachable; infer_instance

mutual

theorem checkStatement_scoped (limit : Int) : ∀ s : Stmt, Scoped (checkStatement limit s)
  | .declare .. | .declareArray .. | .constant .. | .assign .. | .giveBack .. | .strayCall .. | .stray ..
  | .input .. | .routine _ | .output .. | .call .. => by unfold checkStatement; infer_instance
  | .ifThen _ _ thenBranch elseBranch => by
    have := checkBlock_scoped limit .live thenBranch
    have := checkOtherwise_scoped limit elseBranch
    unfold checkStatement
    infer_instance
  | .whileDo _ _ body => by
    have := checkBlock_scoped limit .live body
    unfold checkStatement
    infer_instance
  | .repeatUntil _ body _ => by
    have := checkBlock_scoped limit .live body
    unfold checkStatement
    infer_instance
  | .forLoop position counter start stop step body => by
    have := checkBlock_scoped limit .live body
    have opened {rest : Unit → Check Unit} [Leaves (rest ())] : Scoped (enterScope >>= rest) := scoped_enter
    unfold checkStatement
    cases counter with
    | none => infer_instance
    | some counter => cases start with
      | none => infer_instance
      | some start => cases stop with
        | none => infer_instance
        | some stop => cases step <;> infer_instance
  | .caseOf _ selector branches otherwise => by
    have := fun selector => checkBranches_scoped limit selector [] branches
    have := checkOtherwise_scoped limit otherwise
    unfold checkStatement
    cases selector <;> infer_instance

theorem checkBlock_scoped (limit : Int) (reach : Reach) : ∀ block : List Stmt,
    Scoped (checkBlock limit reach block)
  | [] => by unfold checkBlock; infer_instance
  | s :: rest => by
    have := checkStatement_scoped limit s
    have := fun reach => checkBlock_scoped limit reach rest
    unfold checkBlock
    exact scoped_first inferInstance

theorem checkOtherwise_scoped (limit : Int) : ∀ block : Option (List Stmt),
    Scoped (checkOtherwise limit block)
  | none => by unfold checkOtherwise; infer_instance
  | some block => by
    have := checkBlock_scoped limit .live block
    unfold checkOtherwise
    infer_instance

theorem checkBranches_scoped (limit : Int) (selector : Inferred) (seen : List (LabelKey × Nat)) :
    ∀ branches : List (Branch Stmt), Scoped (checkBranches limit selector seen branches)
  | [] => by unfold checkBranches; infer_instance
  | ⟨labels, body, line⟩ :: rest => by
    have := checkBlock_scoped limit .live body
    have := fun seen => checkBranches_scoped limit selector seen rest
    unfold checkBranches
    infer_instance

end

instance : Scoped (checkStatement limit s) := checkStatement_scoped limit s

instance : Scoped (checkBlock limit reach block) := checkBlock_scoped limit reach block

instance : Scoped (checkOtherwise limit block) := checkOtherwise_scoped limit block

instance : Scoped (checkBranches limit selector seen branches) :=
  checkBranches_scoped limit selector seen branches

instance : Scoped (checkParam place param) := by unfold checkParam; infer_instance

/-- The check of a routine leaves no symbol behind. -/
theorem checkRoutine_ends (limit : Int) (r : Routine Stmt) (registered : Option Symbol) (s : CheckState) :
    Ends (checkRoutine limit r registered) s (fun _ t => t.routine = none ∧
      t.symbols.plain = s.symbols.plain ∧ s.Kept t) fun _ _ => True := by
  have closes : Leaves (leaveScope >>= fun _ => modify fun s => { s with routine := none } : Check PUnit) :=
    leaves_modify fun _ => ⟨rfl, rfl⟩
  have cleared (t : CheckState) :
      Ends (leaveScope >>= fun _ => modify fun s => { s with routine := none } : Check PUnit) t
        (fun _ u => u.routine = none) fun _ _ => True := ends_bind_of_forall fun _ _ => rfl
  have routine : Ends (checkRoutine limit r registered) s (fun _ t => t.routine = none) fun _ _ => True := by
    unfold checkRoutine
    refine ends_bind_of_forall fun _ _ => ends_bind_of_forall fun _ _ => ends_bind_of_forall fun _ _ =>
      ends_bind_of_forall fun _ _ => ends_ite.mpr ⟨fun _ => ?_, fun _ => cleared _⟩
    exact ends_bind_of_forall fun _ _ => cleared _
  have symbols : Ends (checkRoutine limit r registered) s
      (fun _ t => t.symbols.plain = s.symbols.plain ∧ s.Kept t) fun _ _ => True := by
    unfold checkRoutine
    refine ends_bind.mpr (enterScope_ends ?_ _)
    have := closes
    infer_instance
  exact (routine.and symbols).mono (fun _ _ both => both) fun _ _ _ => trivial

end Statements

end Check

end Pseudocode
