import Pseudocode.Proofs.Returns
import Pseudocode.Proofs.ReviewedCode
import Pseudocode.Proofs.Tidy

/-! How checks proceed. A tree that was read from a text has a rule for each of its nodes, so the only
thing that can stop its check is an array whose bounds are not known. Reports are only ever added, and
a statement is reported as one that cannot be reached only behind another that ends every path in
RETURN. -/
namespace Pseudocode

abbrev Finding.isUnreachable : Finding → Bool
  | .unreachable => true
  | _ => false

namespace Check

/-- A condition that instances can compute. -/
class IsFalse (b : Bool) : Prop where
  eq : b = false

instance : IsFalse false := ⟨rfl⟩

/-- Later in a check, with more reports; the statements among them that cannot be reached are at some
of the places. -/
def Adds (places : Position → Prop) (s t : CheckState) : Prop :=
  ∃ more : List Report, t.reports.toList = s.reports.toList ++ more ∧
    ∀ r ∈ more, r.finding = .unreachable → places r.position

/-- The check adds reports, with no statement that cannot be reached but at the places; it fails, if at
all, for want of the bounds of an array. -/
class Proceeds (places : Position → Prop) (m : Check α) : Prop where
  ends : ∀ s, Ends m s (fun _ t => Adds places s t) (fun fault _ => fault = .unknownBounds)

section Laws

variable {places : Position → Prop} {α β : Type} {m : Check α} {s t u : CheckState}

theorem Adds.of_same (same : t.reports = s.reports) : Adds places s t :=
  ⟨[], by simp [same], List.forall_mem_nil _⟩

theorem Adds.trans (first : Adds places s t) (second : Adds places t u) : Adds places s u := by
  obtain ⟨before, reported, known⟩ := first
  obtain ⟨after, further, others⟩ := second
  refine ⟨before ++ after, by rw [further, reported, List.append_assoc], fun r member => ?_⟩
  exact (List.mem_append.mp member).elim (known r) (others r)

theorem Adds.mem (adds : Adds places s t) {r : Report} (reported : r ∈ s.reports) : r ∈ t.reports := by
  obtain ⟨more, same, -⟩ := adds
  rw [← Array.mem_toList_iff, same]
  exact List.mem_append_left _ (Array.mem_toList_iff.mpr reported)

instance : Proceeds places (pure a : Check α) := ⟨fun _ => .of_same rfl⟩

instance : Proceeds places (get : Check CheckState) := ⟨fun _ => .of_same rfl⟩

instance : Proceeds places (throw .unknownBounds : Check α) := ⟨fun _ => rfl⟩

theorem proceeds_modify {f : CheckState → CheckState} (silent : ∀ s, (f s).reports = s.reports) :
    Proceeds places (modify f) :=
  ⟨fun s => .of_same (silent s)⟩

theorem proceeds_report (place : Position) {finding : Finding}
    (known : finding = .unreachable → places place) : Proceeds places (report place finding) := by
  refine ⟨fun s => ⟨[⟨place, finding⟩], Array.toList_push, fun r member => ?_⟩⟩
  cases List.mem_singleton.mp member
  exact known

instance [other : IsFalse finding.isUnreachable] : Proceeds places (report place finding) :=
  proceeds_report place fun same => by
    subst same
    cases other.eq

theorem proceeds_bind {next : α → Check β} [Proceeds places m] (rest : ∀ a, Proceeds places (next a)) :
    Proceeds places (m >>= next) := by
  refine ⟨fun s => ?_⟩
  rw [ends_bind]
  have first : Ends m s (fun _ t => Adds places s t) (fun fault _ => fault = .unknownBounds) :=
    Proceeds.ends s
  refine first.mono (fun a t before => ?_) fun _ _ failed => failed
  exact ((rest a).ends t).mono (fun _ _ after => before.trans after) fun _ _ failed => failed

/-- A check that goes on from the state it is in. -/
theorem proceeds_get {next : CheckState → Check α}
    (rest : ∀ s, Ends (next s) s (fun _ t => Adds places s t) (fun fault _ => fault = .unknownBounds)) :
    Proceeds places (get >>= next) :=
  ⟨rest⟩

instance {next : α → Check β} [Proceeds places m] [∀ a, Proceeds places (next a)] :
    Proceeds places (m >>= next) :=
  proceeds_bind inferInstance

instance {f : α → β} [Proceeds places m] : Proceeds places (f <$> m) :=
  ⟨fun s => (ends_map f).mpr (Proceeds.ends s)⟩

instance [Proceeds places m] : Proceeds places (discard m) := ⟨fun s => ends_discard.mpr (Proceeds.ends s)⟩

instance [Decidable c] {n : Check α} [Proceeds places m] [Proceeds places n] : Proceeds places (if c then m else n) := by
  split <;> infer_instance

/-- A check that is made or left out, and what follows in both cases. -/
theorem proceeds_first [Decidable c] {first : Check Unit} {rest : Check α}
    (holds : c → Proceeds places first) (follows : Proceeds places rest) :
    Proceeds places (if c then first >>= fun _ => rest else rest) := by
  split
  next here =>
    have := holds here
    infer_instance
  next => exact follows

theorem proceeds_forM {f : α → Check PUnit} (all : List α) (each : ∀ a ∈ all, Proceeds places (f a)) :
    Proceeds places (all.forM f) := by
  induction all with
  | nil => exact inferInstanceAs (Proceeds places (pure ⟨⟩ : Check PUnit))
  | cons a rest ih =>
    have first := each a (.head _)
    have others := ih fun b member => each b (.tail _ member)
    exact inferInstanceAs (Proceeds places (f a >>= fun _ => rest.forM f))

instance {f : α → Check PUnit} [∀ a, Proceeds places (f a)] (all : List α) : Proceeds places (all.forM f) :=
  proceeds_forM all fun _ _ => inferInstance

instance {f : α → Check β} [∀ a, Proceeds places (f a)] (all : List α) : Proceeds places (all.mapM f) := by
  induction all with
  | nil =>
    rw [List.mapM_nil]
    infer_instance
  | cons a rest ih =>
    rw [List.mapM_cons]
    infer_instance

end Laws

section Basic

variable {places : Position → Prop}

instance : Proceeds places (lookup name) := by unfold lookup; infer_instance

instance : Proceeds places (namedType place name) := by
  unfold namedType
  split
  · infer_instance
  · split <;> infer_instance

instance : Proceeds places (optionalType place name) := by
  unfold optionalType
  split <;> infer_instance

instance : Proceeds places (checkName place symbol) := by
  unfold checkName
  infer_instance

instance : Proceeds places (declare place symbol) := by
  unfold declare
  refine proceeds_bind fun _ => proceeds_get fun s => ?_
  split
  · exact .of_same rfl
  · split <;> exact Proceeds.ends s

instance : Proceeds places enterScope := proceeds_modify fun _ => rfl

instance : Proceeds places (reportUnused scope) := by
  unfold reportUnused
  infer_instance

instance : Proceeds places leaveScope := by
  unfold leaveScope
  refine proceeds_get fun s => ?_
  split
  · exact .of_same rfl
  next scope symbols _ =>
    have rest : Proceeds places (reportUnused scope) := inferInstance
    exact (rest.ends { s with symbols }).mono (fun _ _ adds => (Adds.of_same rfl).trans adds)
      fun _ _ failed => failed

instance : Proceeds places (noteRead place found) := by
  refine proceeds_modify fun s => ?_
  dsimp only
  split
  · split <;> rfl
  · rfl

instance : Proceeds places (noteCall callee line) := by
  refine proceeds_modify fun s => ?_
  split <;> rfl

instance : Proceeds places (checkShapes place target source what) := by
  unfold checkShapes
  split <;> infer_instance

instance : Proceeds places (checkAssignable place target value what holder) := by
  unfold checkAssignable
  split
  · infer_instance
  · infer_instance
  · split <;> infer_instance

instance : Proceeds places (inferName place name) := by
  unfold inferName
  refine proceeds_bind fun found => ?_
  split
  · infer_instance
  · refine proceeds_bind fun _ => ?_
    dsimp only
    split
    · infer_instance
    · split <;> infer_instance

instance : Proceeds places (checkIndex array place index bound) := by
  unfold checkIndex
  split
  · infer_instance
  · split <;> infer_instance
  · infer_instance

instance : Proceeds places (checkElement place array indices reading) := by
  unfold checkElement
  refine proceeds_bind fun found => ?_
  split
  · infer_instance
  · dsimp only
    refine proceeds_first (fun _ => inferInstance) ?_
    split
    · infer_instance
    · split
      · infer_instance
      · split <;> infer_instance
    · infer_instance

instance : Proceeds places (inferUnary place op operand) := by
  unfold inferUnary
  split <;> infer_instance

instance : Proceeds places (checkComparison place op left right) := by
  unfold checkComparison
  split <;> infer_instance

instance : Proceeds places (inferArithmetic place op left right) := by
  unfold inferArithmetic
  split <;> infer_instance

instance : Proceeds places (checkLogical place op side) := by
  unfold checkLogical
  split <;> infer_instance

instance : Proceeds places (inferBinary place op left right) := by unfold inferBinary; infer_instance

end Basic

variable (places : Position → Prop)

/-- A tidy argument is there, so a reference to it can be checked. -/
theorem checkReference_proceeds {argument : Expr} (tidy : argument.tidy = true) (callee : String)
    (number : Nat) (param : Param) : Proceeds places (checkReference callee number param argument) := by
  have present : argument.isMissing = false := by
    cases argument with
    | stray => cases tidy
    | _ => rfl
  unfold checkReference
  split
  · infer_instance
  · infer_instance
  · rw [present, if_neg Bool.false_ne_true]
    infer_instance

instance : Proceeds places (checkArgument callee param place value) := by
  unfold checkArgument
  dsimp only
  split
  · split
    case h_4 => infer_instance
    all_goals
      split
      · split <;> infer_instance
      · infer_instance
  · infer_instance

instance : Proceeds places (checkCount place kind callee expected given) := by
  unfold checkCount
  infer_instance

instance {plain : Check (List Inferred)} {matched : List Param → Check Unit}
    [Proceeds places plain] [∀ params, Proceeds places (matched params)] :
    Proceeds places (checkCall asValue place callee count plain matched) := by
  unfold checkCall
  refine proceeds_bind fun found => ?_
  split
  · refine proceeds_bind fun _ => ?_
    split <;> infer_instance
  · split
    · refine proceeds_bind fun _ => proceeds_first (fun _ => inferInstance) ?_
      infer_instance
    · infer_instance

mutual

theorem infer_proceeds : ∀ e : Expr, e.tidy = true → Proceeds places (infer e)
  | .literal .., _ => by unfold infer; infer_instance
  | .name .., _ => by unfold infer; infer_instance
  | .element _ _ indices, tidy => by
    have := inferAll_proceeds indices (by simpa only [Expr.tidy] using tidy)
    unfold infer
    infer_instance
  | .binary _ _ left right, tidy => by
    simp only [Expr.tidy, Bool.and_eq_true] at tidy
    have := infer_proceeds left tidy.1.2
    have := infer_proceeds right tidy.2
    unfold infer
    infer_instance
  | .unary _ _ operand, tidy => by
    simp only [Expr.tidy, Bool.and_eq_true] at tidy
    have := infer_proceeds operand tidy.2
    unfold infer
    infer_instance
  | .call _ callee arguments, tidy => by
    have known : exprsTidy arguments = true := by simpa only [Expr.tidy] using tidy
    have := inferAll_proceeds arguments known
    have := fun params => inferArguments_proceeds callee 1 params arguments known
    unfold infer
    infer_instance
  | .range .., tidy => by cases tidy
  | .stray .., tidy => by cases tidy

theorem inferAll_proceeds : ∀ es : List Expr, exprsTidy es = true → Proceeds places (inferAll es)
  | [], _ => by unfold inferAll; infer_instance
  | e :: rest, tidy => by
    simp only [exprsTidy, Bool.and_eq_true] at tidy
    have := infer_proceeds e tidy.1
    have := inferAll_proceeds rest tidy.2
    unfold inferAll
    infer_instance

theorem inferArguments_proceeds (callee : String) : ∀ (number : Nat) (params : List Param)
    (es : List Expr), exprsTidy es = true → Proceeds places (inferArguments callee number params es)
  | _, _, [], _ => by unfold inferArguments; infer_instance
  | number, [], e :: rest, tidy => by
    simp only [exprsTidy, Bool.and_eq_true] at tidy
    have := infer_proceeds e tidy.1
    have := inferArguments_proceeds callee number [] rest tidy.2
    unfold inferArguments
    infer_instance
  | number, param :: params, e :: rest, tidy => by
    simp only [exprsTidy, Bool.and_eq_true] at tidy
    have := checkReference_proceeds places tidy.1 callee number param
    have := infer_proceeds e tidy.1
    have := inferArguments_proceeds callee (number + 1) params rest tidy.2
    unfold inferArguments
    infer_instance

end

instance : Proceeds places (incomplete place what) := by unfold incomplete; infer_instance

instance : Proceeds places (checkDeclaration place name typeName) := by
  unfold checkDeclaration
  infer_instance

instance : Proceeds places (checkArrayDeclaration limit place name bounds elementType) := by
  unfold checkArrayDeclaration
  dsimp only
  infer_instance

theorem checkConstant_proceeds {value : Option Expr} (tidy : value.all Expr.tidy = true)
    (place : Position) (name : String) : Proceeds places (checkConstant place name value) := by
  unfold checkConstant
  cases value with
  | none => infer_instance
  | some e =>
    have := infer_proceeds places e tidy
    infer_instance

theorem checkTargetElement_proceeds {indices : List Expr} (tidy : exprsTidy indices = true)
    (place : Position) (array : String) : Proceeds places (checkTargetElement place array indices) := by
  have := inferAll_proceeds places indices tidy
  unfold checkTargetElement
  infer_instance

instance : Proceeds places (declareImplicitly place name) := by unfold declareImplicitly; infer_instance

theorem checkAssignment_proceeds {target : Target} {value : Expr} (tidy : target.tidy = true)
    (known : value.tidy = true) (place : Position) :
    Proceeds places (checkAssignment place target value) := by
  have := infer_proceeds places value known
  unfold checkAssignment
  refine proceeds_bind fun inferred => ?_
  cases target with
  | element p array indices =>
    have := checkTargetElement_proceeds places tidy p array
    infer_instance
  | stray => cases tidy
  | _ =>
    refine proceeds_bind fun found => ?_
    split <;> infer_instance

theorem checkInput_proceeds {target : Target} (tidy : target.tidy = true) (place : Position) :
    Proceeds places (checkInput place target) := by
  unfold checkInput
  cases target with
  | element p array indices =>
    have := checkTargetElement_proceeds places tidy p array
    infer_instance
  | stray => cases tidy
  | _ =>
    refine proceeds_bind fun found => ?_
    split <;> infer_instance

theorem checkCondition_proceeds {condition : Option Expr} (tidy : condition.all Expr.tidy = true)
    (place : Position) (keyword : Keyword) : Proceeds places (checkCondition place keyword condition) := by
  unfold checkCondition
  cases condition with
  | none => infer_instance
  | some e =>
    have := infer_proceeds places e tidy
    refine proceeds_bind fun inferred => ?_
    split <;> infer_instance

theorem checkForBound_proceeds {e : Expr} (tidy : e.tidy = true) (part : ForPart) :
    Proceeds places (checkForBound part e) := by
  have := infer_proceeds places e tidy
  unfold checkForBound
  refine proceeds_bind fun value => ?_
  dsimp only
  split <;> infer_instance

instance : Proceeds places (checkLabelType place label selector) := by
  unfold checkLabelType
  split <;> infer_instance

theorem checkLabel_proceeds {label : Expr} (tidy : label.tidyLabel = true) (selector : Inferred) :
    Proceeds places (checkLabel selector label) := by
  unfold checkLabel
  split
  next place low high =>
    simp only [Expr.tidyLabel, Bool.and_eq_true] at tidy
    have := infer_proceeds places low tidy.1
    have := infer_proceeds places high tidy.2
    refine proceeds_bind fun low => proceeds_bind fun high => ?_
    refine proceeds_bind fun _ => proceeds_bind fun _ => ?_
    split <;> infer_instance
  next other =>
    have plain : label.tidy = true := by
      cases label with
      | range place low high => exact absurd rfl (other place low high)
      | _ => exact tidy
    have := infer_proceeds places label plain
    refine proceeds_bind fun value => proceeds_bind fun _ => ?_
    split <;> infer_instance

theorem checkLabels_proceeds (selector : Inferred) (line : Nat) {labels : List Expr}
    (tidy : labels.all Expr.tidyLabel = true) (seen : List (LabelKey × Nat)) :
    Proceeds places (checkLabels selector line labels seen) := by
  induction labels generalizing seen with
  | nil => unfold checkLabels; infer_instance
  | cons label rest ih =>
    simp only [List.all_cons, Bool.and_eq_true] at tidy
    have := checkLabel_proceeds places tidy.1 selector
    have := ih tidy.2
    unfold checkLabels
    refine proceeds_bind fun key => ?_
    split
    · infer_instance
    · split <;> infer_instance

theorem checkReturn_proceeds {value : Option Expr} (tidy : value.all Expr.tidy = true)
    (place : Position) : Proceeds places (checkReturn place value) := by
  unfold checkReturn
  cases value with
  | none =>
    refine proceeds_bind fun value => proceeds_bind fun s => ?_
    split <;> infer_instance
  | some e =>
    have := infer_proceeds places e tidy
    refine proceeds_bind fun value => proceeds_bind fun s => ?_
    split <;> infer_instance

/-- A tidy statement is there, so it can be reported. -/
theorem reportUnreachable_proceeds {stmt : Stmt} (tidy : stmt.tidy = true)
    (known : places stmt.position) : Proceeds places (reportUnreachable stmt) := by
  have present : stmt.isMissing = false := by
    cases stmt with
    | stray => cases tidy
    | _ => rfl
  unfold reportUnreachable
  rw [present, if_neg Bool.false_ne_true]
  exact proceeds_report _ fun _ => known

variable {places}

mutual

theorem checkStatement_proceeds (limit : Int) : ∀ s : Stmt, s.tidy = true →
    (∀ part ∈ s.blocks, DeadAt places part) → Proceeds places (checkStatement limit s)
  | .declare .., _, _ => by unfold checkStatement; infer_instance
  | .declareArray .., _, _ => by unfold checkStatement; infer_instance
  | .constant position name _, tidy, _ => by
    unfold checkStatement
    exact checkConstant_proceeds places (by simpa only [Stmt.tidy] using tidy) position name
  | .assign position _ _, tidy, _ => by
    simp only [Stmt.tidy, Bool.and_eq_true] at tidy
    unfold checkStatement
    exact checkAssignment_proceeds places tidy.1 tidy.2 position
  | .ifThen position _ thenBranch elseBranch, tidy, dead => by
    simp only [Stmt.tidy, Bool.and_eq_true] at tidy
    have := checkCondition_proceeds places tidy.1.1 position .IF
    have := checkBlock_proceeds limit [] .live nofun thenBranch tidy.1.2 (dead _ (.head _))
    have := checkOtherwise_proceeds limit elseBranch tidy.2 fun part given =>
      dead part (.tail _ (Option.mem_toList.mpr given))
    unfold checkStatement
    infer_instance
  | .whileDo position _ body, tidy, dead => by
    simp only [Stmt.tidy, Bool.and_eq_true] at tidy
    have := checkCondition_proceeds places tidy.1 position .WHILE
    have := checkBlock_proceeds limit [] .live nofun body tidy.2 (dead _ (.head _))
    unfold checkStatement
    infer_instance
  | .repeatUntil position body _, tidy, dead => by
    simp only [Stmt.tidy, Bool.and_eq_true] at tidy
    have := checkCondition_proceeds places tidy.2 position .UNTIL
    have := checkBlock_proceeds limit [] .live nofun body tidy.1 (dead _ (.head _))
    unfold checkStatement
    infer_instance
  | .forLoop position counter start stop step body, tidy, dead => by
    simp only [Stmt.tidy, Bool.and_eq_true] at tidy
    have := checkBlock_proceeds limit [] .live nofun body tidy.2 (dead _ (.head _))
    unfold checkStatement
    cases counter with
    | none => infer_instance
    | some counter => cases start with
      | none => infer_instance
      | some start => cases stop with
        | none => infer_instance
        | some stop =>
          have := checkForBound_proceeds places tidy.1.1.1 .start
          have := checkForBound_proceeds places tidy.1.1.2 .stop
          cases step with
          | none => infer_instance
          | some step =>
            have := checkForBound_proceeds places tidy.1.2 .step
            infer_instance
  | .caseOf position selector branches otherwise, tidy, dead => by
    simp only [Stmt.tidy, Bool.and_eq_true] at tidy
    have := fun selector => checkBranches_proceeds limit selector [] branches tidy.1.2 fun b member =>
      dead b.body (List.mem_append_left _ (List.mem_map_of_mem member))
    have := checkOtherwise_proceeds limit otherwise tidy.2 fun part given =>
      dead part (List.mem_append_right _ (Option.mem_toList.mpr given))
    unfold checkStatement
    cases selector with
    | none => infer_instance
    | some e =>
      have := infer_proceeds places e tidy.1.1
      infer_instance
  | .routine _, _, _ => by unfold checkStatement; infer_instance
  | .giveBack position _, tidy, _ => by
    unfold checkStatement
    exact checkReturn_proceeds places (by simpa only [Stmt.tidy] using tidy) position
  | .call _ _ callee arguments, tidy, _ => by
    have known : exprsTidy arguments = true := by simpa only [Stmt.tidy] using tidy
    have := inferAll_proceeds places arguments known
    have := fun params => inferArguments_proceeds places callee 1 params arguments known
    unfold checkStatement
    infer_instance
  | .output _ values, tidy, _ => by
    have := inferAll_proceeds places values (by simpa only [Stmt.tidy] using tidy)
    unfold checkStatement
    infer_instance
  | .input position _, tidy, _ => by
    unfold checkStatement
    exact checkInput_proceeds places (by simpa only [Stmt.tidy] using tidy) position
  | .strayCall .., tidy, _ => by cases tidy
  | .stray .., tidy, _ => by cases tidy

/-- The rest of a block is checked like this once `before` has been; how far it can be reached tells
whether a statement before it ends every path in RETURN. -/
theorem checkBlock_proceeds (limit : Int) (before : List Stmt) (reach : Reach)
    (ended : reach = .ended → blockTerminates before = true) : ∀ block : List Stmt,
    blockTidy block = true → DeadAt places (before ++ block) →
      Proceeds places (checkBlock limit reach block)
  | [], _, _ => by unfold checkBlock; infer_instance
  | s :: rest, tidy, dead => by
    simp only [blockTidy, Bool.and_eq_true] at tidy
    have := checkStatement_proceeds limit s tidy.1 fun part member stmt inside =>
      dead stmt (inside.inner (List.mem_append_right _ (.head _)) member)
    have next {further : Reach} (known : further = .ended → s.terminates = true) :
        Proceeds places (checkBlock limit further rest) := by
      refine checkBlock_proceeds limit (before ++ [s]) further (fun same => ?_) rest tidy.2
        (List.append_assoc before [s] rest ▸ dead)
      rw [blockTerminates_append, blockTerminates, known same, Bool.true_or, Bool.or_true]
    unfold checkBlock
    refine proceeds_first (fun same => reportUnreachable_proceeds places tidy.1 ?_)
      (proceeds_bind fun _ => next fun same => ?_)
    · exact dead s ⟨before, rest, .whole, ended same⟩
    · cases reach with
      | live => simpa using same
      | ended => cases same
      | reported => cases same

theorem checkOtherwise_proceeds (limit : Int) : ∀ block : Option (List Stmt),
    otherwiseTidy block = true → (∀ part ∈ block, DeadAt places part) →
      Proceeds places (checkOtherwise limit block)
  | none, _, _ => by unfold checkOtherwise; infer_instance
  | some block, tidy, dead => by
    have := checkBlock_proceeds limit [] .live nofun block (by simpa only [otherwiseTidy] using tidy)
      (dead block rfl)
    unfold checkOtherwise
    infer_instance

theorem checkBranches_proceeds (limit : Int) (selector : Inferred) (seen : List (LabelKey × Nat)) :
    ∀ branches : List (Branch Stmt), branchesTidy branches = true →
      (∀ b ∈ branches, DeadAt places b.body) →
        Proceeds places (checkBranches limit selector seen branches)
  | [], _, _ => by unfold checkBranches; infer_instance
  | ⟨labels, body, line⟩ :: rest, tidy, dead => by
    simp only [branchesTidy, Bool.and_eq_true] at tidy
    have := checkLabels_proceeds places selector line tidy.1.1
    have := checkBlock_proceeds limit [] .live nofun body tidy.1.2 (dead _ (.head _))
    have := fun seen => checkBranches_proceeds limit selector seen rest tidy.2 fun b member =>
      dead b (.tail _ member)
    unfold checkBranches
    infer_instance

end

instance : Proceeds places (register r) := by
  unfold register
  split
  · infer_instance
  · split <;> infer_instance

instance : Proceeds places (checkParam place p) := by unfold checkParam; infer_instance

theorem checkRoutine_proceeds (limit : Int) {r : Routine Stmt} (tidy : blockTidy r.body = true)
    (dead : DeadAt places r.body) (registered : Option Symbol) :
    Proceeds places (checkRoutine limit r registered) := by
  have := checkBlock_proceeds limit [] .live nofun r.body tidy dead
  have (checked : Option Symbol) :
      Proceeds places (modify fun s => { s with routine := checked } : Check PUnit) :=
    proceeds_modify fun _ => rfl
  unfold checkRoutine
  dsimp only
  refine proceeds_bind fun _ => proceeds_bind fun _ => proceeds_bind fun _ => proceeds_bind fun _ => ?_
  exact proceeds_first (fun _ => inferInstance) inferInstance

instance : Proceeds places reportLateGlobals := by
  unfold reportLateGlobals
  refine proceeds_bind fun s => proceeds_forM _ fun reads _ => ?_
  dsimp only
  split <;> infer_instance

theorem checkProgram_proceeds (limit : Int) {p : Program} (tidy : p.Tidy)
    (dead : ∀ block, p.Has block → DeadAt places block) : Proceeds places (checkProgram limit p) := by
  have := checkBlock_proceeds limit [] .live nofun p.body tidy (dead _ .body)
  unfold checkProgram
  refine proceeds_bind fun registered => proceeds_bind fun _ => ?_
  have := proceeds_forM (p.routines.zip registered)
    (f := fun pair => checkRoutine limit pair.1 pair.2)
    fun pair member =>
      have inside := (List.of_mem_zip member).1
      checkRoutine_proceeds limit (tidy.routines _ inside) (dead _ (.routine inside)) pair.2
  exact proceeds_bind fun _ => inferInstance

end Check

/-- The check of a tree that was read from a text stops, if at all, at an array whose bounds are not
known. -/
theorem Review.unknownBounds_of_error {p : Program} (tidy : p.Tidy)
    (failed : Review.ofProgram limit p = .error fault) : fault = .unknownBounds := by
  have proceeds : Check.Proceeds (fun _ => True) (Check.checkProgram limit p) :=
    Check.checkProgram_proceeds limit tidy fun _ _ _ _ => trivial
  unfold Review.ofProgram EStateM.run at failed
  split at failed
  · cases failed
  next ended =>
    cases failed
    exact (proceeds.ends .initial).of_error ended

end Pseudocode
