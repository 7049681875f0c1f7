import Pseudocode.Check.Statement
import Pseudocode.Proofs.Grounded
import Pseudocode.Proofs.Symbols

/-! Where checks report. Whatever a check notes or reports stands on the line of some place in the tree:
a report where the node stands that it is about, or on the line on which a name was declared. This holds
whether the check comes to its end or not. -/
namespace Pseudocode

namespace Table

/-- What a table holds after an entry was set. -/
theorem mem_set {table : Table α} {entry : String × α} (member : entry ∈ table.set name value) :
    entry = (name, value) ∨ entry ∈ table := by
  induction table with
  | nil => exact .inl (List.mem_singleton.mp member)
  | cons first rest ih =>
    unfold Table.set at member
    split at member
    · rcases List.mem_cons.mp member with new | old
      · exact .inl new
      · exact .inr (.tail _ old)
    · rcases List.mem_cons.mp member with same | other
      · exact .inr (same ▸ .head _)
      · exact (ih other).imp_right (.tail _)

/-- A table holds what it gives. -/
theorem mem_of_get? {table : Table α} (found : table.get? name = some value) : (name, value) ∈ table := by
  induction table with
  | nil => cases found
  | cons first rest ih =>
    rw [Table.get?, List.lookup_cons] at found
    split at found
    next same =>
      cases found
      rw [eq_of_beq same]
      exact .head _
    next => exact .tail _ (ih found)

end Table

namespace SymbolTable

/-- What a table has after a symbol was added. -/
theorem has_add {t : SymbolTable} {symbol old : Symbol} (has : (t.setCurrent (t.current ++ [symbol])).Has old) :
    old = symbol ∨ t.Has old := by
  have added {scope : List Symbol} (member : old ∈ scope ++ [symbol]) : old = symbol ∨ old ∈ scope :=
    (List.mem_append.mp member).symm.imp_left List.mem_singleton.mp
  obtain ⟨inner, globals⟩ := t
  cases inner with
  | nil =>
    rcases has with outer | ⟨scope, member, -⟩
    · exact (added outer).imp_right .inl
    · cases member
  | cons scope outer =>
    rcases has with outside | ⟨other, member, inside⟩
    · exact .inr (.inl outside)
    · cases member with
      | head => exact (added inside).imp_right fun before => .inr ⟨scope, .head _, before⟩
      | tail _ member => exact .inr (.inr ⟨other, .tail _ member, inside⟩)

/-- A name was declared where it was before it was read. -/
theorem has_use {t : SymbolTable} {symbol : Symbol} (has : (t.use name).Has symbol) :
    ∃ old, t.Has old ∧ old.line = symbol.line := by
  have plain := has_plain has
  rw [use_plain] at plain
  obtain ⟨old, before, same⟩ := has_of_plain plain
  exact ⟨old, before, (Symbol.mk.inj same).2.2.2.1⟩

end SymbolTable

variable (G : Ground)

/-- Everything noted and reported so far is on the lines of places. -/
structure CheckState.Grounded (s : CheckState) : Prop where
  symbols : ∀ symbol, s.symbols.Has symbol → G.Line symbol.line
  reads : ∀ entry ∈ s.globalReads, ∀ read ∈ entry.2, G.Line read.2.position.line
  reports : ∀ r ∈ s.reports, G.Line r.position.line

namespace Check

/-- A place on the line of a place, found by instances. -/
class OnLine (place : Position) : Prop where
  line : G.Line place.line

/-- The check keeps what is noted and reported on the lines of places, also where it fails. -/
class Points (m : Check α) : Prop where
  ends : ∀ s, s.Grounded G → Ends m s (fun _ t => t.Grounded G) (fun _ t => t.Grounded G)

variable {G}

theorem OnLine.of {place : Position} (known : G.place place) : OnLine G place := ⟨place, known, rfl⟩

section Laws

variable {α β : Type} {m : Check α}

instance : Points G (pure a : Check α) := ⟨fun _ grounded => grounded⟩

instance : Points G (throw fault : Check α) := ⟨fun _ grounded => grounded⟩

instance : Points G (get : Check CheckState) := ⟨fun _ grounded => grounded⟩

theorem points_modify {f : CheckState → CheckState} (keeps : ∀ s : CheckState, s.Grounded G → (f s).Grounded G) :
    Points G (modify f) := ⟨keeps⟩

theorem points_bind {next : α → Check β} [Points G m] (rest : ∀ a, Points G (next a)) :
    Points G (m >>= next) := by
  refine ⟨fun s grounded => ?_⟩
  rw [ends_bind]
  exact (Points.ends s grounded).mono (fun a t still => (rest a).ends t still) fun _ _ failed => failed

/-- A check that goes on from the state it is in. -/
theorem points_get {next : CheckState → Check α} (rest : ∀ s : CheckState, s.Grounded G →
      Ends (next s) s (fun _ t => t.Grounded G) (fun _ t => t.Grounded G)) : Points G (get >>= next) :=
  ⟨rest⟩

instance {next : α → Check β} [Points G m] [∀ a, Points G (next a)] : Points G (m >>= next) :=
  points_bind inferInstance

instance {f : α → β} [Points G m] : Points G (f <$> m) :=
  ⟨fun s grounded => (ends_map f).mpr (Points.ends s grounded)⟩

instance [Points G m] : Points G (discard m) :=
  ⟨fun s grounded => ends_discard.mpr (Points.ends s grounded)⟩

instance [Decidable c] {n : Check α} [Points G m] [Points G n] : Points G (if c then m else n) := by
  split <;> infer_instance

/-- A check that is made or left out, and what follows in both cases. -/
theorem points_first [Decidable c] {first : Check Unit} [Points G first] (follows : Points G m) :
    Points G (if c then first >>= fun _ => m else m) := by
  split <;> infer_instance

theorem points_forM {f : α → Check PUnit} (all : List α) (each : ∀ a ∈ all, Points G (f a)) :
    Points G (all.forM f) := by
  induction all with
  | nil => exact inferInstanceAs (Points G (pure ⟨⟩ : Check PUnit))
  | cons a rest ih =>
    have first := each a (.head _)
    have others := ih fun b member => each b (.tail _ member)
    exact inferInstanceAs (Points G (f a >>= fun _ => rest.forM f))

theorem points_mapM {f : α → Check β} (all : List α) (each : ∀ a ∈ all, Points G (f a)) :
    Points G (all.mapM f) := by
  induction all with
  | nil =>
    rw [List.mapM_nil]
    infer_instance
  | cons a rest ih =>
    have first := each a (.head _)
    have others := ih fun b member => each b (.tail _ member)
    rw [List.mapM_cons]
    infer_instance

end Laws

section Basic

variable {place : Position} [here : OnLine G place]

include here

theorem report_grounded {s : CheckState} (grounded : s.Grounded G) (finding : Finding) :
    ({ s with reports := s.reports.push ⟨place, finding⟩ } : CheckState).Grounded G := by
  refine ⟨grounded.symbols, grounded.reads, fun r member => ?_⟩
  rcases Array.mem_push.mp member with old | rfl
  · exact grounded.reports r old
  · exact here.line

instance : Points G (report place finding) := points_modify fun _ grounded => report_grounded grounded _

omit here in
instance : Points G (lookup name) := by unfold lookup; infer_instance

instance : Points G (namedType place name) := by
  unfold namedType
  split
  · infer_instance
  · split <;> infer_instance

instance : Points G (optionalType place name) := by
  unfold optionalType
  split <;> infer_instance

instance : Points G (checkName place symbol) := by
  unfold checkName
  infer_instance

theorem declare_points {symbol : Symbol} (known : G.Line symbol.line) : Points G (declare place symbol) := by
  unfold declare
  refine points_bind fun _ => points_get fun s grounded => ?_
  split
  · refine ⟨fun old has => ?_, grounded.reads, grounded.reports⟩
    rcases SymbolTable.has_add has with rfl | before
    · exact known
    · exact grounded.symbols old before
  · exact Points.ends s grounded

/-- A symbol that is declared where it stands. -/
instance : Points G (declare place
    ⟨name, kind, type, place.line, elementType, bounds, params, constantValue, used⟩) :=
  declare_points here.line

omit here in
instance : Points G enterScope := by
  refine points_modify fun s grounded => ⟨fun symbol has => ?_, grounded.reads, grounded.reports⟩
  rcases has with outer | ⟨scope, member, inside⟩
  · exact grounded.symbols symbol (.inl outer)
  · cases member with
    | head => cases inside
    | tail _ member => exact grounded.symbols symbol (.inr ⟨scope, member, inside⟩)

omit here in
theorem reportUnused_points {scope : List Symbol} (known : ∀ symbol ∈ scope, G.Line symbol.line) :
    Points G (reportUnused scope) := by
  unfold reportUnused
  refine points_forM scope fun symbol member => ?_
  have : OnLine G ⟨symbol.line, 0⟩ := ⟨known symbol member⟩
  infer_instance

omit here in
instance : Points G leaveScope := by
  unfold leaveScope
  refine points_get fun s grounded => ?_
  split
  · exact grounded
  next scope symbols left =>
    unfold SymbolTable.exit at left
    split at left
    · cases left
    next inner outer found =>
      cases left
      have inside {symbol : Symbol} {within : List Symbol} (member : within ∈ scope :: outer)
          (has : symbol ∈ within) : G.Line symbol.line :=
        grounded.symbols symbol (.inr ⟨within, found ▸ member, has⟩)
      have := reportUnused_points fun symbol member => inside (.head _) member
      refine Points.ends (m := reportUnused scope) _ ⟨fun symbol has => ?_, grounded.reads, grounded.reports⟩
      rcases has with outside | ⟨scope, member, has⟩
      · exact grounded.symbols symbol (.inl outside)
      · exact inside (.tail _ member) has

instance : Points G (noteRead place found) := by
  refine points_modify fun s grounded => ?_
  have symbols (symbol : Symbol) (has : (s.symbols.use found.symbol.name).Has symbol) : G.Line symbol.line := by
    obtain ⟨old, before, same⟩ := SymbolTable.has_use has
    exact same ▸ grounded.symbols old before
  dsimp only
  split
  next routine _ =>
    split
    · refine ⟨symbols, fun entry member read inside => ?_, grounded.reports⟩
      have known (read : String × GlobalRead) (old : read ∈ (s.globalReads.get? routine.name).getD []) :
          G.Line read.2.position.line := by
        cases found : s.globalReads.get? routine.name with
        | none =>
          rw [found] at old
          cases old
        | some reads =>
          rw [found] at old
          exact grounded.reads _ (Table.mem_of_get? found) read old
      rcases Table.mem_set member with rfl | old
      · rcases Table.mem_set inside with rfl | before
        · cases first : ((s.globalReads.get? routine.name).getD []).get? found.symbol.name with
          | none => exact here.line
          | some read =>
            exact known (_, read) (Table.mem_of_get? first)
        · exact known read before
      · exact grounded.reads entry old read inside
    · exact ⟨symbols, grounded.reads, grounded.reports⟩
  · exact ⟨symbols, grounded.reads, grounded.reports⟩

omit here in
instance : Points G (noteCall callee line) := by
  refine points_modify fun s grounded => ?_
  split <;> exact ⟨grounded.symbols, grounded.reads, grounded.reports⟩

instance : Points G (checkShapes place target source what) := by
  unfold checkShapes
  split <;> infer_instance

instance : Points G (checkAssignable place target value what holder) := by
  unfold checkAssignable
  split
  · infer_instance
  · infer_instance
  · split <;> infer_instance

instance : Points G (inferName place name) := by
  unfold inferName
  refine points_bind fun found => ?_
  split
  · infer_instance
  · refine points_bind fun _ => ?_
    dsimp only
    split
    · infer_instance
    · split <;> infer_instance

instance : Points G (checkIndex array place index bound) := by
  unfold checkIndex
  split
  · infer_instance
  · split <;> infer_instance
  · infer_instance

omit here in
theorem checkIndices_points {indices : List (Position × Inferred)}
    (known : ∀ index ∈ indices, G.Line index.1.line) (array : String) (bounds : List Bound) :
    Points G ((indices.zip bounds).forM fun ((place, index), bound) => checkIndex array place index bound) := by
  refine points_forM _ fun entry member => ?_
  have : OnLine G entry.1.1 := ⟨known _ (List.of_mem_zip member).1⟩
  dsimp only
  infer_instance

variable (place) in
theorem checkElement_points {indices : List (Position × Inferred)}
    (known : ∀ index ∈ indices, G.Line index.1.line) (array : String) (reading : Bool) :
    Points G (checkElement place array indices reading) := by
  have (bounds : List Bound) := checkIndices_points known array bounds
  unfold checkElement
  refine points_bind fun found => ?_
  split
  · infer_instance
  · refine points_first ?_
    dsimp only
    split
    · infer_instance
    · split
      · infer_instance
      · split <;> infer_instance
    · infer_instance

instance : Points G (inferUnary place op operand) := by
  unfold inferUnary
  split <;> infer_instance

instance : Points G (checkComparison place op left right) := by
  unfold checkComparison
  split <;> infer_instance

instance : Points G (inferArithmetic place op left right) := by
  unfold inferArithmetic
  split <;> infer_instance

instance : Points G (checkLogical place op side) := by
  unfold checkLogical
  split <;> infer_instance

instance : Points G (inferBinary place op left right) := by unfold inferBinary; infer_instance

instance : Points G (checkArgument callee param place value) := by
  unfold checkArgument
  dsimp only
  split
  · split
    case h_4 => infer_instance
    all_goals
      split
      · split <;> infer_instance
      · infer_instance
  · infer_instance

instance : Points G (checkCount place kind callee expected given) := by
  unfold checkCount
  infer_instance

instance {plain : Check (List Inferred)} {matched : List Param → Check Unit} [Points G plain]
    [∀ params, Points G (matched params)] : Points G (checkCall asValue place callee count plain matched) := by
  unfold checkCall
  refine points_bind fun found => ?_
  split
  · refine points_bind fun _ => ?_
    split <;> infer_instance
  · split
    · exact points_bind fun _ => points_first inferInstance
    · infer_instance

end Basic

section Expressions

/-- Where indices stand. -/
theorem at_indices {indices : List Expr} (known : ∀ e ∈ indices, e.Grounded G) (inferred : List Inferred) :
    ∀ index ∈ (indices.map Expr.position).zip inferred, G.Line index.1.line := by
  intro index member
  obtain ⟨e, inside, same⟩ := List.mem_map.mp (List.of_mem_zip member).1
  exact ⟨_, (known e inside).place, congrArg Position.line same⟩

theorem checkReference_points {argument : Expr} (known : G.place argument.position) (callee : String)
    (number : Nat) (param : Param) : Points G (checkReference callee number param argument) := by
  have := OnLine.of known
  unfold checkReference
  split <;> infer_instance

mutual

theorem infer_points : ∀ e : Expr, e.Grounded G → Points G (infer e)
  | .literal .., _ => by unfold infer; infer_instance
  | .name .., .name known => by
    have := OnLine.of known
    unfold infer
    infer_instance
  | .element place _ indices, .element known parts => by
    have := OnLine.of known
    have := inferAll_points indices parts
    unfold infer
    refine points_bind fun inferred => ?_
    have := checkElement_points place (at_indices parts inferred)
    infer_instance
  | .binary _ _ left right, .binary known first second => by
    have := OnLine.of known
    have := infer_points left first
    have := infer_points right second
    unfold infer
    infer_instance
  | .unary _ _ operand, .unary known part => by
    have := OnLine.of known
    have := infer_points operand part
    unfold infer
    infer_instance
  | .call _ callee arguments, .call known _ parts => by
    have := OnLine.of known
    have := inferAll_points arguments parts
    have := fun params => inferArguments_points callee 1 params arguments parts
    unfold infer
    infer_instance
  | .range .., _ => by unfold infer; infer_instance
  | .stray .., _ => by unfold infer; infer_instance

theorem inferAll_points : ∀ es : List Expr, (∀ e ∈ es, e.Grounded G) → Points G (inferAll es)
  | [], _ => by unfold inferAll; infer_instance
  | e :: rest, known => by
    have := infer_points e (known e (.head _))
    have := inferAll_points rest fun e member => known e (.tail _ member)
    unfold inferAll
    infer_instance

theorem inferArguments_points (callee : String) : ∀ (number : Nat) (params : List Param) (es : List Expr),
    (∀ e ∈ es, e.Grounded G) → Points G (inferArguments callee number params es)
  | _, _, [], _ => by unfold inferArguments; infer_instance
  | number, [], e :: rest, known => by
    have := infer_points e (known e (.head _))
    have := inferArguments_points callee number [] rest fun e member => known e (.tail _ member)
    unfold inferArguments
    infer_instance
  | number, param :: params, e :: rest, known => by
    have here := (known e (.head _)).place
    have := OnLine.of here
    have := checkReference_points here callee number param
    have := infer_points e (known e (.head _))
    have := inferArguments_points callee (number + 1) params rest fun e member => known e (.tail _ member)
    unfold inferArguments
    infer_instance

end

end Expressions

section Statements

variable {place : Position} [here : OnLine G place]

include here

instance : Points G (incomplete place what) := by unfold incomplete; infer_instance

instance : Points G (checkDeclaration place name typeName) := by
  unfold checkDeclaration
  infer_instance

instance : Points G (checkArrayDeclaration limit place name bounds elementType) := by
  have (bounds : List Bound) : Points G (bounds.forM fun b => do
      if b.upper < b.lower then report place (.reversedBounds b name)) :=
    points_forM bounds fun _ _ => inferInstance
  unfold checkArrayDeclaration
  exact points_bind fun _ => points_first inferInstance

theorem checkConstant_points {value : Option Expr} (known : ∀ e ∈ value, e.Grounded G) (name : String) :
    Points G (checkConstant place name value) := by
  unfold checkConstant
  cases value with
  | none => infer_instance
  | some e =>
    have := infer_points e (known e rfl)
    infer_instance

variable (place) in
theorem checkTargetElement_points {indices : List Expr} (known : ∀ e ∈ indices, e.Grounded G) (array : String) :
    Points G (checkTargetElement place array indices) := by
  have := inferAll_points indices known
  unfold checkTargetElement
  exact points_bind fun inferred => checkElement_points place (at_indices known inferred) array false

instance : Points G (declareImplicitly place name) := by unfold declareImplicitly; infer_instance

theorem checkAssignment_points {target : Target} {value : Expr} (into : target.Grounded G)
    (known : value.Grounded G) : Points G (checkAssignment place target value) := by
  have := infer_points value known
  unfold checkAssignment
  refine points_bind fun inferred => ?_
  cases into with
  | @element place indices array stands parts =>
    have := OnLine.of stands
    have := checkTargetElement_points place parts array
    infer_instance
  | stray => infer_instance
  | «variable» =>
    refine points_bind fun found => ?_
    split <;> infer_instance

theorem checkInput_points {target : Target} (into : target.Grounded G) : Points G (checkInput place target) := by
  unfold checkInput
  cases into with
  | @element place indices array stands parts =>
    have := OnLine.of stands
    have := checkTargetElement_points place parts array
    infer_instance
  | stray => infer_instance
  | «variable» =>
    refine points_bind fun found => ?_
    split <;> infer_instance

variable (place) in
theorem checkCondition_points {condition : Option Expr} (known : ∀ e ∈ condition, e.Grounded G)
    (keyword : Keyword) : Points G (checkCondition place keyword condition) := by
  unfold checkCondition
  cases condition with
  | none => infer_instance
  | some e =>
    have := infer_points e (known e rfl)
    refine points_bind fun inferred => ?_
    have : OnLine G ⟨if e.line = 0 then place.line else e.line, e.position.column⟩ := by
      refine ⟨?_⟩
      split
      · exact here.line
      · exact ⟨_, (known e rfl).place, rfl⟩
    split <;> infer_instance

omit here in
theorem checkForBound_points {e : Expr} (known : e.Grounded G) (part : ForPart) :
    Points G (checkForBound part e) := by
  have := OnLine.of known.place
  have := infer_points e known
  unfold checkForBound
  refine points_bind fun value => ?_
  dsimp only
  split <;> infer_instance

instance : Points G (checkLabelType place label selector) := by
  unfold checkLabelType
  split <;> infer_instance

omit here in
theorem checkLabel_points {label : Expr} (known : label.Grounded G) (selector : Inferred) :
    Points G (checkLabel selector label) := by
  have := OnLine.of known.place
  unfold checkLabel
  split
  next place low high =>
    cases known with
    | range stands first second =>
      have := OnLine.of stands
      have := infer_points low first
      have := infer_points high second
      refine points_bind fun low => points_bind fun high => points_bind fun _ => points_bind fun _ => ?_
      split <;> infer_instance
  next =>
    have := infer_points label known
    refine points_bind fun value => points_bind fun _ => ?_
    split <;> infer_instance

omit here in
theorem checkLabels_points (selector : Inferred) {line : Nat} (stands : G.Line line) {labels : List Expr}
    (known : ∀ e ∈ labels, e.Grounded G) (seen : List (LabelKey × Nat)) :
    Points G (checkLabels selector line labels seen) := by
  induction labels generalizing seen with
  | nil => unfold checkLabels; infer_instance
  | cons label rest ih =>
    have := checkLabel_points (known label (.head _)) selector
    have := ih fun e member => known e (.tail _ member)
    have : OnLine G ⟨if line = 0 then label.line else line, label.position.column⟩ := by
      refine ⟨?_⟩
      split
      · exact ⟨_, (known label (.head _)).place, rfl⟩
      · exact stands
    unfold checkLabels
    refine points_bind fun key => ?_
    split
    · infer_instance
    · split <;> infer_instance

theorem checkReturn_points {value : Option Expr} (known : ∀ e ∈ value, e.Grounded G) :
    Points G (checkReturn place value) := by
  unfold checkReturn
  cases value with
  | none =>
    refine points_bind fun value => points_bind fun s => ?_
    split <;> infer_instance
  | some e =>
    have := infer_points e (known e rfl)
    refine points_bind fun value => points_bind fun s => ?_
    split <;> infer_instance

omit here in
theorem reportUnreachable_points {s : Stmt} (known : s.Grounded G) : Points G (reportUnreachable s) := by
  have := OnLine.of known.place
  unfold reportUnreachable
  infer_instance

end Statements

mutual

theorem checkStatement_points (limit : Int) : ∀ s : Stmt, s.Grounded G → Points G (checkStatement limit s)
  | .declare .., .declare known => by
    have := OnLine.of known
    unfold checkStatement
    infer_instance
  | .declareArray .., .declareArray known => by
    have := OnLine.of known
    unfold checkStatement
    infer_instance
  | .constant _ name _, .constant known value => by
    have := OnLine.of known
    unfold checkStatement
    exact checkConstant_points value name
  | .assign .., .assign known target value => by
    have := OnLine.of known
    unfold checkStatement
    exact checkAssignment_points target value
  | .ifThen place _ thenBranch elseBranch, .ifThen known condition first second => by
    have := OnLine.of known
    have := checkCondition_points place condition .IF
    have := checkBlock_points limit .live thenBranch first
    have := checkOtherwise_points limit elseBranch second
    unfold checkStatement
    infer_instance
  | .whileDo place _ body, .whileDo known condition inner => by
    have := OnLine.of known
    have := checkCondition_points place condition .WHILE
    have := checkBlock_points limit .live body inner
    unfold checkStatement
    infer_instance
  | .repeatUntil place body _, .repeatUntil known inner condition => by
    have := OnLine.of known
    have := checkCondition_points place condition .UNTIL
    have := checkBlock_points limit .live body inner
    unfold checkStatement
    infer_instance
  | .forLoop place counter start stop step body, .forLoop known first last by_ inner => by
    have := OnLine.of known
    have := checkBlock_points limit .live body inner
    unfold checkStatement
    cases counter with
    | none => infer_instance
    | some counter => cases start with
      | none => infer_instance
      | some start => cases stop with
        | none => infer_instance
        | some stop =>
          have := checkForBound_points (first start rfl) .start
          have := checkForBound_points (last stop rfl) .stop
          cases step with
          | none => infer_instance
          | some step =>
            have := checkForBound_points (by_ step rfl) .step
            infer_instance
  | .caseOf place selector branches otherwise, .caseOf known chosen lines labels bodies rest => by
    have := OnLine.of known
    have := fun selector => checkBranches_points limit selector [] branches fun b member =>
      ⟨lines b member, labels b member, bodies b member⟩
    have := checkOtherwise_points limit otherwise rest
    unfold checkStatement
    cases selector with
    | none => infer_instance
    | some e =>
      have := infer_points e (chosen e rfl)
      infer_instance
  | .routine r, .routine known _ => by
    have := OnLine.of known
    unfold checkStatement
    infer_instance
  | .giveBack .., .giveBack known value => by
    have := OnLine.of known
    unfold checkStatement
    exact checkReturn_points value
  | .call _ _ callee arguments, .call _ known _ parts => by
    have := OnLine.of known
    have := inferAll_points arguments parts
    have := fun params => inferArguments_points callee 1 params arguments parts
    unfold checkStatement
    infer_instance
  | .output _ values, .output _ parts => by
    have := inferAll_points values parts
    unfold checkStatement
    infer_instance
  | .input .., .input known target => by
    have := OnLine.of known
    unfold checkStatement
    exact checkInput_points target
  | .strayCall .., _ => by unfold checkStatement; infer_instance
  | .stray .., _ => by unfold checkStatement; infer_instance

theorem checkBlock_points (limit : Int) (reach : Reach) : ∀ block : List Stmt, BlockGrounded G block →
    Points G (checkBlock limit reach block)
  | [], _ => by unfold checkBlock; infer_instance
  | s :: rest, known => by
    have := reportUnreachable_points (known s (.head _))
    have := checkStatement_points limit s (known s (.head _))
    have := fun further => checkBlock_points limit further rest fun s member => known s (.tail _ member)
    unfold checkBlock
    exact points_first inferInstance

theorem checkOtherwise_points (limit : Int) : ∀ block : Option (List Stmt),
    (∀ part ∈ block, BlockGrounded G part) → Points G (checkOtherwise limit block)
  | none, _ => by unfold checkOtherwise; infer_instance
  | some block, known => by
    have := checkBlock_points limit .live block (known block rfl)
    unfold checkOtherwise
    infer_instance

theorem checkBranches_points (limit : Int) (selector : Inferred) (seen : List (LabelKey × Nat)) :
    ∀ branches : List (Branch Stmt), (∀ b ∈ branches, b.Grounded G) →
      Points G (checkBranches limit selector seen branches)
  | [], _ => by unfold checkBranches; infer_instance
  | ⟨labels, body, line⟩ :: rest, known => by
    have first := known _ (.head _)
    have := checkLabels_points selector first.line first.labels
    have := checkBlock_points limit .live body first.body
    have := fun seen => checkBranches_points limit selector seen rest fun b member => known b (.tail _ member)
    unfold checkBranches
    infer_instance

end

section Programs

theorem register_points {r : Routine Stmt} (known : G.place r.position) : Points G (register r) := by
  have := OnLine.of known
  unfold register
  split
  · infer_instance
  · dsimp only
    split <;> infer_instance

theorem checkParam_points {place : Position} (known : G.place place) (p : Param) :
    Points G (checkParam place p) := by
  have := OnLine.of known
  unfold checkParam
  infer_instance

theorem checkRoutine_points (limit : Int) {r : Routine Stmt} (known : G.place r.position)
    (body : BlockGrounded G r.body) (registered : Option Symbol) :
    Points G (checkRoutine limit r registered) := by
  have := OnLine.of known
  have := checkBlock_points limit .live r.body body
  have := points_forM r.params fun p _ => checkParam_points known p
  have (checked : Option Symbol) :
      Points G (modify fun s => { s with routine := checked } : Check PUnit) :=
    points_modify fun s grounded => ⟨grounded.symbols, grounded.reads, grounded.reports⟩
  unfold checkRoutine
  dsimp only
  refine points_bind fun _ => points_bind fun _ => points_bind fun _ => points_bind fun _ => ?_
  exact points_first inferInstance

instance : Points G reportLateGlobals := by
  unfold reportLateGlobals
  refine points_get fun s grounded => ?_
  refine (points_forM _ fun reads member => ?_).ends s grounded
  dsimp only
  split
  · infer_instance
  · refine points_forM _ fun read inside => ?_
    have : OnLine G read.2.position := ⟨grounded.reads reads member read inside⟩
    infer_instance

theorem checkProgram_points (limit : Int) {p : Program} (known : p.Grounded G) :
    Points G (checkProgram limit p) := by
  have := checkBlock_points limit .live p.body known.body
  unfold checkProgram
  have := points_mapM p.routines fun r member => register_points (known.routines r member).1
  refine points_bind fun registered => points_bind fun _ => ?_
  have := points_forM (p.routines.zip registered) (f := fun pair => checkRoutine limit pair.1 pair.2)
    fun pair member =>
      have inside := known.routines _ (List.of_mem_zip member).1
      checkRoutine_points limit inside.1 inside.2 pair.2
  refine points_bind fun _ => points_bind fun _ => points_get fun s grounded => ?_
  exact (reportUnused_points fun symbol member => grounded.symbols symbol (.inl member)).ends s grounded

end Programs

end Check

end Pseudocode
