import Pseudocode.Proofs.Review

/-! The statements of a program that is checked without errors obey what the check makes sure of. The
routines are registered first, which brings the symbols into agreement with the run; every statement
that execution can come to is then checked with the symbols in agreement. -/
namespace Pseudocode

namespace Check

variable {ctx : RunContext} {s : CheckState} (whole : Prop) (limit : Int)

theorem checkDeclaration_clears (agrees : s.symbols.Agrees ctx) (place : Position)
    (name typeName : String) :
    Clears ctx s (checkDeclaration place name typeName) (fun _ => True) := by
  unfold checkDeclaration
  refine (namedType_clears agrees place typeName).bind fun type t agrees => ?_
  refine (declare_clears agrees place ?_).discard.weaken fun _ _ _ => trivial
  rfl

/-- A part that may be missing is checked where it is given. -/
theorem clears_given {value : Option Expr} {absent : Check α} {present : Expr → Check α}
    {next : α → Check β} {known : Expr → Prop} {good : β → Prop}
    (missing : Clears ctx s absent (fun _ => True))
    (given : ∀ e, Clears ctx s (present e) (fun _ => known e))
    (rest : ∀ a t, t.symbols.Agrees ctx →
      Clears ctx t (next a) (fun b => (∀ e ∈ value, known e) → good b)) :
    Clears ctx s (match value with
      | none => absent >>= next
      | some e => present e >>= next) good := by
  cases value with
  | none =>
    refine missing.bind fun a t agrees => (rest a t agrees).weaken fun _ follows _ => follows ?_
    simp
  | some e =>
    refine (given e).bind fun a t agrees => (rest a t agrees).weaken fun _ follows inner => follows ?_
    rintro _ ⟨⟩
    exact inner

theorem checkArrayDeclaration_clears (agrees : s.symbols.Agrees ctx) (place : Position)
    (name : String) (bounds : List Bound) (elementType : String) :
    Clears ctx s (checkArrayDeclaration limit place name bounds elementType)
      (fun _ => (Policy.reviewed ctx whole limit).array bounds elementType) := by
  have ordered (b : Bound) (t : CheckState) (agrees : t.symbols.Agrees ctx) :
      Clears ctx t (do if b.upper < b.lower then report place (.reversedBounds b name))
        (fun _ => b.lower ≤ b.upper) := by
    refine clears_when agrees (fun _ => ?_) Int.not_lt.mp
    exact (clears_error agrees place rfl).weaken fun _ => False.elim
  unfold checkArrayDeclaration
  refine (clears_forM bounds agrees fun b _ => ordered b).bind fun _ t agrees => ?_
  refine clears_optional agrees
    (fun _ => (clears_error agrees place rfl).weaken fun _ => False.elim) id fun t agrees => ?_
  refine (namedType_clears agrees place elementType).bind fun type u agrees => ?_
  refine (declare_clears agrees place ?_).discard.weaken fun _ _ known fits ordered => ?_
  · rfl
  · refine ⟨ordered, Int.not_lt.mp fun large => fits ⟨?_, large⟩, known⟩
    simpa using ordered

theorem checkConstant_clears (agrees : s.symbols.Agrees ctx) (place : Position) (name : String)
    (value : Option Expr) : Clears ctx s (checkConstant place name value)
      (fun _ => ∀ e ∈ value, e.Obeys (.reviewed ctx whole limit)) := by
  unfold checkConstant
  refine clears_given (clears_pure agrees trivial) (fun e => infer_clears whole limit e agrees)
    fun inferred t agrees => ?_
  refine (declare_clears agrees place ?_).discard.weaken fun _ _ inner => inner
  rfl

theorem checkTargetElement_clears (agrees : s.symbols.Agrees ctx) (place : Position)
    (array : String) (indices : List Expr) : Clears ctx s (checkTargetElement place array indices)
      (fun _ => ∀ e ∈ indices, e.Obeys (.reviewed ctx whole limit)) := by
  unfold checkTargetElement
  refine (inferAll_clears whole limit indices agrees).bind fun inferred t agrees => ?_
  exact (checkElement_clears agrees place array _ false).anyway fun _ inner => inner

theorem declareImplicitly_clears (agrees : s.symbols.Agrees ctx) (place : Position)
    (name : String) : Clears ctx s (declareImplicitly place name) (fun _ => True) := by
  refine (declare_clears agrees place ?_).discard.weaken fun _ _ => trivial
  rfl

theorem checkAssignment_clears (agrees : s.symbols.Agrees ctx) (place : Position) (target : Target)
    (value : Expr) : Clears ctx s (checkAssignment place target value)
      (fun _ => target.Obeys (.reviewed ctx whole limit) ∧ value.Obeys (.reviewed ctx whole limit)) := by
  unfold checkAssignment
  refine (infer_clears whole limit value agrees).bind fun inferred t agrees => ?_
  split
  next there array indices =>
    refine (checkTargetElement_clears whole limit agrees there array indices).bind fun type u agrees => ?_
    exact (checkAssignable_clears agrees place type inferred _ none).anyway
      fun _ inner valued => ⟨inner, valued⟩
  next => exact clears_throw _
  next there name =>
    have finished {m : Check Unit} {u : CheckState} (clears : Clears ctx u m (fun _ => True)) :
        Clears ctx u m (fun _ => value.Obeys (.reviewed ctx whole limit) →
          (Target.variable there name).Obeys (.reviewed ctx whole limit) ∧
            value.Obeys (.reviewed ctx whole limit)) :=
      clears.anyway fun _ valued => ⟨trivial, valued⟩
    refine clears_lookup ?_
    split
    next => exact finished (declareImplicitly_clears agrees place name)
    next =>
      split
      · exact finished (clears_warning agrees place _)
      · split
        · exact finished (clears_warning agrees place _)
        · exact finished (checkAssignable_clears agrees place _ inferred _ _)

theorem checkInput_clears (agrees : s.symbols.Agrees ctx) (place : Position) (target : Target) :
    Clears ctx s (checkInput place target)
      (fun _ => target.Obeys (.reviewed ctx whole limit)) := by
  unfold checkInput
  split
  next there array indices =>
    exact (checkTargetElement_clears whole limit agrees there array indices).discard.weaken
      fun _ ⟨_, inner⟩ => inner
  next => exact clears_throw _
  next there name =>
    refine clears_lookup ?_
    split
    next => exact (declareImplicitly_clears agrees place name).anyway fun _ => trivial
    next =>
      split
      · exact (clears_warning agrees place _).anyway fun _ => trivial
      · split
        · exact (clears_warning agrees place _).anyway fun _ => trivial
        · exact clears_when agrees (fun _ => (clears_warning agrees place _).anyway fun _ => trivial)
            fun _ => trivial

theorem checkCondition_clears (agrees : s.symbols.Agrees ctx) (place : Position) (keyword : Keyword)
    (condition : Option Expr) : Clears ctx s (checkCondition place keyword condition)
      (fun _ => ∀ e ∈ condition, e.Obeys (.reviewed ctx whole limit)) := by
  unfold checkCondition
  cases condition with
  | none => exact (clears_warning agrees place _).anyway fun _ => nofun
  | some e =>
    have finished (inner : e.Obeys (.reviewed ctx whole limit)) :
        ∀ e' ∈ some e, e'.Obeys (.reviewed ctx whole limit) := by
      rintro _ ⟨⟩
      exact inner
    refine (infer_clears whole limit e agrees).bind fun value t agrees => ?_
    split
    · exact clears_pure agrees finished
    · exact clears_pure agrees finished
    · exact (clears_warning agrees _ _).anyway fun _ => finished

theorem checkForBound_clears (agrees : s.symbols.Agrees ctx) (part : ForPart) (e : Expr) :
    Clears ctx s (checkForBound part e) (fun _ => e.Obeys (.reviewed ctx whole limit)) := by
  unfold checkForBound
  refine (infer_clears whole limit e agrees).followed fun value t agrees => ?_
  dsimp only
  split
  next =>
    exact clears_optional agrees (fun _ => clears_warning agrees _ _) (fun _ => trivial)
      fun u agrees => clears_pure agrees fun _ => trivial
  next type _ =>
    refine clears_optional agrees (fun _ => clears_warning agrees _ _) (fun _ => trivial)
      fun u agrees => ?_
    exact clears_optional agrees (fun _ => clears_warning agrees _ _) (fun _ => trivial)
      fun w agrees => clears_pure agrees fun _ _ => trivial

theorem checkLabelType_clears (agrees : s.symbols.Agrees ctx) (place : Position)
    (label selector : Inferred) : Clears ctx s (checkLabelType place label selector) (fun _ => True) := by
  unfold checkLabelType
  split
  · exact clears_when agrees (fun _ => clears_warning agrees place _) fun _ => trivial
  · exact clears_pure agrees trivial

theorem checkLabel_clears (agrees : s.symbols.Agrees ctx) (selector : Inferred) (label : Expr) :
    Clears ctx s (checkLabel selector label)
      (fun _ => label.Obeys (.reviewed ctx whole limit)) := by
  unfold checkLabel
  split
  next place low high =>
    refine (infer_clears whole limit low agrees).bind fun l t agrees => ?_
    refine (infer_clears whole limit high agrees).bind fun h u agrees => ?_
    refine (checkLabelType_clears agrees place l selector).bind fun _ w agrees => ?_
    refine (checkLabelType_clears agrees place h selector).bind fun _ x agrees => ?_
    split
    · exact clears_pure agrees fun _ _ highObeys lowObeys => .range lowObeys highObeys
    · exact clears_pure agrees fun _ _ highObeys lowObeys => .range lowObeys highObeys
  next =>
    refine (infer_clears whole limit label agrees).bind fun value t agrees => ?_
    refine (checkLabelType_clears agrees _ value selector).bind fun _ u agrees => ?_
    split
    · exact clears_pure agrees fun _ inner => inner
    · exact clears_pure agrees fun _ inner => inner

theorem checkLabels_clears (selector : Inferred) (line : Nat) (labels : List Expr)
    (seen : List (LabelKey × Nat)) (agrees : s.symbols.Agrees ctx) :
    Clears ctx s (checkLabels selector line labels seen)
      (fun _ => ∀ e ∈ labels, e.Obeys (.reviewed ctx whole limit)) := by
  induction labels generalizing s seen with
  | nil => exact clears_pure agrees (List.forall_mem_nil _)
  | cons label rest ih =>
    have others (seen : List (LabelKey × Nat)) {t : CheckState} (agrees : t.symbols.Agrees ctx) :
        Clears ctx t (checkLabels selector line rest seen)
          (fun _ => label.Obeys (.reviewed ctx whole limit) →
            ∀ e ∈ label :: rest, e.Obeys (.reviewed ctx whole limit)) :=
      (ih seen agrees).weaken fun _ others first => List.forall_mem_cons.mpr ⟨first, others⟩
    rw [checkLabels]
    refine (checkLabel_clears whole limit agrees selector label).bind fun key t agrees => ?_
    split
    · exact others seen agrees
    · split
      · exact (clears_warning agrees _ _).bind fun _ u agrees =>
          (others seen agrees).weaken fun _ done _ => done
      · exact others _ agrees

theorem checkReturn_clears (agrees : s.symbols.Agrees ctx) (place : Position)
    (value : Option Expr) : Clears ctx s (checkReturn place value)
      (fun _ => ∀ e ∈ value, e.Obeys (.reviewed ctx whole limit)) := by
  unfold checkReturn
  refine clears_given (clears_pure agrees trivial)
    (fun e => (infer_clears whole limit e agrees).mapped) fun inferred t agrees => clears_get ?_
  split
  · exact (clears_warning agrees place _).anyway fun _ inner => inner
  · exact clears_when agrees (fun _ => (clears_warning agrees place _).anyway fun _ inner => inner)
      fun _ inner => inner
  · split
    · exact (clears_warning agrees place _).anyway fun _ inner => inner
    · exact (checkAssignable_clears agrees place _ _ _ none).anyway fun _ inner => inner

theorem reportUnreachable_clears (agrees : s.symbols.Agrees ctx) (stmt : Stmt) :
    Clears ctx s (reportUnreachable stmt) (fun _ => True) := by
  unfold reportUnreachable
  split
  · exact clears_throw _
  · exact clears_warning agrees _ _

/-- A FOR loop whose header is not checked has no header, unless the program has loops with parts of
one, and then nothing is asked of calls. -/
theorem unchecked_header (ctx : RunContext) {counter : Option String} {start stop step : Option Expr}
    (partly : ∀ c a b, (counter, start, stop) ≠ (some c, some a, some b))
    (header : whole → (counter.isSome && start.isSome && stop.isSome ||
      counter.isNone && start.isNone && stop.isNone && step.isNone) = true) :
    ∀ part ∈ [start, stop, step], ∀ e ∈ part, e.Obeys (.reviewed ctx whole limit) := by
  by_cases loops : whole
  · have header := header loops
    cases counter <;> cases start <;> cases stop <;> cases step <;> simp_all
  · exact fun _ _ e _ => e.obeys_lax fun _ _ _ holds => absurd holds loops

mutual

theorem checkStatement_clears : ∀ (stmt : Stmt) {s : CheckState}, s.symbols.Agrees ctx →
    (whole → stmt.whole = true) → Clears ctx s (checkStatement limit stmt)
      (fun _ => stmt.Obeys (.reviewed ctx whole limit))
  | .declare place name typeName, s, agrees, _ => by
    rw [checkStatement]
    exact (checkDeclaration_clears agrees place name typeName).anyway fun _ => .declare
  | .declareArray place name bounds elementType, s, agrees, _ => by
    rw [checkStatement]
    exact (checkArrayDeclaration_clears whole limit agrees place name bounds elementType).weaken
      fun _ permitted => .declareArray permitted
  | .constant place name value, s, agrees, _ => by
    rw [checkStatement]
    exact (checkConstant_clears whole limit agrees place name value).weaken fun _ inner =>
      .constant inner
  | .assign place target value, s, agrees, _ => by
    rw [checkStatement]
    exact (checkAssignment_clears whole limit agrees place target value).weaken
      fun _ ⟨targeted, valued⟩ => .assign targeted valued
  | .ifThen place condition thenBranch elseBranch, s, agrees, wholes => by
    simp only [Stmt.whole, Bool.and_eq_true] at wholes
    rw [checkStatement]
    refine (checkCondition_clears whole limit agrees place .IF condition).bind fun _ t agrees => ?_
    refine (checkBlock_clears thenBranch .live agrees fun holds => (wholes holds).1).bind
      fun _ u agrees => ?_
    exact (checkOtherwise_clears elseBranch agrees fun holds => (wholes holds).2).weaken
      fun _ elses thens inner => .ifThen inner thens elses
  | .whileDo place condition body, s, agrees, wholes => by
    simp only [Stmt.whole] at wholes
    rw [checkStatement]
    refine (checkCondition_clears whole limit agrees place .WHILE condition).bind fun _ t agrees => ?_
    exact (checkBlock_clears body .live agrees wholes).weaken fun _ bodies inner =>
      .whileDo inner bodies
  | .repeatUntil place body condition, s, agrees, wholes => by
    simp only [Stmt.whole] at wholes
    rw [checkStatement]
    refine (checkBlock_clears body .live agrees wholes).bind fun _ t agrees => ?_
    exact (checkCondition_clears whole limit agrees place .UNTIL condition).weaken
      fun _ inner bodies => .repeatUntil bodies inner
  | .forLoop place counter start stop step body, s, agrees, wholes => by
    simp only [Stmt.whole, Bool.and_eq_true] at wholes
    have rest (t : CheckState) (agrees : t.symbols.Agrees ctx) :
        Clears ctx t (do
          checkBlock limit .live body
          leaveScope) (fun _ => ∀ stmt ∈ body, stmt.Obeys (.reviewed ctx whole limit)) := by
      refine (checkBlock_clears body .live agrees fun holds => (wholes holds).2).bind
        fun _ u agrees => ?_
      exact (leaveScope_clears agrees).anyway fun _ bodies => bodies
    rw [checkStatement.eq_def]
    dsimp only
    split
    next counter start stop =>
      refine (checkForBound_clears whole limit agrees .start start).bind fun startType t agrees => ?_
      refine (checkForBound_clears whole limit agrees .stop stop).discard.bind fun _ u agrees => ?_
      have looped (w : CheckState) (agrees : w.symbols.Agrees ctx) (stepType : Option DataType) :
          Clears ctx w (do
            let type := if startType = some .real ∨ stepType = some .real then .real else .integer
            enterScope
            discard <| declare place
              { name := counter, kind := .variable, type := some type, line := place.line, used := true }
            checkBlock limit .live body
            leaveScope) (fun _ => ∀ stmt ∈ body, stmt.Obeys (.reviewed ctx whole limit)) := by
        refine (enterScope_clears agrees).bind fun _ x agrees => ?_
        refine (declare_clears agrees place ?_).discard.bind fun _ y agrees => ?_
        · rfl
        · exact (rest y agrees).weaken fun _ bodies _ _ => bodies
      cases step with
      | none =>
        refine (looped u agrees none).weaken fun _ bodies ⟨_, stopped⟩ started => ?_
        exact .forLoop (by simpa using started) (by simpa using stopped) nofun bodies
      | some step =>
        refine (checkForBound_clears whole limit agrees .step step).bind fun stepType w agrees => ?_
        refine (looped w agrees stepType).weaken fun _ bodies stepped ⟨_, stopped⟩ started => ?_
        exact .forLoop (by simpa using started) (by simpa using stopped) (by simpa using stepped) bodies
    next partly =>
      have header := unchecked_header whole limit ctx
        (fun c a b same => by cases same; exact partly c a b rfl rfl rfl) fun holds => (wholes holds).1
      refine (clears_warning agrees place _).bind fun _ t agrees => ?_
      refine (enterScope_clears agrees).bind fun _ u agrees => ?_
      refine (rest u agrees).weaken fun _ bodies _ _ => ?_
      exact .forLoop (header start (.head _)) (header stop (.tail _ (.head _)))
        (header step (.tail _ (.tail _ (.head _)))) bodies
  | .caseOf place selector branches otherwise, s, agrees, wholes => by
    simp only [Stmt.whole, Bool.and_eq_true] at wholes
    have rest (t : CheckState) (agrees : t.symbols.Agrees ctx) (inferred : Inferred) :
        Clears ctx t (do
          checkBranches limit inferred [] branches
          checkOtherwise limit otherwise)
        (fun _ => (∀ e ∈ selector, e.Obeys (.reviewed ctx whole limit)) →
          Stmt.Obeys (.reviewed ctx whole limit) (.caseOf place selector branches otherwise)) := by
      refine (checkBranches_clears branches inferred [] agrees fun holds => (wholes holds).1).bind
        fun _ u agrees => ?_
      exact (checkOtherwise_clears otherwise agrees fun holds => (wholes holds).2).weaken
        fun _ others ⟨labels, bodies⟩ selected => .caseOf selected labels bodies others
    rw [checkStatement.eq_def]
    cases selector with
    | none =>
      refine (clears_warning agrees place _).bind fun _ t agrees => ?_
      exact (rest t agrees .unknown).weaken fun _ done _ => done nofun
    | some e =>
      refine (infer_clears whole limit e agrees).bind fun inferred t agrees => ?_
      exact (rest t agrees inferred).weaken fun _ done inner => done (by simpa using inner)
  | .routine r, s, agrees, _ => by
    rw [checkStatement]
    split
    · exact (clears_warning agrees _ _).anyway fun _ => .routine
    · exact clears_pure agrees .routine
  | .giveBack place value, s, agrees, _ => by
    rw [checkStatement]
    exact (checkReturn_clears whole limit agrees place value).weaken fun _ inner => .giveBack inner
  | .call _ place callee arguments, s, agrees, _ => by
    rw [checkStatement]
    refine (checkCall_clears agrees false place callee arguments
      (inferAll_clears whole limit arguments agrees) fun params t agrees =>
        inferArguments_clears whole limit callee 1 params arguments agrees).discard.weaken ?_
    exact fun _ ⟨_, inner, fits⟩ => .call (fun _ => fits) inner
  | .strayCall place node, s, agrees, _ => by
    rw [checkStatement]
    exact clears_throw _
  | .output place values, s, agrees, _ => by
    rw [checkStatement]
    exact (inferAll_clears whole limit values agrees).discard.weaken fun _ ⟨_, inner⟩ => .output inner
  | .input place target, s, agrees, _ => by
    rw [checkStatement]
    exact (checkInput_clears whole limit agrees place target).weaken fun _ inner => .input inner
  | .stray place node, s, agrees, _ => by
    rw [checkStatement]
    exact clears_throw _

theorem checkBlock_clears : ∀ (block : List Stmt) (reach : Reach) {s : CheckState},
    s.symbols.Agrees ctx → (whole → blockWhole block = true) →
    Clears ctx s (checkBlock limit reach block)
      (fun _ => ∀ stmt ∈ block, stmt.Obeys (.reviewed ctx whole limit))
  | [], reach, s, agrees, _ => by
    rw [checkBlock]
    exact clears_pure agrees nofun
  | stmt :: rest, reach, s, agrees, wholes => by
    simp only [blockWhole, Bool.and_eq_true] at wholes
    have others (reach : Reach) (t : CheckState) (agrees : t.symbols.Agrees ctx) :
        Clears ctx t (do
          checkStatement limit stmt
          checkBlock limit reach rest)
        (fun _ => ∀ other ∈ stmt :: rest, other.Obeys (.reviewed ctx whole limit)) := by
      refine (checkStatement_clears stmt agrees fun holds => (wholes holds).1).bind
        fun _ u agrees => ?_
      exact (checkBlock_clears rest reach agrees fun holds => (wholes holds).2).weaken
        fun _ others first => List.forall_mem_cons.mpr ⟨first, others⟩
    rw [checkBlock]
    split
    · exact (reportUnreachable_clears agrees stmt).bind fun _ t agrees =>
        (others _ t agrees).weaken fun _ done _ => done
    · exact others _ s agrees

theorem checkOtherwise_clears : ∀ (otherwise : Option (List Stmt)) {s : CheckState},
    s.symbols.Agrees ctx → (whole → otherwiseWhole otherwise = true) →
    Clears ctx s (checkOtherwise limit otherwise)
      (fun _ => ∀ block ∈ otherwise, ∀ stmt ∈ block, stmt.Obeys (.reviewed ctx whole limit))
  | none, s, agrees, _ => by
    rw [checkOtherwise]
    exact clears_pure agrees nofun
  | some block, s, agrees, wholes => by
    simp only [otherwiseWhole] at wholes
    rw [checkOtherwise]
    refine (checkBlock_clears block .live agrees wholes).weaken fun _ inner => ?_
    rintro _ ⟨⟩
    exact inner

theorem checkBranches_clears : ∀ (branches : List (Branch Stmt)) (selector : Inferred)
    (seen : List (LabelKey × Nat)) {s : CheckState}, s.symbols.Agrees ctx →
    (whole → branchesWhole branches = true) →
    Clears ctx s (checkBranches limit selector seen branches)
      (fun _ => (∀ b ∈ branches, ∀ e ∈ b.labels, e.Obeys (.reviewed ctx whole limit)) ∧
        ∀ b ∈ branches, ∀ stmt ∈ b.body, stmt.Obeys (.reviewed ctx whole limit))
  | [], selector, seen, s, agrees, _ => by
    rw [checkBranches]
    exact clears_pure agrees ⟨nofun, nofun⟩
  | ⟨labels, body, line⟩ :: rest, selector, seen, s, agrees, wholes => by
    simp only [branchesWhole, Bool.and_eq_true] at wholes
    rw [checkBranches]
    refine (checkLabels_clears whole limit selector line labels seen agrees).bind
      fun seen t agrees => ?_
    refine (checkBlock_clears body .live agrees fun holds => (wholes holds).1).bind
      fun _ u agrees => ?_
    refine (checkBranches_clears rest selector seen agrees fun holds => (wholes holds).2).weaken ?_
    exact fun _ ⟨restLabels, restBodies⟩ bodies labels =>
      ⟨List.forall_mem_cons.mpr ⟨labels, restLabels⟩, List.forall_mem_cons.mpr ⟨bodies, restBodies⟩⟩

end

theorem checkParam_clears (agrees : s.symbols.Agrees ctx) (place : Position) (param : Param) :
    Clears ctx s (checkParam place param) (fun _ => True) := by
  unfold checkParam
  refine (namedType_clears agrees place param.typeName).bind fun type t agrees => ?_
  refine (optionalType_clears agrees place param.elementType).bind fun elementType u agrees => ?_
  refine (declare_clears agrees place ?_).discard.weaken fun _ _ _ _ => trivial
  rfl

theorem checkRoutine_clears (agrees : s.symbols.Agrees ctx) (r : Routine Stmt)
    (registered : Option Symbol) (wholes : whole → blockWhole r.body = true) :
    Clears ctx s (checkRoutine limit r registered)
      (fun _ => ∀ stmt ∈ r.body, stmt.Obeys (.reviewed ctx whole limit)) := by
  unfold checkRoutine
  refine (clears_modify agrees rfl).bind fun _ t agrees => ?_
  refine (enterScope_clears agrees).bind fun _ u agrees => ?_
  refine (clears_forM r.params agrees fun param _ v agrees =>
    checkParam_clears agrees r.position param).bind fun _ w agrees => ?_
  refine (checkBlock_clears whole limit r.body .live agrees wholes).bind fun _ x agrees => ?_
  refine clears_optional agrees (fun _ => clears_warning agrees _ _) (fun _ => trivial)
    fun y agrees => ?_
  refine (leaveScope_clears agrees).bind fun _ z agrees => ?_
  exact (clears_modify agrees rfl).anyway fun _ _ _ bodies _ _ _ => bodies

theorem reportLateGlobals_clears (agrees : s.symbols.Agrees ctx) :
    Clears ctx s reportLateGlobals (fun _ => True) := by
  unfold reportLateGlobals
  refine clears_get (clears_each s.globalReads agrees fun entry t agrees => ?_)
  obtain ⟨routine, reads⟩ := entry
  dsimp only
  split
  next => exact clears_pure agrees trivial
  next line _ =>
    refine clears_each reads agrees fun entry u agrees => ?_
    exact clears_when agrees (fun _ => clears_warning agrees _ _) fun _ => trivial

/-- The global scope holds the symbols of these routines and nothing else. -/
structure Registered (kept : List (Routine Stmt)) (t : SymbolTable) : Prop where
  alone : t.inner = []
  named : ∀ r ∈ kept, ∀ word ∈ r.name, ∃ symbol ∈ t.globals, symbol.name = word
  known : ∀ symbol ∈ t.globals, ∃ r ∈ kept, r.name = some symbol.name
  alike : ∀ r ∈ kept, ∀ symbol ∈ t.globals, r.name = some symbol.name →
    r.params = symbol.params ∧ .ofRoutine r.kind = symbol.kind

theorem Registered.agrees {t : SymbolTable} (registered : Registered ctx.routines t) :
    t.Agrees ctx where
  registered {word r} found := by
    have named := List.find?_some found
    exact registered.named r (List.mem_reverse.mp (List.mem_of_find?_eq_some found)) word
      (by simpa using named)
  routines {symbol} has _ := by
    have global : symbol ∈ t.globals := by
      obtain here | ⟨scope, member, _⟩ := has
      · exact here
      · rw [registered.alone] at member
        cases member
    obtain ⟨r, member, named⟩ := registered.known symbol global
    cases found : ctx.routine? symbol.name with
    | none =>
      have absent := List.find?_eq_none.mp found r (List.mem_reverse.mpr member)
      exact absurd (by simpa using named) absent
    | some q =>
      have same : q.name = some symbol.name := by simpa using List.find?_some found
      have mem := List.mem_reverse.mp (List.mem_of_find?_eq_some found)
      obtain ⟨params, kind⟩ := registered.alike q mem symbol global same
      exact ⟨q, found, params, kind⟩

theorem registered_initial : Registered [] CheckState.initial.symbols where
  alone := rfl
  named _ member := nomatch member
  known _ member := nomatch member
  alike _ member := nomatch member

/-- One more routine whose name is free. -/
theorem Registered.add {t : SymbolTable} (registered : Registered kept t) {r : Routine Stmt}
    {symbol : Symbol} (named : r.name = some symbol.name) (free : t.lookupLocal symbol.name = none)
    (params : symbol.params = r.params) (kind : symbol.kind = .ofRoutine r.kind) :
    Registered (kept ++ [r]) (t.setCurrent (t.current ++ [symbol])) := by
  have current : t.current = t.globals := by simp [SymbolTable.current, registered.alone]
  have fresh : ∀ old ∈ t.globals, old.name ≠ symbol.name :=
    SymbolTable.findIn_none (current ▸ free)
  have added : t.setCurrent (t.current ++ [symbol]) = { t with globals := t.globals ++ [symbol] } := by
    simp [SymbolTable.setCurrent, registered.alone, current]
  rw [added]
  refine ⟨registered.alone, fun q member word spelled => ?_, fun other member => ?_,
    fun q member other inside same => ?_⟩
  · obtain before | new := List.mem_append.mp member
    · obtain ⟨old, inside, same⟩ := registered.named q before word spelled
      exact ⟨old, List.mem_append_left _ inside, same⟩
    · cases List.mem_singleton.mp new
      exact ⟨symbol, by simp, Option.some.inj (named.symm.trans spelled)⟩
  · obtain before | new := List.mem_append.mp member
    · obtain ⟨q, inside, same⟩ := registered.known other before
      exact ⟨q, List.mem_append_left _ inside, same⟩
    · cases List.mem_singleton.mp new
      exact ⟨r, by simp, named⟩
  · obtain before | new := List.mem_append.mp member
    · obtain old | latest := List.mem_append.mp inside
      · exact registered.alike q before other old same
      · -- An earlier routine with the new name would have its symbol in the way.
        cases List.mem_singleton.mp latest
        obtain ⟨old, inside, spelled⟩ := registered.named q before symbol.name same
        exact absurd spelled (fresh old inside)
    · cases List.mem_singleton.mp new
      obtain old | latest := List.mem_append.mp inside
      · exact absurd (Option.some.inj (same.symm.trans named)) (fresh other old)
      · cases List.mem_singleton.mp latest
        exact ⟨params.symm, kind.symm⟩

/-- A routine without a name changes nothing. -/
theorem Registered.skip {t : SymbolTable} (registered : Registered kept t) {r : Routine Stmt}
    (nameless : r.name = none) : Registered (kept ++ [r]) t where
  alone := registered.alone
  named q member word spelled := by
    obtain before | new := List.mem_append.mp member
    · exact registered.named q before word spelled
    · cases List.mem_singleton.mp new
      rw [nameless] at spelled
      cases spelled
  known symbol member := by
    obtain ⟨q, inside, same⟩ := registered.known symbol member
    exact ⟨q, List.mem_append_left _ inside, same⟩
  alike q member symbol inside same := by
    obtain before | new := List.mem_append.mp member
    · exact registered.alike q before symbol inside same
    · cases List.mem_singleton.mp new
      rw [nameless] at same
      cases same

/-- A check that only reports; without errors, something is known. -/
def OnlyReports (m : Check α) (known : Prop) : Prop :=
  ∀ s, Ends m s (fun _ t => t.symbols = s.symbols ∧ (t.Clean → s.Clean ∧ known)) (fun _ _ => True)

theorem report_only (place : Position) (finding : Finding) :
    OnlyReports (report place finding) (finding.severity ≠ .error) :=
  fun _ => ⟨rfl, fun clean =>
    ⟨fun r member => clean r (Array.mem_push_of_mem _ member), clean _ Array.mem_push_self⟩⟩

theorem namedType_only (place : Position) (word : String) :
    OnlyReports (namedType place word) (∃ type, DataType.ofName? word = some type) := by
  intro s
  unfold namedType
  split
  · rw [ends_bind]
    exact (report_only place _ s).mono
      (fun _ _ known => ⟨known.1, fun after => absurd rfl (known.2 after).2⟩) fun _ _ _ => trivial
  · split
    next type named => exact ⟨rfl, fun clean => ⟨clean, type, named⟩⟩
    next =>
      rw [ends_bind]
      exact (report_only place _ s).mono
        (fun _ _ known => ⟨known.1, fun after => absurd rfl (known.2 after).2⟩) fun _ _ _ => trivial

theorem checkName_only (place : Position) (symbol : Symbol) :
    OnlyReports (checkName place symbol) True := by
  intro s
  unfold checkName
  dsimp only
  split
  · exact (report_only place _ s).mono
      (fun _ _ ⟨same, clean⟩ => ⟨same, fun after => ⟨(clean after).1, trivial⟩⟩) fun _ _ _ => trivial
  · exact ⟨rfl, fun clean => ⟨clean, trivial⟩⟩

/-- A function that can be called declares a known type for its result, if it declares one. -/
def ResultKnown (r : Routine Stmt) : Prop :=
  r.name.isSome = true → r.kind = .function →
    ∀ word ∈ r.returns, ∃ type, DataType.ofName? word = some type

/-- Registering adds the routine, or reports that its name is taken. -/
def Registers (m : Check α) (s : CheckState) (r : Routine Stmt) (known : Prop) : Prop :=
  Ends m s (fun _ t => ∀ kept, Registered kept s.symbols → ∃ later, Registered later t.symbols ∧
    (t.Clean → s.Clean ∧ later = kept ++ [r] ∧ known)) (fun _ _ => True)

theorem declare_registers (place : Position) {r : Routine Stmt} (symbol : Symbol)
    (named : r.name = some symbol.name) (params : symbol.params = r.params)
    (kind : symbol.kind = .ofRoutine r.kind) (s : CheckState) :
    Registers (declare place symbol) s r True := by
  have routine : symbol.kind.isRoutine = true := by
    rw [kind]
    cases r.kind <;> rfl
  unfold Registers declare
  rw [ends_bind]
  refine (checkName_only place symbol s).mono (fun _ t ⟨same, before⟩ => ?_) fun _ _ _ => trivial
  rw [ends_bind, ends_get]
  split
  next free =>
    intro kept registered
    exact ⟨kept ++ [r], (same ▸ registered).add named free params kind,
      fun clean => ⟨(before clean).1, rfl, trivial⟩⟩
  next existing taken =>
    intro kept registered
    refine ⟨kept, same ▸ registered, fun clean => absurd ?_ (clean _ Array.mem_push_self)⟩
    split <;> rfl

theorem register_registers (r : Routine Stmt) (s : CheckState) :
    Registers (register r) s r (ResultKnown r) := by
  cases nameless : r.name with
  | none =>
    unfold Registers register
    rw [nameless]
    refine fun kept registered => ⟨kept ++ [r], registered.skip nameless, fun clean => ⟨clean, rfl, ?_⟩⟩
    intro named
    rw [nameless] at named
    cases named
  | some word =>
    have declared (type : Option DataType) (t : CheckState) :=
      declare_registers r.position
        { name := word, kind := .ofRoutine r.kind, type, line := r.position.line, params := r.params,
          used := true } nameless rfl rfl t
    have typed (m : Check (Option DataType)) (only : OnlyReports m (ResultKnown r)) :
        Registers (do
          let type ← m
          let symbol : Symbol :=
            { name := word, kind := .ofRoutine r.kind, type, line := r.position.line, params := r.params,
              used := true }
          return if ← declare r.position symbol then some symbol else none) s r (ResultKnown r) := by
      unfold Registers
      rw [ends_bind]
      refine (only s).mono (fun type t ⟨same, before⟩ => ?_) fun _ _ _ => trivial
      rw [ends_bind]
      refine (declared type t).mono (fun _ u grown => ?_) fun _ _ _ => trivial
      intro kept registered
      obtain ⟨later, here, clean⟩ := grown kept (same ▸ registered)
      refine ⟨later, here, fun final => ?_⟩
      obtain ⟨cleanT, all, -⟩ := clean final
      exact ⟨(before cleanT).1, all, (before cleanT).2⟩
    unfold register
    rw [nameless]
    dsimp only
    split
    next =>
      refine typed _ ?_
      cases returns : r.returns with
      | none => exact fun s => ⟨rfl, fun clean => ⟨clean, fun _ _ word stated => by simp [returns] at stated⟩⟩
      | some type =>
        refine fun s => (namedType_only r.position type s).mono (fun _ _ ⟨same, before⟩ =>
          ⟨same, fun clean => ⟨(before clean).1, fun _ _ word stated => ?_⟩⟩) fun _ _ _ => trivial
        cases returns.symm.trans stated
        exact (before clean).2
    next procedure =>
      refine typed (pure none) fun s => ⟨rfl, fun clean => ⟨clean, fun _ function => ?_⟩⟩
      rw [procedure] at function
      cases function

theorem mapM_registers (rs : List (Routine Stmt)) (s : CheckState) :
    Ends (rs.mapM register) s (fun symbols t => symbols.length = rs.length ∧
      ∀ kept, Registered kept s.symbols → ∃ later, Registered later t.symbols ∧
        (t.Clean → s.Clean ∧ later = kept ++ rs ∧ ∀ r ∈ rs, ResultKnown r)) (fun _ _ => True) := by
  induction rs generalizing s with
  | nil =>
    exact ⟨rfl, fun kept registered => ⟨kept, registered, fun clean => ⟨clean, by simp, nofun⟩⟩⟩
  | cons r rest ih =>
    rw [List.mapM_cons, ends_bind]
    refine (register_registers r s).mono (fun symbol t first => ?_) fun _ _ _ => trivial
    rw [ends_bind]
    refine (ih t).mono (fun symbols u ⟨count, others⟩ => ⟨by simp [count], ?_⟩) fun _ _ _ => trivial
    intro kept registered
    obtain ⟨later, here, cleanT⟩ := first kept registered
    obtain ⟨last, there, cleanU⟩ := others later here
    refine ⟨last, there, fun clean => ?_⟩
    obtain ⟨final, same, restKnown⟩ := cleanU clean
    obtain ⟨start, grown, known⟩ := cleanT final
    exact ⟨start, by rw [same, grown, List.append_assoc]; rfl, List.forall_mem_cons.mpr ⟨known, restKnown⟩⟩

/-- What is left of a check once the routines are registered. -/
theorem checked_clears (agrees : s.symbols.Agrees ctx) (p : Program) (registered : List (Option Symbol))
    (count : registered.length = p.routines.length) :
    Clears ctx s (do
      checkBlock limit .live p.body
      (p.routines.zip registered).forM fun (r, symbol) => checkRoutine limit r symbol
      reportLateGlobals
      reportUnused (← get).symbols.globals) (fun _ => p.Obeys (.reviewed ctx p.Whole limit)) := by
  refine (checkBlock_clears p.Whole limit p.body .live agrees fun wholes =>
    blockWhole_iff.mpr wholes).bind fun _ t agrees => ?_
  have each (entry : Routine Stmt × Option Symbol) (member : entry ∈ p.routines.zip registered)
      (t : CheckState) (agrees : t.symbols.Agrees ctx) :=
    checkRoutine_clears p.Whole limit agrees entry.1 entry.2 fun wholes =>
      blockWhole_iff.mpr (wholes.routines entry.1 (List.of_mem_zip member).1)
  refine (clears_forM _ agrees each).bind fun _ u agrees => ?_
  refine (reportLateGlobals_clears agrees).bind fun _ w agrees => clears_get ?_
  refine (reportUnused_clears agrees _).anyway fun _ _ routines body => ⟨body, fun r member => ?_⟩
  obtain ⟨i, inside, rfl⟩ := List.mem_iff_getElem.mp member
  have zipped : (p.routines[i], registered[i]) ∈ p.routines.zip registered :=
    List.mem_iff_getElem.mpr ⟨i, by simp [inside, count], by simp⟩
  exact routines _ zipped

theorem checkProgram_ends (ctx : RunContext) (p : Program) (same : ctx.routines = p.routines) :
    Ends (checkProgram limit p) .initial
      (fun _ t => t.Clean → p.Obeys (.reviewed ctx p.Whole limit) ∧ ∀ r ∈ p.routines, ResultKnown r)
      (fun _ _ => True) := by
  unfold checkProgram
  rw [ends_bind]
  refine (mapM_registers p.routines .initial).mono (fun registered s ⟨count, kept⟩ => ?_)
    fun _ _ _ => trivial
  obtain ⟨later, here, cleanS⟩ := kept [] registered_initial
  -- The symbols agree with the routines that were registered, which are all if there is no error.
  have agrees : s.symbols.Agrees { ctx with routines := later } := Registered.agrees here
  refine (checked_clears limit agrees p registered count).mono (fun _ t ⟨_, before⟩ clean => ?_)
    fun _ _ _ => trivial
  obtain ⟨cleanly, obeys⟩ := before clean
  obtain ⟨-, registeredAll, known⟩ := cleanS cleanly
  have all : later = ctx.routines := registeredAll.trans same.symm
  subst all
  exact ⟨obeys, known⟩

end Check

theorem Report.isError_diagnostic (r : Report) :
    r.diagnostic.isError = (r.finding.severity == .error) := rfl

theorem Review.clean_of_errors {reports : Array Report} (none : errors ⟨reports.toList⟩ = []) :
    ∀ r ∈ reports, r.finding.severity ≠ .error := by
  intro r member error
  have listed := List.mem_map_of_mem (f := Report.diagnostic) (Array.mem_toList_iff.mpr member)
  have passed := List.filter_eq_nil_iff.mp none r.diagnostic listed
  rw [Report.isError_diagnostic, error] at passed
  exact passed rfl

section

variable {p : Program} {review : Review} {limit : Int}

/-- A review without errors is that of a check whose last state has none. Its warnings are among those of the
review. -/
theorem Review.final (reviewed : Review.ofProgram limit p = .ok review) (valid : review.errors = []) :
    ∃ final, Check.checkProgram limit p .initial = .ok () final ∧ final.Clean ∧
      ((∃ r ∈ final.reports, r.finding.severity = .warning) → review.warnings ≠ []) := by
  unfold Review.ofProgram EStateM.run at reviewed
  cases ran : Check.checkProgram limit p .initial with
  | error fault s =>
    rw [ran] at reviewed
    cases reviewed
  | ok _ s =>
    rw [ran] at reviewed
    cases reviewed
    refine ⟨s, rfl, Review.clean_of_errors valid, ?_⟩
    rintro ⟨r, member, warning⟩
    have listed : r.diagnostic ∈ Review.warnings ⟨s.reports.toList⟩ := by
      refine List.mem_filter.mpr ⟨List.mem_map_of_mem (Array.mem_toList_iff.mpr member), ?_⟩
      rw [Report.isError_diagnostic, warning]
      rfl
    exact List.ne_nil_of_mem listed

theorem Review.checked (reviewed : Review.ofProgram limit p = .ok review) (valid : review.errors = [])
    (ctx : RunContext) (same : ctx.routines = p.routines) :
    p.Obeys (.reviewed ctx p.Whole limit) ∧ ∀ r ∈ p.routines, Check.ResultKnown r := by
  obtain ⟨final, ran, clean, -⟩ := Review.final reviewed valid
  exact (Check.checkProgram_ends limit ctx p same).of_ok ran clean

/-- A program that is checked without errors obeys what the check makes sure of. -/
theorem Review.obeys (reviewed : Review.ofProgram limit p = .ok review) (valid : review.errors = [])
    (ctx : RunContext) (same : ctx.routines = p.routines) :
    p.Obeys (.reviewed ctx p.Whole limit) :=
  (checked reviewed valid ctx same).1

/-- In a program that is checked without errors, a function that is called returns a known type. -/
theorem Review.resultKnown (reviewed : Review.ofProgram limit p = .ok review)
    (valid : review.errors = []) {ctx : RunContext} (same : ctx.routines = p.routines)
    (found : ctx.routine? callee = some r) (function : r.kind = .function) :
    ∀ word ∈ r.returns, ∃ type, DataType.ofName? word = some type := by
  have member : r ∈ p.routines := same ▸ List.mem_reverse.mp (List.mem_of_find?_eq_some found)
  have spelled : r.name = some callee := by simpa using List.find?_some found
  exact (checked reviewed valid ctx same).2 r member (by rw [spelled]; rfl) function

end

/-- A check that comes to an end has these errors. -/
theorem Review.exists_of_errors {checked : Except CheckFault Review} {errors : List Diagnostic}
    (found : checked.toOption.map Review.errors = some errors) :
    ∃ review, checked = .ok review ∧ review.errors = errors := by
  cases checked with
  | error fault => cases found
  | ok review => exact ⟨review, rfl, Option.some.inj found⟩

end Pseudocode
