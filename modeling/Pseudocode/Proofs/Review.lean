import Pseudocode.Check.Statement
import Pseudocode.Proofs.Symbols
import Pseudocode.Proofs.WholeLoops

/-! What a check without errors says of the code. Reports are only ever added, so a check that ends
without errors had none at any moment; `Check.Clears` carries that backwards through a check. The
symbols agree with the routines of a run all the while, so a call that is checked against the symbol
of its callee is a call that fits when it is made. -/
namespace Pseudocode

/-- Nothing that was reported is an error. -/
def CheckState.Clean (s : CheckState) : Prop := ∀ r ∈ s.reports, r.finding.severity ≠ .error

/-- What a check without errors makes sure of: every call fits, unless a FOR loop lacks parts of its
header and is skipped, and every array has bounds in order, a known type, and not too many elements. -/
def Policy.reviewed (ctx : RunContext) (whole : Prop) (limit : Int) : Policy where
  call asValue callee arguments := whole → ctx.CallFits asValue callee arguments
  array bounds elementType := (∀ b ∈ bounds, b.lower ≤ b.upper) ∧
    ArrayCell.elementCount bounds ≤ limit ∧ ∃ type, DataType.ofName? elementType = some type

namespace Check

/-- If the check ends without errors there were none when it started, and then what it returns is as
described. -/
def Clears (ctx : RunContext) (s : CheckState) (m : Check α) (good : α → Prop) : Prop :=
  Ends m s (fun a t => t.symbols.Agrees ctx ∧ (t.Clean → s.Clean ∧ good a)) (fun _ _ => True)

section Laws

variable {ctx : RunContext} {s : CheckState} {α β : Type} {m : Check α} {good : α → Prop}

theorem clears_pure (agrees : s.symbols.Agrees ctx) (known : good a) : Clears ctx s (pure a) good :=
  ⟨agrees, fun clean => ⟨clean, known⟩⟩

theorem clears_throw (fault : CheckFault) : Clears ctx s (throw fault) good := trivial

/-- What is known of the first result is passed on to where the rest has ended. -/
theorem Clears.bind {next : α → Check β} {goodNext : β → Prop} (first : Clears ctx s m good)
    (rest : ∀ a t, t.symbols.Agrees ctx → Clears ctx t (next a) (fun b => good a → goodNext b)) :
    Clears ctx s (m >>= next) goodNext := by
  unfold Clears at *
  rw [ends_bind]
  refine first.mono (fun a t ⟨agrees, before⟩ => ?_) fun _ _ _ => trivial
  refine (rest a t agrees).mono (fun b u ⟨agrees, between⟩ => ⟨agrees, fun clean => ?_⟩)
    fun _ _ _ => trivial
  obtain ⟨cleanT, known⟩ := between clean
  obtain ⟨cleanS, here⟩ := before cleanT
  exact ⟨cleanS, known here⟩

theorem Clears.weaken {weaker : α → Prop} (clears : Clears ctx s m good)
    (weakens : ∀ a, good a → weaker a) : Clears ctx s m weaker :=
  clears.mono (fun a _ ⟨agrees, before⟩ => ⟨agrees, fun clean => (before clean).imp_right (weakens a)⟩)
    fun _ _ _ => trivial

theorem Clears.anyway {known : α → Prop} (clears : Clears ctx s m (fun _ => True))
    (here : ∀ a, known a) : Clears ctx s m known :=
  clears.weaken fun a _ => here a

/-- What the first of two checks has cleared is cleared by both. -/
theorem Clears.followed {known : Prop} {next : α → Check β} (first : Clears ctx s m (fun _ => known))
    (rest : ∀ a t, t.symbols.Agrees ctx → Clears ctx t (next a) (fun _ => True)) :
    Clears ctx s (m >>= next) (fun _ => known) :=
  first.bind fun a t agrees => (rest a t agrees).anyway fun _ here => here

theorem Clears.discard (clears : Clears ctx s m good) :
    Clears ctx s (discard m) (fun _ => ∃ a, good a) := by
  unfold Clears at *
  rw [ends_discard]
  exact clears.mono
    (fun a _ ⟨agrees, before⟩ => ⟨agrees, fun clean => (before clean).imp_right fun here => ⟨a, here⟩⟩)
    fun _ _ _ => trivial

theorem Clears.mapped {f : α → β} {known : Prop} (clears : Clears ctx s m (fun _ => known)) :
    Clears ctx s (f <$> m) (fun _ => known) := by
  unfold Clears at *
  rw [ends_map]
  exact clears

theorem clears_get {f : CheckState → Check α} (clears : Clears ctx s (f s) good) :
    Clears ctx s (get >>= f) good := clears

/-- A change that reports nothing and keeps the symbols in agreement. -/
theorem clears_modify {f : CheckState → CheckState} (agrees : (f s).symbols.Agrees ctx)
    (silent : (f s).reports = s.reports) : Clears ctx s (modify f) (fun _ => True) := by
  refine ⟨agrees, fun clean => ⟨?_, trivial⟩⟩
  unfold CheckState.Clean at *
  rw [← silent]
  exact clean

theorem clears_report (agrees : s.symbols.Agrees ctx) (place : Position) (finding : Finding) :
    Clears ctx s (report place finding) (fun _ => finding.severity ≠ .error) := by
  refine ⟨agrees, fun clean => ⟨fun r member => ?_, ?_⟩⟩
  · exact clean r (Array.mem_push_of_mem _ member)
  · exact clean ⟨place, finding⟩ Array.mem_push_self

theorem clears_error (agrees : s.symbols.Agrees ctx) (place : Position) {finding : Finding}
    (error : finding.severity = .error) : Clears ctx s (report place finding) (fun _ => False) :=
  (clears_report agrees place finding).weaken fun _ other => absurd error other

theorem clears_warning (agrees : s.symbols.Agrees ctx) (place : Position) (finding : Finding) :
    Clears ctx s (report place finding) (fun _ => True) :=
  (clears_report agrees place finding).weaken fun _ _ => trivial

theorem clears_forM {f : α → Check Unit} {known : α → Prop} (list : List α)
    (agrees : s.symbols.Agrees ctx)
    (each : ∀ a ∈ list, ∀ t, t.symbols.Agrees ctx → Clears ctx t (f a) (fun _ => known a)) :
    Clears ctx s (list.forM f) (fun _ => ∀ a ∈ list, known a) := by
  induction list generalizing s with
  | nil => exact clears_pure agrees nofun
  | cons a rest ih =>
    refine (each a (.head _) s agrees).bind fun _ t agrees => ?_
    refine (ih agrees fun b member => each b (.tail _ member)).weaken fun _ others here b member => ?_
    cases member with
    | head => exact here
    | tail _ member => exact others b member

theorem clears_each {f : α → Check Unit} (list : List α) (agrees : s.symbols.Agrees ctx)
    (each : ∀ a t, t.symbols.Agrees ctx → Clears ctx t (f a) (fun _ => True)) :
    Clears ctx s (list.forM f) (fun _ => True) :=
  (clears_forM list agrees fun a _ => each a).weaken fun _ _ => trivial

theorem clears_when {c : Prop} [Decidable c] (agrees : s.symbols.Agrees ctx) {m : Check Unit}
    {known : Unit → Prop} (holds : c → Clears ctx s m known) (fails : ¬c → known ()) :
    Clears ctx s (if c then m else pure ()) known := by
  split
  next here => exact holds here
  next away => exact clears_pure agrees (fails away)

/-- A check that is made or left out, and what follows in both cases. -/
theorem clears_optional {c known : Prop} [Decidable c] {m : Check Unit} {next : Unit → Check α}
    (agrees : s.symbols.Agrees ctx) (holds : c → Clears ctx s m (fun _ => known)) (fails : ¬c → known)
    (rest : ∀ t, t.symbols.Agrees ctx → Clears ctx t (next ()) (fun a => known → good a)) :
    Clears ctx s (if c then m >>= next else next ()) good := by
  split
  next here => exact (holds here).bind fun _ t agrees => rest t agrees
  next away => exact (rest s agrees).weaken fun _ follows => follows (fails away)

end Laws

section Basic

variable {ctx : RunContext} {s : CheckState}

theorem namedType_clears (agrees : s.symbols.Agrees ctx) (place : Position) (word : String) :
    Clears ctx s (namedType place word) (fun _ => ∃ type, DataType.ofName? word = some type) := by
  unfold namedType
  split
  · exact (clears_error agrees place rfl).bind fun _ t agrees => clears_pure agrees False.elim
  · split
    next type named => exact clears_pure agrees ⟨type, named⟩
    next => exact (clears_error agrees place rfl).bind fun _ t agrees => clears_pure agrees False.elim

theorem optionalType_clears (agrees : s.symbols.Agrees ctx) (place : Position)
    (word : Option String) : Clears ctx s (optionalType place word) (fun _ => True) := by
  cases word with
  | none => exact clears_pure agrees trivial
  | some word => exact (namedType_clears agrees place word).weaken fun _ _ => trivial

theorem checkName_clears (agrees : s.symbols.Agrees ctx) (place : Position) (symbol : Symbol) :
    Clears ctx s (checkName place symbol) (fun _ => True) := by
  unfold checkName
  exact clears_when agrees (fun _ => clears_warning agrees place _) fun _ => trivial

theorem declare_clears (agrees : s.symbols.Agrees ctx) (place : Position) {symbol : Symbol}
    (other : symbol.kind.isRoutine = false) : Clears ctx s (declare place symbol) (fun _ => True) := by
  unfold declare
  refine (checkName_clears agrees place symbol).bind fun _ t agrees => clears_get ?_
  split
  next =>
    exact ⟨agrees.add other, fun clean => ⟨clean, fun _ => trivial⟩⟩
  next =>
    exact (clears_warning agrees place _).bind fun _ u agrees => clears_pure agrees fun _ _ => trivial

theorem enterScope_clears (agrees : s.symbols.Agrees ctx) :
    Clears ctx s enterScope (fun _ => True) :=
  clears_modify agrees.enter rfl

theorem reportUnused_clears (agrees : s.symbols.Agrees ctx) (scope : List Symbol) :
    Clears ctx s (reportUnused scope) (fun _ => True) := by
  refine clears_each scope agrees fun symbol t agrees => ?_
  exact clears_when agrees (fun _ => clears_warning agrees _ _) fun _ => trivial

theorem leaveScope_clears (agrees : s.symbols.Agrees ctx) :
    Clears ctx s leaveScope (fun _ => True) := by
  unfold leaveScope
  refine clears_get ?_
  split
  next => exact clears_pure agrees trivial
  next scope symbols left =>
    have left : Clears ctx s (set { s with symbols }) (fun _ => True) :=
      ⟨agrees.exit left, fun clean => ⟨clean, trivial⟩⟩
    exact left.bind fun _ t agrees => (reportUnused_clears agrees scope).anyway fun _ _ => trivial

theorem noteRead_clears (agrees : s.symbols.Agrees ctx) (place : Position) (found : Found) :
    Clears ctx s (noteRead place found) (fun _ => True) := by
  unfold noteRead
  refine clears_modify ?_ ?_
  · have used := agrees.of_plain (SymbolTable.use_plain s.symbols found.symbol.name)
    dsimp only
    split
    · split <;> exact used
    · exact used
  · dsimp only
    split
    · split <;> rfl
    · rfl

theorem noteCall_clears (agrees : s.symbols.Agrees ctx) (callee : String) (line : Nat) :
    Clears ctx s (noteCall callee line) (fun _ => True) := by
  unfold noteCall
  refine clears_modify ?_ ?_
  · split <;> exact agrees
  · split <;> rfl

theorem clears_lookup {next : Option Found → Check α} {good : α → Prop} {word : String}
    (clears : Clears ctx s (next (s.symbols.lookup word)) good) :
    Clears ctx s (lookup word >>= next) good := clears

end Basic

section Expressions

variable {ctx : RunContext} {s : CheckState}

theorem checkShapes_clears (agrees : s.symbols.Agrees ctx) (place : Position) (target source : Symbol)
    (what : String) : Clears ctx s (checkShapes place target source what) (fun _ => True) := by
  unfold checkShapes
  split
  · exact clears_when agrees (fun _ => clears_warning agrees place _) fun _ => trivial
  · exact clears_pure agrees trivial

theorem checkAssignable_clears (agrees : s.symbols.Agrees ctx) (place : Position)
    (target : Option DataType) (value : Inferred) (what : String) (holder : Option Symbol) :
    Clears ctx s (checkAssignable place target value what holder) (fun _ => True) := by
  unfold checkAssignable
  split
  · exact clears_warning agrees place _
  · exact clears_warning agrees place _
  · split
    · exact checkShapes_clears agrees place _ _ what
    · exact clears_pure agrees trivial

theorem inferName_clears (agrees : s.symbols.Agrees ctx) (place : Position) (word : String) :
    Clears ctx s (inferName place word) (fun _ => True) := by
  unfold inferName
  refine clears_lookup ?_
  split
  next => exact (clears_warning agrees place _).bind fun _ t agrees => clears_pure agrees fun _ => trivial
  next found _ =>
    refine (noteRead_clears agrees place found).bind fun _ t agrees => ?_
    dsimp only
    split
    · exact (clears_warning agrees place _).bind fun _ u agrees =>
        clears_pure agrees fun _ _ => trivial
    · split
      · exact clears_pure agrees fun _ => trivial
      · exact clears_pure agrees fun _ => trivial
      · split
        · exact clears_pure agrees fun _ => trivial
        · exact clears_pure agrees fun _ => trivial

theorem checkIndex_clears (agrees : s.symbols.Agrees ctx) (array : String) (place : Position)
    (index : Inferred) (bound : Bound) :
    Clears ctx s (checkIndex array place index bound) (fun _ => True) := by
  unfold checkIndex
  split
  · exact clears_pure agrees trivial
  · split
    · exact clears_when agrees (fun _ => clears_warning agrees place _) fun _ => trivial
    · exact clears_pure agrees trivial
  · split
    · exact clears_warning agrees place _
    · exact clears_warning agrees place _

theorem checkElement_clears (agrees : s.symbols.Agrees ctx) (place : Position) (array : String)
    (indices : List (Position × Inferred)) (reading : Bool) :
    Clears ctx s (checkElement place array indices reading) (fun _ => True) := by
  unfold checkElement
  refine clears_lookup ?_
  split
  next => exact (clears_warning agrees place _).bind fun _ t agrees => clears_pure agrees fun _ => trivial
  next found _ =>
    refine clears_optional agrees (fun _ => noteRead_clears agrees place found) (fun _ => trivial)
      fun t agrees => ?_
    dsimp only
    split
    · exact clears_pure agrees fun _ => trivial
    · split
      · exact clears_pure agrees fun _ => trivial
      · split
        · exact clears_throw _
        · split
          · exact (clears_warning agrees place _).bind fun _ u agrees =>
              clears_pure agrees fun _ _ => trivial
          · exact (clears_each _ agrees fun pair u agrees =>
              checkIndex_clears agrees array _ _ _).bind fun _ u agrees =>
                clears_pure agrees fun _ _ => trivial
    · exact (clears_warning agrees place _).bind fun _ u agrees =>
        clears_pure agrees fun _ _ => trivial

theorem inferUnary_clears (agrees : s.symbols.Agrees ctx) (place : Position) (op : UnaryOp)
    (operand : Inferred) : Clears ctx s (inferUnary place op operand) (fun _ => True) := by
  unfold inferUnary
  split
  · exact clears_pure agrees trivial
  · exact clears_pure agrees trivial
  · exact clears_pure agrees trivial
  · exact (clears_warning agrees place _).bind fun _ t agrees => clears_pure agrees fun _ => trivial
  · exact clears_pure agrees trivial
  · exact clears_pure agrees trivial
  · split
    · exact clears_pure agrees trivial
    · exact (clears_warning agrees place _).bind fun _ t agrees => clears_pure agrees fun _ => trivial

theorem checkComparison_clears (agrees : s.symbols.Agrees ctx) (place : Position) (op : BinaryOp)
    (left right : Option DataType) :
    Clears ctx s (checkComparison place op left right) (fun _ => True) := by
  unfold checkComparison
  split
  · split
    · split
      · exact clears_pure agrees trivial
      · exact clears_warning agrees place _
    · split
      · exact clears_warning agrees place _
      · split
        · exact clears_warning agrees place _
        · exact clears_when agrees (fun _ => clears_warning agrees place _) fun _ => trivial
  · exact clears_pure agrees trivial

theorem inferArithmetic_clears (agrees : s.symbols.Agrees ctx) (place : Position) (op : BinaryOp)
    (left right : Option DataType) :
    Clears ctx s (inferArithmetic place op left right) (fun _ => True) := by
  unfold inferArithmetic
  split
  · split
    · exact clears_pure agrees trivial
    · split
      · exact (clears_warning agrees place _).bind fun _ t agrees =>
          clears_pure agrees fun _ => trivial
      · repeat' split
        all_goals exact clears_pure agrees trivial
  · exact clears_pure agrees trivial

theorem checkLogical_clears (agrees : s.symbols.Agrees ctx) (place : Position) (op : BinaryOp)
    (side : Option DataType) : Clears ctx s (checkLogical place op side) (fun _ => True) := by
  unfold checkLogical
  split
  · exact clears_pure agrees trivial
  · exact clears_pure agrees trivial
  · exact clears_warning agrees place _

theorem inferBinary_clears (agrees : s.symbols.Agrees ctx) (place : Position) (op : BinaryOp)
    (left right : Option DataType) :
    Clears ctx s (inferBinary place op left right) (fun _ => True) := by
  unfold inferBinary
  split
  · exact clears_pure agrees trivial
  · split
    · refine (checkLogical_clears agrees place op left).bind fun _ t agrees => ?_
      refine (checkLogical_clears agrees place op right).bind fun _ u agrees => ?_
      exact clears_pure agrees fun _ _ => trivial
    · split
      · exact (checkComparison_clears agrees place op left right).bind fun _ t agrees =>
          clears_pure agrees fun _ => trivial
      · exact inferArithmetic_clears agrees place op left right

theorem checkReference_clears (agrees : s.symbols.Agrees ctx) (callee : String) (number : Nat)
    (param : Param) (argument : Expr) :
    Clears ctx s (checkReference callee number param argument)
      (fun _ => param.mode = .byReference → argument.isName = true) := by
  unfold checkReference
  split
  next value => exact clears_pure agrees (by rw [value]; nofun)
  next => exact clears_pure agrees fun _ => rfl
  next =>
    split
    · exact clears_throw _
    · exact (clears_error agrees _ rfl).weaken fun _ => False.elim

theorem checkArgument_clears (agrees : s.symbols.Agrees ctx) (callee : String) (param : Param)
    (place : Position) (value : Inferred) :
    Clears ctx s (checkArgument callee param place value) (fun _ => True) := by
  unfold checkArgument
  dsimp only
  split
  · repeat' split
    all_goals first
      | exact clears_pure agrees trivial
      | exact clears_warning agrees place _
  · split
    · split
      · exact clears_warning agrees place _
      · exact clears_pure agrees trivial
    · exact checkAssignable_clears agrees place _ value _ none

theorem checkCount_clears (agrees : s.symbols.Agrees ctx) (place : Position) (kind : SymbolKind)
    (callee : String) (expected given : Nat) :
    Clears ctx s (checkCount place kind callee expected given) (fun _ => expected = given) := by
  unfold checkCount
  refine clears_when agrees (fun _ => ?_) Decidable.not_not.mp
  exact (clears_error agrees place rfl).weaken fun _ => False.elim

/-- A call that is checked without errors fits when it is made. -/
theorem checkCall_clears (agrees : s.symbols.Agrees ctx) (asValue : Bool) (place : Position)
    (callee : String) (arguments : List Expr) {plain : Check (List Inferred)}
    {matched : List Param → Check Unit} {known : Prop}
    (plains : Clears ctx s plain (fun _ => known))
    (matched_clears : ∀ params t, t.symbols.Agrees ctx → Clears ctx t (matched params) (fun _ => known ∧
      ∀ pair ∈ params.zip arguments, pair.1.mode = .byReference → pair.2.isName = true)) :
    Clears ctx s (checkCall asValue place callee arguments.length plain matched)
      (fun _ => known ∧ ctx.CallFits asValue callee arguments) := by
  unfold checkCall
  refine clears_lookup ?_
  cases found : s.symbols.lookup callee with
  | none =>
    have absent : ctx.routine? callee = none := by
      rw [Option.eq_none_iff_forall_ne_some]
      intro r declared
      obtain ⟨symbol, member, named⟩ := agrees.registered declared
      exact SymbolTable.lookup_none found symbol member named
    refine plains.discard.bind fun _ t agrees => ?_
    split
    next f builtin =>
      refine (checkCount_clears agrees place .function callee f.arity arguments.length).bind
        fun _ u agrees => clears_pure agrees ?_
      rintro count ⟨_, here⟩
      refine ⟨here, ?_⟩
      simp only [RunContext.CallFits, absent]
      exact ⟨f, builtin, count.symm⟩
    next => exact (clears_error agrees place rfl).bind fun _ u agrees => clears_pure agrees False.elim
  | some result =>
    obtain ⟨symbol, isGlobal⟩ := result
    dsimp only
    split
    next routine =>
      obtain ⟨has, named⟩ := SymbolTable.lookup_some found
      obtain ⟨r, declared, params, kind⟩ := agrees.routines has routine
      rw [named] at declared
      have finished (t : CheckState) (agrees : t.symbols.Agrees ctx) :
          Clears ctx t (do
            checkCount place symbol.kind callee symbol.params.length arguments.length
            matched symbol.params
            return symbol.type)
          (fun _ => (asValue = true → r.kind = .function) →
            known ∧ ctx.CallFits asValue callee arguments) := by
        refine (checkCount_clears agrees place _ callee _ _).bind fun _ u agrees => ?_
        refine (matched_clears symbol.params u agrees).bind fun _ w agrees => clears_pure agrees ?_
        rintro ⟨here, references⟩ count valued
        refine ⟨here, ?_⟩
        simp only [RunContext.CallFits, declared]
        exact ⟨valued, by rw [params, count], by rw [params]; exact references⟩
      refine (noteCall_clears agrees callee place.line).bind fun _ t agrees => ?_
      split
      next =>
        refine (clears_error agrees place rfl).bind fun _ u agrees => ?_
        exact (finished u agrees).weaken fun _ _ impossible => False.elim impossible
      next other =>
        refine (finished t agrees).weaken fun _ done _ => done fun value => ?_
        cases kinds : r.kind with
        | function => rfl
        | procedure =>
          rw [kinds] at kind
          exact absurd ⟨value, kind.symm⟩ other
    next =>
      refine plains.discard.bind fun _ t agrees => ?_
      exact (clears_error agrees place rfl).bind fun _ u agrees => clears_pure agrees False.elim

variable (whole : Prop) (limit : Int)

mutual

theorem infer_clears : ∀ (e : Expr) {s : CheckState}, s.symbols.Agrees ctx →
    Clears ctx s (infer e) (fun _ => e.Obeys (.reviewed ctx whole limit))
  | .literal place value, s, agrees => by
    rw [infer]
    exact clears_pure agrees .literal
  | .name place word, s, agrees => by
    rw [infer]
    exact (inferName_clears agrees place word).anyway fun _ => .name
  | .element place array indices, s, agrees => by
    rw [infer]
    refine (inferAll_clears indices agrees).bind fun inferred t agrees => ?_
    refine (checkElement_clears agrees place array _ true).bind fun type u agrees => ?_
    exact clears_pure agrees fun _ inner => .element inner
  | .unary place op operand, s, agrees => by
    rw [infer]
    refine (infer_clears operand agrees).bind fun value t agrees => ?_
    exact (inferUnary_clears agrees place op value).anyway fun _ inner => .unary inner
  | .binary place op left right, s, agrees => by
    rw [infer]
    refine (infer_clears left agrees).bind fun l t agrees => ?_
    refine (infer_clears right agrees).bind fun r u agrees => ?_
    exact (inferBinary_clears agrees place op _ _).anyway fun _ right left => .binary left right
  | .call place callee arguments, s, agrees => by
    rw [infer]
    refine (checkCall_clears agrees true place callee arguments (inferAll_clears arguments agrees)
      fun params t agrees => inferArguments_clears callee 1 params arguments agrees).bind
      fun type t agrees => ?_
    exact clears_pure agrees fun ⟨inner, fits⟩ => .call (fun _ => fits) inner
  | .range .., s, agrees => by
    rw [infer]
    exact clears_throw _
  | .stray place node, s, agrees => by
    rw [infer]
    exact clears_throw _

theorem inferAll_clears : ∀ (es : List Expr) {s : CheckState}, s.symbols.Agrees ctx →
    Clears ctx s (inferAll es) (fun _ => ∀ e ∈ es, e.Obeys (.reviewed ctx whole limit))
  | [], s, agrees => by
    rw [inferAll]
    exact clears_pure agrees nofun
  | e :: rest, s, agrees => by
    rw [inferAll]
    refine (infer_clears e agrees).bind fun value t agrees => ?_
    refine (inferAll_clears rest agrees).bind fun values u agrees => clears_pure agrees ?_
    exact fun others first => List.forall_mem_cons.mpr ⟨first, others⟩

theorem inferArguments_clears (callee : String) :
    ∀ (number : Nat) (params : List Param) (es : List Expr) {s : CheckState},
      s.symbols.Agrees ctx → Clears ctx s (inferArguments callee number params es)
        (fun _ => (∀ e ∈ es, e.Obeys (.reviewed ctx whole limit)) ∧
          ∀ pair ∈ params.zip es, pair.1.mode = .byReference → pair.2.isName = true)
  | number, params, [], s, agrees => by
    rw [inferArguments]
    exact clears_pure agrees ⟨nofun, by rw [List.zip_nil_right]; nofun⟩
  | number, [], e :: rest, s, agrees => by
    rw [inferArguments]
    refine (infer_clears e agrees).discard.bind fun _ t agrees => ?_
    refine (inferArguments_clears callee number [] rest agrees).weaken ?_
    exact fun _ ⟨others, _⟩ ⟨_, first⟩ => ⟨List.forall_mem_cons.mpr ⟨first, others⟩, nofun⟩
  | number, param :: params, e :: rest, s, agrees => by
    rw [inferArguments]
    refine (checkReference_clears agrees callee number param e).bind fun _ t agrees => ?_
    refine (infer_clears e agrees).bind fun value u agrees => ?_
    refine (checkArgument_clears agrees callee param e.position value).bind fun _ w agrees => ?_
    refine (inferArguments_clears callee (number + 1) params rest agrees).weaken ?_
    intro _ ⟨others, references⟩ _ first reference
    rw [List.zip_cons_cons]
    exact ⟨List.forall_mem_cons.mpr ⟨first, others⟩, List.forall_mem_cons.mpr ⟨reference, references⟩⟩

end

end Expressions

end Check

end Pseudocode
