import Pseudocode.Proofs.Loops
import Pseudocode.Trace

/-! The conduct of expressions, statements and routines, by recursion on their structure, and from it
that of whole programs. How a routine is entered is a parameter of the recursion; that entering has
the same conduct follows by induction on the number of calls that may still be active. -/
namespace Pseudocode

/-- The context in which a program is run. -/
def Program.context (p : Program) (settings : Settings) (host : Host) : RunContext :=
  ⟨settings, host, p.routines⟩

theorem Program.context_routines (p : Program) (settings : Settings) (host : Host) :
    (p.context settings host).routines = p.routines := rfl

namespace Run

variable {P : Policy} {ctx : RunContext} {s t : RunState} {enter : Enter}

/-- Whatever routine is entered and whatever it is called with; a body that ends every path in RETURN
does not end normally. -/
def EnterConducts (P : Policy) (ctx : RunContext) (enter : Enter) : Prop :=
  ∀ {s : RunState} (line : Nat) (r : Routine Stmt) (bindings : List BindingId), s.Ready P ctx →
    r ∈ ctx.routines → (∀ i ∈ bindings, i < s.memory.bindings.size) →
    Conducts P ctx s (enter line r bindings) (fun c t => c.Lives t.memory) ∧
      (blockTerminates r.body = true → Exits (enter line r bindings))

theorem routine_mem (found : ctx.routine? callee = some r) : r ∈ ctx.routines :=
  List.mem_reverse.mp (List.mem_of_find?_eq_some found)

/-- The bindings that a call makes for its arguments exist afterwards. -/
def Bound (bindings : List BindingId) (t : RunState) : Prop := ∀ i ∈ bindings, i < t.memory.bindings.size

theorem call_conducts (enters : EnterConducts P ctx enter) (ready : s.Ready P ctx)
    (permitted : P.call asValue callee arguments) (line : Nat) {plain : Run (List Value)}
    (plains : Conducts P ctx s plain (fun vs _ => vs.length = arguments.length))
    {bound : List Param → Run (List BindingId)}
    (bounds : ∀ params,
      (∀ pair ∈ params.zip arguments, pair.1.mode = .byReference →
        pair.2.isName = true ∨ ctx.Misfit P) → Conducts P ctx s (bound params) Bound) :
    Conducts P ctx s (call ctx enter asValue line callee arguments.length plain bound)
      (fun v t => v.Lives t.memory) := by
  -- Either this call fits, or it is one that does not and is permitted.
  have judged : ctx.CallFits asValue callee arguments ∨ ctx.Misfit P :=
    Classical.or_iff_not_imp_left.mpr fun misfit => ⟨asValue, callee, arguments, permitted, misfit⟩
  unfold call
  cases found : ctx.routine? callee with
  | none =>
    have fits : (∃ f, Builtin.ofName? callee = some f ∧ arguments.length = f.arity) ∨
        ctx.Misfit P := by
      simpa only [RunContext.CallFits, found] using judged
    dsimp only
    by_cases known : (Builtin.ofName? callee).isSome = true
    · rw [if_pos known]
      refine plains.bind fun vs t _ _ ready' count => ?_
      exact callBuiltin_conducts ready' line callee (count ▸ fits) known
    · rw [if_neg known]
      refine conducts_throw (Stop.due_call ready (fits.resolve_left ?_) rfl)
      rintro ⟨f, named, -⟩
      exact known (by rw [named]; rfl)
  | some r =>
    have fits : ((asValue = true → r.kind = .function) ∧ arguments.length = r.params.length ∧
        ∀ pair ∈ r.params.zip arguments, pair.1.mode = .byReference → pair.2.isName = true) ∨
        ctx.Misfit P := by
      simpa only [RunContext.CallFits, found] using judged
    dsimp only
    by_cases procedure : asValue = true ∧ r.kind = .procedure
    · rw [if_pos procedure]
      refine conducts_throw (Stop.due_call ready (fits.resolve_left fun ⟨function, _⟩ => ?_) rfl)
      cases (function procedure.1).symm.trans procedure.2
    · rw [if_neg procedure]
      by_cases count : arguments.length ≠ r.params.length
      · rw [if_pos count]
        exact conducts_throw (Stop.due_call ready (fits.resolve_left fun ⟨_, same, _⟩ => count same) rfl)
      · rw [if_neg count]
        have passed : ∀ pair ∈ r.params.zip arguments, pair.1.mode = .byReference →
            pair.2.isName = true ∨ ctx.Misfit P :=
          fun pair member reference => fits.imp_left fun ⟨_, _, named⟩ => named pair member reference
        refine (bounds r.params passed).bind fun bindings t _ _ readyT known => ?_
        obtain ⟨entered, exits⟩ := enters line r bindings readyT (routine_mem found) known
        have left : Ends (enter line r bindings) t
            (fun c _ => c = .normal → blockTerminates r.body = false) (fun _ _ => True) := by
          cases terminates : blockTerminates r.body with
          | true => exact (exits terminates t).mono (fun _ _ left same => absurd same left) fun _ _ _ => trivial
          | false => exact ends_of_forall (fun _ _ _ => rfl) fun _ _ => trivial
        refine (entered.and_ends left).bind fun c u _ _ readyU ⟨lives, ends⟩ => ?_
        exact resultOf_conducts readyU line found lives ends

mutual

theorem eval_conducts (enters : EnterConducts P ctx enter) :
    ∀ (e : Expr) {s : RunState}, s.Ready P ctx → e.Obeys P →
      Conducts P ctx s (eval ctx enter e) (fun v t => v.Lives t.memory)
  | .literal _ value, s, ready, _ => by
    rw [eval]
    exact conducts_pure ready (Value.lives_of_scalar (by cases value <;> nofun))
  | .name place name, s, ready, _ => by
    rw [eval]
    exact nameValue_conducts ready place.line name
  | .element place array indices, s, ready, obeys => by
    cases obeys with
    | element inner =>
      rw [eval]
      refine (arrayNamed_conducts ready place.line array).bind fun i t _ _ readyT _ => ?_
      refine (evalIndices_conducts enters place.line indices readyT inner).bind
        fun is u _ _ readyU _ => ?_
      exact elementValue_conducts readyU place.line i is
  | .binary place op left right, s, ready, obeys => by
    cases obeys with
    | binary leftObeys rightObeys =>
      rw [eval]
      split
      · refine (eval_conducts enters left ready leftObeys).bind fun l t _ _ readyT _ => ?_
        refine (truth_conducts readyT op.text place.line l).bind fun b u _ _ readyU _ => ?_
        split
        · exact conducts_pure readyU (Value.lives_of_scalar nofun)
        · refine (eval_conducts enters right readyU rightObeys).bind fun r w _ _ readyW _ => ?_
          refine (truth_conducts readyW op.text place.line r).bind fun b x _ _ readyX _ => ?_
          exact conducts_pure readyX (Value.lives_of_scalar nofun)
      · refine (eval_conducts enters left ready leftObeys).bind fun l t _ _ readyT livesL => ?_
        refine (eval_conducts enters right readyT rightObeys).bind fun r u later _ readyU livesR => ?_
        exact binary_conducts readyU place.line op (later.lives livesL) livesR
  | .unary place op operand, s, ready, obeys => by
    cases obeys with
    | unary inner =>
      rw [eval]
      refine (eval_conducts enters operand ready inner).bind fun v t _ _ readyT _ => ?_
      exact unary_conducts readyT place.line op v
  | .call place callee arguments, s, ready, obeys => by
    cases obeys with
    | call permitted inner =>
      rw [eval]
      exact call_conducts enters ready permitted place.line
        (evalAll_conducts enters arguments ready inner)
        fun params => bindArguments_conducts enters place.line callee params arguments ready inner
  | .range .., s, ready, _ => by
    rw [eval]
    exact conducts_throw (Stop.due_plain ready rfl)
  | .stray _ node, s, ready, _ => by
    rw [eval]
    exact conducts_throw (Stop.due_plain ready rfl)

theorem evalAll_conducts (enters : EnterConducts P ctx enter) :
    ∀ (es : List Expr) {s : RunState}, s.Ready P ctx → (∀ e ∈ es, e.Obeys P) →
      Conducts P ctx s (evalAll ctx enter es) (fun vs _ => vs.length = es.length)
  | [], s, ready, _ => by
    rw [evalAll]
    exact conducts_pure ready rfl
  | e :: rest, s, ready, obey => by
    rw [evalAll]
    refine (eval_conducts enters e ready (obey e (.head _))).bind fun v t _ _ readyT _ => ?_
    refine (evalAll_conducts enters rest readyT fun e member => obey e (.tail _ member)).bind
      fun vs u _ _ readyU count => ?_
    exact conducts_pure readyU (by rw [List.length_cons, List.length_cons, count])

theorem evalIndices_conducts (enters : EnterConducts P ctx enter) (line : Nat) :
    ∀ (es : List Expr) {s : RunState}, s.Ready P ctx → (∀ e ∈ es, e.Obeys P) →
      Conducts P ctx s (evalIndices ctx enter line es) (fun _ _ => True)
  | [], s, ready, _ => by
    rw [evalIndices]
    exact conducts_pure ready trivial
  | e :: rest, s, ready, obey => by
    rw [evalIndices]
    refine (eval_conducts enters e ready (obey e (.head _))).bind fun v t _ _ readyT _ => ?_
    refine (indexValue_conducts readyT line v).bind fun i u _ _ readyU _ => ?_
    refine (evalIndices_conducts enters line rest readyU fun e member => obey e (.tail _ member)).bind
      fun is w _ _ readyW _ => ?_
    exact conducts_pure readyW trivial

theorem bindArguments_conducts (enters : EnterConducts P ctx enter) (line : Nat) (callee : String) :
    ∀ (params : List Param) (es : List Expr) {s : RunState}, s.Ready P ctx → (∀ e ∈ es, e.Obeys P) →
      (∀ pair ∈ params.zip es, pair.1.mode = .byReference →
        pair.2.isName = true ∨ ctx.Misfit P) →
      Conducts P ctx s (bindArguments ctx enter line callee params es) Bound
  | [], es, s, ready, _, _ => by
    rw [bindArguments]
    · exact conducts_pure ready nofun
    · nofun
  | param :: params, [], s, ready, _, _ => by
    rw [bindArguments]
    · exact conducts_pure ready nofun
    · nofun
  | param :: params, e :: rest, s, ready, obey, passed => by
    have others {i : BindingId} {t : RunState} (readyT : t.Ready P ctx)
        (known : i < t.memory.bindings.size) :
        Conducts P ctx t (do
          let is ← bindArguments ctx enter line callee params rest
          return i :: is) Bound := by
      refine (bindArguments_conducts enters line callee params rest readyT
        (fun e member => obey e (.tail _ member)) fun pair member => passed pair (.tail _ member)).bind
        fun is u later _ readyU bound => conducts_pure readyU ?_
      intro j member
      cases member with
      | head => exact Nat.lt_of_lt_of_le known later.memory.grows.bindings
      | tail _ member => exact bound j member
    rw [bindArguments]
    exact (bindArgument_conducts ready line callee param (passed (param, e) (.head _))
      (eval_conducts enters e ready (obey e (.head _)))).bind
      fun i t _ _ readyT known => others readyT known

end

theorem evalPresent_conducts (enters : EnterConducts P ctx enter) (ready : s.Ready P ctx)
    {value : Option Expr} (obeys : ∀ e ∈ value, e.Obeys P) :
    Conducts P ctx s (evalPresent ctx enter value) (fun v t => v.Lives t.memory) := by
  cases value with
  | none => exact conducts_throw (Stop.due_plain ready rfl)
  | some e => exact eval_conducts enters e ready (obeys e rfl)

theorem evalShown_conducts (enters : EnterConducts P ctx enter) (line : Nat) (es : List Expr)
    (ready : s.Ready P ctx) (obey : ∀ e ∈ es, e.Obeys P) :
    Conducts P ctx s (evalShown ctx enter line es) (fun _ _ => True) := by
  induction es generalizing s with
  | nil => exact conducts_pure ready trivial
  | cons e rest ih =>
    rw [evalShown]
    refine (eval_conducts enters e ready (obey e (.head _))).bind fun v t _ _ readyT lives => ?_
    refine (shown_conducts readyT lives line).bind fun text u _ _ readyU _ => ?_
    refine (ih readyU fun e member => obey e (.tail _ member)).bind fun _ w _ _ readyW _ => ?_
    exact conducts_pure readyW trivial

theorem store_conducts (enters : EnterConducts P ctx enter) (ready : s.Ready P ctx) (line : Nat)
    {target : Target} (obeys : target.Obeys P) {v : Value} (lives : v.Lives s.memory) :
    Conducts P ctx s (store ctx enter line target v) (fun _ _ => True) := by
  unfold store
  split
  next place name => exact assign_conducts ready lives line name
  next place name indices =>
    refine (arrayNamed_conducts ready line name).bind fun i t laterT _ readyT _ => ?_
    refine (evalIndices_conducts enters line indices readyT obeys).bind
      fun is u laterU _ readyU _ => ?_
    exact assignElement_conducts readyU (laterU.lives (laterT.lives lives)) line i is
  next => exact conducts_throw (Stop.due_plain ready rfl)

theorem input_conducts (enters : EnterConducts P ctx enter) (ready : s.Ready P ctx) (line : Nat)
    {target : Target} (obeys : target.Obeys P) :
    Conducts P ctx s (input ctx enter line target) (fun _ _ => True) := by
  exact (readInput_conducts ready line target).bind fun v t _ _ readyT lives =>
    store_conducts enters readyT line obeys lives

theorem labelMatches_conducts (enters : EnterConducts P ctx enter) (ready : s.Ready P ctx)
    (line : Nat) (selector : Value) {label : Expr} (obeys : label.Obeys P) :
    Conducts P ctx s (labelMatches ctx enter line selector label) (fun _ _ => True) := by
  unfold labelMatches
  split
  next place low high =>
    cases obeys with
    | range lowObeys highObeys =>
      refine (eval_conducts enters low ready lowObeys).bind fun l t _ _ readyT _ => ?_
      refine (eval_conducts enters high readyT highObeys).bind fun h u _ _ readyU _ => ?_
      split
      next fault compared => exact conducts_stop readyU (compareValues_plain compared line)
      next => exact conducts_pure readyU trivial
      next =>
        split
        next fault compared => exact conducts_stop readyU (compareValues_plain compared line)
        next => exact conducts_pure readyU trivial
  next =>
    refine (eval_conducts enters label ready obeys).bind fun v t _ _ readyT _ => ?_
    split
    next fault compared => exact conducts_stop readyT (compareValues_plain compared line)
    next => exact conducts_pure readyT trivial

theorem anyLabelMatches_conducts (enters : EnterConducts P ctx enter) (line : Nat) (selector : Value)
    (labels : List Expr) (ready : s.Ready P ctx) (obey : ∀ e ∈ labels, e.Obeys P) :
    Conducts P ctx s (anyLabelMatches ctx enter line selector labels) (fun _ _ => True) := by
  induction labels generalizing s with
  | nil => exact conducts_pure ready trivial
  | cons label rest ih =>
    rw [anyLabelMatches]
    refine (labelMatches_conducts enters ready line selector (obey label (.head _))).bind
      fun taken t _ _ readyT _ => ?_
    cases taken with
    | true => exact conducts_pure readyT trivial
    | false => exact ih readyT fun e member => obey e (.tail _ member)

mutual

theorem exec_conducts (enters : EnterConducts P ctx enter) (inRoutine : Bool) :
    ∀ (stmt : Stmt) {s : RunState}, s.Ready P ctx → stmt.Obeys P →
      Conducts P ctx s (exec ctx enter inRoutine stmt) (fun c t => c.Lives t.memory) := by
  intro stmt s ready obeys
  rw [exec.eq_def]
  refine (begins_conducts ready stmt).bind fun _ t _ _ readyT _ => ?_
  cases obeys with
  | @declare place name typeName =>
    exact (declareVariable_conducts readyT name typeName).bind fun _ u _ _ readyU _ =>
      conducts_pure readyU (lives_normal _)
  | @declareArray bounds elementType place name permitted =>
    exact (declareArray_conducts readyT place.line name permitted).bind fun _ u _ _ readyU _ =>
      conducts_pure readyU (lives_normal _)
  | @constant value place name inner =>
    refine (evalPresent_conducts enters readyT inner).bind fun v u _ _ readyU lives => ?_
    exact (defineConstant_conducts readyU name lives).bind fun _ w _ _ readyW _ =>
      conducts_pure readyW (lives_normal _)
  | @assign place target value targetObeys valueObeys =>
    refine (eval_conducts enters value readyT valueObeys).bind fun v u _ _ readyU lives => ?_
    exact (store_conducts enters readyU place.line targetObeys lives).bind fun _ w _ _ readyW _ =>
      conducts_pure readyW (lives_normal _)
  | @ifThen condition thenBranch elseBranch place inner thenObeys elseObeys =>
    refine (evalPresent_conducts enters readyT inner).bind fun v u _ _ readyU _ => ?_
    refine (conditionValue_conducts readyU .IF place.line v).bind fun holds w _ _ readyW _ => ?_
    cases holds with
    | true => exact execBlock_conducts enters inRoutine thenBranch readyW thenObeys
    | false => exact execOtherwise_conducts enters inRoutine elseBranch readyW elseObeys
  | @whileDo condition body place inner bodyObeys =>
    refine conducts_roundsLeft fun enough => whileLoop_conducts readyT (fun u _ _ readyU => ?_)
      (fun u _ _ readyU => execBlock_conducts enters inRoutine body readyU bodyObeys) enough
    refine (evalPresent_conducts enters readyU inner).bind fun v w _ _ readyW _ => ?_
    exact conditionValue_conducts readyW .WHILE place.line v
  | @repeatUntil body condition place bodyObeys inner =>
    refine conducts_roundsLeft fun enough => repeatLoop_conducts readyT (fun u _ _ readyU => ?_)
      (fun u _ _ readyU => execBlock_conducts enters inRoutine body readyU bodyObeys) enough
    refine (evalPresent_conducts enters readyU inner).bind fun v w _ _ readyW _ => ?_
    exact conditionValue_conducts readyW .UNTIL place.line v
  | @forLoop start stop step body place counter startObeys stopObeys stepObeys bodyObeys =>
    have looped (first last stride : Number) {u : RunState} (readyU : u.Ready P ctx) :=
      countedLoop_conducts readyU place.line counter first last stride fun w _ readyW =>
        execBlock_conducts enters inRoutine body readyW bodyObeys
    refine (evalPresent_conducts enters readyT startObeys).bind fun v u _ _ readyU _ => ?_
    refine (forBound_conducts readyU place.line .start v).bind fun first w _ _ readyW _ => ?_
    refine (evalPresent_conducts enters readyW stopObeys).bind fun v x _ _ readyX _ => ?_
    refine (forBound_conducts readyX place.line .stop v).bind fun last y _ _ readyY _ => ?_
    cases step with
    | none => exact looped first last (.integer 1) readyY
    | some e =>
      refine (eval_conducts enters e readyY (stepObeys e rfl)).bind fun v z _ _ readyZ _ => ?_
      exact (forBound_conducts readyZ place.line .step v).bind fun n _ _ _ ready _ =>
        looped first last n ready
  | @caseOf selector branches otherwise place inner labelsObey branchesObey otherwiseObeys =>
    refine (evalPresent_conducts enters readyT inner).bind fun v u _ _ readyU _ => ?_
    refine (execBranches_conducts enters inRoutine place.line v branches readyU labelsObey
      branchesObey).bind fun taken w _ _ readyW lives => ?_
    cases taken with
    | some c => exact conducts_pure readyW (lives c rfl)
    | none => exact execOtherwise_conducts enters inRoutine otherwise readyW otherwiseObeys
  | routine => exact conducts_pure readyT (lives_normal _)
  | @giveBack value place inner =>
    refine giveBack_conducts readyT inRoutine place.line ?_
    cases value with
    | none => exact conducts_pure readyT nofun
    | some e => exact eval_conducts enters e readyT (inner e rfl)
  | @call callee arguments place callPlace permitted inner =>
    refine Conducts.bind (Conducts.discard (call_conducts enters readyT permitted callPlace.line
      (evalAll_conducts enters arguments readyT inner)
      fun params => bindArguments_conducts enters callPlace.line callee params arguments readyT inner))
      fun _ u _ _ readyU _ => ?_
    exact conducts_pure readyU (lives_normal _)
  | strayCall => exact conducts_throw (Stop.due_plain readyT rfl)
  | @output values place inner =>
    refine (evalShown_conducts enters place.line values readyT inner).bind
      fun parts u _ _ readyU _ => ?_
    exact (emit_conducts readyU place.line _).bind fun _ w _ _ readyW _ =>
      conducts_pure readyW (lives_normal _)
  | @input place target inner =>
    exact (input_conducts enters readyT place.line inner).bind fun _ u _ _ readyU _ =>
      conducts_pure readyU (lives_normal _)
  | stray => exact conducts_throw (Stop.due_plain readyT rfl)

theorem execBlock_conducts (enters : EnterConducts P ctx enter) (inRoutine : Bool) :
    ∀ (block : List Stmt) {s : RunState}, s.Ready P ctx → (∀ stmt ∈ block, stmt.Obeys P) →
      Conducts P ctx s (execBlock ctx enter inRoutine block) (fun c t => c.Lives t.memory)
  | [], s, ready, _ => by
    rw [execBlock]
    exact conducts_pure ready (lives_normal _)
  | stmt :: rest, s, ready, obey => by
    rw [execBlock]
    refine (exec_conducts enters inRoutine stmt ready (obey stmt (.head _))).bind
      fun c t _ _ readyT lives => ?_
    cases c with
    | returned v line => exact conducts_pure readyT lives
    | normal =>
      exact execBlock_conducts enters inRoutine rest readyT fun stmt member =>
        obey stmt (.tail _ member)

theorem execOtherwise_conducts (enters : EnterConducts P ctx enter) (inRoutine : Bool) :
    ∀ (otherwise : Option (List Stmt)) {s : RunState}, s.Ready P ctx →
      (∀ block ∈ otherwise, ∀ stmt ∈ block, stmt.Obeys P) →
      Conducts P ctx s (execOtherwise ctx enter inRoutine otherwise) (fun c t => c.Lives t.memory)
  | none, s, ready, _ => by
    rw [execOtherwise]
    exact conducts_pure ready (lives_normal _)
  | some block, s, ready, obey => by
    rw [execOtherwise]
    exact execBlock_conducts enters inRoutine block ready (obey block rfl)

theorem execBranches_conducts (enters : EnterConducts P ctx enter) (inRoutine : Bool) (line : Nat)
    (selector : Value) :
    ∀ (branches : List (Branch Stmt)) {s : RunState}, s.Ready P ctx →
      (∀ b ∈ branches, ∀ e ∈ b.labels, e.Obeys P) →
      (∀ b ∈ branches, ∀ stmt ∈ b.body, stmt.Obeys P) →
      Conducts P ctx s (execBranches ctx enter inRoutine line selector branches)
        (fun taken t => ∀ c ∈ taken, c.Lives t.memory)
  | [], s, ready, _, _ => by
    rw [execBranches]
    exact conducts_pure ready nofun
  | ⟨labels, body, branchLine⟩ :: rest, s, ready, labelsObey, bodiesObey => by
    rw [execBranches]
    refine (anyLabelMatches_conducts enters _ selector labels ready (labelsObey _ (.head _))).bind
      fun taken t _ _ readyT _ => ?_
    cases taken with
    | true =>
      refine (execBlock_conducts enters inRoutine body readyT (bodiesObey _ (.head _))).bind
        fun c u _ _ readyU lives => conducts_pure readyU ?_
      rintro _ ⟨⟩
      exact lives
    | false =>
      exact execBranches_conducts enters inRoutine line selector rest readyT
        (fun b member => labelsObey b (.tail _ member))
        fun b member => bodiesObey b (.tail _ member)

end

theorem enter_conducts (obey : ∀ r ∈ ctx.routines, ∀ stmt ∈ r.body, stmt.Obeys P) (depth : Nat) :
    EnterConducts P ctx (Run.enter ctx depth) := by
  induction depth with
  | zero => exact fun line r bindings ready _ _ => ⟨conducts_stop ready rfl, fun _ => exits_throw _⟩
  | succ depth enters =>
    intro s line r bindings ready member known
    unfold Run.enter
    refine ⟨?_, fun terminates => exits_bind fun _ =>
      Exits.thenAtLine (Exits.inEnvironment (execBlock_exits r.body terminates))⟩
    refine (openFrame_conducts ready r.params known).bind fun frame t _ _ readyT inside => ?_
    refine thenAtLine_conducts (inEnvironment_conducts readyT ?_) line
    exact execBlock_conducts enters true r.body
      ⟨readyT.memory, ⟨frame, _, rfl, inside⟩, readyT.steps⟩ (obey r member)

theorem initial_ready (settings : Settings) (host : Host) (p : Program) :
    (RunState.initial settings).Ready P (p.context settings host) :=
  ⟨Memory.initial_sound, ⟨0, [], rfl, Nat.one_pos⟩, Nat.zero_le _⟩

theorem program_conducts (obeys : p.Obeys P) (settings : Settings) (host : Host) :
    Conducts P (p.context settings host) (.initial settings) (program (p.context settings host) p)
      (fun c t => c.Lives t.memory) :=
  execBlock_conducts (enter_conducts obeys.routines _) false p.body (initial_ready settings host p)
    obeys.body

end Run

end Pseudocode
