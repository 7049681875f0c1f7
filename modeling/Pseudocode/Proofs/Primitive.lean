import Pseudocode.Proofs.BuiltinCall
import Pseudocode.Proofs.Update

/-! The conduct of the primitive operations of a run, one law each. Most of them only look at the
state and compute; the others change the memory by one or two of its steps. -/
namespace Pseudocode

namespace Input

/-- What an INPUT statement makes of a text is no array, and it refuses a text only plainly. -/
inductive Plain : Except Stop Value → Prop
  | ok {v : Value} : v.type ≠ .array → Plain (.ok v)
  | error {e : Stop} : e.isPlain = true → Plain (.error e)

theorem integer_plain (raw : String) : ∀ answer ∈ integer? raw, Plain answer := by
  intro answer member
  unfold integer? at member
  obtain ⟨n, -, rfl⟩ := Option.map_eq_some_iff.mp member
  cases checkSize n with
  | ok n => exact .ok nofun
  | error _ => exact .error rfl

theorem value_plain (line : Nat) (raw : String) (declared : Option DataType) :
    Plain (value line raw declared) := by
  cases declared with
  | none =>
    unfold value untyped
    have whole := integer_plain raw
    generalize boolean? raw = truth
    generalize integer? raw = integer at *
    generalize real? raw = fraction
    cases truth with
    | some b => exact .ok nofun
    | none =>
      cases integer with
      | some answer => exact whole answer rfl
      | none =>
        cases fraction with
        | some x => exact .ok nofun
        | none => exact .ok nofun
  | some type =>
    cases type with
    | integer =>
      unfold value typed
      have whole := integer_plain raw
      generalize integer? raw = integer at *
      cases integer with
      | some answer => exact whole answer rfl
      | none => exact .error rfl
    | real =>
      unfold value typed
      generalize real? raw = fraction
      cases fraction with
      | some x => exact .ok nofun
      | none => exact .error rfl
    | boolean =>
      unfold value typed
      generalize boolean? raw = truth
      cases truth with
      | some b => exact .ok nofun
      | none => exact .error rfl
    | char =>
      unfold value typed
      dsimp only
      split
      · exact .ok nofun
      · exact .error rfl
    | _ => exact .ok nofun

end Input

namespace Run

variable {P : Policy} {ctx : RunContext} {s : RunState} {α : Type}

/-- A change of the memory by its steps. -/
theorem conducts_withMemory (ready : s.Ready P ctx) (change : Memory → α × Memory)
    (steps : Memory.Steps P ctx.settings.limits.maxArrayElements s.memory (change s.memory).2) :
    Conducts P ctx s (withMemory change)
      (fun a t => a = (change s.memory).1 ∧ t.memory = (change s.memory).2) :=
  ⟨⟨steps, Nat.le_refl _⟩, rfl,
    ⟨steps.sound ready.memory, steps.grows.opens ready.opens, ready.steps⟩, rfl, rfl⟩

theorem tick_conducts (ready : s.Ready P ctx) (line : Nat) :
    Conducts P ctx s (tick ctx line) (fun _ t => t.steps = s.steps + 1) := by
  have within := ready.steps
  have next : s.Later P ctx { s with steps := s.steps + 1 } := ⟨.refl, Nat.le_succ _⟩
  simp only [Conducts, tick, ends_bind, ends_modify, ends_get, ends_ite]
  refine ⟨fun beyond => ?_, fun below => ?_⟩
  · have last : s.steps + 1 = ctx.settings.limits.maxSteps + 1 :=
      Nat.le_antisymm (Nat.succ_le_succ within) beyond
    exact ⟨next, rfl, Stop.due_stepLimit ready.memory last⟩
  · have ready' : RunState.Ready P ctx { s with steps := s.steps + 1 } :=
      ⟨ready.memory, ready.opens, Nat.not_lt.mp below⟩
    refine ⟨fun _ => ⟨next, rfl, Stop.due_plain ready' rfl⟩, fun _ => ⟨fun _ => ?_, fun _ => ?_⟩⟩
    · exact ⟨next, rfl, Stop.due_plain ready' rfl⟩
    · exact ⟨next, rfl, ready', rfl⟩

theorem findBinding_conducts (ready : s.Ready P ctx) (name : String) :
    Conducts P ctx s (findBinding name) (fun found t => ∀ i ∈ found, i < t.memory.bindings.size) :=
  ⟨.refl s, rfl, ready, fun _ found => ready.memory.find found⟩

theorem lookup_conducts (ready : s.Ready P ctx) (name : String) :
    Conducts P ctx s (lookup name) (fun found t => ∀ b ∈ found, b.value.Lives t.memory) :=
  ⟨.refl s, rfl, ready, fun _ found => ready.memory.lookup found⟩

theorem define_conducts (ready : s.Ready P ctx) (name : String) {b : Binding}
    (fits : b.value.Fits b.declared) (lives : b.value.Lives s.memory) :
    Conducts P ctx s (define name b) (fun _ _ => True) := by
  have conducts := conducts_withMemory ready (fun m => m.define s.env name b)
    (Memory.define_steps s.env name fits lives)
  exact conducts.weaken fun _ _ _ _ => trivial

theorem checkLength_conducts (ready : s.Ready P ctx) (line length : Nat) :
    Conducts P ctx s (checkLength ctx line length) (fun _ _ => True) := by
  unfold checkLength
  by_cases long : length > ctx.settings.limits.maxStringLength
  · simp only [long, if_true]
    exact conducts_stop ready rfl
  · simp only [long, if_false]
    exact conducts_pure ready trivial

theorem shown_conducts (ready : s.Ready P ctx) {v : Value} (lives : v.Lives s.memory) (line : Nat) :
    Conducts P ctx s (shown ctx line v) (fun _ _ => True) := by
  unfold Conducts shown
  simp only [ends_bind, ends_get]
  split
  next => exact conducts_pure ready trivial
  next => exact conducts_stop ready rfl
  next => exact conducts_throw (Stop.due_plain ready rfl)
  next endless =>
    exact conducts_throw (Stop.due_endless ready fun flat => flat.textWithin_ends lives endless)

/-- A failed store is reported plainly, unless a value without end had to be shown. -/
theorem storeFailed_conducts (ready : s.Ready P ctx) {report : StoreFault → RunFault}
    (plain : ∀ fault, (Stop.fault line (report fault)).isPlain = true)
    (ends : fault = .endless → ¬s.memory.Flat) {result : α → RunState → Prop} :
    Conducts P ctx s (storeFailed line report fault) result := by
  unfold storeFailed
  split
  next => exact conducts_throw (Stop.due_plain ready rfl)
  next => exact conducts_throw (Stop.due_endless ready (ends rfl))
  next => exact conducts_stop ready (plain _)

theorem arrayNamed_conducts (ready : s.Ready P ctx) (line : Nat) (name : String) :
    Conducts P ctx s (arrayNamed line name) (fun i t => i < t.memory.arrays.size) := by
  refine (lookup_conducts ready name).bind fun found t _ _ ready lives => ?_
  cases found with
  | none => exact conducts_stop ready rfl
  | some b =>
    have lives := lives b rfl
    dsimp only
    split
    next i held => exact conducts_pure ready (lives i held)
    next => exact conducts_stop ready rfl

theorem assign_conducts (ready : s.Ready P ctx) {v : Value} (lives : v.Lives s.memory) (line : Nat)
    (name : String) : Conducts P ctx s (assign line name v) (fun _ _ => True) := by
  have conducts := conducts_withMemory ready (fun m => m.assign s.env name v)
    (Memory.assign_steps s.env name lives)
  unfold assign
  refine conducts_get (conducts.bind fun stored t _ _ ready' ⟨answer, memory⟩ => ?_)
  cases stored with
  | ok i => exact conducts_pure ready' trivial
  | error fault =>
    refine storeFailed_conducts ready' (fun fault => ?_) fun endless => ?_
    · cases fault <;> rfl
    · rw [memory]
      exact Memory.assign_ends ready.memory (endless ▸ answer.symm)

theorem assignElement_conducts (ready : s.Ready P ctx) {v : Value} (lives : v.Lives s.memory)
    (line : Nat) (i : ArrayId) (indices : List Int) :
    Conducts P ctx s (assignElement line i indices v) (fun _ _ => True) := by
  unfold assignElement
  refine (conducts_withMemory ready _ ?_).bind fun failed t _ _ ready' ⟨answer, _⟩ => ?_
  · cases held : s.memory.arrays[i]? with
    | none => exact .refl
    | some cell =>
      dsimp only [Option.map]
      split
      next placed => exact .single (.setElement held lives (Option.some.inj placed))
      next => exact .refl
      next => exact .refl
  · cases failed with
    | none => exact conducts_pure ready' trivial
    | some fault =>
      refine storeFailed_conducts ready' (fun _ => rfl) fun endless => ?_
      subst endless
      cases held : s.memory.arrays[i]? with
      | none =>
        rw [held] at answer
        cases answer
      | some cell =>
        simp only [held, Option.map] at answer
        split at answer
        next => cases answer
        next fault placed =>
          cases answer
          exact absurd (Option.some.inj placed) (ArrayCell.place_ends cell indices v)
        next => cases answer

theorem liftNumber_conducts (ready : s.Ready P ctx) (line : Nat) (number : Except NumberFault Number) :
    Conducts P ctx s (liftNumber line number) (fun v t => v.Lives t.memory) := by
  unfold liftNumber
  split
  next n =>
    refine conducts_pure ready (Value.lives_of_scalar ?_)
    cases n <;> nofun
  next fault =>
    refine conducts_throw (Stop.due_plain ready ?_)
    cases fault <;> rfl

theorem joinText_conducts (ready : s.Ready P ctx) (line : Nat) (left right : String) :
    Conducts P ctx s (joinText ctx line left right) (fun v t => v.Lives t.memory) :=
  (checkLength_conducts ready line _).bind fun _ _ _ _ ready' _ =>
    conducts_pure ready' (Value.lives_of_scalar nofun)

theorem arithmetic_conducts (ready : s.Ready P ctx) (line : Nat) (op : BinaryOp) (left right : Value) :
    Conducts P ctx s (arithmetic ctx line op left right) (fun v t => v.Lives t.memory) := by
  unfold arithmetic
  split
  next => exact joinText_conducts ready line _ _
  next =>
    split
    next =>
      split
      · exact liftNumber_conducts ready line _
      · exact liftNumber_conducts ready line _
      · exact liftNumber_conducts ready line _
      · split
        · exact conducts_stop ready rfl
        · split
          · exact liftNumber_conducts ready line _
          · exact liftNumber_conducts ready line _
          · exact liftNumber_conducts ready line _
          · exact conducts_throw (Stop.due_plain ready rfl)
    next => exact conducts_stop ready rfl

theorem join_conducts (ready : s.Ready P ctx) (line : Nat) {left right : Value}
    (leftLives : left.Lives s.memory) (rightLives : right.Lives s.memory) :
    Conducts P ctx s (join ctx line left right) (fun v t => v.Lives t.memory) := by
  have joined : Conducts P ctx s
      (shown ctx line left >>= fun l => shown ctx line right >>= joinText ctx line l)
      (fun v t => v.Lives t.memory) := by
    refine (shown_conducts ready leftLives line).bind fun _ t later _ ready' _ => ?_
    refine (shown_conducts ready' (later.lives rightLives) line).bind fun _ u _ _ ready'' _ => ?_
    exact joinText_conducts ready'' line _ _
  unfold Conducts Ends join
  cases ran : (shown ctx line left >>= fun l => shown ctx line right >>= joinText ctx line l) s with
  | ok v t => exact joined.of_ok ran
  | error e t =>
    obtain ⟨later, env, due⟩ := joined.of_error ran
    cases e with
    | overflow =>
      -- The stop is only given another name.
      exact ⟨later, env, due.memory, due.steps, due.limit, nofun, nofun, nofun, nofun⟩
    | _ => exact ⟨later, env, due⟩

theorem compareValues_plain (failed : compareValues op left right = .error fault) (line : Nat) :
    (Stop.fault line fault).isPlain = true := by
  unfold compareValues at failed
  split at failed
  · split at failed <;> cases failed
    rfl
  · split at failed
    · cases failed
    · cases failed
    · split at failed <;> cases failed
      rfl
    · cases failed
      rfl

theorem binary_conducts (ready : s.Ready P ctx) (line : Nat) (op : BinaryOp) {left right : Value}
    (leftLives : left.Lives s.memory) (rightLives : right.Lives s.memory) :
    Conducts P ctx s (binary ctx line op left right) (fun v t => v.Lives t.memory) := by
  unfold binary
  split
  · split
    next => exact conducts_pure ready (Value.lives_of_scalar nofun)
    next failed => exact conducts_stop ready (compareValues_plain failed line)
  · split
    · exact join_conducts ready line leftLives rightLives
    · exact arithmetic_conducts ready line op left right

theorem truth_conducts (ready : s.Ready P ctx) (op : String) (line : Nat) (v : Value) :
    Conducts P ctx s (truth op line v) (fun _ _ => True) := by
  unfold truth
  split
  · exact conducts_pure ready trivial
  · exact conducts_stop ready rfl

theorem unary_conducts (ready : s.Ready P ctx) (line : Nat) (op : UnaryOp) (v : Value) :
    Conducts P ctx s (unary line op v) (fun v t => v.Lives t.memory) := by
  unfold unary
  split
  · split
    next n _ =>
      refine conducts_pure ready (Value.lives_of_scalar ?_)
      cases n <;> nofun
    next => exact conducts_stop ready rfl
  · exact (truth_conducts ready _ line v).bind fun _ _ _ _ ready' _ =>
      conducts_pure ready' (Value.lives_of_scalar nofun)
  · exact conducts_throw (Stop.due_plain ready rfl)

theorem nameValue_conducts (ready : s.Ready P ctx) (line : Nat) (name : String) :
    Conducts P ctx s (nameValue ctx line name) (fun v t => v.Lives t.memory) := by
  refine (lookup_conducts ready name).bind fun found t _ _ ready' lives => ?_
  cases found with
  | some b => exact conducts_pure ready' (lives b rfl)
  | none =>
    dsimp only
    split
    · exact conducts_stop ready' rfl
    · exact conducts_stop ready' rfl

theorem indexValue_conducts (ready : s.Ready P ctx) (line : Nat) (v : Value) :
    Conducts P ctx s (indexValue line v) (fun _ _ => True) := by
  unfold indexValue
  split
  · exact conducts_pure ready trivial
  · exact conducts_stop ready rfl

theorem elementValue_conducts (ready : s.Ready P ctx) (line : Nat) (i : ArrayId)
    (indices : List Int) :
    Conducts P ctx s (elementValue line i indices) (fun v t => v.Lives t.memory) := by
  unfold elementValue
  refine conducts_get ?_
  cases held : s.memory.arrays[i]? with
  | none =>
    simp only [held, Option.map_none]
    exact conducts_pure ready nofun
  | some cell =>
    simp only [held, Option.map_some]
    cases got : cell.get indices with
    | error fault =>
      exact storeFailed_conducts ready (fun _ => rfl) fun endless =>
        absurd (endless ▸ got) (cell.get_ends indices)
    | ok v => exact conducts_pure ready (ready.memory.get held got)

theorem storeFresh_conducts (ready : s.Ready P ctx) (line : Nat) (declared : Option DataType)
    {v : Value} (lives : v.Lives s.memory) {report : StoreFault → RunFault}
    (plain : ∀ fault, (Stop.fault line (report fault)).isPlain = true) :
    Conducts P ctx s (storeFresh line declared v report)
      (fun i t => i < t.memory.bindings.size) := by
  unfold storeFresh
  refine conducts_get ?_
  split
  next kept accepted =>
    have fits : kept.Fits declared := Memory.accept_fits accepted
    have added := conducts_withMemory ready (·.addBinding ⟨kept, declared, false⟩)
      (.single (.newBinding fits (Memory.accept_lives lives accepted)))
    refine added.weaken fun i t _ fresh => ?_
    rw [fresh.1, fresh.2]
    simp [Memory.addBinding]
  next fault refused =>
    refine storeFailed_conducts ready plain fun endless => ?_
    subst endless
    exact Memory.accept_ends (Value.lives_of_scalar (v := .null) (by simp [Value.type])) refused

theorem bindReference_conducts (ready : s.Ready P ctx) (line : Nat) (callee : String) (param : Param)
    {argument : Expr} (fits : argument.isName = true ∨ ctx.Misfit P) :
    Conducts P ctx s (bindReference line callee param argument)
      (fun i t => i < t.memory.bindings.size) := by
  unfold bindReference
  split
  next name =>
    refine (findBinding_conducts ready name).bind fun found t _ _ ready' known => ?_
    cases found with
    | none => exact conducts_stop ready' rfl
    | some i =>
      refine conducts_get ?_
      split
      · split
        · exact conducts_pure ready' (known i rfl)
        · exact conducts_stop ready' rfl
      · exact conducts_pure ready' (known i rfl)
  next other =>
    have misfit : ctx.Misfit P := by
      refine fits.resolve_left fun named => ?_
      cases argument with
      | name place name => exact other place name rfl
      | _ => cases named
    exact conducts_throw (Stop.due_call ready misfit rfl)

theorem checkArrayArgument_conducts (ready : s.Ready P ctx) (line : Nat) (callee : String)
    (param : Param) (v : Value) :
    Conducts P ctx s (checkArrayArgument line callee param v)
      (fun _ _ => v = .null ∨ v.type = .array) := by
  unfold checkArrayArgument
  split
  · exact conducts_pure ready (.inl rfl)
  · refine conducts_get ?_
    dsimp only
    split
    · split
      · exact conducts_pure ready (.inr rfl)
      · exact conducts_stop ready rfl
    · exact conducts_throw (Stop.due_plain ready rfl)
    · exact conducts_pure ready (.inr rfl)
  · exact conducts_stop ready rfl

theorem bindValue_conducts (ready : s.Ready P ctx) (line : Nat) (callee : String) (param : Param)
    {v : Value} (lives : v.Lives s.memory) :
    Conducts P ctx s (bindValue line callee param v) (fun i t => i < t.memory.bindings.size) := by
  unfold bindValue
  split
  next =>
    refine (checkArrayArgument_conducts ready line callee param v).bind
      fun _ t later _ ready' array => ?_
    have lives := later.lives lives
    have fits : (t.memory.copyValue v).1.Fits (some .array) := by
      obtain rfl | array := array
      · exact .inl rfl
      · exact .inr (by simp [Memory.copyValue_type, array])
    have copied : Memory.Steps P ctx.settings.limits.maxArrayElements t.memory
        ((t.memory.copyValue v).2.addBinding ⟨(t.memory.copyValue v).1, some .array, false⟩).2 :=
      (Memory.copyValue_steps t.memory v).tail (.newBinding fits (Memory.copyValue_lives lives))
    refine (conducts_withMemory ready' _ copied).weaken fun i u _ ⟨answer, memory⟩ => ?_
    rw [answer, memory]
    simp [Memory.addBinding]
  next => exact storeFresh_conducts ready line _ lives fun _ => rfl

theorem bindArgument_conducts (ready : s.Ready P ctx) (line : Nat) (callee : String) (param : Param)
    {argument : Expr} {value : Run Value}
    (fits : param.mode = .byReference → argument.isName = true ∨ ctx.Misfit P)
    (values : Conducts P ctx s value (fun v t => v.Lives t.memory)) :
    Conducts P ctx s (bindArgument line callee param argument value)
      (fun i t => i < t.memory.bindings.size) := by
  unfold bindArgument
  split
  next reference => exact bindReference_conducts ready line callee param (fits reference)
  next =>
    exact values.bind fun v t _ _ readyT lives => bindValue_conducts readyT line callee param lives

theorem callBuiltin_conducts (ready : s.Ready P ctx) (line : Nat) (callee : String)
    {arguments : List Value}
    (fits : (∃ f, Builtin.ofName? callee = some f ∧ arguments.length = f.arity) ∨ ctx.Misfit P)
    (known : (Builtin.ofName? callee).isSome) :
    Conducts P ctx s (callBuiltin line callee arguments) (fun v t => v.Lives t.memory) := by
  obtain ⟨f, named⟩ := Option.isSome_iff_exists.mp known
  unfold Conducts callBuiltin
  simp only [ends_bind, ends_modifyGet]
  have moved : RunState.Later P ctx s
      { s with random := (Builtin.call callee arguments s.random).2 } := ⟨.refl, Nat.le_refl _⟩
  have ready' : RunState.Ready P ctx
      { s with random := (Builtin.call callee arguments s.random).2 } :=
      ⟨ready.memory, ready.opens, ready.steps⟩
  have regular (count : arguments.length = f.arity) := Builtin.call_regular named count s.random
  cases answer : (Builtin.call callee arguments s.random).1 with
  | ok v =>
    refine ⟨moved, rfl, ready', Value.lives_of_scalar ?_⟩
    have count := Builtin.call_count named answer
    rw [answer] at regular
    cases regular count with
    | ok scalar => exact scalar
  | error fault =>
    cases fault with
    | argumentCount other expected given =>
      refine ⟨moved, rfl, Stop.due_call ready' (fits.resolve_left ?_) rfl⟩
      rintro ⟨g, same, count⟩
      cases named.symm.trans same
      rw [answer] at regular
      cases regular count with
      | error apart => exact apart _ _ _ rfl
    | arithmetic cause =>
      refine ⟨moved, rfl, Stop.due_plain ready' ?_⟩
      cases cause <;> rfl
    | _ => exact ⟨moved, rfl, Stop.due_plain ready' rfl⟩

theorem resultOf_conducts (ready : s.Ready P ctx) (line : Nat) (found : ctx.routine? callee = some r)
    {c : Completion} (lives : c.Lives s.memory)
    (ends : c = .normal → blockTerminates r.body = false) :
    Conducts P ctx s (resultOf line r callee c) (fun v t => v.Lives t.memory) := by
  unfold resultOf
  dsimp only
  split
  next => exact conducts_pure ready nofun
  next function => exact conducts_throw (Stop.due_ended ready found function (ends rfl))
  next =>
    refine conducts_get ?_
    split
    next accepted =>
      exact conducts_pure ready (Memory.accept_lives (lives _ _ rfl) accepted)
    next refused =>
      refine storeFailed_conducts ready (fun _ => rfl) fun endless => ?_
      subst endless
      exact Memory.accept_ends (Value.lives_of_scalar (v := .null) nofun) refused

theorem conditionValue_conducts (ready : s.Ready P ctx) (keyword : Keyword) (line : Nat) (v : Value) :
    Conducts P ctx s (conditionValue keyword line v) (fun _ _ => True) := by
  unfold conditionValue
  split
  · exact conducts_pure ready trivial
  · exact conducts_stop ready rfl

theorem declareVariable_conducts (ready : s.Ready P ctx) (name typeName : String) :
    Conducts P ctx s (declareVariable name typeName) (fun _ _ => True) := by
  unfold declareVariable
  exact (define_conducts ready name (Value.fits_initial _) (Value.lives_initial _)).discard

theorem declareArray_conducts (ready : s.Ready P ctx) (line : Nat) (name : String)
    {bounds : List Bound} {elementType : String} (permitted : P.array bounds elementType) :
    Conducts P ctx s (declareArray ctx line name bounds elementType) (fun _ _ => True) := by
  unfold declareArray
  dsimp only
  by_cases large : ArrayCell.elementCount bounds > ctx.settings.limits.maxArrayElements
  · rw [if_pos large]
    exact conducts_throw (Stop.due_arrayTooLarge ready permitted large)
  · rw [if_neg large]
    have added := conducts_withMemory ready
      (·.addArray (.fresh bounds (DataType.ofName? elementType)))
      (.single (.freshArray permitted (Int.not_lt.mp large)))
    refine added.bind fun i u _ _ ready' fresh => ?_
    refine (define_conducts ready' name (.inr (by simp [Value.type])) ?_).discard
    rintro j ⟨⟩
    rw [fresh.1, fresh.2]
    simp [Memory.addArray]

theorem defineConstant_conducts (ready : s.Ready P ctx) (name : String) {v : Value}
    (lives : v.Lives s.memory) : Conducts P ctx s (defineConstant name v) (fun _ _ => True) := by
  have copied := conducts_withMemory ready (·.copyValue v) (Memory.copyValue_steps s.memory v)
  refine copied.bind fun copy t _ _ ready' ⟨answer, memory⟩ => ?_
  have fits : copy.Fits (if v = .null then none else some v.type) := by
    rw [answer]
    split
    · exact .inr nofun
    · exact .inr (by simp [Memory.copyValue_type])
  have copyLives : copy.Lives t.memory := by
    rw [answer, memory]
    exact Memory.copyValue_lives lives
  exact (define_conducts ready' name fits copyLives).discard

theorem emit_conducts (ready : s.Ready P ctx) (line : Nat) (text : String) :
    Conducts P ctx s (emit ctx line text) (fun _ _ => True) := by
  unfold Conducts emit
  rw [ends_modify]
  split
  · exact ⟨⟨.refl, Nat.le_refl _⟩, rfl, ⟨ready.memory, ready.opens, ready.steps⟩, trivial⟩
  · exact ⟨⟨.refl, Nat.le_refl _⟩, rfl, ⟨ready.memory, ready.opens, ready.steps⟩, trivial⟩

theorem takeInput_conducts (ready : s.Ready P ctx) (line : Nat) :
    Conducts P ctx s (takeInput line) (fun _ _ => True) := by
  unfold takeInput
  refine conducts_get ?_
  split
  · exact conducts_stop ready rfl
  · exact ⟨⟨.refl, Nat.le_refl _⟩, rfl, ⟨ready.memory, ready.opens, ready.steps⟩, trivial⟩

theorem inputType_conducts (ready : s.Ready P ctx) (line : Nat) (target : Target) :
    Conducts P ctx s (inputType line target) (fun _ _ => True) := by
  unfold inputType
  split
  · exact (lookup_conducts ready _).bind fun _ _ _ _ ready' _ => conducts_pure ready' trivial
  · exact (arrayNamed_conducts ready line _).bind fun _ _ _ _ ready' _ =>
      conducts_get (conducts_pure ready' trivial)
  · exact conducts_throw (Stop.due_plain ready rfl)

theorem forBound_conducts (ready : s.Ready P ctx) (line : Nat) (part : ForPart) (v : Value) :
    Conducts P ctx s (forBound line part v) (fun _ _ => True) := by
  unfold forBound
  split
  · exact conducts_pure ready trivial
  · exact conducts_stop ready rfl

theorem ofNumber_scalar (n : Number) : (Value.ofNumber n).type ≠ .array := by
  cases n <;> nofun

theorem advance_conducts (ready : s.Ready P ctx) (line : Nat) (counter : BindingId) (step : Number) :
    Conducts P ctx s (advance line counter step) (fun _ _ => True) := by
  unfold advance counterValue
  refine conducts_get ?_
  split
  · exact conducts_throw (Stop.due_plain ready rfl)
  · split
    · exact conducts_throw (Stop.due_plain ready rfl)
    next next _ =>
      refine conducts_get ?_
      dsimp only
      split
      · exact conducts_pure ready trivial
      next b held =>
        split
        next kept accepted =>
          have lives : (Value.ofNumber next).Lives s.memory :=
            Value.lives_of_scalar (ofNumber_scalar next)
          exact (conducts_withMemory ready (fun m => ((), m.setValue counter kept))
            (.single (.setValue held lives accepted))).weaken fun _ _ _ _ => trivial
        next refused =>
          refine storeFailed_conducts ready (fun _ => rfl) fun endless => ?_
          subst endless
          exact Memory.accept_ends (ready.memory.values held) refused

theorem begins_conducts (ready : s.Ready P ctx) (stmt : Stmt) :
    Conducts P ctx s (begins ctx stmt) (fun _ t => s.steps < t.steps) := by
  unfold begins
  split
  · exact conducts_throw (Stop.due_plain ready rfl)
  · have ready' : RunState.Ready P ctx { s with line := stmt.line } :=
      ⟨ready.memory, ready.opens, ready.steps⟩
    refine (tick_conducts ready' stmt.line).mono (fun _ t ⟨later, env, ready, count⟩ => ?_)
      fun e t ⟨later, env, due⟩ => ⟨⟨later.memory, later.steps⟩, env, due⟩
    exact ⟨⟨later.memory, later.steps⟩, env, ready, Nat.lt_of_lt_of_eq (Nat.lt_succ_self _) count.symm⟩

/-- A statement begins without a change of the memory. -/
theorem begins_memory (s : RunState) (stmt : Stmt) :
    Ends (begins ctx stmt) s (fun _ t => t.memory = s.memory ∧ t.env = s.env) (fun _ _ => True) := by
  simp only [begins, tick, stop, ends_bind, ends_get, ends_modify, ends_ite]
  refine ⟨fun _ => trivial, fun _ => ?_⟩
  simp

theorem bindParams_conducts (ready : s.Ready P ctx) (frame : FrameId) (params : List Param)
    {bindings : List BindingId} (known : ∀ i ∈ bindings, i < s.memory.bindings.size) :
    Conducts P ctx s (bindParams frame params bindings) (fun _ _ => True) := by
  induction params generalizing s bindings with
  | nil => exact conducts_pure ready trivial
  | cons param params ih =>
    cases bindings with
    | nil => exact conducts_pure ready trivial
    | cons i rest =>
      have named := conducts_withMemory ready (fun m => ((), m.bind frame param.name i))
        (.single (.newName (known i (.head _))))
      refine named.bind fun _ t later _ ready' _ => ih ready' fun j member => ?_
      exact Nat.lt_of_lt_of_le (known j (.tail _ member)) later.memory.grows.bindings

theorem openFrame_conducts (ready : s.Ready P ctx) (params : List Param) {bindings : List BindingId}
    (known : ∀ i ∈ bindings, i < s.memory.bindings.size) :
    Conducts P ctx s (openFrame params bindings) (fun frame t => frame < t.memory.frames.size) := by
  have framed := conducts_withMemory ready (·.addFrame) (.single .newFrame)
  refine framed.bind fun frame t laterT _ readyT opened => ?_
  have inside : frame < t.memory.frames.size := by
    rw [opened.1, opened.2]
    simp [Memory.addFrame]
  have known (i : BindingId) (given : i ∈ bindings) : i < t.memory.bindings.size :=
    Nat.lt_of_lt_of_le (known i given) laterT.memory.grows.bindings
  exact (bindParams_conducts readyT frame params known).bind fun _ u laterU _ readyU _ =>
    conducts_pure readyU (Nat.lt_of_lt_of_le inside laterU.memory.grows.frames)

theorem readInput_conducts (ready : s.Ready P ctx) (line : Nat) (target : Target) :
    Conducts P ctx s (readInput ctx line target) (fun v t => v.Lives t.memory) := by
  unfold readInput
  refine (takeInput_conducts ready line).bind fun raw t _ _ readyT _ => ?_
  refine (checkLength_conducts readyT line _).bind fun _ u _ _ readyU _ => ?_
  refine (inputType_conducts readyU line target).bind fun answer w _ _ readyW _ => ?_
  obtain ⟨name, type⟩ := answer
  dsimp only
  by_cases array : type = some .array
  · rw [if_pos array]
    exact conducts_throw (Stop.due_plain readyW rfl)
  · rw [if_neg array]
    have plain := Input.value_plain line raw type
    revert plain
    generalize Input.value line raw type = given
    intro plain
    cases plain with
    | ok scalar => exact conducts_pure readyW (Value.lives_of_scalar scalar)
    | error due => exact conducts_throw (Stop.due_plain readyW due)

end Run

end Pseudocode
