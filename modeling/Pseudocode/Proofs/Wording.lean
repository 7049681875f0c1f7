import Pseudocode.Proofs.GroundedReading
import Pseudocode.Proofs.MemoryOnly
import Pseudocode.Proofs.TypeSoundness
import Pseudocode.Proofs.Update

/-! The texts that a run can come to hold. A `Wording` is a property of texts that literals have and that
operators, INPUT statements and the built-in functions that are called do not leave. Then every text that
is held in memory has it, at every moment. `Utters` says so of one computation, whatever the memory that
it begins with. -/
namespace Pseudocode

/-- The text of the value, if it is one, is good. -/
def Value.Worded (good : String → Prop) (v : Value) : Prop := ∀ text, v.text? = some text → good text

/-- The texts in variables and in elements of arrays are good. -/
structure Memory.Worded (good : String → Prop) (m : Memory) : Prop where
  bindings : ∀ (i : BindingId) b, m.binding? i = some b → b.value.Worded good
  elements : ∀ (i : ArrayId) cell, m.arrays[i]? = some cell → ∀ v ∈ cell.elements, v.Worded good

/-- A property of texts that no operation leaves, as long as built-in functions are called only by names in
`callee`. -/
structure Wording (ctx : RunContext) where
  good : String → Prop
  callee : String → Prop
  short : ∀ {text : String}, text.length ≤ 1 → good text
  checked : ∀ {text : String}, text.length ≤ ctx.settings.limits.maxStringLength → good text
  answered : ∀ {name arguments random v}, callee name → (∀ a ∈ arguments, Value.Worded good a) →
    (Builtin.call name arguments random).1 = .ok v → v.Worded good

/-- Code whose literals and calls are as the wording asks. -/
def Wording.ground {ctx : RunContext} (W : Wording ctx) : Ground where
  place _ := True
  integer _ := True
  neg := id
  text := W.good
  callee := W.callee

namespace Value

variable {good : String → Prop} {v w : Value}

theorem worded_of_none (plain : v.text? = none) : v.Worded good := by
  intro text same
  rw [plain] at same
  cases same

theorem worded_number (n : Number) : (ofNumber n).Worded good := by
  cases n <;> exact worded_of_none rfl

theorem worded_initial (short : good "") (declared : Option DataType) : (initial declared).Worded good := by
  unfold initial
  split <;> rintro text ⟨⟩ <;> exact short

theorem Worded.of_text (worded : v.Worded good) (same : w.text? = v.text? ∨ w.text? = none) :
    w.Worded good := by
  intro text held
  rcases same with same | none
  · exact worded text (same ▸ held)
  · cases none.symm.trans held

/-- A slot keeps a text as it is. -/
theorem Worded.coerce (worded : v.Worded good) (kept : v.coerce declared = .ok w) : w.Worded good := by
  cases declared with
  | none =>
    rw [coerce_untyped] at kept
    cases kept
    exact worded
  | some type =>
    apply worded.of_text
    obtain ⟨rfl, -⟩ | ⟨n, x, rfl, rfl, rfl⟩ | ⟨x, n, rfl, rfl, rfl⟩ | ⟨s, rfl, rfl, rfl⟩ |
      ⟨s, rfl, rfl, -, rfl⟩ := coerce_cases kept
    · exact .inl rfl
    all_goals simp [text?]

theorem Worded.accept {m : Memory} {b : Binding} (worded : v.Worded good) (accepted : m.accept b v = .ok w) :
    w.Worded good := by
  obtain ⟨-, ⟨id, rfl, rfl, -⟩ | coerced⟩ := Memory.accept_cases accepted
  · exact worded_of_none rfl
  · exact worded.coerce coerced

end Value

namespace Input

variable {good : String → Prop} {v : Value} {raw : String}

theorem integer_worded : ∀ answer ∈ integer? raw, ∀ v, answer = .ok v → v.Worded good := by
  intro answer member v same
  obtain ⟨n, -, rfl⟩ := Option.map_eq_some_iff.mp member
  split at same
  · cases same
    exact Value.worded_of_none rfl
  · cases same

theorem worded_getD {answer? : Option (Except Stop Value)} {refused : Stop}
    (known : ∀ answer ∈ answer?, ∀ v, answer = .ok v → v.Worded good)
    (taken : answer?.getD (.error refused) = .ok v) : v.Worded good := by
  cases answer? with
  | some answer => exact known answer rfl v taken
  | none => cases taken

theorem itself_worded (known : good raw) (same : v.text? = some raw) : v.Worded good := by
  intro text held
  cases same.symm.trans held
  exact known

theorem untyped_worded (known : good raw) (taken : untyped raw = .ok v) : v.Worded good := by
  unfold untyped at taken
  split at taken
  · cases taken
    exact Value.worded_of_none rfl
  next found => exact integer_worded _ found v taken
  · cases taken
    exact Value.worded_of_none rfl
  · cases taken
    exact itself_worded known rfl

theorem typed_worded (known : good raw) (taken : typed line raw type = .ok v) : v.Worded good := by
  unfold typed at taken
  dsimp only at taken
  split at taken
  · exact worded_getD integer_worded taken
  · refine worded_getD ?_ taken
    intro answer member v same
    obtain ⟨x, -, rfl⟩ := Option.map_eq_some_iff.mp member
    cases same
    exact Value.worded_of_none rfl
  · refine worded_getD ?_ taken
    intro answer member v same
    obtain ⟨b, -, rfl⟩ := Option.map_eq_some_iff.mp member
    cases same
    exact Value.worded_of_none rfl
  · split at taken
    · cases taken
      exact itself_worded known rfl
    · cases taken
  · cases taken
    exact itself_worded known rfl

/-- An input that becomes a text is that text. -/
theorem value_worded (known : good raw) (taken : value line raw declared = .ok v) : v.Worded good := by
  cases declared with
  | none => exact untyped_worded known taken
  | some type => exact typed_worded known taken

end Input

theorem Memory.initial_worded {good : String → Prop} : Memory.initial.Worded good where
  bindings i b held := by
    rw [binding?, Array.getElem?_eq_none (Nat.zero_le i)] at held
    cases held
  elements i cell held := by
    rw [Array.getElem?_eq_none (Nat.zero_le i)] at held
    cases held

namespace Memory.Worded

variable {good : String → Prop} {m : Memory} {v : Value} {b : Binding} {i : BindingId}

theorem weaken {weaker : String → Prop} (worded : m.Worded good) (weakens : ∀ text, good text → weaker text) :
    m.Worded weaker where
  bindings i b held text same := weakens text (worded.bindings i b held text same)
  elements i cell held v member text same := weakens text (worded.elements i cell held v member text same)

theorem lookup {env : Environment} (worded : m.Worded good) (held : m.lookup env name = some b) :
    b.value.Worded good := by
  obtain ⟨i, -, found⟩ := Option.bind_eq_some_iff.mp held
  exact worded.bindings i b found

theorem get {id : ArrayId} (worded : m.Worded good) (held : m.arrays[id]? = some cell)
    (got : cell.get indices = .ok v) : v.Worded good := by
  obtain ⟨position, -, made⟩ := ok_of_bind got
  cases made
  rw [Array.getD_eq_getD_getElem?]
  cases element : cell.elements[position]? with
  | none => exact Value.worded_of_none rfl
  | some v => exact worded.elements id cell held v (Array.mem_of_getElem? element)

theorem addBinding (worded : m.Worded good) (known : b.value.Worded good) :
    (m.addBinding b).2.Worded good := by
  refine ⟨?_, worded.elements⟩
  intro j c held
  rw [binding_addBinding] at held
  split at held
  · cases held
    exact known
  · exact worded.bindings j c held

theorem addArray (worded : m.Worded good) {cell : ArrayCell} (known : ∀ v ∈ cell.elements, v.Worded good) :
    (m.addArray cell).2.Worded good := by
  refine ⟨worded.bindings, ?_⟩
  intro j c held
  rw [array_addArray] at held
  split at held
  · cases held
    exact known
  · exact worded.elements j c held

theorem setValue (worded : m.Worded good) (known : v.Worded good) (i : BindingId) :
    (m.setValue i v).Worded good := by
  refine ⟨?_, worded.elements⟩
  intro j c held
  rw [binding_setValue] at held
  split at held
  · obtain ⟨b, -, rfl⟩ := Option.map_eq_some_iff.mp held
    exact known
  · exact worded.bindings j c held

theorem setElement (worded : m.Worded good) (known : v.Worded good) (id : ArrayId) (position : Nat) :
    (m.setElement id position v).Worded good := by
  refine ⟨worded.bindings, ?_⟩
  intro j c held
  rw [array_setElement] at held
  split at held
  · obtain ⟨cell, there, rfl⟩ := Option.map_eq_some_iff.mp held
    intro w member
    rcases ArrayCell.mem_setAt member with old | rfl
    · exact worded.elements j cell there w old
    · exact known
  · exact worded.elements j c held

theorem bindHere (worded : m.Worded good) (env : Environment) (name : String) (i : BindingId) :
    (m.bindHere env name i).Worded good := by
  cases env with
  | nil => exact worded
  | cons frame outer => exact ⟨worded.bindings, worded.elements⟩

theorem define (worded : m.Worded good) (known : b.value.Worded good) (env : Environment) (name : String) :
    (m.define env name b).2.Worded good :=
  (worded.addBinding known).bindHere env name _

theorem copyValue (worded : m.Worded good) (known : v.Worded good) :
    (m.copyValue v).2.Worded good ∧ (m.copyValue v).1.Worded good := by
  unfold Memory.copyValue
  split
  next cell held =>
    refine ⟨worded.addArray ?_, Value.worded_of_none rfl⟩
    cases v with
    | array id => exact worded.elements id cell held
    | _ => cases held
  next => exact ⟨worded, known⟩

theorem assign (worded : m.Worded good) (known : v.Worded good) (env : Environment) (name : String) :
    (m.assign env name v).2.Worded good := by
  have located : (m.locate env name).2.Worded good := by
    unfold locate
    split
    · exact worded
    · exact worded.define (Value.worded_of_none rfl) env name
  rw [assign_eq]
  split
  · exact located
  · split
    next kept accepted => exact located.setValue (known.accept accepted) _
    next => exact located

end Memory.Worded

/-- The value that is given back has a good text. -/
def Completion.Worded (good : String → Prop) : Completion → Prop
  | .normal => True
  | .returned v _ => v.Worded good

namespace Run

/-- However the computation ends, the texts in memory are good, and so is what it answers with. -/
def Utters (good : String → Prop) (m : Run α) (result : α → Prop) : Prop :=
  ∀ s : RunState, s.memory.Worded good →
    Ends m s (fun a t => t.memory.Worded good ∧ result a) (fun _ t => t.memory.Worded good)

variable {good : String → Prop} {α β : Type} {m : Run α} {next : α → Run β} {result : α → Prop}
  {resultNext : β → Prop}

section Laws

theorem utters_pure {a : α} (known : result a) : Utters good (pure a) result :=
  fun _ worded => ⟨worded, known⟩

theorem utters_throw (e : Stop) : Utters good (throw e) result := fun _ worded => worded

theorem utters_stop (line : Nat) (fault : RunFault) : Utters good (stop line fault) result := utters_throw _

theorem Utters.bind (first : Utters good m result) (rest : ∀ a, result a → Utters good (next a) resultNext) :
    Utters good (m >>= next) resultNext := by
  intro s worded
  rw [ends_bind]
  exact (first s worded).mono (fun a t known => rest a known.2 t known.1) fun _ _ failed => failed

theorem Utters.weaken {weaker : α → Prop} (utters : Utters good m result) (weakens : ∀ a, result a → weaker a) :
    Utters good m weaker :=
  fun s worded => (utters s worded).mono (fun a _ known => known.imp_right (weakens a)) fun _ _ failed => failed

theorem Utters.discard (utters : Utters good m result) : Utters good (discard m) fun _ => True := by
  intro s worded
  rw [ends_discard]
  exact (utters s worded).mono (fun _ _ known => ⟨known.1, trivial⟩) fun _ _ failed => failed

theorem utters_get {f : RunState → Run α} (each : ∀ s, s.memory.Worded good → Utters good (f s) result) :
    Utters good (get >>= f) result := fun s worded => each s worded s worded

theorem utters_withMemory {change : Memory → α × Memory}
    (changes : ∀ m, m.Worded good → (change m).2.Worded good ∧ result (change m).1) :
    Utters good (withMemory change) result := fun s worded => changes s.memory worded

/-- What does not touch the memory. -/
theorem utters_modify {f : RunState → RunState} (same : ∀ s, (f s).memory = s.memory) :
    Utters good (modify f) fun _ => True := by
  intro s worded
  refine ⟨?_, trivial⟩
  rw [same]
  exact worded

theorem utters_modify_bind {f : RunState → RunState} {next : PUnit → Run β}
    (same : ∀ s, (f s).memory = s.memory) (rest : Utters good (next ⟨⟩) resultNext) :
    Utters good (modify f >>= next) resultNext :=
  (utters_modify same).bind fun _ _ => rest

theorem Looks.utters (looks : Looks m) : Utters good m fun _ => True := by
  intro s worded
  refine (looks.ends s).mono ?_ ?_
  · rintro a t rfl
    exact ⟨worded, trivial⟩
  · rintro e t rfl
    exact worded

theorem inEnvironment_utters (inner : Utters good m result) (env : Environment) :
    Utters good (inEnvironment env m) result := by
  intro s worded
  have ends := inner { s with env } worded
  unfold Ends inEnvironment at *
  cases ran : m { s with env } <;> simpa [ran] using ends

theorem thenAtLine_utters (inner : Utters good m result) (line : Nat) :
    Utters good (thenAtLine line m) result := by
  intro s worded
  have ends := inner s worded
  unfold Ends thenAtLine at *
  cases ran : m s <;> simpa [ran] using ends

theorem storeFailed_utters (line : Nat) (report : StoreFault → RunFault) (fault : StoreFault) :
    Utters good (storeFailed line report fault) result := by
  cases fault <;> exact utters_throw _

end Laws

section Values

variable {ctx : RunContext} (W : Wording ctx) {v w : Value} {line : Nat}

theorem liftNumber_utters (answer : Except NumberFault Number) :
    Utters good (liftNumber line answer) (Value.Worded good) := by
  cases answer with
  | ok n => exact utters_pure (Value.worded_number n)
  | error fault => exact utters_throw _

theorem checkLength_utters (length : Nat) :
    Utters good (checkLength ctx line length) fun _ => length ≤ ctx.settings.limits.maxStringLength := by
  unfold checkLength
  dsimp only
  split
  · exact utters_stop _ _
  next within => exact utters_pure (Nat.not_lt.mp within)

/-- The length of joined texts is checked. -/
theorem joinText_utters (left right : String) :
    Utters W.good (joinText ctx line left right) (Value.Worded W.good) := by
  refine (checkLength_utters _).bind fun _ within => utters_pure ?_
  rintro text ⟨⟩
  apply W.checked
  rw [String.length_append]
  exact within

theorem join_utters (left right : Value) :
    Utters W.good (join ctx line left right) (Value.Worded W.good) := by
  have joined : Utters W.good (do joinText ctx line (← shown ctx line left) (← shown ctx line right))
      (Value.Worded W.good) :=
    (shown_looks ctx line left).utters.bind fun l _ =>
      (shown_looks ctx line right).utters.bind fun r _ => joinText_utters W l r
  intro s worded
  refine ends_iff.mpr ⟨fun v t ran => ?_, fun e t failed => ?_⟩
  · unfold join at ran
    split at ran
    · cases ran
    · exact (joined s worded).of_ok ran
  · cases ((join_looks ctx line left right).ends s).of_error failed
    exact worded

theorem arithmetic_utters (op : BinaryOp) (left right : Value) :
    Utters W.good (arithmetic ctx line op left right) (Value.Worded W.good) := by
  unfold arithmetic liftOverflow
  split
  · exact joinText_utters W _ _
  · split
    · split
      · exact liftNumber_utters _
      · exact liftNumber_utters _
      · exact liftNumber_utters _
      · split
        · exact utters_stop _ _
        · split
          · exact liftNumber_utters _
          · exact liftNumber_utters _
          · exact liftNumber_utters _
          · exact utters_throw _
    · exact utters_stop _ _

theorem binary_utters (op : BinaryOp) (left right : Value) :
    Utters W.good (binary ctx line op left right) (Value.Worded W.good) := by
  unfold binary
  split
  · split
    · exact utters_pure (Value.worded_of_none rfl)
    · exact utters_stop _ _
  · split
    · exact join_utters W left right
    · exact arithmetic_utters W op left right

theorem unary_utters (op : UnaryOp) (value : Value) :
    Utters good (unary line op value) (Value.Worded good) := by
  unfold unary
  split
  · split
    next n _ => exact utters_pure (Value.worded_number n.neg)
    next => exact utters_stop _ _
  · exact (truth_looks _ _ _).utters.bind fun _ _ => utters_pure (Value.worded_of_none rfl)
  · exact utters_throw _

theorem lookup_utters (name : String) :
    Utters good (lookup name) fun found => ∀ b ∈ found, b.value.Worded good :=
  utters_get fun _ worded => utters_pure fun _ held => worded.lookup held

theorem nameValue_utters (name : String) : Utters good (nameValue ctx line name) (Value.Worded good) := by
  refine (lookup_utters name).bind fun found known => ?_
  split
  next b => exact utters_pure (known b rfl)
  next => split <;> exact utters_stop _ _

theorem elementValue_utters (id : ArrayId) (indices : List Int) :
    Utters good (elementValue line id indices) (Value.Worded good) := by
  refine utters_get fun s worded => ?_
  dsimp only
  split
  next v read =>
    obtain ⟨cell, held, got⟩ := Option.map_eq_some_iff.mp read
    exact utters_pure (worded.get held got)
  next => exact storeFailed_utters _ _ _
  next => exact utters_pure (Value.worded_of_none rfl)

/-- What a built-in function answers with. -/
theorem callBuiltin_utters {name : String} (permitted : W.callee name) {arguments : List Value}
    (known : ∀ a ∈ arguments, a.Worded W.good) :
    Utters W.good (callBuiltin line name arguments) (Value.Worded W.good) := by
  intro s worded
  unfold callBuiltin
  rw [ends_bind, ends_modifyGet]
  split
  next v made => exact ⟨worded, W.answered permitted known made⟩
  next => exact worded
  next => exact worded

/-- What a call answers with is what the routine gave back, stored under its result type. -/
theorem resultOf_utters (r : Routine Stmt) (name : String) {c : Completion} (known : c.Worded good) :
    Utters good (resultOf line r name c) (Value.Worded good) := by
  unfold resultOf
  dsimp only
  split
  · exact utters_pure (Value.worded_of_none rfl)
  · exact utters_stop _ _
  · refine utters_get fun s _ => ?_
    split
    next kept accepted => exact utters_pure (Value.Worded.accept known accepted)
    next => exact storeFailed_utters _ _ _

theorem takeInput_utters : Utters good (takeInput line) fun _ => True := by
  refine utters_get fun s _ => ?_
  split
  · exact utters_stop _ _
  · refine utters_modify_bind ?_ (utters_pure trivial)
    intro s
    rfl

/-- The length of an input is checked before it becomes a value. -/
theorem readInput_utters (target : Target) :
    Utters W.good (readInput ctx line target) (Value.Worded W.good) := by
  refine takeInput_utters.bind fun raw _ => (checkLength_utters _).bind fun _ within => ?_
  refine (inputType_looks line target).utters.bind fun answer _ => ?_
  dsimp only
  split
  · exact utters_stop _ _
  · split
    next v taken => exact utters_pure (Input.value_worded (W.checked within) taken)
    next => exact utters_throw _

end Values

section Stores

variable {v : Value} {line : Nat}

theorem define_utters (name : String) {b : Binding} (known : b.value.Worded good) :
    Utters good (define name b) fun _ => True :=
  utters_get fun s _ => utters_withMemory fun _ worded => ⟨worded.define known s.env name, trivial⟩

theorem declareVariable_utters (short : good "") (name typeName : String) :
    Utters good (declareVariable name typeName) fun _ => True :=
  (define_utters name (Value.worded_initial short _)).discard

theorem declareArray_utters (short : good "") (name : String) (bounds : List Pseudocode.Bound)
    (elementType : String) :
    Utters good (declareArray ctx line name bounds elementType) fun _ => True := by
  unfold declareArray
  dsimp only
  split
  · exact utters_throw _
  · refine Utters.bind (utters_withMemory fun m worded => ⟨worded.addArray fun v member => ?_, trivial⟩)
      fun id (_ : True) => (define_utters name (Value.worded_of_none rfl)).discard
    rw [(Array.mem_replicate.mp member).2]
    exact Value.worded_initial short _

theorem defineConstant_utters (name : String) (known : v.Worded good) :
    Utters good (defineConstant name v) fun _ => True :=
  (utters_withMemory fun _ worded => worded.copyValue known).bind fun _ copy =>
    (define_utters name copy).discard

theorem assign_utters (name : String) (known : v.Worded good) :
    Utters good (assign line name v) fun _ => True := by
  refine utters_get fun s _ => Utters.bind
    (utters_withMemory fun m worded => ⟨worded.assign known s.env name, trivial⟩) fun answer (_ : True) => ?_
  split
  · exact utters_pure trivial
  · exact storeFailed_utters _ _ _

theorem assignElement_utters (id : ArrayId) (indices : List Int) (known : v.Worded good) :
    Utters good (assignElement line id indices v) fun _ => True := by
  refine Utters.bind (utters_withMemory fun m worded => ⟨?_, trivial⟩) fun failed (_ : True) => ?_
  · split
    next position kept placed =>
      obtain ⟨cell, -, placed⟩ := Option.map_eq_some_iff.mp placed
      exact worded.setElement (known.coerce (ArrayCell.place_coerce placed)) id position
    next => exact worded
    next => exact worded
  · split
    · exact utters_pure trivial
    · exact storeFailed_utters _ _ _

theorem storeFresh_utters (declared : Option DataType) (known : v.Worded good) (report : StoreFault → RunFault) :
    Utters good (storeFresh line declared v report) fun _ => True := by
  refine utters_get fun s _ => ?_
  split
  next kept accepted =>
    exact utters_withMemory fun m worded => ⟨worded.addBinding (known.accept accepted), trivial⟩
  next => exact storeFailed_utters _ _ _

theorem bindValue_utters (callee : String) (param : Param) (known : v.Worded good) :
    Utters good (bindValue line callee param v) fun _ => True := by
  unfold bindValue
  split
  · refine (checkArrayArgument_looks line callee param v).utters.bind fun _ _ => ?_
    refine utters_withMemory fun m worded => ⟨?_, trivial⟩
    have copied := worded.copyValue known
    exact copied.1.addBinding copied.2
  · exact storeFresh_utters _ known _

theorem bindArgument_utters (callee : String) (param : Param) (argument : Expr) {value : Run Value}
    (values : Utters good value (Value.Worded good)) :
    Utters good (bindArgument line callee param argument value) fun _ => True := by
  unfold bindArgument
  split
  · exact (bindReference_looks line callee param argument).utters
  · exact values.bind fun v known => bindValue_utters callee param known

theorem advance_utters (counter : BindingId) (step : Number) :
    Utters good (advance line counter step) fun _ => True := by
  refine (counterValue_looks counter).utters.bind fun current _ => ?_
  split
  · exact utters_throw _
  · split
    · exact utters_throw _
    next next _ =>
      refine utters_get fun s _ => ?_
      dsimp only
      split
      · exact utters_pure trivial
      next b _ =>
        split
        next kept accepted =>
          exact utters_withMemory fun m worded =>
            ⟨worded.setValue ((Value.worded_number next).accept accepted) counter, trivial⟩
        next => exact storeFailed_utters _ _ _

end Stores

section Control

variable {line : Nat}

theorem tick_utters : Utters good (tick ctx line) fun _ => True := by
  refine utters_modify_bind (fun _ => rfl) (utters_get fun s _ => ?_)
  dsimp only
  split
  · exact utters_stop _ _
  · split
    · exact utters_stop _ _
    · split
      · exact utters_stop _ _
      · exact utters_pure trivial

theorem begins_utters (stmt : Stmt) : Utters good (begins ctx stmt) fun _ => True := by
  unfold begins
  split
  · exact utters_throw _
  · refine utters_modify_bind ?_ tick_utters
    intro s
    rfl

theorem emit_utters (text : String) : Utters good (emit ctx line text) fun _ => True := by
  refine utters_modify fun s => ?_
  split <;> rfl

theorem bindParams_utters (frame : FrameId) (params : List Param) (bindings : List BindingId) :
    Utters good (bindParams frame params bindings) fun _ => True := by
  induction params generalizing bindings with
  | nil => exact utters_pure trivial
  | cons param params ih =>
    cases bindings with
    | nil => exact utters_pure trivial
    | cons i rest =>
      exact Utters.bind (utters_withMemory fun m worded => ⟨⟨worded.bindings, worded.elements⟩, trivial⟩)
        fun _ (_ : True) => ih rest

theorem openFrame_utters (params : List Param) (bindings : List BindingId) :
    Utters good (openFrame params bindings) fun _ => True :=
  Utters.bind (utters_withMemory fun _ worded => ⟨⟨worded.bindings, worded.elements⟩, trivial⟩)
    fun frame (_ : True) => (bindParams_utters frame params bindings).bind fun _ _ => utters_pure trivial

theorem openCounter_utters (counter : Option String) (start step : Number) :
    Utters good (openCounter line counter start step) fun _ => True := by
  unfold openCounter
  dsimp only
  split
  · exact (utters_stop _ _).bind fun _ never => absurd never id
  · split
    · exact storeFailed_utters _ _ _
    next first kept =>
      have known : first.Worded good := (Value.worded_number start).coerce kept
      refine Utters.bind (utters_withMemory fun m worded => ⟨⟨worded.bindings, worded.elements⟩, trivial⟩)
        fun frame (_ : True) => ?_
      refine Utters.bind (utters_withMemory fun m worded => ⟨worded.addBinding known, trivial⟩)
        fun id (_ : True) => ?_
      cases counter with
      | none => exact utters_pure trivial
      | some name =>
        exact Utters.bind (utters_withMemory fun m worded => ⟨⟨worded.bindings, worded.elements⟩, trivial⟩)
          fun _ (_ : True) => utters_pure trivial

end Control

end Run

end Pseudocode
