import Pseudocode.Proofs.GroundedReading
import Pseudocode.Proofs.SizedMemory
import Pseudocode.Proofs.Traversal

/-! What the steps of a run do to the sizes of INTEGERs. A computation `Stays` within the admissible
sizes if, whenever it returns, it has kept them so in the memory and what it answers is as described;
nothing is said of one that fails. -/
namespace Pseudocode

/-- All that a state can find has an admissible size. -/
abbrev RunState.Sized (s : RunState) : Prop := s.memory.SizedIn none s.env

structure RunState.KeepsSizes (apart : Option BindingId) (s t : RunState) : Prop where
  env : t.env = s.env
  memory : s.memory.KeepsSizes apart t.memory

def Completion.Sized : Completion → Prop
  | .normal => True
  | .returned v _ => v.Sized

namespace RunState

variable {apart : Option BindingId} {s t u : RunState}

theorem KeepsSizes.refl (s : RunState) : s.KeepsSizes apart s := ⟨rfl, .refl _⟩

theorem KeepsSizes.trans (known : ∀ i ∈ apart, i < s.memory.bindings.size) (first : s.KeepsSizes apart t)
    (second : t.KeepsSizes apart u) : s.KeepsSizes apart u :=
  ⟨second.env.trans first.env, first.memory.trans known second.memory⟩

theorem KeepsSizes.andThen (first : s.KeepsSizes none t) (second : t.KeepsSizes none u) : s.KeepsSizes none u :=
  ⟨second.env.trans first.env, first.memory.andThen second.memory⟩

theorem KeepsSizes.but (keeps : s.KeepsSizes none t) : s.KeepsSizes apart t := ⟨keeps.env, keeps.memory.but⟩

theorem KeepsSizes.sizedIn (keeps : s.KeepsSizes apart t) (sized : s.memory.SizedIn apart s.env) :
    t.memory.SizedIn apart t.env := by
  rw [keeps.env]
  exact keeps.memory.sizedIn sized

end RunState

namespace Run

/-- If it returns, the computation has kept values of an admissible size, and it answers as described. -/
def Stays (s : RunState) (m : Run α) (good : α → RunState → Prop) : Prop :=
  ∀ x t, m s = .ok x t → s.KeepsSizes none t ∧ good x t

variable {ctx : RunContext} {s t : RunState} {α β : Type} {m : Run α} {next : α → Run β}
  {good : α → RunState → Prop} {goodNext : β → RunState → Prop} {v w : Value} {line : Nat}

section Laws

theorem stays_pure (known : good a s) : Stays s (pure a) good := by
  rintro _ _ ⟨⟩
  exact ⟨.refl s, known⟩

theorem stays_throw (e : Stop) : Stays s (throw e) good := by
  rintro _ _ ⟨⟩

theorem stays_stop (line : Nat) (fault : RunFault) : Stays s (stop line fault) good := stays_throw _

theorem Stays.weaken {weaker : α → RunState → Prop} (stays : Stays s m good)
    (weakens : ∀ a t, good a t → weaker a t) : Stays s m weaker := by
  intro x t ran
  obtain ⟨keeps, known⟩ := stays x t ran
  exact ⟨keeps, weakens x t known⟩

/-- What follows finds all within the admissible sizes again. -/
theorem Stays.bind (sized : s.Sized) (first : Stays s m good)
    (rest : ∀ x t, m s = .ok x t → s.KeepsSizes none t → t.Sized → good x t → Stays t (next x) goodNext) :
    Stays s (m >>= next) goodNext := by
  intro y u ran
  obtain ⟨x, t, before, after⟩ := bind_eq_ok.mp ran
  obtain ⟨keeps, known⟩ := first x t before
  obtain ⟨further, answered⟩ := rest x t before keeps (keeps.sizedIn sized) known y u after
  exact ⟨keeps.andThen further, answered⟩

theorem Stays.discard (stays : Stays s m good) : Stays s (discard m) fun _ _ => True := by
  intro x t ran
  obtain ⟨a, u, before, after⟩ := bind_eq_ok.mp ((congrFun (bind_pure_comp _ m) s).trans ran)
  cases after
  exact ⟨(stays a _ before).1, trivial⟩

/-- What only looks comes first. -/
theorem Looks.stays_bind (looks : Looks m) (rest : ∀ x, m s = .ok x s → Stays s (next x) goodNext) :
    Stays s (m >>= next) goodNext := by
  intro y u ran
  obtain ⟨x, t, before, after⟩ := bind_eq_ok.mp ran
  cases (looks.ends s).of_ok before
  exact rest x before y u after

theorem Looks.stays (looks : Looks m) : Stays s m fun _ _ => True := by
  intro x t ran
  cases (looks.ends s).of_ok ran
  exact ⟨.refl s, trivial⟩

theorem stays_get {f : RunState → Run α} (stays : Stays s (f s) good) : Stays s (get >>= f) good := stays

theorem stays_lookup {next : Option Binding → Run α}
    (stays : Stays s (next (s.memory.lookup s.env name)) good) : Stays s (lookup name >>= next) good := stays

theorem stays_findBinding {next : Option BindingId → Run α}
    (stays : Stays s (next (s.memory.find s.env name)) good) : Stays s (findBinding name >>= next) good := stays

theorem stays_withMemory {change : Memory → α × Memory}
    (keeps : s.memory.KeepsSizes none (change s.memory).2)
    (known : good (change s.memory).1 { s with memory := (change s.memory).2 }) :
    Stays s (withMemory change) good := by
  rintro _ _ ⟨⟩
  exact ⟨⟨rfl, keeps⟩, known⟩

theorem stays_edit {change : Memory → α × Memory} (keeps : s.memory.KeepsSizes none (change s.memory).2) :
    Stays s (withMemory change) fun _ _ => True :=
  stays_withMemory keeps trivial

/-- What neither moves to another environment nor touches the memory. -/
theorem stays_of_memory (same : Ends m s (fun x t => t.env = s.env ∧ t.memory = s.memory ∧ good x t)
    fun _ _ => True) : Stays s m good := by
  intro x t ran
  obtain ⟨env, memory, known⟩ := same.of_ok ran
  exact ⟨⟨env, memory ▸ .refl _⟩, known⟩

theorem storeFailed_stays (report : StoreFault → RunFault) (fault : StoreFault) :
    Stays s (storeFailed line report fault) good := by
  cases fault <;> exact stays_throw _

end Laws

section Values

theorem liftNumber_stays {result : Except NumberFault Number} (sized : ∀ n, result = .ok n → n.Sized) :
    Stays s (liftNumber line result) fun v _ => v.Sized := by
  cases result with
  | ok n => exact stays_pure (sized n rfl).value
  | error fault => exact stays_throw _

theorem liftOverflow_stays {result : Except Overflow Number} (sized : ∀ n, result = .ok n → n.Sized) :
    Stays s (liftOverflow line result) fun v _ => v.Sized :=
  liftNumber_stays fun n made => sized n (ok_of_mapError made)

theorem joinText_stays (left right : String) :
    Stays s (joinText ctx line left right) fun v _ => v.Sized :=
  (checkLength_looks ctx line _).stays_bind fun _ _ => stays_pure (Value.sized_string _)

theorem join_stays (v w : Value) : Stays s (join ctx line v w) fun v _ => v.Sized := by
  have joined : Stays s (do joinText ctx line (← shown ctx line v) (← shown ctx line w)) fun v _ => v.Sized :=
    (shown_looks ctx line v).stays_bind fun _ _ => (shown_looks ctx line w).stays_bind fun _ _ =>
      joinText_stays _ _
  intro x t ran
  unfold join at ran
  split at ran
  · cases ran
  · exact joined x t ran

/-- Sums, differences and products are checked; quotients and remainders are no larger than what is
divided. -/
theorem arithmetic_stays (op : BinaryOp) (left : v.Sized) :
    Stays s (arithmetic ctx line op v w) fun v _ => v.Sized := by
  have checks {m n : Number} {operation : Number → Number → Except Overflow Number} :
      Stays s (liftOverflow line (operation m n >>= Number.checked)) fun v _ => v.Sized := by
    refine liftOverflow_stays fun k made => ?_
    obtain ⟨c, -, checked⟩ := ok_of_bind made
    exact Number.checked_sized checked
  unfold arithmetic
  split
  · exact joinText_stays _ _
  · split
    next m n first second =>
      have sized : m.Sized := left.number first
      split
      · exact checks
      · exact checks
      · exact checks
      · split
        · exact stays_stop _ _
        · split
          · refine liftOverflow_stays fun k made => ?_
            obtain ⟨x, -, rfl⟩ := ok_of_map made
            exact Number.sized_real x
          · refine liftNumber_stays fun k made => ?_
            obtain ⟨q, divided, rfl⟩ := ok_of_map made
            exact Number.sized_integer (sized.quotient divided)
          · exact liftNumber_stays fun k made => sized.remainder made
          · exact stays_throw _
    · exact stays_stop _ _

theorem binary_stays (op : BinaryOp) (left : v.Sized) :
    Stays s (binary ctx line op v w) fun v _ => v.Sized := by
  unfold binary
  split
  · split
    · exact stays_pure (Value.sized_boolean _)
    · exact stays_stop _ _
  · split
    · exact join_stays v w
    · exact arithmetic_stays op left

theorem unary_stays (op : UnaryOp) (sized : v.Sized) : Stays s (unary line op v) fun v _ => v.Sized := by
  unfold unary
  split
  · split
    next n found => exact stays_pure (sized.number found).neg.value
    next => exact stays_stop _ _
  · exact (truth_looks _ _ _).stays_bind fun _ _ => stays_pure (Value.sized_boolean _)
  · exact stays_throw _

theorem nameValue_stays (sized : s.Sized) (name : String) :
    Stays s (nameValue ctx line name) fun v _ => v.Sized := by
  refine stays_lookup ?_
  split
  next b held => exact stays_pure (sized.lookup held)
  next => split <;> exact stays_stop _ _

theorem elementValue_stays (sized : s.Sized) (id : ArrayId) (indices : List Int) :
    Stays s (elementValue line id indices) fun v _ => v.Sized := by
  refine stays_get ?_
  dsimp only
  split
  next v read =>
    obtain ⟨cell, held, got⟩ := Option.map_eq_some_iff.mp read
    exact stays_pure (sized.arrays.get held got)
  next => exact storeFailed_stays _ _
  next => exact stays_pure Value.sized_null

theorem callBuiltin_stays (name : String) {arguments : List Value}
    (known : ∀ a ∈ arguments, a.Sized ∧ a.Short) :
    Stays s (callBuiltin line name arguments) fun v _ => v.Sized := by
  refine stays_of_memory ?_
  unfold callBuiltin
  rw [ends_bind, ends_modifyGet]
  split
  next v made =>
    exact ⟨rfl, rfl, Builtin.call_sized (fun a member => (known a member).1)
      (fun a member => (known a member).2) made⟩
  · trivial
  · trivial

theorem forBound_stays (part : ForPart) (sized : v.Sized) :
    Stays s (forBound line part v) fun n _ => n.Sized := by
  unfold forBound
  split
  next n found => exact stays_pure (sized.number found)
  next => exact stays_stop _ _

/-- What a call answers with is what the routine gave back, stored under its result type. -/
theorem resultOf_stays (r : Routine Stmt) (name : String) {c : Completion} (sized : c.Sized) :
    Stays s (resultOf line r name c) fun v _ => v.Sized := by
  unfold resultOf
  dsimp only
  split
  · exact stays_pure Value.sized_null
  · exact stays_stop _ _
  · refine stays_get ?_
    split
    next kept accepted => exact stays_pure (Value.Sized.accept sized accepted)
    next => exact storeFailed_stays _ _

end Values

section Steps

theorem tick_stays : Stays s (tick ctx line) fun _ _ => True := by
  refine stays_of_memory ?_
  unfold tick
  rw [ends_bind, ends_modify, ends_bind, ends_get]
  dsimp only
  split
  · trivial
  · split
    · trivial
    · split
      · trivial
      · exact ⟨rfl, rfl, trivial⟩

theorem begins_stays (stmt : Stmt) : Stays s (begins ctx stmt) fun _ _ => True := by
  unfold begins
  split
  · exact stays_throw _
  · intro x t ran
    obtain ⟨_, u, moved, counted⟩ := bind_eq_ok.mp ran
    cases moved
    obtain ⟨keeps, -⟩ := tick_stays x t counted
    exact ⟨⟨keeps.env, keeps.memory⟩, trivial⟩

theorem emit_stays (text : String) : Stays s (emit ctx line text) fun _ _ => True := by
  refine stays_of_memory ?_
  unfold emit
  rw [ends_modify]
  split <;> exact ⟨rfl, rfl, trivial⟩

theorem takeInput_stays : Stays s (takeInput line) fun _ _ => True := by
  refine stays_of_memory ?_
  unfold takeInput
  rw [ends_bind, ends_get]
  split
  · trivial
  · exact ⟨rfl, rfl, trivial⟩

theorem readInput_stays (sized : s.Sized) (target : Target) :
    Stays s (readInput ctx line target) fun v _ => v.Sized := by
  refine Stays.bind sized takeInput_stays fun raw t _ _ _ _ => ?_
  refine (checkLength_looks ctx line _).stays_bind fun _ _ => ?_
  refine (inputType_looks line target).stays_bind fun answer _ => ?_
  dsimp only
  split
  · exact stays_stop _ _
  · split
    next v taken => exact stays_pure (Input.value_sized taken)
    next => exact stays_throw _

theorem define_stays (name : String) {b : Binding} (sized : b.value.Sized) :
    Stays s (define name b) fun _ _ => True :=
  stays_get (stays_withMemory (Memory.keeps_define s.env name sized) trivial)

theorem declareVariable_stays (name typeName : String) :
    Stays s (declareVariable name typeName) fun _ _ => True :=
  (define_stays name (Value.sized_initial _)).discard

theorem declareArray_stays (sized : s.Sized) (name : String) (bounds : List Pseudocode.Bound)
    (elementType : String) :
    Stays s (declareArray ctx line name bounds elementType) fun _ _ => True := by
  unfold declareArray
  dsimp only
  split
  · exact stays_throw _
  · refine Stays.bind sized (stays_edit (Memory.keeps_addArray fun v member => ?_)) fun id t _ _ _ _ => ?_
    · rw [(Array.mem_replicate.mp member).2]
      exact Value.sized_initial _
    · exact (define_stays name (Value.sized_array id)).discard

theorem defineConstant_stays (sized : s.Sized) (name : String) (known : v.Sized) :
    Stays s (defineConstant name v) fun _ _ => True := by
  have copied : Stays s (withMemory (·.copyValue v)) fun w _ => w.Sized :=
    stays_withMemory (Memory.keeps_copyValue sized.arrays v) (Memory.copyValue_sized known)
  exact Stays.bind sized copied fun w t _ _ _ copy => (define_stays name copy).discard

theorem assign_stays (sized : s.Sized) (name : String) (known : v.Sized) :
    Stays s (assign line name v) fun _ _ => True := by
  refine stays_get (Stays.bind sized (stays_edit (Memory.keeps_assign s.env name known))
    fun answer t _ _ _ _ => ?_)
  split
  · exact stays_pure trivial
  · exact storeFailed_stays _ _

theorem assignElement_stays (sized : s.Sized) (id : ArrayId) (indices : List Int) (known : v.Sized) :
    Stays s (assignElement line id indices v) fun _ _ => True := by
  refine Stays.bind sized (stays_edit ?_) fun failed t _ _ _ _ => ?_
  · split
    next position kept placed =>
      obtain ⟨cell, -, placed⟩ := Option.map_eq_some_iff.mp placed
      exact Memory.keeps_setElement (known.coerce (ArrayCell.place_coerce placed)) id position
    next => exact .refl _
    next => exact .refl _
  · split
    · exact stays_pure trivial
    · exact storeFailed_stays _ _

end Steps

section Arguments

/-- A binding that is new holds what it is made for. -/
theorem addBinding_stays {b : Binding} (sized : b.value.Sized) :
    Stays s (withMemory (·.addBinding b)) fun i t => t.memory.SizedAt i :=
  stays_withMemory ((Memory.Extends.refl _).addBinding b).keeps
    ⟨b, by simp [Memory.addBinding, Memory.binding?], sized⟩

theorem storeFresh_stays (declared : Option DataType) (known : v.Sized) (report : StoreFault → RunFault) :
    Stays s (storeFresh line declared v report) fun i t => t.memory.SizedAt i := by
  refine stays_get ?_
  split
  next kept accepted => exact addBinding_stays (known.accept accepted)
  next => exact storeFailed_stays _ _

theorem bindValue_stays (sized : s.Sized) (callee : String) (param : Param) (known : v.Sized) :
    Stays s (bindValue line callee param v) fun i t => t.memory.SizedAt i := by
  unfold bindValue
  split
  · refine (checkArrayArgument_looks line callee param v).stays_bind fun _ _ => ?_
    have copied : Stays s (withMemory (·.copyValue v)) fun w _ => w.Sized :=
      stays_withMemory (Memory.keeps_copyValue sized.arrays v) (Memory.copyValue_sized known)
    have bound (w : Value) (t : RunState) (copy : w.Sized) :
        Stays t (withMemory (·.addBinding ⟨w, some .array, false⟩)) fun i u => u.memory.SizedAt i :=
      addBinding_stays copy
    exact copied.bind sized fun w t _ _ _ copy => bound w t copy
  · exact storeFresh_stays _ known _

/-- The binding of a BYREF argument is one that can be found. -/
theorem bindReference_stays (sized : s.Sized) (callee : String) (param : Param) (argument : Expr) :
    Stays s (bindReference line callee param argument) fun i t => t.memory.SizedAt i := by
  unfold bindReference
  split
  next place name =>
    refine stays_findBinding ?_
    split
    · exact stays_stop _ _
    next i found =>
      have known : s.memory.SizedAt i := sized.find found
      refine stays_get ?_
      split
      · split
        · exact stays_pure known
        · exact stays_stop _ _
      · exact stays_pure known
  · exact stays_stop _ _

theorem bindArgument_stays (sized : s.Sized) (callee : String) (param : Param) (argument : Expr)
    {value : Run Value} (values : param.mode ≠ .byReference → Stays s value fun v _ => v.Sized) :
    Stays s (bindArgument line callee param argument value) fun i t => t.memory.SizedAt i := by
  unfold bindArgument
  split
  next => exact bindReference_stays sized callee param argument
  next mode =>
    have byValue : param.mode ≠ .byReference := by
      intro reference
      cases reference.symm.trans mode
    exact Stays.bind sized (values byValue) fun v t _ _ sizedT known =>
      bindValue_stays sizedT callee param known

end Arguments

section Frames

theorem inEnvironment_stays {good : α → Prop} {env : Environment} {body : Run α}
    (inner : Stays { s with env } body fun x _ => good x) :
    Stays s (inEnvironment env body) fun x _ => good x := by
  intro x t ran
  unfold inEnvironment at ran
  dsimp only at ran
  split at ran
  next returned =>
    cases ran
    obtain ⟨keeps, known⟩ := inner _ _ returned
    exact ⟨⟨rfl, keeps.memory⟩, known⟩
  next => cases ran

theorem thenAtLine_stays {good : α → Prop} {body : Run α} (inner : Stays s body fun x _ => good x) :
    Stays s (thenAtLine line body) fun x _ => good x := by
  intro x t ran
  unfold thenAtLine at ran
  split at ran
  next returned =>
    cases ran
    obtain ⟨keeps, known⟩ := inner _ _ returned
    exact ⟨⟨keeps.env, keeps.memory⟩, known⟩
  next => cases ran

theorem giveBack_stays {inRoutine : Bool} {value : Run Value} (sized : s.Sized)
    (given : inRoutine = true → Stays s value fun v _ => v.Sized) :
    Stays s (giveBack inRoutine line value) fun c _ => c.Sized := by
  unfold giveBack
  split
  next inside => exact Stays.bind sized (given inside) fun v _ _ _ _ known => stays_pure known
  next => exact stays_stop _ _

theorem bindParams_extends {before : Memory} {frame : FrameId} (fresh : before.frames.size ≤ frame)
    (params : List Param) (bindings : List BindingId) (more : before.Extends s.memory) :
    Ends (bindParams frame params bindings) s (fun _ t => t.env = s.env ∧ before.Extends t.memory)
      fun _ _ => False := by
  induction params generalizing bindings s with
  | nil => exact ⟨rfl, more⟩
  | cons param params ih =>
    cases bindings with
    | nil => exact ⟨rfl, more⟩
    | cons i rest => exact ends_withMemory.mpr (ih rest (more.bind fresh param.name i))

/-- The frame of a call has names only for the bindings that were made for it. -/
theorem openFrame_sized (sized : s.Sized) (params : List Param) {bindings : List BindingId}
    (known : ∀ i ∈ bindings, s.memory.SizedAt i) (opened : openFrame params bindings s = .ok frame t) :
    s.KeepsSizes none t ∧ t.memory.SizedIn none (frame :: Memory.globals) := by
  have named : Ends (openFrame params bindings) s
      (fun _ t => t.env = s.env ∧ s.memory.Extends t.memory) fun _ _ => True := by
    refine ends_withMemory.mpr (ends_bind.mpr ?_)
    exact (bindParams_extends (Nat.le_refl _) params bindings (Memory.Extends.refl _).addFrame).of_safe
      fun _ t known => known
  obtain ⟨env, more⟩ := named.of_ok opened
  have inside : ∀ f ∈ s.env, f < s.memory.frames.size := fun f member => sized.inside f (.tail _ member)
  have confined : Confines (fun _ _ => False) (fun _ => False) s (openFrame params bindings) _ :=
    openFrame_confines inside params bindings
  obtain ⟨-, made⟩ := confined.of_ok opened
  refine ⟨⟨env, more.keeps⟩, more.opened sized made.inside (fun name i found _ => ?_) fun f member => ?_⟩
  · obtain ⟨param, paired, -⟩ := made.named name i found
    exact more.sizedAt (known i (List.of_mem_zip paired).2)
  · exact List.mem_cons.mpr (.inl (List.mem_singleton.mp member))

/-- The counter of a loop is new and starts with a value of an admissible size. -/
theorem openCounter_sized {start step : Number} {name : Option String} {opened : FrameId × BindingId}
    (sized : s.Sized) (known : start.Sized) (made : openCounter line name start step s = .ok opened t) :
    t.env = s.env ∧ s.memory.Extends t.memory ∧ s.memory.bindings.size ≤ opened.2 ∧
      t.memory.SizedIn (some opened.2) (opened.1 :: t.env) ∧ t.memory.SizedAt opened.2 := by
  have named : Ends (openCounter line name start step) s (fun opened t => t.env = s.env ∧
      s.memory.Extends t.memory ∧ t.memory.SizedAt opened.2) fun _ _ => True := by
    unfold openCounter
    dsimp only
    split
    · trivial
    · split
      next fault refused => cases fault <;> trivial
      next first kept =>
        have more (b : Binding) : s.memory.Extends (s.memory.addFrame.2.addBinding b).2 :=
          (Memory.Extends.refl _).addFrame.addBinding b
        have held (b : Binding) :
            (s.memory.addFrame.2.addBinding b).2.binding? s.memory.bindings.size = some b := by
          rw [Memory.binding_addBinding]
          exact if_pos rfl
        have first : first.Sized := known.value.coerce kept
        refine ends_withMemory.mpr (ends_withMemory.mpr ?_)
        cases name with
        | none => exact ⟨rfl, more _, _, held _, first⟩
        | some word => exact ⟨rfl, (more _).bind (Nat.le_refl _) word _, _, held _, first⟩
  obtain ⟨env, more, counter⟩ := named.of_ok made
  -- What the new frame names is known from the places that opening a counter may change.
  have hides : s.Hides fun _ => False :=
    ⟨sized.inside, fun _ _ _ _ _ => id, fun _ absurd => absurd.elim⟩
  have confined : Confines (fun _ _ => False) (fun _ => False) s (openCounter line name start step)
      fun opened t => opened.2 = s.memory.bindings.size ∧
        s.memory.Opened t.memory opened.1 fun word i => name = some word ∧ i = opened.2 :=
    openCounter_confines hides line name start step
  obtain ⟨-, new, frame⟩ := confined.of_ok made
  refine ⟨env, more, Nat.le_of_eq new.symm, ?_, counter⟩
  rw [env]
  refine more.opened sized frame.inside (fun word i found other => ?_) fun f member => .tail _ member
  exact absurd (congrArg some (frame.named word i found).2.symm) other

/-- The next value of a counter. It is checked only by the test of the loop, which holds it between the
value before and the end of the loop. -/
theorem next_sized {m : Memory} {b : Binding} {last step current next : Number} {kept : Value}
    (sized : current.Sized) (bound : last.Sized) (finite : ∀ x, last = .real x → x.isFinite = true)
    (made : current.addExact step = .ok next) (accepted : m.accept b (.ofNumber next) = .ok kept)
    (going : kept.number?.any (pastEnd · last step) = false) : kept.Sized := by
  cases next with
  | real x => exact (Number.sized_real x).value.accept accepted
  | integer n =>
    obtain ⟨k, l, rfl, rfl, rfl⟩ := Number.integer_of_combine made
    have stays (same : kept = .integer (k + l)) : kept.Sized := by
      rintro _ rfl
      cases same
      exact sized_of_going (sized k rfl) bound finite (by simpa [Value.number?] using going)
    obtain ⟨-, ⟨id, array, -⟩ | coerced⟩ := Memory.accept_cases accepted
    · cases array
    · cases declared : b.declared with
      | none =>
        rw [declared, Value.coerce_untyped] at coerced
        exact stays (Except.ok.inj coerced).symm
      | some type =>
        rw [declared] at coerced
        rcases Value.coerce_cases coerced with ⟨same, -⟩ | ⟨-, x, -, -, rfl⟩ | ⟨x, -, other, -⟩ |
          ⟨x, other, -⟩ | ⟨x, other, -⟩
        · exact stays same
        · exact Value.sized_real x
        · cases other
        · cases other
        · cases other

theorem advance_sized {counter : BindingId} {last step : Number} (known : s.memory.SizedAt counter)
    (bound : last.Sized) (finite : ∀ x, last = .real x → x.isFinite = true)
    (ran : advance line counter step s = .ok x t) :
    s.KeepsSizes (some counter) t ∧ t.memory.CounterSized counter last step := by
  obtain ⟨b, held, sized⟩ := known
  have ends : Ends (advance line counter step) s (fun _ t => s.KeepsSizes (some counter) t ∧
      t.memory.CounterSized counter last step) fun _ _ => True := by
    unfold advance counterValue
    simp only [bind_assoc, pure_bind, ends_bind, ends_get, held, Option.map_some, Option.getD_some]
    split
    · trivial
    next current found =>
      split
      · trivial
      next next made =>
        rw [ends_bind, ends_get, held]
        dsimp only
        split
        next kept accepted =>
          have changed : s.memory.KeepsSizes (some counter) (s.memory.setValue counter kept) :=
            Memory.keeps_setValue fun other => absurd rfl other
          refine ⟨⟨rfl, changed⟩, { b with value := kept }, ?_, ?_⟩
          · simp [held]
          · exact next_sized (sized.number found) bound finite made accepted
        next fault refused => cases fault <;> trivial
  exact ends.of_ok ran

end Frames

end Run

end Pseudocode
