import Pseudocode.Proofs.Ends
import Pseudocode.Run.Statement

/-! Computations on the memory alone. Most of what a run is made of looks at nothing of its state but the
memory and the environment, and changes nothing but the memory. Such a computation does the same
wherever else the run stands: on any line, after any number of steps, with any inputs and outputs. -/
namespace Pseudocode.Run

variable {α β : Type}

/-- What the computation answers depends on the environment and the memory alone, and it changes the
memory alone, as described. -/
def MemoryOnly (changes : Memory → Memory → Prop) (m : Run α) : Prop :=
  ∀ env memory, ∃ after, changes memory after ∧
    ((∃ a, ∀ s : RunState, s.env = env → s.memory = memory →
        m s = .ok a { s with memory := after }) ∨
      ∃ e, ∀ s : RunState, s.env = env → s.memory = memory →
        m s = .error e { s with memory := after })

/-- It only looks at the memory. -/
abbrev Looks (m : Run α) : Prop := MemoryOnly (fun before after => after = before) m

/-- It may change the memory. -/
abbrev Edits (m : Run α) : Prop := MemoryOnly (fun _ _ => True) m

variable {changes : Memory → Memory → Prop} {m : Run α} {next : α → Run β} {s : RunState}

section Laws

theorem MemoryOnly.mono {changes' : Memory → Memory → Prop} (only : MemoryOnly changes m)
    (more : ∀ before after, changes before after → changes' before after) : MemoryOnly changes' m :=
  fun env memory => (only env memory).imp fun after known => known.imp_left (more memory after)

theorem Looks.edits (looks : Looks m) : Edits m := looks.mono fun _ _ _ => trivial

/-- A computation that only looks leaves the state as it is. -/
theorem Looks.ends (looks : Looks m) (s : RunState) :
    Ends m s (fun _ t => t = s) (fun _ t => t = s) := by
  obtain ⟨after, rfl, ⟨a, ran⟩ | ⟨e, failed⟩⟩ := looks s.env s.memory
  · simp only [Ends, ran s rfl rfl]
  · simp only [Ends, failed s rfl rfl]

theorem MemoryOnly.throw (e : Stop) (same : ∀ memory, changes memory memory) :
    MemoryOnly changes (throw e : Run α) :=
  fun _ memory => ⟨memory, same memory, .inr ⟨e, fun _ _ held => held ▸ rfl⟩⟩

theorem looks_pure (a : α) : Looks (pure a : Run α) :=
  fun _ memory => ⟨memory, rfl, .inl ⟨a, fun _ _ held => held ▸ rfl⟩⟩

theorem looks_throw (e : Stop) : Looks (throw e : Run α) := .throw e fun _ => rfl

theorem looks_stop (line : Nat) (fault : RunFault) : Looks (stop line fault : Run α) := looks_throw _

theorem edits_pure (a : α) : Edits (pure a : Run α) := (looks_pure a).edits

theorem MemoryOnly.andThen (together : ∀ a b c, changes a b → changes b c → changes a c)
    (first : MemoryOnly changes m) (rest : ∀ a, MemoryOnly changes (next a)) :
    MemoryOnly changes (m >>= next) := by
  intro env memory
  obtain ⟨between, before, ⟨a, ran⟩ | ⟨e, failed⟩⟩ := first env memory
  · obtain ⟨after, behind, ends⟩ := rest a env between
    refine ⟨after, together _ _ _ before behind, ends.imp (fun ⟨b, ran'⟩ => ⟨b, fun s here held => ?_⟩)
      fun ⟨e, failed⟩ => ⟨e, fun s here held => ?_⟩⟩
    · exact (bind_of_ok (ran s here held)).trans (ran' { s with memory := between } here rfl)
    · exact (bind_of_ok (ran s here held)).trans (failed { s with memory := between } here rfl)
  · exact ⟨between, before, .inr ⟨e, fun s here held => bind_of_error (failed s here held)⟩⟩

theorem Looks.bind (first : Looks m) (rest : ∀ a, Looks (next a)) : Looks (m >>= next) :=
  first.andThen (fun _ _ _ before behind => behind.trans before) rest

theorem Edits.bind (first : Edits m) (rest : ∀ a, Edits (next a)) : Edits (m >>= next) :=
  first.andThen (fun _ _ _ _ _ => trivial) rest

/-- Nothing that follows a failure is done. -/
theorem looks_throw_bind (e : Stop) (next : α → Run β) : Looks ((throw e : Run α) >>= next) :=
  fun _ memory => ⟨memory, rfl, .inr ⟨e, fun _ _ held => held ▸ rfl⟩⟩

/-- Looking at the environment and the memory of the state. -/
theorem memoryOnly_get {f : RunState → Run α}
    (blind : ∀ s t : RunState, s.env = t.env → s.memory = t.memory → f s = f t)
    (each : ∀ s, MemoryOnly changes (f s)) : MemoryOnly changes (get >>= f) := by
  intro env memory
  let here : RunState := ⟨memory, env, 0, 0, [], #[], 0, .ofSeed 0⟩
  obtain ⟨after, changed, ends⟩ := each here env memory
  refine ⟨after, changed, ends.imp (fun ⟨a, ran⟩ => ⟨a, fun s same held => ?_⟩)
    fun ⟨e, failed⟩ => ⟨e, fun s same held => ?_⟩⟩
  · exact (congrFun (blind s here same held) s).trans (ran s same held)
  · exact (congrFun (blind s here same held) s).trans (failed s same held)

theorem edits_withMemory (change : Memory → α × Memory) : Edits (withMemory change) :=
  fun _ memory => ⟨(change memory).2, trivial, .inl ⟨(change memory).1, fun _ _ held => held ▸ rfl⟩⟩

theorem Edits.discarded (edits : Edits m) : Edits (discard m) := by
  rw [show discard m = m >>= fun _ => pure () from (bind_pure_comp _ m).symm]
  exact edits.bind fun _ => edits_pure ()

end Laws

/-! What only looks at the memory. -/

section Looking

variable (ctx : RunContext) (line : Nat)

theorem findBinding_looks (name : String) : Looks (findBinding name) :=
  memoryOnly_get (fun _ _ env memory => by rw [env, memory]) fun _ => looks_pure _

theorem lookup_looks (name : String) : Looks (lookup name) :=
  memoryOnly_get (fun _ _ env memory => by rw [env, memory]) fun _ => looks_pure _

theorem checkLength_looks (length : Nat) : Looks (checkLength ctx line length) := by
  unfold checkLength
  dsimp only
  split
  · exact looks_stop _ _
  · exact looks_pure _

theorem shown_looks (value : Value) : Looks (shown ctx line value) := by
  refine memoryOnly_get (fun _ _ _ memory => by rw [memory]) fun s => ?_
  dsimp only
  split
  · exact looks_pure _
  · exact looks_stop _ _
  · exact looks_throw _
  · exact looks_throw _

theorem storeFailed_looks (report : StoreFault → RunFault) (fault : StoreFault) :
    Looks (storeFailed line report fault : Run α) := by
  cases fault <;> exact looks_throw _

theorem arrayNamed_looks (name : String) : Looks (arrayNamed line name) := by
  refine (lookup_looks name).bind fun found => ?_
  split
  · exact looks_stop _ _
  · split
    · exact looks_pure _
    · exact looks_stop _ _

theorem liftNumber_looks (answer : Except NumberFault Number) : Looks (liftNumber line answer) := by
  cases answer with
  | ok n => exact looks_pure _
  | error fault => exact looks_throw _

theorem joinText_looks (left right : String) : Looks (joinText ctx line left right) :=
  (checkLength_looks ctx line _).bind fun _ => looks_pure _

theorem arithmetic_looks (op : BinaryOp) (left right : Value) :
    Looks (arithmetic ctx line op left right) := by
  unfold arithmetic
  split
  · exact joinText_looks ctx line _ _
  · split
    · split
      · exact liftNumber_looks _ _
      · exact liftNumber_looks _ _
      · exact liftNumber_looks _ _
      · split
        · exact looks_stop _ _
        · split
          · exact liftNumber_looks _ _
          · exact liftNumber_looks _ _
          · exact liftNumber_looks _ _
          · exact looks_throw _
    · exact looks_stop _ _

theorem join_looks (left right : Value) : Looks (join ctx line left right) := by
  have joined : Looks
      (do joinText ctx line (← shown ctx line left) (← shown ctx line right) : Run Value) :=
    (shown_looks ctx line left).bind fun _ => (shown_looks ctx line right).bind fun _ =>
      joinText_looks ctx line _ _
  intro env memory
  obtain ⟨after, same, ⟨a, ran⟩ | ⟨e, failed⟩⟩ := joined env memory
  · refine ⟨after, same, .inl ⟨a, fun s here held => ?_⟩⟩
    unfold join
    rw [ran s here held]
  · by_cases overflow : e = .overflow
    · refine ⟨after, same, .inr ⟨.fault line .overflow, fun s here held => ?_⟩⟩
      unfold join
      rw [failed s here held, overflow]
    · refine ⟨after, same, .inr ⟨e, fun s here held => ?_⟩⟩
      unfold join
      rw [failed s here held]
      cases e with
      | overflow => exact absurd rfl overflow
      | fault | engine | endless => rfl

theorem binary_looks (op : BinaryOp) (left right : Value) : Looks (binary ctx line op left right) := by
  unfold binary
  split
  · split
    · exact looks_pure _
    · exact looks_throw _
  · split
    · exact join_looks ctx line left right
    · exact arithmetic_looks ctx line op left right

theorem truth_looks (op : String) (value : Value) : Looks (truth op line value) := by
  unfold truth
  split
  · exact looks_pure _
  · exact looks_stop _ _

theorem unary_looks (op : UnaryOp) (value : Value) : Looks (unary line op value) := by
  unfold unary
  split
  · split
    · exact looks_pure _
    · exact looks_stop _ _
  · exact (truth_looks _ _ _).bind fun _ => looks_pure _
  · exact looks_throw _

theorem nameValue_looks (name : String) : Looks (nameValue ctx line name) := by
  refine (lookup_looks name).bind fun found => ?_
  split
  · exact looks_pure _
  · split
    · exact looks_stop _ _
    · exact looks_stop _ _

theorem indexValue_looks (value : Value) : Looks (indexValue line value) := by
  unfold indexValue
  split
  · exact looks_pure _
  · exact looks_stop _ _

theorem elementValue_looks (id : ArrayId) (indices : List Int) :
    Looks (elementValue line id indices) := by
  refine memoryOnly_get (fun _ _ _ memory => by rw [memory]) fun s => ?_
  dsimp only
  split
  · exact looks_pure _
  · exact storeFailed_looks _ _ _
  · exact looks_pure _

theorem bindReference_looks (callee : String) (param : Param) (argument : Expr) :
    Looks (bindReference line callee param argument) := by
  unfold bindReference
  split
  · refine (findBinding_looks _).bind fun found => ?_
    split
    · exact looks_stop _ _
    · refine memoryOnly_get (fun _ _ _ memory => by rw [memory]) fun s => ?_
      split
      · split
        · exact looks_pure _
        · exact looks_stop _ _
      · exact looks_pure _
  · exact looks_stop _ _

theorem checkArrayArgument_looks (callee : String) (param : Param) (value : Value) :
    Looks (checkArrayArgument line callee param value) := by
  unfold checkArrayArgument
  split
  · exact looks_pure _
  · refine memoryOnly_get (fun _ _ _ memory => by rw [memory]) fun s => ?_
    dsimp only
    split
    · split
      · exact looks_pure _
      · exact looks_stop _ _
    · exact looks_throw _
    · exact looks_pure _
  · exact looks_stop _ _

theorem resultOf_looks (r : Routine Stmt) (name : String) (c : Completion) :
    Looks (resultOf line r name c) := by
  unfold resultOf
  dsimp only
  split
  · exact looks_pure _
  · exact looks_stop _ _
  · refine memoryOnly_get (fun _ _ _ memory => by rw [memory]) fun s => ?_
    split
    · exact looks_pure _
    · exact storeFailed_looks _ _ _

theorem conditionValue_looks (keyword : Keyword) (value : Value) :
    Looks (conditionValue keyword line value) := by
  unfold conditionValue
  split
  · exact looks_pure _
  · exact looks_stop _ _

theorem inputType_looks (target : Target) : Looks (inputType line target) := by
  unfold inputType
  split
  · exact (lookup_looks _).bind fun _ => looks_pure _
  · exact (arrayNamed_looks _ _).bind fun _ =>
      memoryOnly_get (fun _ _ _ memory => by rw [memory]) fun _ => looks_pure _
  · exact looks_throw _

theorem forBound_looks (part : ForPart) (value : Value) : Looks (forBound line part value) := by
  unfold forBound
  split
  · exact looks_pure _
  · exact looks_stop _ _

theorem counterValue_looks (counter : BindingId) : Looks (counterValue counter) :=
  memoryOnly_get (fun _ _ _ memory => by rw [memory]) fun _ => looks_pure _

end Looking

/-! What may change the memory. -/

section Editing

variable (line : Nat)

theorem define_edits (name : String) (binding : Binding) : Edits (define name binding) :=
  memoryOnly_get (fun _ _ env _ => by rw [env]) fun _ => edits_withMemory _

theorem assign_edits (name : String) (value : Value) : Edits (assign line name value) := by
  refine memoryOnly_get (fun _ _ env _ => by rw [env]) fun s =>
    (edits_withMemory _).bind fun answer => ?_
  split
  · exact edits_pure _
  · exact (storeFailed_looks _ _ _).edits

theorem assignElement_edits (id : ArrayId) (indices : List Int) (value : Value) :
    Edits (assignElement line id indices value) := by
  refine (edits_withMemory _).bind fun failed => ?_
  split
  · exact edits_pure _
  · exact (storeFailed_looks _ _ _).edits

theorem storeFresh_edits (declared : Option DataType) (value : Value)
    (report : StoreFault → RunFault) : Edits (storeFresh line declared value report) := by
  refine memoryOnly_get (fun _ _ _ memory => by rw [memory]) fun s => ?_
  split
  · exact edits_withMemory _
  · exact (storeFailed_looks _ _ _).edits

theorem bindValue_edits (callee : String) (param : Param) (value : Value) :
    Edits (bindValue line callee param value) := by
  unfold bindValue
  split
  · exact (checkArrayArgument_looks _ _ _ _).edits.bind fun _ => edits_withMemory _
  · exact storeFresh_edits _ _ _ _

theorem declareVariable_edits (name typeName : String) : Edits (declareVariable name typeName) :=
  (define_edits _ _).discarded

theorem defineConstant_edits (name : String) (value : Value) : Edits (defineConstant name value) :=
  (edits_withMemory _).bind fun _ => (define_edits _ _).discarded

theorem declareArray_edits (ctx : RunContext) (name : String) (bounds : List Bound)
    (elementType : String) : Edits (declareArray ctx line name bounds elementType) := by
  unfold declareArray
  dsimp only
  split
  · exact (looks_throw_bind _ _).edits
  · exact (edits_withMemory _).bind fun _ => (define_edits _ _).discarded

theorem advance_edits (counter : BindingId) (step : Number) : Edits (advance line counter step) := by
  refine (counterValue_looks counter).edits.bind fun value => ?_
  split
  · exact (looks_throw _).edits
  · split
    · exact (looks_throw _).edits
    · refine memoryOnly_get (fun _ _ _ memory => by rw [memory]) fun s => ?_
      dsimp only
      split
      · exact edits_pure _
      · split
        · exact edits_withMemory _
        · exact (storeFailed_looks _ _ _).edits

theorem openCounter_edits (counter : Option String) (start step : Number) :
    Edits (openCounter line counter start step) := by
  unfold openCounter
  dsimp only
  split
  · exact (looks_throw_bind _ _).edits
  · split
    · exact (storeFailed_looks _ _ _).edits
    · refine (edits_withMemory _).bind fun frame => (edits_withMemory _).bind fun id => ?_
      split
      · exact edits_pure _
      · exact (edits_withMemory _).bind fun _ => edits_pure _

theorem bindParams_edits (frame : FrameId) (params : List Param) (bindings : List BindingId) :
    Edits (bindParams frame params bindings) := by
  induction params generalizing bindings with
  | nil => exact edits_pure _
  | cons param params ih =>
    cases bindings with
    | nil => exact edits_pure _
    | cons id rest => exact (edits_withMemory _).bind fun _ => ih rest

theorem openFrame_edits (params : List Param) (bindings : List BindingId) :
    Edits (openFrame params bindings) :=
  (edits_withMemory _).bind fun _ => (bindParams_edits _ _ _).bind fun _ => edits_pure _

end Editing

end Pseudocode.Run
