import Pseudocode.Proofs.CallFrames

/-! The types of parameters. A binding that goes by the name of a parameter has the type of the parameter, if
both have a type: one that is shared by reference is refused otherwise, one for a value is made so. No
binding ever has another type, so this holds of the frame of a call as long as there is the frame. -/
namespace Pseudocode

/-- A binding that was declared with this type, if any, can go by the name of the parameter. -/
def Param.Takes (param : Param) (type : Option DataType) : Prop :=
  ∀ expected ∈ DataType.ofName? param.typeName, ∀ given ∈ type, given = expected

/-- A binding keeps its type. -/
theorem Memory.Grows.declared? {m n : Memory} {i : BindingId} (grows : m.Grows n) (old : i < m.bindings.size) :
    n.declared? i = m.declared? i := by
  have held : m.binding? i = some m.bindings[i] := Array.getElem?_eq_getElem old
  obtain ⟨later, now, same, -⟩ := grows.kind held
  rw [Memory.declared?, Memory.declared?, now, held]
  exact same

namespace Run

variable {P : Policy} {ctx : RunContext} {s t : RunState} {enter : Enter} {line : Nat} {callee : String}

/-- A new binding has the type that it is made with. -/
theorem addBinding_declared (m : Memory) (b : Binding) :
    (m.addBinding b).2.declared? (m.addBinding b).1 = b.declared := by
  rw [Memory.declared?, Memory.binding_addBinding]
  simp [Memory.addBinding]

/-- A name that is found is shared by reference unless it is of another type than the parameter. -/
theorem bindReference_found {place : Position} {name : String} {i : BindingId} (callee : String) (param : Param)
    (found : s.memory.find s.env name = some i) :
    bindReference line callee param (.name place name) s =
      (match DataType.ofName? param.typeName, s.memory.declared? i with
      | some expected, some given =>
        if given = expected then pure i else stop line (.referenceType param.name expected name given)
      | _, _ => pure i : Run BindingId) s := by
  have looked : findBinding name s = .ok (some i) s := congrArg (EStateM.Result.ok · s) found
  exact (bind_of_ok looked).trans rfl

theorem bindReference_takes (line : Nat) (callee : String) (param : Param) (argument : Expr) (s : RunState) :
    Ends (bindReference line callee param argument) s (fun i t => param.Takes (t.memory.declared? i))
      fun _ _ => True := by
  cases argument with
  | name place name =>
    cases found : s.memory.find s.env name with
    | none =>
      have looked : findBinding name s = .ok none s := congrArg (EStateM.Result.ok · s) found
      exact (ends_congr (bind_of_ok looked)).mpr trivial
    | some i =>
      refine (ends_congr (bindReference_found callee param found)).mpr ?_
      split
      next expected given declared held =>
        split
        next same =>
          intro expected known type held'
          cases declared.symm.trans known
          cases held.symm.trans held'
          exact same
        next => trivial
      next apart =>
        intro expected known given held
        exact (apart _ _ known held).elim
  | _ => trivial

/-- A binding that is made for a value has the type of the parameter. -/
theorem bindValue_takes (line : Nat) (callee : String) (param : Param) (value : Value) (s : RunState) :
    Ends (bindValue line callee param value) s (fun i t => param.Takes (t.memory.declared? i))
      fun _ _ => True := by
  have made {m : Memory} {b : Binding} (same : DataType.ofName? param.typeName = b.declared) :
      param.Takes ((m.addBinding b).2.declared? (m.addBinding b).1) := by
    intro expected known given held
    rw [addBinding_declared, ← same] at held
    cases held.symm.trans known
    rfl
  unfold bindValue
  split
  next array => exact ends_bind_of_forall fun _ t => made array
  next =>
    unfold storeFresh
    rw [ends_bind, ends_get]
    split
    · exact made rfl
    · unfold storeFailed
      split <;> trivial

theorem bindArgument_takes (line : Nat) (callee : String) (param : Param) (argument : Expr) (value : Run Value)
    (s : RunState) :
    Ends (bindArgument line callee param argument value) s (fun i t => param.Takes (t.memory.declared? i))
      fun _ _ => True := by
  unfold bindArgument
  split
  · exact bindReference_takes line callee param argument s
  · exact ends_bind_of_forall fun v t => bindValue_takes line callee param v t

/-- Every argument is bound to a binding of the type of its parameter. -/
def Typed (params : List Param) (bindings : List BindingId) (m : Memory) : Prop :=
  ∀ pair ∈ params.zip bindings, pair.2 < m.bindings.size ∧ pair.1.Takes (m.declared? pair.2)

theorem bindArguments_typed (enters : EnterConducts P ctx enter) (line : Nat) (callee : String) (params : List Param)
    (es : List Expr) (ready : s.Ready P ctx) (obey : ∀ e ∈ es, e.Obeys P)
    (passed : ∀ pair ∈ params.zip es, pair.1.mode = .byReference → pair.2.isName = true ∨ ctx.Misfit P) :
    Conducts P ctx s (bindArguments ctx enter line callee params es) (fun is t => Typed params is t.memory) := by
  induction params generalizing es s with
  | nil =>
    rw [bindArguments]
    · exact conducts_pure ready (List.forall_mem_nil _)
    · rintro _ _ _ _ ⟨⟩
  | cons param params ih =>
    cases es with
    | nil =>
      rw [bindArguments]
      · exact conducts_pure ready (List.forall_mem_nil _)
      · rintro _ _ _ _ - ⟨⟩
    | cons e rest =>
      rw [bindArguments]
      have first := bindArgument_conducts ready line callee param (passed (param, e) (.head _))
        (eval_conducts enters e ready (obey e (.head _)))
      refine (first.and_ends (bindArgument_takes ..)).bind fun i t _ _ readyT known => ?_
      refine (ih rest readyT (fun e member => obey e (.tail _ member)) fun pair member =>
        passed pair (.tail _ member)).bind fun is u later _ readyU others => conducts_pure readyU ?_
      refine List.forall_mem_cons.mpr ⟨⟨Nat.lt_of_lt_of_le known.1 later.memory.grows.bindings, ?_⟩, others⟩
      rw [later.memory.grows.declared? known.1]
      exact known.2

end Run

namespace Activity

variable {P : Policy} {ctx : RunContext} {a b : Activity}

/-- The frame of a call has names of parameters alone, for bindings of their types. -/
theorem Leads.called_typed {asValue : Bool} {line : Nat} {callee : String} {arguments : List Expr}
    {r : Routine Stmt} (routines : ∀ r ∈ ctx.routines, ∀ stmt ∈ r.body, stmt.Obeys P) (leads : Leads ctx a b)
    (sound : a.Sound P ctx) (inside : a.Inside) (task : a.task = .call asValue line callee arguments) (calls : b.calls = r :: a.calls) :
    ctx.routine? callee = some r ∧ ∃ frame, b.state.env = frame :: Memory.globals ∧
      ∀ name i, b.state.memory.findIn frame name = some i →
        ∃ param ∈ r.params, param.name = name ∧ param.Takes (b.state.memory.declared? i) := by
  obtain ⟨found, bindings, s, frame, t, bound, opened, rfl⟩ := leads.called task calls
  refine ⟨found, frame, rfl, fun name i named => ?_⟩
  have obeys := sound.obeys
  rw [task] at obeys
  have passed := Parts.references_named obeys.1 found
  have binds := Run.bindArguments_typed (Parts.enterAt_conducts routines a.calls) line callee r.params arguments
    sound.ready obeys.2 passed
  obtain ⟨later, env, ready, typed⟩ := binds.of_ok bound
  have framed : ∀ f ∈ s.env, f < s.memory.frames.size := fun f member =>
    Nat.lt_of_lt_of_le (inside f (.tail _ (env ▸ member))) later.memory.grows.frames
  have confined : Run.Confines (fun _ _ => False) (fun _ => False) s (Run.openFrame r.params bindings) _ :=
    Run.openFrame_confines framed r.params bindings
  obtain ⟨here, made⟩ := confined.of_ok opened
  obtain ⟨param, paired, rfl⟩ := made.named name i named
  obtain ⟨old, takes⟩ := typed (param, i) paired
  refine ⟨param, (List.of_mem_zip paired).1, rfl, ?_⟩
  rw [show t.memory.declared? i = s.memory.declared? i from here.memory.types i old]
  exact takes

end Activity

end Pseudocode
