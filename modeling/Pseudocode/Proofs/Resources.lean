import Pseudocode.Proofs.Shown
import Pseudocode.Run.Statement

/-! Two runs of which the second has more to use up: more steps, more calls, larger arrays and texts,
and further inputs behind those of the first. `Outlasts more m m'` says of a piece of both runs that
they agree as long as the first is not short of anything, and that nothing the second puts out is ever
taken back, so the output of a run that had to stop is where the output of the other begins. -/
namespace Pseudocode

/-- The first settings allow at most what the second allow, and agree with them in all else. -/
structure Settings.Within (a b : Settings) : Prop where
  steps : a.limits.maxSteps ≤ b.limits.maxSteps
  calls : a.limits.maxCallDepth ≤ b.limits.maxCallDepth
  elements : a.limits.maxArrayElements ≤ b.limits.maxArrayElements
  length : a.limits.maxStringLength ≤ b.limits.maxStringLength
  inputs : a.inputs <+: b.inputs
  timeout : a.limits.timeoutMs = b.limits.timeoutMs
  outputs : a.limits.maxOutputEvents = b.limits.maxOutputEvents
  separator : a.outputSeparator = b.outputSeparator
  seed : a.randomSeed = b.randomSeed

/-- The host never stops a run: the time limit is not reached and nobody cancels. -/
structure Host.Idle (host : Host) (settings : Settings) : Prop where
  inTime : ∀ step, host.elapsedMs step ≤ settings.limits.timeoutMs
  goesOn : ∀ step, host.isCancelled step = false

/-- Two contexts of the same program, the second with more resources. -/
structure RunContext.Within (ctx ctx' : RunContext) : Prop where
  settings : ctx.settings.Within ctx'.settings
  routines : ctx.routines = ctx'.routines
  idle : ctx.host.Idle ctx.settings
  idle' : ctx'.host.Idle ctx'.settings

/-- A stop for lack of steps, calls, room or input. -/
def Stop.isShortage : Stop → Bool
  | .fault _ .stepLimit | .fault _ .stackOverflow | .fault _ (.arrayTooLarge ..)
  | .fault _ (.textTooLong _) | .fault _ .noInput => true
  | _ => false

/-- The state with further inputs behind its own. -/
def RunState.supplied (more : List String) (s : RunState) : RunState :=
  { s with inputs := s.inputs ++ more }

namespace Run

variable {α β : Type}

/-- However the computation ends, the state it leaves is as described. -/
def Leaves (m : Run α) (s : RunState) (left : RunState → Prop) : Prop :=
  Ends m s (fun _ t => left t) (fun _ t => left t)

/-- What has been put out stays. -/
def Keeps (m : Run α) : Prop := ∀ s, Leaves m s fun t => s.outputs.toList <+: t.outputs.toList

/-- The second computation does what the first does, given further inputs, unless the first is short
of something; then it puts out at least as much. -/
structure Outlasts (more : List String) (m m' : Run α) : Prop where
  keeps : Keeps m'
  agrees : ∀ s, Ends m s
    (fun a t => m' (s.supplied more) = .ok a (t.supplied more))
    (fun e t => m' (s.supplied more) = .error e (t.supplied more) ∨
      e.isShortage = true ∧
        Leaves m' (s.supplied more) fun u => t.outputs.toList <+: u.outputs.toList)

variable {more : List String} {m m' : Run α} {s t : RunState}

section Laws

theorem get_bind (f : RunState → Run α) (s : RunState) : (get >>= f) s = f s s := rfl

theorem keeps_pure (a : α) : Keeps (pure a : Run α) := fun _ => List.prefix_rfl

theorem keeps_throw (e : Stop) : Keeps (throw e : Run α) := fun _ => List.prefix_rfl

theorem Keeps.bind {next : α → Run β} (first : Keeps m) (rest : ∀ a, Keeps (next a)) :
    Keeps (m >>= next) := by
  intro s
  unfold Leaves
  rw [ends_bind]
  refine (first s).mono (fun a t before => ?_) fun _ _ before => before
  exact (rest a t).mono (fun _ _ after => before.trans after) fun _ _ after => before.trans after

theorem outlasts_pure (a : α) : Outlasts more (pure a) (pure a) := ⟨keeps_pure a, fun _ => rfl⟩

theorem outlasts_throw (e : Stop) : Outlasts more (throw e : Run α) (throw e) :=
  ⟨keeps_throw e, fun _ => .inl rfl⟩

/-- A run that is short of something stops where it is, and the other goes on. -/
theorem outlasts_shortage {e : Stop} (short : e.isShortage = true) (keeps : Keeps m') :
    Outlasts more (throw e) m' :=
  ⟨keeps, fun s => .inr ⟨short, keeps (s.supplied more)⟩⟩

theorem Outlasts.bind {next next' : α → Run β} (first : Outlasts more m m')
    (rest : ∀ a, Outlasts more (next a) (next' a)) :
    Outlasts more (m >>= next) (m' >>= next') := by
  refine ⟨first.keeps.bind fun a => (rest a).keeps, fun s => ?_⟩
  rw [ends_bind]
  refine (first.agrees s).mono (fun a t ran => ?_) fun e t failed => ?_
  · have same : (m' >>= next') (s.supplied more) = next' a (t.supplied more) := bind_of_ok ran
    simp only [Leaves, Ends, same]
    exact (rest a).agrees t
  · obtain failed | ⟨short, left⟩ := failed
    · exact .inl (bind_of_error failed)
    · refine .inr ⟨short, ?_⟩
      unfold Leaves at *
      rw [ends_bind]
      refine left.mono (fun b u before => ?_) fun _ _ before => before
      exact ((rest b).keeps u).mono (fun _ _ after => before.trans after)
        fun _ _ after => before.trans after

theorem discard_eq_bind (m : Run α) : discard m = m >>= fun _ => pure () := by
  rw [discard, bind_pure_comp]
  rfl

theorem Outlasts.discard (first : Outlasts more m m') :
    Outlasts more (discard m) (discard m') := by
  rw [discard_eq_bind, discard_eq_bind]
  exact first.bind fun _ => outlasts_pure ()

/-- A computation that neither puts out nor reads anything does the same whatever the inputs are. -/
def Steady (m : Run α) : Prop :=
  ∀ s, Ends m s
    (fun a t => t.outputs = s.outputs ∧ ∀ inputs, m { s with inputs } = .ok a { t with inputs } ∧
      t.inputs = s.inputs)
    (fun e t => t.outputs = s.outputs ∧ ∀ inputs, m { s with inputs } = .error e { t with inputs } ∧
      t.inputs = s.inputs)

theorem Steady.keeps (steady : Steady m) : Keeps m := fun s =>
  (steady s).mono (fun _ _ ⟨same, _⟩ => same ▸ List.prefix_rfl)
    fun _ _ ⟨same, _⟩ => same ▸ List.prefix_rfl

theorem Steady.outlasts (steady : Steady m) : Outlasts more m m where
  keeps := steady.keeps
  agrees s := by
    refine (steady s).mono (fun a t ⟨_, again⟩ => ?_) fun e t ⟨_, again⟩ => .inl ?_
    · obtain ⟨ran, same⟩ := again (s.inputs ++ more)
      rw [RunState.supplied, RunState.supplied, ran, same]
    · obtain ⟨failed, same⟩ := again (s.inputs ++ more)
      rw [RunState.supplied, RunState.supplied, failed, same]

theorem steady_pure (a : α) : Steady (pure a : Run α) := fun _ => ⟨rfl, fun _ => ⟨rfl, rfl⟩⟩

theorem steady_throw (e : Stop) : Steady (throw e : Run α) := fun _ => ⟨rfl, fun _ => ⟨rfl, rfl⟩⟩

/-- Nothing that follows a failure is done. -/
theorem steady_throw_bind (e : Stop) (next : α → Run β) : Steady ((throw e : Run α) >>= next) :=
  fun _ => ⟨rfl, fun _ => ⟨rfl, rfl⟩⟩

theorem steady_stop (line : Nat) (fault : RunFault) : Steady (stop line fault : Run α) :=
  steady_throw _

theorem Steady.bind {next : α → Run β} (first : Steady m) (rest : ∀ a, Steady (next a)) :
    Steady (m >>= next) := by
  intro s
  rw [ends_bind]
  refine (first s).mono (fun a t ⟨outputs, again⟩ => ?_) fun e t ⟨outputs, again⟩ => ?_
  · refine (rest a t).mono (fun b u ⟨outputs', again'⟩ => ?_) fun e u ⟨outputs', again'⟩ => ?_
    · refine ⟨outputs'.trans outputs, fun inputs => ⟨?_, ?_⟩⟩
      · rw [bind_of_ok (again inputs).1, (again' inputs).1]
      · exact (again' inputs).2.trans (again inputs).2
    · refine ⟨outputs'.trans outputs, fun inputs => ⟨?_, ?_⟩⟩
      · rw [bind_of_ok (again inputs).1, (again' inputs).1]
      · exact (again' inputs).2.trans (again inputs).2
  · exact ⟨outputs, fun inputs => ⟨bind_of_error (again inputs).1, (again inputs).2⟩⟩

/-- Looking at the state without its inputs. -/
theorem steady_get {f : RunState → Run α} (blind : ∀ s inputs, f { s with inputs } = f s)
    (each : ∀ s, Steady (f s)) : Steady (get >>= f) := by
  intro s
  show Ends (f s) s _ _
  refine (each s s).mono (fun a t ⟨outputs, again⟩ => ⟨outputs, fun inputs => ⟨?_, (again inputs).2⟩⟩)
    fun e t ⟨outputs, again⟩ => ⟨outputs, fun inputs => ⟨?_, (again inputs).2⟩⟩
  · show f { s with inputs } { s with inputs } = _
    rw [blind, (again inputs).1]
  · show f { s with inputs } { s with inputs } = _
    rw [blind, (again inputs).1]

theorem steady_withMemory (change : Memory → α × Memory) : Steady (withMemory change) :=
  fun _ => ⟨rfl, fun _ => ⟨rfl, rfl⟩⟩

/-- A test that both runs make in the same state. -/
theorem outlasts_get {f f' : RunState → Run α} (keeps : ∀ s, Keeps (f' s))
    (each : ∀ s, Outlasts more (f s) (f' (s.supplied more))) :
    Outlasts more (get >>= f) (get >>= f') :=
  ⟨fun s => keeps s s, fun s => (each s).agrees s⟩

/-- Stops for other reasons than the computation does. -/
def relabel (f : Stop → Stop) (m : Run α) : Run α := fun s =>
  match m s with
  | .ok a t => .ok a t
  | .error e t => .error (f e) t

theorem ends_relabel {f : Stop → Stop} {good : α → RunState → Prop} {bad : Stop → RunState → Prop} :
    Ends (relabel f m) s good bad ↔ Ends m s good (fun e t => bad (f e) t) := by
  unfold Ends relabel
  cases m s <;> rfl

theorem Outlasts.relabel {f : Stop → Stop} (inner : Outlasts more m m')
    (short : ∀ e, e.isShortage = true → (f e).isShortage = true) :
    Outlasts more (relabel f m) (relabel f m') := by
  refine ⟨fun s => ends_relabel.mpr (inner.keeps s), fun s => ?_⟩
  rw [ends_relabel]
  refine (inner.agrees s).mono (fun a t ran => ?_) fun e t failed => ?_
  · simp only [Run.relabel, ran]
  · refine failed.imp (fun failed => ?_) fun ⟨shortage, left⟩ => ⟨short e shortage, ?_⟩
    · simp only [Run.relabel, failed]
    · exact ends_relabel.mpr left

end Laws

/-! What neither puts out nor reads anything and asks for no limit. -/

section Unlimited

theorem findBinding_steady (name : String) : Steady (findBinding name) :=
  steady_get (fun _ _ => rfl) fun _ => steady_pure _

theorem lookup_steady (name : String) : Steady (lookup name) :=
  steady_get (fun _ _ => rfl) fun _ => steady_pure _

theorem define_steady (name : String) (binding : Binding) : Steady (define name binding) :=
  steady_get (fun _ _ => rfl) fun _ => steady_withMemory _

theorem Steady.discard (steady : Steady m) : Steady (discard m) := by
  rw [discard_eq_bind]
  exact steady.bind fun _ => steady_pure ()

theorem storeFailed_steady (line : Nat) (report : StoreFault → RunFault) (fault : StoreFault) :
    Steady (storeFailed line report fault : Run α) := by
  cases fault <;> exact steady_throw _

theorem arrayNamed_steady (line : Nat) (name : String) : Steady (arrayNamed line name) := by
  refine (lookup_steady name).bind fun found => ?_
  split
  · exact steady_stop _ _
  · split
    · exact steady_pure _
    · exact steady_stop _ _

theorem assign_steady (line : Nat) (name : String) (value : Value) :
    Steady (assign line name value) := by
  refine steady_get (fun _ _ => rfl) fun s => (steady_withMemory _).bind fun answer => ?_
  split
  · exact steady_pure _
  · exact storeFailed_steady _ _ _

theorem assignElement_steady (line : Nat) (id : ArrayId) (indices : List Int) (value : Value) :
    Steady (assignElement line id indices value) := by
  refine (steady_withMemory _).bind fun failed => ?_
  split
  · exact steady_pure _
  · exact storeFailed_steady _ _ _

theorem liftNumber_steady (line : Nat) (answer : Except NumberFault Number) :
    Steady (liftNumber line answer) := by
  cases answer with
  | ok n => exact steady_pure _
  | error fault => exact steady_throw _

theorem truth_steady (op : String) (line : Nat) (value : Value) : Steady (truth op line value) := by
  unfold truth
  split
  · exact steady_pure _
  · exact steady_stop _ _

theorem unary_steady (line : Nat) (op : UnaryOp) (value : Value) : Steady (unary line op value) := by
  unfold unary
  split
  · split
    · exact steady_pure _
    · exact steady_stop _ _
  · exact (truth_steady _ _ _).bind fun _ => steady_pure _
  · exact steady_throw _

theorem nameValue_steady (ctx : RunContext) (line : Nat) (name : String) :
    Steady (nameValue ctx line name) := by
  refine (lookup_steady name).bind fun found => ?_
  split
  · exact steady_pure _
  · split
    · exact steady_stop _ _
    · exact steady_stop _ _

theorem indexValue_steady (line : Nat) (value : Value) : Steady (indexValue line value) := by
  unfold indexValue
  split
  · exact steady_pure _
  · exact steady_stop _ _

theorem elementValue_steady (line : Nat) (id : ArrayId) (indices : List Int) :
    Steady (elementValue line id indices) := by
  refine steady_get (fun _ _ => rfl) fun s => ?_
  dsimp only
  split
  · exact steady_pure _
  · exact storeFailed_steady _ _ _
  · exact steady_pure _

theorem storeFresh_steady (line : Nat) (declared : Option DataType) (value : Value)
    (report : StoreFault → RunFault) : Steady (storeFresh line declared value report) := by
  refine steady_get (fun _ _ => rfl) fun s => ?_
  split
  · exact steady_withMemory _
  · exact storeFailed_steady _ _ _

theorem bindReference_steady (line : Nat) (callee : String) (param : Param) (argument : Expr) :
    Steady (bindReference line callee param argument) := by
  unfold bindReference
  split
  · refine (findBinding_steady _).bind fun found => ?_
    split
    · exact steady_stop _ _
    · refine steady_get (fun _ _ => rfl) fun s => ?_
      split
      · split
        · exact steady_pure _
        · exact steady_stop _ _
      · exact steady_pure _
  · exact steady_stop _ _

theorem checkArrayArgument_steady (line : Nat) (callee : String) (param : Param) (value : Value) :
    Steady (checkArrayArgument line callee param value) := by
  unfold checkArrayArgument
  split
  · exact steady_pure _
  · refine steady_get (fun _ _ => rfl) fun s => ?_
    dsimp only
    split
    · split
      · exact steady_pure _
      · exact steady_stop _ _
    · exact steady_throw _
    · exact steady_pure _
  · exact steady_stop _ _

theorem bindValue_steady (line : Nat) (callee : String) (param : Param) (value : Value) :
    Steady (bindValue line callee param value) := by
  unfold bindValue
  split
  · exact (checkArrayArgument_steady _ _ _ _).bind fun _ => steady_withMemory _
  · exact storeFresh_steady _ _ _ _

theorem callBuiltin_steady (line : Nat) (name : String) (arguments : List Value) :
    Steady (callBuiltin line name arguments) := by
  refine Steady.bind (fun _ => ⟨rfl, fun _ => ⟨rfl, rfl⟩⟩) fun answer => ?_
  split
  · exact steady_pure _
  · exact steady_throw _
  · exact steady_stop _ _

theorem resultOf_steady (line : Nat) (r : Routine Stmt) (name : String) (c : Completion) :
    Steady (resultOf line r name c) := by
  unfold resultOf
  dsimp only
  split
  · exact steady_pure _
  · exact steady_stop _ _
  · refine steady_get (fun _ _ => rfl) fun s => ?_
    split
    · exact steady_pure _
    · exact storeFailed_steady _ _ _

theorem conditionValue_steady (keyword : Keyword) (line : Nat) (value : Value) :
    Steady (conditionValue keyword line value) := by
  unfold conditionValue
  split
  · exact steady_pure _
  · exact steady_stop _ _

theorem declareVariable_steady (name typeName : String) : Steady (declareVariable name typeName) :=
  (define_steady _ _).discard

theorem defineConstant_steady (name : String) (value : Value) :
    Steady (defineConstant name value) :=
  (steady_withMemory _).bind fun _ => (define_steady _ _).discard

theorem inputType_steady (line : Nat) (target : Target) : Steady (inputType line target) := by
  unfold inputType
  split
  · exact (lookup_steady _).bind fun _ => steady_pure _
  · exact (arrayNamed_steady _ _).bind fun _ =>
      steady_get (fun _ _ => rfl) fun _ => steady_pure _
  · exact steady_throw _

theorem forBound_steady (line : Nat) (part : ForPart) (value : Value) :
    Steady (forBound line part value) := by
  unfold forBound
  split
  · exact steady_pure _
  · exact steady_stop _ _

theorem counterValue_steady (counter : BindingId) : Steady (counterValue counter) :=
  steady_get (fun _ _ => rfl) fun _ => steady_pure _

theorem advance_steady (line : Nat) (counter : BindingId) (step : Number) :
    Steady (advance line counter step) := by
  refine (counterValue_steady counter).bind fun value => ?_
  split
  · exact steady_throw _
  · split
    · exact steady_throw _
    · refine steady_get (fun _ _ => rfl) fun s => ?_
      dsimp only
      split
      · exact steady_pure _
      · split
        · exact steady_withMemory _
        · exact storeFailed_steady _ _ _

theorem openCounter_steady (line : Nat) (counter : Option String) (start step : Number) :
    Steady (openCounter line counter start step) := by
  unfold openCounter
  dsimp only
  split
  · exact steady_throw_bind _ _
  · split
    · exact storeFailed_steady _ _ _
    · refine (steady_withMemory _).bind fun frame => (steady_withMemory _).bind fun id => ?_
      split
      · exact steady_pure _
      · exact (steady_withMemory _).bind fun _ => steady_pure _

theorem bindParams_steady (frame : FrameId) (params : List Param) (bindings : List BindingId) :
    Steady (bindParams frame params bindings) := by
  induction params generalizing bindings with
  | nil => exact steady_pure _
  | cons param params ih =>
    cases bindings with
    | nil => exact steady_pure _
    | cons id rest => exact (steady_withMemory _).bind fun _ => ih rest

theorem openFrame_steady (params : List Param) (bindings : List BindingId) :
    Steady (openFrame params bindings) :=
  (steady_withMemory _).bind fun _ => (bindParams_steady _ _ _).bind fun _ => steady_pure _

end Unlimited

end Run

namespace Memory

variable {limit limit' : Nat}

/-- A higher limit changes the texts of some elements only if one is too long for the lower. -/
theorem partsWithin_raised (higher : limit ≤ limit') {render render' : Value → Except ShowFault String}
    (each : ∀ v, render v = .error .tooLong ∨ render' v = render v) (length : Nat)
    (values : List Value) :
    partsWithin limit render length values = .error .tooLong ∨
      partsWithin limit' render' length values = partsWithin limit render length values := by
  induction values generalizing length with
  | nil => exact .inr rfl
  | cons v rest ih =>
    unfold partsWithin
    obtain long | same := each v
    · exact .inl (by rw [long]; rfl)
    · rw [same]
      cases render v with
      | error fault => exact .inr rfl
      | ok part =>
        by_cases fits : length + part.length + 2 > limit
        · exact .inl (by simp only [Bind.bind, Except.bind, if_pos fits])
        · have fits' : ¬length + part.length + 2 > limit' := by omega
          simp only [Bind.bind, Except.bind, if_neg fits, if_neg fits']
          obtain long | same := ih (length + part.length + 2)
          · exact .inl (by rw [long])
          · exact .inr (by rw [same])

/-- A higher limit changes the text of a value only if it is too long for the lower. -/
theorem textWithin_raised (m : Memory) (higher : limit ≤ limit') (depth : Nat) (v : Value) :
    m.textWithin limit depth v = .error .tooLong ∨
      m.textWithin limit' depth v = m.textWithin limit depth v := by
  induction depth generalizing v with
  | zero =>
    cases held : m.cell? v with
    | none => exact textWithin_raised_plain held
    | some cell =>
      refine .inr ?_
      rw [textWithin.eq_def, textWithin.eq_def m limit]
      simp only [held]
  | succ depth ih =>
    cases held : m.cell? v with
    | none => exact textWithin_raised_plain held
    | some cell =>
      rw [textWithin_array held, textWithin_array held]
      obtain long | same := partsWithin_raised higher ih 2 cell.elements.toList
      · exact .inl (by rw [long]; rfl)
      · exact .inr (by rw [same])
where
  textWithin_raised_plain {depth : Nat} {v : Value} (held : m.cell? v = none) :
      m.textWithin limit depth v = .error .tooLong ∨
        m.textWithin limit' depth v = m.textWithin limit depth v := by
    rw [textWithin.eq_def, textWithin.eq_def m limit']
    simp only [held]
    cases v.scalarText with
    | error fault => exact .inr rfl
    | ok text =>
      by_cases long : text.length > limit
      · exact .inl (if_pos long)
      · exact .inr ((if_neg (by omega)).trans (if_neg long).symm)

end Memory

namespace Run

/-! What is limited. Where the first run is refused something it is short of it. -/

section Limited

variable {α β : Type} {more : List String} {ctx ctx' : RunContext} (within : ctx.Within ctx')

include within

theorem checkLength_outlasts (line length : Nat) :
    Outlasts more (checkLength ctx line length) (checkLength ctx' line length) := by
  have higher := within.settings.length
  unfold checkLength
  dsimp only
  by_cases long : length > ctx.settings.limits.maxStringLength
  · rw [if_pos long]
    refine outlasts_shortage rfl ?_
    split
    · exact keeps_throw _
    · exact keeps_pure _
  · rw [if_neg long, if_neg (by omega)]
    exact outlasts_pure _

omit within in
theorem shown_steady (ctx : RunContext) (line : Nat) (value : Value) :
    Steady (shown ctx line value) := by
  refine steady_get (fun _ _ => rfl) fun s => ?_
  dsimp only
  split
  · exact steady_pure _
  · exact steady_stop _ _
  · exact steady_throw _
  · exact steady_throw _

theorem shown_outlasts (line : Nat) (value : Value) :
    Outlasts more (shown ctx line value) (shown ctx' line value) := by
  have keeps := (shown_steady ctx' line value).keeps
  refine ⟨keeps, fun s => ?_⟩
  have raised := s.memory.textWithin_raised within.settings.length s.memory.arrays.size value
  have next := keeps (s.supplied more)
  unfold shown at next ⊢
  rw [ends_bind, ends_get, get_bind]
  dsimp only [RunState.supplied]
  cases answer : s.memory.textWithin ctx.settings.limits.maxStringLength s.memory.arrays.size value with
  | error fault =>
    cases fault with
    | tooLong => exact .inr ⟨rfl, next⟩
    | noText cause =>
      rw [answer] at raised
      rw [raised.resolve_left nofun]
      cases cause with
      | overflow _ => exact .inl rfl
      | endless => exact .inl rfl
  | ok text =>
    rw [answer] at raised
    rw [raised.resolve_left nofun]
    rfl

theorem joinText_outlasts (line : Nat) (left right : String) :
    Outlasts more (joinText ctx line left right) (joinText ctx' line left right) :=
  (checkLength_outlasts within line _).bind fun _ => outlasts_pure _

theorem arithmetic_outlasts (line : Nat) (op : BinaryOp) (left right : Value) :
    Outlasts more (arithmetic ctx line op left right) (arithmetic ctx' line op left right) := by
  unfold arithmetic
  split
  · exact joinText_outlasts within line _ _
  · refine Steady.outlasts ?_
    split
    · split
      · exact liftNumber_steady _ _
      · exact liftNumber_steady _ _
      · exact liftNumber_steady _ _
      · split
        · exact steady_stop _ _
        · split
          · exact liftNumber_steady _ _
          · exact liftNumber_steady _ _
          · exact liftNumber_steady _ _
          · exact steady_throw _
    · exact steady_stop _ _

omit within in
/-- An overflow while two texts are joined is reported on the line of the operator. -/
theorem join_eq (ctx : RunContext) (line : Nat) (left right : Value) :
    join ctx line left right = relabel
      (fun | .overflow => .fault line .overflow | e => e)
      (do joinText ctx line (← shown ctx line left) (← shown ctx line right)) := by
  funext s
  unfold join relabel
  dsimp only
  split
  next failed => rw [failed]
  next other =>
    split
    next ran => rw [ran]
    next e t failed =>
      rw [failed]
      cases e with
      | overflow => exact absurd failed (other t)
      | _ => rfl

theorem join_outlasts (line : Nat) (left right : Value) :
    Outlasts more (join ctx line left right) (join ctx' line left right) := by
  rw [join_eq, join_eq]
  refine Outlasts.relabel ?_ fun e short => ?_
  · exact (shown_outlasts within line left).bind fun s =>
      (shown_outlasts within line right).bind fun t => joinText_outlasts within line s t
  · cases e with
    | overflow => cases short
    | _ => exact short

theorem binary_outlasts (line : Nat) (op : BinaryOp) (left right : Value) :
    Outlasts more (binary ctx line op left right) (binary ctx' line op left right) := by
  unfold binary
  split
  · split
    · exact outlasts_pure _
    · exact outlasts_throw _
  · split
    · exact join_outlasts within line left right
    · exact arithmetic_outlasts within line op left right

theorem tick_outlasts (line : Nat) : Outlasts more (tick ctx line) (tick ctx' line) := by
  have higher := within.settings.steps
  have counts : Steady (modify fun s : RunState => { s with steps := s.steps + 1 }) :=
    fun _ => ⟨rfl, fun _ => ⟨rfl, rfl⟩⟩
  have limited (ctx : RunContext) (idle : ctx.host.Idle ctx.settings) (step : Nat) :
      (if step > ctx.settings.limits.maxSteps then stop line .stepLimit
      else if ctx.host.elapsedMs step > ctx.settings.limits.timeoutMs then stop line .timeout
      else if ctx.host.isCancelled step then stop line .cancelled
      else pure () : Run Unit) =
        if step > ctx.settings.limits.maxSteps then stop line .stepLimit else pure () := by
    rw [if_neg (Nat.not_lt.mpr (idle.inTime step)), idle.goesOn step]
    rfl
  refine counts.outlasts.bind fun _ => outlasts_get (fun s => ?_) fun s => ?_
  · dsimp only
    rw [limited ctx' within.idle' s.steps]
    split
    · exact keeps_throw _
    · exact keeps_pure _
  · dsimp only [RunState.supplied]
    rw [limited ctx within.idle, limited ctx' within.idle']
    by_cases beyond : s.steps > ctx.settings.limits.maxSteps
    · rw [if_pos beyond]
      refine outlasts_shortage rfl ?_
      split
      · exact keeps_throw _
      · exact keeps_pure _
    · rw [if_neg beyond, if_neg (by omega)]
      exact outlasts_pure _

theorem begins_outlasts (stmt : Stmt) : Outlasts more (begins ctx stmt) (begins ctx' stmt) := by
  have moves : Steady (modify fun s : RunState => { s with line := stmt.line }) :=
    fun _ => ⟨rfl, fun _ => ⟨rfl, rfl⟩⟩
  unfold begins
  split
  · exact outlasts_throw _
  · exact moves.outlasts.bind fun _ => tick_outlasts within stmt.line

/-- A loop can come around at least as often in the second run. -/
theorem outlasts_roundsLeft {f f' : Nat → Run α}
    (each : ∀ rounds rounds', rounds ≤ rounds' → Outlasts more (f rounds) (f' rounds')) :
    Outlasts more (roundsLeft ctx >>= f) (roundsLeft ctx' >>= f') := by
  have higher := within.settings.steps
  have later : Outlasts more
      (get >>= fun s => f (ctx.settings.limits.maxSteps + 1 - s.steps))
      (get >>= fun s => f' (ctx'.settings.limits.maxSteps + 1 - s.steps)) := by
    refine outlasts_get (fun s => (each 0 _ (Nat.zero_le _)).keeps) fun s => each _ _ ?_
    dsimp only [RunState.supplied]
    omega
  exact later

theorem declareArray_outlasts (line : Nat) (name : String) (bounds : List Bound)
    (elementType : String) : Outlasts more (declareArray ctx line name bounds elementType)
      (declareArray ctx' line name bounds elementType) := by
  have higher := within.settings.elements
  have declares : Steady (do
      let id ← withMemory (·.addArray (.fresh bounds (DataType.ofName? elementType)))
      discard <| define name ⟨.array id, some .array, false⟩) :=
    (steady_withMemory _).bind fun _ => (define_steady _ _).discard
  unfold declareArray
  dsimp only
  by_cases large : ArrayCell.elementCount bounds > ctx.settings.limits.maxArrayElements
  · rw [if_pos large]
    refine outlasts_shortage rfl ?_
    split
    · exact keeps_throw _
    · exact declares.keeps
  · rw [if_neg large, if_neg (by omega)]
    exact declares.outlasts

theorem emit_outlasts (line : Nat) (text : String) :
    Outlasts more (emit ctx line text) (emit ctx' line text) := by
  have same := within.settings.outputs
  refine ⟨fun s => ?_, fun s => ?_⟩
  · unfold Leaves emit
    rw [ends_modify]
    split
    · exact List.prefix_rfl
    · simp
  · unfold emit
    rw [ends_modify, same]
    show EStateM.Result.ok _ _ = EStateM.Result.ok _ _
    dsimp only [RunState.supplied]
    split <;> rfl

omit within in
theorem takeInput_outlasts (line : Nat) : Outlasts more (takeInput line) (takeInput line) := by
  have keeps : Keeps (takeInput line) := by
    intro s
    unfold Leaves takeInput
    rw [ends_bind, ends_get]
    split
    · exact List.prefix_rfl
    · exact List.prefix_rfl
  refine ⟨keeps, fun s => ?_⟩
  have next := keeps (s.supplied more)
  unfold takeInput at next ⊢
  rw [ends_bind, ends_get]
  cases given : s.inputs with
  | nil => exact .inr ⟨rfl, next⟩
  | cons raw rest =>
    rw [get_bind]
    simp only [RunState.supplied, given]
    rfl

theorem readInput_outlasts (line : Nat) (target : Target) :
    Outlasts more (readInput ctx line target) (readInput ctx' line target) := by
  refine (takeInput_outlasts line).bind fun raw => ?_
  refine (checkLength_outlasts within line _).bind fun _ => ?_
  refine (inputType_steady line target).outlasts.bind fun answer => Steady.outlasts ?_
  dsimp only
  split
  · exact steady_throw_bind _ _
  · split
    · exact steady_pure _
    · exact steady_throw _

end Limited

end Run

end Pseudocode
