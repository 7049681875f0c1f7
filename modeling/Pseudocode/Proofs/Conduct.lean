import Pseudocode.Proofs.Returns
import Pseudocode.Proofs.Store

/-! What can be said of every computation that a run is made of. It changes the memory only by the
steps of `Memory.Step`, comes back to the environment it started in, and never counts a step beyond
the limit but the one that stops the run; and it fails only for reasons that are due: a fault that a
check of the program is meant to rule out blames a call or a declaration that the policy permits. -/
namespace Pseudocode

/-- No array is an element of an array. -/
def Memory.Flat (m : Memory) : Prop :=
  ∀ (i : ArrayId) (cell), m.arrays[i]? = some cell → ∀ v ∈ cell.elements, v.type ≠ .array

namespace RunFault

/-- Faults of a call that has not yet entered its callee. -/
def isCallFault : RunFault → Bool
  | .undefinedFunction _ | .procedureAsValue _ | .argumentCount .. | .referenceArgument ..
  | .builtin (.argumentCount ..) => true
  | _ => false

def isArrayFault : RunFault → Bool
  | .arrayTooLarge .. => true
  | _ => false

/-- The function that ended without a RETURN, if that is the fault. -/
def endedFunction? : RunFault → Option String
  | .missingReturn name => some name
  | _ => none

end RunFault

namespace Stop

def isStepLimit : Stop → Bool
  | .fault _ .stepLimit => true
  | _ => false

def isCallFault : Stop → Bool
  | .fault _ cause => cause.isCallFault
  | _ => false

def isArrayFault : Stop → Bool
  | .fault _ cause => cause.isArrayFault
  | _ => false

def endedFunction? : Stop → Option String
  | .fault _ cause => cause.endedFunction?
  | _ => none

/-- Nothing has to be shown for such a stop but that the run was within its limits. -/
def isPlain (e : Stop) : Bool :=
  !e.isStepLimit && !e.isCallFault && !e.isArrayFault && e != .endless && e.endedFunction?.isNone

end Stop

/-- A value that a statement gives back exists. -/
def Completion.Lives (m : Memory) (c : Completion) : Prop :=
  ∀ v line, c = .returned v line → v.Lives m

section

variable (P : Policy) (ctx : RunContext)

/-- A state in which execution can go on. -/
structure RunState.Ready (s : RunState) : Prop where
  memory : s.memory.Sound P ctx.settings.limits.maxArrayElements
  opens : s.memory.Opens s.env
  steps : s.steps ≤ ctx.settings.limits.maxSteps

/-- A later state of the same run. -/
structure RunState.Later (s t : RunState) : Prop where
  memory : Memory.Steps P ctx.settings.limits.maxArrayElements s.memory t.memory
  steps : s.steps ≤ t.steps

/-- A stop that is due in the state it leaves behind. -/
structure Stop.Due (e : Stop) (t : RunState) : Prop where
  memory : t.memory.Sound P ctx.settings.limits.maxArrayElements
  steps : t.steps ≤ ctx.settings.limits.maxSteps + 1
  limit : e.isStepLimit = true ↔ t.steps = ctx.settings.limits.maxSteps + 1
  call : e.isCallFault = true → ctx.Misfit P
  array : e.isArrayFault = true → ∃ bounds elementType,
    P.array bounds elementType ∧ ctx.settings.limits.maxArrayElements < ArrayCell.elementCount bounds
  endless : e = .endless → ¬t.memory.Flat
  ended : ∀ name ∈ e.endedFunction?, ∃ r, ctx.routine? name = some r ∧ r.kind = .function ∧
    blockTerminates r.body = false

/-- Started in `s`, the computation ends in a later state and the same environment, with a result as
described or a stop that is due. -/
def Run.Conducts (s : RunState) (m : Run α) (result : α → RunState → Prop) : Prop :=
  Ends m s (fun a t => s.Later P ctx t ∧ t.env = s.env ∧ t.Ready P ctx ∧ result a t)
    (fun e t => s.Later P ctx t ∧ t.env = s.env ∧ e.Due P ctx t)

end

variable {P : Policy} {ctx : RunContext} {s t u : RunState} {v : Value} {e : Stop} {α β : Type}

theorem RunState.Later.refl (s : RunState) : s.Later P ctx s := ⟨.refl, Nat.le_refl _⟩

theorem RunState.Later.trans (first : s.Later P ctx t) (second : t.Later P ctx u) :
    s.Later P ctx u :=
  ⟨first.memory.trans second.memory, Nat.le_trans first.steps second.steps⟩

theorem RunState.Later.lives (later : s.Later P ctx t) (lives : v.Lives s.memory) :
    v.Lives t.memory :=
  later.memory.grows.lives lives

/-- A frame stays where it is, so names can still be defined in an environment later. -/
theorem RunState.Later.opens {env : Environment} (later : s.Later P ctx t)
    (opens : s.memory.Opens env) : t.memory.Opens env :=
  later.memory.grows.opens opens

theorem RunState.Ready.below (ready : s.Ready P ctx) : s.steps ≠ ctx.settings.limits.maxSteps + 1 :=
  Nat.ne_of_lt (Nat.lt_succ_of_le ready.steps)

theorem Stop.due_plain (ready : s.Ready P ctx) (plain : e.isPlain = true) : e.Due P ctx s := by
  simp only [isPlain, Bool.and_eq_true, Bool.not_eq_true', bne_iff_ne, Option.isNone_iff_eq_none] at plain
  obtain ⟨⟨⟨⟨limit, call⟩, array⟩, endless⟩, ended⟩ := plain
  refine ⟨ready.memory, Nat.le_succ_of_le ready.steps, ?_, by simp [call], by simp [array],
    fun same => absurd same endless, by simp [ended]⟩
  exact iff_of_false (by simp [limit]) ready.below

theorem Stop.due_endless (ready : s.Ready P ctx) (nested : ¬s.memory.Flat) :
    Stop.Due P ctx .endless s where
  memory := ready.memory
  steps := Nat.le_succ_of_le ready.steps
  limit := iff_of_false Bool.false_ne_true ready.below
  call := nofun
  array := nofun
  endless _ := nested
  ended := nofun

/-- The step limit is due at the first step beyond it. -/
theorem Stop.due_stepLimit (sound : s.memory.Sound P ctx.settings.limits.maxArrayElements)
    (last : s.steps = ctx.settings.limits.maxSteps + 1) :
    Stop.Due P ctx (.fault line .stepLimit) s where
  memory := sound
  steps := Nat.le_of_eq last
  limit := iff_of_true rfl last
  call := nofun
  array := nofun
  endless := nofun
  ended := nofun

/-- The fault of an array is due where the policy permits one of more elements than may be. -/
theorem Stop.due_arrayTooLarge (ready : s.Ready P ctx) (permitted : P.array bounds elementType)
    (large : ctx.settings.limits.maxArrayElements < ArrayCell.elementCount bounds) :
    Stop.Due P ctx (.fault line (.arrayTooLarge name count limit)) s where
  memory := ready.memory
  steps := Nat.le_succ_of_le ready.steps
  limit := iff_of_false Bool.false_ne_true ready.below
  call := nofun
  array _ := ⟨bounds, elementType, permitted, large⟩
  endless := nofun
  ended := nofun

/-- The fault of a function is due that does not end every path in RETURN. -/
theorem Stop.due_ended (ready : s.Ready P ctx) (found : ctx.routine? name = some r)
    (function : r.kind = .function) (ends : blockTerminates r.body = false) :
    Stop.Due P ctx (.fault line (.missingReturn name)) s where
  memory := ready.memory
  steps := Nat.le_succ_of_le ready.steps
  limit := iff_of_false Bool.false_ne_true ready.below
  call := nofun
  array := nofun
  endless := nofun
  ended _ same := Option.some.inj same ▸ ⟨r, found, function, ends⟩

/-- A fault of a call is due where the policy permits a call that does not fit. -/
theorem Stop.due_call (ready : s.Ready P ctx) (misfit : ctx.Misfit P)
    (blamed : e.isCallFault = true) : e.Due P ctx s := by
  cases e with
  | fault line cause =>
    cases cause with
    | stepLimit | arrayTooLarge | missingReturn => cases blamed
    | _ =>
      exact ⟨ready.memory, Nat.le_succ_of_le ready.steps, iff_of_false Bool.false_ne_true ready.below,
        fun _ => misfit, nofun, nofun, nofun⟩
  | _ => cases blamed

namespace Run

variable {m : Run α} {next : α → Run β} {result : α → RunState → Prop}

theorem conducts_pure (ready : s.Ready P ctx) (known : result a s) :
    Conducts P ctx s (pure a) result :=
  ⟨.refl s, rfl, ready, known⟩

theorem conducts_throw (due : e.Due P ctx s) : Conducts P ctx s (throw e) result :=
  ⟨.refl s, rfl, due⟩

theorem conducts_stop (ready : s.Ready P ctx) (plain : (Stop.fault line fault).isPlain = true) :
    Conducts P ctx s (stop line fault) result :=
  conducts_throw (Stop.due_plain ready plain)

theorem Conducts.of_ok (conducts : Conducts P ctx s m result) (returned : m s = .ok a t) :
    s.Later P ctx t ∧ t.env = s.env ∧ t.Ready P ctx ∧ result a t := by
  simpa only [Conducts, Ends, returned] using conducts

theorem Conducts.of_error (conducts : Conducts P ctx s m result) (failed : m s = .error e t) :
    s.Later P ctx t ∧ t.env = s.env ∧ e.Due P ctx t := by
  simpa only [Conducts, Ends, failed] using conducts

theorem conducts_get {f : RunState → Run α} (conducts : Conducts P ctx s (f s) result) :
    Conducts P ctx s (get >>= f) result := conducts

theorem Conducts.bind {resultNext : β → RunState → Prop} (first : Conducts P ctx s m result)
    (rest : ∀ a t, s.Later P ctx t → t.env = s.env → t.Ready P ctx → result a t →
      Conducts P ctx t (next a) resultNext) :
    Conducts P ctx s (m >>= next) resultNext := by
  unfold Conducts at *
  rw [ends_bind]
  refine first.mono (fun a t ⟨later, env, ready, known⟩ => ?_) fun _ _ failed => failed
  exact (rest a t later env ready known).mono
    (fun b u ⟨later', env', ready, known⟩ => ⟨later.trans later', env'.trans env, ready, known⟩)
    (fun e u ⟨later', env', due⟩ => ⟨later.trans later', env'.trans env, due⟩)

theorem Conducts.weaken {weaker : α → RunState → Prop} (conducts : Conducts P ctx s m result)
    (weakens : ∀ a t, s.Later P ctx t → result a t → weaker a t) : Conducts P ctx s m weaker :=
  conducts.mono (fun a t ⟨later, env, ready, known⟩ => ⟨later, env, ready, weakens a t later known⟩)
    fun _ _ failed => failed

/-- What else is known of the result. -/
theorem Conducts.and_ends {more : α → RunState → Prop} (conducts : Conducts P ctx s m result)
    (ends : Ends m s more (fun _ _ => True)) :
    Conducts P ctx s m (fun a t => result a t ∧ more a t) :=
  ends_iff.mpr ⟨fun _ _ returned =>
    have ⟨later, env, ready, known⟩ := conducts.of_ok returned
    ⟨later, env, ready, known, ends.of_ok returned⟩, fun _ _ failed => conducts.of_error failed⟩

theorem Conducts.discard (conducts : Conducts P ctx s m result) :
    Conducts P ctx s (discard m) (fun _ _ => True) := by
  unfold Conducts at *
  rw [ends_discard]
  exact conducts.mono (fun _ _ ⟨later, env, ready, _⟩ => ⟨later, env, ready, trivial⟩)
    fun _ _ failed => failed

end Run

end Pseudocode
