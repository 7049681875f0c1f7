import Pseudocode.Proofs.Primitive

/-! The conduct of what a run is put together with: other environments, lines to come back to, and
loops. A loop may come around once for each step that is left. It counts a step each time, so the limit
on steps stops it before its rounds run out. -/
namespace Pseudocode.Run

variable {P : Policy} {ctx : RunContext} {s : RunState} {α : Type}

theorem inEnvironment_conducts (ready : s.Ready P ctx) {env : Environment} {body : Run Completion}
    (inner : Conducts P ctx { s with env } body (fun c t => c.Lives t.memory)) :
    Conducts P ctx s (inEnvironment env body) (fun c t => c.Lives t.memory) := by
  unfold Conducts Ends inEnvironment
  cases ran : body { s with env } with
  | ok a t =>
    obtain ⟨later, -, readyT, lives⟩ := inner.of_ok ran
    exact ⟨⟨later.memory, later.steps⟩, rfl,
      ⟨readyT.memory, later.memory.grows.opens ready.opens, readyT.steps⟩, lives⟩
  | error e t =>
    obtain ⟨later, -, due⟩ := inner.of_error ran
    exact ⟨⟨later.memory, later.steps⟩, rfl, due.memory, due.steps, due.limit, due.call, due.array,
      due.endless, due.ended⟩

theorem thenAtLine_conducts {body : Run Completion}
    (inner : Conducts P ctx s body (fun c t => c.Lives t.memory)) (line : Nat) :
    Conducts P ctx s (thenAtLine line body) (fun c t => c.Lives t.memory) := by
  unfold Conducts Ends thenAtLine
  cases ran : body s with
  | ok a t =>
    obtain ⟨later, env, ready, lives⟩ := inner.of_ok ran
    exact ⟨⟨later.memory, later.steps⟩, env, ⟨ready.memory, ready.opens, ready.steps⟩, lives⟩
  | error e t =>
    obtain ⟨later, env, due⟩ := inner.of_error ran
    exact ⟨⟨later.memory, later.steps⟩, env, due.memory, due.steps, due.limit, due.call, due.array,
      due.endless, due.ended⟩

theorem giveBack_conducts (ready : s.Ready P ctx) (inRoutine : Bool) (line : Nat) {value : Run Value}
    (inner : Conducts P ctx s value (fun v t => v.Lives t.memory)) :
    Conducts P ctx s (giveBack inRoutine line value) (fun c t => c.Lives t.memory) := by
  unfold giveBack
  split
  · refine inner.bind fun v t _ _ ready' lives => conducts_pure ready' ?_
    rintro w _ same
    cases same
    exact lives
  · exact conducts_stop ready rfl

section Loops

variable {line rounds : Nat} {test : Run Bool} {body : Run Completion}

theorem lives_normal (m : Memory) : Completion.Lives m .normal := nofun

/-- What a loop needs of its body in every state it can come to. -/
def BodyConducts (P : Policy) (ctx : RunContext) (s : RunState) (body : Run Completion) : Prop :=
  ∀ t, s.Later P ctx t → t.env = s.env → t.Ready P ctx →
    Conducts P ctx t body (fun c u => c.Lives u.memory)

/-- What a loop needs of its condition in every state it can come to. -/
def TestConducts (P : Policy) (ctx : RunContext) (s : RunState) (test : Run Bool) : Prop :=
  ∀ t, s.Later P ctx t → t.env = s.env → t.Ready P ctx → Conducts P ctx t test (fun _ _ => True)

theorem BodyConducts.later (conducts : BodyConducts P ctx s body) (later : s.Later P ctx t)
    (env : t.env = s.env) : BodyConducts P ctx t body :=
  fun u further same => conducts u (later.trans further) (same.trans env)

theorem TestConducts.later (conducts : TestConducts P ctx s test) (later : s.Later P ctx t)
    (env : t.env = s.env) : TestConducts P ctx t test :=
  fun u further same => conducts u (later.trans further) (same.trans env)

/-- A loop that could still come around as often as there are steps left has not come to its last
round. -/
theorem rounds_positive (ready : s.Ready P ctx)
    (enough : ctx.settings.limits.maxSteps < rounds + s.steps) : rounds ≠ 0 := by
  have within := ready.steps
  omega

theorem conducts_roundsLeft {f : Nat → Run α} {result : α → RunState → Prop}
    (conducts : ∀ {rounds}, ctx.settings.limits.maxSteps < rounds + s.steps →
      Conducts P ctx s (f rounds) result) :
    Conducts P ctx s (roundsLeft ctx >>= f) result := by
  have enough : ctx.settings.limits.maxSteps <
      ctx.settings.limits.maxSteps + 1 - s.steps + s.steps := by omega
  exact conducts enough

theorem whileLoop_conducts (ready : s.Ready P ctx) (tests : TestConducts P ctx s test)
    (bodies : BodyConducts P ctx s body)
    (enough : ctx.settings.limits.maxSteps < rounds + s.steps) :
    Conducts P ctx s (whileLoop ctx line test body rounds) (fun c t => c.Lives t.memory) := by
  induction rounds generalizing s with
  | zero => exact absurd rfl (rounds_positive ready enough)
  | succ rounds ih =>
    rw [whileLoop]
    refine (tests s (.refl s) rfl ready).bind fun holds t laterT envT readyT _ => ?_
    cases holds with
    | false => exact conducts_pure readyT (lives_normal _)
    | true =>
      refine (bodies t laterT envT readyT).bind fun c u laterU envU readyU lives => ?_
      cases c with
      | returned v returnLine => exact conducts_pure readyU lives
      | normal =>
        refine (tick_conducts readyU line).bind fun _ w laterW envW readyW count => ?_
        have later := (laterT.trans laterU).trans laterW
        have env := envW.trans (envU.trans envT)
        have steps := (laterT.trans laterU).steps
        exact ih readyW (tests.later later env) (bodies.later later env) (by omega)

theorem repeatLoop_conducts (ready : s.Ready P ctx) (tests : TestConducts P ctx s test)
    (bodies : BodyConducts P ctx s body)
    (enough : ctx.settings.limits.maxSteps < rounds + s.steps) :
    Conducts P ctx s (repeatLoop ctx line body test rounds) (fun c t => c.Lives t.memory) := by
  induction rounds generalizing s with
  | zero => exact absurd rfl (rounds_positive ready enough)
  | succ rounds ih =>
    rw [repeatLoop]
    refine (bodies s (.refl s) rfl ready).bind fun c t laterT envT readyT lives => ?_
    cases c with
    | returned v returnLine => exact conducts_pure readyT lives
    | normal =>
      refine (tick_conducts readyT line).bind fun _ u laterU envU readyU count => ?_
      have later := laterT.trans laterU
      have env := envU.trans envT
      refine (tests u later env readyU).bind fun holds w laterW envW readyW _ => ?_
      cases holds with
      | true => exact conducts_pure readyW (lives_normal _)
      | false =>
        have steps := laterT.steps
        have further := laterW.steps
        have later := later.trans laterW
        have env := envW.trans env
        exact ih readyW (tests.later later env) (bodies.later later env) (by omega)

theorem forLoop_conducts (ready : s.Ready P ctx) (counter : BindingId) (last step : Number)
    (bodies : BodyConducts P ctx s body)
    (enough : ctx.settings.limits.maxSteps < rounds + s.steps) :
    Conducts P ctx s (forLoop ctx line counter last step body rounds)
      (fun c t => c.Lives t.memory) := by
  induction rounds generalizing s with
  | zero => exact absurd rfl (rounds_positive ready enough)
  | succ rounds ih =>
    rw [forLoop]
    unfold counterValue
    refine conducts_get ?_
    split
    · exact conducts_pure ready (lives_normal _)
    · refine (bodies s (.refl s) rfl ready).bind fun c t laterT envT readyT lives => ?_
      cases c with
      | returned v returnLine => exact conducts_pure readyT lives
      | normal =>
        refine (tick_conducts readyT line).bind fun _ u laterU envU readyU count => ?_
        refine (advance_conducts readyU line counter step).bind fun _ w laterW envW readyW _ => ?_
        have steps := laterT.steps
        have further := laterW.steps
        have later := (laterT.trans laterU).trans laterW
        have env := envW.trans (envU.trans envT)
        exact ih readyW (bodies.later later env) (by omega)

theorem openCounter_conducts (ready : s.Ready P ctx) (line : Nat) (counter : Option String)
    (start step : Number) :
    Conducts P ctx s (openCounter line counter start step)
      (fun opened t => opened.1 < t.memory.frames.size) := by
  unfold openCounter
  dsimp only
  by_cases zero : step.isZero = true
  · rw [if_pos zero]
    exact conducts_throw (Stop.due_plain ready rfl)
  · rw [if_neg zero]
    split
    next fault refused =>
      refine storeFailed_conducts ready (fun _ => rfl) fun endless => ?_
      exact absurd (endless ▸ refused) (Value.coerce_ends _ _)
    next first kept =>
      have fits := Value.coerce_fits kept
      have scalar : (Value.ofNumber start).Lives s.memory :=
        Value.lives_of_scalar (ofNumber_scalar start)
      have framed := conducts_withMemory ready (·.addFrame) (.single .newFrame)
      refine framed.bind fun frame t laterT _ readyT opened => ?_
      have here : frame < t.memory.frames.size := by
        rw [opened.1, opened.2]
        simp [Memory.addFrame]
      have lives : first.Lives t.memory := laterT.lives (scalar.coerce kept)
      have added := conducts_withMemory readyT (·.addBinding ⟨first, some _, false⟩)
        (.single (.newBinding fits lives))
      refine added.bind fun i u laterU _ readyU bound => ?_
      have there := Nat.lt_of_lt_of_le here laterU.memory.grows.frames
      have inside : i < u.memory.bindings.size := by
        rw [bound.1, bound.2]
        simp [Memory.addBinding]
      cases counter with
      | none => exact conducts_pure readyU there
      | some name =>
        have named := conducts_withMemory readyU (fun m => ((), m.bind frame name i))
          (.single (.newName inside))
        exact named.bind fun _ w laterW _ readyW _ =>
          conducts_pure readyW (Nat.lt_of_lt_of_le there laterW.memory.grows.frames)

theorem countedLoop_conducts (ready : s.Ready P ctx) (line : Nat) (counter : Option String)
    (start last step : Number)
    (bodies : ∀ t, s.Later P ctx t → t.Ready P ctx →
      Conducts P ctx t body (fun c u => c.Lives u.memory)) :
    Conducts P ctx s (countedLoop ctx line counter start last step body)
      (fun c t => c.Lives t.memory) := by
  refine (openCounter_conducts ready line counter start step).bind
    fun opened t laterT _ readyT inside => ?_
  obtain ⟨frame, i⟩ := opened
  refine conducts_get (inEnvironment_conducts readyT ?_)
  have readyIn : RunState.Ready P ctx { t with env := frame :: t.env } :=
    ⟨readyT.memory, ⟨frame, t.env, rfl, inside⟩, readyT.steps⟩
  refine conducts_roundsLeft fun enough => forLoop_conducts readyIn i last step ?_ enough
  intro u later _ readyU
  exact bodies u ⟨laterT.memory.trans later.memory, Nat.le_trans laterT.steps later.steps⟩ readyU

end Loops

end Pseudocode.Run
