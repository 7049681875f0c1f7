import Pseudocode.Execution
import Pseudocode.Proofs.StoreTyping

/-! Arrays passed by value. An ARRAY parameter that is not BYREF is bound to a copy, an array that did not
exist before, so a store into it changes none that did. The copy is one array deep: arrays that are
elements of it are shared, and only then can anything from before be reached through the parameter. -/
namespace Pseudocode

namespace Memory

/-- One array is an element of another. -/
def Holds (m : Memory) (i j : ArrayId) : Prop :=
  ∃ cell, m.arrays[i]? = some cell ∧ Value.array j ∈ cell.elements

/-- One array is another, or is reached from it through elements. -/
abbrev Within (m : Memory) : ArrayId → ArrayId → Prop := Relation.ReflTransGen m.Holds

/-- All that an array is made of was added after the first `count` arrays. -/
def Apart (m : Memory) (count : Nat) (i : ArrayId) : Prop := ∀ k, m.Within i k → count ≤ k

variable {m : Memory} {cell : ArrayCell} {i j k : ArrayId} {count : Nat}

/-- A store into anything that such an array is made of leaves the first arrays as they are. -/
theorem Apart.store (apart : m.Apart count i) (within : m.Within i k) (before : j < count)
    (position : Nat) (v : Value) : (m.setElement k position v).arrays[j]? = m.arrays[j]? := by
  rw [array_setElement, if_neg (Nat.ne_of_gt (Nat.lt_of_lt_of_le before (apart k within)))]

/-- An array without arrays as elements is made of itself alone. -/
theorem within_iff_of_scalars (held : m.arrays[i]? = some cell)
    (scalars : ∀ v ∈ cell.elements, v.type ≠ .array) : m.Within i k ↔ k = i := by
  refine ⟨fun within => ?_, fun same => same ▸ .refl⟩
  obtain same | ⟨j, ⟨other, there, member⟩, -⟩ := within.cases_head
  · exact same.symm
  · cases held.symm.trans there
    exact absurd rfl (scalars _ member)

/-- The copy of an array shares nothing with the arrays that are there exactly if no element of it is
an array. -/
theorem copy_apart_iff (elements : ∀ v ∈ cell.elements, v.Lives m) :
    (m.addArray cell).2.Apart m.arrays.size m.arrays.size ↔ ∀ v ∈ cell.elements, v.type ≠ .array := by
  have added : (m.addArray cell).2.arrays[m.arrays.size]? = some cell := by
    rw [array_addArray, if_pos rfl]
  constructor
  · intro apart v member nested
    cases v with
    | array j =>
      have new := apart j (.single ⟨cell, added, member⟩)
      exact absurd (elements _ member j rfl) (Nat.not_lt.mpr new)
    | _ => cases nested
  · intro scalars k within
    exact Nat.le_of_eq ((within_iff_of_scalars added scalars).mp within).symm

end Memory

namespace Run

/-- A value for an ARRAY parameter is NULL or an array, and its binding holds a copy. -/
theorem bindValue_copies (line : Nat) (callee : String) {param : Param}
    (array : DataType.ofName? param.typeName = some .array) (v : Value) (s : RunState) :
    Ends (bindValue line callee param v) s (fun i t => (v = .null ∨ v.type = .array) ∧
      (i, t.memory) = (s.memory.copyValue v).2.addBinding ⟨(s.memory.copyValue v).1, some .array, false⟩)
      (fun _ _ => True) := by
  unfold bindValue
  rw [array]
  dsimp only
  rw [ends_bind]
  have checked : Ends (checkArrayArgument line callee param v) s
      (fun _ t => t = s ∧ (v = .null ∨ v.type = .array)) (fun _ _ => True) := by
    unfold checkArrayArgument
    split
    · exact ⟨rfl, .inl rfl⟩
    · rw [ends_bind, ends_get]
      dsimp only
      split
      · split
        · exact ⟨rfl, .inr rfl⟩
        · exact trivial
      · exact trivial
      · exact ⟨rfl, .inr rfl⟩
    · exact trivial
  refine checked.mono (fun _ t passed => ?_) fun _ _ _ => trivial
  obtain ⟨rfl, array⟩ := passed
  exact ⟨array, rfl⟩

end Run

/-- Binding an array by value took a run from `s` to `t`: the binding holds a new array, equal to the one
that was passed, and no other array is changed. The new array shares nothing with those that were there
exactly if it has no arrays as elements; if its elements are not arrays by their type, that is so for
ever, and no store through it changes an array that was there. -/
structure RunState.BindsCopy (P : Policy) (ctx : RunContext) (s t : RunState) (slot : BindingId)
    (cell : ArrayCell) : Prop where
  binding : t.memory.binding? slot = some ⟨.array s.memory.arrays.size, some .array, false⟩
  arrays : t.memory.arrays = s.memory.arrays.push cell
  apart : t.memory.Apart s.memory.arrays.size s.memory.arrays.size ↔
    ∀ v ∈ cell.elements, v.type ≠ .array
  later : cell.elementType ≠ some .array → ∀ u, t.Later P ctx u →
    u.memory.Apart s.memory.arrays.size s.memory.arrays.size ∧
    ∀ k, u.memory.Within s.memory.arrays.size k → ∀ j < s.memory.arrays.size, ∀ position v,
      (u.memory.setElement k position v).arrays[j]? = u.memory.arrays[j]?

section

variable {ctx : RunContext} {whole : Prop} {s t : RunState} {cell : ArrayCell} {slot : BindingId}

theorem Memory.Typed.scalars {m : Memory} {limit : Nat} (typed : m.Typed limit) {i : ArrayId}
    (held : m.arrays[i]? = some cell) (plain : cell.elementType ≠ some .array) :
    ∀ v ∈ cell.elements, v.type ≠ .array := by
  obtain ⟨type, named, elements⟩ := (typed.arrays held).elements
  intro v member nested
  obtain rfl | same := elements v member
  · cases nested
  · exact plain (named.trans (congrArg some (same.symm.trans nested)))

theorem RunState.bindsCopy
    (before : s.Ready (.reviewed ctx whole ctx.settings.limits.maxArrayElements) ctx)
    (after : t.Ready (.reviewed ctx whole ctx.settings.limits.maxArrayElements) ctx)
    (bound : (slot, t.memory) = (s.memory.addArray cell).2.addBinding
      ⟨.array s.memory.arrays.size, some .array, false⟩)
    {i : ArrayId} (held : s.memory.arrays[i]? = some cell) :
    s.BindsCopy (.reviewed ctx whole ctx.settings.limits.maxArrayElements) ctx t slot cell := by
  have memory : t.memory = ((s.memory.addArray cell).2.addBinding
      ⟨.array s.memory.arrays.size, some .array, false⟩).2 := congrArg Prod.snd bound
  have new : slot = (s.memory.addArray cell).2.bindings.size := congrArg Prod.fst bound
  have arrays : t.memory.arrays = s.memory.arrays.push cell := by rw [memory]; rfl
  have copied : t.memory.arrays[s.memory.arrays.size]? = some cell := by
    rw [arrays, Array.getElem?_push_size]
  refine ⟨?_, arrays, ?_, fun plain u later => ?_⟩
  · rw [memory, new, Memory.binding_addBinding, if_pos rfl]
  · rw [memory]
    exact Memory.copy_apart_iff (before.memory.elements held)
  · obtain ⟨now, there, -, type⟩ := later.memory.grows.shape copied
    have scalars := (later.memory.sound after.memory).typed.scalars there (type.symm ▸ plain)
    have apart : u.memory.Apart s.memory.arrays.size s.memory.arrays.size := fun k within =>
      Nat.le_of_eq ((Memory.within_iff_of_scalars there scalars).mp within).symm
    exact ⟨apart, fun k within j before position v => apart.store within before position v⟩

end

/-- In a run of a program that was checked without errors, whatever array an ARRAY parameter gets by
value is bound as a copy. -/
theorem value_arrays_copied (p : Program) (settings : Settings) (host : Host) (review : Review)
    (reviewed : Review.ofProgram settings.limits.maxArrayElements p = .ok review)
    (valid : review.errors = []) :
    ∀ a, Activity.Reaches (p.context settings host) (.start p settings) a →
      ∀ {line callee param params e es slot t},
        a.task = .arguments line callee (param :: params) (e :: es) → param.mode = .byValue →
        DataType.ofName? param.typeName = some .array →
        Run.bindArgument line callee param e
          (Run.eval (p.context settings host) (Parts.enterAt (p.context settings host) a.calls) e)
          a.state = .ok slot t →
        ∃ v s, Run.eval (p.context settings host) (Parts.enterAt (p.context settings host) a.calls) e
            a.state = .ok v s ∧
          (v = .null ∧ t.memory.arrays = s.memory.arrays ∧
            t.memory.binding? slot = some ⟨.null, some .array, false⟩ ∨
          ∃ i cell, v = .array i ∧ s.memory.arrays[i]? = some cell ∧
            s.BindsCopy (.reviewed (p.context settings host) p.Whole settings.limits.maxArrayElements)
              (p.context settings host) t slot cell) := by
  intro a reaches line callee param params e es slot t task byValue array returned
  have obeys := Review.obeys reviewed valid (p.context settings host) (p.context_routines settings host)
  have sound := reaches.sound obeys.routines (Activity.start_sound obeys settings host)
  have arguments := sound.obeys
  rw [task] at arguments
  have enters : Run.EnterConducts _ (p.context settings host) _ :=
    Parts.enterAt_conducts obeys.routines a.calls
  unfold Run.bindArgument at returned
  rw [byValue] at returned
  obtain ⟨v, s, evaluated, bound⟩ := bind_eq_ok.mp returned
  obtain ⟨-, -, readyS, lives⟩ :=
    (Run.eval_conducts enters e sound.ready (arguments.1 e (.head _))).of_ok evaluated
  obtain ⟨-, -, readyT, -⟩ := (Run.bindValue_conducts readyS line callee param lives).of_ok bound
  obtain ⟨kind, copied⟩ := (Run.bindValue_copies line callee array v s).of_ok bound
  refine ⟨v, s, evaluated, ?_⟩
  cases v with
  | array i =>
    have inside := lives i rfl
    have held : s.memory.arrays[i]? = some s.memory.arrays[i] := Array.getElem?_eq_getElem inside
    have copy : s.memory.copyValue (.array i) =
        (.array s.memory.arrays.size, (s.memory.addArray s.memory.arrays[i]).2) := by
      simp only [Memory.copyValue, Memory.cell?, held]
      rfl
    rw [copy] at copied
    exact .inr ⟨i, _, rfl, held, RunState.bindsCopy readyS readyT copied held⟩
  | null =>
    left
    have memory := congrArg Prod.snd copied
    have new := congrArg Prod.fst copied
    dsimp only at memory new
    refine ⟨rfl, by rw [memory]; rfl, ?_⟩
    rw [memory, new]
    exact (Memory.binding_addBinding _ _ _).trans (if_pos rfl)
  | _ => exact absurd kind (by simp [Value.type])

/-- A program that passes an array by value. -/
def passedRow : Program where
  body :=
    [.routine ⟨⟨1, 1⟩, .procedure, some "p", [⟨"x", "ARRAY", .byValue, some "INTEGER"⟩], none, []⟩,
    .declareArray ⟨3, 1⟩ "a" [⟨1, 2⟩] "INTEGER",
    .call ⟨4, 1⟩ ⟨4, 6⟩ "p" [.name ⟨4, 8⟩ "a"]]

theorem passedRow_copied : ∃ a s slot t i cell,
    Activity.Reaches (passedRow.context {} {}) (.start passedRow {}) a ∧
    Run.eval (passedRow.context {} {}) (Parts.enterAt (passedRow.context {} {}) a.calls)
      (.name ⟨4, 8⟩ "a") a.state = .ok (.array i) s ∧
    s.BindsCopy
      (.reviewed (passedRow.context {} {}) passedRow.Whole ({} : Settings).limits.maxArrayElements)
      (passedRow.context {} {}) t slot cell := by
  obtain ⟨review, reviewed, valid⟩ : ∃ review,
      Review.ofProgram ({} : Settings).limits.maxArrayElements passedRow = .ok review ∧
        review.errors = [] := Review.exists_of_errors (by decide +kernel)
  obtain ⟨a, reaches, task, slot, t, bound, binding⟩ : ∃ a,
      Activity.Reaches (passedRow.context {} {}) (.start passedRow {}) a ∧
      a.task = .arguments 4 "p" [⟨"x", "ARRAY", .byValue, some "INTEGER"⟩] [.name ⟨4, 8⟩ "a"] ∧
      ∃ slot t, Run.bindArgument 4 "p" ⟨"x", "ARRAY", .byValue, some "INTEGER"⟩ (.name ⟨4, 8⟩ "a")
          (Run.eval (passedRow.context {} {}) (Parts.enterAt (passedRow.context {} {}) a.calls)
            (.name ⟨4, 8⟩ "a")) a.state = .ok slot t ∧
        t.memory.binding? slot = some ⟨.array 1, some .array, false⟩ := by
    refine ⟨_, .head ⟨_, .tail _ (.head _), _, _, rfl, rfl⟩ <|
      .head ⟨_, .tail _ (.head _), _, _, rfl, rfl⟩ <| .head ⟨_, .head _, _, _, rfl, rfl⟩ <|
      .head ⟨_, .head _, _, _, rfl, rfl⟩ <| .head ⟨_, .head _, _, _, rfl, rfl⟩ .refl, rfl, ?_⟩
    exact ok_of_observed (fun slot (t : RunState) => t.memory.binding? slot) (by decide +kernel)
  obtain ⟨v, s, evaluated, ⟨-, -, none⟩ | ⟨i, cell, rfl, -, copied⟩⟩ :=
    value_arrays_copied passedRow {} {} review reviewed valid a reaches task rfl (by decide) bound
  · cases binding.symm.trans none
  · exact ⟨a, s, slot, t, i, cell, reaches, evaluated, copied⟩

/-- A program that passes an array of arrays by value, and stores into an element of an element. -/
def passedRows : Program where
  body :=
    [.routine ⟨⟨1, 1⟩, .procedure, some "p", [⟨"x", "ARRAY", .byValue, none⟩], none,
      [.assign ⟨2, 2⟩ (.variable ⟨2, 2⟩ "y") (.element ⟨2, 7⟩ "x" [.literal ⟨2, 9⟩ (.integer 1)]),
      .assign ⟨3, 2⟩ (.element ⟨3, 2⟩ "y" [.literal ⟨3, 4⟩ (.integer 1)])
        (.literal ⟨3, 10⟩ (.integer 5))]⟩,
    .declareArray ⟨5, 1⟩ "m" [⟨1, 1⟩] "ARRAY",
    .declareArray ⟨6, 1⟩ "a" [⟨1, 1⟩] "INTEGER",
    .assign ⟨7, 1⟩ (.element ⟨7, 1⟩ "m" [.literal ⟨7, 3⟩ (.integer 1)]) (.name ⟨7, 9⟩ "a"),
    .call ⟨8, 1⟩ ⟨8, 6⟩ "p" [.name ⟨8, 8⟩ "m"],
    .output ⟨9, 1⟩ [.element ⟨9, 8⟩ "a" [.literal ⟨9, 10⟩ (.integer 1)]]]

/-- Arrays that are elements of an array passed by value are shared: when the call binds its argument, an
array that was there before is reached from the one that the parameter is bound to, and a store into
it is seen after the call. -/
theorem passedRows_shared :
    (∃ review, Review.ofProgram ({} : Settings).limits.maxArrayElements passedRows = .ok review ∧
      review.errors = []) ∧
    passedRows.run {} {} = .ok ⟨[.ofOutput ⟨"5", 9⟩], true, 8⟩ ∧
    ∃ s slot t j k,
      Run.execBlock (passedRows.context {} {}) (Parts.enterAt (passedRows.context {} {}) []) false
        (passedRows.body.take 4) (.initial {}) = .ok .normal s ∧
      Run.bindArgument 8 "p" ⟨"x", "ARRAY", .byValue, none⟩ (.name ⟨8, 8⟩ "m")
        (Run.eval (passedRows.context {} {}) (Parts.enterAt (passedRows.context {} {}) [])
          (.name ⟨8, 8⟩ "m")) s = .ok slot t ∧
      t.memory.binding? slot = some ⟨.array j, some .array, false⟩ ∧
      t.memory.Within j k ∧ k < s.memory.arrays.size := by
  refine ⟨Review.exists_of_errors (by decide +kernel), by decide +kernel, ?_⟩
  have seen : observed (do
      let c ← Run.execBlock (passedRows.context {} {}) (Parts.enterAt (passedRows.context {} {}) [])
        false (passedRows.body.take 4)
      let before := (← get).memory.arrays.size
      let slot ← Run.bindArgument 8 "p" ⟨"x", "ARRAY", .byValue, none⟩ (.name ⟨8, 8⟩ "m")
        (Run.eval (passedRows.context {} {}) (Parts.enterAt (passedRows.context {} {}) [])
          (.name ⟨8, 8⟩ "m"))
      return (c, before, slot)) (.initial {})
      (fun (c, before, slot) t => (c, before, t.memory.binding? slot, t.memory.arrays[2]?)) =
      some (.normal, 2, some ⟨.array 2, some .array, false⟩,
        some ⟨[⟨1, 1⟩], some .array, #[.array 1]⟩) := by decide +kernel
  obtain ⟨⟨c, before, slot⟩, u, ran, view⟩ := ok_of_observed _ seen
  obtain ⟨c', s, executed, ran⟩ := bind_eq_ok.mp ran
  obtain ⟨_, _, ⟨⟩, ran⟩ := bind_eq_ok.mp ran
  obtain ⟨slot', t, bound, ⟨⟩⟩ := bind_eq_ok.mp ran
  simp only [Prod.mk.injEq] at view
  obtain ⟨rfl, count, binding, held⟩ := view
  exact ⟨s, slot, u, 2, 1, executed, bound, binding, .single ⟨_, held, by simp⟩, by rw [count]; decide⟩

end Pseudocode
