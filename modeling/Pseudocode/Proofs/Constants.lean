import Pseudocode.Execution
import Pseudocode.Proofs.StoreTyping

/-! Constants. The binding that a CONSTANT statement makes holds the same value for the rest of the run,
under whatever name and in whatever frame it is seen; of an array it holds a copy of its own, and keeps
that. The elements of the copy are not protected: they change by stores into the array, which another
name may have come to share. -/
namespace Pseudocode

/-- A CONSTANT statement that got the value `v` took a run from `s` to `t`. It made a new binding, which
holds the value, or a copy if that is an array, for ever. The array keeps its bounds and the type of its
elements for ever, and changes only when one of its elements is stored. -/
structure RunState.DefinesConstant (P : Policy) (ctx : RunContext) (s t : RunState) (name : String)
    (v : Value) : Prop where
  named : t.memory.find t.env name = some s.memory.bindings.size
  held : t.memory.binding? s.memory.bindings.size =
    some ⟨(s.memory.copyValue v).1, if v = .null then none else some v.type, true⟩
  arrays : t.memory.arrays = (s.memory.copyValue v).2.arrays
  later : ∀ u, t.Later P ctx u →
    u.memory.binding? s.memory.bindings.size = t.memory.binding? s.memory.bindings.size
  shape : ∀ u, t.Later P ctx u → ∀ i cell, (s.memory.copyValue v).1 = .array i →
    t.memory.arrays[i]? = some cell → ∃ now, u.memory.arrays[i]? = some now ∧
      now.bounds = cell.bounds ∧ now.elementType = cell.elementType
  elements : ∀ u m, t.Later P ctx u →
    Memory.Step P ctx.settings.limits.maxArrayElements u.memory m →
    ∀ i cell, u.memory.arrays[i]? = some cell → m.arrays[i]? = some cell ∨
      ∃ indices w position kept, cell.place indices w = .ok (position, kept) ∧
        m = u.memory.setElement i position kept

namespace Run

variable {P : Policy} {ctx : RunContext} {s t : RunState} {v : Value}

theorem defineConstant_eq (name : String) (v : Value) (s : RunState) :
    defineConstant name v s = .ok () { s with
      memory := ((s.memory.copyValue v).2.define s.env name
        ⟨(s.memory.copyValue v).1, if v = .null then none else some v.type, true⟩).2 } := rfl

theorem defineConstant_defines (ready : s.Ready P ctx) (defined : defineConstant name v s = .ok () t) :
    s.DefinesConstant P ctx t name v := by
  rw [defineConstant_eq] at defined
  cases defined
  have count := congrArg Array.size (s.memory.copyValue_bindings v)
  have held : ((s.memory.copyValue v).2.define s.env name
      ⟨(s.memory.copyValue v).1, if v = .null then none else some v.type, true⟩).2.binding?
      s.memory.bindings.size =
        some ⟨(s.memory.copyValue v).1, if v = .null then none else some v.type, true⟩ := by
    rw [Memory.binding_define, if_pos count.symm]
  have copied : Memory.Steps P ctx.settings.limits.maxArrayElements s.memory (s.memory.copyValue v).2 :=
    Memory.copyValue_steps s.memory v
  refine ⟨?_, held, Memory.arrays_define .., fun u later => ?_, fun u later i cell _ there => ?_,
    fun u m _ step i cell there => step.array_cases there⟩
  · exact (Memory.find_define (copied.grows.opens ready.opens) name _).trans (congrArg some count)
  · exact (later.memory.constant held rfl).trans held.symm
  · exact later.keepsArrays there

end Run

/-- In a run of a program that was checked without errors, a CONSTANT statement makes a binding that
nothing changes any more. -/
theorem constants_keep_value (p : Program) (settings : Settings) (host : Host) (review : Review)
    (reviewed : Review.ofProgram settings.limits.maxArrayElements p = .ok review)
    (valid : review.errors = []) :
    ∀ a, Activity.Reaches (p.context settings host) (.start p settings) a →
      ∀ {place name value c t}, a.task = .stmt (.constant place name value) →
        Run.exec (p.context settings host) (Parts.enterAt (p.context settings host) a.calls)
          (!a.calls.isEmpty) (.constant place name value) a.state = .ok c t →
        ∃ v s,
          (Run.begins (p.context settings host) (.constant place name value) >>= fun _ =>
            Run.evalPresent (p.context settings host)
              (Parts.enterAt (p.context settings host) a.calls) value) a.state = .ok v s ∧
          s.DefinesConstant (.reviewed (p.context settings host) p.Whole settings.limits.maxArrayElements)
            (p.context settings host) t name v := by
  intro a reaches place name value c t task executed
  have obeys := Review.obeys reviewed valid (p.context settings host) (p.context_routines settings host)
  have sound := reaches.sound obeys.routines (Activity.start_sound obeys settings host)
  cases sound.stmt task with | constant inner =>
  have enters : Run.EnterConducts _ (p.context settings host) _ :=
    Parts.enterAt_conducts obeys.routines a.calls
  rw [Run.exec.eq_def] at executed
  obtain ⟨_, r, begun, rest⟩ := bind_eq_ok.mp executed
  obtain ⟨v, s, evaluated, rest⟩ := bind_eq_ok.mp rest
  obtain ⟨_, _, defined, ⟨⟩⟩ := bind_eq_ok.mp rest
  have readyR := ((Run.begins_conducts sound.ready _).of_ok begun).2.2.1
  have readyS := ((Run.evalPresent_conducts enters readyR inner).of_ok evaluated).2.2.1
  exact ⟨v, s, (bind_of_ok begun).trans evaluated, Run.defineConstant_defines readyS defined⟩

/-- A program that makes a copy of an array a constant. -/
def savedRow : Program where
  body :=
    [.declareArray ⟨1, 1⟩ "a" [⟨1, 3⟩] "INTEGER",
    .constant ⟨2, 1⟩ "c" (some (.name ⟨2, 14⟩ "a"))]

theorem savedRow_keeps_value : ∃ (a : Activity) (s t : RunState) (v : Value),
    Activity.Reaches (savedRow.context {} {}) (.start savedRow {}) a ∧
    a.task = .stmt (.constant ⟨2, 1⟩ "c" (some (.name ⟨2, 14⟩ "a"))) ∧
    s.DefinesConstant
      (.reviewed (savedRow.context {} {}) savedRow.Whole ({} : Settings).limits.maxArrayElements)
      (savedRow.context {} {}) t "c" v := by
  obtain ⟨review, reviewed, valid⟩ : ∃ review,
      Review.ofProgram ({} : Settings).limits.maxArrayElements savedRow = .ok review ∧
        review.errors = [] := Review.exists_of_errors (by decide +kernel)
  obtain ⟨a, reaches, task, c, t, executed, -⟩ : ∃ a,
      Activity.Reaches (savedRow.context {} {}) (.start savedRow {}) a ∧
      a.task = .stmt (.constant ⟨2, 1⟩ "c" (some (.name ⟨2, 14⟩ "a"))) ∧
      ∃ c t, Run.exec (savedRow.context {} {}) (Parts.enterAt (savedRow.context {} {}) a.calls)
          (!a.calls.isEmpty) (.constant ⟨2, 1⟩ "c" (some (.name ⟨2, 14⟩ "a"))) a.state = .ok c t ∧
        c = .normal := by
    refine ⟨_, .head ⟨_, .tail _ (.head _), _, _, rfl, rfl⟩ <|
      .head ⟨_, .head _, _, _, rfl, rfl⟩ .refl, rfl, ?_⟩
    exact ok_of_observed (fun c _ => c) (by decide +kernel)
  obtain ⟨v, s, -, defines⟩ :=
    constants_keep_value savedRow {} {} review reviewed valid a reaches task executed
  exact ⟨a, s, t, v, reaches, task, defines⟩

/-- A program that stores into a constant array through a parameter passed by reference. -/
def spoiledRow : Program where
  body :=
    [.declareArray ⟨1, 1⟩ "a" [⟨1, 3⟩] "INTEGER",
    .constant ⟨2, 1⟩ "c" (some (.name ⟨2, 14⟩ "a")),
    .routine ⟨⟨3, 1⟩, .procedure, some "Set", [⟨"x", "ARRAY", .byReference, some "INTEGER"⟩], none,
      [.assign ⟨4, 2⟩ (.element ⟨4, 2⟩ "x" [.literal ⟨4, 4⟩ (.integer 1)])
        (.literal ⟨4, 10⟩ (.integer 5))]⟩,
    .call ⟨6, 1⟩ ⟨6, 6⟩ "Set" [.name ⟨6, 10⟩ "c"],
    .output ⟨7, 1⟩ [.name ⟨7, 8⟩ "c"]]

/-- The elements of a constant array can be stored into: the constant is shown with an element that was
not there when it was made. -/
theorem spoiledRow_changes :
    (∃ review, Review.ofProgram ({} : Settings).limits.maxArrayElements spoiledRow = .ok review ∧
      review.errors = []) ∧
    (∃ c, ∃ t : RunState, Run.execBlock (spoiledRow.context {} {}) (Parts.enterAt (spoiledRow.context {} {}) [])
        false (spoiledRow.body.take 2) (.initial {}) = .ok c t ∧
      (t.memory.lookup t.env "c", t.memory.arrays[1]?) =
        (some ⟨.array 1, some .array, true⟩,
          some ⟨[⟨1, 3⟩], some .integer, #[.integer 0, .integer 0, .integer 0]⟩)) ∧
    spoiledRow.run {} {} = .ok ⟨[.ofOutput ⟨"[5, 0, 0]", 7⟩], true, 6⟩ :=
  ⟨Review.exists_of_errors (by decide +kernel),
    ok_of_observed (fun _ (t : RunState) => (t.memory.lookup t.env "c", t.memory.arrays[1]?)) (by decide +kernel),
    by decide +kernel⟩

end Pseudocode
