import Pseudocode.Proofs.NameStores

/-! Names without a type. A variable that was never declared takes every value as it is, whatever it holds, with
one exception: in the place of an array it takes another array only of the same shape and with elements of the
same type. -/
namespace Pseudocode

namespace Memory

/-- The name is that of a variable without a type, or of nothing. -/
def Untyped (m : Memory) (env : Environment) (name : String) : Prop :=
  ∀ b ∈ m.lookup env name, b.declared = none ∧ b.isConstant = false

/-- The name holds an array, and the value is one of another shape or with elements of another type. -/
def Clashes (m : Memory) (env : Environment) (name : String) (v : Value) : Prop :=
  ∃ b old new, m.lookup env name = some b ∧ m.cell? b.value = some old ∧ m.cell? v = some new ∧
    ¬(old.shape = new.shape ∧ old.elementType = new.elementType)

/-- A store under a name without a type: the value itself is then found, unless it is an array that clashes with
the one that is there, which stays. -/
structure TakesValue (m : Memory) (env : Environment) (name : String) (v : Value) : Prop where
  fits : ¬m.Clashes env name v → ∃ i n, m.assign env name v = (.ok i, n) ∧ n.lookup env name = some ⟨v, none, false⟩
  clashes : m.Clashes env name v → m.assign env name v = (.error .arraysDiffer, m)

variable {m : Memory} {env : Environment} {name : String} {i : BindingId} {b : Binding} {v : Value}

/-- A binding without a type refuses just the arrays that do not fit the one it holds. -/
theorem accept_eq_of_untyped (looked : m.lookup env name = some b) (untyped : b.declared = none)
    (writable : b.isConstant = false) :
    (¬m.Clashes env name v → m.accept b v = .ok v) ∧
      (m.Clashes env name v → m.accept b v = .error .arraysDiffer) := by
  rw [accept_untyped untyped writable]
  constructor
  · intro fits
    cases holds : m.cell? b.value with
    | none => rfl
    | some old =>
      cases given : m.cell? v with
      | none => rfl
      | some new =>
        have same : old.compatible new = true := by
          refine ArrayCell.compatible_iff.mpr (Decidable.byContradiction fun apart => fits ?_)
          exact ⟨b, old, new, looked, holds, given, apart⟩
        dsimp only
        rw [if_pos same]
  · rintro ⟨c, old, new, here, holds, given, apart⟩
    cases looked.symm.trans here
    have differ : ¬old.compatible new = true := mt ArrayCell.compatible_iff.mp apart
    rw [holds, given]
    dsimp only
    rw [if_neg differ]

theorem takesValue (linked : m.Linked) (opens : m.Opens env) (untyped : m.Untyped env name) (v : Value) :
    m.TakesValue env name v := by
  cases found : m.find env name with
  | none =>
    have unbound : m.lookup env name = none := by rw [lookup, found, Option.bind_none]
    constructor
    case fits =>
      intro _
      refine ⟨_, _, assign_fresh found v, ?_⟩
      rw [lookup, find_setValue, find_define opens, Option.bind_some, binding_setValue, if_pos rfl, binding_define,
        if_pos rfl]
      rfl
    case clashes =>
      rintro ⟨b, old, new, bound, -⟩
      cases unbound.symm.trans bound
  | some i =>
    obtain ⟨b, held⟩ := linked.held found
    have bound : m.lookup env name = some b := by rw [lookup, found, Option.bind_some, held]
    obtain ⟨typeless, writable⟩ := untyped b bound
    obtain ⟨takes, refuses⟩ := accept_eq_of_untyped (v := v) bound typeless writable
    have stores := assign_found found held v
    constructor
    case fits =>
      intro fits
      rw [takes fits] at stores
      refine ⟨i, _, stores, ?_⟩
      rw [lookup, find_setValue, found, Option.bind_some, binding_setValue, if_pos rfl, held, Option.map_some,
        typeless, writable]
    case clashes =>
      intro clashes
      rwa [refuses clashes] at stores

end Memory

namespace Run

/-- How an assignment of a value to a name without a type ends, from the state in which the value is known: with
the value under the name, or with the array that is there and does not fit. -/
structure AssignsValue (t : RunState) (line : Nat) (name : String) (v : Value)
    (ended : EStateM.Result Stop RunState Completion) : Prop where
  fits : ¬t.memory.Clashes t.env name v →
    ∃ n, n.lookup t.env name = some ⟨v, none, false⟩ ∧ ended = .ok .normal { t with memory := n }
  clashes : t.memory.Clashes t.env name v → ended = .error (.fault line (.store .arraysDiffer)) t

variable {s t : RunState} {ctx : RunContext}

/-- An assignment to a name, from where it has begun and its value is known. -/
theorem exec_assign_name {place spot : Position} {name : String} {e : Expr} (enter : Enter) (inRoutine : Bool)
    (begun : begins ctx (.assign place (.variable spot name) e) r = .ok () s)
    (evaluated : eval ctx enter e s = .ok v t) :
    exec ctx enter inRoutine (.assign place (.variable spot name) e) r =
      (do assign place.line name v; return .normal : Run Completion) t := by
  rw [exec.eq_def]
  exact (bind_of_ok begun).trans (bind_of_ok evaluated)

theorem exec_assigns {place spot : Position} {name : String} {e : Expr} (enter : Enter) (inRoutine : Bool)
    (begun : begins ctx (.assign place (.variable spot name) e) r = .ok () s)
    (evaluated : eval ctx enter e s = .ok v t) (takes : t.memory.TakesValue t.env name v) :
    AssignsValue t place.line name v (exec ctx enter inRoutine (.assign place (.variable spot name) e) r) := by
  rw [exec_assign_name enter inRoutine begun evaluated]
  constructor
  case fits =>
    intro fits
    obtain ⟨i, n, stored, found⟩ := takes.fits fits
    exact ⟨n, found, bind_of_ok (assign_of_ok stored place.line)⟩
  case clashes =>
    intro clashes
    exact bind_of_error (assign_of_error (takes.clashes clashes) place.line)

end Run

/-- Every value can be stored under a name without a type and is then found there as it is, but for an array that
clashes with the one that the name holds. That is so in every memory that can be reached, and for every
assignment in a run: nothing else about its value makes it fail. -/
theorem untyped_names_take_values (p : Program) (settings : Settings) (host : Host) :
    (∀ (m : Memory) (env : Environment) (name : String) (v : Value), m.Reached → m.Opens env →
      m.Untyped env name → m.TakesValue env name v) ∧
    ∀ (a : Activity) (place spot : Position) (name : String) (e : Expr) (s : RunState) (v : Value) (t : RunState),
      Activity.Reaches (p.context settings host) (.start p settings) a →
      a.task = .stmt (.assign place (.variable spot name) e) →
      Run.begins (p.context settings host) (.assign place (.variable spot name) e) a.state = .ok () s →
      Run.eval (p.context settings host) (Parts.enterAt (p.context settings host) a.calls) e s = .ok v t →
      t.memory.Untyped t.env name →
      Run.AssignsValue t place.line name v
        (Run.exec (p.context settings host) (Parts.enterAt (p.context settings host) a.calls) (!a.calls.isEmpty)
          (.assign place (.variable spot name) e) a.state) := by
  constructor
  · intro m env name v reached opens untyped
    exact Memory.takesValue reached.linked opens untyped v
  · intro a place spot name e s v t reaches task begun evaluated untyped
    have routines := p.obeys_free.routines
    have sound := Activity.Reaches.sound routines reaches (Activity.start_sound p.obeys_free settings host)
    obtain ⟨-, -, readyS, -⟩ := (Run.begins_conducts sound.ready _).of_ok begun
    cases sound.stmt task with | assign _ obeys =>
    obtain ⟨-, -, ready, -⟩ :=
      (Run.eval_conducts (Parts.enterAt_conducts routines a.calls) e readyS obeys).of_ok evaluated
    have takes : t.memory.TakesValue t.env name v :=
      Memory.takesValue ready.memory.linked ready.opens untyped v
    exact Run.exec_assigns _ _ begun evaluated takes

/-- A variable without a type, which holds a number and then an array. -/
def retyped : Program where
  body :=
    [.declareArray ⟨1, 1⟩ "a" [⟨1, 2⟩] "INTEGER",
    .assign ⟨2, 1⟩ (.variable ⟨2, 1⟩ "x") (.literal ⟨2, 6⟩ (.integer 5)),
    .assign ⟨3, 1⟩ (.variable ⟨3, 1⟩ "x") (.name ⟨3, 6⟩ "a")]

/-- An undeclared name that holds the first of two arrays of different sizes. -/
def Memory.twoRows : Memory :=
  ((initial.addArray (.fresh [⟨1, 2⟩] (some .integer))).2.addArray (.fresh [⟨1, 3⟩] (some .integer))).2.assign
    globals "x" (.array 0) |>.2

theorem Memory.twoRows_reached : twoRows.Reached := .assign _ _ _ (.array _ (.array _ .initial))

theorem Memory.twoRows_untyped : twoRows.Untyped globals "x" := by
  rintro b ⟨⟩
  exact ⟨rfl, rfl⟩

theorem retyped_takes_array :
    (∃ i n, Memory.twoRows.assign Memory.globals "x" (.integer 5) = (.ok i, n) ∧
      n.lookup Memory.globals "x" = some ⟨.integer 5, none, false⟩) ∧
    ∃ (a : Activity) (t : RunState) (n : Memory), Activity.Reaches (retyped.context {} {}) (.start retyped {}) a ∧
      t.memory.lookup t.env "x" = some ⟨.integer 5, none, false⟩ ∧
      n.lookup t.env "x" = some ⟨.array 0, none, false⟩ ∧
      Run.exec (retyped.context {} {}) (Parts.enterAt (retyped.context {} {}) a.calls) (!a.calls.isEmpty)
        (.assign ⟨3, 1⟩ (.variable ⟨3, 1⟩ "x") (.name ⟨3, 6⟩ "a")) a.state =
          .ok .normal { t with memory := n } := by
  constructor
  · have takes := (untyped_names_take_values retyped {} {}).1 Memory.twoRows Memory.globals "x" (.integer 5)
      Memory.twoRows_reached ⟨0, [], rfl, Nat.one_pos⟩ Memory.twoRows_untyped
    apply takes.fits
    rintro ⟨b, old, new, -, -, ⟨⟩, -⟩
  · obtain ⟨a, reaches, task, w, u, ran, seen⟩ : ∃ a,
        Activity.Reaches (retyped.context {} {}) (.start retyped {}) a ∧
        a.task = .stmt (.assign ⟨3, 1⟩ (.variable ⟨3, 1⟩ "x") (.name ⟨3, 6⟩ "a")) ∧
        ∃ w u, (do
          Run.begins (retyped.context {} {}) (.assign ⟨3, 1⟩ (.variable ⟨3, 1⟩ "x") (.name ⟨3, 6⟩ "a"))
          Run.eval (retyped.context {} {}) (Parts.enterAt (retyped.context {} {}) a.calls) (.name ⟨3, 6⟩ "a"))
            a.state = .ok w u ∧
          (w, u.memory.lookup u.env "x") = (.array 0, some ⟨.integer 5, none, false⟩) := by
      refine ⟨_, .head ⟨_, .tail _ (.head _), _, _, rfl, rfl⟩ <| .head ⟨_, .tail _ (.head _), _, _, rfl, rfl⟩ <|
        .head ⟨_, .head _, _, _, rfl, rfl⟩ .refl, rfl, ?_⟩
      exact ok_of_observed (fun w (u : RunState) => (w, u.memory.lookup u.env "x")) (by decide +kernel)
    obtain ⟨⟨⟩, s, begun, evaluated⟩ := bind_eq_ok.mp ran
    obtain ⟨rfl, held⟩ := Prod.mk.inj seen
    have untyped : u.memory.Untyped u.env "x" := by
      rw [Memory.Untyped, held]
      rintro b ⟨⟩
      exact ⟨rfl, rfl⟩
    have takes := (untyped_names_take_values retyped {} {}).2 a _ _ _ _ s _ u reaches task begun evaluated untyped
    have fits : ¬u.memory.Clashes u.env "x" (.array 0) := by
      rintro ⟨b, old, new, bound, holds, -⟩
      cases held.symm.trans bound
      cases holds
    obtain ⟨n, found, executed⟩ := takes.fits fits
    exact ⟨a, u, n, reaches, held, found, executed⟩

/-- A program that stores arrays of two sizes under a name that was never declared. -/
def twoSizes : Program where
  body :=
    [.declareArray ⟨1, 1⟩ "a" [⟨1, 2⟩] "INTEGER",
    .declareArray ⟨2, 1⟩ "b" [⟨1, 3⟩] "INTEGER",
    .assign ⟨3, 1⟩ (.variable ⟨3, 1⟩ "x") (.name ⟨3, 6⟩ "a"),
    .assign ⟨4, 1⟩ (.variable ⟨4, 1⟩ "x") (.name ⟨4, 6⟩ "b"),
    .output ⟨5, 1⟩ [.name ⟨5, 8⟩ "x"]]

/-- A name without a type that holds an array refuses one of another size. A program that stores one is checked
without errors, and the assignment stops its run. -/
theorem twoSizes_refused :
    (¬∀ (m : Memory) (env : Environment) (name : String) (v : Value), m.Reached → m.Opens env → m.Untyped env name →
      ∃ i n, m.assign env name v = (.ok i, n) ∧ n.lookup env name = some ⟨v, none, false⟩) ∧
    (∃ review, Review.ofProgram ({} : Settings).limits.maxArrayElements twoSizes = .ok review ∧
      review.errors = []) ∧
    twoSizes.run {} {} = .ok ⟨[{
      kind := .error, line := some 4, code := some .typeMismatch
      text := "Line 4: Runtime Error - Type mismatch: array dimensions or element types differ" }], false, 4⟩ := by
  refine ⟨?_, Review.exists_of_errors (by decide +kernel), by decide +kernel⟩
  intro takes
  obtain ⟨i, n, stored, -⟩ := takes Memory.twoRows Memory.globals "x" (.array 1) Memory.twoRows_reached
    ⟨0, [], rfl, Nat.one_pos⟩ Memory.twoRows_untyped
  have refused : (Memory.twoRows.assign Memory.globals "x" (.array 1)).1 = .error .arraysDiffer := by decide +kernel
  rw [stored] at refused
  cases refused

end Pseudocode
