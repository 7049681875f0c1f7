import Pseudocode.Proofs.Parts
import Pseudocode.Proofs.ReviewedCode

/-! Types of what is stored. In a run of a program that was checked without errors, every variable and
every element of an array holds NULL or a value of its type, an array has as many elements as its bounds
ask for and keeps its bounds, and a function gives back NULL or a value of the type it declares. -/
namespace Pseudocode

/-- An array with an element for each index tuple, each NULL or of the type of the elements. -/
structure ArrayCell.Typed (limit : Nat) (cell : ArrayCell) : Prop where
  size : (cell.elements.size : Int) = elementCount cell.bounds
  small : cell.elements.size ≤ limit
  elements : ∃ type, cell.elementType = some type ∧ ∀ v ∈ cell.elements, v = .null ∨ v.type = type

/-- A memory in which every binding with a type holds NULL or a value of that type, arrays that are
held exist, and every array is typed. -/
structure Memory.Typed (limit : Nat) (m : Memory) : Prop where
  bindings : ∀ {i : BindingId} {b}, m.binding? i = some b → ∀ type ∈ b.declared,
    b.value = .null ∨ b.value.type = type
  held : ∀ {i : BindingId} {b}, m.binding? i = some b → ∀ {j}, b.value = .array j →
    ∃ cell, m.arrays[j]? = some cell
  arrays : ∀ {i : ArrayId} {cell}, m.arrays[i]? = some cell → cell.Typed limit

/-- Every array is still there, with the same bounds and the same type of elements. -/
def Memory.KeepsArrays (m n : Memory) : Prop :=
  ∀ {i : ArrayId} {cell}, m.arrays[i]? = some cell → ∃ later, n.arrays[i]? = some later ∧
    later.bounds = cell.bounds ∧ later.elementType = cell.elementType

/-- Bounds in order ask for at least one element. -/
theorem ArrayCell.elementCount_pos {bounds : List Bound}
    (ordered : ∀ b ∈ bounds, b.lower ≤ b.upper) : 0 < elementCount bounds := by
  have product (total : Int) (positive : 0 < total) :
      0 < bounds.foldl (fun total b => total * b.extent) total := by
    induction bounds generalizing total with
    | nil => exact positive
    | cons b rest ih =>
      have extent : 0 < b.extent := by
        have := ordered b (.head _)
        unfold Bound.extent
        omega
      exact ih (fun b member => ordered b (.tail _ member)) _ (Int.mul_pos positive extent)
  exact product 1 Int.one_pos

section

variable {ctx : RunContext} {whole : Prop} {limit : Nat} {cell : ArrayCell} {m : Memory}

theorem ArrayCell.Sound.typed (sound : cell.Sound (.reviewed ctx whole limit) limit) :
    cell.Typed limit := by
  obtain ⟨name, ⟨ordered, -, type, known⟩, same⟩ := sound.permitted
  have positive := elementCount_pos ordered
  have small := sound.small
  have size := sound.size
  refine ⟨by omega, by omega, type, same.trans known, fun v member => ?_⟩
  exact (sound.fits v member).imp_right fun fits => fits type (same.trans known)

theorem Memory.Sound.typed (sound : m.Sound (.reviewed ctx whole limit) limit) : m.Typed limit where
  bindings held type declared := (sound.types held).imp_right fun fits => fits type declared
  held held j same := by
    have inside := sound.values held j same
    exact ⟨_, Array.getElem?_eq_getElem inside⟩
  arrays held := (sound.arrays held).typed

end

theorem RunState.Later.keepsArrays {P : Policy} {ctx : RunContext} {s t : RunState} (later : s.Later P ctx t) : s.memory.KeepsArrays t.memory :=
  fun held => later.memory.grows.shape held

namespace Run

theorem storeFailed_fails (line : Nat) (report : StoreFault → RunFault) (fault : StoreFault)
    {good : α → RunState → Prop} :
    Ends (storeFailed line report fault : Run α) s good (fun _ _ => True) := by
  cases fault <;> exact trivial

theorem resultOf_fits (function : r.kind = .function) (line : Nat) (c : Completion) (s : RunState) :
    Ends (resultOf line r callee c) s (fun v _ => v.Fits (r.returns.bind DataType.ofName?))
      (fun _ _ => True) := by
  unfold resultOf
  rw [function]
  cases c with
  | normal => exact trivial
  | returned value returnLine =>
    simp only [ends_bind, ends_get]
    split
    next kept accepted => exact Memory.accept_fits accepted
    next fault refused => exact storeFailed_fails returnLine .store fault

/-- A function that gives back a value has converted it to the type it declares. -/
theorem call_fits {ctx : RunContext} {enter : Enter} {plain : Run (List Value)}
    {bound : List Param → Run (List BindingId)} (found : ctx.routine? callee = some r)
    (function : r.kind = .function) (s : RunState) :
    Ends (call ctx enter asValue line callee count plain bound) s
      (fun v _ => v.Fits (r.returns.bind DataType.ofName?)) (fun _ _ => True) := by
  unfold call
  rw [found]
  dsimp only
  rw [if_neg (by simp [function])]
  split
  · exact trivial
  · rw [ends_bind]
    refine ends_of_forall (fun bindings t => ?_) fun _ _ => trivial
    rw [ends_bind]
    exact ends_of_forall (fun c u => resultOf_fits function line c u) fun _ _ => trivial

end Run

/-- What is stored is typed when the activity begins and however it ends, arrays keep their bounds
until then and in whatever it leads to, and if it is the call of a function, the value that comes back
is NULL or of the type that the function declares. -/
structure Activity.Typed (ctx : RunContext) (a : Activity) : Prop where
  before : a.state.memory.Typed ctx.settings.limits.maxArrayElements
  after : Ends (a.task.run ctx a.calls) a.state
    (fun _ t => t.memory.Typed ctx.settings.limits.maxArrayElements ∧
      a.state.memory.KeepsArrays t.memory)
    (fun _ t => t.memory.Typed ctx.settings.limits.maxArrayElements ∧
      a.state.memory.KeepsArrays t.memory)
  within : ∀ b, Reaches ctx a b → a.state.memory.KeepsArrays b.state.memory
  result : ∀ {asValue line callee es r v t}, a.task = .call asValue line callee es →
    ctx.routine? callee = some r → r.kind = .function →
    Parts.callHere ctx a.calls asValue line callee es a.state = .ok v t →
    ∀ word ∈ r.returns, ∃ type, DataType.ofName? word = some type ∧ (v = .null ∨ v.type = type)

/-- Whatever a run of a program that was checked without errors comes to is typed. -/
theorem reviewed_run_keeps_types (p : Program) (settings : Settings) (host : Host) (review : Review)
    (reviewed : Review.ofProgram settings.limits.maxArrayElements p = .ok review)
    (valid : review.errors = []) :
    ∀ a, Activity.Reaches (p.context settings host) (.start p settings) a →
      a.Typed (p.context settings host) := by
  intro a reaches
  have obeys := Review.obeys reviewed valid (p.context settings host) (p.context_routines settings host)
  have sound := reaches.sound obeys.routines (Activity.start_sound obeys settings host)
  have conducts := Task.run_conducts obeys.routines a.calls sound.ready sound.obeys
  refine ⟨sound.ready.memory.typed, ?_, fun b further => ?_, ?_⟩
  · exact conducts.mono
      (fun _ t ⟨later, _, ready, _⟩ => ⟨ready.memory.typed, later.keepsArrays⟩)
      (fun _ t ⟨later, _, due⟩ => ⟨due.memory.typed, later.keepsArrays⟩)
  · exact (further.later obeys.routines sound).keepsArrays
  · intro asValue line callee es r v t _ found function returned word stated
    obtain ⟨type, known⟩ := Review.resultKnown reviewed valid (p.context_routines settings host) found
      function word stated
    have fits := (Run.call_fits found function a.state).of_ok returned
    exact ⟨type, known, fits.imp_right fun same => same type (by rw [stated]; exact known)⟩

/-- A program that stores what a function gives back in an array. -/
def storedResult : Program where
  body :=
    [.routine ⟨⟨1, 1⟩, .function, some "f", [⟨"x", "INTEGER", .byValue, none⟩], some "REAL",
      [.giveBack ⟨2, 1⟩ (some (.name ⟨2, 8⟩ "x"))]⟩,
    .declareArray ⟨4, 1⟩ "a" [⟨1, 2⟩] "REAL",
    .assign ⟨5, 1⟩ (.element ⟨5, 1⟩ "a" [.literal ⟨5, 3⟩ (.integer 1)])
      (.call ⟨5, 9⟩ "f" [.literal ⟨5, 11⟩ (.integer 3)])]

theorem storedResult_keeps_types :
    (Activity.start storedResult {}).Typed (storedResult.context {} {}) :=
  reviewed_run_keeps_types storedResult {} {} ⟨_⟩ rfl rfl _ .refl

end Pseudocode
