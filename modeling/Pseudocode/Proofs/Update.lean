import Pseudocode.Proofs.Shown

/-! The operations on the memory as sequences of its steps: defining a name, copying a value, and
storing under a name. -/
namespace Pseudocode

namespace Value

/-- A value is refused for its type, or because it is too large. -/
theorem coerce_fault {v : Value} (failed : v.coerce target = .error fault) :
    fault.isMismatch = true ∨ ∃ cause, fault = .overflow cause := by
  unfold coerce at failed
  split at failed
  · cases failed
  · cases failed
  · split at failed
    · cases failed
    split at failed
    next n _ _ =>
      cases converted : (Number.integer n).toReal with
      | ok x =>
        rw [converted] at failed
        cases failed
      | error cause =>
        rw [converted] at failed
        cases failed
        exact .inr ⟨cause, rfl⟩
    · split at failed <;> cases failed
      exact .inl rfl
    · cases failed
    · split at failed <;> cases failed
      exact .inl rfl
    · cases failed
      exact .inl rfl

theorem coerce_ends (v : Value) (declared : Option DataType) : v.coerce declared ≠ .error .endless := by
  intro failed
  obtain mismatch | ⟨_, same⟩ := coerce_fault failed
  · cases mismatch
  · cases same

end Value

namespace ArrayCell

variable {bounds : List Bound} {indices : List Int} {fault : StoreFault}

theorem offsetFrom_fault (failed : offsetFrom start bounds indices = .error fault) :
    fault = .indexOutOfBounds := by
  fun_induction offsetFrom start bounds indices with
  | case1 => exact (Except.error.inj failed).symm
  | case2 _ _ _ _ _ _ ih => exact ih failed
  | case3 => cases failed

theorem offset_fault (failed : offset bounds indices = .error fault) :
    fault = .indexOutOfBounds ∨ fault = .indexCount bounds.length indices.length := by
  unfold offset at failed
  split at failed
  · exact .inr (Except.error.inj failed).symm
  · exact .inl (offsetFrom_fault failed)

theorem offset_ends (failed : offset bounds indices = .error fault) : fault ≠ .endless := by
  obtain rfl | rfl := offset_fault failed <;> nofun

theorem place_ends (cell : ArrayCell) (indices : List Int) (v : Value) :
    cell.place indices v ≠ .error .endless := by
  intro failed
  unfold place at failed
  cases found : offset cell.bounds indices with
  | error fault =>
    simp only [found, bind, Except.bind] at failed
    cases failed
    exact offset_ends found rfl
  | ok position =>
    cases coerced : v.coerce cell.elementType with
    | error fault =>
      simp only [found, coerced, bind, Except.bind] at failed
      cases failed
      exact Value.coerce_ends _ _ coerced
    | ok w =>
      simp only [found, coerced, bind, Except.bind] at failed
      cases failed

theorem get_ends (cell : ArrayCell) (indices : List Int) : cell.get indices ≠ .error .endless := by
  intro failed
  unfold get at failed
  cases found : offset cell.bounds indices with
  | error fault =>
    simp only [found, bind, Except.bind] at failed
    cases failed
    exact offset_ends found rfl
  | ok position =>
    simp only [found, bind, Except.bind] at failed
    cases failed

end ArrayCell

namespace Memory

variable {P : Policy} {limit : Nat} {m : Memory} {v : Value}

theorem Sound.find (sound : Sound P limit m) {env : Environment} (found : m.find env name = some i) :
    i < m.bindings.size := by
  induction env with
  | nil => cases found
  | cons frame outer ih =>
    unfold Memory.find at found
    split at found
    next here => exact sound.names (Option.some.inj found ▸ here)
    next => exact ih found

theorem Sound.lookup (sound : Sound P limit m) (found : m.lookup env name = some b) :
    b.value.Lives m := by
  obtain ⟨i, -, held⟩ := Option.bind_eq_some_iff.mp found
  exact sound.values held

theorem Sound.get (sound : Sound P limit m) {i : ArrayId} (held : m.arrays[i]? = some cell)
    (got : cell.get indices = .ok v) : v.Lives m := by
  unfold ArrayCell.get at got
  cases found : ArrayCell.offset cell.bounds indices with
  | error fault =>
    rw [found] at got
    cases got
  | ok position =>
    rw [found] at got
    cases got
    rw [Array.getD_eq_getD_getElem?]
    cases element : cell.elements[position]? with
    | none => nofun
    | some v => exact sound.elements held v (Array.mem_of_getElem? element)

theorem copyValue_steps (m : Memory) (v : Value) : Steps P limit m (m.copyValue v).2 := by
  unfold copyValue
  split
  next cell held =>
    cases v with
    | array i => exact .single (.copiedArray held)
    | _ => cases held
  next => exact .refl

theorem copyValue_lives (lives : v.Lives m) : (m.copyValue v).1.Lives (m.copyValue v).2 := by
  unfold copyValue
  split
  next =>
    rintro i same
    cases same
    simp [addArray]
  next => exact lives

theorem copyValue_bindings (m : Memory) (v : Value) : (m.copyValue v).2.bindings = m.bindings := by
  unfold copyValue
  split <;> rfl

theorem copyValue_type (m : Memory) (v : Value) : (m.copyValue v).1.type = v.type := by
  unfold copyValue
  split
  next cell held =>
    cases v with
    | array i => rfl
    | _ => cases held
  next => rfl

theorem define_steps (env : Environment) (name : String) {b : Binding}
    (fits : b.value.Fits b.declared) (lives : b.value.Lives m) :
    Steps P limit m (m.define env name b).2 := by
  have added : Steps P limit m (m.addBinding b).2 := .single (.newBinding fits lives)
  cases env with
  | nil => exact added
  | cons frame outer => exact added.tail (.newName (by simp [addBinding]))

/-- A name that is defined adds one binding. -/
@[simp] theorem binding_define (m : Memory) (env : Environment) (name : String) (b : Binding)
    (i : BindingId) : (m.define env name b).2.binding? i =
      if i = m.bindings.size then some b else m.binding? i := by
  cases env <;> exact binding_addBinding m i b

@[simp] theorem arrays_define (m : Memory) (env : Environment) (name : String) (b : Binding) :
    (m.define env name b).2.arrays = m.arrays := by
  cases env <;> rfl

/-- A name is found where it has been defined. -/
theorem find_define {env : Environment} (opens : m.Opens env) (name : String) (b : Binding) :
    (m.define env name b).2.find env name = some m.bindings.size := by
  obtain ⟨frame, outer, rfl, inside⟩ := opens
  have here : (m.define (frame :: outer) name b).2.findIn frame name = some m.bindings.size := by
    refine (findIn_bind (m.addBinding b).2 m.bindings.size frame frame name name).trans (if_pos ?_)
    exact ⟨rfl, inside, rfl⟩
  unfold find
  rw [here]

/-- The binding that a store under a name goes to, which may have to be defined first. -/
def locate (m : Memory) (env : Environment) (name : String) : BindingId × Memory :=
  match m.find env name with
  | some i => (i, m)
  | none => m.define env name ⟨.null, none, false⟩

/-- A store under a name: it goes to one binding, and takes effect if that accepts the value. -/
theorem assign_eq (m : Memory) (env : Environment) (name : String) (v : Value) :
    m.assign env name v =
      match (m.locate env name).2.binding? (m.locate env name).1 with
      | none => (.ok (m.locate env name).1, (m.locate env name).2)
      | some b =>
        match (m.locate env name).2.accept b v with
        | .ok kept => (.ok (m.locate env name).1, (m.locate env name).2.setValue (m.locate env name).1 kept)
        | .error fault => (.error fault, (m.locate env name).2) := rfl

theorem locate_steps (m : Memory) (env : Environment) (name : String) :
    Steps P limit m (m.locate env name).2 := by
  unfold locate
  split
  next => exact .refl
  next => exact define_steps env name (.inl rfl) nofun

theorem assign_steps (env : Environment) (name : String) (lives : v.Lives m) :
    Steps P limit m (m.assign env name v).2 := by
  have located : Steps P limit m (m.locate env name).2 := locate_steps m env name
  rw [assign_eq]
  split
  next => exact located
  next b held =>
    split
    next kept accepted =>
      exact located.tail (.setValue held (located.grows.lives lives) accepted)
    next => exact located

/-- Only the text of a constant can be without end when a value is stored. -/
theorem accept_ends {b : Binding} (lives : b.value.Lives m) (failed : m.accept b v = .error .endless) :
    ¬m.Flat := by
  intro flat
  unfold accept at failed
  split at failed
  · cases shown : m.text b.value with
    | ok text =>
      rw [shown] at failed
      cases failed
    | error fault =>
      rw [shown] at failed
      cases fault with
      | overflow cause => cases failed
      | endless => exact flat.text_ends lives shown
  · split at failed
    · split at failed
      · split at failed
        · split at failed <;> cases failed
        · cases failed
      · split at failed
        · split at failed <;> cases failed
        · cases failed
      · cases failed
    · split at failed
      · cases failed
      · exact Value.coerce_ends _ _ failed

theorem assign_ends (sound : Sound P limit m)
    (failed : (m.assign env name v).1 = .error .endless) : ¬(m.assign env name v).2.Flat := by
  have located : Steps P limit m (m.locate env name).2 := locate_steps m env name
  rw [assign_eq] at *
  split at failed
  next => cases failed
  next b held =>
    split at failed
    next => cases failed
    next fault refused =>
      cases failed
      exact accept_ends ((located.sound sound).values held) refused

end Memory

end Pseudocode
