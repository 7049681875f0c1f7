import Pseudocode.Proofs.IntegerSize
import Pseudocode.Proofs.Locality

/-! Where INTEGERs are held. Every element of an array has an admissible size, and so has every variable
that can be found, but for the counter of a loop that may just have passed its end. What code does keeps
such bindings so: it gives names only to new bindings, and the counters of loops that have ended, which
may be too large, have no name that outer code could find. -/
namespace Pseudocode

namespace Memory

/-- The binding exists and holds no INTEGER of an inadmissible size. -/
def SizedAt (m : Memory) (i : BindingId) : Prop := ∃ b, m.binding? i = some b ∧ b.value.Sized

def ArraysSized (m : Memory) : Prop :=
  ∀ (i : ArrayId) cell, m.arrays[i]? = some cell → ∀ v ∈ cell.elements, v.Sized

/-- All that can be found in an environment or among the globals has an admissible size, apart perhaps
from one binding. -/
structure SizedIn (apart : Option BindingId) (env : Environment) (m : Memory) : Prop where
  inside : ∀ frame ∈ 0 :: env, frame < m.frames.size
  arrays : m.ArraysSized
  names : ∀ frame ∈ 0 :: env, ∀ name i, m.findIn frame name = some i → i ∉ apart → m.SizedAt i

/-- From one memory to a later one, values of an admissible size were replaced only by such values,
apart perhaps from one binding, and what got a name in a frame that there was is new. -/
structure KeepsSizes (apart : Option BindingId) (m n : Memory) : Prop where
  frames : m.frames.size ≤ n.frames.size
  bindings : m.bindings.size ≤ n.bindings.size
  arrays : m.ArraysSized → n.ArraysSized
  values : ∀ i, i ∉ apart → m.SizedAt i → n.SizedAt i
  names : ∀ frame < m.frames.size, ∀ name i, n.findIn frame name = some i →
    m.findIn frame name = some i ∨ m.bindings.size ≤ i ∧ n.SizedAt i

/-- What there was is as before, and there may be more. -/
structure Extends (m n : Memory) : Prop where
  frames : m.frames.size ≤ n.frames.size
  bindings : m.bindings.size ≤ n.bindings.size
  arrays : n.arrays = m.arrays
  values : ∀ i < m.bindings.size, n.binding? i = m.binding? i
  names : ∀ frame < m.frames.size, ∀ name, n.findIn frame name = m.findIn frame name

/-- The counter of a loop exists. If it is past the end of the loop, it may hold any number. -/
def CounterSized (m : Memory) (counter : BindingId) (last step : Number) : Prop :=
  ∃ b, m.binding? counter = some b ∧ (b.value.number?.any (Run.pastEnd · last step) = false → b.value.Sized)

variable {apart : Option BindingId} {env : Environment} {m n o : Memory} {i : BindingId} {name : String}
  {v w : Value}

theorem SizedAt.lt (sized : m.SizedAt i) : i < m.bindings.size := by
  obtain ⟨b, held, -⟩ := sized
  exact (Array.getElem?_eq_some_iff.mp held).1

theorem SizedIn.find (sized : m.SizedIn none env) (found : m.find env name = some i) : m.SizedAt i := by
  obtain ⟨frame, member, there⟩ := find_eq_some found
  exact sized.names frame (.tail _ member) name i there (Option.not_mem_none i)

theorem SizedIn.lookup (sized : m.SizedIn none env) (found : m.lookup env name = some b) :
    b.value.Sized := by
  obtain ⟨i, named, held⟩ := Option.bind_eq_some_iff.mp found
  obtain ⟨c, same, known⟩ := sized.find named
  cases held.symm.trans same
  exact known

/-- The elements of arrays, and NULL where an array has no element. -/
theorem ArraysSized.get (sized : m.ArraysSized) {id : ArrayId} (held : m.arrays[id]? = some cell)
    (got : cell.get indices = .ok v) : v.Sized := by
  obtain ⟨position, -, made⟩ := ok_of_bind got
  cases made
  rw [Array.getD_eq_getD_getElem?]
  cases element : cell.elements[position]? with
  | none => exact Value.sized_null
  | some v => exact sized id cell held v (Array.mem_of_getElem? element)

namespace KeepsSizes

theorem refl (m : Memory) : KeepsSizes apart m m :=
  ⟨Nat.le_refl _, Nat.le_refl _, id, fun _ _ => id, fun _ _ _ _ => .inl⟩

theorem trans (known : ∀ i ∈ apart, i < m.bindings.size) (first : KeepsSizes apart m n)
    (second : KeepsSizes apart n o) : KeepsSizes apart m o where
  frames := Nat.le_trans first.frames second.frames
  bindings := Nat.le_trans first.bindings second.bindings
  arrays sized := second.arrays (first.arrays sized)
  values i other sized := second.values i other (first.values i other sized)
  names frame there name i found := by
    rcases second.names frame (Nat.lt_of_lt_of_le there first.frames) name i found with before | ⟨new, sized⟩
    · rcases first.names frame there name i before with old | ⟨new, sized⟩
      · exact .inl old
      · have other : i ∉ apart := fun same => Nat.not_lt_of_le new (known i same)
        exact .inr ⟨new, second.values i other sized⟩
    · exact .inr ⟨Nat.le_trans first.bindings new, sized⟩

/-- One more binding may be left out. -/
theorem but (keeps : KeepsSizes none m n) : KeepsSizes apart m n where
  frames := keeps.frames
  bindings := keeps.bindings
  arrays := keeps.arrays
  values i _ := keeps.values i (Option.not_mem_none i)
  names := keeps.names

theorem sizedIn (keeps : KeepsSizes apart m n) (sized : m.SizedIn apart env) : n.SizedIn apart env where
  inside frame member := Nat.lt_of_lt_of_le (sized.inside frame member) keeps.frames
  arrays := keeps.arrays sized.arrays
  names frame member name i found other := by
    rcases keeps.names frame (sized.inside frame member) name i found with old | ⟨-, known⟩
    · exact keeps.values i other (sized.names frame member name i old other)
    · exact known

theorem andThen (first : KeepsSizes none m n) (second : KeepsSizes none n o) : KeepsSizes none m o :=
  first.trans (fun i absent => absurd absent (Option.not_mem_none i)) second

theorem sizedAt (keeps : KeepsSizes none m n) (sized : m.SizedAt i) : n.SizedAt i :=
  keeps.values i (Option.not_mem_none i) sized

end KeepsSizes

/-- A binding that was left out does not have to be any more when its value has an admissible size. -/
theorem SizedIn.whole (sized : m.SizedIn (some i) env) (known : m.SizedAt i) : m.SizedIn none env where
  inside := sized.inside
  arrays := sized.arrays
  names frame member name j found _ := by
    by_cases same : j = i
    · exact same ▸ known
    · exact sized.names frame member name j found fun left => same (Option.some.inj left).symm

namespace Extends

theorem refl (m : Memory) : Extends m m :=
  ⟨Nat.le_refl _, Nat.le_refl _, rfl, fun _ _ => rfl, fun _ _ _ => rfl⟩

theorem addFrame (more : Extends m n) : Extends m n.addFrame.2 where
  frames := Nat.le_trans more.frames (by simp [Memory.addFrame])
  bindings := more.bindings
  arrays := more.arrays
  values := more.values
  names frame there name := (findIn_addFrame n frame name).trans (more.names frame there name)

theorem addBinding (more : Extends m n) (b : Binding) : Extends m (n.addBinding b).2 where
  frames := more.frames
  bindings := Nat.le_trans more.bindings (by simp [Memory.addBinding])
  arrays := more.arrays
  values i there := by
    rw [binding_addBinding, if_neg (Nat.ne_of_lt (Nat.lt_of_lt_of_le there more.bindings))]
    exact more.values i there
  names := more.names

/-- A name in a frame that is new. -/
theorem bind (more : Extends m n) (fresh : m.frames.size ≤ frame) (word : String) (j : BindingId) :
    Extends m (n.bind frame word j) where
  frames := by simpa [Memory.bind] using more.frames
  bindings := more.bindings
  arrays := more.arrays
  values := more.values
  names f there name := by
    rw [findIn_bind, if_neg]
    · exact more.names f there name
    · rintro ⟨rfl, -⟩
      exact Nat.not_lt_of_le fresh there

theorem sizedAt (more : Extends m n) (sized : m.SizedAt i) : n.SizedAt i := by
  obtain ⟨b, held, known⟩ := id sized
  exact ⟨b, (more.values i sized.lt).trans held, known⟩

theorem arraysSized (more : Extends m n) (sized : m.ArraysSized) : n.ArraysSized := by
  intro id cell held
  exact sized id cell (more.arrays ▸ held)

theorem keeps (more : Extends m n) : KeepsSizes none m n where
  frames := more.frames
  bindings := more.bindings
  arrays := more.arraysSized
  values _ _ := more.sizedAt
  names frame there name _ found := .inl (more.names frame there name ▸ found)

/-- What was left out is of no concern to the memory in which it did not exist. -/
theorem within (more : Extends m n) (new : m.bindings.size ≤ i) (keeps : KeepsSizes (some i) n o) :
    KeepsSizes none m o where
  frames := Nat.le_trans more.frames keeps.frames
  bindings := Nat.le_trans more.bindings keeps.bindings
  arrays sized := keeps.arrays (more.arraysSized sized)
  values j _ sized := by
    have other : j ∉ some i := by
      rintro ⟨⟩
      exact Nat.not_lt_of_le new sized.lt
    exact keeps.values j other (more.sizedAt sized)
  names frame there name j found := by
    rcases keeps.names frame (Nat.lt_of_lt_of_le there more.frames) name j found with before | ⟨later, sized⟩
    · exact .inl (more.names frame there name ▸ before)
    · exact .inr ⟨Nat.le_trans more.bindings later, sized⟩

/-- A frame that was opened, on top of some of the frames that there were. -/
theorem opened (more : Extends m n) (sized : m.SizedIn none env) {frame : FrameId}
    (inside : frame < n.frames.size)
    (named : ∀ name i, n.findIn frame name = some i → i ∉ apart → n.SizedAt i) {sub : Environment}
    (within : ∀ f ∈ sub, f ∈ 0 :: env) : n.SizedIn apart (frame :: sub) := by
  have still := more.keeps.sizedIn sized
  have cases {f : FrameId} (member : f ∈ 0 :: frame :: sub) : f = frame ∨ f ∈ 0 :: env := by
    rcases List.mem_cons.mp member with rfl | member
    · exact .inr (.head _)
    · exact (List.mem_cons.mp member).imp_right (within f)
  refine ⟨fun f member => ?_, still.arrays, fun f member name i found other => ?_⟩
  · rcases cases member with rfl | old
    · exact inside
    · exact still.inside f old
  · rcases cases member with rfl | old
    · exact named name i found other
    · exact still.names f old name i found (Option.not_mem_none i)

end Extends

section Changes

theorem keeps_addArray (sized : ∀ v ∈ cell.elements, v.Sized) : KeepsSizes apart m (m.addArray cell).2 where
  frames := Nat.le_refl _
  bindings := Nat.le_refl _
  arrays known id other held := by
    rw [array_addArray] at held
    split at held
    · cases held
      exact sized
    · exact known id other held
  values _ _ := id
  names _ _ _ _ := .inl

theorem keeps_setElement (sized : v.Sized) (id : ArrayId) (position : Nat) :
    KeepsSizes apart m (m.setElement id position v) where
  frames := Nat.le_refl _
  bindings := Nat.le_refl _
  arrays known other cell held w member := by
    rw [array_setElement] at held
    split at held
    · obtain ⟨before, there, rfl⟩ := Option.map_eq_some_iff.mp held
      rcases ArrayCell.mem_setAt member with old | rfl
      · exact known other before there w old
      · exact sized
    · exact known other cell held w member
  values _ _ := fun known => known
  names _ _ _ _ := .inl

theorem keeps_setValue (sized : i ∉ apart → v.Sized) : KeepsSizes apart m (m.setValue i v) where
  frames := Nat.le_refl _
  bindings := by simp [setValue]
  arrays known := known
  values j other := by
    rintro ⟨b, held, known⟩
    unfold SizedAt
    rw [binding_setValue]
    split
    next same =>
      subst same
      exact ⟨_, by rw [held]; rfl, sized other⟩
    next => exact ⟨b, held, known⟩
  names _ _ _ _ := .inl

theorem keeps_define (env : Environment) (name : String) {b : Binding} (sized : b.value.Sized) :
    KeepsSizes apart m (m.define env name b).2 := by
  have added : KeepsSizes apart m (m.addBinding b).2 := ((Extends.refl m).addBinding b).keeps.but
  have new : (m.addBinding b).2.SizedAt m.bindings.size :=
    ⟨b, by rw [binding_addBinding, if_pos rfl], sized⟩
  cases env with
  | nil => exact added
  | cons frame outer =>
    refine ⟨?_, added.bindings, added.arrays, added.values, fun f there word i found => ?_⟩
    · simp [define, addBinding, bindHere, Memory.bind]
    · have names : (m.define (frame :: outer) name b).2.findIn f word =
          if frame = f ∧ frame < m.frames.size ∧ word = name then some m.bindings.size
          else m.findIn f word := findIn_bind (m.addBinding b).2 m.bindings.size frame f name word
      rw [names] at found
      split at found
      · cases found
        exact .inr ⟨Nat.le_refl _, new⟩
      · exact .inl found

theorem keeps_copyValue (sized : m.ArraysSized) (v : Value) : KeepsSizes apart m (m.copyValue v).2 := by
  unfold copyValue
  split
  next cell held =>
    cases v with
    | array id => exact keeps_addArray (sized id cell held)
    | _ => cases held
  next => exact .refl m

theorem copyValue_sized (sized : v.Sized) : (m.copyValue v).1.Sized := by
  unfold copyValue
  split
  · exact Value.sized_array _
  · exact sized

theorem keeps_assign (env : Environment) (name : String) (sized : v.Sized) :
    KeepsSizes none m (m.assign env name v).2 := by
  have located : KeepsSizes none m (m.locate env name).2 := by
    unfold locate
    split
    · exact .refl m
    · exact keeps_define env name Value.sized_null
  rw [assign_eq]
  split
  · exact located
  · split
    next kept accepted =>
      exact located.andThen (keeps_setValue fun _ => sized.accept accepted)
    · exact located

end Changes

end Memory

end Pseudocode
