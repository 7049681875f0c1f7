import Mathlib.Logic.Relation
import Pseudocode.Proofs.Policy

/-! What a run can do to the memory. `Memory.Step` lists every change that execution ever makes to
arrays, bindings and frames, each with what is known of the values involved; every invariant of the
memory is then a fact about these seven changes. `Memory.Sound` is such an invariant: values fit the
types they are stored under, and names, bindings and arrays refer only to what exists. -/
namespace Pseudocode

/-- A value that is an array names one that exists. -/
def Value.Lives (m : Memory) (v : Value) : Prop := ∀ id, v = .array id → id < m.arrays.size

/-- A value that a slot of the given type may hold; a slot without a type holds anything. -/
def Value.Fits (declared : Option DataType) (v : Value) : Prop :=
  v = .null ∨ ∀ type ∈ declared, v.type = type

/-- Names can be defined in an environment: its innermost frame exists. -/
def Memory.Opens (m : Memory) (env : Environment) : Prop :=
  ∃ frame outer, env = frame :: outer ∧ frame < m.frames.size

namespace Value

theorem lives_of_scalar (scalar : v.type ≠ .array) : Lives m v := by
  rintro id rfl
  exact absurd rfl scalar

theorem lives_initial (declared : Option DataType) : Lives m (initial declared) := by
  apply lives_of_scalar
  rcases declared with _ | ⟨⟨⟩⟩ <;> simp [initial, type]

theorem Lives.of_le (lives : Lives m v) (grown : m.arrays.size ≤ n.arrays.size) : Lives n v :=
  fun id same => Nat.lt_of_lt_of_le (lives id same) grown

theorem fits_initial (declared : Option DataType) : Fits declared (initial declared) := by
  rcases declared with _ | ⟨⟨⟩⟩ <;> simp [Fits, initial, type]

theorem coerce_untyped (v : Value) : v.coerce none = .ok v := by cases v <;> rfl

theorem coerce_same (v : Value) : v.coerce (some v.type) = .ok v := by cases v <;> rfl

theorem coerce_integer (n : Int) :
    coerce (.integer n) (some .real) = ((Number.integer n).toReal.map .real).mapError .overflow := rfl

/-- Every way in which a typed slot keeps a value: as it is, or converted between the two kinds of
numbers or the two kinds of text. -/
theorem coerce_cases {v w : Value} {target : DataType} (kept : v.coerce (some target) = .ok w) :
    (w = v ∧ (v = .null ∨ v.type = target)) ∨
    (∃ n x, v = .integer n ∧ target = .real ∧ w = .real x) ∨
    (∃ x n, v = .real x ∧ target = .integer ∧ w = .integer n) ∨
    (∃ s, v = .char s ∧ target = .string ∧ w = .string s) ∨
    (∃ s, v = .string s ∧ target = .char ∧ s.length = 1 ∧ w = .char s) := by
  by_cases same : v.type = target
  · subst same
    rw [coerce_same] at kept
    exact .inl ⟨(Except.ok.inj kept).symm, .inr rfl⟩
  cases v with
  | null =>
    cases kept
    exact .inl ⟨rfl, .inl rfl⟩
  | integer n =>
    cases target with
    | real =>
      rw [coerce_integer] at kept
      cases converted : (Number.integer n).toReal with
      | ok x =>
        rw [converted] at kept
        cases kept
        exact .inr (.inl ⟨_, _, rfl, rfl, rfl⟩)
      | error cause =>
        rw [converted] at kept
        cases kept
    | integer => exact absurd rfl same
    | _ => cases kept
  | real x =>
    cases target with
    | integer =>
      simp only [coerce, Value.type, reduceCtorEq, if_false] at kept
      split at kept
      · cases kept
        exact .inr (.inr (.inl ⟨_, _, rfl, rfl, rfl⟩))
      · cases kept
    | real => exact absurd rfl same
    | _ => cases kept
  | char s =>
    cases target with
    | string =>
      cases kept
      exact .inr (.inr (.inr (.inl ⟨_, rfl, rfl, rfl⟩)))
    | char => exact absurd rfl same
    | _ => cases kept
  | string s =>
    cases target with
    | char =>
      simp only [coerce, Value.type, reduceCtorEq, if_false] at kept
      split at kept
      next one =>
        cases kept
        exact .inr (.inr (.inr (.inr ⟨_, rfl, rfl, one, rfl⟩)))
      next => cases kept
    | string => exact absurd rfl same
    | _ => cases kept
  | boolean b =>
    cases target with
    | boolean => exact absurd rfl same
    | _ => cases kept
  | array id =>
    cases target with
    | array => exact absurd rfl same
    | _ => cases kept

theorem coerce_fits (kept : coerce v declared = .ok w) : Fits declared w := by
  cases declared with
  | none => exact .inr (by simp)
  | some target =>
    obtain ⟨rfl, rfl | same⟩ | ⟨n, x, rfl, rfl, rfl⟩ | ⟨x, n, rfl, rfl, rfl⟩ | ⟨s, rfl, rfl, rfl⟩ |
      ⟨s, rfl, rfl, -, rfl⟩ := coerce_cases kept
    · exact .inl rfl
    · exact .inr (by simpa using same)
    all_goals exact .inr (by simp [type])

/-- Storing never makes an array out of something else. -/
theorem Lives.coerce (lives : Lives m v) (kept : v.coerce declared = .ok w) : Lives m w := by
  cases declared with
  | none =>
    rw [coerce_untyped] at kept
    exact Except.ok.inj kept ▸ lives
  | some target =>
    obtain ⟨rfl, -⟩ | ⟨n, x, rfl, rfl, rfl⟩ | ⟨x, n, rfl, rfl, rfl⟩ | ⟨s, rfl, rfl, rfl⟩ |
      ⟨s, rfl, rfl, -, rfl⟩ := coerce_cases kept
    · exact lives
    all_goals exact lives_of_scalar (by simp [type])

end Value

namespace Memory

variable {m n : Memory} {v kept : Value}

/-- A binding takes a value only if it is no constant: an array as it is, anything else converted. -/
theorem accept_cases {b : Binding} (accepted : m.accept b v = .ok kept) :
    b.isConstant = false ∧
      ((∃ id, v = .array id ∧ kept = v ∧ (b.declared = none ∨ b.declared = some .array)) ∨
        v.coerce b.declared = .ok kept) := by
  unfold accept at accepted
  split at accepted
  · split at accepted <;> cases accepted
  next writable =>
    refine ⟨by simpa using writable, ?_⟩
    split at accepted
    next id =>
      have taken : (b.declared = none ∨ b.declared = some .array) ∧ Value.array id = kept := by
        split at accepted
        next untyped =>
          split at accepted
          · split at accepted <;> cases accepted
            exact ⟨.inl untyped, rfl⟩
          · cases accepted
            exact ⟨.inl untyped, rfl⟩
        next typed =>
          split at accepted
          · split at accepted <;> cases accepted
            exact ⟨.inr typed, rfl⟩
          · cases accepted
            exact ⟨.inr typed, rfl⟩
        next => cases accepted
      exact .inl ⟨id, rfl, taken.2.symm, taken.1⟩
    next =>
      split at accepted
      · cases accepted
      · exact .inr accepted

theorem accept_lives {b : Binding} (lives : v.Lives m) (accepted : m.accept b v = .ok kept) :
    kept.Lives m := by
  obtain ⟨-, ⟨id, rfl, rfl, -⟩ | coerced⟩ := accept_cases accepted
  · exact lives
  · exact lives.coerce coerced

theorem accept_fits {b : Binding} (accepted : m.accept b v = .ok kept) : kept.Fits b.declared := by
  obtain ⟨-, ⟨id, rfl, rfl, untyped | typed⟩ | coerced⟩ := accept_cases accepted
  · exact .inr (by simp [untyped])
  · exact .inr (by simp [typed, Value.type])
  · exact Value.coerce_fits coerced

end Memory

namespace Memory

/-- One change of the memory by a run of code under a policy, with at most `limit` elements in each
array that it declares. -/
inductive Step (P : Policy) (limit : Nat) : Memory → Memory → Prop
  | freshArray {m : Memory} : P.array bounds elementType → ArrayCell.elementCount bounds ≤ limit →
      Step P limit m (m.addArray (.fresh bounds (DataType.ofName? elementType))).2
  | copiedArray {m : Memory} {i : ArrayId} {cell : ArrayCell} : m.arrays[i]? = some cell →
      Step P limit m (m.addArray cell).2
  | newBinding {m : Memory} {b : Binding} : b.value.Fits b.declared → b.value.Lives m →
      Step P limit m (m.addBinding b).2
  | newFrame {m : Memory} : Step P limit m m.addFrame.2
  | newName {m : Memory} {i : BindingId} : i < m.bindings.size → Step P limit m (m.bind frame name i)
  | setElement {m : Memory} {i : ArrayId} {cell : ArrayCell} {v kept : Value} :
      m.arrays[i]? = some cell → v.Lives m → cell.place indices v = .ok (position, kept) →
      Step P limit m (m.setElement i position kept)
  | setValue {m : Memory} {i : BindingId} {b : Binding} {v kept : Value} :
      m.binding? i = some b → v.Lives m → m.accept b v = .ok kept →
      Step P limit m (m.setValue i kept)

/-- Any number of such changes. -/
abbrev Steps (P : Policy) (limit : Nat) : Memory → Memory → Prop :=
  Relation.ReflTransGen (Step P limit)

end Memory

/-- An array as its declaration made it, but for the values of its elements. -/
structure ArrayCell.Sound (P : Policy) (limit : Nat) (cell : ArrayCell) : Prop where
  permitted : ∃ name, P.array cell.bounds name ∧ cell.elementType = DataType.ofName? name
  small : ArrayCell.elementCount cell.bounds ≤ limit
  size : cell.elements.size = (ArrayCell.elementCount cell.bounds).toNat
  fits : ∀ v ∈ cell.elements, v.Fits cell.elementType

structure Memory.Sound (P : Policy) (limit : Nat) (m : Memory) : Prop where
  arrays : ∀ {i : ArrayId} {cell}, m.arrays[i]? = some cell → ArrayCell.Sound P limit cell
  elements : ∀ {i : ArrayId} {cell}, m.arrays[i]? = some cell → ∀ v ∈ cell.elements, v.Lives m
  values : ∀ {i : BindingId} {b}, m.binding? i = some b → b.value.Lives m
  types : ∀ {i : BindingId} {b}, m.binding? i = some b → b.value.Fits b.declared
  names : ∀ {frame name i}, m.findIn frame name = some i → i < m.bindings.size

namespace ArrayCell

variable {P : Policy} {limit : Nat} {cell : ArrayCell} {v kept : Value}

theorem fresh_sound {bounds : List Bound} (permitted : P.array bounds name)
    (small : elementCount bounds ≤ limit) :
    (fresh bounds (DataType.ofName? name)).Sound P limit where
  permitted := ⟨name, permitted, rfl⟩
  small := small
  size := by simp [fresh]
  fits v member := by
    obtain ⟨-, rfl⟩ := Array.mem_replicate.mp member
    exact Value.fits_initial _

theorem place_coerce (placed : cell.place indices v = .ok (position, kept)) :
    v.coerce cell.elementType = .ok kept := by
  unfold place at placed
  cases found : offset cell.bounds indices with
  | error fault => simp [found, bind, Except.bind] at placed
  | ok position =>
    cases coerced : v.coerce cell.elementType with
    | error fault => simp [found, coerced, bind, Except.bind] at placed
    | ok w =>
      simp only [found, coerced, bind, Except.bind, pure, Except.pure, Except.ok.injEq,
        Prod.mk.injEq] at placed
      rw [placed.2]

theorem mem_setAt (member : v ∈ (cell.setAt position kept).elements) :
    v ∈ cell.elements ∨ v = kept :=
  Array.mem_or_eq_of_mem_setIfInBounds member

theorem Sound.setAt (sound : cell.Sound P limit) (fits : kept.Fits cell.elementType) :
    (cell.setAt position kept).Sound P limit where
  permitted := sound.permitted
  small := sound.small
  size := by simpa [ArrayCell.setAt] using sound.size
  fits v member := by
    obtain old | rfl := mem_setAt member
    · exact sound.fits v old
    · exact fits

end ArrayCell

namespace Memory

variable {P : Policy} {limit : Nat} {m n : Memory} {v : Value}

theorem initial_sound : Sound P limit initial where
  arrays held := by simp [initial] at held
  elements held := by simp [initial] at held
  values held := by simp [initial, binding?] at held
  types held := by simp [initial, binding?] at held
  names {frame name i} found := by
    cases frame with
    | zero => simp [initial, findIn, Table.get?] at found
    | succ frame => simp [initial, findIn, Table.get?] at found

section Changes

variable (m : Memory) (i j : Nat)

@[simp] theorem array_addArray (cell : ArrayCell) :
    (m.addArray cell).2.arrays[j]? = if j = m.arrays.size then some cell else m.arrays[j]? :=
  Array.getElem?_push

@[simp] theorem binding_addBinding (b : Binding) :
    (m.addBinding b).2.binding? j = if j = m.bindings.size then some b else m.binding? j :=
  Array.getElem?_push

@[simp] theorem array_setElement (position : Nat) (v : Value) :
    (m.setElement i position v).arrays[j]? =
      if i = j then (m.arrays[j]?).map (·.setAt position v) else m.arrays[j]? :=
  Array.getElem?_modify

@[simp] theorem binding_setValue (v : Value) :
    (m.setValue i v).binding? j =
      if i = j then (m.binding? j).map fun b => { b with value := v } else m.binding? j :=
  Array.getElem?_modify

theorem findIn_addFrame (name : String) : m.addFrame.2.findIn i name = m.findIn i name := by
  simp only [findIn, addFrame, Array.getD_eq_getD_getElem?, Array.getElem?_push]
  split
  next fresh => simp [fresh, Table.get?]
  next => rfl

theorem findIn_bind (frame other : FrameId) (name word : String) :
    (m.bind frame name i).findIn other word =
      if frame = other ∧ frame < m.frames.size ∧ word = name then some i else m.findIn other word := by
  simp only [findIn, bind, Array.getD_eq_getD_getElem?, Array.getElem?_modify]
  by_cases same : frame = other
  · subst same
    by_cases inside : frame < m.frames.size
    · simp [inside, Table.get?_set]
    · simp [inside]
  · simp [same]

end Changes

/-- Arrays, bindings and frames are only added; an array keeps its bounds and the type of its elements,
a binding its type and whether it is a constant. -/
structure Grows (m n : Memory) : Prop where
  arrays : m.arrays.size ≤ n.arrays.size
  bindings : m.bindings.size ≤ n.bindings.size
  frames : m.frames.size ≤ n.frames.size
  shape : ∀ {i : ArrayId} {cell}, m.arrays[i]? = some cell →
    ∃ later, n.arrays[i]? = some later ∧ later.bounds = cell.bounds ∧
      later.elementType = cell.elementType
  kind : ∀ {i : BindingId} {b}, m.binding? i = some b →
    ∃ later, n.binding? i = some later ∧ later.declared = b.declared ∧
      later.isConstant = b.isConstant

theorem Grows.refl (m : Memory) : Grows m m :=
  ⟨Nat.le_refl _, Nat.le_refl _, Nat.le_refl _, fun held => ⟨_, held, rfl, rfl⟩,
    fun held => ⟨_, held, rfl, rfl⟩⟩

theorem Grows.trans (first : Grows l m) (second : Grows m n) : Grows l n where
  arrays := Nat.le_trans first.arrays second.arrays
  bindings := Nat.le_trans first.bindings second.bindings
  frames := Nat.le_trans first.frames second.frames
  shape held := by
    obtain ⟨cell, held, bounds, type⟩ := first.shape held
    obtain ⟨later, held, laterBounds, laterType⟩ := second.shape held
    exact ⟨later, held, laterBounds.trans bounds, laterType.trans type⟩
  kind held := by
    obtain ⟨b, held, declared, constant⟩ := first.kind held
    obtain ⟨later, held, laterDeclared, laterConstant⟩ := second.kind held
    exact ⟨later, held, laterDeclared.trans declared, laterConstant.trans constant⟩

theorem grows_addArray (m : Memory) (cell : ArrayCell) : Grows m (m.addArray cell).2 where
  arrays := by simp [addArray]
  bindings := Nat.le_refl _
  frames := Nat.le_refl _
  shape held := by
    have inside := (Array.getElem?_eq_some_iff.mp held).1
    exact ⟨_, by rw [array_addArray, if_neg (Nat.ne_of_lt inside), held], rfl, rfl⟩
  kind held := ⟨_, held, rfl, rfl⟩

theorem Step.grows (step : Step P limit m n) : Grows m n := by
  cases step with
  | freshArray => exact grows_addArray m _
  | copiedArray => exact grows_addArray m _
  | newBinding =>
    refine ⟨Nat.le_refl _, by simp [addBinding], Nat.le_refl _, fun held => ⟨_, held, rfl, rfl⟩, fun held => ?_⟩
    have inside := (Array.getElem?_eq_some_iff.mp held).1
    exact ⟨_, by rw [binding_addBinding, if_neg (Nat.ne_of_lt inside), held], rfl, rfl⟩
  | newFrame =>
    exact ⟨Nat.le_refl _, Nat.le_refl _, by simp [addFrame], fun held => ⟨_, held, rfl, rfl⟩,
      fun held => ⟨_, held, rfl, rfl⟩⟩
  | newName =>
    exact ⟨Nat.le_refl _, Nat.le_refl _, by simp [bind], fun held => ⟨_, held, rfl, rfl⟩,
      fun held => ⟨_, held, rfl, rfl⟩⟩
  | setElement =>
    refine ⟨by simp [Memory.setElement], Nat.le_refl _, Nat.le_refl _, fun held => ?_,
      fun held => ⟨_, held, rfl, rfl⟩⟩
    rw [array_setElement, held]
    split
    · exact ⟨_, rfl, rfl, rfl⟩
    · exact ⟨_, rfl, rfl, rfl⟩
  | setValue =>
    refine ⟨Nat.le_refl _, by simp [Memory.setValue], Nat.le_refl _, fun held => ⟨_, held, rfl, rfl⟩,
      fun held => ?_⟩
    rw [binding_setValue, held]
    split
    · exact ⟨_, rfl, rfl, rfl⟩
    · exact ⟨_, rfl, rfl, rfl⟩

theorem Steps.grows (steps : Steps P limit m n) : Grows m n := by
  induction steps with
  | refl => exact .refl m
  | tail _ step ih => exact ih.trans step.grows

/-- A change leaves a binding as it is, or stores a value that the binding accepts. -/
theorem Step.binding_cases (step : Step P limit m n) {i : BindingId} (held : m.binding? i = some b) :
    n.binding? i = some b ∨
      ∃ v kept, v.Lives m ∧ m.accept b v = .ok kept ∧ n = m.setValue i kept := by
  cases step with
  | newBinding =>
    have inside := (Array.getElem?_eq_some_iff.mp held).1
    exact .inl (by rw [binding_addBinding, if_neg (Nat.ne_of_lt inside), held])
  | @setValue _ j other v kept found lives accepted =>
    by_cases same : j = i
    · subst same
      cases held.symm.trans found
      exact .inr ⟨v, kept, lives, accepted, rfl⟩
    · exact .inl (by rw [binding_setValue, if_neg same, held])
  | _ => exact .inl held

/-- A change leaves an array as it is, or stores one of its elements. -/
theorem Step.array_cases (step : Step P limit m n) {i : ArrayId} (held : m.arrays[i]? = some cell) :
    n.arrays[i]? = some cell ∨ ∃ indices v position kept,
      cell.place indices v = .ok (position, kept) ∧ n = m.setElement i position kept := by
  have added (new : ArrayCell) : (m.addArray new).2.arrays[i]? = some cell := by
    have inside := (Array.getElem?_eq_some_iff.mp held).1
    rw [array_addArray, if_neg (Nat.ne_of_lt inside), held]
  cases step with
  | freshArray => exact .inl (added _)
  | copiedArray => exact .inl (added _)
  | @setElement indices position _ j other v kept found lives placed =>
    by_cases same : j = i
    · subst same
      cases held.symm.trans found
      exact .inr ⟨indices, v, position, kept, placed, rfl⟩
    · exact .inl (by rw [array_setElement, if_neg same, held])
  | _ => exact .inl held

/-- No change stores into a constant. -/
theorem Step.constant (step : Step P limit m n) {i : BindingId} (held : m.binding? i = some b)
    (constant : b.isConstant = true) : n.binding? i = some b := by
  obtain same | ⟨v, kept, -, accepted, -⟩ := step.binding_cases held
  · exact same
  · cases constant.symm.trans (accept_cases accepted).1

theorem Steps.constant (steps : Steps P limit m n) {i : BindingId} (held : m.binding? i = some b)
    (constant : b.isConstant = true) : n.binding? i = some b := by
  induction steps with
  | refl => exact held
  | tail _ step ih => exact step.constant ih constant

theorem Grows.opens {env : Environment} (grows : Grows m n) (opens : m.Opens env) : n.Opens env := by
  obtain ⟨frame, outer, same, inside⟩ := opens
  exact ⟨frame, outer, same, Nat.lt_of_lt_of_le inside grows.frames⟩

theorem Grows.lives (grows : Grows m n) (lives : v.Lives m) : v.Lives n :=
  lives.of_le grows.arrays

/-- A new array whose elements exist already keeps the memory sound. -/
theorem Sound.addArray (sound : Sound P limit m) (cellSound : cell.Sound P limit)
    (lives : ∀ v ∈ cell.elements, v.Lives m) : Sound P limit (m.addArray cell).2 := by
  have grows := grows_addArray m cell
  refine ⟨fun held => ?_, fun held v member => ?_, fun held => grows.lives (sound.values held),
    fun held => sound.types held, fun found => sound.names found⟩
  · rw [array_addArray] at held
    split at held
    · exact Option.some.inj held ▸ cellSound
    · exact sound.arrays held
  · rw [array_addArray] at held
    split at held
    · cases held
      exact grows.lives (lives v member)
    · exact grows.lives (sound.elements held v member)

theorem Sound.addBinding (sound : Sound P limit m) (fits : b.value.Fits b.declared)
    (lives : b.value.Lives m) : Sound P limit (m.addBinding b).2 := by
  refine ⟨fun held => sound.arrays held, fun held => sound.elements held, fun held => ?_,
    fun held => ?_, fun found => ?_⟩
  · rw [binding_addBinding] at held
    split at held
    · exact Option.some.inj held ▸ lives
    · exact sound.values held
  · rw [binding_addBinding] at held
    split at held
    · exact Option.some.inj held ▸ fits
    · exact sound.types held
  · have inside := sound.names found
    simpa only [Memory.addBinding, Array.size_push] using Nat.lt_succ_of_lt inside

theorem Step.sound (step : Step P limit m n) (sound : Sound P limit m) : Sound P limit n := by
  have grows := step.grows
  cases step with
  | freshArray permitted small =>
    refine sound.addArray (ArrayCell.fresh_sound permitted small) fun v member => ?_
    obtain ⟨-, rfl⟩ := Array.mem_replicate.mp member
    exact Value.lives_initial _
  | copiedArray held => exact sound.addArray (sound.arrays held) (sound.elements held)
  | newBinding fits lives => exact sound.addBinding fits lives
  | newFrame =>
    refine ⟨fun held => sound.arrays held, fun held => sound.elements held,
      fun held => sound.values held, fun held => sound.types held, fun found => ?_⟩
    rw [findIn_addFrame] at found
    exact sound.names found
  | newName inside =>
    refine ⟨fun held => sound.arrays held, fun held => sound.elements held,
      fun held => sound.values held, fun held => sound.types held, fun found => ?_⟩
    rw [findIn_bind] at found
    split at found
    · exact Option.some.inj found ▸ inside
    · exact sound.names found
  | setElement found lives placed =>
    have coerced := ArrayCell.place_coerce placed
    refine ⟨fun held => ?_, fun held w member => ?_, fun held => grows.lives (sound.values held),
      fun held => sound.types held, fun found => sound.names found⟩
    · rw [array_setElement] at held
      split at held
      next same =>
        subst same
        rw [found] at held
        cases held
        exact (sound.arrays found).setAt (Value.coerce_fits coerced)
      next => exact sound.arrays held
    · rw [array_setElement] at held
      split at held
      next same =>
        subst same
        rw [found] at held
        cases held
        obtain old | rfl := ArrayCell.mem_setAt member
        · exact grows.lives (sound.elements found w old)
        · exact grows.lives (lives.coerce coerced)
      next => exact grows.lives (sound.elements held w member)
  | setValue found lives accepted =>
    refine ⟨fun held => sound.arrays held, fun held => sound.elements held, fun held => ?_,
      fun held => ?_, fun named => by simpa [Memory.setValue] using sound.names named⟩
    · rw [binding_setValue] at held
      split at held
      next same =>
        subst same
        rw [found] at held
        cases held
        exact grows.lives (accept_lives lives accepted)
      next => exact sound.values held
    · rw [binding_setValue] at held
      split at held
      next same =>
        subst same
        rw [found] at held
        cases held
        have fits := accept_fits accepted
        exact fits
      next => exact sound.types held

theorem Steps.sound (steps : Steps P limit m n) (sound : Sound P limit m) : Sound P limit n := by
  induction steps with
  | refl => exact sound
  | tail _ step ih => exact step.sound ih

end Memory

end Pseudocode
