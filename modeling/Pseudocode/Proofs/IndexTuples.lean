import Mathlib.Algebra.BigOperators.Group.List.Basic
import Mathlib.Data.List.Lex
import Pseudocode.Proofs.DeclaredBounds
import Pseudocode.Proofs.TypeSoundness

/-! Arrays as maps from index tuples. The tuples inside the bounds are numbered row by row without a gap,
so each has an element of its own; every other tuple is refused. A store changes the element of its tuple
alone, and one that fails changes nothing. -/
namespace Pseudocode

namespace ArrayCell

variable {bounds : List Bound} {indices other : List Int} {b : Bound} {position : Nat}

/-- The number of index tuples inside the bounds. -/
def volume (bounds : List Bound) : Nat := (bounds.map (·.extent.toNat)).prod

/-- The number of a tuple when those inside the bounds are counted row by row. -/
def rank : List Bound → List Int → Nat
  | b :: bounds, i :: indices => (i - b.lower).toNat * volume bounds + rank bounds indices
  | _, _ => 0

/-- The tuple with a number. -/
def tupleAt : List Bound → Nat → List Int
  | [], _ => []
  | b :: bounds, position =>
    (b.lower + (position / volume bounds : Nat)) :: tupleAt bounds (position % volume bounds)

@[simp] theorem rank_nil (indices : List Int) : rank [] indices = 0 := rfl

theorem volume_cons (b : Bound) (bounds : List Bound) :
    volume (b :: bounds) = b.extent.toNat * volume bounds := by
  simp only [volume, List.map_cons, List.prod_cons]

theorem elementCount_cons (b : Bound) (bounds : List Bound) :
    elementCount (b :: bounds) = b.extent * elementCount bounds := by
  have scaled (start : Int) : bounds.foldl (fun n b => n * b.extent) start = start * elementCount bounds := by
    unfold elementCount
    induction bounds generalizing start with
    | nil => exact (Int.mul_one start).symm
    | cons b bounds ih =>
      rw [List.foldl_cons, List.foldl_cons, ih, ih (1 * b.extent), Int.one_mul, Int.mul_assoc]
  rw [elementCount, List.foldl_cons, Int.one_mul, scaled]

/-- In order, the bounds ask for an element for each tuple. -/
theorem volume_eq (ordered : ∀ b ∈ bounds, b.lower ≤ b.upper) : (volume bounds : Int) = elementCount bounds := by
  induction bounds with
  | nil => rfl
  | cons b bounds ih =>
    have extent : (b.extent.toNat : Int) = b.extent := by
      have first := ordered b (.head _)
      unfold Bound.extent
      omega
    rw [volume_cons, Int.natCast_mul, extent, ih fun b member => ordered b (.tail _ member), elementCount_cons]

theorem cover_cons : Bound.Cover (b :: bounds) (i :: indices) ↔
    (b.lower ≤ i ∧ i ≤ b.upper) ∧ Bound.Cover bounds indices := List.forall₂_cons

/-- An index inside its bound is less than the extent away from the lower end. -/
theorem distance_lt {i : Int} (low : b.lower ≤ i) (high : i ≤ b.upper) : (i - b.lower).toNat < b.extent.toNat := by
  unfold Bound.extent
  omega

theorem rank_lt (covers : Bound.Cover bounds indices) : rank bounds indices < volume bounds := by
  induction covers with
  | nil => exact Nat.one_pos
  | @cons b i bounds indices inside _ ih =>
    have row := distance_lt inside.1 inside.2
    rw [rank, volume_cons]
    calc (i - b.lower).toNat * volume bounds + rank bounds indices
        < (i - b.lower).toNat * volume bounds + volume bounds := Nat.add_lt_add_left ih _
      _ = ((i - b.lower).toNat + 1) * volume bounds := (Nat.succ_mul ..).symm
      _ ≤ b.extent.toNat * volume bounds := Nat.mul_le_mul_right _ row

theorem offsetFrom_eq (start : Nat) (covers : Bound.Cover bounds indices) :
    offsetFrom start bounds indices = .ok (start * volume bounds + rank bounds indices) := by
  induction covers generalizing start with
  | nil => simp [offsetFrom, volume, rank]
  | @cons b i bounds indices inside _ ih =>
    have within : ¬(i < b.lower ∨ b.upper < i) := by omega
    rw [offsetFrom, if_neg within, ih, rank, volume_cons]
    congr 1
    rw [Nat.add_mul, Nat.mul_assoc, Nat.add_assoc]

theorem offset_eq (covers : Bound.Cover bounds indices) : offset bounds indices = .ok (rank bounds indices) := by
  have count : ¬indices.length ≠ bounds.length := not_not_intro covers.length_eq.symm
  rw [offset, if_neg count, offsetFrom_eq 0 covers, Nat.zero_mul, Nat.zero_add]

theorem offset_eq_ok_iff :
    offset bounds indices = .ok position ↔ Bound.Cover bounds indices ∧ rank bounds indices = position := by
  constructor
  · intro found
    have covers := offset_ok_iff.mp ⟨position, found⟩
    rw [offset_eq covers] at found
    exact ⟨covers, Except.ok.inj found⟩
  · rintro ⟨covers, rfl⟩
    exact offset_eq covers

theorem tupleAt_covers (inside : position < volume bounds) : Bound.Cover bounds (tupleAt bounds position) := by
  induction bounds generalizing position with
  | nil => exact .nil
  | cons b bounds ih =>
    rw [volume_cons] at inside
    have some : 0 < volume bounds := Nat.pos_of_mul_pos_left (Nat.zero_lt_of_lt inside)
    have row : position / volume bounds < b.extent.toNat := (Nat.div_lt_iff_lt_mul some).mpr inside
    rw [tupleAt, cover_cons]
    constructor
    · unfold Bound.extent at row
      generalize position / volume bounds = index at row
      omega
    · exact ih (Nat.mod_lt _ some)

theorem rank_tupleAt (inside : position < volume bounds) : rank bounds (tupleAt bounds position) = position := by
  induction bounds generalizing position with
  | nil =>
    have zero : position = 0 := Nat.lt_one_iff.mp inside
    rw [zero, tupleAt, rank_nil]
  | cons b bounds ih =>
    rw [volume_cons] at inside
    have some : 0 < volume bounds := Nat.pos_of_mul_pos_left (Nat.zero_lt_of_lt inside)
    rw [tupleAt, rank, ih (Nat.mod_lt _ some), add_sub_cancel_left, Int.toNat_natCast]
    exact Nat.div_add_mod' ..

/-- Tuples inside the bounds are numbered in the order of their first indices that differ. -/
theorem rank_lt_iff (covers : Bound.Cover bounds indices) (covers' : Bound.Cover bounds other) :
    rank bounds indices < rank bounds other ↔ List.Lex (· < ·) indices other := by
  induction covers generalizing other with
  | nil =>
    cases covers'
    simp [rank]
  | @cons b i bounds indices inside rest ih =>
    cases covers' with
    | @cons _ j _ others inside' rest' =>
      have below := rank_lt rest
      have below' := rank_lt rest'
      rw [rank, rank]
      obtain less | rfl | greater := Int.lt_trichotomy i j
      · have rows : (i - b.lower).toNat + 1 ≤ (j - b.lower).toNat := by omega
        have apart := Nat.mul_le_mul_right (volume bounds) rows
        rw [Nat.succ_mul] at apart
        exact iff_of_true (by omega) (.rel less)
      · rw [Nat.add_lt_add_iff_left, ih rest', List.lex_cons_iff]
      · have rows : (j - b.lower).toNat + 1 ≤ (i - b.lower).toNat := by omega
        have apart := Nat.mul_le_mul_right (volume bounds) rows
        rw [Nat.succ_mul] at apart
        refine iff_of_false (by omega) ?_
        rintro (_ | _ | less) <;> omega

/-- A tuple inside the bounds is found again from its number. -/
theorem tupleAt_rank (covers : Bound.Cover bounds indices) : tupleAt bounds (rank bounds indices) = indices := by
  induction covers with
  | nil => rfl
  | @cons b i bounds indices inside rest ih =>
    have below := rank_lt rest
    have some : 0 < volume bounds := Nat.zero_lt_of_lt below
    have row : ((i - b.lower).toNat * volume bounds + rank bounds indices) / volume bounds =
        (i - b.lower).toNat := by
      rw [Nat.mul_comm, Nat.mul_add_div some, Nat.div_eq_of_lt below, Nat.add_zero]
    have place : ((i - b.lower).toNat * volume bounds + rank bounds indices) % volume bounds =
        rank bounds indices := by
      rw [Nat.mul_comm, Nat.mul_add_mod, Nat.mod_eq_of_lt below]
    rw [rank, tupleAt, row, place, ih]
    congr 1
    omega

/-- The positions of the tuples inside the bounds are the numbers below the number of elements, each of them
of one tuple alone, in the order of the rows. -/
structure RowMajor (bounds : List Bound) : Prop where
  defined : ∀ indices, (∃ position, offset bounds indices = .ok position) ↔ Bound.Cover bounds indices
  below : ∀ indices position, offset bounds indices = .ok position → position < elementCount bounds
  onto : ∀ position : Nat, position < elementCount bounds → ∃! indices, offset bounds indices = .ok position
  order : ∀ indices other position position', offset bounds indices = .ok position →
    offset bounds other = .ok position' → (position < position' ↔ List.Lex (· < ·) indices other)

theorem rowMajor (ordered : ∀ b ∈ bounds, b.lower ≤ b.upper) : RowMajor bounds where
  defined indices := offset_ok_iff
  below indices position found := by
    obtain ⟨covers, rfl⟩ := offset_eq_ok_iff.mp found
    rw [← volume_eq ordered]
    exact Int.ofNat_lt.mpr (rank_lt covers)
  onto position inside := by
    rw [← volume_eq ordered] at inside
    have inside := Int.ofNat_lt.mp inside
    refine ⟨tupleAt bounds position, ?_, fun indices found => ?_⟩
    · exact offset_eq_ok_iff.mpr ⟨tupleAt_covers inside, rank_tupleAt inside⟩
    · obtain ⟨covers, rfl⟩ := offset_eq_ok_iff.mp found
      exact (tupleAt_rank covers).symm
  order indices other position position' found found' := by
    obtain ⟨covers, rfl⟩ := offset_eq_ok_iff.mp found
    obtain ⟨covers', rfl⟩ := offset_eq_ok_iff.mp found'
    exact rank_lt_iff covers covers'

end ArrayCell

/-- The fault of a tuple that is not inside the bounds. -/
def Bound.refusal (bounds : List Bound) (indices : List Int) : StoreFault :=
  if indices.length = bounds.length then .indexOutOfBounds else .indexCount bounds.length indices.length

/-- Whether an element is not reached because of the indices. -/
def StoreFault.isIndex : StoreFault → Bool
  | .indexCount .. | .indexOutOfBounds => true
  | _ => false

theorem Bound.isIndex_refusal (bounds : List Bound) (indices : List Int) :
    (Bound.refusal bounds indices).isIndex = true := by
  unfold Bound.refusal
  split <;> rfl

/-- A value is never refused because of indices. -/
theorem Value.isIndex_of_coerce {v : Value} (failed : v.coerce target = .error fault) : fault.isIndex = false := by
  obtain mismatch | ⟨cause, rfl⟩ := coerce_fault failed
  · cases fault with
    | indexCount => cases mismatch
    | indexOutOfBounds => cases mismatch
    | _ => rfl
  · rfl

namespace ArrayCell

variable {bounds : List Bound} {indices other : List Int} {cell : ArrayCell} {v kept : Value} {position : Nat}

theorem offset_outside (outside : ¬Bound.Cover bounds indices) :
    offset bounds indices = .error (Bound.refusal bounds indices) := by
  unfold offset Bound.refusal
  by_cases count : indices.length = bounds.length
  · rw [if_neg (not_not_intro count), if_pos count]
    cases found : offsetFrom 0 bounds indices with
    | ok position => exact absurd ((offsetFrom_ok_iff count).mp ⟨position, found⟩) outside
    | error fault => rw [offsetFrom_fault found]
  · rw [if_pos count, if_neg count]

theorem get_of_offset (found : offset cell.bounds indices = .ok position) (inside : position < cell.elements.size) :
    cell.get indices = .ok cell.elements[position] := by
  unfold get
  rw [found]
  simp [inside, bind, Except.bind, pure, Except.pure]

theorem get_outside (outside : ¬Bound.Cover cell.bounds indices) :
    cell.get indices = .error (Bound.refusal cell.bounds indices) := by
  unfold get
  rw [offset_outside outside]
  rfl

/-- A store replaces the element of its tuple. -/
theorem get_setAt (found : offset cell.bounds indices = .ok position) (inside : position < cell.elements.size) :
    (cell.setAt position kept).get indices = .ok kept := by
  have stored : (cell.setAt position kept).elements.size = cell.elements.size := Array.size_setIfInBounds
  have there : position < (cell.setAt position kept).elements.size := by rwa [stored]
  have found' : offset (cell.setAt position kept).bounds indices = .ok position := found
  rw [get_of_offset found' there]
  simp [setAt]

/-- A store leaves the elements of all other tuples. -/
theorem get_setAt_other (found : offset cell.bounds indices = .ok position) (apart : other ≠ indices) :
    (cell.setAt position kept).get other = cell.get other := by
  obtain ⟨covers, rfl⟩ := offset_eq_ok_iff.mp found
  unfold get
  show (offset cell.bounds other >>= _) = (offset cell.bounds other >>= _)
  by_cases inside : Bound.Cover cell.bounds other
  · have ranks : rank cell.bounds indices ≠ rank cell.bounds other := by
      intro same
      have tuples := congrArg (tupleAt cell.bounds) same
      rw [tupleAt_rank covers, tupleAt_rank inside] at tuples
      exact apart tuples.symm
    rw [offset_eq inside]
    simp [setAt, Array.getElem?_setIfInBounds_ne ranks, bind, Except.bind]
  · rw [offset_outside inside]
    rfl

/-- The array has as many elements as its bounds ask for, none if that is negative. -/
def Whole (cell : ArrayCell) : Prop := cell.elements.size = (elementCount cell.bounds).toNat

theorem fresh_whole (bounds : List Bound) (type : Option DataType) : (fresh bounds type).Whole :=
  Array.size_replicate

theorem Whole.setAt (whole : cell.Whole) (position : Nat) (v : Value) : (cell.setAt position v).Whole := by
  have size : (cell.setAt position v).elements.size = cell.elements.size := Array.size_setIfInBounds
  exact size.trans whole

end ArrayCell

namespace Memory

variable {m n : Memory} {id j : ArrayId} {cell : ArrayCell} {indices : List Int} {v : Value} {position : Nat}

/-- A value was stored into an element of an array. -/
def StoresInto (id : ArrayId) (m n : Memory) : Prop := ∃ indices v, m.assignElement id indices v = .ok n

theorem assignElement_eq (held : m.arrays[id]? = some cell) (indices : List Int) (v : Value) :
    m.assignElement id indices v =
      (cell.place indices v).map fun (position, kept) => m.setElement id position kept := by
  unfold assignElement
  rw [held]
  dsimp only
  cases cell.place indices v <;> rfl

theorem assignElement_outside (held : m.arrays[id]? = some cell) (outside : ¬Bound.Cover cell.bounds indices) :
    m.assignElement id indices v = .error (Bound.refusal cell.bounds indices) := by
  rw [assignElement_eq held]
  unfold ArrayCell.place
  rw [ArrayCell.offset_outside outside]
  rfl

theorem assignElement_inside (held : m.arrays[id]? = some cell)
    (found : ArrayCell.offset cell.bounds indices = .ok position) :
    m.assignElement id indices v = (v.coerce cell.elementType).map (m.setElement id position) := by
  rw [assignElement_eq held]
  unfold ArrayCell.place
  rw [found]
  cases v.coerce cell.elementType <;> rfl

theorem assignElement_ok (stored : m.assignElement id indices v = .ok n) :
    ∃ position kept, n = m.setElement id position kept := by
  cases held : m.arrays[id]? with
  | none =>
    unfold assignElement at stored
    rw [held] at stored
    cases stored
  | some cell =>
    rw [assignElement_eq held] at stored
    obtain ⟨⟨position, kept⟩, -, rfl⟩ := ok_of_map stored
    exact ⟨position, kept, rfl⟩

/-- A store into an array leaves all other arrays. -/
theorem StoresInto.other (stores : StoresInto id m n) (apart : id ≠ j) : n.arrays[j]? = m.arrays[j]? := by
  obtain ⟨indices, v, stored⟩ := stores
  obtain ⟨position, kept, rfl⟩ := assignElement_ok stored
  rw [array_setElement, if_neg apart]

/-- The array with a number in the memory is a map from the tuples inside its bounds to its elements. -/
structure Maps (m : Memory) (id : ArrayId) (cell : ArrayCell) : Prop where
  /-- A tuple inside the bounds has an element. It is looked at, and every value that fits is stored into it. -/
  inside : ∀ indices, Bound.Cover cell.bounds indices → ∃ (position : Nat) (there : position < cell.elements.size),
    ArrayCell.offset cell.bounds indices = .ok position ∧ cell.get indices = .ok cell.elements[position] ∧
    ∀ v, m.assignElement id indices v = (v.coerce cell.elementType).map (m.setElement id position) ∧
      ∀ fault, v.coerce cell.elementType = .error fault → fault.isIndex = false
  /-- Every other tuple is refused for its indices, whatever is stored. -/
  outside : ∀ indices, ¬Bound.Cover cell.bounds indices → (Bound.refusal cell.bounds indices).isIndex = true ∧
    cell.get indices = .error (Bound.refusal cell.bounds indices) ∧
    ∀ v, m.assignElement id indices v = .error (Bound.refusal cell.bounds indices)
  /-- What has been stored is found, and all other tuples give what they gave before. -/
  stored : ∀ indices v n, m.assignElement id indices v = .ok n → ∃ kept later,
    v.coerce cell.elementType = .ok kept ∧ n.arrays[id]? = some later ∧ later.Whole ∧
    later.bounds = cell.bounds ∧ later.elementType = cell.elementType ∧ later.get indices = .ok kept ∧
    ∀ other, other ≠ indices → later.get other = cell.get other
  /-- A run that stores a value either does so or stops with the memory as it was. -/
  executed : ∀ (s : RunState) line indices v, s.memory = m → Ends (Run.assignElement line id indices v) s
    (fun _ t => ∃ n, m.assignElement id indices v = .ok n ∧ t = { s with memory := n })
    fun _ t => ∃ fault, m.assignElement id indices v = .error fault ∧ t = s
  /-- A copy has the same elements, and what is stored into it does not change the array. -/
  copied : ∃ copy n, m.copyValue (.array id) = (.array copy, n) ∧ n.arrays[copy]? = some cell ∧
    ∀ later, Relation.ReflTransGen (StoresInto copy) n later → later.arrays[id]? = some cell

theorem copy_leaves (held : m.arrays[id]? = some cell) : ∃ copy n,
    m.copyValue (.array id) = (.array copy, n) ∧ n.arrays[copy]? = some cell ∧
      ∀ later, Relation.ReflTransGen (StoresInto copy) n later → later.arrays[id]? = some cell := by
  have copies : m.copyValue (.array id) = (.array m.arrays.size, (m.addArray cell).2) := by
    unfold copyValue cell?
    dsimp only
    rw [held]
    rfl
  have apart : id ≠ m.arrays.size := Nat.ne_of_lt (Array.getElem?_eq_some_iff.mp held).1
  refine ⟨_, _, copies, ?_, ?_⟩
  · rw [array_addArray, if_pos rfl]
  · intro later stores
    induction stores with
    | refl => rw [array_addArray, if_neg apart, held]
    | tail _ step ih => rw [step.other apart.symm, ih]

end Memory

theorem Run.storeFailed_ends (line : Nat) (report : StoreFault → RunFault) (fault : StoreFault) (s : RunState) :
    Ends (Run.storeFailed line report fault : Run Unit) s (fun _ _ => False) fun _ t => t = s := by
  cases fault <;> rfl

theorem Run.assignElement_ends {s : RunState} {id : ArrayId} {cell : ArrayCell}
    (held : s.memory.arrays[id]? = some cell) (line : Nat) (indices : List Int) (v : Value) :
    Ends (Run.assignElement line id indices v) s
      (fun _ t => ∃ n, s.memory.assignElement id indices v = .ok n ∧ t = { s with memory := n })
      fun _ t => ∃ fault, s.memory.assignElement id indices v = .error fault ∧ t = s := by
  rw [Memory.assignElement_eq held]
  unfold Run.assignElement Run.withMemory
  simp only [ends_bind, ends_modifyGet, held, Option.map_some]
  cases cell.place indices v with
  | ok place => exact ⟨_, rfl, rfl⟩
  | error fault =>
    exact (storeFailed_ends line .store fault s).mono (fun _ _ => False.elim) fun _ _ same => ⟨fault, rfl, same⟩

theorem Memory.maps_of_whole {m : Memory} {id : ArrayId} {cell : ArrayCell} (held : m.arrays[id]? = some cell)
    (whole : cell.Whole) : m.Maps id cell where
  inside indices covers := by
    obtain ⟨position, found⟩ := ArrayCell.offset_ok_iff.mpr covers
    have there : position < cell.elements.size := whole ▸ ArrayCell.offset_lt found
    exact ⟨position, there, found, ArrayCell.get_of_offset found there,
      fun v => ⟨assignElement_inside held found, fun _ => Value.isIndex_of_coerce⟩⟩
  outside indices outside :=
    ⟨Bound.isIndex_refusal .., ArrayCell.get_outside outside, fun _ => assignElement_outside held outside⟩
  stored indices v n stores := by
    by_cases covers : Bound.Cover cell.bounds indices
    · have found := ArrayCell.offset_eq covers
      have there : ArrayCell.rank cell.bounds indices < cell.elements.size := whole ▸ ArrayCell.offset_lt found
      rw [assignElement_inside held found] at stores
      obtain ⟨kept, coerced, rfl⟩ := ok_of_map stores
      refine ⟨kept, cell.setAt _ kept, coerced, ?_, whole.setAt _ _, rfl, rfl, ArrayCell.get_setAt found there,
        fun other apart => ArrayCell.get_setAt_other found apart⟩
      rw [array_setElement, if_pos rfl, held]
      rfl
    · rw [assignElement_outside held covers] at stores
      cases stores
  executed := by
    rintro s line indices v rfl
    exact Run.assignElement_ends held line indices v
  copied := copy_leaves held

/-- Arrays are faithful maps from index tuples. Where the bounds are in order, the positions of the tuples are
those of the rows, one after the other; and whatever the bounds, an array that was made with them gives and
takes elements at the tuples inside them and at no others. -/
theorem arrays_map_tuples {m : Memory} {id : ArrayId} {cell : ArrayCell} (held : m.arrays[id]? = some cell)
    (whole : cell.Whole) :
    (∀ bounds, (∀ b ∈ bounds, b.lower ≤ b.upper) → ArrayCell.RowMajor bounds) ∧
      (∀ bounds type, (ArrayCell.fresh bounds type).Whole) ∧ m.Maps id cell :=
  ⟨fun _ => ArrayCell.rowMajor, ArrayCell.fresh_whole, Memory.maps_of_whole held whole⟩

/-- A memory with one array, of three rows that are counted from -1 and two columns. -/
def threeRows : Memory :=
  ⟨#[⟨[⟨-1, 1⟩, ⟨0, 1⟩], some .integer, #[.integer 1, .null, .integer 3, .integer 4, .integer 5, .integer 6]⟩], #[],
    #[[]]⟩

theorem threeRows_map_tuples : ∃ cell, threeRows.arrays[0]? = some cell ∧ cell.Whole ∧
    (∀ b ∈ cell.bounds, b.lower ≤ b.upper) ∧ ArrayCell.RowMajor cell.bounds ∧ threeRows.Maps 0 cell ∧
    cell.get [0, 1] = .ok (.integer 4) := by
  have held : threeRows.arrays[0]? = some threeRows.arrays[0] := rfl
  have whole : threeRows.arrays[0].Whole := rfl
  have ordered : ∀ b ∈ threeRows.arrays[0].bounds, b.lower ≤ b.upper := by decide
  obtain ⟨rows, -, maps⟩ := arrays_map_tuples held whole
  exact ⟨_, held, whole, ordered, rows _ ordered, maps, rfl⟩

/-- Two reversed bounds can ask for elements, but no tuple is inside them. -/
example : (ArrayCell.fresh [⟨1, -1⟩, ⟨1, -1⟩] (some .integer)).elements.size = 1 ∧
    (ArrayCell.fresh [⟨1, -1⟩, ⟨1, -1⟩] (some .integer)).get [1, 1] = .error .indexOutOfBounds := by decide

end Pseudocode
