import Mathlib.Data.List.Forall2
import Pseudocode.Execution
import Pseudocode.Proofs.StoreTyping
import Pseudocode.Proofs.Typing

/-! Bounds that arrays are declared with. The array that a DECLARE makes keeps its bounds, and its elements
are reached by just the indices inside them; these are also the indices that the checker lets pass when
they are literals. The name may come to hold another array, whose bounds are shifted; the extents are the
same until NULL is stored under the name. -/
namespace Pseudocode

/-- One index for each dimension, from its lower to its upper bound. -/
def Bound.Cover (bounds : List Bound) (indices : List Int) : Prop :=
  List.Forall₂ (fun b i => b.lower ≤ i ∧ i ≤ b.upper) bounds indices

namespace ArrayCell

variable {bounds : List Bound} {indices : List Int}

theorem offsetFrom_ok_iff (count : indices.length = bounds.length) :
    (∃ position, offsetFrom start bounds indices = .ok position) ↔ Bound.Cover bounds indices := by
  unfold Bound.Cover
  induction bounds generalizing indices start with
  | nil =>
    cases indices with
    | nil => exact ⟨fun _ => .nil, fun _ => ⟨start, rfl⟩⟩
    | cons => cases count
  | cons b bounds ih =>
    cases indices with
    | nil => cases count
    | cons i indices =>
      rw [offsetFrom, List.forall₂_cons]
      split
      next outside =>
        refine iff_of_false (by rintro ⟨_, ⟨⟩⟩) ?_
        rintro ⟨⟨low, high⟩, -⟩
        omega
      next within =>
        rw [ih (Nat.succ.inj count)]
        have here : b.lower ≤ i ∧ i ≤ b.upper := by omega
        exact ⟨fun rest => ⟨here, rest⟩, fun all => all.2⟩

theorem offset_ok_iff :
    (∃ position, offset bounds indices = .ok position) ↔ Bound.Cover bounds indices := by
  by_cases count : indices.length = bounds.length
  · rw [offset, if_neg (not_not_intro count)]
    exact offsetFrom_ok_iff count
  · rw [offset, if_pos count]
    exact iff_of_false (by rintro ⟨_, ⟨⟩⟩) fun covers => count covers.length_eq.symm

theorem get_ok_iff (cell : ArrayCell) :
    (∃ v, cell.get indices = .ok v) ↔ Bound.Cover cell.bounds indices := by
  rw [← offset_ok_iff]
  unfold get
  cases offset cell.bounds indices with
  | ok position => exact ⟨fun _ => ⟨position, rfl⟩, fun _ => ⟨_, rfl⟩⟩
  | error fault => exact ⟨by rintro ⟨_, ⟨⟩⟩, by rintro ⟨_, ⟨⟩⟩⟩

theorem place_ok_iff (cell : ArrayCell) (v : Value) :
    (∃ stored, cell.place indices v = .ok stored) ↔
      Bound.Cover cell.bounds indices ∧ ∃ kept, v.coerce cell.elementType = .ok kept := by
  rw [← offset_ok_iff]
  unfold place
  cases offset cell.bounds indices with
  | error fault => exact iff_of_false (by rintro ⟨_, ⟨⟩⟩) (by rintro ⟨⟨_, ⟨⟩⟩, _⟩)
  | ok position =>
    cases v.coerce cell.elementType with
    | error fault => exact iff_of_false (by rintro ⟨_, ⟨⟩⟩) (by rintro ⟨_, ⟨_, ⟨⟩⟩⟩)
    | ok kept => exact iff_of_true ⟨_, rfl⟩ ⟨⟨_, rfl⟩, ⟨_, rfl⟩⟩

theorem compatible_iff {a b : ArrayCell} :
    a.compatible b = true ↔ a.shape = b.shape ∧ a.elementType = b.elementType := by
  simp [compatible]

end ArrayCell

namespace Memory

variable {P : Policy} {limit : Nat} {m n : Memory} {i : BindingId}

/-- A change of the memory that does not leave NULL in a binding. -/
def StepHolding (P : Policy) (limit : Nat) (i : BindingId) (m n : Memory) : Prop :=
  Step P limit m n ∧ ∀ b ∈ n.binding? i, b.value ≠ .null

/-- A binding for arrays holds one with these extents and this type of elements. -/
def HoldsShape (m : Memory) (i : BindingId) (shape : List Int) (type : Option DataType) : Prop :=
  ∃ b j cell, m.binding? i = some b ∧ b.declared = some .array ∧ b.value = .array j ∧
    m.arrays[j]? = some cell ∧ cell.shape = shape ∧ cell.elementType = type

/-- In the place of an array a binding takes NULL or an array of the same shape. -/
theorem accept_over_array {b : Binding} {j : ArrayId} {old : ArrayCell} {v kept : Value}
    (declared : b.declared = some .array) (value : b.value = .array j)
    (held : m.arrays[j]? = some old) (lives : v.Lives m) (accepted : m.accept b v = .ok kept) :
    kept = .null ∨ ∃ k new, kept = .array k ∧ m.arrays[k]? = some new ∧ old.compatible new = true := by
  have holds : m.cell? b.value = some old := by
    rw [value]
    exact held
  unfold accept at accepted
  rw [declared, holds] at accepted
  split at accepted
  · split at accepted <;> cases accepted
  · cases v with
    | array k =>
      have inside := lives k rfl
      have there : m.arrays[k]? = some m.arrays[k] := Array.getElem?_eq_getElem inside
      simp only [cell?, there] at accepted
      split at accepted
      next fits =>
        cases accepted
        exact .inr ⟨k, _, rfl, there, fits⟩
      next => cases accepted
    | null =>
      cases accepted
      exact .inl rfl
    | _ => simp at accepted

/-- A change that does not leave NULL in a binding leaves the shape of the array that it holds. -/
theorem StepHolding.holdsShape (step : StepHolding P limit i m n) (holds : m.HoldsShape i shape type) :
    n.HoldsShape i shape type := by
  obtain ⟨change, filled⟩ := step
  obtain ⟨b, j, cell, held, declared, value, there, rfl, rfl⟩ := holds
  obtain same | ⟨v, kept, lives, accepted, rfl⟩ := change.binding_cases held
  · obtain ⟨now, present, bounds, elements⟩ := change.grows.shape there
    exact ⟨b, j, now, same, declared, value, present, by rw [ArrayCell.shape, bounds, ArrayCell.shape],
      elements⟩
  · have stored : (m.setValue i kept).binding? i = some { b with value := kept } := by
      rw [binding_setValue, if_pos rfl, held]
      rfl
    obtain rfl | ⟨k, new, rfl, present, fits⟩ :=
      accept_over_array declared value there lives accepted
    · exact absurd rfl (filled _ stored)
    · obtain ⟨shape, elements⟩ := ArrayCell.compatible_iff.mp fits
      exact ⟨_, k, new, stored, declared, rfl, present, shape.symm, elements.symm⟩

theorem HoldsShape.steps (holds : m.HoldsShape i shape type)
    (steps : Relation.ReflTransGen (StepHolding P limit i) m n) : n.HoldsShape i shape type := by
  induction steps with
  | refl => exact holds
  | tail _ step ih => exact step.holdsShape ih

end Memory

namespace Run

variable {s t : RunState} {i : ArrayId} {cell : ArrayCell} {indices : List Int}

theorem elementValue_ok_iff (held : s.memory.arrays[i]? = some cell) (line : Nat) :
    (∃ v t, elementValue line i indices s = .ok v t) ↔ Bound.Cover cell.bounds indices := by
  refine (Ends.returns_iff ?_).trans cell.get_ok_iff
  unfold elementValue
  simp only [ends_bind, ends_get, held, Option.map_some]
  cases got : cell.get indices with
  | ok v => exact ⟨v, rfl⟩
  | error fault =>
    exact (storeFailed_fails line .store fault).mono (fun _ _ known => known) fun _ _ _ => by
      rintro ⟨_, ⟨⟩⟩

theorem assignElement_ok_iff (held : s.memory.arrays[i]? = some cell) (line : Nat) (v : Value) :
    (∃ stored t, assignElement line i indices v s = .ok stored t) ↔
      Bound.Cover cell.bounds indices ∧ ∃ kept, v.coerce cell.elementType = .ok kept := by
  refine (Ends.returns_iff ?_).trans (cell.place_ok_iff v)
  unfold assignElement withMemory
  simp only [ends_bind, ends_modifyGet, held, Option.map_some]
  cases placed : cell.place indices v with
  | ok stored => exact ⟨stored, rfl⟩
  | error fault =>
    exact (storeFailed_fails line .store fault).mono (fun _ _ known => known) fun _ _ _ => by
      rintro ⟨_, ⟨⟩⟩

/-- The array that a name holds is found. -/
theorem arrayNamed_eq (found : s.memory.find s.env word = some slot)
    (held : s.memory.binding? slot = some ⟨.array i, declared, constant⟩) (line : Nat) :
    arrayNamed line word s = .ok i s := by
  have looked : lookup word s = .ok (some ⟨.array i, declared, constant⟩) s := by
    show EStateM.Result.ok (s.memory.lookup s.env word) s = _
    rw [Memory.lookup, found, Option.bind_some, held]
  exact bind_of_ok looked

theorem declareArray_ok (declared : declareArray ctx line name bounds elementType s = .ok r t) :
    t = { s with memory := ((s.memory.addArray (.fresh bounds (DataType.ofName? elementType))).2.define
      s.env name ⟨.array s.memory.arrays.size, some .array, false⟩).2 } := by
  unfold declareArray at declared
  dsimp only at declared
  split at declared
  · cases declared
  · cases declared
    rfl

end Run

/-- A symbol that is added under a free name is found. -/
theorem SymbolTable.lookup_add {t : SymbolTable} {symbol : Symbol}
    (free : t.lookupLocal symbol.name = none) :
    ∃ known, (t.setCurrent (t.current ++ [symbol])).lookup symbol.name = some known ∧
      known.symbol = symbol := by
  have none : t.current.find? (·.name == symbol.name) = none := free
  have found : findIn (t.current ++ [symbol]) symbol.name = some symbol := by
    unfold findIn
    rw [List.find?_append, none]
    simp
  unfold lookup setCurrent
  cases inner : t.inner with
  | nil => exact ⟨⟨symbol, true⟩, by simp [found], rfl⟩
  | cons scope outer => exact ⟨⟨symbol, false⟩, by simp [found], rfl⟩

namespace Check

variable {s : CheckState} {bounds : List Bound}

/-- Indices that are integer literals, with what is inferred of them. -/
def literals (entries : List (Position × Int)) : List (Position × Inferred) :=
  entries.map fun (place, n) => (place, { type := some .integer, literal := some (.integer n) })

theorem checkIndex_literal (array : String) (place : Position) (n : Int) (b : Bound) (s : CheckState) :
    Ends (checkIndex array place { type := some .integer, literal := some (.integer n) } b) s
      (fun _ t => Onward s t ∧ (t.reports.size = s.reports.size ↔ b.lower ≤ n ∧ n ≤ b.upper))
      (fun _ _ => False) := by
  unfold checkIndex
  dsimp only
  split
  · refine (report_onward place _ s).of_safe ?_
    rintro _ t ⟨onward, longer⟩
    exact ⟨onward, iff_of_false (Nat.ne_of_gt longer) (by omega)⟩
  · exact ⟨.refl s, iff_of_true rfl (by omega)⟩

theorem checkIndices_literal (array : String) (entries : List (Position × Int))
    (count : entries.length = bounds.length) (s : CheckState) :
    Ends (((literals entries).zip bounds).forM fun ((place, index), bound) =>
        checkIndex array place index bound) s
      (fun _ t => Onward s t ∧
        (t.reports.size = s.reports.size ↔ Bound.Cover bounds (entries.map Prod.snd)))
      (fun _ _ => False) := by
  unfold literals Bound.Cover
  induction bounds generalizing entries s with
  | nil =>
    obtain rfl := List.length_eq_zero_iff.mp count
    exact ⟨.refl s, iff_of_true rfl .nil⟩
  | cons b bounds ih =>
    cases entries with
    | nil => cases count
    | cons entry rest =>
      obtain ⟨place, n⟩ := entry
      rw [List.map_cons, List.zip_cons_cons, List.forM, ends_bind, List.map_cons, List.forall₂_cons]
      refine (checkIndex_literal array place n b s).of_safe ?_
      rintro _ t ⟨first, here⟩
      refine (ih rest (Nat.succ.inj count) t).of_safe ?_
      rintro _ u ⟨second, others⟩
      refine ⟨first.trans second, ?_⟩
      have before := first.reports
      have after := second.reports
      rw [← here, ← others]
      omega

/-- Where a name is known as an array with bounds, an element with literal indices is passed without a
finding just if the indices are inside. -/
theorem checkElement_literal (found : s.symbols.lookup array = some known)
    (declared : known.symbol.kind ≠ .parameter) (typed : known.symbol.type = some .array)
    (bounded : known.symbol.bounds = some bounds) (place : Position) (entries : List (Position × Int))
    (reading : Bool) :
    Ends (checkElement place array (literals entries) reading) s
      (fun _ t => t.reports.size = s.reports.size ↔ Bound.Cover bounds (entries.map Prod.snd))
      (fun _ _ => False) := by
  have many : (literals entries).length = entries.length := List.length_map ..
  have refused (t : CheckState) (same : t.reports = s.reports) (other : entries.length ≠ bounds.length) :
      Ends (report place (.indexCount array bounds.length entries.length)) t
        (fun _ u => u.reports.size = s.reports.size ↔ Bound.Cover bounds (entries.map Prod.snd))
        (fun _ _ => False) := by
    refine (report_onward place _ t).of_safe fun _ u reported => ?_
    refine iff_of_false (Nat.ne_of_gt (same ▸ reported.2)) fun covers => other ?_
    rw [covers.length_eq, List.length_map]
  have checked (t : CheckState) (same : t.reports = s.reports)
      (count : ¬entries.length ≠ bounds.length) :=
    (checkIndices_literal array entries (not_not.mp count) t).mono
      (fun _ u checked => same ▸ checked.2) fun _ _ never => never
  unfold checkElement lookup
  cases reading with
  | true =>
    simp only [ends_bind, ends_get, ends_pure, found, typed, declared, if_true, if_false, bounded, many,
      ends_ite]
    exact (noteRead_onward place known s).of_safe fun _ t same => ⟨refused t same.2, checked t same.2⟩
  | false =>
    simp only [ends_bind, ends_get, ends_pure, found, typed, declared, Bool.false_eq_true, if_false,
      bounded, many, ends_ite]
    exact ⟨refused s rfl, checked s rfl⟩

/-- A check that does not fail and leaves the symbols as they are. -/
def KeepsSymbols (m : Check α) : Prop :=
  ∀ s, Ends m s (fun _ t => t.symbols = s.symbols) (fun _ _ => False)

section Reporting

variable {α β : Type} {m : Check α} {next : α → Check β}

theorem keepsSymbols_pure (a : α) : KeepsSymbols (pure a) := fun _ => rfl

theorem keepsSymbols_report (place : Position) (finding : Finding) : KeepsSymbols (report place finding) :=
  fun _ => rfl

theorem KeepsSymbols.bind (first : KeepsSymbols m) (rest : ∀ a, KeepsSymbols (next a)) :
    KeepsSymbols (m >>= next) := by
  intro s
  rw [ends_bind]
  refine (first s).of_safe fun a t same => ?_
  exact (rest a t).of_safe fun _ _ further => further.trans same

theorem keepsSymbols_if (c : Prop) [Decidable c] (place : Position) (finding : Finding) :
    KeepsSymbols (if c then report place finding else pure ()) := by
  split
  · exact keepsSymbols_report place finding
  · exact keepsSymbols_pure ()

theorem keepsSymbols_forM (as : List α) {f : α → Check Unit} (each : ∀ a, KeepsSymbols (f a)) :
    KeepsSymbols (as.forM f) := by
  induction as with
  | nil => exact keepsSymbols_pure ()
  | cons a rest ih => exact (each a).bind fun _ => ih

theorem keepsSymbols_namedType (place : Position) (name : String) :
    KeepsSymbols (namedType place name) := by
  unfold namedType
  split
  · exact (keepsSymbols_report place _).bind fun _ => keepsSymbols_pure none
  · split
    · exact keepsSymbols_pure _
    · exact (keepsSymbols_report place _).bind fun _ => keepsSymbols_pure none

end Reporting

theorem declare_known (place : Position) {symbol : Symbol}
    (free : s.symbols.lookupLocal symbol.name = none) :
    Ends (declare place symbol) s (fun _ t => ∃ known,
      t.symbols.lookup symbol.name = some known ∧ known.symbol = symbol) (fun _ _ => False) := by
  have named : KeepsSymbols (checkName place symbol) := keepsSymbols_if _ place _
  unfold declare
  rw [ends_bind]
  refine (named s).of_safe fun _ t same => ?_
  simp only [ends_bind, ends_get, same, free]
  exact SymbolTable.lookup_add free

/-- What the declaration of an array makes known of its name. -/
theorem checkArrayDeclaration_known (limit : Int) (place : Position) (name : String)
    (bounds : List Bound) (elementType : String) (free : s.symbols.lookupLocal name = none) :
    Ends (checkArrayDeclaration limit place name bounds elementType) s (fun _ t => ∃ known,
      t.symbols.lookup name = some known ∧ known.symbol.kind = .array ∧
        known.symbol.type = some .array ∧ known.symbol.bounds = some bounds) (fun _ _ => False) := by
  have rest (t : CheckState) (same : t.symbols = s.symbols) :
      Ends (namedType place elementType >>= fun elementType => discard <| declare place
          { name, kind := .array, type := some .array, line := place.line, elementType,
            bounds := some bounds }) t (fun _ u => ∃ known,
        u.symbols.lookup name = some known ∧ known.symbol.kind = .array ∧
          known.symbol.type = some .array ∧ known.symbol.bounds = some bounds) (fun _ _ => False) := by
    rw [ends_bind]
    refine (keepsSymbols_namedType place elementType t).of_safe fun type u further => ?_
    rw [ends_discard]
    refine (declare_known place (by rw [further, same]; exact free)).of_safe ?_
    rintro _ v ⟨known, found, same⟩
    exact ⟨known, found, by rw [same], by rw [same], by rw [same]⟩
  unfold checkArrayDeclaration
  rw [ends_bind]
  refine (keepsSymbols_forM bounds (fun b => keepsSymbols_if _ place _) s).of_safe fun _ t same => ?_
  dsimp only
  split
  · rw [ends_bind]
    exact (keepsSymbols_report place _ t).of_safe fun _ u further => rest u (further.trans same)
  · exact rest t same

/-- Right after the declaration of an array, literal indices of its name are passed without a finding just
if they are inside the bounds. -/
def PassesInside (limit : Int) (place : Position) (name : String) (bounds : List Bound)
    (elementType : String) : Prop :=
  ∀ s : CheckState, s.symbols.lookupLocal name = none →
    Ends (checkArrayDeclaration limit place name bounds elementType) s (fun _ t =>
      ∀ here entries reading, Ends (checkElement here name (literals entries) reading) t
        (fun _ u => u.reports.size = t.reports.size ↔ Bound.Cover bounds (entries.map Prod.snd))
        (fun _ _ => False)) (fun _ _ => False)

theorem checkArrayDeclaration_passes (limit : Int) (place : Position) (name : String)
    (bounds : List Bound) (elementType : String) :
    PassesInside limit place name bounds elementType := by
  intro s free
  refine (checkArrayDeclaration_known limit place name bounds elementType free).of_safe ?_
  rintro _ t ⟨known, found, kind, typed, bounded⟩
  intro here entries reading
  exact checkElement_literal found (by rw [kind]; nofun) typed bounded here entries reading

end Check

/-- What reading and storing through a name accepts in a state: just the index tuples inside the bounds of
an array, and for a store the values that its elements can take. -/
def RunState.AcceptsInside (s : RunState) (word : String) (cell : ArrayCell) : Prop :=
  ∀ line indices,
    ((∃ v t, (Run.arrayNamed line word >>= fun i => Run.elementValue line i indices) s = .ok v t) ↔
      Bound.Cover cell.bounds indices) ∧
    ∀ v, (∃ stored t, (Run.arrayNamed line word >>= fun i => Run.assignElement line i indices v) s =
        .ok stored t) ↔ Bound.Cover cell.bounds indices ∧ ∃ kept, v.coerce cell.elementType = .ok kept

/-- The declaration of an array took a run from `s` to `t`. It made a new array with just these bounds,
which it keeps for ever, and a new binding that holds it. The binding holds NULL or an array ever after;
elements of that array are reached by the indices inside its bounds, under whatever name the binding is
found. As long as NULL is not stored in the binding, the array it holds has the declared extents and
elements of the declared type. -/
structure RunState.DeclaresArray (P : Policy) (ctx : RunContext) (s t : RunState) (name : String)
    (bounds : List Bound) (type : Option DataType) : Prop where
  named : t.memory.find t.env name = some s.memory.bindings.size
  held : t.memory.binding? s.memory.bindings.size =
    some ⟨.array s.memory.arrays.size, some .array, false⟩
  made : t.memory.arrays = s.memory.arrays.push (.fresh bounds type)
  keeps : ∀ u, t.Later P ctx u → ∃ cell, u.memory.arrays[s.memory.arrays.size]? = some cell ∧
    cell.bounds = bounds ∧ cell.elementType = type
  accepts : ∀ u, t.Later P ctx u → ∃ v,
    u.memory.binding? s.memory.bindings.size = some ⟨v, some .array, false⟩ ∧
      (v = .null ∨ ∃ i cell, v = .array i ∧ u.memory.arrays[i]? = some cell ∧
        ∀ word, u.memory.find u.env word = some s.memory.bindings.size → u.AcceptsInside word cell)
  shape : ∀ m, Relation.ReflTransGen (Memory.StepHolding P ctx.settings.limits.maxArrayElements
      s.memory.bindings.size) t.memory m →
    m.HoldsShape s.memory.bindings.size (bounds.map Bound.extent) type

namespace Run

variable {P : Policy} {ctx : RunContext} {s t : RunState}

theorem acceptsInside {slot : BindingId} {i : ArrayId}
    (found : s.memory.find s.env word = some slot)
    (held : s.memory.binding? slot = some ⟨.array i, declared, constant⟩)
    (there : s.memory.arrays[i]? = some cell) : s.AcceptsInside word cell := by
  intro line indices
  simp only [bind_of_ok (arrayNamed_eq found held line)]
  exact ⟨elementValue_ok_iff there line, fun v => assignElement_ok_iff there line v⟩

theorem declareArray_declares (ready : s.Ready P ctx) (readyT : t.Ready P ctx)
    (declared : declareArray ctx line name bounds elementType s = .ok r t) :
    s.DeclaresArray P ctx t name bounds (DataType.ofName? elementType) := by
  have same := declareArray_ok declared
  have arrays : t.memory.arrays =
      s.memory.arrays.push (.fresh bounds (DataType.ofName? elementType)) := by
    rw [same]
    exact Memory.arrays_define ..
  have held : t.memory.binding? s.memory.bindings.size =
      some ⟨.array s.memory.arrays.size, some .array, false⟩ := by
    rw [same]
    exact (Memory.binding_define ..).trans (if_pos rfl)
  have made : t.memory.arrays[s.memory.arrays.size]? =
      some (.fresh bounds (DataType.ofName? elementType)) := by
    rw [arrays, Array.getElem?_push_size]
  refine ⟨?_, held, arrays, fun u later => later.keepsArrays made, fun u later => ?_, fun m steps => ?_⟩
  · rw [same]
    have opens : (s.memory.addArray (.fresh bounds (DataType.ofName? elementType))).2.Opens s.env :=
      ready.opens
    exact Memory.find_define opens name _
  · obtain ⟨⟨v, _, _⟩, held, rfl, rfl⟩ := later.memory.grows.kind held
    have sound := later.memory.sound readyT.memory
    refine ⟨v, held, (sound.types held).imp_right fun fits => ?_⟩
    cases v with
    | array i =>
      have inside := sound.values held i rfl
      have there : u.memory.arrays[i]? = some u.memory.arrays[i] := Array.getElem?_eq_getElem inside
      exact ⟨i, _, rfl, there, fun word found => acceptsInside found held there⟩
    | _ => cases fits _ rfl
  · have holds : t.memory.HoldsShape s.memory.bindings.size (bounds.map Bound.extent)
        (DataType.ofName? elementType) := ⟨_, _, _, held, rfl, rfl, made, rfl, rfl⟩
    exact holds.steps steps

end Run

/-- In a run of a program that was checked without errors, a DECLARE of an array makes an array with the
bounds that literal indices are checked against. -/
theorem declared_bounds_kept (p : Program) (settings : Settings) (host : Host) (review : Review)
    (reviewed : Review.ofProgram settings.limits.maxArrayElements p = .ok review)
    (valid : review.errors = []) :
    ∀ a, Activity.Reaches (p.context settings host) (.start p settings) a →
      ∀ {place name bounds elementType c t},
        a.task = .stmt (.declareArray place name bounds elementType) →
        Run.exec (p.context settings host) (Parts.enterAt (p.context settings host) a.calls)
          (!a.calls.isEmpty) (.declareArray place name bounds elementType) a.state = .ok c t →
        a.state.DeclaresArray
          (.reviewed (p.context settings host) p.Whole settings.limits.maxArrayElements)
          (p.context settings host) t name bounds (DataType.ofName? elementType) ∧
        Check.PassesInside settings.limits.maxArrayElements place name bounds elementType := by
  intro a reaches place name bounds elementType c t task executed
  have obeys := Review.obeys reviewed valid (p.context settings host) (p.context_routines settings host)
  have sound := reaches.sound obeys.routines (Activity.start_sound obeys settings host)
  refine ⟨?_, Check.checkArrayDeclaration_passes _ place name bounds elementType⟩
  cases sound.stmt task with | declareArray permitted =>
  rw [Run.exec.eq_def] at executed
  obtain ⟨_, s, begun, rest⟩ := bind_eq_ok.mp executed
  obtain ⟨_, _, declared, ⟨⟩⟩ := bind_eq_ok.mp rest
  have readyS := ((Run.begins_conducts sound.ready _).of_ok begun).2.2.1
  have readyT := ((Run.declareArray_conducts readyS place.line name permitted).of_ok declared).2.2.1
  have declares := Run.declareArray_declares readyS readyT declared
  obtain ⟨same, -⟩ := (Run.begins_memory a.state _).of_ok begun
  obtain ⟨named, held, made, keeps, accepts, shape⟩ := declares
  rw [same] at named held made keeps accepts shape
  exact ⟨named, held, made, keeps, accepts, shape⟩

/-- A program that declares an array and stores another one of its shape in its place. -/
def shiftedRow : Program where
  body :=
    [.declareArray ⟨1, 1⟩ "a" [⟨1, 3⟩] "INTEGER",
    .declareArray ⟨2, 1⟩ "b" [⟨0, 2⟩] "INTEGER",
    .assign ⟨3, 1⟩ (.variable ⟨3, 1⟩ "b") (.name ⟨3, 6⟩ "a"),
    .output ⟨4, 1⟩ [.element ⟨4, 8⟩ "b" [.literal ⟨4, 10⟩ (.integer 0)]]]

theorem shiftedRow_bounds_kept : ∃ (a : Activity) (t : RunState),
    Activity.Reaches (shiftedRow.context {} {}) (.start shiftedRow {}) a ∧
    a.task = .stmt (.declareArray ⟨2, 1⟩ "b" [⟨0, 2⟩] "INTEGER") ∧
    a.state.DeclaresArray
      (.reviewed (shiftedRow.context {} {}) shiftedRow.Whole ({} : Settings).limits.maxArrayElements)
      (shiftedRow.context {} {}) t "b" [⟨0, 2⟩] (some .integer) := by
  obtain ⟨review, reviewed, valid⟩ : ∃ review,
      Review.ofProgram ({} : Settings).limits.maxArrayElements shiftedRow = .ok review ∧
        review.errors = [] := Review.exists_of_errors (by decide +kernel)
  obtain ⟨a, reaches, task, c, t, executed, -⟩ : ∃ a,
      Activity.Reaches (shiftedRow.context {} {}) (.start shiftedRow {}) a ∧
      a.task = .stmt (.declareArray ⟨2, 1⟩ "b" [⟨0, 2⟩] "INTEGER") ∧
      ∃ c t, Run.exec (shiftedRow.context {} {}) (Parts.enterAt (shiftedRow.context {} {}) a.calls)
          (!a.calls.isEmpty) (.declareArray ⟨2, 1⟩ "b" [⟨0, 2⟩] "INTEGER") a.state = .ok c t ∧
        c = .normal := by
    refine ⟨_, .head ⟨_, .tail _ (.head _), _, _, rfl, rfl⟩ <|
      .head ⟨_, .head _, _, _, rfl, rfl⟩ .refl, rfl, ?_⟩
    exact ok_of_observed (fun c _ => c) (by decide +kernel)
  obtain ⟨declares, -⟩ :=
    declared_bounds_kept shiftedRow {} {} review reviewed valid a reaches task executed
  exact ⟨a, t, reaches, task, declares⟩

/-- The name of a declared array can come to hold one with other bounds: an index inside the declared
bounds, which was checked, is then refused. -/
theorem shiftedRow_shifts :
    (∃ review, Review.ofProgram ({} : Settings).limits.maxArrayElements shiftedRow = .ok review ∧
      review.errors = []) ∧
    (∃ c, ∃ t : RunState, Run.execBlock (shiftedRow.context {} {})
        (Parts.enterAt (shiftedRow.context {} {}) []) false (shiftedRow.body.take 2) (.initial {}) =
          .ok c t ∧
      (t.memory.find t.env "b", t.memory.binding? 1, (t.memory.arrays[1]?).map ArrayCell.bounds) =
        (some 1, some ⟨.array 1, some .array, false⟩, some [⟨0, 2⟩])) ∧
    (∃ c, ∃ t : RunState, Run.execBlock (shiftedRow.context {} {})
        (Parts.enterAt (shiftedRow.context {} {}) []) false (shiftedRow.body.take 3) (.initial {}) =
          .ok c t ∧
      (t.memory.find t.env "b", t.memory.binding? 1, (t.memory.arrays[0]?).map ArrayCell.bounds) =
        (some 1, some ⟨.array 0, some .array, false⟩, some [⟨1, 3⟩])) ∧
    shiftedRow.run {} {} = .ok ⟨[⟨.error, "Line 4: Runtime Error - Array index out of bounds", some 4,
      some .indexOutOfRange⟩], false, 4⟩ :=
  ⟨Review.exists_of_errors (by decide +kernel),
    ok_of_observed (fun _ (t : RunState) => (t.memory.find t.env "b", t.memory.binding? 1,
      (t.memory.arrays[1]?).map ArrayCell.bounds)) (by decide +kernel),
    ok_of_observed (fun _ (t : RunState) => (t.memory.find t.env "b", t.memory.binding? 1,
      (t.memory.arrays[0]?).map ArrayCell.bounds)) (by decide +kernel),
    by decide +kernel⟩

end Pseudocode
