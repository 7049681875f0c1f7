import Mathlib.Data.Fintype.Card
import Mathlib.Data.List.Chain
import Pseudocode.Proofs.Shown
import Pseudocode.Proofs.SizedMemory
import Pseudocode.Trace

/-! Texts under a limit. The text of an array is put together element by element, and a separator is counted
for each, so that the sum is two more than the length of the text; but an array without elements is not
counted at all. Up to that the limit is exact, for arrays in arrays too. -/
namespace Pseudocode

open Relation

namespace Memory

/-- The second array is an element of the first. -/
def Contains (m : Memory) (i j : ArrayId) : Prop := ∃ cell, m.arrays[i]? = some cell ∧ .array j ∈ cell.elements

/-- The value is a scalar or made of arrays that exist, nested in each other without cycles. -/
inductive Unfolds (m : Memory) : Value → Prop
  | scalar (other : v.type ≠ .array) : Unfolds m v
  | array (held : m.arrays[i]? = some cell) (elements : ∀ v ∈ cell.elements, Unfolds m v) : Unfolds m (.array i)

/-- Whether a text of so many characters is shown for the value under the limit. -/
def FitsShown (m : Memory) (limit : Nat) (v : Value) (length : Nat) : Prop :=
  match m.cell? v with
  | none => length ≤ limit
  | some cell => cell.elements = #[] ∨ length + 2 ≤ limit

variable {m : Memory} {v : Value} {i j : ArrayId} {limit depth length : Nat}

instance : Decidable (m.FitsShown limit v length) := by
  unfold FitsShown
  cases m.cell? v with
  | none => exact inferInstanceAs (Decidable (length ≤ limit))
  | some cell => exact inferInstanceAs (Decidable (cell.elements = #[] ∨ length + 2 ≤ limit))

section Nesting

theorem Unfolds.elements (unfolds : m.Unfolds (.array i)) :
    ∃ cell, m.arrays[i]? = some cell ∧ ∀ v ∈ cell.elements, m.Unfolds v := by
  cases unfolds with
  | scalar other => exact absurd rfl other
  | array held elements => exact ⟨_, held, elements⟩

theorem Unfolds.inside (unfolds : m.Unfolds (.array i)) (contains : m.Contains i j) : m.Unfolds (.array j) := by
  obtain ⟨cell, held, elements⟩ := unfolds.elements
  obtain ⟨other, same, member⟩ := contains
  cases held.symm.trans same
  exact elements _ member

/-- What unfolds is not inside itself. -/
theorem Unfolds.acyclic (unfolds : m.Unfolds v) : ∀ i, v = .array i → ¬TransGen m.Contains i i := by
  induction unfolds with
  | scalar other =>
    rintro i rfl
    exact absurd rfl other
  | @array root cell held elements ih =>
    rintro i same
    cases same
    intro cycle
    -- the cycle also goes through the element that it starts with
    obtain ⟨j, first, back⟩ := TransGen.head'_iff.mp cycle
    obtain ⟨other, again, member⟩ := first
    cases held.symm.trans again
    exact ih _ member j rfl (TransGen.tail' back ⟨cell, held, member⟩)

/-- Where all INTEGERs have admissible sizes, a value is only without a text if a path of arrays leads too deep
into it. -/
theorem path_of_error {fault : TextFault} (arrays : m.ArraysSized) (unfolds : m.Unfolds v) (sized : v.Sized)
    (failed : m.textTo depth v = .error fault) :
    ∃ i path, v = .array i ∧ path.length = depth ∧ (i :: path).IsChain m.Contains ∧
      ∀ j ∈ i :: path, m.Unfolds (.array j) := by
  induction unfolds generalizing depth fault with
  | scalar other =>
    obtain ⟨text, shown⟩ := sized.text other
    rw [textTo_scalar other, shown] at failed
    cases failed
  | @array i cell held elements ih =>
    cases depth with
    | zero =>
      refine ⟨i, [], rfl, rfl, .singleton i, ?_⟩
      simpa using .array held elements
    | succ depth =>
      rw [textTo_array (v := .array i) held] at failed
      cases parts : cell.elements.toList.mapM (m.textTo depth) with
      | ok texts =>
        rw [parts] at failed
        cases failed
      | error cause =>
        obtain ⟨w, member, blamed⟩ := error_of_mapM parts
        have element := Array.mem_toList_iff.mp member
        obtain ⟨j, path, rfl, length, chain, unfold⟩ := ih w element (arrays i cell held w element) blamed
        refine ⟨i, j :: path, rfl, congrArg Nat.succ length, ?_, ?_⟩
        · exact .cons_cons ⟨cell, held, element⟩ chain
        · exact List.forall_mem_cons.mpr ⟨.array held elements, unfold⟩

/-- No path of different arrays is longer than there are arrays. -/
theorem length_le_of_chain {path : List ArrayId} (chain : path.IsChain m.Contains)
    (unfold : ∀ i ∈ path, m.Unfolds (.array i)) : path.length ≤ m.arrays.size := by
  have ordered : path.Pairwise (TransGen m.Contains) := (chain.imp fun _ _ => TransGen.single).pairwise
  have different : path.Nodup := by
    refine ordered.imp_of_mem ?_
    rintro i j member - inside rfl
    exact (unfold i member).acyclic i rfl inside
  have exist (i : ArrayId) (member : i ∈ path) : i ∈ List.range m.arrays.size := by
    obtain ⟨cell, held, -⟩ := (unfold i member).elements
    exact List.mem_range.mpr (Array.getElem?_eq_some_iff.mp held).1
  have shorter := (List.subperm_of_subset different exist).length_le
  rwa [List.length_range] at shorter

/-- A value that unfolds, with INTEGERs of admissible sizes, has a text. -/
theorem Unfolds.text (unfolds : m.Unfolds v) (arrays : m.ArraysSized) (sized : v.Sized) :
    ∃ text, m.text v = .ok text := by
  cases found : m.text v with
  | ok text => exact ⟨text, rfl⟩
  | error fault =>
    obtain ⟨i, path, -, length, chain, unfold⟩ := path_of_error arrays unfolds sized found
    have few := length_le_of_chain chain unfold
    simp [length] at few

end Nesting

section Limits

variable {plain : Value → Except TextFault String} {limited : Value → Except ShowFault String} {parts : List String}

/-- What the elements of an array are counted for. -/
def countedLength (parts : List String) : Nat := (parts.map fun part => part.length + 2).sum

theorem countedLength_cons (part : String) (parts : List String) :
    countedLength (part :: parts) = part.length + 2 + countedLength parts := by
  simp [countedLength]

theorem length_joined (some : parts ≠ []) : (", ".intercalate parts).length + 2 = countedLength parts := by
  induction parts with
  | nil => exact absurd rfl some
  | cons part rest ih =>
    cases rest with
    | nil => simp [countedLength]
    | cons next rest =>
      rw [countedLength_cons, ← ih (by simp), String.intercalate_cons_cons, String.length_append, String.length_append]
      have separator : ", ".length = 2 := rfl
      omega

/-- The text of an array is two characters shorter than what is counted. -/
theorem length_bracketed (some : parts ≠ []) :
    ("[" ++ ", ".intercalate parts ++ "]").length + 2 = 2 + countedLength parts := by
  rw [← length_joined some, String.length_append, String.length_append]
  have brackets : "[".length = 1 ∧ "]".length = 1 := ⟨rfl, rfl⟩
  omega

theorem nil_of_mapM {values : List Value} (taken : values.mapM plain = .ok []) : values = [] := by
  cases values with
  | nil => rfl
  | cons v rest =>
    obtain ⟨part, -, taken⟩ := ok_of_bind (List.mapM_cons.symm.trans taken)
    obtain ⟨others, -, made⟩ := ok_of_bind taken
    cases made

/-- Elements are taken as long as what is counted is within the limit, if each of them is shown that leaves room
for brackets and a separator. -/
theorem partsWithin_eq {values : List Value} (taken : values.mapM plain = .ok parts) (begun : 2 ≤ length)
    (agree : ∀ v ∈ values, ∀ text, plain v = .ok text →
      limited v = .ok text ∨ limited v = .error .tooLong ∧ limit < text.length + 4) :
    partsWithin limit limited length values =
      if values = [] ∨ length + countedLength parts ≤ limit then .ok parts else .error .tooLong := by
  induction values generalizing length parts with
  | nil =>
    cases taken
    simp [partsWithin]
  | cons v rest ih =>
    obtain ⟨part, first, taken⟩ := ok_of_bind (List.mapM_cons.symm.trans taken)
    obtain ⟨others, remaining, made⟩ := ok_of_bind taken
    cases made
    have shown := agree v (.head _) part first
    have later : partsWithin limit limited (length + part.length + 2) rest = _ :=
      ih remaining (by omega) fun w member => agree w (.tail _ member)
    rw [countedLength_cons]
    have past (above : limit < length + part.length + 2) :
        ¬(v :: rest = [] ∨ length + (part.length + 2 + countedLength others) ≤ limit) := by
      simp
      omega
    unfold partsWithin
    rcases shown with shown | ⟨refused, long⟩
    · rw [shown]
      show (if length + part.length + 2 > limit then _ else partsWithin _ _ _ rest >>= _) = _
      rw [later]
      by_cases above : length + part.length + 2 > limit
      · rw [if_pos above, if_neg (past above)]
      · have same : (rest = [] ∨ length + part.length + 2 + countedLength others ≤ limit) ↔
            (v :: rest = [] ∨ length + (part.length + 2 + countedLength others) ≤ limit) := by
          cases rest with
          | nil =>
            cases remaining
            simp [countedLength]
            omega
          | cons w rest =>
            simp
            omega
        rw [if_neg above]
        simp only [same]
        split <;> rfl
    · rw [refused, if_neg (past (by omega))]
      rfl

theorem textWithin_eq_of_none {text : String} (other : m.cell? v = none) (plain : m.textTo depth v = .ok text) :
    m.textWithin limit depth v = if m.FitsShown limit v text.length then .ok text else .error .tooLong := by
  have scalar : v.scalarText = .ok text := by
    rw [textTo.eq_def] at plain
    simpa only [other] using plain
  rw [textWithin.eq_def]
  simp only [other, scalar, FitsShown]
  split
  next past => exact (if_neg (Nat.not_le.mpr past)).symm
  next fits => exact (if_pos (Nat.not_lt.mp fits)).symm

/-- The text of a value under a limit is its text, or refused where that does not fit. -/
theorem textWithin_eq {text : String} (plain : m.textTo depth v = .ok text) :
    m.textWithin limit depth v = if m.FitsShown limit v text.length then .ok text else .error .tooLong := by
  induction depth generalizing v text with
  | zero =>
    cases held : m.cell? v with
    | none => exact textWithin_eq_of_none held plain
    | some cell =>
      rw [textTo.eq_def] at plain
      simp only [held] at plain
      cases plain
  | succ depth ih =>
    cases held : m.cell? v with
    | none => exact textWithin_eq_of_none held plain
    | some cell =>
      rw [textTo_array held] at plain
      cases taken : cell.elements.toList.mapM (m.textTo depth) with
      | error fault =>
        rw [taken] at plain
        cases plain
      | ok parts =>
        rw [taken] at plain
        cases plain
        have agree (w : Value) (member : w ∈ cell.elements.toList) (part : String)
            (first : m.textTo depth w = .ok part) :
            m.textWithin limit depth w = .ok part ∨
              m.textWithin limit depth w = .error .tooLong ∧ limit < part.length + 4 := by
          rw [ih first]
          split
          · exact .inl rfl
          next past =>
            refine .inr ⟨rfl, ?_⟩
            unfold FitsShown at past
            split at past <;> omega
        have fits : m.FitsShown limit v ("[" ++ ", ".intercalate parts ++ "]").length ↔
            cell.elements.toList = [] ∨ 2 + countedLength parts ≤ limit := by
          simp only [FitsShown, held, Array.toList_eq_nil_iff]
          by_cases empty : cell.elements = #[]
          · simp [empty]
          · have some : parts ≠ [] := by
              rintro rfl
              exact empty (Array.toList_eq_nil_iff.mp (nil_of_mapM taken))
            rw [length_bracketed some]
        rw [textWithin_array held, partsWithin_eq taken (Nat.le_refl 2) agree]
        simp only [fits]
        split <;> rfl

end Limits

end Memory

namespace Run

variable {ctx : RunContext} {line : Nat} {v : Value} {s : RunState}

theorem shown_of_text {text : String}
    (limited : s.memory.textWithin ctx.settings.limits.maxStringLength s.memory.arrays.size v = .ok text) :
    shown ctx line v s = .ok text s := by
  have state : (get : Run RunState) s = .ok s s := rfl
  unfold shown
  rw [bind_of_ok state]
  simp only [limited]
  rfl

theorem shown_of_tooLong
    (limited : s.memory.textWithin ctx.settings.limits.maxStringLength s.memory.arrays.size v = .error .tooLong) :
    shown ctx line v s = .error (.fault line (.textTooLong ctx.settings.limits.maxStringLength)) s := by
  have state : (get : Run RunState) s = .ok s s := rfl
  unfold shown
  rw [bind_of_ok state]
  simp only [limited]
  rfl

/-- Every value that is nested without cycles has a text. It is shown whole or refused: the text of a scalar if it
has more characters than the limit, the text of an array with elements if it has more than two fewer than the limit,
and the text of an array without elements never. -/
theorem shown_exact (arrays : s.memory.ArraysSized) (unfolds : s.memory.Unfolds v) (sized : v.Sized) :
    ∃ text, s.memory.text v = .ok text ∧
      shown ctx line v s =
        if s.memory.FitsShown ctx.settings.limits.maxStringLength v text.length then .ok text s
        else .error (.fault line (.textTooLong ctx.settings.limits.maxStringLength)) s := by
  obtain ⟨text, plain⟩ := unfolds.text arrays sized
  refine ⟨text, plain, ?_⟩
  have limited := @Memory.textWithin_eq s.memory _ ctx.settings.limits.maxStringLength _ _ plain
  split at limited
  next fits => exact (shown_of_text limited).trans (if_pos fits).symm
  next past => exact (shown_of_tooLong limited).trans (if_neg past).symm

/-- An array of three zeros. -/
def zeros : ArrayCell := ⟨[⟨1, 3⟩], some .integer, #[.integer 0, .integer 0, .integer 0]⟩

/-- A run that has declared it. -/
def threeZeros : RunState :=
  { RunState.initial {} with memory := ⟨#[zeros], #[⟨.array 0, some .array, false⟩], #[[("a", 0)]]⟩ }

/-- What runs under a limit on texts. -/
def contextWithin (limit : Nat) : RunContext := ⟨{ limits := { maxStringLength := limit } }, {}, []⟩

theorem zeros_elements : ∀ v ∈ zeros.elements, v = .integer 0 := by simp [zeros]

theorem threeZeros_unfolds : threeZeros.memory.Unfolds (.array 0) := by
  refine @Memory.Unfolds.array _ 0 zeros rfl fun v member => .scalar ?_
  rw [zeros_elements v member]
  decide

theorem threeZeros_sized : threeZeros.memory.ArraysSized := by
  intro i cell held v member
  cases i with
  | zero =>
    cases held
    rw [zeros_elements v member]
    exact Value.sized_integer (sized_iff.mpr (Nat.two_pow_pos _))
  | succ i => cases held

/-- Under a limit of eleven the nine characters of three zeros are shown. -/
theorem threeZeros_shown : shown (contextWithin 11) 2 (.array 0) threeZeros = .ok "[0, 0, 0]" threeZeros := by
  obtain ⟨text, plain, shows⟩ := @shown_exact (contextWithin 11) 2 _ _ threeZeros_sized threeZeros_unfolds
    (Value.sized_array 0)
  have same : text = "[0, 0, 0]" := by
    have known : threeZeros.memory.text (.array 0) = .ok "[0, 0, 0]" := by decide +kernel
    cases plain.symm.trans known
    rfl
  subst same
  exact shows.trans (if_pos (by decide +kernel))

/-- Under a limit of nine, which they do not exceed, they are refused. -/
theorem threeZeros_refused : ¬∀ (ctx : RunContext) (line : Nat) (v : Value) (s : RunState) (text : String),
    s.memory.Unfolds v → s.memory.text v = .ok text → text.length ≤ ctx.settings.limits.maxStringLength →
      shown ctx line v s = .ok text s := by
  intro limited
  have shows := limited (contextWithin 9) 2 (.array 0) threeZeros "[0, 0, 0]" threeZeros_unfolds (by decide +kernel)
    (by decide)
  have refused : shown (contextWithin 9) 2 (.array 0) threeZeros = .error (.fault 2 (.textTooLong 9)) threeZeros := rfl
  cases refused.symm.trans shows

end Run

end Pseudocode
