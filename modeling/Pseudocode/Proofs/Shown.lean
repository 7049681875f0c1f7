import Pseudocode.Proofs.Conduct

/-! Texts of values. A text is looked for no deeper than there are arrays; where no array is an element
of an array, that is always deep enough. -/
namespace Pseudocode.Memory

variable {m : Memory} {v : Value} {cell : ArrayCell} {limit depth : Nat}

theorem cell_scalar (scalar : v.type ≠ .array) : m.cell? v = none := by
  cases v with
  | array i => exact absurd rfl scalar
  | _ => rfl

theorem scalarText_ends (scalar : v.type ≠ .array) : v.scalarText ≠ .error .endless := by
  cases v with
  | array i => exact absurd rfl scalar
  | integer n =>
    simp only [Value.scalarText]
    split <;> nofun
  | _ => nofun

theorem textTo_scalar (scalar : v.type ≠ .array) : m.textTo depth v = v.scalarText := by
  unfold textTo
  simp only [cell_scalar scalar]

theorem textTo_array (held : m.cell? v = some cell) :
    m.textTo (depth + 1) v = (cell.elements.toList.mapM (m.textTo depth)).map
      fun parts => "[" ++ ", ".intercalate parts ++ "]" := by
  rw [textTo.eq_def]
  simp only [held]
  rfl

theorem textWithin_scalar (scalar : v.type ≠ .array) :
    m.textWithin limit depth v = match v.scalarText with
      | .error fault => .error (.noText fault)
      | .ok text => if text.length > limit then .error .tooLong else .ok text := by
  rw [textWithin.eq_def]
  dsimp only
  split
  next => rfl
  next held => cases (cell_scalar scalar).symm.trans held
  next held => cases (cell_scalar scalar).symm.trans held

theorem textWithin_array (held : m.cell? v = some cell) :
    m.textWithin limit (depth + 1) v =
      (partsWithin limit (m.textWithin limit depth) 2 cell.elements.toList).map
        fun parts => "[" ++ ", ".intercalate parts ++ "]" := by
  rw [textWithin.eq_def]
  simp only [held]
  rfl

/-- A list of computations fails only where one of them does. -/
theorem error_of_mapM {f : α → Except ε β} {list : List α} (failed : list.mapM f = .error e) :
    ∃ a ∈ list, f a = .error e := by
  induction list with
  | nil => cases failed
  | cons a rest ih =>
    rw [List.mapM_cons] at failed
    cases first : f a with
    | error fault =>
      rw [first] at failed
      cases failed
      exact ⟨a, .head _, first⟩
    | ok b =>
      cases others : rest.mapM f with
      | error fault =>
        simp only [first, others, Bind.bind, Except.bind] at failed
        obtain ⟨c, member, blamed⟩ := ih (others.trans failed)
        exact ⟨c, .tail _ member, blamed⟩
      | ok bs =>
        simp only [first, others, Bind.bind, Except.bind] at failed
        cases failed

theorem error_of_partsWithin {render : Value → Except ShowFault String} {length : Nat}
    {values : List Value} (failed : partsWithin limit render length values = .error (.noText fault)) :
    ∃ v ∈ values, render v = .error (.noText fault) := by
  induction values generalizing length with
  | nil => cases failed
  | cons v rest ih =>
    unfold partsWithin at failed
    cases first : render v with
    | error cause =>
      rw [first] at failed
      cases failed
      exact ⟨v, .head _, first⟩
    | ok part =>
      simp only [first, Bind.bind, Except.bind] at failed
      split at failed
      · cases failed
      · cases others : partsWithin limit render (length + part.length + 2) rest with
        | error cause =>
          simp only [others] at failed
          obtain ⟨w, member, blamed⟩ := ih (others.trans failed)
          exact ⟨w, .tail _ member, blamed⟩
        | ok parts =>
          simp only [others] at failed
          cases failed

/-- An array that exists, with one more than the depth that its elements are looked into. -/
theorem lives_cell {i : ArrayId} (lives : (Value.array i).Lives m) :
    ∃ cell depth, m.cell? (.array i) = some cell ∧ m.arrays.size = depth + 1 :=
  have inside := lives i rfl
  ⟨m.arrays[i], m.arrays.size - 1, Array.getElem?_eq_getElem inside,
    (Nat.succ_pred_eq_of_pos (Nat.zero_lt_of_lt inside)).symm⟩

/-- Where no array holds an array, every text comes to an end. -/
theorem Flat.text_ends (flat : m.Flat) (lives : v.Lives m) : m.text v ≠ .error .endless := by
  intro failed
  by_cases scalar : v.type = .array
  · cases v with
    | array i =>
      obtain ⟨cell, depth, held, size⟩ := lives_cell lives
      rw [text, size, textTo_array held] at failed
      cases parts : cell.elements.toList.mapM (m.textTo depth) with
      | ok texts =>
        rw [parts] at failed
        cases failed
      | error fault =>
        rw [parts] at failed
        cases failed
        obtain ⟨w, member, blamed⟩ := error_of_mapM parts
        have plain := flat i cell held w (Array.mem_toList_iff.mp member)
        rw [textTo_scalar plain] at blamed
        exact scalarText_ends plain blamed
    | _ => cases scalar
  · rw [text, textTo_scalar scalar] at failed
    exact scalarText_ends scalar failed

theorem textWithin_scalar_ends (scalar : v.type ≠ .array) :
    m.textWithin limit depth v ≠ .error (.noText .endless) := by
  intro failed
  rw [textWithin_scalar scalar] at failed
  cases shown : v.scalarText with
  | ok text =>
    simp only [shown] at failed
    split at failed <;> cases failed
  | error fault =>
    simp only [shown] at failed
    cases failed
    exact scalarText_ends scalar shown

theorem Flat.textWithin_ends (flat : m.Flat) (lives : v.Lives m) :
    m.textWithin limit m.arrays.size v ≠ .error (.noText .endless) := by
  intro failed
  by_cases scalar : v.type = .array
  · cases v with
    | array i =>
      obtain ⟨cell, depth, held, size⟩ := lives_cell lives
      rw [size, textWithin_array held] at failed
      cases parts : partsWithin limit (m.textWithin limit depth) 2 cell.elements.toList with
      | ok texts =>
        rw [parts] at failed
        cases failed
      | error fault =>
        rw [parts] at failed
        cases failed
        obtain ⟨w, member, blamed⟩ := error_of_partsWithin parts
        exact textWithin_scalar_ends (flat i cell held w (Array.mem_toList_iff.mp member)) blamed
    | _ => cases scalar
  · exact textWithin_scalar_ends scalar failed

end Pseudocode.Memory
