/-! Tables from names to values that keep the order in which names first came in. -/
namespace Pseudocode

abbrev Table (α : Type) := List (String × α)

namespace Table

/-- Gives a name a value; a name that was there keeps its place. -/
def set (table : Table α) (name : String) (value : α) : Table α :=
  match table with
  | [] => [(name, value)]
  | (other, old) :: rest =>
    if other = name then (name, value) :: rest else (other, old) :: Table.set rest name value

def get? (table : Table α) (name : String) : Option α := List.lookup name table

theorem get?_set (table : Table α) (name other : String) (value : α) :
    (table.set name value).get? other = if other = name then some value else table.get? other := by
  have cons (key : String) (v : α) (rest : Table α) :
      Table.get? ((key, v) :: rest) other = if other = key then some v else Table.get? rest other := by
    by_cases h : other = key
    · subst h
      simp [get?]
    · have apart : (other == key) = false := by simp [h]
      simp [get?, List.lookup_cons, h, apart]
  induction table with
  | nil => simp only [set, cons]
  | cons entry rest ih =>
    obtain ⟨key, old⟩ := entry
    by_cases hk : key = name
    · subst hk
      simp only [set, if_true, cons]
      split <;> simp_all
    · simp only [set, if_neg hk, cons, ih]
      split <;> simp_all

end Table

end Pseudocode
