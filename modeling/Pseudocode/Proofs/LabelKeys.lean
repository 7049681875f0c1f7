import Pseudocode.Check.Statement
import Pseudocode.Run.Expression

/-! The keys by which labels of a CASE statement are found to be the same, against the comparisons that choose
a branch. A check takes truth values as numbers and a run does not, so of two labels with the same key one can
fail to compare with a selector that the other takes, but it cannot let that selector pass. -/
namespace Pseudocode

/-- The key of a label that is a literal or a range of literals. -/
def Expr.labelKey? : Expr → Option LabelKey
  | .literal _ v => some (.value (Value.ofLiteral v).type.category (.ofLiteral v))
  | .range _ (.literal _ low) (.literal _ high) => some (.range (.ofLiteral low) (.ofLiteral high))
  | _ => none

/-- Whether a label with the key takes a value. -/
def LabelKey.takes (v : Value) : LabelKey → Except RunFault Bool
  | .value _ w => compareValues .equal v w
  | .range low high =>
    match compareValues .greaterEqual v low with
    | .ok true => compareValues .lessEqual v high
    | other => other

/-- The comparisons that have an answer, one case for each kind of values that can be compared. -/
inductive Compares (op : BinaryOp) (v w : Value) : Bool → Prop
  | null : v = .null ∨ w = .null → Compares op v w (op.holds (if v = w then some .eq else none))
  | numbers : v.number? = some m → w.number? = some n → Compares op v w (op.holds (m.compare? n))
  | texts : v.text? = some s → w.text? = some t → Compares op v w (op.holds (some (compareText s t)))
  | truths : v = .boolean a → w = .boolean b → Compares op v w (op.holds (if a = b then some .eq else none))

variable {op : BinaryOp} {u v w : Value} {answer : Bool}

theorem compares_of_ok (compared : compareValues op v w = .ok answer) : Compares op v w answer := by
  unfold compareValues at compared
  split at compared
  next null =>
    split at compared
    · cases compared
      exact .null null
    · cases compared
  · split at compared
    · cases compared
      exact .numbers ‹_› ‹_›
    · cases compared
      exact .texts ‹_› ‹_›
    · split at compared
      · cases compared
        exact .truths rfl rfl
      · cases compared
    · cases compared

theorem place_eq {p q : Binary64.Place} (equal : p.compare q = .eq) : p = q := by
  cases p with
  | within m =>
    cases q with
    | within n => exact congrArg _ (Std.compare_eq_iff_eq.mp equal)
    | below => cases equal
    | above => cases equal
  | below =>
    cases q with
    | below => rfl
    | within => cases equal
    | above => cases equal
  | above =>
    cases q with
    | above => rfl
    | within => cases equal
    | below => cases equal

/-- Only the place of a number counts when it is compared. -/
theorem compare?_congr {n n' : Number} (equal : n.compare? n' = some .eq) (m : Number) :
    m.compare? n = m.compare? n' := by
  unfold Number.compare? at equal ⊢
  split at equal
  next first second =>
    rw [first, second, place_eq (Option.some.inj equal)]
  · cases equal

section Same

variable (same : u.sameScalar w = true)
include same

theorem null_of_same : u = .null ↔ w = .null := by
  revert same
  cases u <;> cases w <;> simp [Value.sameScalar, Value.quantity?, Value.number?, Value.text?, Value.type]

theorem number_of_same (first : u.number? = some m) (second : w.number? = some n) : m.compare? n = some .eq := by
  revert same
  cases u <;> cases first <;> cases w <;> cases second <;>
    simp [Value.sameScalar, Value.quantity?, Value.number?]

theorem text_of_same (first : u.text? = some s) (second : w.text? = some t) : s = t := by
  revert same
  cases u <;> cases first <;> cases w <;> cases second <;>
    simp [Value.sameScalar, Value.quantity?, Value.number?, Value.text?]

theorem truth_of_same (first : u = .boolean a) (second : w = .boolean b) : a = b := by
  revert same
  subst first second
  cases a <;> cases b <;> decide +kernel

end Same

theorem Compares.of_null (compares : Compares op v w answer) (none : v = .null ∨ w = .null) :
    answer = op.holds (if v = w then some .eq else Option.none) := by
  cases compares with
  | null => rfl
  | numbers left right => rcases none with rfl | rfl <;> contradiction
  | texts left right => rcases none with rfl | rfl <;> contradiction
  | truths left right => rcases none with rfl | rfl <;> contradiction

theorem number_not_text (number : v.number? = some n) (text : v.text? = some s) : False := by
  cases v <;> cases number <;> cases text

/-- Two scalars that are the same answer a comparison alike, if both answer it. -/
theorem compares_same (same : u.sameScalar w = true) (first : Compares op v u answer)
    (second : Compares op v w answer') : answer = answer' := by
  by_cases none : v = .null ∨ w = .null
  · have none' : v = .null ∨ u = .null := by rwa [null_of_same same]
    have iff : v = u ↔ v = w := by
      rcases none with rfl | rfl
      · rw [eq_comm, null_of_same same, eq_comm]
      · rw [(null_of_same same).mpr rfl]
    rw [first.of_null none', second.of_null none, ite_cond_congr (propext iff)]
  · cases first with
    | null none' => exact absurd (by rwa [← null_of_same same]) none
    | numbers left right =>
      cases second with
      | null none' => exact absurd none' none
      | numbers left' right' =>
        cases left.symm.trans left'
        rw [compare?_congr (number_of_same same right right')]
      | texts left' => exact (number_not_text left left').elim
      | truths truth => cases truth ▸ left
    | texts left right =>
      cases second with
      | null none' => exact absurd none' none
      | numbers left' => exact (number_not_text left' left).elim
      | texts left' right' =>
        cases left.symm.trans left'
        rw [text_of_same same right right']
      | truths truth => cases truth ▸ left
    | truths left right =>
      cases second with
      | null none' => exact absurd none' none
      | numbers number => cases left ▸ number
      | texts text => cases left ▸ text
      | truths left' right' =>
        cases left.symm.trans left'
        rw [truth_of_same same right right']

/-- A value that one of two scalars lets pass does not miss the other. -/
theorem same_not_missed (same : u.sameScalar w = true) (passes : compareValues op v w = .ok true) :
    compareValues op v u ≠ .ok false := by
  intro misses
  cases compares_same same (compares_of_ok misses) (compares_of_ok passes)

/-- Of two labels with the same key one does not miss a value that the other takes. -/
theorem LabelKey.not_missed {other key : LabelKey} (same : other.same key = true) (taken : key.takes v = .ok true) :
    other.takes v ≠ .ok false := by
  cases other with
  | value category u =>
    cases key with
    | value category' w =>
      simp only [LabelKey.same, Bool.and_eq_true] at same
      exact same_not_missed same.2 taken
    | range => cases same
  | range low high =>
    cases key with
    | value => cases same
    | range low' high' =>
      simp only [LabelKey.same, Bool.and_eq_true] at same
      rw [LabelKey.takes] at taken ⊢
      split at taken
      next above =>
        split
        · exact same_not_missed same.2 taken
        · exact same_not_missed same.1 above
      next missed => exact absurd taken missed

end Pseudocode
