import Mathlib.Data.List.Forall2
import Pseudocode.Check.Expression
import Pseudocode.Proofs.Ends
import Pseudocode.Proofs.Symbols

/-! Typing rules for expressions without calls. Where the check of a program has nothing to report in
such an expression and knows the types of all its parts, the rules give it the type that was inferred.
Conversely the check infers of an expression with a type just that type, whatever names it has read
before; so the types of the parts do not depend on the order in which they are looked at. -/
namespace Pseudocode

/-- The name of a variable, constant or parameter with a known type that is no array. -/
def SymbolTable.Scalar (t : SymbolTable) (word : String) (type : DataType) : Prop :=
  ∃ found, t.lookup word = some found ∧ found.symbol.kind.isRoutine = false ∧
    found.symbol.type = some type ∧ type ≠ .array ∧ type ≠ .null

/-- The name of an array that was declared with bounds. -/
def SymbolTable.Indexed (t : SymbolTable) (word : String) (bounds : List Bound) (type : DataType) :
    Prop :=
  ∃ found, t.lookup word = some found ∧ found.symbol.kind ≠ .parameter ∧
    found.symbol.type = some .array ∧ found.symbol.bounds = some bounds ∧
    found.symbol.elementType = some type ∧ type ≠ .null

/-- Values of two types that an operator can compare. -/
def BinaryOp.Compares (op : BinaryOp) (left right : DataType) : Prop :=
  left.isNumeric = true ∧ right.isNumeric = true ∨ left.isText = true ∧ right.isText = true ∨
    left = .boolean ∧ right = .boolean ∧ op.isEquality = true

/-- The operators that only numbers have. -/
def BinaryOp.isArithmetic : BinaryOp → Bool
  | .plus | .minus | .times | .divide | .div | .mod => true
  | _ => false

/-- The type of the number that an operator makes of two numbers. -/
def BinaryOp.numberType (op : BinaryOp) (left right : DataType) : DataType :=
  if op = .divide then .real
  else if op = .div then .integer
  else if left = .integer ∧ right = .integer then .integer
  else .real

/-- The type of what an operator makes of values of two types. -/
inductive BinaryOp.Gives : BinaryOp → DataType → DataType → DataType → Prop
  | logical : op.isLogical = true → Gives op .boolean .boolean .boolean
  | comparison : op.isComparison = true → op.Compares l r → Gives op l r .boolean
  | join : Gives .join l r .string
  | joinText : l.isText = true → r.isText = true → Gives .plus l r .string
  | arithmetic : op.isArithmetic = true → l.isNumeric = true → r.isNumeric = true →
      Gives op l r (op.numberType l r)

inductive UnaryOp.Gives : UnaryOp → DataType → DataType → Prop
  | minus : type.isNumeric = true → Gives .minus type type
  | not : Gives .not .boolean .boolean

inductive Expr.HasType (t : SymbolTable) : Expr → DataType → Prop
  | literal : (Value.ofLiteral value).type ≠ .null →
      HasType t (.literal place value) (Value.ofLiteral value).type
  | name : t.Scalar word type → HasType t (.name place word) type
  | element : t.Indexed array bounds type → indices.length = bounds.length →
      (∀ e ∈ indices, HasType t e .integer) → HasType t (.element place array indices) type
  | unary : HasType t operand operandType → op.Gives operandType type →
      HasType t (.unary place op operand) type
  | binary : HasType t left l → HasType t right r → op.Gives l r type →
      HasType t (.binary place op left right) type

/-- An expression that stands in another. -/
inductive Expr.Within (e : Expr) : Expr → Prop
  | here : Within e e
  | index : i ∈ indices → Within e i → Within e (.element place array indices)
  | left : Within e l → Within e (.binary place op l r)
  | right : Within e r → Within e (.binary place op l r)
  | operand : Within e o → Within e (.unary place op o)
  | argument : a ∈ arguments → Within e a → Within e (.call place callee arguments)
  | low : Within e l → Within e (.range place l h)
  | high : Within e h → Within e (.range place l h)

/-- What an expression is made of, its parts apart: a literal, a declared name, an element of a declared
array or an operator of the language. -/
def Expr.Built (t : SymbolTable) : Expr → Prop
  | .literal .. => True
  | .name _ word => ∃ type, t.Scalar word type
  | .element _ array _ => ∃ bounds type, t.Indexed array bounds type
  | .unary _ op _ => op = .minus ∨ op = .not
  | .binary _ op .. => op ∈ BinaryOp.all
  | _ => False

/-- Two symbols that differ at most in the mark have the same types. -/
theorem Symbol.typed_alike {a b : Symbol} (same : a.plain = b.plain) :
    a.kind = b.kind ∧ a.type = b.type ∧ a.bounds = b.bounds ∧ a.elementType = b.elementType := by
  simp only [plain, Symbol.mk.injEq] at same
  exact ⟨same.2.1, same.2.2.1, same.2.2.2.2.2.1, same.2.2.2.2.1⟩

namespace SymbolTable

variable {t u : SymbolTable}

/-- A table that differs in nothing but marks finds a symbol that differs in nothing but the mark. -/
theorem lookup_alike {here : Found} (same : u.plain = t.plain) (found : t.lookup word = some here) :
    ∃ there, u.lookup word = some there ∧ there.symbol.plain = here.symbol.plain := by
  have alike := congrArg (·.lookup word) same
  simp only [lookup_plain, found, Option.map_some, Option.map_eq_some_iff] at alike
  obtain ⟨there, found', plain⟩ := alike
  exact ⟨there, found', congrArg Found.symbol plain⟩

theorem Scalar.alike (scalar : t.Scalar word type) (same : u.plain = t.plain) : u.Scalar word type := by
  obtain ⟨here, found, routine, typed, rest⟩ := scalar
  obtain ⟨there, found', plain⟩ := lookup_alike same found
  obtain ⟨kind, type, -, -⟩ := Symbol.typed_alike plain
  exact ⟨there, found', kind ▸ routine, type.trans typed, rest⟩

theorem Indexed.alike (indexed : t.Indexed word bounds type) (same : u.plain = t.plain) :
    u.Indexed word bounds type := by
  obtain ⟨here, found, parameter, typed, bounded, elements, rest⟩ := indexed
  obtain ⟨there, found', plain⟩ := lookup_alike same found
  obtain ⟨kind, type, bound, element⟩ := Symbol.typed_alike plain
  exact ⟨there, found', kind ▸ parameter, type.trans typed, bound.trans bounded,
    element.trans elements, rest⟩

end SymbolTable

namespace Check

variable {s t u : CheckState}

/-- A later state of the check of an expression: the symbols differ at most in the mark that they are
used, and what was reported stays so. -/
structure Onward (s t : CheckState) : Prop where
  symbols : t.symbols.plain = s.symbols.plain
  reports : s.reports.size ≤ t.reports.size

theorem Onward.refl (s : CheckState) : Onward s s := ⟨rfl, Nat.le_refl _⟩

theorem Onward.trans (first : Onward s t) (second : Onward t u) : Onward s u :=
  ⟨second.symbols.trans first.symbols, Nat.le_trans first.reports second.reports⟩

theorem noteRead_onward (place : Position) (found : Found) (s : CheckState) :
    Ends (noteRead place found) s (fun _ t => t.symbols.plain = s.symbols.plain ∧ t.reports = s.reports)
      (fun _ _ => False) := by
  simp only [noteRead, ends_modify]
  split
  · split
    · exact ⟨SymbolTable.use_plain _ _, rfl⟩
    · exact ⟨SymbolTable.use_plain _ _, rfl⟩
  · exact ⟨SymbolTable.use_plain _ _, rfl⟩

theorem report_onward (place : Position) (finding : Finding) (s : CheckState) :
    Ends (report place finding) s (fun _ t => Onward s t ∧ s.reports.size < t.reports.size)
      (fun _ _ => False) := by
  have longer : s.reports.size < (s.reports.push ⟨place, finding⟩).size := by simp
  exact ⟨⟨rfl, Nat.le_of_lt longer⟩, longer⟩

/-- Where a finding is reported, anything holds of a check that reports nothing. -/
theorem report_loud (place : Position) (finding : Finding) (s : CheckState) (p : Prop) :
    Ends (report place finding) s (fun _ t => Onward s t ∧ (t.reports.size ≤ s.reports.size → p))
      (fun _ _ => False) := by
  refine (report_onward place finding s).of_safe ?_
  rintro _ t ⟨onward, longer⟩
  exact ⟨onward, fun silent => absurd silent (Nat.not_le.mpr longer)⟩

/-- A name is inferred to have the type that its symbol was declared with. -/
theorem inferName_scalar (scalar : s.symbols.Scalar word type) (place : Position) :
    Ends (inferName place word) s (fun i t => i.type = some type ∧ Onward s t) (fun _ _ => False) := by
  obtain ⟨found, looked, routine, typed, notArray, -⟩ := scalar
  unfold inferName lookup
  simp only [ends_bind, ends_get, ends_pure, looked]
  refine (noteRead_onward place found s).of_safe ?_
  rintro _ t ⟨symbols, reports⟩
  have onward : Onward s t := ⟨symbols, Nat.le_of_eq (congrArg Array.size reports.symm)⟩
  simp only [routine, Bool.false_eq_true, if_false]
  split
  · exact ⟨typed, onward⟩
  · exact ⟨typed, onward⟩
  · rw [if_neg (by rw [typed]; simpa using notArray)]
    exact ⟨typed, onward⟩

/-- An index of type INTEGER is at most warned about. -/
theorem checkIndex_integer (array : String) (place : Position) {index : Inferred}
    (typed : index.type = some .integer) (bound : Bound) (s : CheckState) :
    Ends (checkIndex array place index bound) s (fun _ t => Onward s t) (fun _ _ => False) := by
  unfold checkIndex
  rw [typed]
  dsimp only
  split
  · split
    · exact (report_onward place _ s).of_safe fun _ _ reported => reported.1
    · exact .refl s
  · exact .refl s

/-- An index of another type is reported. -/
theorem checkIndex_other (array : String) (place : Position) {index : Inferred}
    (typed : index.type = some type) (other : type ≠ .integer) (bound : Bound) (s : CheckState) :
    Ends (checkIndex array place index bound) s
      (fun _ t => Onward s t ∧ s.reports.size < t.reports.size) (fun _ _ => False) := by
  unfold checkIndex
  rw [typed]
  cases type with
  | integer => exact absurd rfl other
  | _ =>
    dsimp only
    split
    · exact report_onward place _ s
    · exact report_onward place _ s

theorem checkIndices_typed (array : String) (entries : List ((Position × Inferred) × Bound))
    (known : ∀ entry ∈ entries, ∃ type, entry.1.2.type = some type) (s : CheckState) :
    Ends (entries.forM fun ((place, index), bound) => checkIndex array place index bound) s
      (fun _ t => Onward s t ∧ (t.reports.size ≤ s.reports.size →
        ∀ entry ∈ entries, entry.1.2.type = some .integer)) (fun _ _ => False) := by
  induction entries generalizing s with
  | nil => exact ⟨.refl s, fun _ entry member => absurd member List.not_mem_nil⟩
  | cons entry rest ih =>
    have others := ih fun entry member => known entry (.tail _ member)
    rw [List.forM, ends_bind]
    obtain ⟨type, typed⟩ := known entry (.head _)
    by_cases integer : type = .integer
    · subst integer
      refine (checkIndex_integer array _ typed _ s).of_safe fun _ t onward => ?_
      refine (others t).of_safe ?_
      rintro _ u ⟨further, rest⟩
      refine ⟨onward.trans further, fun silent => ?_⟩
      have first := onward.reports
      exact List.forall_mem_cons.mpr ⟨typed, rest (by omega)⟩
    · refine (checkIndex_other array _ typed integer _ s).of_safe ?_
      rintro _ t ⟨onward, reported⟩
      refine (others t).of_safe ?_
      rintro _ u ⟨further, _⟩
      refine ⟨onward.trans further, fun silent => ?_⟩
      have later := further.reports
      omega

/-- An element of a declared array has the type of its elements. Without a report it has an index of type
INTEGER for each dimension. -/
theorem checkElement_typed (indexed : s.symbols.Indexed array bounds type) (place : Position)
    {indices : List (Position × Inferred)}
    (known : ∀ entry ∈ indices, ∃ type, entry.2.type = some type) :
    Ends (checkElement place array indices true) s
      (fun found t => found = some type ∧ Onward s t ∧ (t.reports.size ≤ s.reports.size →
        indices.length = bounds.length ∧ ∀ entry ∈ indices, entry.2.type = some .integer))
      (fun _ _ => False) := by
  obtain ⟨found, looked, parameter, typed, bounded, elements, -⟩ := indexed
  unfold checkElement lookup
  simp only [ends_bind, ends_get, ends_pure, looked, if_true]
  refine (noteRead_onward place found s).of_safe ?_
  rintro _ t ⟨symbols, reports⟩
  have size : t.reports.size = s.reports.size := congrArg Array.size reports
  have onward : Onward s t := ⟨symbols, Nat.le_of_eq size.symm⟩
  simp only [typed, parameter, if_false, bounded]
  by_cases count : indices.length = bounds.length
  · rw [if_neg (not_not_intro count), ends_bind]
    refine (checkIndices_typed array (indices.zip bounds) (fun entry member => ?_) t).of_safe ?_
    · exact known entry.1 (List.of_mem_zip member).1
    · rintro _ u ⟨further, integers⟩
      refine ⟨elements, onward.trans further, fun silent => ⟨count, fun entry member => ?_⟩⟩
      obtain ⟨i, inside, rfl⟩ := List.mem_iff_getElem.mp member
      have zipped : (indices[i], bounds[i]) ∈ indices.zip bounds :=
        List.mem_iff_getElem.mpr ⟨i, by simp [← count, inside], by simp⟩
      exact integers (by omega) _ zipped
  · rw [if_pos count, ends_bind]
    refine (report_onward place _ t).of_safe ?_
    rintro _ u ⟨further, reported⟩
    exact ⟨elements, onward.trans further, fun silent => by omega⟩

end Check

theorem DataType.numeric_cases {type : DataType} (numeric : type.isNumeric = true) :
    type = .integer ∨ type = .real := by
  cases type <;> simp [isNumeric] at numeric ⊢

theorem DataType.text_cases {type : DataType} (text : type.isText = true) :
    type = .string ∨ type = .char := by
  cases type <;> simp [isText] at text ⊢

/-- Types in one group that are no arrays can be compared for equality. -/
theorem DataType.category_cases {l r : DataType} (same : l.category = r.category) (array : l ≠ .array)
    (null : l ≠ .null) :
    l.isNumeric = true ∧ r.isNumeric = true ∨ l.isText = true ∧ r.isText = true ∨
      l = .boolean ∧ r = .boolean := by
  cases l <;> cases r <;> simp [category, isNumeric, isText, text] at same array null ⊢

namespace BinaryOp

variable {op : BinaryOp}

theorem comparison_plain (comparison : op.isComparison = true) : op ≠ .join ∧ op.isLogical = false := by
  cases op <;> simp [isComparison, isLogical] at comparison ⊢

theorem arithmetic_plain (arithmetic : op.isArithmetic = true) :
    op ≠ .join ∧ op.isLogical = false ∧ op.isComparison = false := by
  cases op <;> simp [isArithmetic, isComparison, isLogical] at arithmetic ⊢

/-- The operators of the language. -/
theorem known_cases (known : op ∈ all) :
    op = .join ∨ op.isLogical = true ∨ op.isComparison = true ∨ op.isArithmetic = true := by
  cases op <;> simp [isLogical, isComparison, isArithmetic]
  simp [all] at known

end BinaryOp

namespace Check

variable {s t : CheckState}

theorem checkComparison_compares (place : Position) (compares : op.Compares l r) (s : CheckState) :
    Ends (checkComparison place op (some l) (some r)) s (fun _ t => t = s) (fun _ _ => False) := by
  obtain ⟨left, right⟩ | ⟨left, right⟩ | ⟨rfl, rfl, equality⟩ := compares
  · obtain rfl | rfl := DataType.numeric_cases left <;>
      obtain rfl | rfl := DataType.numeric_cases right <;> rfl
  · obtain rfl | rfl := DataType.text_cases left <;>
      obtain rfl | rfl := DataType.text_cases right <;> rfl
  · simp [checkComparison, equality]

/-- A comparison of known types without a report is one that the operator has. -/
theorem checkComparison_typed (place : Position) (op : BinaryOp) (left : l ≠ .null) (right : r ≠ .null)
    (s : CheckState) :
    Ends (checkComparison place op (some l) (some r)) s
      (fun _ t => Onward s t ∧ (t.reports.size ≤ s.reports.size → op.Compares l r))
      (fun _ _ => False) := by
  unfold checkComparison
  dsimp only
  rw [if_neg (by simp [left, right])]
  split
  · exact report_loud place _ s _
  · next arrays =>
    split
    · exact report_loud place _ s _
    · next same =>
      split
      · exact report_loud place _ s _
      · next ordered =>
        refine ⟨.refl s, fun _ => ?_⟩
        obtain numbers | texts | ⟨rfl, rfl⟩ :=
          DataType.category_cases (Decidable.not_not.mp same) (fun array => arrays (.inl array)) left
        · exact .inl numbers
        · exact .inr (.inl texts)
        · exact .inr (.inr ⟨rfl, rfl, by simpa using ordered⟩)

theorem checkLogical_typed (place : Position) (op : BinaryOp) (side : DataType) (s : CheckState) :
    Ends (checkLogical place op (some side)) s
      (fun _ t => Onward s t ∧ (t.reports.size ≤ s.reports.size → side = .boolean))
      (fun _ _ => False) := by
  by_cases boolean : side = .boolean
  · subst boolean
    exact ⟨.refl s, fun _ => rfl⟩
  · have other : checkLogical place op (some side) = report place (.logicalOperand op side) := by
      cases side <;> first | rfl | exact absurd rfl boolean
    rw [other]
    exact report_loud place _ s _

theorem inferUnary_gives (place : Position) (gives : op.Gives operandType type) {operand : Inferred}
    (typed : operand.type = some operandType) (s : CheckState) :
    Ends (inferUnary place op operand) s (fun i t => i.type = some type ∧ Onward s t)
      (fun _ _ => False) := by
  unfold inferUnary
  rw [typed]
  cases gives with
  | minus numeric =>
    obtain rfl | rfl := DataType.numeric_cases numeric
    · exact ⟨rfl, .refl s⟩
    · exact ⟨rfl, .refl s⟩
  | not => exact ⟨rfl, .refl s⟩

/-- An operand of a known type for which nothing is reported is one that the operator has. -/
theorem inferUnary_typed (place : Position) (known : op = .minus ∨ op = .not) {operand : Inferred}
    (typed : operand.type = some operandType) (present : operandType ≠ .null) (s : CheckState) :
    Ends (inferUnary place op operand) s
      (fun i t => t.reports.size ≤ s.reports.size → ∀ type, i.type = some type →
        op.Gives operandType type)
      (fun _ _ => False) := by
  have reported (finding : Finding) (i : Inferred) : Ends (do report place finding; return i) s
      (fun i t => t.reports.size ≤ s.reports.size → ∀ type, i.type = some type →
        op.Gives operandType type)
      (fun _ _ => False) := by
    rw [ends_bind]
    exact (report_loud place finding s _).of_safe fun _ t reported => reported.2
  unfold inferUnary
  rw [typed]
  obtain rfl | rfl := known
  · cases operandType with
    | null => exact absurd rfl present
    | integer | real =>
      rintro _ type ⟨⟩
      exact .minus rfl
    | _ => exact reported _ _
  · cases operandType with
    | null => exact absurd rfl present
    | boolean =>
      rintro _ type ⟨⟩
      exact .not
    | _ => exact reported _ _

/-- Two numbers under an arithmetic operator. -/
theorem inferArithmetic_numbers (place : Position) (op : BinaryOp) (left : l.isNumeric = true)
    (right : r.isNumeric = true) :
    inferArithmetic place op (some l) (some r) = pure (.of (op.numberType l r)) := by
  have noText : l.isText = false := by
    obtain rfl | rfl := DataType.numeric_cases left <;> rfl
  simp only [inferArithmetic, BinaryOp.numberType, noText, left, right]
  by_cases divide : op = .divide
  · simp [divide]
  · by_cases div : op = .div
    · simp [div]
    · by_cases integers : l = .integer ∧ r = .integer
      · simp [divide, div, integers]
      · simp [divide, div, integers]

theorem inferBinary_gives (place : Position) (gives : op.Gives l r type) (s : CheckState) :
    Ends (inferBinary place op (some l) (some r)) s (fun i t => i.type = some type ∧ Onward s t)
      (fun _ _ => False) := by
  unfold inferBinary
  cases gives with
  | logical logical => cases op <;> first | exact ⟨rfl, .refl s⟩ | cases logical
  | comparison comparison compares =>
    obtain ⟨noJoin, noLogical⟩ := BinaryOp.comparison_plain comparison
    simp only [noJoin, noLogical, comparison, Bool.false_eq_true, if_false, if_true, ends_bind]
    refine (checkComparison_compares place compares s).of_safe ?_
    rintro _ t rfl
    exact ⟨rfl, .refl t⟩
  | join => exact ⟨rfl, .refl s⟩
  | joinText left right =>
    obtain rfl | rfl := DataType.text_cases left <;>
      obtain rfl | rfl := DataType.text_cases right <;> exact ⟨rfl, .refl s⟩
  | arithmetic arithmetic left right =>
    obtain ⟨noJoin, noLogical, noComparison⟩ := BinaryOp.arithmetic_plain arithmetic
    simp only [noJoin, noLogical, noComparison, Bool.false_eq_true, if_false,
      inferArithmetic_numbers place op left right]
    exact ⟨rfl, .refl s⟩

theorem inferArithmetic_typed (place : Position) (arithmetic : op.isArithmetic = true) (l r : DataType)
    (s : CheckState) :
    Ends (inferArithmetic place op (some l) (some r)) s
      (fun i t => t.reports.size ≤ s.reports.size → ∀ type, i.type = some type → op.Gives l r type)
      (fun _ _ => False) := by
  by_cases numbers : l.isNumeric = true ∧ r.isNumeric = true
  · rw [inferArithmetic_numbers place op numbers.1 numbers.2]
    rintro _ type ⟨⟩
    exact .arithmetic arithmetic numbers.1 numbers.2
  · unfold inferArithmetic
    dsimp only
    split
    · next texts =>
      obtain ⟨rfl, left, right⟩ := texts
      rintro _ type ⟨⟩
      exact .joinText left right
    · have other : (!l.isNumeric || !r.isNumeric) = true := by
        revert numbers
        cases l.isNumeric <;> cases r.isNumeric <;> simp
      rw [if_pos other, ends_bind]
      exact (report_loud place _ s _).of_safe fun _ t reported => reported.2

/-- Operands of known types for which nothing is reported are ones that the operator has. -/
theorem inferBinary_typed (place : Position) (known : op ∈ BinaryOp.all) (left : l ≠ .null)
    (right : r ≠ .null) (s : CheckState) :
    Ends (inferBinary place op (some l) (some r)) s
      (fun i t => t.reports.size ≤ s.reports.size → ∀ type, i.type = some type → op.Gives l r type)
      (fun _ _ => False) := by
  unfold inferBinary
  obtain rfl | logical | comparison | arithmetic := BinaryOp.known_cases known
  · rintro _ type ⟨⟩
    exact .join
  · have noJoin : op ≠ .join := by rintro rfl; cases logical
    simp only [noJoin, logical, if_false, if_true, ends_bind]
    refine (checkLogical_typed place op l s).of_safe ?_
    rintro _ t ⟨first, leftBoolean⟩
    refine (checkLogical_typed place op r t).of_safe ?_
    rintro _ u ⟨second, rightBoolean⟩ silent type ⟨⟩
    have firstLonger := first.reports
    have secondLonger := second.reports
    cases leftBoolean (by omega)
    cases rightBoolean (by omega)
    exact .logical logical
  · obtain ⟨noJoin, noLogical⟩ := BinaryOp.comparison_plain comparison
    simp only [noJoin, noLogical, comparison, Bool.false_eq_true, if_false, if_true, ends_bind]
    refine (checkComparison_typed place op left right s).of_safe ?_
    rintro _ t ⟨_, compares⟩ silent type ⟨⟩
    exact .comparison comparison (compares silent)
  · obtain ⟨noJoin, noLogical, noComparison⟩ := BinaryOp.arithmetic_plain arithmetic
    simp only [noJoin, noLogical, noComparison, Bool.false_eq_true, if_false]
    exact inferArithmetic_typed place arithmetic l r s

/-- The check goes through the expression and infers this type, whatever was read before. -/
def Finds (t : SymbolTable) (e : Expr) (type : DataType) : Prop :=
  ∀ s : CheckState, s.symbols.plain = t.plain →
    Ends (infer e) s (fun i u => i.type = some type ∧ Onward s u) (fun _ _ => False)

theorem inferAll_finds {t : SymbolTable} (known : Expr → DataType → Prop) (es : List Expr)
    (finds : ∀ e ∈ es, ∃ type, known e type ∧ Finds t e type) (s : CheckState)
    (same : s.symbols.plain = t.plain) :
    Ends (inferAll es) s (fun is u => List.Forall₂ (fun e i => ∃ type, known e type ∧
      i.type = some type) es is ∧ Onward s u) (fun _ _ => False) := by
  induction es generalizing s with
  | nil =>
    rw [inferAll]
    exact ⟨.nil, .refl s⟩
  | cons e rest ih =>
    obtain ⟨type, here, found⟩ := finds e (.head _)
    rw [inferAll, ends_bind]
    refine (found s same).of_safe ?_
    rintro i u ⟨typed, first⟩
    rw [ends_bind]
    refine (ih (fun e member => finds e (.tail _ member)) u (first.symbols.trans same)).of_safe ?_
    rintro is w ⟨others, second⟩
    exact ⟨.cons ⟨type, here, typed⟩ others, first.trans second⟩

/-- The indices of an element as they are checked, with what was inferred of them. -/
theorem mem_placed {known : Expr → DataType → Prop} {es : List Expr} {is : List Inferred}
    (inferred : List.Forall₂ (fun e i => ∃ type, known e type ∧ i.type = some type) es is)
    {entry : Position × Inferred} (member : entry ∈ (es.map Expr.position).zip is) :
    ∃ e ∈ es, ∃ type, known e type ∧ entry.2.type = some type := by
  induction inferred with
  | nil => cases member
  | @cons e i es is first _ ih =>
    cases member with
    | head => exact ⟨e, .head _, first⟩
    | tail _ member =>
      obtain ⟨e, inside, found⟩ := ih member
      exact ⟨e, .tail _ inside, found⟩

theorem integers_of_placed {known : Expr → DataType → Prop} {es : List Expr} {is : List Inferred}
    (inferred : List.Forall₂ (fun e i => ∃ type, known e type ∧ i.type = some type) es is)
    (integers : ∀ entry ∈ (es.map Expr.position).zip is, entry.2.type = some .integer) :
    ∀ e ∈ es, known e .integer := by
  induction inferred with
  | nil => exact fun e member => absurd member List.not_mem_nil
  | @cons e i es is first _ ih =>
    refine List.forall_mem_cons.mpr ⟨?_, ih fun entry member => integers entry (.tail _ member)⟩
    obtain ⟨type, here, typed⟩ := first
    have integer := integers (e.position, i) (.head _)
    exact Option.some.inj (typed.symm.trans integer) ▸ here

/-- An expression that has a type is inferred to have it. -/
theorem finds_of_hasType {t : SymbolTable} (typed : e.HasType t type) : Finds t e type := by
  induction typed with
  | literal =>
    intro s _
    rw [infer]
    exact ⟨rfl, .refl s⟩
  | name scalar =>
    intro s same
    rw [infer]
    exact inferName_scalar (scalar.alike same) _
  | @element array bounds type indices place indexed count _ ih =>
    intro s same
    rw [infer, ends_bind]
    refine (inferAll_finds (fun _ type => type = .integer) indices
      (fun e member => ⟨_, rfl, ih e member⟩) s same).of_safe ?_
    rintro is u ⟨inferred, first⟩
    rw [ends_bind]
    refine (checkElement_typed (indexed.alike (first.symbols.trans same)) place
      fun entry member => ?_).of_safe ?_
    · obtain ⟨_, _, type, _, found⟩ := mem_placed inferred member
      exact ⟨type, found⟩
    · rintro _ w ⟨answer, second, _⟩
      exact ⟨answer, first.trans second⟩
  | unary _ gives ih =>
    intro s same
    rw [infer, ends_bind]
    refine (ih s same).of_safe ?_
    rintro i u ⟨operand, first⟩
    refine (inferUnary_gives _ gives operand u).of_safe ?_
    rintro _ w ⟨answer, second⟩
    exact ⟨answer, first.trans second⟩
  | binary _ _ gives leftIH rightIH =>
    intro s same
    rw [infer, ends_bind]
    refine (leftIH s same).of_safe ?_
    rintro l u ⟨left, first⟩
    rw [ends_bind]
    refine (rightIH u (first.symbols.trans same)).of_safe ?_
    rintro r w ⟨right, second⟩
    rw [left, right]
    refine (inferBinary_gives _ gives w).of_safe ?_
    rintro _ x ⟨answer, third⟩
    exact ⟨answer, (first.trans second).trans third⟩

/-- The check goes through the expression without a report and infers a known type other than NULL. -/
def Infers (s : CheckState) (e : Expr) : Prop :=
  ∃ i t type, infer e s = .ok i t ∧ t.reports = s.reports ∧ i.type = some type ∧ type ≠ .null

/-- An expression of which nothing is reported has the type that is inferred, if the parts have theirs. -/
theorem hasType_of_ends (infers : Infers s e)
    (ends : Ends (infer e) s (fun i t => t.reports.size ≤ s.reports.size →
      ∀ type, i.type = some type → e.HasType s.symbols type) (fun _ _ => True)) :
    ∃ type, e.HasType s.symbols type ∧ type ≠ .null := by
  obtain ⟨i, t, type, ran, silent, typed, present⟩ := infers
  exact ⟨type, ends.of_ok ran (Nat.le_of_eq (congrArg Array.size silent)) type typed, present⟩

mutual

theorem hasType_of_infers : ∀ e : Expr, (∀ part : Expr, part.Within e → part.Built s.symbols) →
    (∀ part : Expr, part.Within e → Infers s part) → ∃ type, e.HasType s.symbols type ∧ type ≠ .null
  | .literal place value, _, infers => by
    refine hasType_of_ends (infers _ .here) ?_
    obtain ⟨i, t, type, ran, -, typed, present⟩ := infers _ .here
    rw [infer] at ran ⊢
    cases ran
    rintro _ type ⟨⟩
    exact .literal (Option.some.inj typed ▸ present)
  | .name place word, built, infers => by
    obtain ⟨type, scalar⟩ := built _ .here
    exact ⟨type, .name scalar, scalar.choose_spec.2.2.2.2⟩
  | .element place array indices, built, infers => by
    have typed := hasTypes_of_infers indices
      (fun e member part within => built part (.index member within))
      fun e member part within => infers part (.index member within)
    obtain ⟨bounds, type, indexed⟩ := built _ .here
    refine hasType_of_ends (infers _ .here) ?_
    rw [infer, ends_bind]
    refine (inferAll_finds (fun e type => e.HasType s.symbols type) indices (fun e member => ?_) s
      rfl).of_safe ?_
    · obtain ⟨type, known, -⟩ := typed e member
      exact ⟨type, known, finds_of_hasType known⟩
    · rintro is u ⟨inferred, first⟩
      rw [ends_bind]
      have known : ∀ entry ∈ (indices.map Expr.position).zip is, ∃ type, entry.2.type = some type := by
        intro entry member
        obtain ⟨_, _, type, _, found⟩ := mem_placed inferred member
        exact ⟨type, found⟩
      refine (checkElement_typed (indexed.alike first.symbols) place known).of_safe ?_
      rintro _ w ⟨answer, second, checked⟩ silent _ found
      cases answer.symm.trans found
      have longer := first.reports
      obtain ⟨count, integers⟩ := checked (Nat.le_trans silent longer)
      have length := inferred.length_eq
      refine .element indexed ?_ (integers_of_placed inferred integers)
      simpa [length] using count
  | .unary place op operand, built, infers => by
    obtain ⟨operandType, operandTyped, present⟩ := hasType_of_infers operand
      (fun part within => built part (.operand within)) fun part within => infers part (.operand within)
    refine hasType_of_ends (infers _ .here) ?_
    rw [infer, ends_bind]
    refine (finds_of_hasType operandTyped s rfl).of_safe ?_
    rintro i u ⟨found, first⟩
    refine (inferUnary_typed place (built _ .here) found present u).of_safe fun i w gives => ?_
    have longer := first.reports
    exact fun silent type typed => .unary operandTyped (gives (by omega) type typed)
  | .binary place op left right, built, infers => by
    obtain ⟨l, leftTyped, leftPresent⟩ := hasType_of_infers left
      (fun part within => built part (.left within)) fun part within => infers part (.left within)
    obtain ⟨r, rightTyped, rightPresent⟩ := hasType_of_infers right
      (fun part within => built part (.right within)) fun part within => infers part (.right within)
    refine hasType_of_ends (infers _ .here) ?_
    rw [infer, ends_bind]
    refine (finds_of_hasType leftTyped s rfl).of_safe ?_
    rintro i u ⟨foundLeft, first⟩
    rw [ends_bind]
    refine (finds_of_hasType rightTyped u first.symbols).of_safe ?_
    rintro j w ⟨foundRight, second⟩
    rw [foundLeft, foundRight]
    refine (inferBinary_typed place (built _ .here) leftPresent rightPresent w).of_safe
      fun i x gives => ?_
    have longer := (first.trans second).reports
    exact fun silent type typed => .binary leftTyped rightTyped (gives (by omega) type typed)
  | .call .., built, _ => absurd (built _ .here) id
  | .range .., built, _ => absurd (built _ .here) id
  | .stray .., built, _ => absurd (built _ .here) id

theorem hasTypes_of_infers : ∀ es : List Expr,
    (∀ e ∈ es, ∀ part : Expr, part.Within e → part.Built s.symbols) →
    (∀ e ∈ es, ∀ part : Expr, part.Within e → Infers s part) →
    ∀ e ∈ es, ∃ type, e.HasType s.symbols type ∧ type ≠ .null
  | [], _, _, _, member => nomatch member
  | e :: _, built, infers, _, .head _ => hasType_of_infers e (built e (.head _)) (infers e (.head _))
  | _ :: rest, built, infers, e, .tail _ member =>
    hasTypes_of_infers rest (fun e member => built e (.tail _ member))
      (fun e member => infers e (.tail _ member)) e member

end

end Check

end Pseudocode
