import Mathlib.Data.List.Basic
import Pseudocode.Builtin

/-! Calls of built-in functions. With the right number of arguments a call is never refused for their
number, and it never answers with an array. -/
namespace Pseudocode.Builtin

/-- A result as described, or a fault other than a wrong number of arguments. -/
inductive Regular (good : α → Prop) : Except BuiltinFault α → Prop
  | ok : good a → Regular good (.ok a)
  | error : (∀ callee expected given, fault ≠ .argumentCount callee expected given) →
      Regular good (.error fault)

variable {result : Except BuiltinFault α} {good : α → Prop}

theorem Regular.bind {next : α → Except BuiltinFault β} {goodNext : β → Prop}
    (first : Regular good result) (rest : ∀ a, good a → Regular goodNext (next a)) :
    Regular goodNext (result >>= next) := by
  cases first with
  | ok known => exact rest _ known
  | error other => exact .error other

theorem textArgument_regular (f : Builtin) (v : Value) :
    Regular (fun _ => True) (f.textArgument v) := by
  unfold textArgument
  split
  · exact .ok trivial
  · exact .error nofun

theorem numberArgument_regular (f : Builtin) (v : Value) :
    Regular (fun _ => True) (f.numberArgument v) := by
  unfold numberArgument
  split
  · exact .ok trivial
  · exact .error nofun

theorem countArgument_regular (f : Builtin) (v : Value) :
    Regular (fun _ => True) (f.countArgument v) := by
  unfold countArgument
  split
  · split
    · exact .error nofun
    · exact .ok trivial
  · exact .error nofun

theorem ofOverflow_regular (number : Except Overflow α) :
    Regular (fun _ => True) (ofOverflow number) := by
  cases number with
  | ok a => exact .ok trivial
  | error cause => exact .error nofun

/-- No built-in function answers with an array. -/
def scalar (v : Value) : Prop := v.type ≠ .array

theorem readNumber_regular (text : String) : Regular scalar (readNumber text) := by
  unfold readNumber
  dsimp only
  generalize Numeral.real? (Text.trim text) = fraction
  generalize Numeral.integer? (Text.trim text) = whole
  by_cases point : (Text.trim text).toList.contains '.' = true
  · rw [if_pos point]
    cases fraction with
    | some x => exact .ok nofun
    | none => exact .error nofun
  · rw [if_neg point]
    cases whole with
    | some n => exact (ofOverflow_regular _).bind fun _ _ => .ok nofun
    | none => exact .error nofun

theorem writeNumber_regular (n : Number) : Regular scalar (writeNumber n) := by
  unfold writeNumber
  split
  · exact .ok nofun
  · exact .error nofun

theorem integerPart_regular (n : Number) : Regular scalar (integerPart n) := by
  unfold integerPart
  split
  · exact .ok nofun
  · split
    · exact .ok nofun
    · exact .error nofun

theorem rounded_regular (places : Nat) (n : Number) : Regular scalar (rounded places n) := by
  cases n with
  | integer n =>
    rw [rounded]
    generalize (Number.integer n).toReal = converted
    exact (ofOverflow_regular converted).bind fun _ _ => .ok nofun
  | real x => exact .ok nofun

theorem squareRoot_regular (n : Number) : Regular scalar (squareRoot n) := by
  unfold squareRoot
  generalize n.toReal = converted
  by_cases negative : n.compare? (.integer 0) = some .lt
  · rw [if_pos negative]
    exact .error nofun
  · rw [if_neg negative]
    exact (ofOverflow_regular converted).bind fun _ _ => .ok nofun

theorem recased_scalar (change : String → String) (v : Value) (text : String) :
    scalar (recased change v text) := by
  unfold recased
  split <;> nofun

theorem apply_regular (f : Builtin) (other : f ≠ .RAND) {arguments : List Value}
    (count : arguments.length = f.arity) : Regular scalar (f.apply arguments) := by
  cases f with
  | RAND => exact absurd rfl other
  | LEFT | RIGHT =>
    obtain ⟨a, n, rfl⟩ := List.length_eq_two.mp count
    exact (textArgument_regular _ a).bind fun _ _ => (countArgument_regular _ n).bind fun _ _ => .ok nofun
  | ROUND =>
    obtain ⟨a, n, rfl⟩ := List.length_eq_two.mp count
    exact (numberArgument_regular _ a).bind fun _ _ =>
      (countArgument_regular _ n).bind fun places _ => rounded_regular places _
  | MID =>
    obtain ⟨a, start, n, rfl⟩ := List.length_eq_three.mp count
    refine (textArgument_regular _ a).bind fun _ _ => (countArgument_regular _ start).bind fun _ _ => ?_
    split
    · exact .error nofun
    · exact (countArgument_regular _ n).bind fun _ _ => .ok nofun
  | LENGTH =>
    obtain ⟨a, rfl⟩ := List.length_eq_one_iff.mp count
    exact (textArgument_regular _ a).bind fun _ _ => .ok nofun
  | UCASE | LCASE =>
    obtain ⟨a, rfl⟩ := List.length_eq_one_iff.mp count
    exact (textArgument_regular _ a).bind fun _ _ => .ok (recased_scalar _ _ _)
  | INT =>
    obtain ⟨a, rfl⟩ := List.length_eq_one_iff.mp count
    exact (numberArgument_regular _ a).bind fun _ _ => integerPart_regular _
  | SQRT =>
    obtain ⟨a, rfl⟩ := List.length_eq_one_iff.mp count
    exact (numberArgument_regular _ a).bind fun _ _ => squareRoot_regular _
  | NUM_TO_STR =>
    obtain ⟨a, rfl⟩ := List.length_eq_one_iff.mp count
    exact (numberArgument_regular _ a).bind fun _ _ => writeNumber_regular _
  | STR_TO_NUM =>
    obtain ⟨a, rfl⟩ := List.length_eq_one_iff.mp count
    exact (textArgument_regular _ a).bind fun _ _ => readNumber_regular _
  | ASC =>
    obtain ⟨a, rfl⟩ := List.length_eq_one_iff.mp count
    refine (textArgument_regular _ a).bind fun _ _ => ?_
    split
    · exact .error nofun
    · exact .ok nofun
  | CHR =>
    obtain ⟨a, rfl⟩ := List.length_eq_one_iff.mp count
    refine (countArgument_regular _ a).bind fun _ _ => ?_
    split
    · exact .error nofun
    · exact .ok nofun

theorem scaled_regular (fraction : Binary64) (v : Value) :
    Regular scalar (scaled fraction v) :=
  (numberArgument_regular _ v).bind fun _ _ => (ofOverflow_regular _).bind fun _ _ => .ok nofun

theorem call_regular {callee : String} (known : ofName? callee = some f) {arguments : List Value}
    (count : arguments.length = f.arity) (random : Random) :
    Regular scalar (call callee arguments random).1 := by
  unfold call
  rw [known]
  dsimp only
  rw [if_neg (not_not_intro count)]
  by_cases rand : f = .RAND
  · subst rand
    obtain ⟨a, rfl⟩ := List.length_eq_one_iff.mp count
    exact scaled_regular _ a
  · have regular := apply_regular f rand count
    split
    next => exact absurd rfl rand
    next => exact regular

/-- A call that answers was made with the right number of arguments. -/
theorem call_count {callee : String} (known : ofName? callee = some f)
    (answered : (call callee arguments random).1 = .ok v) : arguments.length = f.arity := by
  unfold call at answered
  rw [known] at answered
  dsimp only at answered
  split at answered
  next => cases answered
  next count => exact Decidable.not_not.mp count

end Pseudocode.Builtin
