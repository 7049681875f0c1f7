import Mathlib.Data.Nat.Digits.Defs
import Pseudocode.Proofs.BuiltinCall
import Pseudocode.Proofs.TypeSoundness

/-! The texts that built-in functions answer with: parts of their arguments, single characters, the texts
of numbers, and changes of case. -/
namespace Pseudocode

/-- The most characters that the text of a number has. -/
def maxNumberLength : Nat := maxTextDigits + 1

namespace Binary64

theorem length_toDigits_le {n e : Nat} (positive : 0 < e) (small : n < 10 ^ e) : (Nat.toDigits 10 n).length ≤ e := by
  have counted := Nat.repr_length n e positive small
  rwa [Nat.repr, String.length_ofList] at counted

theorem dropTrailingZeros_length (digits : List Char) : (dropTrailingZeros digits).length ≤ digits.length := by
  rw [dropTrailingZeros, List.length_reverse]
  exact Nat.le_trans (List.dropWhile_suffix _).length_le (Nat.le_of_eq List.length_reverse)

theorem positional_length (digits : List Char) {point : Int} (low : -4 ≤ point - 1) (high : point - 1 < 16) :
    (positional digits point).length ≤ digits.length + 18 := by
  unfold positional
  split
  · simp only [List.cons_append, List.length_cons, List.length_append, List.length_replicate]
    omega
  · have parts : (digits.take point.toNat).length + (digits.drop point.toNat).length = digits.length := by
      rw [← List.length_append, List.take_append_drop]
    dsimp only
    split
    next none =>
      simp only [List.length_append, List.length_replicate, List.length_cons, List.length_nil]
      omega
    next =>
      simp only [List.length_append, List.length_replicate, List.length_cons]
      omega

theorem scientific_length (digits : List Char) (exponent : Int) :
    (scientific realLayout digits exponent).length ≤
      digits.length + 5 + (Nat.toDigits 10 exponent.natAbs).length := by
  have exponentWidth : realLayout.exponentWidth = 2 := rfl
  rcases digits with _ | ⟨first, _ | ⟨second, rest⟩⟩ <;>
    simp only [scientific, padLeft, List.length_append, List.length_cons, List.length_nil, List.length_replicate] <;>
    omega

theorem layOut_length {value : Decimal} (few : (Nat.toDigits 10 value.digits).length ≤ 1000)
    (near : value.exponent.natAbs ≤ 3000) : (value.layOut realLayout).length ≤ 1100 := by
  unfold Decimal.layOut
  have trimmed := dropTrailingZeros_length (Nat.toDigits 10 value.digits)
  dsimp only
  split
  next here =>
    have counted := positional_length (dropTrailingZeros (Nat.toDigits 10 value.digits)) here.1 here.2
    omega
  next =>
    refine Nat.le_trans (scientific_length _ _) ?_
    have exponent := length_toDigits_le (n := ((Nat.toDigits 10 value.digits).length + value.exponent - 1).natAbs)
      (e := 4) (by decide) (by omega)
    omega

theorem product_small {significand power e : Nat} (few : significand ≤ 2 ^ 53) (low : e ≤ 1074)
    (least : power ≤ 5 ^ e) : significand * power + 1 < 10 ^ 1000 := by
  have most := Nat.mul_le_mul few (Nat.le_trans least (Nat.pow_le_pow_right (by decide) low))
  exact Nat.lt_of_le_of_lt (Nat.succ_le_succ most) (by decide +kernel)

/-- The exact expansion of a number has fewer than 1000 digits. -/
theorem exactDecimal_bounds (exponent : Fin 2047) (fraction : Fin 4503599627370496) :
    (exactDecimal exponent fraction).digits + 1 < 10 ^ 1000 ∧
      (exactDecimal exponent fraction).exponent.natAbs ≤ 1074 := by
  have significand : (if exponent.val = 0 then fraction.val else hiddenBit + fraction.val) ≤ 2 ^ 53 := by
    unfold hiddenBit
    split <;> omega
  have few : exponent.val - 1 - 1074 ≤ 1074 := by omega
  unfold exactDecimal
  dsimp only
  split
  · exact ⟨product_small significand few (Nat.pow_le_pow_left (by decide) _), Nat.zero_le _⟩
  · refine ⟨product_small significand (Nat.sub_le _ _) (Nat.le_refl _), ?_⟩
    dsimp only
    omega

/-- A neighbour with fewer digits is at most one larger than the number in the places that it keeps. -/
theorem neighbours_bounds {value d : Decimal} {length count : Nat} (member : d ∈ value.neighbours length count) :
    d.digits ≤ value.digits + 1 ∧ d.exponent = value.exponent + (length - count : Nat) := by
  have lower : value.digits / Nat.pow 10 (length - count) ≤ value.digits := Nat.div_le_self _ _
  unfold Decimal.neighbours at member
  dsimp only at member
  split at member <;> rcases member with _ | ⟨_, _ | ⟨_, ⟨⟩⟩⟩ <;> exact ⟨by dsimp only; omega, rfl⟩

theorem shortestDecimal_bounds (exponent : Fin 2047) (fraction : Fin 4503599627370496) :
    (Nat.toDigits 10 (shortestDecimal exponent fraction).digits).length ≤ 1000 ∧
      (shortestDecimal exponent fraction).exponent.natAbs ≤ 3000 := by
  obtain ⟨digits, near⟩ := exactDecimal_bounds exponent fraction
  have length := length_toDigits_le (e := 1000) (by decide) (Nat.lt_of_succ_lt digits)
  unfold shortestDecimal
  dsimp only
  cases found : (List.range 17).findSome? _ with
  | none => exact ⟨length, Nat.le_trans near (by decide)⟩
  | some d =>
    obtain ⟨count, -, found⟩ := List.exists_of_findSome?_eq_some found
    obtain ⟨few, same⟩ := neighbours_bounds (List.mem_of_find?_eq_some found)
    refine ⟨length_toDigits_le (by decide) (Nat.lt_of_le_of_lt few digits), ?_⟩
    rw [Option.getD_some, same]
    omega

theorem text_length (x : Binary64) : x.text.length ≤ maxNumberLength := by
  have most : 1 + 1100 ≤ maxNumberLength := by decide
  rw [text, String.length_ofList]
  have sign (negative : Bool) : (if negative then ['-'] else []).length ≤ 1 := by cases negative <;> decide
  cases x with
  | nan => decide
  | infinite negative => cases negative <;> decide
  | finite negative exponent fraction =>
    rw [chars, List.length_append]
    refine Nat.le_trans (Nat.add_le_add (sign negative) ?_) most
    split
    · decide
    · obtain ⟨few, near⟩ := shortestDecimal_bounds exponent fraction
      exact layOut_length few near

end Binary64

namespace Value

/-- The text of a number. -/
theorem scalarText_length {n : Number} (made : (ofNumber n).scalarText = .ok text) :
    text.length ≤ maxNumberLength := by
  cases n with
  | real x =>
    cases made
    exact Binary64.text_length x
  | integer n =>
    simp only [ofNumber, scalarText] at made
    split at made
    · cases made
    next few =>
      cases made
      split
      · rw [String.length_append]
        exact (Nat.add_comm _ _).trans_le (Nat.succ_le_succ (Nat.not_lt.mp few))
      · exact Nat.le_succ_of_le (Nat.not_lt.mp few)

end Value

namespace Builtin

/-- The texts that a call can answer with. -/
inductive Answers (name : String) (arguments : List Value) : String → Prop
  | part : a ∈ arguments → a.text? = some whole → text.toList.Sublist whole.toList → Answers name arguments text
  | character : text.length ≤ 1 → Answers name arguments text
  | number : name = "NUM_TO_STR" → text.length ≤ maxNumberLength → Answers name arguments text
  | upper : name = "UCASE" → a ∈ arguments → a.text? = some text → Answers name arguments (Text.upper text)
  | lower : name = "LCASE" → a ∈ arguments → a.text? = some text → Answers name arguments (Text.lower text)

variable {name : String} {arguments : List Value} {v a : Value} {text : String}

theorem textArgument_known {f : Builtin} (known : f.textArgument a = .ok text) : a.text? = some text := by
  unfold textArgument at known
  split at known
  next found =>
    cases known
    exact found
  next => cases known

theorem recased_text {change : String → String} : (recased change a text).text? = some (change text) := by
  unfold recased
  split <;> rfl

theorem writeNumber_text {n : Number} (made : writeNumber n = .ok v) (held : v.text? = some text) :
    text.length ≤ maxNumberLength := by
  unfold writeNumber at made
  split at made
  next written =>
    cases made
    cases held
    exact Value.scalarText_length written
  next => cases made

theorem integerPart_text {n : Number} (made : integerPart n = .ok v) : v.text? = none := by
  unfold integerPart at made
  split at made
  · cases made
    rfl
  · split at made
    · cases made
      rfl
    · cases made

theorem rounded_text {places : Nat} {n : Number} (made : rounded places n = .ok v) : v.text? = none := by
  unfold rounded at made
  split at made
  · obtain ⟨x, -, made⟩ := ok_of_bind made
    cases made
    rfl
  · cases made
    rfl

theorem squareRoot_text {n : Number} (made : squareRoot n = .ok v) : v.text? = none := by
  unfold squareRoot at made
  split at made
  · cases made
  · obtain ⟨x, -, made⟩ := ok_of_bind made
    cases made
    rfl

theorem readNumber_text (made : readNumber whole = .ok v) : v.text? = none := by
  unfold readNumber at made
  dsimp only at made
  split at made
  · split at made
    · cases made
      rfl
    · cases made
  · split at made
    · obtain ⟨x, -, made⟩ := ok_of_bind made
      cases made
      rfl
    · cases made

theorem left_sublist (count : Nat) (text : String) : (left count text).toList.Sublist text.toList := by
  rw [left, String.toList_ofList]
  exact List.take_sublist _ _

theorem right_sublist (count : Nat) (text : String) : (right count text).toList.Sublist text.toList := by
  rw [right, String.toList_ofList]
  exact List.drop_sublist _ _

theorem mid_sublist (start count : Nat) (text : String) : (mid start count text).toList.Sublist text.toList := by
  rw [mid, String.toList_ofList]
  exact (List.take_sublist _ _).trans (List.drop_sublist _ _)

theorem apply_answers {f : Builtin} (count : arguments.length = f.arity) (answered : f.apply arguments = .ok v)
    (held : v.text? = some text) : Answers f.name arguments text := by
  have silent (none : v.text? = none) : Answers f.name arguments text := by
    rw [none] at held
    cases held
  cases f with
  | UCASE =>
    obtain ⟨a, rfl⟩ := List.length_eq_one_iff.mp count
    obtain ⟨whole, known, answered⟩ := ok_of_bind answered
    cases answered
    cases recased_text.symm.trans held
    exact .upper rfl (.head _) (textArgument_known known)
  | LCASE =>
    obtain ⟨a, rfl⟩ := List.length_eq_one_iff.mp count
    obtain ⟨whole, known, answered⟩ := ok_of_bind answered
    cases answered
    cases recased_text.symm.trans held
    exact .lower rfl (.head _) (textArgument_known known)
  | LEFT =>
    obtain ⟨a, n, rfl⟩ := List.length_eq_two.mp count
    obtain ⟨whole, known, answered⟩ := ok_of_bind answered
    obtain ⟨k, -, answered⟩ := ok_of_bind answered
    cases answered
    cases held
    exact .part (.head _) (textArgument_known known) (left_sublist k whole)
  | RIGHT =>
    obtain ⟨a, n, rfl⟩ := List.length_eq_two.mp count
    obtain ⟨whole, known, answered⟩ := ok_of_bind answered
    obtain ⟨k, -, answered⟩ := ok_of_bind answered
    cases answered
    cases held
    exact .part (.head _) (textArgument_known known) (right_sublist k whole)
  | MID =>
    obtain ⟨a, start, n, rfl⟩ := List.length_eq_three.mp count
    obtain ⟨whole, known, answered⟩ := ok_of_bind answered
    obtain ⟨first, -, answered⟩ := ok_of_bind answered
    split at answered
    · cases answered
    · obtain ⟨k, -, answered⟩ := ok_of_bind answered
      cases answered
      cases held
      exact .part (.head _) (textArgument_known known) (mid_sublist first k whole)
  | NUM_TO_STR =>
    obtain ⟨a, rfl⟩ := List.length_eq_one_iff.mp count
    obtain ⟨n, -, answered⟩ := ok_of_bind answered
    exact .number rfl (writeNumber_text answered held)
  | CHR =>
    obtain ⟨a, rfl⟩ := List.length_eq_one_iff.mp count
    obtain ⟨code, -, answered⟩ := ok_of_bind answered
    split at answered
    · cases answered
    · cases answered
      cases held
      exact .character (Nat.le_of_eq String.length_singleton)
  | LENGTH =>
    obtain ⟨a, rfl⟩ := List.length_eq_one_iff.mp count
    obtain ⟨whole, -, answered⟩ := ok_of_bind answered
    cases answered
    cases held
  | INT =>
    obtain ⟨a, rfl⟩ := List.length_eq_one_iff.mp count
    obtain ⟨n, -, answered⟩ := ok_of_bind answered
    exact silent (integerPart_text answered)
  | ROUND =>
    obtain ⟨a, places, rfl⟩ := List.length_eq_two.mp count
    obtain ⟨n, -, answered⟩ := ok_of_bind answered
    obtain ⟨k, -, answered⟩ := ok_of_bind answered
    exact silent (rounded_text answered)
  | SQRT =>
    obtain ⟨a, rfl⟩ := List.length_eq_one_iff.mp count
    obtain ⟨n, -, answered⟩ := ok_of_bind answered
    exact silent (squareRoot_text answered)
  | STR_TO_NUM =>
    obtain ⟨a, rfl⟩ := List.length_eq_one_iff.mp count
    obtain ⟨whole, -, answered⟩ := ok_of_bind answered
    exact silent (readNumber_text answered)
  | ASC =>
    obtain ⟨a, rfl⟩ := List.length_eq_one_iff.mp count
    obtain ⟨whole, -, answered⟩ := ok_of_bind answered
    split at answered
    · cases answered
    · cases answered
      cases held
  | RAND => cases answered

theorem call_answers {random : Random} (answered : (call name arguments random).1 = .ok v)
    (held : v.text? = some text) : Answers name arguments text := by
  unfold call at answered
  cases known : ofName? name with
  | none =>
    rw [known] at answered
    cases answered
  | some f =>
    rw [known] at answered
    dsimp only at answered
    split at answered
    · cases answered
    next count =>
      have same : f.name = name := by simpa using List.find?_some known
      split at answered
      next value =>
        obtain ⟨n, -, answered⟩ := ok_of_bind answered
        obtain ⟨x, -, answered⟩ := ok_of_bind answered
        cases answered
        cases held
      next => exact same ▸ apply_answers (Decidable.not_not.mp count) answered held

end Builtin

end Pseudocode
