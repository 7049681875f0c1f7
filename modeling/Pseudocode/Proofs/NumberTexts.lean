import Pseudocode.Builtin
import Pseudocode.Proofs.DecimalRounding
import Pseudocode.Proofs.NumeralReading

/-! The texts of numbers read back. Every real, in whatever layout its shortest decimal is written, is read as
itself by the reader of reals. STR_TO_NUM asks that reader only about texts with a point, so that it undoes
NUM_TO_STR for integers and for the reals that are written with one. -/
namespace Pseudocode

namespace Binary64

open Text Numeral

section Layouts

variable {digits : List Char}

/-- The zeros that are cut off a row of digits. -/
theorem dropTrailingZeros_append (digits : List Char) :
    ∃ count, digits = dropTrailingZeros digits ++ List.replicate count '0' := by
  have zeros : digits.reverse.takeWhile (· == '0') =
      List.replicate (digits.reverse.takeWhile (· == '0')).length '0' := by
    refine List.eq_replicate_of_mem fun c member => ?_
    have zero := List.all_eq_true.mp List.all_takeWhile c member
    exact eq_of_beq zero
  have parts := congrArg List.reverse (List.takeWhile_append_dropWhile (p := (· == '0')) (l := digits.reverse))
  rw [List.reverse_append, zeros, List.reverse_replicate, List.reverse_reverse] at parts
  exact ⟨_, parts.symm⟩

theorem digitsValue_leading (count : Nat) (digits : List Char) :
    digitsValue (List.replicate count '0' ++ digits) = digitsValue digits := by
  rw [digitsValue_append, digitsValue_zeros, Nat.zero_mul, Nat.zero_add]

theorem digitsValue_trailing (digits : List Char) (count : Nat) :
    digitsValue (digits ++ List.replicate count '0') = digitsValue digits * 10 ^ count := by
  rw [digitsValue_append, digitsValue_zeros, List.length_replicate, Nat.add_zero]

/-- A text has the digits in it, with zeros in front of them and behind, and a point among these where it belongs. -/
structure PointAt (digits : List Char) (point : Int) (text whole fraction : List Char) : Prop where
  text : text = whole ++ '.' :: fraction
  begun : whole ≠ []
  row : ∃ leading trailing,
    whole ++ fraction = List.replicate leading '0' ++ digits ++ List.replicate trailing '0' ∧
      (trailing : Int) - fraction.length = point - digits.length

/-- All digits stand behind the point. -/
theorem positional_low (digits : List Char) {point : Int} (low : point ≤ 0) :
    PointAt digits point (positional digits point) ['0'] (List.replicate (-point).toNat '0' ++ digits) where
  text := if_pos low
  begun := List.cons_ne_nil _ _
  row := by
    refine ⟨(-point).toNat + 1, 0, by simp [List.replicate_succ], ?_⟩
    rw [List.length_append, List.length_replicate]
    omega

/-- The digits are filled up with zeros, and one zero stands behind the point. -/
theorem positional_filled {point : Int} (high : 0 < point) (short : digits.length ≤ point.toNat)
    (begun : digits ≠ []) :
    PointAt digits point (positional digits point) (digits ++ List.replicate (point.toNat - digits.length) '0')
      ['0'] where
  text := by
    rw [positional, if_neg (Int.not_le.mpr high), List.drop_eq_nil_of_le short, List.take_of_length_le short]
  begun := by simp [begun]
  row := by
    refine ⟨0, point.toNat - digits.length + 1, by simp [List.replicate_succ'], ?_⟩
    rw [List.length_singleton]
    omega

/-- The point stands between digits. -/
theorem positional_inside {point : Int} (high : 0 < point) (long : point.toNat < digits.length) :
    PointAt digits point (positional digits point) (digits.take point.toNat) (digits.drop point.toNat) where
  text := by
    have filled : point.toNat - digits.length = 0 := Nat.sub_eq_zero_of_le (Nat.le_of_lt long)
    rw [positional, if_neg (Int.not_le.mpr high), filled, List.replicate_zero, List.append_nil]
    cases behind : digits.drop point.toNat with
    | nil => exact absurd (List.drop_eq_nil_iff.mp behind) (Nat.not_le.mpr long)
    | cons c rest => rfl
  begun := by
    intro none
    have length := congrArg List.length none
    rw [List.length_take, List.length_nil] at length
    omega
  row := by
    refine ⟨0, 0, by simp, ?_⟩
    rw [List.length_drop]
    omega

theorem positional_pointAt (begun : digits ≠ []) (point : Int) :
    ∃ whole fraction, PointAt digits point (positional digits point) whole fraction := by
  by_cases low : point ≤ 0
  · exact ⟨_, _, positional_low digits low⟩
  have high := Int.not_le.mp low
  by_cases short : digits.length ≤ point.toNat
  · exact ⟨_, _, positional_filled high short begun⟩
  · exact ⟨_, _, positional_inside high (Nat.not_le.mp short)⟩

theorem positional_parts (plain : Digits digits) (begun : digits ≠ []) (point : Int) :
    ∃ p : Parts, p.chars = positional digits point ∧ p.fraction ≠ none ∧
      ∀ negative, p.value negative = ofDecimal negative (digitsValue digits) (point - digits.length) := by
  obtain ⟨whole, fraction, text, front, leading, trailing, row, power⟩ := positional_pointAt begun point
  have all : Digits (whole ++ fraction) := row ▸ ((digits_zeros leading).append plain).append (digits_zeros trailing)
  obtain ⟨plainWhole, plainFraction⟩ := List.forall_mem_append.mp all
  refine ⟨⟨whole, some fraction, none, front, plainWhole, by simpa [Digits] using plainFraction, by simp⟩, ?_,
    Option.some_ne_none _, ?_⟩
  · rw [text]
    simp [Parts.chars, Parts.behindWhole, Parts.tail]
  · intro negative
    show ofDecimal negative (digitsValue (whole ++ fraction)) (0 - fraction.length) = _
    rw [row, digitsValue_trailing, digitsValue_leading, ofDecimal_mul_pow, ← power]
    congr 1
    omega

/-- An exponent is written with its sign and at least two digits. -/
theorem exponent_digits (power : Int) :
    padLeft 2 (Nat.toDigits 10 power.natAbs) ≠ [] ∧ Digits (padLeft 2 (Nat.toDigits 10 power.natAbs)) ∧
      signed (power < 0) (digitsValue (padLeft 2 (Nat.toDigits 10 power.natAbs))) = power := by
  have digits := (digits_zeros (2 - (Nat.toDigits 10 power.natAbs).length)).append (digits_toDigits power.natAbs)
  refine ⟨by simp [padLeft], digits, ?_⟩
  rw [padLeft, digitsValue_leading, digitsValue_toDigits, signed]
  simp only [decide_eq_true_eq]
  split <;> omega

theorem scientific_parts (plain : Digits digits) (begun : digits ≠ []) (power : Int) :
    ∃ p : Parts, p.chars = scientific realLayout digits power ∧ p.exponent ≠ none ∧
      (p.fraction ≠ none ↔ 1 < digits.length) ∧
      ∀ negative, p.value negative = ofDecimal negative (digitsValue digits) (power + 1 - digits.length) := by
  obtain ⟨present, exponent, value⟩ := exponent_digits power
  cases digits with
  | nil => exact absurd rfl begun
  | cons first rest =>
    obtain ⟨digit, others⟩ := List.forall_mem_cons.mp plain
    have whole : Digits [first] := List.forall_mem_singleton.mpr digit
    refine ⟨⟨[first], if rest = [] then none else some rest,
      some (decide (power < 0), padLeft 2 (Nat.toDigits 10 power.natAbs)), List.cons_ne_nil _ _, whole, ?_, ?_⟩, ?_,
      Option.some_ne_none _, ?_, ?_⟩
    · intro fraction member
      split at member
      · cases member
      · cases member
        exact others
    · intro written member
      cases member
      exact ⟨present, exponent⟩
    · cases rest with
      | nil => simp [Parts.chars, Parts.behindWhole, Parts.tail, scientific, realLayout]
      | cons second rest => simp [Parts.chars, Parts.behindWhole, Parts.tail, scientific, realLayout]
    · cases rest with
      | nil => simp
      | cons second rest => simp
    · intro negative
      have behind : (if rest = [] then none else some rest).getD [] = rest := by
        cases rest <;> simp
      have shift : power - rest.length = power + 1 - (first :: rest).length := by
        rw [List.length_cons]
        omega
      unfold Parts.value Parts.behindPoint Parts.power
      dsimp only
      rw [behind, value, shift]
      rfl

end Layouts

/-- Whether a decimal is written with a point: in positional layout, or with more than one digit. -/
def Decimal.pointed (layout : DecimalLayout) (value : Decimal) : Bool :=
  let all := Nat.toDigits 10 value.digits
  let point : Int := all.length + value.exponent
  (layout.leastPositional ≤ point - 1 ∧ point - 1 < layout.leastScientific) ||
    1 < (dropTrailingZeros all).length

/-- Whether the text of a number has a point. -/
def pointed : Binary64 → Bool
  | .finite _ exponent fraction =>
    units exponent fraction == 0 || (shortestDecimal exponent fraction).pointed realLayout
  | _ => false

/-- What is laid out is a numeral for which the number nearest to the decimal is the nearest. -/
theorem layOut_parts {value : Decimal} (some : value.digits ≠ 0) :
    ∃ p : Parts, p.chars = value.layOut realLayout ∧ (p.fraction ≠ none ↔ value.pointed realLayout = true) ∧
      (p.fraction = none → p.exponent ≠ none) ∧
      ∀ negative, p.value negative = ofDecimal negative value.digits value.exponent := by
  obtain ⟨count, all⟩ := dropTrailingZeros_append (Nat.toDigits 10 value.digits)
  have length := congrArg List.length all
  have read := digitsValue_toDigits value.digits
  rw [all, digitsValue_trailing] at read
  rw [List.length_append, List.length_replicate] at length
  unfold Decimal.layOut Decimal.pointed
  dsimp only
  generalize dropTrailingZeros (Nat.toDigits 10 value.digits) = digits at *
  have plain : Digits digits := fun c member => digits_toDigits value.digits c (all ▸ List.mem_append_left _ member)
  have begun : digits ≠ [] := by
    rintro rfl
    exact some (read.symm.trans (Nat.zero_mul _))
  have same (negative : Bool) : ofDecimal negative value.digits value.exponent = ofDecimal negative (digitsValue digits)
      ((Nat.toDigits 10 value.digits).length + value.exponent - digits.length) := by
    rw [← read, ofDecimal_mul_pow, read, length]
    congr 1
    omega
  split
  next inside =>
    obtain ⟨p, written, point, value⟩ := positional_parts plain begun _
    refine ⟨p, written, ?_, fun absent => absurd absent point, fun negative => (value negative).trans ?_⟩
    · rw [Bool.or_eq_true, decide_eq_true_eq]
      exact iff_of_true point (.inl inside)
    · exact (same negative).symm
  next outside =>
    obtain ⟨p, written, exponent, point, value⟩ := scientific_parts plain begun _
    refine ⟨p, written, ?_, fun _ => exponent, fun negative => (value negative).trans ?_⟩
    · rw [point, Bool.or_eq_true, decide_eq_true_eq, decide_eq_true_eq, or_iff_right outside]
    · rw [same, Int.sub_add_cancel]

theorem eq_zero_of_units {exponent : Fin 2047} {fraction : Fin 4503599627370496} (none : units exponent fraction = 0) :
    exponent = 0 ∧ fraction = 0 := by
  have zero : significand exponent fraction = 0 := by
    rw [units_eq] at none
    exact (Nat.mul_eq_zero.mp none).resolve_right (Nat.ne_of_gt (Nat.two_pow_pos _))
  unfold significand hiddenBit at zero
  split at zero
  next subnormal => exact ⟨Fin.ext subnormal, Fin.ext zero⟩
  next => omega

/-- The shortest decimal of a number other than zero is not zero. -/
theorem shortestDecimal_ne_zero {exponent : Fin 2047} {fraction : Fin 4503599627370496}
    (some : units exponent fraction ≠ 0) : (shortestDecimal exponent fraction).digits ≠ 0 := by
  intro none
  have read := shortestDecimal_readsBack some
  rw [none, ofDecimal, if_pos (.inl rfl)] at read
  cases read
  exact some rfl

/-- The text of a finite number is a numeral for which the number is the nearest. -/
theorem finite_parts (negative : Bool) (exponent : Fin 2047) (fraction : Fin 4503599627370496) :
    ∃ p : Parts, chars (.finite negative exponent fraction) = p.signedChars negative ∧
      (p.fraction ≠ none ↔ pointed (.finite negative exponent fraction) = true) ∧
      (p.fraction = none → p.exponent ≠ none) ∧ p.value negative = .finite negative exponent fraction := by
  by_cases zero : units exponent fraction = 0
  · obtain ⟨rfl, rfl⟩ := eq_zero_of_units zero
    refine ⟨⟨['0'], some ['0'], none, List.cons_ne_nil _ _, digits_zeros 1, by simpa using digits_zeros 1, by simp⟩, rfl,
      iff_of_true (Option.some_ne_none _) rfl, fun absent => absurd absent (Option.some_ne_none _), rfl⟩
  · obtain ⟨p, written, point, exponent, value⟩ := layOut_parts (shortestDecimal_ne_zero zero)
    refine ⟨p, ?_, ?_, exponent, ?_⟩
    · rw [chars, if_neg zero, ← written]
      rfl
    · simp [pointed, zero, point]
    · rw [value]
      exact ofDecimal_signed (shortestDecimal_readsBack zero) negative

/-- Every number reads back from its text. -/
theorem real_text (x : Binary64) : Numeral.real? x.text = some x := by
  rw [Numeral.real?, text, String.toList_ofList]
  cases x with
  | nan => decide
  | infinite negative => cases negative <;> decide
  | finite negative exponent fraction =>
    obtain ⟨p, written, -, -, value⟩ := finite_parts negative exponent fraction
    rw [written, realChars_signed, value]

/-- Which numbers are written with a point. -/
theorem point_mem_text (x : Binary64) : '.' ∈ x.text.toList ↔ x.pointed = true := by
  rw [text, String.toList_ofList]
  cases x with
  | nan => decide
  | infinite negative => cases negative <;> decide
  | finite negative exponent fraction =>
    obtain ⟨p, written, point, -⟩ := finite_parts negative exponent fraction
    rw [written, point_mem_iff]
    exact point

end Binary64

namespace Builtin

open Text Numeral

section Reading

variable {p : Parts} {negative : Bool}

theorem trim_numeral (p : Parts) (negative : Bool) :
    trim (String.ofList (p.signedChars negative)) = String.ofList (p.signedChars negative) := by
  rw [trim, String.toList_ofList, trimChars, trimWhile_eq (not_blank p negative)]

theorem contains_point :
    (String.ofList (p.signedChars negative)).toList.contains '.' = true ↔ p.fraction ≠ none := by
  rw [String.toList_ofList, List.contains_iff_mem, point_mem_iff]

/-- A numeral with a point is read as a REAL. -/
theorem readNumber_pointed (point : p.fraction ≠ none) :
    readNumber (String.ofList (p.signedChars negative)) = .ok (.real (p.value negative)) := by
  unfold readNumber
  dsimp only
  rw [trim_numeral, if_pos (contains_point.mpr point), real?, String.toList_ofList, realChars_signed]

/-- A numeral without a point is read as an INTEGER. -/
theorem readNumber_whole {n : Int} (whole : p.fraction = none) (sized : Sized n)
    (read : integerChars? (p.signedChars negative) = some n) :
    readNumber (String.ofList (p.signedChars negative)) = .ok (.integer n) := by
  have checked : checkSize n = .ok n := if_neg (Nat.not_lt.mpr sized)
  unfold readNumber
  dsimp only
  rw [trim_numeral, if_neg (mt contains_point.mp (not_not.mpr whole)), integer?, String.toList_ofList, read]
  show (ofOverflow (checkSize n) >>= _) = _
  rw [checked]
  rfl

/-- Or not at all. -/
theorem readNumber_refused (whole : p.fraction = none) (unread : integerChars? (p.signedChars negative) = none) :
    readNumber (String.ofList (p.signedChars negative)) =
      .error (.unreadable (String.ofList (p.signedChars negative))) := by
  unfold readNumber
  dsimp only
  rw [trim_numeral, if_neg (mt contains_point.mp (not_not.mpr whole)), integer?, String.toList_ofList, unread]

end Reading

/-- STR_TO_NUM reads the text of a real if there is a point in it. -/
theorem readNumber_real {x : Binary64} (finite : x.isFinite = true) :
    readNumber x.text = if x.pointed then .ok (.real x) else .error (.unreadable x.text) := by
  cases x with
  | nan | infinite => cases finite
  | finite negative exponent fraction =>
    obtain ⟨p, written, point, others, value⟩ := Binary64.finite_parts negative exponent fraction
    rw [Binary64.text, written]
    by_cases pointed : p.fraction ≠ none
    · rw [if_pos (point.mp pointed), readNumber_pointed pointed, value]
    · have whole := not_not.mp pointed
      have unread := integerChars_none (letter_mem (others whole)) (by decide) negative
      rw [if_neg (mt point.mpr pointed), readNumber_refused whole unread]

theorem scalarText_integer {n : Int} (sized : Sized n) :
    (Value.integer n).scalarText = .ok (String.ofList ((Parts.ofNat n.natAbs).signedChars (n < 0))) := by
  have few : ¬(toString n.natAbs).length > maxTextDigits := Nat.not_lt.mpr (Nat.le_trans sized.digits (by decide))
  have digits : toString n.natAbs = String.ofList (Parts.ofNat n.natAbs).chars := by
    rw [Nat.toString_eq_repr, Nat.repr]
    exact congrArg String.ofList (List.append_nil _).symm
  unfold Value.scalarText
  dsimp only
  rw [if_neg few, digits]
  by_cases negative : n < 0
  · simp [negative, Parts.signedChars]
  · simp [negative, Parts.signedChars]

theorem writeNumber_integer {n : Int} (sized : Sized n) :
    writeNumber (.integer n) = .ok (.string (String.ofList ((Parts.ofNat n.natAbs).signedChars (n < 0)))) := by
  rw [writeNumber, Value.ofNumber, scalarText_integer sized]

/-- STR_TO_NUM reads the text of an INTEGER. -/
theorem readNumber_integer {n : Int} (sized : Sized n) :
    readNumber (String.ofList ((Parts.ofNat n.natAbs).signedChars (n < 0))) = .ok (.integer n) := by
  have few : (Parts.ofNat n.natAbs).whole.length ≤ maxTextDigits := by
    have short := sized.digits
    rw [Nat.toString_eq_repr, Nat.repr, String.length_ofList] at short
    exact Nat.le_trans short (by decide)
  have value : Binary64.signed (n < 0) (digitsValue (Parts.ofNat n.natAbs).whole) = n := by
    rw [Parts.ofNat, digitsValue_toDigits, Binary64.signed]
    simp only [decide_eq_true_eq]
    split <;> omega
  have read := integerChars_whole (p := Parts.ofNat n.natAbs) (List.append_nil _) few (n < 0)
  rw [value] at read
  exact readNumber_whole rfl sized read

theorem call_eq_apply {name : String} {f : Builtin} {arguments : List Value} (named : ofName? name = some f)
    (count : arguments.length = f.arity) (other : f ≠ .RAND) (random : Random) :
    call name arguments random = (f.apply arguments, random) := by
  unfold call
  rw [named]
  dsimp only
  rw [if_neg (not_not.mpr count)]
  split
  next => exact absurd rfl other
  next => rfl

theorem call_numToStr (v : Value) (random : Random) :
    call "NUM_TO_STR" [v] random = (numberArgument .NUM_TO_STR v >>= writeNumber, random) :=
  call_eq_apply (f := .NUM_TO_STR) (by decide) rfl (by decide) random

theorem call_strToNum (text : String) (random : Random) :
    call "STR_TO_NUM" [.string text] random = (readNumber text, random) := by
  have bound (next : String → Except BuiltinFault Value) :
      (textArgument .STR_TO_NUM (.string text) >>= next) = next text := rfl
  have applied : Builtin.apply .STR_TO_NUM [.string text] = (textArgument .STR_TO_NUM (.string text) >>= readNumber) :=
    rfl
  rw [call_eq_apply (f := .STR_TO_NUM) (by decide) rfl (by decide), applied, bound]

theorem call_numToStr_real (x : Binary64) (random : Random) :
    call "NUM_TO_STR" [.real x] random = (.ok (.string x.text), random) := by
  rw [call_numToStr]
  rfl

/-- STR_TO_NUM undoes NUM_TO_STR for every INTEGER, and for every finite REAL that is written with a point. The texts
of the other reals it refuses. -/
theorem strToNum_numToStr (random : Random) :
    (∀ n, Sized n → ∃ text, call "NUM_TO_STR" [.integer n] random = (.ok (.string text), random) ∧
      call "STR_TO_NUM" [.string text] random = (.ok (.integer n), random)) ∧
    ∀ x : Binary64, x.isFinite = true →
      call "NUM_TO_STR" [.real x] random = (.ok (.string x.text), random) ∧
      call "STR_TO_NUM" [.string x.text] random =
        (if x.pointed then .ok (.real x) else .error (.unreadable x.text), random) := by
  refine ⟨?integers, ?reals⟩
  case integers =>
    intro n sized
    have number : numberArgument .NUM_TO_STR (.integer n) = .ok (.integer n) := rfl
    refine ⟨String.ofList ((Parts.ofNat n.natAbs).signedChars (n < 0)), ?_, ?_⟩
    · rw [call_numToStr, number]
      exact congrArg (·, random) (writeNumber_integer sized)
    · rw [call_strToNum, readNumber_integer sized]
  case reals =>
    intro x finite
    refine ⟨call_numToStr_real x random, ?_⟩
    rw [call_strToNum, readNumber_real finite]

/-- The INTEGER -42 and the REAL 2.5 come back. -/
theorem smallNumbers_undone :
    (∃ text, call "NUM_TO_STR" [.integer (-42)] (.ofSeed 1) = (.ok (.string text), .ofSeed 1) ∧
      call "STR_TO_NUM" [.string text] (.ofSeed 1) = (.ok (.integer (-42)), .ofSeed 1)) ∧
    call "STR_TO_NUM" [.string (Binary64.ofDecimal false 25 (-1)).text] (.ofSeed 1) =
      (.ok (.real (Binary64.ofDecimal false 25 (-1))), .ofSeed 1) := by
  have sized : Sized (-42) := sized_iff.mpr (by decide +kernel)
  have finite : (Binary64.ofDecimal false 25 (-1)).isFinite = true := by decide +kernel
  have pointed : (Binary64.ofDecimal false 25 (-1)).pointed = true := by decide +kernel
  obtain ⟨integers, reals⟩ := strToNum_numToStr (.ofSeed 1)
  have read := (reals _ finite).2
  rw [if_pos pointed] at read
  exact ⟨integers (-42) sized, read⟩

/-- Ten to the sixteenth is written as 1e+16, without a point. -/
theorem powerOfTen_unreadable : ¬∀ (x : Binary64) (random : Random), x.isFinite = true →
    ∃ text, call "NUM_TO_STR" [.real x] random = (.ok (.string text), random) ∧
      call "STR_TO_NUM" [.string text] random = (.ok (.real x), random) := by
  intro undone
  have finite : (Binary64.ofDecimal false 1 16).isFinite = true := by decide +kernel
  have written : (Binary64.ofDecimal false 1 16).text = "1e+16" := by decide +kernel
  have refused : readNumber "1e+16" = .error (.unreadable "1e+16") := by decide +kernel
  obtain ⟨text, wrote, read⟩ := undone (Binary64.ofDecimal false 1 16) (.ofSeed 1) finite
  rw [call_numToStr_real, written] at wrote
  simp only [Prod.mk.injEq, Except.ok.injEq, Value.string.injEq, and_true] at wrote
  rw [← wrote, call_strToNum, refused] at read
  cases read

end Builtin

end Pseudocode
