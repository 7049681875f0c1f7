import Mathlib.Data.List.Induction
import Mathlib.Data.Nat.Digits.Defs
import Pseudocode.Proofs.TypeSoundness
import Pseudocode.Token.Scan

/-! The size of integers. An operation on integers of at most `maxIntegerBits` bits that is not checked
gives no more bits than its operands have, and a finite REAL has an integer part of at most 1024 bits;
whatever else gives an integer is checked, or bounded by the number of digits it is read from. -/
namespace Pseudocode

/-- The integer has no more bits than an INTEGER may have. -/
def Sized (n : Int) : Prop := bitLength n ≤ maxIntegerBits

theorem sized_iff {n : Int} : Sized n ↔ n.natAbs < 2 ^ maxIntegerBits := by
  unfold Sized bitLength
  split
  next zero => simp [zero]
  next other => exact Nat.log2_lt (Int.natAbs_ne_zero.mpr other)

namespace Sized

variable {m n : Int}

theorem of_natAbs_le (sized : Sized n) (le : m.natAbs ≤ n.natAbs) : Sized m :=
  sized_iff.mpr (Nat.lt_of_le_of_lt le (sized_iff.mp sized))

theorem of_lt {bits : Nat} (short : n.natAbs < 2 ^ bits) (few : bits ≤ maxIntegerBits) : Sized n :=
  sized_iff.mpr (Nat.lt_of_lt_of_le short (Nat.pow_le_pow_right Nat.two_pos few))

theorem neg (sized : Sized n) : Sized (-n) := sized.of_natAbs_le (Nat.le_of_eq (Int.natAbs_neg n))

theorem tdiv (sized : Sized m) (n : Int) : Sized (m.tdiv n) :=
  sized.of_natAbs_le (Int.natAbs_tdiv_le_natAbs m n)

/-- The remainder is no larger than the dividend. -/
theorem sub_tdiv_mul (sized : Sized m) (n : Int) : Sized (m - m.tdiv n * n) := by
  rw [Int.mul_comm, ← Int.tmod_def]
  refine sized.of_natAbs_le ?_
  rw [Int.natAbs_tmod]
  exact Nat.mod_le _ _

/-- What lies between two integers has no more bits than one of them. -/
theorem between {low high : Int} (least : Sized low) (most : Sized high) (above : low ≤ n)
    (below : n ≤ high) :
    Sized n := by
  have bounded : n.natAbs ≤ low.natAbs ∨ n.natAbs ≤ high.natAbs := by omega
  exact bounded.elim least.of_natAbs_le most.of_natAbs_le

/-- The decimal text of an integer of that size. -/
theorem digits (sized : Sized n) : (toString n.natAbs).length ≤ 3914 := by
  rw [Nat.toString_eq_repr]
  refine Nat.repr_length _ _ (by decide) (Nat.lt_of_lt_of_le (sized_iff.mp sized) ?_)
  decide +kernel

end Sized

theorem checkSize_sized (checked : checkSize n = .ok m) : Sized m := by
  unfold checkSize at checked
  split at checked
  · cases checked
  next few =>
    cases checked
    exact Nat.not_lt.mp few

section Digits

open Text

theorem digitValue_lt (found : digitValue? c = some d) : d < 10 := by
  unfold digitValue? at found
  split at found
  next ascii =>
    cases found
    have most : c.toNat ≤ '9'.toNat := Char.le_def.mp ascii.2
    have nine : '9'.toNat = '0'.toNat + 9 := rfl
    omega
  · split at found
    · cases found
    · obtain ⟨start, block, rfl⟩ := Option.map_eq_some_iff.mp found
      have inside := List.find?_some block
      simp only [Bool.and_eq_true, decide_eq_true_eq] at inside
      omega

theorem digitsValue_lt (digits : List Char) : digitsValue digits < 10 ^ digits.length := by
  induction digits using List.reverseRecOn with
  | nil => exact Nat.one_pos
  | append_singleton digits c ih =>
    have last : (digitValue? c).getD 0 < 10 := by
      cases found : digitValue? c with
      | none => decide
      | some d => exact digitValue_lt found
    have split : digitsValue (digits ++ [c]) = 10 * digitsValue digits + (digitValue? c).getD 0 := by
      simp [digitsValue]
    rw [split, List.length_append, List.length_singleton, Nat.pow_succ]
    omega

theorem sized_literal (found : Scan.number.integerKind digits = .integer n) : Sized n := by
  unfold Scan.number.integerKind at found
  split at found
  · cases found
  next few =>
    cases found
    have bounded := digitsValue_lt digits
    refine sized_iff.mpr (Nat.lt_of_lt_of_le bounded ?_)
    refine Nat.le_trans (Nat.pow_le_pow_right (by decide) (Nat.not_lt.mp few)) ?_
    decide +kernel

end Digits

namespace Binary64

theorem unitsPerOne_pos : 0 < unitsPerOne := by decide +kernel

theorem units_lt_pow {exponent : Fin 2047} {fraction : Fin 4503599627370496} {most : Nat}
    (top : exponent.val - 1 ≤ most) : units exponent fraction < 2 ^ 53 * 2 ^ most := by
  have small : fraction.val < 2 ^ 53 := Nat.lt_trans fraction.isLt (by decide)
  have significand : hiddenBit + fraction.val < 2 ^ 53 := Nat.add_lt_add_left fraction.isLt hiddenBit
  unfold units
  split
  · exact Nat.lt_of_lt_of_le small (Nat.le_mul_of_pos_right _ (Nat.two_pow_pos most))
  · exact Nat.mul_lt_mul_of_lt_of_le significand (Nat.pow_le_pow_right Nat.two_pos top) (Nat.two_pow_pos most)

/-- A finite number is below 2 ^ 1024. -/
theorem units_lt (exponent : Fin 2047) (fraction : Fin 4503599627370496) :
    units exponent fraction < 2 ^ 1024 * unitsPerOne := by
  have whole : (2 : Nat) ^ 53 * 2 ^ 2045 = 2 ^ 1024 * unitsPerOne := by decide +kernel
  rw [← whole]
  exact units_lt_pow (Nat.sub_le_of_le_add (Nat.le_of_lt_succ exponent.isLt))

theorem natAbs_signed (negative : Bool) (magnitude : Nat) :
    (signed negative magnitude).natAbs = magnitude := by
  unfold signed
  split <;> simp

theorem truncate_sized {x : Binary64} (whole : x.truncate = .ok n) : Sized n := by
  cases x with
  | nan | infinite => cases whole
  | finite negative exponent fraction =>
    cases whole
    have short : (signed negative (units exponent fraction / unitsPerOne)).natAbs < 2 ^ 1024 := by
      rw [natAbs_signed]
      exact (Nat.div_lt_iff_lt_mul unitsPerOne_pos).mpr (units_lt exponent fraction)
    exact .of_lt short (by decide)

end Binary64

/-- The number is a REAL or an INTEGER of an admissible size. -/
def Number.Sized (n : Number) : Prop := ∀ m, n = .integer m → Pseudocode.Sized m

/-- The value is no INTEGER or one of an admissible size. -/
def Value.Sized (v : Value) : Prop := ∀ n, v = .integer n → Pseudocode.Sized n

namespace Number

variable {a b c : Number}

theorem sized_real (x : Binary64) : Number.Sized (.real x) := by rintro _ ⟨⟩

theorem sized_integer {n : Int} (sized : Pseudocode.Sized n) : Number.Sized (.integer n) := by
  rintro _ ⟨⟩
  exact sized

theorem Sized.value (sized : a.Sized) : (Value.ofNumber a).Sized := by
  cases a with
  | integer n =>
    rintro _ ⟨⟩
    exact sized n rfl
  | real x => rintro _ ⟨⟩

theorem Sized.neg (sized : a.Sized) : a.neg.Sized := by
  cases a with
  | integer n => exact sized_integer (sized n rfl).neg
  | real x => exact sized_real _

theorem checked_sized (made : a.checked = .ok c) : c.Sized := by
  unfold checked at made
  split at made
  · obtain ⟨n, checked, made⟩ := ok_of_bind made
    cases made
    exact sized_integer (checkSize_sized checked)
  · cases made
    exact sized_real _

/-- An operation on numbers that gives an integer is that on integers. -/
theorem integer_of_combine {f : Int → Int → Int} {g : Binary64 → Binary64 → Binary64}
    (made : combine f g a b = .ok (.integer n)) : ∃ k l, a = .integer k ∧ b = .integer l ∧ n = f k l := by
  unfold combine at made
  split at made
  · cases made
    exact ⟨_, _, rfl, rfl, rfl⟩
  · obtain ⟨x, -, made⟩ := ok_of_bind made
    obtain ⟨y, -, made⟩ := ok_of_bind made
    cases made

theorem truncateReal_sized (made : truncateReal x = .ok n) : Pseudocode.Sized n := by
  unfold truncateReal at made
  split at made
  next whole =>
    cases made
    exact Binary64.truncate_sized whole
  · cases made
  · cases made

theorem Sized.quotient (sized : a.Sized) (made : a.quotient b = .ok n) : Pseudocode.Sized n := by
  unfold Number.quotient at made
  split at made
  next m k =>
    cases made
    exact (sized m rfl).tdiv k
  · obtain ⟨x, -, made⟩ := ok_of_bind made
    exact truncateReal_sized made

theorem Sized.remainder (sized : a.Sized) (made : a.remainder b = .ok c) : c.Sized := by
  rintro n rfl
  obtain ⟨q, divided, made⟩ := ok_of_bind made
  obtain ⟨product, multiplied, made⟩ := ok_of_bind made
  obtain ⟨m, p, rfl, rfl, rfl⟩ := integer_of_combine (ok_of_mapError made)
  obtain ⟨q', k, same, rfl, rfl⟩ := integer_of_combine (ok_of_mapError multiplied)
  cases same
  cases divided
  exact (sized m rfl).sub_tdiv_mul k

end Number

namespace Value

variable {v w : Value}

theorem sized_null : Value.null.Sized := by rintro _ ⟨⟩

theorem sized_boolean (b : Bool) : (Value.boolean b).Sized := by rintro _ ⟨⟩

theorem sized_real (x : Binary64) : (Value.real x).Sized := by rintro _ ⟨⟩

theorem sized_char (text : String) : (Value.char text).Sized := by rintro _ ⟨⟩

theorem sized_string (text : String) : (Value.string text).Sized := by rintro _ ⟨⟩

theorem sized_array (id : ArrayId) : (Value.array id).Sized := by rintro _ ⟨⟩

theorem sized_integer {n : Int} (sized : Pseudocode.Sized n) : (Value.integer n).Sized := by
  rintro _ ⟨⟩
  exact sized

theorem Sized.number (sized : v.Sized) (found : v.number? = some n) : n.Sized := by
  cases v with
  | integer m =>
    cases found
    exact Number.sized_integer (sized m rfl)
  | real x =>
    cases found
    exact Number.sized_real x
  | _ => cases found

theorem sized_initial (declared : Option DataType) : (initial declared).Sized := by
  rcases declared with _ | ⟨⟨⟩⟩
  case some.integer => exact sized_integer (Nat.zero_le _)
  all_goals rintro _ ⟨⟩

/-- A value keeps an admissible size when it is stored. -/
theorem Sized.coerce (sized : v.Sized) (kept : v.coerce declared = .ok w) : w.Sized := by
  cases declared with
  | none =>
    rw [coerce_untyped] at kept
    exact Except.ok.inj kept ▸ sized
  | some target =>
    rcases coerce_cases kept with ⟨rfl, -⟩ | ⟨n, x, rfl, rfl, rfl⟩ | ⟨x, n, rfl, rfl, rfl⟩ |
      ⟨s, rfl, rfl, rfl⟩ |
      ⟨s, rfl, rfl, -, rfl⟩
    · exact sized
    · exact sized_real x
    · simp only [Value.coerce, Value.type, reduceCtorEq, if_false] at kept
      split at kept
      next whole =>
        cases kept
        exact sized_integer (Binary64.truncate_sized whole)
      · cases kept
    · exact sized_string s
    · exact sized_char s

theorem Sized.accept {m : Memory} {b : Binding} (sized : v.Sized) (accepted : m.accept b v = .ok w) :
    w.Sized := by
  obtain ⟨-, ⟨id, rfl, rfl, -⟩ | coerced⟩ := Memory.accept_cases accepted
  · exact sized_array id
  · exact sized.coerce coerced

/-- A value of an admissible size has a text. -/
theorem Sized.text (sized : v.Sized) (scalar : v.type ≠ .array) : ∃ text, v.scalarText = .ok text := by
  cases v with
  | integer n =>
    have few : ¬(toString n.natAbs).length > maxTextDigits :=
      Nat.not_lt.mpr (Nat.le_trans (sized n rfl).digits (by decide))
    exact ⟨_, if_neg few⟩
  | array => exact absurd rfl scalar
  | _ => exact ⟨_, rfl⟩

end Value

namespace Input

theorem integer_sized (raw : String) : ∀ answer ∈ integer? raw, ∀ v, answer = .ok v → v.Sized := by
  intro answer member v same
  obtain ⟨n, -, rfl⟩ := Option.map_eq_some_iff.mp member
  split at same
  next checked =>
    cases same
    exact Value.sized_integer (checkSize_sized checked)
  · cases same

theorem untyped_sized (taken : untyped raw = .ok v) : v.Sized := by
  unfold untyped at taken
  split at taken
  next b _ =>
    cases taken
    exact Value.sized_boolean b
  next found => exact integer_sized raw _ found v taken
  next x _ _ _ =>
    cases taken
    exact Value.sized_real x
  next =>
    cases taken
    exact Value.sized_string raw

theorem typed_sized (taken : typed line raw type = .ok v) : v.Sized := by
  unfold typed at taken
  dsimp only at taken
  split at taken
  next =>
    cases found : integer? raw with
    | some answer =>
      rw [found] at taken
      exact integer_sized raw answer found v taken
    | none =>
      rw [found] at taken
      cases taken
  next =>
    generalize real? raw = fraction at taken
    cases fraction with
    | some x =>
      cases taken
      exact Value.sized_real x
    | none => cases taken
  next =>
    generalize boolean? raw = truth at taken
    cases truth with
    | some b =>
      cases taken
      exact Value.sized_boolean b
    | none => cases taken
  next =>
    split at taken
    · cases taken
      exact Value.sized_char raw
    · cases taken
  next =>
    cases taken
    exact Value.sized_string raw

/-- An INTEGER that is input is checked. -/
theorem value_sized (taken : value line raw declared = .ok v) : v.Sized := by
  unfold value at taken
  cases declared with
  | none => exact untyped_sized taken
  | some type => exact typed_sized taken

end Input

/-- The text of the value has fewer characters than an INTEGER can count. -/
def Value.Short (v : Value) : Prop := ∀ s, v.text? = some s → s.length < 2 ^ maxIntegerBits

namespace Builtin

theorem integerPart_sized (sized : n.Sized) (made : integerPart n = .ok v) : v.Sized := by
  unfold integerPart at made
  split at made
  · cases made
    exact sized.value
  · split at made
    next whole =>
      cases made
      exact (Number.sized_integer (Number.truncateReal_sized whole)).value
    · cases made

theorem readNumber_sized (made : readNumber text = .ok v) : v.Sized := by
  unfold readNumber at made
  dsimp only at made
  split at made
  · split at made
    · cases made
      exact Value.sized_real _
    · cases made
  · split at made
    · obtain ⟨n, checked, made⟩ := ok_of_bind made
      cases made
      exact (Number.sized_integer (checkSize_sized (ok_of_mapError checked))).value
    · cases made

theorem sized_code (c : Char) : Value.Sized (.integer c.toNat) := by
  have few : c.toNat < 2 ^ 21 := by
    rcases c.valid with low | ⟨-, high⟩
    · exact Nat.lt_trans low (by decide)
    · exact Nat.lt_trans high (by decide)
  exact Value.sized_integer (.of_lt few (by decide))

/-- The length of a text that is not too long is an INTEGER of an admissible size. -/
theorem sized_length (short : a.Short) (given : textArgument f a = .ok text) :
    Value.Sized (.integer text.length) := by
  unfold textArgument at given
  split at given
  next found =>
    cases given
    exact Value.sized_integer (.of_lt (short text found) (Nat.le_refl _))
  · cases given

theorem numberArgument_sized (sized : a.Sized) (given : numberArgument f a = .ok n) : n.Sized := by
  unfold numberArgument at given
  split at given
  next found =>
    cases given
    exact sized.number found
  · cases given

theorem recased_sized (change : String → String) (a : Value) (text : String) :
    (recased change a text).Sized := by
  unfold recased
  split
  · exact Value.sized_char _
  · exact Value.sized_string _

theorem rounded_sized (made : rounded places n = .ok v) : v.Sized := by
  unfold rounded at made
  split at made
  · obtain ⟨x, -, made⟩ := ok_of_bind made
    cases made
    exact Value.sized_real x
  · cases made
    exact Value.sized_real _

theorem squareRoot_sized (made : squareRoot n = .ok v) : v.Sized := by
  unfold squareRoot at made
  split at made
  · cases made
  · obtain ⟨x, -, made⟩ := ok_of_bind made
    cases made
    exact Value.sized_real _

theorem writeNumber_sized (made : writeNumber n = .ok v) : v.Sized := by
  unfold writeNumber at made
  split at made
  · cases made
    exact Value.sized_string _
  · cases made

/-- Of integers of an admissible size and texts that are not too long, a function that needs no random
number makes an integer of an admissible size. -/
theorem apply_sized {f : Builtin} {arguments : List Value} (sized : ∀ a ∈ arguments, a.Sized)
    (short : ∀ a ∈ arguments, a.Short) (made : f.apply arguments = .ok v) : v.Sized := by
  unfold apply at made
  split at made
  case h_1 a =>
    obtain ⟨text, given, made⟩ := ok_of_bind made
    cases made
    exact sized_length (short a (.head _)) given
  case h_2 | h_3 =>
    obtain ⟨text, -, made⟩ := ok_of_bind made
    cases made
    exact recased_sized _ _ _
  case h_4 | h_5 =>
    obtain ⟨text, -, made⟩ := ok_of_bind made
    obtain ⟨count, -, made⟩ := ok_of_bind made
    cases made
    exact Value.sized_string _
  case h_6 =>
    obtain ⟨text, -, made⟩ := ok_of_bind made
    obtain ⟨first, -, made⟩ := ok_of_bind made
    split at made
    · cases made
    · obtain ⟨count, -, made⟩ := ok_of_bind made
      cases made
      exact Value.sized_string _
  case h_7 a =>
    obtain ⟨n, given, made⟩ := ok_of_bind made
    exact integerPart_sized (numberArgument_sized (sized a (.head _)) given) made
  case h_8 =>
    obtain ⟨n, -, made⟩ := ok_of_bind made
    obtain ⟨places, -, made⟩ := ok_of_bind made
    exact rounded_sized made
  case h_9 =>
    obtain ⟨n, -, made⟩ := ok_of_bind made
    exact squareRoot_sized made
  case h_10 =>
    obtain ⟨n, -, made⟩ := ok_of_bind made
    exact writeNumber_sized made
  case h_11 =>
    obtain ⟨text, -, made⟩ := ok_of_bind made
    exact readNumber_sized made
  case h_12 =>
    obtain ⟨text, -, made⟩ := ok_of_bind made
    split at made
    · cases made
    next c _ _ =>
      cases made
      exact sized_code c
  case h_13 =>
    obtain ⟨code, -, made⟩ := ok_of_bind made
    split at made
    · cases made
    · cases made
      exact Value.sized_char _
  case h_14 => cases made

theorem call_sized {arguments : List Value} (sized : ∀ a ∈ arguments, a.Sized)
    (short : ∀ a ∈ arguments, a.Short) (made : (call callee arguments random).1 = .ok v) : v.Sized := by
  unfold call at made
  split at made
  · cases made
  · split at made
    · cases made
    · split at made
      · obtain ⟨n, -, made⟩ := ok_of_bind made
        obtain ⟨x, -, made⟩ := ok_of_bind made
        cases made
        exact Value.sized_real _
      · exact apply_sized sized short made

end Builtin

namespace Run

/-- Where a finite bound of a loop stands on the line of units. -/
theorem place_of_finite {last : Number} (bound : last.Sized)
    (finite : ∀ x, last = .real x → x.isFinite = true) :
    ∃ units top, last.place? = some (.within units) ∧ Sized top ∧ -top * Binary64.unitsPerOne ≤ units ∧
      units ≤ top * Binary64.unitsPerOne := by
  cases last with
  | integer n =>
    have large : Sized n.natAbs := (bound n rfl).of_natAbs_le (Nat.le_of_eq (Int.natAbs_natCast _))
    refine ⟨_, n.natAbs, rfl, large, ?_, ?_⟩
    · exact Int.mul_le_mul_of_nonneg_right (by omega) (Int.natCast_nonneg _)
    · exact Int.mul_le_mul_of_nonneg_right (by omega) (Int.natCast_nonneg _)
  | real x =>
    cases x with
    | nan => cases finite _ rfl
    | infinite => cases finite _ rfl
    | finite negative exponent fraction =>
      have below := Binary64.units_lt exponent fraction
      have large : Sized (2 ^ 1024 : Nat) := sized_iff.mpr (by decide +kernel)
      -- The power is generalized so that no later step evaluates it.
      generalize (2 ^ 1024 : Nat) = top at below large
      have magnitude := Binary64.natAbs_signed negative (Binary64.units exponent fraction)
      have bounded : ((Binary64.units exponent fraction : Nat) : Int) < top * Binary64.unitsPerOne := by
        exact_mod_cast below
      refine ⟨_, top, rfl, large, ?_, ?_⟩
      · rw [Int.neg_mul]
        omega
      · omega

/-- A counter that has not passed the end of its loop lies between its last value and the end. -/
theorem sized_of_going {n k : Int} {last : Number} (sized : Sized n) (bound : last.Sized)
    (finite : ∀ x, last = .real x → x.isFinite = true)
    (going : pastEnd (.integer (n + k)) last (.integer k) = false) : Sized (n + k) := by
  obtain ⟨units, top, stands, large, least, most⟩ := place_of_finite bound finite
  have one : (0 : Int) < Binary64.unitsPerOne := Int.natCast_pos.mpr Binary64.unitsPerOne_pos
  unfold pastEnd Number.compare? at going
  rw [stands] at going
  simp only [Number.place?, Binary64.placeOfInt, Binary64.Place.compare, Int.zero_mul] at going
  -- The end of the loop bounds the new value on the side of the step, and the old value on the other.
  rcases Int.lt_trichotomy k 0 with down | rfl | up
  · rw [Int.compare_eq_lt.mpr (Int.mul_neg_of_neg_of_pos down one)] at going
    have still : ¬(n + k) * Binary64.unitsPerOne < units := by
      intro below
      rw [Int.compare_eq_lt.mpr below] at going
      cases going
    have above : -top ≤ n + k := Int.le_of_mul_le_mul_right (Int.le_trans least (Int.not_lt.mp still)) one
    exact large.neg.between sized above (by omega)
  · rwa [Int.add_zero]
  · rw [Int.compare_eq_gt.mpr (Int.mul_pos up one)] at going
    have still : ¬units < (n + k) * Binary64.unitsPerOne := by
      intro below
      rw [Int.compare_eq_gt.mpr below] at going
      cases going
    have below : n + k ≤ top := Int.le_of_mul_le_mul_right (Int.le_trans (Int.not_lt.mp still) most) one
    exact sized.between large (by omega) below

end Run

end Pseudocode
