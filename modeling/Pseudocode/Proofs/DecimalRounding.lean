import Mathlib.Tactic.Ring
import Pseudocode.Binary64.Arithmetic
import Pseudocode.Binary64.Decimal
import Pseudocode.Proofs.IntegerSize

/-! Decimals and the numbers nearest to them. Rounding only depends on the value that is rounded, however it is
written as a fraction or as a decimal, and a number is the nearest to its own value. So the shortest decimal of
a number, and what its zeros at the end are cut from, reads back as the number. -/
namespace Pseudocode.Binary64

section Rounding

variable {negative : Bool} {num den c n : Nat} {exponent : Fin 2047} {fraction : Fin 4503599627370496}

theorem halfEven_mul (positive : 0 < c) : halfEven (num * c) (den * c) = halfEven num den := by
  have twice : 2 * (num % den * c) = 2 * (num % den) * c := (Nat.mul_assoc _ _ _).symm
  unfold halfEven
  simp only [Nat.mul_div_mul_right _ _ positive, Nat.mul_mod_mul_right, twice, Nat.mul_lt_mul_right positive,
    Nat.mul_left_inj (Nat.ne_of_gt positive)]

/-- A fraction may be expanded. -/
theorem ofUnits_mul (positive : 0 < c) : ofUnits negative (num * c) (den * c) = ofUnits negative num den := by
  have regroup (power : Nat) : den * c * power = den * power * c := Nat.mul_right_comm _ _ _
  unfold ofUnits
  simp only [Nat.mul_div_mul_right _ _ positive, regroup, halfEven_mul positive]

theorem ofUnits_whole (num : Nat) (positive : 0 < c) : ofUnits negative (num * c) c = ofUnits negative num 1 := by
  have expanded : ofUnits negative (num * c) (1 * c) = ofUnits negative num 1 := ofUnits_mul positive
  rwa [Nat.one_mul] at expanded

theorem halfEven_whole (positive : 0 < den) : halfEven (n * den) den = n := by
  unfold halfEven
  simp [Nat.mul_div_cancel _ positive, Nat.mul_mod_left, Nat.ne_of_lt positive]

/-- The whole number that a power of two is multiplied with. -/
def significand (exponent : Fin 2047) (fraction : Fin 4503599627370496) : Nat :=
  if exponent.val = 0 then fraction.val else hiddenBit + fraction.val

theorem units_eq : units exponent fraction = significand exponent fraction * 2 ^ (exponent.val - 1) := by
  unfold units significand
  split
  next subnormal => rw [subnormal, Nat.zero_sub, Nat.pow_zero, Nat.mul_one]
  next => rfl

theorem log2_units (exponent : Fin 2047) (fraction : Fin 4503599627370496) :
    (units exponent fraction).log2 - 52 = exponent.val - 1 := by
  have most : (units exponent fraction).log2 < 53 + (exponent.val - 1) := by
    by_cases zero : units exponent fraction = 0
    · rw [zero, Nat.log2_zero]
      omega
    · rw [Nat.log2_lt zero, Nat.pow_add]
      exact units_lt_pow (Nat.le_refl _)
  have least (normal : exponent.val ≠ 0) : 52 + (exponent.val - 1) ≤ (units exponent fraction).log2 := by
    have large : 2 ^ (52 + (exponent.val - 1)) ≤ units exponent fraction := by
      rw [units_eq, significand, if_neg normal, Nat.pow_add]
      exact Nat.mul_le_mul_right _ (Nat.le_add_right _ _)
    exact (Nat.le_log2 (Nat.ne_of_gt (Nat.lt_of_lt_of_le (Nat.two_pow_pos _) large))).mpr large
  omega

theorem pack_significand (negative : Bool) (exponent : Fin 2047) (fraction : Fin 4503599627370496) :
    pack negative (exponent.val - 1) (significand exponent fraction) = .finite negative exponent fraction := by
  unfold significand
  split
  next subnormal =>
    have zero : exponent = 0 := Fin.ext subnormal
    unfold pack
    rw [dif_pos fraction.isLt, zero]
  next normal =>
    have large : ¬hiddenBit + fraction.val < 4503599627370496 := Nat.not_lt.mpr (Nat.le_add_right _ _)
    have fits : hiddenBit + fraction.val - 4503599627370496 = fraction.val := Nat.add_sub_cancel_left ..
    have inside : exponent.val - 1 + 1 = exponent.val := Nat.sub_add_cancel (Nat.pos_of_ne_zero normal)
    unfold pack
    simp only [large, fits, inside, fraction.isLt, exponent.isLt, dite_true, dite_false]

/-- A number is the nearest to its own value. -/
theorem ofUnits_units (positive : 0 < den) :
    ofUnits negative (units exponent fraction * den) den = .finite negative exponent fraction := by
  rw [ofUnits_whole _ positive]
  unfold ofUnits
  dsimp only
  rw [Nat.div_one, Nat.one_mul, log2_units, units_eq]
  exact (congrArg _ (halfEven_whole (Nat.two_pow_pos _))).trans (pack_significand negative exponent fraction)

/-- What is less than half a unit is rounded to zero. -/
theorem ofUnits_zero (small : 2 * num < den) : ofUnits negative num den = zero negative := by
  have none : num / den = 0 := Nat.div_eq_of_lt (by omega)
  have all : num % den = num := Nat.mod_eq_of_lt (by omega)
  have rounded : halfEven num den = 0 := by
    unfold halfEven
    rw [none, all]
    exact if_neg (by omega)
  unfold ofUnits
  dsimp only
  rw [none]
  show pack negative 0 (halfEven num (den * 1)) = _
  rw [Nat.mul_one, rounded]
  rfl

theorem le_halfEven (num den : Nat) : num / den ≤ halfEven num den := by
  unfold halfEven
  dsimp only
  split
  · exact Nat.le_succ _
  · exact Nat.le_refl _

theorem pack_infinite {shift whole : Nat} (past : 2046 ≤ shift) (normal : hiddenBit ≤ whole) :
    pack negative shift whole = .infinite negative := by
  have large : ¬whole < 4503599627370496 := by
    unfold hiddenBit at normal
    omega
  have first : ¬shift + 1 < 2047 := by omega
  have second : ¬shift + 2 < 2047 := by omega
  unfold pack
  rw [dif_neg large]
  by_cases fits : whole - 4503599627370496 < 4503599627370496
  · rw [dif_pos fits, dif_neg first]
  · rw [dif_neg fits, dif_neg second]

/-- What is past the largest number by as much as a binade is rounded to an infinity. -/
theorem ofUnits_infinite {power : Nat} (positive : 0 < den) (past : 2098 ≤ power) (large : 2 ^ power * den ≤ num) :
    ofUnits negative num den = .infinite negative := by
  have quotient : 2 ^ power ≤ num / den := (Nat.le_div_iff_mul_le positive).mpr large
  have some : num / den ≠ 0 := Nat.ne_of_gt (Nat.lt_of_lt_of_le (Nat.two_pow_pos power) quotient)
  have top : power ≤ (num / den).log2 := (Nat.le_log2 some).mpr quotient
  have split : 52 + ((num / den).log2 - 52) = (num / den).log2 := by omega
  apply pack_infinite
  · omega
  · refine Nat.le_trans ?_ (le_halfEven _ _)
    rw [← Nat.div_div_eq_div_mul]
    refine (Nat.le_div_iff_mul_le (Nat.two_pow_pos _)).mpr ?_
    show 2 ^ 52 * 2 ^ _ ≤ _
    rw [← Nat.pow_add, split]
    exact Nat.log2_self_le some

end Rounding

section Decimals

variable {negative : Bool} {digits : Nat} {exponent : Int}

theorem pow_ten_pos (power : Nat) : 0 < 10 ^ power := Nat.pow_pos (by decide)

/-- What is answered with zero at once would be rounded to zero. -/
theorem ofUnits_tiny {a b : Nat} (tiny : a + digits.log2 + 401 ≤ b) :
    ofUnits negative (digits * 10 ^ a * unitsPerOne) (10 ^ b) = zero negative := by
  have short : digits < 2 ^ digits.log2 * 2 := Nat.lt_log2_self
  have power : 2 ^ digits.log2 ≤ 10 ^ digits.log2 := Nat.pow_le_pow_left (by decide) _
  have unit : 4 * unitsPerOne ≤ 10 ^ 401 := by decide +kernel
  apply ofUnits_zero
  calc
    2 * (digits * 10 ^ a * unitsPerOne) = digits * (2 * (10 ^ a * unitsPerOne)) := by ring
    _ < 2 ^ digits.log2 * 2 * (2 * (10 ^ a * unitsPerOne)) :=
      Nat.mul_lt_mul_of_pos_right short
        (Nat.mul_pos Nat.two_pos (Nat.mul_pos (pow_ten_pos a) unitsPerOne_pos))
    _ = 10 ^ a * 2 ^ digits.log2 * (4 * unitsPerOne) := by ring
    _ ≤ 10 ^ a * 10 ^ digits.log2 * 10 ^ 401 := Nat.mul_le_mul (Nat.mul_le_mul_left _ power) unit
    _ = 10 ^ (a + digits.log2 + 401) := by rw [Nat.pow_add, Nat.pow_add]
    _ ≤ 10 ^ b := Nat.pow_le_pow_right (by decide) tiny

/-- What is answered with an infinity at once would be rounded to it. -/
theorem ofUnits_huge {a b : Nat} (some : 0 < digits) (huge : b + 401 ≤ a) :
    ofUnits negative (digits * 10 ^ a * unitsPerOne) (10 ^ b) = .infinite negative := by
  have unit : 2 ^ 2098 = 2 ^ 1024 * unitsPerOne := by decide +kernel
  have power : 2 ^ 1024 ≤ 10 ^ 401 := by decide +kernel
  refine ofUnits_infinite (pow_ten_pos b) (Nat.le_refl 2098) ?_
  calc
    2 ^ 2098 * 10 ^ b = 2 ^ 1024 * unitsPerOne * 10 ^ b := by rw [unit]
    _ ≤ 10 ^ 401 * unitsPerOne * 10 ^ b := Nat.mul_le_mul_right _ (Nat.mul_le_mul_right _ power)
    _ = 10 ^ (b + 401) * unitsPerOne := by rw [Nat.mul_right_comm, ← Nat.pow_add, Nat.add_comm]
    _ ≤ 10 ^ a * unitsPerOne := Nat.mul_le_mul_right _ (Nat.pow_le_pow_right (by decide) huge)
    _ ≤ digits * 10 ^ a * unitsPerOne := Nat.mul_le_mul_right _ (Nat.le_mul_of_pos_left _ some)

/-- A decimal is rounded as the fraction that it stands for. -/
theorem ofDecimal_eq {a b : Nat} (some : 0 < digits) (same : exponent = a - b) :
    ofDecimal negative digits exponent = ofUnits negative (digits * 10 ^ a * unitsPerOne) (10 ^ b) := by
  have zero : ¬digits = 0 := Nat.ne_of_gt some
  unfold ofDecimal
  simp only [zero, false_or]
  split
  next tiny => exact (ofUnits_tiny (by omega)).symm
  split
  next huge => exact (ofUnits_huge some (by omega)).symm
  split
  next whole =>
    have more : a = exponent.toNat + b := by omega
    have regroup : digits * 10 ^ a * unitsPerOne = digits * 10 ^ exponent.toNat * unitsPerOne * 10 ^ b := by
      rw [more, Nat.pow_add, ← Nat.mul_assoc, Nat.mul_right_comm]
    rw [regroup, ofUnits_whole _ (pow_ten_pos b)]
    rfl
  next =>
    have more : b = (-exponent).toNat + a := by omega
    rw [more, Nat.pow_add, Nat.mul_right_comm, ofUnits_mul (pow_ten_pos a)]
    rfl

/-- Zeros at the end of the digits may as well be counted in the exponent. -/
theorem ofDecimal_mul_pow (negative : Bool) (digits : Nat) (exponent : Int) (count : Nat) :
    ofDecimal negative (digits * 10 ^ count) exponent = ofDecimal negative digits (exponent + count) := by
  by_cases zero : digits = 0
  · simp [zero, ofDecimal]
  · have positive := Nat.pos_of_ne_zero zero
    have whole : exponent = ((exponent + exponent.natAbs).toNat : Int) - exponent.natAbs := by omega
    have later : exponent + count = ((exponent + exponent.natAbs).toNat + count : Nat) - (exponent.natAbs : Int) := by
      omega
    rw [ofDecimal_eq (Nat.mul_pos positive (Nat.pow_pos (by decide))) whole, ofDecimal_eq positive later]
    have regroup (power : Nat) : digits * 10 ^ count * 10 ^ power = digits * 10 ^ (power + count) := by
      rw [Nat.mul_assoc, ← Nat.pow_add, Nat.add_comm]
    rw [regroup]

end Decimals

section Signs

theorem pack_neg (negative : Bool) (shift whole : Nat) :
    pack (!negative) shift whole = (pack negative shift whole).neg := by
  unfold pack
  split
  · rfl
  split
  · split <;> rfl
  · split <;> rfl

theorem ofRatio_neg (negative : Bool) (num den : Nat) :
    ofRatio (!negative) num den = (ofRatio negative num den).neg := by
  unfold ofRatio ofUnits
  exact pack_neg _ _ _

/-- The sign of a decimal is the sign of the number nearest to it. -/
theorem ofDecimal_neg (negative : Bool) (digits : Nat) (exponent : Int) :
    ofDecimal (!negative) digits exponent = (ofDecimal negative digits exponent).neg := by
  unfold ofDecimal
  split
  · rfl
  split
  · rfl
  split
  · exact ofRatio_neg _ _ _
  · exact ofRatio_neg _ _ _

theorem ofDecimal_signed {digits : Nat} {power : Int} {exponent : Fin 2047} {fraction : Fin 4503599627370496}
    (plain : ofDecimal false digits power = .finite false exponent fraction) (negative : Bool) :
    ofDecimal negative digits power = .finite negative exponent fraction := by
  cases negative with
  | false => exact plain
  | true =>
    rw [← Bool.not_false, ofDecimal_neg, plain]
    rfl

end Signs

section Shortest

variable {exponent : Fin 2047} {fraction : Fin 4503599627370496}

/-- The exact decimal of a number reads back as the number. -/
theorem exactDecimal_readsBack (some : units exponent fraction ≠ 0) :
    ofDecimal false (exactDecimal exponent fraction).digits (exactDecimal exponent fraction).exponent =
      .finite false exponent fraction := by
  have positive : 0 < significand exponent fraction := by
    refine Nat.pos_of_ne_zero fun zero => some ?_
    rw [units_eq, zero, Nat.zero_mul]
  have exact : exactDecimal exponent fraction =
      if 1074 ≤ exponent.val - 1 then ⟨significand exponent fraction * 2 ^ (exponent.val - 1 - 1074), 0⟩
      else ⟨significand exponent fraction * 5 ^ (1074 - (exponent.val - 1)), (exponent.val - 1 : Nat) - 1074⟩ := rfl
  have unit : unitsPerOne = 2 ^ 1074 := by decide +kernel
  rw [exact]
  split
  next high =>
    have value : significand exponent fraction * 2 ^ (exponent.val - 1 - 1074) * 10 ^ 0 * unitsPerOne =
        units exponent fraction * 10 ^ 0 := by
      rw [units_eq, Nat.pow_zero, Nat.mul_one, Nat.mul_one, unit, Nat.mul_assoc, ← Nat.pow_add,
        Nat.sub_add_cancel high]
    have whole : (0 : Int) = (0 : Nat) - (0 : Nat) := rfl
    dsimp only
    rw [ofDecimal_eq (Nat.mul_pos positive (Nat.two_pow_pos _)) whole, value]
    exact ofUnits_units (pow_ten_pos 0)
  next low =>
    have parts : 2 ^ 1074 = 2 ^ (exponent.val - 1) * 2 ^ (1074 - (exponent.val - 1)) := by
      rw [← Nat.pow_add, Nat.add_sub_cancel' (by omega)]
    have value : significand exponent fraction * 5 ^ (1074 - (exponent.val - 1)) * 10 ^ 0 * unitsPerOne =
        units exponent fraction * 10 ^ (1074 - (exponent.val - 1)) := by
      rw [units_eq, unit, parts, Nat.pow_zero, Nat.mul_one, show 10 = 5 * 2 from rfl, Nat.mul_pow]
      ring
    have shift : ((exponent.val - 1 : Nat) : Int) - 1074 = (0 : Nat) - ((1074 - (exponent.val - 1) : Nat) : Int) := by
      omega
    dsimp only
    rw [ofDecimal_eq (Nat.mul_pos positive (Nat.pow_pos (by decide))) shift, value]
    exact ofUnits_units (pow_ten_pos _)

/-- So does the shortest. -/
theorem shortestDecimal_readsBack (some : units exponent fraction ≠ 0) :
    ofDecimal false (shortestDecimal exponent fraction).digits (shortestDecimal exponent fraction).exponent =
      .finite false exponent fraction := by
  unfold shortestDecimal
  dsimp only
  cases found : (List.range 17).findSome? _ with
  | none => exact exactDecimal_readsBack some
  | some d =>
    obtain ⟨count, -, found⟩ := List.exists_of_findSome?_eq_some found
    have reads := List.find?_some found
    rw [decide_eq_true_eq] at reads
    exact reads

end Shortest

end Pseudocode.Binary64
