import Mathlib.Data.Rat.Floor
import Mathlib.Tactic.FieldSimp
import Mathlib.Tactic.Linarith
import Pseudocode.Proofs.IntegerSize

/-! DIV and MOD of two integers. The quotient is rounded toward zero and the remainder is what that leaves of the
dividend, whatever the signs. Neither has more bits than the operands, so both are integers of the language though
their size is not checked, and only a divisor that is zero stops the evaluation. -/
namespace Pseudocode

/-- `q` is the quotient of `a` by `b` rounded toward zero, and `r` is the remainder. -/
structure Truncates (a b q r : Int) : Prop where
  rounded : q = if 0 ≤ (a / b : ℚ) then ⌊(a / b : ℚ)⌋ else ⌈(a / b : ℚ)⌉
  parts : a = q * b + r
  small : |r| < |b|
  sign : r = 0 ∨ r.sign = a.sign

section Rounding

variable {a b q r : Int}

theorem abs_tmod_lt (a : Int) (nonzero : b ≠ 0) : |a.tmod b| < |b| := by
  rw [Int.abs_eq_natAbs, Int.abs_eq_natAbs, Int.natAbs_tmod]
  have positive : 0 < b.natAbs := Int.natAbs_pos.mpr nonzero
  exact_mod_cast Nat.mod_lt a.natAbs positive

/-- The remainder is zero or on the same side of zero as the dividend. -/
theorem sign_tmod (a b : Int) : a.tmod b = 0 ∨ (a.tmod b).sign = a.sign := by
  rcases Int.lt_trichotomy a 0 with negative | rfl | positive
  · have below : a.tmod b ≤ 0 := by
      have flipped := Int.tmod_nonneg b (Int.neg_nonneg_of_nonpos (Int.le_of_lt negative))
      rw [Int.neg_tmod] at flipped
      exact Int.nonpos_of_neg_nonneg flipped
    rcases Int.lt_or_eq_of_le below with less | zero
    · right
      rw [Int.sign_eq_neg_one_of_neg less, Int.sign_eq_neg_one_of_neg negative]
    · left
      exact zero
  · left
    exact Int.zero_tmod b
  · have above : 0 ≤ a.tmod b := Int.tmod_nonneg b (Int.le_of_lt positive)
    rcases Int.lt_or_eq_of_le above with greater | zero
    · right
      rw [Int.sign_eq_one_of_pos greater, Int.sign_eq_one_of_pos positive]
    · left
      exact zero.symm

/-- What the signs of the remainder and of the dividend have in common, the fractions by the divisor have too. -/
theorem fraction_nonneg_iff (sign : r.sign = a.sign) (b : Int) : 0 ≤ (r / b : ℚ) ↔ 0 ≤ (a / b : ℚ) := by
  have above : 0 ≤ r ↔ 0 ≤ a := by
    rw [← Int.sign_nonneg_iff, sign, Int.sign_nonneg_iff]
  have below : r ≤ 0 ↔ a ≤ 0 := by
    rw [← Int.sign_nonpos_iff, sign, Int.sign_nonpos_iff]
  rw [div_nonneg_iff, div_nonneg_iff]
  exact_mod_cast or_congr (and_congr_left' above) (and_congr_left' below)

/-- An integer that leaves a remainder smaller than the divisor, on the side of the dividend, is the quotient
rounded toward zero. -/
theorem rounded_of_parts (nonzero : b ≠ 0) (parts : a = q * b + r) (small : |r| < |b|)
    (sign : r = 0 ∨ r.sign = a.sign) :
    q = if 0 ≤ (a / b : ℚ) then ⌊(a / b : ℚ)⌋ else ⌈(a / b : ℚ)⌉ := by
  have divisor : (b : ℚ) ≠ 0 := by exact_mod_cast nonzero
  have whole : (a / b : ℚ) = q + r / b := by
    have parts' : (a : ℚ) = q * b + r := by exact_mod_cast parts
    rw [parts']
    field_simp
  have proper : |(r / b : ℚ)| < 1 := by
    rw [abs_div, div_lt_one (abs_pos.mpr divisor)]
    exact_mod_cast small
  obtain ⟨above, below⟩ := abs_lt.mp proper
  have side : (0 ≤ (a / b : ℚ) → 0 ≤ (r / b : ℚ)) ∧ (¬0 ≤ (a / b : ℚ) → (r / b : ℚ) ≤ 0) := by
    rcases sign with rfl | sign
    · simp
    · rw [← fraction_nonneg_iff sign b]
      exact ⟨id, fun negative => (not_le.mp negative).le⟩
  symm
  split
  next nonnegative =>
    have rest := side.1 nonnegative
    rw [Int.floor_eq_iff]
    constructor <;> linarith
  next negative =>
    have rest := side.2 negative
    rw [Int.ceil_eq_iff]
    constructor <;> linarith

theorem truncates_tdiv (a : Int) (nonzero : b ≠ 0) : Truncates a b (a.tdiv b) (a.tmod b) := by
  have parts : a = a.tdiv b * b + a.tmod b := by
    rw [Int.mul_comm]
    exact (Int.mul_tdiv_add_tmod a b).symm
  have small := abs_tmod_lt a nonzero
  have sign := sign_tmod a b
  exact ⟨rounded_of_parts nonzero parts small sign, parts, small, sign⟩

end Rounding

/-- An integer that is no larger has no more bits. -/
theorem bitLength_le_of_natAbs_le {m n : Int} (le : m.natAbs ≤ n.natAbs) : bitLength m ≤ bitLength n := by
  unfold bitLength
  split
  next => exact Nat.zero_le _
  next other =>
    have dividend : n ≠ 0 := by
      rintro rfl
      exact other (Int.natAbs_eq_zero.mp (Nat.le_zero.mp le))
    rw [if_neg dividend]
    apply Nat.succ_le_succ
    rw [Nat.le_log2 (Int.natAbs_ne_zero.mpr dividend)]
    exact (Nat.log2_self_le (Int.natAbs_ne_zero.mpr other)).trans le

theorem bitLength_tdiv_le (a b : Int) : bitLength (a.tdiv b) ≤ bitLength a :=
  bitLength_le_of_natAbs_le (Int.natAbs_tdiv_le_natAbs a b)

theorem bitLength_tmod_le (a b : Int) : bitLength (a.tmod b) ≤ bitLength a := by
  apply bitLength_le_of_natAbs_le
  rw [Int.natAbs_tmod]
  exact Nat.mod_le _ _

theorem checkSize_of_sized {n : Int} (sized : Sized n) : checkSize n = .ok n :=
  if_neg (Nat.not_lt.mpr sized)

namespace Number

theorem quotient_integers (a b : Int) : quotient (.integer a) (.integer b) = .ok (a.tdiv b) := rfl

theorem remainder_integers (a b : Int) : remainder (.integer a) (.integer b) = .ok (.integer (a.tmod b)) := by
  rw [Int.tmod_def, Int.mul_comm]
  rfl

end Number

namespace Run

section

variable {ctx : RunContext} {enter : Enter} {left right : Expr} {s t u : RunState} {a b : Int}

theorem arithmetic_div (line : Nat) (a : Int) (nonzero : b ≠ 0) :
    arithmetic ctx line .div (.integer a) (.integer b) u = .ok (.integer (a.tdiv b)) u := by
  have divisor : (Number.integer b).isZero = false := by simpa [Number.isZero] using nonzero
  simp only [arithmetic, Value.number?, divisor]
  rw [Number.quotient_integers]
  rfl

theorem arithmetic_mod (line : Nat) (a : Int) (nonzero : b ≠ 0) :
    arithmetic ctx line .mod (.integer a) (.integer b) u = .ok (.integer (a.tmod b)) u := by
  have divisor : (Number.integer b).isZero = false := by simpa [Number.isZero] using nonzero
  simp only [arithmetic, Value.number?, divisor]
  rw [Number.remainder_integers]
  rfl

/-- The operands of an arithmetic operator are evaluated from left to right, and then it is applied. -/
theorem eval_arithmetic (position : Position) (op : BinaryOp) (logical : op.isLogical = false)
    (comparison : op.isComparison = false) (join : op ≠ .join) (first : eval ctx enter left s = .ok v t)
    (second : eval ctx enter right t = .ok w u) :
    eval ctx enter (.binary position op left right) s = arithmetic ctx position.line op v w u := by
  unfold eval
  rw [logical, if_neg Bool.false_ne_true, bind_of_ok first, bind_of_ok second]
  unfold binary
  rw [comparison, if_neg Bool.false_ne_true, if_neg join]

end

end Run

/-- DIV and MOD of two integers: the quotient rounded toward zero and its remainder, with no more bits than the longer
of the two, hence of a size that would pass the check; a divisor that is zero is reported, and nothing else. -/
theorem div_mod_truncate {ctx : RunContext} {enter : Enter} {left right : Expr} {s t u : RunState} {a b : Int}
    (dividend : Run.eval ctx enter left s = .ok (.integer a) t)
    (divisor : Run.eval ctx enter right t = .ok (.integer b) u) (position : Position) :
    (b ≠ 0 → ∃ q r, Run.eval ctx enter (.binary position .div left right) s = .ok (.integer q) u ∧
      Run.eval ctx enter (.binary position .mod left right) s = .ok (.integer r) u ∧ Truncates a b q r ∧
      bitLength q ≤ max (bitLength a) (bitLength b) ∧ bitLength r ≤ max (bitLength a) (bitLength b) ∧
      (Sized a → Sized b → checkSize q = .ok q ∧ checkSize r = .ok r)) ∧
    (b = 0 → ∀ op ∈ [BinaryOp.div, .mod],
      Run.eval ctx enter (.binary position op left right) s = .error (.fault position.line .divisionByZero) u) := by
  have divided := Run.eval_arithmetic position .div rfl rfl (by decide) dividend divisor
  have reduced := Run.eval_arithmetic position .mod rfl rfl (by decide) dividend divisor
  constructor
  · intro nonzero
    have quotientBits := bitLength_tdiv_le a b
    have remainderBits := bitLength_tmod_le a b
    refine ⟨a.tdiv b, a.tmod b, ?_, ?_, truncates_tdiv a nonzero, ?_, ?_, ?_⟩
    · rw [divided, Run.arithmetic_div position.line a nonzero]
    · rw [reduced, Run.arithmetic_mod position.line a nonzero]
    · exact quotientBits.trans (le_max_left _ _)
    · exact remainderBits.trans (le_max_left _ _)
    · intro sized _
      exact ⟨checkSize_of_sized (quotientBits.trans sized), checkSize_of_sized (remainderBits.trans sized)⟩
  · rintro rfl op member
    rcases List.mem_pair.mp member with rfl | rfl
    · rw [divided]
      rfl
    · rw [reduced]
      rfl

/-- Minus seven and two, under an operator. -/
def sevenByTwo (op : BinaryOp) : Expr :=
  .binary ⟨1, 4⟩ op (.literal ⟨1, 1⟩ (.integer (-7))) (.literal ⟨1, 8⟩ (.integer 2))

/-- The quotient is not the floor of the fraction, and the remainder is negative. -/
theorem sevenByTwo_truncates :
    Run.eval ⟨{}, {}, []⟩ (fun line _ _ => Run.stop line .stackOverflow) (sevenByTwo .div) (.initial {}) =
        .ok (.integer (-3)) (.initial {}) ∧
      Run.eval ⟨{}, {}, []⟩ (fun line _ _ => Run.stop line .stackOverflow) (sevenByTwo .mod) (.initial {}) =
        .ok (.integer (-1)) (.initial {}) ∧
      Truncates (-7) 2 (-3) (-1) := by
  have dividend : Run.eval ⟨{}, {}, []⟩ (fun line _ _ => Run.stop line .stackOverflow)
      (.literal ⟨1, 1⟩ (.integer (-7))) (.initial {}) = .ok (.integer (-7)) (.initial {}) := rfl
  have divisor : Run.eval ⟨{}, {}, []⟩ (fun line _ _ => Run.stop line .stackOverflow)
      (.literal ⟨1, 8⟩ (.integer 2)) (.initial {}) = .ok (.integer 2) (.initial {}) := rfl
  obtain ⟨q, r, divided, reduced, truncates, -⟩ := (div_mod_truncate dividend divisor ⟨1, 4⟩).1 (by decide)
  have quotient : q = -3 := by
    have same : EStateM.Result.ok (Value.integer (-3)) _ = .ok (.integer q) _ := divided
    cases same
    rfl
  have remainder : r = -1 := by
    have same : EStateM.Result.ok (Value.integer (-1)) _ = .ok (.integer r) _ := reduced
    cases same
    rfl
  subst quotient remainder
  exact ⟨divided, reduced, truncates⟩

end Pseudocode
