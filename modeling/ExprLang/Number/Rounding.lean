
/-!
# Rounding a quotient

Quotients of natural numbers rounded to a natural number. The exact quotient is never formed; the
remainder says on which side of the middle it lies.
-/

namespace ExprLang

/-- The natural number nearest to a quotient; a tie goes to the even neighbour. -/
def roundHalfEven (numerator denominator : Nat) : Nat :=
  let quotient := numerator / denominator
  let twice := 2 * (numerator % denominator)
  if twice > denominator || (twice == denominator && quotient % 2 == 1) then quotient + 1
  else quotient

/-- The natural number nearest to a quotient; a tie goes up. -/
def roundHalfUp (numerator denominator : Nat) : Nat :=
  let quotient := numerator / denominator
  if 2 * (numerator % denominator) ≥ denominator then quotient + 1 else quotient

/-- Rounding moves a quotient by at most one half. -/
theorem roundHalfEven_near (numerator denominator : Nat) (positive : 0 < denominator) :
    2 * numerator ≤ (2 * roundHalfEven numerator denominator + 1) * denominator ∧
      2 * roundHalfEven numerator denominator * denominator ≤ 2 * numerator + denominator := by
  have whole := Nat.div_add_mod numerator denominator
  have small := Nat.mod_lt numerator positive
  generalize quotient_eq : numerator / denominator = quotient at whole
  generalize remainder_eq : numerator % denominator = remainder at whole small
  have product : denominator * quotient = quotient * denominator := Nat.mul_comm ..
  simp only [roundHalfEven, quotient_eq, remainder_eq, Bool.or_eq_true, decide_eq_true_eq,
    Bool.and_eq_true, beq_iff_eq]
  split
  · constructor <;> grind
  · constructor <;> grind

/-- A quotient that is a natural number is not moved. -/
theorem roundHalfEven_mul (number denominator : Nat) (positive : 0 < denominator) :
    roundHalfEven (number * denominator) denominator = number := by
  simp [roundHalfEven, Nat.mul_div_cancel _ positive, Nat.ne_of_lt positive]

end ExprLang
