import ExprLang.Proofs.Eval.Operators
import ExprLang.Proofs.Number.Word

/-!
# Arithmetic on the integer types

The operators on two numbers of one integer type are exact arithmetic modulo the width of the type:
each result is the residue of the exact result (`BinaryOp.apply_of_exact`), and only a zero divisor
fails. Shifts multiply and divide by powers of two, and a step up or down is the sum or the
difference with one, for decimals too. `integer_arithmetic_modular` puts these together for all four
types.
-/

namespace ExprLang

attribute [local instance (high)] instPowNat

abbrev Value.integer (kind : IntKind) (word : kind.Word) : Value :=
  .datum (.integer kind word)

namespace BinaryOp

/-- The exact results of the arithmetic operators on integers. A quotient is truncated toward zero,
and a zero divisor has no quotient. -/
inductive Exact : BinaryOp → Int → Int → Int → Prop where
  | add (a b : Int) : Exact .add a b (a + b)
  | subtract (a b : Int) : Exact .subtract a b (a - b)
  | multiply (a b : Int) : Exact .multiply a b (a * b)
  | divide (a : Int) {b : Int} (nonzero : b ≠ 0) : Exact .divide a b (a.tdiv b)
  | modulo (a : Int) {b : Int} (nonzero : b ≠ 0) : Exact .modulo a b (a.tmod b)

variable {op : BinaryOp} {kind : IntKind} {a b : kind.Word}

theorem Exact.family {m n k : Int} (exact : op.Exact m n k) : op.applyData = op.arithmetic := by
  cases exact <;> rfl

theorem family_of_divides (divides : op.divides = true) : op.applyData = op.arithmetic := by
  cases op <;> first | rfl | cases divides

/-- Arithmetic on numbers of one integer type is arithmetic on their words. -/
theorem apply_words (family : op.applyData = op.arithmetic) :
    op.apply (.integer kind a) (.integer kind b) =
      (op.wordArithmetic kind a b).map (.integer kind) := by
  have applied : op.applyData (.integer kind a) (.integer kind b) =
      some ((op.wordArithmetic kind a b).map (.integer kind)) := by
    rw [family]
    simp only [arithmetic, ↓reduceDIte]
  rw [apply_of_applyData applied]
  cases op.wordArithmetic kind a b <;> rfl

/-- Without a zero divisor arithmetic on words does not fail. -/
theorem wordArithmetic_ok (goesOn : op.divides = false ∨ kind.toInt b ≠ 0) :
    op.wordArithmetic kind a b = .ok (match op with
      | .add => a + b
      | .subtract => a - b
      | .multiply => a * b
      | .divide => kind.quotient a b
      | _ => kind.remainder a b) := by
  have noFault : (op.divides && b == 0) = false := by
    rcases goesOn with whole | nonzero
    · rw [whole, Bool.false_and]
    · rw [beq_false_of_ne fun zero => nonzero (IntKind.toInt_eq_zero_iff.mpr zero), Bool.and_false]
  simp only [wordArithmetic, noFault, Bool.false_eq_true, ↓reduceIte]
  cases op <;> rfl

theorem wordArithmetic_of_exact {n : Int} (exact : op.Exact (kind.toInt a) (kind.toInt b) n) :
    op.wordArithmetic kind a b = .ok (kind.ofInt n) := by
  cases exact with
  | add => rw [wordArithmetic_ok (.inl rfl), IntKind.add_eq_ofInt]
  | subtract => rw [wordArithmetic_ok (.inl rfl), IntKind.sub_eq_ofInt]
  | multiply => rw [wordArithmetic_ok (.inl rfl), IntKind.mul_eq_ofInt]
  | divide _ nonzero =>
    rw [wordArithmetic_ok (.inr nonzero), IntKind.quotient_eq_ofInt]
  | modulo _ nonzero =>
    rw [wordArithmetic_ok (.inr nonzero), IntKind.remainder_eq_ofInt]

/-- An operator with an exact result gives the word of that result. -/
theorem apply_of_exact {n : Int} (exact : op.Exact (kind.toInt a) (kind.toInt b) n) :
    op.apply (.integer kind a) (.integer kind b) = .ok (.integer kind (kind.ofInt n)) := by
  rw [apply_words exact.family, wordArithmetic_of_exact exact]
  rfl

theorem apply_zero_divisor (divides : op.divides = true) (zero : kind.toInt b = 0) :
    op.apply (.integer kind a) (.integer kind b) = .error .divisionByZero := by
  rw [IntKind.toInt_eq_zero_iff] at zero
  simp [apply_words (family_of_divides divides), wordArithmetic, divides, zero, Except.map]

/-- Arithmetic on decimals as values. -/
theorem apply_decimals {a b : Decimal} (family : op.applyData = op.arithmetic) :
    op.apply (.datum (.decimal a)) (.datum (.decimal b)) =
      (op.decimalArithmetic a b).map fun d => .datum (.decimal d) := by
  have applied : op.applyData (.decimal a) (.decimal b) =
      some ((op.decimalArithmetic a b).map .decimal) := by
    rw [family, arithmetic]
  rw [apply_of_applyData applied]
  cases op.decimalArithmetic a b <;> rfl

theorem apply_shiftLeft (count : BitVec 32) :
    leftShift.apply (.integer kind a) (.integer .int count) =
      .ok (.integer kind (kind.ofInt (kind.toInt a * 2 ^ (count.toInt % kind.bits).toNat))) := by
  rw [← IntKind.shiftLeft_eq_ofInt]
  rfl

theorem apply_shiftRight (count : BitVec 32) :
    rightShift.apply (.integer kind a) (.integer .int count) =
      .ok (.integer kind (kind.shiftRight a count)) :=
  rfl

end BinaryOp

namespace IntKind

/-- Arithmetic modulo the width of an integer type, as the operators do it. -/
structure ModularArithmetic (kind : IntKind) : Prop where
  /-- Every integer leaves one residue in the range of the type. -/
  residue (n : Int) : ∃! m, kind.Residue n m
  /-- An operator gives the residue of its exact result. -/
  result {op : BinaryOp} {a b : kind.Word} {n : Int}
    (exact : op.Exact (kind.toInt a) (kind.toInt b) n) :
    ∃ c, op.apply (.integer kind a) (.integer kind b) = .ok (.integer kind c) ∧
      kind.Residue n (kind.toInt c)
  /-- Division and remainder fail by a zero divisor and by nothing else. -/
  zeroDivisor {op : BinaryOp} (divides : op.divides = true) (a b : kind.Word) :
    op.apply (.integer kind a) (.integer kind b) = .error .divisionByZero ↔ kind.toInt b = 0
  /-- A number is the divisor times the quotient plus the remainder, in the operators. -/
  divided {a b : kind.Word} (nonzero : kind.toInt b ≠ 0) :
    (do
      let quotient ← BinaryOp.divide.apply (.integer kind a) (.integer kind b)
      let product ← BinaryOp.multiply.apply quotient (.integer kind b)
      let remainder ← BinaryOp.modulo.apply (.integer kind a) (.integer kind b)
      BinaryOp.add.apply product remainder) = .ok (.integer kind a)
  /-- The least number divided by minus one is itself, and nothing remains. -/
  leastNegated {a b : kind.Word} (least : kind.toInt a = kind.least)
    (minusOne : kind.toInt b = -1) :
    BinaryOp.divide.apply (.integer kind a) (.integer kind b) = .ok (.integer kind a) ∧
      BinaryOp.modulo.apply (.integer kind a) (.integer kind b) = .ok (.integer kind 0)
  /-- A shift to the left multiplies by a power of two. -/
  shiftedLeft (a : kind.Word) (count : BitVec 32) :
    ∃ c, BinaryOp.leftShift.apply (.integer kind a) (.integer .int count) = .ok (.integer kind c) ∧
      kind.Residue (kind.toInt a * 2 ^ (count.toInt % kind.bits).toNat) (kind.toInt c)
  /-- A shift to the right divides by a power of two, rounding down. -/
  shiftedRight (a : kind.Word) (count : BitVec 32) :
    ∃ c, BinaryOp.rightShift.apply (.integer kind a) (.integer .int count) = .ok (.integer kind c) ∧
      kind.toInt c = (kind.toInt a).fdiv (2 ^ (count.toInt % kind.bits).toNat)
  /-- One more is the sum with one. -/
  incremented (a : kind.Word) :
    UnaryOp.increment.apply (.integer kind a) =
      BinaryOp.add.apply (.integer kind a) (.integer kind (kind.ofInt 1))
  /-- One less is the difference with one. -/
  decremented (a : kind.Word) :
    UnaryOp.decrement.apply (.integer kind a) =
      BinaryOp.subtract.apply (.integer kind a) (.integer kind (kind.ofInt 1))

variable {kind : IntKind} (a b : kind.Word)

theorem divided_of_nonzero (nonzero : kind.toInt b ≠ 0) :
    (do
      let quotient ← BinaryOp.divide.apply (.integer kind a) (.integer kind b)
      let product ← BinaryOp.multiply.apply quotient (.integer kind b)
      let remainder ← BinaryOp.modulo.apply (.integer kind a) (.integer kind b)
      BinaryOp.add.apply product remainder) = .ok (.integer kind a) := by
  have divided : BinaryOp.divide.apply (.integer kind a) (.integer kind b) =
      .ok (.integer kind (kind.quotient a b)) := by
    rw [BinaryOp.apply_words rfl, BinaryOp.wordArithmetic_ok (.inr nonzero)]
    rfl
  have left : BinaryOp.modulo.apply (.integer kind a) (.integer kind b) =
      .ok (.integer kind (kind.remainder a b)) := by
    rw [BinaryOp.apply_words rfl, BinaryOp.wordArithmetic_ok (.inr nonzero)]
    rfl
  have multiplied : BinaryOp.multiply.apply (.integer kind (kind.quotient a b)) (.integer kind b) =
      .ok (.integer kind (kind.quotient a b * b)) := by
    rw [BinaryOp.apply_words rfl, BinaryOp.wordArithmetic_ok (.inl rfl)]
    rfl
  have added : BinaryOp.add.apply (.integer kind (kind.quotient a b * b))
      (.integer kind (kind.remainder a b)) =
      .ok (.integer kind (kind.quotient a b * b + kind.remainder a b)) := by
    rw [BinaryOp.apply_words rfl, BinaryOp.wordArithmetic_ok (.inl rfl)]
    rfl
  simp only [divided, left, multiplied, added, bind, Except.bind, quotient_mul_add_remainder]

/-- The negative of the least number of a type leaves the least number again. -/
theorem ofInt_neg_least (kind : IntKind) : kind.ofInt (-kind.least) = kind.ofInt kind.least := by
  cases kind <;> decide

end IntKind

namespace Decimal

/-- A step down is the difference with one. -/
theorem sub_one (d : Decimal) : d.sub one = d.add one.neg := by
  unfold sub
  split
  next zero =>
    rw [add, if_pos zero]
    rfl
  · rfl

end Decimal

/-- **Integer arithmetic is exact modular arithmetic.** On each of the four integer types the
operators give the residues of the exact results, shifts multiply and divide by powers of two, and
only a zero divisor fails. A step up or down is the sum or the difference with one, for decimals
together with their overflows. -/
theorem integer_arithmetic_modular :
    (∀ kind : IntKind, kind.ModularArithmetic) ∧
      ∀ d : Decimal,
        UnaryOp.increment.apply (.datum (.decimal d)) =
            BinaryOp.add.apply (.datum (.decimal d)) (.datum (.decimal .one)) ∧
          UnaryOp.decrement.apply (.datum (.decimal d)) =
            BinaryOp.subtract.apply (.datum (.decimal d)) (.datum (.decimal .one)) := by
  constructor
  · intro kind
    refine
      { residue := kind.existsUnique_residue
        result := fun exact => ⟨_, BinaryOp.apply_of_exact exact, kind.residue_toInt_ofInt _⟩
        zeroDivisor := fun divides a b => ⟨fun failed => ?_, BinaryOp.apply_zero_divisor divides⟩
        divided := fun nonzero => IntKind.divided_of_nonzero _ _ nonzero
        leastNegated := fun {a b} least minusOne => ?_
        shiftedLeft := fun a count =>
          ⟨_, BinaryOp.apply_shiftLeft count, kind.residue_toInt_ofInt _⟩
        shiftedRight := fun a count =>
          ⟨_, BinaryOp.apply_shiftRight count, IntKind.toInt_shiftRight a count⟩
        incremented := fun a => ?_
        decremented := fun a => ?_ }
    · by_contra nonzero
      rw [BinaryOp.apply_words (BinaryOp.family_of_divides divides),
        BinaryOp.wordArithmetic_ok (.inr nonzero)] at failed
      cases failed
    · have nonzero : kind.toInt b ≠ 0 := by omega
      constructor
      · rw [BinaryOp.apply_of_exact (.divide _ nonzero), minusOne, Int.tdiv_neg, Int.tdiv_one, least,
          IntKind.ofInt_neg_least, ← least, IntKind.ofInt_toInt]
      · rw [BinaryOp.apply_of_exact (.modulo _ nonzero), minusOne, Int.tmod_neg, Int.tmod_one]
        rfl
    · rw [IntKind.ofInt_one, BinaryOp.apply_words rfl, BinaryOp.wordArithmetic_ok (.inl rfl)]
      rfl
    · rw [IntKind.ofInt_one, BinaryOp.apply_words rfl, BinaryOp.wordArithmetic_ok (.inl rfl)]
      rfl
  · intro d
    constructor
    · rw [BinaryOp.apply_decimals rfl]
      unfold UnaryOp.apply UnaryOp.applyDatum UnaryOp.step BinaryOp.decimalArithmetic
      simp only [↓reduceIte, BinaryOp.divides, Bool.false_and, Bool.false_eq_true]
      cases d.add .one <;> rfl
    · rw [BinaryOp.apply_decimals rfl]
      unfold UnaryOp.apply UnaryOp.applyDatum UnaryOp.step BinaryOp.decimalArithmetic
      simp only [↓reduceIte, BinaryOp.divides, Bool.false_and, Bool.false_eq_true, Decimal.sub_one]
      cases d.add Decimal.one.neg <;> rfl

/-- In `long` the least number divided by minus one is the least number again, a division by zero
fails, and a shift of one by minus one goes sixty-three places to the left. -/
theorem integer_arithmetic_modular_long :
    BinaryOp.divide.apply (.integer .long (.intMin 64)) (.integer .long (-1)) =
        .ok (.integer .long (.intMin 64)) ∧
      BinaryOp.divide.apply (.integer .long 1) (.integer .long 0) = .error .divisionByZero ∧
      ∃ c, BinaryOp.leftShift.apply (.integer .long 1) (.integer .int (-1)) =
          .ok (.integer .long c) ∧ IntKind.long.Residue (2 ^ (63 : Nat)) (IntKind.long.toInt c) := by
  have long := integer_arithmetic_modular.1 .long
  exact ⟨(long.leastNegated (by decide) (by decide)).1, (long.zeroDivisor rfl 1 0).mpr (by decide),
    long.shiftedLeft 1 (-1)⟩

end ExprLang
