import ExprLang.Number.Word
import Mathlib.Data.Int.ModEq
import Mathlib.Tactic.Positivity

/-!
# Integers modulo a width

What the operations on words do to the integers that the words stand for. An integer leaves one
residue in each integer type: the only integer in the range of the type that is congruent to it
modulo the width (`IntKind.existsUnique_residue`). The word of an integer stands for its residue, so
an operation is exact modular arithmetic if its result is the word of the exact result. Sums,
differences, products, quotients, remainders and shifts are of this kind.
-/

namespace ExprLang

attribute [local instance (high)] instPowNat

/-- An integer `m` is what `n` leaves in a range of integers modulo a power of two. -/
structure Residue (bits : Nat) (least greatest n m : Int) : Prop where
  least_le : least ≤ m
  le_greatest : m ≤ greatest
  congruent : m ≡ n [ZMOD 2 ^ bits]

/-- A range that is no wider than the modulus has at most one residue. -/
theorem Residue.unique {bits : Nat} {least greatest n m k : Int}
    (narrow : greatest - least < 2 ^ bits) (first : Residue bits least greatest n m)
    (second : Residue bits least greatest n k) : m = k := by
  have close : |m - k| < 2 ^ bits := by
    rw [abs_lt]
    have := first.least_le
    have := first.le_greatest
    have := second.least_le
    have := second.le_greatest
    omega
  have divides : (2 : Int) ^ bits ∣ m - k :=
    (first.congruent.trans second.congruent.symm).symm.dvd
  have zero := Int.eq_zero_of_abs_lt_dvd divides close
  omega

namespace IntKind

variable (kind : IntKind)

/-- What an integer leaves in an integer type. -/
abbrev Residue (n m : Int) : Prop :=
  ExprLang.Residue kind.bits kind.least kind.greatest n m

theorem greatest_sub_least : kind.greatest - kind.least < 2 ^ kind.bits := by
  cases kind <;> decide

/-- The words of a type stand for the integers in its range. -/
theorem least_le_toInt (word : kind.Word) : kind.least ≤ kind.toInt word := by
  unfold least toInt
  split
  · exact BitVec.le_toInt word
  · exact Int.natCast_nonneg _

theorem toInt_le_greatest (word : kind.Word) : kind.toInt word ≤ kind.greatest := by
  unfold greatest toInt
  split
  · exact BitVec.toInt_le
  · have below := word.isLt
    have cast : ((2 ^ kind.bits : Nat) : Int) = 2 ^ kind.bits := by push_cast; rfl
    omega

/-- The word of an integer stands for its residue. -/
theorem residue_toInt_ofInt (n : Int) : kind.Residue n (kind.toInt (kind.ofInt n)) where
  least_le := kind.least_le_toInt _
  le_greatest := kind.toInt_le_greatest _
  congruent := by
    unfold toInt ofInt Int.ModEq
    have cast : ((2 ^ kind.bits : Nat) : Int) = 2 ^ kind.bits := by push_cast; rfl
    split
    · rw [BitVec.toInt_ofInt, ← cast, Int.bmod_emod]
    · have positive : (0 : Int) < (2 ^ kind.bits : Nat) := Int.natCast_pos.mpr (Nat.two_pow_pos _)
      rw [BitVec.toNat_ofInt, Int.toNat_of_nonneg (Int.emod_nonneg n (by omega)), ← cast,
        Int.emod_emod_of_dvd _ (dvd_refl _)]

/-- The word of the integer that a word stands for is that word. -/
theorem ofInt_toInt (word : kind.Word) : kind.ofInt (kind.toInt word) = word := by
  unfold IntKind.ofInt IntKind.toInt
  split
  · exact BitVec.ofInt_toInt
  · rw [BitVec.ofInt_natCast, BitVec.ofNat_toNat, BitVec.setWidth_eq]

variable {kind}

theorem Residue.unique {n m k : Int} (first : kind.Residue n m) (second : kind.Residue n k) : m = k :=
  ExprLang.Residue.unique kind.greatest_sub_least first second

theorem toInt_inj {a b : kind.Word} : kind.toInt a = kind.toInt b ↔ a = b := by
  constructor
  · intro same
    rw [← kind.ofInt_toInt a, same, kind.ofInt_toInt]
  · rintro rfl
    rfl

theorem toInt_eq_zero_iff {word : kind.Word} : kind.toInt word = 0 ↔ word = 0 := by
  have zero : kind.toInt (0 : kind.Word) = 0 := by cases kind <;> rfl
  rw [← zero, toInt_inj]

theorem ofInt_one : kind.ofInt 1 = 1 := by
  cases kind <;> rfl

variable (kind)

/-- The word of an integer is the only one that stands for a congruent integer. -/
theorem eq_ofInt_iff {n : Int} {word : kind.Word} :
    word = kind.ofInt n ↔ kind.toInt word ≡ n [ZMOD 2 ^ kind.bits] := by
  constructor
  · rintro rfl
    exact (kind.residue_toInt_ofInt n).congruent
  · intro congruent
    rw [← toInt_inj]
    have here : kind.Residue n (kind.toInt word) :=
      ⟨kind.least_le_toInt word, kind.toInt_le_greatest word, congruent⟩
    exact here.unique (kind.residue_toInt_ofInt n)

/-- An integer leaves exactly one residue in a type. -/
theorem existsUnique_residue (n : Int) : ∃! m, kind.Residue n m :=
  ⟨_, kind.residue_toInt_ofInt n, fun _ other => other.unique (kind.residue_toInt_ofInt n)⟩

/-- An integer of a type is its own residue. -/
theorem toInt_ofInt {n : Int} (lower : kind.least ≤ n) (upper : n ≤ kind.greatest) :
    kind.toInt (kind.ofInt n) = n :=
  (kind.residue_toInt_ofInt n).unique ⟨lower, upper, Int.ModEq.refl n⟩

variable {kind} (a b : kind.Word)

/-! ## Operations as words of exact results -/

theorem add_eq_ofInt : a + b = kind.ofInt (kind.toInt a + kind.toInt b) := by
  rw [ofInt, BitVec.ofInt_add]
  exact congrArg₂ (· + ·) (kind.ofInt_toInt a).symm (kind.ofInt_toInt b).symm

theorem sub_eq_ofInt : a - b = kind.ofInt (kind.toInt a - kind.toInt b) := by
  rw [ofInt, Int.sub_eq_add_neg, BitVec.ofInt_add, BitVec.ofInt_neg, ← BitVec.sub_eq_add_neg]
  exact congrArg₂ (· - ·) (kind.ofInt_toInt a).symm (kind.ofInt_toInt b).symm

theorem mul_eq_ofInt : a * b = kind.ofInt (kind.toInt a * kind.toInt b) := by
  rw [ofInt, BitVec.ofInt_mul]
  exact congrArg₂ (· * ·) (kind.ofInt_toInt a).symm (kind.ofInt_toInt b).symm

theorem quotient_eq_ofInt : kind.quotient a b = kind.ofInt ((kind.toInt a).tdiv (kind.toInt b)) := by
  unfold quotient toInt ofInt
  split
  · apply BitVec.eq_of_toInt_eq
    rw [BitVec.toInt_sdiv, BitVec.toInt_ofInt]
  · rw [← Int.ofNat_tdiv, BitVec.ofInt_natCast]
    exact BitVec.udiv_def

theorem remainder_eq_ofInt :
    kind.remainder a b = kind.ofInt ((kind.toInt a).tmod (kind.toInt b)) := by
  unfold remainder toInt ofInt
  split
  · rw [← BitVec.toInt_srem, BitVec.ofInt_toInt]
  · rw [← Int.ofNat_tmod, BitVec.ofInt_natCast]
    exact BitVec.umod_def

/-- A word is the divisor times the quotient plus the remainder. -/
theorem quotient_mul_add_remainder : kind.quotient a b * b + kind.remainder a b = a := by
  have whole := Int.tdiv_mul_add_tmod (kind.toInt a) (kind.toInt b)
  calc
    kind.quotient a b * b + kind.remainder a b =
        kind.ofInt ((kind.toInt a).tdiv (kind.toInt b)) * kind.ofInt (kind.toInt b) +
          kind.ofInt ((kind.toInt a).tmod (kind.toInt b)) := by
      rw [quotient_eq_ofInt, remainder_eq_ofInt, ofInt_toInt]
    _ = kind.ofInt ((kind.toInt a).tdiv (kind.toInt b) * kind.toInt b +
          (kind.toInt a).tmod (kind.toInt b)) := by
      simp only [ofInt, BitVec.ofInt_add, BitVec.ofInt_mul]
    _ = a := by rw [whole, ofInt_toInt]

/-! ## Shifts -/

variable (kind) in
/-- A count shifts by what it leaves modulo the width, also where it is negative. -/
theorem shiftCount_eq (count : BitVec 32) :
    kind.shiftCount count = (count.toInt % kind.bits).toNat := by
  have signed := BitVec.toInt_eq_toNat_cond count
  unfold shiftCount
  cases kind <;> simp only [bits] <;> omega

/-- A power of two as a word. -/
theorem ofInt_two_pow (places : Nat) : kind.ofInt (2 ^ places) = BitVec.twoPow kind.bits places := by
  have cast : (2 : Int) ^ places = (2 ^ places : Nat) := by push_cast; rfl
  rw [ofInt, cast, BitVec.ofInt_natCast]
  apply BitVec.eq_of_toNat_eq
  rw [BitVec.toNat_ofNat, BitVec.toNat_twoPow]

theorem shiftLeft_eq_ofInt (count : BitVec 32) :
    kind.shiftLeft a count = kind.ofInt (kind.toInt a * 2 ^ (count.toInt % kind.bits).toNat) := by
  rw [← shiftCount_eq]
  calc
    kind.shiftLeft a count = a * kind.ofInt (2 ^ kind.shiftCount count) := by
      rw [shiftLeft, BitVec.shiftLeft_eq_mul_twoPow, ofInt_two_pow]
    _ = kind.ofInt (kind.toInt a) * kind.ofInt (2 ^ kind.shiftCount count) := by rw [ofInt_toInt]
    _ = kind.ofInt (kind.toInt a * 2 ^ kind.shiftCount count) := (BitVec.ofInt_mul _ _).symm

theorem toInt_shiftRight (count : BitVec 32) :
    kind.toInt (kind.shiftRight a count) =
      (kind.toInt a).fdiv (2 ^ (count.toInt % kind.bits).toNat) := by
  rw [← shiftCount_eq, Int.fdiv_eq_ediv_of_nonneg _ (by positivity)]
  unfold shiftRight toInt
  split
  · rw [BitVec.toInt_sshiftRight, Int.shiftRight_eq_div_pow]
    push_cast
    rfl
  · rw [BitVec.toNat_ushiftRight, Nat.shiftRight_eq_div_pow]
    push_cast
    rfl

end IntKind

end ExprLang
