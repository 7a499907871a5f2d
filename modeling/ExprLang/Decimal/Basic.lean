import ExprLang.Number.Positional
import ExprLang.Number.Rounding

/-!
# Decimal numbers

Fixed-point decimals: a sign, a coefficient of ninety-six bits and a scale of at most twenty-eight
places. The scale is part of the text of a number but not of its value: `1.50` and `1.5` are equal,
and so are the two zeros.
-/

namespace ExprLang

-- Powers of numbers are those of the core library, also where monoids are known.
attribute [local instance (high)] instPowNat

/-- A decimal number: the coefficient divided by ten to the power of the scale, with a sign. -/
structure Decimal where
  negative : Bool
  coefficient : Nat
  scale : Nat
  coefficient_lt : coefficient < 2 ^ (96 : Nat) := by decide
  scale_le : scale ≤ 28 := by decide
  deriving DecidableEq, Repr

namespace Decimal

def coefficientBound : Nat := 2 ^ (96 : Nat)

def maxScale : Nat := 28

def ofParts? (negative : Bool) (coefficient scale : Nat) : Option Decimal :=
  if fits : coefficient < 2 ^ (96 : Nat) ∧ scale ≤ 28 then
    some ⟨negative, coefficient, scale, fits.1, fits.2⟩
  else none

def zero : Decimal :=
  ⟨false, 0, 0, by decide, by decide⟩

instance : Inhabited Decimal := ⟨zero⟩

def one : Decimal :=
  ⟨false, 1, 0, by decide, by decide⟩

def isZero (d : Decimal) : Bool :=
  d.coefficient == 0

/-- The decimal with the sign of a zero taken off. -/
def unsignZero (d : Decimal) : Decimal :=
  { d with negative := d.negative && !d.isZero }

def signed (d : Decimal) : Int :=
  if d.negative then -(d.coefficient : Int) else d.coefficient

def neg (d : Decimal) : Decimal :=
  { d with negative := !d.negative }

def ofInt? (n : Int) : Option Decimal :=
  ofParts? (n < 0) n.natAbs 0

def toInt (d : Decimal) : Int :=
  d.signed.tdiv (10 ^ d.scale)

def compare (a b : Decimal) : Ordering :=
  Ord.compare (a.signed * 10 ^ b.scale) (b.signed * 10 ^ a.scale)

def equal (a b : Decimal) : Bool :=
  a.signed * 10 ^ b.scale == b.signed * 10 ^ a.scale

def text (d : Decimal) : String :=
  (if d.negative then "-" else "") ++ positional d.coefficient (-(d.scale : Int))

theorem equal_refl (d : Decimal) : d.equal d = true := by
  simp [equal]

theorem equal_symm (a b : Decimal) : a.equal b = b.equal a := by
  simp only [equal]
  exact Bool.beq_comm

end Decimal

end ExprLang
