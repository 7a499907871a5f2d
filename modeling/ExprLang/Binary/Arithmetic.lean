import ExprLang.Binary.Basic

/-!
# Arithmetic on binary numbers

Each operation is the exact result, rounded once. Of NaN operands the first one is the result; an
operation without a meaningful result gives the NaN `invalid`.
-/

namespace ExprLang.Binary

variable {format : Format}

/-- A result for operands that are no NaNs, and the first NaN operand otherwise. -/
def unlessNan (x y : Binary format) (result : Binary format) : Binary format :=
  if x.isNan then x else if y.isNan then y else result

/-- The sum. The sum of opposite numbers is a positive zero; that of two zeros of one sign keeps
the sign. -/
def add (x y : Binary format) : Binary format :=
  unlessNan x y <|
    if x.isInfinite then
      if y.isInfinite && x.negative != y.negative then invalid else x
    else if y.isInfinite then y
    else ofSignedUnits (x.negative && y.negative) (x.signedUnits + y.signedUnits)

def neg (x : Binary format) : Binary format :=
  ⟨!x.negative, x.code⟩

def sub (x y : Binary format) : Binary format :=
  unlessNan x y (x.add y.neg)

def mul (x y : Binary format) : Binary format :=
  let negative := x.negative != y.negative
  unlessNan x y <|
    if x.isInfinite || y.isInfinite then
      if x.isZero || y.isZero then invalid else infinity negative
    else ofUnits negative (x.units * y.units) format.one

def div (x y : Binary format) : Binary format :=
  let negative := x.negative != y.negative
  unlessNan x y <|
    if x.isInfinite then
      if y.isInfinite then invalid else infinity negative
    else if y.isInfinite then zero negative
    else if y.isZero then
      if x.isZero then invalid else infinity negative
    else ofUnits negative (x.units * format.one) y.units

/-- The remainder of the quotient truncated toward zero. It is exact and has the sign of the
dividend. -/
def rem (x y : Binary format) : Binary format :=
  unlessNan x y <|
    if x.isInfinite || y.isZero then invalid
    else if y.isInfinite then x
    else ofUnits x.negative (x.units % y.units) 1

/-- The place of a number that is no NaN in the order of numbers, as a signed code. -/
def rank (x : Binary format) : Int :=
  if x.negative then -(x.code.val : Int) else x.code

/-- The order of two numbers; a NaN has none, and the two zeros are equal. -/
def compare? (x y : Binary format) : Option Ordering :=
  if x.isNan || y.isNan then none else some (compare x.rank y.rank)

def equal (x y : Binary format) : Bool :=
  x.compare? y == some .eq

end ExprLang.Binary
