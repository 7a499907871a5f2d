import ExprLang.Number.Rounding

/-!
# Binary floating point

Numbers of the binary interchange formats, single and double precision. A number is a sign and a
code; codes count up from zero through the finite magnitudes to infinity and then the NaNs. Every
finite magnitude is a whole number of units, the unit being the least positive number, so exact
results are quotients of natural numbers and `Binary.ofUnits` is the only place that rounds.
-/

namespace ExprLang

-- Powers of numbers are those of the core library, also where monoids are known.
attribute [local instance (high)] instPowNat

/-- A binary format, by the widths of its two fields. -/
structure Format where
  fractionBits : Nat
  exponentBits : Nat
  deriving DecidableEq, Repr

namespace Format

abbrev single : Format := ⟨23, 8⟩

abbrev double : Format := ⟨52, 11⟩

/-- How many magnitudes the format can write. -/
def codes (format : Format) : Nat :=
  2 ^ (format.exponentBits + format.fractionBits)

/-- The code of infinity; greater codes are NaNs. -/
def infinityCode (format : Format) : Nat :=
  (2 ^ format.exponentBits - 1) * 2 ^ format.fractionBits

/-- One is two to this power in units. -/
def unitBits (format : Format) : Nat :=
  2 ^ (format.exponentBits - 1) - 2 + format.fractionBits

def one (format : Format) : Nat :=
  2 ^ format.unitBits

theorem codes_pos (format : Format) : 0 < format.codes :=
  Nat.two_pow_pos _

end Format

/-- A number of a binary format: a sign and the code of its magnitude. Equality of these is
equality of bit patterns. -/
structure Binary (format : Format) where
  negative : Bool
  code : Fin format.codes
  deriving DecidableEq, Repr

namespace Binary

variable {format : Format}

/-- The number with the given sign and magnitude code. -/
def ofCode (negative : Bool) (code : Nat) : Binary format :=
  ⟨negative, ⟨code % format.codes, Nat.mod_lt _ format.codes_pos⟩⟩

def zero (negative : Bool) : Binary format :=
  ofCode negative 0

def infinity (negative : Bool) : Binary format :=
  ofCode negative format.infinityCode

/-- The quiet NaN without payload, with a sign. -/
def nan (negative : Bool) : Binary format :=
  ofCode negative (format.infinityCode + 2 ^ (format.fractionBits - 1))

/-- The NaN that an operation without a meaningful result gives. -/
def invalid : Binary format :=
  nan true

def isNan (x : Binary format) : Bool :=
  x.code > format.infinityCode

def isInfinite (x : Binary format) : Bool :=
  x.code == format.infinityCode

def isZero (x : Binary format) : Bool :=
  x.code.val == 0

/-- The field of a code that holds the exponent. -/
def exponentField (x : Binary format) : Nat :=
  x.code / 2 ^ format.fractionBits

def fraction (x : Binary format) : Nat :=
  x.code % 2 ^ format.fractionBits

/-- The distance in units between a finite magnitude and the next greater one. -/
def spacing (x : Binary format) : Nat :=
  2 ^ (x.exponentField - 1)

/-- A finite magnitude in units. -/
def units (x : Binary format) : Nat :=
  if x.exponentField = 0 then x.fraction
  else (2 ^ format.fractionBits + x.fraction) * x.spacing

def signedUnits (x : Binary format) : Int :=
  if x.negative then -(x.units : Int) else x.units

/-- The number with a given sign that is nearest to a quotient of units; a tie goes to the even
code, and what is past the greatest finite magnitude goes to infinity. -/
def ofUnits (negative : Bool) (numerator denominator : Nat) : Binary format :=
  let shift := (numerator / denominator).log2 - format.fractionBits
  let significand := roundHalfEven numerator (denominator * 2 ^ shift)
  ofCode negative (min (shift * 2 ^ format.fractionBits + significand) format.infinityCode)

/-- The nearest number to a signed quotient of units; a zero result takes the given sign. -/
def ofSignedUnits (zeroNegative : Bool) (numerator : Int) : Binary format :=
  if numerator = 0 then zero zeroNegative else ofUnits (numerator < 0) numerator.natAbs 1

def ofInt (n : Int) : Binary format :=
  ofSignedUnits false (n * format.one)

/-- The nearest number to a whole number of powers of ten. Exponents far outside of the format's
range are settled without forming the power. -/
def ofDecimal (negative : Bool) (digits : Nat) (exponent : Int) : Binary format :=
  if digits = 0 then zero negative
  else if exponent > 2 ^ format.exponentBits then infinity negative
  else if exponent < -((2 : Int) ^ format.exponentBits + digits.log2) then zero negative
  else if 0 ≤ exponent then ofUnits negative (digits * 10 ^ exponent.toNat * format.one) 1
  else ofUnits negative (digits * format.one) (10 ^ (-exponent).toNat)

/-- The fraction of a NaN without its first bit, which tells whether it is quiet. -/
def payload (x : Binary format) : Nat :=
  x.fraction % 2 ^ (format.fractionBits - 1)

/-- The quiet NaN of another format with the sign of a NaN and as much of its payload as fits. -/
def quieted {target : Format} (x : Binary format) : Binary target :=
  let payload := x.payload * 2 ^ target.fractionBits / 2 ^ format.fractionBits
  ofCode x.negative (target.infinityCode + (2 ^ (target.fractionBits - 1) + payload))

/-- The nearest number of another format. A NaN becomes a quiet one. -/
def convert {target : Format} (x : Binary format) : Binary target :=
  if x.isNan then x.quieted
  else if x.isInfinite then infinity x.negative
  else ofUnits x.negative (x.units * target.one) format.one

/-- The integer part of a number within a range of integers: what lies outside of the range goes
to its nearer end, and a NaN to zero. -/
def toIntWithin (x : Binary format) (least greatest : Int) : Int :=
  if x.isNan then 0
  else if x.isInfinite then if x.negative then least else greatest
  else
    let whole : Int := x.units / format.one
    max least (min greatest (if x.negative then -whole else whole))

end Binary

end ExprLang
