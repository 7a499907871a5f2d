import ExprLang.Binary.Basic
import ExprLang.Number.Positional

/-!
# Text of binary numbers

A finite number is written with the fewest decimal digits that read back as the same number, and
of those with the digits nearest to it; a tie between two goes up. The notation is positional:
never an exponent, and no point in a whole number.
-/

namespace ExprLang

attribute [local instance (high)] instPowNat

namespace Binary

variable {format : Format}

/-- The reals that read back as a finite number: two ends and whether they belong to it, in
quarters of a unit. -/
structure Basin where
  centre : Nat
  low : Nat
  high : Nat
  closed : Bool

/-- The basin of a finite number. Below a power of two the spacing halves. -/
def basin (x : Binary format) : Basin where
  centre := 4 * x.units
  low := 4 * x.units - (if x.fraction = 0 && x.exponentField > 1 then x.spacing else 2 * x.spacing)
  high := 4 * x.units + 2 * x.spacing
  closed := x.code.val % 2 == 0

def Basin.holds (basin : Basin) (numerator denominator : Nat) : Bool :=
  let low := basin.low * denominator
  let high := basin.high * denominator
  if basin.closed then low ≤ numerator && numerator ≤ high
  else low < numerator && numerator < high

/-- The multiples of a power of ten that enclose the centre of a basin: if one lies in the basin,
the nearer of those that do. -/
def Basin.multiple? (basin : Basin) (quarters : Nat) (exponent : Int) : Option Nat :=
  let step := quarters * 10 ^ exponent.toNat
  let denominator := 10 ^ (-exponent).toNat
  let centre := basin.centre * denominator
  let below := centre / step
  let lower := basin.holds (below * step) denominator
  let upper := basin.holds ((below + 1) * step) denominator
  if upper && (!lower || 2 * (centre % step) ≥ step) then some (below + 1)
  else if lower then some below
  else none

/-- The coarsest power of ten with a multiple in the basin, searched for from the given exponent
down, and that multiple. -/
def Basin.shortest (basin : Basin) (quarters : Nat) : Nat → Int → Nat × Int
  | 0, exponent => (basin.centre, exponent)
  | steps + 1, exponent =>
    match basin.multiple? quarters exponent with
    | some digits => (digits, exponent)
    | none => basin.shortest quarters steps (exponent - 1)

/-- The fewest digits that read back as a finite positive number, with their power of ten. The
search starts at a power of ten that is not below the number. -/
def shortest (x : Binary format) : Nat × Int :=
  let magnitude : Int := x.units.log2 + 1 - format.unitBits
  let start := magnitude * 30103 / 100000 + 1
  x.basin.shortest (4 * format.one) format.fractionBits start

def text (x : Binary format) : String :=
  if x.isNan then "NaN"
  else
    let sign := if x.negative then "-" else ""
    if x.isInfinite then sign ++ "inf"
    else if x.isZero then sign ++ "0"
    else
      let (digits, exponent) := x.shortest
      sign ++ positional digits exponent

end Binary

end ExprLang
