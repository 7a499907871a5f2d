import ExprLang.Decimal.Basic

/-!
# Decimals from written digits

A numeral is read digit by digit. Places that do not fit are dropped, with a half rounded up by the
first digit that is dropped; a whole part that does not fit is refused. A power of ten behind the
digits moves the point and is refused where the point leaves the range of scales.
-/

namespace ExprLang.Decimal

attribute [local instance (high)] instPowNat

def readWhole : Nat → List Char → Option Nat
  | coefficient, [] => some coefficient
  | coefficient, c :: rest =>
    let next := 10 * coefficient + digitValue c
    if next < coefficientBound then readWhole next rest else none

/-- Rounds by the first digit that is dropped. -/
def roundBy (dropped : Char) (coefficient scale : Nat) : Option (Nat × Nat) :=
  if digitValue dropped < 5 then some (coefficient, scale)
  else if coefficient + 1 < coefficientBound then some (coefficient + 1, scale)
  else if scale = 0 then none
  else some ((coefficient + 5) / 10, scale - 1)

def readPlaces : Nat → Nat → List Char → Option (Nat × Nat)
  | coefficient, scale, [] => some (coefficient, scale)
  | coefficient, scale, c :: rest =>
    let next := 10 * coefficient + digitValue c
    if maxScale ≤ scale then roundBy c coefficient scale
    else if next < coefficientBound then readPlaces next (scale + 1) rest
    else roundBy c coefficient scale

/-- The positive decimal written by digits before and behind the point. -/
def ofDigits? (whole places : List Char) : Option Decimal := do
  let coefficient ← readWhole 0 whole
  let (coefficient, scale) ← readPlaces coefficient 0 places
  ofParts? false coefficient scale

/-- The decimal multiplied by a power of ten, by moving the point. -/
def scaleBy? (d : Decimal) (exponent : Int) : Option Decimal :=
  if exponent.natAbs > maxScale then none
  else if exponent ≤ d.scale then ofParts? d.negative d.coefficient (d.scale - exponent).toNat
  else ofParts? d.negative (d.coefficient * 10 ^ (exponent - d.scale).toNat) 0

end ExprLang.Decimal
