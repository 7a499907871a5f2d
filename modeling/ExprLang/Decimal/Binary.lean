import ExprLang.Binary.Arithmetic
import ExprLang.Decimal.Arithmetic

/-!
# Decimals and binary numbers

A whole double becomes a decimal as it is. Any other becomes one by turning its power of two into
powers of five and ten within ninety-six bits, and then dropping the digits that a double does not
hold. A decimal becomes a double as the sum of its whole part and its fraction, rounded again to the
places of its scale.
-/

namespace ExprLang

attribute [local instance (high)] instPowNat

namespace Decimal

/-- A magnitude in the making: digits and a power of ten. -/
structure Scaled where
  digits : Nat
  exponent : Int

namespace Scaled

/-- Divides by two as often as asked: by halving even digits, and otherwise by multiplying with
five, unless that does not fit; then the digits are halved and the rest is lost. The power of ten
starts below by as many steps, so each halving takes one of them back. -/
def halve : Nat → Scaled → Scaled
  | 0, x => x
  | steps + 1, x =>
    if x.digits % 2 = 0 then halve steps ⟨x.digits / 2, x.exponent + 1⟩
    else if 5 * x.digits < coefficientBound then halve steps ⟨5 * x.digits, x.exponent⟩
    else halve steps ⟨x.digits / 2, x.exponent + 1⟩

/-- Drops places until the scale fits; a half goes up. Digits that vanish leave zero. -/
def lower : Nat → Scaled → Scaled
  | 0, x => x
  | steps + 1, x =>
    if x.exponent < -28 then
      if x.digits / 10 = 0 then ⟨0, 0⟩
      else lower steps ⟨roundHalfUp x.digits 10, x.exponent + 1⟩
    else x

/-- Drops places while the digits do not fit into fifty-two bits; a half goes up. -/
def shorten : Nat → Scaled → Scaled
  | 0, x => x
  | steps + 1, x =>
    if x.exponent < 0 && x.digits ≥ 2 ^ (52 : Nat) then
      shorten steps ⟨roundHalfUp x.digits 10, x.exponent + 1⟩
    else x

end Scaled

def trimZeros : Nat → Nat → Nat → Nat × Nat
  | 0, coefficient, scale => (coefficient, scale)
  | steps + 1, coefficient, scale =>
    if 0 < scale && coefficient % 10 == 0 then trimZeros steps (coefficient / 10) (scale - 1)
    else (coefficient, scale)

/-- The decimal of a double. Fails for a number that is not finite or is too great; one that is too
small becomes a zero and keeps its sign. -/
def ofDouble? (x : Binary Format.double) : Option Decimal :=
  if x.isNan || x.isInfinite then none
  else
    let significand := x.units / x.spacing
    let power : Int := (x.exponentField - 1 : Nat) - (Format.double.unitBits : Int)
    if 0 ≤ power then ofParts? x.negative (significand * 2 ^ power.toNat) 0
    else
      let whole : Scaled := Scaled.halve (-power).toNat ⟨significand, power⟩
      let short := Scaled.shorten 64 (Scaled.lower (-whole.exponent).toNat whole)
      let scale := (-short.exponent).toNat
      let (coefficient, scale) := trimZeros scale short.digits scale
      ofParts? x.negative coefficient scale

end Decimal

namespace Binary

/-- The nearest whole number; a half goes away from zero. -/
def round (x : Binary Format.double) : Binary Format.double :=
  if x.isNan || x.isInfinite then x
  else
    let whole := roundHalfUp x.units Format.double.one
    ofUnits x.negative (whole * Format.double.one) 1

/-- A power with a natural exponent, by squaring: each bit of the exponent from the lowest costs
one rounded product. -/
def powerFrom : Nat → Binary Format.double → Binary Format.double → Nat → Binary Format.double
  | 0, result, _, _ => result
  | steps + 1, result, base, exponent =>
    let result := if exponent % 2 = 1 then result.mul base else result
    if exponent / 2 = 0 then result
    else powerFrom steps result (base.mul base) (exponent / 2)

/-- The power of a double with a natural exponent. -/
def power (base : Binary Format.double) (exponent : Nat) : Binary Format.double :=
  powerFrom (exponent.log2 + 1) (ofInt 1) base exponent

end Binary

namespace Decimal

def toDouble (d : Decimal) : Binary Format.double :=
  if d.scale = 0 then Binary.ofInt d.signed
  else
    let precision := 10 ^ d.scale
    let whole : Binary Format.double := Binary.ofInt (d.coefficient / precision)
    let fraction := (Binary.ofInt (d.coefficient % precision)).div (Binary.ofInt precision)
    let magnitude :=
      if fraction.isZero then whole
      else
        let places := (Binary.ofInt 10).power d.scale
        (((whole.add fraction).mul places).round).div places
    if d.negative then magnitude.neg else magnitude

end Decimal

end ExprLang
