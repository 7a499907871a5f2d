import ExprLang.Decimal.Basic

/-!
# Arithmetic on decimals

Sums, products and quotients are formed exactly and then fitted into ninety-six bits and
twenty-eight places by dropping places, with ties to the even neighbour. An operation fails when
its result does not fit without places. A zero result is positive, but for products of wide
coefficients that vanish in rounding: those keep their sign.
-/

namespace ExprLang.Decimal

attribute [local instance (high)] instPowNat

/-- The least number of further places to drop until a coefficient fits, up to a bound. -/
def excess (coefficient : Nat) : Nat → Nat → Nat
  | 0, dropped => dropped
  | steps + 1, dropped =>
    if coefficient / 10 ^ dropped < coefficientBound then dropped
    else excess coefficient steps (dropped + 1)

/-- The decimal nearest to a coefficient at a scale, with as many places as fit. -/
def fit (negative : Bool) (coefficient scale : Nat) : Option Decimal :=
  let dropped := excess coefficient (scale + 1) (scale - maxScale)
  if dropped > scale then none
  else
    let rounded := roundHalfEven coefficient (10 ^ dropped)
    if rounded < coefficientBound then ofParts? negative rounded (scale - dropped)
    else if dropped = scale then none
    else ofParts? negative (roundHalfEven rounded 10) (scale - dropped - 1)

def signedAt (d : Decimal) (scale : Nat) : Int :=
  d.signed * 10 ^ (scale - d.scale)

/-- The sum. A zero operand gives the other operand, scale and sign included. -/
def add (a b : Decimal) : Option Decimal :=
  if a.isZero then some b
  else if b.isZero then some a
  else
    let scale := max a.scale b.scale
    let sum := a.signedAt scale + b.signedAt scale
    fit (sum < 0) sum.natAbs scale

/-- The difference. Subtracting a zero gives the first operand, scale and sign included. -/
def sub (a b : Decimal) : Option Decimal :=
  if a.isZero then some (if b.isZero then b else b.neg)
  else add a b.neg

def maxNarrowScale : Nat := 47

/-- The product. A product of two coefficients below `2 ^ 32` is zero without places if it has too
many places, and has no sign if it is rounded to zero. All other products keep their sign. -/
def mul (a b : Decimal) : Option Decimal :=
  let scale := a.scale + b.scale
  let product := fit (a.negative != b.negative) (a.coefficient * b.coefficient) scale
  if a.isZero || b.isZero then some zero
  else if a.coefficient < 2 ^ (32 : Nat) && b.coefficient < 2 ^ (32 : Nat) then
    if scale > maxNarrowScale then some zero else product.map unsignZero
  else product

/-- A quotient in the making: the digits found, what is left to divide and the scale, which may
still be negative. -/
structure Quotient where
  digits : Nat
  remainder : Nat
  scale : Int

namespace Quotient

/-- The greatest power of ten, up to a bound, that digits can be multiplied by and still fit. -/
def room (digits : Nat) : Nat → Nat
  | 0 => 0
  | power + 1 =>
    if digits * 10 ^ (power + 1) < coefficientBound then power + 1 else room digits power

/-- Rounds digits to a whole number of tens; `sticky` says that something more was left. -/
def dropDigit (digits : Nat) (sticky : Bool) : Nat :=
  let quotient := digits / 10
  let last := digits % 10
  if last > 5 || (last == 5 && (sticky || quotient % 2 == 1)) then quotient + 1 else quotient

/-- Finishes a quotient whose digits may have grown past what fits by one place. -/
def settle (digits : Nat) (scale : Int) (sticky : Bool) : Option (Nat × Int) :=
  if digits < coefficientBound then some (digits, scale)
  else if scale ≤ 0 then none
  else some (dropDigit digits sticky, scale - 1)

/-- Rounds a quotient that can take no more digits. -/
def round (q : Quotient) (divisor : Nat) : Option (Nat × Int) :=
  let twice := 2 * q.remainder
  if twice > divisor || (twice == divisor && q.digits % 2 == 1) then
    settle (q.digits + 1) q.scale true
  else some (q.digits, q.scale)

/-- Divides on, up to nine digits at a time, until nothing is left and the scale is not negative,
or until no more digits fit. -/
def develop (divisor : Nat) : Nat → Quotient → Option (Nat × Int)
  | 0, q => some (q.digits, q.scale)
  | steps + 1, q =>
    let extend (power : Nat) : Option (Nat × Int) :=
      let scaled := q.remainder * 10 ^ power
      let digits := q.digits * 10 ^ power + scaled / divisor
      let remainder := scaled % divisor
      let scale := q.scale + power
      if digits < coefficientBound then develop divisor steps ⟨digits, remainder, scale⟩
      else settle digits scale (remainder != 0)
    if q.remainder = 0 then
      if 0 ≤ q.scale then some (q.digits, q.scale)
      else
        let power := min 9 (-q.scale).toNat
        if q.digits * 10 ^ power < coefficientBound then extend power else none
    else if q.scale = maxScale then q.round divisor
    else
      let power := room q.digits (min 9 ((maxScale : Int) - q.scale).toNat)
      if power < 9 && q.scale + power < 0 then none
      else if power = 0 then q.round divisor
      else extend power

end Quotient

def dropPlaces? (places : Nat) (parts : Nat × Nat) : Option (Nat × Nat) :=
  if places ≤ parts.2 ∧ parts.1 % 10 ^ places = 0 then
    some (parts.1 / 10 ^ places, parts.2 - places)
  else none

/-- Dropping zero places loses nothing. -/
theorem dropPlaces?_exact {places : Nat} {parts dropped : Nat × Nat}
    (done : dropPlaces? places parts = some dropped) :
    dropped.1 * 10 ^ places = parts.1 ∧ dropped.2 + places = parts.2 := by
  unfold dropPlaces? at done
  split at done
  next fits =>
    obtain rfl := Option.some.inj done
    exact ⟨Nat.div_mul_cancel (Nat.dvd_of_mod_eq_zero fits.2), Nat.sub_add_cancel fits.1⟩
  next => cases done

/-- Drops eight zero places at a time, up to a bound, but only off coefficients that are divisible
by `2 ^ 32`. -/
def dropEights : Nat → Nat × Nat → Nat × Nat
  | 0, parts => parts
  | steps + 1, parts =>
    if parts.1 % 2 ^ (32 : Nat) = 0 then
      match dropPlaces? 8 parts with
      | some parts => dropEights steps parts
      | none => parts
    else parts

/-- Drops zero places off a coefficient with its scale, in steps of four, two and one behind those
of eight. So up to seven go, and one more than that only where eight go at once. -/
def dropZeros (parts : Nat × Nat) : Nat × Nat :=
  [4, 2, 1].foldl (fun parts places => (dropPlaces? places parts).getD parts)
    (dropEights parts.2 parts)

/-- The quotient by a divisor that is not zero. Zero places are dropped from a quotient that did
not come out even at once. -/
def div (a b : Decimal) : Option Decimal :=
  if a.isZero then some zero
  else
    let start : Quotient :=
      ⟨a.coefficient / b.coefficient, a.coefficient % b.coefficient, (a.scale : Int) - b.scale⟩
    match Quotient.develop b.coefficient 64 start with
    | none => none
    | some (digits, scale) =>
      let (coefficient, scale) :=
        if start.remainder = 0 then (digits, scale.toNat)
        else dropZeros (digits, scale.toNat)
      (ofParts? (a.negative != b.negative) coefficient scale).map unsignZero

/-- The remainder of the quotient truncated toward zero, by a divisor that is not zero. It has the
sign of the dividend. A dividend of smaller magnitude is its own remainder. -/
def rem (a b : Decimal) : Option Decimal :=
  let scale := max a.scale b.scale
  let dividend := (a.signedAt scale).natAbs
  let divisor := (b.signedAt scale).natAbs
  if dividend = 0 || dividend = divisor then some zero
  else if dividend < divisor then some a
  else (ofParts? a.negative (dividend % divisor) scale).map unsignZero

end ExprLang.Decimal
