/-!
# Positional numerals

Decimal digits as text: digits at a power of ten written without an exponent, and the number that a
run of digits writes.
-/

namespace ExprLang

/-- Digits at a power of ten, written positionally. A whole part is always written; a point only
where the power is negative, with as many places behind it. -/
def positional (digits : Nat) (exponent : Int) : String :=
  if 0 ≤ exponent then toString digits ++ "".pushn '0' exponent.toNat
  else
    let places := (-exponent).toNat
    let text := (toString digits).toList
    let padded := List.replicate (places + 1 - text.length) '0' ++ text
    let whole := padded.length - places
    String.ofList (padded.take whole ++ '.' :: padded.drop whole)

def isDigit (c : Char) : Bool :=
  '0' ≤ c && c ≤ '9'

def digitValue (c : Char) : Nat :=
  c.toNat - '0'.toNat

/-- The number that a run of decimal digits writes. -/
def digitsValue (digits : List Char) : Nat :=
  digits.foldl (fun value c => 10 * value + digitValue c) 0

def isDigits (text : List Char) : Bool :=
  !text.isEmpty && text.all isDigit

end ExprLang
