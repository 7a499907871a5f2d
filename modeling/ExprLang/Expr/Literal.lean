import ExprLang.Datum
import ExprLang.Decimal.Numeral
import ExprLang.Fault

/-!
# Literals

The atoms that stand for constants. An atom is a keyword, a quoted string, an integer numeral
(`[-+]?[0-9]+` with an optional suffix `u`, `l` or `ul`) or a real numeral
(`[-+]?([0-9]*\.)?[0-9]+` with an optional exponent and an optional suffix `f` or `m`). The integer
grammar comes first. All other atoms are names.
-/

namespace ExprLang

namespace Literal

/-- Takes a sign off the front of a text; the flag says whether it is a minus. -/
def splitSign : List Char → Bool × List Char
  | '-' :: rest => (true, rest)
  | '+' :: rest => (false, rest)
  | text => (false, text)

def dropEnding? (ending text : List Char) : Option (List Char) :=
  if ending.isSuffixOf text then some (text.take (text.length - ending.length)) else none

/-- The integer type that the suffix of a numeral selects, and the text before the suffix. -/
def integerSuffix (text : List Char) : IntKind × List Char :=
  match dropEnding? ['u', 'l'] text, dropEnding? ['u'] text, dropEnding? ['l'] text with
  | some digits, _, _ => (.ulong, digits)
  | none, some digits, _ => (.uint, digits)
  | none, none, some digits => (.long, digits)
  | none, none, none => (.int, text)

/-- The integer numeral that a text writes: its type and its value, in range or not. -/
def integerNumeral? (text : List Char) : Option (IntKind × Int) :=
  let (negative, unsigned) := splitSign text
  let (kind, digits) := integerSuffix unsigned
  if isDigits digits then
    let magnitude : Int := digitsValue digits
    some (kind, if negative then -magnitude else magnitude)
  else none

/-- The parts of a real numeral: its sign, the digits before and behind the point and the
exponent, if one is written. -/
structure RealNumeral where
  negative : Bool
  whole : List Char
  places : List Char
  exponent : Option Int
  deriving DecidableEq, Repr

def isExponentMark (c : Char) : Bool :=
  c == 'e' || c == 'E'

/-- The exponent that a text behind an exponent mark writes. -/
def exponent? (text : List Char) : Option Int :=
  let (negative, digits) := splitSign text
  if isDigits digits then
    let magnitude : Int := digitsValue digits
    some (if negative then -magnitude else magnitude)
  else none

/-- The digits before and behind the point of a mantissa. A point has a digit behind it. -/
def mantissa? (text : List Char) : Option (List Char × List Char) :=
  let whole := text.takeWhile (· != '.')
  match text.dropWhile (· != '.') with
  | [] => if isDigits whole then some (whole, []) else none
  | _ :: places =>
    if whole.all isDigit && isDigits places then some (whole, places) else none

/-- The real numeral that a text without suffix writes. -/
def realNumeral? (text : List Char) : Option RealNumeral :=
  let (negative, unsigned) := splitSign text
  let written := unsigned.takeWhile fun c => !isExponentMark c
  match mantissa? written, unsigned.dropWhile fun c => !isExponentMark c with
  | none, _ => none
  | some (whole, places), [] => some ⟨negative, whole, places, none⟩
  | some (whole, places), _ :: power =>
    (exponent? power).map fun exponent => ⟨negative, whole, places, some exponent⟩

namespace RealNumeral

def toBinary {format : Format} (numeral : RealNumeral) : Binary format :=
  .ofDecimal numeral.negative (digitsValue (numeral.whole ++ numeral.places))
    (numeral.exponent.getD 0 - numeral.places.length)

def toDecimal? (numeral : RealNumeral) : Option Decimal := do
  let digits ← Decimal.ofDigits? numeral.whole numeral.places
  let magnitude ← match numeral.exponent with
    | none => some digits
    | some exponent => digits.scaleBy? exponent
  return if numeral.negative then magnitude.neg else magnitude

end RealNumeral

/-- The type that the suffix of a real numeral selects, and the text before the suffix. -/
def realSuffix (text : List Char) : Ty × List Char :=
  match dropEnding? ['f'] text, dropEnding? ['m'] text with
  | some body, _ => (.float, body)
  | none, some body => (.decimal, body)
  | none, none => (.double, text)

def realDatum? (numeral : RealNumeral) : Ty → Option Datum
  | .float => some (.float numeral.toBinary)
  | .decimal => numeral.toDecimal?.map .decimal
  | _ => some (.double numeral.toBinary)

/-- The number that an atom writes: none if it is no numeral, and a fault if it is one without a
value. -/
def number? (text : String) : Except Fault (Option Datum) :=
  let chars := text.toList
  match integerNumeral? chars with
  | some (kind, value) =>
    match kind.ofInt? value with
    | some word => .ok (some (.integer kind word))
    | none => .error (.integerOutOfRange text (.integer kind))
  | none =>
    let (ty, body) := realSuffix chars
    match realNumeral? body with
    | none => .ok none
    | some numeral =>
      match realDatum? numeral ty with
      | some datum => .ok (some datum)
      | none => .error (.invalidLiteral text ty)

def string? : List Char → Option String
  | '"' :: body => some (String.ofList ((dropEnding? ['"'] body).getD body))
  | _ => none

/-- The constant that an atom writes, with its type: none if the atom is a name. -/
def constant? (text : String) : Except Fault (Option (Datum × Ty)) :=
  match text with
  | "null" => .ok (some (.null, .object))
  | "true" => .ok (some (.bool true, .bool))
  | "false" => .ok (some (.bool false, .bool))
  | _ =>
    match string? text.toList with
    | some body => .ok (some (.string body, .string))
    | none => do
      let number ← number? text
      return number.map fun datum => (datum, datum.ty?.getD .object)

end Literal

namespace Binary

/-- The binary number that a text writes: a numeral, an infinity or a NaN. -/
def ofText? {format : Format} (text : String) : Option (Binary format) :=
  match text with
  | "NaN" => some (nan false)
  | "inf" => some (infinity false)
  | "-inf" => some (infinity true)
  | _ => (Literal.realNumeral? text.toList).map (·.toBinary)

end Binary

namespace Decimal

/-- The decimal that a text writes. A zero is positive, also behind a minus. -/
def ofText? (text : String) : Option Decimal :=
  ((Literal.realNumeral? text.toList).bind (·.toDecimal?)).map unsignZero

end Decimal

end ExprLang
