import ExprLang.Decimal.Binary
import ExprLang.Fault
import ExprLang.Value.Text

/-!
# Numeric conversions

Casts between numeric types. From integers, characters and binary numbers they never fail for want
of room: integers wrap, and binary numbers are truncated toward zero and clamped to 128 bits first.
From decimals they are checked. A cast to `char` takes the number modulo 65536, which has to be a
character and not half of a surrogate pair.
-/

namespace ExprLang.Convert

attribute [local instance (high)] instPowNat

/-- A number by the family it is converted from. -/
inductive Number where
  | integer (n : Int)
  | real (x : Binary Format.double)
  | decimal (d : Decimal)

def number? : Datum → Option Number
  | .byte n => some (.integer n.toNat)
  | .char c => some (.integer c.toNat)
  | .integer kind word => some (.integer (kind.toInt word))
  | .float x => some (.real x.convert)
  | .double x => some (.real x)
  | .decimal d => some (.decimal d)
  | _ => none

/-- The character of a code below 65536. -/
def charOf? (code : Nat) : Option Char :=
  if valid : code.isValidChar then some (Char.ofNatAux code valid) else none

/-- An integer as a number of a type, reduced modulo the width of an integer type. -/
def wrap? (n : Int) : Ty → Option Datum
  | .byte => some (.byte (BitVec.ofInt 8 n))
  | .char => (charOf? (n % 65536).toNat).map .char
  | .integer kind => some (.integer kind (kind.ofInt n))
  | .float => some (.float (Binary.ofInt n))
  | .double => some (.double (Binary.ofInt n))
  | _ => none

/-- An integer as a number of an integer type, if it is in range. -/
def checked? (n : Int) : Ty → Option Datum
  | .byte => if 0 ≤ n ∧ n < 256 then some (.byte (BitVec.ofInt 8 n)) else none
  | .char => if 0 ≤ n ∧ n < 65536 then (charOf? n.toNat).map .char else none
  | .integer kind => (kind.ofInt? n).map (.integer kind)
  | _ => none

/-- A result, or a fault where there is none. -/
def orFault (fault : Fault) : Option Datum → Except Fault Datum
  | some datum => .ok datum
  | none => .error fault

def numeric (datum : Datum) (target : Ty) : Except Fault Datum :=
  let invalid : Fault := .conversionFailed datum.text target
  match number? datum, target with
  | none, _ => .error invalid
  | some (.integer n), .decimal => orFault .overflow ((Decimal.ofInt? n).map .decimal)
  | some (.integer n), target => orFault invalid (wrap? n target)
  | some (.real x), .decimal => orFault .overflow ((Decimal.ofDouble? x).map .decimal)
  | some (.real x), .float => .ok (.float x.convert)
  | some (.real x), .double => .ok (.double x)
  | some (.real x), target =>
    orFault invalid (wrap? (x.toIntWithin (-(2 ^ (127 : Nat))) (2 ^ (127 : Nat) - 1)) target)
  | some (.decimal d), .decimal => .ok (.decimal d)
  | some (.decimal d), .float => .ok (.float d.toDouble.convert)
  | some (.decimal d), .double => .ok (.double d.toDouble)
  | some (.decimal d), target => orFault .overflow (checked? d.toInt target)

def numericValue (value : Value) (target : Ty) : Except Fault Value :=
  match value with
  | .datum datum => (numeric datum target).map .datum
  | _ => .error (.conversionFailed value.text target)

end ExprLang.Convert
