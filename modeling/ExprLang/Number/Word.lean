import ExprLang.Ty

/-!
# Integers of fixed width

The numbers of the four integer types as words of bits. Arithmetic wraps at the width; quotients
are truncated toward zero; shifts take their count modulo the width. `IntKind.toInt` is the view
through which the operations are understood.
-/

namespace ExprLang

-- Powers of numbers are those of the core library, also where monoids are known.
attribute [local instance (high)] instPowNat

namespace IntKind

/-- The words of an integer type. -/
abbrev Word (kind : IntKind) : Type := BitVec kind.bits

variable (kind : IntKind)

def toInt (word : kind.Word) : Int :=
  if kind.signed then word.toInt else word.toNat

/-- The word of an integer, reduced modulo the width. -/
def ofInt (n : Int) : kind.Word :=
  BitVec.ofInt kind.bits n

def least : Int :=
  if kind.signed then -(2 ^ (kind.bits - 1)) else 0

def greatest : Int :=
  if kind.signed then 2 ^ (kind.bits - 1) - 1 else 2 ^ kind.bits - 1

def ofInt? (n : Int) : Option kind.Word :=
  if kind.least ≤ n ∧ n ≤ kind.greatest then some (kind.ofInt n) else none

/-- The quotient truncated toward zero, by a divisor that is not zero. -/
def quotient (a b : kind.Word) : kind.Word :=
  if kind.signed then a.sdiv b else a.udiv b

/-- The remainder of the truncated quotient, by a divisor that is not zero. -/
def remainder (a b : kind.Word) : kind.Word :=
  if kind.signed then a.srem b else a.umod b

/-- The number of places that a count shifts by. -/
def shiftCount (count : BitVec 32) : Nat :=
  count.toNat % kind.bits

def shiftLeft (a : kind.Word) (count : BitVec 32) : kind.Word :=
  a <<< kind.shiftCount count

def shiftRight (a : kind.Word) (count : BitVec 32) : kind.Word :=
  if kind.signed then a.sshiftRight (kind.shiftCount count) else a >>> kind.shiftCount count

def compare (a b : kind.Word) : Ordering :=
  Ord.compare (kind.toInt a) (kind.toInt b)

end IntKind

end ExprLang
