import ExprLang.Value.Same

/-!
# Hashing

What a value feeds to a hasher, write by write: first which kind of value it is, then its content.
Lists feed their items and leave out the element type; maps feed the number of entries only, because
their order does not count; functions feed their lambda and host objects the name of their type. How
decimals are hashed is left to the library they come from, so it is a parameter.
-/

namespace ExprLang

/-- One write to a hasher. -/
inductive HashWrite where
  /-- The place of a kind of value among all kinds. -/
  | kind (number : Nat)
  /-- A number of a width in bits. -/
  | number (bits value : Nat)
  | text (text : String)
  | type (ty : Ty)
  /-- The address of something shared, by its identity. -/
  | address (id : Nat)
  deriving DecidableEq, Repr

/-- The bits of a binary number: the sign in front of the code. -/
def Binary.bits {format : Format} (x : Binary format) : Nat :=
  x.negative.toNat * format.codes + x.code

/-- The place of an integer type among the kinds of values. -/
def IntKind.hashKind : IntKind → Nat
  | .int => 4
  | .uint => 5
  | .long => 6
  | .ulong => 7

variable (decimal : Decimal → List HashWrite)

/-- What a datum feeds to a hasher. -/
def Datum.feed : Datum → List HashWrite
  | .null => [.kind 0]
  | .bool b => [.kind 1, .number 8 b.toNat]
  | .char c => [.kind 2, .number 32 c.toNat]
  | .byte n => [.kind 3, .number 8 n.toNat]
  | .integer kind word => [.kind kind.hashKind, .number kind.bits word.toNat]
  | .float x => [.kind 8, .number 32 x.bits]
  | .double x => [.kind 9, .number 64 x.bits]
  | .decimal d => .kind 10 :: decimal d
  | .string text => [.kind 11, .text text]
  | .type ty => [.kind 12, .type ty]

namespace Value

mutual

/-- What a value feeds to a hasher. -/
def feed : Value → List HashWrite
  | .datum leaf => leaf.feed decimal
  | .list _ _ items => .kind 13 :: .number 64 items.length :: feedAll items
  | .map _ _ _ entries => [.kind 14, .number 64 entries.length]
  | .function closure => [.kind 15, .address closure.lambda]
  | .object _ typeName _ => [.kind 16, .text typeName]
termination_by structural value => value

def feedAll : List Value → List HashWrite
  | [] => []
  | value :: rest => feed value ++ feedAll rest
termination_by structural values => values

end

/-- The value under a key of a list of entries as a hash table finds it, which compares the key with
those only that have the same hash. -/
def findHashed? (digest : List HashWrite → UInt64) (key : Value) (entries : List (Value × Value)) :
    Option Value :=
  (entries.find? fun entry =>
    digest (entry.1.feed decimal) == digest (key.feed decimal) && same key entry.1).map (·.2)

end Value

end ExprLang
