import ExprLang.Binary.Text
import ExprLang.Decimal.Basic
import ExprLang.Number.Word

/-!
# Data without structure

The values that hold no other values: null, booleans, characters, numbers, text and types. They are
what literals write, and the leaves of all other values.
-/

namespace ExprLang

inductive Datum where
  | null
  | bool (b : Bool)
  | char (c : Char)
  | byte (n : BitVec 8)
  | integer (kind : IntKind) (word : kind.Word)
  | float (x : Binary Format.single)
  | double (x : Binary Format.double)
  | decimal (d : Decimal)
  | string (text : String)
  | type (ty : Ty)
  deriving Repr

namespace Datum

instance : Inhabited Datum := ⟨.null⟩

@[match_pattern] abbrev int (word : BitVec 32) : Datum :=
  .integer .int word

/-- The type of a datum; null has none. -/
def ty? : Datum → Option Ty
  | .null => none
  | .bool _ => some .bool
  | .char _ => some .char
  | .byte _ => some .byte
  | .integer kind _ => some (.integer kind)
  | .float _ => some .float
  | .double _ => some .double
  | .decimal _ => some .decimal
  | .string _ => some .string
  | .type _ => some .type

def text : Datum → String
  | .null => "null"
  | .bool b => if b then "true" else "false"
  | .char c => String.singleton c
  | .byte n => toString n.toNat
  | .integer kind word => toString (kind.toInt word)
  | .float x => x.text
  | .double x => x.text
  | .decimal d => d.text
  | .string text => text
  | .type ty => ty.render

/-- The text of a datum with quotes around strings and characters. -/
def quoted : Datum → String
  | .string text => "\"" ++ text ++ "\""
  | .char c => "'" ++ String.singleton c ++ "'"
  | datum => datum.text

/-- Whether two data are the same as keys of a map: binary numbers by their bits, decimals by their
value, all else by content. -/
def same : Datum → Datum → Bool
  | .null, .null => true
  | .bool a, .bool b => a == b
  | .char a, .char b => a == b
  | .byte a, .byte b => a == b
  | .integer kind a, .integer other b => if h : kind = other then h ▸ a == b else false
  | .float a, .float b => a == b
  | .double a, .double b => a == b
  | .decimal a, .decimal b => a.equal b
  | .string a, .string b => a == b
  | .type a, .type b => a == b
  | _, _ => false

/-- The value that a variable of a type has when nothing else is given: zero for numbers, false,
the null character, and null for all types that have it. -/
def defaultOf : Ty → Datum
  | .bool => .bool false
  | .char => .char '\x00'
  | .byte => .byte 0
  | .integer kind => .integer kind 0
  | .float => .float (Binary.zero false)
  | .double => .double (Binary.zero false)
  | .decimal => .decimal .zero
  | _ => .null

end Datum

end ExprLang
