import ExprLang.Operator
import ExprLang.Text.Table

/-!
# Heads

What the leading atom of a parenthesized form selects: an operator or a special form. The table of
heads is open, so a host can rename, add and replace them.
-/

namespace ExprLang

inductive Head where
  | unary (op : UnaryOp)
  | binary (op : BinaryOp)
  /-- An operator over one or more operands, folded from the left. -/
  | nary (op : BinaryOp)
  | conditional
  | index
  | typeIs
  | typeAs
  | cast
  | typeOf
  | defaultOf
  | construct
  | lambda
  deriving DecidableEq, Inhabited, Repr

namespace Head

def name : Head → String
  | .unary op => s!"Unary({op.name})"
  | .binary op => s!"Binary({op.name})"
  | .nary op => s!"NAry({op.name})"
  | .conditional => "Conditional"
  | .index => "Index"
  | .typeIs => "TypeIs"
  | .typeAs => "TypeAs"
  | .cast => "Cast"
  | .typeOf => "TypeOf"
  | .defaultOf => "Default"
  | .construct => "New"
  | .lambda => "Lambda"

def all : List Head :=
  UnaryOp.all.map .unary ++ BinaryOp.all.map .binary ++ BinaryOp.all.map .nary ++
    [.conditional, .index, .typeIs, .typeAs, .cast, .typeOf, .defaultOf, .construct, .lambda]

def ofName? (name : String) : Option Head :=
  all.find? fun head => head.name == name

end Head

abbrev HeadTable := Table Head

namespace HeadTable

def standard : HeadTable where
  entries :=
    [("!", .unary .not), ("~", .unary .complement), ("++", .unary .increment),
     ("--", .unary .decrement),
     ("<", .binary .less), ("<=", .binary .lessEqual), (">", .binary .greater),
     (">=", .binary .greaterEqual), ("<<", .binary .leftShift), (">>", .binary .rightShift),
     ("??", .binary .coalesce), ("==", .binary .equal), ("!=", .binary .notEqual),
     ("if", .conditional), ("?:", .conditional),
     ("&", .nary .and), ("|", .nary .or), ("&&", .nary .andAlso), ("and", .nary .andAlso),
     ("||", .nary .orElse), ("or", .nary .orElse), ("^", .nary .exclusiveOr),
     ("xor", .nary .exclusiveOr), ("+", .nary .add), ("-", .nary .subtract),
     ("*", .nary .multiply), ("/", .nary .divide), ("%", .nary .modulo),
     ("#", .index), ("is", .typeIs), ("as", .typeAs), ("cast", .cast), ("typeof", .typeOf),
     ("default", .defaultOf), ("new", .construct), ("=>", .lambda)]

/-- Gives a name the head of another name, if that is in the table. -/
def withAlias? (table : HeadTable) (name existing : String) : Option HeadTable :=
  (table.get? existing).map fun head => table.insert name head

end HeadTable

end ExprLang
