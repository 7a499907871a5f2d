/-!
# Operators

The unary and binary operators with their symbols and names.
-/

namespace ExprLang

inductive UnaryOp where
  /-- Logical negation of booleans, bitwise complement of integers. -/
  | not
  | complement
  | increment
  | decrement
  deriving DecidableEq, Inhabited, Repr

namespace UnaryOp

def symbol : UnaryOp → String
  | .not => "!"
  | .complement => "~"
  | .increment => "++"
  | .decrement => "--"

def name : UnaryOp → String
  | .not => "Not"
  | .complement => "OnesComplement"
  | .increment => "Increment"
  | .decrement => "Decrement"

def all : List UnaryOp :=
  [.not, .complement, .increment, .decrement]

end UnaryOp

inductive BinaryOp where
  | less | lessEqual | greater | greaterEqual
  | leftShift | rightShift
  | coalesce
  | equal | notEqual
  | and | or
  /-- Conjunction that skips its second operand after a false first one. -/
  | andAlso
  /-- Disjunction that skips its second operand after a true first one. -/
  | orElse
  | exclusiveOr
  | add | subtract | multiply | divide | modulo
  deriving DecidableEq, Inhabited, Repr

namespace BinaryOp

def symbol : BinaryOp → String
  | .less => "<"
  | .lessEqual => "<="
  | .greater => ">"
  | .greaterEqual => ">="
  | .leftShift => "<<"
  | .rightShift => ">>"
  | .coalesce => "??"
  | .equal => "=="
  | .notEqual => "!="
  | .and => "&"
  | .or => "|"
  | .andAlso => "&&"
  | .orElse => "||"
  | .exclusiveOr => "^"
  | .add => "+"
  | .subtract => "-"
  | .multiply => "*"
  | .divide => "/"
  | .modulo => "%"

def name : BinaryOp → String
  | .less => "Less"
  | .lessEqual => "LessEqual"
  | .greater => "Greater"
  | .greaterEqual => "GreaterEqual"
  | .leftShift => "LeftShift"
  | .rightShift => "RightShift"
  | .coalesce => "Coalesce"
  | .equal => "Equal"
  | .notEqual => "NotEqual"
  | .and => "And"
  | .or => "Or"
  | .andAlso => "AndAlso"
  | .orElse => "OrElse"
  | .exclusiveOr => "ExclusiveOr"
  | .add => "Add"
  | .subtract => "Subtract"
  | .multiply => "Multiply"
  | .divide => "Divide"
  | .modulo => "Modulo"

def all : List BinaryOp :=
  [.less, .lessEqual, .greater, .greaterEqual, .leftShift, .rightShift, .coalesce, .equal,
   .notEqual, .and, .or, .andAlso, .orElse, .exclusiveOr, .add, .subtract, .multiply, .divide,
   .modulo]

end BinaryOp

end ExprLang
