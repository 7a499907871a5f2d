import ExprLang.Decimal.Arithmetic
import ExprLang.Fault
import ExprLang.Value.Same

/-!
# Operators on values

What the operators do with values. Integers wrap; binary numbers follow their formats; decimals fail
when a result does not fit; a zero divisor fails for integers and decimals. An operator that meets
values it is not made for fails, which the typing rules leave to one case: the sum of strings of
which one is null.
-/

namespace ExprLang

namespace UnaryOp

/-- The fault of an operator that meets a value it is not made for. -/
def inapplicable (op : UnaryOp) (value : Value) : Fault :=
  .operatorInapplicable op.symbol [value.typeName]

def step (up : Bool) : Datum → Option (Except Fault Datum)
  | .integer kind word => some (.ok (.integer kind (if up then word + 1 else word - 1)))
  | .float x => some (.ok (.float (x.add (Binary.ofInt (if up then 1 else -1)))))
  | .double x => some (.ok (.double (x.add (Binary.ofInt (if up then 1 else -1)))))
  | .decimal d =>
    some <| match d.add (if up then Decimal.one else Decimal.one.neg) with
      | some sum => .ok (.decimal sum)
      | none => .error .overflow
  | _ => none

/-- The result of an operator, if it is made for the operand. -/
def applyDatum (op : UnaryOp) (datum : Datum) : Option (Except Fault Datum) :=
  match op, datum with
  | .not, .bool b => some (.ok (.bool !b))
  | .not, .integer kind word | .complement, .integer kind word =>
    some (.ok (.integer kind (~~~word)))
  | .increment, datum => step true datum
  | .decrement, datum => step false datum
  | _, _ => none

def apply (op : UnaryOp) (value : Value) : Except Fault Value :=
  match value with
  | .datum datum =>
    match op.applyDatum datum with
    | some result => result.map .datum
    | none => .error (op.inapplicable value)
  | _ => .error (op.inapplicable value)

end UnaryOp

namespace BinaryOp

def inapplicable (op : BinaryOp) (left right : Value) : Fault :=
  .operatorInapplicable op.symbol [left.typeName, right.typeName]

/-- The order of two numbers of one type: none if there are no such numbers, and no order next to
a NaN. -/
def order? : Datum → Datum → Option (Option Ordering)
  | .integer kind a, .integer other b =>
    if same : other = kind then some (some (kind.compare a (same ▸ b))) else none
  | .float a, .float b => some (a.compare? b)
  | .double a, .double b => some (a.compare? b)
  | .decimal a, .decimal b => some (some (a.compare b))
  | _, _ => none

/-- Whether an order of the operands makes a comparison true. -/
def admits (op : BinaryOp) (order : Ordering) : Bool :=
  match op with
  | .less => order == .lt
  | .lessEqual => order != .gt
  | .greater => order == .gt
  | _ => order != .lt

def comparison (op : BinaryOp) (left right : Datum) : Option (Except Fault Datum) :=
  (order? left right).map fun order => .ok (.bool (order.any op.admits))

def shift (op : BinaryOp) (left right : Datum) : Option (Except Fault Datum) :=
  match left, right with
  | .integer kind word, .int count =>
    some (.ok (.integer kind
      (if op == .leftShift then kind.shiftLeft word count else kind.shiftRight word count)))
  | _, _ => none

/-- A logical operation on booleans or a bitwise one on integers. -/
def bitwise (op : BinaryOp) (left right : Datum) : Option (Except Fault Datum) :=
  match left, right with
  | .bool a, .bool b =>
    some (.ok (.bool (match op with
      | .and | .andAlso => a && b
      | .or | .orElse => a || b
      | _ => a != b)))
  | .integer kind a, .integer other b =>
    if op == .andAlso || op == .orElse then none
    else if same : other = kind then
      let b : kind.Word := same ▸ b
      some (.ok (.integer kind (match op with
        | .and => a &&& b
        | .or => a ||| b
        | _ => a ^^^ b)))
    else none
  | _, _ => none

/-- Whether an operator divides. -/
def divides : BinaryOp → Bool
  | .divide | .modulo => true
  | _ => false

def wordArithmetic (op : BinaryOp) (kind : IntKind) (a b : kind.Word) : Except Fault kind.Word :=
  if op.divides && b == 0 then .error .divisionByZero
  else
    .ok (match op with
      | .add => a + b
      | .subtract => a - b
      | .multiply => a * b
      | .divide => kind.quotient a b
      | _ => kind.remainder a b)

def binaryArithmetic {format : Format} (op : BinaryOp) (a b : Binary format) : Binary format :=
  match op with
  | .add => a.add b
  | .subtract => a.sub b
  | .multiply => a.mul b
  | .divide => a.div b
  | _ => a.rem b

def decimalArithmetic (op : BinaryOp) (a b : Decimal) : Except Fault Decimal :=
  if op.divides && b.isZero then .error .divisionByZero
  else
    let result := match op with
      | .add => a.add b
      | .subtract => a.sub b
      | .multiply => a.mul b
      | .divide => a.div b
      | _ => a.rem b
    match result with
    | some d => .ok d
    | none => .error .overflow

/-- Arithmetic on numbers of one type, and the sum of two strings. -/
def arithmetic (op : BinaryOp) (left right : Datum) : Option (Except Fault Datum) :=
  match left, right with
  | .integer kind a, .integer other b =>
    if same : other = kind then some ((op.wordArithmetic kind a (same ▸ b)).map (.integer kind))
    else none
  | .float a, .float b => some (.ok (.float (op.binaryArithmetic a b)))
  | .double a, .double b => some (.ok (.double (op.binaryArithmetic a b)))
  | .decimal a, .decimal b => some ((op.decimalArithmetic a b).map .decimal)
  | .string a, .string b => if op == .add then some (.ok (.string (a ++ b))) else none
  | _, _ => none

/-- The result of an operator on data other than equality and null coalescing, if it is made for
the operands. -/
def applyData (op : BinaryOp) (left right : Datum) : Option (Except Fault Datum) :=
  match op with
  | .less | .lessEqual | .greater | .greaterEqual => op.comparison left right
  | .leftShift | .rightShift => op.shift left right
  | .and | .or | .exclusiveOr | .andAlso | .orElse => op.bitwise left right
  | .add | .subtract | .multiply | .divide | .modulo => op.arithmetic left right
  | .equal | .notEqual | .coalesce => none

def apply (op : BinaryOp) (left right : Value) : Except Fault Value :=
  match op with
  | .equal => .ok (.bool (left.equal right))
  | .notEqual => .ok (.bool !(left.equal right))
  | .coalesce => .ok (if left.isNull then right else left)
  | _ =>
    match left, right with
    | .datum a, .datum b =>
      match op.applyData a b with
      | some result => result.map .datum
      | none => .error (op.inapplicable left right)
    | _, _ => .error (op.inapplicable left right)

/-- Whether the value of the first operand decides the result, so that the second is not looked
at. -/
def isDecided (op : BinaryOp) (left : Value) : Bool :=
  match op, left with
  | .andAlso, .bool b => !b
  | .orElse, .bool b => b
  | .coalesce, value => !value.isNull
  | _, _ => false

end BinaryOp

end ExprLang
