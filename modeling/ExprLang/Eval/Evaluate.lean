import ExprLang.Eval.Convert
import ExprLang.Eval.Operators
import ExprLang.Expr.Elaborate
import ExprLang.Host

/-!
# Evaluation

The value of an expression in a frame. Operands are evaluated from the left; conjunction,
disjunction, null coalescing and the conditional evaluate only what they need. Evaluation makes
closures and never calls one: only a host does, with `Closure.call`. It is therefore a recursion on
the expression.
-/

namespace ExprLang

/-- What evaluation refers to: the types that hold where an expression was elaborated, and the code
of the host. -/
structure Setting where
  registry : Registry
  host : Host

namespace Setting

variable (setting : Setting)

def locate {α : Type} (loc : Location) : Except Fault α → Except Diagnostic α
  | .ok value => .ok value
  | .error fault => faultAt loc fault

/-- Runs a callback; the message of its failure is reported at a location. -/
def callHost (loc : Location) (key : Nat) (target : Value) (args : List Value) : Run Value :=
  fun next =>
    match setting.host.callback key target args next with
    | .ok result => .ok result
    | .error message => faultAt loc (.host message)

/-- Whether a value is of a type; null is of none. -/
def isInstance (value : Value) (target : Ty) : Bool :=
  match value.ty? with
  | some actual => setting.registry.isAssignable actual target
  | none => false

/-- The position that a word counts from the start of a sequence, if it is not negative. -/
def position? (word : BitVec 32) : Option Nat :=
  if 0 ≤ word.toInt then some word.toInt.toNat else none

def index (loc : Location) (indexer : Indexer) (target : Value) (args : List Value) : Run Value :=
  if target.isNull then faultAt loc .nullTarget
  else
    match indexer, target, args with
    | .listElement _, .list _ _ items, [.datum (.int word)] =>
      match (position? word).bind (items[·]?) with
      | some item => return item
      | none => faultAt loc (.listIndex word.toInt items.length)
    | .mapEntry _ _, .map _ _ _ entries, [key] =>
      match Value.findEntry? key entries with
      | some value => return value
      | none => faultAt loc (.keyMissing key.text)
    | .stringChar, .string text, [.datum (.int word)] =>
      match (position? word).bind (text.toList[·]?) with
      | some c => return .datum (.char c)
      | none => faultAt loc (.stringIndex word.toInt text)
    | .host indexer, target, args => setting.callHost loc indexer.callback target args
    | _, _, _ => faultAt loc (.indexerInapplicable target.typeName)

/-- Converts a value from the static type of its expression to another type: by number between
numeric types, and otherwise by checking that the value is of the type. -/
def convert (value : Value) (source target : Ty) : Except Fault Value :=
  match value.ty? with
  | none => if target.isValueType then .error (.nullToValueType target) else .ok .null
  | some actual =>
    if source.isConvertibleNumeric && target.isConvertibleNumeric then
      Convert.numericValue value target
    else if setting.registry.isAssignable actual target then .ok value
    else .error (.castFailed actual target)

mutual

def evaluate (frame : Frame Value) : Expr → Run Value
  | .constant _ datum => return .datum datum
  | .variable node binding =>
    match frame.lookup binding.id with
    | some value => return value
    | none => faultAt node.loc (.valueless binding.name)
  | .unary node op operand => do
    let value ← evaluate frame operand
    locate node.loc (op.apply value)
  | .binary node op left right => do
    let leftValue ← evaluate frame left
    if op.isDecided leftValue then return leftValue
    else do
      let rightValue ← evaluate frame right
      locate node.loc (op.apply leftValue rightValue)
  | .conditional _ condition yes no => do
    let value ← evaluate frame condition
    match value with
    | .bool true => evaluate frame yes
    | .bool false => evaluate frame no
    | other => faultAt condition.loc (.conditionValue other.typeName)
  | .construct node constructor args => do
    let values ← evaluateAll frame args
    setting.callHost node.loc constructor.callback .null values
  | .lambda node id params body =>
    return .function ⟨id, params, body, node.ty, frame, setting.registry⟩
  | .index node indexer target args => do
    let targetValue ← evaluate frame target
    let values ← evaluateAll frame args
    setting.index node.loc indexer targetValue values
  | .typeIs _ target operand => do
    let value ← evaluate frame operand
    return .bool (setting.isInstance value target)
  | .typeAs _ target operand => do
    let value ← evaluate frame operand
    return if setting.isInstance value target then value else .null
  | .convert node target operand => do
    let value ← evaluate frame operand
    locate node.loc (setting.convert value operand.ty target)
  | .typeOf _ target => return .datum (.type target)
  | .defaultOf _ target => return .datum (Datum.defaultOf target)
  | .list _ element items => do
    let values ← evaluateAll frame items
    let id ← freshId
    return .list id element values
  | .map _ key value entries => do
    let values ← evaluateEntries frame [] entries
    let id ← freshId
    return .map id key value values
termination_by structural expr => expr

def evaluateAll (frame : Frame Value) : List Expr → Run (List Value)
  | [] => return []
  | expr :: rest => do
    let value ← evaluate frame expr
    let values ← evaluateAll frame rest
    return value :: values
termination_by structural exprs => exprs

/-- The entries of a map literal, behind the entries that were made before. A key that is the same
as an earlier one fails after its value was evaluated. -/
def evaluateEntries (frame : Frame Value) (before : List (Value × Value)) :
    List (Expr × Expr) → Run (List (Value × Value))
  | [] => return before
  | (keyExpr, valueExpr) :: rest => do
    let key ← evaluate frame keyExpr
    let value ← evaluate frame valueExpr
    if (Value.findEntry? key before).isSome then faultAt keyExpr.loc (.keyRepeated key.text)
    else evaluateEntries frame (before ++ [(key, value)]) rest
termination_by structural entries => entries

end

end Setting

namespace Closure

/-- Whether a registry lets a value stand for a parameter. -/
def admits (registry : Registry) (param : Binding) (arg : Value) : Bool :=
  match arg.ty? with
  | none => !param.ty.isValueType
  | some actual => registry.isAssignable actual param.ty

/-- Calls a function: checks the number and the types of the arguments, and evaluates the body with
the parameters bound in a frame of its own. -/
def call (host : Host) (closure : Closure Value) (args : List Value) : Run Value := do
  let loc := closure.body.loc
  if args.length ≠ closure.arity then
    faultAt loc (.argumentCount closure.arity args.length)
  else
    match (closure.params.zip args).find? fun pair =>
        !admits closure.registry pair.1 pair.2 with
    | some (param, arg) => faultAt loc (.argumentType param.name param.ty arg.typeName)
    | none =>
      let id ← freshId
      let frame := closure.frame.extend id ((closure.params.map (·.id)).zip args)
      (Setting.mk closure.registry host).evaluate frame closure.body

end Closure

end ExprLang
