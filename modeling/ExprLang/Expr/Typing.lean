import ExprLang.Expr.Basic
import ExprLang.Fault
import ExprLang.Registry.CommonBase

/-!
# Typing rules

The type that each kind of expression has, given its parts. A rule either makes the node or says
which fault it finds; the rules look at the types of the parts and never into them.
-/

namespace ExprLang

def faultAt {α : Type} (loc : Location) (fault : Fault) : Except Diagnostic α :=
  .error (fault.reportAt loc)

namespace Typing

variable (registry : Registry)

def unaryTy? (op : UnaryOp) (ty : Ty) : Option Ty :=
  let defined : Bool := match op with
    | .not => ty == .bool || ty.isInteger
    | .complement => ty.isInteger
    | .increment | .decrement => ty.isArithmetic
  if defined then some ty else none

def binaryTy? (op : BinaryOp) (left right : Ty) : Option Ty :=
  let same := left == right
  match op with
  | .less | .lessEqual | .greater | .greaterEqual =>
    if same && left.isArithmetic then some .bool else none
  | .leftShift | .rightShift => if left.isInteger && right == .int then some left else none
  | .coalesce =>
    if left.isValueType then none
    else if registry.isAssignable right left then some left
    else if registry.isAssignable left right then some right
    else none
  | .equal | .notEqual =>
    let references := !left.isValueType && !right.isValueType &&
      (registry.isAssignable left right || registry.isAssignable right left)
    if same || references then some .bool else none
  | .and | .or | .exclusiveOr =>
    if same && (left == .bool || left.isInteger) then some left else none
  | .andAlso | .orElse => if left == .bool && right == .bool then some .bool else none
  | .add => if same && (left.isArithmetic || left == .string) then some left else none
  | .subtract | .multiply | .divide | .modulo =>
    if same && left.isArithmetic then some left else none

def unary (loc : Location) (op : UnaryOp) (operand : Expr) : Except Diagnostic Expr :=
  match unaryTy? op operand.ty with
  | some ty => .ok (.unary ⟨ty, loc⟩ op operand)
  | none => faultAt loc (.unaryUndefined op.symbol operand.ty)

def binary (loc : Location) (op : BinaryOp) (left right : Expr) : Except Diagnostic Expr :=
  match binaryTy? registry op left.ty right.ty with
  | some ty => .ok (.binary ⟨ty, loc⟩ op left right)
  | none => faultAt loc (.binaryUndefined op.symbol left.ty right.ty)

/-- An operator over operands, folded from the left. -/
def nary (loc : Location) (op : BinaryOp) (first : Expr) (rest : List Expr) :
    Except Diagnostic Expr :=
  rest.foldlM (binary registry loc op) first

def conditional (loc : Location) (condition yes no : Expr) : Except Diagnostic Expr :=
  if condition.ty ≠ .bool then faultAt condition.loc (.conditionNotBool condition.ty)
  else if yes.ty ≠ no.ty then faultAt loc (.branchesDiffer yes.ty no.ty)
  else .ok (.conditional ⟨yes.ty, loc⟩ condition yes no)

/-- An indexer access, by the first indexer of the target that accepts the arguments. -/
def index (loc : Location) (target : Expr) (args : List Expr) : Except Diagnostic Expr :=
  let types := args.map (·.ty)
  match (registry.indexers target.ty).find? fun indexer =>
      registry.areAssignable types indexer.params with
  | some indexer => .ok (.index ⟨indexer.result, loc⟩ indexer target args)
  | none => faultAt loc (.noIndexer target.ty types)

/-- A construction, by the first constructor whose parameter types are those of the arguments. -/
def construct (loc : Location) (ty : Ty) (args : List Expr) : Except Diagnostic Expr :=
  let types := args.map (·.ty)
  match (registry.constructors ty).find? fun constructor => constructor.params == types with
  | some constructor => .ok (.construct ⟨ty, loc⟩ constructor args)
  | none => faultAt loc (.noConstructor ty types)

def typeIs (loc : Location) (target : Ty) (operand : Expr) : Except Diagnostic Expr :=
  .ok (.typeIs ⟨.bool, loc⟩ target operand)

/-- A conversion to a reference type that gives null where it does not apply. -/
def typeAs (loc : Location) (target : Ty) (operand : Expr) : Except Diagnostic Expr :=
  if target.isValueType then faultAt loc (.asValueType target)
  else .ok (.typeAs ⟨target, loc⟩ target operand)

/-- Whether a cast between two types can succeed: one is assignable to the other, or both are
numeric. -/
def canConvert (source target : Ty) : Bool :=
  registry.isAssignable source target || registry.isAssignable target source ||
    (source.isConvertibleNumeric && target.isConvertibleNumeric)

def convert (loc : Location) (target : Ty) (operand : Expr) : Except Diagnostic Expr :=
  if canConvert registry operand.ty target then .ok (.convert ⟨target, loc⟩ target operand)
  else faultAt loc (.castRejected operand.ty target)

/-- The common type of the elements of a literal. -/
def elementTy (loc : Location) (types : List Ty) : Except Diagnostic Ty :=
  match registry.commonBase? types with
  | some ty => .ok ty
  | none => faultAt loc (if types.isEmpty then .emptyCollection else .noCommonBase types)

def list (loc : Location) (items : List Expr) : Except Diagnostic Expr := do
  let element ← elementTy registry loc (items.map (·.ty))
  return .list ⟨.list element, loc⟩ element items

def map (loc : Location) (entries : List (Expr × Expr)) : Except Diagnostic Expr := do
  let key ← elementTy registry loc (entries.map (·.1.ty))
  let value ← elementTy registry loc (entries.map (·.2.ty))
  return .map ⟨.map key value, loc⟩ key value entries

def lambda (loc : Location) (id : Nat) (params : List Binding) (body : Expr) : Expr :=
  .lambda ⟨.func (params.map (·.ty)) body.ty, loc⟩ id params body

end Typing

end ExprLang
