import ExprLang.Expr.Literal
import ExprLang.Expr.Typing
import ExprLang.Head

/-!
# From forms to typed expressions

Atoms are constants or names in scope; square and curly combos are list and map literals; a
parenthesized combo is dispatched on its leading atom through the table of heads. Forms nest no
deeper than a limit, counted from the outermost form at depth zero. Elaboration draws the identities
of parameters and lambdas from a supply, so it never gives one out twice. What is drawn is gone also
if elaboration fails; whether a failure tells how much that is depends on what it is made of
(`Failing`).
-/

namespace ExprLang

/-- A computation that draws identities from a supply and may fail. -/
abbrev Drawing (ε : Type) := StateT Nat (Except ε)

/-- A computation that draws identities from a supply and may fail with a report. -/
abbrev Run := Drawing Diagnostic

/-- What a failure is made of: a report, and the supply that is left where it arises. -/
class Failing (ε : Type) where
  fail : Diagnostic → Nat → ε

@[default_instance] instance : Failing Diagnostic where
  fail report _ := report

/-- A failure that keeps the supply. -/
structure Halt where
  report : Diagnostic
  supply : Nat

instance : Failing Halt := ⟨Halt.mk⟩

instance {ε : Type} [Failing ε] : MonadLift (Except Diagnostic) (Drawing ε) where
  monadLift
    | .ok value => fun next => .ok (value, next)
    | .error report => fun next => .error (Failing.fail report next)

/-- An identity that was not drawn before. -/
def freshId {ε : Type} : StateT Nat (Except ε) Nat :=
  modifyGet fun next => (next, next + 1)

/-- Pairs up a list; the last member of a list of odd length is left out. -/
def pairs {α : Type} : List α → List (α × α)
  | first :: second :: rest => (first, second) :: pairs rest
  | _ => []

structure Elaborator where
  registry : Registry := {}
  heads : HeadTable := .standard
  maxDepth : Nat := 256

namespace Elaborator

variable (elaborator : Elaborator) {ε : Type} [Failing ε]

def typeName (form : Form) : Except Diagnostic Ty :=
  match form with
  | .combo .. => faultAt form.loc (.notATypeName form)
  | .atom name loc =>
    match elaborator.registry.resolve? name with
    | some ty => .ok ty
    | none => faultAt loc (.unknownType name)

/-- An atom: a constant or a name in scope. -/
def atom (scope : Scope) (text : String) (loc : Location) : Except Diagnostic Expr :=
  match Literal.constant? text with
  | .error fault => faultAt loc fault
  | .ok (some (datum, ty)) => .ok (.constant ⟨ty, loc⟩ datum)
  | .ok none =>
    match scope.lookup text with
    | some binding => .ok (.variable ⟨binding.ty, loc⟩ binding)
    | none => faultAt loc (.undefinedVariable text)

/-- Defines the parameter that a form declares in the scope of a lambda. -/
def param (scope : Scope) (form : Form) : Drawing ε (Binding × Scope) := do
  match form with
  | .combo .paren [tyForm, nameForm] loc =>
    let ty ← elaborator.typeName tyForm
    match nameForm with
    | .combo _ _ nameLoc => faultAt nameLoc .parameterNameNotAtom
    | .atom name _ =>
      if (scope.local? name).isSome then faultAt loc (.duplicateParameter name)
      else
        let id ← freshId
        return scope.define id name ty
  | _ => faultAt form.loc (.notAParameter form)

def params (scope : Scope) : List Form → Drawing ε (List Binding × Scope)
  | [] => return ([], scope)
  | form :: rest => do
    let (binding, scope) ← elaborator.param scope form
    let (bindings, scope) ← params scope rest
    return (binding :: bindings, scope)

def paramList (scope : Scope) : Form → Drawing ε (List Binding × Scope)
  | .combo .paren forms _ => elaborator.params scope.push forms
  | form => faultAt form.loc .parametersNotAList

mutual

def elaborateAt (scope : Scope) (depth : Nat) : Form → Drawing ε Expr
  | .atom text loc =>
    if elaborator.maxDepth < depth then faultAt loc (.expressionTooDeep elaborator.maxDepth)
    else atom scope text loc
  | .combo bracket children loc =>
    if elaborator.maxDepth < depth then faultAt loc (.expressionTooDeep elaborator.maxDepth)
    else
      let registry := elaborator.registry
      match bracket, children with
      | .square, items => do
        let items ← elaborateAll scope (depth + 1) items
        Typing.list registry loc items
      | .curly, forms =>
        if forms.length % 2 ≠ 0 then faultAt loc (.unpairedMapLiteral forms.length)
        else do
          let forms ← elaborateAll scope (depth + 1) forms
          Typing.map registry loc (pairs forms)
      | .paren, [] => faultAt loc .emptyForm
      | .paren, .combo _ _ headLoc :: _ => faultAt headLoc .headNotAtom
      | .paren, .atom name _ :: operands =>
        let found := operands.length
        match elaborator.heads.get? name, operands with
        | none, _ => faultAt loc (.unknownHead name)
        | some (.unary op), [operand] => do
          let operand ← elaborateAt scope (depth + 1) operand
          Typing.unary loc op operand
        | some (.unary _), _ => faultAt loc (.arity name 1 found)
        | some (.binary op), [left, right] => do
          let left ← elaborateAt scope (depth + 1) left
          let right ← elaborateAt scope (depth + 1) right
          Typing.binary registry loc op left right
        | some (.binary _), _ => faultAt loc (.arity name 2 found)
        | some (.nary op), first :: rest => do
          let first ← elaborateAt scope (depth + 1) first
          let rest ← elaborateAll scope (depth + 1) rest
          Typing.nary registry loc op first rest
        | some (.nary _), [] => faultAt loc (.arityAtLeast name 1 found)
        | some .conditional, [condition, yes, no] => do
          let condition ← elaborateAt scope (depth + 1) condition
          let yes ← elaborateAt scope (depth + 1) yes
          let no ← elaborateAt scope (depth + 1) no
          Typing.conditional loc condition yes no
        | some .conditional, _ => faultAt loc (.arity name 3 found)
        | some .index, target :: args => do
          let target ← elaborateAt scope (depth + 1) target
          let args ← elaborateAll scope (depth + 1) args
          Typing.index registry loc target args
        | some .index, [] => faultAt loc (.arityAtLeast name 1 found)
        | some .typeIs, [tyForm, operand] => do
          let target ← elaborator.typeName tyForm
          let operand ← elaborateAt scope (depth + 1) operand
          Typing.typeIs loc target operand
        | some .typeAs, [tyForm, operand] => do
          let target ← elaborator.typeName tyForm
          let operand ← elaborateAt scope (depth + 1) operand
          Typing.typeAs loc target operand
        | some .cast, [tyForm, operand] => do
          let target ← elaborator.typeName tyForm
          let operand ← elaborateAt scope (depth + 1) operand
          Typing.convert registry loc target operand
        | some .typeIs, _ | some .typeAs, _ | some .cast, _ => faultAt loc (.arity name 2 found)
        | some .typeOf, [tyForm] => do
          let target ← elaborator.typeName tyForm
          return .typeOf ⟨.type, loc⟩ target
        | some .defaultOf, [tyForm] => do
          let target ← elaborator.typeName tyForm
          return .defaultOf ⟨target, loc⟩ target
        | some .typeOf, _ | some .defaultOf, _ => faultAt loc (.arity name 1 found)
        | some .construct, tyForm :: args => do
          let ty ← elaborator.typeName tyForm
          let args ← elaborateAll scope (depth + 1) args
          Typing.construct registry loc ty args
        | some .construct, [] => faultAt loc (.arityAtLeast name 1 found)
        | some .lambda, [paramsForm, body] => do
          let (params, inner) ← elaborator.paramList scope paramsForm
          let body ← elaborateAt inner (depth + 1) body
          let id ← freshId
          return Typing.lambda loc id params body
        | some .lambda, _ => faultAt loc (.arity name 2 found)
termination_by structural form => form

def elaborateAll (scope : Scope) (depth : Nat) : List Form → Drawing ε (List Expr)
  | [] => return []
  | form :: rest => do
    let expr ← elaborateAt scope depth form
    let exprs ← elaborateAll scope depth rest
    return expr :: exprs
termination_by structural forms => forms

end

def elaborate (scope : Scope) (form : Form) : Run Expr :=
  elaborator.elaborateAt scope 0 form

/-- Elaborates a form in a scope, and answers the supply that is left also if that fails. -/
def elaborating (scope : Scope) (form : Form) (next : Nat) : Except Diagnostic Expr × Nat :=
  match elaborator.elaborateAt scope 0 form next with
  | .ok (expr, later) => (.ok expr, later)
  | .error (halt : Halt) => (.error halt.report, halt.supply)

end Elaborator

end ExprLang
