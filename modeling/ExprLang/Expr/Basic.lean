import ExprLang.Datum
import ExprLang.Diagnostic
import ExprLang.Operator
import ExprLang.Registry
import ExprLang.Scope

/-!
# Typed expressions

What forms are elaborated into. Every node carries its static type and the location of the form it
came from. Operators over many operands appear as nested binary nodes.
-/

namespace ExprLang

structure Node where
  ty : Ty
  loc : Location
  deriving DecidableEq, Inhabited, Repr

inductive Expr where
  | constant (node : Node) (datum : Datum)
  | variable (node : Node) (binding : Binding)
  | unary (node : Node) (op : UnaryOp) (operand : Expr)
  | binary (node : Node) (op : BinaryOp) (left right : Expr)
  | conditional (node : Node) (condition yes no : Expr)
  | construct (node : Node) (constructor : Constructor) (args : List Expr)
  /-- A function with an identity of its own: two closures of one lambda in one frame are the same
  function. -/
  | lambda (node : Node) (id : Nat) (params : List Binding) (body : Expr)
  | index (node : Node) (indexer : Indexer) (target : Expr) (args : List Expr)
  | typeIs (node : Node) (target : Ty) (operand : Expr)
  | typeAs (node : Node) (target : Ty) (operand : Expr)
  | convert (node : Node) (target : Ty) (operand : Expr)
  | typeOf (node : Node) (target : Ty)
  | defaultOf (node : Node) (target : Ty)
  | list (node : Node) (element : Ty) (items : List Expr)
  | map (node : Node) (key value : Ty) (entries : List (Expr × Expr))
  deriving Inhabited, Repr

namespace Expr

def node : Expr → Node
  | .constant node _ | .variable node _ | .unary node _ _ | .binary node _ _ _
  | .conditional node _ _ _ | .construct node _ _ | .lambda node _ _ _ | .index node _ _ _
  | .typeIs node _ _ | .typeAs node _ _ | .convert node _ _ | .typeOf node _
  | .defaultOf node _ | .list node _ _ | .map node _ _ _ => node

def ty (expr : Expr) : Ty :=
  expr.node.ty

def loc (expr : Expr) : Location :=
  expr.node.loc

end Expr

end ExprLang
