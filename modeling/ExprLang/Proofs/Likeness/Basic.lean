import Mathlib.Data.List.Forall2
import ExprLang.Proofs.Likeness.World
import ExprLang.Value.Text

/-!
# Likeness

When the things that two runs deal with are the same but for what must not matter: the identities
that were drawn, and whatever a `Likeness` leaves open. Expressions are alike if they are built
alike, with bindings and lambdas that correspond. Values are alike in a world (`Value.Alike`): data
are the same, lists, maps and objects correspond part by part, and functions have bodies that are
alike in frames that give corresponding bindings values that are alike.
-/

namespace ExprLang

/-! ## Types -/

mutual

/-- A type is built from host types of given names. -/
def Ty.Over (names : String → Prop) : Ty → Prop
  | .prim _ => True
  | .list element => element.Over names
  | .map key value => key.Over names ∧ value.Over names
  | .func params result => OverAll names params ∧ result.Over names
  | .named name => names name

def Ty.OverAll (names : String → Prop) : List Ty → Prop
  | [] => True
  | ty :: rest => ty.Over names ∧ OverAll names rest

end

theorem Ty.overAll_iff {names : String → Prop} {types : List Ty} :
    OverAll names types ↔ ∀ ty ∈ types, ty.Over names := by
  induction types with
  | nil => simp [OverAll]
  | cons ty rest ih => rw [OverAll, ih, List.forall_mem_cons]

/-! ## Expressions -/

/-- What two runs may differ in besides identities: which locations count as the same, which host
types and which code of the host both know alike, and which registries functions may keep. -/
structure Likeness where
  places : Location → Location → Prop
  names : String → Prop
  keys : Nat → Prop
  registries : Registry → Registry → Prop

/-- Which bindings and which lambdas correspond in two expressions. -/
structure View where
  bindings : Pairing Nat
  lambdas : Pairing Nat

variable (like : Likeness) (view : View)

/-- Nodes of one type at places that count as the same. -/
structure Node.Alike (node other : Node) : Prop where
  ty : node.ty = other.ty
  known : node.ty.Over like.names
  place : like.places node.loc other.loc

/-- Bindings of one name and type that correspond. -/
structure Binding.Alike (binding other : Binding) : Prop where
  name : binding.name = other.name
  ty : binding.ty = other.ty
  known : binding.ty.Over like.names
  id : view.bindings binding.id other.id

/-- Two expressions are built alike. -/
inductive Expr.Alike : Expr → Expr → Prop where
  | constant {node other : Node} {leaf : Datum} (nodes : node.Alike like other) :
      Alike (.constant node leaf) (.constant other leaf)
  | variable {node other : Node} {binding second : Binding} (nodes : node.Alike like other)
      (bindings : binding.Alike like view second) :
      Alike (.variable node binding) (.variable other second)
  | unary {node other : Node} {op : UnaryOp} {operand second : Expr}
      (nodes : node.Alike like other) (operands : Alike operand second) :
      Alike (.unary node op operand) (.unary other op second)
  | binary {node other : Node} {op : BinaryOp} {left right otherLeft otherRight : Expr}
      (nodes : node.Alike like other) (lefts : Alike left otherLeft)
      (rights : Alike right otherRight) :
      Alike (.binary node op left right) (.binary other op otherLeft otherRight)
  | conditional {node other : Node} {condition yes no otherCondition otherYes otherNo : Expr}
      (nodes : node.Alike like other) (conditions : Alike condition otherCondition)
      (yeses : Alike yes otherYes) (nos : Alike no otherNo) :
      Alike (.conditional node condition yes no)
        (.conditional other otherCondition otherYes otherNo)
  | construct {node other : Node} {constructor : Constructor} {args others : List Expr}
      (nodes : node.Alike like other) (key : like.keys constructor.callback)
      (parts : List.Forall₂ Alike args others) :
      Alike (.construct node constructor args) (.construct other constructor others)
  | lambda {node other : Node} {id second : Nat} {params otherParams : List Binding}
      {body otherBody : Expr} (nodes : node.Alike like other) (ids : view.lambdas id second)
      (bindings : List.Forall₂ (Binding.Alike like view) params otherParams)
      (bodies : Alike body otherBody) :
      Alike (.lambda node id params body) (.lambda other second otherParams otherBody)
  | index {node other : Node} {indexer : Indexer} {target second : Expr} {args others : List Expr}
      (nodes : node.Alike like other)
      (key : ∀ found, indexer = .host found → like.keys found.callback)
      (targets : Alike target second) (parts : List.Forall₂ Alike args others) :
      Alike (.index node indexer target args) (.index other indexer second others)
  | typeIs {node other : Node} {ty : Ty} {operand second : Expr} (nodes : node.Alike like other)
      (operands : Alike operand second) :
      Alike (.typeIs node ty operand) (.typeIs other ty second)
  | typeAs {node other : Node} {ty : Ty} {operand second : Expr} (nodes : node.Alike like other)
      (operands : Alike operand second) :
      Alike (.typeAs node ty operand) (.typeAs other ty second)
  | convert {node other : Node} {ty : Ty} {operand second : Expr} (nodes : node.Alike like other)
      (operands : Alike operand second) :
      Alike (.convert node ty operand) (.convert other ty second)
  | typeOf {node other : Node} {ty : Ty} (nodes : node.Alike like other) :
      Alike (.typeOf node ty) (.typeOf other ty)
  | defaultOf {node other : Node} {ty : Ty} (nodes : node.Alike like other) :
      Alike (.defaultOf node ty) (.defaultOf other ty)
  | list {node other : Node} {element : Ty} {items others : List Expr}
      (nodes : node.Alike like other) (known : element.Over like.names)
      (parts : List.Forall₂ Alike items others) :
      Alike (.list node element items) (.list other element others)
  | map {node other : Node} {key value : Ty} {entries others : List (Expr × Expr)}
      (nodes : node.Alike like other) (keyKnown : key.Over like.names)
      (valueKnown : value.Over like.names)
      (keys : List.Forall₂ Alike (entries.map (·.1)) (others.map (·.1)))
      (values : List.Forall₂ Alike (entries.map (·.2)) (others.map (·.2))) :
      Alike (.map node key value entries) (.map other key value others)

variable {like view}

namespace Expr.Alike

variable {expr other : Expr} {exprs others : List Expr}

theorem node (alike : expr.Alike like view other) : expr.node.Alike like other.node := by
  cases alike <;> assumption

theorem ty_eq (alike : expr.Alike like view other) : expr.ty = other.ty :=
  alike.node.ty

theorem known (alike : expr.Alike like view other) : expr.ty.Over like.names :=
  alike.node.known

theorem place (alike : expr.Alike like view other) : like.places expr.loc other.loc :=
  alike.node.place

theorem types_eq (alike : List.Forall₂ (Expr.Alike like view) exprs others) :
    exprs.map (·.ty) = others.map (·.ty) := by
  induction alike with
  | nil => rfl
  | cons first _ ih => rw [List.map_cons, List.map_cons, first.ty_eq, ih]

theorem types_known (alike : List.Forall₂ (Expr.Alike like view) exprs others) :
    ∀ ty ∈ exprs.map (·.ty), ty.Over like.names := by
  induction alike with
  | nil => nofun
  | cons first _ ih =>
    rw [List.map_cons, List.forall_mem_cons]
    exact ⟨first.known, ih⟩

end Expr.Alike

end ExprLang
