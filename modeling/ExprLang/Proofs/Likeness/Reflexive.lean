import ExprLang.Proofs.Engine.Identities
import ExprLang.Proofs.Likeness.Elaboration
import ExprLang.Proofs.Likeness.Registry
import ExprLang.Proofs.Likeness.Value

/-!
# What is alike to itself

Under a likeness that knows all names and all code of the host, and that lets every place count as
itself, everything is alike to itself: expressions, registries, forms, and the values that are made
of what was drawn before two runs parted (`Value.Below.alike_self`).
-/

namespace ExprLang

/-- A likeness under which everything is alike to itself. -/
class Likeness.Whole (like : Likeness) : Prop where
  places : ∀ loc, like.places loc loc
  names : ∀ name, like.names name
  keys : ∀ key, like.keys key
  registries : ∀ registry, like.registries registry registry

/-- Two runs that may differ in identities only. -/
def Likeness.exact : Likeness where
  places := Eq
  names _ := True
  keys _ := True
  registries := Eq

instance : Likeness.exact.Whole where
  places _ := rfl
  names _ := trivial
  keys _ := trivial
  registries _ := rfl

variable {like : Likeness}

mutual

theorem Ty.over_self [whole : like.Whole] (ty : Ty) : ty.Over like.names := by
  match ty with
  | .prim _ => trivial
  | .list element => exact element.over_self
  | .map key value => exact ⟨key.over_self, value.over_self⟩
  | .func params result => exact ⟨overAll_self params, result.over_self⟩
  | .named name => exact whole.names name
termination_by structural ty

theorem Ty.overAll_self [whole : like.Whole] (types : List Ty) : OverAll like.names types := by
  match types with
  | [] => trivial
  | ty :: rest => exact ⟨ty.over_self, overAll_self rest⟩
termination_by structural types

end

theorem Registry.agree_self [whole : like.Whole] (registry : Registry) :
    registry.Agree like registry where
  base _ _ := rfl
  baseKnown _ _ _ _ := Ty.over_self _
  indexers _ _ := rfl
  indexersKnown _ _ _ _ := ⟨Ty.over_self _, fun _ _ => whole.keys _⟩
  constructors _ _ := rfl
  constructorsKnown _ _ _ _ := whole.keys _

/-! ## Expressions -/

/-- Every binding and every lambda corresponds to itself. -/
def View.same : View :=
  ⟨.identity fun _ => True, .identity fun _ => True⟩

theorem Binding.alike_self [like.Whole] (binding : Binding) : binding.Alike like .same binding :=
  ⟨rfl, rfl, Ty.over_self _, rfl, trivial⟩

namespace Expr

theorem node_alike_self [whole : like.Whole] (node : Node) : node.Alike like node :=
  ⟨rfl, Ty.over_self _, whole.places _⟩

mutual

theorem alike_self [whole : like.Whole] (expr : Expr) : expr.Alike like .same expr := by
  match expr with
  | .constant node _ => exact .constant (node_alike_self node)
  | .variable node binding => exact .variable (node_alike_self node) binding.alike_self
  | .unary node _ operand => exact .unary (node_alike_self node) operand.alike_self
  | .binary node _ left right =>
    exact .binary (node_alike_self node) left.alike_self right.alike_self
  | .conditional node condition yes no =>
    exact .conditional (node_alike_self node) condition.alike_self yes.alike_self no.alike_self
  | .construct node _ args =>
    exact .construct (node_alike_self node) (whole.keys _) (parts_alike_self args)
  | .lambda node _ params body =>
    exact .lambda (node_alike_self node) ⟨rfl, trivial⟩
      (List.forall₂_same.mpr fun binding _ => binding.alike_self) body.alike_self
  | .index node _ target args =>
    exact .index (node_alike_self node) (fun _ _ => whole.keys _) target.alike_self
      (parts_alike_self args)
  | .typeIs node _ operand => exact .typeIs (node_alike_self node) operand.alike_self
  | .typeAs node _ operand => exact .typeAs (node_alike_self node) operand.alike_self
  | .convert node _ operand => exact .convert (node_alike_self node) operand.alike_self
  | .typeOf node _ => exact .typeOf (node_alike_self node)
  | .defaultOf node _ => exact .defaultOf (node_alike_self node)
  | .list node element items =>
    exact .list (node_alike_self node) element.over_self (parts_alike_self items)
  | .map node key value entries =>
    obtain ⟨keys, values⟩ := entries_alike_self entries
    exact .map (node_alike_self node) key.over_self value.over_self keys values
termination_by structural expr

theorem parts_alike_self [whole : like.Whole] (exprs : List Expr) :
    List.Forall₂ (Expr.Alike like .same) exprs exprs := by
  match exprs with
  | [] => exact .nil
  | expr :: rest => exact .cons expr.alike_self (parts_alike_self rest)
termination_by structural exprs

theorem entries_alike_self [whole : like.Whole] (entries : List (Expr × Expr)) :
    List.Forall₂ (Expr.Alike like .same) (entries.map (·.1)) (entries.map (·.1)) ∧
      List.Forall₂ (Expr.Alike like .same) (entries.map (·.2)) (entries.map (·.2)) := by
  match entries with
  | [] => exact ⟨.nil, .nil⟩
  | (key, value) :: rest =>
    obtain ⟨keys, values⟩ := entries_alike_self rest
    exact ⟨.cons key.alike_self keys, .cons value.alike_self values⟩
termination_by structural entries

end

end Expr

/-! ## Values -/

/-- A value that is made of what was drawn is alike to itself for runs that draw from now on. -/
theorem Value.Below.alike_self [whole : like.Whole] {older : Nat} {value : Value}
    (below : value.Below older) :
    value.Alike like (.below older) value := by
  induction below with
  | datum => exact .datum
  | list drawn _ parts =>
    exact alike_list ⟨rfl, drawn⟩ (Ty.over_self _) (List.forall₂_same.mpr parts)
  | map drawn _ _ keys values =>
    exact alike_map ⟨rfl, drawn⟩ (Ty.over_self _) (Ty.over_self _)
      (List.forall₂_same.mpr fun entry belongs => ⟨keys entry belongs, values entry belongs⟩)
  | @function closure drawn frame _ _ slots =>
    refine alike_function ⟨rfl, drawn, frame⟩
      (List.forall₂_same.mpr fun binding _ => binding.alike_self) closure.body.alike_self rfl
      (Ty.over_self _) (whole.registries _) ?_
    rintro binding _ ⟨rfl, -⟩
    cases found : closure.frame.lookup binding with
    | none => exact .none
    | some value => exact .some (slots _ (Frame.mem_slots_of_lookup found))
  | object drawn _ parts =>
    exact alike_object ⟨rfl, drawn⟩ (whole.names _) (List.forall₂_same.mpr parts)

/-- The values of a frame that is made of what was drawn are alike to themselves. -/
theorem Frame.Below.rel_lookup [like.Whole] {older : Nat} {frame : Frame Value}
    (below : frame.Below older) (binding : Nat) :
    Option.Rel (Value.Alike like (.below older)) (frame.lookup binding) (frame.lookup binding) := by
  cases stored : frame.lookup binding with
  | none => exact .none
  | some value => exact .some (below.lookup stored).alike_self

/-! ## Forms -/

namespace Form

variable {places : Location → Location → Prop}

mutual

theorem alike_refl (refl : ∀ loc, places loc loc) (form : Form) :
    form.Alike places (fun _ => True) form := by
  match form with
  | .atom _ loc => exact .atom trivial (refl loc)
  | .combo _ forms loc => exact .combo (forms_alike_refl refl forms) (refl loc)
termination_by structural form

theorem forms_alike_refl (refl : ∀ loc, places loc loc) (forms : List Form) :
    List.Forall₂ (Form.Alike places fun _ => True) forms forms := by
  match forms with
  | [] => exact .nil
  | form :: rest => exact .cons (form.alike_refl refl) (forms_alike_refl refl rest)
termination_by structural forms

end

end Form

end ExprLang
