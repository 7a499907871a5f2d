import ExprLang.Proofs.Elaboration.Limits

/-!
# The depth of a form

A form that elaborates at one depth under a limit elaborates to the same at every other depth under
every limit that leaves it as many levels (`Elaborates.relocate`). So the depth of a form decides
nothing but whether the form is too deep.
-/

namespace ExprLang.Elaborator

variable {elaborator : Elaborator} {limit : Nat}

theorem param_withLimit (scope : Scope) (form : Form) :
    (elaborator.withLimit limit).param scope form = elaborator.param scope form := by
  unfold param
  simp only [typeName_withLimit]

theorem params_withLimit (scope : Scope) (forms : List Form) :
    (elaborator.withLimit limit).params scope forms = elaborator.params scope forms := by
  induction forms generalizing scope with
  | nil => rfl
  | cons form rest ih => simp only [params, param_withLimit, ih]

theorem paramList_withLimit (scope : Scope) (form : Form) :
    (elaborator.withLimit limit).paramList scope form = elaborator.paramList scope form := by
  unfold paramList
  split
  · exact params_withLimit _ _
  · rfl

mutual

/-- What elaborates at a depth elaborates to the same at any depth with as much room for it. -/
theorem Elaborates.relocate {form : Form} {scope : Scope} {depth otherDepth next later : Nat}
    {expr : Expr}
    (made : Elaborates elaborator scope depth form next expr later)
    (room : otherDepth + elaborator.maxDepth ≤ limit + depth) :
    Elaborates (elaborator.withLimit limit) scope otherDepth form next expr later := by
  have shallow : otherDepth ≤ limit := by
    have := made.shallow
    omega
  have inner : otherDepth + 1 + elaborator.maxDepth ≤ limit + (depth + 1) := by omega
  match made with
  | .constant _ literal => exact .constant shallow literal
  | .variable _ name bound => exact .variable shallow name bound
  | .list _ parts rule => exact .list shallow (parts.relocate inner) rule
  | .map _ paired parts rule => exact .map shallow paired (parts.relocate inner) rule
  | .unary _ head part rule => exact .unary shallow head (part.relocate inner) rule
  | .binary _ head left right rule =>
    exact .binary shallow head (left.relocate inner) (right.relocate inner) rule
  | .nary _ head first rest rule =>
    exact .nary shallow head (first.relocate inner) (rest.relocate inner) rule
  | .conditional _ head condition yes no rule =>
    exact .conditional shallow head (condition.relocate inner) (yes.relocate inner)
      (no.relocate inner) rule
  | .index _ head target args rule =>
    exact .index shallow head (target.relocate inner) (args.relocate inner) rule
  | .typeIs _ head named part rule =>
    exact .typeIs shallow head ((typeName_withLimit _).trans named) (part.relocate inner) rule
  | .typeAs _ head named part rule =>
    exact .typeAs shallow head ((typeName_withLimit _).trans named) (part.relocate inner) rule
  | .convert _ head named part rule =>
    exact .convert shallow head ((typeName_withLimit _).trans named) (part.relocate inner) rule
  | .typeOf _ head named => exact .typeOf shallow head ((typeName_withLimit _).trans named)
  | .defaultOf _ head named => exact .defaultOf shallow head ((typeName_withLimit _).trans named)
  | .construct _ head named args rule =>
    exact .construct shallow head ((typeName_withLimit _).trans named) (args.relocate inner) rule
  | .lambda _ head declared body =>
    refine .lambda shallow head ?_ (body.relocate inner)
    rw [paramList_withLimit]
    exact declared
termination_by structural made

theorem ElaboratesAll.relocate {forms : List Form} {scope : Scope}
    {depth otherDepth next later : Nat} {exprs : List Expr}
    (made : ElaboratesAll elaborator scope depth forms next exprs later)
    (room : otherDepth + elaborator.maxDepth ≤ limit + depth) :
    ElaboratesAll (elaborator.withLimit limit) scope otherDepth forms next exprs later := by
  match made with
  | .nil => exact .nil
  | .cons first rest => exact .cons (first.relocate room) (rest.relocate room)
termination_by structural made

end

end ExprLang.Elaborator
