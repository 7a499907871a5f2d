import ExprLang.Proofs.Registry.BaseChain

/-!
# Growing registries

The declaration of a host type whose name no host type has takes no assignability away
(`isAssignable_register`): a chain of bases that leads to a type other than `object` passes declared
types only, and their bases stay what they are.
-/

namespace ExprLang.Registry

variable {registry : Registry} {declaration : HostType} {source target base : Ty}

/-- A declaration decides the base of its own type, and of no other. -/
theorem base?_register (registry : Registry) (declaration : HostType) (ty : Ty) :
    (registry.register declaration).base? ty =
      if ty = .named declaration.name then some (declaration.base.getD .object)
      else registry.base? ty := by
  cases ty with
  | named name =>
    by_cases same : name = declaration.name
    · simp [base?, register, same]
    · simp [base?, register, same]
  | prim basic => cases basic <;> rfl
  | _ => rfl

/-- The base of a declared type is not changed by the declaration of another. -/
theorem isBase_register (unused : registry.types.get? declaration.name = none)
    (step : registry.IsBase source base) (notObject : base ≠ .object) :
    (registry.register declaration).IsBase source base := by
  unfold IsBase
  rw [base?_register, if_neg]
  · exact step
  · rintro rfl
    simp only [IsBase, base?, unused, Option.bind_none, Option.getD_none,
      Option.some.injEq] at step
    exact notObject step.symm

theorem chain_register (unused : registry.types.get? declaration.name = none)
    (chain : registry.Chain source target) (notObject : target ≠ .object) :
    (registry.register declaration).Chain source target := by
  induction chain using Relation.ReflTransGen.head_induction_on with
  | refl => exact .refl
  | head step rest ih =>
    refine .head (isBase_register unused step ?_) ih
    rintro rfl
    exact notObject (chain_of_object rest)

/-- What is assignable stays assignable when a host type of a new name is declared. -/
theorem isAssignable_register (unused : registry.types.get? declaration.name = none)
    (assignable : registry.isAssignable source target = true) :
    (registry.register declaration).isAssignable source target = true := by
  by_cases object : target = .object
  · rw [object, isAssignable_object]
  · rw [isAssignable_iff] at assignable ⊢
    exact .inr (chain_register unused (assignable.resolve_left object) object)

end ExprLang.Registry
