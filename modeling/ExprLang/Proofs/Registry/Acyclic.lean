import ExprLang.Proofs.Registry.Growth
import ExprLang.Proofs.Registry.LeastBase

/-!
# Registries without cycles of bases

A host can base a type on itself, or two types on each other. On a registry where no type comes back
to itself along its bases, the chain of every type ends in `object`: a chain that does not end
passes more types than are declared, and so one of them twice (`grounded_iff_acyclic`).

What assignability decides on any registry stands in `assignability_is_reachability`: the bounded
walk along the bases finds exactly the types that can be reached along them. It is a preorder,
without cycles it is a partial order, and the declaration of a further type takes nothing away.
-/

namespace ExprLang.Registry

variable {registry : Registry} {source target base x y : Ty} {name : String} {names : List String}

/-- No type comes back to itself along its bases. -/
def Acyclic (registry : Registry) : Prop :=
  ∀ ty, ¬ Relation.TransGen registry.IsBase ty ty

/-! ## Chains that end -/

theorem Path.chain_of_mem (path : registry.Path source names target) (passed : name ∈ names) :
    registry.Chain source (.named name) := by
  induction names generalizing source with
  | nil => cases passed
  | cons first names ih =>
    obtain ⟨rfl, base, step, rest⟩ := path
    rcases List.mem_cons.mp passed with rfl | later
    · exact .refl
    · exact .head step (ih rest later)

/-- Without cycles a path passes no type twice. -/
theorem Acyclic.nodup_of_path (acyclic : registry.Acyclic)
    (path : registry.Path source names target) : names.Nodup := by
  induction names generalizing source with
  | nil => exact List.nodup_nil
  | cons first names ih =>
    obtain ⟨rfl, base, step, rest⟩ := path
    refine List.nodup_cons.mpr ⟨fun passed => ?_, ih rest⟩
    exact acyclic _ (.head' step (rest.chain_of_mem passed))

/-- From a type whose chain does not end in `object` there are paths of every length. -/
theorem exists_path_of_endless (endless : ¬ registry.Chain source .object) (length : Nat) :
    ∃ names target, names.length = length ∧ target ≠ .object ∧
      registry.Path source names target := by
  induction length generalizing source with
  | zero =>
    refine ⟨[], source, rfl, ?_, rfl⟩
    rintro rfl
    exact endless .refl
  | succ length ih =>
    cases step : registry.base? source with
    | none =>
      cases eq_object_of_base? step
      exact absurd .refl endless
    | some base =>
      have further : ¬ registry.Chain base .object := fun chain => endless (.head step chain)
      by_cases host : ∃ name, source = .named name
      · obtain ⟨name, rfl⟩ := host
        obtain ⟨names, target, count, notObject, path⟩ := ih further
        exact ⟨name :: names, target, by rw [List.length_cons, count], notObject, rfl, base, step,
          path⟩
      · cases isBase_of_builtin (fun name same => host ⟨name, same⟩) step
        exact absurd .refl further

theorem Acyclic.grounded (acyclic : registry.Acyclic) : registry.Grounded := by
  intro name declaration declared
  by_contra endless
  obtain ⟨names, target, count, notObject, path⟩ :=
    exists_path_of_endless endless (registry.types.size + 1)
  have within := path.length_le_size (acyclic.nodup_of_path path) notObject
  omega

theorem Grounded.acyclic (grounded : registry.Grounded) : registry.Acyclic := by
  intro ty cycle
  obtain ⟨base, step, back⟩ := Relation.TransGen.head'_iff.mp cycle
  -- A type on a cycle is its own base, so its chain leads nowhere else, not to `object` either.
  obtain rfl : ty = base := grounded.eq_of_chain (.single step) back
  have stays : ∀ {target}, registry.Chain ty target → target = ty := by
    intro target chain
    induction chain with
    | refl => rfl
    | tail _ next ih =>
      subst ih
      exact Option.some.inj (next.symm.trans step)
  cases stays (grounded.chain_object ty)
  exact not_isBase_object step

/-- There are no cycles of bases exactly if the chain of every declared type ends in `object`. -/
theorem grounded_iff_acyclic : registry.Grounded ↔ registry.Acyclic :=
  ⟨Grounded.acyclic, Acyclic.grounded⟩

/-! ## What assignability decides -/

/-- **Assignability is reachability along bases.** On every registry, cycles of bases and bases that
were never declared included, a type is assignable to `object` and to what is reached from it by any
number of bases, and to nothing else: the bound on the walk cuts off no type that can be reached. So
assignability is reflexive and transitive, antisymmetric where there are no cycles, and the
declaration of a host type whose name no host type has takes none of it away. -/
theorem assignability_is_reachability (registry : Registry) :
    (∀ source target, registry.isAssignable source target = true ↔
      target = .object ∨ Relation.ReflTransGen registry.IsBase source target) ∧
    (∀ ty, registry.isAssignable ty ty = true) ∧
    (∀ source middle target, registry.isAssignable source middle = true →
      registry.isAssignable middle target = true → registry.isAssignable source target = true) ∧
    (registry.Acyclic → ∀ x y, registry.isAssignable x y = true →
      registry.isAssignable y x = true → x = y) ∧
    ∀ declaration, registry.types.get? declaration.name = none →
      ∀ source target, registry.isAssignable source target = true →
        (registry.register declaration).isAssignable source target = true := by
  refine ⟨fun source target => isAssignable_iff, isAssignable_refl, ?_, ?_, ?_⟩
  · intro source middle target first second
    exact isAssignable_trans first second
  · intro acyclic x y up down
    exact acyclic.grounded.eq_of_isAssignable up down
  · intro declaration unused source target assignable
    exact isAssignable_register unused assignable

def strays : Registry :=
  (({} : Registry).register { name := "Puppy", base := some (.named "Dog") }).register
    { name := "Dog", base := some (.named "Animal") }

theorem acyclic_strays : strays.Acyclic := by
  refine Grounded.acyclic fun name declaration found => ?_
  have animal : strays.Chain (.named "Animal") .object := .single rfl
  have dog : strays.Chain (.named "Dog") .object := .head rfl animal
  have known : name ∈ strays.types.keys := by
    obtain ⟨before, behind, split, -⟩ := List.lookup_eq_some_iff.mp found
    simp [Table.keys, split]
  have names : strays.types.keys = ["Puppy", "Dog"] := by decide
  rw [names] at known
  simp only [List.mem_cons, List.not_mem_nil, or_false] at known
  rcases known with rfl | rfl
  · exact .head rfl dog
  · exact dog

/-- A puppy is an animal, through a chain that is as long as there are declared types and ends in a
type that is not declared. It stays one when animals are declared to be beings. No animal is a puppy.
-/
theorem assignability_is_reachability_strays :
    strays.types.size = 2 ∧ strays.isAssignable (.named "Puppy") (.named "Animal") = true ∧
      strays.isAssignable (.named "Animal") (.named "Puppy") = false ∧
      (strays.register { name := "Animal", base := some (.named "Being") }).isAssignable
        (.named "Puppy") (.named "Animal") = true := by
  obtain ⟨exact, -, transitive, antisymmetric, grows⟩ := assignability_is_reachability strays
  have dog : strays.isAssignable (.named "Puppy") (.named "Dog") = true :=
    (exact _ _).mpr (.inr (.single rfl))
  have animal : strays.isAssignable (.named "Dog") (.named "Animal") = true :=
    (exact _ _).mpr (.inr (.single rfl))
  have puppy := transitive _ _ _ dog animal
  refine ⟨rfl, puppy, ?_, grows _ rfl _ _ puppy⟩
  cases back : strays.isAssignable (.named "Animal") (.named "Puppy") with
  | false => rfl
  | true => exact absurd (antisymmetric acyclic_strays _ _ puppy back) (by decide)

end ExprLang.Registry
