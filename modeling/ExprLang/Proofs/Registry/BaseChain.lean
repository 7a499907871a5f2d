import Mathlib.Data.List.Perm.Subperm
import Mathlib.Logic.Relation
import ExprLang.Registry

/-!
# Chains of bases

Assignability walks up the chain of bases for a bounded number of steps. This module shows that
the bound loses nothing: for every registry, chains that return to themselves and bases that were
never declared included, the walk decides whether the target is `object` or lies on the chain
(`isAssignable_iff`). Assignability is therefore reflexive and transitive on every registry.

A registry is `HostBased` if the chain of a host type holds host types and `object` only. On such
a registry nothing but the type itself is assignable to a type that is neither
(`HostBased.eq_target`).
-/

namespace ExprLang.Registry

variable (registry : Registry)

/-- One type is the base of another. -/
def IsBase (ty base : Ty) : Prop :=
  registry.base? ty = some base

/-- A type lies on the chain of bases of another, which starts with that type itself. -/
def Chain : Ty → Ty → Prop :=
  Relation.ReflTransGen registry.IsBase

/-- The chains of host types hold host types and `object` only. -/
def HostBased : Prop :=
  ∀ name target, registry.Chain (.named name) target →
    target = .object ∨ ∃ host, target = .named host

/-- A way from a type to a type on its chain, as the names of the host types that are left behind.
-/
def Path : Ty → List String → Ty → Prop
  | source, [], target => source = target
  | source, name :: names, target =>
    source = .named name ∧ ∃ base, registry.IsBase source base ∧ Path base names target

variable {registry} {source middle target base : Ty} {name : String} {names : List String}

/-! ## From chains to short paths -/

@[simp] theorem not_isBase_object : ¬ registry.IsBase .object base := by
  simp [IsBase, base?]

theorem isBase_of_builtin (builtin : ∀ name, source ≠ .named name)
    (step : registry.IsBase source base) : base = .object := by
  unfold IsBase base? at step
  split at step
  · cases step
  next host => exact absurd rfl (builtin host)
  · cases step
    rfl

/-- A host type whose base is not `object` has been declared. -/
theorem mem_keys_of_isBase (step : registry.IsBase (.named name) base)
    (notObject : base ≠ .object) :
    name ∈ registry.types.keys := by
  simp only [IsBase, base?, Option.some.injEq] at step
  cases found : registry.types.get? name with
  | none =>
    simp only [found, Option.bind_none, Option.getD_none] at step
    exact absurd step.symm notObject
  | some declaration =>
    obtain ⟨index, hit⟩ := List.lookup_eq_some_iff.mp found
    obtain ⟨behind, split, -⟩ := hit
    simp [Table.keys, split]

/-- No way leads out of `object`. -/
theorem Path.eq_object (path : registry.Path .object names target) : target = .object := by
  cases names with
  | nil => exact path.symm
  | cons name names =>
    obtain ⟨named, -⟩ := path
    cases named

/-- A path to a type other than `object` leaves declared types behind only. -/
theorem Path.subset_keys (path : registry.Path source names target) (notObject : target ≠ .object) :
    names ⊆ registry.types.keys := by
  induction names generalizing source with
  | nil => exact List.nil_subset _
  | cons name names ih =>
    obtain ⟨rfl, base, step, rest⟩ := path
    have baseNotObject : base ≠ .object := by
      rintro rfl
      exact notObject rest.eq_object
    exact List.cons_subset.mpr ⟨mem_keys_of_isBase step baseNotObject, ih rest⟩

/-- A path to a type other than `object` that passes no type twice is not longer than there are
declared types. -/
theorem Path.length_le_size (path : registry.Path source names target) (nodup : names.Nodup)
    (notObject : target ≠ .object) : names.length ≤ registry.types.size := by
  have within := (List.subperm_of_subset nodup (path.subset_keys notObject)).length_le
  rwa [Table.keys, List.length_map] at within

/-- A path that passes a type goes on from that type. -/
theorem Path.from_passed (path : registry.Path source names target) (passed : name ∈ names) :
    ∃ rest, rest <:+ names ∧ registry.Path (.named name) rest target := by
  induction names generalizing source with
  | nil => cases passed
  | cons first names ih =>
    have whole := path
    obtain ⟨rfl, base, -, rest⟩ := path
    rcases List.mem_cons.mp passed with rfl | later
    · exact ⟨name :: names, List.suffix_refl _, whole⟩
    · obtain ⟨tail, suffix, path⟩ := ih rest later
      exact ⟨tail, suffix.trans (List.suffix_cons _ _), path⟩

/-- Every type on a chain other than `object` is reached by a path that passes no type twice. -/
theorem Chain.exists_path (chain : registry.Chain source target) (notObject : target ≠ .object) :
    ∃ names, names.Nodup ∧ registry.Path source names target := by
  induction chain using Relation.ReflTransGen.head_induction_on with
  | refl => exact ⟨[], List.nodup_nil, rfl⟩
  | @head source base step chain ih =>
    obtain ⟨names, nodup, path⟩ := ih
    by_cases host : ∃ name, source = .named name
    · obtain ⟨name, rfl⟩ := host
      by_cases passed : name ∈ names
      -- The walk comes back to its start: what it did until then is left out.
      · obtain ⟨rest, suffix, shorter⟩ := path.from_passed passed
        exact ⟨rest, nodup.sublist suffix.sublist, shorter⟩
      · exact ⟨name :: names, List.nodup_cons.mpr ⟨passed, nodup⟩, rfl, base, step, path⟩
    · have baseObject := isBase_of_builtin (fun name same => host ⟨name, same⟩) step
      subst baseObject
      exact absurd path.eq_object notObject

/-! ## The bounded walk -/

theorem chain_of_reaches {steps : Nat} (reached : registry.reaches target steps source = true) :
    registry.Chain source target := by
  induction steps generalizing source with
  | zero => simp [reaches] at reached
  | succ steps ih =>
    unfold reaches at reached
    split at reached
    · cases reached
    next base step =>
      rcases (Bool.or_eq_true ..).mp reached with here | further
      · rw [← beq_iff_eq.mp here]
        exact Relation.ReflTransGen.single step
      · exact Relation.ReflTransGen.head step (ih further)

theorem Path.reaches {steps : Nat} (path : registry.Path source (name :: names) target)
    (enough : names.length < steps) : registry.reaches target steps source = true := by
  induction names generalizing source name steps with
  | nil =>
    obtain ⟨rfl, base, step, same⟩ := path
    obtain ⟨steps, rfl⟩ : ∃ fewer, steps = fewer + 1 := ⟨steps - 1, by simp at enough; omega⟩
    simp only [IsBase] at step
    simp [Registry.reaches, step, show base = target from same]
  | cons next names ih =>
    obtain ⟨rfl, base, step, rest⟩ := path
    obtain ⟨steps, rfl⟩ : ∃ fewer, steps = fewer + 1 := ⟨steps - 1, by omega⟩
    simp only [IsBase] at step
    have further := ih rest (by simpa using enough)
    simp [Registry.reaches, step, further]

/-- The bounded walk of assignability is exact: what it accepts is `object` and the whole chain of
bases, whatever bases were declared. -/
theorem isAssignable_iff :
    registry.isAssignable source target = true ↔
      target = .object ∨ registry.Chain source target := by
  constructor
  · intro assignable
    simp only [isAssignable, Bool.or_eq_true, beq_iff_eq] at assignable
    rcases assignable with (rfl | object) | reached
    · exact .inr Relation.ReflTransGen.refl
    · exact .inl object
    · exact .inr (chain_of_reaches reached)
  · rintro (rfl | chain)
    · simp [isAssignable]
    · by_cases object : target = .object
      · simp [isAssignable, object]
      · obtain ⟨names, nodup, path⟩ := chain.exists_path object
        cases names with
        | nil => simp [isAssignable, show source = target from path]
        | cons name names =>
          have within := path.length_le_size nodup object
          have enough : names.length < registry.types.size + 1 := by
            rw [List.length_cons] at within
            omega
          simp [isAssignable, path.reaches enough]

@[simp] theorem isAssignable_refl (ty : Ty) : registry.isAssignable ty ty = true :=
  isAssignable_iff.mpr (.inr Relation.ReflTransGen.refl)

@[simp] theorem isAssignable_object (ty : Ty) : registry.isAssignable ty .object = true :=
  isAssignable_iff.mpr (.inl rfl)

theorem isAssignable_base (step : registry.IsBase source base) :
    registry.isAssignable source base = true :=
  isAssignable_iff.mpr (.inr (Relation.ReflTransGen.single step))

theorem chain_of_object (chain : registry.Chain .object target) : target = .object := by
  induction chain with
  | refl => rfl
  | tail _ step ih =>
    subst ih
    exact absurd step not_isBase_object

theorem isAssignable_trans (first : registry.isAssignable source middle = true)
    (second : registry.isAssignable middle target = true) :
    registry.isAssignable source target = true := by
  rw [isAssignable_iff] at first second ⊢
  rcases second with object | above
  · exact .inl object
  · rcases first with rfl | below
    · exact .inl (chain_of_object above)
    · exact .inr (Relation.ReflTransGen.trans below above)

/-- A chain does not branch: of two types on it, one lies on the chain of the other. -/
theorem Chain.comparable {other : Ty} (chain : registry.Chain source target)
    (second : registry.Chain source other) :
    registry.Chain target other ∨ registry.Chain other target := by
  refine Relation.ReflTransGen.total_of_right_unique ?_ chain second
  intro ty base otherBase step otherStep
  exact Option.some.inj (step.symm.trans otherStep)

/-- Of two types that a type is assignable to, one is assignable to the other. -/
theorem isAssignable_comparable {other : Ty} (first : registry.isAssignable source target = true)
    (second : registry.isAssignable source other = true) :
    registry.isAssignable target other = true ∨ registry.isAssignable other target = true := by
  rw [isAssignable_iff] at first second
  rcases first with rfl | chain
  · exact .inr (isAssignable_object other)
  rcases second with rfl | secondChain
  · exact .inl (isAssignable_object target)
  exact (chain.comparable secondChain).imp (isAssignable_iff.mpr <| .inr ·)
    (isAssignable_iff.mpr <| .inr ·)

/-! ## Registries without built-in bases -/

/-- Only the type itself is assignable to a type that is neither `object` nor a host type. -/
theorem HostBased.eq_target (hostBased : registry.HostBased)
    (assignable : registry.isAssignable source target = true) (notObject : target ≠ .object)
    (notHost : ∀ name, target ≠ .named name) : source = target := by
  rcases isAssignable_iff.mp assignable with object | chain
  · exact absurd object notObject
  · by_cases host : ∃ name, source = .named name
    · obtain ⟨name, rfl⟩ := host
      rcases hostBased name target chain with object | ⟨other, named⟩
      · exact absurd object notObject
      · exact absurd named (notHost other)
    · rcases chain.cases_head with same | ⟨base, step, rest⟩
      · exact same
      · have baseObject := isBase_of_builtin (fun name same => host ⟨name, same⟩) step
        subst baseObject
        exact absurd (chain_of_object rest) notObject

/-- Nothing is assignable to a value type except that type. -/
theorem HostBased.eq_valueType (hostBased : registry.HostBased)
    (assignable : registry.isAssignable source target = true)
    (valueType : target.isValueType = true) : source = target := by
  apply hostBased.eq_target assignable
  · rintro rfl
    cases valueType
  · rintro name rfl
    cases valueType

/-- Whether a registry is host-based can be seen from its declarations. -/
theorem hostBased_of_declared
    (declared : ∀ name declaration base, registry.types.get? name = some declaration →
      declaration.base = some base → base = .object ∨ ∃ host, base = .named host) :
    registry.HostBased := by
  intro name target chain
  induction chain with
  | refl => exact .inr ⟨name, rfl⟩
  | tail _ step ih =>
    rcases ih with rfl | ⟨host, rfl⟩
    · exact absurd step not_isBase_object
    · simp only [IsBase, base?, Option.some.injEq] at step
      cases found : registry.types.get? host with
      | none =>
        simp only [found, Option.bind_none, Option.getD_none] at step
        exact .inl step.symm
      | some declaration =>
        cases based : declaration.base with
        | none =>
          simp only [found, based, Option.bind_some, Option.getD_none] at step
          exact .inl step.symm
        | some base =>
          simp only [found, based, Option.bind_some, Option.getD_some] at step
          subst step
          exact declared host declaration base found based

end ExprLang.Registry
