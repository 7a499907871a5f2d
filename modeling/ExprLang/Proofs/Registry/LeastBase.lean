import ExprLang.Proofs.Registry.Settling

/-!
# Common bases are least upper bounds

Assignability is a preorder on types, and a partial order on every registry whose host types all
have `object` on their chain of bases (`Grounded.eq_of_isAssignable`). There the search for a common
base always finds one. What it finds is not only an upper bound: a step of the search replaces a
type by its base, and every upper bound of both types other than that type itself stays one. So the
common base of a list is its least upper bound (`leastBase_of_commonBase?`), whatever the order in
which the fold meets the types, and depends on nothing but which types there are
(`Grounded.commonBase?_eq`).
-/

namespace ExprLang.Registry

variable {registry : Registry} {x y base bound : Ty} {types others : List Ty} {steps : Nat}

/-! ## Chains that end in `object` -/

/-- The chain of bases of every declared host type ends in `object`. -/
def Grounded (registry : Registry) : Prop :=
  ∀ name declaration, registry.types.get? name = some declaration →
    registry.Chain (.named name) .object

/-- On such a registry the chain of every type ends in `object`: names that were never declared have
that base. -/
theorem Grounded.chain_object (grounded : registry.Grounded) (ty : Ty) :
    registry.Chain ty .object := by
  cases step : registry.base? ty with
  | none =>
    cases eq_object_of_base? step
    exact .refl
  | some base =>
    by_cases host : ∃ name, ty = .named name
    · obtain ⟨name, rfl⟩ := host
      cases found : registry.types.get? name with
      | some declaration => exact grounded name declaration found
      | none =>
        simp only [base?, found, Option.bind_none, Option.getD_none, Option.some.injEq] at step
        subst step
        exact .single (by simp [IsBase, base?, found])
    · cases isBase_of_builtin (fun name same => host ⟨name, same⟩) step
      exact .single step

/-- No two types lie on the chains of each other. -/
theorem Grounded.eq_of_chain (grounded : registry.Grounded) (up : registry.Chain x y)
    (down : registry.Chain y x) : x = y := by
  -- Along the way from `x` to `object`: a chain that comes back to `x` comes back to its base too.
  have ends := grounded.chain_object x
  induction ends using Relation.ReflTransGen.head_induction_on generalizing y with
  | refl => exact (chain_of_object up).symm
  | @head x base step rest ih =>
    rcases up.cases_head with same | ⟨next, first, further⟩
    · exact same
    · have same : some next = some base := first.symm.trans step
      cases same
      have baseEq : base = y := ih further (down.tail step)
      subst baseEq
      exact (ih down (.single step)).symm

theorem Grounded.chain_of_isAssignable (grounded : registry.Grounded)
    (below : registry.isAssignable x y = true) : registry.Chain x y := by
  rcases isAssignable_iff.mp below with rfl | chain
  · exact grounded.chain_object x
  · exact chain

/-- Types that are assignable to each other are the same. -/
theorem Grounded.eq_of_isAssignable (grounded : registry.Grounded)
    (up : registry.isAssignable x y = true) (down : registry.isAssignable y x = true) : x = y :=
  grounded.eq_of_chain (grounded.chain_of_isAssignable up) (grounded.chain_of_isAssignable down)

/-! ## The least upper bound -/

/-- A type that every type of a list is assignable to, and that is itself assignable to every other
such type. -/
structure LeastBase (registry : Registry) (types : List Ty) (base : Ty) : Prop where
  above : ∀ ty ∈ types, registry.isAssignable ty base = true
  least : ∀ bound, (∀ ty ∈ types, registry.isAssignable ty bound = true) →
    registry.isAssignable base bound = true

/-- What a search finds is assignable to every bound of the two types. -/
theorem isAssignable_of_bound (found : registry.searchBase steps x y = .found base)
    (xBelow : registry.isAssignable x bound = true)
    (yBelow : registry.isAssignable y bound = true) :
    registry.isAssignable base bound = true := by
  induction steps generalizing x y with
  | zero => cases found
  | succ steps ih =>
    unfold searchBase at found
    split at found
    · cases found
      exact xBelow
    next notAbove =>
      split at found
      · cases found
        exact yBelow
      · split at found
        · cases found
        next next step =>
          -- The bound is not the type that is left: `y` is not assignable to that one.
          have differ : x ≠ bound := by
            rintro rfl
            simp [yBelow] at notAbove
          exact ih found yBelow (isAssignable_of_isBase step xBelow differ)

theorem foldl_next_least {first : Ty}
    (found : types.foldl (commonBase.next registry) (.found first) = .found base)
    (firstBelow : registry.isAssignable first bound = true)
    (typesBelow : ∀ ty ∈ types, registry.isAssignable ty bound = true) :
    registry.isAssignable base bound = true := by
  induction types generalizing first with
  | nil =>
    cases found
    exact firstBelow
  | cons ty types ih =>
    rw [List.foldl_cons] at found
    obtain ⟨next, step, -⟩ := foldl_next_found found
    have nextBelow : registry.isAssignable next bound = true :=
      isAssignable_of_bound step firstBelow (typesBelow ty List.mem_cons_self)
    rw [step] at found
    exact ih found nextBelow fun member later => typesBelow member (List.mem_cons_of_mem _ later)

theorem commonBase?_eq_some :
    registry.commonBase? types = some base ↔ registry.commonBase types = .found base := by
  unfold commonBase?
  split <;> simp_all

/-- What is found for a list is its least upper bound, on every registry. -/
theorem leastBase_of_commonBase? (found : registry.commonBase? types = some base) :
    registry.LeastBase types base := by
  refine ⟨isAssignable_of_commonBase? found, fun bound below => ?_⟩
  have search := commonBase?_eq_some.mp found
  cases types with
  | nil => cases search
  | cons first rest =>
    exact foldl_next_least search (below first List.mem_cons_self)
      fun member later => below member (List.mem_cons_of_mem _ later)

/-! ## Existence and uniqueness -/

theorem Grounded.exists_nearestBase (grounded : registry.Grounded) (x y : Ty) :
    ∃ base, registry.nearestBase x y = .found base := by
  obtain ⟨count, within, above⟩ := (grounded.chain_object x).above
  obtain ⟨base, found⟩ := exists_found_of_above above (isAssignable_object y)
  exact ⟨base, searchBase_mono found (by unfold searchBound; omega)⟩

theorem Grounded.exists_commonBase? (grounded : registry.Grounded) (nonempty : types ≠ []) :
    ∃ base, registry.commonBase? types = some base := by
  have folds (rest : List Ty) : ∀ first,
      ∃ base, rest.foldl (commonBase.next registry) (.found first) = .found base := by
    induction rest with
    | nil => exact fun first => ⟨first, rfl⟩
    | cons ty rest ih =>
      intro first
      obtain ⟨next, step⟩ := grounded.exists_nearestBase first ty
      obtain ⟨base, found⟩ := ih next
      exact ⟨base, by rw [List.foldl_cons, commonBase.next, step, found]⟩
  cases types with
  | nil => exact absurd rfl nonempty
  | cons first rest =>
    obtain ⟨base, found⟩ := folds rest first
    exact ⟨base, commonBase?_eq_some.mpr found⟩

theorem LeastBase.unique {other : Ty} (grounded : registry.Grounded)
    (here : registry.LeastBase types base) (there : registry.LeastBase types other) :
    base = other :=
  grounded.eq_of_isAssignable (here.least other there.above) (there.least base here.above)

theorem LeastBase.of_same (here : registry.LeastBase types base)
    (same : ∀ ty, ty ∈ types ↔ ty ∈ others) : registry.LeastBase others base where
  above ty belongs := here.above ty ((same ty).mpr belongs)
  least bound below := here.least bound fun ty belongs => below ty ((same ty).mp belongs)

/-- The common base depends on which types there are, and not on their order or number. -/
theorem Grounded.commonBase?_eq (grounded : registry.Grounded)
    (same : ∀ ty, ty ∈ types ↔ ty ∈ others) :
    registry.commonBase? types = registry.commonBase? others := by
  by_cases empty : types = []
  · subst empty
    have none : others = [] :=
      List.eq_nil_iff_forall_not_mem.mpr fun ty belongs => nomatch (same ty).mpr belongs
    rw [none]
  · have others_ne : others ≠ [] := by
      obtain ⟨ty, belongs⟩ := List.exists_mem_of_ne_nil types empty
      exact List.ne_nil_of_mem ((same ty).mp belongs)
    obtain ⟨base, here⟩ := grounded.exists_commonBase? empty
    obtain ⟨other, there⟩ := grounded.exists_commonBase? others_ne
    have least := (leastBase_of_commonBase? here).of_same same
    rw [here, there, least.unique grounded (leastBase_of_commonBase? there)]

end ExprLang.Registry
