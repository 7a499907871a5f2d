import ExprLang.Proofs.Likeness.Basic
import ExprLang.Proofs.Registry.Settling

/-!
# Registries that agree on what two runs know

Two registries agree on the host types with known names if they give these the same bases,
constructors and indexers, which are built from known types again. Then they judge alike what is
assignable and find the same common bases of known types, however many other types either has.
-/

namespace ExprLang

variable {like : Likeness}

/-- An indexer speaks of known types and of code that is known. -/
structure Indexer.Known (like : Likeness) (indexer : Indexer) : Prop where
  result : indexer.result.Over like.names
  key : ∀ found, indexer = .host found → like.keys found.callback

/-- Two registries are the same for all types that are built from known host types. -/
structure Registry.Agree (like : Likeness) (registry other : Registry) : Prop where
  base : ∀ ty, ty.Over like.names → registry.base? ty = other.base? ty
  baseKnown : ∀ ty base, ty.Over like.names → registry.base? ty = some base → base.Over like.names
  indexers : ∀ ty, ty.Over like.names → registry.indexers ty = other.indexers ty
  indexersKnown : ∀ ty, ty.Over like.names → ∀ indexer ∈ registry.indexers ty, indexer.Known like
  constructors : ∀ ty, ty.Over like.names → registry.constructors ty = other.constructors ty
  constructorsKnown : ∀ ty, ty.Over like.names →
    ∀ constructor ∈ registry.constructors ty, like.keys constructor.callback

namespace Registry.Agree

variable {registry other : Registry} {x y : Ty}

/-- The chains of bases of known types are the same, and pass known types only. -/
theorem chain (agree : registry.Agree like other) (known : x.Over like.names)
    (chain : registry.Chain x y) : other.Chain x y ∧ y.Over like.names := by
  induction chain with
  | refl => exact ⟨.refl, known⟩
  | tail _ step ih =>
    obtain ⟨before, known⟩ := ih
    exact ⟨before.tail ((agree.base _ known).symm.trans step), agree.baseKnown _ _ known step⟩

theorem chain_symm (agree : registry.Agree like other) (known : x.Over like.names)
    (chain : other.Chain x y) : registry.Chain x y ∧ y.Over like.names := by
  induction chain with
  | refl => exact ⟨.refl, known⟩
  | tail _ step ih =>
    obtain ⟨before, known⟩ := ih
    have same := (agree.base _ known).trans step
    exact ⟨before.tail same, agree.baseKnown _ _ known same⟩

/-- Known types are assignable alike. -/
theorem isAssignable_eq (agree : registry.Agree like other) (known : x.Over like.names) (y : Ty) :
    registry.isAssignable x y = other.isAssignable x y := by
  rw [Bool.eq_iff_iff, isAssignable_iff, isAssignable_iff]
  exact or_congr Iff.rfl ⟨fun found => (agree.chain known found).1,
    fun found => (agree.chain_symm known found).1⟩

theorem areAssignable_eq (agree : registry.Agree like other) {sources : List Ty}
    (known : ∀ ty ∈ sources, ty.Over like.names) (targets : List Ty) :
    registry.areAssignable sources targets = other.areAssignable sources targets := by
  unfold areAssignable
  congr 1
  rw [Bool.eq_iff_iff, List.all_eq_true, List.all_eq_true]
  refine forall₂_congr fun pair belongs => ?_
  rw [agree.isAssignable_eq (known _ (List.of_mem_zip belongs).1)]

theorem searchBase_eq (agree : registry.Agree like other) (steps : Nat)
    (xKnown : x.Over like.names) (yKnown : y.Over like.names) :
    registry.searchBase steps x y = other.searchBase steps x y := by
  induction steps generalizing x y with
  | zero => rfl
  | succ steps ih =>
    unfold searchBase
    rw [agree.isAssignable_eq xKnown, agree.isAssignable_eq yKnown, ← agree.base _ xKnown]
    cases step : registry.base? x with
    | none => rfl
    | some base => simp only [ih yKnown (agree.baseKnown _ _ xKnown step)]

/-- The search for a common base ends alike, whatever the bounds on it are. -/
theorem nearestBase_eq (agree : registry.Agree like other) (xKnown : x.Over like.names)
    (yKnown : y.Over like.names) : registry.nearestBase x y = other.nearestBase x y := by
  let steps := max registry.searchBound other.searchBound
  calc registry.nearestBase x y
    _ = registry.searchBase steps x y := (Registry.searchBase_eq (Nat.le_max_left _ _)).symm
    _ = other.searchBase steps x y := agree.searchBase_eq steps xKnown yKnown
    _ = other.nearestBase x y := Registry.searchBase_eq (Nat.le_max_right _ _)

/-- What a search between known types finds is known. -/
theorem known_of_nearestBase (agree : registry.Agree like other) (xKnown : x.Over like.names)
    (yKnown : y.Over like.names) {base : Ty} (found : registry.nearestBase x y = .found base) :
    base.Over like.names := by
  rcases chain_of_searchBase found with ⟨chain, -⟩ | ⟨chain, -⟩
  · exact (agree.chain xKnown chain).2
  · exact (agree.chain yKnown chain).2

theorem foldl_next_eq (agree : registry.Agree like other) {types : List Ty} {start : BaseSearch}
    (startKnown : ∀ base, start = .found base → base.Over like.names)
    (known : ∀ ty ∈ types, ty.Over like.names) :
    types.foldl (commonBase.next registry) start = types.foldl (commonBase.next other) start ∧
      ∀ base, types.foldl (commonBase.next registry) start = .found base →
        base.Over like.names := by
  induction types generalizing start with
  | nil => exact ⟨rfl, startKnown⟩
  | cons ty rest ih =>
    rw [List.forall_mem_cons] at known
    have same : commonBase.next registry start ty = commonBase.next other start ty := by
      cases start with
      | found base => exact agree.nearestBase_eq (startKnown base rfl) known.1
      | missing | unsettled => rfl
    rw [List.foldl_cons, List.foldl_cons, ← same]
    refine ih ?_ known.2
    intro base found
    cases start with
    | found first => exact agree.known_of_nearestBase (startKnown first rfl) known.1 found
    | missing | unsettled => cases found

/-- Known types have the same common base, and it is known. -/
theorem commonBase?_eq (agree : registry.Agree like other) {types : List Ty}
    (known : ∀ ty ∈ types, ty.Over like.names) :
    registry.commonBase? types = other.commonBase? types ∧
      ∀ base, registry.commonBase? types = some base → base.Over like.names := by
  have search : registry.commonBase types = other.commonBase types ∧
      ∀ base, registry.commonBase types = .found base → base.Over like.names := by
    cases types with
    | nil => exact ⟨rfl, nofun⟩
    | cons first rest =>
      rw [List.forall_mem_cons] at known
      refine agree.foldl_next_eq ?_ known.2
      rintro base ⟨⟩
      exact known.1
  obtain ⟨same, baseKnown⟩ := search
  unfold commonBase?
  rw [← same]
  refine ⟨rfl, fun base found => baseKnown base ?_⟩
  split at found
  next ty search =>
    cases found
    exact search
  · cases found
  · cases found

end Registry.Agree

end ExprLang
