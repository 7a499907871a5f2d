import ExprLang.Proofs.Registry.BaseChain
import ExprLang.Registry.CommonBase

/-!
# Common bases are upper bounds

The search for a common base replaces one of two types by its base and lets them change places. All
the while the base that is found at the end stands above both types, so every type of a literal's
elements is assignable to the element type that is inferred (`isAssignable_of_commonBase?`).
-/

namespace ExprLang.Registry

variable {registry : Registry} {x y base : Ty}

/-- What the search finds lies above both types that it started from. -/
theorem isAssignable_of_searchBase {steps : Nat}
    (found : registry.searchBase steps x y = .found base) :
    registry.isAssignable x base = true ∧ registry.isAssignable y base = true := by
  induction steps generalizing x y with
  | zero => cases found
  | succ steps ih =>
    unfold searchBase at found
    split at found
    next above =>
      cases found
      refine ⟨isAssignable_refl _, ?_⟩
      rcases (Bool.or_eq_true ..).mp above with same | below
      · rw [beq_iff_eq.mp same]
        exact isAssignable_refl _
      · exact below
    · split at found
      next below =>
        cases found
        exact ⟨below, isAssignable_refl _⟩
      · split at found
        · cases found
        next next step =>
          obtain ⟨yBelow, nextBelow⟩ := ih found
          exact ⟨isAssignable_trans (isAssignable_base step) nextBelow, yBelow⟩

/-- A search over a list that finds a base started with one, and what it finds lies above that one
and above the whole list. -/
theorem foldl_next_found {start : BaseSearch} {types : List Ty}
    (found : types.foldl (commonBase.next registry) start = .found base) :
    ∃ first, start = .found first ∧ registry.isAssignable first base = true ∧
      ∀ ty ∈ types, registry.isAssignable ty base = true := by
  induction types generalizing start with
  | nil => exact ⟨base, found, isAssignable_refl base, by simp⟩
  | cons ty types ih =>
    obtain ⟨next, step, nextBelow, typesBelow⟩ := ih found
    cases start with
    | found first =>
      obtain ⟨firstBelow, tyBelow⟩ := isAssignable_of_searchBase step
      refine ⟨first, rfl, isAssignable_trans firstBelow nextBelow, ?_⟩
      intro member belongs
      rcases List.mem_cons.mp belongs with rfl | later
      · exact isAssignable_trans tyBelow nextBelow
      · exact typesBelow member later
    | missing => cases step
    | unsettled => cases step

/-- Each of the given types is assignable to their common base. -/
theorem isAssignable_of_commonBase? {types : List Ty}
    (found : registry.commonBase? types = some base) :
    ∀ ty ∈ types, registry.isAssignable ty base = true := by
  unfold commonBase? at found
  split at found
  next ty search =>
    cases found
    cases types with
    | nil => cases search
    | cons first rest =>
      obtain ⟨start, same, startBelow, restBelow⟩ := foldl_next_found search
      cases same
      intro member belongs
      rcases List.mem_cons.mp belongs with rfl | later
      · exact startBelow
      · exact restBelow member later
  · cases found
  · cases found

end ExprLang.Registry
