import ExprLang.Proofs.Registry.CommonBase

/-!
# When a search for a common base settles

A search that finds a common base in any number of steps finds it within the steps that
`Registry.searchBound` allows (`exists_found`): what it finds lies on the chain of bases of one of
the two types, and no chain passes more types than are declared. So the result of a search does not
depend on how many steps it is allowed, as long as these are not fewer (`searchBase_eq`).
-/

namespace ExprLang.Registry

variable {registry : Registry} {x y z base : Ty} {steps more : Nat}

/-- More steps do not change what a search has found. -/
theorem searchBase_mono (found : registry.searchBase steps x y = .found base)
    (enough : steps ≤ more) : registry.searchBase more x y = .found base := by
  induction steps generalizing x y more with
  | zero => cases found
  | succ steps ih =>
    obtain ⟨more, rfl⟩ : ∃ fewer, more = fewer + 1 := ⟨more - 1, by omega⟩
    unfold searchBase at found ⊢
    split at found
    next above => rw [if_pos above, found]
    next notAbove =>
      rw [if_neg notAbove]
      split at found
      next below => rw [if_pos below, found]
      next notBelow =>
        rw [if_neg notBelow]
        split at found
        · cases found
        next next step => exact ih found (by omega)

theorem eq_object_of_base? (none : registry.base? x = none) : x = .object := by
  unfold base? at none
  split at none <;> first | rfl | cases none

/-- A search never runs out of bases: only `object` has none, and everything is assignable to that.
-/
theorem searchBase_ne_missing : registry.searchBase steps x y ≠ .missing := by
  induction steps generalizing x y with
  | zero => rintro ⟨⟩
  | succ steps ih =>
    unfold searchBase
    split
    · rintro ⟨⟩
    next notAbove =>
      split
      · rintro ⟨⟩
      · split
        next none =>
          cases eq_object_of_base? none
          simp at notAbove
        · exact ih

/-- What a search finds is on the chain of bases of one of the types, and the other type is
assignable to it. -/
theorem chain_of_searchBase (found : registry.searchBase steps x y = .found base) :
    (registry.Chain x base ∧ registry.isAssignable y base = true) ∨
      registry.Chain y base ∧ registry.isAssignable x base = true := by
  induction steps generalizing x y with
  | zero => cases found
  | succ steps ih =>
    unfold searchBase at found
    split at found
    next above =>
      cases found
      refine .inl ⟨.refl, ?_⟩
      rcases (Bool.or_eq_true ..).mp above with same | below
      · rw [beq_iff_eq.mp same]
        exact isAssignable_refl _
      · exact below
    · split at found
      next below =>
        cases found
        exact .inr ⟨.refl, below⟩
      · split at found
        · cases found
        next next step =>
          rcases ih found with ⟨chain, below⟩ | ⟨chain, below⟩
          · exact .inr ⟨chain, isAssignable_trans (isAssignable_base step) below⟩
          · exact .inl ⟨.head step chain, below⟩

/-- A type lies a number of bases above another. -/
def Above (registry : Registry) : Nat → Ty → Ty → Prop
  | 0, source, target => source = target
  | count + 1, source, target =>
    ∃ base, registry.IsBase source base ∧ Above registry count base target

theorem Path.above {names : List String} (path : registry.Path x names z) :
    registry.Above names.length x z := by
  induction names generalizing x with
  | nil => exact path
  | cons name names ih =>
    obtain ⟨-, base, step, rest⟩ := path
    exact ⟨base, step, ih rest⟩

theorem Above.tail {count : Nat} (above : registry.Above count x y) (step : registry.IsBase y z) :
    registry.Above (count + 1) x z := by
  induction count generalizing x with
  | zero =>
    cases above
    exact ⟨z, step, rfl⟩
  | succ count ih =>
    obtain ⟨base, first, rest⟩ := above
    exact ⟨base, first, ih rest⟩

/-- A type on a chain other than `object` is not further up than there are declared types. -/
theorem Chain.above_of_ne (chain : registry.Chain x z) (notObject : z ≠ .object) :
    ∃ count, count ≤ registry.types.size ∧ registry.Above count x z := by
  obtain ⟨names, nodup, path⟩ := chain.exists_path notObject
  exact ⟨names.length, path.length_le_size nodup notObject, path.above⟩

/-- What is on a chain is at most one step further up than there are declared types. -/
theorem Chain.above (chain : registry.Chain x z) :
    ∃ count, count ≤ registry.types.size + 1 ∧ registry.Above count x z := by
  by_cases object : z = .object
  · rcases Relation.ReflTransGen.cases_tail chain with same | ⟨last, before, step⟩
    · exact ⟨0, Nat.zero_le _, same.symm⟩
    · have notObject : last ≠ .object := by
        rintro rfl
        exact not_isBase_object step
      obtain ⟨count, within, above⟩ := Chain.above_of_ne before notObject
      exact ⟨count + 1, Nat.succ_le_succ within, above.tail step⟩
  · obtain ⟨count, within, above⟩ := chain.above_of_ne object
    exact ⟨count, Nat.le_succ_of_le within, above⟩

/-- What a type other than a bound is assignable to the bound by, its base is too. -/
theorem isAssignable_of_isBase (step : registry.IsBase y base)
    (below : registry.isAssignable y z = true) (differ : y ≠ z) :
    registry.isAssignable base z = true := by
  rw [isAssignable_iff] at below ⊢
  refine below.imp id fun chain => ?_
  rcases Relation.ReflTransGen.cases_head chain with same | ⟨next, first, rest⟩
  · exact absurd same differ
  · have same : some next = some base := first.symm.trans step
    cases same
    exact rest

theorem isAssignable_of_above {count : Nat} (above : registry.Above count x z) :
    registry.isAssignable x z = true := by
  induction count generalizing x with
  | zero =>
    cases above
    exact isAssignable_refl _
  | succ count ih =>
    obtain ⟨base, step, rest⟩ := above
    exact isAssignable_trans (isAssignable_base step) (ih rest)

/-- A search finds something as soon as the first type has been replaced as often as a bound lies
above it that the second type is assignable to. -/
theorem exists_found_of_above {count : Nat} (above : registry.Above count x z)
    (below : registry.isAssignable y z = true) :
    ∃ base, registry.searchBase (2 * count + 1) x y = .found base := by
  -- Two steps of the search replace both types by their bases, which stay below the bound.
  induction count generalizing x y with
  | zero =>
    cases above
    exact ⟨z, by simp only [searchBase, below, Bool.or_true, if_true]⟩
  | succ count ih =>
    obtain ⟨next, step, rest⟩ := above
    have xStep : registry.base? x = some next := step
    rw [show 2 * (count + 1) + 1 = 2 * count + 1 + 1 + 1 by omega, searchBase]
    split
    · exact ⟨_, rfl⟩
    · split
      · exact ⟨_, rfl⟩
      rw [xStep]
      dsimp only
      rw [searchBase]
      split
      · exact ⟨_, rfl⟩
      next notAbove =>
        split
        · exact ⟨_, rfl⟩
        have differ : y ≠ z := by
          rintro rfl
          simp [isAssignable_of_above rest] at notAbove
        cases yStep : registry.base? y with
        | none =>
          cases eq_object_of_base? yStep
          simp at notAbove
        | some yNext => exact ih rest (isAssignable_of_isBase yStep below differ)

/-- A search finds something within its bound if a type on the chain of one of the types is one that
the other is assignable to. -/
theorem exists_found_of_chain
    (meet : (registry.Chain x z ∧ registry.isAssignable y z = true) ∨
      registry.Chain y z ∧ registry.isAssignable x z = true) :
    ∃ base, registry.nearestBase x y = .found base := by
  rcases meet with ⟨chain, below⟩ | ⟨chain, below⟩
  · obtain ⟨count, within, above⟩ := Chain.above chain
    obtain ⟨base, settled⟩ := exists_found_of_above above below
    exact ⟨base, searchBase_mono settled (by unfold searchBound; omega)⟩
  · obtain ⟨count, within, above⟩ := Chain.above chain
    have first : ∃ base, registry.searchBase (2 * count + 1 + 1) x y = .found base := by
      rw [searchBase]
      split
      · exact ⟨_, rfl⟩
      next notAbove =>
        split
        · exact ⟨_, rfl⟩
        cases step : registry.base? x with
        | none =>
          cases eq_object_of_base? step
          simp at notAbove
        | some next =>
          have differ : x ≠ z := by
            rintro rfl
            simp [isAssignable_of_above above] at notAbove
          exact exists_found_of_above above (isAssignable_of_isBase step below differ)
    obtain ⟨base, settled⟩ := first
    exact ⟨base, searchBase_mono settled (by unfold searchBound; omega)⟩

/-- A search that finds something finds it within its bound. -/
theorem exists_found (found : registry.searchBase steps x y = .found base) :
    ∃ other, registry.nearestBase x y = .found other :=
  exists_found_of_chain (chain_of_searchBase found)

/-- A search that is allowed enough steps ends as it does within its bound. -/
theorem searchBase_eq (enough : registry.searchBound ≤ steps) :
    registry.searchBase steps x y = registry.nearestBase x y := by
  unfold nearestBase
  cases within : registry.searchBase registry.searchBound x y with
  | found base => exact searchBase_mono within enough
  | missing => exact absurd within searchBase_ne_missing
  | unsettled =>
    cases longer : registry.searchBase steps x y with
    | found base =>
      obtain ⟨other, found⟩ := exists_found longer
      rw [nearestBase, within] at found
      cases found
    | missing => exact absurd longer searchBase_ne_missing
    | unsettled => rfl

end ExprLang.Registry
