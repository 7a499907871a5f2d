import ExprLang.Expr.Typing
import ExprLang.Proofs.Registry.Acyclic

/-!
# Searches that never end

A search for a common base goes up two chains of bases until one type is assignable to the other.
`Registry.searchBase` counts its steps; this module is about the search without the count, which ends
if some number of steps is enough. It ends exactly if the chains of the two types meet
(`searchBase_ends_iff`), and then within `Registry.searchBound` steps. Chains that return to
themselves and share no type do not meet, so on a registry that bases two types each on itself the
search for their common base goes on forever (`endless_search`). Without cycles every search ends.
-/

namespace ExprLang.Registry

variable {registry : Registry} {x y z base first : Ty} {types rest : List Ty} {steps more : Nat}

/-! ## Two types -/

/-- The chains of two types meet: one of them ends in `object`, which every type is assignable to, or
they share a type. -/
def Meet (registry : Registry) (x y : Ty) : Prop :=
  registry.Chain x .object ∨ registry.Chain y .object ∨
    ∃ z, registry.Chain x z ∧ registry.Chain y z

/-- Chains meet if a type on one of them is one that the type at the start of the other is assignable
to. -/
theorem meet_iff :
    registry.Meet x y ↔ ∃ z, (registry.Chain x z ∧ registry.isAssignable y z = true) ∨
      registry.Chain y z ∧ registry.isAssignable x z = true := by
  constructor
  · rintro (xEnds | yEnds | ⟨z, xChain, yChain⟩)
    · exact ⟨.object, .inl ⟨xEnds, isAssignable_object y⟩⟩
    · exact ⟨.object, .inr ⟨yEnds, isAssignable_object x⟩⟩
    · exact ⟨z, .inl ⟨xChain, isAssignable_iff.mpr (.inr yChain)⟩⟩
  · rintro ⟨z, ⟨xChain, below⟩ | ⟨yChain, below⟩⟩
    · rcases isAssignable_iff.mp below with rfl | yChain
      · exact .inl xChain
      · exact .inr (.inr ⟨z, xChain, yChain⟩)
    · rcases isAssignable_iff.mp below with rfl | xChain
      · exact .inr (.inl yChain)
      · exact .inr (.inr ⟨z, xChain, yChain⟩)

/-- A search ends unsettled or with a base. -/
theorem found_of_ne_unsettled (ends : registry.searchBase steps x y ≠ .unsettled) :
    ∃ base, registry.searchBase steps x y = .found base := by
  cases search : registry.searchBase steps x y with
  | found base => exact ⟨base, rfl⟩
  | missing => exact absurd search searchBase_ne_missing
  | unsettled => exact absurd search ends

theorem meet_iff_nearestBase : registry.Meet x y ↔ ∃ base, registry.nearestBase x y = .found base := by
  rw [meet_iff]
  constructor
  · rintro ⟨z, meet⟩
    exact exists_found_of_chain meet
  · rintro ⟨base, found⟩
    exact ⟨base, chain_of_searchBase found⟩

/-- The search for the common base of two types ends exactly if their chains meet. -/
theorem searchBase_ends_iff :
    (∃ steps, registry.searchBase steps x y ≠ .unsettled) ↔ registry.Meet x y := by
  rw [meet_iff_nearestBase]
  constructor
  · rintro ⟨steps, ends⟩
    obtain ⟨base, found⟩ := found_of_ne_unsettled ends
    exact exists_found found
  · rintro ⟨base, found⟩
    refine ⟨registry.searchBound, ?_⟩
    rw [← nearestBase, found]
    rintro ⟨⟩

/-! ## Lists of types -/

/-- The nearest common base of a type and a list of types, with a number of steps for each pair that
is searched. -/
def searchAll (registry : Registry) (steps : Nat) : Ty → List Ty → BaseSearch
  | first, [] => .found first
  | first, ty :: rest =>
    match registry.searchBase steps first ty with
    | .found base => searchAll registry steps base rest
    | ended => ended

/-- The common base of a list is searched with the steps of the bound for each pair. -/
theorem searchAll_searchBound (registry : Registry) (first : Ty) (rest : List Ty) :
    registry.searchAll registry.searchBound first rest = registry.commonBase (first :: rest) := by
  have stopped {ended : BaseSearch} (stops : ∀ base, ended ≠ .found base) (types : List Ty) :
      types.foldl (commonBase.next registry) ended = ended := by
    induction types with
    | nil => rfl
    | cons ty types ih =>
      cases ended with
      | found base => exact absurd rfl (stops base)
      | missing | unsettled => exact ih
  change _ = rest.foldl (commonBase.next registry) (.found first)
  induction rest generalizing first with
  | nil => rfl
  | cons ty rest ih =>
    rw [searchAll, List.foldl_cons, commonBase.next, nearestBase]
    cases registry.searchBase registry.searchBound first ty with
    | found base => exact ih base
    | missing => exact (stopped (by rintro _ ⟨⟩) rest).symm
    | unsettled => exact (stopped (by rintro _ ⟨⟩) rest).symm

/-- A search over a list that ends has found a base, and finds it with more steps too. -/
theorem found_of_searchAll (ends : registry.searchAll steps first rest ≠ .unsettled) :
    ∃ base, ∀ more, steps ≤ more → registry.searchAll more first rest = .found base := by
  induction rest generalizing first with
  | nil => exact ⟨first, fun _ _ => rfl⟩
  | cons ty rest ih =>
    rw [searchAll] at ends
    have settled : registry.searchBase steps first ty ≠ .unsettled := by
      intro unsettled
      rw [unsettled] at ends
      exact ends rfl
    obtain ⟨next, found⟩ := found_of_ne_unsettled settled
    rw [found] at ends
    obtain ⟨base, further⟩ := ih ends
    refine ⟨base, fun more le => ?_⟩
    rw [searchAll, searchBase_mono found le]
    exact further more le

/-- Each type of a list meets the common base of a first type and of the types before it. -/
def MeetAll (registry : Registry) : Ty → List Ty → Prop
  | _, [] => True
  | first, ty :: rest => registry.Meet first ty ∧
    ∀ base, registry.nearestBase first ty = .found base → MeetAll registry base rest

theorem searchAll_ne_unsettled_iff (enough : registry.searchBound ≤ steps) :
    registry.searchAll steps first rest ≠ .unsettled ↔ registry.MeetAll first rest := by
  induction rest generalizing first with
  | nil => simp [searchAll, MeetAll]
  | cons ty rest ih =>
    rw [searchAll, searchBase_eq enough, MeetAll, meet_iff_nearestBase]
    cases search : registry.nearestBase first ty with
    | found base => simp [ih]
    | missing => exact absurd search searchBase_ne_missing
    | unsettled => simp

/-- The search for the common base of a list ends exactly if the types meet one after the other. -/
theorem searchAll_ends_iff :
    (∃ steps, registry.searchAll steps first rest ≠ .unsettled) ↔ registry.MeetAll first rest := by
  constructor
  · rintro ⟨steps, ends⟩
    obtain ⟨base, found⟩ := found_of_searchAll ends
    rw [← searchAll_ne_unsettled_iff (Nat.le_max_right steps registry.searchBound),
      found _ (Nat.le_max_left _ _)]
    rintro ⟨⟩
  · intro meet
    exact ⟨registry.searchBound, (searchAll_ne_unsettled_iff (Nat.le_refl _)).mpr meet⟩

/-- A search that ends, ends as it does within the bound. -/
theorem commonBase_of_ends (ends : registry.searchAll steps first rest ≠ .unsettled) :
    registry.commonBase (first :: rest) = registry.searchAll steps first rest := by
  have meet := searchAll_ends_iff.mp ⟨steps, ends⟩
  obtain ⟨base, within⟩ := found_of_searchAll
    ((searchAll_ne_unsettled_iff (Nat.le_refl _)).mpr meet)
  obtain ⟨other, settled⟩ := found_of_searchAll ends
  calc registry.commonBase (first :: rest)
    _ = registry.searchAll registry.searchBound first rest := (searchAll_searchBound ..).symm
    _ = .found base := within _ (Nat.le_refl _)
    _ = registry.searchAll (max steps registry.searchBound) first rest :=
      (within _ (Nat.le_max_right _ _)).symm
    _ = .found other := settled _ (Nat.le_max_left _ _)
    _ = registry.searchAll steps first rest := (settled _ (Nat.le_refl _)).symm

/-- The element type of a literal is inferred exactly if the search for it ends. -/
theorem elementTy_ok_iff (loc : Location) :
    (∃ ty, Typing.elementTy registry loc (first :: rest) = .ok ty) ↔
      ∃ steps, registry.searchAll steps first rest ≠ .unsettled := by
  have inferred (ty : Ty) : Typing.elementTy registry loc (first :: rest) = .ok ty ↔
      registry.commonBase (first :: rest) = .found ty := by
    rw [← commonBase?_eq_some, Typing.elementTy]
    cases registry.commonBase? (first :: rest) <;> simp [faultAt]
  simp only [inferred]
  constructor
  · rintro ⟨ty, found⟩
    refine ⟨registry.searchBound, ?_⟩
    rw [searchAll_searchBound, found]
    rintro ⟨⟩
  · rintro ⟨steps, ends⟩
    obtain ⟨base, found⟩ := found_of_searchAll ends
    exact ⟨base, (commonBase_of_ends ends).trans (found steps (Nat.le_refl _))⟩

theorem Acyclic.meetAll (acyclic : registry.Acyclic) (first : Ty) (rest : List Ty) :
    registry.MeetAll first rest := by
  induction rest generalizing first with
  | nil => trivial
  | cons ty rest ih => exact ⟨.inl (acyclic.grounded.chain_object first), fun base _ => ih base⟩

/-! ## Rings of bases -/

def rings : Registry :=
  (({} : Registry).register { name := "Ring", base := some (.named "Ring") }).register
    { name := "Loop", base := some (.named "Loop") }

/-- Where two types are their own bases, the search for their common base never ends: each step
replaces one of them by itself and lets the two change places. -/
theorem endless_search :
    ¬ ∃ steps, rings.searchAll steps (.named "Ring") [.named "Loop"] ≠ .unsettled := by
  have unsettled (steps : Nat) :
      rings.searchBase steps (.named "Ring") (.named "Loop") = .unsettled ∧
        rings.searchBase steps (.named "Loop") (.named "Ring") = .unsettled := by
    have apart : rings.isAssignable (.named "Ring") (.named "Loop") = false ∧
        rings.isAssignable (.named "Loop") (.named "Ring") = false := by decide
    have ring : rings.base? (.named "Ring") = some (.named "Ring") := rfl
    have loop : rings.base? (.named "Loop") = some (.named "Loop") := rfl
    induction steps with
    | zero => exact ⟨rfl, rfl⟩
    | succ steps ih => simp [searchBase, apart, ring, loop, ih]
  rintro ⟨steps, ends⟩
  rw [searchAll, (unsettled steps).1] at ends
  exact ends rfl

/-- **When a search for a common base ends.** The search for two types ends exactly if their chains of
bases meet, and the search for a list if its types meet one after the other; the element type of a
literal is inferred exactly then. A search that ends does so within a bound on its steps that is twice
the number of declared types and eight. On a registry without cycles every search ends. -/
theorem search_ends_iff_chains_meet (registry : Registry) :
    (∀ x y, (∃ steps, registry.searchBase steps x y ≠ .unsettled) ↔ registry.Meet x y) ∧
    (∀ first rest, (∃ steps, registry.searchAll steps first rest ≠ .unsettled) ↔
      registry.MeetAll first rest) ∧
    (∀ first rest steps, registry.searchAll steps first rest ≠ .unsettled →
      registry.searchAll (2 * registry.types.size + 8) first rest =
        registry.searchAll steps first rest) ∧
    (∀ first rest loc, (∃ ty, Typing.elementTy registry loc (first :: rest) = .ok ty) ↔
      registry.MeetAll first rest) ∧
    (registry.Acyclic → ∀ first rest, ∃ steps,
      registry.searchAll steps first rest ≠ .unsettled) := by
  refine ⟨fun x y => searchBase_ends_iff, fun first rest => searchAll_ends_iff, ?_, ?_, ?_⟩
  · intro first rest steps ends
    rw [← commonBase_of_ends ends]
    exact searchAll_searchBound registry first rest
  · intro first rest loc
    rw [elementTy_ok_iff, searchAll_ends_iff]
  · intro acyclic first rest
    exact searchAll_ends_iff.mpr (acyclic.meetAll first rest)

/-- Among puppies, numbers and a type that is not declared, the search ends. Rings and loops do not
meet, so no type is inferred for a list of both. -/
theorem search_ends_iff_chains_meet_rings :
    (∃ steps, strays.searchAll steps (.named "Puppy") [.int, .named "Animal"] ≠ .unsettled) ∧
      strays.searchAll 12 (.named "Puppy") [.int, .named "Animal"] = .found .object ∧
      ¬ rings.Meet (.named "Ring") (.named "Loop") ∧
      ∀ ty, Typing.elementTy rings ⟨"rings", 1, 1⟩ [.named "Ring", .named "Loop"] ≠ .ok ty := by
  obtain ⟨-, -, within, -, ends⟩ := search_ends_iff_chains_meet strays
  obtain ⟨pairs, lists, -, literals, -⟩ := search_ends_iff_chains_meet rings
  have apart := endless_search
  rw [lists, ← literals _ _ ⟨"rings", 1, 1⟩] at apart
  have found : strays.searchAll 12 (.named "Puppy") [.int, .named "Animal"] = .found .object := rfl
  refine ⟨ends acyclic_strays _ _, found, fun meet => ?_, fun ty inferred => apart ⟨ty, inferred⟩⟩
  · rw [literals] at apart
    exact apart ⟨meet, fun _ _ => trivial⟩

end ExprLang.Registry
