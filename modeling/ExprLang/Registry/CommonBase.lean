import ExprLang.Registry

/-!
# Common base types

The type of the elements of a literal: the nearest type that all elements can be assigned to. Two
types are compared, and while neither can be assigned to the other, the first is replaced by its
base and the two change places. Between chains of bases that return to themselves and have no type
in common this goes on forever, so the search counts its steps and can end unsettled.
-/

namespace ExprLang

/-- How a search for a common base ends. -/
inductive BaseSearch where
  | found (ty : Ty)
  /-- A type without a base was reached. -/
  | missing
  /-- The steps ran out. -/
  | unsettled
  deriving Repr

namespace Registry

variable (registry : Registry)

/-- Searches for the nearest common base of two types in a number of steps. -/
def searchBase : Nat → Ty → Ty → BaseSearch
  | 0, _, _ => .unsettled
  | steps + 1, x, y =>
    if x == y || registry.isAssignable y x then .found x
    else if registry.isAssignable x y then .found y
    else
      match registry.base? x with
      | none => .missing
      | some base => searchBase steps y base

/-- The steps after which a search that settles at all has settled: two for each declared type,
and a few for the types at both ends. -/
def searchBound : Nat :=
  2 * registry.types.size + 8

def nearestBase (x y : Ty) : BaseSearch :=
  registry.searchBase registry.searchBound x y

/-- The nearest common base of a list of types, taken pairwise from the left. -/
def commonBase : List Ty → BaseSearch
  | [] => .missing
  | first :: rest => rest.foldl next (.found first)
where
  /-- Takes one more type into the search. -/
  next : BaseSearch → Ty → BaseSearch
    | .found base, ty => registry.nearestBase base ty
    | ended, _ => ended

def commonBase? (types : List Ty) : Option Ty :=
  match registry.commonBase types with
  | .found ty => some ty
  | .missing | .unsettled => none

end Registry

end ExprLang
