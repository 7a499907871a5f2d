import ExprLang.Ty

/-!
# Bindings and scopes

A binding gives a name a type and an identity of its own. Scopes nest: a name is looked up in the
innermost scope first. Within one scope the first definition of a name wins.
-/

namespace ExprLang

/-- A named and typed place for a value. Two bindings are the same if their identities are. -/
structure Binding where
  id : Nat
  name : String
  ty : Ty
  deriving DecidableEq, Inhabited, Repr

/-- The names visible at a place: the bindings of the innermost scope, and those of each enclosing
scope from the inside out. -/
structure Scope where
  innermost : List Binding := []
  enclosing : List (List Binding) := []
  deriving DecidableEq, Inhabited, Repr

namespace Scope

def find? (bindings : List Binding) (name : String) : Option Binding :=
  bindings.find? fun binding => binding.name == name

def local? (scope : Scope) (name : String) : Option Binding :=
  find? scope.innermost name

/-- The binding that a name has in any scope, the innermost first. -/
def lookup (scope : Scope) (name : String) : Option Binding :=
  (scope.innermost :: scope.enclosing).findSome? fun bindings => find? bindings name

def push (scope : Scope) : Scope :=
  ⟨[], scope.innermost :: scope.enclosing⟩

def parent? (scope : Scope) : Option Scope :=
  match scope.enclosing with
  | [] => none
  | outer :: rest => some ⟨outer, rest⟩

/-- Defines a name in the innermost scope under an unused identity. Answers the binding that the
name has there, which is an earlier one if there is one, and the scope. -/
def define (scope : Scope) (id : Nat) (name : String) (ty : Ty) : Binding × Scope :=
  match scope.local? name with
  | some binding => (binding, scope)
  | none =>
    let binding : Binding := ⟨id, name, ty⟩
    (binding, { scope with innermost := scope.innermost ++ [binding] })

/-- A new scope hides nothing. -/
@[simp] theorem lookup_push (scope : Scope) (name : String) :
    scope.push.lookup name = scope.lookup name := rfl

@[simp] theorem parent?_push (scope : Scope) : scope.push.parent? = some scope := rfl

/-- A definition leaves the scopes around it alone. -/
@[simp] theorem enclosing_define (scope : Scope) (id : Nat) (name : String) (ty : Ty) :
    (scope.define id name ty).2.enclosing = scope.enclosing := by
  unfold define
  split <;> rfl

/-- A definition decides its own name in the innermost scope, and no other. -/
theorem local?_define (scope : Scope) (id : Nat) (name other : String) (ty : Ty) :
    (scope.define id name ty).2.local? other =
      if other = name then some (scope.define id name ty).1 else scope.local? other := by
  unfold define
  split
  next binding found =>
    split
    next same => rw [same, found]
    next => rfl
  next missing =>
    split
    next same =>
      subst same
      have absent : find? scope.innermost other = none := missing
      simp only [find?] at absent
      simp [local?, find?, absent]
    next differ => simp [local?, find?, Ne.symm differ]

variable {scope outer : Scope} {name : String} {binding : Binding}

theorem lookup_of_flat (flat : scope.enclosing = []) (name : String) :
    scope.lookup name = scope.local? name := by
  rw [lookup, flat, List.findSome?_cons]
  unfold local?
  cases find? scope.innermost name <;> rfl

/-- A name finds a binding of that name. -/
theorem name_of_lookup (found : scope.lookup name = some binding) : binding.name = name := by
  obtain ⟨level, -, hit⟩ := List.exists_of_findSome?_eq_some found
  simpa using List.find?_some hit

theorem mem_of_local? (found : scope.local? name = some binding) : binding ∈ scope.innermost :=
  List.mem_of_find?_eq_some found

/-- A definition adds its binding at the end, if the name had none. -/
theorem define_of_none (unused : scope.local? name = none) (id : Nat) (ty : Ty) :
    scope.define id name ty =
      (⟨id, name, ty⟩, { scope with innermost := scope.innermost ++ [⟨id, name, ty⟩] }) := by
  rw [define, unused]

/-- A definition changes nothing if the name had a binding. -/
theorem define_of_some (found : scope.local? name = some binding) (id : Nat) (ty : Ty) :
    scope.define id name ty = (binding, scope) := by
  rw [define, found]

end Scope

end ExprLang
