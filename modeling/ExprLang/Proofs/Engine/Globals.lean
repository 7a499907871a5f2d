import ExprLang.Proofs.Engine.Actions
import Mathlib.Data.List.Nodup

/-!
# Globals over whole sessions

What becomes of root names and their values under the actions of a host. `Consistent` is what every
action keeps. A name keeps its first binding, a definition that fails changes nothing that can be
seen, and the value of a name is that of its last successful definition
(`Engine.globals_of_session`).
-/

namespace ExprLang

variable {engine later : Engine} {name other : String} {ty : Ty} {binding : Binding} {value : Value}
  {action : Action} {actions : List Action}

namespace Engine

/-- What holds of the globals of an engine at any time: each root name has an identity of its own,
and the stored values belong to root bindings that they fit. -/
structure Consistent (engine : Engine) : Prop where
  flat : engine.root.enclosing = []
  distinct : (engine.root.innermost.map (·.id)).Nodup
  below : engine.root.Below engine.supply
  fits : ∀ slot ∈ engine.globals.slots, ∃ name binding, engine.root.lookup name = some binding ∧
    binding.id = slot.1 ∧ slot.2.Fits engine.registry binding.ty
  draws : engine.host.Draws

/-- What of this does not speak of types: each root name has an identity of its own, and the stored
values belong to root bindings. -/
structure Rooted (engine : Engine) : Prop where
  flat : engine.root.enclosing = []
  distinct : (engine.root.innermost.map (·.id)).Nodup
  below : engine.root.Below engine.supply
  stored : ∀ slot ∈ engine.globals.slots, ∃ binding ∈ engine.root.innermost, binding.id = slot.1

theorem consistent_withOptions (options : Options) : (withOptions options).Consistent where
  flat := rfl
  distinct := List.nodup_nil
  below := by simp [Scope.Below, Scope.bindings, withOptions]
  fits := by simp [withOptions, Frame.empty]
  draws := by simp [Host.Draws, withOptions]

/-! ## The root -/

namespace Rooted

theorem mem_of_lookup (rooted : engine.Rooted) (found : engine.root.lookup name = some binding) :
    binding ∈ engine.root.innermost := by
  rw [Scope.lookup_of_flat rooted.flat] at found
  exact Scope.mem_of_local? found

theorem id_lt (rooted : engine.Rooted) (belongs : binding ∈ engine.root.innermost) :
    binding.id < engine.supply :=
  rooted.below binding (List.mem_append_left _ belongs)

/-- Two root names with one identity are one name. -/
theorem eq_of_id (rooted : engine.Rooted) {second : Binding}
    (found : engine.root.lookup name = some binding)
    (secondFound : engine.root.lookup other = some second) (same : binding.id = second.id) :
    name = other := by
  have one : binding = second := List.inj_on_of_nodup_map rooted.distinct
    (rooted.mem_of_lookup found) (rooted.mem_of_lookup secondFound) same
  rw [← Scope.name_of_lookup found, ← Scope.name_of_lookup secondFound, one]

/-- An identity that was not drawn has no value. -/
theorem lookup_fresh (rooted : engine.Rooted) : engine.globals.lookup engine.supply = none := by
  by_contra stored
  obtain ⟨value, found⟩ := Option.ne_none_iff_exists'.mp stored
  obtain ⟨binding, belongs, same⟩ := rooted.stored _ (Frame.mem_slots_of_lookup found)
  exact absurd (rooted.id_lt belongs) (by simp [same])

theorem drawn (rooted : engine.Rooted) (draws : engine.Drawn later) : later.Rooted := by
  obtain ⟨supply, more, rfl⟩ := draws
  exact { rooted with below := rooted.below.mono more }

theorem declare (rooted : engine.Rooted) (name : String) (ty : Ty) :
    (engine.declare name ty).2.Rooted where
  flat := (Scope.enclosing_define ..).trans rooted.flat
  distinct := by
    rcases innermost_declare engine name ty with same | added
    · rw [same]
      exact rooted.distinct
    · rw [added, List.map_append, List.map_singleton, List.nodup_append_comm,
        List.singleton_append, List.nodup_cons]
      refine ⟨fun used => ?_, rooted.distinct⟩
      obtain ⟨binding, belongs, same⟩ := List.mem_map.mp used
      exact absurd (rooted.id_lt belongs) (by simp [same])
  below := rooted.below.define name ty
  stored := by
    intro slot stored
    obtain ⟨binding, belongs, same⟩ := rooted.stored slot stored
    refine ⟨binding, ?_, same⟩
    rcases innermost_declare engine name ty with unchanged | added
    · rwa [unchanged]
    · rw [added]
      exact List.mem_append_left _ belongs

/-- A value may be stored under a root name. -/
theorem set (rooted : engine.Rooted) (found : engine.root.lookup name = some binding) (id : Nat) :
    { engine with globals := engine.globals.set id binding.id value }.Rooted :=
  { rooted with
    stored := by
      intro slot stored
      rcases Frame.mem_setSlot stored with rfl | earlier
      · exact ⟨binding, rooted.mem_of_lookup found, rfl⟩
      · exact rooted.stored slot earlier }

theorem defining (rooted : engine.Rooted) (name : String) (value : Value) :
    (engine.defining name value).2.Rooted := by
  have declared := rooted.declare name value.globalTy
  unfold Engine.defining
  dsimp only
  split
  · have found := lookup_declared rooted.flat name value.globalTy
    exact (declared.set found _).drawn ⟨_, Nat.le_succ _, rfl⟩
  · exact declared

end Rooted

/-! ## What actions keep -/

namespace Consistent

theorem rooted (consistent : engine.Consistent) : engine.Rooted :=
  { consistent with
    stored := by
      intro slot stored
      obtain ⟨name, binding, found, same, -⟩ := consistent.fits slot stored
      rw [Scope.lookup_of_flat consistent.flat] at found
      exact ⟨binding, Scope.mem_of_local? found, same⟩ }

theorem drawn (consistent : engine.Consistent) (draws : engine.Drawn later) : later.Consistent := by
  obtain ⟨supply, more, rfl⟩ := draws
  exact { consistent with below := consistent.below.mono more }

theorem declare (consistent : engine.Consistent) (name : String) (ty : Ty) :
    (engine.declare name ty).2.Consistent :=
  { consistent.rooted.declare name ty with
    fits := by
      intro slot stored
      obtain ⟨earlier, binding, found, fit⟩ := consistent.fits slot stored
      refine ⟨earlier, binding, ?_, fit⟩
      rw [lookup_declare consistent.flat, found]
      rfl
    draws := consistent.draws }

/-- A value may be stored under a root name whose type it fits. -/
theorem set (consistent : engine.Consistent) (found : engine.root.lookup name = some binding)
    (fit : value.Fits engine.registry binding.ty) (id : Nat) :
    { engine with globals := engine.globals.set id binding.id value }.Consistent :=
  { consistent with
    fits := by
      intro slot stored
      rcases Frame.mem_setSlot stored with rfl | earlier
      · exact ⟨name, binding, found, rfl, fit⟩
      · exact consistent.fits slot earlier }

theorem defining (consistent : engine.Consistent) (name : String) (value : Value) :
    (engine.defining name value).2.Consistent := by
  have declared := consistent.declare name value.globalTy
  unfold Engine.defining
  dsimp only
  split
  next assignable =>
    have found := lookup_declared consistent.flat name value.globalTy
    exact (declared.set found (Value.fits_of_isAssignable assignable) _).drawn
      ⟨_, Nat.le_succ _, rfl⟩
  · exact declared

theorem register (consistent : engine.Consistent) {declaration : Declaration}
    (unused : engine.registry.types.get? declaration.name = none) (draws : declaration.Draws) :
    (engine.register declaration).Consistent where
  flat := consistent.flat
  distinct := consistent.distinct
  below := consistent.below
  fits := by
    intro slot stored
    obtain ⟨name, binding, found, same, fit⟩ := consistent.fits slot stored
    refine ⟨name, binding, found, same, fit.imp_right ?_⟩
    rintro ⟨actual, shown, assignable⟩
    exact ⟨actual, shown, Registry.isAssignable_register unused assignable⟩
  draws := draws_register consistent.draws draws

/-- Every action that a host may take keeps an engine consistent. -/
theorem act (consistent : engine.Consistent) (allowed : action.Allowed engine) :
    (engine.act action).Consistent := by
  cases action with
  | global name value => exact consistent.defining name value
  | declare name ty => exact consistent.declare name ty
  | options options => exact { consistent with }
  | register declaration => exact consistent.register allowed.1 allowed.2
  | attempt attempt => exact consistent.drawn (drawn_attempt consistent.draws attempt)

theorem actAll (consistent : engine.Consistent) (allowed : Action.AllAllowed engine actions) :
    (engine.actAll actions).Consistent := by
  induction actions generalizing engine with
  | nil => exact consistent
  | cons action rest ih => exact ih (consistent.act allowed.1) allowed.2

end Consistent

/-! ## Root names -/

end Engine

/-- The type that an action gives a name that has no binding yet. -/
def Action.definedTy? (name : String) : Action → Option Ty
  | .global other value => if other = name then some value.globalTy else none
  | .declare other ty => if other = name then some ty else none
  | _ => none

/-- The type that the first definition of a name among actions gives it. -/
def Action.firstTy? (name : String) : List Action → Option Ty
  | [] => none
  | action :: rest => (action.definedTy? name).or (firstTy? name rest)

namespace Engine

/-- An action gives a name a binding if it defines it and the name has none, and leaves the bindings
of all other names alone. -/
theorem lookup_act (consistent : engine.Consistent) (action : Action) (name : String) :
    (engine.act action).root.lookup name = (engine.root.lookup name).or
      ((action.definedTy? name).map fun ty => ⟨engine.supply, name, ty⟩) := by
  cases action with
  | global other value =>
    rw [act, root_defining, lookup_declare consistent.flat, Action.definedTy?]
    by_cases same : other = name <;> simp [same]
  | declare other ty =>
    rw [act, lookup_declare consistent.flat, Action.definedTy?]
    by_cases same : other = name <;> simp [same]
  | options | register => simp [act, Action.definedTy?, Engine.register]
  | attempt attempt =>
    obtain ⟨supply, -, later⟩ := drawn_attempt consistent.draws attempt
    simp [act, Action.definedTy?, later]

/-- A root name keeps its binding. -/
theorem lookup_actAll (consistent : engine.Consistent) (allowed : Action.AllAllowed engine actions)
    (found : engine.root.lookup name = some binding) :
    (engine.actAll actions).root.lookup name = some binding := by
  induction actions generalizing engine with
  | nil => exact found
  | cons action rest ih =>
    refine ih (consistent.act allowed.1) allowed.2 ?_
    rw [lookup_act consistent, found, Option.some_or]

/-- The type of a root name is that of its first definition. -/
theorem ty_actAll (consistent : engine.Consistent) (allowed : Action.AllAllowed engine actions)
    (name : String) :
    ((engine.actAll actions).root.lookup name).map (·.ty) =
      ((engine.root.lookup name).map (·.ty)).or (Action.firstTy? name actions) := by
  induction actions generalizing engine with
  | nil => simp [actAll, Action.firstTy?]
  | cons action rest ih =>
    rw [actAll, ih (consistent.act allowed.1) allowed.2, lookup_act consistent, Action.firstTy?]
    cases engine.root.lookup name <;> simp [Option.map_map, Function.comp_def]

/-! ## Values -/

def valueOf (engine : Engine) (name : String) : Option Value :=
  (engine.root.lookup name).bind fun binding => engine.globals.lookup binding.id

def stored? (engine : Engine) (name : String) : Action → Option Value
  | .global other value =>
    match (engine.defining other value).1 with
    | .ok _ => if other = name then some value else none
    | .error _ => none
  | _ => none

/-- The value that the last successful definition of a name among actions gives it. -/
def lastStored? (name : String) : Engine → List Action → Option Value
  | _, [] => none
  | engine, action :: rest =>
    (lastStored? name (engine.act action) rest).or (engine.stored? name action)

theorem valueOf_declare (rooted : engine.Rooted) (name other : String) (ty : Ty) :
    (engine.declare name ty).2.valueOf other = engine.valueOf other := by
  unfold valueOf
  rw [lookup_declare rooted.flat]
  cases found : engine.root.lookup other with
  | some binding => rfl
  | none =>
    by_cases same : name = other
    · simpa [same, Engine.declare] using rooted.lookup_fresh
    · simp [same]

/-- A value that is stored under a root name is the value of that name only. -/
theorem valueOf_set (rooted : engine.Rooted)
    (found : engine.root.lookup name = some binding) (other : String) (id : Nat) :
    { engine with globals := engine.globals.set id binding.id value }.valueOf other =
      if name = other then some value else engine.valueOf other := by
  unfold valueOf
  by_cases same : name = other
  · subst same
    simp [found, Frame.lookup_set]
  · rw [if_neg same]
    cases bound : engine.root.lookup other with
    | none => rfl
    | some second =>
      have apart : second.id ≠ binding.id := fun one =>
        same (rooted.eq_of_id bound found one).symm
      simp [Frame.lookup_set, apart]

theorem valueOf_defining (rooted : engine.Rooted) (name other : String) (value : Value) :
    (engine.defining name value).2.valueOf other =
      (engine.stored? other (.global name value)).or (engine.valueOf other) := by
  have declared := rooted.declare name value.globalTy
  have found := lookup_declared rooted.flat name value.globalTy
  have unchanged := valueOf_declare rooted name other value.globalTy
  unfold stored? Engine.defining
  dsimp only
  split
  · refine (valueOf_set declared found other _).trans ?_
    rw [unchanged]
    by_cases same : name = other <;> simp [same]
  · exact unchanged

/-- The value of a name is what the action stores under it, or else what it was. -/
theorem valueOf_act (consistent : engine.Consistent) (action : Action) (name : String) :
    (engine.act action).valueOf name = (engine.stored? name action).or (engine.valueOf name) := by
  cases action with
  | global other value => exact valueOf_defining consistent.rooted other name value
  | declare other ty => exact valueOf_declare consistent.rooted other name ty
  | options | register => rfl
  | attempt attempt =>
    obtain ⟨supply, -, later⟩ := drawn_attempt consistent.draws attempt
    simp [act, later, stored?, valueOf]

theorem valueOf_actAll (consistent : engine.Consistent)
    (allowed : Action.AllAllowed engine actions) (name : String) :
    (engine.actAll actions).valueOf name =
      (lastStored? name engine actions).or (engine.valueOf name) := by
  induction actions generalizing engine with
  | nil => simp [actAll, lastStored?]
  | cons action rest ih =>
    rw [actAll, ih (consistent.act allowed.1) allowed.2, valueOf_act consistent, lastStored?,
      Option.or_assoc]

/-- A name that gets a binding was declared or defined with success. -/
theorem declared_of_lookup_act (unbound : engine.root.lookup name = none)
    (consistent : engine.Consistent)
    (found : (engine.act action).root.lookup name = some binding) :
    (∃ ty, action = .declare name ty) ∨ engine.stored? name action ≠ none := by
  rw [lookup_act consistent, unbound, Option.none_or] at found
  cases action with
  | declare other ty =>
    by_cases same : other = name
    · exact .inl ⟨ty, by rw [same]⟩
    · simp [Action.definedTy?, same] at found
  | global other value =>
    by_cases same : other = name
    · subst same
      cases outcome : (engine.defining other value).1 with
      | ok binding => exact .inr (by simp [stored?, outcome])
      | error report =>
        -- Only a name that has a binding can have a definition that fails.
        have root := congrArg (·.root.lookup other) (defining_error outcome)
        simp only [root_defining] at root
        rw [lookup_declared consistent.flat, unbound] at root
        cases root
    · simp [Action.definedTy?, same] at found
  | options | register | attempt => simp [Action.definedTy?] at found

theorem declared_of_lookup (unbound : engine.root.lookup name = none)
    (consistent : engine.Consistent) (allowed : Action.AllAllowed engine actions)
    (found : (engine.actAll actions).root.lookup name = some binding) :
    (∃ ty, .declare name ty ∈ actions) ∨ lastStored? name engine actions ≠ none := by
  induction actions generalizing engine with
  | nil =>
    rw [actAll, unbound] at found
    cases found
  | cons action rest ih =>
    rw [lastStored?]
    cases next : (engine.act action).root.lookup name with
    | none =>
      rcases ih next (consistent.act allowed.1) allowed.2 found with ⟨ty, later⟩ | stored
      · exact .inl ⟨ty, List.mem_cons_of_mem _ later⟩
      · exact .inr (by simp [Option.or_eq_none_iff, stored])
    | some first =>
      rcases declared_of_lookup_act unbound consistent next with ⟨ty, rfl⟩ | stored
      · exact .inl ⟨ty, List.mem_cons_self⟩
      · exact .inr (by simp [Option.or_eq_none_iff, stored])

/-! ## Running a name -/

/-- The text of an atom is read as the atom. -/
theorem read_atom (engine : Engine) (isAtom : IsAtomText name.toList) :
    engine.read name = .ok (.atom name ⟨engine.options.sourceName, 1, 1⟩) := by
  have stands : (Piece.atom name.toList).StandsBefore [] := by
    rcases isAtom with string | run
    · exact .string string
    · exact .run run endsRun_nil
  have pieces : lexemes {} (name.toList ++ []) = _ := lexemes_piece stands
  rw [List.append_nil, Reader.lexemes_nil] at pieces
  simp only [read, Reader.readOnly, Reader.readForm, Input.ofText, pieces, Reader.readWith,
    String.ofList_toList]
  rfl

/-- Running a name gives its value, or reports that it has none or is not defined. -/
theorem run_name (isAtom : IsAtomText name.toList)
    (identifier : Literal.constant? name = .ok none) :
    engine.run name = match engine.root.lookup name, engine.valueOf name with
      | none, _ => faultAt ⟨engine.options.sourceName, 1, 1⟩ (.undefinedVariable name)
      | some _, none => faultAt ⟨engine.options.sourceName, 1, 1⟩ (.valueless name)
      | some _, some value => .ok (value, engine) := by
  have atom (loc : Location) : engine.elaborator.elaborate engine.root (.atom name loc)
      engine.supply = (Elaborator.atom engine.root name loc).map (·, engine.supply) := by
    unfold Elaborator.elaborate Elaborator.elaborateAt
    rw [if_neg (Nat.not_lt_zero _)]
    cases Elaborator.atom engine.root name loc <;> rfl
  unfold run
  rw [compile_eq, read_atom engine isAtom]
  simp only [Except.bind, compileForm_eq, perform_eq, atom, Elaborator.atom, identifier, valueOf]
  cases found : engine.root.lookup name with
  | none => rfl
  | some binding =>
    have named := Scope.name_of_lookup found
    simp only [Option.bind_some, invoke, perform_eq, Setting.evaluate, Except.map, bind,
      Except.bind]
    cases stored : engine.globals.lookup binding.id with
    | none =>
      rw [named]
      rfl
    | some value => rfl

/-! ## Sessions -/

theorem allAllowed_append {first second : List Action} :
    Action.AllAllowed engine (first ++ second) ↔
      Action.AllAllowed engine first ∧ Action.AllAllowed (engine.actAll first) second := by
  induction first generalizing engine with
  | nil => simp [Action.AllAllowed, actAll]
  | cons action rest ih => simp [Action.AllAllowed, actAll, ih, and_assoc]

theorem firstTy?_ne_none (declared : .declare name ty ∈ actions) :
    Action.firstTy? name actions ≠ none := by
  induction actions with
  | nil => cases declared
  | cons action rest ih =>
    rw [Action.firstTy?, ne_eq, Option.or_eq_none_iff, not_and]
    rcases List.mem_cons.mp declared with rfl | later
    · simp [Action.definedTy?]
    · exact fun _ => ih later

abbrev session (options : Options) (actions : List Action) : Engine :=
  (withOptions options).actAll actions

/-- **Globals of a session.** Whatever a host does with a new engine, one action after the other: a
root name keeps the binding and the type of its first definition; a definition that fails leaves all
but the supply of identities as it was; a stored value belongs to a root name whose type it fits; and
a name, run as a text, gives the value of its last successful definition, or is reported to have no
value if it was only declared, and to be undefined if it was neither. -/
theorem globals_of_session (options : Options) (actions : List Action)
    (allowed : Action.AllAllowed (withOptions options) actions) :
    (∀ before after, actions = before ++ after → ∀ name binding,
      (session options before).root.lookup name = some binding →
        (session options actions).root.lookup name = some binding) ∧
    (∀ name, ((session options actions).root.lookup name).map (·.ty) =
      Action.firstTy? name actions) ∧
    (∀ name value report, (session options actions).defineGlobal name value = .error report →
      (session options actions).act (.global name value) =
        { session options actions with supply := (session options actions).supply + 1 }) ∧
    (∀ slot ∈ (session options actions).globals.slots, ∃ name binding,
      (session options actions).root.lookup name = some binding ∧ binding.id = slot.1 ∧
        slot.2.Fits (session options actions).registry binding.ty) ∧
    ∀ name, IsAtomText name.toList → Literal.constant? name = .ok none →
      (∀ value, lastStored? name (withOptions options) actions = some value →
        (session options actions).run name = .ok (value, session options actions)) ∧
      (lastStored? name (withOptions options) actions = none →
        (∃ ty, .declare name ty ∈ actions) →
          (session options actions).run name = .error ((Fault.valueless name).reportAt
            ⟨(session options actions).options.sourceName, 1, 1⟩)) ∧
      (lastStored? name (withOptions options) actions = none →
        (∀ ty, .declare name ty ∉ actions) →
          (session options actions).run name = .error ((Fault.undefinedVariable name).reportAt
            ⟨(session options actions).options.sourceName, 1, 1⟩)) := by
  have start := consistent_withOptions options
  have consistent := start.actAll allowed
  have unbound (name : String) : (withOptions options).root.lookup name = none := rfl
  have values (name : String) : (session options actions).valueOf name =
      lastStored? name (withOptions options) actions := by
    rw [valueOf_actAll start allowed, valueOf, unbound, Option.bind_none, Option.or_none]
  have types (name : String) : ((session options actions).root.lookup name).map (·.ty) =
      Action.firstTy? name actions := by
    rw [ty_actAll start allowed, unbound, Option.map_none, Option.none_or]
  refine ⟨?_, types, ?_, consistent.fits, fun name isAtom identifier => ?_⟩
  · rintro before after rfl name binding found
    obtain ⟨first, second⟩ := allAllowed_append.mp allowed
    rw [session, actAll_append]
    exact lookup_actAll (start.actAll first) second found
  · intro name value report failed
    rw [defineGlobal_eq, map_error] at failed
    exact defining_error failed
  · rw [run_name isAtom identifier, values]
    refine ⟨fun value stored => ?_, fun none declared => ?_, fun none undeclared => ?_⟩
    · have present := (values name).trans stored
      obtain ⟨binding, found, -⟩ := Option.bind_eq_some_iff.mp present
      rw [found, stored]
    · obtain ⟨ty, declared⟩ := declared
      have typed := firstTy?_ne_none declared
      rw [← types, ne_eq, Option.map_eq_none_iff] at typed
      obtain ⟨binding, found⟩ := Option.ne_none_iff_exists'.mp typed
      rw [found, none]
      rfl
    · cases found : (session options actions).root.lookup name with
      | none => rfl
      | some binding =>
        rcases declared_of_lookup (unbound name) start allowed found with ⟨ty, declared⟩ | stored
        · exact absurd declared (undeclared ty)
        · exact absurd none stored

/-! ## A session with a type that is declared late -/

/-- A name without a value, a point, a type of points in space that is declared after the first
point, a point in space, a definition that fails, two attempts and other options. -/
def pointSession : List Action :=
  [.declare "limit" .int,
   .global "p" (.object 1 "Point" []),
   .register { name := "Point3", base := some (.named "Point"),
               constructors := [([.int], (Recipe.make "Point3").callback)] },
   .global "p" (.object 2 "Point3" []),
   .global "p" (.bool true),
   .attempt (.run "limit"),
   .attempt (.compile "(p"),
   .options { strict := true, maxDepth := 0 }]

theorem allAllowed_pointSession : Action.AllAllowed (withOptions {}) pointSession := by
  refine ⟨trivial, trivial, ⟨rfl, ?_, ?_⟩, trivial, trivial, trivial, trivial, trivial, trivial⟩
  · intro entry belongs
    obtain rfl := List.mem_singleton.mp belongs
    exact (Recipe.make "Point3").draws
  · rintro entry ⟨⟩

/-- In the session with points, the name of the point has the point in space, the name that was only
declared has no value, and a third name is not defined. -/
theorem globals_of_session_points :
    (session {} pointSession).run "p" =
        .ok (.object 2 "Point3" [], session {} pointSession) ∧
      (session {} pointSession).run "limit" =
        .error ((Fault.valueless "limit").reportAt ⟨"<input>", 1, 1⟩) ∧
      (session {} pointSession).run "q" =
        .error ((Fault.undefinedVariable "q").reportAt ⟨"<input>", 1, 1⟩) := by
  obtain ⟨-, -, -, -, names⟩ := globals_of_session {} pointSession allAllowed_pointSession
  refine ⟨?_, ?_, ?_⟩
  · exact (names "p" (.inr ⟨by decide, by decide, List.all_eq_true.mp (by decide)⟩) rfl).1 _ rfl
  · have limit := names "limit" (.inr ⟨by decide, by decide, List.all_eq_true.mp (by decide)⟩) rfl
    exact limit.2.1 rfl ⟨.int, List.mem_cons_self⟩
  · have other := names "q" (.inr ⟨by decide, by decide, List.all_eq_true.mp (by decide)⟩) rfl
    exact other.2.2 rfl (by simp [pointSession])

end Engine

end ExprLang
