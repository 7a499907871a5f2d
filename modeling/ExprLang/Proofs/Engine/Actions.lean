import ExprLang.Proofs.Elaboration.Supply
import ExprLang.Proofs.Engine.Session
import ExprLang.Proofs.Eval.Supply
import ExprLang.Proofs.Form.Printing
import ExprLang.Proofs.Registry.Growth

/-!
# Actions of a host

What a host does with an engine, one action after the other: it declares names, gives them values,
changes the options, declares host types, and tries to compile, run and call. A definition that
fails has declared its name before it is checked, and a compilation that fails may have given
identities to parameters; `Engine.defining` and `Engine.compiling` answer the engine that is left of
them. `Consistent` is what all actions keep (`Consistent.act`, `Consistent.actAll`).
-/

namespace ExprLang

/-! ## Frames -/

namespace Frame

variable {V : Type}

theorem lookup_setSlot (slots : List (Nat × V)) (binding other : Nat) (value : V) :
    (setSlot binding value slots).lookup other =
      if other = binding then some value else slots.lookup other := by
  induction slots with
  | nil =>
    rw [setSlot, List.lookup_cons]
    by_cases same : other = binding <;> simp [same, beq_eq_false_iff_ne.mpr]
  | cons slot rest ih =>
    obtain ⟨key, stored⟩ := slot
    rw [setSlot]
    by_cases found : key = binding
    · subst found
      rw [if_pos rfl, List.lookup_cons, List.lookup_cons]
      by_cases same : other = key <;> simp [same, beq_eq_false_iff_ne.mpr]
    · rw [if_neg found, List.lookup_cons, List.lookup_cons, ih]
      by_cases same : other = key
      · simp [same, found]
      · simp [beq_eq_false_iff_ne.mpr same]

/-- The value that a binding is given is its value from then on, and no other value changes. -/
theorem lookup_set (frame : Frame V) (id binding other : Nat) (value : V) :
    (frame.set id binding value).lookup other =
      if other = binding then some value else frame.lookup other :=
  lookup_setSlot frame.slots binding other value

theorem mem_setSlot {slots : List (Nat × V)} {binding : Nat} {value : V} {slot : Nat × V}
    (belongs : slot ∈ setSlot binding value slots) : slot = (binding, value) ∨ slot ∈ slots := by
  induction slots with
  | nil => exact .inl (List.mem_singleton.mp belongs)
  | cons first rest ih =>
    rw [setSlot] at belongs
    split at belongs
    · rcases List.mem_cons.mp belongs with same | later
      · exact .inl same
      · exact .inr (List.mem_cons_of_mem _ later)
    · rcases List.mem_cons.mp belongs with rfl | later
      · exact .inr List.mem_cons_self
      · exact (ih later).imp_right (List.mem_cons_of_mem _)

end Frame

/-! ## Actions -/

/-- Whether a registry lets a value stand in a binding of a type: null in `object` only, and any
other value where its type is assignable. -/
def Value.Fits (registry : Registry) (value : Value) (ty : Ty) : Prop :=
  (value = .null ∧ ty = .object) ∨
    ∃ actual, value.ty? = some actual ∧ registry.isAssignable actual ty = true

/-- The type of the binding that a value is defined under for the first time. -/
def Value.globalTy (value : Value) : Ty :=
  value.ty?.getD .object

theorem Value.fits_of_isAssignable {registry : Registry} {value : Value} {ty : Ty}
    (assignable : registry.isAssignable value.globalTy ty = true) : value.Fits registry ty := by
  unfold globalTy at assignable
  cases shown : value.ty? with
  | none =>
    rw [shown, Option.getD_none, Registry.isAssignable_iff] at assignable
    exact .inl ⟨eq_null_of_ty? shown, assignable.elim id Registry.chain_of_object⟩
  | some actual =>
    rw [shown] at assignable
    exact .inr ⟨actual, shown, assignable⟩

inductive Attempt where
  | compile (source : String)
  | run (source : String)
  | invoke (unit : CompiledUnit)
  | call (closure : Closure Value) (args : List Value)

inductive Action where
  | global (name : String) (value : Value)
  | declare (name : String) (ty : Ty)
  | options (options : Options)
  | register (declaration : Declaration)
  | attempt (attempt : Attempt)

namespace Engine

/-- Defines a root name and gives it a value. Answers the engine also if the value does not fit: the
name is declared before that is known. -/
def defining (engine : Engine) (name : String) (value : Value) :
    Except Diagnostic Binding × Engine :=
  let (binding, declared) := engine.declare name value.globalTy
  if declared.registry.isAssignable value.globalTy binding.ty then
    (.ok binding, { declared with
      globals := declared.globals.set declared.supply binding.id value
      supply := declared.supply + 1 })
  else (.error (Fault.globalOfOtherType name binding.ty value.globalTy).report, declared)

def run (engine : Engine) (source : String) : Except Diagnostic (Value × Engine) := do
  let (unit, engine) ← engine.compile source
  engine.invoke unit

/-- The engine after an outcome, which a failure leaves as it was. -/
def after {α : Type} (engine : Engine) : Except Diagnostic (α × Engine) → Engine
  | .ok (_, later) => later
  | .error _ => engine

def attempt (engine : Engine) : Attempt → Engine
  | .compile source => (engine.compiling source).2
  | .run source =>
    match engine.compiling source with
    | (.ok unit, compiled) => compiled.after (compiled.invoke unit)
    | (.error _, left) => left
  | .invoke unit => engine.after (engine.invoke unit)
  | .call closure args => engine.after (engine.call closure args)

/-- The engine after an action, whether that succeeds or fails. -/
def act (engine : Engine) : Action → Engine
  | .global name value => (engine.defining name value).2
  | .declare name ty => (engine.declare name ty).2
  | .options options => { engine with options }
  | .register declaration => engine.register declaration
  | .attempt attempt => engine.attempt attempt

def actAll (engine : Engine) : List Action → Engine
  | [] => engine
  | action :: rest => (engine.act action).actAll rest

/-- Defining a global answers what is left of it, or only the report of its failure. -/
theorem defineGlobal_eq (engine : Engine) (name : String) (value : Value) :
    engine.defineGlobal name value =
      (engine.defining name value).1.map fun binding =>
        (binding, (engine.defining name value).2) := by
  unfold defineGlobal defining Value.globalTy
  dsimp only
  split <;> rfl

/-- Compiling a form answers what is left of it, or only the report of its failure. -/
theorem compileForm_of_compiling {engine later : Engine} {form : Form}
    {outcome : Except Diagnostic CompiledUnit}
    (made : engine.compilingForm form = (outcome, later)) :
    engine.compileForm form = outcome.map fun unit => (unit, later) := by
  unfold compilingForm at made
  unfold compileForm
  rw [StateT.run, Elaborator.elaborate_eq]
  generalize engine.elaborator.elaborating engine.root form engine.supply = elaborated at made ⊢
  obtain ⟨_ | root, supply⟩ := elaborated <;> cases made <;> rfl

theorem actAll_append (engine : Engine) (first second : List Action) :
    engine.actAll (first ++ second) = (engine.actAll first).actAll second := by
  induction first generalizing engine with
  | nil => rfl
  | cons action rest ih => exact ih _

end Engine

/-- No code of a declaration gives an identity back. -/
structure Declaration.Draws (declaration : Declaration) : Prop where
  constructors : ∀ entry ∈ declaration.constructors, Callback.Draws entry.2
  indexers : ∀ entry ∈ declaration.indexers, Callback.Draws entry.2.2

/-- An action that a host may take: host types are declared under names that no host type has, with
code that gives no identity back. -/
def Action.Allowed (engine : Engine) : Action → Prop
  | .register declaration =>
    engine.registry.types.get? declaration.name = none ∧ declaration.Draws
  | _ => True

def Action.AllAllowed : Engine → List Action → Prop
  | _, [] => True
  | engine, action :: rest => action.Allowed engine ∧ AllAllowed (engine.act action) rest

namespace Engine

variable {engine later : Engine} {name other : String} {ty : Ty} {binding : Binding} {value : Value}

/-! ## Attempts -/

/-- An engine from whose supply identities were drawn, and that is the same otherwise. -/
def Drawn (engine later : Engine) : Prop :=
  ∃ supply, engine.supply ≤ supply ∧ later = { engine with supply }

theorem drawn_refl (engine : Engine) : engine.Drawn engine :=
  ⟨engine.supply, Nat.le_refl _, rfl⟩

theorem Drawn.trans {last : Engine} (first : engine.Drawn later) (second : later.Drawn last) :
    engine.Drawn last := by
  obtain ⟨middle, lower, rfl⟩ := first
  obtain ⟨supply, higher, rfl⟩ := second
  exact ⟨supply, Nat.le_trans lower higher, rfl⟩

theorem drawn_after {α : Type} {outcome : Except Diagnostic (α × Engine)}
    (draws : ∀ result later, outcome = .ok (result, later) → engine.Drawn later) :
    engine.Drawn (engine.after outcome) := by
  cases outcome with
  | error report => exact drawn_refl engine
  | ok result => exact draws result.1 result.2 rfl

theorem drawn_of_perform {α : Type} {run : Run α} (draws : run.Draws) {result : α}
    (done : engine.perform run = .ok (result, later)) : engine.Drawn later := by
  obtain ⟨supply, ran, rfl⟩ := perform_ok done
  exact ⟨supply, draws _ _ _ ran, rfl⟩

theorem drawn_of_compileForm {form : Form} {unit : CompiledUnit}
    (compiled : engine.compileForm form = .ok (unit, later)) : engine.Drawn later := by
  obtain ⟨-, -, supply, elaborated, rfl⟩ := compileForm_ok compiled
  exact ⟨supply, (Elaborator.elaborates_of_ok elaborated).next_le, rfl⟩

theorem drawn_of_invoke (draws : engine.host.Draws) {unit : CompiledUnit}
    (done : engine.invoke unit = .ok (value, later)) : engine.Drawn later :=
  drawn_of_perform (Setting.draws_evaluate draws _) done

theorem drawn_of_compiling {form : Form} {outcome : Except Diagnostic CompiledUnit}
    (made : engine.compilingForm form = (outcome, later)) : engine.Drawn later := by
  obtain rfl : (engine.compilingForm form).2 = later := congrArg Prod.snd made
  exact ⟨_, engine.elaborator.le_elaborating engine.root form engine.supply, rfl⟩

theorem drawn_compiling (engine : Engine) (source : String) :
    engine.Drawn (engine.compiling source).2 := by
  unfold compiling
  cases engine.read source with
  | error report => exact drawn_refl engine
  | ok form => exact drawn_of_compiling rfl

/-- An attempt draws identities and changes nothing else. -/
theorem drawn_attempt (draws : engine.host.Draws) (attempt : Attempt) :
    engine.Drawn (engine.attempt attempt) := by
  cases attempt with
  | compile source => exact drawn_compiling engine source
  | run source =>
    have first := drawn_compiling engine source
    rw [Engine.attempt]
    split
    next unit compiled made =>
      rw [made] at first
      obtain ⟨supply, more, rfl⟩ := first
      refine Drawn.trans ⟨supply, more, rfl⟩ (drawn_after fun value last done => ?_)
      exact drawn_of_invoke draws done
    next made =>
      rw [made] at first
      exact first
  | invoke unit => exact drawn_after fun _ _ done => drawn_of_invoke draws done
  | call closure args =>
    exact drawn_after fun _ _ done => drawn_of_perform (Closure.draws_call draws) done

/-! ## Declarations of host types -/

theorem callbacks_addConstructors (host : Host) (entries : List (List Ty × Callback)) :
    (addConstructors host entries).2.callbacks = host.callbacks ++ entries.map (·.2) := by
  induction entries generalizing host with
  | nil => simp [addConstructors]
  | cons entry rest ih => simp [addConstructors, Host.add, ih]

theorem callbacks_addIndexers (host : Host) (entries : List (List Ty × Ty × Callback)) :
    (addIndexers host entries).2.callbacks = host.callbacks ++ entries.map (·.2.2) := by
  induction entries generalizing host with
  | nil => simp [addIndexers]
  | cons entry rest ih => simp [addIndexers, Host.add, ih]

theorem draws_register (draws : engine.host.Draws) {declaration : Declaration}
    (declared : declaration.Draws) : (engine.register declaration).host.Draws := by
  intro callback belongs
  simp only [register, callbacks_addIndexers, callbacks_addConstructors, List.mem_append,
    List.mem_map] at belongs
  rcases belongs with (known | ⟨entry, listed, rfl⟩) | ⟨entry, listed, rfl⟩
  · exact draws callback known
  · exact declared.constructors entry listed
  · exact declared.indexers entry listed

/-! ## Declarations of names -/

/-- A declaration gives its name a binding of the given type under a new identity, if the name has
none, and leaves the bindings of all other names alone. -/
theorem lookup_declare (flat : engine.root.enclosing = []) (name other : String) (ty : Ty) :
    (engine.declare name ty).2.root.lookup other = (engine.root.lookup other).or
      (if name = other then some ⟨engine.supply, name, ty⟩ else none) := by
  have still : (engine.declare name ty).2.root.enclosing = [] :=
    (Scope.enclosing_define ..).trans flat
  rw [Scope.lookup_of_flat still, Scope.lookup_of_flat flat]
  have decided : (engine.declare name ty).2.root.local? other = _ :=
    Scope.local?_define engine.root engine.supply name other ty
  rw [decided]
  by_cases same : other = name
  · subst same
    cases found : engine.root.local? other with
    | none => simp [Scope.define_of_none found]
    | some binding => simp [Scope.define_of_some found]
  · simp [same, Ne.symm same]

/-- A declaration answers the binding of its name. -/
theorem lookup_declared (flat : engine.root.enclosing = []) (name : String) (ty : Ty) :
    (engine.declare name ty).2.root.lookup name = some (engine.declare name ty).1 := by
  have still : (engine.declare name ty).2.root.enclosing = [] :=
    (Scope.enclosing_define ..).trans flat
  rw [Scope.lookup_of_flat still]
  have decided : (engine.declare name ty).2.root.local? name = _ :=
    Scope.local?_define engine.root engine.supply name name ty
  rw [decided, if_pos rfl]
  rfl

theorem innermost_declare (engine : Engine) (name : String) (ty : Ty) :
    (engine.declare name ty).2.root.innermost = engine.root.innermost ∨
      (engine.declare name ty).2.root.innermost =
        engine.root.innermost ++ [⟨engine.supply, name, ty⟩] := by
  unfold declare
  cases found : engine.root.local? name with
  | none => exact .inr (by rw [Scope.define_of_none found])
  | some binding => exact .inl (by rw [Scope.define_of_some found])

/-- A definition declares its name, whether it succeeds or fails. -/
theorem root_defining (engine : Engine) (name : String) (value : Value) :
    (engine.defining name value).2.root = (engine.declare name value.globalTy).2.root := by
  unfold defining
  dsimp only
  split <;> rfl

/-- A definition that fails changes no binding, no type and no value. It fails only where the name
has a binding. -/
theorem defining_error {report : Diagnostic}
    (failed : (engine.defining name value).1 = .error report) :
    (engine.defining name value).2 = { engine with supply := engine.supply + 1 } := by
  unfold defining at failed ⊢
  dsimp only at failed ⊢
  split at failed
  · cases failed
  next unfit =>
    rw [if_neg unfit]
    unfold declare at unfit ⊢
    cases found : engine.root.local? name with
    | none =>
      rw [Scope.define_of_none found] at unfit
      exact absurd (Registry.isAssignable_refl _) unfit
    | some binding => rw [Scope.define_of_some found]

end Engine

end ExprLang
