import ExprLang.Proofs.Eval.Calls

/-!
# Type soundness

What the type of a compiled form promises. If the host keeps to its declarations and every value
in the frame is deeply well typed, then so is the value of every form that elaboration accepts,
and every function that can be got out of that value keeps the promise of its own type
(`Elaborator.type_soundness`).

The host assumptions are that chains of host types hold host types and `object` only
(`Registry.HostBased`), that callbacks return well-typed values (`Host.Sound`) and that the values
in the frame are well typed (`Frame.Covers`). Function values that the host brings along, as
`supplied` describes them, are outside of the promise about calls. With none supplied, the promise
is about all functions there are. New identities are drawn above those in scope (`Scope.Below`), as
in every engine of a session.
-/

namespace ExprLang

/-- A function keeps the promise of its type: every call on well-typed arguments that gives a value
gives a well-typed value of the result type. -/
def Closure.Keeps (registry : Registry) (supplied : Closure Value → Prop)
    (closure : Closure Value) : Prop :=
  ∃ params result, closure.ty = .func params result ∧
    ∀ (host : Host) (args : List Value) (next later : Nat) (value : Value),
      host.Sound registry supplied → (∀ arg ∈ args, WellTyped registry supplied arg .object) →
      closure.call host args next = .ok (value, later) → WellTyped registry supplied value result

variable {supplied : Closure Value → Prop}

/-- Every function that can be got out of a well-typed value keeps the promise of its type. -/
theorem Obtained.keeps {registry : Registry} (hostBased : registry.HostBased) {start : Value}
    {ty : Ty} {closure : Closure Value} (startTyped : WellTyped registry supplied start ty)
    (obtained : Obtained registry supplied start (.function closure)) (made : ¬ supplied closure) :
    closure.Keeps registry supplied := by
  obtain ⟨params, result, signature, known⟩ :=
    (obtained.wellTyped hostBased startTyped).function_inv
  refine ⟨params, result, signature, fun host args next later value sound held done => ?_⟩
  exact (Closure.meets_call hostBased sound known made signature held next).of_ok done

namespace Elaborator

/-- **Type soundness.** A form that elaboration accepts in a scope evaluates, in every frame that
covers the scope, to nothing but deeply well-typed values of its static type, and every function
that can be got out of such a value keeps the promise of its type. -/
theorem type_soundness {elaborator : Elaborator} {scope : Scope} {form : Form} {expr : Expr}
    {host : Host} {frame : Frame Value} {value : Value} {supply rest next later : Nat}
    (hostBased : elaborator.registry.HostBased) (sound : host.Sound elaborator.registry supplied)
    (below : scope.Below supply)
    (covered : frame.Covers elaborator.registry supplied scope.bindings)
    (compiled : elaborator.elaborate scope form supply = .ok (expr, rest))
    (evaluated :
      (Setting.mk elaborator.registry host).evaluate frame expr next = .ok (value, later)) :
    WellTyped elaborator.registry supplied value expr.ty ∧
      ∀ closure, Obtained elaborator.registry supplied value (.function closure) →
        ¬ supplied closure → closure.Keeps elaborator.registry supplied := by
  have typed : Typed elaborator.registry scope.bindings expr :=
    (elaborates_of_ok compiled).typed below
  have guaranteed : Setting.Sound ⟨elaborator.registry, host⟩ supplied frame expr :=
    Setting.meets_evaluate hostBased sound covered typed
  have valueTyped := (guaranteed next).of_ok evaluated
  exact ⟨valueTyped, fun closure obtained made => obtained.keeps hostBased valueTyped made⟩

end Elaborator

/-! ## A host with one type -/

namespace PointHost

def declaration : HostType :=
  { name := "Point", constructors := [⟨[.int], 0⟩] }

def registry : Registry :=
  Registry.register {} declaration

def makePoint : Callback :=
  fun _ args next => .ok (.object next "Point" args, next + 1)

def host : Host :=
  ⟨[makePoint]⟩

theorem get?_types (name : String) :
    registry.types.get? name = if name = "Point" then some declaration else none :=
  Table.get?_insert ..

theorem hostBased : registry.HostBased := by
  refine Registry.hostBased_of_declared fun name found base declared based => ?_
  rw [get?_types] at declared
  split at declared
  · cases declared
    cases based
  · cases declared

theorem sound (supplied : Closure Value → Prop) : host.Sound registry supplied where
  constructors := by
    intro ty constructor declared args next value later _ done
    unfold Registry.constructors at declared
    split at declared
    next name =>
      rw [get?_types] at declared
      split at declared
      next point =>
        obtain rfl := List.mem_singleton.mp declared
        cases done
        subst point
        exact .object (registry.isAssignable_refl _)
      · cases declared
    · cases declared
  indexers := by
    intro ty indexer declared
    unfold Registry.indexers at declared
    split at declared
    · simp at declared
    · simp at declared
    · simp at declared
    next name =>
      rw [get?_types] at declared
      split at declared <;> cases declared
    · cases declared

end PointHost

namespace Elaborator

def curriedPoint : Form :=
  let loc : Location := ⟨"curried", 1, 1⟩
  let atom (text : String) : Form := .atom text loc
  let combo (children : List Form) : Form := .combo .paren children loc
  let sum := combo [atom "+", atom "x", atom "y"]
  let inner :=
    combo [atom "=>", combo [combo [atom "int", atom "y"]], combo [atom "new", atom "Point", sum]]
  combo [atom "=>", combo [combo [atom "int", atom "x"]], inner]

/-- Type soundness applies to a lambda in a lambda: it evaluates to a function that keeps the
promise of its type, as do all functions that its calls give. -/
theorem type_soundness_curriedPoint :
    ∃ expr value, elaborate { registry := PointHost.registry } {} curriedPoint 1 = .ok (expr, 5) ∧
      (Setting.mk PointHost.registry PointHost.host).evaluate (.empty 0) expr 5 = .ok (value, 5) ∧
      WellTyped PointHost.registry (fun _ => False) value expr.ty ∧
      ∀ closure, Obtained PointHost.registry (fun _ => False) value (.function closure) →
        ¬ False → closure.Keeps PointHost.registry fun _ => False := by
  refine ⟨_, _, rfl, rfl, ?_⟩
  have below : Scope.Below {} 1 := by simp [Scope.Below, Scope.bindings]
  have covered :
      (Frame.empty 0).Covers PointHost.registry (fun _ => False) (Scope.bindings {}) := by
    simp [Frame.Covers, Scope.bindings]
  exact @type_soundness _ { registry := PointHost.registry } {} curriedPoint _ PointHost.host
    (.empty 0) _ 1 5 5 5 PointHost.hostBased (PointHost.sound _) below covered rfl rfl

end Elaborator

end ExprLang
