import ExprLang.Engine
import ExprLang.Proofs.Elaboration.Typed

/-!
# Sessions

The engines that a host can get from a new one. Bindings draw their identities from the supply of
the engine and nothing gives one back, so in every engine of a session the supply lies above all
identities in the root scope (`Engine.Reached.root_below`). This is what elaboration needs of an
engine to give parameters identities of their own.
-/

namespace ExprLang

/-- A definition under the next identity of a supply stays below the supply that is left. -/
theorem Scope.Below.define {scope : Scope} {next : Nat} (below : scope.Below next) (name : String)
    (ty : Ty) : (scope.define next name ty).2.Below (next + 1) := by
  unfold Scope.define
  split
  · exact below.mono (Nat.le_succ next)
  · intro binding belongs
    simp only [Scope.bindings, List.append_assoc, List.mem_append, List.mem_singleton] at belongs
    rcases belongs with inner | rfl | outer
    · exact Nat.lt_succ_of_lt (below binding (List.mem_append_left _ inner))
    · exact Nat.lt_succ_self next
    · exact Nat.lt_succ_of_lt (below binding (List.mem_append_right _ outer))

namespace Engine

/-- An engine of a session: a new one, or one that an operation gives. What runs draws identities.
-/
inductive Reached : Engine → Prop where
  | new (options : Options) : Reached (.withOptions options)
  | options {engine : Engine} (reached : Reached engine) (options : Options) :
    Reached { engine with options }
  | keyword {engine : Engine} (reached : Reached engine) (name : String) (ty : Ty) :
    Reached (engine.defineKeyword name ty)
  | head {engine : Engine} (reached : Reached engine) (name : String) (head : Head) :
    Reached (engine.defineHead name head)
  | aliased {engine : Engine} (reached : Reached engine) (name existing : String) :
    Reached (engine.defineAlias name existing).2
  | register {engine : Engine} (reached : Reached engine) (declaration : Declaration) :
    Reached (engine.register declaration)
  | declare {engine : Engine} (reached : Reached engine) (name : String) (ty : Ty) :
    Reached (engine.declare name ty).2
  | global {engine later : Engine} {name : String} {value : Value} {binding : Binding}
      (reached : Reached engine) (defined : engine.defineGlobal name value = .ok (binding, later)) :
    Reached later
  | compile {engine later : Engine} {form : Form} {unit : CompiledUnit} (reached : Reached engine)
      (compiled : engine.compileForm form = .ok (unit, later)) : Reached later
  | run {engine : Engine} {supply : Nat} (reached : Reached engine)
      (drawn : engine.supply ≤ supply) : Reached { engine with supply }

/-! ### Outcomes of operations -/

section Outcomes

variable {engine later : Engine} {α β : Type} {run : Run α} {form : Form} {report : Diagnostic}

theorem map_ok {outcome : Except Diagnostic α} {f : α → β} {result : β} :
    outcome.map f = .ok result ↔ ∃ value, outcome = .ok value ∧ f value = result := by
  cases outcome <;> simp [Except.map]

theorem map_error {outcome : Except Diagnostic α} {f : α → β} :
    outcome.map f = .error report ↔ outcome = .error report := by
  cases outcome <;> simp [Except.map]

theorem perform_eq (engine : Engine) (run : Run α) :
    engine.perform run =
      (run engine.supply).map fun made => (made.1, { engine with supply := made.2 }) := by
  unfold perform
  simp only [StateT.run, bind, Except.bind]
  cases run engine.supply <;> rfl

/-- Compiling runs elaboration. -/
theorem compileForm_eq (engine : Engine) (form : Form) :
    engine.compileForm form = (engine.perform (engine.elaborator.elaborate engine.root form)).map
      fun made => (⟨made.1, engine.globals, engine.registry⟩, made.2) := by
  rw [perform_eq]
  unfold compileForm
  simp only [StateT.run, bind, Except.bind]
  cases engine.elaborator.elaborate engine.root form engine.supply <;> rfl

theorem perform_ok {result : α} (done : engine.perform run = .ok (result, later)) :
    ∃ supply, run engine.supply = .ok (result, supply) ∧ later = { engine with supply } := by
  rw [perform_eq, map_ok] at done
  obtain ⟨made, ran, answer⟩ := done
  cases answer
  exact ⟨made.2, ran, rfl⟩

theorem perform_error (failed : engine.perform run = .error report) :
    run engine.supply = .error report := by
  rwa [perform_eq, map_error] at failed

/-- A compiled unit keeps the types and the globals of its engine. -/
theorem compileForm_ok {unit : CompiledUnit}
    (compiled : engine.compileForm form = .ok (unit, later)) :
    unit.frame = engine.globals ∧ unit.registry = engine.registry ∧ ∃ supply,
      engine.elaborator.elaborate engine.root form engine.supply = .ok (unit.root, supply) ∧
      later = { engine with supply } := by
  rw [compileForm_eq, map_ok] at compiled
  obtain ⟨made, elaborated, answer⟩ := compiled
  cases answer
  exact ⟨rfl, rfl, perform_ok elaborated⟩

theorem compileForm_error (failed : engine.compileForm form = .error report) :
    engine.elaborator.elaborate engine.root form engine.supply = .error report := by
  rw [compileForm_eq, map_error] at failed
  exact perform_error failed

theorem compile_eq (engine : Engine) (source : String) :
    engine.compile source = (engine.read source).bind engine.compileForm := rfl

/-- Compiling a text reads it and compiles its form. -/
theorem compile_ok {source : String} {unit : CompiledUnit}
    (compiled : engine.compile source = .ok (unit, later)) :
    ∃ form, engine.read source = .ok form ∧ engine.compileForm form = .ok (unit, later) := by
  rw [compile_eq] at compiled
  cases read : engine.read source with
  | error report =>
    rw [read] at compiled
    cases compiled
  | ok form =>
    rw [read] at compiled
    exact ⟨form, rfl, compiled⟩

/-- A global is declared like any other name, and more of the supply may be drawn. -/
theorem defineGlobal_ok {name : String} {value : Value} {binding : Binding}
    (defined : engine.defineGlobal name value = .ok (binding, later)) :
    ∃ ty, later.root = (engine.declare name ty).2.root ∧ engine.supply + 1 ≤ later.supply := by
  unfold defineGlobal at defined
  dsimp only at defined
  split at defined
  · cases defined
    exact ⟨_, rfl, Nat.le_succ _⟩
  · cases defined

end Outcomes

variable {engine : Engine}

/-- In every engine of a session, the supply lies above all identities in scope. -/
theorem Reached.root_below (reached : engine.Reached) : engine.root.Below engine.supply := by
  induction reached with
  | new options => simp [Scope.Below, Scope.bindings, withOptions]
  | options _ _ ih => exact ih
  | keyword _ _ _ ih => exact ih
  | head _ _ _ ih => exact ih
  | aliased _ _ _ ih =>
    unfold defineAlias
    split <;> exact ih
  | register _ _ ih => exact ih
  | declare _ name ty ih => exact ih.define name ty
  | @global engine later name value binding _ defined ih =>
    obtain ⟨ty, root, drawn⟩ := defineGlobal_ok defined
    rw [root]
    exact (ih.define name ty).mono drawn
  | compile _ compiled ih =>
    obtain ⟨-, -, supply, elaborated, rfl⟩ := compileForm_ok compiled
    exact ih.mono (Elaborator.elaborates_of_ok elaborated).next_le
  | run _ drawn ih => exact ih.mono drawn

end Engine

end ExprLang
