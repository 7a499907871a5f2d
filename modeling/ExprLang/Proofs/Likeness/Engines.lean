import ExprLang.Proofs.Engine.Globals
import ExprLang.Proofs.Likeness.Elaboration
import ExprLang.Proofs.Likeness.Evaluation

/-!
# Engines that are alike

Two engines are alike for the names that a form uses if these names mean the same in both. Then both
compile the form to units with roots that are alike, or report failures that are alike, and so do
runs of the units and calls of the functions that come out (`Engine.Alike.compileForm`,
`Engine.Alike.call`).
-/

namespace ExprLang

/-! ## Engines of a session -/

namespace Engine

variable {engine : Engine}

/-- In every engine of a session, the stored values belong to root bindings. -/
theorem Reached.rooted (reached : engine.Reached) : engine.Rooted := by
  induction reached with
  | new options => exact (consistent_withOptions options).rooted
  | options _ _ ih => exact { ih with }
  | keyword _ _ _ ih => exact { ih with }
  | head _ _ _ ih => exact { ih with }
  | aliased _ _ _ ih =>
    unfold defineAlias
    split <;> exact { ih with }
  | register _ _ ih => exact { ih with }
  | declare _ name ty ih => exact ih.declare name ty
  | @global engine later name value binding _ defined ih =>
    rw [defineGlobal_eq, map_ok] at defined
    obtain ⟨found, -, answer⟩ := defined
    cases answer
    exact ih.defining name value
  | compile _ compiled ih =>
    obtain ⟨-, -, supply, elaborated, rfl⟩ := compileForm_ok compiled
    exact ih.drawn ⟨supply, (Elaborator.elaborates_of_ok elaborated).next_le, rfl⟩
  | run _ drawn ih => exact ih.drawn ⟨_, drawn, rfl⟩

/-- The frame of the globals has an identity that was drawn. -/
theorem Reached.frame_lt (reached : engine.Reached) : engine.globals.id < engine.supply := by
  induction reached with
  | new options => exact Nat.zero_lt_one
  | options _ _ ih => exact ih
  | keyword _ _ _ ih => exact ih
  | head _ _ _ ih => exact ih
  | aliased _ _ _ ih =>
    unfold defineAlias
    split <;> exact ih
  | register _ _ ih => exact ih
  | declare _ _ _ ih => exact Nat.lt_succ_of_lt ih
  | global _ defined ih =>
    unfold defineGlobal at defined
    dsimp only at defined
    split at defined
    · cases defined
      exact Nat.lt_succ_self _
    · cases defined
  | compile _ compiled ih =>
    obtain ⟨-, -, supply, elaborated, rfl⟩ := compileForm_ok compiled
    exact Nat.lt_of_lt_of_le ih (Elaborator.elaborates_of_ok elaborated).next_le
  | run _ drawn ih => exact Nat.lt_of_lt_of_le ih drawn

/-- A binding whose identity was not drawn has no value. -/
theorem Rooted.lookup_above (rooted : engine.Rooted) {id : Nat} (above : engine.supply ≤ id) :
    engine.globals.lookup id = none := by
  by_contra stored
  obtain ⟨value, found⟩ := Option.ne_none_iff_exists'.mp stored
  obtain ⟨binding, belongs, same⟩ := rooted.stored _ (Frame.mem_slots_of_lookup found)
  have bound := rooted.id_lt belongs
  rw [same] at bound
  exact absurd bound (Nat.not_lt.mpr above)

end Engine

/-! ## What corresponds in two engines -/

namespace View

variable {shown : Nat → Prop} {start other : Nat}

/-- The bindings that are shown to two runs correspond to themselves, and what the runs draw from
their supplies corresponds in the order of drawing. -/
def between (shown : Nat → Prop) (start other : Nat) : View where
  bindings := (Pairing.identity fun id => shown id ∧ id < start ∧ id < other).union
    (.drawn start other) {
      left := by
        rintro a b c ⟨rfl, -, bound, -⟩ ⟨count, rfl, -⟩
        omega
      right := by
        rintro a b c ⟨rfl, -, -, bound⟩ ⟨count, -, rfl⟩
        omega }
  lambdas := .drawn start other

theorem draws_between : (between shown start other).Draws start other :=
  ⟨fun _ _ pair => .inr pair, fun _ _ pair => pair⟩

end View

namespace Engine

/-- Whether a name with a property has the root binding with an identity. -/
def Shows (engine : Engine) (atoms : String → Prop) (id : Nat) : Prop :=
  ∃ name binding, atoms name ∧ engine.root.lookup name = some binding ∧ binding.id = id

/-- Two engines in which names with a property mean the same to a compilation, as they did when a
supply stood where the engines part. -/
structure Agree (like : Likeness) (older : Nat) (atoms : String → Prop) (engine other : Engine) :
    Prop where
  elaborators : engine.elaborator.Agree like atoms other.elaborator
  bindings : ∀ name, atoms name → other.root.lookup name = engine.root.lookup name
  known : ∀ name binding, atoms name → engine.root.lookup name = some binding →
    binding.id < older ∧ binding.ty.Over like.names
  drawn : older ≤ engine.supply ∧ older ≤ other.supply

/-- Two engines in which names with a property mean the same also to runs: they have values that are
alike, and code of the host does likewise. -/
structure Alike (like : Likeness) (older : Nat) (atoms : String → Prop) (engine other : Engine) :
    Prop extends engine.Agree like older atoms other where
  kept : like.registries engine.registry other.registry
  values : ∀ id, engine.Shows atoms id → Option.Rel (Value.Alike like (.below older))
    (engine.globals.lookup id) (other.globals.lookup id)
  rooted : engine.Rooted
  otherRooted : other.Rooted
  frames : engine.globals.id < engine.supply ∧ other.globals.id < other.supply
  host : ∀ key, like.keys key →
    Callback.Likewise like older (engine.host.callback key) (other.host.callback key)

/-- Two runs of engines give values that are alike in a world that is wider, or fail alike. -/
abbrev RunAlike (like : Likeness) (world : World)
    (outcome other : Except Diagnostic (Value × Engine)) : Prop :=
  Likewise like.places (fun done otherDone => ∃ wider, world ≤ wider ∧
    wider.Fits done.2.supply otherDone.2.supply ∧ done.1.Alike like wider otherDone.1) outcome other

/-- Two engines compiled to roots that are alike, where new bindings correspond in the order of
drawing. -/
def RootsAlike (like : Likeness) (atoms : String → Prop) (engine other : Engine)
    (made otherMade : CompiledUnit × Engine) : Prop :=
  made.1.root.Alike like (.between (engine.Shows atoms) engine.supply other.supply)
    otherMade.1.root

/-- Two engines compiled to roots that are alike, and the units run alike whenever more was drawn. -/
structure CompiledAlike (like : Likeness) (older : Nat) (atoms : String → Prop)
    (engine other : Engine) (made otherMade : CompiledUnit × Engine) : Prop where
  roots : engine.RootsAlike like atoms other made otherMade
  runs : ∀ runner otherRunner, made.2.Drawn runner → otherMade.2.Drawn otherRunner →
    RunAlike like (.below older) (runner.invoke made.1) (otherRunner.invoke otherMade.1)

variable {like : Likeness} {older : Nat} {atoms : String → Prop} {engine other : Engine}
  {before : World}

theorem runAlike_perform {run otherRun : Run Value}
    (evaluate : Run.Evaluate like before (Value.Alike like) run otherRun)
    (fits : before.Fits engine.supply other.supply) :
    RunAlike like before (engine.perform run) (other.perform otherRun) := by
  rw [perform_eq, perform_eq]
  exact (evaluate before (le_refl _) _ _ fits).map fun _ _ held => held

namespace Agree

theorem scopes (agree : engine.Agree like older atoms other) :
    engine.root.Alike like (.between (engine.Shows atoms) engine.supply other.supply) atoms
      other.root := by
  intro name meant
  rw [agree.bindings name meant]
  cases found : engine.root.lookup name with
  | none => exact .none
  | some binding =>
    obtain ⟨bound, known⟩ := agree.known name binding meant found
    refine .some ⟨rfl, rfl, known, .inl ⟨rfl, ⟨name, binding, meant, found, rfl⟩, ?_, ?_⟩⟩
    · exact Nat.lt_of_lt_of_le bound agree.drawn.1
    · exact Nat.lt_of_lt_of_le bound agree.drawn.2

/-- Engines that agree compile forms that are alike to roots that are alike, or fail alike. -/
theorem compileForm (agree : engine.Agree like older atoms other) {form otherForm : Form}
    (forms : form.Alike like.places atoms otherForm) :
    Likewise like.places (engine.RootsAlike like atoms other) (engine.compileForm form)
      (other.compileForm otherForm) := by
  have inStep : Elaborator.InStep like engine.supply other.supply
      (Expr.Alike like (.between (engine.Shows atoms) engine.supply other.supply))
      (engine.elaborator.elaborateAt engine.root 0 form)
      (other.elaborator.elaborateAt other.root 0 otherForm) :=
    agree.elaborators.elaborateAt View.draws_between form agree.scopes forms
  have elaborated := inStep () (le_refl _) engine.supply other.supply ⟨0, rfl, rfl⟩
  rw [compileForm_eq, perform_eq, compileForm_eq, perform_eq]
  unfold Elaborator.elaborate
  refine (elaborated.map fun _ _ held => ?_).map fun _ _ roots => roots
  obtain ⟨-, -, -, roots⟩ := held
  exact roots

end Agree

namespace Alike

/-- The world in which units start: functions that lambdas of the units make correspond as the
lambdas do. -/
def world (alike : engine.Alike like older atoms other) : World :=
  .starting older (.drawn engine.supply other.supply)
    (by
      rintro a b ⟨count, rfl, rfl⟩
      have drawn := alike.drawn
      omega)
    engine.globals.id other.globals.id

theorem below_le_world (alike : engine.Alike like older atoms other) :
    World.below older ≤ alike.world :=
  World.below_le_starting _

theorem frame (alike : engine.Alike like older atoms other) :
    engine.globals.Alike like alike.world
      (.between (engine.Shows atoms) engine.supply other.supply) other.globals where
  slots := by
    rintro binding second (⟨rfl, shown, -, -⟩ | ⟨count, rfl, rfl⟩)
    · exact rel_widen (alike.values _ shown) alike.below_le_world
    · rw [alike.rooted.lookup_above (Nat.le_add_right ..),
        alike.otherRooted.lookup_above (Nat.le_add_right ..)]
      exact .none
  functions _ _ pair := .inr ⟨pair, rfl, rfl⟩

/-- Units with roots that are alike run alike, whenever more was drawn. -/
theorem invoke (alike : engine.Alike like older atoms other) {unit otherUnit : CompiledUnit}
    (kept : unit.frame = engine.globals ∧ unit.registry = engine.registry)
    (otherKept : otherUnit.frame = other.globals ∧ otherUnit.registry = other.registry)
    (roots : unit.root.Alike like (.between (engine.Shows atoms) engine.supply other.supply)
      otherUnit.root)
    {runner otherRunner : Engine} (drawn : engine.Drawn runner)
    (otherDrawn : other.Drawn otherRunner) :
    RunAlike like (.below older) (runner.invoke unit) (otherRunner.invoke otherUnit) := by
  obtain ⟨supply, more, rfl⟩ := drawn
  obtain ⟨otherSupply, otherMore, rfl⟩ := otherDrawn
  have settings : Setting.Alike like older ⟨engine.registry, engine.host⟩
      ⟨other.registry, other.host⟩ := ⟨alike.kept, alike.elaborators.registry, alike.host⟩
  have fits : alike.world.Fits supply otherSupply :=
    (World.fits_starting _ alike.drawn.1 alike.drawn.2 alike.frames.1 alike.frames.2).mono
      more otherMore
  have evaluate := settings.evaluate unit.root alike.below_le_world alike.frame roots
  have ends : RunAlike like alike.world
      ({ engine with supply }.perform
        ((Setting.mk engine.registry engine.host).evaluate engine.globals unit.root))
      ({ other with supply := otherSupply }.perform
        ((Setting.mk other.registry other.host).evaluate other.globals otherUnit.root)) :=
    runAlike_perform evaluate fits
  unfold Engine.invoke
  rw [kept.1, kept.2, otherKept.1, otherKept.2]
  refine ends.mono ?_
  rintro done otherDone ⟨wider, wide, fit, values⟩
  exact ⟨wider, le_trans alike.below_le_world wide, fit, values⟩

/-- Engines that are alike compile forms that are alike to units that are alike, or fail alike. -/
theorem compileForm (alike : engine.Alike like older atoms other) {form otherForm : Form}
    (forms : form.Alike like.places atoms otherForm) :
    Likewise like.places (engine.CompiledAlike like older atoms other) (engine.compileForm form)
      (other.compileForm otherForm) := by
  have roots := alike.toAgree.compileForm forms
  generalize compiled : engine.compileForm form = outcome at roots ⊢
  generalize otherCompiled : other.compileForm otherForm = otherOutcome at roots ⊢
  cases roots with
  | error held => exact .error held
  | @ok made otherMade roots =>
    obtain ⟨frame, registry, -⟩ := compileForm_ok compiled
    obtain ⟨otherFrame, otherRegistry, -⟩ := compileForm_ok otherCompiled
    refine .ok ⟨roots, fun runner otherRunner drawn otherDrawn => ?_⟩
    exact alike.invoke ⟨frame, registry⟩ ⟨otherFrame, otherRegistry⟩ roots
      ((drawn_of_compileForm compiled).trans drawn)
      ((drawn_of_compileForm otherCompiled).trans otherDrawn)

end Alike

/-- Functions that are alike do the same with arguments that are alike, on hosts whose code does
likewise. -/
theorem call_alike (agrees : ∀ registry otherRegistry, like.registries registry otherRegistry →
      registry.Agree like otherRegistry)
    (hosts : ∀ key, like.keys key →
      Callback.Likewise like older (engine.host.callback key) (other.host.callback key))
    (old : World.below older ≤ before) {closure otherClosure : Closure Value}
    (functions : Value.Alike like before (.function closure) (.function otherClosure))
    {args otherArgs : List Value} (parts : List.Forall₂ (Value.Alike like before) args otherArgs)
    (fits : before.Fits engine.supply other.supply) :
    RunAlike like before (engine.call closure args) (other.call otherClosure otherArgs) :=
  runAlike_perform (Closure.call_likewise agrees hosts old functions parts) fits

end Engine

end ExprLang
