import ExprLang.Proofs.Eval.Invariants

/-!
# Identities are not given back

Running draws identities from the supply of an engine. If no code of the host gives an identity
back (`Host.Draws`), then neither does the evaluation of an expression nor the call of a function,
so an identity that is in use is never drawn again.
-/

namespace ExprLang

/-- A computation gives no identity back. -/
def Run.Draws {α : Type} (run : Run α) : Prop :=
  ∀ next result later, run next = .ok (result, later) → next ≤ later

/-- Code of a host gives no identity back. -/
def Callback.Draws (callback : Callback) : Prop :=
  ∀ target args next value later, callback target args next = .ok (value, later) → next ≤ later

def Host.Draws (host : Host) : Prop :=
  ∀ callback ∈ host.callbacks, Callback.Draws callback

/-- Nothing is asked of values: a world is the identity from which on something was started. -/
def Invariant.supply : Invariant Nat where
  Grows world wider := world ≤ wider
  Free world next := world ≤ next
  Drawn _ _ := True
  Code _ _ := True
  Entries _ _ := True
  Holds _ _ := True
  refl := Nat.le_refl
  trans := Nat.le_trans
  free_of_le := Nat.le_trans
  draw {world _} free := ⟨world, Nat.le_refl _, Nat.le_succ_of_le free, trivial⟩
  drawn_mono _ _ := trivial
  code_mono _ _ := trivial
  entries_mono _ _ := trivial
  mono _ _ := trivial
  operand _ _ := trivial
  entries_nil := trivial
  entries_append _ _ _ _ := trivial
  entries_value _ _ _ := trivial
  datum := trivial
  list_iff := ⟨fun _ => ⟨trivial, fun _ _ => trivial⟩, fun _ => trivial⟩
  map_iff := ⟨fun _ => ⟨trivial, trivial⟩, fun _ => trivial⟩
  function _ _ _ := trivial
  body _ := trivial
  captured _ _ _ := trivial
  object {world _ _} free _ _ := ⟨world, Nat.le_refl _, Nat.le_succ_of_le free, trivial⟩
  slot _ _ _ := trivial

theorem Run.draws_of_keeps {α : Type} {run : Run α} {holds : Nat → α → Prop}
    (keeps : ∀ world, run.Keeps .supply world holds) : run.Draws := by
  intro next result later ok
  obtain ⟨wider, grown, free, -⟩ := keeps next next (Nat.le_refl _) result later ok
  exact Nat.le_trans grown free

theorem Host.Draws.keeps {host : Host} (draws : host.Draws) : host.Keeps .supply 0 := by
  intro callback belongs world _ target args next value later free _ _ made
  exact ⟨world, Nat.le_refl _, Nat.le_trans free (draws callback belongs _ _ _ _ _ made), trivial⟩

theorem Host.Draws.callback {host : Host} (draws : host.Draws) (key : Nat) :
    Callback.Draws (host.callback key) := by
  refine callback_of_forall Callback.Draws ?_ draws key
  rintro target args next value later ⟨⟩

/-- No recipe gives an identity back. -/
theorem Recipe.draws (recipe : Recipe) : Callback.Draws recipe.callback := by
  intro target args next value later made
  have keeps : Callback.Keeps .supply 0 recipe.callback := recipe.keeps fun _ _ => trivial
  obtain ⟨wider, grown, free, -⟩ := keeps next (Nat.zero_le _) target args next value later
    (Nat.le_refl _) trivial (fun _ _ => trivial) made
  exact Nat.le_trans grown free

/-- Evaluation gives no identity back. -/
theorem Setting.draws_evaluate {setting : Setting} {frame : Frame Value}
    (draws : setting.host.Draws) (expr : Expr) : (setting.evaluate frame expr).Draws :=
  Run.draws_of_keeps fun _ => keeps_evaluate draws.keeps expr (Nat.zero_le _)
    ⟨trivial, fun _ _ => trivial⟩ trivial

/-- A call gives no identity back. -/
theorem Closure.draws_call {host : Host} (draws : host.Draws) {closure : Closure Value}
    {args : List Value} : (closure.call host args).Draws :=
  Run.draws_of_keeps fun _ => keeps_call draws.keeps (Nat.zero_le _) trivial fun _ _ => trivial

end ExprLang
