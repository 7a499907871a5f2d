import ExprLang.Proofs.Eval.Supply
import ExprLang.Proofs.Likeness.Evaluation

/-!
# Recipes do likewise

The callbacks of recipes look at their target and arguments only in ways that likeness respects
(`Recipe.likewise`). A recipe may give a value of its own or make objects of a type as long as two
runs know these alike.
-/

namespace ExprLang

variable {like : Likeness} {world : World} {older : Nat}

/-- Code that only looks at its target and arguments does likewise if what it finds is alike. -/
theorem Callback.likewise_lift {look otherLook : Value → List Value → Except String Value}
    (alike : ∀ (world : World) (target other : Value) (args otherArgs : List Value),
      World.below older ≤ world → target.Alike like world other →
      List.Forall₂ (Value.Alike like world) args otherArgs →
      Parallel Eq (Value.Alike like world) (look target args) (otherLook other otherArgs)) :
    Callback.Likewise like older (fun target args => liftM (look target args))
      fun target args => liftM (otherLook target args) := by
  intro world next otherNext target other args otherArgs old fits targets parts
  have found := alike world target other args otherArgs old targets parts
  dsimp only
  generalize look target args = outcome at found ⊢
  generalize otherLook other otherArgs = otherOutcome at found ⊢
  cases found with
  | ok held => exact .ok ⟨world, le_refl _, fits, held⟩
  | error same => exact .error same

namespace Recipe

/-- What a recipe brings along is known: a value that was made before two runs parted, or the name
of a host type. -/
def Known (like : Likeness) (older : Nat) : Recipe → Prop
  | .constant value => value.Alike like (.below older) value
  | .make typeName => like.names typeName
  | _ => True

variable {target other : Value} {args otherArgs : List Value}

/-- Targets that are alike have slots that are alike. -/
theorem slotOf_alike (targets : target.Alike like world other) (position : Nat) :
    Parallel Eq (Value.Alike like world) (slotOf target position) (slotOf other position) := by
  cases targets with
  | object _ _ count parts =>
    have rel := Setting.rel_getElem?_alike (List.forall₂_iff_zip.mpr ⟨count, parts _ _⟩) position
    unfold slotOf slots
    simp only [bind, Except.bind]
    generalize (_ : List Value)[position]? = found at rel ⊢
    generalize (_ : List Value)[position]? = otherFound at rel ⊢
    cases rel with
    | none => exact .error rfl
    | some alike => exact .ok alike
  | datum | list | map | function => exact .error rfl

/-- Arguments that are alike ask for one slot. -/
theorem slotNumber_eq (parts : List.Forall₂ (Value.Alike like world) args otherArgs) :
    slotNumber args = slotNumber otherArgs := by
  cases parts with
  | nil => rfl
  | cons first _ =>
    cases first with
    | @datum leaf =>
      cases leaf with
      | integer kind => cases kind <;> rfl
      | _ => rfl
    | list | map | function | object => rfl

/-- Every recipe does likewise if what it brings along is known. -/
theorem likewise (recipe : Recipe) (known : recipe.Known like older) :
    Callback.Likewise like older recipe.callback recipe.callback := by
  cases recipe with
  | constant value =>
    let look : Value → List Value → Except String Value := fun _ _ => .ok value
    have lifted : Callback.Likewise like older (fun target args => liftM (look target args)) _ :=
      Callback.likewise_lift fun _ _ _ _ _ old _ _ => .ok (known.mono old)
    exact lifted
  | failure message =>
    let look : Value → List Value → Except String Value := fun _ _ => .error message
    have lifted : Callback.Likewise like older (fun target args => liftM (look target args)) _ :=
      Callback.likewise_lift fun _ _ _ _ _ _ _ _ => .error rfl
    exact lifted
  | argument position =>
    intro world next otherNext target other args otherArgs old fits targets parts
    have rel := Setting.rel_getElem?_alike parts position
    unfold callback
    dsimp only
    generalize args[position]? = found at rel ⊢
    generalize otherArgs[position]? = otherFound at rel ⊢
    cases rel with
    | none => exact .error rfl
    | some alike => exact .ok ⟨world, le_refl _, fits, alike⟩
  | slot position =>
    exact Callback.likewise_lift fun _ _ _ _ _ _ targets _ => slotOf_alike targets position
  | slotAt =>
    rw [callback_slotAt]
    refine Callback.likewise_lift fun world target other args otherArgs _ targets parts => ?_
    rw [slotNumber_eq parts]
    cases slotNumber otherArgs with
    | error message => exact .error rfl
    | ok position => exact slotOf_alike targets position
  | target =>
    let look : Value → List Value → Except String Value := fun target _ => .ok target
    have lifted : Callback.Likewise like older (fun target args => liftM (look target args)) _ :=
      Callback.likewise_lift fun _ _ _ _ _ _ targets _ => .ok targets
    exact lifted
  | make typeName =>
    intro world next otherNext target other args otherArgs old fits targets parts
    obtain ⟨wider, wide, fit, pair⟩ := fits.draw
    have slots := parts.imp fun _ _ part => part.mono wide
    exact .ok ⟨wider, wide, fit, Value.alike_object pair known slots⟩

end Recipe

end ExprLang
