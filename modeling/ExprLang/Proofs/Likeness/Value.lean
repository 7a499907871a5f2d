import ExprLang.Proofs.Likeness.Basic
import ExprLang.Value.Same

/-!
# Values of two runs that are alike

What two values that are alike have in common: their types and their texts, and how they compare
with others that are alike, as keys of a map and under the operator `==`. Values that are alike in a
world are so in every wider one (`Value.Alike.mono`).
-/

namespace ExprLang

variable {like : Likeness} {world wider : World}

/-- Two values are alike in a world. -/
inductive Value.Alike (like : Likeness) (world : World) : Value → Value → Prop where
  -- The parts are related as pairs of a zip, and `bound` says nothing of likeness, so that the
  -- induction on likeness reaches the parts and the captured values.
  | datum {leaf : Datum} : Alike like world (.datum leaf) (.datum leaf)
  | list {id second : Nat} {element : Ty} {items others : List Value}
      (ids : world.identities id second) (known : element.Over like.names)
      (count : items.length = others.length)
      (parts : ∀ item other, (item, other) ∈ items.zip others → Alike like world item other) :
      Alike like world (.list id element items) (.list second element others)
  | map {id second : Nat} {key value : Ty} {entries others : List (Value × Value)}
      (ids : world.identities id second) (keyKnown : key.Over like.names)
      (valueKnown : value.Over like.names) (count : entries.length = others.length)
      (keys : ∀ entry other, (entry, other) ∈ entries.zip others → Alike like world entry.1 other.1)
      (values : ∀ entry other, (entry, other) ∈ entries.zip others →
        Alike like world entry.2 other.2) :
      Alike like world (.map id key value entries) (.map second key value others)
  | function {closure other : Closure Value} {view : View}
      (ids : world.functions (closure.lambda, closure.frame.id) (other.lambda, other.frame.id))
      (params : List.Forall₂ (Binding.Alike like view) closure.params other.params)
      (body : Expr.Alike like view closure.body other.body) (ty : closure.ty = other.ty)
      (known : closure.ty.Over like.names)
      (registries : like.registries closure.registry other.registry)
      (bound : ∀ binding second, view.bindings binding second →
        (closure.frame.lookup binding).isSome = (other.frame.lookup second).isSome)
      (values : ∀ binding second value otherValue, view.bindings binding second →
        closure.frame.lookup binding = some value → other.frame.lookup second = some otherValue →
        Alike like world value otherValue) :
      Alike like world (.function closure) (.function other)
  | object {id second : Nat} {typeName : String} {slots others : List Value}
      (ids : world.identities id second) (known : like.names typeName)
      (count : slots.length = others.length)
      (parts : ∀ slot other, (slot, other) ∈ slots.zip others → Alike like world slot other) :
      Alike like world (.object id typeName slots) (.object second typeName others)

def EntriesAlike (like : Likeness) (world : World) (entry other : Value × Value) : Prop :=
  Value.Alike like world entry.1 other.1 ∧ Value.Alike like world entry.2 other.2

/-- Two frames give corresponding bindings values that are alike, and functions made of
corresponding lambdas correspond. -/
structure Frame.Alike (like : Likeness) (world : World) (view : View)
    (frame other : Frame Value) : Prop where
  slots : ∀ binding second, view.bindings binding second →
    Option.Rel (Value.Alike like world) (frame.lookup binding) (other.lookup second)
  functions : ∀ lambda second, view.lambdas lambda second →
    world.functions (lambda, frame.id) (second, other.id)

namespace Value

variable {value other second otherSecond : Value} {items others : List Value}
  {entries otherEntries : List (Value × Value)} {id otherId : Nat}

theorem Alike.mono (alike : Alike like world value other) (wide : world ≤ wider) :
    Alike like wider value other := by
  induction alike with
  | datum => exact .datum
  | list ids known count _ ih => exact .list (wide.1 _ _ ids) known count ih
  | map ids keyKnown valueKnown count _ _ keys values =>
    exact .map (wide.1 _ _ ids) keyKnown valueKnown count keys values
  | function ids params body ty known registries bound _ ih =>
    exact .function (wide.2 _ _ ids) params body ty known registries bound ih
  | object ids known count _ ih => exact .object (wide.1 _ _ ids) known count ih

/-! ## Parts -/

theorem alike_list {element : Ty} (ids : world.identities id otherId)
    (known : element.Over like.names) (parts : List.Forall₂ (Alike like world) items others) :
    Alike like world (.list id element items) (.list otherId element others) := by
  obtain ⟨count, zipped⟩ := List.forall₂_iff_zip.mp parts
  exact .list ids known count fun _ _ => zipped

theorem alike_map {key held : Ty} (ids : world.identities id otherId)
    (keyKnown : key.Over like.names) (heldKnown : held.Over like.names)
    (parts : List.Forall₂ (EntriesAlike like world) entries otherEntries) :
    Alike like world (.map id key held entries) (.map otherId key held otherEntries) := by
  obtain ⟨count, zipped⟩ := List.forall₂_iff_zip.mp parts
  exact .map ids keyKnown heldKnown count (fun _ _ belongs => (zipped belongs).1)
    fun _ _ belongs => (zipped belongs).2

theorem alike_object {typeName : String} (ids : world.identities id otherId)
    (known : like.names typeName) (parts : List.Forall₂ (Alike like world) items others) :
    Alike like world (.object id typeName items) (.object otherId typeName others) := by
  obtain ⟨count, zipped⟩ := List.forall₂_iff_zip.mp parts
  exact .object ids known count fun _ _ => zipped

/-- Two functions with bodies that are alike in frames that are alike. -/
theorem alike_function {closure other : Closure Value} {view : View}
    (ids : world.functions (closure.lambda, closure.frame.id) (other.lambda, other.frame.id))
    (params : List.Forall₂ (Binding.Alike like view) closure.params other.params)
    (body : Expr.Alike like view closure.body other.body) (ty : closure.ty = other.ty)
    (known : closure.ty.Over like.names)
    (registries : like.registries closure.registry other.registry)
    (slots : ∀ binding second, view.bindings binding second →
      Option.Rel (Alike like world) (closure.frame.lookup binding) (other.frame.lookup second)) :
    Alike like world (.function closure) (.function other) := by
  refine .function ids params body ty known registries ?_ ?_
  · intro binding second pair
    have rel := slots binding second pair
    generalize closure.frame.lookup binding = found at rel
    generalize other.frame.lookup second = otherFound at rel
    cases rel <;> rfl
  · intro binding second value otherValue pair found otherFound
    have rel := slots binding second pair
    rw [found, otherFound] at rel
    cases rel with
    | some alike => exact alike

theorem Alike.function_inv {closure other : Closure Value}
    (alike : Alike like world (.function closure) (.function other)) :
    ∃ view : View,
      world.functions (closure.lambda, closure.frame.id) (other.lambda, other.frame.id) ∧
      List.Forall₂ (Binding.Alike like view) closure.params other.params ∧
      Expr.Alike like view closure.body other.body ∧
      like.registries closure.registry other.registry ∧
      ∀ binding second, view.bindings binding second →
        Option.Rel (Alike like world) (closure.frame.lookup binding)
          (other.frame.lookup second) := by
  cases alike with
  | @function _ _ view ids params body _ _ registries bound values =>
    refine ⟨view, ids, params, body, registries, fun binding second pair => ?_⟩
    have both := bound binding second pair
    cases found : closure.frame.lookup binding with
    | none =>
      cases otherFound : other.frame.lookup second with
      | none => exact .none
      | some otherValue => simp [found, otherFound] at both
    | some value =>
      cases otherFound : other.frame.lookup second with
      | none => simp [found, otherFound] at both
      | some otherValue => exact .some (values _ _ _ _ pair found otherFound)

/-! ## Types and texts -/

theorem Alike.ty?_eq (alike : Alike like world value other) : value.ty? = other.ty? := by
  cases alike with
  | function _ _ _ ty => exact congrArg some ty
  | datum | list | map | object => rfl

theorem Alike.typeName_eq (alike : Alike like world value other) :
    value.typeName = other.typeName := by
  rw [typeName, alike.ty?_eq, typeName]

theorem Alike.isNull_eq (alike : Alike like world value other) : value.isNull = other.isNull := by
  cases alike <;> rfl

/-- The types of values that are alike are known to both sides. -/
theorem Alike.known (alike : Alike like world value other) {ty : Ty} (shown : value.ty? = some ty) :
    ty.Over like.names := by
  cases alike with
  | @datum leaf =>
    cases leaf <;> cases shown <;> trivial
  | list _ known =>
    cases shown
    exact known
  | map _ keyKnown valueKnown =>
    cases shown
    exact ⟨keyKnown, valueKnown⟩
  | function _ _ _ _ known =>
    cases shown
    exact known
  | object _ known =>
    cases shown
    exact known

theorem renderItems_eq_of_forall₂ {leaf : Datum → String}
    (same : List.Forall₂ (fun item other => render leaf item = render leaf other) items others) :
    renderItems leaf items = renderItems leaf others := by
  induction same with
  | nil => rfl
  | @cons item other items others first rest ih =>
    cases rest with
    | nil => exact first
    | @cons second otherSecond items others =>
      calc renderItems leaf (item :: second :: items)
        _ = render leaf item ++ ", " ++ renderItems leaf (second :: items) := rfl
        _ = render leaf other ++ ", " ++ renderItems leaf (otherSecond :: others) := by
          rw [first, ih]
        _ = renderItems leaf (other :: otherSecond :: others) := rfl

theorem renderEntries_eq_of_forall₂ {leaf : Datum → String}
    (same : List.Forall₂ (fun entry other : Value × Value =>
      render leaf entry.1 = render leaf other.1 ∧ render leaf entry.2 = render leaf other.2)
      entries otherEntries) :
    renderEntries leaf entries = renderEntries leaf otherEntries := by
  induction same with
  | nil => rfl
  | @cons entry other _ _ first rest ih =>
    obtain ⟨key, held⟩ := entry
    obtain ⟨otherKey, otherHeld⟩ := other
    obtain ⟨keys, values⟩ := first
    cases rest with
    | nil => rw [renderEntries, renderEntries, keys, values]
    | @cons second otherSecond entries others =>
      calc renderEntries leaf ((key, held) :: second :: entries)
        _ = render leaf key ++ ": " ++ render leaf held ++ ", " ++
            renderEntries leaf (second :: entries) := rfl
        _ = render leaf otherKey ++ ": " ++ render leaf otherHeld ++ ", " ++
            renderEntries leaf (otherSecond :: others) := by rw [keys, values, ih]
        _ = renderEntries leaf ((otherKey, otherHeld) :: otherSecond :: others) := rfl

theorem Alike.render_eq (alike : Alike like world value other) (leaf : Datum → String) :
    value.render leaf = other.render leaf := by
  induction alike with
  | datum => rfl
  | list _ _ count _ ih =>
    rw [render, render, renderItems_eq_of_forall₂ (List.forall₂_iff_zip.mpr ⟨count, ih _ _⟩)]
  | map _ _ _ count _ _ keys values =>
    rw [render, render, renderEntries_eq_of_forall₂ (List.forall₂_iff_zip.mpr
      ⟨count, fun belongs => ⟨keys _ _ belongs, values _ _ belongs⟩⟩)]
  | function _ _ _ ty => rw [render, render, ty]
  | object => rfl

theorem Alike.text_eq (alike : Alike like world value other) : value.text = other.text :=
  alike.render_eq _

/-! ## Comparison -/

mutual

/-- Values that are alike compare alike as keys of a map. -/
theorem Alike.same_eq {value second : Value} {other otherSecond : Value}
    (alike : Alike like world value other) (secondAlike : Alike like world second otherSecond) :
    value.same second = other.same otherSecond := by
  match value with
  | .datum leaf =>
    cases alike
    cases secondAlike <;> rfl
  | .list id element items =>
    cases alike with
    | @list _ otherId _ _ others ids known count parts =>
      cases secondAlike with
      | list _ _ secondCount secondParts =>
        have items := sameItems_eq (List.forall₂_iff_zip.mpr ⟨count, parts _ _⟩)
          (List.forall₂_iff_zip.mpr ⟨secondCount, secondParts _ _⟩)
        simp only [same, items]
      | datum | map | function | object => rfl
  | .map id key held entries =>
    cases alike with
    | map ids keyKnown heldKnown count keys values =>
      cases secondAlike with
      | map _ _ _ secondCount secondKeys secondValues =>
        have entries := sameEntries_eq
          (List.forall₂_iff_zip.mpr ⟨count, fun belongs => ⟨keys _ _ belongs, values _ _ belongs⟩⟩)
          (List.forall₂_iff_zip.mpr ⟨secondCount, fun belongs =>
            ⟨secondKeys _ _ belongs, secondValues _ _ belongs⟩⟩)
        simp only [same, count, secondCount, entries]
      | datum | list | function | object => rfl
  | .function closure =>
    cases alike with
    | function ids =>
      cases secondAlike with
      | function secondIds =>
        have keys := world.functions.eq_iff ids secondIds
        rw [Prod.mk.injEq, Prod.mk.injEq] at keys
        rw [same, same, Bool.eq_iff_iff]
        simpa only [Bool.and_eq_true, beq_iff_eq] using keys
      | datum | list | map | object => rfl
  | .object id typeName slots =>
    cases alike with
    | object ids =>
      cases secondAlike with
      | object secondIds =>
        rw [same, same, Bool.eq_iff_iff]
        simpa only [beq_iff_eq] using world.identities.eq_iff ids secondIds
      | datum | list | map | function => rfl
termination_by structural value

theorem sameItems_eq {items seconds : List Value} {others otherSeconds : List Value}
    (alike : List.Forall₂ (Alike like world) items others)
    (secondAlike : List.Forall₂ (Alike like world) seconds otherSeconds) :
    sameItems items seconds = sameItems others otherSeconds := by
  match items with
  | [] =>
    cases alike
    cases secondAlike <;> rfl
  | item :: rest =>
    cases alike with
    | cons first alike =>
      cases secondAlike with
      | nil => rfl
      | cons second secondAlike =>
        rw [sameItems, sameItems, first.same_eq second, sameItems_eq alike secondAlike]
termination_by structural items

theorem sameEntries_eq {entries seconds : List (Value × Value)}
    {others otherSeconds : List (Value × Value)}
    (alike : List.Forall₂ (EntriesAlike like world) entries others)
    (secondAlike : List.Forall₂ (EntriesAlike like world) seconds otherSeconds) :
    sameEntries entries seconds = sameEntries others otherSeconds := by
  match entries with
  | [] =>
    cases alike
    rfl
  | (key, held) :: rest =>
    cases alike with
    | @cons _ other _ _ first alike =>
      obtain ⟨otherKey, otherHeld⟩ := other
      have keys : Alike like world key otherKey := first.1
      have values : Alike like world held otherHeld := first.2
      have found : Option.Rel (EntriesAlike like world)
          (seconds.find? fun entry => same key entry.1)
          (otherSeconds.find? fun entry => same otherKey entry.1) := by
        clear alike
        induction secondAlike with
        | nil => exact .none
        | cons second _ ih =>
          rw [List.find?_cons, List.find?_cons, ← Alike.same_eq keys second.1]
          cases same key _ with
          | true => exact .some second
          | false => exact ih
      rw [sameEntries, sameEntries, sameEntries_eq alike secondAlike]
      generalize (seconds.find? fun entry => same key entry.1) = left at found
      generalize (otherSeconds.find? fun entry => same otherKey entry.1) = right at found
      cases found with
      | none => rfl
      | some entry => dsimp only; rw [Alike.same_eq values entry.2]
termination_by structural entries

end

/-- Values that are alike are equal to values that are alike. -/
theorem Alike.equal_eq (alike : Alike like world value other)
    (secondAlike : Alike like world second otherSecond) :
    value.equal second = other.equal otherSecond := by
  have keys := alike.same_eq secondAlike
  cases alike with
  | @datum leaf =>
    cases secondAlike with
    | datum => rfl
    | list | map | function | object => cases leaf <;> rfl
  | list ids =>
    cases secondAlike with
    | list secondIds =>
      rw [equal, equal, Bool.eq_iff_iff]
      simpa only [beq_iff_eq] using world.identities.eq_iff ids secondIds
    | datum | map | function | object => exact keys
  | map ids =>
    cases secondAlike with
    | map secondIds =>
      rw [equal, equal, Bool.eq_iff_iff]
      simpa only [beq_iff_eq] using world.identities.eq_iff ids secondIds
    | datum | list | function | object => exact keys
  | function | object => cases secondAlike <;> exact keys

/-- Keys that are alike find values that are alike. -/
theorem Alike.findEntry? (alike : Alike like world value other)
    (held : List.Forall₂ (EntriesAlike like world) entries otherEntries) :
    Option.Rel (Alike like world) (Value.findEntry? value entries)
      (Value.findEntry? other otherEntries) := by
  unfold Value.findEntry?
  induction held with
  | nil => exact .none
  | cons first _ ih =>
    rw [List.find?_cons, List.find?_cons, alike.same_eq first.1]
    split
    · exact .some first.2
    · exact ih

end Value

theorem EntriesAlike.mono {entry other : Value × Value}
    (alike : EntriesAlike like world entry other) (wide : world ≤ wider) :
    EntriesAlike like wider entry other :=
  ⟨alike.1.mono wide, alike.2.mono wide⟩

end ExprLang
