import ExprLang.Extract
import ExprLang.Proofs.Eval.WellTyped

/-!
# Room for null

When extraction fails. A shape asks for the parts of a value in parts of itself (`Shape.Asks`); a null
that is asked for in a part that is neither `value` nor an option has no room there
(`Shape.LacksRoom`). On a well-typed value of a type that a shape accepts, extraction fails exactly if
some null has no room (`Shape.extract_eq_none_iff`): types and shapes agree on everything else.
-/

namespace ExprLang

/-! ## Mapping a list by a function that may fail -/

section Parts

variable {α β : Type} {f : α → Option β} {parts : List α} {made : List β}

/-- A function that may fail maps a list if it maps all members. -/
theorem mapM_eq_some_iff :
    parts.mapM f = some made ↔ List.Forall₂ (fun part data => f part = some data) parts made := by
  induction parts generalizing made with
  | nil => simp [eq_comm]
  | cons part rest ih =>
    rw [List.mapM_cons, List.forall₂_cons_left_iff]
    simp only [Option.bind_eq_bind, Option.bind_eq_some_iff, Option.pure_def, Option.some.injEq, ih]
    constructor
    · rintro ⟨data, here, others, further, rfl⟩
      exact ⟨data, others, here, further, rfl⟩
    · rintro ⟨data, others, here, further, rfl⟩
      exact ⟨data, here, others, further, rfl⟩

/-- A function that may fail fails on a list if it fails on a member. -/
theorem mapM_eq_none_iff : parts.mapM f = none ↔ ∃ part ∈ parts, f part = none := by
  induction parts with
  | nil => simp
  | cons part rest ih =>
    rw [List.mapM_cons, List.exists_mem_cons_iff, ← ih]
    cases f part with
    | none => simp
    | some data => cases rest.mapM f <;> simp

end Parts

namespace Shape

/-! ## Kinds of shapes -/

/-- The scalars are alike, so a statement about shapes has six cases. -/
@[elab_as_elim]
theorem kinds {motive : Shape → Prop}
    (scalar : ∀ {shape : Shape} {basic : Ty}, shape.scalarTy? = some basic → motive shape)
    (value : motive .value) (closure : motive .closure)
    (option : ∀ inner, motive inner → motive (.option inner))
    (vec : ∀ inner, motive inner → motive (.vec inner))
    (map : ∀ keys values, motive keys → motive values → motive (.map keys values)) (shape : Shape) :
    motive shape := by
  induction shape with
  | value => exact value
  | closure => exact closure
  | option inner ih => exact option inner ih
  | vec inner ih => exact vec inner ih
  | map keys values keysIh valuesIh => exact map keys values keysIh valuesIh
  | bool | char | byte | integer | float | double | decimal | string | type => exact scalar rfl

variable {shape inner keys values : Shape} {basic ty : Ty}

/-- The type of a scalar is built in, and not `object`. -/
theorem scalarTy?_eq_some (scalar : shape.scalarTy? = some basic) :
    ∃ prim, basic = .prim prim ∧ prim ≠ .object := by
  cases shape <;> cases scalar <;> exact ⟨_, rfl, nofun⟩

/-- A scalar accepts its own type. -/
theorem accepts_scalar (scalar : shape.scalarTy? = some basic) :
    shape.accepts ty = true ↔ basic = ty := by
  cases shape <;> cases scalar <;> simp [accepts, scalarTy?]

theorem accepts_closure : Shape.closure.accepts ty = true ↔ ∃ params result, ty = .func params result := by
  cases ty with
  | func params result => exact iff_of_true rfl ⟨params, result, rfl⟩
  | _ => exact iff_of_false nofun nofun

theorem accepts_vec :
    (Shape.vec inner).accepts ty = true ↔ ∃ element, ty = .list element ∧ inner.accepts element = true := by
  cases ty with
  | list element =>
    exact ⟨fun accepted => ⟨element, rfl, accepted⟩, fun ⟨_, rfl, accepted⟩ => accepted⟩
  | _ => exact iff_of_false nofun nofun

theorem accepts_map : (Shape.map keys values).accepts ty = true ↔ ∃ keyTy valueTy,
    ty = .map keyTy valueTy ∧ keys.accepts keyTy = true ∧ values.accepts valueTy = true := by
  cases ty with
  | map keyTy valueTy =>
    refine Bool.and_eq_true_iff.trans ⟨fun accepted => ⟨keyTy, valueTy, rfl, accepted⟩, ?_⟩
    rintro ⟨_, _, same, accepted⟩
    cases same
    exact accepted
  | _ => exact iff_of_false nofun nofun

/-! ## Extraction, kind by kind -/

/-- A scalar is extracted from a datum of its type. -/
theorem extract_datum (scalar : shape.scalarTy? = some basic) (datum : Datum) :
    shape.extract (.datum datum) = if datum.ty? = some basic then some (.datum datum) else none := by
  have shown : (datum.ty?.isSome && datum.ty? == some basic) = true ↔ datum.ty? = some basic := by
    cases datum.ty? <;> simp
  cases shape <;> cases scalar <;> simp only [extract, scalarTy?, shown]

/-- An option of a value other than null is the data of the value. -/
theorem extract_option {value : Value} (present : value ≠ .null) :
    (Shape.option inner).extract value = (inner.extract value).map .some := by
  rw [extract]
  exact present

theorem extract_list (id : Nat) (element : Ty) (items : List Value) :
    (Shape.vec inner).extract (.list id element items) = (items.mapM inner.extract).map .vec :=
  rfl

def extractEntry (keys values : Shape) (entry : Value × Value) : Option (Extracted × Extracted) :=
  match keys.extract entry.1, values.extract entry.2 with
  | some key, some held => some (key, held)
  | _, _ => none

theorem extract_map (id : Nat) (key value : Ty) (entries : List (Value × Value)) :
    (Shape.map keys values).extract (.map id key value entries) =
      (entries.mapM (extractEntry keys values)).map Extracted.ofEntries :=
  rfl

theorem extractEntry_eq_some_iff {entry : Value × Value} {made : Extracted × Extracted} :
    extractEntry keys values entry = some made ↔
      keys.extract entry.1 = some made.1 ∧ values.extract entry.2 = some made.2 := by
  obtain ⟨key, held⟩ := made
  unfold extractEntry
  cases keys.extract entry.1 <;> cases values.extract entry.2 <;> simp

theorem extractEntry_eq_none_iff {entry : Value × Value} :
    extractEntry keys values entry = none ↔
      keys.extract entry.1 = none ∨ values.extract entry.2 = none := by
  unfold extractEntry
  cases keys.extract entry.1 <;> cases values.extract entry.2 <;> simp

/-! ## Positions -/

/-- A shape, asked of a value, asks for a part of the value in a part of itself. -/
inductive Asks : Shape → Value → Shape → Value → Prop where
  | here {shape : Shape} {value : Value} : Asks shape value shape value
  /-- An option asks for what it holds, which null is not. -/
  | option {inner part : Shape} {value found : Value} (present : value ≠ .null)
      (asks : Asks inner value part found) : Asks (.option inner) value part found
  | item {inner part : Shape} {item found : Value} {id : Nat} {element : Ty} {items : List Value}
      (belongs : item ∈ items) (asks : Asks inner item part found) :
      Asks (.vec inner) (.list id element items) part found
  | key {keys values part : Shape} {found : Value} {id : Nat} {key value : Ty}
      {entries : List (Value × Value)} {entry : Value × Value} (belongs : entry ∈ entries)
      (asks : Asks keys entry.1 part found) :
      Asks (.map keys values) (.map id key value entries) part found
  | value {keys values part : Shape} {found : Value} {id : Nat} {key value : Ty}
      {entries : List (Value × Value)} {entry : Value × Value} (belongs : entry ∈ entries)
      (asks : Asks values entry.2 part found) :
      Asks (.map keys values) (.map id key value entries) part found

/-- Whether null has room in a shape: as any value, or as an option that is none. -/
def admitsNull : Shape → Bool
  | .value | .option _ => true
  | _ => false

/-- A shape asks a value for a part that is null, in a part of itself without room for null. -/
def LacksRoom (shape : Shape) (value : Value) : Prop :=
  ∃ part, Asks shape value part .null ∧ part.admitsNull = false

variable {value : Value}

theorem lacksRoom_null (exact : shape.admitsNull = false) : shape.LacksRoom .null :=
  ⟨shape, .here, exact⟩

/-- Null lacks room exactly in the shapes that do not admit it. -/
theorem lacksRoom_null_iff : shape.LacksRoom .null ↔ shape.admitsNull = false := by
  refine ⟨?_, lacksRoom_null⟩
  rintro ⟨part, asks, exact⟩
  cases asks with
  | here => exact exact
  | option present => exact absurd rfl present

theorem not_lacksRoom_value : ¬ Shape.value.LacksRoom value := by
  rintro ⟨part, asks, exact⟩
  cases asks
  cases exact

theorem not_lacksRoom_function {called : Closure Value} :
    ¬ Shape.closure.LacksRoom (.function called) := by
  rintro ⟨part, asks, exact⟩
  cases asks

theorem not_lacksRoom_datum (scalar : shape.scalarTy? = some basic) {datum : Datum}
    (present : datum ≠ .null) : ¬ shape.LacksRoom (.datum datum) := by
  rintro ⟨part, asks, exact⟩
  cases asks with
  | here => exact present rfl
  | option => cases scalar

theorem lacksRoom_option (present : value ≠ .null) :
    (Shape.option inner).LacksRoom value ↔ inner.LacksRoom value := by
  constructor
  · rintro ⟨part, asks, exact⟩
    cases asks with
    | here => cases exact
    | option present asks => exact ⟨part, asks, exact⟩
  · rintro ⟨part, asks, exact⟩
    exact ⟨part, .option present asks, exact⟩

theorem lacksRoom_list {id : Nat} {element : Ty} {items : List Value} :
    (Shape.vec inner).LacksRoom (.list id element items) ↔ ∃ item ∈ items, inner.LacksRoom item := by
  constructor
  · rintro ⟨part, asks, exact⟩
    cases asks with
    | item belongs asks => exact ⟨_, belongs, part, asks, exact⟩
  · rintro ⟨item, belongs, part, asks, exact⟩
    exact ⟨part, .item belongs asks, exact⟩

theorem lacksRoom_map {id : Nat} {key value : Ty} {entries : List (Value × Value)} :
    (Shape.map keys values).LacksRoom (.map id key value entries) ↔
      ∃ entry ∈ entries, keys.LacksRoom entry.1 ∨ values.LacksRoom entry.2 := by
  constructor
  · rintro ⟨part, asks, exact⟩
    cases asks with
    | key belongs asks => exact ⟨_, belongs, .inl ⟨part, asks, exact⟩⟩
    | value belongs asks => exact ⟨_, belongs, .inr ⟨part, asks, exact⟩⟩
  · rintro ⟨entry, belongs, ⟨part, asks, exact⟩ | ⟨part, asks, exact⟩⟩
    · exact ⟨part, .key belongs asks, exact⟩
    · exact ⟨part, .value belongs asks, exact⟩

/-! ## Failures of extraction -/

/-- Null is extracted where it has room, and nowhere else. -/
theorem extract_null : shape.extract .null = none ↔ shape.LacksRoom .null := by
  rw [lacksRoom_null_iff]
  cases shape <;> simp [extract, admitsNull, scalarTy?, Datum.ty?]

variable {registry : Registry} {supplied : Closure Value → Prop}

/-- **Extraction is complete.** Of a well-typed value whose type a shape accepts, extraction fails
exactly if the shape asks for a null that it has no room for. -/
theorem extract_eq_none_iff (hostBased : registry.HostBased) (accepted : shape.accepts ty = true)
    (wellTyped : WellTyped registry supplied value ty) :
    shape.extract value = none ↔ shape.LacksRoom value := by
  induction shape using kinds generalizing value ty with
  | @scalar shape basic scalar =>
    obtain rfl := (accepts_scalar scalar).mp accepted
    obtain ⟨prim, rfl, notObject⟩ := scalarTy?_eq_some scalar
    rcases wellTyped.null_or_datum hostBased notObject with rfl | ⟨datum, rfl, shown⟩
    · exact extract_null
    · rw [extract_datum scalar, if_pos shown]
      refine iff_of_false nofun (not_lacksRoom_datum scalar ?_)
      rintro rfl
      cases shown
  | value => exact iff_of_false (by simp [extract]) not_lacksRoom_value
  | closure =>
    obtain ⟨params, result, rfl⟩ := accepts_closure.mp accepted
    rcases wellTyped.null_or_function hostBased with rfl | ⟨called, rfl⟩
    · exact extract_null
    · exact iff_of_false (by simp [extract]) not_lacksRoom_function
  | option inner ih =>
    by_cases null : value = .null
    · subst null
      exact extract_null
    · rw [extract_option null, Option.map_eq_none_iff, lacksRoom_option null]
      exact ih accepted wellTyped
  | vec inner ih =>
    obtain ⟨element, rfl, innerAccepts⟩ := accepts_vec.mp accepted
    rcases wellTyped.null_or_list hostBased with rfl | ⟨id, items, rfl, parts⟩
    · exact extract_null
    · rw [extract_list, Option.map_eq_none_iff, mapM_eq_none_iff, lacksRoom_list]
      exact exists_congr fun item => and_congr_right fun belongs =>
        ih innerAccepts (parts item belongs)
  | map keys values keysIh valuesIh =>
    obtain ⟨keyTy, heldTy, rfl, keysAccept, valuesAccept⟩ := accepts_map.mp accepted
    rcases wellTyped.null_or_map hostBased with rfl | ⟨id, entries, rfl, parts⟩
    · exact extract_null
    · rw [extract_map, Option.map_eq_none_iff, mapM_eq_none_iff, lacksRoom_map]
      refine exists_congr fun entry => and_congr_right fun belongs => ?_
      rw [extractEntry_eq_none_iff, keysIh keysAccept (parts entry belongs).1,
        valuesIh valuesAccept (parts entry belongs).2]

end Shape

end ExprLang
