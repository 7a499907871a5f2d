import ExprLang.Eval.Evaluate
import ExprLang.Proofs.Elaboration.Typed

/-!
# Deeply well-typed values

`WellTyped registry supplied value ty` says that a value may stand where `ty` is asked for, and
that all items, keys and values of the collections in it stand rightly under the types that the
collections were made for. Null is of every type that is no value type.

Function values need more, because calling them has to be safe: each one is either made by
evaluating a well-typed lambda in a frame whose values are well typed, or it satisfies `supplied`,
which stands for the function values that a host brings along. With `supplied` always true the
relation is plain deep conformity of run-time types; with `supplied` always false every function
value is accounted for.

`Value.Conforms` and `Value.Suits` are the shallow counterparts, which look at the value itself and
at none of its parts. The canonical forms are theirs.
-/

namespace ExprLang

/-! ## Values under static types -/

/-- A value can stand under a static type: null under a type that is no value type, and every other
value under the types that its own type is assignable to. -/
def Value.Conforms (registry : Registry) (value : Value) (ty : Ty) : Prop :=
  match value.ty? with
  | none => ty.isValueType = false
  | some actual => registry.isAssignable actual ty = true

/-- A value conforms to a static type and shows a function type if it is a function, as all functions
that come from lambdas do. -/
structure Value.Suits (registry : Registry) (value : Value) (ty : Ty) : Prop where
  conforms : value.Conforms registry ty
  signature : ∀ closure, value = .function closure → ∃ params result, closure.ty = .func params result

namespace Value

variable {registry : Registry} {value : Value} {datum : Datum} {source target : Ty}

theorem suits_datum (shown : datum.ty? = some target) :
    (Value.datum datum).Suits registry target where
  conforms := by
    have shown : (Value.datum datum).ty? = some target := shown
    rw [Conforms, shown]
    exact registry.isAssignable_refl target
  signature := nofun

/-- A value suits every type that its static type is assignable to. -/
theorem Suits.weaken (hostBased : registry.HostBased) (suits : value.Suits registry source)
    (assignable : registry.isAssignable source target = true) : value.Suits registry target where
  conforms := by
    have conforms := suits.conforms
    unfold Conforms at conforms ⊢
    split
    next shown =>
      rw [shown] at conforms
      refine Bool.eq_false_iff.mpr fun valueType => ?_
      rw [hostBased.eq_valueType assignable valueType, valueType] at conforms
      cases conforms
    next shown =>
      rw [shown] at conforms
      exact Registry.isAssignable_trans conforms assignable
  signature := suits.signature

/-- A value under a built-in type other than `object` is null or shows exactly that type. -/
theorem Suits.null_or_ty? (hostBased : registry.HostBased) (suits : value.Suits registry target)
    (notObject : target ≠ .object) (notHost : ∀ name, target ≠ .named name) :
    value = .null ∨ value.ty? = some target := by
  have conforms := suits.conforms
  unfold Conforms at conforms
  cases shown : value.ty? with
  | none => exact .inl (eq_null_of_ty? shown)
  | some actual =>
    rw [shown] at conforms
    exact .inr (congrArg some (hostBased.eq_target conforms notObject notHost))

/-- The values under a value type are data of exactly that type. -/
theorem Suits.exists_datum (hostBased : registry.HostBased) (suits : value.Suits registry target)
    (valueType : target.isValueType = true) :
    ∃ datum, value = .datum datum ∧ datum.ty? = some target := by
  have notObject : target ≠ .object := by
    rintro rfl
    cases valueType
  have notHost : ∀ name, target ≠ .named name := by
    rintro name rfl
    cases valueType
  rcases suits.null_or_ty? hostBased notObject notHost with rfl | shown
  · have reference : target.isValueType = false := suits.conforms
    rw [valueType] at reference
    cases reference
  · cases value with
    | datum datum => exact ⟨datum, rfl, shown⟩
    | function closure =>
      obtain ⟨params, result, signature⟩ := suits.signature closure rfl
      cases signature.symm.trans (Option.some.inj shown)
      cases valueType
    | list | map | object =>
      cases shown
      cases valueType

/-- The values under `string` are null and the strings. -/
theorem Suits.null_or_string (hostBased : registry.HostBased) (suits : value.Suits registry .string) :
    value = .null ∨ ∃ text, value = .string text := by
  rcases suits.null_or_ty? hostBased (by simp) (by simp) with null | shown
  · exact .inl null
  · cases value with
    | datum datum =>
      cases datum <;> cases shown
      exact .inr ⟨_, rfl⟩
    | function closure =>
      obtain ⟨params, result, signature⟩ := suits.signature closure rfl
      cases signature.symm.trans (Option.some.inj shown)
    | list | map | object => cases shown

end Value

/-! ## Values that are well typed -/

mutual

/-- A value deeply conforms to a type. -/
inductive WellTyped (registry : Registry) (supplied : Closure Value → Prop) :
    Value → Ty → Prop where
  | null {ty : Ty} (reference : ty.isValueType = false) : WellTyped registry supplied .null ty
  | datum {datum : Datum} {actual ty : Ty} (tyOf : datum.ty? = some actual)
      (below : registry.isAssignable actual ty = true) :
      WellTyped registry supplied (.datum datum) ty
  | list {id : Nat} {element ty : Ty} {items : List Value}
      (below : registry.isAssignable (.list element) ty = true)
      (parts : ∀ item ∈ items, WellTyped registry supplied item element) :
      WellTyped registry supplied (.list id element items) ty
  | map {id : Nat} {key value ty : Ty} {entries : List (Value × Value)}
      (below : registry.isAssignable (.map key value) ty = true)
      (keys : ∀ entry ∈ entries, WellTyped registry supplied entry.1 key)
      (values : ∀ entry ∈ entries, WellTyped registry supplied entry.2 value) :
      WellTyped registry supplied (.map id key value entries) ty
  | function {closure : Closure Value} {params : List Ty} {result ty : Ty}
      (signature : closure.ty = .func params result)
      (below : registry.isAssignable (.func params result) ty = true)
      (known : Known registry supplied closure) : WellTyped registry supplied (.function closure) ty
  | object {id : Nat} {name : String} {slots : List Value} {ty : Ty}
      (below : registry.isAssignable (.named name) ty = true) :
      WellTyped registry supplied (.object id name slots) ty

/-- A function value is supplied by the host, or it is a well-typed lambda with a frame that holds
well-typed values. -/
inductive Known (registry : Registry) (supplied : Closure Value → Prop) : Closure Value → Prop where
  | supplied {closure : Closure Value} (given : supplied closure) : Known registry supplied closure
  | made {closure : Closure Value} {context : List Binding} {loc : Location}
      (home : closure.registry = registry)
      (lambda : Typed registry context
        (.lambda ⟨closure.ty, loc⟩ closure.lambda closure.params closure.body))
      (covered : ∀ binding ∈ context, ∀ value, closure.frame.lookup binding.id = some value →
        WellTyped registry supplied value binding.ty) : Known registry supplied closure

end

/-- The values of a frame have the types of their bindings. A binding need not have a value. -/
def Frame.Covers (registry : Registry) (supplied : Closure Value → Prop) (frame : Frame Value)
    (context : List Binding) : Prop :=
  ∀ binding ∈ context, ∀ value, frame.lookup binding.id = some value →
    WellTyped registry supplied value binding.ty

/-- Callbacks of constructors and indexers, when they succeed on well-typed arguments, return
well-typed values of the declared type. -/
structure Host.Sound (host : Host) (registry : Registry) (supplied : Closure Value → Prop) :
    Prop where
  constructors : ∀ ty, ∀ constructor ∈ registry.constructors ty, ∀ args next value later,
    List.Forall₂ (WellTyped registry supplied) args constructor.params →
    host.callback constructor.callback .null args next = .ok (value, later) →
    WellTyped registry supplied value ty
  indexers : ∀ ty indexer, .host indexer ∈ registry.indexers ty → ∀ target args next value later,
    WellTyped registry supplied target ty →
    List.Forall₂ (WellTyped registry supplied) args indexer.params →
    host.callback indexer.callback target args next = .ok (value, later) →
    WellTyped registry supplied value indexer.result

variable {registry : Registry} {supplied : Closure Value → Prop} {value : Value}
  {source target : Ty}

namespace WellTyped

/-! ## Changing the type -/

/-- A well-typed value is well typed of every type that its type is assignable to. -/
theorem weaken (hostBased : registry.HostBased)
    (wellTyped : WellTyped registry supplied value source)
    (assignable : registry.isAssignable source target = true) :
    WellTyped registry supplied value target := by
  cases wellTyped with
  | null reference =>
    refine .null (Bool.eq_false_iff.mpr fun valueType => ?_)
    rw [hostBased.eq_valueType assignable valueType, valueType] at reference
    cases reference
  | datum tyOf below => exact .datum tyOf (Registry.isAssignable_trans below assignable)
  | list below parts => exact .list (Registry.isAssignable_trans below assignable) parts
  | map below keys values => exact .map (Registry.isAssignable_trans below assignable) keys values
  | function signature below known =>
    exact .function signature (Registry.isAssignable_trans below assignable) known
  | object below => exact .object (Registry.isAssignable_trans below assignable)

/-- The type that a value shows decides what it is well typed of. -/
theorem of_ty? {actual : Ty} (wellTyped : WellTyped registry supplied value source)
    (shown : value.ty? = some actual) (assignable : registry.isAssignable actual target = true) :
    WellTyped registry supplied value target := by
  cases wellTyped with
  | null reference => cases shown
  | datum tyOf below =>
    cases tyOf.symm.trans shown
    exact .datum tyOf assignable
  | list below parts =>
    cases shown
    exact .list assignable parts
  | map below keys values =>
    cases shown
    exact .map assignable keys values
  | function signature below known =>
    cases signature.symm.trans (Option.some.inj shown)
    exact .function signature assignable known
  | object below =>
    cases shown
    exact .object assignable

/-- A value that a parameter admits is well typed of the type of the parameter. -/
theorem of_admits {param : Binding} (wellTyped : WellTyped registry supplied value source)
    (admitted : Closure.admits registry param value = true) :
    WellTyped registry supplied value param.ty := by
  unfold Closure.admits at admitted
  split at admitted
  next shown =>
    rw [Value.eq_null_of_ty? shown]
    exact .null (by simpa using admitted)
  next actual shown => exact wellTyped.of_ty? shown admitted

/-! ## Canonical forms -/

theorem isAssignable_of_ty? {actual : Ty} (wellTyped : WellTyped registry supplied value target)
    (shown : value.ty? = some actual) : registry.isAssignable actual target = true := by
  cases wellTyped with
  | null reference => cases shown
  | datum tyOf below =>
    cases tyOf.symm.trans shown
    exact below
  | list below parts =>
    cases shown
    exact below
  | map below keys values =>
    cases shown
    exact below
  | function signature below known =>
    cases signature.symm.trans (Option.some.inj shown)
    exact below
  | object below =>
    cases shown
    exact below

theorem conforms (wellTyped : WellTyped registry supplied value target) :
    value.Conforms registry target := by
  unfold Value.Conforms
  split
  next shown =>
    cases wellTyped with
    | null reference => exact reference
    | datum tyOf => cases tyOf.symm.trans shown
    | list | map | function | object => cases shown
  next shown => exact wellTyped.isAssignable_of_ty? shown

theorem suits (wellTyped : WellTyped registry supplied value target) :
    value.Suits registry target where
  conforms := wellTyped.conforms
  signature := by
    rintro closure rfl
    cases wellTyped with
    | function signature => exact ⟨_, _, signature⟩

/-- A value of a built-in type other than `object` is null or shows exactly that type. -/
theorem null_or_ty? (hostBased : registry.HostBased)
    (wellTyped : WellTyped registry supplied value target) (notObject : target ≠ .object)
    (notHost : ∀ name, target ≠ .named name) : value = .null ∨ value.ty? = some target :=
  wellTyped.suits.null_or_ty? hostBased notObject notHost

/-- The values of a value type are data of exactly that type. -/
theorem exists_datum (hostBased : registry.HostBased)
    (wellTyped : WellTyped registry supplied value target) (valueType : target.isValueType = true) :
    ∃ datum, value = .datum datum ∧ datum.ty? = some target :=
  wellTyped.suits.exists_datum hostBased valueType

theorem null_or_string (hostBased : registry.HostBased)
    (wellTyped : WellTyped registry supplied value .string) :
    value = .null ∨ ∃ text, value = .string text :=
  wellTyped.suits.null_or_string hostBased

theorem null_or_list (hostBased : registry.HostBased) {element : Ty}
    (wellTyped : WellTyped registry supplied value (.list element)) :
    value = .null ∨ ∃ id items, value = .list id element items ∧
      ∀ item ∈ items, WellTyped registry supplied item element := by
  rcases wellTyped.null_or_ty? hostBased (by simp) (by simp) with null | shown
  · exact .inl null
  · cases wellTyped with
    | null reference => cases shown
    | @datum datum actual ty tyOf below => cases datum <;> cases shown
    | @list id element ty items below parts =>
      cases shown
      exact .inr ⟨id, items, rfl, parts⟩
    | map below keys values => cases shown
    | function signature below known => cases signature.symm.trans (Option.some.inj shown)
    | object below => cases shown

theorem null_or_map (hostBased : registry.HostBased) {key held : Ty}
    (wellTyped : WellTyped registry supplied value (.map key held)) :
    value = .null ∨ ∃ id entries, value = .map id key held entries ∧ ∀ entry ∈ entries,
      WellTyped registry supplied entry.1 key ∧ WellTyped registry supplied entry.2 held := by
  rcases wellTyped.null_or_ty? hostBased (by simp) (by simp) with null | shown
  · exact .inl null
  · cases wellTyped with
    | null reference => cases shown
    | @datum datum actual ty tyOf below => cases datum <;> cases shown
    | list below parts => cases shown
    | @map id key held ty entries below keys values =>
      cases shown
      exact .inr ⟨id, entries, rfl, fun entry belongs => ⟨keys entry belongs, values entry belongs⟩⟩
    | function signature below known => cases signature.symm.trans (Option.some.inj shown)
    | object below => cases shown

theorem null_or_function (hostBased : registry.HostBased) {params : List Ty} {result : Ty}
    (wellTyped : WellTyped registry supplied value (.func params result)) :
    value = .null ∨ ∃ closure, value = .function closure := by
  rcases wellTyped.null_or_ty? hostBased (by simp) (by simp) with null | shown
  · exact .inl null
  · cases wellTyped with
    | null reference => cases shown
    | @datum datum actual ty tyOf below => cases datum <;> cases shown
    | list | map | object => cases shown
    | @function closure params result ty signature below known => exact .inr ⟨closure, rfl⟩

/-- A value of a primitive type other than `object` is null or a datum of exactly that type. -/
theorem null_or_datum (hostBased : registry.HostBased) {basic : Prim} (notObject : basic ≠ .object)
    (wellTyped : WellTyped registry supplied value (.prim basic)) :
    value = .null ∨ ∃ datum, value = .datum datum ∧ datum.ty? = some (.prim basic) := by
  rcases wellTyped.null_or_ty? hostBased (by simpa using notObject) (by simp) with null | shown
  · exact .inl null
  · cases wellTyped with
    | @datum datum actual ty tyOf below => exact .inr ⟨datum, rfl, shown⟩
    | function signature below known => cases signature.symm.trans (Option.some.inj shown)
    | null | list | map | object => cases shown

end WellTyped

/-! ## Lists of values -/

/-- Values that are well typed one by one stay so where the types are assignable one by one. -/
theorem forall₂_weaken (hostBased : registry.HostBased) {values : List Value}
    {sources targets : List Ty}
    (wellTyped : List.Forall₂ (WellTyped registry supplied) values sources)
    (assignable : registry.areAssignable sources targets = true) :
    List.Forall₂ (WellTyped registry supplied) values targets := by
  induction wellTyped generalizing targets with
  | nil =>
    cases targets with
    | nil => exact .nil
    | cons target targets => simp [Registry.areAssignable] at assignable
  | cons first rest ih =>
    cases targets with
    | nil => simp [Registry.areAssignable] at assignable
    | cons target targets =>
      simp only [Registry.areAssignable, List.length_cons, List.zip_cons_cons, List.all_cons,
        Bool.and_eq_true, beq_iff_eq, Nat.add_right_cancel_iff] at assignable
      obtain ⟨length, here, further⟩ := assignable
      refine .cons (first.weaken hostBased here) (ih ?_)
      simp [Registry.areAssignable, length, further]

/-- Values that are well typed one by one are all well typed of a type above their types. -/
theorem wellTyped_of_forall₂ (hostBased : registry.HostBased) {values : List Value}
    {types : List Ty}
    (wellTyped : List.Forall₂ (WellTyped registry supplied) values types)
    (below : ∀ ty ∈ types, registry.isAssignable ty target = true) :
    ∀ value ∈ values, WellTyped registry supplied value target := by
  induction wellTyped with
  | nil => simp
  | cons first rest ih =>
    rw [List.forall_mem_cons] at below ⊢
    exact ⟨first.weaken hostBased below.1, ih below.2⟩

end ExprLang
