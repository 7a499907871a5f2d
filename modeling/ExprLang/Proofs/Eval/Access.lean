import ExprLang.Proofs.Eval.Operators
import ExprLang.Proofs.Run

/-!
# Conversions, defaults and indexers on well-typed values

What the typing rules of `convert`, `defaultOf`, `index` and `construct` promise of the values that
these nodes make. A conversion gives a value of its target type or fails as `ConvertFails` lists
(`Setting.convert_wellTyped`); an indexer that was found for the type of its target is made for the
target, so it fails only as `IndexFails` lists (`Setting.meets_index`).
-/

namespace ExprLang

/-! ## Numeric conversions -/

namespace Convert

variable {datum made : Datum} {target : Ty} {allowed : Fault → Prop} {fault : Fault}

theorem ty?_of_wrap? {n : Int} (wrapped : wrap? n target = some made) : made.ty? = some target := by
  unfold wrap? at wrapped
  split at wrapped
  · cases wrapped
    rfl
  · obtain ⟨c, -, rfl⟩ := Option.map_eq_some_iff.mp wrapped
    rfl
  · cases wrapped
    rfl
  · cases wrapped
    rfl
  · cases wrapped
    rfl
  · cases wrapped

theorem ty?_of_checked? {n : Int} (checked : checked? n target = some made) :
    made.ty? = some target := by
  unfold checked? at checked
  split at checked
  · split at checked
    · cases checked
      rfl
    · cases checked
  · split at checked
    · obtain ⟨c, -, rfl⟩ := Option.map_eq_some_iff.mp checked
      rfl
    · cases checked
  · obtain ⟨word, -, rfl⟩ := Option.map_eq_some_iff.mp checked
    rfl
  · cases checked

theorem yields_orFault {result : Option Datum} (failed : allowed fault)
    (shown : ∀ datum, result = some datum → datum.ty? = some target) :
    Yields target allowed (orFault fault result) := by
  cases result with
  | none => exact failed
  | some made => exact shown made rfl

/-- A numeric conversion gives a datum of its target type or one of two faults. -/
theorem numeric_yields (failed : allowed (.conversionFailed datum.text target))
    (overflow : allowed .overflow) : Yields target allowed (numeric datum target) := by
  unfold numeric
  dsimp only
  split
  · exact failed
  · refine yields_orFault overflow fun made found => ?_
    obtain ⟨d, -, rfl⟩ := Option.map_eq_some_iff.mp found
    rfl
  · exact yields_orFault failed fun made => ty?_of_wrap?
  · refine yields_orFault overflow fun made found => ?_
    obtain ⟨d, -, rfl⟩ := Option.map_eq_some_iff.mp found
    rfl
  · rfl
  · rfl
  · exact yields_orFault failed fun made => ty?_of_wrap?
  · rfl
  · rfl
  · rfl
  · exact yields_orFault overflow fun made => ty?_of_checked?

end Convert

variable {registry : Registry} {supplied : Closure Value → Prop} {value : Value} {ty : Ty}

/-- The default value of a type is well typed of the type. -/
theorem wellTyped_defaultOf : WellTyped registry supplied (.datum (Datum.defaultOf ty)) ty := by
  cases ty with
  | prim basic =>
    cases basic with
    | object | string | type => exact .null rfl
    | bool | char | byte | integer kind | float | double | decimal =>
      exact .datum rfl (registry.isAssignable_refl _)
  | list element => exact .null rfl
  | map key value => exact .null rfl
  | func params result => exact .null rfl
  | named name => exact .null rfl

namespace Setting

variable {setting : Setting} {source target : Ty} {fails : Diagnostic → Prop} {loc : Location}

/-! ## Conversions -/

/-- How a conversion of a well-typed value can fail. -/
inductive ConvertFails (registry : Registry) (value : Value) (source target : Ty) :
    Fault → Prop where
  | null (null : value.ty? = none) (valueType : target.isValueType = true) :
    ConvertFails registry value source target (.nullToValueType target)
  | number (numeric : source.isConvertibleNumeric = true ∧ target.isConvertibleNumeric = true) :
    ConvertFails registry value source target (.conversionFailed value.text target)
  | overflow (numeric : source.isConvertibleNumeric = true ∧ target.isConvertibleNumeric = true) :
    ConvertFails registry value source target .overflow
  | cast {actual : Ty} (shown : value.ty? = some actual)
      (differs : registry.isAssignable actual target = false) :
    ConvertFails registry value source target (.castFailed actual target)

/-- A conversion of a well-typed value gives a value of the target type or fails as listed. -/
theorem convert_wellTyped (target : Ty)
    (wellTyped : WellTyped setting.registry supplied value source) :
    (∃ result, setting.convert value source target = .ok result ∧
      WellTyped setting.registry supplied result target) ∨
    ∃ fault, setting.convert value source target = .error fault ∧
      ConvertFails setting.registry value source target fault := by
  unfold convert
  split
  next null =>
    split
    next valueType => exact .inr ⟨_, rfl, .null null valueType⟩
    next reference => exact .inl ⟨_, rfl, .null (Bool.eq_false_iff.mpr reference)⟩
  next actual shown =>
    split
    next numeric =>
      rw [Bool.and_eq_true] at numeric
      unfold Convert.numericValue
      split
      next datum =>
        have yields : Yields target (ConvertFails setting.registry (.datum datum) source target)
            (Convert.numeric datum target) :=
          Convert.numeric_yields (.number numeric) (.overflow numeric)
        cases outcome : Convert.numeric datum target with
        | ok made =>
          rw [outcome] at yields
          exact .inl ⟨_, rfl, .datum yields (setting.registry.isAssignable_refl target)⟩
        | error fault =>
          rw [outcome] at yields
          exact .inr ⟨_, rfl, yields⟩
      next => exact .inr ⟨_, rfl, .number numeric⟩
    next =>
      split
      next below => exact .inl ⟨_, rfl, wellTyped.of_ty? shown below⟩
      next differs => exact .inr ⟨_, rfl, .cast shown (Bool.eq_false_iff.mpr differs)⟩

/-! ## Indexers and constructors -/

theorem meets_callHost {key : Nat} {target : Value} {args : List Value} {holds : Value → Prop}
    (sound : ∀ next result later,
      setting.host.callback key target args next = .ok (result, later) → holds result)
    (failed : ∀ message, fails ((Fault.host message).reportAt loc)) (next : Nat) :
    (setting.callHost loc key target args).Meets next holds fails := by
  simp only [Run.Meets, callHost]
  cases outcome : setting.host.callback key target args next with
  | ok done => exact sound next done.1 done.2 outcome
  | error message => exact failed message

/-- How an indexer access on well-typed values can fail. -/
inductive IndexFails : Fault → Prop where
  | null : IndexFails .nullTarget
  | list {position : Int} {size : Nat} : IndexFails (.listIndex position size)
  | string {position : Int} {text : String} : IndexFails (.stringIndex position text)
  | map {key : String} : IndexFails (.keyMissing key)
  | host {message : String} : IndexFails (.host message)

theorem exists_word (hostBased : registry.HostBased)
    (wellTyped : WellTyped registry supplied value .int) : ∃ word, value = .datum (.int word) := by
  obtain ⟨datum, rfl, shown⟩ := wellTyped.exists_datum hostBased rfl
  obtain ⟨word, rfl⟩ := Datum.eq_integer shown
  exact ⟨word, rfl⟩

/-- The type that a built-in indexer belongs to. -/
def BuiltinOf (ty : Ty) : Indexer → Prop
  | .listElement element => ty = .list element
  | .mapEntry key value => ty = .map key value
  | .stringChar => ty = .string
  | .host _ => True

theorem builtinOf_of_mem_indexers {indexer : Indexer} (declared : indexer ∈ registry.indexers ty) :
    BuiltinOf ty indexer := by
  unfold Registry.indexers at declared
  split at declared
  · obtain rfl := List.mem_singleton.mp declared
    rfl
  · obtain rfl := List.mem_singleton.mp declared
    rfl
  · obtain rfl := List.mem_singleton.mp declared
    rfl
  next name =>
    cases found : registry.types.get? name with
    | none => simp [found] at declared
    | some declaration =>
      simp only [found, Option.map_some, Option.getD_some, List.mem_map] at declared
      obtain ⟨hostIndexer, -, rfl⟩ := declared
      trivial
  · cases declared

section Index

variable {target : Value} {args : List Value}

/-- What an indexer access on well-typed values guarantees. -/
abbrev Accesses (setting : Setting) (supplied : Closure Value → Prop) (loc : Location)
    (indexer : Indexer) (target : Value) (args : List Value) : Prop :=
  ∀ next, (setting.index loc indexer target args).Meets next
    (WellTyped setting.registry supplied · indexer.result)
    (fun report => ∃ fault, IndexFails fault ∧ report = fault.reportAt loc)

theorem accesses_null {indexer : Indexer} : Accesses setting supplied loc indexer .null args :=
  fun _ => Run.meets_faultAt ⟨_, .null, rfl⟩

theorem accesses_list (hostBased : setting.registry.HostBased) {element : Ty}
    (targetTyped : WellTyped setting.registry supplied target (.list element))
    (argsTyped : List.Forall₂ (WellTyped setting.registry supplied) args [.int]) :
    Accesses setting supplied loc (.listElement element) target args := by
  rcases targetTyped.null_or_list hostBased with rfl | ⟨id, items, rfl, parts⟩
  · exact accesses_null
  obtain - | ⟨first, - | -⟩ := argsTyped
  obtain ⟨word, rfl⟩ := exists_word hostBased first
  intro next
  simp only [index, Value.isNull, Bool.false_eq_true, ↓reduceIte]
  split
  next item found =>
    obtain ⟨place, -, hit⟩ := Option.bind_eq_some_iff.mp found
    exact Run.meets_pure (parts item (List.mem_of_getElem? hit))
  next => exact Run.meets_faultAt ⟨_, .list, rfl⟩

theorem accesses_map (hostBased : setting.registry.HostBased) {key held : Ty}
    (targetTyped : WellTyped setting.registry supplied target (.map key held))
    (argsTyped : List.Forall₂ (WellTyped setting.registry supplied) args [key]) :
    Accesses setting supplied loc (.mapEntry key held) target args := by
  rcases targetTyped.null_or_map hostBased with rfl | ⟨id, entries, rfl, parts⟩
  · exact accesses_null
  obtain - | ⟨first, - | -⟩ := argsTyped
  intro next
  simp only [index, Value.isNull, Bool.false_eq_true, ↓reduceIte]
  split
  next value found =>
    obtain ⟨entry, hit, rfl⟩ := Option.map_eq_some_iff.mp found
    exact Run.meets_pure (parts entry (List.mem_of_find?_eq_some hit)).2
  next => exact Run.meets_faultAt ⟨_, .map, rfl⟩

theorem accesses_string (hostBased : setting.registry.HostBased)
    (targetTyped : WellTyped setting.registry supplied target .string)
    (argsTyped : List.Forall₂ (WellTyped setting.registry supplied) args [.int]) :
    Accesses setting supplied loc .stringChar target args := by
  rcases targetTyped.null_or_string hostBased with rfl | ⟨text, rfl⟩
  · exact accesses_null
  obtain - | ⟨first, - | -⟩ := argsTyped
  obtain ⟨word, rfl⟩ := exists_word hostBased first
  intro next
  simp only [index, Value.isNull, Bool.false_eq_true, ↓reduceIte]
  split
  next c found => exact Run.meets_pure (.datum rfl (setting.registry.isAssignable_refl _))
  next => exact Run.meets_faultAt ⟨_, .string, rfl⟩

theorem accesses_host (sound : setting.host.Sound setting.registry supplied) {indexer : HostIndexer}
    (declared : .host indexer ∈ setting.registry.indexers ty)
    (targetTyped : WellTyped setting.registry supplied target ty)
    (argsTyped : List.Forall₂ (WellTyped setting.registry supplied) args indexer.params) :
    Accesses setting supplied loc (.host indexer) target args := by
  intro next
  unfold index
  split
  · exact Run.meets_faultAt ⟨_, .null, rfl⟩
  · refine meets_callHost (fun next result later done => ?_) (fun message => ⟨_, .host, rfl⟩) next
    exact sound.indexers ty indexer declared target args next result later targetTyped argsTyped
      done

/-- An indexer that belongs to the type of a target is made for the target: it gives values of its
result type or fails as listed. -/
theorem meets_index (hostBased : setting.registry.HostBased)
    (sound : setting.host.Sound setting.registry supplied) {indexer : Indexer}
    (declared : indexer ∈ setting.registry.indexers ty)
    (targetTyped : WellTyped setting.registry supplied target ty)
    (argsTyped : List.Forall₂ (WellTyped setting.registry supplied) args indexer.params) :
    Accesses setting supplied loc indexer target args := by
  cases indexer with
  | host indexer => exact accesses_host sound declared targetTyped argsTyped
  | listElement element =>
    obtain rfl : ty = .list element := builtinOf_of_mem_indexers declared
    exact accesses_list hostBased targetTyped argsTyped
  | mapEntry key held =>
    obtain rfl : ty = .map key held := builtinOf_of_mem_indexers declared
    exact accesses_map hostBased targetTyped argsTyped
  | stringChar =>
    obtain rfl : ty = .string := builtinOf_of_mem_indexers declared
    exact accesses_string hostBased targetTyped argsTyped

end Index

end Setting

end ExprLang
