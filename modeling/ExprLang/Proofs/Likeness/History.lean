import Mathlib.Logic.Relation
import ExprLang.Proofs.Likeness.Formatting

/-!
# History is inert

What a host did with an engine that does not concern a text has no influence on the text: attempts
to compile and run, successful or not, definitions under names that are no atoms of the text, and
declarations of host types that nothing known mentions (`Engine.history_inert`).
-/

namespace ExprLang

/-! ## What does not concern a text -/

/-- Whether a text has an atom. -/
def AtomOf (source text : String) : Prop :=
  .atom text.toList ∈ (lexemes {} source.toList).map (·.piece)

/-- What a host does with an engine that does not concern some names and host types: it tries to
compile and run, defines other names, and declares host types that are not known. -/
inductive Unconcerned (atoms known : String → Prop) : Engine → Engine → Prop where
  | attempt (engine : Engine) (attempt : Attempt) :
    Unconcerned atoms known engine (engine.attempt attempt)
  | global (engine : Engine) {name : String} (value : Value) (unused : ¬ atoms name) :
    Unconcerned atoms known engine (engine.defining name value).2
  | declare (engine : Engine) {name : String} (ty : Ty) (unused : ¬ atoms name) :
    Unconcerned atoms known engine (engine.declare name ty).2
  | keyword (engine : Engine) {name : String} (ty : Ty) (unused : ¬ atoms name) :
    Unconcerned atoms known engine (engine.defineKeyword name ty)
  | head (engine : Engine) {name : String} (head : Head) (unused : ¬ atoms name) :
    Unconcerned atoms known engine (engine.defineHead name head)
  | aliased (engine : Engine) {name : String} (existing : String) (unused : ¬ atoms name) :
    Unconcerned atoms known engine (engine.defineAlias name existing).2
  | register (engine : Engine) {declaration : Declaration} (unused : ¬ atoms declaration.name)
      (new : ¬ known declaration.name) (draws : declaration.Draws) :
    Unconcerned atoms known engine (engine.register declaration)

/-- Two runs that may differ in identities, in host types that are not known and in further code of
the host. -/
def Likeness.knowing (known : String → Prop) (keys : Nat) : Likeness :=
  let like : Likeness := ⟨Eq, known, (· < keys), fun _ _ => True⟩
  { like with registries := fun registry other => registry.Agree like other }

theorem Likeness.agree_knowing {known : String → Prop} {keys : Nat} {registry other : Registry} :
    (knowing known keys).registries registry other ↔ registry.Agree (knowing known keys) other := by
  constructor
  · intro agree
    exact
      { agree with
        indexersKnown := fun ty known indexer listed =>
          let held := agree.indexersKnown ty known indexer listed
          ⟨held.result, held.key⟩ }
  · intro agree
    exact
      { agree with
        indexersKnown := fun ty known indexer listed =>
          let held := agree.indexersKnown ty known indexer listed
          ⟨held.result, held.key⟩ }

/-! ## Code of declarations -/

namespace Engine

theorem keys_addConstructors (host : Host) (entries : List (List Ty × Callback)) :
    ∀ constructor ∈ (addConstructors host entries).1,
      constructor.callback < (addConstructors host entries).2.callbacks.length := by
  induction entries generalizing host with
  | nil => nofun
  | cons entry rest ih =>
    intro constructor belongs
    obtain ⟨params, callback⟩ := entry
    rcases List.mem_cons.mp belongs with rfl | later
    · simp [addConstructors, callbacks_addConstructors, Host.add]
    · exact ih _ constructor later

theorem keys_addIndexers (host : Host) (entries : List (List Ty × Ty × Callback)) :
    ∀ indexer ∈ (addIndexers host entries).1,
      indexer.callback < (addIndexers host entries).2.callbacks.length := by
  induction entries generalizing host with
  | nil => nofun
  | cons entry rest ih =>
    intro indexer belongs
    obtain ⟨params, result, callback⟩ := entry
    rcases List.mem_cons.mp belongs with rfl | later
    · simp [addIndexers, callbacks_addIndexers, Host.add]
    · exact ih _ indexer later

/-- The code of a declaration is among that of a host. -/
structure Coded (host : Host) (declared : HostType) : Prop where
  constructors : ∀ constructor ∈ declared.constructors,
    constructor.callback < host.callbacks.length
  indexers : ∀ indexer ∈ declared.indexers, indexer.callback < host.callbacks.length

theorem Coded.mono {host other : Host} {declared : HostType} (coded : Coded host declared)
    (more : host.callbacks.length ≤ other.callbacks.length) : Coded other declared :=
  ⟨fun constructor listed => Nat.lt_of_lt_of_le (coded.constructors constructor listed) more,
    fun indexer listed => Nat.lt_of_lt_of_le (coded.indexers indexer listed) more⟩

variable {engine middle later : Engine}

/-- The code of a further declaration stands behind the code that a host has. -/
theorem callbacks_register (engine : Engine) (declaration : Declaration) :
    (engine.register declaration).host.callbacks = engine.host.callbacks ++
      (declaration.constructors.map (·.2) ++ declaration.indexers.map (·.2.2)) := by
  simp [register, callbacks_addIndexers, callbacks_addConstructors]

theorem get?_types_register (engine : Engine) (declaration : Declaration) (name : String) :
    (engine.register declaration).registry.types.get? name =
      if name = declaration.name then
        some ⟨declaration.name, declaration.base,
          (addConstructors engine.host declaration.constructors).1,
          (addIndexers (addConstructors engine.host declaration.constructors).2
            declaration.indexers).1⟩
      else engine.registry.types.get? name :=
  Table.get?_insert ..

/-- In every engine of a session, the code of all declared types is among that of the host. -/
theorem Reached.coded (reached : engine.Reached) {name : String} {declared : HostType}
    (found : engine.registry.types.get? name = some declared) : Coded engine.host declared := by
  induction reached generalizing name declared with
  | new options => cases found
  | options _ _ ih => exact ih found
  | keyword _ _ _ ih => exact ih found
  | head _ _ _ ih => exact ih found
  | aliased _ _ existing ih =>
    revert found
    unfold defineAlias
    split <;> exact ih
  | @register engine _ declaration ih =>
    have more : engine.host.callbacks.length ≤
        (engine.register declaration).host.callbacks.length := by
      rw [callbacks_register, List.length_append]
      exact Nat.le_add_right ..
    rw [get?_types_register] at found
    split at found
    · cases found
      refine ⟨fun constructor listed => ?_, keys_addIndexers _ _⟩
      have bound := keys_addConstructors engine.host declaration.constructors constructor listed
      refine Nat.lt_of_lt_of_le bound ?_
      unfold Engine.register
      dsimp only
      rw [callbacks_addIndexers, List.length_append]
      exact Nat.le_add_right ..
    · exact (ih found).mono more
  | declare _ _ _ ih => exact ih found
  | global _ defined ih =>
    unfold defineGlobal at defined
    dsimp only at defined
    split at defined
    · cases defined
      exact ih found
    · cases defined
  | compile _ compiled ih =>
    obtain ⟨-, -, supply, -, rfl⟩ := compileForm_ok compiled
    exact ih found
  | run _ _ ih => exact ih found

/-! ## What a text meets -/

/-- Nothing that a text can meet when it is compiled speaks of a host type that is not known: the
known types themselves, and the types of its names. -/
structure TypesClear (engine : Engine) (atoms known : String → Prop) : Prop where
  bases : ∀ name declared base, known name → engine.registry.types.get? name = some declared →
    declared.base = some base → base.Over known
  results : ∀ name declared, known name → engine.registry.types.get? name = some declared →
    ∀ indexer ∈ declared.indexers, indexer.result.Over known
  keywords : ∀ name ty, atoms name → engine.registry.resolve? name = some ty → ty.Over known
  types : ∀ name binding, atoms name → engine.root.lookup name = some binding →
    binding.ty.Over known

/-- Nor does what a text can meet when it runs: the values of its names, and what code of the host
answers. -/
structure Clear (engine : Engine) (atoms known : String → Prop) : Prop
    extends engine.TypesClear atoms known where
  values : ∀ id value, engine.Shows atoms id → engine.globals.lookup id = some value →
    value.Alike (.knowing known engine.host.callbacks.length) (.below engine.supply) value
  host : engine.host.Inert (.knowing known engine.host.callbacks.length) engine.supply

/-- What an engine keeps while a host does what does not concern some names and host types. -/
structure Keeps (atoms known : String → Prop) (engine later : Engine) : Prop where
  reached : later.Reached
  draws : later.host.Draws
  drawn : engine.supply ≤ later.supply
  options : later.options = engine.options
  bindings : ∀ name, atoms name → later.root.lookup name = engine.root.lookup name
  values : ∀ id, engine.Shows atoms id → later.globals.lookup id = engine.globals.lookup id
  heads : ∀ name, atoms name → later.heads.get? name = engine.heads.get? name
  keywords : ∀ name, atoms name →
    later.registry.resolve? name = engine.registry.resolve? name
  types : ∀ name, known name →
    later.registry.types.get? name = engine.registry.types.get? name
  code : engine.host.callbacks <+: later.host.callbacks

variable {atoms known : String → Prop} {name : String} {value : Value}

theorem keeps_refl (reached : engine.Reached) (draws : engine.host.Draws) :
    engine.Keeps atoms known engine :=
  ⟨reached, draws, le_refl _, rfl, fun _ _ => rfl, fun _ _ => rfl, fun _ _ => rfl, fun _ _ => rfl,
    fun _ _ => rfl, List.prefix_rfl⟩

/-- What is left of a definition is an engine of the session. -/
theorem Reached.defining (reached : engine.Reached) (name : String) (value : Value) :
    (engine.defining name value).2.Reached := by
  cases outcome : (engine.defining name value).1 with
  | ok binding =>
    have defined : engine.defineGlobal name value =
        .ok (binding, (engine.defining name value).2) := by
      rw [defineGlobal_eq, outcome]
      rfl
    exact reached.global defined
  | error report =>
    rw [defining_error outcome]
    exact reached.run (Nat.le_succ _)

/-- A definition leaves the values of other names alone. -/
theorem lookup_defining (rooted : engine.Rooted) {other : String} (differ : name ≠ other)
    {binding : Binding} (found : engine.root.lookup other = some binding) :
    (engine.defining name value).2.globals.lookup binding.id =
      engine.globals.lookup binding.id := by
  have declared := rooted.declare name value.globalTy
  have kept : (engine.declare name value.globalTy).2.root.lookup other = some binding := by
    rw [lookup_declare rooted.flat, found]
    rfl
  have own := lookup_declared rooted.flat name value.globalTy
  unfold Engine.defining
  dsimp only
  split
  · rw [Frame.lookup_set, if_neg]
    · rfl
    · intro same
      exact differ (declared.eq_of_id own kept same.symm)
  · rfl

/-- A definition changes the root, the globals and the supply only. -/
theorem exists_defining (engine : Engine) (name : String) (value : Value) :
    ∃ globals supply, engine.supply ≤ supply ∧ (engine.defining name value).2 =
      { engine with root := (engine.declare name value.globalTy).2.root, globals, supply } := by
  unfold Engine.defining
  dsimp only
  split
  · exact ⟨_, engine.supply + 2, Nat.le_add_right .., rfl⟩
  · exact ⟨_, engine.supply + 1, Nat.le_succ _, rfl⟩

/-- An alias changes the head of its name only. -/
theorem exists_defineAlias (engine : Engine) (name existing : String) :
    ∃ heads, (∀ other, other ≠ name → heads.get? other = engine.heads.get? other) ∧
      (engine.defineAlias name existing).2 = { engine with heads } := by
  unfold defineAlias HeadTable.withAlias?
  cases engine.heads.get? existing with
  | none => exact ⟨_, fun _ _ => rfl, rfl⟩
  | some head =>
    refine ⟨_, fun other differ => ?_, rfl⟩
    rw [Table.get?_insert, if_neg differ]

/-- What does not concern some names and host types keeps them as they are. -/
theorem Keeps.step (keeps : engine.Keeps atoms known middle)
    (step : Unconcerned atoms known middle later) : engine.Keeps atoms known later := by
  have rooted := keeps.reached.rooted
  cases step with
  | attempt attempt =>
    obtain ⟨supply, more, same⟩ := drawn_attempt keeps.draws attempt
    rw [same]
    exact { keeps with
      reached := keeps.reached.run more
      drawn := le_trans keeps.drawn more }
  | @global name value unused =>
    have reached := keeps.reached.defining name value
    have values : ∀ id, engine.Shows atoms id →
        (middle.defining name value).2.globals.lookup id = engine.globals.lookup id := by
      rintro id ⟨other, binding, meant, found, rfl⟩
      have differ : name ≠ other := fun same => unused (same ▸ meant)
      have shown : middle.root.lookup other = some binding :=
        (keeps.bindings other meant).trans found
      rw [lookup_defining rooted differ shown]
      exact keeps.values _ ⟨other, binding, meant, found, rfl⟩
    obtain ⟨globals, supply, more, same⟩ := exists_defining middle name value
    rw [same] at reached values ⊢
    exact { keeps with
      reached
      values
      drawn := le_trans keeps.drawn more
      bindings := by
        intro other meant
        have differ : name ≠ other := fun same => unused (same ▸ meant)
        rw [lookup_declare rooted.flat, if_neg differ, Option.or_none, keeps.bindings other meant] }
  | @declare name ty unused =>
    exact { keeps with
      reached := keeps.reached.declare name ty
      drawn := Nat.le_succ_of_le keeps.drawn
      bindings := by
        intro other meant
        have differ : name ≠ other := fun same => unused (same ▸ meant)
        rw [lookup_declare rooted.flat, if_neg differ, Option.or_none, keeps.bindings other meant] }
  | @keyword name ty unused =>
    exact { keeps with
      reached := keeps.reached.keyword name ty
      keywords := by
        intro other meant
        have differ : other ≠ name := fun same => unused (same ▸ meant)
        have kept := keeps.keywords other meant
        rw [← kept, Registry.resolve?, defineKeyword, Registry.defineKeyword, Table.get?_insert,
          if_neg differ]
        rfl }
  | @head name head unused =>
    exact { keeps with
      reached := keeps.reached.head name head
      heads := by
        intro other meant
        have differ : other ≠ name := fun same => unused (same ▸ meant)
        rw [← keeps.heads other meant, defineHead, Table.get?_insert, if_neg differ] }
  | @aliased name existing unused =>
    have reached := keeps.reached.aliased name existing
    obtain ⟨heads, others, same⟩ := exists_defineAlias middle name existing
    rw [same] at reached ⊢
    exact { keeps with
      reached
      heads := by
        intro other meant
        rw [others other fun same => unused (same ▸ meant), keeps.heads other meant] }
  | @register declaration unused new draws =>
    exact { keeps with
      reached := keeps.reached.register declaration
      draws := draws_register keeps.draws draws
      keywords := by
        intro other meant
        have differ : other ≠ declaration.name := fun same => unused (same ▸ meant)
        rw [← keeps.keywords other meant]
        exact (Table.get?_insert ..).trans (if_neg differ)
      types := by
        intro other meant
        have differ : other ≠ declaration.name := fun same => new (same ▸ meant)
        rw [get?_types_register, if_neg differ, keeps.types other meant]
      code := by
        rw [callbacks_register]
        exact keeps.code.trans (List.prefix_append ..) }

/-- What does not concern some names and host types keeps them, however much of it happens. -/
theorem keeps_of_history (reached : engine.Reached) (draws : engine.host.Draws)
    (history : Relation.ReflTransGen (Unconcerned atoms known) engine later) :
    engine.Keeps atoms known later := by
  induction history with
  | refl => exact keeps_refl reached draws
  | tail _ step ih => exact ih.step step

/-! ## The same meaning -/

/-- The bases of known types are known. -/
theorem TypesClear.base_over (clear : engine.TypesClear atoms known) {ty base : Ty} (shown : ty.Over known)
    (found : engine.registry.base? ty = some base) : base.Over known := by
  cases ty with
  | named name =>
    simp only [Registry.base?, Option.some.injEq] at found
    subst found
    cases declared : engine.registry.types.get? name with
    | none => trivial
    | some declaration =>
      rw [Option.bind_some]
      cases based : declaration.base with
      | none => trivial
      | some base => exact clear.bases name declaration base shown declared based
  | prim prim => cases prim <;> cases found <;> trivial
  | list | map | func =>
    cases found
    trivial

/-- The indexers of known types answer known types, with code that the host has. -/
theorem TypesClear.indexer_known (clear : engine.TypesClear atoms known) (reached : engine.Reached) {ty : Ty}
    (shown : ty.Over known) {indexer : Indexer} (listed : indexer ∈ engine.registry.indexers ty) :
    indexer.Known (.knowing known engine.host.callbacks.length) := by
  cases ty with
  | named name =>
    simp only [Registry.indexers] at listed
    cases declared : engine.registry.types.get? name with
    | none =>
      rw [declared] at listed
      cases listed
    | some declaration =>
      rw [declared, Option.map_some, Option.getD_some, List.mem_map] at listed
      obtain ⟨found, listed, rfl⟩ := listed
      refine ⟨clear.results name declaration shown declared found listed, ?_⟩
      rintro _ ⟨⟩
      exact (reached.coded declared).indexers found listed
  | prim prim =>
    cases prim with
    | string =>
      obtain rfl := List.mem_singleton.mp listed
      exact ⟨trivial, nofun⟩
    | _ => cases listed
  | list element =>
    obtain rfl := List.mem_singleton.mp listed
    exact ⟨shown, nofun⟩
  | map key value =>
    obtain rfl := List.mem_singleton.mp listed
    exact ⟨shown.2, nofun⟩
  | func params result => cases listed

/-- The code of constructors is code that the host has. -/
theorem Reached.constructor_lt (reached : engine.Reached) {ty : Ty} {constructor : Constructor}
    (listed : constructor ∈ engine.registry.constructors ty) :
    constructor.callback < engine.host.callbacks.length := by
  cases ty with
  | named name =>
    simp only [Registry.constructors] at listed
    cases declared : engine.registry.types.get? name with
    | none =>
      rw [declared] at listed
      cases listed
    | some declaration =>
      rw [declared, Option.map_some, Option.getD_some] at listed
      exact (reached.coded declared).constructors constructor listed
  | prim | list | map | func => cases listed

namespace Keeps

/-- The registries agree on the types that are known. -/
theorem registries (keeps : engine.Keeps atoms known later) (reached : engine.Reached)
    (clear : engine.TypesClear atoms known) :
    engine.registry.Agree (.knowing known engine.host.callbacks.length) later.registry where
  base := by
    intro ty shown
    cases ty with
    | named name => simp only [Registry.base?, keeps.types name shown]
    | prim prim => cases prim <;> rfl
    | list | map | func => rfl
  baseKnown _ _ := clear.base_over
  indexers := by
    intro ty shown
    cases ty with
    | named name => simp only [Registry.indexers, keeps.types name shown]
    | prim prim => cases prim <;> rfl
    | list | map | func => rfl
  indexersKnown _ shown _ := clear.indexer_known reached shown
  constructors := by
    intro ty shown
    cases ty with
    | named name => simp only [Registry.constructors, keeps.types name shown]
    | prim | list | map | func => rfl
  constructorsKnown _ _ _ := reached.constructor_lt

/-- Code that an engine has stays under its key. -/
theorem callback_eq (keeps : engine.Keeps atoms known later) {key : Nat}
    (old : key < engine.host.callbacks.length) :
    later.host.callback key = engine.host.callback key := by
  obtain ⟨more, same⟩ := keeps.code
  unfold Host.callback
  rw [← same, List.getD_eq_getElem?_getD, List.getElem?_append_left old,
    List.getD_eq_getElem?_getD]

/-- Names that are kept mean the same to a compilation in both engines. -/
theorem agree (keeps : engine.Keeps atoms known later) (reached : engine.Reached)
    (clear : engine.TypesClear atoms known) :
    engine.Agree (.knowing known engine.host.callbacks.length) engine.supply atoms later where
  elaborators :=
    { registry := keeps.registries reached clear
      resolve := fun name meant => (keeps.keywords name meant).symm
      resolved := clear.keywords
      heads := fun name meant => (keeps.heads name meant).symm
      maxDepth := (congrArg Options.maxDepth keeps.options).symm }
  bindings := keeps.bindings
  known name binding meant found :=
    ⟨reached.rooted.id_lt (reached.rooted.mem_of_lookup found),
      clear.types name binding meant found⟩
  drawn := ⟨le_refl _, keeps.drawn⟩

/-- Names that are kept mean the same in both engines. -/
theorem alike (keeps : engine.Keeps atoms known later) (reached : engine.Reached)
    (clear : engine.Clear atoms known) :
    engine.Alike (.knowing known engine.host.callbacks.length) engine.supply atoms later where
  toAgree := keeps.agree reached clear.toTypesClear
  kept := Likeness.agree_knowing.mpr (keeps.registries reached clear.toTypesClear)
  values := by
    intro id shows
    rw [keeps.values id shows]
    cases stored : engine.globals.lookup id with
    | none => exact .none
    | some value => exact .some (clear.values id value shows stored)
  rooted := reached.rooted
  otherRooted := keeps.reached.rooted
  frames := ⟨reached.frame_lt, keeps.reached.frame_lt⟩
  host := by
    intro key old
    rw [keeps.callback_eq old]
    exact clear.host.callback key

end Keeps

end Engine

/-! ## Texts -/

/-- The atoms of what is read are atoms of the text. -/
theorem Reader.alike_of_readOnly {reader : Reader} {source : String} {form : Form}
    (read : reader.readOnly source = .ok form) : form.Alike Eq (AtomOf source) form := by
  have agree : Reader.TextsAgree Eq (AtomOf source) false reader.file source source := by
    refine List.forall₂_same.mpr fun lexeme belongs => ⟨.same _, rfl, fun text atom => ?_⟩
    refine List.mem_map.mpr ⟨lexeme, belongs, ?_⟩
    rw [atom, String.toList_ofList]
  have ends := Reader.readOnly_alike (fun any => by cases any) agree
  rw [read] at ends
  cases ends with
  | ok held => exact held

namespace Engine

/-- A text that is read compiles as its form does. -/
theorem compile_of_read {engine : Engine} {source : String} {form : Form}
    (read : engine.read source = .ok form) : engine.compile source = engine.compileForm form := by
  rw [compile_eq, read]
  rfl

end Engine

/-! ## What shows history -/

namespace Stray

def engine : Engine :=
  let declared := (Engine.withOptions {}).register { name := "Bar" }
  let bound := (declared.defining "x" .null).2
  (bound.defining "x" (.object 0 "Foo" [])).2

/-- The engine when the type of the value is declared. -/
def grown : Engine :=
  engine.register { name := "Foo", base := some (.named "Bar") }

def form : Form :=
  let loc (column : Nat) : Location := ⟨"<input>", 1, column⟩
  .combo .paren [.atom "is" (loc 2), .atom "Bar" (loc 5), .atom "x" (loc 9)] (loc 1)

theorem pieces_form : (lexemes {} "(is Bar x)".toList).map (·.piece) =
    [.opener .paren, .atom "is".toList, .atom "Bar".toList, .atom "x".toList,
      .closer .paren] := by
  cbv

theorem readOnly_form : Reader.readOnly {} "(is Bar x)" = .ok form := by
  cbv

theorem read_form : engine.read "(is Bar x)" = .ok form :=
  readOnly_form

theorem grown_read_form : grown.read "(is Bar x)" = .ok form :=
  readOnly_form

end Stray

namespace Engine

/-- History can be seen in the values of globals. The name of a host type occurs neither in a text
nor in a declaration, nor in the type of a global, and no code of the host makes values. Still, to
declare the type changes what the text evaluates to, because a global has a value of the type. -/
theorem history_seen_in_value :
    (¬ AtomOf "(is Bar x)" "Foo" ∧ Stray.engine.registry = Registry.register {} { name := "Bar" } ∧
      Stray.engine.root.innermost.map (·.ty) = [.object] ∧ Stray.engine.host.callbacks = []) ∧
    ∃ unit otherUnit later otherLater,
      Stray.engine.compile "(is Bar x)" = .ok (unit, later) ∧
      Stray.grown.compile "(is Bar x)" = .ok (otherUnit, otherLater) ∧
      later.invoke unit = .ok (.bool false, later) ∧
      otherLater.invoke otherUnit = .ok (.bool true, otherLater) := by
  refine ⟨⟨?_, rfl, rfl, rfl⟩, _, _, Stray.engine, Stray.grown,
    (compile_of_read Stray.read_form).trans rfl, (compile_of_read Stray.grown_read_form).trans rfl,
    ?_, ?_⟩
  · unfold AtomOf
    rw [Stray.pieces_form]
    decide
  · rfl
  · rfl

/-- A text is compiled in both engines to what its form is compiled to. -/
theorem Keeps.compile {source : String} {known : String → Prop} {engine later : Engine}
    {related : CompiledUnit × Engine → CompiledUnit × Engine → Prop}
    (keeps : engine.Keeps (AtomOf source) known later)
    (forms : ∀ form : Form, form.Alike Eq (AtomOf source) form →
      Likewise Eq related (engine.compileForm form) (later.compileForm form)) :
    Parallel Eq related (engine.compile source) (later.compile source) := by
  have reads : later.read source = engine.read source := by
    unfold read reader
    rw [keeps.options]
  rw [compile_eq, compile_eq, reads]
  cases read : engine.read source with
  | error report => exact .error rfl
  | ok form => exact (forms form (Reader.alike_of_readOnly read)).mono_fails fun _ _ same => same.eq

/-- **History is inert.** After attempts to compile and run, definitions under names that are no
atoms of a text, and declarations of host types that nothing mentions that the text can meet when it
is compiled, compiling the text gives the same report as before, or a root that is alike up to new
identities. An attempt to compile leaves all but the supply of an engine as it was.

If the values that the text can meet and what code of the host answers do not mention these types
either, runs of the unit give the same report as before, or values that are alike, and so do calls
of functions that are alike. -/
theorem history_inert {engine later : Engine} {source : String} {known : String → Prop}
    (reached : engine.Reached) (draws : engine.host.Draws)
    (clear : engine.TypesClear (AtomOf source) known)
    (history : Relation.ReflTransGen (Unconcerned (AtomOf source) known) engine later) :
    Parallel Eq
      (engine.RootsAlike (.knowing known engine.host.callbacks.length) (AtomOf source) later)
      (engine.compile source) (later.compile source) ∧
    (∀ other : String, engine.Drawn (engine.attempt (.compile other))) ∧
    (engine.Clear (AtomOf source) known →
      Parallel Eq
        (engine.CompiledAlike (.knowing known engine.host.callbacks.length) engine.supply
          (AtomOf source) later)
        (engine.compile source) (later.compile source) ∧
      ∀ (world : World) (caller otherCaller : Engine) (closure other : Closure Value)
        (args otherArgs : List Value), caller.host = engine.host → otherCaller.host = later.host →
        World.below engine.supply ≤ world → world.Fits caller.supply otherCaller.supply →
        Value.Alike (.knowing known engine.host.callbacks.length) world (.function closure)
          (.function other) →
        List.Forall₂ (Value.Alike (.knowing known engine.host.callbacks.length) world) args
          otherArgs →
        RunAlike (.knowing known engine.host.callbacks.length) world (caller.call closure args)
          (otherCaller.call other otherArgs)) := by
  have keeps := keeps_of_history reached draws history
  refine ⟨keeps.compile fun form => (keeps.agree reached clear).compileForm,
    fun other => drawn_attempt draws (.compile other), fun clear => ?_⟩
  have alike := keeps.alike reached clear
  refine ⟨keeps.compile fun form => alike.compileForm, ?_⟩
  intro world caller otherCaller closure other args otherArgs host otherHost old fits functions
    parts
  refine call_alike (fun _ _ => Likeness.agree_knowing.mp) ?_ old functions parts fits
  intro key shown
  rw [host, otherHost]
  exact alike.host key shown

end Engine

/-! ## A comparison after other things -/

namespace PointHost

def busy : Engine :=
  let tried := withOrigin.attempt (.compile "(=> ((Point p)) q)")
  let bound := (tried.defining "size" (.datum (.int 3))).2
  bound.register { name := "Line", base := some (.named "Point") }

def comparison : Form :=
  let loc (column : Nat) : Location := ⟨"<input>", 1, column⟩
  let made : Form := .combo .paren
    [.atom "new" (loc 13), .atom "Point" (loc 17), .atom "1" (loc 23)] (loc 12)
  .combo .paren [.atom "==" (loc 2), .atom "origin" (loc 5), made] (loc 1)

theorem pieces_comparison : (lexemes {} "(== origin (new Point 1))".toList).map (·.piece) =
    [.opener .paren, .atom "==".toList, .atom "origin".toList, .opener .paren,
      .atom "new".toList, .atom "Point".toList, .atom "1".toList, .closer .paren,
      .closer .paren] := by
  cbv

theorem read_comparison : withOrigin.read "(== origin (new Point 1))" = .ok comparison := by
  have read : Reader.readOnly {} "(== origin (new Point 1))" = .ok comparison := by
    cbv
  exact read

theorem history_busy : Relation.ReflTransGen
    (Unconcerned (AtomOf "(== origin (new Point 1))") (· ≠ "Line")) withOrigin busy := by
  have size : ¬ AtomOf "(== origin (new Point 1))" "size" := by
    rw [AtomOf, pieces_comparison]
    decide
  have line : ¬ AtomOf "(== origin (new Point 1))" "Line" := by
    rw [AtomOf, pieces_comparison]
    decide
  refine .tail (.tail (.single (.attempt withOrigin (.compile "(=> ((Point p)) q)")))
    (.global _ (.datum (.int 3)) size)) (.register _ line (fun new => new rfl) ⟨nofun, nofun⟩)

theorem over_builtin {known : String → Prop} :
    ∀ entry ∈ builtinTypeNames, entry.2.Over known := by
  simp [builtinTypeNames, Ty.Over]

theorem point_known : "Point" ≠ "Line" := by
  decide

theorem clear_withOrigin :
    withOrigin.Clear (AtomOf "(== origin (new Point 1))") (· ≠ "Line") where
  bases := by
    intro name declared base _ found based
    rw [show withOrigin.registry = registry from rfl, get?_types] at found
    split at found
    · cases found
      cases based
    · cases found
  results := by
    intro name declared _ found indexer listed
    rw [show withOrigin.registry = registry from rfl, get?_types] at found
    split at found
    · cases found
      cases listed
    · cases found
  keywords := by
    intro name ty _ found
    have entries : (if name = "Point" then some (.named "Point")
        else builtinTypeNames.lookup name) = some ty :=
      (Table.get?_insert ..).symm.trans found
    split at entries
    · cases entries
      exact point_known
    · obtain ⟨before, behind, split, -⟩ := List.lookup_eq_some_iff.mp entries
      exact over_builtin (name, ty) (by rw [split]; simp)
  types := by
    intro name binding _ found
    obtain rfl : binding = ⟨1, "origin", .named "Point"⟩ :=
      List.mem_singleton.mp (reached_withOrigin.rooted.mem_of_lookup found)
    exact point_known
  values := by
    intro id value _ stored
    have slot : (id, value) = (1, .object 0 "Point" [.datum (.int 0)]) :=
      List.mem_singleton.mp (Frame.mem_slots_of_lookup stored)
    cases slot
    exact Value.alike_object ⟨rfl, by decide⟩ point_known (.cons .datum .nil)
  host := by
    intro callback belongs
    obtain rfl : callback = makePoint := List.mem_singleton.mp belongs
    exact Recipe.likewise (.make "Point") point_known

end PointHost

namespace Engine

/-- History is inert for a comparison of points. -/
theorem history_inert_comparison :
    (∃ made otherMade, PointHost.withOrigin.compile "(== origin (new Point 1))" = .ok made ∧
        PointHost.busy.compile "(== origin (new Point 1))" = .ok otherMade ∧
        PointHost.withOrigin.CompiledAlike (.knowing (· ≠ "Line") 1) 3
          (AtomOf "(== origin (new Point 1))") PointHost.busy made otherMade) ∧
      PointHost.withOrigin.Drawn
        (PointHost.withOrigin.attempt (.compile "(=> ((Point p)) q)")) := by
  have draws : PointHost.withOrigin.host.Draws := by
    intro callback belongs
    obtain rfl : callback = PointHost.makePoint := List.mem_singleton.mp belongs
    exact Recipe.draws (.make "Point")
  obtain ⟨-, unchanged, runs⟩ := history_inert PointHost.reached_withOrigin draws
    PointHost.clear_withOrigin.toTypesClear PointHost.history_busy
  obtain ⟨alike, -⟩ := runs PointHost.clear_withOrigin
  refine ⟨?_, unchanged _⟩
  generalize made : PointHost.withOrigin.compile "(== origin (new Point 1))" = outcome at alike
  generalize otherMade : PointHost.busy.compile "(== origin (new Point 1))" = otherOutcome at alike
  cases alike with
  | ok held => exact ⟨_, _, rfl, rfl, held⟩
  | error =>
    rw [compile_of_read PointHost.read_comparison] at made
    cases made

end Engine

end ExprLang
