import ExprLang.Proofs.Engine.Globals
import ExprLang.Proofs.Lexical.Session
import ExprLang.Proofs.Phases

/-!
# Lexical scoping

The engine, which keeps the values of names in frames keyed by the identities of bindings, cannot be
told apart from an engine that evaluates forms by names (`lexical_scoping`). `SessionsAlike` is what
holds between the sessions of the two machines; every move keeps it and is answered alike
(`SessionsAlike.act`).
-/

namespace ExprLang

/-! ## Engines -/

/-- The engine without values and code. -/
def Engine.blank (engine : Engine) : Engine :=
  { engine with globals := .empty 0, host := {} }

/-- A unit is the one that elaboration made of a form at its place, and the globals that it was
compiled with correspond to the scopes of the form. -/
structure SameUnit (units : List Compiled) (compiled : Compiled) (other : NamedUnit) : Prop where
  below : other.place.scope.Below other.place.next
  registry : compiled.unit.registry = other.place.elaborator.registry
  made : ∃ later, other.place.elaborator.Elaborates other.place.scope other.place.depth other.form
    other.place.next compiled.unit.root later
  matched : Corresponds units compiled other.place.scope compiled.unit.frame other.scopes

/-- An engine and an engine by names are in the same state: they know the same names and types, and
each name has the same value. -/
structure EnginesAlike (units : List Compiled) (engine : Engine) (named : NamedEngine) : Prop where
  rooted : engine.Rooted
  blank : named.engine = engine.blank
  scope : engine.globals.id = named.scope
  globals : ∀ name, Option.Rel (Agrees units) (engine.valueOf name) (named.globals.lookup name)

/-- Two sessions are alike: the engines, and the units and values one by one. -/
structure SessionsAlike (host : Host) (session : Session Engine Compiled Value)
    (named : Session NamedEngine NamedUnit ScopedValue) : Prop where
  code : session.state.host = host
  state : EnginesAlike session.units session.state named.state
  units : List.Forall₂ (SameUnit session.units) session.units named.units
  values : List.Forall₂ (Agrees session.units) session.values named.values

theorem Corresponds.mono {units more : List Compiled} {compiled : Compiled} {scope : Scope}
    {frame : Frame Value} {scopes : Scopes ScopedValue}
    (matched : Corresponds units compiled scope frame scopes) (subset : units ⊆ more) :
    Corresponds more compiled scope frame scopes where
  id := matched.id
  missing := matched.missing
  present := by
    intro name binding value bound found
    obtain ⟨other, held, agrees⟩ := matched.present name binding value bound found
    exact ⟨other, held, agrees.mono subset⟩

theorem SameUnit.mono {units more : List Compiled} {compiled : Compiled} {other : NamedUnit}
    (same : SameUnit units compiled other) (subset : units ⊆ more) : SameUnit more compiled other :=
  { same with matched := same.matched.mono subset }

theorem rel_mono {α β : Type} {related weaker : α → β → Prop} {first : Option α} {second : Option β}
    (rel : Option.Rel related first second) (implied : ∀ a b, related a b → weaker a b) :
    Option.Rel weaker first second := by
  cases rel with
  | some held => exact .some (implied _ _ held)
  | none => exact .none

theorem EnginesAlike.mono {units more : List Compiled} {engine : Engine} {named : NamedEngine}
    (alike : EnginesAlike units engine named) (subset : units ⊆ more) :
    EnginesAlike more engine named :=
  { alike with
    globals := fun name => rel_mono (alike.globals name) fun _ _ agrees => agrees.mono subset }

/-! ### What engines do -/

section Engines

variable {units : List Compiled} {engine : Engine} {named : NamedEngine}

theorem EnginesAlike.drawn {supply : Nat} (alike : EnginesAlike units engine named)
    (more : engine.supply ≤ supply) :
    EnginesAlike units { engine with supply }
      { named with engine := { named.engine with supply } } where
  rooted := alike.rooted.drawn ⟨supply, more, rfl⟩
  blank := by rw [alike.blank]; rfl
  scope := alike.scope
  globals := alike.globals

theorem EnginesAlike.configure (alike : EnginesAlike units engine named) (registry : Registry)
    (heads : HeadTable) (options : Options) :
    EnginesAlike units { engine with registry, heads, options }
      { named with engine := { named.engine with registry, heads, options } } where
  rooted := { alike.rooted with }
  blank := by rw [alike.blank]; rfl
  scope := alike.scope
  globals := alike.globals

theorem EnginesAlike.declare (alike : EnginesAlike units engine named) (name : String) (ty : Ty) :
    EnginesAlike units (engine.declare name ty).2
      { named with engine := (named.engine.declare name ty).2 } where
  rooted := alike.rooted.declare name ty
  blank := by rw [alike.blank]; rfl
  scope := alike.scope
  globals := by
    intro other
    rw [Engine.valueOf_declare alike.rooted]
    exact alike.globals other

theorem Agrees.globalTy_eq {value : Value} {other : ScopedValue}
    (agrees : Agrees units value other) :
    other.outline.globalTy = value.globalTy := by
  rw [Value.globalTy, agrees.ty?_eq, Value.globalTy]

/-- A definition succeeds on both sides or fails on both in the same way. -/
theorem EnginesAlike.defining (alike : EnginesAlike units engine named) {value : Value}
    {other : ScopedValue} (agrees : Agrees units value other) (name : String) :
    (named.defining name other).1 = (engine.defining name value).1 ∧
      EnginesAlike units (engine.defining name value).2 (named.defining name other).2 := by
  have declared : named.engine.declare name value.globalTy =
      ((engine.declare name value.globalTy).1, (engine.declare name value.globalTy).2.blank) := by
    rw [alike.blank]
    rfl
  have values (looked : String) := Engine.valueOf_defining alike.rooted name looked value
  have rooted := alike.rooted.defining name value
  unfold Engine.stored? at values
  unfold Engine.defining at values rooted ⊢
  unfold NamedEngine.defining
  dsimp only at values rooted ⊢
  rw [agrees.globalTy_eq, declared]
  -- Only the type of the value is looked at, so both sides decide the same.
  by_cases fits : (engine.declare name value.globalTy).2.registry.isAssignable value.globalTy
      (engine.declare name value.globalTy).1.ty = true
  · have blank : (engine.declare name value.globalTy).2.blank.registry.isAssignable value.globalTy
        (engine.declare name value.globalTy).1.ty = true := fits
    simp only [if_pos fits] at values rooted ⊢
    rw [if_pos blank]
    refine ⟨rfl, rooted, rfl, rfl, fun looked => ?_⟩
    rw [values, List.lookup_cons]
    by_cases same : name = looked
    · rw [if_pos same, beq_iff_eq.mpr same.symm, Option.some_or]
      exact .some agrees
    · rw [if_neg same, beq_eq_false_iff_ne.mpr (Ne.symm same), Option.none_or]
      exact alike.globals looked
  · have blank : ¬(engine.declare name value.globalTy).2.blank.registry.isAssignable value.globalTy
        (engine.declare name value.globalTy).1.ty = true := fits
    simp only [if_neg fits] at values rooted ⊢
    rw [if_neg blank]
    refine ⟨rfl, rooted, rfl, alike.scope, fun looked => ?_⟩
    rw [values, Option.none_or]
    exact alike.globals looked

theorem Engine.compilingForm_blank (engine : Engine) (form : Form) :
    engine.blank.compilingForm form =
      ((engine.compilingForm form).1.map fun unit => { unit with frame := .empty 0 },
        (engine.compilingForm form).2.blank) := by
  have elaborated : engine.blank.elaborator.elaborating engine.blank.root form engine.blank.supply =
      engine.elaborator.elaborating engine.root form engine.supply := rfl
  unfold compilingForm
  rw [elaborated]
  generalize engine.elaborator.elaborating engine.root form engine.supply = outcome
  obtain ⟨_ | root, supply⟩ := outcome <;> rfl

/-- The globals of an engine correspond to the values of the root names, for a unit that is compiled
with them. -/
theorem EnginesAlike.matched (alike : EnginesAlike units engine named) {unit : CompiledUnit}
    (frame : unit.frame = engine.globals) :
    Corresponds units ⟨engine.root, unit⟩ engine.root unit.frame
      ⟨named.scope, [named.globals]⟩ := by
  have lookup (name : String) :
      Scopes.lookup ⟨named.scope, [named.globals]⟩ name = named.globals.lookup name := by
    rw [Scopes.lookup, List.findSome?_cons]
    cases named.globals.lookup name <;> rfl
  have value (name : String) (binding : Binding) (bound : engine.root.lookup name = some binding) :
      engine.valueOf name = unit.frame.lookup binding.id := by
    rw [Engine.valueOf, bound, Option.bind_some, frame]
  refine ⟨frame ▸ alike.scope, ?_, ?_⟩
  · intro name binding bound missing
    have same := alike.globals name
    rw [value name binding bound, missing] at same
    rw [lookup]
    cases held : named.globals.lookup name with
    | none => exact ⟨rfl, bound, missing⟩
    | some other =>
      rw [held] at same
      cases same
  · intro name binding found bound present
    have same := alike.globals name
    rw [value name binding bound, present] at same
    rw [lookup]
    cases held : named.globals.lookup name with
    | none =>
      rw [held] at same
      cases same
    | some other =>
      rw [held] at same
      cases same with
      | some agrees => exact ⟨other, rfl, agrees⟩

/-- Both engines compile a form alike, and draw the same identities, whether that succeeds or
fails. -/
theorem EnginesAlike.compiling (alike : EnginesAlike units engine named) {form : Form}
    {outcome : Except Diagnostic CompiledUnit} {later : Engine}
    (made : engine.compilingForm form = (outcome, later)) :
    named.engine.compilingForm form =
        (outcome.map fun unit => { unit with frame := .empty 0 }, later.blank) ∧
      EnginesAlike units later { named with engine := later.blank } ∧ later.host = engine.host := by
  obtain ⟨supply, more, rfl⟩ := Engine.drawn_of_compiling made
  have drawn := alike.drawn more
  rw [alike.blank] at drawn ⊢
  exact ⟨by rw [Engine.compilingForm_blank, made], drawn, rfl⟩

/-- A form that one engine compiles is the same unit for the other. -/
theorem EnginesAlike.sameUnit (alike : EnginesAlike units engine named) {form : Form}
    {unit : CompiledUnit} {later : Engine}
    (made : engine.compileForm form = .ok (unit, later)) :
    SameUnit units ⟨engine.root, unit⟩ (named.unit form) := by
  obtain ⟨frame, registry, supply, elaborated, rfl⟩ := Engine.compileForm_ok made
  refine ⟨?_, ?_, ⟨supply, ?_⟩, ?_⟩
  · rw [NamedEngine.unit, alike.blank]
    exact alike.rooted.below
  · rw [registry, NamedEngine.unit, alike.blank]
    rfl
  · rw [NamedEngine.unit, alike.blank]
    exact Elaborator.elaborates_of_ok elaborated
  · have matched := alike.matched frame
    rw [NamedEngine.unit, alike.blank]
    exact matched

/-- What ends alike in two engines that are alike leaves them alike. -/
theorem EnginesAlike.perform (alike : EnginesAlike units engine named) {compiled : Compiled}
    {run : Run Value} {other : Run ScopedValue} (agree : Run.Agree units compiled run other)
    (draws : run.Draws) :
    EndsAlike compiled.MayReport
      (fun result otherResult => Agrees units result.1 otherResult.1 ∧
        EnginesAlike units result.2 otherResult.2 ∧ result.2.host = engine.host)
      (engine.perform run) (named.perform other) := by
  have supply : named.engine.supply = engine.supply := by
    rw [alike.blank]
    rfl
  unfold NamedEngine.perform
  rw [Engine.perform_eq, Engine.perform_eq, supply]
  rcases (agree engine.supply).results with
    ⟨result, other, ran, otherRan, agrees, same⟩ | ⟨report, ran, otherRan, may⟩
  · rw [ran, otherRan]
    obtain ⟨value, later⟩ := result
    obtain ⟨otherValue, otherLater⟩ := other
    obtain rfl : later = otherLater := same
    exact .ok ⟨agrees, alike.drawn (draws _ _ _ ran), rfl⟩
  · rw [ran, otherRan]
    exact .error may

theorem EnginesAlike.runCode (alike : EnginesAlike units engine named) {scopedHost : ScopedHost}
    (draws : engine.host.Draws) (hosts : engine.host.Alike scopedHost) {target : Value}
    {other : ScopedValue} {args : List Value} {others : List ScopedValue}
    (agrees : Agrees units target other) (held : List.Forall₂ (Agrees units) args others)
    (key : Nat) :
    EndsAlike (·.code ≠ .unboundVariable)
      (fun result otherResult => Agrees units result.1 otherResult.1 ∧
        EnginesAlike units result.2 otherResult.2 ∧ result.2.host = engine.host)
      (engine.runCode key target args) (named.runCode scopedHost key other others) := by
  have supply : named.engine.supply = engine.supply := by
    rw [alike.blank]
    rfl
  unfold Engine.runCode NamedEngine.runCode
  rw [supply]
  rcases (hosts units key target other args others engine.supply agrees held).results with
    ⟨result, otherResult, ran, otherRan, same, drawn⟩ | ⟨message, ran, otherRan, -⟩
  · rw [ran, otherRan]
    obtain ⟨value, later⟩ := result
    obtain ⟨otherValue, otherLater⟩ := otherResult
    obtain rfl : later = otherLater := drawn
    exact .ok ⟨same, alike.drawn (draws.callback key _ _ _ _ _ ran), rfl⟩
  · rw [ran, otherRan]
    exact .error nofun

end Engines

/-! ## Sessions -/

/-- A move evaluates code of a unit: it runs the unit, or it calls a function that a lambda of the
unit made. -/
def Session.Enters (session : Session Engine Compiled Value) (compiled : Compiled) : Move → Prop
  | .run unit => session.units[unit]? = some compiled
  | .call function _ => compiled ∈ session.units ∧ ∃ closure node,
      session.values[function]? = some (.function closure) ∧
        compiled.unit.root.Contains (.lambda node closure.lambda closure.params closure.body)
  | _ => False

/-- A move is answered that a name has no value only if it evaluates code of a unit that was
compiled while the root name had none. -/
def Session.MayReport (session : Session Engine Compiled Value) (move : Move)
    (report : Diagnostic) : Prop :=
  report.code = .unboundVariable → ∃ compiled, session.Enters compiled move ∧
    ∃ name binding loc, compiled.Lacks name binding ∧ report = (Fault.valueless name).reportAt loc

def AnswersAlike (host : Host) (fails : Diagnostic → Prop)
    (first : Except Diagnostic (Option Value) × Session Engine Compiled Value)
    (second : Except Diagnostic (Option ScopedValue) × Session NamedEngine NamedUnit ScopedValue) :
    Prop :=
  EndsAlike fails (Option.Rel (Agrees first.2.units)) first.1 second.1 ∧
    SessionsAlike host first.2 second.2

section Sessions

variable {host : Host} {scopedHost : ScopedHost} {session : Session Engine Compiled Value}
  {named : Session NamedEngine NamedUnit ScopedValue} {fails weaker : Diagnostic → Prop}

theorem SessionsAlike.pick (alike : SessionsAlike host session named) (numbers : List Nat) :
    List.Forall₂ (Agrees session.units) (session.pick numbers) (named.pick numbers) := by
  unfold Session.pick
  induction numbers with
  | nil => exact .nil
  | cons number rest ih =>
    rw [List.filterMap_cons, List.filterMap_cons]
    have found := rel_getElem? alike.values number
    generalize session.values[number]? = value at found ⊢
    generalize named.values[number]? = other at found ⊢
    cases found with
    | some agrees => exact .cons agrees ih
    | none => exact ih

/-- Nothing happens. -/
theorem SessionsAlike.idle (alike : SessionsAlike host session named) :
    AnswersAlike host fails (.ok none, session) (.ok none, named) :=
  ⟨.ok .none, alike⟩

theorem SessionsAlike.keep (alike : SessionsAlike host session named)
    {outcome : Except Diagnostic (Value × Engine)}
    {other : Except Diagnostic (ScopedValue × NamedEngine)}
    (ends : EndsAlike fails (fun result otherResult =>
      Agrees session.units result.1 otherResult.1 ∧
        EnginesAlike session.units result.2 otherResult.2 ∧ result.2.host = session.state.host)
      outcome other) :
    AnswersAlike host fails (session.keep outcome) (named.keep other) := by
  cases ends with
  | error may => exact ⟨.error may, alike⟩
  | ok held =>
    obtain ⟨agrees, state, code⟩ := held
    exact ⟨.ok (.some agrees),
      { alike with
        code := code.trans alike.code
        state
        values := List.rel_append alike.values (.cons agrees .nil) }⟩

theorem SessionsAlike.compile (alike : SessionsAlike host session named) (form : Form) :
    AnswersAlike host (·.code ≠ .unboundVariable) (Engine.machine.act session (.compile form))
      ((NamedEngine.machine scopedHost).act named (.compile form)) := by
  unfold Machine.act Engine.machine NamedEngine.machine
  dsimp only
  rcases made : session.state.compilingForm form with ⟨outcome, later⟩
  obtain ⟨other, state, code⟩ := alike.state.compiling made
  rw [other]
  have compiled := Engine.compileForm_of_compiling made
  cases outcome with
  | error report =>
    -- Compilation reports nothing that depends on values.
    refine ⟨.error fun unbound => ?_, { alike with code := code.trans alike.code, state }⟩
    have static := Engine.isStatic_of_compileForm compiled
    rw [Diagnostic.IsStatic, Diagnostic.kind, unbound] at static
    rcases static with parser | type
    · cases parser
    · cases type
  | ok unit =>
    have same := alike.state.sameUnit compiled
    have subset : session.units ⊆ session.units ++ [⟨session.state.root, unit⟩] :=
      List.subset_append_left _ _
    refine ⟨.ok .none, code.trans alike.code, state.mono subset, ?_, ?_⟩
    · refine List.rel_append (alike.units.imp fun _ _ same => same.mono subset) ?_
      exact .cons (same.mono subset) .nil
    · exact alike.values.imp fun _ _ agrees => agrees.mono subset

theorem SessionsAlike.define (alike : SessionsAlike host session named) (name : String)
    (number : Nat) :
    AnswersAlike host (·.code ≠ .unboundVariable) (Engine.machine.act session (.define name number))
      ((NamedEngine.machine scopedHost).act named (.define name number)) := by
  have found := rel_getElem? alike.values number
  unfold Machine.act Engine.machine NamedEngine.machine
  dsimp only
  generalize session.values[number]? = value at found ⊢
  generalize named.values[number]? = other at found ⊢
  cases found with
  | none => exact alike.idle
  | @some value other agrees =>
    obtain ⟨outcome, state⟩ := alike.state.defining agrees name
    dsimp only
    rw [outcome]
    have code : (session.state.defining name value).2.host = session.state.host := by
      unfold Engine.defining
      dsimp only
      split <;> rfl
    refine ⟨?_, { alike with code := code.trans alike.code, state }⟩
    unfold Engine.defining
    dsimp only
    split
    · exact .ok .none
    · exact .error nofun

theorem SessionsAlike.run (draws : host.Draws) (hosts : host.Alike scopedHost)
    (alike : SessionsAlike host session named) (number : Nat) :
    AnswersAlike host (session.MayReport (.run number)) (Engine.machine.act session (.run number))
      ((NamedEngine.machine scopedHost).act named (.run number)) := by
  have found := rel_getElem? alike.units number
  unfold Machine.act Engine.machine NamedEngine.machine
  dsimp only
  cases unitFound : session.units[number]? with
  | none =>
    rw [unitFound] at found
    generalize named.units[number]? = other at found ⊢
    cases found
    exact alike.idle
  | some compiled =>
    rw [unitFound] at found
    generalize named.units[number]? = other at found ⊢
    cases found with
    | @some _ other same =>
      obtain ⟨later, made⟩ := same.made
      have sound : Evaluation.Sound ⟨session.units, compiled,
          ⟨compiled.unit.registry, session.state.host⟩, scopedHost, compiled.unit.frame,
          other.scopes⟩ other.place.scope :=
        ⟨List.mem_of_getElem? unitFound, alike.code ▸ hosts, same.matched⟩
      have agree := made.follows sound same.registry.symm same.below .refl
      have ends := alike.state.perform agree (Setting.draws_evaluate (alike.code ▸ draws) _)
      exact alike.keep (ends.mono fun report may unbound =>
        ⟨compiled, unitFound, may unbound⟩)

theorem SessionsAlike.call (draws : host.Draws) (hosts : host.Alike scopedHost)
    (alike : SessionsAlike host session named) (number : Nat) (args : List Nat) :
    AnswersAlike host (session.MayReport (.call number args))
      (Engine.machine.act session (.call number args))
      ((NamedEngine.machine scopedHost).act named (.call number args)) := by
  have found := rel_getElem? alike.values number
  unfold Machine.act Engine.machine NamedEngine.machine
  dsimp only
  cases valueFound : session.values[number]? with
  | none =>
    rw [valueFound] at found
    generalize named.values[number]? = other at found ⊢
    cases found
    exact alike.idle
  | some value =>
    rw [valueFound] at found
    generalize named.values[number]? = other at found ⊢
    cases found with
    | @some _ other agrees =>
      cases value with
      | datum | list | map | object =>
        cases agrees
        exact alike.idle
      | function closure =>
        cases other with
        | datum | list | map | object => cases agrees
        | function routine scopes =>
          obtain ⟨compiled, known, ⟨node, contains⟩, agree⟩ :=
            agrees.call (alike.code ▸ hosts) (alike.pick args)
          have ends := alike.state.perform agree (Closure.draws_call (alike.code ▸ draws))
          exact alike.keep (ends.mono fun report may unbound =>
            ⟨compiled, ⟨known, closure, node, valueFound, contains⟩, may unbound⟩)

theorem SessionsAlike.runCode (draws : host.Draws) (hosts : host.Alike scopedHost)
    (alike : SessionsAlike host session named) (key number : Nat) (args : List Nat) :
    AnswersAlike host (·.code ≠ .unboundVariable)
      (Engine.machine.act session (.code key number args))
      ((NamedEngine.machine scopedHost).act named (.code key number args)) := by
  have found := rel_getElem? alike.values number
  unfold Machine.act Engine.machine NamedEngine.machine
  dsimp only
  generalize session.values[number]? = value at found ⊢
  generalize named.values[number]? = other at found ⊢
  cases found with
  | none => exact alike.idle
  | some agrees =>
    exact alike.keep (alike.state.runCode (alike.code ▸ draws) (alike.code ▸ hosts) agrees
      (alike.pick args) key)

/-- Every move is answered alike and leaves sessions alike. -/
theorem SessionsAlike.act (draws : host.Draws) (hosts : host.Alike scopedHost)
    (alike : SessionsAlike host session named) (move : Move) :
    AnswersAlike host (session.MayReport move) (Engine.machine.act session move)
      ((NamedEngine.machine scopedHost).act named move) := by
  have plain {first second} (answers : AnswersAlike host (·.code ≠ .unboundVariable) first second) :
      AnswersAlike host (session.MayReport move) first second :=
    ⟨answers.1.mono fun report other unbound => absurd unbound other, answers.2⟩
  cases move with
  | configure registry heads options =>
    exact ⟨.ok .none, { alike with state := alike.state.configure registry heads options }⟩
  | declare name ty => exact ⟨.ok .none, { alike with state := alike.state.declare name ty }⟩
  | define name value => exact plain (alike.define name value)
  | compile form => exact plain (alike.compile form)
  | datum datum => exact alike.keep (.ok ⟨.datum, alike.state, rfl⟩)
  | code key target args => exact plain (alike.runCode draws hosts key target args)
  | run unit => exact alike.run draws hosts unit
  | call function args => exact alike.call draws hosts function args

/-- Sessions that are alike stay so, whatever the host does. -/
theorem SessionsAlike.after (draws : host.Draws) (hosts : host.Alike scopedHost)
    (alike : SessionsAlike host session named) (moves : List Move) :
    SessionsAlike host (Engine.machine.after session moves)
      ((NamedEngine.machine scopedHost).after named moves) := by
  induction moves generalizing session named with
  | nil => exact alike
  | cons move rest ih => exact ih (alike.act draws hosts move).2

theorem sessionsAlike_start (host : Host) :
    SessionsAlike host ⟨{ host }, [], []⟩ ⟨{}, [], []⟩ where
  code := rfl
  state :=
    { rooted :=
        { flat := rfl
          distinct := List.nodup_nil
          below := by simp [Scope.Below, Scope.bindings]
          stored := by simp [Frame.empty] }
      blank := rfl
      scope := rfl
      globals := fun _ => .none }
  units := .nil
  values := .nil

end Sessions

/-- Outcomes that are alike look the same. -/
theorem EndsAlike.outline_eq {fails : Diagnostic → Prop} {units : List Compiled}
    {first : Except Diagnostic (Option Value)} {second : Except Diagnostic (Option ScopedValue)}
    (alike : EndsAlike fails (Option.Rel (Agrees units)) first second) :
    first.map (Option.map Value.outline) = second.map (Option.map ScopedValue.outline) := by
  cases alike with
  | error may => rfl
  | ok held =>
    cases held with
    | none => rfl
    | some agrees => simp only [Except.map, Option.map_some, agrees.outline_eq]

/-- **Lexical scoping.** Whatever a host does with an engine, one move after the other: the answer
to each move is the answer that evaluation by names gives. It is the same report, or a value of
which the same is seen: all but the code of the functions in it, which further moves can call. A move
is answered that a name has no value only if it evaluates code of a unit that was compiled against a
root binding of that name, with globals that held no value for it. -/
theorem lexical_scoping {host : Host} {scopedHost : ScopedHost} (draws : host.Draws)
    (hosts : host.Alike scopedHost) (before : List Move) (move : Move) :
    (Engine.machine.answer { host } before move).map (Option.map Value.outline) =
        ((NamedEngine.machine scopedHost).answer {} before move).map
          (Option.map ScopedValue.outline) ∧
      ∀ report, Engine.machine.answer { host } before move = .error report →
        report.code = .unboundVariable →
        ∃ compiled, (Engine.machine.after ⟨{ host }, [], []⟩ before).Enters compiled move ∧
          ∃ name binding loc, compiled.Lacks name binding ∧
            report = (Fault.valueless name).reportAt loc := by
  have alike := (sessionsAlike_start host).after draws hosts before
  obtain ⟨answers, -⟩ := alike.act draws hosts move
  refine ⟨answers.outline_eq, fun report failed unbound => ?_⟩
  rw [Machine.answer] at failed
  rcases answers.results with ⟨value, other, gave, -⟩ | ⟨found, gave, -, may⟩
  · rw [gave] at failed
    cases failed
  · rw [gave] at failed
    cases failed
    exact may unbound

/-! ## A session with functions in functions -/

namespace PointHost

def scopedHost : ScopedHost
  | 0, _, args, next => .ok (.object next "Point" args, next + 1)
  | _ + 1, _, _, _ => .error "unknown callback"

theorem alike : host.Alike scopedHost := by
  intro units key target otherTarget args otherArgs next _ held
  cases key with
  | zero => exact .ok ⟨Agrees.object_iff.mpr held, rfl⟩
  | succ key => exact .error trivial

theorem draws : host.Draws := by
  intro callback belongs
  obtain rfl := List.mem_singleton.mp belongs
  rintro target args next value later ⟨⟩
  exact Nat.le_succ next

/-- Three lambdas, `(=> ((int x)) (=> ((int y)) (=> ((int x)) (+ x y))))`: the first parameter has
the name of a global, and the last one the name of the first. -/
def shadowing : Form :=
  let loc : Location := ⟨"shadowing", 1, 1⟩
  let atom (text : String) : Form := .atom text loc
  let combo (children : List Form) : Form := .combo .paren children loc
  let lambda (name : String) (body : Form) : Form :=
    combo [atom "=>", combo [combo [atom "int", atom name]], body]
  lambda "x" (lambda "y" (lambda "x" (combo [atom "+", atom "x", atom "y"])))

/-- A session that gives `x` a value, makes functions of two calls of one function, gives `x`
another value, and compiles a name without a value. -/
def shadowingSession : List Move :=
  [.datum (.int 10), .define "x" 0, .declare "limit" .int, .compile shadowing, .run 0,
    .datum (.int 1), .datum (.int 2), .call 1 [2], .call 4 [3], .call 4 [2], .define "x" 3,
    .call 5 [0], .compile (.atom "limit" ⟨"limit", 1, 1⟩)]

end PointHost

/-- In the session, a function that was made by calls that have returned adds its argument to the
argument of the second call, on both sides; and the name without a value is reported by a unit whose
globals held none. -/
theorem lexical_scoping_shadowing :
    Engine.machine.answer { host := PointHost.host } PointHost.shadowingSession (.call 5 [3]) =
        .ok (some (.datum (.int 4))) ∧
      ((NamedEngine.machine PointHost.scopedHost).answer {} PointHost.shadowingSession
        (.call 5 [3])).map (Option.map ScopedValue.outline) = .ok (some (.datum (.int 4))) ∧
      Engine.machine.answer { host := PointHost.host } PointHost.shadowingSession (.run 1) =
        .error ((Fault.valueless "limit").reportAt ⟨"limit", 1, 1⟩) ∧
      ∃ compiled, (Engine.machine.after ⟨{ host := PointHost.host }, [], []⟩
          PointHost.shadowingSession).Enters compiled (.run 1) ∧
        ∃ name binding, compiled.Lacks name binding := by
  have computed : Engine.machine.answer { host := PointHost.host } PointHost.shadowingSession
      (.call 5 [3]) = .ok (some (.datum (.int 4))) := rfl
  have same := (lexical_scoping PointHost.draws PointHost.alike PointHost.shadowingSession
    (.call 5 [3])).1
  rw [computed] at same
  have reported : Engine.machine.answer { host := PointHost.host } PointHost.shadowingSession
      (.run 1) = .error ((Fault.valueless "limit").reportAt ⟨"limit", 1, 1⟩) := rfl
  obtain ⟨compiled, enters, name, binding, -, lacks, -⟩ :=
    (lexical_scoping PointHost.draws PointHost.alike PointHost.shadowingSession (.run 1)).2
      _ reported rfl
  exact ⟨computed, same.symm, reported, compiled, enters, name, binding, lacks⟩

end ExprLang
