import ExprLang.Proofs.Engine.Actions
import ExprLang.Proofs.Lexical.Calls

/-!
# Sessions with functions

What a host does with compiled units and with the functions that come out of them, one move after
the other: it changes the configuration, declares root names and gives them values, compiles forms,
runs units, calls functions and runs code of its own. Units and values go by the number under which
the host got them, so one session can be carried out with two machines: the engine
(`Engine.machine`), and an engine whose units and functions are forms that are evaluated by names
(`NamedEngine.machine`).
-/

namespace ExprLang

/-! ## Moves -/

inductive Move where
  | configure (registry : Registry) (heads : HeadTable) (options : Options)
  | declare (name : String) (ty : Ty)
  /-- Gives a root name a value that the host has. -/
  | define (name : String) (value : Nat)
  | compile (form : Form)
  /-- Makes a value that holds no other values. -/
  | datum (datum : Datum)
  /-- Runs code of the host on values that it has. -/
  | code (key target : Nat) (args : List Nat)
  | run (unit : Nat)
  | call (function : Nat) (args : List Nat)

/-- What a host works with: what each operation does to a state, and the units and values that it
gives. -/
structure Machine (S U V : Type) where
  configure : Registry → HeadTable → Options → S → S
  declare : String → Ty → S → S
  define : String → V → S → Except Diagnostic Unit × S
  compile : Form → S → Except Diagnostic U × S
  datum : Datum → V
  code : Nat → V → List V → S → Except Diagnostic (V × S)
  run : U → S → Except Diagnostic (V × S)
  /-- Calls a value with arguments, if it is a function. -/
  call : V → List V → S → Option (Except Diagnostic (V × S))

structure Session (S U V : Type) where
  state : S
  units : List U := []
  values : List V := []

namespace Session

variable {S U V : Type}

def pick (session : Session S U V) (numbers : List Nat) : List V :=
  numbers.filterMap (session.values[·]?)

/-- The host gets the value of an outcome. A failure changes nothing. -/
def keep (session : Session S U V) :
    Except Diagnostic (V × S) → Except Diagnostic (Option V) × Session S U V
  | .ok (value, state) =>
    (.ok (some value), { session with state, values := session.values ++ [value] })
  | .error report => (.error report, session)

end Session

namespace Machine

variable {S U V : Type} (machine : Machine S U V)

/-- The answer to a move, and the session after it. A move that names a unit or a value that the
host does not have does nothing, and so does a call of a value that is no function. -/
def act (session : Session S U V) : Move → Except Diagnostic (Option V) × Session S U V
  | .configure registry heads options =>
    (.ok none, { session with state := machine.configure registry heads options session.state })
  | .declare name ty => (.ok none, { session with state := machine.declare name ty session.state })
  | .define name value =>
    match session.values[value]? with
    | none => (.ok none, session)
    | some value =>
      let (outcome, state) := machine.define name value session.state
      (outcome.map fun _ => none, { session with state })
  | .compile form =>
    match machine.compile form session.state with
    | (.ok unit, state) => (.ok none, { session with state, units := session.units ++ [unit] })
    | (.error report, state) => (.error report, { session with state })
  | .datum datum => session.keep (.ok (machine.datum datum, session.state))
  | .code key target args =>
    match session.values[target]? with
    | none => (.ok none, session)
    | some target => session.keep (machine.code key target (session.pick args) session.state)
  | .run unit =>
    match session.units[unit]? with
    | none => (.ok none, session)
    | some unit => session.keep (machine.run unit session.state)
  | .call function args =>
    match session.values[function]? with
    | none => (.ok none, session)
    | some function =>
      match machine.call function (session.pick args) session.state with
      | none => (.ok none, session)
      | some outcome => session.keep outcome

def after (session : Session S U V) : List Move → Session S U V
  | [] => session
  | move :: rest => after (machine.act session move).2 rest

/-- What a host is answered to a move after other moves, from a first state. -/
def answer (start : S) (before : List Move) (move : Move) : Except Diagnostic (Option V) :=
  (machine.act (machine.after ⟨start, [], []⟩ before) move).1

end Machine

/-! ## The engine -/

def Engine.runCode (engine : Engine) (key : Nat) (target : Value) (args : List Value) :
    Except Diagnostic (Value × Engine) :=
  match engine.host.callback key target args engine.supply with
  | .ok (value, supply) => .ok (value, { engine with supply })
  | .error message => .error (Fault.host message).report

def Engine.machine : Machine Engine Compiled Value where
  configure registry heads options engine := { engine with registry, heads, options }
  declare name ty engine := (engine.declare name ty).2
  define name value engine :=
    let (outcome, engine) := engine.defining name value
    (outcome.map fun _ => (), engine)
  compile form engine :=
    let (outcome, compiled) := engine.compilingForm form
    (outcome.map fun unit => ⟨engine.root, unit⟩, compiled)
  datum := .datum
  code key target args engine := engine.runCode key target args
  run compiled engine := engine.invoke compiled.unit
  call value args engine :=
    match value with
    | .function closure => some (engine.call closure args)
    | _ => none

/-! ## The engine by names -/

/-- An engine that knows names and types, and the values of its root names with the identity that
they have as a scope. -/
structure NamedEngine where
  engine : Engine := {}
  scope : Nat := 0
  globals : List (String × ScopedValue) := []

structure NamedUnit where
  place : Place
  form : Form
  scopes : Scopes ScopedValue

namespace NamedEngine

variable (named : NamedEngine)

def defining (name : String) (value : ScopedValue) : Except Diagnostic Binding × NamedEngine :=
  let ty := value.outline.globalTy
  let (binding, engine) := named.engine.declare name ty
  if engine.registry.isAssignable ty binding.ty then
    (.ok binding, ⟨{ engine with supply := engine.supply + 1 }, engine.supply,
      (name, value) :: named.globals⟩)
  else (.error (Fault.globalOfOtherType name binding.ty ty).report, { named with engine })

def perform (run : Run ScopedValue) : Except Diagnostic (ScopedValue × NamedEngine) :=
  (named.engine.perform run).map fun made => (made.1, { named with engine := made.2 })

def runCode (host : ScopedHost) (key : Nat) (target : ScopedValue) (args : List ScopedValue) :
    Except Diagnostic (ScopedValue × NamedEngine) :=
  match host key target args named.engine.supply with
  | .ok (value, supply) => .ok (value, { named with engine := { named.engine with supply } })
  | .error message => .error (Fault.host message).report

/-- The unit of a form: what is known at its place, and the values that the root names have now. -/
def unit (form : Form) : NamedUnit :=
  ⟨⟨named.engine.elaborator, named.engine.root, 0, named.engine.supply⟩, form,
    ⟨named.scope, [named.globals]⟩⟩

/-- The engine by names as a machine. A form is compiled as soon as elaboration accepts it. -/
def machine (host : ScopedHost) : Machine NamedEngine NamedUnit ScopedValue where
  configure registry heads options named :=
    { named with engine := { named.engine with registry, heads, options } }
  declare name ty named := { named with engine := (named.engine.declare name ty).2 }
  define name value named :=
    let (outcome, named) := named.defining name value
    (outcome.map fun _ => (), named)
  compile form named :=
    let (outcome, engine) := named.engine.compilingForm form
    (outcome.map fun _ => named.unit form, { named with engine })
  datum := .datum
  code key target args named := named.runCode host key target args
  run unit named := named.perform (host.evaluate unit.place unit.scopes unit.form)
  call value args named :=
    match value with
    | .function routine scopes => some (named.perform (host.call routine scopes args))
    | _ => none

end NamedEngine

end ExprLang
