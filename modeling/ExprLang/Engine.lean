import ExprLang.Eval.Evaluate
import ExprLang.Extract
import ExprLang.Form.Reader

/-!
# The engine

The entry point of a host. An engine holds the types, the heads, the root scope, the values of the
globals, the options and the code of the host. Each operation answers a new engine or leaves the
engine as it is. What an engine compiles is a unit, which keeps the types and the globals of the
moment; a later change of the engine does not reach it.
-/

namespace ExprLang

/-- How an engine reads and types: the name of in-memory sources, whether closers have to match
their openers, and how deep forms may nest. -/
structure Options where
  sourceName : String := "<input>"
  strict : Bool := false
  maxDepth : Nat := 256
  deriving DecidableEq, Inhabited, Repr

structure Declaration where
  name : String
  base : Option Ty := none
  constructors : List (List Ty × Callback) := []
  indexers : List (List Ty × Ty × Callback) := []

/-- A compiled expression with the types and the globals that it was compiled under. -/
structure CompiledUnit where
  root : Expr
  frame : Frame Value
  registry : Registry

structure Engine where
  registry : Registry := {}
  heads : HeadTable := .standard
  root : Scope := {}
  globals : Frame Value := .empty 0
  options : Options := {}
  host : Host := {}
  /-- The next unused identity. -/
  supply : Nat := 1

/-- Why an operation with files failed. -/
inductive Failure where
  | report (diagnostic : Diagnostic)
  | file (message : String)
  deriving DecidableEq, Repr

def Failure.render : Failure → String
  | .report diagnostic => diagnostic.render
  | .file message => s!"I/O error: {message}"

abbrev FileContent := Except String ByteArray

def FileContent.missing : FileContent :=
  .error "No such file or directory (os error 2)"

/-- The text in a file, which has to be valid UTF-8. -/
def FileContent.text : FileContent → Except Failure String
  | .error message => .error (.file message)
  | .ok bytes =>
    match String.fromUTF8? bytes with
    | some text => .ok text
    | none => .error (.file "stream did not contain valid UTF-8")

namespace Engine

instance : Inhabited Engine := ⟨{}⟩

def withOptions (options : Options) : Engine :=
  { options }

/-! ## Configuration -/

/-- Makes a name usable as a type name. -/
def defineKeyword (engine : Engine) (name : String) (ty : Ty) : Engine :=
  { engine with registry := engine.registry.defineKeyword name ty }

def defineHead (engine : Engine) (name : String) (head : Head) : Engine :=
  { engine with heads := engine.heads.insert name head }

/-- Gives a name the head of another name. Answers whether that name has one. -/
def defineAlias (engine : Engine) (name existing : String) : Bool × Engine :=
  match engine.heads.withAlias? name existing with
  | some heads => (true, { engine with heads })
  | none => (false, engine)

/-- Stores the code of constructors and answers their signatures. -/
def addConstructors (host : Host) : List (List Ty × Callback) → List Constructor × Host
  | [] => ([], host)
  | (params, callback) :: rest =>
    let (key, host) := host.add callback
    let (constructors, host) := addConstructors host rest
    (⟨params, key⟩ :: constructors, host)

def addIndexers (host : Host) : List (List Ty × Ty × Callback) → List HostIndexer × Host
  | [] => ([], host)
  | (params, result, callback) :: rest =>
    let (key, host) := host.add callback
    let (indexers, host) := addIndexers host rest
    (⟨params, result, key⟩ :: indexers, host)

def register (engine : Engine) (declaration : Declaration) : Engine :=
  let (constructors, host) := addConstructors engine.host declaration.constructors
  let (indexers, host) := addIndexers host declaration.indexers
  { engine with
    registry := engine.registry.register
      ⟨declaration.name, declaration.base, constructors, indexers⟩
    host }

/-- Defines a root name without giving it a value. -/
def declare (engine : Engine) (name : String) (ty : Ty) : Binding × Engine :=
  let (binding, root) := engine.root.define engine.supply name ty
  (binding, { engine with root, supply := engine.supply + 1 })

/-- Defines a root name and gives it a value in all units that are compiled from now on. A name
keeps the type of its first definition, so a later value has to be assignable to that. -/
def defineGlobal (engine : Engine) (name : String) (value : Value) :
    Except Diagnostic (Binding × Engine) :=
  let ty := value.ty?.getD .object
  let (binding, engine) := engine.declare name ty
  if engine.registry.isAssignable ty binding.ty then
    .ok (binding, { engine with
      globals := engine.globals.set engine.supply binding.id value
      supply := engine.supply + 1 })
  else .error (Fault.globalOfOtherType name binding.ty ty).report

/-! ## Reading and compiling -/

def reader (engine : Engine) (file : String) : Reader :=
  ⟨file, engine.options.strict, engine.options.maxDepth⟩

/-- Reads a text that has to hold exactly one form. -/
def read (engine : Engine) (source : String) : Except Diagnostic Form :=
  (engine.reader engine.options.sourceName).readOnly source

def elaborator (engine : Engine) : Elaborator :=
  ⟨engine.registry, engine.heads, engine.options.maxDepth⟩

/-- Compiles a form. A failure answers its report alone. -/
def compileForm (engine : Engine) (form : Form) : Except Diagnostic (CompiledUnit × Engine) := do
  let (root, supply) ← (engine.elaborator.elaborate engine.root form).run engine.supply
  return (⟨root, engine.globals, engine.registry⟩, { engine with supply })

def compile (engine : Engine) (source : String) : Except Diagnostic (CompiledUnit × Engine) := do
  let form ← engine.read source
  engine.compileForm form

/-- Compiles a form, and answers the engine also if that fails: what was drawn before is gone. -/
def compilingForm (engine : Engine) (form : Form) : Except Diagnostic CompiledUnit × Engine :=
  let (outcome, supply) := engine.elaborator.elaborating engine.root form engine.supply
  (outcome.map fun root => ⟨root, engine.globals, engine.registry⟩, { engine with supply })

/-- Compiles a text that holds one form, and answers the engine also if that fails. -/
def compiling (engine : Engine) (source : String) : Except Diagnostic CompiledUnit × Engine :=
  match engine.read source with
  | .ok form => engine.compilingForm form
  | .error report => (.error report, engine)

/-! ## Running -/

def perform {α : Type} (engine : Engine) (run : Run α) : Except Diagnostic (α × Engine) := do
  let (result, supply) ← run.run engine.supply
  return (result, { engine with supply })

def invoke (engine : Engine) (unit : CompiledUnit) : Except Diagnostic (Value × Engine) :=
  engine.perform ((Setting.mk unit.registry engine.host).evaluate unit.frame unit.root)

/-- Runs a unit whose static type is assignable to an expected type. -/
def execute (engine : Engine) (unit : CompiledUnit) (expected : Ty) :
    Except Diagnostic (Value × Engine) :=
  if unit.registry.isAssignable unit.root.ty expected then engine.invoke unit
  else faultAt unit.root.loc (.resultIncompatible unit.root.ty expected)

/-- Runs a unit and extracts data of a shape from its value. -/
def extract (engine : Engine) (unit : CompiledUnit) (shape : Shape) :
    Except Diagnostic (Extracted × Engine) :=
  if shape.accepts unit.root.ty then do
    let (value, engine) ← engine.invoke unit
    match shape.extract value with
    | some data => return (data, engine)
    | none => faultAt unit.root.loc (.resultOfOtherType value.typeName shape.name)
  else faultAt unit.root.loc (.resultUnobtainable unit.root.ty shape.name)

def call (engine : Engine) (closure : Closure Value) (args : List Value) :
    Except Diagnostic (Value × Engine) :=
  engine.perform (closure.call engine.host args)

def runForm (engine : Engine) (form : Form) : Except Diagnostic (Value × Engine) := do
  let (unit, engine) ← engine.compileForm form
  engine.invoke unit

/-- Compiles and runs forms in order, up to the first failure. -/
def runForms (engine : Engine) : List Form → Except Diagnostic (List Value × Engine)
  | [] => return ([], engine)
  | form :: rest => do
    let (value, engine) ← engine.runForm form
    let (values, engine) ← engine.runForms rest
    return (value :: values, engine)

/-! ## Files -/

def formsOfFile (engine : Engine) (name : String) (content : FileContent) :
    Except Failure (List Form) := do
  let text ← content.text
  ((engine.reader name).readAll text).mapError .report

def runFile (engine : Engine) (name : String) (content : FileContent) :
    Except Failure (List Value × Engine) := do
  let forms ← engine.formsOfFile name content
  (engine.runForms forms).mapError .report

end Engine

end ExprLang
