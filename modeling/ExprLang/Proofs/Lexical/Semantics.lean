import ExprLang.Engine

/-!
# Meaning by names

What a form means, told without identities of bindings. Evaluation walks the form itself and
carries a stack of scopes, each a list of names with values. An atom that is no constant stands for
the value of its name in the innermost scope that has one, and the outermost scope holds the values
of the root names. A function keeps the form of its body together with the scopes that it was made
in; a call puts one scope for the parameters in front of them.

Only what is known before anything runs is asked of elaboration: the static types that choose an
indexer, a constructor, a conversion or the type of a literal, and the location that a report names.
The bindings in an elaborated expression are never looked at.
-/

namespace ExprLang

/-! ## Scopes and values -/

/-- Values by name, the innermost scope first, with the identity of the stack. -/
structure Scopes (V : Type) where
  id : Nat
  levels : List (List (String × V))

namespace Scopes

variable {V : Type}

def lookup (scopes : Scopes V) (name : String) : Option V :=
  scopes.levels.findSome? (·.lookup name)

/-- The scopes of a call: one more in front. -/
def extend (scopes : Scopes V) (id : Nat) (level : List (String × V)) : Scopes V :=
  ⟨id, level :: scopes.levels⟩

end Scopes

/-- A place in a tree of forms and what elaboration knows there: the names in scope, the depth of
nesting and the next identity. -/
structure Place where
  elaborator : Elaborator
  scope : Scope
  depth : Nat
  next : Nat

namespace Place

/-- What elaboration makes of a form at a place. -/
def elaborated (place : Place) (form : Form) : Except Diagnostic (Expr × Nat) :=
  place.elaborator.elaborateAt place.scope place.depth form place.next

/-- The static type of a form and the location that reports about it name. -/
def node (place : Place) (form : Form) : Node :=
  match place.elaborated form with
  | .ok (expr, _) => expr.node
  | .error _ => ⟨.object, form.loc⟩

def behind (place : Place) (form : Form) : Place :=
  match place.elaborated form with
  | .ok (_, later) => { place with next := later }
  | .error _ => place

/-- The place of the first part of a form. -/
def inside (place : Place) : Place :=
  { place with depth := place.depth + 1 }

def types (place : Place) : List Form → List Ty
  | [] => []
  | form :: rest => (place.node form).ty :: types (place.behind form) rest

/-- The names and types of the parameters that a form declares, and the place of the body. -/
def params (place : Place) (form : Form) : Except Diagnostic (List (String × Ty) × Place) :=
  match place.elaborator.paramList place.scope form place.next with
  | .ok ((bindings, inner), later) =>
    .ok (bindings.map fun binding => (binding.name, binding.ty),
      { place with scope := inner, next := later })
  | .error report => .error report

end Place

/-- The code of a function as it is written: its parameters and the form of its body, with the place
of that. -/
structure Routine where
  lambda : Nat
  params : List (String × Ty)
  body : Form
  place : Place
  ty : Ty

/-- A value whose functions are forms with the scopes that they were made in. -/
inductive ScopedValue where
  | datum (datum : Datum)
  | list (id : Nat) (element : Ty) (items : List ScopedValue)
  | map (id : Nat) (key value : Ty) (entries : List (ScopedValue × ScopedValue))
  | function (routine : Routine) (scopes : Scopes ScopedValue)
  | object (id : Nat) (typeName : String) (slots : List ScopedValue)

/-! ## What can be seen of a value -/

/-- A function of which nothing is known but its identity and its type. -/
def Closure.seen (lambda : Nat) (ty : Ty) (frame : Nat) : Closure Value :=
  ⟨lambda, [], default, ty, .empty frame, {}⟩

namespace Value

mutual

/-- A value without the code and the frames of its functions. -/
def outline : Value → Value
  | .datum leaf => .datum leaf
  | .list id element items => .list id element (outlineAll items)
  | .map id key value entries => .map id key value (outlineEntries entries)
  | .function closure => .function (.seen closure.lambda closure.ty closure.frame.id)
  | .object id typeName slots => .object id typeName (outlineAll slots)
termination_by structural value => value

def outlineAll : List Value → List Value
  | [] => []
  | value :: rest => outline value :: outlineAll rest
termination_by structural values => values

def outlineEntries : List (Value × Value) → List (Value × Value)
  | [] => []
  | (key, value) :: rest => (outline key, outline value) :: outlineEntries rest
termination_by structural entries => entries

end

end Value

namespace ScopedValue

@[match_pattern] abbrev null : ScopedValue := .datum .null
@[match_pattern] abbrev bool (b : Bool) : ScopedValue := .datum (.bool b)

mutual

/-- What can be seen of a value: all but the code and the scopes of its functions. -/
def outline : ScopedValue → Value
  | .datum leaf => .datum leaf
  | .list id element items => .list id element (outlineAll items)
  | .map id key value entries => .map id key value (outlineEntries entries)
  | .function routine scopes => .function (.seen routine.lambda routine.ty scopes.id)
  | .object id typeName slots => .object id typeName (outlineAll slots)
termination_by structural value => value

def outlineAll : List ScopedValue → List Value
  | [] => []
  | value :: rest => outline value :: outlineAll rest
termination_by structural values => values

def outlineEntries : List (ScopedValue × ScopedValue) → List (Value × Value)
  | [] => []
  | (key, value) :: rest => (outline key, outline value) :: outlineEntries rest
termination_by structural entries => entries

end

def isInstance (registry : Registry) (value : ScopedValue) (target : Ty) : Bool :=
  match value.outline.ty? with
  | some actual => registry.isAssignable actual target
  | none => false

def findEntry? (key : ScopedValue) (entries : List (ScopedValue × ScopedValue)) :
    Option ScopedValue :=
  (entries.find? fun entry => key.outline.same entry.1.outline).map (·.2)

def unary (op : UnaryOp) (value : ScopedValue) : Except Fault ScopedValue :=
  match value with
  | .datum leaf =>
    match op.applyDatum leaf with
    | some result => result.map .datum
    | none => .error (op.inapplicable value.outline)
  | _ => .error (op.inapplicable value.outline)

def binary (op : BinaryOp) (left right : ScopedValue) : Except Fault ScopedValue :=
  match op with
  | .equal => .ok (.bool (left.outline.equal right.outline))
  | .notEqual => .ok (.bool !(left.outline.equal right.outline))
  | .coalesce => .ok (if left.outline.isNull then right else left)
  | _ =>
    match left, right with
    | .datum a, .datum b =>
      match op.applyData a b with
      | some result => result.map .datum
      | none => .error (op.inapplicable left.outline right.outline)
    | _, _ => .error (op.inapplicable left.outline right.outline)

def numeric (value : ScopedValue) (target : Ty) : Except Fault ScopedValue :=
  match value with
  | .datum leaf => (Convert.numeric leaf target).map .datum
  | _ => .error (.conversionFailed value.outline.text target)

/-- Converts a value from the static type of its form to another type. -/
def convert (registry : Registry) (value : ScopedValue) (source target : Ty) :
    Except Fault ScopedValue :=
  match value.outline.ty? with
  | none => if target.isValueType then .error (.nullToValueType target) else .ok .null
  | some actual =>
    if source.isConvertibleNumeric && target.isConvertibleNumeric then value.numeric target
    else if registry.isAssignable actual target then .ok value
    else .error (.castFailed actual target)

end ScopedValue

/-! ## Evaluation -/

/-- Code of a host, by key, on values whose functions are forms. -/
abbrev ScopedHost := Nat → ScopedValue → List ScopedValue → StateT Nat (Except String) ScopedValue

namespace ScopedHost

variable (host : ScopedHost)

def run (loc : Location) (key : Nat) (target : ScopedValue) (args : List ScopedValue) :
    Run ScopedValue :=
  fun next =>
    match host key target args next with
    | .ok result => .ok result
    | .error message => faultAt loc (.host message)

def index (loc : Location) (indexer : Indexer) (target : ScopedValue) (args : List ScopedValue) :
    Run ScopedValue :=
  if target.outline.isNull then faultAt loc .nullTarget
  else
    match indexer, target, args with
    | .listElement _, .list _ _ items, [.datum (.int word)] =>
      match (Setting.position? word).bind (items[·]?) with
      | some item => return item
      | none => faultAt loc (.listIndex word.toInt items.length)
    | .mapEntry _ _, .map _ _ _ entries, [key] =>
      match key.findEntry? entries with
      | some value => return value
      | none => faultAt loc (.keyMissing key.outline.text)
    | .stringChar, .datum (.string text), [.datum (.int word)] =>
      match (Setting.position? word).bind (text.toList[·]?) with
      | some c => return .datum (.char c)
      | none => faultAt loc (.stringIndex word.toInt text)
    | .host indexer, target, args => host.run loc indexer.callback target args
    | _, _, _ => faultAt loc (.indexerInapplicable target.outline.typeName)

mutual

/-- The value of a form at a place, in scopes. A form that elaboration rejects has none. -/
def evaluate (place : Place) (scopes : Scopes ScopedValue) : Form → Run ScopedValue
  | .atom text loc =>
    match Literal.constant? text with
    | .error fault => faultAt loc fault
    | .ok (some (datum, _)) => return .datum datum
    | .ok none =>
      match scopes.lookup text with
      | some value => return value
      | none => faultAt loc (.valueless text)
  | .combo bracket children loc =>
    let registry := place.elaborator.registry
    let inside := place.inside
    match bracket, children with
    | .square, forms => do
      let element ← Typing.elementTy registry loc (inside.types forms)
      let items ← evaluateAll inside scopes forms
      let id ← freshId
      return .list id element items
    | .curly, forms => do
      let types := pairs (inside.types forms)
      let key ← Typing.elementTy registry loc (types.map (·.1))
      let value ← Typing.elementTy registry loc (types.map (·.2))
      let entries ← evaluateEntries inside scopes [] forms
      let id ← freshId
      return .map id key value entries
    | .paren, .atom name _ :: operands =>
      match place.elaborator.heads.get? name, operands with
      | some (.unary op), [form] => do
        let value ← evaluate inside scopes form
        Setting.locate loc (value.unary op)
      | some (.binary op), [left, right] => do
        let value ← evaluate inside scopes left
        if op.isDecided value.outline then return value
        else do
          let other ← evaluate (inside.behind left) scopes right
          Setting.locate loc (value.binary op other)
      | some (.nary op), first :: rest => do
        let value ← evaluate inside scopes first
        evaluateChain (inside.behind first) scopes loc op value rest
      | some .conditional, [condition, yes, no] => do
        let value ← evaluate inside scopes condition
        let behind := inside.behind condition
        match value with
        | .bool true => evaluate behind scopes yes
        | .bool false => evaluate (behind.behind yes) scopes no
        | other =>
          faultAt (inside.node condition).loc (.conditionValue other.outline.typeName)
      | some .index, target :: args => do
        let behind := inside.behind target
        let ty := (inside.node target).ty
        let types := behind.types args
        match (registry.indexers ty).find? fun indexer =>
            registry.areAssignable types indexer.params with
        | none => faultAt loc (.noIndexer ty types)
        | some indexer => do
          let value ← evaluate inside scopes target
          let values ← evaluateAll behind scopes args
          host.index loc indexer value values
      | some .typeIs, [tyForm, form] => do
        let target ← place.elaborator.typeName tyForm
        let value ← evaluate inside scopes form
        return .bool (value.isInstance registry target)
      | some .typeAs, [tyForm, form] => do
        let target ← place.elaborator.typeName tyForm
        let value ← evaluate inside scopes form
        return if value.isInstance registry target then value else .null
      | some .cast, [tyForm, form] => do
        let target ← place.elaborator.typeName tyForm
        let value ← evaluate inside scopes form
        Setting.locate loc (value.convert registry (inside.node form).ty target)
      | some .typeOf, [tyForm] => do
        let target ← place.elaborator.typeName tyForm
        return .datum (.type target)
      | some .defaultOf, [tyForm] => do
        let target ← place.elaborator.typeName tyForm
        return .datum (Datum.defaultOf target)
      | some .construct, tyForm :: args => do
        let ty ← place.elaborator.typeName tyForm
        let types := inside.types args
        match (registry.constructors ty).find? fun constructor => constructor.params == types with
        | none => faultAt loc (.noConstructor ty types)
        | some constructor => do
          let values ← evaluateAll inside scopes args
          host.run loc constructor.callback .null values
      | some .lambda, [paramsForm, body] => do
        let (params, place) ← inside.params paramsForm
        let ty : Ty := .func (params.map (·.2)) (place.node body).ty
        return .function ⟨(place.behind body).next, params, body, place, ty⟩ scopes
      | _, _ => faultAt loc (.unknownHead name)
    | .paren, _ => faultAt loc .headNotAtom
termination_by structural form => form

def evaluateAll (place : Place) (scopes : Scopes ScopedValue) : List Form → Run (List ScopedValue)
  | [] => return []
  | form :: rest => do
    let value ← evaluate place scopes form
    let values ← evaluateAll (place.behind form) scopes rest
    return value :: values
termination_by structural forms => forms

def evaluateEntries (place : Place) (scopes : Scopes ScopedValue)
    (before : List (ScopedValue × ScopedValue)) :
    List Form → Run (List (ScopedValue × ScopedValue))
  | keyForm :: valueForm :: rest => do
    let key ← evaluate place scopes keyForm
    let behind := place.behind keyForm
    let value ← evaluate behind scopes valueForm
    if (key.findEntry? before).isSome then
      faultAt (place.node keyForm).loc (.keyRepeated key.outline.text)
    else evaluateEntries (behind.behind valueForm) scopes (before ++ [(key, value)]) rest
  | _ => return before
termination_by structural forms => forms

/-- The value of an operator over a value and further forms, from the left. -/
def evaluateChain (place : Place) (scopes : Scopes ScopedValue) (loc : Location) (op : BinaryOp)
    (value : ScopedValue) : List Form → Run ScopedValue
  | [] => return value
  | form :: rest =>
    if op.isDecided value.outline then return value
    else do
      let other ← evaluate place scopes form
      let result ← Setting.locate loc (value.binary op other)
      evaluateChain (place.behind form) scopes loc op result rest
termination_by structural forms => forms

end

section Atoms

variable {place : Place} {scopes : Scopes ScopedValue} {text : String} {loc : Location}

theorem evaluate_constant {datum : Datum} {ty : Ty}
    (literal : Literal.constant? text = .ok (some (datum, ty))) :
    host.evaluate place scopes (.atom text loc) = pure (.datum datum) := by
  unfold evaluate
  rw [literal]

/-- An atom that is no constant stands for the value of its name. -/
theorem evaluate_name (name : Literal.constant? text = .ok none) :
    host.evaluate place scopes (.atom text loc) =
      match scopes.lookup text with
      | some value => pure value
      | none => liftM (faultAt loc (.valueless text) : Except Diagnostic ScopedValue) := by
  unfold evaluate
  rw [name]

end Atoms

def admits (registry : Registry) (ty : Ty) (arg : ScopedValue) : Bool :=
  match arg.outline.ty? with
  | none => !ty.isValueType
  | some actual => registry.isAssignable actual ty

/-- Calls a function: checks the number and the types of the arguments, and evaluates the body with
the names of the parameters in a scope in front of those that the function was made in. -/
def call (routine : Routine) (scopes : Scopes ScopedValue) (args : List ScopedValue) :
    Run ScopedValue := do
  let loc := (routine.place.node routine.body).loc
  if args.length ≠ routine.params.length then
    faultAt loc (.argumentCount routine.params.length args.length)
  else
    match (routine.params.zip args).find? fun pair =>
        !admits routine.place.elaborator.registry pair.1.2 pair.2 with
    | some (param, arg) => faultAt loc (.argumentType param.1 param.2 arg.outline.typeName)
    | none => do
      let id ← freshId
      let level := (routine.params.map (·.1)).zip args
      host.evaluate routine.place (scopes.extend id level) routine.body

end ScopedHost

end ExprLang
