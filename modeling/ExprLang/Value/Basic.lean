import ExprLang.Expr.Basic

/-!
# Values

What expressions evaluate to. Lists, maps, functions and host objects have identities, drawn from
the same supply as those of bindings. A list or map keeps the types it was made for, which its
contents need not match when a host made it.
-/

namespace ExprLang

/-- Values by binding, the innermost first, with the identity of the frame. A frame extended for a
call holds the slots of the frame it extends behind its own. -/
structure Frame (V : Type) where
  id : Nat
  slots : List (Nat × V)

/-- A function value: a lambda with the frame and the types that it was evaluated under. -/
structure Closure (V : Type) where
  lambda : Nat
  params : List Binding
  body : Expr
  ty : Ty
  frame : Frame V
  registry : Registry

inductive Value where
  | datum (datum : Datum)
  | list (id : Nat) (element : Ty) (items : List Value)
  | map (id : Nat) (key value : Ty) (entries : List (Value × Value))
  | function (closure : Closure Value)
  | object (id : Nat) (typeName : String) (slots : List Value)

namespace Frame

variable {V : Type}

def empty (id : Nat) : Frame V :=
  ⟨id, []⟩

def lookup (frame : Frame V) (binding : Nat) : Option V :=
  frame.slots.lookup binding

/-- The frame of a call: the values of the parameters in front of the frame they are added to. -/
def extend (frame : Frame V) (id : Nat) (slots : List (Nat × V)) : Frame V :=
  ⟨id, slots ++ frame.slots⟩

def setSlot (binding : Nat) (value : V) : List (Nat × V) → List (Nat × V)
  | [] => [(binding, value)]
  | slot :: rest =>
    if slot.1 = binding then (binding, value) :: rest else slot :: setSlot binding value rest

/-- The frame with a binding given a value, under a new identity. -/
def set (frame : Frame V) (id binding : Nat) (value : V) : Frame V :=
  ⟨id, setSlot binding value frame.slots⟩

end Frame

def Closure.arity {V : Type} (closure : Closure V) : Nat :=
  closure.params.length

namespace Value

@[match_pattern] abbrev null : Value := .datum .null
@[match_pattern] abbrev bool (b : Bool) : Value := .datum (.bool b)
@[match_pattern] abbrev string (text : String) : Value := .datum (.string text)

instance : Inhabited Value := ⟨.null⟩

def isNull : Value → Bool
  | .null => true
  | _ => false

/-- The type that a value has when it is looked at; null has none. -/
def ty? : Value → Option Ty
  | .datum leaf => leaf.ty?
  | .list _ element _ => some (.list element)
  | .map _ key value _ => some (.map key value)
  | .function closure => some closure.ty
  | .object _ typeName _ => some (.named typeName)

theorem eq_null_of_ty? {value : Value} (shown : value.ty? = none) : value = .null := by
  cases value with
  | datum leaf => cases leaf <;> first | rfl | cases shown
  | list | map | function | object => cases shown

def typeName (value : Value) : String :=
  match value.ty? with
  | some ty => ty.render
  | none => "null"

def string? : Value → Option String
  | .string text => some text
  | _ => none

end Value

end ExprLang
