/-!
# Static types

The types of expressions and values: primitive types, lists, maps, functions and the types that a
host declares by name. The classes of types that operators ask for are predicates on them.
-/

namespace ExprLang

inductive IntKind where
  | int | uint | long | ulong
  deriving DecidableEq, Repr

namespace IntKind

def bits : IntKind → Nat
  | .int | .uint => 32
  | .long | .ulong => 64

def signed : IntKind → Bool
  | .int | .long => true
  | .uint | .ulong => false

def name : IntKind → String
  | .int => "int"
  | .uint => "uint"
  | .long => "long"
  | .ulong => "ulong"

end IntKind

/-- The types that are not built from others and not declared by a host. -/
inductive Prim where
  | object | bool | char | byte
  | integer (kind : IntKind)
  | float | double | decimal | string
  | type
  deriving DecidableEq, Repr

def Prim.name : Prim → String
  | .object => "object"
  | .bool => "bool"
  | .char => "char"
  | .byte => "byte"
  | .integer kind => kind.name
  | .float => "float"
  | .double => "double"
  | .decimal => "decimal"
  | .string => "string"
  | .type => "type"

inductive Ty where
  | prim (basic : Prim)
  | list (element : Ty)
  | map (key value : Ty)
  | func (params : List Ty) (result : Ty)
  | named (name : String)
  deriving Inhabited, Repr

namespace Ty

@[match_pattern] abbrev object : Ty := .prim .object
@[match_pattern] abbrev bool : Ty := .prim .bool
@[match_pattern] abbrev char : Ty := .prim .char
@[match_pattern] abbrev byte : Ty := .prim .byte
@[match_pattern] abbrev integer (kind : IntKind) : Ty := .prim (.integer kind)
@[match_pattern] abbrev int : Ty := .integer .int
@[match_pattern] abbrev uint : Ty := .integer .uint
@[match_pattern] abbrev long : Ty := .integer .long
@[match_pattern] abbrev ulong : Ty := .integer .ulong
@[match_pattern] abbrev float : Ty := .prim .float
@[match_pattern] abbrev double : Ty := .prim .double
@[match_pattern] abbrev decimal : Ty := .prim .decimal
@[match_pattern] abbrev string : Ty := .prim .string
@[match_pattern] abbrev type : Ty := .prim .type

mutual

def decEq : (a b : Ty) → Decidable (a = b)
  | .prim a, .prim b =>
    if same : a = b then isTrue (same ▸ rfl) else isFalse fun eq => same (Ty.prim.inj eq)
  | .list a, .list b =>
    match decEq a b with
    | isTrue same => isTrue (same ▸ rfl)
    | isFalse differ => isFalse fun eq => differ (Ty.list.inj eq)
  | .map a b, .map c d =>
    match decEq a c, decEq b d with
    | isTrue left, isTrue right => isTrue (left ▸ right ▸ rfl)
    | isFalse differ, _ => isFalse fun eq => differ (Ty.map.inj eq).1
    | _, isFalse differ => isFalse fun eq => differ (Ty.map.inj eq).2
  | .func ps r, .func qs s =>
    match decEqAll ps qs, decEq r s with
    | isTrue left, isTrue right => isTrue (left ▸ right ▸ rfl)
    | isFalse differ, _ => isFalse fun eq => differ (Ty.func.inj eq).1
    | _, isFalse differ => isFalse fun eq => differ (Ty.func.inj eq).2
  | .named a, .named b =>
    if same : a = b then isTrue (same ▸ rfl) else isFalse fun eq => same (Ty.named.inj eq)
  | .prim _, .list _ | .prim _, .map _ _ | .prim _, .func _ _ | .prim _, .named _
  | .list _, .prim _ | .list _, .map _ _ | .list _, .func _ _ | .list _, .named _
  | .map _ _, .prim _ | .map _ _, .list _ | .map _ _, .func _ _ | .map _ _, .named _
  | .func _ _, .prim _ | .func _ _, .list _ | .func _ _, .map _ _ | .func _ _, .named _
  | .named _, .prim _ | .named _, .list _ | .named _, .map _ _ | .named _, .func _ _ =>
    isFalse nofun
termination_by structural a => a

def decEqAll : (as bs : List Ty) → Decidable (as = bs)
  | [], [] => isTrue rfl
  | a :: as, b :: bs =>
    match decEq a b, decEqAll as bs with
    | isTrue left, isTrue right => isTrue (left ▸ right ▸ rfl)
    | isFalse differ, _ => isFalse fun eq => differ (List.cons.inj eq).1
    | _, isFalse differ => isFalse fun eq => differ (List.cons.inj eq).2
  | [], _ :: _ | _ :: _, [] => isFalse nofun
termination_by structural as => as

end

instance : DecidableEq Ty := decEq

mutual

/-- The text of a type: `list<int>`, `map<int, string>`, `func<int, bool>` with the result last. -/
def render : Ty → String
  | .prim basic => basic.name
  | .list element => s!"list<{element.render}>"
  | .map key value => s!"map<{key.render}, {value.render}>"
  | .func params result => s!"func<{renderParams params}{result.render}>"
  | .named name => name

def renderParams : List Ty → String
  | [] => ""
  | param :: rest => s!"{param.render}, {renderParams rest}"

end

def renderAll (types : List Ty) : String :=
  ", ".intercalate (types.map render)

/-- Value types have no `null` and are compared by value. -/
def isValueType : Ty → Bool
  | .prim .object | .prim .string | .prim .type => false
  | .prim _ => true
  | _ => false

/-- The integer types with arithmetic. -/
def isInteger : Ty → Bool
  | .integer _ => true
  | _ => false

/-- Types with arithmetic and ordering operators. -/
def isArithmetic : Ty → Bool
  | .integer _ | .float | .double | .decimal => true
  | _ => false

/-- Types that take part in explicit numeric conversions. -/
def isConvertibleNumeric : Ty → Bool
  | .byte | .char => true
  | ty => ty.isArithmetic

end Ty

end ExprLang
