import ExprLang.Value.Same

/-!
# Typed extraction

A host asks for the result of an expression in a shape of its own: scalars, optional values, lists
and maps of shapes. A shape accepts a static type before anything runs, and extracts data from the
value afterwards. The two are separate checks: a null can stand where a shape has no room for it.
-/

namespace ExprLang

inductive Shape where
  | bool | char | byte
  | integer (kind : IntKind)
  | float | double | decimal | string | type
  /-- Any value as it is. -/
  | value
  | closure
  | option (shape : Shape)
  | vec (shape : Shape)
  | map (key value : Shape)
  deriving DecidableEq, Inhabited, Repr

inductive Extracted where
  | datum (datum : Datum)
  | value (value : Value)
  | closure (closure : Closure Value)
  | none
  | some (data : Extracted)
  | vec (items : List Extracted)
  | map (entries : List (Extracted × Extracted))

namespace Extracted

mutual

/-- Whether two data are the same key of a host map. -/
def same : Extracted → Extracted → Bool
  | .datum a, .datum b => a.same b
  | .value a, .value b => a.same b
  | .closure a, .closure b => (Value.function a).same (.function b)
  | .none, .none => true
  | .some a, .some b => same a b
  | .vec as, .vec bs => sameItems as bs
  | .map as, .map bs => as.length == bs.length && sameEntries as bs
  | _, _ => false
termination_by structural a => a

def sameItems : List Extracted → List Extracted → Bool
  | [], [] => true
  | a :: as, b :: bs => same a b && sameItems as bs
  | [], _ :: _ | _ :: _, [] => false
termination_by structural as => as

/-- Whether every entry of one list of entries has an entry with the same key and the same value in
another. -/
def sameEntries : List (Extracted × Extracted) → List (Extracted × Extracted) → Bool
  | [], _ => true
  | (key, held) :: rest, others =>
    (match others.find? fun other => same key other.1 with
      | .some other => same held other.2
      | .none => false) && sameEntries rest others
termination_by structural entries => entries

end

/-- Stores data under a key: a key that is present keeps its place and its spelling. -/
def insertEntry (key held : Extracted) :
    List (Extracted × Extracted) → List (Extracted × Extracted)
  | [] => [(key, held)]
  | entry :: rest =>
    if same key entry.1 then (entry.1, held) :: rest else entry :: insertEntry key held rest

/-- The host map with the given entries, stored in order. -/
def ofEntries (entries : List (Extracted × Extracted)) : Extracted :=
  .map (entries.foldl (fun stored entry => insertEntry entry.1 entry.2 stored) [])

end Extracted

namespace Shape

/-- The primitive type that a scalar shape stands for. -/
def scalarTy? : Shape → Option Ty
  | .bool => some .bool
  | .char => some .char
  | .byte => some .byte
  | .integer kind => some (.integer kind)
  | .float => some .float
  | .double => some .double
  | .decimal => some .decimal
  | .string => some .string
  | .type => some .type
  | _ => none

/-- Whether the values of a static type are asked for in a shape. -/
def accepts : Shape → Ty → Bool
  | .value, _ => true
  | .closure, .func _ _ => true
  | .closure, _ => false
  | .option shape, ty => shape.accepts ty
  | .vec shape, .list element => shape.accepts element
  | .vec _, _ => false
  | .map keys values, .map keyTy valueTy => keys.accepts keyTy && values.accepts valueTy
  | .map _ _, _ => false
  | scalar, ty => scalar.scalarTy? == some ty

def extract : Shape → Value → Option Extracted
  | .value, found => some (.value found)
  | .closure, .function called => some (.closure called)
  | .closure, _ => none
  | .option _, .null => some .none
  | .option shape, found => (shape.extract found).map .some
  | .vec shape, .list _ _ items => (items.mapM shape.extract).map .vec
  | .vec _, _ => none
  | .map keys values, .map _ _ _ entries =>
    (entries.mapM fun (entry : Value × Value) =>
      match keys.extract entry.1, values.extract entry.2 with
      | some key, some held => some (key, held)
      | _, _ => none).map Extracted.ofEntries
  | .map _ _, _ => none
  | scalar, .datum datum =>
    if datum.ty?.isSome && datum.ty? == scalar.scalarTy? then some (.datum datum) else none
  | _, _ => none

/-- The name under which messages speak of a shape. -/
def name : Shape → String
  | .bool => "bool"
  | .char => "char"
  | .byte => "u8"
  | .integer .int => "i32"
  | .integer .uint => "u32"
  | .integer .long => "i64"
  | .integer .ulong => "u64"
  | .float => "f32"
  | .double => "f64"
  | .decimal => "rust_decimal::decimal::Decimal"
  | .string => "alloc::string::String"
  | .type => "schwa::types::Type"
  | .value => "schwa::value::Value"
  | .closure => "schwa::value::Closure"
  | .option shape => s!"core::option::Option<{shape.name}>"
  | .vec shape => s!"alloc::vec::Vec<{shape.name}>"
  | .map keys values => s!"indexmap::map::IndexMap<{keys.name}, {values.name}>"

end Shape

end ExprLang
