import ExprLang.Text.Table
import ExprLang.Ty

/-!
# Host types

A host declares named types: the base of each, and the signatures of its constructors and indexers.
The registry keeps the declarations and the names that are usable as type names. Assignability is
identity, anything to `object`, and a host type to whatever lies on its chain of bases. The walk
along the chain is bounded, because nothing stops a host from declaring a chain that returns to
itself.
-/

namespace ExprLang

structure Constructor where
  params : List Ty
  callback : Nat
  deriving Inhabited, Repr

structure HostIndexer where
  params : List Ty
  result : Ty
  callback : Nat
  deriving Inhabited, Repr

/-- The declaration of a host type. A type without a declared base has the base `object`. -/
structure HostType where
  name : String
  base : Option Ty := none
  constructors : List Constructor := []
  indexers : List HostIndexer := []
  deriving Inhabited, Repr

inductive Indexer where
  | listElement (element : Ty)
  | mapEntry (key value : Ty)
  | stringChar
  | host (indexer : HostIndexer)
  deriving Inhabited, Repr

namespace Indexer

def params : Indexer → List Ty
  | .listElement _ | .stringChar => [.int]
  | .mapEntry key _ => [key]
  | .host indexer => indexer.params

def result : Indexer → Ty
  | .listElement element => element
  | .mapEntry _ value => value
  | .stringChar => .char
  | .host indexer => indexer.result

end Indexer

/-- The type names that need no declaration. The name `type` is not among them. -/
def builtinTypeNames : List (String × Ty) :=
  [("bool", .bool), ("char", .char), ("int", .int), ("long", .long), ("byte", .byte),
   ("double", .double), ("decimal", .decimal), ("string", .string), ("object", .object),
   ("uint", .uint), ("ulong", .ulong), ("float", .float)]

structure Registry where
  keywords : Table Ty := ⟨builtinTypeNames⟩
  types : Table HostType := {}

namespace Registry

instance : Inhabited Registry := ⟨{}⟩

variable (registry : Registry)

/-- Makes a name usable wherever a type name is expected. -/
def defineKeyword (name : String) (ty : Ty) : Registry :=
  { registry with keywords := registry.keywords.insert name ty }

def register (declaration : HostType) : Registry where
  keywords := registry.keywords.insert declaration.name (.named declaration.name)
  types := registry.types.insert declaration.name declaration

def resolve? (name : String) : Option Ty :=
  registry.keywords.get? name

/-- The base of a type: `object` has none, a host type the declared one, and all else `object`. -/
def base? : Ty → Option Ty
  | .object => none
  | .named name => some (((registry.types.get? name).bind (·.base)).getD .object)
  | _ => some .object

/-- Whether a chain of at most a number of bases leads from one type to another. -/
def reaches (target : Ty) : Nat → Ty → Bool
  | 0, _ => false
  | steps + 1, source =>
    match registry.base? source with
    | none => false
    | some base => base == target || reaches target steps base

/-- Whether a value of one type can stand where another is asked for. -/
def isAssignable (source target : Ty) : Bool :=
  source == target || target == .object ||
    registry.reaches target (registry.types.size + 1) source

def areAssignable (sources targets : List Ty) : Bool :=
  sources.length == targets.length &&
    (sources.zip targets).all fun pair => registry.isAssignable pair.1 pair.2

def indexers : Ty → List Indexer
  | .list element => [.listElement element]
  | .map key value => [.mapEntry key value]
  | .string => [.stringChar]
  | .named name =>
    ((registry.types.get? name).map fun declaration => declaration.indexers.map .host).getD []
  | _ => []

def constructors : Ty → List Constructor
  | .named name => ((registry.types.get? name).map (·.constructors)).getD []
  | _ => []

end Registry

end ExprLang
