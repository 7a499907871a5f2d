import ExprLang.Binary.Arithmetic
import ExprLang.Value.Basic

/-!
# Identity equality

When two values are the same key of a map. Data are compared as `Datum.same` does; lists by element
type and items; maps by their types and contents, whatever the order of the entries; functions by
lambda and frame; host objects by identity. `Value.equal` is the operator `==`, which compares
numbers numerically and lists and maps by identity.
-/

namespace ExprLang.Value

mutual

/-- Whether two values are the same key. -/
def same : Value → Value → Bool
  | .datum a, .datum b => a.same b
  | .list _ element items, .list _ element' items' => element == element' && sameItems items items'
  | .map _ key value entries, .map _ key' value' entries' =>
    key == key' && value == value' && entries.length == entries'.length &&
      sameEntries entries entries'
  | .function a, .function b => a.lambda == b.lambda && a.frame.id == b.frame.id
  | .object a _ _, .object b _ _ => a == b
  | _, _ => false
termination_by structural a => a

def sameItems : List Value → List Value → Bool
  | [], [] => true
  | a :: as, b :: bs => same a b && sameItems as bs
  | [], _ :: _ | _ :: _, [] => false
termination_by structural as => as

/-- Whether every entry of one list of entries has an entry with the same key and the same value in
another. -/
def sameEntries : List (Value × Value) → List (Value × Value) → Bool
  | [], _ => true
  | (key, value) :: rest, others =>
    (match others.find? fun other => same key other.1 with
      | some other => same value other.2
      | none => false) && sameEntries rest others
termination_by structural entries => entries

end

/-- Whether two values are equal under the operator `==`. -/
def equal : Value → Value → Bool
  | .datum (.float a), .datum (.float b) => a.equal b
  | .datum (.double a), .datum (.double b) => a.equal b
  | .list a _ _, .list b _ _ => a == b
  | .map a _ _ _, .map b _ _ _ => a == b
  | a, b => same a b

def findEntry? (key : Value) (entries : List (Value × Value)) : Option Value :=
  (entries.find? fun entry => same key entry.1).map (·.2)

/-- A lookup finds something exactly if some stored key is the same. -/
theorem isSome_findEntry?_iff {key : Value} {entries : List (Value × Value)} :
    (Value.findEntry? key entries).isSome = true ↔ ∃ entry ∈ entries, key.same entry.1 = true := by
  unfold findEntry?
  rw [Option.isSome_map, List.find?_isSome]

/-- Stores a value under a key: a key that is present keeps its place and its spelling. -/
def insertEntry (key value : Value) : List (Value × Value) → List (Value × Value)
  | [] => [(key, value)]
  | entry :: rest =>
    if same key entry.1 then (entry.1, value) :: rest else entry :: insertEntry key value rest

end ExprLang.Value
