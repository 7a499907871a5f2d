import Mathlib.Data.List.Forall2
import ExprLang.Proofs.Elaboration.Derivation
import ExprLang.Proofs.Eval.Recursion
import ExprLang.Proofs.Lexical.Semantics

/-!
# Agreement of the two kinds of values

When a value with frames keyed by identities and a value with scopes of names are the same value.
Data, lists, maps and objects agree part by part. Two functions agree if elaboration made the
expression of the one from the form of the other, in a scope whose names have the same values on
both sides (`Corresponds`). What the language and a host can see of values that agree is the same
(`Agrees.outline_eq`).
-/

namespace ExprLang

/-! ## What is seen of a value -/

namespace Value

theorem outlineEntries_eq (entries : List (Value × Value)) :
    outlineEntries entries = entries.map (Prod.map outline outline) := by
  induction entries with
  | nil => rfl
  | cons entry rest ih => rw [outlineEntries, ih, List.map_cons, Prod.map]

@[simp] theorem ty?_outline (value : Value) : value.outline.ty? = value.ty? := by
  cases value <;> rfl

@[simp] theorem typeName_outline (value : Value) : value.outline.typeName = value.typeName := by
  rw [typeName, ty?_outline, typeName]

@[simp] theorem isNull_outline (value : Value) : value.outline.isNull = value.isNull := by
  cases value <;> rfl

mutual

@[simp] theorem same_outline (first second : Value) :
    first.outline.same second.outline = first.same second := by
  match first with
  | .datum leaf => cases second <;> rfl
  | .list id element items =>
    cases second with
    | list => simp only [outline, same, sameItems_outline]
    | _ => rfl
  | .map id key value entries =>
    cases second with
    | map _ _ _ others =>
      have count (entries : List (Value × Value)) :
          (outlineEntries entries).length = entries.length := by
        rw [outlineEntries_eq, List.length_map]
      simp only [outline, same, sameEntries_outline, count]
    | _ => rfl
  | .function closure => cases second <;> rfl
  | .object id typeName slots => cases second <;> rfl
termination_by structural first

theorem sameItems_outline (first second : List Value) :
    sameItems (outlineAll first) (outlineAll second) = sameItems first second := by
  match first, second with
  | [], [] | [], _ :: _ | _ :: _, [] => rfl
  | value :: rest, other :: others =>
    simp only [outlineAll, sameItems, same_outline value, sameItems_outline rest]
termination_by structural first

theorem sameEntries_outline (first second : List (Value × Value)) :
    sameEntries (outlineEntries first) (outlineEntries second) = sameEntries first second := by
  match first with
  | [] => rfl
  | (key, value) :: rest =>
    have sameKey : ((fun other : Value × Value => same key.outline other.1) ∘
        Prod.map outline outline) = fun other => same key other.1 :=
      funext fun other => same_outline key other.1
    rw [outlineEntries, sameEntries, sameEntries, sameEntries_outline rest,
      outlineEntries_eq second, List.find?_map, sameKey]
    cases second.find? fun other => same key other.1 with
    | none => rfl
    | some other => simp only [Option.map_some, Prod.map_snd, same_outline value]
termination_by structural first

end

@[simp] theorem equal_outline (first second : Value) :
    first.outline.equal second.outline = first.equal second := by
  match first, second with
  | .datum leaf, other => cases other <;> cases leaf <;> rfl
  | .list .., .list .. | .map .., .map .. => rfl
  | .list .., .datum _ | .list .., .map .. | .list .., .function _ | .list .., .object ..
  | .map .., .datum _ | .map .., .list .. | .map .., .function _ | .map .., .object .. => rfl
  | .function _, other | .object .., other => cases other <;> rfl

mutual

theorem render_outline (leaf : Datum → String) (value : Value) :
    value.outline.render leaf = value.render leaf := by
  match value with
  | .datum _ | .function _ | .object .. => rfl
  | .list _ _ items => rw [outline, render, render, renderItems_outline leaf items]
  | .map _ _ _ entries => rw [outline, render, render, renderEntries_outline leaf entries]
termination_by structural value

theorem renderItems_outline (leaf : Datum → String) (items : List Value) :
    renderItems leaf (outlineAll items) = renderItems leaf items := by
  match items with
  | [] => rfl
  | [item] => exact render_outline leaf item
  | item :: second :: rest =>
    have further := renderItems_outline leaf (second :: rest)
    calc renderItems leaf (outlineAll (item :: second :: rest))
      _ = render leaf item.outline ++ ", " ++ renderItems leaf (outlineAll (second :: rest)) := rfl
      _ = render leaf item ++ ", " ++ renderItems leaf (second :: rest) := by
        rw [render_outline leaf item, further]
      _ = renderItems leaf (item :: second :: rest) := rfl
termination_by structural items

theorem renderEntries_outline (leaf : Datum → String) (entries : List (Value × Value)) :
    renderEntries leaf (outlineEntries entries) = renderEntries leaf entries := by
  match entries with
  | [] => rfl
  | [(key, value)] =>
    rw [outlineEntries, outlineEntries, renderEntries, renderEntries, render_outline leaf key,
      render_outline leaf value]
  | (key, value) :: second :: rest =>
    have further := renderEntries_outline leaf (second :: rest)
    calc renderEntries leaf (outlineEntries ((key, value) :: second :: rest))
      _ = render leaf key.outline ++ ": " ++ render leaf value.outline ++ ", " ++
          renderEntries leaf (outlineEntries (second :: rest)) := rfl
      _ = render leaf key ++ ": " ++ render leaf value ++ ", " ++
          renderEntries leaf (second :: rest) := by
        rw [render_outline leaf key, render_outline leaf value, further]
      _ = renderEntries leaf ((key, value) :: second :: rest) := rfl
termination_by structural entries

end

@[simp] theorem text_outline (value : Value) : value.outline.text = value.text :=
  render_outline Datum.text value

end Value

/-! ## Compiled units -/

def Expr.Contains (whole part : Expr) : Prop :=
  Relation.ReflTransGen (fun whole part => part ∈ whole.children) whole part

theorem Expr.Contains.child {whole expr part : Expr} (contains : whole.Contains expr)
    (belongs : part ∈ expr.children) : whole.Contains part :=
  contains.tail belongs

theorem Expr.Contains.operand {whole expr part : Expr} (contains : whole.Contains expr)
    (belongs : part ∈ expr.operands) : whole.Contains part :=
  contains.child (expr.operands_subset_children belongs)

/-- A compiled unit with the root scope that it was compiled against. -/
structure Compiled where
  root : Scope
  unit : CompiledUnit

/-- A name has a binding at the root of a unit, and the globals that the unit was compiled with hold
no value for it. -/
def Compiled.Lacks (compiled : Compiled) (name : String) (binding : Binding) : Prop :=
  compiled.root.lookup name = some binding ∧ compiled.unit.frame.lookup binding.id = none

/-! ## Agreement -/

/-- A function and a routine are one lambda of a unit in a scope: elaboration made the body of the
one from the form of the other. -/
inductive SameLambda (compiled : Compiled) (scope : Scope) : Closure Value → Routine → Prop where
  | intro {elaborator : Elaborator} {inner : Scope} {depth next middle id : Nat}
      {params : List Binding} {body : Expr} {paramsForm bodyForm : Form} {node : Node}
      {frame : Frame Value} (below : scope.Below next)
      (declared : elaborator.paramList scope paramsForm next = .ok ((params, inner), middle))
      (made : elaborator.Elaborates inner depth bodyForm middle body id)
      (contains : compiled.unit.root.Contains (.lambda node id params body)) :
      SameLambda compiled scope ⟨id, params, body, node.ty, frame, elaborator.registry⟩
        ⟨id, params.map fun binding => (binding.name, binding.ty), bodyForm,
          ⟨elaborator, inner, depth, middle⟩, node.ty⟩

/-- A value and a value whose functions are forms are the same value, with functions of given units
in them. -/
inductive Agrees (units : List Compiled) : Value → ScopedValue → Prop where
  -- The parts are related as pairs of a zip, and `present` says nothing of agreement, so that the
  -- induction on agreement reaches the parts and the captured values.
  | datum {leaf : Datum} : Agrees units (.datum leaf) (.datum leaf)
  | list {id : Nat} {element : Ty} {items : List Value} {others : List ScopedValue}
      (count : items.length = others.length)
      (parts : ∀ item other, (item, other) ∈ items.zip others → Agrees units item other) :
      Agrees units (.list id element items) (.list id element others)
  | map {id : Nat} {key value : Ty} {entries : List (Value × Value)}
      {others : List (ScopedValue × ScopedValue)} (count : entries.length = others.length)
      (keys : ∀ entry other, (entry, other) ∈ entries.zip others → Agrees units entry.1 other.1)
      (values : ∀ entry other, (entry, other) ∈ entries.zip others → Agrees units entry.2 other.2) :
      Agrees units (.map id key value entries) (.map id key value others)
  | function {closure : Closure Value} {routine : Routine} {scopes : Scopes ScopedValue}
      {compiled : Compiled} {scope : Scope} (known : compiled ∈ units)
      (lambda : SameLambda compiled scope closure routine) (id : closure.frame.id = scopes.id)
      (missing : ∀ name binding, scope.lookup name = some binding →
        closure.frame.lookup binding.id = none →
        scopes.lookup name = none ∧ compiled.Lacks name binding)
      (present : ∀ name binding value, scope.lookup name = some binding →
        closure.frame.lookup binding.id = some value → (scopes.lookup name).isSome = true)
      (values : ∀ name binding value other, scope.lookup name = some binding →
        closure.frame.lookup binding.id = some value → scopes.lookup name = some other →
        Agrees units value other) :
      Agrees units (.function closure) (.function routine scopes)
  | object {id : Nat} {typeName : String} {slots : List Value} {others : List ScopedValue}
      (count : slots.length = others.length)
      (parts : ∀ slot other, (slot, other) ∈ slots.zip others → Agrees units slot other) :
      Agrees units (.object id typeName slots) (.object id typeName others)

/-- Every name in a scope of a unit has the same value in a frame, where it goes by identity, as in
scopes of names. A name without a value is a root name that lacks one. -/
structure Corresponds (units : List Compiled) (compiled : Compiled) (scope : Scope)
    (frame : Frame Value) (scopes : Scopes ScopedValue) : Prop where
  id : frame.id = scopes.id
  missing : ∀ name binding, scope.lookup name = some binding → frame.lookup binding.id = none →
    scopes.lookup name = none ∧ compiled.Lacks name binding
  present : ∀ name binding value, scope.lookup name = some binding →
    frame.lookup binding.id = some value →
    ∃ other, scopes.lookup name = some other ∧ Agrees units value other

section

variable {units : List Compiled} {compiled : Compiled} {scope : Scope} {closure : Closure Value}
  {routine : Routine} {scopes : Scopes ScopedValue}

theorem agrees_function (known : compiled ∈ units)
    (lambda : SameLambda compiled scope closure routine)
    (matched : Corresponds units compiled scope closure.frame scopes) :
    Agrees units (.function closure) (.function routine scopes) := by
  refine .function known lambda matched.id matched.missing ?_ ?_
  · intro name binding value bound found
    obtain ⟨other, held, -⟩ := matched.present name binding value bound found
    rw [held, Option.isSome_some]
  · intro name binding value other bound found held
    obtain ⟨same, otherHeld, agrees⟩ := matched.present name binding value bound found
    rw [held] at otherHeld
    cases otherHeld
    exact agrees

/-- Functions that agree are one lambda of a unit with names that have the same values. -/
theorem Agrees.function_inv (agrees : Agrees units (.function closure) (.function routine scopes)) :
    ∃ compiled ∈ units, ∃ scope, SameLambda compiled scope closure routine ∧
      Corresponds units compiled scope closure.frame scopes := by
  cases agrees with
  | @function _ _ _ compiled scope known lambda id missing present values =>
    refine ⟨compiled, known, scope, lambda, id, missing, ?_⟩
    intro name binding value bound found
    obtain ⟨other, held⟩ := Option.isSome_iff_exists.mp (present name binding value bound found)
    exact ⟨other, held, values name binding value other bound found held⟩

/-- Values go on to agree when further units are compiled. -/
theorem Agrees.mono {more : List Compiled} {value : Value} {other : ScopedValue}
    (agrees : Agrees units value other) (subset : units ⊆ more) : Agrees more value other := by
  induction agrees with
  | datum => exact .datum
  | list count _ ih => exact .list count ih
  | map count _ _ keys values => exact .map count keys values
  | function known lambda id missing present _ ih =>
    exact .function (subset known) lambda id missing present ih
  | object count _ ih => exact .object count ih

end

/-! ### Parts of values that agree -/

def AgreeingEntries (units : List Compiled) (entry : Value × Value)
    (other : ScopedValue × ScopedValue) : Prop :=
  Agrees units entry.1 other.1 ∧ Agrees units entry.2 other.2

namespace Agrees

variable {units : List Compiled} {value : Value} {other : ScopedValue} {values : List Value}
  {others : List ScopedValue} {entries : List (Value × Value)}
  {otherEntries : List (ScopedValue × ScopedValue)} {id : Nat}

theorem list_iff {element : Ty} :
    Agrees units (.list id element values) (.list id element others) ↔
      List.Forall₂ (Agrees units) values others := by
  rw [List.forall₂_iff_zip]
  constructor
  · intro agrees
    cases agrees with
    | list count parts => exact ⟨count, parts _ _⟩
  · rintro ⟨count, parts⟩
    exact .list count fun _ _ => parts

theorem object_iff {typeName : String} :
    Agrees units (.object id typeName values) (.object id typeName others) ↔
      List.Forall₂ (Agrees units) values others := by
  rw [List.forall₂_iff_zip]
  constructor
  · intro agrees
    cases agrees with
    | object count parts => exact ⟨count, parts _ _⟩
  · rintro ⟨count, parts⟩
    exact .object count fun _ _ => parts

theorem map_iff {key held : Ty} :
    Agrees units (.map id key held entries) (.map id key held otherEntries) ↔
      List.Forall₂ (AgreeingEntries units) entries otherEntries := by
  rw [List.forall₂_iff_zip]
  constructor
  · intro agrees
    cases agrees with
    | map count keys values =>
      exact ⟨count, fun belongs => ⟨keys _ _ belongs, values _ _ belongs⟩⟩
  · rintro ⟨count, parts⟩
    exact .map count (fun _ _ belongs => (parts belongs).1) fun _ _ belongs => (parts belongs).2

/-- What is seen of lists of values is the same if it is the same of each pair of values. -/
theorem outlineAll_eq_of_zip (count : values.length = others.length)
    (same : ∀ value other, (value, other) ∈ values.zip others → value.outline = other.outline) :
    Value.outlineAll values = ScopedValue.outlineAll others := by
  have pairwise : List.Forall₂ (fun value other => value.outline = other.outline) values others :=
    List.forall₂_iff_zip.mpr ⟨count, same _ _⟩
  clear count same
  induction pairwise with
  | nil => rfl
  | cons first _ ih => rw [Value.outlineAll, ScopedValue.outlineAll, first, ih]

theorem outlineEntries_eq_of_zip (count : entries.length = otherEntries.length)
    (keys : ∀ entry other, (entry, other) ∈ entries.zip otherEntries →
      entry.1.outline = other.1.outline)
    (held : ∀ entry other, (entry, other) ∈ entries.zip otherEntries →
      entry.2.outline = other.2.outline) :
    Value.outlineEntries entries = ScopedValue.outlineEntries otherEntries := by
  have pairwise : List.Forall₂
      (fun (entry : Value × Value) (other : ScopedValue × ScopedValue) =>
        entry.1.outline = other.1.outline ∧ entry.2.outline = other.2.outline)
      entries otherEntries :=
    List.forall₂_iff_zip.mpr ⟨count, fun belongs => ⟨keys _ _ belongs, held _ _ belongs⟩⟩
  clear count keys held
  induction pairwise with
  | nil => rfl
  | @cons entry other _ _ first _ ih =>
    obtain ⟨key, value⟩ := entry
    obtain ⟨otherKey, otherValue⟩ := other
    rw [Value.outlineEntries, ScopedValue.outlineEntries, first.1, first.2, ih]

/-- The same is seen of values that agree. -/
theorem outline_eq (agrees : Agrees units value other) : value.outline = other.outline := by
  induction agrees with
  | datum => rfl
  | list count _ ih =>
    rw [Value.outline, ScopedValue.outline, outlineAll_eq_of_zip count ih]
  | map count _ _ keys values =>
    rw [Value.outline, ScopedValue.outline, outlineEntries_eq_of_zip count keys values]
  | function known lambda id =>
    cases lambda
    rw [Value.outline, ScopedValue.outline, id]
  | object count _ ih =>
    rw [Value.outline, ScopedValue.outline, outlineAll_eq_of_zip count ih]

theorem isNull_eq (agrees : Agrees units value other) : other.outline.isNull = value.isNull := by
  rw [← agrees.outline_eq, Value.isNull_outline]

theorem ty?_eq (agrees : Agrees units value other) : other.outline.ty? = value.ty? := by
  rw [← agrees.outline_eq, Value.ty?_outline]

theorem typeName_eq (agrees : Agrees units value other) :
    other.outline.typeName = value.typeName := by
  rw [← agrees.outline_eq, Value.typeName_outline]

theorem text_eq (agrees : Agrees units value other) : other.outline.text = value.text := by
  rw [← agrees.outline_eq, Value.text_outline]

theorem same_eq {second : Value} {otherSecond : ScopedValue} (agrees : Agrees units value other)
    (secondAgrees : Agrees units second otherSecond) :
    other.outline.same otherSecond.outline = value.same second := by
  rw [← agrees.outline_eq, ← secondAgrees.outline_eq, Value.same_outline]

theorem equal_eq {second : Value} {otherSecond : ScopedValue} (agrees : Agrees units value other)
    (secondAgrees : Agrees units second otherSecond) :
    other.outline.equal otherSecond.outline = value.equal second := by
  rw [← agrees.outline_eq, ← secondAgrees.outline_eq, Value.equal_outline]

end Agrees

end ExprLang
