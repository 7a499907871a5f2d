import ExprLang.Proofs.Eval.Calls
import ExprLang.Proofs.Likeness.Engines

/-!
# Definitions of several globals

An engine that is given values for names which are new at its root, and differ from one another,
takes them all, and keeps the rest of its names, values, types and heads as they are
(`Engine.gained_of_unused`).
-/

namespace ExprLang.Engine

variable {engine later : Engine} {name : String} {value : Value} {globals : List (String × Value)}

/-- Gives root names values, one after the other, up to the first failure. -/
def defineGlobals (engine : Engine) : List (String × Value) → Except Diagnostic Engine
  | [] => .ok engine
  | (name, value) :: rest => do
    let (_, engine) ← engine.defineGlobal name value
    engine.defineGlobals rest

/-- The bindings of new globals that are defined from a supply on. A definition draws two
identities: that of the binding, and that of the frame which has its value. -/
def newBindings (start : Nat) : List (String × Value) → List Binding
  | [] => []
  | (name, value) :: rest => ⟨start, name, value.globalTy⟩ :: newBindings (start + 2) rest

theorem start_le_newBindings {start : Nat} :
    ∀ binding ∈ newBindings start globals, start ≤ binding.id := by
  induction globals generalizing start with
  | nil => nofun
  | cons entry rest ih =>
    intro binding belongs
    rcases List.mem_cons.mp belongs with rfl | later
    · exact Nat.le_refl _
    · exact Nat.le_trans (Nat.le_add_right start 2) (ih binding later)

theorem newBindings_lt {start : Nat} :
    ∀ binding ∈ newBindings start globals, binding.id < start + 2 * globals.length := by
  induction globals generalizing start with
  | nil => nofun
  | cons entry rest ih =>
    intro binding belongs
    rw [List.length_cons]
    rcases List.mem_cons.mp belongs with rfl | later
    · dsimp only
      omega
    · have bound := ih binding later
      omega

theorem nodup_newBindings {start : Nat} : ((newBindings start globals).map (·.id)).Nodup := by
  induction globals generalizing start with
  | nil => exact List.nodup_nil
  | cons entry rest ih =>
    refine List.nodup_cons.mpr ⟨fun used => ?_, ih⟩
    obtain ⟨binding, belongs, same⟩ := List.mem_map.mp used
    have bound := start_le_newBindings binding belongs
    dsimp only at same
    omega

/-- An engine that was given new globals. They stand behind the other root names, each has its
value, and nothing else has changed. -/
structure Gained (engine : Engine) (globals : List (String × Value)) (later : Engine) : Prop where
  elaborator : later.elaborator = engine.elaborator
  host : later.host = engine.host
  supply : later.supply = engine.supply + 2 * globals.length
  innermost : later.root.innermost = engine.root.innermost ++ newBindings engine.supply globals
  values : ∀ id, later.globals.lookup id =
    ((((newBindings engine.supply globals).map (·.id)).zip (globals.map (·.2))).lookup id).or
      (engine.globals.lookup id)
  frame : later.globals.id < later.supply
  rooted : later.Rooted

/-- A new name takes any value. -/
theorem defining_of_unused (flat : engine.root.enclosing = [])
    (unused : engine.root.lookup name = none) :
    engine.defining name value =
      (.ok ⟨engine.supply, name, value.globalTy⟩,
        { engine with
          root := { engine.root with
            innermost := engine.root.innermost ++ [⟨engine.supply, name, value.globalTy⟩] }
          globals := engine.globals.set (engine.supply + 1) engine.supply value
          supply := engine.supply + 2 }) := by
  rw [Scope.lookup_of_flat flat] at unused
  unfold defining declare
  rw [Scope.define_of_none unused]
  dsimp only
  rw [if_pos (Registry.isAssignable_refl _)]

/-- One definition more, in front of others. -/
theorem Gained.cons (rooted : engine.Rooted) (unused : engine.root.lookup name = none)
    (gained : Gained (engine.defining name value).2 globals later) :
    Gained engine ((name, value) :: globals) later := by
  rw [defining_of_unused rooted.flat unused] at gained
  refine { gained with supply := ?_, innermost := ?_, values := fun id => ?_ }
  · rw [gained.supply, List.length_cons]
    dsimp only
    omega
  · rw [gained.innermost, List.append_assoc]
    rfl
  · rw [gained.values id]
    dsimp only
    rw [Frame.lookup_set, newBindings, List.map_cons, List.map_cons, List.zip_cons_cons,
      List.lookup_cons]
    by_cases first : id = engine.supply
    · -- The later bindings have greater identities.
      have apart : id ∉ (newBindings (engine.supply + 2) globals).map (·.id) := by
        intro used
        obtain ⟨binding, belongs, same⟩ := List.mem_map.mp used
        have bound := start_le_newBindings binding belongs
        omega
      rw [lookup_zip_of_not_mem apart, if_pos first, beq_iff_eq.mpr first]
      rfl
    · rw [if_neg first, beq_eq_false_iff_ne.mpr first]

/-- Names that are new at the root, and differ from one another, take any values. -/
theorem gained_of_unused (rooted : engine.Rooted) (frame : engine.globals.id < engine.supply)
    (distinct : (globals.map (·.1)).Nodup)
    (unused : ∀ entry ∈ globals, engine.root.lookup entry.1 = none) :
    ∃ later, engine.defineGlobals globals = .ok later ∧ engine.Gained globals later := by
  induction globals generalizing engine with
  | nil =>
    exact ⟨engine, rfl, ⟨rfl, rfl, rfl, (List.append_nil _).symm, fun _ => rfl, frame, rooted⟩⟩
  | cons entry rest ih =>
    obtain ⟨name, value⟩ := entry
    rw [List.map_cons, List.nodup_cons] at distinct
    rw [List.forall_mem_cons] at unused
    have first : engine.defining name value = _ := defining_of_unused rooted.flat unused.1
    have stillUnused (entry : String × Value) (belongs : entry ∈ rest) :
        (engine.defining name value).2.root.lookup entry.1 = none := by
      have differ : name ≠ entry.1 := fun same =>
        distinct.1 (same ▸ List.mem_map_of_mem (f := (·.1)) belongs)
      rw [root_defining, lookup_declare rooted.flat, unused.2 entry belongs, if_neg differ]
      rfl
    have drawn : (engine.defining name value).2.globals.id <
        (engine.defining name value).2.supply := by
      rw [first]
      exact Nat.lt_succ_self _
    obtain ⟨later, defined, gained⟩ :=
      ih (rooted.defining name value) drawn distinct.2 stillUnused
    refine ⟨later, ?_, gained.cons rooted unused.1⟩
    rw [defineGlobals, defineGlobal_eq, first]
    rw [first] at defined
    exact defined

/-- A name is looked up among the root names that were there, then among the new ones. -/
theorem Gained.lookup (gained : engine.Gained globals later) (rooted : engine.Rooted)
    (name : String) :
    later.root.lookup name = (engine.root.lookup name).or
      (Scope.find? (newBindings engine.supply globals) name) := by
  rw [Scope.lookup_of_flat gained.rooted.flat, Scope.lookup_of_flat rooted.flat, Scope.local?,
    gained.innermost]
  exact List.find?_append

end ExprLang.Engine
