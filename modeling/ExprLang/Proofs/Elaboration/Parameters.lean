import ExprLang.Proofs.Elaboration.Typed

/-!
# Parameters of lambdas

What the parameter list of a lambda declares: one binding for each form, of the type and the name
that the form says, and no name twice (`Elaborator.declares_paramList`).
-/

namespace ExprLang

namespace Scope

/-- A name is unused in a level if no binding of the level has it. -/
theorem find?_eq_none {bindings : List Binding} {name : String} :
    find? bindings name = none ↔ ∀ binding ∈ bindings, binding.name ≠ name := by
  unfold find?
  simp only [List.find?_eq_none, beq_iff_eq, ne_eq]

end Scope

namespace Elaborator

variable {elaborator : Elaborator} {scope inner : Scope} {next later : Nat}

/-- A form declares a parameter: it is a pair of the name of a type and the name of the parameter.
-/
inductive Declares (elaborator : Elaborator) : Form → Binding → Prop where
  | pair {tyForm : Form} {ty : Ty} {name : String} {nameLoc loc : Location} {id : Nat}
      (named : elaborator.typeName tyForm = .ok ty) :
      Declares elaborator (.combo .paren [tyForm, .atom name nameLoc] loc) ⟨id, name, ty⟩

/-- A parameter is what its form declares, and its name is new in the scope of the lambda. -/
theorem declares_param {form : Form} {param : Binding}
    (ok : elaborator.param scope form next = .ok ((param, inner), later)) :
    elaborator.Declares form param ∧ scope.local? param.name = none := by
  unfold Elaborator.param at ok
  split at ok
  next tyForm nameForm loc =>
    obtain ⟨ty, named, ok⟩ := Run.lift_bind_ok.mp ok
    cases nameForm with
    | combo bracket children nameLoc => exact absurd ok Run.faultAt_ne_ok
    | atom name nameLoc =>
      dsimp only at ok
      split at ok
      · exact absurd ok Run.faultAt_ne_ok
      next unused =>
        obtain ⟨id, middle, -, ok⟩ := Run.bind_ok.mp ok
        obtain ⟨made, -⟩ := Run.pure_ok.mp ok
        have absent : scope.local? name = none := Option.not_isSome_iff_eq_none.mp unused
        rw [Scope.define_of_none absent] at made
        cases made
        exact ⟨.pair named, absent⟩
  · exact absurd ok Run.faultAt_ne_ok

/-- Parameters are what their forms declare, under names that differ from one another and from
those in the scope of the lambda. -/
theorem declares_params {forms : List Form} {params : List Binding}
    (ok : elaborator.params scope forms next = .ok ((params, inner), later)) :
    List.Forall₂ elaborator.Declares forms params ∧ (params.map (·.name)).Nodup ∧
      ∀ param ∈ params, scope.local? param.name = none := by
  induction forms generalizing scope inner next later params with
  | nil =>
    obtain ⟨made, -⟩ := Run.pure_ok.mp ok
    cases made
    exact ⟨.nil, List.nodup_nil, nofun⟩
  | cons form forms ih =>
    obtain ⟨⟨param, wider⟩, middle, first, ok⟩ := Run.bind_ok.mp ok
    obtain ⟨⟨rest, last⟩, afterRest, further, ok⟩ := Run.bind_ok.mp ok
    obtain ⟨made, -⟩ := Run.pure_ok.mp ok
    cases made
    obtain ⟨declared, absent⟩ := declares_param first
    obtain ⟨rfl, -, -⟩ := param_ok first
    obtain ⟨rests, distinct, absents⟩ := ih further
    -- The later parameters are new in the scope that the first is added to.
    have apart (other : Binding) (belongs : other ∈ rest) :
        other.name ≠ param.name ∧ scope.local? other.name = none := by
      have missing := Scope.find?_eq_none.mp (absents other belongs)
      simp only [List.forall_mem_append, List.forall_mem_singleton] at missing
      exact ⟨missing.2.symm, Scope.find?_eq_none.mpr missing.1⟩
    refine ⟨.cons declared rests, ?_, ?_⟩
    · rw [List.map_cons, List.nodup_cons]
      refine ⟨fun used => ?_, distinct⟩
      obtain ⟨other, belongs, same⟩ := List.mem_map.mp used
      exact (apart other belongs).1 same
    · rw [List.forall_mem_cons]
      exact ⟨absent, fun other belongs => (apart other belongs).2⟩

/-- The parameters of a lambda are what the forms of its parameter list declare, under names of
their own. -/
theorem declares_paramList {forms : List Form} {loc : Location} {params : List Binding}
    (ok : elaborator.paramList scope (.combo .paren forms loc) next =
      .ok ((params, inner), later)) :
    List.Forall₂ elaborator.Declares forms params ∧ (params.map (·.name)).Nodup := by
  obtain ⟨declared, distinct, -⟩ := declares_params ok
  exact ⟨declared, distinct⟩

end Elaborator

end ExprLang
