import ExprLang.Proofs.Eval.Calls
import ExprLang.Proofs.Lexical.Refinement

/-!
# Calls by identities and by names

A call puts the arguments in front of the frame of a function on the one side, and in front of its
scopes on the other. The identities of the parameters are new, so they hide no binding of the frame;
a name that the parameters hide is looked up by the new identity from then on. The frame and the
scopes of the call therefore correspond again (`Corresponds.extend`), and calls of functions that
agree end alike (`Agrees.call`).
-/

namespace ExprLang

theorem Scopes.lookup_extend {V : Type} (scopes : Scopes V) (id : Nat) (level : List (String × V))
    (name : String) :
    (scopes.extend id level).lookup name = (level.lookup name).or (scopes.lookup name) := by
  rw [Scopes.lookup, Scopes.extend, List.findSome?_cons, Scopes.lookup]
  cases level.lookup name <;> rfl

section Parameters

variable {units : List Compiled} {params : List Binding} {args : List Value}
  {others : List ScopedValue} {name : String} {binding : Binding}

/-- The name of a parameter and its identity find the same argument. -/
theorem exists_lookup_argument (held : List.Forall₂ (Agrees units) args others)
    (count : args.length = params.length) (distinct : (params.map (·.id)).Nodup)
    (found : Scope.find? params name = some binding) :
    ∃ value other, ((params.map (·.id)).zip args).lookup binding.id = some value ∧
      ((params.map (·.name)).zip others).lookup name = some other ∧ Agrees units value other := by
  induction held generalizing params with
  | nil =>
    obtain rfl := List.length_eq_zero_iff.mp count.symm
    cases found
  | @cons value other args others agrees _ ih =>
    cases params with
    | nil => cases count
    | cons first rest =>
      rw [List.map_cons, List.nodup_cons] at distinct
      rw [Scope.find?, List.find?_cons] at found
      simp only [List.map_cons, List.zip_cons_cons, List.lookup_cons]
      by_cases named : first.name = name
      · rw [beq_iff_eq.mpr named] at found
        cases found
        exact ⟨value, other, by simp, by simp [named], agrees⟩
      · rw [beq_eq_false_iff_ne.mpr named] at found
        have later : binding ∈ rest := List.mem_of_find?_eq_some found
        have differ : binding.id ≠ first.id := by
          intro same
          rw [← same] at distinct
          exact distinct.1 (List.mem_map_of_mem later)
        rw [beq_eq_false_iff_ne.mpr differ, beq_eq_false_iff_ne.mpr (Ne.symm named)]
        exact ih (Nat.succ.inj count) distinct.2 found

theorem not_mem_names (absent : Scope.find? params name = none) : name ∉ params.map (·.name) := by
  intro belongs
  obtain ⟨binding, param, named⟩ := List.mem_map.mp belongs
  have other := List.find?_eq_none.mp absent binding param
  rw [beq_iff_eq.mpr named] at other
  exact other rfl

end Parameters

section Extension

variable {units : List Compiled} {compiled : Compiled} {scope inner : Scope} {frame : Frame Value}
  {scopes : Scopes ScopedValue} {elaborator : Elaborator} {next middle : Nat} {paramsForm : Form}
  {params : List Binding} {args : List Value} {others : List ScopedValue}
  (below : scope.Below next)
  (declared : elaborator.paramList scope paramsForm next = .ok ((params, inner), middle))
  (held : List.Forall₂ (Agrees units) args others) (count : args.length = params.length)

include below declared held count

/-- A name in the body of a lambda is a parameter, and then an argument is found on both sides; or
it is looked up in the frame and in the scopes that are extended, since the identities of the
parameters are new there. -/
theorem lookup_extended (id : Nat) {name : String} {binding : Binding}
    (bound : inner.lookup name = some binding) :
    (∃ value other,
      (frame.extend id ((params.map (·.id)).zip args)).lookup binding.id = some value ∧
      (scopes.extend id ((params.map (·.name)).zip others)).lookup name = some other ∧
      Agrees units value other) ∨
    scope.lookup name = some binding ∧
      (frame.extend id ((params.map (·.id)).zip args)).lookup binding.id =
        frame.lookup binding.id ∧
      (scopes.extend id ((params.map (·.name)).zip others)).lookup name = scopes.lookup name := by
  obtain ⟨-, ids, -⟩ := Elaborator.paramList_ok declared
  rw [Elaborator.lookup_paramList declared] at bound
  rw [Frame.lookup_extend, Scopes.lookup_extend]
  cases found : Scope.find? params name with
  | some param =>
    rw [found, Option.some_or, Option.some.injEq] at bound
    subst bound
    have distinct : (params.map (·.id)).Nodup := ids ▸ List.nodup_range'
    obtain ⟨value, other, hit, otherHit, agrees⟩ :=
      exists_lookup_argument held count distinct found
    rw [hit, otherHit]
    exact .inl ⟨value, other, rfl, rfl, agrees⟩
  | none =>
    rw [found, Option.none_or] at bound
    have older := below binding (Scope.mem_bindings_of_lookup bound)
    have fresh : binding.id ∉ params.map (·.id) := by
      rw [ids, List.mem_range'_1]
      omega
    rw [lookup_zip_of_not_mem fresh, lookup_zip_of_not_mem (not_mem_names found)]
    exact .inr ⟨bound, rfl, rfl⟩

/-- The frame of a call corresponds to the scopes of the call: a parameter hides what had its name,
and nothing else is hidden. -/
theorem Corresponds.extend (matched : Corresponds units compiled scope frame scopes) (id : Nat) :
    Corresponds units compiled inner (frame.extend id ((params.map (·.id)).zip args))
      (scopes.extend id ((params.map (·.name)).zip others)) := by
  refine ⟨rfl, ?_, ?_⟩
  · intro name binding bound missing
    rcases lookup_extended below declared held count id bound with
      ⟨value, other, hit, -⟩ | ⟨outer, sameFrame, sameScopes⟩
    · rw [hit] at missing
      cases missing
    · rw [sameFrame] at missing
      rw [sameScopes]
      exact matched.missing name binding outer missing
  · intro name binding value bound present
    rcases lookup_extended below declared held count id bound with
      ⟨arg, other, hit, otherHit, agrees⟩ | ⟨outer, sameFrame, sameScopes⟩
    · rw [hit, Option.some.injEq] at present
      subst present
      exact ⟨other, otherHit, agrees⟩
    · rw [sameFrame] at present
      rw [sameScopes]
      exact matched.present name binding value outer present

end Extension

/-- A parameter admits the same values on both sides. -/
theorem Agrees.admits_eq {units : List Compiled} {value : Value} {other : ScopedValue}
    (agrees : Agrees units value other) (registry : Registry) (param : Binding) :
    ScopedHost.admits registry param.ty other = Closure.admits registry param value := by
  rw [ScopedHost.admits, agrees.ty?_eq]
  rfl

/-- The first argument that is refused is the same on both sides. -/
theorem rel_find?_refused {units : List Compiled} {params : List Binding} {args : List Value}
    {others : List ScopedValue} (held : List.Forall₂ (Agrees units) args others)
    (registry : Registry) :
    Option.Rel (fun pair other => other.1 = (pair.1.name, pair.1.ty) ∧ Agrees units pair.2 other.2)
      ((params.zip args).find? fun pair => !Closure.admits registry pair.1 pair.2)
      (((params.map fun binding => (binding.name, binding.ty)).zip others).find? fun pair =>
        !ScopedHost.admits registry pair.1.2 pair.2) := by
  induction held generalizing params with
  | nil =>
    rw [List.zip_nil_right, List.zip_nil_right]
    exact .none
  | cons agrees _ ih =>
    cases params with
    | nil => exact .none
    | cons param rest =>
      simp only [List.map_cons, List.zip_cons_cons, List.find?_cons, agrees.admits_eq]
      split
      · exact .some ⟨rfl, agrees⟩
      · exact ih

/-- Calls of functions that agree, with arguments that agree, end alike. What a call evaluates is
code of the unit that the function was made in. -/
theorem Agrees.call {units : List Compiled} {host : Host} {scopedHost : ScopedHost}
    {closure : Closure Value} {routine : Routine} {scopes : Scopes ScopedValue} {args : List Value}
    {others : List ScopedValue} (hosts : host.Alike scopedHost)
    (agrees : Agrees units (.function closure) (.function routine scopes))
    (held : List.Forall₂ (Agrees units) args others) :
    ∃ compiled ∈ units, (∃ node, compiled.unit.root.Contains
        (.lambda node closure.lambda closure.params closure.body)) ∧
      Run.Agree units compiled (closure.call host args)
        (scopedHost.call routine scopes others) := by
  obtain ⟨compiled, known, scope, lambda, matched⟩ := agrees.function_inv
  cases lambda with
  | @intro elaborator inner depth next middle id params body paramsForm bodyForm node frame below
      declared made contains =>
  refine ⟨compiled, known, ⟨node, contains⟩, ?_⟩
  have place : (Place.node ⟨elaborator, inner, depth, middle⟩ bodyForm).loc = body.loc := by
    rw [made.node_eq, Expr.loc]
  unfold Closure.call ScopedHost.call Closure.arity
  dsimp only
  rw [place, held.length_eq, List.length_map]
  split
  · exact Run.alike_faultAt (by rintro ⟨⟩)
  next counted =>
    have count : args.length = params.length := held.length_eq.trans (Decidable.not_not.mp counted)
    have refused := @rel_find?_refused units params args others held elaborator.registry
    generalize (params.zip args).find? _ = found at refused ⊢
    generalize ((params.map fun binding => (binding.name, binding.ty)).zip others).find? _ =
      otherFound at refused ⊢
    cases refused with
    | @some pair other same =>
      obtain ⟨param, arg⟩ := pair
      obtain ⟨otherParam, otherArg⟩ := other
      obtain ⟨rfl, argAgrees⟩ := same
      dsimp only
      rw [argAgrees.typeName_eq]
      exact Run.alike_faultAt (by rintro ⟨⟩)
    | none =>
      refine Run.alike_freshId.bind fun id _ drawn => ?_
      subst drawn
      obtain ⟨bindings, ids, rfl⟩ := Elaborator.paramList_ok declared
      have extended := matched.extend below declared held count id
      have names : (params.map fun binding => (binding.name, binding.ty)).map (·.1) =
          params.map (·.name) := by
        rw [List.map_map]
        rfl
      rw [names]
      have sound : Evaluation.Sound ⟨units, compiled, ⟨elaborator.registry, host⟩, scopedHost, _, _⟩
          inner := ⟨known, hosts, extended⟩
      exact made.follows sound rfl (Scope.below_of_params below bindings ids)
        (contains.child List.mem_cons_self)

end ExprLang
