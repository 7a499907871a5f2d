import ExprLang.Proofs.Eval.Soundness

/-!
# Calls of function values

The frame of a call covers the context of the body: the parameters of a lambda have identities that
differ from one another and from all identities around the lambda, so each binding finds its own
value. A call of a function that evaluation made therefore keeps the promise of the function type
(`Closure.meets_call`), and so does every call of every function that can be got out of a value, by
looking into collections and by calling functions, however often (`Obtained.wellTyped`).
-/

namespace ExprLang

variable {registry : Registry} {supplied : Closure Value → Prop} {context params : List Binding}

/-! ## The frame of a call -/

/-- A key that is not among those of the parameters is looked up in what is around. -/
theorem lookup_zip_of_not_mem {K V : Type} [BEq K] [LawfulBEq K] {keys : List K} {args : List V}
    {key : K} (other : key ∉ keys) : (keys.zip args).lookup key = none := by
  rw [List.lookup_eq_none_iff]
  intro slot belongs
  have among := (List.of_mem_zip belongs).1
  simp only [bne_iff_ne, ne_eq]
  rintro rfl
  exact other among

theorem Frame.lookup_extend {V : Type} (frame : Frame V) (id : Nat) (slots : List (Nat × V))
    (binding : Nat) :
    (frame.extend id slots).lookup binding = (slots.lookup binding).or (frame.lookup binding) := by
  rw [Frame.lookup, Frame.extend, List.lookup_append, Frame.lookup]

/-- Each parameter finds an argument of its type. -/
theorem exists_lookup_param {args : List Value} {binding : Binding}
    (held : List.Forall₂ (fun (param : Binding) arg => WellTyped registry supplied arg param.ty)
      params args) (distinct : (params.map (·.id)).Nodup) (param : binding ∈ params) :
    ∃ value, ((params.map (·.id)).zip args).lookup binding.id = some value ∧
      WellTyped registry supplied value binding.ty := by
  induction held with
  | nil => cases param
  | @cons first arg rest args argHeld _ ih =>
    rw [List.map_cons, List.nodup_cons] at distinct
    rw [List.map_cons, List.zip_cons_cons, List.lookup_cons]
    rcases List.mem_cons.mp param with rfl | later
    · exact ⟨arg, by simp, argHeld⟩
    · have differ : binding.id ≠ first.id := by
        intro same
        rw [← same] at distinct
        exact distinct.1 (List.mem_map_of_mem later)
      rw [beq_eq_false_iff_ne.mpr differ]
      exact ih distinct.2 later

/-- Parameters with identities of their own extend a frame without hiding anything in it. -/
theorem Frame.Covers.extend {frame : Frame Value} {args : List Value}
    (id : Nat) (covered : frame.Covers registry supplied context)
    (held : List.Forall₂ (fun (param : Binding) arg => WellTyped registry supplied arg param.ty)
      params args) (distinct : (params.map (·.id)).Nodup)
    (fresh : ∀ binding ∈ context, binding.id ∉ params.map (·.id)) :
    (frame.extend id ((params.map (·.id)).zip args)).Covers registry supplied
      (params ++ context) := by
  intro binding belongs value found
  rw [Frame.lookup_extend] at found
  rcases List.mem_append.mp belongs with param | outer
  · obtain ⟨arg, hit, argHeld⟩ := exists_lookup_param held distinct param
    rw [hit, Option.some_or, Option.some.injEq] at found
    rwa [← found]
  · rw [lookup_zip_of_not_mem (fresh binding outer), Option.none_or] at found
    exact covered binding outer value found

namespace Typed

/-- What the rule for lambdas says. -/
theorem lambda_inv {node : Node} {id : Nat} {body : Expr}
    (typed : Typed registry context (.lambda node id params body)) :
    Typed registry (params ++ context) body ∧ (params.map (·.id)).Nodup ∧
      (∀ binding ∈ context, binding.id ∉ params.map (·.id)) ∧
      node.ty = .func (params.map (·.ty)) body.ty := by
  cases typed with
  | lambda part distinct fresh => exact ⟨part, distinct, fresh, rfl⟩

end Typed

namespace Closure

variable {closure : Closure Value} {args : List Value} {host : Host} {report : Diagnostic}

/-- The arguments are as many as the parameters, and each parameter admits its argument. -/
def Accepts (closure : Closure Value) (args : List Value) : Prop :=
  args.length = closure.arity ∧
    ∀ pair ∈ closure.params.zip args, admits closure.registry pair.1 pair.2 = true

def callFrame (closure : Closure Value) (args : List Value) (id : Nat) : Frame Value :=
  closure.frame.extend id ((closure.params.map (·.id)).zip args)

/-- A part of the body of a function explains a report of a call. -/
def Explained (host : Host) (closure : Closure Value) (args : List Value) (report : Diagnostic) :
    Prop :=
  ∃ id, Setting.Explained ⟨closure.registry, host⟩ (closure.callFrame args id) closure.body report

/-- Well-typed arguments that are accepted are well typed of the types of the parameters. -/
theorem forall₂_of_accepts (home : closure.registry = registry)
    (accepts : closure.Accepts args)
    (held : ∀ arg ∈ args, WellTyped registry supplied arg .object) :
    List.Forall₂ (fun (param : Binding) arg => WellTyped registry supplied arg param.ty)
      closure.params args := by
  obtain ⟨count, admitted⟩ := accepts
  refine List.forall₂_iff_zip.mpr ⟨count.symm, fun {param arg} belongs => ?_⟩
  have fits := admitted _ belongs
  rw [home] at fits
  exact (held arg (List.of_mem_zip belongs).2).of_admits fits

/-- A call of a function that evaluation made, on well-typed arguments, gives a value of the result
type or ends in a report that the body explains, unless the arguments are not accepted. -/
theorem meets_call {params : List Ty} {result : Ty} (hostBased : registry.HostBased)
    (sound : host.Sound registry supplied) (known : Known registry supplied closure)
    (made : ¬ supplied closure) (signature : closure.ty = .func params result)
    (held : ∀ arg ∈ args, WellTyped registry supplied arg .object) (next : Nat) :
    (closure.call host args).Meets next (WellTyped registry supplied · result)
      (fun report => closure.Accepts args → closure.Explained host args report) := by
  cases known with
  | supplied given => exact absurd given made
  | @made closure context loc home lambda covered =>
    obtain ⟨part, distinct, fresh, shown⟩ := lambda.lambda_inv
    obtain ⟨-, rfl⟩ := Ty.func.inj (shown.symm.trans signature)
    subst home
    simp only [call]
    split
    next miscounted => exact Run.meets_faultAt fun accepts => absurd accepts.1 miscounted
    next counted =>
      split
      next param arg refused =>
        refine Run.meets_faultAt fun accepts => ?_
        have unfit := List.find?_some refused
        have fit := accepts.2 _ (List.mem_of_find?_eq_some refused)
        rw [fit] at unfit
        cases unfit
      next none =>
        have accepts : closure.Accepts args := by
          refine ⟨Decidable.not_not.mp counted, fun pair belongs => ?_⟩
          have fits := List.find?_eq_none.mp none pair belongs
          simpa using fits
        refine Run.Meets.bind Run.meets_freshId fun id later _ _ => ?_
        have argsHeld := forall₂_of_accepts rfl accepts held
        have wider := Frame.Covers.extend id covered argsHeld distinct fresh
        have guaranteed : Setting.Sound ⟨closure.registry, host⟩ supplied
            (closure.callFrame args id) closure.body :=
          Setting.meets_evaluate hostBased sound wider part
        exact (guaranteed later).mono (fun _ resultHeld => resultHeld)
          fun report explained _ => ⟨id, explained⟩

end Closure

/-! ## Values that can be got out of a value -/

/-- A value can be got out of another by looking into lists and maps and by calling functions, other
than the supplied ones, on well-typed arguments. -/
inductive Obtained (registry : Registry) (supplied : Closure Value → Prop) (start : Value) :
    Value → Prop where
  | start : Obtained registry supplied start start
  | item {id : Nat} {element : Ty} {items : List Value} {item : Value}
      (list : Obtained registry supplied start (.list id element items)) (belongs : item ∈ items) :
      Obtained registry supplied start item
  | key {id : Nat} {key value : Ty} {entries : List (Value × Value)} {entry : Value × Value}
      (map : Obtained registry supplied start (.map id key value entries))
      (belongs : entry ∈ entries) : Obtained registry supplied start entry.1
  | value {id : Nat} {key value : Ty} {entries : List (Value × Value)} {entry : Value × Value}
      (map : Obtained registry supplied start (.map id key value entries))
      (belongs : entry ∈ entries) : Obtained registry supplied start entry.2
  | result {closure : Closure Value} {host : Host} {args : List Value} {result : Value}
      {next later : Nat} (function : Obtained registry supplied start (.function closure))
      (made : ¬ supplied closure) (sound : host.Sound registry supplied)
      (held : ∀ arg ∈ args, WellTyped registry supplied arg .object)
      (done : closure.call host args next = .ok (result, later)) :
      Obtained registry supplied start result

/-- A function value that is well typed has a function type and is accounted for. -/
theorem WellTyped.function_inv {closure : Closure Value} {ty : Ty}
    (wellTyped : WellTyped registry supplied (.function closure) ty) :
    ∃ params result, closure.ty = .func params result ∧ Known registry supplied closure := by
  cases wellTyped with
  | function signature _ known => exact ⟨_, _, signature, known⟩

/-- Whatever can be got out of a well-typed value is well typed. -/
theorem Obtained.wellTyped (hostBased : registry.HostBased) {start value : Value} {ty : Ty}
    (startTyped : WellTyped registry supplied start ty)
    (obtained : Obtained registry supplied start value) :
    WellTyped registry supplied value .object := by
  have toObject {value : Value} {ty : Ty} (held : WellTyped registry supplied value ty) :
      WellTyped registry supplied value .object :=
    held.weaken hostBased (registry.isAssignable_object ty)
  induction obtained with
  | start => exact toObject startTyped
  | item _ belongs ih =>
    cases ih with
    | list _ parts => exact toObject (parts _ belongs)
  | key _ belongs ih =>
    cases ih with
    | map _ keys _ => exact toObject (keys _ belongs)
  | value _ belongs ih =>
    cases ih with
    | map _ _ values => exact toObject (values _ belongs)
  | result _ made sound held done ih =>
    obtain ⟨params, result, signature, known⟩ := ih.function_inv
    exact toObject ((Closure.meets_call hostBased sound known made signature held _).of_ok done)

end ExprLang
