import Mathlib.Data.List.Nodup
import ExprLang.Proofs.Elaboration.Derivation
import ExprLang.Proofs.Registry.CommonBase

/-!
# Well-typed expressions

`Typed registry context expr` is the type system of expressions without the forms that they come
from: the context lists the bindings that variables may refer to, and each rule says what the type
of a node promises. Every expression that elaboration makes is well typed in the bindings of its
scope (`Elaborates.typed`). The parameters of a lambda have identities of their own there, because
elaboration draws them from a supply that lies above all identities in scope.
-/

namespace ExprLang

/-- An expression is well typed in a context of bindings. -/
inductive Typed (registry : Registry) : List Binding → Expr → Prop where
  | constant {context : List Binding} {loc : Location} {datum : Datum} {ty : Ty}
      (rule : datum.ty?.getD .object = ty) : Typed registry context (.constant ⟨ty, loc⟩ datum)
  | variable {context : List Binding} {loc : Location} {binding : Binding}
      (bound : binding ∈ context) : Typed registry context (.variable ⟨binding.ty, loc⟩ binding)
  | unary {context : List Binding} {loc : Location} {op : UnaryOp} {operand : Expr} {ty : Ty}
      (part : Typed registry context operand) (rule : Typing.unaryTy? op operand.ty = some ty) :
      Typed registry context (.unary ⟨ty, loc⟩ op operand)
  | binary {context : List Binding} {loc : Location} {op : BinaryOp} {left right : Expr} {ty : Ty}
      (leftPart : Typed registry context left) (rightPart : Typed registry context right)
      (rule : Typing.binaryTy? registry op left.ty right.ty = some ty) :
      Typed registry context (.binary ⟨ty, loc⟩ op left right)
  | conditional {context : List Binding} {loc : Location} {condition yes no : Expr}
      (conditionPart : Typed registry context condition) (yesPart : Typed registry context yes)
      (noPart : Typed registry context no) (bool : condition.ty = .bool) (same : yes.ty = no.ty) :
      Typed registry context (.conditional ⟨yes.ty, loc⟩ condition yes no)
  | construct {context : List Binding} {loc : Location} {ty : Ty} {constructor : Constructor}
      {args : List Expr} (parts : ∀ arg ∈ args, Typed registry context arg)
      (declared : constructor ∈ registry.constructors ty)
      (rule : constructor.params = args.map (·.ty)) :
      Typed registry context (.construct ⟨ty, loc⟩ constructor args)
  | lambda {context : List Binding} {loc : Location} {id : Nat} {params : List Binding}
      {body : Expr}
      (part : Typed registry (params ++ context) body) (distinct : (params.map (·.id)).Nodup)
      (fresh : ∀ binding ∈ context, binding.id ∉ params.map (·.id)) :
      Typed registry context (.lambda ⟨.func (params.map (·.ty)) body.ty, loc⟩ id params body)
  | index {context : List Binding} {loc : Location} {indexer : Indexer} {target : Expr}
      {args : List Expr} (targetPart : Typed registry context target)
      (argParts : ∀ arg ∈ args, Typed registry context arg)
      (declared : indexer ∈ registry.indexers target.ty)
      (rule : registry.areAssignable (args.map (·.ty)) indexer.params = true) :
      Typed registry context (.index ⟨indexer.result, loc⟩ indexer target args)
  | typeIs {context : List Binding} {loc : Location} {target : Ty} {operand : Expr}
      (part : Typed registry context operand) :
      Typed registry context (.typeIs ⟨.bool, loc⟩ target operand)
  | typeAs {context : List Binding} {loc : Location} {target : Ty} {operand : Expr}
      (part : Typed registry context operand) (reference : target.isValueType = false) :
      Typed registry context (.typeAs ⟨target, loc⟩ target operand)
  | convert {context : List Binding} {loc : Location} {target : Ty} {operand : Expr}
      (part : Typed registry context operand)
      (rule : Typing.canConvert registry operand.ty target = true) :
      Typed registry context (.convert ⟨target, loc⟩ target operand)
  | typeOf {context : List Binding} {loc : Location} {target : Ty} :
      Typed registry context (.typeOf ⟨.type, loc⟩ target)
  | defaultOf {context : List Binding} {loc : Location} {target : Ty} :
      Typed registry context (.defaultOf ⟨target, loc⟩ target)
  | list {context : List Binding} {loc : Location} {element : Ty} {items : List Expr}
      (parts : ∀ item ∈ items, Typed registry context item)
      (below : ∀ item ∈ items, registry.isAssignable item.ty element = true) :
      Typed registry context (.list ⟨.list element, loc⟩ element items)
  | map {context : List Binding} {loc : Location} {key value : Ty} {entries : List (Expr × Expr)}
      (keyParts : ∀ entry ∈ entries, Typed registry context entry.1)
      (valueParts : ∀ entry ∈ entries, Typed registry context entry.2)
      (keysBelow : ∀ entry ∈ entries, registry.isAssignable entry.1.ty key = true)
      (valuesBelow : ∀ entry ∈ entries, registry.isAssignable entry.2.ty value = true) :
      Typed registry context (.map ⟨.map key value, loc⟩ key value entries)

/-! ## Scopes as contexts -/

namespace Scope

/-- All bindings of a scope and of the scopes around it, those that are hidden included. -/
def bindings (scope : Scope) : List Binding :=
  scope.innermost ++ scope.enclosing.flatten

/-- All identities in a scope lie below a bound. -/
def Below (scope : Scope) (next : Nat) : Prop :=
  ∀ binding ∈ scope.bindings, binding.id < next

theorem mem_bindings_of_lookup {scope : Scope} {name : String} {binding : Binding}
    (found : scope.lookup name = some binding) : binding ∈ scope.bindings := by
  obtain ⟨level, belongs, hit⟩ := List.exists_of_findSome?_eq_some found
  have inLevel := List.mem_of_find?_eq_some hit
  rcases List.mem_cons.mp belongs with rfl | outer
  · exact List.mem_append_left _ inLevel
  · exact List.mem_append_right _ (List.mem_flatten.mpr ⟨level, outer, inLevel⟩)

end Scope

/-! ## The typing rules make well-typed nodes -/

section Rules

variable {registry : Registry} {context : List Binding} {loc : Location} {expr : Expr}

theorem typed_unary {op : UnaryOp} {operand : Expr} (part : Typed registry context operand)
    (rule : Typing.unary loc op operand = .ok expr) : Typed registry context expr := by
  unfold Typing.unary at rule
  split at rule
  next ty defined =>
    cases rule
    exact .unary part defined
  · cases rule

theorem typed_binary {op : BinaryOp} {left right : Expr} (leftPart : Typed registry context left)
    (rightPart : Typed registry context right)
    (rule : Typing.binary registry loc op left right = .ok expr) : Typed registry context expr := by
  unfold Typing.binary at rule
  split at rule
  next ty defined =>
    cases rule
    exact .binary leftPart rightPart defined
  · cases rule

/-- Each step of the fold over many operands makes a well-typed node. -/
theorem typed_nary {op : BinaryOp} {first : Expr} {rest : List Expr}
    (firstPart : Typed registry context first)
    (restParts : ∀ part ∈ rest, Typed registry context part)
    (rule : Typing.nary registry loc op first rest = .ok expr) : Typed registry context expr := by
  induction rest generalizing first with
  | nil =>
    cases rule
    exact firstPart
  | cons second rest ih =>
    simp only [Typing.nary, List.foldlM_cons, bind, Except.bind] at rule
    split at rule
    · cases rule
    next node made =>
      have nodeTyped := typed_binary firstPart (restParts second List.mem_cons_self) made
      exact ih nodeTyped (fun part belongs => restParts part (List.mem_cons_of_mem _ belongs)) rule

theorem typed_conditional {condition yes no : Expr}
    (conditionPart : Typed registry context condition)
    (yesPart : Typed registry context yes) (noPart : Typed registry context no)
    (rule : Typing.conditional loc condition yes no = .ok expr) : Typed registry context expr := by
  unfold Typing.conditional at rule
  split at rule
  · cases rule
  next bool =>
    split at rule
    · cases rule
    next same =>
      cases rule
      exact .conditional conditionPart yesPart noPart (Decidable.not_not.mp bool)
        (Decidable.not_not.mp same)

theorem typed_index {target : Expr} {args : List Expr} (targetPart : Typed registry context target)
    (argParts : ∀ arg ∈ args, Typed registry context arg)
    (rule : Typing.index registry loc target args = .ok expr) : Typed registry context expr := by
  unfold Typing.index at rule
  dsimp only at rule
  split at rule
  next indexer found =>
    cases rule
    have accepts := List.find?_some found
    exact .index targetPart argParts (List.mem_of_find?_eq_some found) accepts
  · cases rule

theorem typed_construct {ty : Ty} {args : List Expr}
    (parts : ∀ arg ∈ args, Typed registry context arg)
    (rule : Typing.construct registry loc ty args = .ok expr) : Typed registry context expr := by
  unfold Typing.construct at rule
  dsimp only at rule
  split at rule
  next constructor found =>
    cases rule
    have same := List.find?_some found
    exact .construct parts (List.mem_of_find?_eq_some found) (beq_iff_eq.mp same)
  · cases rule

theorem typed_typeAs {target : Ty} {operand : Expr} (part : Typed registry context operand)
    (rule : Typing.typeAs loc target operand = .ok expr) : Typed registry context expr := by
  unfold Typing.typeAs at rule
  split at rule
  · cases rule
  next reference =>
    cases rule
    exact .typeAs part (Bool.eq_false_iff.mpr reference)

theorem typed_convert {target : Ty} {operand : Expr} (part : Typed registry context operand)
    (rule : Typing.convert registry loc target operand = .ok expr) :
    Typed registry context expr := by
  unfold Typing.convert at rule
  split at rule
  next allowed =>
    cases rule
    exact .convert part allowed
  · cases rule

/-- An inferred element type lies above all types that it was inferred from. -/
theorem isAssignable_of_elementTy {types : List Ty} {element : Ty}
    (rule : Typing.elementTy registry loc types = .ok element) :
    ∀ ty ∈ types, registry.isAssignable ty element = true := by
  unfold Typing.elementTy at rule
  split at rule
  next found =>
    cases rule
    exact Registry.isAssignable_of_commonBase? found
  · cases rule

theorem typed_list {items : List Expr} (parts : ∀ item ∈ items, Typed registry context item)
    (rule : Typing.list registry loc items = .ok expr) : Typed registry context expr := by
  simp only [Typing.list, bind, Except.bind] at rule
  split at rule
  · cases rule
  next element inferred =>
    cases rule
    refine .list parts fun item belongs => ?_
    exact isAssignable_of_elementTy inferred _ (List.mem_map_of_mem belongs)

theorem typed_map {entries : List (Expr × Expr)}
    (keyParts : ∀ entry ∈ entries, Typed registry context entry.1)
    (valueParts : ∀ entry ∈ entries, Typed registry context entry.2)
    (rule : Typing.map registry loc entries = .ok expr) : Typed registry context expr := by
  simp only [Typing.map, bind, Except.bind] at rule
  split at rule
  · cases rule
  next key keyInferred =>
    split at rule
    · cases rule
    next value valueInferred =>
      cases rule
      refine .map keyParts valueParts (fun entry belongs => ?_) (fun entry belongs => ?_)
      · exact isAssignable_of_elementTy keyInferred _ (List.mem_map_of_mem belongs)
      · exact isAssignable_of_elementTy valueInferred _ (List.mem_map_of_mem belongs)

/-- The type of a constant is that of its datum, and `object` for null. -/
theorem ty_of_constant? {text : String} {datum : Datum} {ty : Ty}
    (literal : Literal.constant? text = .ok (some (datum, ty))) : datum.ty?.getD .object = ty := by
  unfold Literal.constant? at literal
  split at literal
  · cases literal
    rfl
  · cases literal
    rfl
  · cases literal
    rfl
  · split at literal
    · cases literal
      rfl
    · simp only [bind, Except.bind] at literal
      split at literal
      · cases literal
      next number found =>
        cases number with
        | none => cases literal
        | some written =>
          cases literal
          rfl

theorem mem_of_mem_pairs {α : Type} {members : List α} {pair : α × α}
    (belongs : pair ∈ pairs members) :
    pair.1 ∈ members ∧ pair.2 ∈ members := by
  fun_induction pairs members with
  | case1 first second rest ih =>
    rcases List.mem_cons.mp belongs with rfl | later
    · simp
    · have inRest := ih later
      exact ⟨by simp [inRest.1], by simp [inRest.2]⟩
  | case2 => cases belongs

/-- In a list of even length, every member is the first or the second of a pair. -/
theorem mem_pairs_of_even {α : Type} {members : List α} {member : α}
    (even : members.length % 2 = 0) (belongs : member ∈ members) :
    member ∈ (pairs members).map (·.1) ++ (pairs members).map (·.2) := by
  induction members using pairs.induct with
  | case1 first second rest ih =>
    have fewer : rest.length % 2 = 0 := by
      rw [List.length_cons, List.length_cons] at even
      omega
    simp only [pairs, List.map_cons, List.cons_append, List.mem_cons, List.mem_append]
    rcases List.mem_cons.mp belongs with isFirst | later
    · exact .inl isFirst
    · rcases List.mem_cons.mp later with isSecond | further
      · exact .inr (.inr (.inl isSecond))
      · rcases List.mem_append.mp (ih fewer further) with inKeys | inValues
        · exact .inr (.inl inKeys)
        · exact .inr (.inr (.inr inValues))
  | case2 members short =>
    rcases members with _ | ⟨first, _ | ⟨second, rest⟩⟩
    · cases belongs
    · cases even
    · exact absurd rfl (short first second rest)

/-- Lists that correspond member by member are paired up in the same way. -/
theorem forall₂_pairs {α β : Type} {R : α → β → Prop} {members : List α} {others : List β}
    (alike : List.Forall₂ R members others) :
    List.Forall₂ R ((pairs members).map (·.1)) ((pairs others).map (·.1)) ∧
      List.Forall₂ R ((pairs members).map (·.2)) ((pairs others).map (·.2)) := by
  fun_induction pairs members generalizing others with
  | case1 first second rest ih =>
    match alike with
    | .cons firsts (.cons seconds rests) =>
      obtain ⟨keys, values⟩ := ih rests
      exact ⟨.cons firsts keys, .cons seconds values⟩
  | case2 members short =>
    match alike with
    | .nil | .cons _ .nil => exact ⟨.nil, .nil⟩
    | .cons _ (.cons _ _) => exact absurd rfl (short _ _ _)

end Rules

/-! ## Parameters -/

namespace Elaborator

variable {elaborator : Elaborator} {scope inner : Scope} {depth next later : Nat}

/-- A parameter is added to the innermost scope under the next identity. -/
theorem param_ok {form : Form} {binding : Binding}
    (ok : elaborator.param scope form next = .ok ((binding, inner), later)) :
    inner = { scope with innermost := scope.innermost ++ [binding] } ∧ binding.id = next ∧
      later = next + 1 := by
  unfold param at ok
  split at ok
  next tyForm nameForm loc =>
    obtain ⟨ty, -, ok⟩ := Run.lift_bind_ok.mp ok
    cases nameForm with
    | combo bracket children nameLoc => exact absurd ok Run.faultAt_ne_ok
    | atom name nameLoc =>
      dsimp only at ok
      split at ok
      · exact absurd ok Run.faultAt_ne_ok
      next unused =>
        obtain ⟨id, middle, drawn, ok⟩ := Run.bind_ok.mp ok
        obtain ⟨rfl, rfl⟩ := Run.freshId_ok.mp drawn
        obtain ⟨made, rfl⟩ := Run.pure_ok.mp ok
        have absent : scope.local? name = none := by simpa using unused
        simp only [Scope.define, absent, Prod.mk.injEq] at made
        obtain ⟨rfl, rfl⟩ := made
        exact ⟨rfl, rfl, rfl⟩
  · exact absurd ok Run.faultAt_ne_ok

/-- Parameters are added in order, and their identities are drawn one after the other. -/
theorem params_ok {forms : List Form} {params : List Binding}
    (ok : elaborator.params scope forms next = .ok ((params, inner), later)) :
    inner = { scope with innermost := scope.innermost ++ params } ∧
      params.map (·.id) = List.range' next params.length ∧ later = next + params.length := by
  induction forms generalizing scope next params inner with
  | nil =>
    obtain ⟨made, rfl⟩ := Run.pure_ok.mp ok
    cases made
    exact ⟨by simp, by simp, rfl⟩
  | cons form forms ih =>
    obtain ⟨⟨binding, wider⟩, middle, first, ok⟩ := Run.bind_ok.mp ok
    obtain ⟨⟨rest, last⟩, afterRest, further, ok⟩ := Run.bind_ok.mp ok
    obtain ⟨made, rfl⟩ := Run.pure_ok.mp ok
    obtain ⟨rfl, id, rfl⟩ := param_ok first
    obtain ⟨rfl, ids, rfl⟩ := ih further
    cases made
    refine ⟨by simp, ?_, by simp; omega⟩
    simp [ids, id, List.range'_succ]

/-- The scope of a lambda's body has the parameters in front of the bindings around it. -/
theorem paramList_ok {form : Form} {params : List Binding}
    (ok : elaborator.paramList scope form next = .ok ((params, inner), later)) :
    inner.bindings = params ++ scope.bindings ∧
      params.map (·.id) = List.range' next params.length ∧ later = next + params.length := by
  unfold paramList at ok
  split at ok
  · obtain ⟨rfl, ids, last⟩ := params_ok ok
    exact ⟨by simp [Scope.bindings, Scope.push], ids, last⟩
  · exact absurd ok Run.faultAt_ne_ok

/-- In the body of a lambda its parameters come before the names around it. -/
theorem lookup_paramList {form : Form} {params : List Binding}
    (declared : elaborator.paramList scope form next = .ok ((params, inner), later))
    (name : String) :
    inner.lookup name = (Scope.find? params name).or (scope.lookup name) := by
  unfold paramList at declared
  split at declared
  · obtain ⟨rfl, -, -⟩ := params_ok declared
    rw [Scope.lookup, List.findSome?_cons, Scope.lookup]
    simp only [Scope.push, List.nil_append]
    cases Scope.find? params name <;> rfl
  · exact absurd declared Run.faultAt_ne_ok

/-! ## Elaborated expressions are well typed -/

mutual

/-- Elaboration gives no identity back. -/
theorem Elaborates.next_le {form : Form} {scope : Scope} {depth next later : Nat} {expr : Expr} :
    Elaborates elaborator scope depth form next expr later → next ≤ later
  | .constant .. | .variable .. | .typeOf .. | .defaultOf .. => Nat.le_refl _
  | .list _ parts _ | .map _ _ parts _ => parts.next_le
  | .unary _ _ part _ => part.next_le
  | .typeIs _ _ _ part _ | .typeAs _ _ _ part _ | .convert _ _ _ part _ => part.next_le
  | .binary _ _ left right _ => Nat.le_trans left.next_le right.next_le
  | .nary _ _ first rest _ => Nat.le_trans first.next_le rest.next_le
  | .conditional _ _ condition yes no _ =>
    Nat.le_trans condition.next_le (Nat.le_trans yes.next_le no.next_le)
  | .index _ _ target args _ => Nat.le_trans target.next_le args.next_le
  | .construct _ _ _ args _ => args.next_le
  | .lambda _ _ declared body => by
    obtain ⟨-, -, middle⟩ := paramList_ok declared
    have bodyLe := body.next_le
    omega

theorem ElaboratesAll.next_le {forms : List Form} {scope : Scope} {depth next later : Nat}
    {exprs : List Expr} :
    ElaboratesAll elaborator scope depth forms next exprs later → next ≤ later
  | .nil => Nat.le_refl _
  | .cons first rest => Nat.le_trans first.next_le rest.next_le

end

end Elaborator

/-- The scope of a lambda's body lies below what is left of the supply. -/
theorem Scope.below_of_params {scope inner : Scope} {next : Nat} {params : List Binding}
    (below : scope.Below next) (bindings : inner.bindings = params ++ scope.bindings)
    (ids : params.map (·.id) = List.range' next params.length) :
    inner.Below (next + params.length) := by
  intro binding belongs
  rw [bindings] at belongs
  rcases List.mem_append.mp belongs with param | outer
  · have drawn : binding.id ∈ params.map (·.id) := List.mem_map_of_mem param
    rw [ids, List.mem_range'_1] at drawn
    exact drawn.2
  · have older := below binding outer
    omega

theorem Scope.Below.mono {scope : Scope} {next later : Nat} (below : scope.Below next)
    (le : next ≤ later) : scope.Below later :=
  fun binding belongs => Nat.lt_of_lt_of_le (below binding belongs) le

namespace Elaborator

variable {elaborator : Elaborator}

mutual

/-- What elaboration makes in a scope is well typed in the bindings of the scope. -/
theorem Elaborates.typed {form : Form} {scope : Scope} {depth next later : Nat} {expr : Expr}
    (below : scope.Below next) :
    Elaborates elaborator scope depth form next expr later →
      Typed elaborator.registry scope.bindings expr
  | .constant _ literal => .constant (ty_of_constant? literal)
  | .variable _ _ bound => .variable (Scope.mem_bindings_of_lookup bound)
  | .list _ parts rule => typed_list (parts.typed below) rule
  | .map _ _ parts rule =>
    typed_map (fun _ belongs => parts.typed below _ (mem_of_mem_pairs belongs).1)
      (fun _ belongs => parts.typed below _ (mem_of_mem_pairs belongs).2) rule
  | .unary _ _ part rule => typed_unary (part.typed below) rule
  | .binary _ _ left right rule =>
    typed_binary (left.typed below) (right.typed (below.mono left.next_le)) rule
  | .nary _ _ first rest rule =>
    typed_nary (first.typed below) (rest.typed (below.mono first.next_le)) rule
  | .conditional _ _ condition yes no rule =>
    typed_conditional (condition.typed below) (yes.typed (below.mono condition.next_le))
      (no.typed (below.mono (Nat.le_trans condition.next_le yes.next_le))) rule
  | .index _ _ target args rule =>
    typed_index (target.typed below) (args.typed (below.mono target.next_le)) rule
  | .typeIs _ _ _ part rule => by
    cases rule
    exact .typeIs (part.typed below)
  | .typeAs _ _ _ part rule => typed_typeAs (part.typed below) rule
  | .convert _ _ _ part rule => typed_convert (part.typed below) rule
  | .typeOf .. => .typeOf
  | .defaultOf .. => .defaultOf
  | .construct _ _ _ args rule => typed_construct (args.typed below) rule
  | .lambda _ _ declared body => by
    obtain ⟨bindings, ids, rfl⟩ := paramList_ok declared
    -- The body draws behind the parameters, so lambdas in it keep clear of them.
    have bodyTyped := body.typed (Scope.below_of_params below bindings ids)
    rw [bindings] at bodyTyped
    refine .lambda bodyTyped ?_ ?_
    · rw [ids]
      exact List.nodup_range'
    · intro binding belongs drawn
      rw [ids, List.mem_range'_1] at drawn
      have older := below binding belongs
      omega

theorem ElaboratesAll.typed {forms : List Form} {scope : Scope} {depth next later : Nat}
    {exprs : List Expr} (below : scope.Below next) :
    ElaboratesAll elaborator scope depth forms next exprs later →
      ∀ expr ∈ exprs, Typed elaborator.registry scope.bindings expr
  | .nil => by simp
  | .cons first rest => by
    intro expr belongs
    rcases List.mem_cons.mp belongs with rfl | later
    · exact first.typed below
    · exact rest.typed (below.mono first.next_le) expr later

end

end Elaborator

end ExprLang
