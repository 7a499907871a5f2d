import Mathlib.Order.CompleteBooleanAlgebra
import Mathlib.Order.CompletePartialOrder
import ExprLang.Proofs.Elaboration.Typed
import ExprLang.Proofs.Likeness.Registry
import ExprLang.Proofs.Likeness.Run

/-!
# Elaboration of forms that are alike

Two elaborators that agree on what the atoms of two forms mean, in scopes that do, elaborate forms
that are alike to expressions that are alike, or report failures that are alike
(`Elaborator.Agree.elaborateAt`). They draw as many identities, and what they draw corresponds in
the order of drawing.
-/

namespace ExprLang

/-- Two forms are built alike from atoms with a property, at places that count as the same. -/
inductive Form.Alike (places : Location → Location → Prop) (atoms : String → Prop) :
    Form → Form → Prop where
  | atom {text : String} {loc other : Location} (meant : atoms text) (place : places loc other) :
      Alike places atoms (.atom text loc) (.atom text other)
  | combo {bracket : Bracket} {forms others : List Form} {loc other : Location}
      (parts : List.Forall₂ (Alike places atoms) forms others) (place : places loc other) :
      Alike places atoms (.combo bracket forms loc) (.combo bracket others other)

variable {like : Likeness} {view : View} {atoms : String → Prop} {loc otherLoc : Location}

namespace Form

variable {form other : Form} {places : Location → Location → Prop}

theorem Alike.place (alike : form.Alike places atoms other) : places form.loc other.loc := by
  cases alike with
  | atom _ place => exact place
  | combo _ place => exact place

mutual

/-- The text of a form does not show where it was found. -/
theorem Alike.render_eq {form other : Form} (alike : form.Alike places atoms other) :
    form.render = other.render := by
  match form with
  | .atom text loc =>
    cases alike
    rfl
  | .combo bracket forms loc =>
    cases alike with
    | combo parts => rw [render, render, renderAll_eq parts]
termination_by structural form

theorem renderAll_eq {forms others : List Form}
    (parts : List.Forall₂ (Alike places atoms) forms others) :
    renderAll forms = renderAll others := by
  match forms with
  | [] =>
    cases parts
    rfl
  | [form] =>
    cases parts with
    | cons first rest =>
      cases rest
      exact first.render_eq
  | form :: second :: rest =>
    cases parts with
    | @cons _ other _ others first parts =>
      have further := renderAll_eq parts
      cases others with
      | nil => cases parts
      | cons otherSecond others =>
        calc renderAll (form :: second :: rest)
          _ = form.render ++ ' ' :: renderAll (second :: rest) := rfl
          _ = other.render ++ ' ' :: renderAll (otherSecond :: others) := by
            rw [first.render_eq, further]
          _ = renderAll (other :: otherSecond :: others) := rfl
termination_by structural forms

end

theorem Alike.display_eq (alike : form.Alike places atoms other) :
    form.display = other.display := by
  rw [display, alike.render_eq, display]

end Form

/-- The type of a constant is built in. -/
theorem Literal.over_of_constant? {names : String → Prop} {text : String} {leaf : Datum} {ty : Ty}
    (literal : constant? text = .ok (some (leaf, ty))) : ty.Over names := by
  rw [← ty_of_constant? literal]
  cases leaf <;> trivial

/-! ## The typing rules -/

namespace Typing

variable {registry other : Registry} {operand second left right otherLeft otherRight : Expr}
  {args others : List Expr}

/-- The outcomes of a rule on both sides: nodes that are alike, or reports that are. -/
abbrev Alike (like : Likeness) (view : View) (outcome other : Except Diagnostic Expr) : Prop :=
  Likewise like.places (Expr.Alike like view) outcome other

theorem alike_unary {op : UnaryOp} (place : like.places loc otherLoc)
    (operands : operand.Alike like view second) :
    Alike like view (unary loc op operand) (unary otherLoc op second) := by
  unfold unary
  rw [← operands.ty_eq]
  split
  next ty typed =>
    simp only [unaryTy?, Option.ite_none_right_eq_some, Option.some.injEq] at typed
    obtain ⟨-, rfl⟩ := typed
    exact .ok (.unary ⟨rfl, operands.known, place⟩ operands)
  · exact likewise_faultAt place

/-- A binary operation has a type that is known. -/
theorem binaryTy?_eq (agree : registry.Agree like other) (op : BinaryOp) {x y : Ty}
    (xKnown : x.Over like.names) (yKnown : y.Over like.names) :
    binaryTy? registry op x y = binaryTy? other op x y ∧
      ∀ ty, binaryTy? registry op x y = some ty → ty.Over like.names := by
  have forth := agree.isAssignable_eq xKnown y
  have back := agree.isAssignable_eq yKnown x
  refine ⟨by unfold binaryTy?; rw [forth, back], fun ty typed => ?_⟩
  unfold binaryTy? at typed
  dsimp only at typed
  cases op <;> dsimp only at typed <;> (repeat' split at typed) <;> cases typed <;> trivial

theorem alike_binary (agree : registry.Agree like other) {op : BinaryOp}
    (place : like.places loc otherLoc) (lefts : left.Alike like view otherLeft)
    (rights : right.Alike like view otherRight) :
    Alike like view (binary registry loc op left right)
      (binary other otherLoc op otherLeft otherRight) := by
  obtain ⟨same, known⟩ := binaryTy?_eq agree op lefts.known rights.known
  unfold binary
  rw [← lefts.ty_eq, ← rights.ty_eq, ← same]
  split
  next ty typed => exact .ok (.binary ⟨rfl, known ty typed, place⟩ lefts rights)
  · exact likewise_faultAt place

theorem alike_nary (agree : registry.Agree like other) {op : BinaryOp}
    (place : like.places loc otherLoc) (firsts : operand.Alike like view second)
    (parts : List.Forall₂ (Expr.Alike like view) args others) :
    Alike like view (nary registry loc op operand args) (nary other otherLoc op second others) := by
  unfold nary
  induction parts generalizing operand second with
  | nil => exact .ok firsts
  | cons next _ ih =>
    rw [List.foldlM_cons, List.foldlM_cons]
    exact (alike_binary agree place firsts next).bind fun _ _ nodes => ih nodes

theorem alike_conditional {condition yes no otherCondition otherYes otherNo : Expr}
    (place : like.places loc otherLoc) (conditions : condition.Alike like view otherCondition)
    (yeses : yes.Alike like view otherYes) (nos : no.Alike like view otherNo) :
    Alike like view (conditional loc condition yes no)
      (conditional otherLoc otherCondition otherYes otherNo) := by
  unfold conditional
  rw [← conditions.ty_eq, ← yeses.ty_eq, ← nos.ty_eq]
  split
  · exact likewise_faultAt conditions.place
  · split
    · exact likewise_faultAt place
    · exact .ok (.conditional ⟨rfl, yeses.known, place⟩ conditions yeses nos)

theorem alike_index (agree : registry.Agree like other) (place : like.places loc otherLoc)
    (targets : operand.Alike like view second)
    (parts : List.Forall₂ (Expr.Alike like view) args others) :
    Alike like view (index registry loc operand args) (index other otherLoc second others) := by
  have accepts (indexer : Indexer) :=
    agree.areAssignable_eq (Expr.Alike.types_known parts) indexer.params
  unfold index
  rw [← targets.ty_eq, ← Expr.Alike.types_eq parts, ← agree.indexers _ targets.known]
  simp only [accepts]
  split
  next indexer found =>
    have known := agree.indexersKnown _ targets.known _ (List.mem_of_find?_eq_some found)
    exact .ok (.index ⟨rfl, known.result, place⟩ known.key targets parts)
  · exact likewise_faultAt place

theorem alike_construct (agree : registry.Agree like other) (place : like.places loc otherLoc)
    {ty : Ty} (known : ty.Over like.names)
    (parts : List.Forall₂ (Expr.Alike like view) args others) :
    Alike like view (construct registry loc ty args) (construct other otherLoc ty others) := by
  unfold construct
  rw [← Expr.Alike.types_eq parts, ← agree.constructors _ known]
  dsimp only
  split
  next constructor found =>
    have key := agree.constructorsKnown _ known _ (List.mem_of_find?_eq_some found)
    exact .ok (.construct ⟨rfl, known, place⟩ key parts)
  · exact likewise_faultAt place

theorem alike_typeAs (place : like.places loc otherLoc) {ty : Ty} (known : ty.Over like.names)
    (operands : operand.Alike like view second) :
    Alike like view (typeAs loc ty operand) (typeAs otherLoc ty second) := by
  unfold typeAs
  split
  · exact likewise_faultAt place
  · exact .ok (.typeAs ⟨rfl, known, place⟩ operands)

theorem alike_convert (agree : registry.Agree like other) (place : like.places loc otherLoc)
    {ty : Ty} (known : ty.Over like.names) (operands : operand.Alike like view second) :
    Alike like view (convert registry loc ty operand) (convert other otherLoc ty second) := by
  unfold convert canConvert
  rw [← operands.ty_eq, agree.isAssignable_eq operands.known, agree.isAssignable_eq known]
  split
  · exact .ok (.convert ⟨rfl, known, place⟩ operands)
  · exact likewise_faultAt place

theorem alike_elementTy (agree : registry.Agree like other) (place : like.places loc otherLoc)
    {types : List Ty} (known : ∀ ty ∈ types, ty.Over like.names) :
    Likewise like.places (fun ty second => ty = second ∧ ty.Over like.names)
      (elementTy registry loc types) (elementTy other otherLoc types) := by
  obtain ⟨same, baseKnown⟩ := agree.commonBase?_eq known
  unfold elementTy
  rw [← same]
  split
  next ty found => exact .ok ⟨rfl, baseKnown ty found⟩
  · exact likewise_faultAt place

theorem alike_list (agree : registry.Agree like other) (place : like.places loc otherLoc)
    (parts : List.Forall₂ (Expr.Alike like view) args others) :
    Alike like view (list registry loc args) (list other otherLoc others) := by
  unfold list
  rw [← Expr.Alike.types_eq parts]
  refine (alike_elementTy agree place (Expr.Alike.types_known parts)).bind ?_
  rintro element _ ⟨rfl, known⟩
  exact .ok (.list ⟨rfl, known, place⟩ known parts)

theorem alike_map (agree : registry.Agree like other) (place : like.places loc otherLoc)
    {entries seconds : List (Expr × Expr)}
    (keys : List.Forall₂ (Expr.Alike like view) (entries.map (·.1)) (seconds.map (·.1)))
    (values : List.Forall₂ (Expr.Alike like view) (entries.map (·.2)) (seconds.map (·.2))) :
    Alike like view (map registry loc entries) (map other otherLoc seconds) := by
  have keysKnown := Expr.Alike.types_known keys
  have valuesKnown := Expr.Alike.types_known values
  have sameKeys := Expr.Alike.types_eq keys
  have sameValues := Expr.Alike.types_eq values
  simp only [List.map_map, Function.comp_def] at keysKnown valuesKnown sameKeys sameValues
  unfold map
  rw [← sameKeys, ← sameValues]
  refine (alike_elementTy agree place keysKnown).bind ?_
  rintro key _ ⟨rfl, keyKnown⟩
  refine (alike_elementTy agree place valuesKnown).bind ?_
  rintro value _ ⟨rfl, valueKnown⟩
  exact .ok (.map ⟨rfl, ⟨keyKnown, valueKnown⟩, place⟩ keyKnown valueKnown keys values)

theorem alike_lambda (place : like.places loc otherLoc) {id otherId : Nat}
    (ids : view.lambdas id otherId) {params otherParams : List Binding}
    (bindings : List.Forall₂ (Binding.Alike like view) params otherParams)
    (bodies : left.Alike like view right) :
    Expr.Alike like view (lambda loc id params left)
      (lambda otherLoc otherId otherParams right) := by
  have types : params.map (·.ty) = otherParams.map (·.ty) ∧
      ∀ ty ∈ params.map (·.ty), ty.Over like.names := by
    induction bindings with
    | nil => exact ⟨rfl, nofun⟩
    | cons first _ ih =>
      rw [List.map_cons, List.map_cons, first.ty, ih.1, List.forall_mem_cons]
      exact ⟨rfl, first.ty ▸ first.known, ih.1 ▸ ih.2⟩
  refine .lambda ⟨?_, ⟨Ty.overAll_iff.mpr types.2, bodies.known⟩, place⟩ ids bindings bodies
  rw [types.1, bodies.ty_eq]

end Typing

/-! ## Elaborators and scopes -/

/-- What is drawn from two supplies corresponds in the order of drawing. -/
structure View.Draws (view : View) (start second : Nat) : Prop where
  bindings : ∀ a b, Pairing.drawn start second a b → view.bindings a b
  lambdas : ∀ a b, Pairing.drawn start second a b → view.lambdas a b

/-- Two elaborators give names with a property the same meaning, as types and as heads, and agree on
host types. -/
structure Elaborator.Agree (like : Likeness) (atoms : String → Prop)
    (elaborator other : Elaborator) : Prop where
  registry : elaborator.registry.Agree like other.registry
  resolve : ∀ name, atoms name → elaborator.registry.resolve? name = other.registry.resolve? name
  resolved : ∀ name ty, atoms name → elaborator.registry.resolve? name = some ty →
    ty.Over like.names
  heads : ∀ name, atoms name → elaborator.heads.get? name = other.heads.get? name
  maxDepth : elaborator.maxDepth = other.maxDepth

/-- Names with a property have bindings in two scopes that correspond, or in neither. -/
def Scope.Alike (like : Likeness) (view : View) (atoms : String → Prop) (scope other : Scope) :
    Prop :=
  ∀ name, atoms name → Option.Rel (Binding.Alike like view) (scope.lookup name) (other.lookup name)

/-- Two scopes inside others have corresponding bindings, in the same order, and the scopes around
them are alike. -/
structure Scope.InnerAlike (like : Likeness) (view : View) (atoms : String → Prop)
    (scope other : Scope) : Prop where
  innermost : List.Forall₂ (Binding.Alike like view) scope.innermost other.innermost
  enclosing : ∀ name, atoms name → Option.Rel (Binding.Alike like view)
    (scope.enclosing.findSome? fun bindings => Scope.find? bindings name)
    (other.enclosing.findSome? fun bindings => Scope.find? bindings name)

namespace Scope

variable {scope other : Scope}

theorem Alike.push (alike : scope.Alike like view atoms other) :
    scope.push.InnerAlike like view atoms other.push :=
  ⟨.nil, alike⟩

/-- A name has corresponding bindings in two lists of these, or a binding in neither. -/
theorem rel_find? {bindings others : List Binding}
    (alike : List.Forall₂ (Binding.Alike like view) bindings others) (name : String) :
    Option.Rel (Binding.Alike like view) (find? bindings name) (find? others name) := by
  unfold find?
  induction alike with
  | nil => exact .none
  | cons first _ ih =>
    rw [List.find?_cons, List.find?_cons, first.name]
    split
    · exact .some first
    · exact ih

namespace InnerAlike

theorem alike (inner : scope.InnerAlike like view atoms other) :
    scope.Alike like view atoms other := by
  intro name meant
  have first := rel_find? inner.innermost name
  have further := inner.enclosing name meant
  unfold lookup
  rw [List.findSome?_cons, List.findSome?_cons]
  generalize find? scope.innermost name = found at first ⊢
  generalize find? other.innermost name = otherFound at first ⊢
  cases first with
  | none => exact further
  | some binding => exact .some binding

theorem isSome_local? (inner : scope.InnerAlike like view atoms other) (name : String) :
    (scope.local? name).isSome = (other.local? name).isSome := by
  have rel := rel_find? inner.innermost name
  unfold local?
  generalize find? scope.innermost name = found at rel ⊢
  generalize find? other.innermost name = otherFound at rel ⊢
  cases rel <;> rfl

/-- Definitions of one name and type under corresponding identities keep scopes alike. -/
theorem define (inner : scope.InnerAlike like view atoms other) {id second : Nat} {name : String}
    {ty : Ty} (known : ty.Over like.names) (ids : view.bindings id second)
    (unused : scope.local? name = none) :
    Binding.Alike like view (scope.define id name ty).1 (other.define second name ty).1 ∧
      (scope.define id name ty).2.InnerAlike like view atoms (other.define second name ty).2 := by
  have otherUnused : other.local? name = none := by
    have both := inner.isSome_local? name
    rw [unused] at both
    exact Option.not_isSome_iff_eq_none.mp (by rw [← both]; nofun)
  have made : Binding.Alike like view ⟨id, name, ty⟩ ⟨second, name, ty⟩ := ⟨rfl, rfl, known, ids⟩
  unfold Scope.define
  rw [unused, otherUnused]
  exact ⟨made, List.rel_append inner.innermost (.cons made .nil), inner.enclosing⟩

end InnerAlike

end Scope

/-! ## Forms -/

namespace Elaborator

variable {α β γ δ : Type} {start second : Nat}

/-- Two computations that draw as many identities from their supplies go likewise. -/
abbrev InStep (like : Likeness) (start second : Nat) (related : α → β → Prop) (run : Run α)
    (other : Run β) : Prop :=
  Run.GoLikewise like.places (fun _ : Unit => Pairing.drawn start second) () (fun _ => related)
    run other

theorem inStep_freshId :
    InStep like start second (Pairing.drawn start second) freshId freshId := by
  rintro _ - next other ⟨count, rfl, rfl⟩
  exact .ok ⟨(), le_refl _, ⟨count + 1, rfl, rfl⟩, ⟨count, rfl, rfl⟩⟩

theorem inStep_pure {related : α → β → Prop} {value : α} {other : β} (held : related value other) :
    InStep like start second related (pure value) (pure other) :=
  Run.goLikewise_pure fun _ _ => held

theorem inStep_lift {related : α → β → Prop} {outcome : Except Diagnostic α}
    {other : Except Diagnostic β} (likewise : Likewise like.places related outcome other) :
    InStep like start second related (liftM outcome) (liftM other) :=
  Run.goLikewise_lift (likewise.mono fun _ _ held _ _ => held)

theorem inStep_bind {related : α → β → Prop} {after : γ → δ → Prop} {run : Run α} {other : Run β}
    {rest : α → Run γ} {otherRest : β → Run δ}
    (first : InStep like start second related run other)
    (further : ∀ value otherValue, related value otherValue →
      InStep like start second after (rest value) (otherRest otherValue)) :
    InStep like start second after (run >>= rest) (other >>= otherRest) :=
  Run.GoLikewise.bind first fun _ _ => further

namespace Agree

variable {elaborator other : Elaborator} {scope otherScope : Scope} {form otherForm : Form}
  {forms otherForms : List Form}

/-- Forms that are alike name the same type, which is known. -/
theorem typeName (agree : elaborator.Agree like atoms other)
    (alike : form.Alike like.places atoms otherForm) :
    Likewise like.places (fun ty second => ty = second ∧ ty.Over like.names)
      (elaborator.typeName form) (other.typeName otherForm) := by
  have display := alike.display_eq
  cases alike with
  | @atom name loc otherLoc meant place =>
    unfold Elaborator.typeName
    dsimp only
    rw [← agree.resolve name meant]
    split
    next ty found => exact .ok ⟨rfl, agree.resolved name ty meant found⟩
    · exact likewise_faultAt place
  | combo parts place =>
    refine likewise_faultAt_of_message rfl ?_ rfl place
    unfold Fault.message
    dsimp only
    rw [display]

/-- An atom is the same constant, or a name with bindings that correspond. -/
theorem atom {text : String} (scopes : scope.Alike like view atoms otherScope) (meant : atoms text)
    (place : like.places loc otherLoc) :
    Typing.Alike like view (Elaborator.atom scope text loc)
      (Elaborator.atom otherScope text otherLoc) := by
  unfold Elaborator.atom
  cases literal : Literal.constant? text with
  | error fault => exact likewise_faultAt place
  | ok constant =>
    cases constant with
    | some constant =>
      obtain ⟨leaf, ty⟩ := constant
      exact .ok (.constant ⟨rfl, Literal.over_of_constant? literal, place⟩)
    | none =>
      have bindings := scopes text meant
      dsimp only
      generalize scope.lookup text = found at bindings ⊢
      generalize otherScope.lookup text = otherFound at bindings ⊢
      cases bindings with
      | none => exact likewise_faultAt place
      | some binding => exact .ok (.variable ⟨binding.ty, binding.known, place⟩ binding)

/-- A parameter is declared under identities that correspond. -/
theorem param (agree : elaborator.Agree like atoms other) (draws : view.Draws start second)
    (scopes : scope.InnerAlike like view atoms otherScope)
    (alike : form.Alike like.places atoms otherForm) :
    InStep like start second (fun declared otherDeclared =>
        declared.1.Alike like view otherDeclared.1 ∧
          declared.2.InnerAlike like view atoms otherDeclared.2)
      (elaborator.param scope form) (other.param otherScope otherForm) := by
  have refused : InStep like start second (fun declared otherDeclared =>
        declared.1.Alike like view otherDeclared.1 ∧
          declared.2.InnerAlike like view atoms otherDeclared.2)
      (liftM (faultAt form.loc (.notAParameter form) : Except Diagnostic (Binding × Scope)))
      (liftM (faultAt otherForm.loc (.notAParameter otherForm) :
        Except Diagnostic (Binding × Scope))) := by
    refine inStep_lift (likewise_faultAt_of_message rfl ?_ rfl alike.place)
    unfold Fault.message
    dsimp only
    rw [alike.display_eq]
  cases alike with
  | atom meant place => exact refused
  | @combo bracket forms others loc otherLoc parts place =>
    cases bracket with
    | square | curly => exact refused
    | paren =>
      match forms, others, parts, refused with
      | _, _, .cons tyForms (.cons nameForms .nil), _ =>
        refine inStep_bind (inStep_lift (agree.typeName tyForms)) ?_
        rintro ty _ ⟨rfl, known⟩
        cases nameForms with
        | combo _ place => exact inStep_lift (likewise_faultAt place)
        | @atom name nameLoc otherNameLoc _ _ =>
          have both := scopes.isSome_local? name
          dsimp only
          rw [← both]
          split
          · exact inStep_lift (likewise_faultAt place)
          next unused =>
            refine inStep_bind inStep_freshId fun id otherId ids => inStep_pure ?_
            exact scopes.define known (draws.bindings id otherId ids)
              (Option.not_isSome_iff_eq_none.mp unused)
      | _, _, .nil, refused | _, _, .cons _ .nil, refused
      | _, _, .cons _ (.cons _ (.cons _ _)), refused => exact refused

theorem params (agree : elaborator.Agree like atoms other) (draws : view.Draws start second)
    (scopes : scope.InnerAlike like view atoms otherScope)
    (alike : List.Forall₂ (Form.Alike like.places atoms) forms otherForms) :
    InStep like start second (fun declared otherDeclared =>
        List.Forall₂ (Binding.Alike like view) declared.1 otherDeclared.1 ∧
          declared.2.InnerAlike like view atoms otherDeclared.2)
      (elaborator.params scope forms) (other.params otherScope otherForms) := by
  induction alike generalizing scope otherScope with
  | nil => exact inStep_pure ⟨.nil, scopes⟩
  | cons first _ ih =>
    refine inStep_bind (agree.param draws scopes first) ?_
    rintro ⟨binding, inner⟩ ⟨otherBinding, otherInner⟩ ⟨bindings, inners⟩
    refine inStep_bind (ih inners) ?_
    rintro ⟨rest, last⟩ ⟨otherRest, otherLast⟩ ⟨rests, lasts⟩
    exact inStep_pure ⟨.cons bindings rests, lasts⟩

theorem paramList (agree : elaborator.Agree like atoms other) (draws : view.Draws start second)
    (scopes : scope.Alike like view atoms otherScope)
    (alike : form.Alike like.places atoms otherForm) :
    InStep like start second (fun declared otherDeclared =>
        List.Forall₂ (Binding.Alike like view) declared.1 otherDeclared.1 ∧
          declared.2.InnerAlike like view atoms otherDeclared.2)
      (elaborator.paramList scope form) (other.paramList otherScope otherForm) := by
  cases alike with
  | atom _ place => exact inStep_lift (likewise_faultAt place)
  | @combo bracket _ _ _ _ parts place =>
    cases bracket with
    | paren => exact agree.params draws scopes.push parts
    | square | curly => exact inStep_lift (likewise_faultAt place)

mutual

/-- What follows a leading atom is elaborated alike if the atom means the same head on both sides.
-/
theorem head (agree : elaborator.Agree like atoms other) (draws : view.Draws start second)
    {name : String} {headLoc otherHeadLoc loc otherLoc : Location}
    {operands otherOperands : List Form}
    {depth : Nat} {scope otherScope : Scope} (shallow : depth ≤ elaborator.maxDepth)
    (meant : atoms name) (scopes : scope.Alike like view atoms otherScope)
    (place : like.places loc otherLoc)
    (alike : List.Forall₂ (Form.Alike like.places atoms) operands otherOperands) :
    InStep like start second (Expr.Alike like view)
      (elaborator.elaborateAt scope depth (.combo .paren (.atom name headLoc :: operands) loc))
      (other.elaborateAt otherScope depth
        (.combo .paren (.atom name otherHeadLoc :: otherOperands) otherLoc)) := by
  have refused {fault otherFault : Fault} (same : fault = otherFault) :
      InStep like start second (Expr.Alike like view)
        (liftM (faultAt loc fault : Except Diagnostic Expr))
        (liftM (faultAt otherLoc otherFault : Except Diagnostic Expr)) := by
    subst same
    exact inStep_lift (likewise_faultAt place)
  unfold Elaborator.elaborateAt
  rw [if_neg (Nat.not_lt.mpr shallow), if_neg (Nat.not_lt.mpr (agree.maxDepth ▸ shallow))]
  cases head : elaborator.heads.get? name with
  | none =>
    have otherHead := (agree.heads name meant).symm.trans head
    simp only [head, otherHead]
    exact refused rfl
  | some kind =>
    have otherHead := (agree.heads name meant).symm.trans head
    simp only [head, otherHead]
    -- Every kind of head has one number of operands that is no fault.
    cases kind with
    | unary op =>
      match operands, alike with
      | [form], .cons forms .nil =>
        exact inStep_bind (agree.elaborateAt draws form scopes forms) fun _ _ operands =>
          inStep_lift (Typing.alike_unary place operands)
      | [], .nil => exact refused rfl
      | _ :: _ :: _, .cons _ (.cons _ rest) =>
        exact refused (by simp only [List.length_cons, rest.length_eq])
    | binary op =>
      match operands, alike with
      | [left, right], .cons lefts (.cons rights .nil) =>
        exact inStep_bind (agree.elaborateAt draws left scopes lefts) fun _ _ lefts =>
          inStep_bind (agree.elaborateAt draws right scopes rights) fun _ _ rights =>
            inStep_lift (Typing.alike_binary agree.registry place lefts rights)
      | [], .nil | [_], .cons _ .nil => exact refused rfl
      | _ :: _ :: _ :: _, .cons _ (.cons _ (.cons _ rest)) =>
        exact refused (by simp only [List.length_cons, rest.length_eq])
    | nary op =>
      match operands, alike with
      | first :: rest, .cons firsts rests =>
        exact inStep_bind (agree.elaborateAt draws first scopes firsts) fun _ _ firsts =>
          inStep_bind (agree.elaborateAll draws rest scopes rests) fun _ _ rests =>
            inStep_lift (Typing.alike_nary agree.registry place firsts rests)
      | [], .nil => exact refused rfl
    | conditional =>
      match operands, alike with
      | [condition, yes, no], .cons conditions (.cons yeses (.cons nos .nil)) =>
        refine inStep_bind (agree.elaborateAt draws condition scopes conditions)
          fun _ _ conditions => ?_
        exact
          inStep_bind (agree.elaborateAt draws yes scopes yeses) fun _ _ yeses =>
            inStep_bind (agree.elaborateAt draws no scopes nos) fun _ _ nos =>
              inStep_lift (Typing.alike_conditional place conditions yeses nos)
      | [], .nil | [_], .cons _ .nil | [_, _], .cons _ (.cons _ .nil) => exact refused rfl
      | _ :: _ :: _ :: _ :: _, .cons _ (.cons _ (.cons _ (.cons _ rest))) =>
        exact refused (by simp only [List.length_cons, rest.length_eq])
    | index =>
      match operands, alike with
      | target :: args, .cons targets parts =>
        exact inStep_bind (agree.elaborateAt draws target scopes targets) fun _ _ targets =>
          inStep_bind (agree.elaborateAll draws args scopes parts) fun _ _ parts =>
            inStep_lift (Typing.alike_index agree.registry place targets parts)
      | [], .nil => exact refused rfl
    | typeIs =>
      match operands, alike with
      | [tyForm, form], .cons tyForms (.cons forms .nil) =>
        refine inStep_bind (inStep_lift (agree.typeName tyForms)) ?_
        rintro ty _ ⟨rfl, known⟩
        exact inStep_bind (agree.elaborateAt draws form scopes forms) fun _ _ operands =>
          inStep_lift (.ok (.typeIs ⟨rfl, trivial, place⟩ operands))
      | [], .nil | [_], .cons _ .nil => exact refused rfl
      | _ :: _ :: _ :: _, .cons _ (.cons _ (.cons _ rest)) =>
        exact refused (by simp only [List.length_cons, rest.length_eq])
    | typeAs =>
      match operands, alike with
      | [tyForm, form], .cons tyForms (.cons forms .nil) =>
        refine inStep_bind (inStep_lift (agree.typeName tyForms)) ?_
        rintro ty _ ⟨rfl, known⟩
        exact inStep_bind (agree.elaborateAt draws form scopes forms) fun _ _ operands =>
          inStep_lift (Typing.alike_typeAs place known operands)
      | [], .nil | [_], .cons _ .nil => exact refused rfl
      | _ :: _ :: _ :: _, .cons _ (.cons _ (.cons _ rest)) =>
        exact refused (by simp only [List.length_cons, rest.length_eq])
    | cast =>
      match operands, alike with
      | [tyForm, form], .cons tyForms (.cons forms .nil) =>
        refine inStep_bind (inStep_lift (agree.typeName tyForms)) ?_
        rintro ty _ ⟨rfl, known⟩
        exact inStep_bind (agree.elaborateAt draws form scopes forms) fun _ _ operands =>
          inStep_lift (Typing.alike_convert agree.registry place known operands)
      | [], .nil | [_], .cons _ .nil => exact refused rfl
      | _ :: _ :: _ :: _, .cons _ (.cons _ (.cons _ rest)) =>
        exact refused (by simp only [List.length_cons, rest.length_eq])
    | typeOf =>
      match operands, alike with
      | [tyForm], .cons tyForms .nil =>
        refine inStep_bind (inStep_lift (agree.typeName tyForms)) ?_
        rintro ty _ ⟨rfl, -⟩
        exact inStep_pure (.typeOf ⟨rfl, trivial, place⟩)
      | [], .nil => exact refused rfl
      | _ :: _ :: _, .cons _ (.cons _ rest) =>
        exact refused (by simp only [List.length_cons, rest.length_eq])
    | defaultOf =>
      match operands, alike with
      | [tyForm], .cons tyForms .nil =>
        refine inStep_bind (inStep_lift (agree.typeName tyForms)) ?_
        rintro ty _ ⟨rfl, known⟩
        exact inStep_pure (.defaultOf ⟨rfl, known, place⟩)
      | [], .nil => exact refused rfl
      | _ :: _ :: _, .cons _ (.cons _ rest) =>
        exact refused (by simp only [List.length_cons, rest.length_eq])
    | construct =>
      match operands, alike with
      | tyForm :: args, .cons tyForms parts =>
        refine inStep_bind (inStep_lift (agree.typeName tyForms)) ?_
        rintro ty _ ⟨rfl, known⟩
        exact inStep_bind (agree.elaborateAll draws args scopes parts) fun _ _ parts =>
          inStep_lift (Typing.alike_construct agree.registry place known parts)
      | [], .nil => exact refused rfl
    | lambda =>
      match operands, alike with
      | [params, body], .cons paramForms (.cons bodies .nil) =>
        refine inStep_bind (agree.paramList draws scopes paramForms) ?_
        rintro ⟨bindings, inner⟩ ⟨otherBindings, otherInner⟩ ⟨declared, inners⟩
        refine inStep_bind (agree.elaborateAt draws body inners.alike bodies) fun _ _ bodies => ?_
        refine inStep_bind inStep_freshId fun id otherId ids => inStep_pure ?_
        exact Typing.alike_lambda place (draws.lambdas id otherId ids) declared bodies
      | [], .nil | [_], .cons _ .nil => exact refused rfl
      | _ :: _ :: _ :: _, .cons _ (.cons _ (.cons _ rest)) =>
        exact refused (by simp only [List.length_cons, rest.length_eq])
termination_by structural operands

/-- Forms that are alike elaborate alike. -/
theorem elaborateAt (agree : elaborator.Agree like atoms other) (draws : view.Draws start second)
    (form : Form) {otherForm : Form} {depth : Nat} {scope otherScope : Scope}
    (scopes : scope.Alike like view atoms otherScope)
    (alike : form.Alike like.places atoms otherForm) :
    InStep like start second (Expr.Alike like view) (elaborator.elaborateAt scope depth form)
      (other.elaborateAt otherScope depth otherForm) := by
  have place := alike.place
  by_cases shallow : depth ≤ elaborator.maxDepth
  · have otherShallow : depth ≤ other.maxDepth := agree.maxDepth ▸ shallow
    match form, alike with
    | .atom text loc, .atom meant _ =>
      unfold Elaborator.elaborateAt
      rw [if_neg (Nat.not_lt.mpr shallow), if_neg (Nat.not_lt.mpr otherShallow)]
      exact inStep_lift (Agree.atom scopes meant place)
    | .combo .square items loc, .combo parts _ =>
      unfold Elaborator.elaborateAt
      rw [if_neg (Nat.not_lt.mpr shallow), if_neg (Nat.not_lt.mpr otherShallow)]
      exact inStep_bind (agree.elaborateAll draws items scopes parts) fun _ _ parts =>
        inStep_lift (Typing.alike_list agree.registry place parts)
    | .combo .curly forms loc, .combo parts _ =>
      unfold Elaborator.elaborateAt
      rw [if_neg (Nat.not_lt.mpr shallow), if_neg (Nat.not_lt.mpr otherShallow)]
      dsimp only
      rw [← parts.length_eq]
      split
      · exact inStep_lift (likewise_faultAt place)
      · refine inStep_bind (agree.elaborateAll draws forms scopes parts) fun _ _ parts => ?_
        obtain ⟨keys, values⟩ := forall₂_pairs parts
        exact inStep_lift (Typing.alike_map agree.registry place keys values)
    | .combo .paren [] loc, .combo .nil _ =>
      unfold Elaborator.elaborateAt
      rw [if_neg (Nat.not_lt.mpr shallow), if_neg (Nat.not_lt.mpr otherShallow)]
      exact inStep_lift (likewise_faultAt place)
    | .combo .paren (.combo _ _ _ :: _) loc, .combo (.cons (.combo _ headPlace) _) _ =>
      unfold Elaborator.elaborateAt
      rw [if_neg (Nat.not_lt.mpr shallow), if_neg (Nat.not_lt.mpr otherShallow)]
      exact inStep_lift (likewise_faultAt headPlace)
    | .combo .paren (.atom name headLoc :: operands) loc, .combo (.cons (.atom meant _) parts) _ =>
      exact agree.head draws shallow meant scopes place parts
  · have deep := Nat.lt_of_not_le shallow
    have otherDeep : other.maxDepth < depth := agree.maxDepth ▸ deep
    cases alike with
    | atom | combo =>
      unfold Elaborator.elaborateAt
      rw [if_pos deep, if_pos otherDeep, ← agree.maxDepth]
      exact inStep_lift (likewise_faultAt place)
termination_by structural form

theorem elaborateAll (agree : elaborator.Agree like atoms other) (draws : view.Draws start second)
    (forms : List Form) {otherForms : List Form} {depth : Nat} {scope otherScope : Scope}
    (scopes : scope.Alike like view atoms otherScope)
    (alike : List.Forall₂ (Form.Alike like.places atoms) forms otherForms) :
    InStep like start second (List.Forall₂ (Expr.Alike like view))
      (elaborator.elaborateAll scope depth forms)
      (other.elaborateAll otherScope depth otherForms) := by
  match forms, alike with
  | [], .nil => exact inStep_pure .nil
  | form :: forms, .cons first rest =>
    exact inStep_bind (agree.elaborateAt draws form scopes first) fun _ _ first =>
      inStep_bind (agree.elaborateAll draws forms scopes rest) fun _ _ rest =>
        inStep_pure (.cons first rest)
termination_by structural forms

end

end Agree

end Elaborator

end ExprLang
