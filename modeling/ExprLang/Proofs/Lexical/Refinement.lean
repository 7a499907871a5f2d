import ExprLang.Proofs.Elaboration.Renaming
import ExprLang.Proofs.Elaboration.Rules
import ExprLang.Proofs.Engine.Actions
import ExprLang.Proofs.Lexical.Alike

/-!
# Evaluation by identities refines evaluation by names

An elaborated expression in a frame and the form that it was elaborated from, in scopes of names
that correspond to the frame, end alike (`Elaborates.follows`). The proof is an induction on the
derivation of elaboration, with one lemma for each kind of form.
-/

namespace ExprLang

namespace Elaborator

variable {elaborator : Elaborator} {scope : Scope} {depth next later : Nat} {form : Form}
  {expr : Expr}

/-- What is known of a form at its place is what its expression shows. -/
theorem Elaborates.node_eq (made : elaborator.Elaborates scope depth form next expr later) :
    Place.node ⟨elaborator, scope, depth, next⟩ form = expr.node := by
  rw [Place.node, Place.elaborated, made.ok]

/-- Elaboration goes on behind a form with the rest of the supply. -/
theorem Elaborates.behind_eq (made : elaborator.Elaborates scope depth form next expr later) :
    Place.behind ⟨elaborator, scope, depth, next⟩ form = ⟨elaborator, scope, depth, later⟩ := by
  rw [Place.behind, Place.elaborated, made.ok]

end Elaborator

/-- An evaluation of code of a unit, told in both ways. -/
structure Evaluation where
  units : List Compiled
  compiled : Compiled
  setting : Setting
  scopedHost : ScopedHost
  frame : Frame Value
  scopes : Scopes ScopedValue

namespace Evaluation

variable {evaluation : Evaluation} {place : Place}

/-- Evaluating an expression ends alike with evaluating a form at a place. -/
def Follows (evaluation : Evaluation) (place : Place) (form : Form) (expr : Expr) : Prop :=
  Run.Agree evaluation.units evaluation.compiled
    (evaluation.setting.evaluate evaluation.frame expr)
    (evaluation.scopedHost.evaluate place evaluation.scopes form)

inductive FollowAll (evaluation : Evaluation) : Place → List Form → List Expr → Prop where
  | nil {place : Place} : FollowAll evaluation place [] []
  | cons {place : Place} {form : Form} {expr : Expr} {forms : List Form} {exprs : List Expr}
      (node : place.node form = expr.node) (first : evaluation.Follows place form expr)
      (rest : FollowAll evaluation (place.behind form) forms exprs) :
      FollowAll evaluation place (form :: forms) (expr :: exprs)

theorem FollowAll.types_eq {forms : List Form} {exprs : List Expr}
    (follow : evaluation.FollowAll place forms exprs) :
    place.types forms = exprs.map (·.ty) := by
  induction follow with
  | nil => rfl
  | cons node _ _ ih =>
    rw [Place.types, node, ih, List.map_cons]
    rfl

/-! ## Several forms -/

theorem FollowAll.evaluateAll {forms : List Form} {exprs : List Expr}
    (follow : evaluation.FollowAll place forms exprs) :
    Run.Alike evaluation.compiled.MayReport (List.Forall₂ (Agrees evaluation.units))
      (evaluation.setting.evaluateAll evaluation.frame exprs)
      (evaluation.scopedHost.evaluateAll place evaluation.scopes forms) := by
  induction follow with
  | nil => exact Run.alike_pure .nil
  | cons _ first _ ih =>
    rw [Setting.evaluateAll, ScopedHost.evaluateAll]
    refine first.bind fun value other agrees => ?_
    exact ih.bind fun values others held => Run.alike_pure (.cons agrees held)

theorem isSome_of_rel {α β : Type} {related : α → β → Prop} {first : Option α} {second : Option β}
    (rel : Option.Rel related first second) : second.isSome = first.isSome := by
  cases rel <;> rfl

theorem FollowAll.evaluateEntries {forms : List Form} {exprs : List Expr}
    {before : List (Value × Value)} {otherBefore : List (ScopedValue × ScopedValue)}
    (follow : evaluation.FollowAll place forms exprs)
    (held : List.Forall₂ (AgreeingEntries evaluation.units) before otherBefore) :
    Run.Alike evaluation.compiled.MayReport (List.Forall₂ (AgreeingEntries evaluation.units))
      (evaluation.setting.evaluateEntries evaluation.frame before (pairs exprs))
      (evaluation.scopedHost.evaluateEntries place evaluation.scopes otherBefore forms) := by
  induction exprs using pairs.induct generalizing place forms before otherBefore with
  | case1 keyExpr valueExpr rest ih =>
    cases follow with
    | cons keyNode keyFollows behindKey =>
      cases behindKey with
      | cons _ valueFollows behindValue =>
        rw [pairs, Setting.evaluateEntries, ScopedHost.evaluateEntries]
        refine keyFollows.bind fun key otherKey keyAgrees => ?_
        refine valueFollows.bind fun value otherValue agrees => ?_
        rw [isSome_of_rel (keyAgrees.findEntry? held), keyAgrees.text_eq, keyNode]
        split
        · exact Run.alike_faultAt (by rintro ⟨⟩)
        · exact ih behindValue (List.rel_append held (.cons ⟨keyAgrees, agrees⟩ .nil))
  | case2 exprs short =>
    cases follow with
    | nil => exact Run.alike_pure held
    | cons _ _ rest =>
      cases rest with
      | nil => exact Run.alike_pure held
      | cons => exact absurd rfl (short _ _ _)

/-- A value that decides an operator is its value over any further forms. -/
theorem evaluateChain_of_isDecided {op : BinaryOp} {value : ScopedValue} {host : ScopedHost}
    {scopes : Scopes ScopedValue} {loc : Location} (decided : op.isDecided value.outline = true)
    (forms : List Form) : host.evaluateChain place scopes loc op value forms = pure value := by
  cases forms with
  | nil => rw [ScopedHost.evaluateChain]
  | cons form rest => rw [ScopedHost.evaluateChain, if_pos decided]

/-- A chain of binary expressions follows the forms of its operands, one after the other. -/
theorem FollowAll.evaluateChain {loc : Location} {op : BinaryOp} {first expr : Expr}
    {rest : List Expr} {forms : List Form} {start : Run ScopedValue}
    (folded : Typing.Folded loc op first rest expr)
    (follow : evaluation.FollowAll place forms rest)
    (starts : Run.Agree evaluation.units evaluation.compiled
      (evaluation.setting.evaluate evaluation.frame first) start) :
    Run.Agree evaluation.units evaluation.compiled
      (evaluation.setting.evaluate evaluation.frame expr)
      (start >>= fun value =>
        evaluation.scopedHost.evaluateChain place evaluation.scopes loc op value forms) := by
  induction folded generalizing place forms start with
  | done =>
    cases follow
    simpa only [ScopedHost.evaluateChain, bind_pure] using starts
  | @step ty first second expr rest further ih =>
    cases follow with
    | @cons _ form _ forms _ _ secondFollows restFollows =>
      -- The operator over the first two operands takes the place of the first one.
      have next : Run.Agree evaluation.units evaluation.compiled
          (evaluation.setting.evaluate evaluation.frame (.binary ⟨ty, loc⟩ op first second))
          (start >>= fun value =>
            if op.isDecided value.outline then pure value
            else do
              let other ← evaluation.scopedHost.evaluate place evaluation.scopes form
              Setting.locate loc (value.binary op other)) := by
        rw [Setting.evaluate]
        refine starts.bind fun value other agrees => ?_
        rw [agrees.isDecided_eq]
        split
        · exact Run.alike_pure agrees
        · exact secondFollows.bind fun right otherRight rightAgrees =>
            Run.agree_locate (agrees.binary rightAgrees op)
      have chained := ih restFollows next
      rw [bind_assoc] at chained
      convert chained using 2
      funext value
      rw [ScopedHost.evaluateChain]
      split
      next decided => rw [pure_bind, evaluateChain_of_isDecided decided]
      · rw [bind_assoc]

/-! ## Each kind of form -/

section Kinds

variable {name : String} {headLoc loc : Location} {form : Form} {node : Node} {operand : Expr}

/-- A name in scope has the same value in scopes as its binding has in a frame. -/
theorem follows_atom {text : String} {binding : Binding} {scope : Scope}
    (matched : Corresponds evaluation.units evaluation.compiled scope evaluation.frame
      evaluation.scopes)
    (name : Literal.constant? text = .ok none) (bound : scope.lookup text = some binding) :
    evaluation.Follows place (.atom text loc) (.variable ⟨binding.ty, loc⟩ binding) := by
  unfold Follows
  rw [Setting.evaluate, ScopedHost.evaluate_name _ name]
  cases found : evaluation.frame.lookup binding.id with
  | some value =>
    obtain ⟨other, held, agrees⟩ := matched.present text binding value bound found
    rw [held]
    exact Run.alike_pure agrees
  | none =>
    obtain ⟨absent, lacks⟩ := matched.missing text binding bound found
    have named : binding.name = text := Scope.name_of_lookup bound
    rw [absent, named]
    exact Run.alike_lift (.error lacks.mayReport)

theorem follows_constant {text : String} {datum : Datum} {ty : Ty}
    (literal : Literal.constant? text = .ok (some (datum, ty))) :
    evaluation.Follows place (.atom text loc) (.constant node datum) := by
  unfold Follows
  rw [Setting.evaluate, ScopedHost.evaluate_constant _ literal]
  exact Run.alike_pure .datum

theorem follows_unary {op : UnaryOp} {ty : Ty}
    (head : place.elaborator.heads.get? name = some (.unary op))
    (part : evaluation.Follows place.inside form operand) :
    evaluation.Follows place (.combo .paren [.atom name headLoc, form] loc)
      (.unary ⟨ty, loc⟩ op operand) := by
  unfold Follows Setting.evaluate ScopedHost.evaluate
  simp only [head]
  exact part.bind fun value other agrees => Run.agree_locate (agrees.unary op)

theorem follows_binary {op : BinaryOp} {ty : Ty} {leftForm rightForm : Form} {left right : Expr}
    (head : place.elaborator.heads.get? name = some (.binary op))
    (leftPart : evaluation.Follows place.inside leftForm left)
    (rightPart : evaluation.Follows (place.inside.behind leftForm) rightForm right) :
    evaluation.Follows place (.combo .paren [.atom name headLoc, leftForm, rightForm] loc)
      (.binary ⟨ty, loc⟩ op left right) := by
  unfold Follows Setting.evaluate ScopedHost.evaluate
  simp only [head]
  refine leftPart.bind fun value other agrees => ?_
  rw [agrees.isDecided_eq]
  split
  · exact Run.alike_pure agrees
  · exact rightPart.bind fun right otherRight rightAgrees =>
      Run.agree_locate (agrees.binary rightAgrees op)

theorem follows_nary {op : BinaryOp} {forms : List Form} {first expr : Expr} {rest : List Expr}
    (head : place.elaborator.heads.get? name = some (.nary op))
    (firstPart : evaluation.Follows place.inside form first)
    (restParts : evaluation.FollowAll (place.inside.behind form) forms rest)
    (folded : Typing.Folded loc op first rest expr) :
    evaluation.Follows place (.combo .paren (.atom name headLoc :: form :: forms) loc) expr := by
  unfold Follows ScopedHost.evaluate
  simp only [head]
  exact restParts.evaluateChain folded firstPart

theorem follows_conditional {conditionForm yesForm noForm : Form} {condition yes no : Expr}
    (head : place.elaborator.heads.get? name = some .conditional)
    (conditionNode : place.inside.node conditionForm = condition.node)
    (conditionPart : evaluation.Follows place.inside conditionForm condition)
    (yesPart : evaluation.Follows (place.inside.behind conditionForm) yesForm yes)
    (noPart : evaluation.Follows ((place.inside.behind conditionForm).behind yesForm) noForm no) :
    evaluation.Follows place
      (.combo .paren [.atom name headLoc, conditionForm, yesForm, noForm] loc)
      (.conditional node condition yes no) := by
  unfold Follows Setting.evaluate ScopedHost.evaluate
  simp only [head]
  refine conditionPart.bind fun value other agrees => ?_
  have otherwise : Run.Agree evaluation.units evaluation.compiled
      (liftM (faultAt condition.loc (.conditionValue value.typeName) : Except Diagnostic Value))
      (liftM (faultAt (place.inside.node conditionForm).loc
        (.conditionValue other.outline.typeName) : Except Diagnostic ScopedValue)) := by
    rw [agrees.typeName_eq, conditionNode]
    exact Run.alike_faultAt (by rintro ⟨⟩)
  cases agrees with
  | list | map | function | object => exact otherwise
  | @datum leaf =>
    cases leaf with
    | bool b =>
      cases b with
      | true => exact yesPart
      | false => exact noPart
    | _ => exact otherwise

theorem follows_index (hosts : evaluation.setting.host.Alike evaluation.scopedHost)
    {forms : List Form} {target : Expr} {args : List Expr} {indexer : Indexer}
    (head : place.elaborator.heads.get? name = some .index)
    (targetNode : place.inside.node form = target.node)
    (targetPart : evaluation.Follows place.inside form target)
    (argParts : evaluation.FollowAll (place.inside.behind form) forms args)
    (chosen : (place.elaborator.registry.indexers target.ty).find? (fun indexer =>
      place.elaborator.registry.areAssignable (args.map (·.ty)) indexer.params) = some indexer) :
    evaluation.Follows place (.combo .paren (.atom name headLoc :: form :: forms) loc)
      (.index ⟨indexer.result, loc⟩ indexer target args) := by
  have ty : (place.inside.node form).ty = target.ty := by rw [targetNode, Expr.ty]
  unfold Follows Setting.evaluate ScopedHost.evaluate
  simp only [head, ty, argParts.types_eq, chosen]
  refine targetPart.bind fun value other agrees => ?_
  exact argParts.evaluateAll.bind fun values others held => agree_index hosts agrees held indexer

section TypeNames

variable {tyForm : Form} {target : Ty}
  (home : place.elaborator.registry = evaluation.setting.registry)
  (named : place.elaborator.typeName tyForm = .ok target)

include home named

theorem follows_typeIs (head : place.elaborator.heads.get? name = some .typeIs)
    (part : evaluation.Follows place.inside form operand) :
    evaluation.Follows place (.combo .paren [.atom name headLoc, tyForm, form] loc)
      (.typeIs node target operand) := by
  unfold Follows Setting.evaluate ScopedHost.evaluate
  simp only [head]
  rw [Run.lift_bind_eq named]
  refine part.bind fun value other agrees => ?_
  rw [home, agrees.isInstance_eq]
  exact Run.alike_pure .datum

theorem follows_typeAs (head : place.elaborator.heads.get? name = some .typeAs)
    (part : evaluation.Follows place.inside form operand) :
    evaluation.Follows place (.combo .paren [.atom name headLoc, tyForm, form] loc)
      (.typeAs node target operand) := by
  unfold Follows Setting.evaluate ScopedHost.evaluate
  simp only [head]
  rw [Run.lift_bind_eq named]
  refine part.bind fun value other agrees => Run.alike_pure ?_
  rw [home, agrees.isInstance_eq]
  split
  · exact agrees
  · exact .datum

theorem follows_convert (head : place.elaborator.heads.get? name = some .cast)
    (operandNode : place.inside.node form = operand.node)
    (part : evaluation.Follows place.inside form operand) :
    evaluation.Follows place (.combo .paren [.atom name headLoc, tyForm, form] loc)
      (.convert ⟨target, loc⟩ target operand) := by
  have ty : (place.inside.node form).ty = operand.ty := by rw [operandNode, Expr.ty]
  unfold Follows Setting.evaluate ScopedHost.evaluate
  simp only [head, ty, home]
  rw [Run.lift_bind_eq named]
  exact part.bind fun value other agrees => Run.agree_locate (agrees.convert operand.ty target)

theorem follows_construct (hosts : evaluation.setting.host.Alike evaluation.scopedHost)
    {forms : List Form} {args : List Expr} {constructor : Constructor}
    (head : place.elaborator.heads.get? name = some .construct)
    (argParts : evaluation.FollowAll place.inside forms args)
    (chosen : (evaluation.setting.registry.constructors target).find? (fun constructor =>
      constructor.params == args.map (·.ty)) = some constructor) :
    evaluation.Follows place (.combo .paren (.atom name headLoc :: tyForm :: forms) loc)
      (.construct ⟨target, loc⟩ constructor args) := by
  unfold Follows Setting.evaluate ScopedHost.evaluate
  simp only [head, home]
  rw [Run.lift_bind_eq named]
  simp only [argParts.types_eq, chosen]
  exact argParts.evaluateAll.bind fun values others held =>
    agree_callHost hosts .datum held constructor.callback

omit home

theorem follows_typeOf (head : place.elaborator.heads.get? name = some .typeOf) :
    evaluation.Follows place (.combo .paren [.atom name headLoc, tyForm] loc)
      (.typeOf node target) := by
  unfold Follows Setting.evaluate ScopedHost.evaluate
  simp only [head]
  rw [Run.lift_bind_eq named]
  exact Run.alike_pure .datum

theorem follows_defaultOf (head : place.elaborator.heads.get? name = some .defaultOf) :
    evaluation.Follows place (.combo .paren [.atom name headLoc, tyForm] loc)
      (.defaultOf node target) := by
  unfold Follows Setting.evaluate ScopedHost.evaluate
  simp only [head]
  rw [Run.lift_bind_eq named]
  exact Run.alike_pure .datum

end TypeNames

theorem follows_list {forms : List Form} {items : List Expr} {element : Ty}
    (parts : evaluation.FollowAll place.inside forms items)
    (common : Typing.elementTy place.elaborator.registry loc (items.map (·.ty)) = .ok element) :
    evaluation.Follows place (.combo .square forms loc) (.list node element items) := by
  unfold Follows Setting.evaluate ScopedHost.evaluate
  simp only [parts.types_eq]
  rw [Run.lift_bind_eq common]
  refine parts.evaluateAll.bind fun values others held => ?_
  refine Run.alike_freshId.bind fun id _ same => ?_
  subst same
  exact Run.alike_pure (Agrees.list_iff.mpr held)

theorem follows_map {forms : List Form} {exprs : List Expr} {key value : Ty}
    (parts : evaluation.FollowAll place.inside forms exprs)
    (commonKey : Typing.elementTy place.elaborator.registry loc
      ((pairs exprs).map (·.1.ty)) = .ok key)
    (commonValue : Typing.elementTy place.elaborator.registry loc
      ((pairs exprs).map (·.2.ty)) = .ok value) :
    evaluation.Follows place (.combo .curly forms loc) (.map node key value (pairs exprs)) := by
  have keys : (pairs (place.inside.types forms)).map (·.1) = (pairs exprs).map (·.1.ty) := by
    rw [parts.types_eq, pairs_map, List.map_map]
    rfl
  have values : (pairs (place.inside.types forms)).map (·.2) = (pairs exprs).map (·.2.ty) := by
    rw [parts.types_eq, pairs_map, List.map_map]
    rfl
  unfold Follows Setting.evaluate ScopedHost.evaluate
  simp only [keys, values]
  rw [Run.lift_bind_eq commonKey, Run.lift_bind_eq commonValue]
  refine (parts.evaluateEntries .nil).bind fun entries others held => ?_
  refine Run.alike_freshId.bind fun id _ same => ?_
  subst same
  exact Run.alike_pure (Agrees.map_iff.mpr held)

theorem follows_lambda {scope inner : Scope} {elaborator : Elaborator} {depth next middle id : Nat}
    {paramsForm bodyForm : Form} {params : List Binding} {body : Expr}
    (known : evaluation.compiled ∈ evaluation.units)
    (home : elaborator.registry = evaluation.setting.registry)
    (matched : Corresponds evaluation.units evaluation.compiled scope evaluation.frame
      evaluation.scopes) (below : scope.Below next)
    (contains : evaluation.compiled.unit.root.Contains (Typing.lambda loc id params body))
    (head : elaborator.heads.get? name = some .lambda)
    (declared : elaborator.paramList scope paramsForm next = .ok ((params, inner), middle))
    (bodyPart : elaborator.Elaborates inner (depth + 1) bodyForm middle body id) :
    evaluation.Follows ⟨elaborator, scope, depth, next⟩
      (.combo .paren [.atom name headLoc, paramsForm, bodyForm] loc)
      (Typing.lambda loc id params body) := by
  have lambda : SameLambda evaluation.compiled scope
      ⟨id, params, body, (Typing.lambda loc id params body).ty, evaluation.frame,
        elaborator.registry⟩ _ := .intro below declared bodyPart contains
  have typed : (params.map fun binding => (binding.name, binding.ty)).map (·.2) =
      params.map (·.ty) := by rw [List.map_map]; rfl
  have result : Place.node ⟨elaborator, inner, depth + 1, middle⟩ bodyForm = body.node :=
    bodyPart.node_eq
  have last : (Place.behind ⟨elaborator, inner, depth + 1, middle⟩ bodyForm).next = id := by
    rw [bodyPart.behind_eq]
  have written : Place.params ⟨elaborator, scope, depth + 1, next⟩ paramsForm =
      .ok (params.map fun binding => (binding.name, binding.ty),
        ⟨elaborator, inner, depth + 1, middle⟩) := by
    rw [Place.params, declared]
  unfold Follows Typing.lambda Setting.evaluate ScopedHost.evaluate
  simp only [head, Place.inside]
  rw [Run.lift_bind_eq written]
  simp only [last, typed, result, ← home]
  exact Run.alike_pure (agrees_function known lambda matched)

end Kinds

/-! ## All forms -/

/-- The code is that of a compiled unit, the host does the same on both sides, and the frame and the
scopes hold the same values for a scope. -/
structure Sound (evaluation : Evaluation) (scope : Scope) : Prop where
  known : evaluation.compiled ∈ evaluation.units
  hosts : evaluation.setting.host.Alike evaluation.scopedHost
  matched : Corresponds evaluation.units evaluation.compiled scope evaluation.frame
    evaluation.scopes

end Evaluation

/-- A chain of binary expressions contains its operands. -/
theorem Typing.Folded.contains {whole first expr : Expr} {rest : List Expr} {loc : Location}
    {op : BinaryOp} (folded : Folded loc op first rest expr) (contains : whole.Contains expr) :
    whole.Contains first ∧ ∀ operand ∈ rest, whole.Contains operand := by
  induction folded with
  | done => exact ⟨contains, nofun⟩
  | @step _ first second _ _ _ ih =>
    obtain ⟨node, others⟩ := ih contains
    refine ⟨node.operand (by simp [Expr.operands]), fun operand belongs => ?_⟩
    rcases List.mem_cons.mp belongs with rfl | later
    · exact node.operand (by simp [Expr.operands])
    · exact others operand later

namespace Elaborator

variable {elaborator : Elaborator} {evaluation : Evaluation}

mutual

/-- **Evaluation by identities refines evaluation by names.** What elaboration makes of a form
evaluates as the form does. -/
theorem Elaborates.follows {form : Form} {scope : Scope} {depth next later : Nat} {expr : Expr}
    (sound : evaluation.Sound scope) (home : elaborator.registry = evaluation.setting.registry)
    (below : scope.Below next) (contains : evaluation.compiled.unit.root.Contains expr)
    (made : elaborator.Elaborates scope depth form next expr later) :
    evaluation.Follows ⟨elaborator, scope, depth, next⟩ form expr := by
  match made with
  | .constant _ literal => exact Evaluation.follows_constant literal
  | .variable _ name bound => exact Evaluation.follows_atom sound.matched name bound
  | .list _ parts rule =>
    obtain ⟨element, common, rfl⟩ := Typing.eq_of_list rule
    have inner := parts.follows sound home below fun item belongs => contains.operand belongs
    exact Evaluation.follows_list inner common
  | .map _ paired parts rule =>
    obtain ⟨key, value, commonKey, commonValue, rfl⟩ := Typing.eq_of_map rule
    have inner := parts.follows sound home below fun part belongs =>
      contains.operand (mem_pairs_of_even (parts.length_eq ▸ paired) belongs)
    exact Evaluation.follows_map inner commonKey commonValue
  | .unary _ head part rule =>
    obtain ⟨ty, rfl⟩ := Typing.eq_of_unary rule
    have inner := part.follows sound home below (contains.operand (by simp [Expr.operands]))
    exact Evaluation.follows_unary head inner
  | .binary _ head left right rule =>
    obtain ⟨ty, rfl⟩ := Typing.eq_of_binary rule
    have first := left.follows sound home below (contains.operand (by simp [Expr.operands]))
    have second := right.follows sound home (below.mono left.next_le)
      (contains.operand (by simp [Expr.operands]))
    rw [← left.behind_eq] at second
    exact Evaluation.follows_binary head first second
  | .nary _ head first rest rule =>
    have folded := Typing.folded_of_nary rule
    obtain ⟨inFirst, inRest⟩ := folded.contains contains
    have start := first.follows sound home below inFirst
    have others := rest.follows sound home (below.mono first.next_le) inRest
    rw [← first.behind_eq] at others
    exact Evaluation.follows_nary head start others folded
  | .conditional _ head condition yes no rule =>
    obtain rfl := Typing.eq_of_conditional rule
    have test := condition.follows sound home below (contains.operand (by simp [Expr.operands]))
    have yesFollows := yes.follows sound home (below.mono condition.next_le)
      (contains.operand (by simp [Expr.operands]))
    have noFollows := no.follows sound home
      (below.mono (Nat.le_trans condition.next_le yes.next_le))
      (contains.operand (by simp [Expr.operands]))
    rw [← yes.behind_eq] at noFollows
    rw [← condition.behind_eq] at yesFollows noFollows
    exact Evaluation.follows_conditional head condition.node_eq test yesFollows noFollows
  | .index _ head target args rule =>
    obtain ⟨indexer, chosen, rfl⟩ := Typing.eq_of_index rule
    have start := target.follows sound home below (contains.operand (by simp [Expr.operands]))
    have others := args.follows sound home (below.mono target.next_le) fun arg belongs =>
      contains.operand (by simp [Expr.operands, belongs])
    rw [← target.behind_eq] at others
    exact Evaluation.follows_index sound.hosts head target.node_eq start others chosen
  | .typeIs _ head named part rule =>
    cases rule
    have inner := part.follows sound home below (contains.operand (by simp [Expr.operands]))
    exact Evaluation.follows_typeIs home named head inner
  | .typeAs _ head named part rule =>
    obtain rfl := Typing.eq_of_typeAs rule
    have inner := part.follows sound home below (contains.operand (by simp [Expr.operands]))
    exact Evaluation.follows_typeAs home named head inner
  | .convert _ head named part rule =>
    obtain rfl := Typing.eq_of_convert rule
    have inner := part.follows sound home below (contains.operand (by simp [Expr.operands]))
    exact Evaluation.follows_convert home named head part.node_eq inner
  | .typeOf _ head named => exact Evaluation.follows_typeOf named head
  | .defaultOf _ head named => exact Evaluation.follows_defaultOf named head
  | .construct _ head named args rule =>
    obtain ⟨constructor, chosen, rfl⟩ := Typing.eq_of_construct rule
    have inner := args.follows sound home below fun arg belongs => contains.operand belongs
    rw [home] at chosen
    exact Evaluation.follows_construct home named sound.hosts head inner chosen
  | .lambda _ head declared body =>
    exact Evaluation.follows_lambda sound.known home sound.matched below contains head declared body
termination_by structural made

theorem ElaboratesAll.follows {forms : List Form} {scope : Scope} {depth next later : Nat}
    {exprs : List Expr} (sound : evaluation.Sound scope)
    (home : elaborator.registry = evaluation.setting.registry) (below : scope.Below next)
    (contains : ∀ expr ∈ exprs, evaluation.compiled.unit.root.Contains expr)
    (made : elaborator.ElaboratesAll scope depth forms next exprs later) :
    evaluation.FollowAll ⟨elaborator, scope, depth, next⟩ forms exprs := by
  match made with
  | .nil => exact .nil
  | .cons first rest =>
    rw [List.forall_mem_cons] at contains
    have others := rest.follows sound home (below.mono first.next_le) contains.2
    rw [← first.behind_eq] at others
    exact .cons first.node_eq (first.follows sound home below contains.1) others
termination_by structural made

end

end Elaborator

end ExprLang
