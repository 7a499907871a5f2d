import ExprLang.Proofs.Eval.Access
import ExprLang.Proofs.Eval.Results

/-!
# Evaluation of well-typed expressions

Type soundness and progress in one statement. In a frame that covers the context of a well-typed
expression, evaluation ends in a well-typed value of the type of the expression, or in a report that
is explained by one of the parts that were evaluated (`Setting.meets_evaluate`). `Expected` lists,
node by node, which reports a part explains; what the list leaves out cannot happen.

The call of a function value is the evaluation of its body, so the same holds for calls
(`Closure.meets_call`).
-/

namespace ExprLang

namespace Expr

/-- An expression is evaluated, directly or not, for the value of another. The body of a lambda is
no part of the lambda. -/
def IsPart (part whole : Expr) : Prop :=
  Relation.ReflTransGen (fun whole part => part ∈ whole.operands) whole part

theorem isPart_refl (expr : Expr) : expr.IsPart expr :=
  .refl

theorem IsPart.of_operand {part operand whole : Expr} (belongs : operand ∈ whole.operands)
    (isPart : part.IsPart operand) : part.IsPart whole :=
  .head belongs isPart

end Expr

namespace Setting

/-- The reports that a node of an expression explains by itself, its operands left aside. -/
inductive Expected (setting : Setting) (frame : Frame Value) : Expr → Diagnostic → Prop where
  | valueless {node : Node} {binding : Binding} (missing : frame.lookup binding.id = none) :
    Expected setting frame (.variable node binding)
      ((Fault.valueless binding.name).reportAt node.loc)
  | unary {node : Node} {op : UnaryOp} {operand : Expr} (decimal : operand.ty = .decimal) :
    Expected setting frame (.unary node op operand) (Fault.overflow.reportAt node.loc)
  | binary {node : Node} {op : BinaryOp} {left right : Expr} {leftValue rightValue : Value}
      {first second third : Nat} {fault : Fault}
      (leftRun : setting.evaluate frame left first = .ok (leftValue, second))
      (rightRun : setting.evaluate frame right second = .ok (rightValue, third))
      (failed : op.Fails left.ty right.ty leftValue rightValue fault) :
    Expected setting frame (.binary node op left right) (fault.reportAt node.loc)
  | construct {node : Node} {constructor : Constructor} {args : List Expr} {message : String} :
    Expected setting frame (.construct node constructor args)
      ((Fault.host message).reportAt node.loc)
  | index {node : Node} {indexer : Indexer} {target : Expr} {args : List Expr} {fault : Fault}
      (failed : IndexFails fault) :
    Expected setting frame (.index node indexer target args) (fault.reportAt node.loc)
  | convert {node : Node} {target : Ty} {operand : Expr} {value : Value} {first second : Nat}
      {fault : Fault} (run : setting.evaluate frame operand first = .ok (value, second))
      (failed : ConvertFails setting.registry value operand.ty target fault) :
    Expected setting frame (.convert node target operand) (fault.reportAt node.loc)
  | map {node : Node} {key value : Ty} {entries : List (Expr × Expr)} {entry : Expr × Expr}
      {repeated : Value} (belongs : entry ∈ entries) :
    Expected setting frame (.map node key value entries)
      ((Fault.keyRepeated repeated.text).reportAt entry.1.loc)

/-- A report is explained by a part of an expression. -/
def Explained (setting : Setting) (frame : Frame Value) (expr : Expr) (report : Diagnostic) :
    Prop :=
  ∃ part, part.IsPart expr ∧ Expected setting frame part report

variable {setting : Setting} {supplied : Closure Value → Prop} {frame : Frame Value}
  {expr operand : Expr} {report : Diagnostic} {context : List Binding}

theorem Expected.explained (expected : Expected setting frame expr report) :
    Explained setting frame expr report :=
  ⟨expr, expr.isPart_refl, expected⟩

theorem Explained.of_operand (belongs : operand ∈ expr.operands)
    (explained : Explained setting frame operand report) : Explained setting frame expr report := by
  obtain ⟨part, isPart, expected⟩ := explained
  exact ⟨part, isPart.of_operand belongs, expected⟩

/-- What evaluation guarantees of an expression: a well-typed value or an explained report. -/
abbrev Sound (setting : Setting) (supplied : Closure Value → Prop) (frame : Frame Value)
    (expr : Expr) : Prop :=
  ∀ next, (setting.evaluate frame expr).Meets next (WellTyped setting.registry supplied · expr.ty)
    (Explained setting frame expr)

/-- The guarantee of an operand inside of its node. -/
theorem Sound.within (sound : Sound setting supplied frame operand) (whole : Expr)
    (belongs : operand ∈ whole.operands) (next : Nat) :
    (setting.evaluate frame operand).Meets next (WellTyped setting.registry supplied · operand.ty)
      (Explained setting frame whole) :=
  (sound next).mono (fun _ held => held) fun _ explained => explained.of_operand belongs

/-- Operands that are evaluated in order have well-typed values one by one. -/
theorem meets_evaluateAll {exprs : List Expr}
    (sound : ∀ operand ∈ exprs, Sound setting supplied frame operand) (whole : Expr)
    (belong : ∀ operand ∈ exprs, operand ∈ whole.operands) (next : Nat) :
    (setting.evaluateAll frame exprs).Meets next
      (List.Forall₂ (WellTyped setting.registry supplied) · (exprs.map (·.ty)))
      (Explained setting frame whole) := by
  induction exprs generalizing next with
  | nil => exact Run.meets_pure .nil
  | cons first rest ih =>
    rw [List.forall_mem_cons] at sound belong
    refine Run.Meets.bind (sound.1.within whole belong.1 next) fun value later _ held => ?_
    refine Run.Meets.bind (ih sound.2 belong.2 later) fun values _ _ allHeld => ?_
    exact Run.meets_pure (.cons held allHeld)

/-- The entries of a map are made from well-typed keys and values, and a repeated key is reported at
the place of its expression. -/
theorem meets_evaluateEntries {node : Node} {key value : Ty} {entries all : List (Expr × Expr)}
    {before : List (Value × Value)} (hostBased : setting.registry.HostBased)
    (belong : ∀ entry ∈ entries, entry ∈ all)
    (keysSound : ∀ entry ∈ all, Sound setting supplied frame entry.1)
    (valuesSound : ∀ entry ∈ all, Sound setting supplied frame entry.2)
    (keysBelow : ∀ entry ∈ all, setting.registry.isAssignable entry.1.ty key = true)
    (valuesBelow : ∀ entry ∈ all, setting.registry.isAssignable entry.2.ty value = true)
    (made : ∀ entry ∈ before, WellTyped setting.registry supplied entry.1 key ∧
      WellTyped setting.registry supplied entry.2 value) (next : Nat) :
    (setting.evaluateEntries frame before entries).Meets next
      (fun values => ∀ entry ∈ values, WellTyped setting.registry supplied entry.1 key ∧
        WellTyped setting.registry supplied entry.2 value)
      (Explained setting frame (.map node key value all)) := by
  induction entries generalizing before next with
  | nil => exact Run.meets_pure made
  | cons entry rest ih =>
    rw [List.forall_mem_cons] at belong
    obtain ⟨here, later⟩ := belong
    have keyOperand : entry.1 ∈ (Expr.map node key value all).operands :=
      List.mem_append_left _ (List.mem_map_of_mem here)
    have valueOperand : entry.2 ∈ (Expr.map node key value all).operands :=
      List.mem_append_right _ (List.mem_map_of_mem here)
    refine Run.Meets.bind ((keysSound entry here).within _ keyOperand next)
      fun keyValue middle _ keyHeld => ?_
    refine Run.Meets.bind ((valuesSound entry here).within _ valueOperand middle)
      fun heldValue last _ valueHeld => ?_
    split
    · exact Run.meets_faultAt (Expected.map here).explained
    · refine ih later (fun other belongs => ?_) last
      rcases List.mem_append.mp belongs with earlier | new
      · exact made other earlier
      · obtain rfl := List.mem_singleton.mp new
        exact ⟨keyHeld.weaken hostBased (keysBelow entry here),
          valueHeld.weaken hostBased (valuesBelow entry here)⟩

section Nodes

variable {loc : Location} {ty : Ty} {exprs : List Expr}

theorem sound_constant {datum : Datum} (rule : datum.ty?.getD .object = ty) :
    Sound setting supplied frame (.constant ⟨ty, loc⟩ datum) := by
  intro next
  refine Run.meets_pure ?_
  cases shown : datum.ty? with
  | none =>
    rw [shown] at rule
    cases datum <;> cases shown
    subst rule
    exact .null rfl
  | some actual =>
    rw [shown] at rule
    subst rule
    exact .datum shown (setting.registry.isAssignable_refl _)

theorem sound_variable {binding : Binding} (bound : binding ∈ context)
    (covered : frame.Covers setting.registry supplied context) :
    Sound setting supplied frame (.variable ⟨binding.ty, loc⟩ binding) := by
  intro next
  simp only [evaluate]
  split
  next value found => exact Run.meets_pure (covered binding bound value found)
  next missing => exact Run.meets_faultAt (Expected.valueless missing).explained

theorem sound_unary (hostBased : setting.registry.HostBased) {op : UnaryOp}
    (part : Sound setting supplied frame operand)
    (rule : Typing.unaryTy? op operand.ty = some ty) :
    Sound setting supplied frame (.unary ⟨ty, loc⟩ op operand) := by
  intro next
  refine Run.Meets.bind (part.within _ (by simp [Expr.operands]) next) fun value later _ held => ?_
  rcases op.apply_suits hostBased held.suits rule with ⟨datum, applied, shown⟩ | ⟨failed, decimal⟩
  · rw [applied]
    exact Run.meets_pure (.datum shown (setting.registry.isAssignable_refl _))
  · rw [failed]
    exact Run.meets_faultAt (Expected.unary decimal).explained

theorem sound_binary (hostBased : setting.registry.HostBased) {op : BinaryOp} {left right : Expr}
    (leftPart : Sound setting supplied frame left) (rightPart : Sound setting supplied frame right)
    (rule : Typing.binaryTy? setting.registry op left.ty right.ty = some ty) :
    Sound setting supplied frame (.binary ⟨ty, loc⟩ op left right) := by
  intro first
  refine Run.Meets.bind (leftPart.within _ (by simp [Expr.operands]) first)
    fun leftValue second leftRun leftHeld => ?_
  split
  -- The left operand decides, and the right one is not evaluated.
  next decided =>
    exact Run.meets_pure (BinaryOp.wellTyped_of_isDecided hostBased leftHeld rule decided)
  next =>
    refine Run.Meets.bind (rightPart.within _ (by simp [Expr.operands]) second)
      fun rightValue third rightRun rightHeld => ?_
    rcases BinaryOp.apply_wellTyped hostBased leftHeld rightHeld rule with
      ⟨value, applied, held⟩ | ⟨fault, failed, fails⟩
    · rw [applied]
      exact Run.meets_pure held
    · rw [failed]
      exact Run.meets_faultAt (Expected.binary leftRun rightRun fails).explained

theorem sound_conditional (hostBased : setting.registry.HostBased) {condition yes no : Expr}
    (conditionPart : Sound setting supplied frame condition)
    (yesPart : Sound setting supplied frame yes) (noPart : Sound setting supplied frame no)
    (bool : condition.ty = .bool) (same : yes.ty = no.ty) :
    Sound setting supplied frame (.conditional ⟨yes.ty, loc⟩ condition yes no) := by
  intro next
  refine Run.Meets.bind (conditionPart.within _ (by simp [Expr.operands]) next)
    fun value later _ held => ?_
  rw [bool] at held
  obtain ⟨datum, rfl, shown⟩ := held.exists_datum hostBased rfl
  obtain ⟨b, rfl⟩ := Datum.eq_bool shown
  cases b with
  | true => exact yesPart.within _ (by simp [Expr.operands]) later
  | false =>
    have chosen := noPart.within (.conditional ⟨yes.ty, loc⟩ condition yes no)
      (by simp [Expr.operands]) later
    rwa [← same] at chosen

theorem sound_construct (sound : setting.host.Sound setting.registry supplied)
    {constructor : Constructor} (parts : ∀ arg ∈ exprs, Sound setting supplied frame arg)
    (declared : constructor ∈ setting.registry.constructors ty)
    (rule : constructor.params = exprs.map (·.ty)) :
    Sound setting supplied frame (.construct ⟨ty, loc⟩ constructor exprs) := by
  intro next
  refine Run.Meets.bind (meets_evaluateAll parts (.construct ⟨ty, loc⟩ constructor exprs)
    (fun _ belongs => belongs) next) fun values later _ held => ?_
  rw [← rule] at held
  refine meets_callHost (fun next result later done => ?_)
    (fun message => Expected.construct.explained) later
  exact sound.constructors ty constructor declared values next result later held done

theorem sound_lambda {id : Nat} {params : List Binding} {body : Expr}
    (typed : Typed setting.registry context (.lambda ⟨ty, loc⟩ id params body))
    (signature : ty = .func (params.map (·.ty)) body.ty)
    (covered : frame.Covers setting.registry supplied context) :
    Sound setting supplied frame (.lambda ⟨ty, loc⟩ id params body) := by
  intro next
  refine Run.meets_pure (.function signature ?_ (.made rfl typed covered))
  rw [← signature]
  exact setting.registry.isAssignable_refl ty

theorem sound_index (hostBased : setting.registry.HostBased)
    (sound : setting.host.Sound setting.registry supplied) {indexer : Indexer} {target : Expr}
    (targetPart : Sound setting supplied frame target)
    (argParts : ∀ arg ∈ exprs, Sound setting supplied frame arg)
    (declared : indexer ∈ setting.registry.indexers target.ty)
    (rule : setting.registry.areAssignable (exprs.map (·.ty)) indexer.params = true) :
    Sound setting supplied frame (.index ⟨indexer.result, loc⟩ indexer target exprs) := by
  intro next
  refine Run.Meets.bind (targetPart.within _ List.mem_cons_self next)
    fun targetValue middle _ targetHeld => ?_
  refine Run.Meets.bind
    (meets_evaluateAll argParts (.index ⟨indexer.result, loc⟩ indexer target exprs)
      (fun _ belongs => List.mem_cons_of_mem _ belongs) middle) fun values later _ held => ?_
  have argsHeld := forall₂_weaken hostBased held rule
  refine (meets_index hostBased sound declared targetHeld argsHeld later).mono
    (fun _ resultHeld => resultHeld) ?_
  rintro report ⟨fault, failed, rfl⟩
  exact (Expected.index failed).explained

theorem sound_typeIs {target : Ty} (part : Sound setting supplied frame operand) :
    Sound setting supplied frame (.typeIs ⟨.bool, loc⟩ target operand) := by
  intro next
  refine Run.Meets.bind (part.within _ (by simp [Expr.operands]) next) fun value later _ held => ?_
  exact Run.meets_pure (.datum rfl (setting.registry.isAssignable_refl _))

theorem wellTyped_of_isInstance {value : Value} {target : Ty}
    (held : WellTyped setting.registry supplied value ty)
    (fits : setting.isInstance value target = true) :
    WellTyped setting.registry supplied value target := by
  unfold isInstance at fits
  split at fits
  next actual shown => exact held.of_ty? shown fits
  · cases fits

theorem sound_typeAs {target : Ty} (part : Sound setting supplied frame operand)
    (reference : target.isValueType = false) :
    Sound setting supplied frame (.typeAs ⟨target, loc⟩ target operand) := by
  intro next
  refine Run.Meets.bind (part.within _ (by simp [Expr.operands]) next) fun value later _ held => ?_
  refine Run.meets_pure ?_
  split
  next fits => exact wellTyped_of_isInstance held fits
  next => exact .null reference

theorem sound_convert {target : Ty} (part : Sound setting supplied frame operand) :
    Sound setting supplied frame (.convert ⟨target, loc⟩ target operand) := by
  intro next
  refine Run.Meets.bind (part.within _ (by simp [Expr.operands]) next)
    fun value later run held => ?_
  rcases setting.convert_wellTyped target held with
    ⟨result, converted, resultHeld⟩ | ⟨fault, failed, fails⟩
  · rw [converted]
    exact Run.meets_pure resultHeld
  · rw [failed]
    exact Run.meets_faultAt (Expected.convert run fails).explained

theorem sound_list (hostBased : setting.registry.HostBased) {element : Ty}
    (parts : ∀ item ∈ exprs, Sound setting supplied frame item)
    (below : ∀ item ∈ exprs, setting.registry.isAssignable item.ty element = true) :
    Sound setting supplied frame (.list ⟨.list element, loc⟩ element exprs) := by
  intro next
  refine Run.Meets.bind (meets_evaluateAll parts (.list ⟨.list element, loc⟩ element exprs)
    (fun _ belongs => belongs) next) fun values later _ held => ?_
  refine Run.Meets.bind Run.meets_freshId fun id last _ _ => ?_
  refine Run.meets_pure (.list (setting.registry.isAssignable_refl _) ?_)
  exact wellTyped_of_forall₂ hostBased held (by simpa using below)

theorem sound_map (hostBased : setting.registry.HostBased) {key value : Ty}
    {entries : List (Expr × Expr)}
    (keyParts : ∀ entry ∈ entries, Sound setting supplied frame entry.1)
    (valueParts : ∀ entry ∈ entries, Sound setting supplied frame entry.2)
    (keysBelow : ∀ entry ∈ entries, setting.registry.isAssignable entry.1.ty key = true)
    (valuesBelow : ∀ entry ∈ entries, setting.registry.isAssignable entry.2.ty value = true) :
    Sound setting supplied frame (.map ⟨.map key value, loc⟩ key value entries) := by
  intro next
  refine Run.Meets.bind (meets_evaluateEntries hostBased (fun _ belongs => belongs) keyParts
    valueParts keysBelow valuesBelow (by simp) next) fun values later _ held => ?_
  refine Run.Meets.bind Run.meets_freshId fun id last _ _ => ?_
  exact Run.meets_pure (.map (setting.registry.isAssignable_refl _)
    (fun entry belongs => (held entry belongs).1) fun entry belongs => (held entry belongs).2)

end Nodes

/-- **Type soundness and progress.** In a frame that covers the context of a well-typed expression,
evaluation ends in a well-typed value of the type of the expression or in an explained report. -/
theorem meets_evaluate (hostBased : setting.registry.HostBased)
    (sound : setting.host.Sound setting.registry supplied)
    (covered : frame.Covers setting.registry supplied context) {expr : Expr} :
    Typed setting.registry context expr → Sound setting supplied frame expr
  | .constant rule => sound_constant rule
  | .variable bound => sound_variable bound covered
  | .unary part rule => sound_unary hostBased (meets_evaluate hostBased sound covered part) rule
  | .binary left right rule =>
    sound_binary hostBased (meets_evaluate hostBased sound covered left)
      (meets_evaluate hostBased sound covered right) rule
  | .conditional condition yes no bool same =>
    sound_conditional hostBased (meets_evaluate hostBased sound covered condition)
      (meets_evaluate hostBased sound covered yes) (meets_evaluate hostBased sound covered no) bool
      same
  | .construct parts declared rule =>
    sound_construct sound
      (fun arg belongs => meets_evaluate hostBased sound covered (parts arg belongs)) declared rule
  | .lambda part distinct fresh => sound_lambda (.lambda part distinct fresh) rfl covered
  | .index target args declared rule =>
    sound_index hostBased sound (meets_evaluate hostBased sound covered target)
      (fun arg belongs => meets_evaluate hostBased sound covered (args arg belongs)) declared rule
  | .typeIs part => sound_typeIs (meets_evaluate hostBased sound covered part)
  | .typeAs part reference => sound_typeAs (meets_evaluate hostBased sound covered part) reference
  | .convert part _ => sound_convert (meets_evaluate hostBased sound covered part)
  | .typeOf => fun _ => Run.meets_pure (.datum rfl (setting.registry.isAssignable_refl _))
  | .defaultOf => fun _ => Run.meets_pure wellTyped_defaultOf
  | .list parts below =>
    sound_list hostBased
      (fun item belongs => meets_evaluate hostBased sound covered (parts item belongs)) below
  | .map keys values keysBelow valuesBelow =>
    sound_map hostBased
      (fun entry belongs => meets_evaluate hostBased sound covered (keys entry belongs))
      (fun entry belongs => meets_evaluate hostBased sound covered (values entry belongs)) keysBelow
      valuesBelow

end Setting

end ExprLang
