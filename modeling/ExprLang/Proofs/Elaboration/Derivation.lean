import ExprLang.Proofs.Run

/-!
# Derivations of elaboration

The rules of the language read as a relation: `Elaborates` holds of a form and the expression that
it elaborates to, with one rule for each way in which elaboration succeeds. `elaborates_of_ok`
inverts the elaborator once and for all, so what is said about elaborated expressions is proved by
induction on derivations and never looks into the dispatch on heads.
-/

namespace ExprLang.Elaborator

mutual

/-- In a scope, at a depth and with a supply, a form elaborates to an expression and a later
supply. -/
inductive Elaborates (elaborator : Elaborator) : Scope → Nat → Form → Nat → Expr → Nat → Prop where
  | constant {scope : Scope} {depth next : Nat} {text : String} {loc : Location} {datum : Datum}
      {ty : Ty} (shallow : depth ≤ elaborator.maxDepth)
      (literal : Literal.constant? text = .ok (some (datum, ty))) :
      Elaborates elaborator scope depth (.atom text loc) next (.constant ⟨ty, loc⟩ datum) next
  | variable {scope : Scope} {depth next : Nat} {text : String} {loc : Location} {binding : Binding}
      (shallow : depth ≤ elaborator.maxDepth) (name : Literal.constant? text = .ok none)
      (bound : scope.lookup text = some binding) :
      Elaborates elaborator scope depth (.atom text loc) next
        (.variable ⟨binding.ty, loc⟩ binding) next
  | list {scope : Scope} {depth next later : Nat} {forms : List Form} {loc : Location}
      {items : List Expr} {expr : Expr} (shallow : depth ≤ elaborator.maxDepth)
      (parts : ElaboratesAll elaborator scope (depth + 1) forms next items later)
      (rule : Typing.list elaborator.registry loc items = .ok expr) :
      Elaborates elaborator scope depth (.combo .square forms loc) next expr later
  | map {scope : Scope} {depth next later : Nat} {forms : List Form} {loc : Location}
      {exprs : List Expr} {expr : Expr} (shallow : depth ≤ elaborator.maxDepth)
      (paired : forms.length % 2 = 0)
      (parts : ElaboratesAll elaborator scope (depth + 1) forms next exprs later)
      (rule : Typing.map elaborator.registry loc (pairs exprs) = .ok expr) :
      Elaborates elaborator scope depth (.combo .curly forms loc) next expr later
  | unary {scope : Scope} {depth next later : Nat} {name : String} {headLoc loc : Location}
      {op : UnaryOp} {form : Form} {operand expr : Expr} (shallow : depth ≤ elaborator.maxDepth)
      (head : elaborator.heads.get? name = some (.unary op))
      (part : Elaborates elaborator scope (depth + 1) form next operand later)
      (rule : Typing.unary loc op operand = .ok expr) :
      Elaborates elaborator scope depth
        (.combo .paren [.atom name headLoc, form] loc) next expr later
  | binary {scope : Scope} {depth next middle later : Nat} {name : String} {headLoc loc : Location}
      {op : BinaryOp} {leftForm rightForm : Form} {left right expr : Expr}
      (shallow : depth ≤ elaborator.maxDepth)
      (head : elaborator.heads.get? name = some (.binary op))
      (leftPart : Elaborates elaborator scope (depth + 1) leftForm next left middle)
      (rightPart : Elaborates elaborator scope (depth + 1) rightForm middle right later)
      (rule : Typing.binary elaborator.registry loc op left right = .ok expr) :
      Elaborates elaborator scope depth
        (.combo .paren [.atom name headLoc, leftForm, rightForm] loc)
        next expr later
  | nary {scope : Scope} {depth next middle later : Nat} {name : String} {headLoc loc : Location}
      {op : BinaryOp} {form : Form} {forms : List Form} {first expr : Expr} {rest : List Expr}
      (shallow : depth ≤ elaborator.maxDepth)
      (head : elaborator.heads.get? name = some (.nary op))
      (firstPart : Elaborates elaborator scope (depth + 1) form next first middle)
      (restParts : ElaboratesAll elaborator scope (depth + 1) forms middle rest later)
      (rule : Typing.nary elaborator.registry loc op first rest = .ok expr) :
      Elaborates elaborator scope depth (.combo .paren (.atom name headLoc :: form :: forms) loc)
        next expr later
  | conditional {scope : Scope} {depth next second third later : Nat} {name : String}
      {headLoc loc : Location} {conditionForm yesForm noForm : Form} {condition yes no expr : Expr}
      (shallow : depth ≤ elaborator.maxDepth)
      (head : elaborator.heads.get? name = some .conditional)
      (conditionPart : Elaborates elaborator scope (depth + 1) conditionForm next condition second)
      (yesPart : Elaborates elaborator scope (depth + 1) yesForm second yes third)
      (noPart : Elaborates elaborator scope (depth + 1) noForm third no later)
      (rule : Typing.conditional loc condition yes no = .ok expr) :
      Elaborates elaborator scope depth
        (.combo .paren [.atom name headLoc, conditionForm, yesForm, noForm] loc) next expr later
  | index {scope : Scope} {depth next middle later : Nat} {name : String} {headLoc loc : Location}
      {form : Form} {forms : List Form} {target expr : Expr} {args : List Expr}
      (shallow : depth ≤ elaborator.maxDepth)
      (head : elaborator.heads.get? name = some .index)
      (targetPart : Elaborates elaborator scope (depth + 1) form next target middle)
      (argParts : ElaboratesAll elaborator scope (depth + 1) forms middle args later)
      (rule : Typing.index elaborator.registry loc target args = .ok expr) :
      Elaborates elaborator scope depth (.combo .paren (.atom name headLoc :: form :: forms) loc)
        next expr later
  | typeIs {scope : Scope} {depth next later : Nat} {name : String} {headLoc loc : Location}
      {tyForm form : Form} {target : Ty} {operand expr : Expr}
      (shallow : depth ≤ elaborator.maxDepth)
      (head : elaborator.heads.get? name = some .typeIs)
      (named : elaborator.typeName tyForm = .ok target)
      (part : Elaborates elaborator scope (depth + 1) form next operand later)
      (rule : Typing.typeIs loc target operand = .ok expr) :
      Elaborates elaborator scope depth (.combo .paren [.atom name headLoc, tyForm, form] loc)
        next expr later
  | typeAs {scope : Scope} {depth next later : Nat} {name : String} {headLoc loc : Location}
      {tyForm form : Form} {target : Ty} {operand expr : Expr}
      (shallow : depth ≤ elaborator.maxDepth)
      (head : elaborator.heads.get? name = some .typeAs)
      (named : elaborator.typeName tyForm = .ok target)
      (part : Elaborates elaborator scope (depth + 1) form next operand later)
      (rule : Typing.typeAs loc target operand = .ok expr) :
      Elaborates elaborator scope depth (.combo .paren [.atom name headLoc, tyForm, form] loc)
        next expr later
  | convert {scope : Scope} {depth next later : Nat} {name : String} {headLoc loc : Location}
      {tyForm form : Form} {target : Ty} {operand expr : Expr}
      (shallow : depth ≤ elaborator.maxDepth)
      (head : elaborator.heads.get? name = some .cast)
      (named : elaborator.typeName tyForm = .ok target)
      (part : Elaborates elaborator scope (depth + 1) form next operand later)
      (rule : Typing.convert elaborator.registry loc target operand = .ok expr) :
      Elaborates elaborator scope depth (.combo .paren [.atom name headLoc, tyForm, form] loc)
        next expr later
  | typeOf {scope : Scope} {depth next : Nat} {name : String} {headLoc loc : Location}
      {tyForm : Form} {target : Ty} (shallow : depth ≤ elaborator.maxDepth)
      (head : elaborator.heads.get? name = some .typeOf)
      (named : elaborator.typeName tyForm = .ok target) :
      Elaborates elaborator scope depth (.combo .paren [.atom name headLoc, tyForm] loc) next
        (.typeOf ⟨.type, loc⟩ target) next
  | defaultOf {scope : Scope} {depth next : Nat} {name : String} {headLoc loc : Location}
      {tyForm : Form} {target : Ty} (shallow : depth ≤ elaborator.maxDepth)
      (head : elaborator.heads.get? name = some .defaultOf)
      (named : elaborator.typeName tyForm = .ok target) :
      Elaborates elaborator scope depth (.combo .paren [.atom name headLoc, tyForm] loc) next
        (.defaultOf ⟨target, loc⟩ target) next
  | construct {scope : Scope} {depth next later : Nat} {name : String} {headLoc loc : Location}
      {tyForm : Form} {forms : List Form} {ty : Ty} {args : List Expr} {expr : Expr}
      (shallow : depth ≤ elaborator.maxDepth)
      (head : elaborator.heads.get? name = some .construct)
      (named : elaborator.typeName tyForm = .ok ty)
      (argParts : ElaboratesAll elaborator scope (depth + 1) forms next args later)
      (rule : Typing.construct elaborator.registry loc ty args = .ok expr) :
      Elaborates elaborator scope depth (.combo .paren (.atom name headLoc :: tyForm :: forms) loc)
        next expr later
  | lambda {scope inner : Scope} {depth next middle id : Nat} {name : String}
      {headLoc loc : Location} {paramsForm bodyForm : Form} {params : List Binding} {body : Expr}
      (shallow : depth ≤ elaborator.maxDepth)
      (head : elaborator.heads.get? name = some .lambda)
      (declared : elaborator.paramList scope paramsForm next = .ok ((params, inner), middle))
      (bodyPart : Elaborates elaborator inner (depth + 1) bodyForm middle body id) :
      Elaborates elaborator scope depth
        (.combo .paren [.atom name headLoc, paramsForm, bodyForm] loc)
        next (Typing.lambda loc id params body) (id + 1)

inductive ElaboratesAll (elaborator : Elaborator) :
    Scope → Nat → List Form → Nat → List Expr → Nat → Prop where
  | nil {scope : Scope} {depth next : Nat} : ElaboratesAll elaborator scope depth [] next [] next
  | cons {scope : Scope} {depth next middle later : Nat} {form : Form} {forms : List Form}
      {expr : Expr} {exprs : List Expr}
      (first : Elaborates elaborator scope depth form next expr middle)
      (rest : ElaboratesAll elaborator scope depth forms middle exprs later) :
      ElaboratesAll elaborator scope depth (form :: forms) next (expr :: exprs) later

end

variable {elaborator : Elaborator} {scope : Scope} {depth next later : Nat}

/-- An atom elaborates to a constant or to a name in scope. -/
theorem elaborates_of_atom {text : String} {loc : Location} {expr : Expr}
    (shallow : depth ≤ elaborator.maxDepth) (ok : atom scope text loc = .ok expr) :
    Elaborates elaborator scope depth (.atom text loc) next expr next := by
  unfold atom at ok
  split at ok
  · cases ok
  next datum ty literal =>
    cases ok
    exact .constant shallow literal
  next name =>
    split at ok
    next binding bound =>
      cases ok
      exact .variable shallow name bound
    · cases ok

mutual

/-- Every success behind a leading atom has a derivation. -/
theorem elaborates_of_head {name : String} {headLoc loc : Location} {operands : List Form}
    {scope : Scope} {depth next later : Nat} {expr : Expr} (shallow : depth ≤ elaborator.maxDepth)
    (ok : elaborator.elaborateAt scope depth (.combo .paren (.atom name headLoc :: operands) loc)
      next = .ok (expr, later)) :
    Elaborates elaborator scope depth (.combo .paren (.atom name headLoc :: operands) loc) next expr
      later := by
  unfold elaborateAt at ok
  rw [if_neg (Nat.not_lt.mpr shallow)] at ok
  cases head : elaborator.heads.get? name with
  | none =>
    simp only [head] at ok
    exact absurd ok Run.faultAt_ne_ok
  | some kind =>
    simp only [head] at ok
    -- Every kind of head has one number of operands that is no fault.
    cases kind with
    | unary op =>
      match operands with
      | [form] =>
        obtain ⟨operand, middle, part, ok⟩ := Run.bind_ok.mp ok
        obtain ⟨rule, rfl⟩ := Run.lift_ok.mp ok
        exact .unary shallow head (elaborates_of_ok part) rule
      | [] | _ :: _ :: _ => exact absurd ok Run.faultAt_ne_ok
    | binary op =>
      match operands with
      | [leftForm, rightForm] =>
        obtain ⟨left, middle, leftPart, ok⟩ := Run.bind_ok.mp ok
        obtain ⟨right, last, rightPart, ok⟩ := Run.bind_ok.mp ok
        obtain ⟨rule, rfl⟩ := Run.lift_ok.mp ok
        exact .binary shallow head (elaborates_of_ok leftPart) (elaborates_of_ok rightPart) rule
      | [] | [_] | _ :: _ :: _ :: _ => exact absurd ok Run.faultAt_ne_ok
    | nary op =>
      match operands with
      | form :: forms =>
        obtain ⟨first, middle, firstPart, ok⟩ := Run.bind_ok.mp ok
        obtain ⟨rest, last, restParts, ok⟩ := Run.bind_ok.mp ok
        obtain ⟨rule, rfl⟩ := Run.lift_ok.mp ok
        exact .nary shallow head (elaborates_of_ok firstPart) (elaboratesAll_of_ok restParts) rule
      | [] => exact absurd ok Run.faultAt_ne_ok
    | conditional =>
      match operands with
      | [conditionForm, yesForm, noForm] =>
        obtain ⟨condition, second, conditionPart, ok⟩ := Run.bind_ok.mp ok
        obtain ⟨yes, third, yesPart, ok⟩ := Run.bind_ok.mp ok
        obtain ⟨no, last, noPart, ok⟩ := Run.bind_ok.mp ok
        obtain ⟨rule, rfl⟩ := Run.lift_ok.mp ok
        exact .conditional shallow head (elaborates_of_ok conditionPart)
          (elaborates_of_ok yesPart) (elaborates_of_ok noPart) rule
      | [] | [_] | [_, _] | _ :: _ :: _ :: _ :: _ => exact absurd ok Run.faultAt_ne_ok
    | index =>
      match operands with
      | form :: forms =>
        obtain ⟨target, middle, targetPart, ok⟩ := Run.bind_ok.mp ok
        obtain ⟨args, last, argParts, ok⟩ := Run.bind_ok.mp ok
        obtain ⟨rule, rfl⟩ := Run.lift_ok.mp ok
        exact .index shallow head (elaborates_of_ok targetPart) (elaboratesAll_of_ok argParts) rule
      | [] => exact absurd ok Run.faultAt_ne_ok
    | typeIs =>
      match operands with
      | [tyForm, form] =>
        obtain ⟨target, named, ok⟩ := Run.lift_bind_ok.mp ok
        obtain ⟨operand, last, part, ok⟩ := Run.bind_ok.mp ok
        obtain ⟨rule, rfl⟩ := Run.lift_ok.mp ok
        exact .typeIs shallow head named (elaborates_of_ok part) rule
      | [] | [_] | _ :: _ :: _ :: _ => exact absurd ok Run.faultAt_ne_ok
    | typeAs =>
      match operands with
      | [tyForm, form] =>
        obtain ⟨target, named, ok⟩ := Run.lift_bind_ok.mp ok
        obtain ⟨operand, last, part, ok⟩ := Run.bind_ok.mp ok
        obtain ⟨rule, rfl⟩ := Run.lift_ok.mp ok
        exact .typeAs shallow head named (elaborates_of_ok part) rule
      | [] | [_] | _ :: _ :: _ :: _ => exact absurd ok Run.faultAt_ne_ok
    | cast =>
      match operands with
      | [tyForm, form] =>
        obtain ⟨target, named, ok⟩ := Run.lift_bind_ok.mp ok
        obtain ⟨operand, last, part, ok⟩ := Run.bind_ok.mp ok
        obtain ⟨rule, rfl⟩ := Run.lift_ok.mp ok
        exact .convert shallow head named (elaborates_of_ok part) rule
      | [] | [_] | _ :: _ :: _ :: _ => exact absurd ok Run.faultAt_ne_ok
    | typeOf =>
      match operands with
      | [tyForm] =>
        obtain ⟨target, named, ok⟩ := Run.lift_bind_ok.mp ok
        obtain ⟨rfl, rfl⟩ := Run.pure_ok.mp ok
        exact .typeOf shallow head named
      | [] | _ :: _ :: _ => exact absurd ok Run.faultAt_ne_ok
    | defaultOf =>
      match operands with
      | [tyForm] =>
        obtain ⟨target, named, ok⟩ := Run.lift_bind_ok.mp ok
        obtain ⟨rfl, rfl⟩ := Run.pure_ok.mp ok
        exact .defaultOf shallow head named
      | [] | _ :: _ :: _ => exact absurd ok Run.faultAt_ne_ok
    | construct =>
      match operands with
      | tyForm :: forms =>
        obtain ⟨ty, named, ok⟩ := Run.lift_bind_ok.mp ok
        obtain ⟨args, last, argParts, ok⟩ := Run.bind_ok.mp ok
        obtain ⟨rule, rfl⟩ := Run.lift_ok.mp ok
        exact .construct shallow head named (elaboratesAll_of_ok argParts) rule
      | [] => exact absurd ok Run.faultAt_ne_ok
    | lambda =>
      match operands with
      | [paramsForm, bodyForm] =>
        obtain ⟨⟨params, inner⟩, middle, declared, ok⟩ := Run.bind_ok.mp ok
        obtain ⟨body, id, bodyPart, ok⟩ := Run.bind_ok.mp ok
        obtain ⟨drawn, last, fresh, ok⟩ := Run.bind_ok.mp ok
        obtain ⟨rfl, rfl⟩ := Run.freshId_ok.mp fresh
        obtain ⟨rfl, rfl⟩ := Run.pure_ok.mp ok
        exact .lambda shallow head declared (elaborates_of_ok bodyPart)
      | [] | [_] | _ :: _ :: _ :: _ => exact absurd ok Run.faultAt_ne_ok
termination_by structural operands

/-- Every success of elaboration has a derivation. -/
theorem elaborates_of_ok {form : Form} {scope : Scope} {depth next later : Nat} {expr : Expr}
    (ok : elaborator.elaborateAt scope depth form next = .ok (expr, later)) :
    Elaborates elaborator scope depth form next expr later := by
  match form with
  | .atom text loc =>
    unfold elaborateAt at ok
    split at ok
    · exact absurd ok Run.faultAt_ne_ok
    next shallow =>
      obtain ⟨atomOk, rfl⟩ := Run.lift_ok.mp ok
      exact elaborates_of_atom (Nat.le_of_not_lt shallow) atomOk
  | .combo .square forms loc =>
    unfold elaborateAt at ok
    split at ok
    · exact absurd ok Run.faultAt_ne_ok
    next shallow =>
      obtain ⟨items, middle, parts, ok⟩ := Run.bind_ok.mp ok
      obtain ⟨rule, rfl⟩ := Run.lift_ok.mp ok
      exact .list (Nat.le_of_not_lt shallow) (elaboratesAll_of_ok parts) rule
  | .combo .curly forms loc =>
    unfold elaborateAt at ok
    split at ok
    · exact absurd ok Run.faultAt_ne_ok
    next shallow =>
      dsimp only at ok
      split at ok
      · exact absurd ok Run.faultAt_ne_ok
      next paired =>
        obtain ⟨exprs, middle, parts, ok⟩ := Run.bind_ok.mp ok
        obtain ⟨rule, rfl⟩ := Run.lift_ok.mp ok
        exact .map (Nat.le_of_not_lt shallow) (Decidable.not_not.mp paired)
          (elaboratesAll_of_ok parts) rule
  | .combo .paren [] loc =>
    unfold elaborateAt at ok
    split at ok
    · exact absurd ok Run.faultAt_ne_ok
    · exact absurd ok Run.faultAt_ne_ok
  | .combo .paren (.combo .. :: _) loc =>
    unfold elaborateAt at ok
    split at ok
    · exact absurd ok Run.faultAt_ne_ok
    · exact absurd ok Run.faultAt_ne_ok
  | .combo .paren (.atom name headLoc :: operands) loc =>
    by_cases shallow : depth ≤ elaborator.maxDepth
    · exact elaborates_of_head shallow ok
    · unfold elaborateAt at ok
      rw [if_pos (Nat.lt_of_not_le shallow)] at ok
      exact absurd ok Run.faultAt_ne_ok
termination_by structural form

theorem elaboratesAll_of_ok {forms : List Form} {scope : Scope} {depth next later : Nat}
    {exprs : List Expr}
    (ok : elaborator.elaborateAll scope depth forms next = .ok (exprs, later)) :
    ElaboratesAll elaborator scope depth forms next exprs later := by
  match forms with
  | [] =>
    obtain ⟨rfl, rfl⟩ := Run.pure_ok.mp ok
    exact .nil
  | form :: forms =>
    obtain ⟨expr, middle, first, ok⟩ := Run.bind_ok.mp ok
    obtain ⟨exprs, last, rest, ok⟩ := Run.bind_ok.mp ok
    obtain ⟨rfl, rfl⟩ := Run.pure_ok.mp ok
    exact .cons (elaborates_of_ok first) (elaboratesAll_of_ok rest)
termination_by structural forms

end

/-- Each form makes one expression. -/
theorem ElaboratesAll.length_eq {forms : List Form} {exprs : List Expr}
    (made : ElaboratesAll elaborator scope depth forms next exprs later) :
    exprs.length = forms.length := by
  induction forms generalizing next exprs with
  | nil =>
    cases made
    rfl
  | cons form forms ih =>
    cases made with
    | cons first rest => rw [List.length_cons, List.length_cons, ih rest]

/-- What elaborates at a depth is not deeper than the limit. -/
theorem Elaborates.shallow {form : Form} {expr : Expr}
    (made : Elaborates elaborator scope depth form next expr later) :
    depth ≤ elaborator.maxDepth := by
  cases made <;> assumption

/-- A form with the head of an operator over many operands elaborates them and folds the operator over
what they make. -/
theorem Elaborates.nary_inv {name : String} {headLoc loc : Location} {op : BinaryOp}
    {operands : List Form} {expr : Expr} (head : elaborator.heads.get? name = some (.nary op))
    (made : Elaborates elaborator scope depth (.combo .paren (.atom name headLoc :: operands) loc)
      next expr later) :
    ∃ form forms first rest middle, operands = form :: forms ∧
      Elaborates elaborator scope (depth + 1) form next first middle ∧
      ElaboratesAll elaborator scope (depth + 1) forms middle rest later ∧
      Typing.nary elaborator.registry loc op first rest = .ok expr := by
  cases made with
  | nary _ other firstPart restParts rule =>
    cases head.symm.trans other
    exact ⟨_, _, _, _, _, rfl, firstPart, restParts, rule⟩
  | unary _ other | binary _ other | conditional _ other | index _ other | typeIs _ other
  | typeAs _ other | convert _ other | typeOf _ other | defaultOf _ other | construct _ other
  | lambda _ other => cases head.symm.trans other

/-- An access elaborates its target and its arguments. -/
theorem Elaborates.index_inv {name : String} {headLoc loc : Location} {form : Form}
    {forms : List Form} {expr : Expr} (head : elaborator.heads.get? name = some .index)
    (made : Elaborates elaborator scope depth (.combo .paren (.atom name headLoc :: form :: forms) loc)
      next expr later) :
    ∃ target args middle, Elaborates elaborator scope (depth + 1) form next target middle ∧
      ElaboratesAll elaborator scope (depth + 1) forms middle args later ∧
      Typing.index elaborator.registry loc target args = .ok expr := by
  cases made with
  | index _ _ targetPart argParts rule => exact ⟨_, _, _, targetPart, argParts, rule⟩
  | unary _ other | binary _ other | nary _ other | conditional _ other | typeIs _ other
  | typeAs _ other | convert _ other | typeOf _ other | defaultOf _ other | construct _ other
  | lambda _ other => cases head.symm.trans other

/-- Forms that elaborate one behind the other elaborate together. -/
theorem ElaboratesAll.append {forms others : List Form} {exprs otherExprs : List Expr} {middle : Nat}
    (first : ElaboratesAll elaborator scope depth forms next exprs middle)
    (rest : ElaboratesAll elaborator scope depth others middle otherExprs later) :
    ElaboratesAll elaborator scope depth (forms ++ others) next (exprs ++ otherExprs) later := by
  induction forms generalizing next exprs with
  | nil =>
    cases first
    exact rest
  | cons form forms ih =>
    cases first with
    | cons here first => exact .cons here (ih first)

theorem ElaboratesAll.append_inv {forms others : List Form} {exprs : List Expr}
    (made : ElaboratesAll elaborator scope depth (forms ++ others) next exprs later) :
    ∃ firstExprs otherExprs middle, exprs = firstExprs ++ otherExprs ∧
      ElaboratesAll elaborator scope depth forms next firstExprs middle ∧
      ElaboratesAll elaborator scope depth others middle otherExprs later := by
  induction forms generalizing next exprs with
  | nil => exact ⟨[], exprs, next, rfl, .nil, made⟩
  | cons form forms ih =>
    cases made with
    | cons here further =>
      obtain ⟨firstExprs, otherExprs, middle, rfl, first, rest⟩ := ih further
      exact ⟨_, otherExprs, middle, rfl, .cons here first, rest⟩

/-! ## Derivations are successes -/

theorem elaborateAt_atom {text : String} {loc : Location} {expr : Expr}
    (shallow : depth ≤ elaborator.maxDepth) (made : atom scope text loc = .ok expr) :
    elaborator.elaborateAt scope depth (.atom text loc) next = .ok (expr, next) := by
  rw [elaborateAt, if_neg (Nat.not_lt.mpr shallow)]
  exact Run.lift_ok.mpr ⟨made, rfl⟩

mutual

/-- Elaboration finds what has a derivation. -/
theorem Elaborates.ok {form : Form} {scope : Scope} {depth next later : Nat} {expr : Expr}
    (made : Elaborates elaborator scope depth form next expr later) :
    elaborator.elaborateAt scope depth form next = .ok (expr, later) := by
  match made with
  | .constant shallow literal => exact elaborateAt_atom shallow (by rw [atom, literal])
  | .variable shallow name bound =>
    refine elaborateAt_atom shallow ?_
    rw [atom, name]
    dsimp only
    rw [bound]
  | .list shallow parts rule =>
    rw [elaborateAt, if_neg (Nat.not_lt.mpr shallow)]
    exact Run.bind_ok.mpr ⟨_, _, parts.ok, Run.lift_ok.mpr ⟨rule, rfl⟩⟩
  | .map shallow paired parts rule =>
    rw [elaborateAt, if_neg (Nat.not_lt.mpr shallow)]
    dsimp only
    rw [if_neg (not_not_intro paired)]
    exact Run.bind_ok.mpr ⟨_, _, parts.ok, Run.lift_ok.mpr ⟨rule, rfl⟩⟩
  | .unary shallow head part rule =>
    rw [elaborateAt, if_neg (Nat.not_lt.mpr shallow)]
    simp only [head]
    exact Run.bind_ok.mpr ⟨_, _, part.ok, Run.lift_ok.mpr ⟨rule, rfl⟩⟩
  | .binary shallow head leftPart rightPart rule =>
    rw [elaborateAt, if_neg (Nat.not_lt.mpr shallow)]
    simp only [head]
    refine Run.bind_ok.mpr ⟨_, _, leftPart.ok, ?_⟩
    exact Run.bind_ok.mpr ⟨_, _, rightPart.ok, Run.lift_ok.mpr ⟨rule, rfl⟩⟩
  | .nary shallow head firstPart restParts rule =>
    rw [elaborateAt, if_neg (Nat.not_lt.mpr shallow)]
    simp only [head]
    refine Run.bind_ok.mpr ⟨_, _, firstPart.ok, ?_⟩
    exact Run.bind_ok.mpr ⟨_, _, restParts.ok, Run.lift_ok.mpr ⟨rule, rfl⟩⟩
  | .conditional shallow head conditionPart yesPart noPart rule =>
    rw [elaborateAt, if_neg (Nat.not_lt.mpr shallow)]
    simp only [head]
    refine Run.bind_ok.mpr ⟨_, _, conditionPart.ok, ?_⟩
    refine Run.bind_ok.mpr ⟨_, _, yesPart.ok, ?_⟩
    exact Run.bind_ok.mpr ⟨_, _, noPart.ok, Run.lift_ok.mpr ⟨rule, rfl⟩⟩
  | .index shallow head targetPart argParts rule =>
    rw [elaborateAt, if_neg (Nat.not_lt.mpr shallow)]
    simp only [head]
    refine Run.bind_ok.mpr ⟨_, _, targetPart.ok, ?_⟩
    exact Run.bind_ok.mpr ⟨_, _, argParts.ok, Run.lift_ok.mpr ⟨rule, rfl⟩⟩
  | .typeIs shallow head named part rule | .typeAs shallow head named part rule
  | .convert shallow head named part rule =>
    rw [elaborateAt, if_neg (Nat.not_lt.mpr shallow)]
    simp only [head]
    refine Run.lift_bind_ok.mpr ⟨_, named, ?_⟩
    exact Run.bind_ok.mpr ⟨_, _, part.ok, Run.lift_ok.mpr ⟨rule, rfl⟩⟩
  | .typeOf shallow head named | .defaultOf shallow head named =>
    rw [elaborateAt, if_neg (Nat.not_lt.mpr shallow)]
    simp only [head]
    exact Run.lift_bind_ok.mpr ⟨_, named, rfl⟩
  | .construct shallow head named argParts rule =>
    rw [elaborateAt, if_neg (Nat.not_lt.mpr shallow)]
    simp only [head]
    refine Run.lift_bind_ok.mpr ⟨_, named, ?_⟩
    exact Run.bind_ok.mpr ⟨_, _, argParts.ok, Run.lift_ok.mpr ⟨rule, rfl⟩⟩
  | .lambda shallow head declared bodyPart =>
    rw [elaborateAt, if_neg (Nat.not_lt.mpr shallow)]
    simp only [head]
    refine Run.bind_ok.mpr ⟨_, _, declared, ?_⟩
    exact Run.bind_ok.mpr ⟨_, _, bodyPart.ok, rfl⟩
termination_by structural made

theorem ElaboratesAll.ok {forms : List Form} {scope : Scope} {depth next later : Nat}
    {exprs : List Expr} (made : ElaboratesAll elaborator scope depth forms next exprs later) :
    elaborator.elaborateAll scope depth forms next = .ok (exprs, later) := by
  match made with
  | .nil => rfl
  | .cons first rest =>
    exact Run.bind_ok.mpr ⟨_, _, first.ok, Run.bind_ok.mpr ⟨_, _, rest.ok, rfl⟩⟩
termination_by structural made

end

end ExprLang.Elaborator
