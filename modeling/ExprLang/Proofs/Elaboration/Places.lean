import ExprLang.Proofs.Elaboration.Typed
import ExprLang.Proofs.Form.Places
import ExprLang.Proofs.Lexical.Agreement

/-!
# Places of expressions and of compile reports

Elaboration invents no locations. Wherever the nodes of a form lie, every node of the expression
that it elaborates to lies at one of these places, bodies of lambdas included, and so does every
report of elaboration (`Elaborator.places_elaborateAt`).
-/

namespace ExprLang

/-- Every node of a form lies at one of given places. -/
def Form.Within (places : Location → Prop) (form : Form) : Prop :=
  ∀ loc, form.HasPlace loc → places loc

/-- Every part of an expression lies at one of given places. -/
def Expr.Within (places : Location → Prop) (expr : Expr) : Prop :=
  ∀ part, expr.Contains part → places part.loc

/-- An outcome is an expression within given places, or a report at one of them. -/
def LiesAt (places : Location → Prop) : Except Diagnostic Expr → Prop
  | .ok expr => expr.Within places
  | .error report => report.LiesIn places

variable {places : Location → Prop} {loc : Location}

theorem liesIn_reportAt (here : places loc) (fault : Fault) :
    (fault.reportAt loc).LiesIn places :=
  ⟨loc, rfl, here⟩

theorem Form.Within.self {form : Form} (within : form.Within places) : places form.loc :=
  within _ form.hasPlace_self

theorem Form.Within.child {bracket : Bracket} {children : List Form} {child : Form}
    (within : Form.Within places (.combo bracket children loc)) (belongs : child ∈ children) :
    child.Within places :=
  fun _ has => within _ (hasPlace_child belongs has)

namespace Expr

variable {expr : Expr}

theorem Within.self (within : expr.Within places) : places expr.loc :=
  within expr .refl

theorem Within.inner {part : Expr} (within : expr.Within places) (contains : expr.Contains part) :
    part.Within places :=
  fun _ inner => within _ (contains.trans inner)

theorem Within.operand {operand : Expr} (within : expr.Within places)
    (belongs : operand ∈ expr.operands) : operand.Within places :=
  within.inner (.single (expr.operands_subset_children belongs))

/-- A node lies at given places if it does itself and all that is directly inside of it does. -/
theorem within_of_children (here : places expr.loc)
    (inside : ∀ child ∈ expr.children, child.Within places) : expr.Within places := by
  intro part contains
  cases contains.cases_head with
  | inl same =>
    cases same
    exact here
  | inr step =>
    obtain ⟨child, belongs, inner⟩ := step
    exact inside child belongs part inner

end Expr

/-! ## The typing rules -/

namespace Typing

variable {registry : Registry} {operand left right target condition yes no : Expr}
  {args items : List Expr}

theorem liesAt_unary {op : UnaryOp} (here : places loc) (within : operand.Within places) :
    LiesAt places (unary loc op operand) := by
  unfold unary
  split
  · exact Expr.within_of_children here (by simpa [Expr.children, Expr.operands] using within)
  · exact liesIn_reportAt here _

theorem liesAt_binary {op : BinaryOp} (here : places loc) (leftWithin : left.Within places)
    (rightWithin : right.Within places) : LiesAt places (binary registry loc op left right) := by
  unfold binary
  split
  · refine Expr.within_of_children here ?_
    simpa [Expr.children, Expr.operands] using ⟨leftWithin, rightWithin⟩
  · exact liesIn_reportAt here _

theorem liesAt_nary {op : BinaryOp} {first : Expr} {rest : List Expr} (here : places loc)
    (firstWithin : first.Within places) (restWithin : ∀ expr ∈ rest, expr.Within places) :
    LiesAt places (nary registry loc op first rest) := by
  induction rest generalizing first with
  | nil => exact firstWithin
  | cons second rest ih =>
    rw [List.forall_mem_cons] at restWithin
    have step : LiesAt places (binary registry loc op first second) :=
      liesAt_binary here firstWithin restWithin.1
    rw [nary, List.foldlM_cons]
    cases outcome : binary registry loc op first second with
    | error report =>
      rw [outcome] at step
      exact step
    | ok node =>
      rw [outcome] at step
      exact ih step restWithin.2

theorem liesAt_conditional (here : places loc) (conditionWithin : condition.Within places)
    (yesWithin : yes.Within places) (noWithin : no.Within places) :
    LiesAt places (conditional loc condition yes no) := by
  unfold conditional
  split
  · exact liesIn_reportAt conditionWithin.self _
  · split
    · exact liesIn_reportAt here _
    · refine Expr.within_of_children here ?_
      simpa [Expr.children, Expr.operands] using ⟨conditionWithin, yesWithin, noWithin⟩

theorem liesAt_index (here : places loc) (targetWithin : target.Within places)
    (argsWithin : ∀ arg ∈ args, arg.Within places) :
    LiesAt places (index registry loc target args) := by
  unfold index
  dsimp only
  split
  · refine Expr.within_of_children here ?_
    simpa [Expr.children, Expr.operands] using ⟨targetWithin, argsWithin⟩
  · exact liesIn_reportAt here _

theorem liesAt_construct {ty : Ty} (here : places loc)
    (argsWithin : ∀ arg ∈ args, arg.Within places) :
    LiesAt places (construct registry loc ty args) := by
  unfold construct
  dsimp only
  split
  · exact Expr.within_of_children here (by simpa [Expr.children, Expr.operands] using argsWithin)
  · exact liesIn_reportAt here _

theorem liesAt_typeIs {ty : Ty} (here : places loc) (within : operand.Within places) :
    LiesAt places (typeIs loc ty operand) :=
  Expr.within_of_children here (by simpa [Expr.children, Expr.operands] using within)

theorem liesAt_typeAs {ty : Ty} (here : places loc) (within : operand.Within places) :
    LiesAt places (typeAs loc ty operand) := by
  unfold typeAs
  split
  · exact liesIn_reportAt here _
  · exact Expr.within_of_children here (by simpa [Expr.children, Expr.operands] using within)

theorem liesAt_convert {ty : Ty} (here : places loc) (within : operand.Within places) :
    LiesAt places (convert registry loc ty operand) := by
  unfold convert
  split
  · exact Expr.within_of_children here (by simpa [Expr.children, Expr.operands] using within)
  · exact liesIn_reportAt here _

theorem liesAt_elementTy_bind {types : List Ty} {rest : Ty → Except Diagnostic Expr}
    (here : places loc) (further : ∀ ty, LiesAt places (rest ty)) :
    LiesAt places (elementTy registry loc types >>= rest) := by
  unfold elementTy
  split
  · exact further _
  · exact liesIn_reportAt here _

theorem liesAt_list (here : places loc) (within : ∀ item ∈ items, item.Within places) :
    LiesAt places (list registry loc items) :=
  liesAt_elementTy_bind here fun _ =>
    Expr.within_of_children here (by simpa [Expr.children, Expr.operands] using within)

theorem liesAt_map {entries : List (Expr × Expr)} (here : places loc)
    (within : ∀ entry ∈ entries, entry.1.Within places ∧ entry.2.Within places) :
    LiesAt places (map registry loc entries) := by
  refine liesAt_elementTy_bind here fun _ => liesAt_elementTy_bind here fun _ =>
    Expr.within_of_children here ?_
  intro child belongs
  rcases List.mem_append.mp belongs with key | value
  · obtain ⟨entry, listed, rfl⟩ := List.mem_map.mp key
    exact (within entry listed).1
  · obtain ⟨entry, listed, rfl⟩ := List.mem_map.mp value
    exact (within entry listed).2

theorem within_lambda {id : Nat} {params : List Binding} {body : Expr} (here : places loc)
    (within : body.Within places) : (lambda loc id params body).Within places :=
  Expr.within_of_children here (by simpa [lambda, Expr.children] using within)

end Typing

/-! ## Forms -/

namespace Elaborator

variable {elaborator : Elaborator} {scope : Scope} {next : Nat}

/-- A computation that reports nothing but what lies at given places, and gives results with a
property. -/
abbrev Placed {α : Type} (places : Location → Prop) (run : Run α) (holds : α → Prop) : Prop :=
  ∀ next, run.Meets next holds (·.LiesIn places)

theorem placed_faultAt {α : Type} {holds : α → Prop} (here : places loc) (fault : Fault) :
    Placed places (liftM (faultAt loc fault : Except Diagnostic α) : Run α) holds :=
  fun _ => Run.meets_faultAt (liesIn_reportAt here fault)

theorem placed_lift {outcome : Except Diagnostic Expr} (lies : LiesAt places outcome) :
    Placed places (liftM outcome : Run Expr) (·.Within places) := by
  intro next
  refine Run.meets_lift ?_ ?_
  · rintro expr rfl
    exact lies
  · rintro report rfl
    exact lies

theorem Placed.bind {α β : Type} {run : Run α} {rest : α → Run β} {holds : α → Prop}
    {after : β → Prop} (first : Placed places run holds)
    (second : ∀ value, holds value → Placed places (rest value) after) :
    Placed places (run >>= rest) after :=
  fun next => (first next).bind fun value later _ held => second value held later

theorem placed_typeName {form : Form} (within : form.Within places) :
    Placed places (liftM (elaborator.typeName form) : Run Ty) fun _ => True := by
  intro next
  refine Run.meets_lift (fun _ _ => trivial) fun report failed => ?_
  unfold typeName at failed
  split at failed
  · cases failed
    exact liesIn_reportAt within.self _
  · split at failed
    · cases failed
    · cases failed
      exact liesIn_reportAt within.self _

theorem liesAt_atom {text : String} (here : places loc) : LiesAt places (atom scope text loc) := by
  unfold atom
  split
  · exact liesIn_reportAt here _
  · exact Expr.within_of_children here nofun
  · split
    · exact Expr.within_of_children here nofun
    · exact liesIn_reportAt here _

theorem placed_param {form : Form} (within : form.Within places) :
    Placed places (elaborator.param scope form) fun _ => True := by
  unfold param
  split
  next tyForm nameForm loc =>
    have nameWithin : nameForm.Within places := within.child (by simp)
    refine (placed_typeName (within.child List.mem_cons_self)).bind fun ty _ => ?_
    cases nameForm with
    | combo bracket children nameLoc => exact placed_faultAt nameWithin.self _
    | atom name nameLoc =>
      dsimp only
      split
      · exact placed_faultAt within.self _
      · exact Placed.bind (fun _ => Run.meets_freshId) fun id _ _ => Run.meets_pure trivial
  · exact placed_faultAt within.self _

theorem placed_params {forms : List Form} (within : ∀ form ∈ forms, form.Within places) :
    Placed places (elaborator.params scope forms) fun _ => True := by
  induction forms generalizing scope with
  | nil => exact fun _ => Run.meets_pure trivial
  | cons form forms ih =>
    rw [List.forall_mem_cons] at within
    exact (placed_param within.1).bind fun _ _ => (ih within.2).bind fun _ _ _ =>
      Run.meets_pure trivial

theorem placed_paramList {form : Form} (within : form.Within places) :
    Placed places (elaborator.paramList scope form) fun _ => True := by
  unfold paramList
  split
  · exact placed_params fun form belongs => within.child belongs
  · exact placed_faultAt within.self _

mutual

/-- What a parenthesized form with a leading atom elaborates to lies within the places of the
operands and of the form itself. -/
theorem places_head {name : String} {headLoc loc : Location} {operands : List Form} {scope : Scope}
    {depth : Nat} (shallow : depth ≤ elaborator.maxDepth) (here : places loc)
    (within : ∀ form ∈ operands, form.Within places) :
    Placed places (elaborator.elaborateAt scope depth
      (.combo .paren (.atom name headLoc :: operands) loc)) (·.Within places) := by
  unfold elaborateAt
  rw [if_neg (Nat.not_lt.mpr shallow)]
  cases head : elaborator.heads.get? name with
  | none =>
    simp only [head]
    exact placed_faultAt here _
  | some kind =>
    simp only [head]
    cases kind with
    | unary op =>
      match operands with
      | [form] =>
        exact (places_elaborateAt form (within form (by simp))).bind fun _ operand =>
          placed_lift (Typing.liesAt_unary here operand)
      | [] | _ :: _ :: _ => exact placed_faultAt here _
    | binary op =>
      match operands with
      | [left, right] =>
        exact (places_elaborateAt left (within left (by simp))).bind fun _ leftWithin =>
          (places_elaborateAt right (within right (by simp))).bind fun _ rightWithin =>
            placed_lift (Typing.liesAt_binary here leftWithin rightWithin)
      | [] | [_] | _ :: _ :: _ :: _ => exact placed_faultAt here _
    | nary op =>
      match operands with
      | first :: rest =>
        rw [List.forall_mem_cons] at within
        exact (places_elaborateAt first within.1).bind fun _ firstWithin =>
          (places_elaborateAll rest within.2).bind fun _ restWithin =>
            placed_lift (Typing.liesAt_nary here firstWithin restWithin)
      | [] => exact placed_faultAt here _
    | conditional =>
      match operands with
      | [condition, yes, no] =>
        exact (places_elaborateAt condition (within condition (by simp))).bind fun _ first =>
          (places_elaborateAt yes (within yes (by simp))).bind fun _ second =>
            (places_elaborateAt no (within no (by simp))).bind fun _ third =>
              placed_lift (Typing.liesAt_conditional here first second third)
      | [] | [_] | [_, _] | _ :: _ :: _ :: _ :: _ => exact placed_faultAt here _
    | index =>
      match operands with
      | target :: args =>
        rw [List.forall_mem_cons] at within
        exact (places_elaborateAt target within.1).bind fun _ targetWithin =>
          (places_elaborateAll args within.2).bind fun _ argsWithin =>
            placed_lift (Typing.liesAt_index here targetWithin argsWithin)
      | [] => exact placed_faultAt here _
    | typeIs =>
      match operands with
      | [tyForm, form] =>
        exact (placed_typeName (within tyForm (by simp))).bind fun _ _ =>
          (places_elaborateAt form (within form (by simp))).bind fun _ operand =>
            placed_lift (Typing.liesAt_typeIs here operand)
      | [] | [_] | _ :: _ :: _ :: _ => exact placed_faultAt here _
    | typeAs =>
      match operands with
      | [tyForm, form] =>
        exact (placed_typeName (within tyForm (by simp))).bind fun _ _ =>
          (places_elaborateAt form (within form (by simp))).bind fun _ operand =>
            placed_lift (Typing.liesAt_typeAs here operand)
      | [] | [_] | _ :: _ :: _ :: _ => exact placed_faultAt here _
    | cast =>
      match operands with
      | [tyForm, form] =>
        exact (placed_typeName (within tyForm (by simp))).bind fun _ _ =>
          (places_elaborateAt form (within form (by simp))).bind fun _ operand =>
            placed_lift (Typing.liesAt_convert here operand)
      | [] | [_] | _ :: _ :: _ :: _ => exact placed_faultAt here _
    | typeOf =>
      match operands with
      | [tyForm] =>
        exact (placed_typeName (within tyForm (by simp))).bind fun _ _ _ =>
          Run.meets_pure (Expr.within_of_children here nofun)
      | [] | _ :: _ :: _ => exact placed_faultAt here _
    | defaultOf =>
      match operands with
      | [tyForm] =>
        exact (placed_typeName (within tyForm (by simp))).bind fun _ _ _ =>
          Run.meets_pure (Expr.within_of_children here nofun)
      | [] | _ :: _ :: _ => exact placed_faultAt here _
    | construct =>
      match operands with
      | tyForm :: args =>
        rw [List.forall_mem_cons] at within
        exact (placed_typeName within.1).bind fun _ _ =>
          (places_elaborateAll args within.2).bind fun _ argsWithin =>
            placed_lift (Typing.liesAt_construct here argsWithin)
      | [] => exact placed_faultAt here _
    | lambda =>
      match operands with
      | [params, body] =>
        exact (placed_paramList (within params (by simp))).bind fun _ _ =>
          (places_elaborateAt body (within body (by simp))).bind fun _ bodyWithin =>
            Placed.bind (fun _ => Run.meets_freshId) fun _ _ _ =>
              Run.meets_pure (Typing.within_lambda here bodyWithin)
      | [] | [_] | _ :: _ :: _ :: _ => exact placed_faultAt here _
termination_by structural operands

/-- What a form elaborates to lies within the places of the form, be it an expression or a
report. -/
theorem places_elaborateAt (form : Form) {scope : Scope} {depth : Nat}
    (within : form.Within places) :
    Placed places (elaborator.elaborateAt scope depth form) (·.Within places) := by
  match form with
  | .atom text loc =>
    unfold elaborateAt
    split
    · exact placed_faultAt within.self _
    · exact placed_lift (liesAt_atom within.self)
  | .combo .square items loc =>
    unfold elaborateAt
    split
    · exact placed_faultAt within.self _
    · exact (places_elaborateAll items fun item belongs => within.child belongs).bind
        fun _ itemsWithin => placed_lift (Typing.liesAt_list within.self itemsWithin)
  | .combo .curly forms loc =>
    unfold elaborateAt
    split
    · exact placed_faultAt within.self _
    · dsimp only
      split
      · exact placed_faultAt within.self _
      · refine (places_elaborateAll forms fun form belongs => within.child belongs).bind
          fun exprs exprsWithin =>
            placed_lift (Typing.liesAt_map within.self fun entry belongs => ?_)
        have inside := mem_of_mem_pairs belongs
        exact ⟨exprsWithin _ inside.1, exprsWithin _ inside.2⟩
  | .combo .paren [] loc =>
    unfold elaborateAt
    split
    · exact placed_faultAt within.self _
    · exact placed_faultAt within.self _
  | .combo .paren (.combo bracket children headLoc :: operands) loc =>
    have headWithin : Form.Within places (.combo bracket children headLoc) :=
      within.child List.mem_cons_self
    unfold elaborateAt
    split
    · exact placed_faultAt within.self _
    · exact placed_faultAt headWithin.self _
  | .combo .paren (.atom name headLoc :: operands) loc =>
    by_cases shallow : depth ≤ elaborator.maxDepth
    · exact places_head shallow within.self fun form belongs =>
        within.child (List.mem_cons_of_mem _ belongs)
    · unfold elaborateAt
      rw [if_pos (Nat.lt_of_not_le shallow)]
      exact placed_faultAt within.self _
termination_by structural form

theorem places_elaborateAll (forms : List Form) {scope : Scope} {depth : Nat}
    (within : ∀ form ∈ forms, form.Within places) :
    Placed places (elaborator.elaborateAll scope depth forms)
      fun exprs => ∀ expr ∈ exprs, expr.Within places := by
  match forms with
  | [] => exact fun _ => Run.meets_pure nofun
  | form :: forms =>
    rw [List.forall_mem_cons] at within
    exact (places_elaborateAt form within.1).bind fun _ first =>
      (places_elaborateAll forms within.2).bind fun _ rest _ =>
        Run.meets_pure (List.forall_mem_cons.mpr ⟨first, rest⟩)
termination_by structural forms

end

end Elaborator

end ExprLang
