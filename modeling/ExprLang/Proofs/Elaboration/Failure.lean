import ExprLang.Proofs.Elaboration.Derivation
import ExprLang.Proofs.Form.Depth

/-!
# Where elaboration fails

Derivations say how elaboration succeeds; this module says how it fails. A failure has one source: a
part of the form that breaks a rule itself, although what stands inside of it and was looked at before
did not (`breaks_of_error`). The report is the report of that rule.
-/

namespace ExprLang

/-- The shape of a form is wrong, whatever is inside of it. -/
def Fault.IsShape : Fault → Prop
  | .emptyForm | .headNotAtom | .unknownHead _ | .arity .. | .arityAtLeast ..
  | .unpairedMapLiteral _ => True
  | _ => False

/-- The outcomes at a place of the rules for operators and members. -/
inductive Typing.Operation (registry : Registry) (loc : Location) :
    Except Diagnostic Expr → Prop where
  | unary (op : UnaryOp) (operand : Expr) : Operation registry loc (unary loc op operand)
  | binary (op : BinaryOp) (left right : Expr) :
      Operation registry loc (binary registry loc op left right)
  | nary (op : BinaryOp) (first : Expr) (rest : List Expr) :
      Operation registry loc (nary registry loc op first rest)
  | conditional (condition yes no : Expr) :
      Operation registry loc (conditional loc condition yes no)
  | index (target : Expr) (args : List Expr) :
      Operation registry loc (index registry loc target args)
  | construct (ty : Ty) (args : List Expr) : Operation registry loc (construct registry loc ty args)
  | typeIs (target : Ty) (operand : Expr) : Operation registry loc (typeIs loc target operand)
  | typeAs (target : Ty) (operand : Expr) : Operation registry loc (typeAs loc target operand)
  | convert (target : Ty) (operand : Expr) :
      Operation registry loc (convert registry loc target operand)

namespace Elaborator

/-- In a scope and at a depth, a form breaks a rule itself. -/
inductive Breaks (elaborator : Elaborator) (scope : Scope) (depth : Nat) :
    Form → Diagnostic → Prop where
  | deep {form : Form} (exceeds : elaborator.maxDepth < depth) :
      Breaks elaborator scope depth form
        ((Fault.expressionTooDeep elaborator.maxDepth).reportAt form.loc)
  | shape {bracket : Bracket} {children : List Form} {loc place : Location} {fault : Fault}
      (malformed : fault.IsShape) :
      Breaks elaborator scope depth (.combo bracket children loc) (fault.reportAt place)
  | atom {text : String} {loc : Location} {report : Diagnostic}
      (failed : atom scope text loc = .error report) :
      Breaks elaborator scope depth (.atom text loc) report
  | typeName {children : List Form} {tyForm : Form} {loc : Location} {report : Diagnostic}
      (belongs : tyForm ∈ children) (failed : elaborator.typeName tyForm = .error report) :
      Breaks elaborator scope depth (.combo .paren children loc) report
  | paramList {children : List Form} {paramsForm : Form} {loc : Location} {next : Nat}
      {report : Diagnostic} (belongs : paramsForm ∈ children)
      (failed : elaborator.paramList scope paramsForm next = .error report) :
      Breaks elaborator scope depth (.combo .paren children loc) report
  | operation {children : List Form} {loc : Location} {outcome : Except Diagnostic Expr}
      {report : Diagnostic} (rule : Typing.Operation elaborator.registry loc outcome)
      (failed : outcome = .error report) :
      Breaks elaborator scope depth (.combo .paren children loc) report
  | list {forms : List Form} {loc : Location} {next later : Nat} {items : List Expr}
      {report : Diagnostic}
      (parts : ElaboratesAll elaborator scope (depth + 1) forms next items later)
      (failed : Typing.list elaborator.registry loc items = .error report) :
      Breaks elaborator scope depth (.combo .square forms loc) report
  | map {forms : List Form} {loc : Location} {next later : Nat} {exprs : List Expr}
      {report : Diagnostic} (paired : forms.length % 2 = 0)
      (parts : ElaboratesAll elaborator scope (depth + 1) forms next exprs later)
      (failed : Typing.map elaborator.registry loc (pairs exprs) = .error report) :
      Breaks elaborator scope depth (.combo .curly forms loc) report

/-- A part of a form that is elaborated at a depth breaks a rule itself. -/
def BreaksWithin (elaborator : Elaborator) (depth : Nat) (form : Form) (report : Diagnostic) :
    Prop :=
  ∃ level part inner, form.AtLevel level part ∧
    Breaks elaborator inner (depth + level) part report

variable {elaborator : Elaborator} {scope : Scope} {depth : Nat} {form : Form}
  {report : Diagnostic} {bracket : Bracket} {children : List Form} {loc : Location}

theorem Breaks.within (scope : Scope) (here : Breaks elaborator scope depth form report) :
    BreaksWithin elaborator depth form report :=
  ⟨0, form, scope, .root, here⟩

theorem BreaksWithin.of_child {child : Form} (belongs : child ∈ children)
    (inside : BreaksWithin elaborator (depth + 1) child report) :
    BreaksWithin elaborator depth (.combo bracket children loc) report := by
  obtain ⟨level, part, inner, below, here⟩ := inside
  rw [Nat.add_assoc, Nat.add_comm 1] at here
  exact ⟨level + 1, part, inner, .child belongs below, here⟩

/-! ## Computations that fail where a part breaks a rule -/

section Parts

variable {α : Type}

/-- A computation fails only with reports of parts of a form. -/
abbrev FailsWithin (elaborator : Elaborator) (depth : Nat) (form : Form) (run : Run α) : Prop :=
  run.FailsAs (BreaksWithin elaborator depth form)

/-- A computation fails only with reports of parts of some of several forms. -/
abbrev FailsAmong (elaborator : Elaborator) (depth : Nat) (forms : List Form) (run : Run α) : Prop :=
  run.FailsAs fun report => ∃ form ∈ forms, BreaksWithin elaborator depth form report

variable {run : Run α}

theorem FailsWithin.inside {child : Form} (fails : FailsWithin elaborator (depth + 1) child run)
    (belongs : child ∈ children) :
    FailsWithin elaborator depth (.combo bracket children loc) run :=
  fails.mono fun _ => .of_child belongs

theorem FailsAmong.inside {forms : List Form} (fails : FailsAmong elaborator (depth + 1) forms run)
    (belong : forms ⊆ children) :
    FailsWithin elaborator depth (.combo bracket children loc) run :=
  fails.mono fun _ ⟨_, belongs, inside⟩ => .of_child (belong belongs) inside

theorem failsWithin_shape {fault : Fault} {place : Location} (malformed : fault.IsShape) :
    FailsWithin elaborator depth (.combo bracket children loc)
      (liftM (faultAt place fault : Except Diagnostic α) : Run α) :=
  Run.failsAs_faultAt (Breaks.within {} (.shape malformed))

theorem failsWithin_deep (exceeds : elaborator.maxDepth < depth) :
    FailsWithin elaborator depth form (liftM (faultAt form.loc
      (.expressionTooDeep elaborator.maxDepth) : Except Diagnostic α) : Run α) :=
  Run.failsAs_faultAt (Breaks.within {} (.deep exceeds))

theorem failsWithin_typeName {tyForm : Form} (belongs : tyForm ∈ children) :
    FailsWithin elaborator depth (.combo .paren children loc)
      (liftM (elaborator.typeName tyForm) : Run Ty) :=
  Run.failsAs_lift fun _ failed => Breaks.within {} (.typeName belongs failed)

theorem failsWithin_paramList {paramsForm : Form} (belongs : paramsForm ∈ children) :
    FailsWithin elaborator depth (.combo .paren children loc)
      (elaborator.paramList scope paramsForm) := by
  intro next
  unfold Run.Meets
  split
  · trivial
  next report failed => exact Breaks.within _ (.paramList belongs failed)

theorem failsWithin_operation {outcome : Except Diagnostic Expr}
    (rule : Typing.Operation elaborator.registry loc outcome) :
    FailsWithin elaborator depth (.combo .paren children loc) (liftM outcome : Run Expr) :=
  Run.failsAs_lift fun _ failed => Breaks.within {} (.operation rule failed)

end Parts

/-! ## Forms -/

mutual

theorem failsWithin_head {name : String} {headLoc loc : Location} {operands : List Form}
    {scope : Scope} {depth : Nat} (shallow : depth ≤ elaborator.maxDepth) :
    FailsWithin elaborator depth (.combo .paren (.atom name headLoc :: operands) loc)
      (elaborator.elaborateAt scope depth (.combo .paren (.atom name headLoc :: operands) loc)) := by
  unfold elaborateAt
  rw [if_neg (Nat.not_lt.mpr shallow)]
  cases head : elaborator.heads.get? name with
  | none =>
    simp only [head]
    exact failsWithin_shape trivial
  | some kind =>
    simp only [head]
    cases kind with
    | unary op =>
      match operands with
      | [form] =>
        exact (failsWithin_elaborateAt form).inside (by simp) |>.bind fun operand =>
          failsWithin_operation (.unary op operand)
      | [] | _ :: _ :: _ => exact failsWithin_shape trivial
    | binary op =>
      match operands with
      | [left, right] =>
        exact (failsWithin_elaborateAt left).inside (by simp) |>.bind fun leftExpr =>
          (failsWithin_elaborateAt right).inside (by simp) |>.bind fun rightExpr =>
          failsWithin_operation (.binary op leftExpr rightExpr)
      | [] | [_] | _ :: _ :: _ :: _ => exact failsWithin_shape trivial
    | nary op =>
      match operands with
      | first :: rest =>
        exact (failsWithin_elaborateAt first).inside (by simp) |>.bind fun firstExpr =>
          (failsWithin_elaborateAll rest).inside (by simp) |>.bind fun exprs =>
          failsWithin_operation (.nary op firstExpr exprs)
      | [] => exact failsWithin_shape trivial
    | conditional =>
      match operands with
      | [condition, yes, no] =>
        exact (failsWithin_elaborateAt condition).inside (by simp) |>.bind fun test =>
          (failsWithin_elaborateAt yes).inside (by simp) |>.bind fun yesExpr =>
          (failsWithin_elaborateAt no).inside (by simp) |>.bind fun noExpr =>
          failsWithin_operation (.conditional test yesExpr noExpr)
      | [] | [_] | [_, _] | _ :: _ :: _ :: _ :: _ => exact failsWithin_shape trivial
    | index =>
      match operands with
      | target :: args =>
        exact (failsWithin_elaborateAt target).inside (by simp) |>.bind fun targetExpr =>
          (failsWithin_elaborateAll args).inside (by simp) |>.bind fun exprs =>
          failsWithin_operation (.index targetExpr exprs)
      | [] => exact failsWithin_shape trivial
    | typeIs =>
      match operands with
      | [tyForm, form] =>
        exact (failsWithin_typeName (by simp)).bind fun target =>
          (failsWithin_elaborateAt form).inside (by simp) |>.bind fun operand =>
          failsWithin_operation (.typeIs target operand)
      | [] | [_] | _ :: _ :: _ :: _ => exact failsWithin_shape trivial
    | typeAs =>
      match operands with
      | [tyForm, form] =>
        exact (failsWithin_typeName (by simp)).bind fun target =>
          (failsWithin_elaborateAt form).inside (by simp) |>.bind fun operand =>
          failsWithin_operation (.typeAs target operand)
      | [] | [_] | _ :: _ :: _ :: _ => exact failsWithin_shape trivial
    | cast =>
      match operands with
      | [tyForm, form] =>
        exact (failsWithin_typeName (by simp)).bind fun target =>
          (failsWithin_elaborateAt form).inside (by simp) |>.bind fun operand =>
          failsWithin_operation (.convert target operand)
      | [] | [_] | _ :: _ :: _ :: _ => exact failsWithin_shape trivial
    | typeOf =>
      match operands with
      | [tyForm] => exact (failsWithin_typeName (by simp)).bind fun _ => Run.failsAs_pure
      | [] | _ :: _ :: _ => exact failsWithin_shape trivial
    | defaultOf =>
      match operands with
      | [tyForm] => exact (failsWithin_typeName (by simp)).bind fun _ => Run.failsAs_pure
      | [] | _ :: _ :: _ => exact failsWithin_shape trivial
    | construct =>
      match operands with
      | tyForm :: args =>
        exact (failsWithin_typeName (by simp)).bind fun ty =>
          (failsWithin_elaborateAll args).inside (by simp) |>.bind fun exprs =>
          failsWithin_operation (.construct ty exprs)
      | [] => exact failsWithin_shape trivial
    | lambda =>
      match operands with
      | [params, body] =>
        exact (failsWithin_paramList (by simp)).bind fun _ =>
          (failsWithin_elaborateAt body).inside (by simp) |>.bind fun _ =>
          Run.failsAs_freshId.bind fun _ => Run.failsAs_pure
      | [] | [_] | _ :: _ :: _ :: _ => exact failsWithin_shape trivial
termination_by structural operands

/-- Elaboration of a form fails only where a part of it breaks a rule. -/
theorem failsWithin_elaborateAt (form : Form) {scope : Scope} {depth : Nat} :
    FailsWithin elaborator depth form (elaborator.elaborateAt scope depth form) := by
  by_cases exceeds : elaborator.maxDepth < depth
  · cases form <;> rw [elaborateAt, if_pos exceeds] <;> exact failsWithin_deep exceeds
  match form with
  | .atom text loc =>
    rw [elaborateAt, if_neg exceeds]
    exact Run.failsAs_lift fun _ failed => Breaks.within scope (.atom failed)
  | .combo .square items loc =>
    rw [elaborateAt, if_neg exceeds]
    intro next
    refine ((failsWithin_elaborateAll items).inside (List.Subset.refl _) next).bind ?_
    intro exprs later ok _
    refine Run.meets_lift (fun _ _ => trivial) fun _ failed => ?_
    exact (Breaks.list (elaboratesAll_of_ok ok) failed).within
  | .combo .curly forms loc =>
    rw [elaborateAt, if_neg exceeds]
    dsimp only
    split
    · exact failsWithin_shape trivial
    next paired =>
      intro next
      refine ((failsWithin_elaborateAll forms).inside (List.Subset.refl _) next).bind ?_
      intro exprs later ok _
      refine Run.meets_lift (fun _ _ => trivial) fun _ failed => ?_
      exact (Breaks.map (Decidable.not_not.mp paired) (elaboratesAll_of_ok ok) failed).within
  | .combo .paren [] loc =>
    rw [elaborateAt, if_neg exceeds]
    exact failsWithin_shape trivial
  | .combo .paren (.combo .. :: _) loc =>
    rw [elaborateAt, if_neg exceeds]
    exact failsWithin_shape trivial
  | .combo .paren (.atom name headLoc :: operands) loc =>
    exact failsWithin_head (Nat.not_lt.mp exceeds)
termination_by structural form

theorem failsWithin_elaborateAll (forms : List Form) {scope : Scope} {depth : Nat} :
    FailsAmong elaborator depth forms (elaborator.elaborateAll scope depth forms) := by
  match forms with
  | [] => exact Run.failsAs_pure
  | form :: forms =>
    refine ((failsWithin_elaborateAt form).mono fun report inside =>
      ⟨form, List.mem_cons_self, inside⟩).bind fun expr => ?_
    refine ((failsWithin_elaborateAll forms).mono fun report ⟨other, belongs, inside⟩ =>
      ⟨other, List.mem_cons_of_mem _ belongs, inside⟩).bind fun exprs => ?_
    exact Run.failsAs_pure
termination_by structural forms

end

/-- A failure of elaboration is the report of a part of the form that breaks a rule itself. -/
theorem breaks_of_error {next : Nat}
    (failed : elaborator.elaborateAt scope depth form next = .error report) :
    BreaksWithin elaborator depth form report :=
  (failsWithin_elaborateAt form next).of_error failed

end Elaborator

end ExprLang
