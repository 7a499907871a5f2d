import ExprLang.Proofs.Elaboration.Typed
import ExprLang.Proofs.Likeness.Run

/-!
# Names of one head

A leading atom decides nothing but the entry of the table that it selects and the name that reports
quote. If two names have the same entry, putting one for the other in front of compiled forms
(`Form.Aliased`) keeps the expression that a form elaborates to, with its places and identities, or
keeps the report but for the quoted name (`Elaborator.elaborateAt_aliased`). The bindings of names
that occur as leading atoms only play no part, so the two sides may have different ones.
-/

namespace ExprLang

/-! ## Reports that quote one name or another -/

/-- Two reports are alike but for a name that one quotes and another that the other one quotes. -/
structure Diagnostic.AlikeBut (a b : String) (places : Location → Location → Prop)
    (report other : Diagnostic) : Prop where
  code : report.code = other.code
  message : report.message = other.message ∨ ∃ before behind,
    report.message = before ++ s!"`{a}`" ++ behind ∧ other.message = before ++ s!"`{b}`" ++ behind
  notes : report.notes = other.notes
  location : Option.Rel places report.location other.location

theorem rel_eq_iff {α : Type} {found other : Option α} :
    Option.Rel Eq found other ↔ found = other := by
  constructor
  · rintro (⟨rfl⟩ | _) <;> rfl
  · rintro rfl
    cases found with
    | none => exact .none
    | some value => exact .some rfl

namespace Diagnostic

variable {a b : String} {places : Location → Location → Prop} {report middle other : Diagnostic}

theorem alikeBut_self (report : Diagnostic) : report.AlikeBut a b Eq report where
  code := rfl
  message := .inl rfl
  notes := rfl
  location := rel_eq_iff.mpr rfl

/-- What is alike but for a name stays so at other places. -/
theorem AlikeBut.trans (first : report.AlikeBut a b Eq middle)
    (second : middle.Alike places other) : report.AlikeBut a b places other where
  code := first.code.trans second.code
  message := by
    rw [← second.message]
    exact first.message
  notes := first.notes.trans second.notes
  location := by
    rw [rel_eq_iff.mp first.location]
    exact second.location

end Diagnostic

/-- Two faults say the same, one about a name and the other about an alias of it. -/
theorem Fault.alikeBut_reportAt {a b name second : String} (fault : String → Fault)
    (swap : name = second ∨ name = a ∧ second = b)
    (code : ∀ name other, (fault name).code = (fault other).code)
    (notes : ∀ name other, (fault name).notes = (fault other).notes)
    (quotes : ∃ before behind, ∀ name, (fault name).message = before ++ s!"`{name}`" ++ behind)
    (loc : Location) :
    ((fault name).reportAt loc).AlikeBut a b Eq ((fault second).reportAt loc) := by
  rcases swap with rfl | ⟨rfl, rfl⟩
  · exact Diagnostic.alikeBut_self _
  · obtain ⟨before, behind, message⟩ := quotes
    exact ⟨code _ _, .inr ⟨before, behind, message _, message _⟩, notes _ _, .some rfl⟩

/-! ## Forms with aliases -/

/-- Whether the first operand of a head is no expression but the name of a type or the parameters of
a lambda. -/
def Head.quotes : Head → Bool
  | .typeIs | .typeAs | .cast | .typeOf | .defaultOf | .construct | .lambda => true
  | .unary _ | .binary _ | .nary _ | .conditional | .index => false

/-- A form with an alias in front of some of its compiled forms, in operands and bodies and inside
literals at any depth. All else is kept: the expressions, of which the atoms have a property, the
operands that are no expressions, and the places of all but leading atoms. -/
inductive Form.Aliased (heads : HeadTable) (a b : String) (names : String → Prop) :
    Form → Form → Prop where
  | atom {text : String} {loc : Location} (meant : names text) :
      Aliased heads a b names (.atom text loc) (.atom text loc)
  | literal {bracket : Bracket} {forms others : List Form} {loc : Location}
      (literal : bracket ≠ .paren) (parts : List.Forall₂ (Aliased heads a b names) forms others) :
      Aliased heads a b names (.combo bracket forms loc) (.combo bracket others loc)
  /-- What has no leading atom is no form that is compiled. -/
  | headless {forms : List Form} {loc : Location}
      (headless : ∀ text headLoc, forms.head? ≠ some (.atom text headLoc)) :
      Aliased heads a b names (.combo .paren forms loc) (.combo .paren forms loc)
  | expressions {name second : String} {headLoc otherHeadLoc loc : Location}
      {operands others : List Form} (swap : name = second ∨ name = a ∧ second = b)
      (plain : ∀ head, heads.get? name = some head → operands = [] ∨ head.quotes = false)
      (parts : List.Forall₂ (Aliased heads a b names) operands others) :
      Aliased heads a b names (.combo .paren (.atom name headLoc :: operands) loc)
        (.combo .paren (.atom second otherHeadLoc :: others) loc)
  | quoting {name second : String} {head : Head} {headLoc otherHeadLoc loc : Location}
      {quoted : Form} {operands others : List Form} (swap : name = second ∨ name = a ∧ second = b)
      (means : heads.get? name = some head) (quotes : head.quotes = true)
      (parts : List.Forall₂ (Aliased heads a b names) operands others) :
      Aliased heads a b names (.combo .paren (.atom name headLoc :: quoted :: operands) loc)
        (.combo .paren (.atom second otherHeadLoc :: quoted :: others) loc)

/-! ## From the same supply -/

namespace Run

variable {α β γ δ : Type} {fails : Diagnostic → Diagnostic → Prop} {related : α → β → Prop}
  {after : γ → δ → Prop}

/-- From the same supply, two computations give results that are related and leave the same supply,
or both fail. -/
def Mirrors (fails : Diagnostic → Diagnostic → Prop) (related : α → β → Prop) (run : Run α)
    (other : Run β) : Prop :=
  ∀ next, Parallel fails (fun made second => related made.1 second.1 ∧ made.2 = second.2)
    (run next) (other next)

theorem Mirrors.bind {run : Run α} {other : Run β} {rest : α → Run γ} {otherRest : β → Run δ}
    (first : Mirrors fails related run other)
    (further : ∀ value second, related value second →
      Mirrors fails after (rest value) (otherRest second)) :
    Mirrors fails after (run >>= rest) (other >>= otherRest) := by
  intro next
  refine (first next).bind ?_
  rintro ⟨value, later⟩ ⟨second, _⟩ ⟨held, rfl⟩
  exact further value second held later

theorem mirrors_self (reflexive : ∀ report, fails report report) (run : Run α) :
    Mirrors fails Eq run run := by
  intro next
  cases run next with
  | error report => exact .error (reflexive report)
  | ok made => exact .ok ⟨rfl, rfl⟩

theorem mirrors_lift {outcome : Except Diagnostic α} {other : Except Diagnostic β}
    (parallel : Parallel fails related outcome other) :
    Mirrors fails related (liftM outcome) (liftM other) := by
  intro next
  cases parallel with
  | ok held => exact .ok ⟨held, rfl⟩
  | error held => exact .error held

theorem mirrors_pure {value : α} {other : β} (held : related value other) :
    Mirrors fails related (pure value) (pure other) :=
  fun _ => .ok ⟨held, rfl⟩

end Run

namespace Elaborator

variable {elaborator : Elaborator} {a b : String} {names : String → Prop}

/-- Two computations do the same, but for a name that reports quote. -/
abbrev SameBut (a b : String) {α : Type} (run other : Run α) : Prop :=
  Run.Mirrors (Diagnostic.AlikeBut a b Eq) Eq run other

theorem sameBut_self {α : Type} (run : Run α) : SameBut a b run run :=
  Run.mirrors_self Diagnostic.alikeBut_self run

theorem SameBut.bind {α β : Type} {run other : Run α} {rest otherRest : α → Run β}
    (first : SameBut a b run other)
    (further : ∀ value, SameBut a b (rest value) (otherRest value)) :
    SameBut a b (run >>= rest) (other >>= otherRest) :=
  Run.Mirrors.bind first fun value _ same => same ▸ further value

/-- What a lambda declares depends on the names of its own scope only. -/
theorem param_mirrors {scope other : Scope} (same : scope.innermost = other.innermost)
    (form : Form) :
    Run.Mirrors (Diagnostic.AlikeBut a b Eq)
      (fun declared second => declared.1 = second.1 ∧ declared.2.innermost = second.2.innermost)
      (elaborator.param scope form) (elaborator.param other form) := by
  have unheard (name : String) : scope.local? name = other.local? name := by
    rw [Scope.local?, same, Scope.local?]
  have refused (loc : Location) (fault : Fault) :
      Run.Mirrors (Diagnostic.AlikeBut a b Eq)
        (fun declared second : Binding × Scope =>
          declared.1 = second.1 ∧ declared.2.innermost = second.2.innermost)
        (liftM (faultAt loc fault : Except Diagnostic (Binding × Scope)))
        (liftM (faultAt loc fault : Except Diagnostic (Binding × Scope))) :=
    Run.mirrors_lift (.error (Diagnostic.alikeBut_self _))
  unfold param
  split
  next tyForm nameForm loc =>
    refine Run.Mirrors.bind (sameBut_self _) ?_
    rintro ty _ rfl
    cases nameForm with
    | combo bracket children nameLoc => exact refused _ _
    | atom name nameLoc =>
      dsimp only
      rw [← unheard]
      split
      · exact refused _ _
      next unused =>
        refine Run.Mirrors.bind (sameBut_self _) ?_
        rintro id _ rfl
        refine Run.mirrors_pure ?_
        have absent := Option.not_isSome_iff_eq_none.mp unused
        rw [Scope.define_of_none absent, Scope.define_of_none ((unheard name).symm.trans absent)]
        exact ⟨rfl, by rw [same]⟩
  · exact refused _ _

theorem params_mirrors {scope other : Scope} (same : scope.innermost = other.innermost)
    (forms : List Form) :
    Run.Mirrors (Diagnostic.AlikeBut a b Eq) (fun declared second => declared.1 = second.1)
      (elaborator.params scope forms) (elaborator.params other forms) := by
  induction forms generalizing scope other with
  | nil => exact Run.mirrors_pure rfl
  | cons form rest ih =>
    refine Run.Mirrors.bind (param_mirrors same form) ?_
    rintro ⟨binding, inner⟩ ⟨_, otherInner⟩ ⟨rfl, sameInner⟩
    refine Run.Mirrors.bind (ih sameInner) ?_
    rintro ⟨bindings, last⟩ ⟨_, otherLast⟩ rfl
    exact Run.mirrors_pure rfl

theorem paramList_mirrors (scope other : Scope) (form : Form) :
    Run.Mirrors (Diagnostic.AlikeBut a b Eq) (fun declared second => declared.1 = second.1)
      (elaborator.paramList scope form) (elaborator.paramList other form) := by
  have same : scope.push.innermost = other.push.innermost := rfl
  unfold paramList
  split
  · exact params_mirrors same _
  · exact Run.mirrors_lift (.error (Diagnostic.alikeBut_self _))

end Elaborator

/-- Two scopes have the same bindings of names with a property. -/
def Scope.AgreeOn (names : String → Prop) (scope other : Scope) : Prop :=
  ∀ name, names name → scope.lookup name = other.lookup name

namespace Elaborator

variable {elaborator : Elaborator} {a b : String} {names : String → Prop}

/-- The parameters of a lambda have the same bindings in scopes that agree, and what follows them is
elaborated in scopes that agree. -/
theorem sameBut_paramList {scope other : Scope} (agree : scope.AgreeOn names other) (form : Form)
    {rest otherRest : List Binding × Scope → Run Expr}
    (further : ∀ params inner otherInner, inner.AgreeOn names otherInner →
      SameBut a b (rest (params, inner)) (otherRest (params, otherInner))) :
    SameBut a b (elaborator.paramList scope form >>= rest)
      (elaborator.paramList other form >>= otherRest) := by
  intro next
  have declared := @paramList_mirrors elaborator a b scope other form next
  generalize made : elaborator.paramList scope form next = outcome at declared
  generalize otherMade : elaborator.paramList other form next = otherOutcome at declared
  cases declared with
  | error held =>
    rw [Run.bind_of_error made, Run.bind_of_error otherMade]
    exact .error held
  | @ok result second held =>
    obtain ⟨⟨params, inner⟩, later⟩ := result
    obtain ⟨⟨_, otherInner⟩, _⟩ := second
    obtain ⟨rfl, rfl⟩ := held
    rw [Run.bind_of_ok made, Run.bind_of_ok otherMade]
    refine further params inner otherInner (fun name meant => ?_) later
    rw [lookup_paramList made, lookup_paramList otherMade, agree name meant]

/-! ## Elaboration -/

theorem sameBut_atom {scope other : Scope} (agree : scope.AgreeOn names other) {text : String}
    (meant : names text) (loc : Location) :
    SameBut a b (liftM (atom scope text loc)) (liftM (atom other text loc)) := by
  unfold atom
  rw [agree text meant]
  exact sameBut_self _

section Refusals

variable {name second : String} (swap : name = second ∨ name = a ∧ second = b) (loc : Location)
include swap

theorem sameBut_unknownHead : SameBut a b
    (liftM (faultAt loc (.unknownHead name) : Except Diagnostic Expr))
    (liftM (faultAt loc (.unknownHead second) : Except Diagnostic Expr)) := by
  refine Run.mirrors_lift (.error (Fault.alikeBut_reportAt .unknownHead swap ?_ ?_ ?_ loc))
  · exact fun _ _ => rfl
  · exact fun _ _ => rfl
  · refine ⟨"unsupported form ", "", fun name => ?_⟩
    have quote : "unsupported form `" = "unsupported form " ++ "`" := by decide
    calc (Fault.unknownHead name).message
      _ = "unsupported form `" ++ name ++ "`" := rfl
      _ = "unsupported form " ++ s!"`{name}`" ++ "" := by
        rw [quote, String.append_empty, String.append_assoc, String.append_assoc]
        rfl

theorem sameBut_arity (expected found : Nat) : SameBut a b
    (liftM (faultAt loc (.arity name expected found) : Except Diagnostic Expr))
    (liftM (faultAt loc (.arity second expected found) : Except Diagnostic Expr)) := by
  refine Run.mirrors_lift (.error (Fault.alikeBut_reportAt (.arity · expected found) swap
    ?_ ?_ ?_ loc))
  · exact fun _ _ => rfl
  · exact fun _ _ => rfl
  · refine ⟨"", s!" expects {expected} operand(s) but received {found}", fun name => ?_⟩
    have quote : "` expects " = "`" ++ " expects " := by decide
    calc (Fault.arity name expected found).message
      _ = "`" ++ name ++ "` expects " ++ toString expected ++ " operand(s) but received " ++
          toString found := rfl
      _ = "" ++ s!"`{name}`" ++ s!" expects {expected} operand(s) but received {found}" := by
        rw [quote]
        simp only [String.append_assoc, String.empty_append]
        rfl

theorem sameBut_arityAtLeast (least found : Nat) : SameBut a b
    (liftM (faultAt loc (.arityAtLeast name least found) : Except Diagnostic Expr))
    (liftM (faultAt loc (.arityAtLeast second least found) : Except Diagnostic Expr)) := by
  refine Run.mirrors_lift (.error (Fault.alikeBut_reportAt (.arityAtLeast · least found) swap
    ?_ ?_ ?_ loc))
  · exact fun _ _ => rfl
  · exact fun _ _ => rfl
  · refine ⟨"", s!" expects at least {least} operand(s) but received {found}", fun name => ?_⟩
    have quote : "` expects at least " = "`" ++ " expects at least " := by decide
    calc (Fault.arityAtLeast name least found).message
      _ = "`" ++ name ++ "` expects at least " ++ toString least ++
          " operand(s) but received " ++ toString found := rfl
      _ = "" ++ s!"`{name}`" ++
          s!" expects at least {least} operand(s) but received {found}" := by
        rw [quote]
        simp only [String.append_assoc, String.empty_append]
        rfl

end Refusals

mutual

/-- What follows the name of a head over expressions is elaborated to the same behind an alias of
the name. -/
theorem sameBut_expressions {name second : String} {headLoc otherHeadLoc loc : Location}
    {operands others : List Form} {depth : Nat} {scope other : Scope}
    (entry : elaborator.heads.get? a = elaborator.heads.get? b)
    (swap : name = second ∨ name = a ∧ second = b) (shallow : ¬ elaborator.maxDepth < depth)
    (agree : scope.AgreeOn names other)
    (plain : ∀ head, elaborator.heads.get? name = some head → operands = [] ∨ head.quotes = false)
    (parts : List.Forall₂ (Form.Aliased elaborator.heads a b names) operands others) :
    SameBut a b
      (elaborator.elaborateAt scope depth (.combo .paren (.atom name headLoc :: operands) loc))
      (elaborator.elaborateAt other depth
        (.combo .paren (.atom second otherHeadLoc :: others) loc)) := by
  have selected : elaborator.heads.get? second = elaborator.heads.get? name := by
    rcases swap with rfl | ⟨rfl, rfl⟩
    · rfl
    · exact entry.symm
  unfold elaborateAt
  rw [if_neg shallow, if_neg shallow]
  dsimp only
  rw [selected]
  cases head : elaborator.heads.get? name with
  | none => exact sameBut_unknownHead swap loc
  | some kind =>
    cases kind with
    | unary op =>
      match operands, parts with
      | [form], .cons first .nil =>
        exact (sameBut_elaborateAt form entry agree first).bind fun _ => sameBut_self _
      | [], .nil => exact sameBut_arity swap loc _ _
      | _ :: _ :: _, .cons _ (.cons _ rest) =>
        simp only [List.length_cons, rest.length_eq]
        exact sameBut_arity swap loc _ _
    | binary op =>
      match operands, parts with
      | [left, right], .cons lefts (.cons rights .nil) =>
        exact (sameBut_elaborateAt left entry agree lefts).bind fun _ =>
          (sameBut_elaborateAt right entry agree rights).bind fun _ => sameBut_self _
      | [], .nil | [_], .cons _ .nil => exact sameBut_arity swap loc _ _
      | _ :: _ :: _ :: _, .cons _ (.cons _ (.cons _ rest)) =>
        simp only [List.length_cons, rest.length_eq]
        exact sameBut_arity swap loc _ _
    | nary op =>
      match operands, parts with
      | form :: forms, .cons first rest =>
        exact (sameBut_elaborateAt form entry agree first).bind fun _ =>
          (sameBut_elaborateAll forms entry agree rest).bind fun _ => sameBut_self _
      | [], .nil => exact sameBut_arityAtLeast swap loc _ _
    | conditional =>
      match operands, parts with
      | [condition, yes, no], .cons conditions (.cons yeses (.cons nos .nil)) =>
        exact (sameBut_elaborateAt condition entry agree conditions).bind fun _ =>
          (sameBut_elaborateAt yes entry agree yeses).bind fun _ =>
            (sameBut_elaborateAt no entry agree nos).bind fun _ => sameBut_self _
      | [], .nil | [_], .cons _ .nil | [_, _], .cons _ (.cons _ .nil) =>
        exact sameBut_arity swap loc _ _
      | _ :: _ :: _ :: _ :: _, .cons _ (.cons _ (.cons _ (.cons _ rest))) =>
        simp only [List.length_cons, rest.length_eq]
        exact sameBut_arity swap loc _ _
    | index =>
      match operands, parts with
      | target :: args, .cons first rest =>
        exact (sameBut_elaborateAt target entry agree first).bind fun _ =>
          (sameBut_elaborateAll args entry agree rest).bind fun _ => sameBut_self _
      | [], .nil => exact sameBut_arityAtLeast swap loc _ _
    | typeIs | typeAs | cast | typeOf | defaultOf | lambda =>
      -- A head that does not take expressions only stands without operands here.
      obtain rfl := (plain _ head).resolve_right nofun
      cases parts
      exact sameBut_arity swap loc _ _
    | construct =>
      obtain rfl := (plain _ head).resolve_right nofun
      cases parts
      exact sameBut_arityAtLeast swap loc _ _
termination_by structural operands

/-- What follows the name of a head that keeps its first operand is elaborated to the same behind an
alias of the name. -/
theorem sameBut_quoting {name second : String} {head : Head} {headLoc otherHeadLoc loc : Location}
    {quoted : Form} {forms operands others : List Form} {depth : Nat} {scope other : Scope}
    (entry : elaborator.heads.get? a = elaborator.heads.get? b)
    (swap : name = second ∨ name = a ∧ second = b) (shallow : ¬ elaborator.maxDepth < depth)
    (agree : scope.AgreeOn names other) (means : elaborator.heads.get? name = some head)
    (quotes : head.quotes = true) (shape : forms = quoted :: operands)
    (parts : List.Forall₂ (Form.Aliased elaborator.heads a b names) operands others) :
    SameBut a b
      (elaborator.elaborateAt scope depth (.combo .paren (.atom name headLoc :: forms) loc))
      (elaborator.elaborateAt other depth
        (.combo .paren (.atom second otherHeadLoc :: quoted :: others) loc)) := by
  have selected : elaborator.heads.get? second = some head := by
    rcases swap with rfl | ⟨rfl, rfl⟩
    · exact means
    · exact entry.symm.trans means
  match forms, shape with
  | _ :: operands, rfl =>
    unfold elaborateAt
    rw [if_neg shallow, if_neg shallow]
    dsimp only
    rw [means, selected]
    cases head with
    | unary | binary | nary | conditional | index => cases quotes
    | typeIs | typeAs | cast =>
      match operands, parts with
      | [form], .cons first .nil =>
        exact (sameBut_self _).bind fun _ =>
          (sameBut_elaborateAt form entry agree first).bind fun _ => sameBut_self _
      | [], .nil => exact sameBut_arity swap loc _ _
      | _ :: _ :: _, .cons _ (.cons _ rest) =>
        simp only [List.length_cons, rest.length_eq]
        exact sameBut_arity swap loc _ _
    | typeOf | defaultOf =>
      match operands, parts with
      | [], .nil => exact sameBut_self _
      | _ :: _, .cons _ rest =>
        simp only [List.length_cons, rest.length_eq]
        exact sameBut_arity swap loc _ _
    | construct =>
      exact (sameBut_self _).bind fun _ =>
        (sameBut_elaborateAll operands entry agree parts).bind fun _ => sameBut_self _
    | lambda =>
      match operands, parts with
      | [body], .cons first .nil =>
        exact sameBut_paramList agree quoted fun params inner otherInner agreeInside =>
          (sameBut_elaborateAt body entry agreeInside first).bind fun _ => sameBut_self _
      | [], .nil => exact sameBut_arity swap loc _ _
      | _ :: _ :: _, .cons _ (.cons _ rest) =>
        simp only [List.length_cons, rest.length_eq]
        exact sameBut_arity swap loc _ _
termination_by structural forms

/-- A form with aliases is elaborated to the same, or refused with the same report but for a
name. -/
theorem sameBut_elaborateAt (form : Form) {aliased : Form} {depth : Nat} {scope other : Scope}
    (entry : elaborator.heads.get? a = elaborator.heads.get? b) (agree : scope.AgreeOn names other)
    (forms : form.Aliased elaborator.heads a b names aliased) :
    SameBut a b (elaborator.elaborateAt scope depth form)
      (elaborator.elaborateAt other depth aliased) := by
  by_cases deep : elaborator.maxDepth < depth
  · cases forms <;>
    · unfold elaborateAt
      rw [if_pos deep, if_pos deep]
      exact sameBut_self _
  · match form, forms with
    | .atom text loc, .atom meant =>
      unfold elaborateAt
      rw [if_neg deep, if_neg deep]
      exact sameBut_atom agree meant loc
    | .combo .square items loc, .literal _ parts =>
      unfold elaborateAt
      rw [if_neg deep, if_neg deep]
      exact (sameBut_elaborateAll items entry agree parts).bind fun _ => sameBut_self _
    | .combo .curly items loc, .literal _ parts =>
      unfold elaborateAt
      rw [if_neg deep, if_neg deep]
      dsimp only
      rw [← parts.length_eq]
      split
      · exact sameBut_self _
      · exact (sameBut_elaborateAll items entry agree parts).bind fun _ => sameBut_self _
    | .combo .paren items loc, .literal literal _ => exact absurd rfl literal
    | .combo .paren [] loc, .headless _ =>
      unfold elaborateAt
      exact sameBut_self _
    | .combo .paren (.combo _ _ _ :: _) loc, .headless _ =>
      unfold elaborateAt
      exact sameBut_self _
    | .combo .paren (.atom _ _ :: _) loc, .headless headless => exact absurd rfl (headless _ _)
    | .combo .paren (.atom _ _ :: operands) loc, .expressions swap plain parts =>
      exact sameBut_expressions entry swap deep agree plain parts
    | .combo .paren (.atom _ _ :: quoted :: operands) loc, .quoting swap means quotes parts =>
      exact sameBut_quoting entry swap deep agree means quotes rfl parts
termination_by structural form

theorem sameBut_elaborateAll (forms : List Form) {others : List Form} {depth : Nat}
    {scope other : Scope} (entry : elaborator.heads.get? a = elaborator.heads.get? b)
    (agree : scope.AgreeOn names other)
    (parts : List.Forall₂ (Form.Aliased elaborator.heads a b names) forms others) :
    SameBut a b (elaborator.elaborateAll scope depth forms)
      (elaborator.elaborateAll other depth others) := by
  match forms, parts with
  | [], .nil => exact sameBut_self _
  | form :: forms, .cons first rest =>
    exact (sameBut_elaborateAt form entry agree first).bind fun _ =>
      (sameBut_elaborateAll forms entry agree rest).bind fun _ => sameBut_self _
termination_by structural forms

end

end Elaborator

end ExprLang
