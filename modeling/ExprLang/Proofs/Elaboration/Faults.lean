import ExprLang.Proofs.Run

/-!
# Reports of elaboration

Every report of elaboration is about the shape of the forms or about types: whatever the form, the
scope, the heads and the types, its kind is parser or type (`Elaborator.static_elaborateAt`).
-/

namespace ExprLang

/-- A report that compiling may give. -/
def Diagnostic.IsStatic (report : Diagnostic) : Prop :=
  report.kind = .parser ∨ report.kind = .type

/-- A report of compiling that is not about nesting. -/
def Diagnostic.IsRule (report : Diagnostic) : Prop :=
  report.IsStatic ∧ report.code ≠ .tooDeeplyNested

/-- Where an outcome is a report, it is one of compiling and not about nesting. -/
def StaticFaults {α : Type} (outcome : Except Diagnostic α) : Prop :=
  ∀ report, outcome = .error report → report.IsRule

variable {registry : Registry} {loc : Location} {α β : Type}

theorem staticFaults_ok {value : α} : StaticFaults (.ok value) := by
  rintro report ⟨⟩

theorem staticFaults_faultAt {fault : Fault} (static : (fault.reportAt loc).IsRule) :
    StaticFaults (faultAt loc fault : Except Diagnostic α) := by
  rintro report ⟨⟩
  exact static

theorem staticFaults_bind {outcome : Except Diagnostic α} {rest : α → Except Diagnostic β}
    (first : StaticFaults outcome) (second : ∀ value, StaticFaults (rest value)) :
    StaticFaults (outcome >>= rest) := by
  cases outcome with
  | error report => exact fun other same => first other (by simpa [bind, Except.bind] using same)
  | ok value => exact second value

/-! ## The typing rules -/

theorem staticFaults_unary {op : UnaryOp} {operand : Expr} :
    StaticFaults (Typing.unary loc op operand) := by
  unfold Typing.unary
  split
  · exact staticFaults_ok
  · exact staticFaults_faultAt ⟨.inr rfl, nofun⟩

theorem staticFaults_binary {op : BinaryOp} {left right : Expr} :
    StaticFaults (Typing.binary registry loc op left right) := by
  unfold Typing.binary
  split
  · exact staticFaults_ok
  · exact staticFaults_faultAt ⟨.inr rfl, nofun⟩

theorem staticFaults_nary {op : BinaryOp} {first : Expr} {rest : List Expr} :
    StaticFaults (Typing.nary registry loc op first rest) := by
  induction rest generalizing first with
  | nil => exact staticFaults_ok
  | cons second rest ih => exact staticFaults_bind staticFaults_binary fun node => ih

theorem staticFaults_conditional {condition yes no : Expr} :
    StaticFaults (Typing.conditional loc condition yes no) := by
  unfold Typing.conditional
  split
  · exact staticFaults_faultAt ⟨.inr rfl, nofun⟩
  · split
    · exact staticFaults_faultAt ⟨.inr rfl, nofun⟩
    · exact staticFaults_ok

theorem staticFaults_index {target : Expr} {args : List Expr} :
    StaticFaults (Typing.index registry loc target args) := by
  unfold Typing.index
  dsimp only
  split
  · exact staticFaults_ok
  · exact staticFaults_faultAt ⟨.inl rfl, nofun⟩

theorem staticFaults_construct {ty : Ty} {args : List Expr} :
    StaticFaults (Typing.construct registry loc ty args) := by
  unfold Typing.construct
  dsimp only
  split
  · exact staticFaults_ok
  · exact staticFaults_faultAt ⟨.inl rfl, nofun⟩

theorem staticFaults_typeAs {target : Ty} {operand : Expr} :
    StaticFaults (Typing.typeAs loc target operand) := by
  unfold Typing.typeAs
  split
  · exact staticFaults_faultAt ⟨.inr rfl, nofun⟩
  · exact staticFaults_ok

theorem staticFaults_convert {target : Ty} {operand : Expr} :
    StaticFaults (Typing.convert registry loc target operand) := by
  unfold Typing.convert
  split
  · exact staticFaults_ok
  · exact staticFaults_faultAt ⟨.inr rfl, nofun⟩

theorem staticFaults_elementTy {types : List Ty} :
    StaticFaults (Typing.elementTy registry loc types) := by
  unfold Typing.elementTy
  split
  · exact staticFaults_ok
  · split
    · exact staticFaults_faultAt ⟨.inr rfl, nofun⟩
    · exact staticFaults_faultAt ⟨.inr rfl, nofun⟩

theorem staticFaults_list {items : List Expr} : StaticFaults (Typing.list registry loc items) :=
  staticFaults_bind staticFaults_elementTy fun _ => staticFaults_ok

theorem staticFaults_map {entries : List (Expr × Expr)} :
    StaticFaults (Typing.map registry loc entries) :=
  staticFaults_bind staticFaults_elementTy fun _ =>
    staticFaults_bind staticFaults_elementTy fun _ => staticFaults_ok

/-! ## Literals and names -/

/-- A literal fails only for a number that its type has no room for. -/
theorem code_of_number? {text : String} {fault : Fault}
    (failed : Literal.number? text = .error fault) : fault.code = .invalidLiteral := by
  unfold Literal.number? at failed
  dsimp only at failed
  split at failed
  · split at failed
    · cases failed
    · cases failed
      rfl
  · split at failed
    · cases failed
    · split at failed
      · cases failed
      · cases failed
        rfl

theorem code_of_constant? {text : String} {fault : Fault}
    (failed : Literal.constant? text = .error fault) : fault.code = .invalidLiteral := by
  unfold Literal.constant? at failed
  split at failed
  · cases failed
  · cases failed
  · cases failed
  · split at failed
    · cases failed
    · cases outcome : Literal.number? text with
      | error other =>
        simp only [outcome, bind, Except.bind] at failed
        cases failed
        exact code_of_number? outcome
      | ok number =>
        simp only [outcome, bind, Except.bind] at failed
        cases failed

/-- A report of compiling that is about the shape of forms, their literals or their names. -/
def Diagnostic.IsSyntactic (report : Diagnostic) : Prop :=
  report.kind = .parser ∧ report.code ≠ .tooDeeplyNested

theorem Diagnostic.IsSyntactic.isRule {report : Diagnostic} (syntactic : report.IsSyntactic) :
    report.IsRule :=
  ⟨.inl syntactic.1, syntactic.2⟩

namespace Elaborator

variable {elaborator : Elaborator} {scope : Scope} {depth next : Nat} {report : Diagnostic}

theorem isSyntactic_of_typeName {form : Form} (failed : elaborator.typeName form = .error report) :
    report.IsSyntactic := by
  unfold typeName at failed
  split at failed
  · cases failed
    exact ⟨rfl, nofun⟩
  · split at failed
    · cases failed
    · cases failed
      exact ⟨rfl, nofun⟩

theorem isSyntactic_of_atom {text : String} (failed : atom scope text loc = .error report) :
    report.IsSyntactic := by
  unfold atom at failed
  split at failed
  next fault invalid =>
    cases failed
    have code : (fault.reportAt loc).code = .invalidLiteral := code_of_constant? invalid
    exact ⟨by rw [Diagnostic.kind, code]; rfl, by rw [code]; nofun⟩
  · cases failed
  · split at failed
    · cases failed
    · cases failed
      exact ⟨rfl, nofun⟩

theorem staticFaults_typeName {form : Form} : StaticFaults (elaborator.typeName form) :=
  fun _ failed => (isSyntactic_of_typeName failed).isRule

theorem staticFaults_atom {text : String} : StaticFaults (atom scope text loc) :=
  fun _ failed => (isSyntactic_of_atom failed).isRule

/-! ## Parameters -/

theorem param_failsAs {form : Form} :
    Run.FailsAs (elaborator.param scope form) Diagnostic.IsSyntactic := by
  unfold param
  split
  next tyForm nameForm loc =>
    refine (Run.failsAs_lift fun report => isSyntactic_of_typeName).bind fun ty => ?_
    cases nameForm with
    | combo bracket children nameLoc => exact Run.failsAs_faultAt ⟨rfl, nofun⟩
    | atom name nameLoc =>
      dsimp only
      split
      · exact Run.failsAs_faultAt ⟨rfl, nofun⟩
      · exact Run.failsAs_freshId.bind fun id => Run.failsAs_pure
  · exact Run.failsAs_faultAt ⟨rfl, nofun⟩

theorem params_failsAs {forms : List Form} :
    Run.FailsAs (elaborator.params scope forms) Diagnostic.IsSyntactic := by
  induction forms generalizing scope with
  | nil => exact Run.failsAs_pure
  | cons form forms ih =>
    exact param_failsAs.bind fun _ => ih.bind fun _ => Run.failsAs_pure

theorem paramList_failsAs {form : Form} :
    Run.FailsAs (elaborator.paramList scope form) Diagnostic.IsSyntactic := by
  unfold paramList
  split
  · exact params_failsAs
  · exact Run.failsAs_faultAt ⟨rfl, nofun⟩

/-! ## Forms -/

/-- A computation that reports nothing but what compiling may give. -/
abbrev Static (run : Run α) : Prop :=
  run.FailsAs Diagnostic.IsStatic

theorem static_lift {outcome : Except Diagnostic α} (faults : StaticFaults outcome) :
    Static (liftM outcome : Run α) :=
  Run.failsAs_lift fun report failed => (faults report failed).1

theorem static_paramList {form : Form} : Static (elaborator.paramList scope form) :=
  paramList_failsAs.mono fun _ syntactic => .inl syntactic.1

mutual

theorem static_head {name : String} {headLoc loc : Location} {operands : List Form}
    {scope : Scope} {depth : Nat} (shallow : depth ≤ elaborator.maxDepth) :
    Static (elaborator.elaborateAt scope depth
      (.combo .paren (.atom name headLoc :: operands) loc)) := by
  unfold elaborateAt
  rw [if_neg (Nat.not_lt.mpr shallow)]
  cases head : elaborator.heads.get? name with
  | none =>
    simp only [head]
    exact Run.failsAs_faultAt (.inl rfl)
  | some kind =>
    simp only [head]
    cases kind with
    | unary op =>
      match operands with
      | [form] => exact (static_elaborateAt form).bind fun _ => static_lift staticFaults_unary
      | [] | _ :: _ :: _ => exact Run.failsAs_faultAt (.inl rfl)
    | binary op =>
      match operands with
      | [left, right] =>
        exact (static_elaborateAt left).bind fun _ => (static_elaborateAt right).bind fun _ =>
          static_lift staticFaults_binary
      | [] | [_] | _ :: _ :: _ :: _ => exact Run.failsAs_faultAt (.inl rfl)
    | nary op =>
      match operands with
      | first :: rest =>
        exact (static_elaborateAt first).bind fun _ => (static_elaborateAll rest).bind fun _ =>
          static_lift staticFaults_nary
      | [] => exact Run.failsAs_faultAt (.inl rfl)
    | conditional =>
      match operands with
      | [condition, yes, no] =>
        exact (static_elaborateAt condition).bind fun _ => (static_elaborateAt yes).bind fun _ =>
          (static_elaborateAt no).bind fun _ => static_lift staticFaults_conditional
      | [] | [_] | [_, _] | _ :: _ :: _ :: _ :: _ => exact Run.failsAs_faultAt (.inl rfl)
    | index =>
      match operands with
      | target :: args =>
        exact (static_elaborateAt target).bind fun _ => (static_elaborateAll args).bind fun _ =>
          static_lift staticFaults_index
      | [] => exact Run.failsAs_faultAt (.inl rfl)
    | typeIs =>
      match operands with
      | [tyForm, form] =>
        exact (static_lift staticFaults_typeName).bind fun _ =>
          (static_elaborateAt form).bind fun _ => static_lift staticFaults_ok
      | [] | [_] | _ :: _ :: _ :: _ => exact Run.failsAs_faultAt (.inl rfl)
    | typeAs =>
      match operands with
      | [tyForm, form] =>
        exact (static_lift staticFaults_typeName).bind fun _ =>
          (static_elaborateAt form).bind fun _ => static_lift staticFaults_typeAs
      | [] | [_] | _ :: _ :: _ :: _ => exact Run.failsAs_faultAt (.inl rfl)
    | cast =>
      match operands with
      | [tyForm, form] =>
        exact (static_lift staticFaults_typeName).bind fun _ =>
          (static_elaborateAt form).bind fun _ => static_lift staticFaults_convert
      | [] | [_] | _ :: _ :: _ :: _ => exact Run.failsAs_faultAt (.inl rfl)
    | typeOf =>
      match operands with
      | [tyForm] => exact (static_lift staticFaults_typeName).bind fun _ => Run.failsAs_pure
      | [] | _ :: _ :: _ => exact Run.failsAs_faultAt (.inl rfl)
    | defaultOf =>
      match operands with
      | [tyForm] => exact (static_lift staticFaults_typeName).bind fun _ => Run.failsAs_pure
      | [] | _ :: _ :: _ => exact Run.failsAs_faultAt (.inl rfl)
    | construct =>
      match operands with
      | tyForm :: args =>
        exact (static_lift staticFaults_typeName).bind fun _ =>
          (static_elaborateAll args).bind fun _ => static_lift staticFaults_construct
      | [] => exact Run.failsAs_faultAt (.inl rfl)
    | lambda =>
      match operands with
      | [params, body] =>
        exact static_paramList.bind fun _ => (static_elaborateAt body).bind fun _ =>
          Run.failsAs_freshId.bind fun _ => Run.failsAs_pure
      | [] | [_] | _ :: _ :: _ :: _ => exact Run.failsAs_faultAt (.inl rfl)
termination_by structural operands

/-- Elaboration of a form reports nothing but what compiling may give. -/
theorem static_elaborateAt (form : Form) {scope : Scope} {depth : Nat} :
    Static (elaborator.elaborateAt scope depth form) := by
  match form with
  | .atom text loc =>
    unfold elaborateAt
    split
    · exact Run.failsAs_faultAt (.inl rfl)
    · exact static_lift staticFaults_atom
  | .combo .square items loc =>
    unfold elaborateAt
    split
    · exact Run.failsAs_faultAt (.inl rfl)
    · exact (static_elaborateAll items).bind fun _ => static_lift staticFaults_list
  | .combo .curly forms loc =>
    unfold elaborateAt
    split
    · exact Run.failsAs_faultAt (.inl rfl)
    · dsimp only
      split
      · exact Run.failsAs_faultAt (.inl rfl)
      · exact (static_elaborateAll forms).bind fun _ => static_lift staticFaults_map
  | .combo .paren [] loc =>
    unfold elaborateAt
    split
    · exact Run.failsAs_faultAt (.inl rfl)
    · exact Run.failsAs_faultAt (.inl rfl)
  | .combo .paren (.combo .. :: _) loc =>
    unfold elaborateAt
    split
    · exact Run.failsAs_faultAt (.inl rfl)
    · exact Run.failsAs_faultAt (.inl rfl)
  | .combo .paren (.atom name headLoc :: operands) loc =>
    by_cases shallow : depth ≤ elaborator.maxDepth
    · exact static_head shallow
    · unfold elaborateAt
      rw [if_pos (Nat.lt_of_not_le shallow)]
      exact Run.failsAs_faultAt (.inl rfl)
termination_by structural form

theorem static_elaborateAll (forms : List Form) {scope : Scope} {depth : Nat} :
    Static (elaborator.elaborateAll scope depth forms) := by
  match forms with
  | [] => exact Run.failsAs_pure
  | form :: forms =>
    exact (static_elaborateAt form).bind fun _ =>
      (static_elaborateAll forms).bind fun _ => Run.failsAs_pure
termination_by structural forms

end

end Elaborator

end ExprLang
