import ExprLang.Proofs.Elaboration.Faults
import ExprLang.Proofs.Engine.Session
import ExprLang.Proofs.TypeSoundness

/-!
# Phases of failure

Which stage of the language reports what. Reading reports lexical failures and nesting that is too
deep; compiling reports failures of shape and of type; running reports failures of running, with
one exception: the sum of two strings of which one is null, an operator that meets a value it is
not made for (`Engine.phase_separation`).

That running never reports a failure of type means that the checks of evaluation that the typing
rules make superfluous never fail: conditions are booleans, operators meet values that they are
made for, and indexers meet targets that they belong to.
-/

namespace ExprLang

/-! ## Reading -/

/-- A report that reading may give. -/
def Diagnostic.IsLexical (report : Diagnostic) : Prop :=
  report.kind = .lexer ∨ report.code = .tooDeeplyNested

namespace Reader

variable {reader : Reader} {report : Diagnostic} {input behind : Input}

theorem isLexical_of_readWith {finish : Position} {stack : List OpenCombo} {pieces : List Lexeme}
    (failed : reader.readWith finish stack pieces = (.error report, behind)) :
    report.IsLexical := by
  induction pieces generalizing stack with
  | nil =>
    cases stack <;> cases failed <;> exact .inl rfl
  | cons lexeme rest ih =>
    obtain ⟨piece, start, stop⟩ := lexeme
    cases piece with
    | unterminated text =>
      cases failed
      exact .inl rfl
    | opener bracket =>
      simp only [readWith] at failed
      split at failed
      · cases failed
        exact .inr rfl
      · exact ih failed
    | atom text =>
      cases stack with
      | nil => cases failed
      | cons outer below => exact ih failed
    | closer bracket =>
      cases stack with
      | nil =>
        cases failed
        exact .inl rfl
      | cons inner below =>
        simp only [readWith] at failed
        split at failed
        · cases failed
          exact .inl rfl
        · split at failed
          · cases failed
          · exact ih failed

theorem isLexical_of_readOnly {text : String} (failed : reader.readOnly text = .error report) :
    report.IsLexical := by
  unfold readOnly at failed
  split at failed
  next other behind read =>
    cases failed
    exact isLexical_of_readWith read
  · split at failed
    · cases failed
    · cases failed
      exact .inl rfl

end Reader

/-! ## Running -/

namespace Setting

variable {setting : Setting} {frame : Frame Value} {expr : Expr} {report : Diagnostic}

/-- The report comes from the sum of two operands of type `string` of which one evaluated to null.
-/
def NullSum (setting : Setting) (frame : Frame Value) (expr : Expr) (report : Diagnostic) : Prop :=
  ∃ node left right, Expr.IsPart (.binary node .add left right) expr ∧
    left.ty = .string ∧ right.ty = .string ∧
    ∃ leftValue rightValue first second third,
      setting.evaluate frame left first = .ok (leftValue, second) ∧
      setting.evaluate frame right second = .ok (rightValue, third) ∧
      (leftValue = .null ∨ rightValue = .null) ∧
      report = (BinaryOp.add.inapplicable leftValue rightValue).reportAt node.loc

/-- The report comes from a conversion whose value is not of the target type. -/
def FailedCast (expr : Expr) (report : Diagnostic) : Prop :=
  ∃ node target operand, Expr.IsPart (.convert node target operand) expr ∧
    ((∃ actual, report = (Fault.castFailed actual target).reportAt node.loc) ∨
      ∃ text, report = (Fault.conversionFailed text target).reportAt node.loc)

/-- What evaluating an expression may report: a failure of running, which is an invalid cast only
where a conversion fails, or the sum of strings of which one is null. -/
def MayReport (setting : Setting) (frame : Frame Value) (expr : Expr) (report : Diagnostic) :
    Prop :=
  (report.kind = .runtime ∧ (report.code = .invalidCast → FailedCast expr report)) ∨
    NullSum setting frame expr report

theorem mayReport_of_code (kind : report.kind = .runtime) (code : report.code ≠ .invalidCast) :
    MayReport setting frame expr report :=
  .inl ⟨kind, fun cast => absurd cast code⟩

/-- Every explained report is one that evaluation may give. -/
theorem Explained.mayReport (explained : Explained setting frame expr report) :
    MayReport setting frame expr report := by
  obtain ⟨part, isPart, expected⟩ := explained
  cases expected with
  | valueless missing => exact mayReport_of_code rfl nofun
  | unary decimal => exact mayReport_of_code rfl nofun
  | @binary node op left right leftValue rightValue first second third fault leftRun rightRun
      failed =>
    cases failed with
    | divisionByZero divides => exact mayReport_of_code rfl nofun
    | overflow decimal => exact mayReport_of_code rfl nofun
    | nullString sum strings null =>
      subst sum
      exact .inr ⟨node, left, right, isPart, strings.1, strings.2, leftValue, rightValue, first,
        second, third, leftRun, rightRun, null, rfl⟩
  | construct => exact mayReport_of_code rfl nofun
  | index failed =>
    cases failed <;> exact mayReport_of_code rfl nofun
  | @convert node target operand value first second fault run failed =>
    cases failed with
    | null null valueType => exact mayReport_of_code rfl nofun
    | overflow numeric => exact mayReport_of_code rfl nofun
    | number numeric =>
      exact .inl ⟨rfl, fun _ => ⟨node, target, operand, isPart, .inr ⟨_, rfl⟩⟩⟩
    | cast shown differs =>
      exact .inl ⟨rfl, fun _ => ⟨node, target, operand, isPart, .inl ⟨_, rfl⟩⟩⟩
  | map belongs => exact mayReport_of_code rfl nofun

end Setting

namespace Closure

/-- What a call of a function may report: what evaluating its body in the frame of the call may. -/
def MayReport (host : Host) (closure : Closure Value) (args : List Value) (report : Diagnostic) :
    Prop :=
  ∃ id, Setting.MayReport ⟨closure.registry, host⟩ (closure.callFrame args id) closure.body report

theorem Explained.mayReport {host : Host} {closure : Closure Value} {args : List Value}
    {report : Diagnostic} (explained : Explained host closure args report) :
    closure.MayReport host args report := by
  obtain ⟨id, explained⟩ := explained
  exact ⟨id, explained.mayReport⟩

end Closure

namespace Engine

/-- What running relies on: the engine is one of a session, its host types are chains of host types,
and the values of its globals are well typed. -/
structure Trusted (engine : Engine) (supplied : Closure Value → Prop) : Prop where
  reached : engine.Reached
  hostBased : engine.registry.HostBased
  globals : engine.globals.Covers engine.registry supplied engine.root.bindings

variable {engine : Engine} {supplied : Closure Value → Prop} {report : Diagnostic}

/-- The root of a unit that a trusted engine compiled is well typed. -/
theorem Trusted.typed (trusted : engine.Trusted supplied) {form : Form} {unit : CompiledUnit}
    {later : Engine} (compiled : engine.compileForm form = .ok (unit, later)) :
    Typed engine.registry engine.root.bindings unit.root := by
  obtain ⟨-, -, supply, elaborated, -⟩ := compileForm_ok compiled
  exact (Elaborator.elaborates_of_ok elaborated).typed trusted.reached.root_below

theorem isStatic_of_compileForm {form : Form} (failed : engine.compileForm form = .error report) :
    report.IsStatic :=
  (Elaborator.static_elaborateAt form engine.supply).of_error (compileForm_error failed)

/-- What a unit guarantees when it is run: a well-typed value, or a report that evaluation of its
root may give. -/
theorem Trusted.meets_invoke (trusted : engine.Trusted supplied) {form : Form} {unit : CompiledUnit}
    {later : Engine} (compiled : engine.compileForm form = .ok (unit, later)) {host : Host}
    (sound : host.Sound engine.registry supplied) :
    Setting.Sound ⟨unit.registry, host⟩ supplied unit.frame unit.root := by
  have typed := trusted.typed compiled
  obtain ⟨frame, registry, -⟩ := compileForm_ok compiled
  rw [frame, registry]
  exact Setting.meets_evaluate trusted.hostBased sound trusted.globals typed

/-- **Phase separation.** Reading fails lexically or for depth, compiling for shape or type. A unit
that a trusted engine compiled fails, on a host that keeps to its declarations, with failures of
running or with the sum of strings of which one is null; and so does every function that can be got
out of its value, on arguments that it accepts. -/
theorem phase_separation (engine : Engine) (supplied : Closure Value → Prop) :
    (∀ source report, engine.read source = .error report → report.IsLexical) ∧
    (∀ form report, engine.compileForm form = .error report → report.IsStatic) ∧
    ∀ form unit later, engine.Trusted supplied → engine.compileForm form = .ok (unit, later) →
      ∀ runner : Engine, runner.host.Sound engine.registry supplied →
        (∀ report, runner.invoke unit = .error report →
          Setting.MayReport ⟨engine.registry, runner.host⟩ engine.globals unit.root report) ∧
        ∀ value last, runner.invoke unit = .ok (value, last) →
          ∀ closure, Obtained engine.registry supplied value (.function closure) →
            ¬ supplied closure → ∀ (caller : Engine) args report,
              caller.host.Sound engine.registry supplied →
              (∀ arg ∈ args, WellTyped engine.registry supplied arg .object) →
              closure.Accepts args → caller.call closure args = .error report →
              closure.MayReport caller.host args report := by
  refine ⟨fun source report failed => Reader.isLexical_of_readOnly failed,
    fun form report failed => isStatic_of_compileForm failed, ?_⟩
  intro form unit later trusted compiled runner sound
  have guaranteed := trusted.meets_invoke compiled sound
  obtain ⟨frame, registry, -⟩ := compileForm_ok compiled
  rw [frame, registry] at guaranteed
  refine ⟨fun report failed => ?_, ?_⟩
  · unfold invoke at failed
    rw [frame, registry] at failed
    exact ((guaranteed _).of_error (perform_error failed)).mayReport
  · intro value last done closure obtained made caller args report callerSound held accepts failed
    unfold invoke at done
    rw [frame, registry] at done
    obtain ⟨supply, evaluated, -⟩ := perform_ok done
    have valueTyped := (guaranteed _).of_ok evaluated
    obtain ⟨params, result, signature, known⟩ :=
      (obtained.wellTyped trusted.hostBased valueTyped).function_inv
    have call :=
      Closure.meets_call trusted.hostBased callerSound known made signature held caller.supply
    exact (call.of_error (perform_error failed) accepts).mayReport

end Engine

/-! ## Two sums with null -/

namespace PointHost

def engine : Engine :=
  (Engine.withOptions {}).register { name := "Point", constructors := [([.int], makePoint)] }

theorem trusted : engine.Trusted fun _ => False where
  reached := (Engine.Reached.new {}).register _
  hostBased := hostBased
  globals := by simp [Frame.Covers, engine, Engine.register, Engine.withOptions, Scope.bindings]

def nullSum : Form :=
  let loc : Location := ⟨"sum", 1, 1⟩
  let atom (text : String) : Form := .atom text loc
  .combo .paren [atom "+", atom "\"a\"", .combo .paren [atom "default", atom "string"] loc] loc

def sumWith : Form :=
  let loc : Location := ⟨"sum", 1, 1⟩
  let atom (text : String) : Form := .atom text loc
  let combo (children : List Form) : Form := .combo .paren children loc
  combo [atom "=>", combo [combo [atom "string", atom "s"]],
    combo [atom "+", atom "\"a\"", atom "s"]]

end PointHost

namespace Engine

/-- Phase separation applies to a text without forms, to an empty form, to a sum with null and to a
function that is called with null. -/
theorem phase_separation_pointHost :
    (∃ report, PointHost.engine.read "" = .error report ∧ report.IsLexical) ∧
    (∃ report, PointHost.engine.compileForm (.combo .paren [] ⟨"", 1, 1⟩) = .error report ∧
      report.IsStatic) ∧
    (∃ unit later report, PointHost.engine.compileForm PointHost.nullSum = .ok (unit, later) ∧
      later.invoke unit = .error report ∧ report.code = .operatorNotDefined ∧
      Setting.MayReport ⟨PointHost.registry, PointHost.host⟩ (.empty 0) unit.root report) ∧
    ∃ unit later closure last report,
      PointHost.engine.compileForm PointHost.sumWith = .ok (unit, later) ∧
      later.invoke unit = .ok (.function closure, last) ∧
      last.call closure [.null] = .error report ∧
      closure.MayReport PointHost.host [.null] report := by
  obtain ⟨reading, compiling, running⟩ := phase_separation PointHost.engine fun _ => False
  refine ⟨?_, ?_, ?_, ?_⟩
  · have empty : PointHost.engine.read "" =
        .error (Fault.endOfInput.reportAt ⟨PointHost.engine.options.sourceName, 1, 1⟩) := by
      simp [read, Reader.readOnly, Reader.readForm, Input.ofText, lexemes, Reader.readWith, reader,
        Position.inFile]
    exact ⟨_, empty, reading _ _ empty⟩
  · exact ⟨_, rfl, compiling (.combo .paren [] ⟨"", 1, 1⟩) _ rfl⟩
  · refine ⟨_, { PointHost.engine with supply := 1 }, _, rfl, rfl, rfl, ?_⟩
    exact (running PointHost.nullSum _ _ PointHost.trusted rfl { PointHost.engine with supply := 1 }
      (PointHost.sound _)).1 _ rfl
  · refine ⟨_, { PointHost.engine with supply := 3 }, _, { PointHost.engine with supply := 3 }, _,
      rfl, rfl, rfl, ?_⟩
    have calling := (running PointHost.sumWith _ _ PointHost.trusted rfl
      { PointHost.engine with supply := 3 } (PointHost.sound _)).2 _ _ rfl
    refine calling _ .start id { PointHost.engine with supply := 3 } _ _
      (PointHost.sound _) ?_ ?_ rfl
    · simpa using WellTyped.null rfl
    · refine ⟨rfl, fun pair belongs => ?_⟩
      obtain rfl := List.mem_singleton.mp belongs
      rfl

end Engine

end ExprLang
