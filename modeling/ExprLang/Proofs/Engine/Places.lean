import ExprLang.Proofs.Elaboration.Places
import ExprLang.Proofs.Engine.Session

/-!
# Places of reports

Where the reports of running lie, and with that the reports of every stage. A report of evaluating
an expression lies at a part of the expression, whatever the frame, the types and the code of the
host (`Setting.places_evaluate`), and a report of calling a function at a part of its body. So
whatever an engine reports about a source unit lies in it (`Engine.reports_lie_in_source`).
-/

namespace ExprLang

variable {places : Location → Prop}

/-! ## Running -/

namespace Setting

open Elaborator (Placed placed_faultAt)

variable {setting : Setting} {frame : Frame Value} {loc : Location}

theorem placed_value {α : Type} {value : α} :
    Placed places (pure value : Run α) fun _ => True :=
  fun _ => Run.meets_pure trivial

theorem placed_freshId : Placed places freshId fun _ => True :=
  fun _ => Run.meets_freshId

theorem placed_locate {α : Type} {outcome : Except Fault α} (here : places loc) :
    Placed places (liftM (locate loc outcome) : Run α) fun _ => True := by
  cases outcome with
  | error fault => exact placed_faultAt here fault
  | ok value => exact placed_value

theorem placed_callHost {key : Nat} {target : Value} {args : List Value} (here : places loc) :
    Placed places (setting.callHost loc key target args) fun _ => True := by
  intro next
  unfold Run.Meets callHost
  cases setting.host.callback key target args next with
  | ok result => trivial
  | error message => exact liesIn_reportAt here _

theorem placed_index {indexer : Indexer} {target : Value} {args : List Value} (here : places loc) :
    Placed places (setting.index loc indexer target args) fun _ => True := by
  unfold index
  split
  · exact placed_faultAt here _
  · split
    · split
      · exact placed_value
      · exact placed_faultAt here _
    · split
      · exact placed_value
      · exact placed_faultAt here _
    · split
      · exact placed_value
      · exact placed_faultAt here _
    · exact placed_callHost here
    · exact placed_faultAt here _

mutual

/-- A report of evaluation lies at a part of the expression. -/
theorem places_evaluate (expr : Expr) (within : expr.Within places) :
    Placed places (setting.evaluate frame expr) fun _ => True := by
  match expr with
  | .constant .. | .lambda .. | .typeOf .. | .defaultOf .. => exact placed_value
  | .variable node binding =>
    unfold evaluate
    split
    · exact placed_value
    · exact placed_faultAt within.self _
  | .unary _ _ operand | .convert _ _ operand =>
    have inner : operand.Within places := within.operand (by simp [Expr.operands])
    exact (places_evaluate operand inner).bind fun _ _ => placed_locate within.self
  | .binary _ _ left right =>
    refine (places_evaluate left (within.operand (by simp [Expr.operands]))).bind fun _ _ => ?_
    split
    · exact placed_value
    · exact (places_evaluate right (within.operand (by simp [Expr.operands]))).bind fun _ _ =>
        placed_locate within.self
  | .conditional _ condition yes no =>
    have first : condition.Within places := within.operand (by simp [Expr.operands])
    refine (places_evaluate condition first).bind fun value _ => ?_
    split
    · exact places_evaluate yes (within.operand (by simp [Expr.operands]))
    · exact places_evaluate no (within.operand (by simp [Expr.operands]))
    · exact placed_faultAt first.self _
  | .construct _ _ args =>
    exact (places_evaluateAll args fun _ belongs => within.operand belongs).bind fun _ _ =>
      placed_callHost within.self
  | .index _ _ target args =>
    exact (places_evaluate target (within.operand List.mem_cons_self)).bind fun _ _ =>
      (places_evaluateAll args fun _ belongs =>
        within.operand (List.mem_cons_of_mem _ belongs)).bind fun _ _ => placed_index within.self
  | .typeIs _ _ operand | .typeAs _ _ operand =>
    have inner : operand.Within places := within.operand (by simp [Expr.operands])
    exact (places_evaluate operand inner).bind fun _ _ => placed_value
  | .list _ _ items =>
    exact (places_evaluateAll items fun _ belongs => within.operand belongs).bind fun _ _ =>
      placed_freshId.bind fun _ _ => placed_value
  | .map _ _ _ entries =>
    refine (places_evaluateEntries entries fun entry belongs => ⟨?_, ?_⟩).bind fun _ _ =>
      placed_freshId.bind fun _ _ => placed_value
    · exact within.operand (List.mem_append_left _ (List.mem_map_of_mem belongs))
    · exact within.operand (List.mem_append_right _ (List.mem_map_of_mem belongs))
termination_by structural expr

theorem places_evaluateAll (exprs : List Expr) (within : ∀ expr ∈ exprs, expr.Within places) :
    Placed places (setting.evaluateAll frame exprs) fun _ => True := by
  match exprs with
  | [] => exact placed_value
  | expr :: rest =>
    rw [List.forall_mem_cons] at within
    exact (places_evaluate expr within.1).bind fun _ _ =>
      (places_evaluateAll rest within.2).bind fun _ _ => placed_value
termination_by structural exprs

theorem places_evaluateEntries (entries : List (Expr × Expr))
    (within : ∀ entry ∈ entries, entry.1.Within places ∧ entry.2.Within places)
    {before : List (Value × Value)} :
    Placed places (setting.evaluateEntries frame before entries) fun _ => True := by
  match entries with
  | [] => exact placed_value
  | (key, value) :: rest =>
    rw [List.forall_mem_cons] at within
    refine (places_evaluate key within.1.1).bind fun keyValue _ =>
      (places_evaluate value within.1.2).bind fun _ _ => ?_
    split
    · exact placed_faultAt within.1.1.self _
    · exact places_evaluateEntries rest within.2
termination_by structural entries

end

end Setting

namespace Closure

/-- A function is one that a lambda inside of an expression makes, in whatever frame and under
whatever types. -/
def MadeIn (root : Expr) (closure : Closure Value) : Prop :=
  ∃ node, root.Contains (.lambda node closure.lambda closure.params closure.body)

theorem MadeIn.within_body {root : Expr} {closure : Closure Value} (made : closure.MadeIn root)
    (within : root.Within places) : closure.body.Within places := by
  obtain ⟨node, contains⟩ := made
  exact within.inner (contains.child List.mem_cons_self)

/-- A report of a call lies at a part of the body. -/
theorem places_call {host : Host} {closure : Closure Value} {args : List Value}
    (within : closure.body.Within places) :
    Elaborator.Placed places (closure.call host args) fun _ => True := by
  unfold call
  dsimp only
  split
  · exact Elaborator.placed_faultAt within.self _
  · split
    · exact Elaborator.placed_faultAt within.self _
    · exact Setting.placed_freshId.bind fun _ _ => Setting.places_evaluate _ within

end Closure

/-! ## Engines -/

namespace Engine

variable {engine later : Engine} {form : Form} {unit : CompiledUnit} {report : Diagnostic}

theorem places_of_compileForm (failed : engine.compileForm form = .error report) :
    report.LiesIn form.HasPlace :=
  (Elaborator.places_elaborateAt form (fun _ has => has) _).of_error (compileForm_error failed)

theorem within_of_compileForm (compiled : engine.compileForm form = .ok (unit, later)) :
    unit.root.Within form.HasPlace := by
  obtain ⟨-, -, supply, elaborated, -⟩ := compileForm_ok compiled
  exact (Elaborator.places_elaborateAt form (fun _ has => has) _).of_ok elaborated

theorem places_of_invoke (within : unit.root.Within places)
    (failed : engine.invoke unit = .error report) : report.LiesIn places :=
  (Setting.places_evaluate unit.root within _).of_error (perform_error failed)

theorem places_of_execute {expected : Ty} (within : unit.root.Within places)
    (failed : engine.execute unit expected = .error report) : report.LiesIn places := by
  unfold execute at failed
  split at failed
  · exact places_of_invoke within failed
  · cases failed
    exact liesIn_reportAt within.self _

theorem places_of_extract {shape : Shape} (within : unit.root.Within places)
    (failed : engine.extract unit shape = .error report) : report.LiesIn places := by
  unfold extract at failed
  split at failed
  · cases ran : engine.invoke unit with
    | error other =>
      rw [ran] at failed
      cases failed
      exact places_of_invoke within ran
    | ok outcome =>
      obtain ⟨value, later⟩ := outcome
      simp only [ran, bind, Except.bind] at failed
      split at failed
      · cases failed
      · cases failed
        exact liesIn_reportAt within.self _
  · cases failed
    exact liesIn_reportAt within.self _

theorem places_of_call {closure : Closure Value} {args : List Value}
    (within : closure.body.Within places) (failed : engine.call closure args = .error report) :
    report.LiesIn places :=
  (Closure.places_call within _).of_error (perform_error failed)

/-- **Reports lie in their source.** A report of reading a text lies where a piece of the text
starts or at its end, and names the source unit. For each form that is read from the text, every
node lies where a piece of the text starts, and every report of compiling the form, of running what
it is compiled to, of running it for a type or a shape, and of calling a function that a lambda in
it makes lies at a node of the form. -/
theorem reports_lie_in_source (reader : Reader) (source : String) :
    (∀ input report behind, Input.From source input →
      reader.readForm input = (.error report, behind) →
      report.LiesIn (PlaceInText reader.file source)) ∧
    (∀ report, reader.readOnly source = .error report →
      report.LiesIn (PlaceInText reader.file source)) ∧
    (∀ report, reader.readAll source = .error report →
      report.LiesIn (PlaceInText reader.file source)) ∧
    (∀ form, reader.readOnly source = .ok form → reader.Gives source form) ∧
    (∀ forms, reader.readAll source = .ok forms → ∀ form ∈ forms, reader.Gives source form) ∧
    ∀ form, reader.Gives source form →
      (∀ loc, form.HasPlace loc → PlaceOfPiece reader.file source loc) ∧
      (∀ (engine : Engine) (report : Diagnostic), engine.compileForm form = .error report →
        report.LiesIn form.HasPlace) ∧
      ∀ (engine later : Engine) (unit : CompiledUnit),
        engine.compileForm form = .ok (unit, later) → ∀ running : Engine,
        (∀ report, running.invoke unit = .error report → report.LiesIn form.HasPlace) ∧
        (∀ expected report, running.execute unit expected = .error report →
          report.LiesIn form.HasPlace) ∧
        (∀ shape report, running.extract unit shape = .error report →
          report.LiesIn form.HasPlace) ∧
        ∀ closure args report, closure.MadeIn unit.root →
          running.call closure args = .error report → report.LiesIn form.HasPlace := by
  refine ⟨fun _ _ _ => Reader.stops_of_readForm, fun _ => Reader.stops_of_readOnly, ?_, ?_, ?_, ?_⟩
  · exact fun _ => Reader.stops_of_readForms .start
  · exact fun _ => Reader.gives_of_readOnly
  · exact fun _ read _ => Reader.gives_of_readForms .start read
  · intro form gives
    refine ⟨fun _ => gives.places, fun _ _ => places_of_compileForm, ?_⟩
    intro engine later unit compiled running
    have within := within_of_compileForm compiled
    refine ⟨fun _ => places_of_invoke within, fun _ _ => places_of_execute within,
      fun _ _ => places_of_extract within, ?_⟩
    exact fun closure args report made => places_of_call (made.within_body within)

end Engine

end ExprLang
