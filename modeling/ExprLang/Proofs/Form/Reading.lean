import ExprLang.Proofs.Form.Nesting
import ExprLang.Proofs.Form.Split

/-!
# What reading accepts

A reader accepts exactly the texts whose pieces nest as its grammar asks, gives back trees that
hold exactly the pieces of the text, and reports the first violation otherwise
(`Reader.readAll_iff_accepted`).

`Reading` is the invariant of the loop: the pieces read so far violate nothing, the combos on the
stack are the openers that are not closed, and the trees that are done together with the combos on
the stack are the pieces read so far. `Reading.ends` carries it through one form and
`Reading.readForms` through all of them.
-/

namespace ExprLang

/-! ## Trees as pieces -/

abbrev Mark :=
  Piece × Option Location

def Lexeme.mark (file : String) (lexeme : Lexeme) : Mark :=
  match lexeme.piece with
  | .closer bracket => (.closer bracket, none)
  | piece => (piece, some (lexeme.start.inFile file))

/-- A mark without the kind of a closer. -/
def Mark.plain : Mark → Mark
  | (.closer _, place) => (.closer .paren, place)
  | mark => mark

namespace Form

mutual

/-- The marks of a tree in preorder: the opener, the children and the closer. -/
def flatten : Form → List Mark
  | .atom text loc => [(.atom text.toList, some loc)]
  | .combo bracket children loc =>
    (.opener bracket, some loc) :: (flattenAll children ++ [(.closer bracket, none)])

def flattenAll : List Form → List Mark
  | [] => []
  | form :: rest => flatten form ++ flattenAll rest

end

@[simp] theorem flattenAll_nil : flattenAll [] = [] := rfl

@[simp] theorem flattenAll_cons (form : Form) (rest : List Form) :
    flattenAll (form :: rest) = flatten form ++ flattenAll rest := rfl

@[simp] theorem flattenAll_append (first second : List Form) :
    flattenAll (first ++ second) = flattenAll first ++ flattenAll second := by
  induction first with
  | nil => rfl
  | cons form rest ih =>
    rw [List.cons_append, flattenAll_cons, flattenAll_cons, ih, List.append_assoc]

end Form

/-- The marks of the combos on a stack, as far as they have been read. -/
def flattenStack : List OpenCombo → List Mark
  | [] => []
  | combo :: below =>
    flattenStack below ++
      (.opener combo.bracket, some combo.opened) :: Form.flattenAll combo.children.reverse

/-- Two lists of marks agree up to the kind of closers, and exactly if that matters. -/
def Agree (strict : Bool) (tree source : List Mark) : Prop :=
  tree.map Mark.plain = source.map Mark.plain ∧ (strict = true → tree = source)

namespace Agree

variable {strict : Bool} {tree source : List Mark} {mark mark' : Mark}

theorem append_same (agree : Agree strict tree source) (mark : Mark) :
    Agree strict (tree ++ [mark]) (source ++ [mark]) := by
  refine ⟨?_, fun matters => ?_⟩
  · rw [List.map_append, List.map_append, agree.1]
  · rw [agree.2 matters]

theorem append_closer {opened closed : Bracket} (agree : Agree strict tree source)
    (kind : strict = true → opened = closed) :
    Agree strict (tree ++ [(.closer opened, none)]) (source ++ [(.closer closed, none)]) := by
  refine ⟨?_, fun matters => ?_⟩
  · rw [List.map_append, List.map_append, agree.1]
    rfl
  · rw [agree.2 matters, kind matters]

end Agree

/-! ## The invariant of reading -/

/-- The state of reading: what has been read, the trees that are done and the combos that are
open. -/
structure Reading (reader : Reader) (consumed : List Lexeme) (done : List Form)
    (stack : List OpenCombo) : Prop where
  clean : Clean reader consumed
  openStack : OpenStack consumed (stack.map (·.bracket))
  written : Agree reader.strict (Form.flattenAll done ++ flattenStack stack)
    (consumed.map (·.mark reader.file))

/-- A form that is complete is done if no combo is open, and else a child of the innermost one. -/
def deliver (form : Form) (done : List Form) : List OpenCombo → List Form × List OpenCombo
  | [] => (done ++ [form], [])
  | outer :: below => (done, outer.push form :: below)

/-- Delivering a form writes its marks behind the others. -/
theorem flatten_deliver (form : Form) (done : List Form) (stack : List OpenCombo) :
    Form.flattenAll (deliver form done stack).1 ++ flattenStack (deliver form done stack).2 =
      Form.flattenAll done ++ flattenStack stack ++ form.flatten := by
  cases stack with
  | nil => simp [deliver, flattenStack]
  | cons outer below => simp [deliver, flattenStack, OpenCombo.push]

theorem brackets_deliver (form : Form) (done : List Form) (stack : List OpenCombo) :
    (deliver form done stack).2.map (·.bracket) = stack.map (·.bracket) := by
  cases stack with
  | nil => rfl
  | cons outer below => rfl

namespace Reading

variable {reader : Reader} {consumed : List Lexeme} {done : List Form} {stack : List OpenCombo}
  {start stop finish : Position} {bracket : Bracket}

theorem nil : Reading reader [] [] [] :=
  ⟨clean_nil, .nil balanced_nil, rfl, fun _ => rfl⟩

theorem balance_eq (reading : Reading reader consumed done stack) :
    balance consumed = stack.length := by
  rw [reading.openStack.balance_eq, List.length_map]

/-! ### Steps -/

/-- An atom is a form of its own. -/
theorem atom (reading : Reading reader consumed done stack) (text : List Char) :
    let form : Form := .atom (String.ofList text) (start.inFile reader.file)
    Reading reader (consumed ++ [⟨.atom text, start, stop⟩]) (deliver form done stack).1
      (deliver form done stack).2 where
  clean := clean_concat_iff.mpr ⟨reading.clean, fun code violation => nomatch violation⟩
  openStack := by
    rw [brackets_deliver]
    exact reading.openStack.append (balanced_singleton rfl)
  written := by
    have written := reading.written.append_same (.atom text, some (start.inFile reader.file))
    rw [flatten_deliver, List.map_append]
    simpa [Form.flatten, Lexeme.mark] using written

/-- An opener that does not nest too deep opens a combo. -/
theorem opener (reading : Reading reader consumed done stack)
    (shallow : stack.length < reader.maxDepth) :
    Reading reader (consumed ++ [⟨.opener bracket, start, stop⟩]) done
      (⟨bracket, start.inFile reader.file, []⟩ :: stack) where
  clean := by
    refine clean_concat_iff.mpr ⟨reading.clean, fun code violation => ?_⟩
    cases violation with
    | tooDeep exceeds =>
      rw [reading.balance_eq] at exceeds
      omega
  openStack := reading.openStack.push rfl
  written := by
    have written := reading.written.append_same (.opener bracket, some (start.inFile reader.file))
    rw [List.map_append]
    simpa [flattenStack, Lexeme.mark] using written

/-- A closer completes the innermost combo, which for a strict reader has to be of its kind. -/
theorem closer {inner : OpenCombo} {below : List OpenCombo}
    (reading : Reading reader consumed done (inner :: below))
    (kind : reader.strict = true → inner.bracket = bracket) :
    Reading reader (consumed ++ [⟨.closer bracket, start, stop⟩]) (deliver inner.close done below).1
      (deliver inner.close done below).2 where
  clean := by
    refine clean_concat_iff.mpr ⟨reading.clean, fun code violation => ?_⟩
    cases violation with
    | unopened under =>
      rw [reading.balance_eq, List.length_cons] at under
      omega
    | mismatched strict pairs differ =>
      rw [reading.openStack.pairsWith_iff] at pairs
      exact differ (pairs.trans (kind strict))
  openStack := by
    rw [brackets_deliver]
    exact reading.openStack.pop rfl
  written := by
    have written := reading.written.append_closer kind
    rw [flatten_deliver, List.map_append]
    simpa [flattenStack, OpenCombo.close, Form.flatten, Lexeme.mark] using written

end Reading

/-! ## One form -/

/-- A report is that of the first violation. -/
def Reports (reader : Reader) (finish : Position) (pieces : List Lexeme) (report : Diagnostic) :
    Prop :=
  ∃ code place, FirstViolation reader finish pieces code place ∧ report.code = code ∧
    report.location = some (place.inFile reader.file)

/-- What reading a form gives behind what has been consumed: one more tree, made of the pieces
that it takes, or the report of the first violation. -/
def Ends (reader : Reader) (finish : Position) (consumed pieces : List Lexeme) (done : List Form) :
    Except Diagnostic Form × Input → Prop
  | (.ok form, behind) => behind.finish = finish ∧
    ∃ used, pieces = used ++ behind.lexemes ∧ Reading reader (consumed ++ used) (done ++ [form]) []
  | (.error report, _) => Reports reader finish (consumed ++ pieces) report

namespace Reading

variable {reader : Reader} {consumed pieces : List Lexeme} {done : List Form}
  {stack : List OpenCombo} {finish : Position}

theorem reports_of_violation {lexeme : Lexeme} {fault : Fault}
    (reading : Reading reader consumed done stack)
    (violation : Violation reader consumed lexeme.piece fault.code) :
    Reports reader finish (consumed ++ lexeme :: pieces)
      (fault.reportAt (lexeme.start.inFile reader.file)) :=
  ⟨_, _, .piece rfl reading.clean violation, rfl, rfl⟩

theorem ends_cons {lexeme : Lexeme} {outcome : Except Diagnostic Form × Input}
    (ends : Ends reader finish (consumed ++ [lexeme]) pieces done outcome) :
    Ends reader finish consumed (lexeme :: pieces) done outcome := by
  obtain ⟨result, behind⟩ := outcome
  cases result with
  | ok form =>
    obtain ⟨same, used, rfl, reading⟩ := ends
    exact ⟨same, lexeme :: used, rfl, by simpa using reading⟩
  | error report => simpa [Ends] using ends

/-- A form that is complete outside of all combos ends reading. -/
theorem ends_of_complete {lexeme : Lexeme} {form : Form} {behind : Input}
    (reading : Reading reader (consumed ++ [lexeme]) (done ++ [form]) [])
    (finished : behind.finish = finish) (left : behind.lexemes = pieces) :
    Ends reader finish consumed (lexeme :: pieces) done (.ok form, behind) :=
  ⟨finished, [lexeme], by rw [left]; rfl, reading⟩

/-- Reading on keeps the invariant until a form is complete, and fails at the first violation. -/
theorem ends (reading : Reading reader consumed done stack)
    (unfinished : stack ≠ [] ∨ pieces ≠ []) :
    Ends reader finish consumed pieces done (reader.readWith finish stack pieces) := by
  -- Each step moves a piece from what is left to what is consumed and keeps `Reading`.
  induction pieces generalizing consumed stack with
  | nil =>
    cases stack with
    | nil => simp at unfinished
    | cons combo below =>
      refine ⟨_, _, .unclosed ?_ ?_, rfl, rfl⟩
      · simpa using reading.clean
      · rw [List.append_nil, reading.balance_eq, List.length_cons]
        omega
  | cons lexeme rest ih =>
    obtain ⟨piece, start, stop⟩ := lexeme
    cases piece with
    | unterminated text => exact reading.reports_of_violation .unterminated
    | opener bracket =>
      simp only [Reader.readWith]
      split
      next deep =>
        refine reading.reports_of_violation (.tooDeep ?_)
        rw [reading.balance_eq]
        omega
      next shallow =>
        exact ends_cons (ih (reading.opener (Nat.lt_of_not_le shallow)) (.inl (by simp)))
    | atom text =>
      have next : Reading reader (consumed ++ [⟨.atom text, start, stop⟩]) _ _ := reading.atom text
      cases stack with
      | nil => exact ends_of_complete next rfl rfl
      | cons outer below => exact ends_cons (ih next (.inl (by simp)))
    | closer bracket =>
      cases stack with
      | nil =>
        refine reading.reports_of_violation (.unopened ?_)
        rw [reading.balance_eq, List.length_nil]
        omega
      | cons inner below =>
        simp only [Reader.readWith, Bool.and_eq_true, bne_iff_ne, ne_eq]
        split
        next differ =>
          refine reading.reports_of_violation (.mismatched differ.1 ?_ differ.2)
          exact reading.openStack.pairsWith_iff.mpr rfl
        next agree =>
          have kind : reader.strict = true → inner.bracket = bracket := by
            intro strict
            by_contra other
            exact agree ⟨strict, other⟩
          have next : Reading reader (consumed ++ [⟨.closer bracket, start, stop⟩]) _ _ :=
            reading.closer kind
          cases below with
          | nil => exact ends_of_complete next rfl rfl
          | cons outer below => exact ends_cons (ih next (.inl (by simp)))

end Reading

/-! ## All forms -/

/-- What reading all forms gives behind what has been consumed: trees that are made of all pieces
that are left, or the report of the first violation. -/
def EndsAll (reader : Reader) (finish : Position) (consumed pieces : List Lexeme)
    (done : List Form) : Except Diagnostic (List Form) → Prop
  | .ok forms => Reading reader (consumed ++ pieces) (done ++ forms) []
  | .error report => Reports reader finish (consumed ++ pieces) report

/-- Reading form after form keeps the invariant until all pieces are read. -/
theorem Reading.endsAll {reader : Reader} {consumed : List Lexeme} {done : List Form}
    (input : Input) (reading : Reading reader consumed done []) :
    EndsAll reader input.finish consumed input.lexemes done (reader.readForms input) := by
  fun_induction Reader.readForms reader input generalizing consumed done with
  | case1 input ended =>
    have none : input.lexemes = [] := by simpa [Input.atEnd] using ended
    simpa [EndsAll, none] using reading
  | case2 input left report behind read =>
    have ends : Ends reader input.finish consumed input.lexemes done (reader.readForm input) :=
      reading.ends (.inr (by simpa [Input.atEnd] using left))
    rwa [read] at ends
  | case3 input left form behind read shorter ih =>
    have ends : Ends reader input.finish consumed input.lexemes done (reader.readForm input) :=
      reading.ends (.inr (by simpa [Input.atEnd] using left))
    rw [read] at ends
    obtain ⟨finished, used, split, onward⟩ := ends
    have rest := ih onward
    rw [finished] at rest
    rw [split]
    cases further : reader.readForms behind with
    | error report =>
      rw [further] at rest
      simpa [EndsAll, Reports, bind, Except.bind] using rest
    | ok forms =>
      rw [further] at rest
      simpa [EndsAll, bind, Except.bind, pure, Except.pure] using rest

namespace Reader

/-- **What reading accepts.** A text splits into pieces in one way. Reading it succeeds exactly if a
reader accepts the pieces; the trees that it gives then hold exactly the pieces, in their order and
with their text, closers of another kind aside if that is allowed. If reading fails, the report has
the code and the location of the first violation. -/
theorem readAll_iff_accepted (reader : Reader) (source : String) :
    ∃ pieces, Splits {} source.toList pieces ∧
      (∀ other, Splits {} source.toList other → other = pieces) ∧
      ((∃ forms, reader.readAll source = .ok forms) ↔ Accepted reader pieces) ∧
      (∀ forms, reader.readAll source = .ok forms →
        Agree reader.strict (Form.flattenAll forms) (pieces.map (·.mark reader.file))) ∧
      ∀ report, reader.readAll source = .error report →
        Reports reader (Position.advance {} source.toList) pieces report := by
  have endsAll : EndsAll reader _ [] (lexemes {} source.toList) [] (reader.readAll source) :=
    Reading.nil.endsAll (Input.ofText source)
  refine ⟨lexemes {} source.toList, splits_lexemes _ _, fun other splits => splits.eq_lexemes,
    ?_, ?_, ?_⟩
  · cases read : reader.readAll source with
    | ok forms =>
      rw [read] at endsAll
      have accepted : Accepted reader (lexemes {} source.toList) :=
        accepted_iff.mpr ⟨endsAll.clean, endsAll.balance_eq⟩
      exact iff_of_true ⟨forms, rfl⟩ accepted
    | error report =>
      rw [read] at endsAll
      obtain ⟨code, place, first, -⟩ := endsAll
      exact iff_of_false (by rintro ⟨forms, ⟨⟩⟩) first.not_accepted
  · intro forms read
    rw [read] at endsAll
    simpa [flattenStack] using endsAll.written
  · intro report read
    rw [read] at endsAll
    exact endsAll

end Reader

end ExprLang
