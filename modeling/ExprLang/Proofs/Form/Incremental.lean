import Mathlib.Data.List.Forall2
import ExprLang.Proofs.Form.Depth

/-!
# Reading piece by piece

Reading all forms of a text is a fold over its pieces (`Reader.readForms_eq_fold`): a step takes one
piece into what has been read so far, the forms that are complete and the combos that are open, and
the end of the text asks that no combo is open. So what has been read of a text does not depend on
what follows, and what a reader does behind a piece depends on the text before it only through the
state of the fold.
-/

namespace ExprLang

abbrev ReadSoFar := List Form × List OpenCombo

namespace Reader

variable {reader : Reader} {finish : Position} {pieces : List Lexeme} {lexeme : Lexeme}
  {state next : ReadSoFar} {report : Diagnostic}

/-- Takes one more piece of a text with a given end into what has been read. -/
def step (reader : Reader) (finish : Position) (state : ReadSoFar) (lexeme : Lexeme) :
    Except Diagnostic ReadSoFar :=
  let loc := lexeme.start.inFile reader.file
  let fail (fault : Fault) : Except Diagnostic ReadSoFar := .error (fault.reportAt loc)
  match lexeme.piece with
  | .unterminated _ => fail (.unterminatedString (finish.inFile reader.file))
  | .opener bracket =>
    if reader.maxDepth ≤ state.2.length then fail (.bracketsTooDeep reader.maxDepth)
    else .ok (state.1, ⟨bracket, loc, []⟩ :: state.2)
  | .atom text => .ok (deliver (.atom (String.ofList text) loc) state.1 state.2)
  | .closer bracket =>
    match state.2 with
    | [] => fail (.closerWithoutOpener bracket)
    | inner :: below =>
      if reader.strict && inner.bracket != bracket then
        fail (.closerOfOtherKind inner.bracket bracket inner.opened)
      else .ok (deliver inner.close state.1 below)

/-- Ends reading at the end of a text. -/
def conclude (reader : Reader) (finish : Position) : ReadSoFar → Except Diagnostic (List Form)
  | (done, []) => .ok done
  | (_, combo :: _) =>
    .error ((Fault.endInsideCombo combo.bracket combo.opened).reportAt (finish.inFile reader.file))

def steps (reader : Reader) (finish : Position) (state : ReadSoFar) (pieces : List Lexeme) :
    Except Diagnostic ReadSoFar :=
  pieces.foldlM (reader.step finish) state

/-! ## Folding -/

@[simp] theorem steps_nil : reader.steps finish state [] = .ok state := rfl

theorem steps_cons : reader.steps finish state (lexeme :: pieces) =
    reader.step finish state lexeme >>= fun next => reader.steps finish next pieces := rfl

theorem steps_append (first second : List Lexeme) :
    reader.steps finish state (first ++ second) =
      reader.steps finish state first >>= fun next => reader.steps finish next second :=
  List.foldlM_append

theorem steps_cons_ok : reader.steps finish state (lexeme :: pieces) = .ok next ↔
    ∃ middle, reader.step finish state lexeme = .ok middle ∧
      reader.steps finish middle pieces = .ok next := by
  rw [steps_cons]
  cases reader.step finish state lexeme <;> simp [bind, Except.bind]

theorem steps_append_of_ok {first second : List Lexeme}
    (read : reader.steps finish state first = .ok next) :
    reader.steps finish state (first ++ second) = reader.steps finish next second := by
  rw [steps_append, read]
  rfl

/-- A fold fails at one piece, behind pieces that were taken. -/
theorem exists_step_of_steps_error (failed : reader.steps finish state pieces = .error report) :
    ∃ before lexeme after middle, pieces = before ++ lexeme :: after ∧
      reader.steps finish state before = .ok middle ∧
      reader.step finish middle lexeme = .error report := by
  induction pieces generalizing state with
  | nil => cases failed
  | cons first rest ih =>
    rw [steps_cons] at failed
    cases taken : reader.step finish state first with
    | error other =>
      rw [taken] at failed
      cases failed
      exact ⟨[], first, rest, state, rfl, rfl, taken⟩
    | ok middle =>
      rw [taken] at failed
      obtain ⟨before, lexeme, after, last, rfl, read, here⟩ := ih failed
      exact ⟨first :: before, lexeme, after, last, rfl,
        steps_cons_ok.mpr ⟨middle, taken, read⟩, here⟩

/-! ## Reading is folding -/

/-- The rest of reading, after a form is complete or reading has failed. -/
def goOn (reader : Reader) (done : List Form) :
    Except Diagnostic Form × Input → Except Diagnostic (List Form)
  | (.error report, _) => .error report
  | (.ok form, behind) =>
    reader.steps behind.finish (done ++ [form], []) behind.lexemes >>= reader.conclude behind.finish

/-- Reading one form takes the pieces of that form. -/
theorem goOn_readWith (done : List Form) (stack : List OpenCombo)
    (unfinished : stack ≠ [] ∨ pieces ≠ []) :
    reader.goOn done (reader.readWith finish stack pieces) =
      reader.steps finish (done, stack) pieces >>= reader.conclude finish := by
  induction pieces generalizing stack with
  | nil =>
    cases stack with
    | nil => simp at unfinished
    | cons combo below => rfl
  | cons lexeme rest ih =>
    obtain ⟨piece, start, stop⟩ := lexeme
    cases piece with
    | unterminated text => rfl
    | opener bracket =>
      simp only [readWith, steps_cons, step]
      split
      · rfl
      · exact ih _ (.inl (by simp))
    | atom text =>
      cases stack with
      | nil => rfl
      | cons outer below => exact ih _ (.inl (by simp))
    | closer bracket =>
      cases stack with
      | nil => rfl
      | cons inner below =>
        simp only [readWith, steps_cons, step]
        split
        · rfl
        · cases below with
          | nil => rfl
          | cons outer below => exact ih _ (.inl (by simp))

/-- Reading all forms from an input on folds over its pieces. -/
theorem map_readForms (done : List Form) (input : Input) :
    (reader.readForms input).map (done ++ ·) =
      reader.steps input.finish (done, []) input.lexemes >>= reader.conclude input.finish := by
  fun_induction reader.readForms input generalizing done with
  | case1 input ended =>
    have none : input.lexemes = [] := by simpa [Input.atEnd] using ended
    rw [none]
    exact congrArg Except.ok (List.append_nil done)
  | case2 input left report behind read =>
    rw [← goOn_readWith done [] (.inr (by simpa [Input.atEnd] using left)), ← readForm, read]
    rfl
  | case3 input left form behind read shorter ih =>
    rw [← goOn_readWith done [] (.inr (by simpa [Input.atEnd] using left)), ← readForm, read]
    refine Eq.trans ?_ (ih (done ++ [form]))
    cases reader.readForms behind <;> simp [Except.map, bind, Except.bind, pure, Except.pure]

/-- **Reading is a fold.** Reading all forms takes one piece after the other, and then the end. -/
theorem readForms_eq_fold (input : Input) :
    reader.readForms input =
      reader.steps input.finish ([], []) input.lexemes >>= reader.conclude input.finish := by
  rw [← map_readForms]
  cases reader.readForms input <;> rfl

theorem readAll_eq_fold (text : String) :
    reader.readAll text =
      reader.steps (Position.advance {} text.toList) ([], []) (lexemes {} text.toList) >>=
        reader.conclude (Position.advance {} text.toList) :=
  readForms_eq_fold (.ofText text)

/-! ## What one step does -/

/-- A step fails at a string without an end, or at a bracket that cannot stand there. -/
theorem code_of_step_error (failed : reader.step finish state lexeme = .error report) :
    (report.code = .unterminatedString ∧ ∃ text, lexeme.piece = .unterminated text) ∨
      (report.code = .tooDeeplyNested ∨ report.code = .unbalancedCloser ∨
        report.code = .mismatchedCloser) ∧ lexeme.piece.delta ≠ 0 := by
  obtain ⟨piece, start, stop⟩ := lexeme
  cases piece with
  | unterminated text =>
    cases failed
    exact .inl ⟨rfl, text, rfl⟩
  | opener bracket =>
    simp only [step] at failed
    split at failed
    · cases failed
      exact .inr ⟨.inl rfl, by simp [Piece.delta]⟩
    · cases failed
  | atom text => cases failed
  | closer bracket =>
    simp only [step] at failed
    split at failed
    · cases failed
      exact .inr ⟨.inr (.inl rfl), by simp [Piece.delta]⟩
    · split at failed
      · cases failed
        exact .inr ⟨.inr (.inr rfl), by simp [Piece.delta]⟩
      · cases failed

/-- Nothing but the report of a string without an end speaks of the end of the text. -/
theorem step_finish (terminated : ∀ text, lexeme.piece ≠ .unterminated text) (other : Position) :
    reader.step finish state lexeme = reader.step other state lexeme := by
  obtain ⟨piece, start, stop⟩ := lexeme
  cases piece with
  | unterminated text => exact absurd rfl (terminated text)
  | _ => rfl

theorem terminated_of_step (taken : reader.step finish state lexeme = .ok next) (text : List Char) :
    lexeme.piece ≠ .unterminated text := by
  intro unterminated
  rw [step, unterminated] at taken
  cases taken

theorem terminated_of_steps (read : reader.steps finish state pieces = .ok next) :
    ∀ lexeme ∈ pieces, ∀ text, lexeme.piece ≠ .unterminated text := by
  induction pieces generalizing state with
  | nil => simp
  | cons first rest ih =>
    obtain ⟨middle, taken, read⟩ := steps_cons_ok.mp read
    exact List.forall_mem_cons.mpr ⟨terminated_of_step taken, ih read⟩

theorem steps_finish (read : reader.steps finish state pieces = .ok next) (other : Position) :
    reader.steps other state pieces = .ok next := by
  induction pieces generalizing state with
  | nil => exact read
  | cons first rest ih =>
    obtain ⟨middle, taken, read⟩ := steps_cons_ok.mp read
    rw [step_finish (terminated_of_step taken) other] at taken
    exact steps_cons_ok.mpr ⟨middle, taken, ih read⟩

/-- The state of the fold describes the pieces that it has taken. -/
theorem reading_of_step {consumed : List Lexeme} (reading : Reading reader consumed state.1 state.2)
    (taken : reader.step finish state lexeme = .ok next) :
    Reading reader (consumed ++ [lexeme]) next.1 next.2 := by
  obtain ⟨piece, start, stop⟩ := lexeme
  cases piece with
  | unterminated text => exact absurd rfl (terminated_of_step taken text)
  | opener bracket =>
    simp only [step] at taken
    split at taken
    · cases taken
    next shallow =>
      cases taken
      exact reading.opener (Nat.lt_of_not_le shallow)
  | atom text =>
    cases taken
    exact reading.atom text
  | closer bracket =>
    obtain ⟨done, stack⟩ := state
    cases stack with
    | nil => cases taken
    | cons inner below =>
      simp only [step, Bool.and_eq_true, bne_iff_ne, ne_eq] at taken
      split at taken
      · cases taken
      next agree =>
        cases taken
        refine reading.closer fun strict => ?_
        by_contra other
        exact agree ⟨strict, other⟩

theorem reading_of_steps {consumed : List Lexeme} (reading : Reading reader consumed state.1 state.2)
    (read : reader.steps finish state pieces = .ok next) :
    Reading reader (consumed ++ pieces) next.1 next.2 := by
  induction pieces generalizing consumed state with
  | nil =>
    cases read
    simpa using reading
  | cons first rest ih =>
    obtain ⟨middle, taken, read⟩ := steps_cons_ok.mp read
    simpa using ih (reading_of_step reading taken) read

/-! ## What a step leaves alone -/

/-- Forms that are complete play no part in a step. -/
theorem step_behind (before : List Form) (taken : reader.step finish state lexeme = .ok next) :
    reader.step finish (before ++ state.1, state.2) lexeme = .ok (before ++ next.1, next.2) := by
  have delivered (form : Form) (stack : List OpenCombo) :
      deliver form (before ++ state.1) stack =
        (before ++ (deliver form state.1 stack).1, (deliver form state.1 stack).2) := by
    cases stack <;> simp [deliver]
  obtain ⟨piece, start, stop⟩ := lexeme
  cases piece with
  | unterminated text => cases taken
  | opener bracket =>
    simp only [step] at taken ⊢
    split at taken
    · cases taken
    next shallow =>
      cases taken
      rw [if_neg shallow]
  | atom text =>
    cases taken
    exact congrArg Except.ok (delivered _ _)
  | closer bracket =>
    simp only [step] at taken ⊢
    split at taken
    · cases taken
    next inner below opened =>
      split at taken
      · cases taken
      next agree =>
        cases taken
        simp only [if_neg agree, delivered]

theorem steps_behind (before : List Form) (read : reader.steps finish state pieces = .ok next) :
    reader.steps finish (before ++ state.1, state.2) pieces = .ok (before ++ next.1, next.2) := by
  induction pieces generalizing state with
  | nil =>
    cases read
    rfl
  | cons first rest ih =>
    obtain ⟨middle, taken, read⟩ := steps_cons_ok.mp read
    exact steps_cons_ok.mpr ⟨_, step_behind before taken, ih read⟩

/-! ## Open combos -/

/-- Which combos are open: the bracket of each and where it was opened, innermost first. -/
def opened (stack : List OpenCombo) : List (Bracket × Location) :=
  stack.map fun combo => (combo.bracket, combo.opened)

theorem opened_deliver (form : Form) (done : List Form) (stack : List OpenCombo) :
    opened (deliver form done stack).2 = opened stack := by
  cases stack <;> rfl

theorem done_deliver (form : Form) (done : List Form) {stack : List OpenCombo}
    (inside : opened (deliver form done stack).2 ≠ []) : (deliver form done stack).1 = done := by
  cases stack with
  | nil => exact absurd rfl inside
  | cons outer below => rfl

/-- A step opens a combo, leaves the open combos alone or closes the innermost one, and while a combo
is open no form is complete. -/
theorem opened_of_step (taken : reader.step finish state lexeme = .ok next) :
    (opened next.2 ≠ [] → next.1 = state.1) ∧
      ((∃ bracket, lexeme.piece = .opener bracket ∧
          opened next.2 = (bracket, lexeme.start.inFile reader.file) :: opened state.2) ∨
        opened next.2 = opened state.2 ∨
        ∃ innermost, opened state.2 = innermost :: opened next.2) := by
  obtain ⟨piece, start, stop⟩ := lexeme
  cases piece with
  | unterminated text => cases taken
  | opener bracket =>
    simp only [step] at taken
    split at taken
    · cases taken
    · cases taken
      exact ⟨fun _ => rfl, .inl ⟨bracket, rfl, rfl⟩⟩
  | atom text =>
    cases taken
    exact ⟨done_deliver _ _, .inr (.inl (opened_deliver ..))⟩
  | closer bracket =>
    obtain ⟨done, stack⟩ := state
    cases stack with
    | nil => cases taken
    | cons inner below =>
      simp only [step] at taken
      split at taken
      · cases taken
      · cases taken
        refine ⟨done_deliver _ _, .inr (.inr ⟨(inner.bracket, inner.opened), ?_⟩)⟩
        rw [opened_deliver]
        rfl

/-- Before the opener of the outermost open combo, the complete forms have been read and no combo is
open. -/
theorem exists_outermost {innermost : List (Bracket × Location)} {outermost : Bracket × Location}
    (read : reader.steps finish ([], []) pieces = .ok state)
    (stack : opened state.2 = innermost ++ [outermost]) :
    ∃ before opener inside, pieces = before ++ opener :: inside ∧
      opener.piece = .opener outermost.1 ∧ opener.start.inFile reader.file = outermost.2 ∧
      reader.steps finish ([], []) before = .ok (state.1, []) := by
  induction pieces using List.reverseRecOn generalizing state innermost with
  | nil =>
    cases read
    simp [opened] at stack
  | append_singleton pieces lexeme ih =>
    cases earlier : reader.steps finish ([], []) pieces with
    | error report =>
      rw [steps_append, earlier] at read
      cases read
    | ok middle =>
      rw [steps_append_of_ok earlier] at read
      obtain ⟨_, taken, ⟨rfl⟩⟩ := steps_cons_ok.mp read
      have inside : opened state.2 ≠ [] := by simp [stack]
      obtain ⟨done, changes⟩ := opened_of_step taken
      rw [done inside]
      -- Unless this piece opens the outermost combo, it was open before.
      have further {more : List (Bracket × Location)}
          (open_ : opened middle.2 = more ++ [outermost]) : _ := ih earlier open_
      rcases changes with ⟨bracket, opens, now⟩ | same | ⟨closed, now⟩
      · rw [stack] at now
        cases innermost with
        | nil =>
          obtain ⟨rfl, none⟩ := List.cons.inj now
          have empty : middle = (middle.1, []) := by
            rw [Prod.ext_iff]
            exact ⟨rfl, List.map_eq_nil_iff.mp none.symm⟩
          exact ⟨pieces, lexeme, [], rfl, opens, rfl, by rw [earlier, ← empty]⟩
        | cons first innermost =>
          obtain ⟨-, below⟩ := List.cons.inj now
          obtain ⟨before, opener, behind, rfl, found⟩ := further below.symm
          exact ⟨before, opener, behind ++ [lexeme], by simp, found⟩
      · obtain ⟨before, opener, behind, rfl, found⟩ := further (same.symm.trans stack)
        exact ⟨before, opener, behind ++ [lexeme], by simp, found⟩
      · rw [stack, ← List.cons_append] at now
        obtain ⟨before, opener, behind, rfl, found⟩ := further now
        exact ⟨before, opener, behind ++ [lexeme], by simp, found⟩

end Reader

/-! ## The same pieces at other places -/

theorem Form.sameAll_iff {forms others : List Form} :
    Form.sameAll forms others = true ↔
      List.Forall₂ (fun form other => form.same other = true) forms others := by
  induction forms generalizing others with
  | nil => cases others <;> simp [sameAll]
  | cons form forms ih => cases others <;> simp [sameAll, ih]

/-- Two open combos have the same bracket and the same children. -/
structure OpenCombo.Same (combo other : OpenCombo) : Prop where
  bracket : combo.bracket = other.bracket
  children : List.Forall₂ (fun form other => form.same other = true) combo.children other.children

structure ReadSoFar.Same (state other : ReadSoFar) : Prop where
  done : List.Forall₂ (fun form other => form.same other = true) state.1 other.1
  stack : List.Forall₂ OpenCombo.Same state.2 other.2

namespace Reader

variable {reader : Reader} {finish otherFinish : Position} {pieces others : List Lexeme}
  {lexeme otherLexeme : Lexeme} {state other next : ReadSoFar}

theorem same_deliver {form otherForm : Form} {done otherDone : List Form}
    {stack otherStack : List OpenCombo} (same : form.same otherForm = true)
    (dones : List.Forall₂ (fun form other => form.same other = true) done otherDone)
    (sameStacks : List.Forall₂ OpenCombo.Same stack otherStack) :
    ReadSoFar.Same (deliver form done stack) (deliver otherForm otherDone otherStack) := by
  cases sameStacks with
  | nil => exact ⟨List.rel_append dones (.cons same .nil), .nil⟩
  | cons outers belows => exact ⟨dones, .cons ⟨outers.bracket, .cons same outers.children⟩ belows⟩

theorem same_close {combo otherCombo : OpenCombo} (same : combo.Same otherCombo) :
    combo.close.same otherCombo.close = true := by
  rw [OpenCombo.close, OpenCombo.close, Form.same, Bool.and_eq_true, beq_iff_eq]
  exact ⟨same.bracket, Form.sameAll_iff.mpr (List.rel_reverse same.children)⟩

/-- A piece is taken in the same way wherever it stands. -/
theorem step_same (same : state.Same other) (piece : lexeme.piece = otherLexeme.piece)
    (taken : reader.step finish state lexeme = .ok next) :
    ∃ otherNext, reader.step otherFinish other otherLexeme = .ok otherNext ∧
      next.Same otherNext := by
  obtain ⟨piece, start, stop⟩ := lexeme
  obtain ⟨otherPiece, otherStart, otherStop⟩ := otherLexeme
  cases piece
  cases piece with
  | unterminated text => cases taken
  | opener bracket =>
    simp only [step] at taken ⊢
    rw [← same.stack.length_eq]
    split at taken
    · cases taken
    next shallow =>
      cases taken
      rw [if_neg shallow]
      exact ⟨_, rfl, same.done, .cons ⟨rfl, .nil⟩ same.stack⟩
  | atom text =>
    cases taken
    exact ⟨_, rfl, same_deliver (by simp [Form.same]) same.done same.stack⟩
  | closer bracket =>
    obtain ⟨done, stack⟩ := state
    obtain ⟨otherDone, otherStack⟩ := other
    obtain ⟨dones, sameStacks⟩ := same
    cases sameStacks with
    | nil => cases taken
    | cons inners belows =>
      simp only [step] at taken ⊢
      rw [← inners.bracket]
      split at taken
      · cases taken
      next agree =>
        cases taken
        rw [if_neg agree]
        exact ⟨_, rfl, same_deliver (same_close inners) dones belows⟩

/-- The same pieces are read to the same forms, wherever they stand. -/
theorem steps_same (same : state.Same other) (agree : pieces.map (·.piece) = others.map (·.piece))
    (read : reader.steps finish state pieces = .ok next) :
    ∃ otherNext, reader.steps otherFinish other others = .ok otherNext ∧ next.Same otherNext := by
  induction pieces generalizing state other others with
  | nil =>
    cases read
    obtain rfl : others = [] := List.map_eq_nil_iff.mp agree.symm
    exact ⟨other, rfl, same⟩
  | cons first rest ih =>
    obtain ⟨middle, taken, read⟩ := steps_cons_ok.mp read
    obtain ⟨otherFirst, otherRest, rfl, pieceEq, restEq⟩ := List.map_eq_cons_iff.mp agree.symm
    obtain ⟨otherMiddle, otherTaken, sameMiddle⟩ := step_same same pieceEq.symm taken
    obtain ⟨otherNext, otherRead, sameNext⟩ := ih sameMiddle restEq.symm read
    exact ⟨otherNext, steps_cons_ok.mpr ⟨otherMiddle, otherTaken, otherRead⟩, sameNext⟩

end Reader

end ExprLang
