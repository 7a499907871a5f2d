import ExprLang.Proofs.Form.Reading

/-!
# Reading what was written

A tree is written so that it can be read back exactly if its atoms are readable: strings, or runs.
The pieces of the text of such a tree are the pieces of the tree (`Form.exists_lexemes_render`),
and reading them makes the tree again, at any place in which it does not nest too deep
(`Reader.readWith_flatten`).
-/

namespace ExprLang

/-- A text is the text of an atom. -/
def IsAtomText (text : List Char) : Prop :=
  IsStringText text ∨ IsRunText text

namespace Form

mutual

def Readable : Form → Prop
  | .atom text _ => IsAtomText text.toList
  | .combo _ children _ => ReadableAll children

def ReadableAll : List Form → Prop
  | [] => True
  | form :: rest => Readable form ∧ ReadableAll rest

end

mutual

/-- How deep the brackets of a tree nest. -/
def nesting : Form → Nat
  | .atom _ _ => 0
  | .combo _ children _ => nestingAll children + 1

def nestingAll : List Form → Nat
  | [] => 0
  | form :: rest => max (nesting form) (nestingAll rest)

end

end Form

/-! ## The pieces of a written tree -/

section Lexemes

variable {position : Position} {behind : List Char}

theorem endsRun_of_blank {c : Char} (blank : isBlank c = true) : EndsRun (c :: behind) := by
  rintro d ⟨⟩
  simp [Piece.isRunChar, blank]

theorem endsRun_of_closer (bracket : Bracket) : EndsRun (bracket.closer :: behind) := by
  rintro d ⟨⟩
  simp

theorem endsRun_nil : EndsRun [] := by
  rintro d ⟨⟩

/-- A piece at the start of a text is its first piece. -/
theorem lexemes_piece {piece : Piece} (stands : piece.StandsBefore behind) :
    lexemes position (piece.text ++ behind) =
      ⟨piece, position, position.advance piece.text⟩ ::
        lexemes (position.advance piece.text) behind := by
  have splits : Splits position ([] ++ (piece.text ++ behind)) _ :=
    .piece (by simp) rfl stands (splits_lexemes _ behind)
  exact splits.eq_lexemes.symm

/-- A blank at the start of a text is no part of its pieces. -/
theorem lexemes_blank {c : Char} (blank : isBlank c = true) :
    lexemes position (c :: behind) = lexemes (position.after c) behind := by
  have splits := splits_lexemes (position.after c) behind
  refine (Splits.eq_lexemes ?_).symm
  generalize lexemes (position.after c) behind = pieces at splits
  cases splits with
  | blanks blanks => exact .blanks (List.forall_mem_cons.mpr ⟨blank, blanks⟩)
  | piece blanks starts stands rest =>
    exact .piece (List.forall_mem_cons.mpr ⟨blank, blanks⟩) starts stands rest

end Lexemes

namespace Form

/-- The first pieces of a text, up to a position, are those of the given marks. -/
def StartsWith (position : Position) (text behind : List Char) (used : List Lexeme)
    (marks : List Mark) : Prop :=
  lexemes position (text ++ behind) = used ++ lexemes (position.advance text) behind ∧
    used.map (·.piece) = marks.map (·.1)

theorem StartsWith.append {position : Position} {first second behind : List Char}
    {used more : List Lexeme} {marks others : List Mark}
    (here : StartsWith position first (second ++ behind) used marks)
    (there : StartsWith (position.advance first) second behind more others) :
    StartsWith position (first ++ second) behind (used ++ more) (marks ++ others) := by
  constructor
  · rw [List.append_assoc, here.1, there.1, Position.advance_append, List.append_assoc]
  · rw [List.map_append, List.map_append, here.2, there.2]

theorem startsWith_piece {position : Position} {piece : Piece} {behind : List Char}
    (stands : piece.StandsBefore behind) (place : Option Location) :
    StartsWith position piece.text behind
      [⟨piece, position, position.advance piece.text⟩] [(piece, place)] :=
  ⟨lexemes_piece stands, rfl⟩

theorem startsWith_blank {position : Position} {c : Char} {behind : List Char}
    (blank : isBlank c = true) : StartsWith position [c] behind [] [] :=
  ⟨lexemes_blank blank, rfl⟩

mutual

/-- The text of a tree with readable atoms starts with the pieces of the tree, whatever follows that
does not go on with the last run. -/
theorem startsWith_render (form : Form) (readable : form.Readable) (position : Position)
    (behind : List Char) (ends : EndsRun behind) :
    ∃ used last, StartsWith position form.render behind (used ++ [last]) form.flatten ∧
      last.stop = position.advance form.render := by
  match form with
  | .atom text loc =>
    have stands : (Piece.atom text.toList).StandsBefore behind := by
      rcases readable with string | run
      · exact .string string
      · exact .run run ends
    exact ⟨[], _, startsWith_piece stands _, rfl⟩
  | .combo bracket children loc =>
    let inner := position.advance [bracket.opener]
    obtain ⟨used, middle⟩ := startsWith_renderAll children readable inner (bracket.closer :: behind)
      (endsRun_of_closer bracket)
    have opens : StartsWith position [bracket.opener]
        (renderAll children ++ [bracket.closer] ++ behind) [_] [(.opener bracket, some loc)] :=
      startsWith_piece (.opener bracket) _
    have closes : StartsWith (inner.advance (renderAll children)) [bracket.closer] behind [_]
        [(.closer bracket, none)] := startsWith_piece (.closer bracket) _
    have whole := opens.append (middle.append closes)
    refine ⟨_ :: used, _, whole, ?_⟩
    rw [render, ← List.singleton_append, Position.advance_append, Position.advance_append]
    rfl

theorem startsWith_renderAll (forms : List Form) (readable : ReadableAll forms)
    (position : Position) (behind : List Char) (ends : EndsRun behind) :
    ∃ used, StartsWith position (renderAll forms) behind used (flattenAll forms) := by
  match forms with
  | [] => exact ⟨[], rfl, rfl⟩
  | [form] =>
    obtain ⟨used, last, starts, -⟩ := startsWith_render form readable.1 position behind ends
    refine ⟨used ++ [last], ?_⟩
    rw [flattenAll_cons, flattenAll_nil, List.append_nil]
    exact starts
  | form :: next :: rest =>
    have blank : isBlank ' ' = true := by decide
    let behindForm := renderAll (next :: rest) ++ behind
    obtain ⟨used, last, first, -⟩ := startsWith_render form readable.1 position (' ' :: behindForm)
      (endsRun_of_blank blank)
    obtain ⟨more, others⟩ := startsWith_renderAll (next :: rest) readable.2
      ((position.advance form.render).advance [' ']) behind ends
    have whole := first.append ((startsWith_blank blank).append others)
    exact ⟨_, whole⟩

end

end Form

/-! ## Reading the pieces of a tree -/

namespace Reader

variable {reader : Reader} {finish : Position}

/-- Reads on with a form that is complete. -/
def resume (reader : Reader) (finish : Position) (form : Form) (behind : Input) :
    List OpenCombo → Except Diagnostic Form × Input
  | [] => (.ok form, behind)
  | outer :: below => reader.readWith finish (outer.push form :: below) behind.lexemes

theorem readWith_atom (stack : List OpenCombo) (text : List Char) (start stop : Position)
    (more : List Lexeme) :
    reader.readWith finish stack (⟨.atom text, start, stop⟩ :: more) =
      reader.resume finish (.atom (String.ofList text) (start.inFile reader.file))
        ⟨more, stop, finish⟩ stack := by
  cases stack <;> rfl

/-- A closer of the right kind completes the innermost combo. -/
theorem readWith_closer (inner : OpenCombo) (below : List OpenCombo) (start stop : Position)
    (more : List Lexeme) :
    reader.readWith finish (inner :: below) (⟨.closer inner.bracket, start, stop⟩ :: more) =
      reader.resume finish inner.close ⟨more, stop, finish⟩ below := by
  cases below <;> simp [readWith, resume]

theorem readWith_opener {bracket : Bracket} {stack : List OpenCombo}
    (shallow : stack.length < reader.maxDepth) (start stop : Position) (more : List Lexeme) :
    reader.readWith finish stack (⟨.opener bracket, start, stop⟩ :: more) =
      reader.readWith finish (⟨bracket, start.inFile reader.file, []⟩ :: stack) more := by
  simp [readWith, Nat.not_le.mpr shallow]

theorem flatten_ne_nil (form : Form) : form.flatten ≠ [] := by
  cases form <;> simp [Form.flatten]

mutual

/-- Reading the pieces of a tree makes the tree again. -/
theorem readWith_flatten (form : Form) (stack : List OpenCombo) {used : List Lexeme} {last : Lexeme}
    (more : List Lexeme) (pieces : (used ++ [last]).map (·.piece) = form.flatten.map (·.1))
    (shallow : stack.length + form.nesting ≤ reader.maxDepth) :
    ∃ again, form.same again = true ∧ reader.readWith finish stack (used ++ last :: more) =
      reader.resume finish again ⟨more, last.stop, finish⟩ stack := by
  obtain ⟨piece, start, stop⟩ := last
  match form with
  | .atom text loc =>
    cases used with
    | nil =>
      obtain rfl : piece = .atom text.toList := by simpa [Form.flatten] using pieces
      exact ⟨_, by simp [Form.same], readWith_atom ..⟩
    | cons head used => simp [Form.flatten] at pieces
  | .combo bracket children loc =>
    cases used with
    | nil => simp [Form.flatten] at pieces
    | cons opener used =>
      obtain ⟨opening, place, inner⟩ := opener
      simp only [Form.flatten, List.cons_append, List.map_cons, List.map_append, List.map_nil,
        List.cons.injEq] at pieces
      obtain ⟨rfl, pieces⟩ := pieces
      obtain ⟨inside, closing⟩ := List.append_inj' pieces rfl
      obtain rfl : piece = .closer bracket := by simpa using closing
      rw [Form.nesting] at shallow
      let combo : OpenCombo := ⟨bracket, place.inFile reader.file, []⟩
      obtain ⟨agains, same, read⟩ := readWith_flattenAll children combo stack
        (⟨.closer bracket, start, stop⟩ :: more) inside (by omega)
      refine ⟨.combo bracket agains (place.inFile reader.file), ?_, ?_⟩
      · simpa [Form.same] using same
      · rw [List.cons_append, readWith_opener (by omega), read]
        simpa [OpenCombo.close, combo] using
          readWith_closer { combo with children := agains.reverse ++ [] } stack start stop more

/-- Reading the pieces of several trees in a combo makes them its children. -/
theorem readWith_flattenAll (forms : List Form) (combo : OpenCombo) (below : List OpenCombo)
    {used : List Lexeme} (more : List Lexeme)
    (pieces : used.map (·.piece) = (Form.flattenAll forms).map (·.1))
    (shallow : below.length + 1 + Form.nestingAll forms ≤ reader.maxDepth) :
    ∃ agains, Form.sameAll forms agains = true ∧
      reader.readWith finish (combo :: below) (used ++ more) =
        reader.readWith finish
          ({ combo with children := agains.reverse ++ combo.children } :: below) more := by
  match forms with
  | [] =>
    obtain rfl : used = [] := by simpa using pieces
    exact ⟨[], rfl, rfl⟩
  | form :: rest =>
    rw [Form.flattenAll_cons, List.map_append] at pieces
    obtain ⟨first, second, rfl, here, there⟩ := List.map_eq_append_iff.mp pieces
    rw [Form.nestingAll] at shallow
    rcases List.eq_nil_or_concat first with rfl | ⟨used, last, rfl⟩
    · exact absurd (List.map_eq_nil_iff.mp here.symm) (flatten_ne_nil form)
    · rw [List.concat_eq_append] at here ⊢
      obtain ⟨again, same, read⟩ := readWith_flatten form (combo :: below) (second ++ more) here
        (by simp only [List.length_cons]; omega)
      obtain ⟨agains, sameRest, readRest⟩ :=
        readWith_flattenAll rest (combo.push again) below more there (by omega)
      refine ⟨again :: agains, by simp [Form.sameAll, same, sameRest], ?_⟩
      rw [List.append_assoc, List.append_assoc, List.singleton_append, read]
      simpa [resume, OpenCombo.push] using readRest

end

/-! ## Reading written trees -/

theorem lexemes_nil (position : Position) : lexemes position [] = [] :=
  (Splits.eq_lexemes (.blanks (by simp))).symm

/-- The text of a tree with readable atoms, with a text behind it that does not go on with the last
run, is read as the tree, up to where the text behind it starts. -/
theorem readForm_render (form : Form) (readable : form.Readable)
    (shallow : form.nesting ≤ reader.maxDepth) (position place finish : Position)
    (behind : List Char) (ends : EndsRun behind) :
    ∃ again, form.same again = true ∧
      reader.readForm ⟨lexemes position (form.render ++ behind), place, finish⟩ =
        (.ok again, ⟨lexemes (position.advance form.render) behind, position.advance form.render,
          finish⟩) := by
  obtain ⟨used, last, ⟨split, pieces⟩, stops⟩ :=
    form.startsWith_render readable position behind ends
  obtain ⟨again, same, read⟩ := readWith_flatten form []
    (lexemes (position.advance form.render) behind) pieces (by simpa using shallow)
  refine ⟨again, same, ?_⟩
  rw [readForm, split, List.append_assoc, List.singleton_append, read, resume, stops]

/-- The text of a tree with readable atoms is read as the tree, and nothing of it is left. -/
theorem readForm_display (form : Form) (readable : form.Readable)
    (shallow : form.nesting ≤ reader.maxDepth) :
    ∃ again, form.same again = true ∧ reader.readForm (.ofText form.display) =
      (.ok again, ⟨[], Position.advance {} form.render, Position.advance {} form.render⟩) := by
  obtain ⟨again, same, read⟩ := readForm_render form readable shallow {} {}
    (Position.advance {} form.render) [] endsRun_nil
  refine ⟨again, same, ?_⟩
  rw [List.append_nil, lexemes_nil] at read
  simpa [Input.ofText, Form.display] using read

/-- The texts of trees with a line feed between two, and perhaps behind the last. -/
inductive InLines : List Form → List Char → Prop where
  | nil : InLines [] []
  | last (form : Form) : InLines [form] form.render
  | cons (form : Form) {rest : List Form} {text : List Char} (lines : InLines rest text) :
    InLines (form :: rest) (form.render ++ '\n' :: text)

/-- Reading all forms reads the first one and then the others. -/
theorem readForms_of_readForm {input behind : Input} {form : Form} {forms : List Form}
    (first : reader.readForm input = (.ok form, behind))
    (rest : reader.readForms behind = .ok forms) :
    reader.readForms input = .ok (form :: forms) := by
  have left : ¬ input.atEnd = true := by
    intro ended
    have none : input.lexemes = [] := by simpa [Input.atEnd] using ended
    rw [readForm, none] at first
    cases first
  rw [readForms, dif_neg left]
  split
  next report other read =>
    rw [first] at read
    cases read
  next again other read =>
    rw [first] at read
    cases read
    simp [rest, bind, Except.bind, pure, Except.pure]

theorem readForms_nil (place finish : Position) :
    reader.readForms ⟨[], place, finish⟩ = .ok [] := by
  have ended : Input.atEnd ⟨[], place, finish⟩ = true := rfl
  rw [readForms, dif_pos ended]

/-- Trees with readable atoms that are written in lines are read as the same trees. -/
theorem readForms_lines {forms : List Form} {text : List Char} (lines : InLines forms text)
    (readable : ∀ form ∈ forms, form.Readable ∧ form.nesting ≤ reader.maxDepth)
    (position place finish : Position) :
    ∃ agains, Form.sameAll forms agains = true ∧
      reader.readForms ⟨lexemes position text, place, finish⟩ = .ok agains := by
  induction lines generalizing position place with
  | nil => exact ⟨[], rfl, by rw [lexemes_nil, readForms_nil]⟩
  | last form =>
    obtain ⟨reads, shallow⟩ := readable form List.mem_cons_self
    obtain ⟨again, same, read⟩ :=
      readForm_render form reads shallow position place finish [] endsRun_nil
    rw [List.append_nil, lexemes_nil] at read
    exact ⟨[again], by simp [Form.sameAll, same], readForms_of_readForm read (readForms_nil ..)⟩
  | @cons form rest text _ ih =>
    rw [List.forall_mem_cons] at readable
    have blank : isBlank '\n' = true := by decide
    obtain ⟨again, same, read⟩ :=
      readForm_render form readable.1.1 readable.1.2 position place finish ('\n' :: text)
        (endsRun_of_blank blank)
    rw [lexemes_blank blank] at read
    obtain ⟨agains, sameRest, readRest⟩ := ih readable.2 _ _
    exact ⟨again :: agains, by simp [Form.sameAll, same, sameRest],
      readForms_of_readForm read readRest⟩

end Reader

end ExprLang
