import ExprLang.CommandLine
import ExprLang.Proofs.Form.Printing

/-!
# Writing and reading are inverse

The trees that a reader gives are those that can be written and read back. Their atoms are
readable and they nest no deeper than the reader allows (`Reader.readable_of_readForm`), and a
tree is read back from its text exactly if its atoms are readable (`Reader.display_round_trip`).
-/

namespace ExprLang

/-! ## What trees have in common with their pieces -/

namespace Form

mutual

/-- A tree of which all atoms are readable is readable. -/
theorem readable_of_flatten (form : Form)
    (atoms : ∀ text place, (Piece.atom text, place) ∈ form.flatten → IsAtomText text) :
    form.Readable := by
  match form with
  | .atom text loc => exact atoms text.toList _ List.mem_cons_self
  | .combo bracket children loc =>
    refine readableAll_of_flatten children fun text place belongs => atoms text place ?_
    exact List.mem_cons_of_mem _ (List.mem_append_left _ belongs)

theorem readableAll_of_flatten (forms : List Form)
    (atoms : ∀ text place, (Piece.atom text, place) ∈ flattenAll forms → IsAtomText text) :
    ReadableAll forms := by
  match forms with
  | [] => trivial
  | form :: rest =>
    exact ⟨readable_of_flatten form fun text place belongs =>
        atoms text place (List.mem_append_left _ belongs),
      readableAll_of_flatten rest fun text place belongs =>
        atoms text place (List.mem_append_right _ belongs)⟩

end

mutual

/-- Trees with the same atoms and brackets are readable together. -/
theorem readable_of_same (form again : Form) (same : form.same again = true)
    (readable : again.Readable) : form.Readable := by
  match form, again with
  | .atom text _, .atom other _ =>
    simp only [Form.same, beq_iff_eq] at same
    subst same
    exact readable
  | .combo _ children _, .combo _ others _ =>
    simp only [Form.same, Bool.and_eq_true] at same
    exact readableAll_of_same children others same.2 readable
  | .atom .., .combo .. | .combo .., .atom .. => simp [Form.same] at same

theorem readableAll_of_same (forms agains : List Form) (same : sameAll forms agains = true)
    (readable : ReadableAll agains) : ReadableAll forms := by
  match forms, agains with
  | [], [] => trivial
  | form :: rest, again :: others =>
    simp only [sameAll, Bool.and_eq_true] at same
    exact ⟨readable_of_same form again same.1 readable.1,
      readableAll_of_same rest others same.2 readable.2⟩
  | [], _ :: _ | _ :: _, [] => simp [sameAll] at same

end

/-- What holds of several trees together holds of each. -/
theorem forall_mem_of_all {forms : List Form} {limit : Nat} (readable : ReadableAll forms)
    (shallow : nestingAll forms ≤ limit) :
    ∀ form ∈ forms, form.Readable ∧ form.nesting ≤ limit := by
  induction forms with
  | nil => simp
  | cons form rest ih =>
    rw [nestingAll, Nat.max_le] at shallow
    exact List.forall_mem_cons.mpr ⟨⟨readable.1, shallow.1⟩, ih readable.2 shallow.2⟩

/-- The sum of what marks add to the number of open brackets. -/
def depthOf (marks : List Mark) : Int :=
  (marks.map (·.1.delta)).foldr (· + ·) 0

@[simp] theorem depthOf_nil : depthOf [] = 0 := rfl

@[simp] theorem depthOf_cons (mark : Mark) (marks : List Mark) :
    depthOf (mark :: marks) = mark.1.delta + depthOf marks := rfl

@[simp] theorem depthOf_append (first second : List Mark) :
    depthOf (first ++ second) = depthOf first + depthOf second := by
  induction first with
  | nil => simp
  | cons mark rest ih =>
    rw [List.cons_append, depthOf_cons, depthOf_cons, ih]
    omega

mutual

theorem depthOf_flatten (form : Form) : depthOf form.flatten = 0 := by
  match form with
  | .atom text loc => rfl
  | .combo bracket children loc => simp [flatten, depthOf_flattenAll children, Piece.delta]

theorem depthOf_flattenAll (forms : List Form) : depthOf (flattenAll forms) = 0 := by
  match forms with
  | [] => rfl
  | form :: rest => simp [depthOf_flatten form, depthOf_flattenAll rest]

end

mutual

/-- Somewhere in a tree as many brackets are open as the tree nests deep. -/
theorem exists_depthOf_eq_nesting (form : Form) :
    ∃ before, before <+: form.flatten ∧ depthOf before = form.nesting := by
  match form with
  | .atom text loc => exact ⟨[], List.nil_prefix, rfl⟩
  | .combo bracket children loc =>
    obtain ⟨before, isPrefix, deep⟩ := exists_depthOf_eq_nestingAll children
    refine ⟨(.opener bracket, some loc) :: before, ?_, ?_⟩
    · rw [flatten, List.prefix_cons_inj]
      exact isPrefix.trans (List.prefix_append ..)
    · rw [depthOf_cons, deep, nesting]
      simp only [Piece.delta]
      omega

theorem exists_depthOf_eq_nestingAll (forms : List Form) :
    ∃ before, before <+: flattenAll forms ∧ depthOf before = nestingAll forms := by
  match forms with
  | [] => exact ⟨[], List.nil_prefix, rfl⟩
  | form :: rest =>
    rcases Nat.le_total (nestingAll rest) form.nesting with shallow | deep
    · obtain ⟨before, isPrefix, deep⟩ := exists_depthOf_eq_nesting form
      refine ⟨before, isPrefix.trans (List.prefix_append ..), ?_⟩
      rw [deep, nestingAll, Nat.max_eq_left shallow]
    · obtain ⟨before, isPrefix, depth⟩ := exists_depthOf_eq_nestingAll rest
      refine ⟨form.flatten ++ before, (List.prefix_append_right_inj _).mpr isPrefix, ?_⟩
      rw [depthOf_append, depthOf_flatten, depth, nestingAll, Nat.max_eq_right deep, Int.zero_add]

end

end Form

/-! ## What a reader gives -/

theorem Mark.delta_plain (mark : Mark) : mark.plain.1.delta = mark.1.delta := by
  obtain ⟨piece, place⟩ := mark
  cases piece <;> rfl

theorem Lexeme.delta_mark (file : String) (lexeme : Lexeme) :
    (lexeme.mark file).1.delta = lexeme.piece.delta := by
  obtain ⟨piece, start, stop⟩ := lexeme
  cases piece <;> rfl

namespace Agree

variable {strict : Bool} {tree : List Mark} {used : List Lexeme} {file : String}

/-- Trees that agree with pieces open and close as many brackets. -/
theorem depthOf_take (agree : Agree strict tree (used.map (·.mark file))) (count : Nat) :
    Form.depthOf (tree.take count) = balance (used.take count) := by
  have deltas := congrArg (List.map fun mark : Mark => mark.1.delta) agree.1
  simp only [List.map_map, Function.comp_def, Mark.delta_plain, Lexeme.delta_mark] at deltas
  rw [Form.depthOf, balance, List.map_take, List.map_take, deltas]

/-- Trees that agree with pieces have their atoms. -/
theorem exists_lexeme_of_atom (agree : Agree strict tree (used.map (·.mark file)))
    {text : List Char} {place : Option Location} (belongs : (Piece.atom text, place) ∈ tree) :
    ∃ lexeme ∈ used, lexeme.piece = .atom text := by
  have plain : (Piece.atom text, place) ∈ (used.map (·.mark file)).map Mark.plain := by
    rw [← agree.1]
    exact List.mem_map_of_mem belongs
  simp only [List.map_map, List.mem_map, Function.comp_apply] at plain
  obtain ⟨lexeme, used, shown⟩ := plain
  refine ⟨lexeme, used, ?_⟩
  obtain ⟨piece, start, stop⟩ := lexeme
  cases piece <;> simp_all [Lexeme.mark, Mark.plain]

end Agree

/-- The atoms among the pieces of a text have the texts of atoms. -/
theorem Splits.isAtomText {position : Position} {source : List Char} {pieces : List Lexeme}
    (splits : Splits position source pieces) {lexeme : Lexeme} (belongs : lexeme ∈ pieces)
    {text : List Char} (atom : lexeme.piece = .atom text) : IsAtomText text := by
  induction splits with
  | blanks => cases belongs
  | piece _ _ stands _ ih =>
    rcases List.mem_cons.mp belongs with rfl | later
    · subst atom
      cases stands with
      | string string => exact .inl string
      | run run _ => exact .inr run
    · exact ih later

/-- Trees that were read from pieces of a text are readable and nest no deeper than allowed. -/
theorem Reading.readable {reader : Reader} {used : List Lexeme} {forms : List Form}
    (reading : Reading reader used forms []) (atoms : ∀ lexeme ∈ used, ∀ text,
      lexeme.piece = .atom text → IsAtomText text) :
    Form.ReadableAll forms ∧ Form.nestingAll forms ≤ reader.maxDepth := by
  have written : Agree reader.strict (Form.flattenAll forms) (used.map (·.mark reader.file)) := by
    simpa [flattenStack] using reading.written
  constructor
  · refine Form.readableAll_of_flatten forms fun text place belongs => ?_
    obtain ⟨lexeme, used, atom⟩ := written.exists_lexeme_of_atom belongs
    exact atoms lexeme used text atom
  -- The innermost place of the trees is one that the reader has passed.
  · obtain ⟨before, isPrefix, deep⟩ := Form.exists_depthOf_eq_nestingAll forms
    rw [List.prefix_iff_eq_take.mp isPrefix, written.depthOf_take] at deep
    have high := (reading.clean.within (List.take_prefix before.length used)).2
    omega

/-- The inputs that reading a text passes through. -/
inductive Input.From (text : String) : Input → Prop where
  | start : From text (.ofText text)
  | skip {input : Input} (passed : From text input) : From text input.skipBlanks
  | read {input : Input} (passed : From text input) (reader : Reader) :
    From text (reader.readForm input).2

namespace Reader

variable {reader : Reader} {text : String} {input behind : Input} {form : Form}

/-- Reading leaves the end of the pieces, whether it succeeds or fails. -/
theorem suffix_readWith (finish : Position) (stack : List OpenCombo) (pieces : List Lexeme) :
    (reader.readWith finish stack pieces).2.lexemes <:+ pieces := by
  induction pieces generalizing stack with
  | nil => exact List.suffix_rfl
  | cons lexeme rest ih =>
    obtain ⟨piece, start, stop⟩ := lexeme
    have further (combos : List OpenCombo) :
        (reader.readWith finish combos rest).2.lexemes <:+ ⟨piece, start, stop⟩ :: rest :=
      (ih combos).trans (List.suffix_cons ..)
    cases piece <;> simp only [readWith] <;> (repeat' split) <;>
      first | exact List.suffix_cons .. | exact further _

theorem suffix_of_from (passed : Input.From text input) :
    input.lexemes <:+ lexemes {} text.toList := by
  induction passed with
  | start => exact List.suffix_rfl
  | @skip input _ ih =>
    unfold Input.skipBlanks
    split <;> exact ih
  | read _ reader ih => exact (suffix_readWith ..).trans ih

/-- Every tree that a reader gives has readable atoms and nests no deeper than the reader allows. -/
theorem readable_of_readForm (passed : Input.From text input)
    (read : reader.readForm input = (.ok form, behind)) :
    form.Readable ∧ form.nesting ≤ reader.maxDepth := by
  have left : input.lexemes ≠ [] := by
    intro none
    rw [readForm, none] at read
    cases read
  have ends : Ends reader input.finish [] input.lexemes [] (reader.readForm input) :=
    Reading.nil.ends (.inr left)
  rw [read] at ends
  obtain ⟨-, used, split, reading⟩ := ends
  have readable := reading.readable fun lexeme belongs text atom => ?_
  · simpa [Form.ReadableAll, Form.nestingAll] using readable
  · have within : lexeme ∈ input.lexemes := by
      rw [split]
      exact List.mem_append_left _ belongs
    exact (splits_lexemes _ _).isAtomText ((suffix_of_from passed).mem within) atom

/-- The trees of a whole text have readable atoms and nest no deeper than the reader allows. -/
theorem readable_of_readAll {forms : List Form} (read : reader.readAll text = .ok forms) :
    Form.ReadableAll forms ∧ Form.nestingAll forms ≤ reader.maxDepth := by
  have endsAll : EndsAll reader _ [] (lexemes {} text.toList) [] (reader.readAll text) :=
    Reading.nil.endsAll (Input.ofText text)
  rw [read] at endsAll
  exact endsAll.readable fun lexeme belongs text atom =>
    (splits_lexemes _ _).isAtomText belongs atom

/-! ## Round trips -/

theorem inLines_intercalate (forms : List Form) :
    InLines forms ("\n".intercalate (forms.map (·.display))).toList := by
  match forms with
  | [] => exact .nil
  | [form] => simpa [Form.display] using InLines.last form
  | form :: next :: rest =>
    have lines := InLines.cons form (inLines_intercalate (next :: rest))
    simpa [String.intercalate_cons_cons, Form.display] using lines

theorem inLines_unlines (forms : List Form) :
    InLines forms (CommandLine.unlines (forms.map (·.display))).toList := by
  induction forms with
  | nil => exact .nil
  | cons form rest ih =>
    have lines := InLines.cons form ih
    simpa [CommandLine.unlines, Form.display] using lines

/-- **Round trips.** A tree that does not nest too deep is read back from its text exactly if its
atoms are readable, and then nothing of the text is left. All trees that a reader gives are of
that kind, and trees of that kind that are written in lines, as `tokens` writes them, are read
back. -/
theorem display_round_trip (reader : Reader) :
    (∀ form : Form, form.nesting ≤ reader.maxDepth →
      ((∃ again behind, reader.readForm (.ofText form.display) = (.ok again, behind) ∧
        form.same again = true) ↔ form.Readable) ∧
      (form.Readable → ∃ again, form.same again = true ∧ reader.readForm (.ofText form.display) =
        (.ok again, ⟨[], Position.advance {} form.render, Position.advance {} form.render⟩))) ∧
    (∀ text input form behind, Input.From text input →
      reader.readForm input = (.ok form, behind) → form.Readable ∧ form.nesting ≤ reader.maxDepth) ∧
    (∀ text forms, reader.readAll text = .ok forms →
      ∀ form ∈ forms, form.Readable ∧ form.nesting ≤ reader.maxDepth) ∧
    ∀ (forms : List Form) (text : String),
      (∀ form ∈ forms, form.Readable ∧ form.nesting ≤ reader.maxDepth) →
      text = "\n".intercalate (forms.map (·.display)) ∨
        text = CommandLine.unlines (forms.map (·.display)) →
      ∃ agains, reader.readAll text = .ok agains ∧ Form.sameAll forms agains = true := by
  refine ⟨fun form shallow => ⟨⟨?_, fun readable => ?_⟩, fun readable => ?_⟩, ?_, ?_, ?_⟩
  · rintro ⟨again, behind, read, same⟩
    exact form.readable_of_same again same (readable_of_readForm .start read).1
  · obtain ⟨again, same, read⟩ := readForm_display form readable shallow
    exact ⟨again, _, read, same⟩
  · exact readForm_display form readable shallow
  · exact fun text input form behind passed read => readable_of_readForm passed read
  · intro text forms read
    obtain ⟨readable, shallow⟩ := readable_of_readAll read
    exact Form.forall_mem_of_all readable shallow
  · intro forms text readable written
    have lines : InLines forms text.toList := by
      rcases written with rfl | rfl
      · exact inLines_intercalate forms
      · exact inLines_unlines forms
    obtain ⟨agains, same, read⟩ :=
      readForms_lines lines readable {} {} (Position.advance {} text.toList)
    exact ⟨agains, read, same⟩

def sample : Form :=
  let loc : Location := ⟨"sample", 1, 1⟩
  let atom (text : String) : Form := .atom text loc
  .combo .paren [atom "list", atom "\"a b\"",
    .combo .square [atom "-1", .combo .curly [] loc] loc] loc

theorem readable_sample : sample.Readable :=
  ⟨.inr ⟨by decide, by decide, List.all_eq_true.mp (by decide)⟩,
    .inl ⟨['a', ' ', 'b'], by decide, by decide⟩,
    ⟨.inr ⟨by decide, by decide, List.all_eq_true.mp (by decide)⟩, trivial, trivial⟩, trivial⟩

/-- Round trips apply to a tree with a string and three levels of brackets, and to two such trees in
lines. -/
theorem display_round_trip_sample :
    (∃ again, sample.same again = true ∧ readForm { maxDepth := 3 } (.ofText sample.display) =
      (.ok again, ⟨[], Position.advance {} sample.render, Position.advance {} sample.render⟩)) ∧
    (∃ again behind, readForm { maxDepth := 3 } (.ofText sample.display) = (.ok again, behind) ∧
      again.Readable ∧ again.nesting ≤ 3) ∧
    ∃ agains, readAll { maxDepth := 3 } (CommandLine.unlines [sample.display, sample.display]) =
      .ok agains ∧ Form.sameAll [sample, sample] agains = true := by
  obtain ⟨single, returned, -, lines⟩ := display_round_trip { maxDepth := 3 }
  have shallow : sample.nesting ≤ 3 := by decide
  obtain ⟨again, same, read⟩ := (single sample shallow).2 readable_sample
  refine ⟨⟨again, same, read⟩, ⟨again, _, read, returned _ _ _ _ .start read⟩, ?_⟩
  exact lines [sample, sample] _ (by simp [readable_sample, shallow]) (.inr rfl)

end Reader

end ExprLang
