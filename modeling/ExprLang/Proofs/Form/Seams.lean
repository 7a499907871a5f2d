import Mathlib.Data.List.Permutation
import ExprLang.Proofs.Form.Incremental

/-!
# Seams of texts

Where two texts meet, no piece of the first one changes if the second one starts with no character
of a run: a run ends at the seam, a string ends at its own quote and a bracket is a piece anywhere.
So what a reader has read of a text is what it has read of every such continuation, up to the first
piece that it fails at. Reading is therefore compositional (`Reader.incremental_reading`): texts with a
blank between them are read to the forms of both, a bracket that cannot stand where it does is
reported whatever follows, and a text that ends inside of combos becomes readable when they are closed.
-/

namespace ExprLang

variable {position : Position} {text behind more : List Char} {pieces others : List Lexeme}
  {lexeme : Lexeme}

/-! ## Pieces at a seam -/

theorem EndsRun.append (ends : EndsRun behind) (seam : behind = [] → EndsRun more) :
    EndsRun (behind ++ more) := by
  cases behind with
  | nil => exact seam rfl
  | cons c rest => exact ends

/-- A piece is not changed by what comes later. -/
theorem Piece.StandsBefore.append {piece : Piece} (stands : piece.StandsBefore behind)
    (seam : behind = [] → EndsRun more) (terminated : ∀ text, piece ≠ .unterminated text) :
    piece.StandsBefore (behind ++ more) := by
  cases stands with
  | opener bracket => exact .opener bracket
  | closer bracket => exact .closer bracket
  | string string => exact .string string
  | run run maximal => exact .run run (maximal.append seam)
  | unterminated unclosed last => exact absurd rfl (terminated _)

/-- A piece in front of a text can stand in front of a part of it. -/
theorem Piece.StandsBefore.of_append {piece : Piece} (stands : piece.StandsBefore (behind ++ more))
    (nonempty : more ≠ []) : piece.StandsBefore behind := by
  cases stands with
  | opener bracket => exact .opener bracket
  | closer bracket => exact .closer bracket
  | string string => exact .string string
  | run run maximal =>
    refine .run run ?_
    cases behind with
    | nil => exact endsRun_nil
    | cons c rest => exact maximal
  | unterminated unclosed last => exact absurd (List.append_eq_nil_iff.mp last).2 nonempty

/-- Only a text of blanks has no pieces. -/
theorem Splits.ne_nil (splits : Splits position text pieces) (nonempty : pieces ≠ []) :
    text ≠ [] := by
  cases splits with
  | blanks => exact absurd rfl nonempty
  | piece blank starts stands rest =>
    obtain ⟨c, others, first, -⟩ := Piece.split_of_standsBefore stands
    simp [first]

theorem Splits.behind_blanks {blanks : List Char} (blank : ∀ c ∈ blanks, isBlank c = true)
    (splits : Splits (position.advance blanks) text pieces) :
    Splits position (blanks ++ text) pieces := by
  cases splits with
  | blanks others => exact .blanks (List.forall_mem_append.mpr ⟨blank, others⟩)
  | piece others starts stands rest =>
    rw [← List.append_assoc]
    refine .piece (List.forall_mem_append.mpr ⟨blank, others⟩) ?_ stands rest
    rw [starts, Position.advance_append]

/-- The pieces of two texts that no run connects are the pieces of the texts. -/
theorem Splits.append (splits : Splits position text pieces)
    (terminated : ∀ lexeme ∈ pieces, ∀ text, lexeme.piece ≠ .unterminated text)
    (seam : EndsRun more) (onward : Splits (position.advance text) more others) :
    Splits position (text ++ more) (pieces ++ others) := by
  induction splits with
  | blanks blank => exact onward.behind_blanks blank
  | @piece position start blanks behind piece pieces blank starts stands _ ih =>
    rw [List.forall_mem_cons] at terminated
    subst starts
    rw [Position.advance_append, Position.advance_append] at onward
    rw [List.append_assoc, List.append_assoc, List.cons_append]
    exact .piece blank rfl (stands.append (fun _ => seam) terminated.1) (ih terminated.2 onward)

theorem lexemes_append
    (terminated : ∀ lexeme ∈ lexemes position text, ∀ text, lexeme.piece ≠ .unterminated text)
    (seam : EndsRun more) :
    lexemes position (text ++ more) =
      lexemes position text ++ lexemes (position.advance text) more :=
  ((splits_lexemes position text).append terminated seam (splits_lexemes _ more)).eq_lexemes.symm

/-- The pieces of a text up to one of its brackets are pieces of every longer text. -/
theorem Splits.exists_append {before after : List Lexeme}
    (splits : Splits position text (before ++ lexeme :: after)) (turns : lexeme.piece.delta ≠ 0)
    (more : List Char) : ∃ later, Splits position (text ++ more) (before ++ lexeme :: later) := by
  induction before generalizing position text with
  | nil =>
    cases splits with
    | @piece _ start blanks behind piece _ blank starts stands _ =>
      rw [List.append_assoc, List.append_assoc]
      refine ⟨_, .piece blank starts ?_ (splits_lexemes _ (behind ++ more))⟩
      cases stands with
      | opener bracket => exact .opener bracket
      | closer bracket => exact .closer bracket
      | string | run | unterminated => exact absurd rfl turns
  | cons first before ih =>
    cases splits with
    | @piece _ start blanks behind piece _ blank starts stands rest =>
      obtain ⟨later, onward⟩ := ih rest
      rw [List.append_assoc, List.append_assoc]
      have nonempty : behind ≠ [] := rest.ne_nil (by simp)
      refine ⟨later, .piece blank starts (stands.append ?_ ?_) onward⟩
      · exact fun none => absurd none nonempty
      rintro text rfl
      cases stands with
      | unterminated _ last => exact nonempty last

/-- A text is cut in front of one of its openers into a text of the pieces before it and the rest. -/
theorem Splits.cut {before inside : List Lexeme} {bracket : Bracket}
    (splits : Splits position text (before ++ lexeme :: inside))
    (opens : lexeme.piece = .opener bracket) :
    ∃ first rest, text = first ++ bracket.opener :: rest ∧ Splits position first before ∧
      lexeme.start = position.advance first := by
  induction before generalizing position text with
  | nil =>
    cases splits with
    | @piece _ start blanks behind piece _ blank starts stands _ =>
      subst opens
      exact ⟨blanks, behind, rfl, .blanks blank, starts⟩
  | cons head before ih =>
    cases splits with
    | @piece _ start blanks behind piece _ blank starts stands rest =>
      obtain ⟨first, later, rfl, splitsFirst, place⟩ := ih rest
      refine ⟨blanks ++ (piece.text ++ first), later, by simp,
        .piece blank starts (stands.of_append (by simp)) splitsFirst, ?_⟩
      rw [place, starts, Position.advance_append, Position.advance_append]

/-- Which pieces a text has does not depend on where it stands. -/
theorem map_piece_lexemes (position other : Position) (text : List Char) :
    (lexemes position text).map (·.piece) = (lexemes other text).map (·.piece) := by
  have elsewhere {pieces : List Lexeme} (splits : Splits position text pieces) :
      ∃ others, Splits other text others ∧ pieces.map (·.piece) = others.map (·.piece) := by
    induction splits generalizing other with
    | blanks blank => exact ⟨[], .blanks blank, rfl⟩
    | piece blank starts stands _ ih =>
      obtain ⟨others, splits, same⟩ := ih _
      exact ⟨_, .piece blank rfl stands splits, by simp [same]⟩
  obtain ⟨others, splits, same⟩ := elsewhere (splits_lexemes position text)
  rw [same, splits.eq_lexemes]

/-! ## Closing what is open -/

namespace Reader

variable {reader : Reader} {finish : Position} {state : ReadSoFar} {report : Diagnostic}

/-- A closer of its kind completes the innermost open combo. -/
theorem steps_closer (done : List Form) (inner : OpenCombo) (below : List OpenCombo)
    (position : Position) (behind : List Char) :
    reader.steps finish (done, inner :: below)
        (lexemes position (inner.bracket.closer :: behind)) =
      reader.steps finish (deliver inner.close done below)
        (lexemes (position.advance [inner.bracket.closer]) behind) := by
  have first : lexemes position (inner.bracket.closer :: behind) =
      ⟨.closer inner.bracket, position, position.advance [inner.bracket.closer]⟩ ::
        lexemes (position.advance [inner.bracket.closer]) behind :=
    lexemes_piece (.closer inner.bracket)
  have taken (start stop : Position) :
      reader.step finish (done, inner :: below) ⟨.closer inner.bracket, start, stop⟩ =
        .ok (deliver inner.close done below) := by
    simp [step]
  rw [first, steps_cons, taken]
  rfl

/-- Closers of the open combos, innermost first, complete the form that the outermost one starts. -/
theorem steps_closers {innermost : List (Bracket × Location)} {outermost : Bracket × Location}
    {done : List Form} {combos : List OpenCombo} (stack : opened combos = innermost ++ [outermost])
    (position : Position) :
    ∃ children, reader.steps finish (done, combos)
        (lexemes position (combos.map (·.bracket.closer))) =
      .ok (done ++ [.combo outermost.1 children outermost.2], []) := by
  induction innermost generalizing combos position with
  | nil =>
    obtain ⟨inner, below, rfl, rfl, none⟩ := List.map_eq_cons_iff.mp stack
    obtain rfl : below = [] := List.map_eq_nil_iff.mp none
    refine ⟨inner.children.reverse, ?_⟩
    rw [List.map_cons, List.map_nil, steps_closer, lexemes_nil]
    rfl
  | cons first innermost ih =>
    obtain ⟨inner, below, rfl, -, rest⟩ := List.map_eq_cons_iff.mp stack
    cases below with
    | nil => simp at rest
    | cons outer below =>
      rw [List.map_cons, steps_closer]
      refine ih ?_ _
      exact rest

/-! ## Reading texts -/

/-- A text is read to forms if all of its pieces are taken and leave these forms and no open combo. -/
theorem readAll_eq_ok_iff {text : String} {forms : List Form} (finish : Position) :
    reader.readAll text = .ok forms ↔
      reader.steps finish ([], []) (lexemes {} text.toList) = .ok (forms, []) := by
  rw [readAll_eq_fold]
  constructor
  · intro read
    cases taken : reader.steps (Position.advance {} text.toList) ([], [])
        (lexemes {} text.toList) with
    | error report =>
      rw [taken] at read
      cases read
    | ok state =>
      rw [taken] at read
      obtain ⟨done, stack⟩ := state
      cases stack with
      | nil =>
        cases read
        exact steps_finish taken finish
      | cons combo below => cases read
  · intro taken
    rw [steps_finish taken (Position.advance {} text.toList)]
    rfl

/-- A text is not read because of one of its pieces, or because combos are open at its end. -/
theorem readAll_eq_error {text : String} (failed : reader.readAll text = .error report) :
    (∃ before lexeme after state, lexemes {} text.toList = before ++ lexeme :: after ∧
      reader.steps (Position.advance {} text.toList) ([], []) before = .ok state ∧
      reader.step (Position.advance {} text.toList) state lexeme = .error report) ∨
    report.code = .unexpectedEndOfCombo ∧ ∃ done stack, stack ≠ [] ∧
      reader.steps (Position.advance {} text.toList) ([], []) (lexemes {} text.toList) =
        .ok (done, stack) := by
  rw [readAll_eq_fold] at failed
  cases taken : reader.steps (Position.advance {} text.toList) ([], [])
      (lexemes {} text.toList) with
  | error other =>
    rw [taken] at failed
    cases failed
    exact .inl (exists_step_of_steps_error taken)
  | ok state =>
    rw [taken] at failed
    obtain ⟨done, stack⟩ := state
    cases stack with
    | nil => cases failed
    | cons combo below =>
      cases failed
      exact .inr ⟨rfl, done, combo :: below, nofun, rfl⟩

variable {first second : String} {forms others : List Form}

/-- A text behind another one, with a blank between them, adds its forms to those of the other. -/
theorem readAll_seam {c : Char} (blank : isBlank c = true) (read : reader.readAll first = .ok forms)
    (readMore : reader.readAll second = .ok others) :
    ∃ agains, Form.sameAll others agains = true ∧
      reader.readAll (first ++ String.singleton c ++ second) = .ok (forms ++ agains) := by
  have taken := (readAll_eq_ok_iff {}).mp read
  have whole : lexemes {} (first ++ String.singleton c ++ second).toList =
      lexemes {} first.toList ++
        lexemes ((Position.advance {} first.toList).after c) second.toList := by
    rw [String.toList_append, String.toList_append, String.toList_singleton, List.append_assoc,
      List.singleton_append, lexemes_append (terminated_of_steps taken) (endsRun_of_blank blank),
      lexemes_blank blank]
  have start : ReadSoFar.Same ([], []) ([], []) := ⟨.nil, .nil⟩
  obtain ⟨⟨agains, stack⟩, takenMore, dones, sameStacks⟩ :=
    steps_same start (map_piece_lexemes _ _ second.toList) ((readAll_eq_ok_iff {}).mp readMore)
  cases sameStacks
  refine ⟨agains, Form.sameAll_iff.mpr dones, (readAll_eq_ok_iff {}).mpr ?_⟩
  rw [whole, steps_append_of_ok taken]
  simpa using steps_behind forms takenMore

/-- A bracket that a reader does not take is reported in the same way whatever follows the text. -/
theorem readAll_of_bracket_error (failed : reader.readAll first = .error report)
    (bracket : report.code = .unbalancedCloser ∨ report.code = .mismatchedCloser ∨
      report.code = .tooDeeplyNested) (more : String) :
    reader.readAll (first ++ more) = .error report := by
  rcases readAll_eq_error failed with ⟨before, lexeme, after, state, split, read, here⟩ | ⟨code, -⟩
  · have turns : lexeme.piece.delta ≠ 0 := by
      rcases code_of_step_error here with ⟨code, -⟩ | ⟨-, turns⟩
      · rw [code] at bracket
        rcases bracket with same | same | same <;> cases same
      · exact turns
    have splits := splits_lexemes {} first.toList
    rw [split] at splits
    obtain ⟨later, longer⟩ := splits.exists_append turns more.toList
    have terminated (text : List Char) : lexeme.piece ≠ .unterminated text := by
      intro unterminated
      rw [unterminated] at turns
      exact turns rfl
    rw [readAll_eq_fold, String.toList_append, ← longer.eq_lexemes,
      steps_append_of_ok (steps_finish read _), steps_cons, ← step_finish terminated, here]
    rfl
  · rw [code] at bracket
    rcases bracket with same | same | same <;> cases same

/-- A text that ends inside of combos is read to its complete forms and one more when the openers that
are not closed are followed by their closers, innermost first. -/
theorem readAll_closed (failed : reader.readAll first = .error report)
    (code : report.code = .unexpectedEndOfCombo) :
    ∃ before inside innermost outermost forms children,
      first.toList = before ++ Bracket.opener outermost :: inside ∧
      OpenStack (lexemes {} first.toList) (innermost ++ [outermost]) ∧
      reader.readAll (String.ofList before) = .ok forms ∧
      reader.readAll (first ++ String.ofList ((innermost ++ [outermost]).map Bracket.closer)) =
        .ok (forms ++ [.combo outermost children
          ((Position.advance {} before).inFile reader.file)]) := by
  rcases readAll_eq_error failed with ⟨before, lexeme, after, state, -, -, here⟩ |
    ⟨-, done, combos, open_, taken⟩
  · rcases code_of_step_error here with ⟨other, -⟩ | ⟨other | other | other, -⟩ <;>
      cases code.symm.trans other
  · rcases List.eq_nil_or_concat (opened combos) with none | ⟨innermost, outermost, stack⟩
    · exact absurd (List.map_eq_nil_iff.mp none) open_
    rw [List.concat_eq_append] at stack
    have brackets : combos.map (·.bracket) = innermost.map (·.1) ++ [outermost.1] := by
      simpa [opened, Function.comp_def] using congrArg (List.map (·.1)) stack
    have openStack := (reading_of_steps .nil taken).openStack
    rw [List.nil_append, brackets] at openStack
    obtain ⟨earlier, opener, behind, split, opens, place, readEarlier⟩ := exists_outermost taken stack
    have splits := splits_lexemes {} first.toList
    rw [split] at splits
    obtain ⟨before, inside, cut, splitsBefore, start⟩ := splits.cut opens
    have readBefore : reader.readAll (String.ofList before) = .ok done := by
      rw [readAll_eq_ok_iff, String.toList_ofList, ← splitsBefore.eq_lexemes]
      exact readEarlier
    obtain ⟨children, closed⟩ := @steps_closers reader (Position.advance {} first.toList) innermost
      outermost done combos stack (Position.advance {} first.toList)
    have seam : EndsRun (combos.map (·.bracket.closer)) := by
      cases combos with
      | nil => exact absurd rfl open_
      | cons inner below => exact endsRun_of_closer inner.bracket
    have closers : combos.map (·.bracket.closer) =
        (innermost.map (·.1) ++ [outermost.1]).map Bracket.closer := by
      rw [← brackets, List.map_map]
      rfl
    refine ⟨before, inside, innermost.map (·.1), outermost.1, done, children, cut, openStack,
      readBefore, ?_⟩
    rw [readAll_eq_ok_iff, String.toList_append, String.toList_ofList, ← closers,
      lexemes_append (terminated_of_steps taken) seam, steps_append_of_ok taken, closed, ← start,
      place]

/-- **Reading is compositional.** Two texts with a blank between them are read to the forms of the
first and, at their new places, those of the second. A bracket that nests too deep, has no opener or
is of another kind than its opener is reported in the same way whatever follows. A text that ends
inside of combos is read when the openers that are not closed get their closers, innermost first: to
the forms in front of the outermost of these openers, and one form that starts there. And there is no
text that reading all forms of finds to be too short outside of combos. -/
theorem incremental_reading (reader : Reader) :
    (∀ (first second : String) (c : Char) (forms others : List Form), isBlank c = true →
      reader.readAll first = .ok forms → reader.readAll second = .ok others →
        ∃ agains, Form.sameAll others agains = true ∧
          reader.readAll (first ++ String.singleton c ++ second) = .ok (forms ++ agains)) ∧
    (∀ (text more : String) (report : Diagnostic), reader.readAll text = .error report →
      report.code = .unbalancedCloser ∨ report.code = .mismatchedCloser ∨
        report.code = .tooDeeplyNested →
      reader.readAll (text ++ more) = .error report) ∧
    (∀ (text : String) (report : Diagnostic), reader.readAll text = .error report →
      report.code = .unexpectedEndOfCombo →
        ∃ before inside innermost outermost forms children,
          text.toList = before ++ Bracket.opener outermost :: inside ∧
          OpenStack (lexemes {} text.toList) (innermost ++ [outermost]) ∧
          (∀ brackets, OpenStack (lexemes {} text.toList) brackets →
            brackets = innermost ++ [outermost]) ∧
          reader.readAll (String.ofList before) = .ok forms ∧
          reader.readAll (text ++ String.ofList ((innermost ++ [outermost]).map Bracket.closer)) =
            .ok (forms ++ [.combo outermost children
              ((Position.advance {} before).inFile reader.file)])) ∧
    ∀ (text : String) (report : Diagnostic), reader.readAll text = .error report →
      report.code ≠ .unexpectedEndOfFile := by
  refine ⟨fun first second c forms others => readAll_seam,
    fun text more report failed bracket => readAll_of_bracket_error failed bracket more, ?_, ?_⟩
  · intro text report failed code
    obtain ⟨before, inside, innermost, outermost, forms, children, cut, openStack, read, closed⟩ :=
      readAll_closed failed code
    exact ⟨before, inside, innermost, outermost, forms, children, cut, openStack,
      fun brackets other => other.unique openStack, read, closed⟩
  · intro text report failed
    rcases readAll_eq_error failed with ⟨before, lexeme, after, state, -, -, here⟩ | ⟨code, -⟩
    · rcases code_of_step_error here with ⟨code, -⟩ | ⟨code | code | code, -⟩ <;>
        rw [code] <;> nofun
    · rw [code]
      nofun

/-- A place in the first line of the input. -/
def inFirstLine (column : Nat) : Location :=
  ⟨"<input>", 1, column⟩

theorem readAll_pair : Reader.readAll {} "a [b]" =
    .ok [.atom "a" (inFirstLine 1), .combo .square [.atom "b" (inFirstLine 4)] (inFirstLine 3)] := by
  have pieces : lexemes {} "a [b]".toList =
      [⟨.atom ['a'], ⟨1, 1⟩, ⟨1, 2⟩⟩, ⟨.opener .square, ⟨1, 3⟩, ⟨1, 4⟩⟩,
        ⟨.atom ['b'], ⟨1, 4⟩, ⟨1, 5⟩⟩, ⟨.closer .square, ⟨1, 5⟩, ⟨1, 6⟩⟩] := by cbv
  rw [readAll_eq_ok_iff {}, pieces]
  rfl

theorem readAll_closer : Reader.readAll {} "a)" =
    .error ((Fault.closerWithoutOpener .paren).reportAt (inFirstLine 2)) := by
  have pieces : lexemes {} "a)".toList =
      [⟨.atom ['a'], ⟨1, 1⟩, ⟨1, 2⟩⟩, ⟨.closer .paren, ⟨1, 2⟩, ⟨1, 3⟩⟩] := by cbv
  rw [readAll_eq_fold, pieces]
  rfl

theorem readAll_unclosed : Reader.readAll {} "a (b [" =
    .error ((Fault.endInsideCombo .square (inFirstLine 6)).reportAt (inFirstLine 7)) := by
  have pieces : lexemes {} "a (b [".toList =
      [⟨.atom ['a'], ⟨1, 1⟩, ⟨1, 2⟩⟩, ⟨.opener .paren, ⟨1, 3⟩, ⟨1, 4⟩⟩,
        ⟨.atom ['b'], ⟨1, 4⟩, ⟨1, 5⟩⟩, ⟨.opener .square, ⟨1, 6⟩, ⟨1, 7⟩⟩] := by cbv
  rw [readAll_eq_fold, pieces]
  rfl

/-- Two copies of a text are read one behind the other, a closer without an opener stays one, and a
text that ends inside of two combos can be closed. -/
theorem incremental_reading_copies :
    (∃ forms, Reader.readAll {} ("a [b]" ++ String.singleton ' ' ++ "a [b]") = .ok forms) ∧
      Reader.readAll {} ("a)" ++ " (b") =
        .error ((Fault.closerWithoutOpener .paren).reportAt (inFirstLine 2)) ∧
      ∃ brackets forms, OpenStack (lexemes {} "a (b [".toList) brackets ∧
        Reader.readAll {} ("a (b [" ++ String.ofList (brackets.map Bracket.closer)) = .ok forms := by
  obtain ⟨seam, bracket, closed, -⟩ := incremental_reading {}
  obtain ⟨agains, -, read⟩ := seam _ _ ' ' _ _ (by decide) readAll_pair readAll_pair
  obtain ⟨_, _, _, _, _, _, -, openStack, -, -, readClosed⟩ :=
    closed _ _ readAll_unclosed rfl
  exact ⟨⟨_, read⟩, bracket _ _ _ readAll_closer (.inl rfl), _, _, openStack, readClosed⟩

end Reader

end ExprLang
