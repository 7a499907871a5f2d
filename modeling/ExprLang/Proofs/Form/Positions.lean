import Mathlib.Data.List.DropRight
import Mathlib.Data.Prod.Lex
import ExprLang.Proofs.Form.Places
import ExprLang.Proofs.Form.Seams

/-!
# Lines, columns and the places of pieces

The place behind a text counts its lines and the characters in the last of them
(`Position.advance_eq_endOf`). Places are ordered by line and column; only a
carriage return does not lead to a later place, so the pieces of a text start at increasing places
(`Splits.increasing`), each where its text stands (`Splits.standsIn`).
-/

namespace ExprLang

variable {position start : Position} {text behind taken left : List Char} {c : Char}
  {pieces used rest : List Lexeme} {last lexeme : Lexeme} {file : String}

/-! ## Lines, columns and their order -/

namespace Position

/-- Places in the order of reading: by line and then by column. -/
def order (position : Position) : Nat ×ₗ Nat :=
  toLex (position.line, position.column)

/-- The place behind a text that starts a source unit: its line is one more than the line feeds of
the text, and its column one more than the characters behind the last of them, carriage returns
aside. -/
def endOf (text : List Char) : Position where
  line := 1 + text.count '\n'
  column := 1 + (text.rtakeWhile (· != '\n')).countP (· != '\r')

theorem advance_concat (position : Position) (text : List Char) (c : Char) :
    position.advance (text ++ [c]) = (position.advance text).after c :=
  advance_append ..

/-- Going through a text leads to the place behind it. -/
theorem advance_eq_endOf (text : List Char) : advance {} text = endOf text := by
  induction text using List.reverseRecOn with
  | nil => rfl
  | append_singleton text c ih =>
    rw [advance_concat, ih, after, endOf, endOf, List.count_append]
    by_cases feed : c = '\n'
    · have stops : ¬ (c != '\n') = true := by simp [feed]
      rw [if_pos feed, List.rtakeWhile_concat_neg (· != '\n') _ _ stops, feed,
        List.count_singleton_self]
      rfl
    · have goesOn : (c != '\n') = true := by simp [feed]
      rw [if_neg feed, List.rtakeWhile_concat_pos (· != '\n') _ _ goesOn, List.countP_append]
      by_cases back : c = '\r'
      · simp [back]
      · simp [back, feed]
        omega

theorem order_le_after (position : Position) (c : Char) :
    position.order ≤ (position.after c).order := by
  rw [order, order, after, Prod.Lex.toLex_le_toLex]
  split
  · exact .inl (Nat.lt_succ_self _)
  · split
    · exact .inr ⟨rfl, Nat.le_refl _⟩
    · exact .inr ⟨rfl, Nat.le_succ _⟩

/-- Only a carriage return has no width. -/
theorem order_lt_after (position : Position) (wide : isBlank c = false) :
    position.order < (position.after c).order := by
  have notReturn : c ≠ '\r' := by
    rintro rfl
    exact absurd wide (by decide)
  rw [order, order, after, if_neg notReturn, Prod.Lex.toLex_lt_toLex]
  split
  · exact .inl (Nat.lt_succ_self _)
  · exact .inr ⟨rfl, Nat.lt_succ_self _⟩

theorem order_le_advance (position : Position) (text : List Char) :
    position.order ≤ (position.advance text).order := by
  induction text generalizing position with
  | nil => exact le_refl _
  | cons c text ih => exact (position.order_le_after c).trans (ih _)

theorem order_lt_advance (position : Position) (wide : isBlank c = false) (text : List Char) :
    position.order < (position.advance (c :: text)).order :=
  (position.order_lt_after wide).trans_le (order_le_advance _ text)

end Position

def Location.order (loc : Location) : Nat ×ₗ Nat :=
  toLex (loc.line, loc.column)

@[simp] theorem Position.order_inFile (position : Position) (file : String) :
    (position.inFile file).order = position.order := rfl

/-! ## Pieces in their text -/

/-- The text of a piece starts with a character that is no blank. -/
theorem Piece.StandsBefore.exists_cons {piece : Piece} (stands : piece.StandsBefore behind) :
    ∃ c more, piece.text = c :: more ∧ isBlank c = false := by
  cases stands with
  | opener bracket => exact ⟨_, _, rfl, by simp⟩
  | closer bracket => exact ⟨_, _, rfl, by simp⟩
  | string string =>
    obtain ⟨body, -, rfl⟩ := string
    exact ⟨_, _, rfl, isBlank_quote⟩
  | @run text run =>
    cases text with
    | nil => exact absurd rfl run.1
    | cons c more => exact ⟨c, more, rfl, not_isBlank_of_isRunChar (run.2.2 c List.mem_cons_self)⟩
  | unterminated => exact ⟨_, _, rfl, isBlank_quote⟩

/-- A piece of a text stands in it: behind a stretch that leads from the place where the text starts
to the place where the piece does. -/
def Lexeme.StandsIn (position : Position) (text : List Char) (lexeme : Lexeme) : Prop :=
  ∃ before behind, text = before ++ (lexeme.piece.text ++ behind) ∧
    lexeme.start = position.advance before ∧
    ∃ c more, lexeme.piece.text = c :: more ∧ isBlank c = false

theorem Lexeme.StandsIn.order_ge (stands : lexeme.StandsIn position text) :
    position.order ≤ lexeme.start.order := by
  obtain ⟨before, behind, -, starts, -⟩ := stands
  rw [starts]
  exact position.order_le_advance before

namespace Splits

theorem standsIn (splits : Splits position text pieces) (belongs : lexeme ∈ pieces) :
    lexeme.StandsIn position text := by
  induction splits with
  | blanks => cases belongs
  | @piece position start blanks behind piece pieces blank starts stands _ ih =>
    rcases List.mem_cons.mp belongs with rfl | later
    · exact ⟨blanks, behind, rfl, starts, stands.exists_cons⟩
    · obtain ⟨before, after, rfl, place, first⟩ := ih later
      refine ⟨blanks ++ (piece.text ++ before), after, by simp, ?_, first⟩
      rw [place, starts, Position.advance_append, Position.advance_append]

/-- Each piece of a text starts behind the ones before it. -/
theorem increasing (splits : Splits position text pieces) :
    pieces.Pairwise fun lexeme next => lexeme.start.order < next.start.order := by
  induction splits with
  | blanks => exact .nil
  | @piece position start blanks behind piece pieces blank starts stands rest ih =>
    refine .cons (fun next later => ?_) ih
    obtain ⟨c, more, first, wide⟩ := stands.exists_cons
    have onward := (rest.standsIn later).order_ge
    rw [first] at onward
    exact (Position.order_lt_advance _ wide more).trans_le onward

/-- A text of pieces is cut behind one of them into a text of the pieces up to it and the rest. -/
theorem cut_behind (splits : Splits position text (used ++ last :: rest)) :
    ∃ taken left, text = taken ++ left ∧ Splits position taken (used ++ [last]) ∧
      last.stop = position.advance taken ∧ rest = lexemes last.stop left := by
  induction used generalizing position text with
  | nil =>
    cases splits with
    | @piece _ start blanks behind piece _ blank starts stands onward =>
      refine ⟨blanks ++ piece.text, behind, by simp, ?_, ?_, onward.eq_lexemes⟩
      · have alone : piece.StandsBefore [] := by
          cases behind with
          | nil => exact stands
          | cons c behind => exact Piece.StandsBefore.of_append stands (List.cons_ne_nil _ _)
        simpa using Splits.piece blank starts alone (.blanks (by simp))
      · rw [starts, Position.advance_append]
  | cons first used ih =>
    cases splits with
    | @piece _ start blanks behind piece _ blank starts stands onward =>
      obtain ⟨taken, left, rfl, split, stop, same⟩ := ih onward
      refine ⟨blanks ++ (piece.text ++ taken), left, by simp, ?_, ?_, same⟩
      · have nonempty : used ++ [last] ≠ [] := by simp
        have alone : piece.StandsBefore taken := by
          cases left with
          | nil => simpa using stands
          | cons c left => exact stands.of_append (List.cons_ne_nil _ _)
        exact .piece blank starts alone split
      · rw [stop, starts, Position.advance_append, Position.advance_append]

end Splits

/-- Only a text of blanks has no pieces. -/
theorem lexemes_eq_nil_iff : lexemes position text = [] ↔ ∀ c ∈ text, isBlank c = true := by
  constructor
  · intro none
    have splits := splits_lexemes position text
    rw [none] at splits
    cases splits with
    | blanks blank => exact blank
  · exact fun blank => (Splits.blanks blank).eq_lexemes.symm

/-- The pieces of a text are those that follow the blanks in front of it. -/
theorem lexemes_dropWhile (position : Position) (text : List Char) :
    lexemes position text =
      lexemes (position.advance (text.takeWhile isBlank)) (text.dropWhile isBlank) := by
  have whole := (splits_lexemes (position.advance (text.takeWhile isBlank))
    (text.dropWhile isBlank)).behind_blanks fun c belongs => List.mem_takeWhile_imp belongs
  rw [List.takeWhile_append_dropWhile] at whole
  exact whole.eq_lexemes.symm

end ExprLang
