import Mathlib.Data.List.TakeWhile
import ExprLang.Form.Piece

/-!
# How text splits into pieces

`Splits` says what the pieces of a text are, without an algorithm: blanks stand between pieces,
and each piece is a bracket, a string that ends at the next quote, a string without an end, or a
run that cannot be made longer. Every text splits in exactly one way, and `lexemes` lists its
pieces (`splits_lexemes`, `Splits.eq_lexemes`).
-/

namespace ExprLang

/-- A text is a string: quotes around characters that are no quotes. -/
def IsStringText (text : List Char) : Prop :=
  ∃ body, '"' ∉ body ∧ text = '"' :: (body ++ ['"'])

/-- A text is a run: it is not empty, starts with no quote, and holds neither blanks nor brackets.
-/
def IsRunText (text : List Char) : Prop :=
  text ≠ [] ∧ text.head? ≠ some '"' ∧ ∀ c ∈ text, Piece.isRunChar c = true

/-- No run goes on in a text. -/
def EndsRun (behind : List Char) : Prop :=
  ∀ c, behind.head? = some c → Piece.isRunChar c = false

namespace Piece

/-- A piece can stand in front of a text as a piece of its own. -/
inductive StandsBefore (behind : List Char) : Piece → Prop where
  | opener (bracket : Bracket) : StandsBefore behind (.opener bracket)
  | closer (bracket : Bracket) : StandsBefore behind (.closer bracket)
  | string {text : List Char} (string : IsStringText text) : StandsBefore behind (.atom text)
  | run {text : List Char} (run : IsRunText text) (maximal : EndsRun behind) :
    StandsBefore behind (.atom text)
  | unterminated {body : List Char} (unclosed : '"' ∉ body) (last : behind = []) :
    StandsBefore behind (.unterminated ('"' :: body))

end Piece

/-- The pieces of a text that starts at a position, with the places where they start and stop. -/
inductive Splits : Position → List Char → List Lexeme → Prop where
  | blanks {position : Position} {text : List Char} (blank : ∀ c ∈ text, isBlank c = true) :
    Splits position text []
  | piece {position start : Position} {blanks behind : List Char} {piece : Piece}
      {pieces : List Lexeme} (blank : ∀ c ∈ blanks, isBlank c = true)
      (starts : start = position.advance blanks) (stands : piece.StandsBefore behind)
      (rest : Splits (start.advance piece.text) behind pieces) :
      Splits position (blanks ++ (piece.text ++ behind))
        (⟨piece, start, start.advance piece.text⟩ :: pieces)

/-! ## Characters -/

namespace Bracket

@[simp] theorem ofOpener?_opener (bracket : Bracket) : ofOpener? bracket.opener = some bracket := by
  cases bracket <;> rfl

@[simp] theorem ofCloser?_closer (bracket : Bracket) : ofCloser? bracket.closer = some bracket := by
  cases bracket <;> rfl

@[simp] theorem ofOpener?_closer (bracket : Bracket) : ofOpener? bracket.closer = none := by
  cases bracket <;> rfl

@[simp] theorem isBlank_opener (bracket : Bracket) : isBlank bracket.opener = false := by
  cases bracket <;> decide

@[simp] theorem isBlank_closer (bracket : Bracket) : isBlank bracket.closer = false := by
  cases bracket <;> decide

@[simp] theorem isRunChar_closer (bracket : Bracket) : Piece.isRunChar bracket.closer = false := by
  cases bracket <;> decide

end Bracket

@[simp] theorem isBlank_quote : isBlank '"' = false := by decide

namespace Piece

variable {c : Char} {rest behind text : List Char} {piece : Piece}

theorem not_isBlank_of_isRunChar (runs : isRunChar c = true) : isBlank c = false := by
  simp only [isRunChar, Bool.and_eq_true, Bool.not_eq_true'] at runs
  exact runs.1

theorem not_bracket_of_isRunChar (runs : isRunChar c = true) :
    Bracket.ofOpener? c = none ∧ Bracket.ofCloser? c = none := by
  simp only [isRunChar, isBracket, Bool.and_eq_true, Bool.not_eq_true', Bool.or_eq_false_iff,
    Option.isSome_eq_false_iff, Option.isNone_iff_eq_none] at runs
  exact runs.2

theorem isRunChar_of_not_bracket (notBlank : isBlank c = false)
    (notOpener : Bracket.ofOpener? c = none) (notCloser : Bracket.ofCloser? c = none) :
    isRunChar c = true := by
  simp [isRunChar, isBracket, notBlank, notOpener, notCloser]

/-! ## One piece -/

/-- The piece that a text starts with can stand before what follows it. -/
theorem standsBefore_split (notBlank : isBlank c = false) :
    (split c rest).1.StandsBefore (split c rest).2 := by
  unfold split
  split
  next bracket opens => exact .opener bracket
  next bracket _ closes => exact .closer bracket
  next notOpener notCloser =>
    have unquoted : '"' ∉ rest.takeWhile isStringChar := by
      intro belongs
      simpa [isStringChar] using List.mem_takeWhile_imp belongs
    split
    next quote =>
      subst quote
      dsimp only
      split
      next ends => exact .unterminated unquoted rfl
      next d later ends =>
        have quote : d = '"' := by
          have stops := List.head?_dropWhile_not isStringChar rest
          simpa [ends, isStringChar] using stops
        subst quote
        exact .string ⟨_, unquoted, rfl⟩
    next noQuote =>
      refine .run ⟨by simp, by simpa using noQuote, ?_⟩ ?_
      · intro d belongs
        rcases List.mem_cons.mp belongs with rfl | later
        · exact isRunChar_of_not_bracket notBlank notOpener notCloser
        · exact List.mem_takeWhile_imp later
      · intro d first
        have stops := List.head?_dropWhile_not isRunChar rest
        dsimp only at first
        rw [first] at stops
        simpa using stops

/-- Where the members of a class of characters stop, taking and dropping them splits a text. -/
theorem takeWhile_dropWhile_append {member : Char → Bool} (behind : List Char)
    (inside : ∀ c ∈ text, member c = true)
    (boundary : ∀ c, behind.head? = some c → member c = false) :
    (text ++ behind).takeWhile member = text ∧ (text ++ behind).dropWhile member = behind := by
  rw [List.takeWhile_append_of_pos inside, List.dropWhile_append_of_pos inside]
  cases behind with
  | nil => simp
  | cons c rest => simp [boundary c rfl]

theorem split_string {body : List Char} (closed : '"' ∉ body) :
    split '"' (body ++ '"' :: behind) = (.atom ('"' :: (body ++ ['"'])), behind) := by
  have inside : ∀ c ∈ body, isStringChar c = true := by
    intro c belongs
    simp only [isStringChar, bne_iff_ne, ne_eq]
    rintro rfl
    exact closed belongs
  obtain ⟨taken, left⟩ := takeWhile_dropWhile_append ('"' :: behind) inside
    (by simp [isStringChar])
  simp [split, Bracket.ofOpener?, Bracket.ofCloser?, taken, left]

theorem split_unterminated {body : List Char} (unclosed : '"' ∉ body) :
    split '"' body = (.unterminated ('"' :: body), []) := by
  have inside : ∀ c ∈ body, isStringChar c = true := by
    intro c belongs
    simp only [isStringChar, bne_iff_ne, ne_eq]
    rintro rfl
    exact unclosed belongs
  have taken := List.takeWhile_eq_self_iff.mpr inside
  have left : body.dropWhile isStringChar = [] := List.dropWhile_eq_nil_iff.mpr inside
  simp [split, Bracket.ofOpener?, Bracket.ofCloser?, taken, left]

theorem split_run (run : IsRunText (c :: text)) (maximal : EndsRun behind) :
    split c (text ++ behind) = (.atom (c :: text), behind) := by
  obtain ⟨-, noQuote, members⟩ := run
  rw [List.forall_mem_cons] at members
  obtain ⟨taken, left⟩ := takeWhile_dropWhile_append behind members.2 maximal
  obtain ⟨notOpener, notCloser⟩ := not_bracket_of_isRunChar members.1
  have notQuote : c ≠ '"' := by simpa using noQuote
  simp [split, notOpener, notCloser, notQuote, taken, left]

/-- A piece that can stand before a text is what the whole of both starts with. -/
theorem split_of_standsBefore (stands : piece.StandsBefore behind) :
    ∃ c rest, piece.text ++ behind = c :: rest ∧ isBlank c = false ∧
      split c rest = (piece, behind) := by
  cases stands with
  | opener bracket => exact ⟨_, behind, rfl, by simp, by simp [split]⟩
  | closer bracket => exact ⟨_, behind, rfl, by simp, by simp [split]⟩
  | string string =>
    obtain ⟨body, closed, rfl⟩ := string
    exact ⟨'"', body ++ '"' :: behind, by simp [text], by simp, split_string closed⟩
  | @run text run maximal =>
    cases text with
    | nil => exact absurd rfl run.1
    | cons c text =>
      exact ⟨c, text ++ behind, rfl, not_isBlank_of_isRunChar (run.2.2 c List.mem_cons_self),
        split_run run maximal⟩
  | unterminated unclosed last =>
    subst last
    exact ⟨'"', _, by simp [text], by simp, split_unterminated unclosed⟩

end Piece

/-! ## All pieces -/

/-- The pieces that reading finds are the pieces of the text. -/
theorem splits_lexemes (position : Position) (text : List Char) :
    Splits position text (lexemes position text) := by
  fun_induction lexemes position text with
  | case1 position text unread =>
    exact .blanks (List.dropWhile_eq_nil_iff.mp unread)
  | case2 position text c rest unread start piece stop shorter ih =>
    have notBlank : isBlank c = false := by
      have stops := List.head?_dropWhile_not isBlank text
      simpa [unread] using stops
    have whole : text = text.takeWhile isBlank ++ (piece.text ++ (Piece.split c rest).2) := by
      rw [Piece.text_append_split, ← unread, List.takeWhile_append_dropWhile]
    have split := Splits.piece (fun c belongs => List.mem_takeWhile_imp belongs) rfl
      (Piece.standsBefore_split notBlank) ih
    rwa [← whole] at split

/-- A text has no other pieces than those that reading finds. -/
theorem Splits.eq_lexemes {position : Position} {text : List Char} {pieces : List Lexeme}
    (splits : Splits position text pieces) : pieces = lexemes position text := by
  induction splits with
  | blanks blank =>
    rw [lexemes]
    split
    · rfl
    next c rest unread =>
      rw [List.dropWhile_eq_nil_iff.mpr blank] at unread
      cases unread
  | @piece position start blanks behind piece pieces blank starts stands rest ih =>
    -- A piece starts with no blank, so the blanks in front are all that are dropped.
    obtain ⟨c, others, first, notBlank, split⟩ := Piece.split_of_standsBefore stands
    obtain ⟨taken, left⟩ := Piece.takeWhile_dropWhile_append (piece.text ++ behind) blank
      (by simp [first, notBlank])
    rw [lexemes]
    split
    next nothing =>
      rw [left, first] at nothing
      cases nothing
    next d later unread =>
      rw [left, first] at unread
      cases unread
      simp only [split, taken, ← starts]
      rw [ih]

end ExprLang
